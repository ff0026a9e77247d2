import Mathlib.Data.List.Basic
import Mathlib.Data.List.Induction

/-!
# Texts joined by a separator

Lists joined by one element that may occur inside them.

* `append_sep_inj` — the first separator is found again.
* `intercalate_nest` — a joined text among the parts counts as its parts.
* `cons_parts_inj`, `snoc_parts_inj` — a part without the separator is determined, at the front and at the
  end.

Principal result: `fields_inj` — a text joined of fields without the separator around one key that may
contain it determines the fields and the key.
-/

namespace OTS

variable {α : Type} {sep : α}

/-- A text up to the first separator and the rest are determined by the whole. -/
theorem append_sep_inj {a b s t : List α} (ha : sep ∉ a) (hb : sep ∉ b) (h : a ++ sep :: s = b ++ sep :: t) :
    a = b ∧ s = t := by
  induction a generalizing b with
  | nil =>
    cases b with
    | nil => exact ⟨rfl, (List.cons.inj h).2⟩
    | cons y b => exact absurd ((List.cons.inj h).1 ▸ List.mem_cons_self) hb
  | cons x a ih =>
    cases b with
    | nil => exact absurd ((List.cons.inj h).1 ▸ List.mem_cons_self) ha
    | cons y b =>
      obtain ⟨rfl, htail⟩ := List.cons.inj h
      obtain ⟨rfl, hst⟩ := ih (fun hm => ha (.tail _ hm)) (fun hm => hb (.tail _ hm)) htail
      exact ⟨rfl, hst⟩

/-- What is joined last counts as its parts. -/
theorem intercalate_nest (xs : List (List α)) {ys : List (List α)} (hys : ys ≠ []) :
    [sep].intercalate (xs ++ [[sep].intercalate ys]) = [sep].intercalate (xs ++ ys) := by
  induction xs with
  | nil => rw [List.nil_append, List.nil_append, List.intercalate_singleton]
  | cons x xs ih =>
    rw [List.cons_append, List.cons_append, List.intercalate_cons_of_ne_nil (by simp),
      List.intercalate_cons_of_ne_nil (by simp [hys]), ih]

theorem intercalate_cons {x : List α} {xs : List (List α)} (hxs : xs ≠ []) :
    [sep].intercalate (x :: xs) = x ++ sep :: [sep].intercalate xs := by
  rw [List.intercalate_cons_of_ne_nil hxs, List.append_assoc, List.singleton_append]

theorem intercalate_concat {xs : List (List α)} (hxs : xs ≠ []) (y : List α) :
    [sep].intercalate (xs ++ [y]) = [sep].intercalate xs ++ sep :: y := by
  induction xs with
  | nil => exact absurd rfl hxs
  | cons x xs ih =>
    by_cases hnil : xs = []
    · subst hnil
      rw [List.singleton_append, intercalate_cons (by simp), List.intercalate_singleton,
        List.intercalate_singleton]
    · rw [List.cons_append, intercalate_cons (by simp), ih hnil, intercalate_cons hnil, List.append_assoc,
        List.cons_append]

/-- A first part without the separator is determined. -/
theorem cons_parts_inj {x x' : List α} {xs xs' : List (List α)} (hx : sep ∉ x) (hx' : sep ∉ x')
    (hxs : xs ≠ []) (hxs' : xs' ≠ [])
    (h : [sep].intercalate (x :: xs) = [sep].intercalate (x' :: xs')) :
    x = x' ∧ [sep].intercalate xs = [sep].intercalate xs' := by
  rw [intercalate_cons hxs, intercalate_cons hxs'] at h
  exact append_sep_inj hx hx' h

/-- A last part without the separator is determined. -/
theorem snoc_parts_inj {y y' : List α} {xs xs' : List (List α)} (hy : sep ∉ y) (hy' : sep ∉ y')
    (hxs : xs ≠ []) (hxs' : xs' ≠ [])
    (h : [sep].intercalate (xs ++ [y]) = [sep].intercalate (xs' ++ [y'])) :
    [sep].intercalate xs = [sep].intercalate xs' ∧ y = y' := by
  rw [intercalate_concat hxs, intercalate_concat hxs'] at h
  have hreverse := congrArg List.reverse h
  simp only [List.reverse_append, List.reverse_cons, List.append_assoc, List.singleton_append] at hreverse
  obtain ⟨hlast, hrest⟩ := append_sep_inj (mt List.mem_reverse.1 hy) (mt List.mem_reverse.1 hy') hreverse
  exact ⟨List.reverse_injective hrest, List.reverse_injective hlast⟩

/-- Fields without the separator in front of a text that is not empty of parts. -/
theorem front_fields_inj {pre pre' : List (List α)} (hlen : pre.length = pre'.length)
    (hpre : ∀ x ∈ pre, sep ∉ x) (hpre' : ∀ x ∈ pre', sep ∉ x) {xs xs' : List (List α)} (hxs : xs ≠ [])
    (hxs' : xs' ≠ []) (h : [sep].intercalate (pre ++ xs) = [sep].intercalate (pre' ++ xs')) :
    pre = pre' ∧ [sep].intercalate xs = [sep].intercalate xs' := by
  induction pre generalizing pre' with
  | nil =>
    cases pre' with
    | nil => exact ⟨rfl, h⟩
    | cons x' pre' => cases hlen
  | cons x pre ih =>
    cases pre' with
    | nil => cases hlen
    | cons x' pre' =>
      rw [List.forall_mem_cons] at hpre hpre'
      obtain ⟨rfl, hrest⟩ := cons_parts_inj hpre.1 hpre'.1 (by simp [hxs]) (by simp [hxs']) h
      obtain ⟨rfl, hend⟩ := ih (Nat.succ.inj hlen) hpre.2 hpre'.2 hrest
      exact ⟨rfl, hend⟩

/-- Fields without the separator behind a text. -/
theorem back_fields_inj {post post' : List (List α)} (hlen : post.length = post'.length)
    (hpost : ∀ x ∈ post, sep ∉ x) (hpost' : ∀ x ∈ post', sep ∉ x) {key key' : List α}
    (h : [sep].intercalate (key :: post) = [sep].intercalate (key' :: post')) :
    key = key' ∧ post = post' := by
  induction post using List.reverseRecOn generalizing post' with
  | nil =>
    obtain rfl := List.length_eq_zero_iff.1 hlen.symm
    rw [List.intercalate_singleton, List.intercalate_singleton] at h
    exact ⟨h, rfl⟩
  | append_singleton post y ih =>
    obtain ⟨post', y', rfl⟩ : ∃ init last, post' = init ++ [last] := by
      have hne : post' ≠ [] := by
        rintro rfl
        simp at hlen
      exact ⟨_, _, (List.dropLast_append_getLast hne).symm⟩
    simp only [List.length_append, List.length_singleton, Nat.add_right_cancel_iff] at hlen
    rw [List.forall_mem_append, List.forall_mem_singleton] at hpost hpost'
    rw [← List.cons_append, ← List.cons_append] at h
    obtain ⟨hinit, rfl⟩ := snoc_parts_inj hpost.2 hpost'.2 (by simp) (by simp) h
    obtain ⟨rfl, rfl⟩ := ih hlen hpost.1 hpost'.1 hinit
    exact ⟨rfl, rfl⟩

/-- **A joined text determines its fields and the one key among them** that may contain the separator. -/
theorem fields_inj {pre pre' post post' : List (List α)} {key key' : List α}
    (hpre : pre.length = pre'.length) (hpost : post.length = post'.length)
    (hfree : ∀ x ∈ pre ++ post, sep ∉ x) (hfree' : ∀ x ∈ pre' ++ post', sep ∉ x)
    (h : [sep].intercalate (pre ++ key :: post) = [sep].intercalate (pre' ++ key' :: post')) :
    pre = pre' ∧ key = key' ∧ post = post' := by
  rw [List.forall_mem_append] at hfree hfree'
  obtain ⟨rfl, hrest⟩ := front_fields_inj hpre hfree.1 hfree'.1 (by simp) (by simp) h
  obtain ⟨rfl, rfl⟩ := back_fields_inj hpost hfree.2 hfree'.2 hrest
  exact ⟨rfl, rfl, rfl⟩

end OTS
