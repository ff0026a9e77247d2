import Mathlib.Data.List.Dedup
import Mathlib.Data.List.Induction
import Mathlib.Data.List.InsertIdx
import Mathlib.Data.List.Sort

/-!
# The largest members of a list

The `cap` largest distinct members of a list, ascending, and how they are kept as the list grows.

* `ascending`, `largest` — the distinct members in order; the last `cap` of them.
* `insertAfter` — a new member in its place; `capped` — a list without its first member when it is too
  long.
* `latest` — the last of those with the greatest key; `IsLatest` says what it is.

Principal results: `largest_congr` — the largest members do not depend on the order or on repetitions;
`largest_concat` — a new member is put in its place, and the smallest one goes when there are too many.
-/

namespace OTS

variable {α : Type} [LinearOrder α]

/-- The distinct members, ascending. -/
def ascending (xs : List α) : List α := xs.dedup.insertionSort (· ≤ ·)

/-- The `cap` largest distinct members, ascending; all of them if they are fewer. -/
def largest (cap : Nat) (xs : List α) : List α := (ascending xs).drop ((ascending xs).length - cap)

variable {cap : Nat} {xs ys : List α} {x : α}

theorem mem_ascending : x ∈ ascending xs ↔ x ∈ xs := by
  unfold ascending
  rw [List.mem_insertionSort, List.mem_dedup]

theorem ascending_pairwise (xs : List α) : (ascending xs).Pairwise (· < ·) := by
  have hle : (ascending xs).Pairwise (· ≤ ·) := List.pairwise_insertionSort _ _
  have hne : (ascending xs).Pairwise (· ≠ ·) :=
    (List.perm_insertionSort _ _).nodup_iff.2 (List.nodup_dedup xs)
  exact hle.imp₂ (fun _ _ h h' => lt_of_le_of_ne h h') hne

/-- A list in order with the same members is the one. -/
theorem ascending_eq {l : List α} (hl : l.Pairwise (· < ·)) (hmem : ∀ y, y ∈ l ↔ y ∈ xs) :
    ascending xs = l :=
  (ascending_pairwise xs).eq_of_mem_iff hl fun y => mem_ascending.trans (hmem y).symm

theorem largest_congr (cap : Nat) (h : ∀ y, y ∈ xs ↔ y ∈ ys) : largest cap xs = largest cap ys := by
  have heq : ascending xs = ascending ys :=
    ascending_eq (ascending_pairwise ys) fun y => mem_ascending.trans (h y).symm
  unfold largest
  rw [heq]

theorem largest_pairwise (cap : Nat) (xs : List α) : (largest cap xs).Pairwise (· < ·) :=
  (ascending_pairwise xs).sublist (List.drop_sublist _ _)

theorem length_largest (cap : Nat) (xs : List α) :
    (largest cap xs).length = min cap (ascending xs).length := by
  unfold largest
  rw [List.length_drop]
  omega

theorem largest_nil : largest cap ([] : List α) = [] :=
  List.eq_nil_of_length_eq_zero (by rw [length_largest]; simp [ascending])

theorem mem_of_mem_largest (h : x ∈ largest cap xs) : x ∈ xs :=
  mem_ascending.1 (List.mem_of_mem_drop h)

/-- The largest members are what is left of all but the smallest, of which there are none if there is
room. -/
theorem largest_split (cap : Nat) (xs : List α) :
    ∃ low, ascending xs = low ++ largest cap xs ∧
      (low = [] ∧ (largest cap xs).length ≤ cap ∨ (largest cap xs).length = cap) := by
  refine ⟨(ascending xs).take ((ascending xs).length - cap), (List.take_append_drop _ _).symm, ?_⟩
  rw [length_largest]
  by_cases hfew : (ascending xs).length ≤ cap
  · left
    rw [Nat.sub_eq_zero_of_le hfew]
    exact ⟨rfl, min_le_left _ _⟩
  · right
    omega

theorem largest_eq (low : List α) {ts : List α} (hsplit : ascending xs = low ++ ts)
    (hlength : low = [] ∧ ts.length ≤ cap ∨ ts.length = cap) : largest cap xs = ts := by
  unfold largest
  rw [hsplit, List.length_append]
  rcases hlength with ⟨rfl, hfew⟩ | hfull
  · rw [List.nil_append, List.length_nil, Nat.zero_add, Nat.sub_eq_zero_of_le hfew]
    rfl
  · rw [hfull, Nat.add_sub_cancel]
    exact List.drop_left

/-! ## Insertion -/

/-- `x` after the members up to it. -/
def insertAfter (x : α) (l : List α) : List α := l.insertIdx (l.takeWhile (· ≤ x)).length x

/-- The list without its first member when there are too many. -/
def capped (cap : Nat) (l : List α) : List α := if cap < l.length then l.drop 1 else l

variable {l low : List α}

theorem insertAfter_eq (x : α) (l : List α) :
    insertAfter x l = l.takeWhile (· ≤ x) ++ x :: l.dropWhile (· ≤ x) := by
  induction l with
  | nil => rfl
  | cons y l ih =>
    by_cases hy : y ≤ x
    · have hrest : insertAfter x (y :: l) = y :: insertAfter x l := by simp [insertAfter, hy]
      rw [hrest, ih]
      simp [hy]
    · simp [insertAfter, hy]

theorem mem_insertAfter {y : α} : y ∈ insertAfter x l ↔ y = x ∨ y ∈ l := by
  rw [insertAfter_eq, List.mem_append, List.mem_cons]
  conv_rhs => rw [← List.takeWhile_append_dropWhile (p := (· ≤ x)) (l := l), List.mem_append]
  tauto

theorem length_insertAfter (x : α) (l : List α) : (insertAfter x l).length = l.length + 1 :=
  List.length_insertIdx_of_le_length (List.takeWhile_sublist _).length_le _

theorem lt_of_mem_dropWhile {y : α} (hl : l.Pairwise (· < ·)) (hy : y ∈ l.dropWhile (· ≤ x)) : x < y := by
  induction l with
  | nil => cases hy
  | cons z l ih =>
    obtain ⟨hz, hl⟩ := List.pairwise_cons.1 hl
    rw [List.dropWhile_cons] at hy
    split at hy
    · exact ih hl hy
    · rename_i hle
      have hlt : x < z := not_le.1 fun h => hle (decide_eq_true h)
      rcases List.mem_cons.1 hy with rfl | hy
      · exact hlt
      · exact hlt.trans (hz y hy)

theorem insertAfter_pairwise (hl : l.Pairwise (· < ·)) (hx : x ∉ l) :
    (insertAfter x l).Pairwise (· < ·) := by
  rw [insertAfter_eq, List.pairwise_append, List.pairwise_cons]
  have hbelow : ∀ y ∈ l.takeWhile (· ≤ x), y < x := by
    intro y hy
    have hle : y ≤ x := of_decide_eq_true (List.all_eq_true.1 List.all_takeWhile y hy)
    exact lt_of_le_of_ne hle fun h => hx (h ▸ (List.takeWhile_sublist _).mem hy)
  refine ⟨hl.sublist (List.takeWhile_sublist _),
    ⟨fun y hy => lt_of_mem_dropWhile hl hy, hl.sublist (List.dropWhile_sublist _)⟩, ?_⟩
  intro y hy z hz
  rcases List.mem_cons.1 hz with rfl | hz
  · exact hbelow y hy
  · exact (hbelow y hy).trans (lt_of_mem_dropWhile hl hz)

theorem insertAfter_append (h : ∀ y ∈ low, y ≤ x) :
    insertAfter x (low ++ l) = low ++ insertAfter x l := by
  have htake : (low ++ l).takeWhile (· ≤ x) = low ++ l.takeWhile (· ≤ x) :=
    List.takeWhile_append_of_pos fun y hy => decide_eq_true (h y hy)
  have hdrop : (low ++ l).dropWhile (· ≤ x) = l.dropWhile (· ≤ x) :=
    List.dropWhile_append_of_pos fun y hy => decide_eq_true (h y hy)
  rw [insertAfter_eq, insertAfter_eq, htake, hdrop, List.append_assoc]

theorem takeWhile_of_lt (h : ∀ y ∈ l, x < y) : l.takeWhile (· ≤ x) = [] := by
  cases l with
  | nil => rfl
  | cons y l =>
    have hy : ¬ y ≤ x := not_le.2 (h y List.mem_cons_self)
    simp [hy]

theorem insertAfter_of_lt (h : ∀ y ∈ l, x < y) : insertAfter x l = x :: l := by
  unfold insertAfter
  rw [takeWhile_of_lt h]
  rfl

/-! ## One member more -/

/-- A member that is too small is put first, and goes at once. -/
theorem capped_of_lt (hfull : l.length = cap) (h : ∀ y ∈ l, x < y) :
    insertAfter x l = x :: l ∧ capped cap (insertAfter x l) = l := by
  have hfirst := insertAfter_of_lt h
  refine ⟨hfirst, ?_⟩
  unfold capped
  rw [if_pos (by rw [length_insertAfter]; omega), hfirst]
  rfl

/-- A member that is not retained was never seen, or is too small. -/
theorem lt_of_not_mem_largest (hx : x ∈ xs) (hout : x ∉ largest cap xs) :
    (largest cap xs).length = cap ∧ ∀ y ∈ largest cap xs, x < y := by
  obtain ⟨low, hsplit, hlength⟩ := largest_split cap xs
  have hlow : x ∈ low := by
    have hmem := mem_ascending.2 hx
    rw [hsplit] at hmem
    exact (List.mem_append.1 hmem).resolve_right hout
  have hpair := ascending_pairwise xs
  rw [hsplit, List.pairwise_append] at hpair
  refine ⟨hlength.resolve_left ?_, fun y hy => hpair.2.2 x hlow y hy⟩
  rintro ⟨rfl, -⟩
  cases hlow

/-- A new member of what has been seen: it comes after all that have gone, or before what is retained. -/
theorem largest_concat_new (hx : x ∉ xs) :
    largest cap (xs ++ [x]) = capped cap (insertAfter x (largest cap xs)) := by
  obtain ⟨low, hsplit, hlength⟩ := largest_split cap xs
  have hpair := ascending_pairwise xs
  have hnew : x ∉ ascending xs := fun h => hx (mem_ascending.1 h)
  have hmem : ∀ y, y ∈ xs ++ [x] ↔ y = x ∨ y ∈ low ∨ y ∈ largest cap xs := by
    intro y
    rw [List.mem_append, List.mem_singleton, ← mem_ascending, hsplit, List.mem_append, or_comm]
  rw [hsplit] at hpair hnew
  have hsplit' := List.pairwise_append.1 hpair
  by_cases hbelow : ∀ y ∈ low, y ≤ x
  · have hins : ascending (xs ++ [x]) = low ++ insertAfter x (largest cap xs) := by
      rw [← insertAfter_append hbelow]
      apply ascending_eq (insertAfter_pairwise hpair hnew)
      intro y
      rw [mem_insertAfter, List.mem_append, hmem]
    have hl := length_insertAfter x (largest cap xs)
    unfold capped
    split
    · rename_i hfull
      obtain ⟨a, rest, hcons⟩ := List.exists_cons_of_length_pos (l := insertAfter x (largest cap xs))
        (by omega)
      rw [hcons] at hins hl ⊢
      rw [List.length_cons] at hl
      apply largest_eq (low ++ [a])
      · rw [hins, List.append_assoc]
        rfl
      · right
        show rest.length = cap
        rw [hcons, List.length_cons] at hfull
        omega
    · rename_i hroom
      apply largest_eq low hins
      left
      exact ⟨(hlength.resolve_right (by omega)).1, by omega⟩
  · push Not at hbelow
    obtain ⟨y, hy, hxy⟩ := hbelow
    have hsmall : ∀ z ∈ largest cap xs, x < z := fun z hz => hxy.trans (hsplit'.2.2 y hy z hz)
    have hfull : (largest cap xs).length = cap := by
      refine hlength.resolve_left ?_
      rintro ⟨rfl, -⟩
      cases hy
    rw [(capped_of_lt hfull hsmall).2]
    refine largest_eq (insertAfter x low) ?_ (.inr hfull)
    apply ascending_eq
    · have hxlow : x ∉ low := fun h => hnew (List.mem_append_left _ h)
      refine List.pairwise_append.2 ⟨insertAfter_pairwise hsplit'.1 hxlow, hsplit'.2.1, ?_⟩
      intro z hz w hw
      rcases mem_insertAfter.1 hz with rfl | hz
      · exact hsmall w hw
      · exact hsplit'.2.2 z hz w hw
    · intro z
      rw [List.mem_append, mem_insertAfter, hmem, or_assoc]

/-- A member that is seen again changes nothing. -/
theorem largest_concat_of_mem (hx : x ∈ xs) : largest cap (xs ++ [x]) = largest cap xs := by
  apply largest_congr
  intro y
  rw [List.mem_append, List.mem_singleton]
  exact ⟨fun h => h.elim id fun h => h ▸ hx, .inl⟩

/-- **One member more**: it is put in its place, and the smallest goes when there are too many. -/
theorem largest_concat (hx : x ∉ largest cap xs) :
    largest cap (xs ++ [x]) = capped cap (insertAfter x (largest cap xs)) := by
  by_cases hseen : x ∈ xs
  · -- it has gone before, and is too small
    obtain ⟨hfull, hsmall⟩ := lt_of_not_mem_largest hseen hx
    rw [(capped_of_lt hfull hsmall).2, largest_concat_of_mem hseen]
  · exact largest_concat_new hseen

/-! ## The last of the greatest -/

section latest

variable {ι : Type} (key : ι → α)

/-- The last of the greatest of a member and those after it. -/
def latest (b : ι) (xs : List ι) : ι := xs.foldl (fun m x => if key m ≤ key x then x else m) b

/-- A member none before it is greater than, and all after it are less than. -/
def IsLatest (m : ι) (xs : List ι) : Prop :=
  ∃ before after, xs = before ++ m :: after ∧ (∀ x ∈ before, key x ≤ key m) ∧ ∀ x ∈ after, key x < key m

variable {key}

theorem IsLatest.mem {m : ι} {xs : List ι} (h : IsLatest key m xs) : m ∈ xs := by
  obtain ⟨before, after, rfl, -, -⟩ := h
  exact List.mem_append_right _ List.mem_cons_self

theorem IsLatest.le {m : ι} {xs : List ι} (h : IsLatest key m xs) : ∀ x ∈ xs, key x ≤ key m := by
  obtain ⟨before, after, rfl, hbefore, hafter⟩ := h
  intro x hx
  rcases List.mem_append.1 hx with hx | hx
  · exact hbefore x hx
  · rcases List.mem_cons.1 hx with rfl | hx
    · exact le_refl _
    · exact (hafter x hx).le

/-- There is one only. -/
theorem IsLatest.unique {m m' : ι} {xs : List ι} (h : IsLatest key m xs) (h' : IsLatest key m' xs) :
    m = m' := by
  obtain ⟨before, after, rfl, -, hafter⟩ := id h
  obtain ⟨before', after', heq, -, hafter'⟩ := id h'
  rcases List.append_eq_append_iff.1 heq with ⟨mid, hb, hm⟩ | ⟨mid, hb, hm⟩
  · cases mid with
    | nil => exact (List.cons.inj hm).1
    | cons x mid =>
      have hlt := hafter m' (by
        rw [(List.cons.inj hm).2]
        exact List.mem_append_right _ List.mem_cons_self)
      exact absurd (h'.le m h.mem) (not_le.2 hlt)
  · cases mid with
    | nil => exact (List.cons.inj hm).1.symm
    | cons x mid =>
      have hlt := hafter' m (by
        rw [(List.cons.inj hm).2]
        exact List.mem_append_right _ List.mem_cons_self)
      exact absurd (h.le m' (heq ▸ h'.mem)) (not_le.2 hlt)

theorem isLatest_concat {m x : ι} {xs : List ι} (h : IsLatest key m xs) :
    IsLatest key (if key m ≤ key x then x else m) (xs ++ [x]) := by
  split
  · rename_i hle
    exact ⟨xs, [], rfl, fun y hy => (h.le y hy).trans hle, fun _ hy => (List.not_mem_nil hy).elim⟩
  · rename_i hlt
    obtain ⟨before, after, rfl, hbefore, hafter⟩ := h
    refine ⟨before, after ++ [x], by simp, hbefore, fun y hy => ?_⟩
    rcases List.mem_append.1 hy with hy | hy
    · exact hafter y hy
    · rw [List.mem_singleton.1 hy]
      exact not_le.1 hlt

/-- **What a fold keeps that takes each member that is not less.** -/
theorem isLatest_latest (b : ι) (xs : List ι) : IsLatest key (latest key b xs) (b :: xs) := by
  induction xs using List.reverseRecOn with
  | nil => exact ⟨[], [], rfl, fun _ h => (List.not_mem_nil h).elim, fun _ h => (List.not_mem_nil h).elim⟩
  | append_singleton xs x ih =>
    unfold latest at ih ⊢
    rw [List.foldl_append, ← List.cons_append]
    exact isLatest_concat ih

theorem exists_isLatest {xs : List ι} (h : xs ≠ []) : ∃ m, IsLatest key m xs := by
  cases xs with
  | nil => exact absurd rfl h
  | cons x xs => exact ⟨_, isLatest_latest x xs⟩

/-- The member put before the others goes if one of them is as great. -/
theorem IsLatest.of_cons {b m x : ι} {xs : List ι} (h : IsLatest key m (b :: xs)) (hx : x ∈ xs)
    (hle : key b ≤ key x) : IsLatest key m xs := by
  obtain ⟨before, after, heq, hbefore, hafter⟩ := h
  cases before with
  | nil =>
    obtain ⟨rfl, rfl⟩ := List.cons.inj heq
    exact absurd (hafter x hx) (not_lt.2 hle)
  | cons b' before =>
    obtain ⟨rfl, rfl⟩ := List.cons.inj heq
    exact ⟨before, after, rfl, fun y hy => hbefore y (List.mem_cons_of_mem _ hy), hafter⟩

end latest

end OTS
