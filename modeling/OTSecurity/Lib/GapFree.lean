import Mathlib.Data.Set.Insert

/-!
# Delivery without gaps

Updates that are due arrive one after another over a line.

* `Closed` — with every update, a receiver has all due updates with a smaller key.
* `GapFree` — the updates on the line arrive so that the receiver stays closed.

Principal results: `Closed.receive` — what one arrival does; `gapFree_concat` — an update that enters
the line; `GapFree.remove` — an update that is taken off it, as if it had been received before;
`gapFree_of_sorted` — updates in the order of their keys.
-/

namespace OTS

variable {α : Type} {key : α → ℕ} {due due' : α → Prop} {R R' : Set α} {L M : List α} {x y : α}

/-- With every update, all due updates with a smaller key have been received. -/
def Closed (key : α → ℕ) (due : α → Prop) (R : Set α) : Prop :=
  ∀ y ∈ R, ∀ x, due x → key x < key y → x ∈ R

/-- Updates on a line, next first, each behind all due updates with a smaller key. -/
def GapFree (key : α → ℕ) (due : α → Prop) : Set α → List α → Prop
  | _, [] => True
  | R, y :: L => (∀ x, due x → key x < key y → x ∈ R) ∧ GapFree key due (insert y R) L

@[simp] theorem gapFree_nil : GapFree key due R [] := trivial

/-- **One arrival.** -/
theorem Closed.receive (h : Closed key due R) (hL : GapFree key due R (y :: L)) :
    Closed key due (insert y R) ∧ GapFree key due (insert y R) L := by
  refine ⟨?_, hL.2⟩
  rintro z (rfl | hz) x hx hlt
  · exact .inr (hL.1 x hx hlt)
  · exact .inr (h z hz x hx hlt)

theorem Closed.mono (h : Closed key due R)
    (hdue : ∀ y ∈ R, ∀ x, due' x → key x < key y → due x) : Closed key due' R :=
  fun y hy x hx hlt => h y hy x (hdue y hy x hx hlt) hlt

theorem GapFree.received (h : GapFree key due R L) (hR : R ⊆ R') : GapFree key due R' L := by
  induction L generalizing R R' with
  | nil => exact trivial
  | cons y L ih =>
    exact ⟨fun x hx hlt => hR (h.1 x hx hlt), ih h.2 (Set.insert_subset_insert hR)⟩

theorem GapFree.mono (h : GapFree key due R L)
    (hdue : ∀ y ∈ L, ∀ x, due' x → key x < key y → due x) : GapFree key due' R L := by
  induction L generalizing R with
  | nil => exact trivial
  | cons y L ih =>
    refine ⟨fun x hx hlt => h.1 x (hdue y List.mem_cons_self x hx hlt) hlt, ?_⟩
    exact ih h.2 fun z hz => hdue z (List.mem_cons_of_mem _ hz)

/-- **An update enters the line.** -/
theorem gapFree_concat : GapFree key due R (L ++ [y]) ↔
    GapFree key due R L ∧ ∀ x, due x → key x < key y → x ∈ R ∨ x ∈ L := by
  induction L generalizing R with
  | nil => simp [GapFree]
  | cons z L ih =>
    rw [List.cons_append, GapFree, GapFree, ih, and_assoc]
    refine and_congr_right fun _ => and_congr_right fun _ => forall₃_congr fun x _ _ => ?_
    rw [Set.mem_insert_iff, List.mem_cons]
    rw [or_comm (a := x = z), or_assoc]

/-- **An update is taken off the line.** -/
theorem GapFree.remove (h : GapFree key due R (L ++ x :: M)) :
    GapFree key due (insert x R) (L ++ M) := by
  induction L generalizing R with
  | nil => exact h.2
  | cons z L ih =>
    refine ⟨fun w hw hlt => .inr (h.1 w hw hlt), ?_⟩
    rw [Set.insert_comm]
    exact ih h.2

/-- **Updates in the order of their keys**, together with what has been received. -/
theorem gapFree_of_sorted (hsorted : L.Pairwise (fun a b => key a < key b))
    (hall : ∀ y ∈ L, ∀ x, due x → key x < key y → x ∈ R ∨ x ∈ L) : GapFree key due R L := by
  induction L generalizing R with
  | nil => exact trivial
  | cons y L ih =>
    obtain ⟨hfirst, hrest⟩ := List.pairwise_cons.1 hsorted
    constructor
    · intro x hx hlt
      refine (hall y List.mem_cons_self x hx hlt).resolve_right fun hmem => ?_
      rcases List.mem_cons.1 hmem with rfl | hmem
      · exact lt_irrefl _ hlt
      · exact lt_asymm hlt (hfirst x hmem)
    · refine ih hrest fun z hz x hx hlt => ?_
      rcases hall z (List.mem_cons_of_mem _ hz) x hx hlt with hR | hmem
      · exact .inl (.inr hR)
      · rcases List.mem_cons.1 hmem with rfl | hmem
        · exact .inl (.inl rfl)
        · exact .inr hmem

end OTS
