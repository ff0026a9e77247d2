import Mathlib.Data.Int.ConditionallyCompleteOrder
import Mathlib.Data.Int.Interval
import Mathlib.Order.ConditionallyCompleteLattice.Indexed

/-!
# Unseen integers in a range

`unseen S a b` counts the integers of `[a, b]` outside a finite set `S`.  The lemmas say how the
count changes when the range is split, when its upper end moves and when an element is added to
`S`; they are what a sliding window over a growing set needs.
-/

namespace OTS

open Finset

/-- Integers of `[a, b]` that are not in `S`. -/
noncomputable def unseen (S : Finset ℤ) (a b : ℤ) : ℕ := ((Icc a b).filter (· ∉ S)).card

theorem unseen_empty {S : Finset ℤ} {a b : ℤ} (h : b < a) : unseen S a b = 0 := by
  unfold unseen
  rw [Icc_eq_empty (by omega)]
  rfl

/-- A range splits at any interior point. -/
theorem unseen_split (S : Finset ℤ) {a m b : ℤ} (ham : a ≤ m + 1) (hmb : m ≤ b) :
    unseen S a b = unseen S a m + unseen S (m + 1) b := by
  have hunion : Icc a b = Icc a m ∪ Icc (m + 1) b := by
    ext x; simp only [mem_Icc, mem_union]; omega
  have hdisj : Disjoint (Icc a m) (Icc (m + 1) b) := by
    rw [disjoint_left]; intro x; simp only [mem_Icc]; omega
  unfold unseen
  rw [hunion, filter_union, card_union_of_disjoint (disjoint_filter_filter hdisj)]

theorem unseen_singleton (S : Finset ℤ) (a : ℤ) : unseen S a a = if a ∈ S then 0 else 1 := by
  unfold unseen
  rw [Icc_self, filter_singleton]
  by_cases h : a ∈ S <;> simp [h]

theorem unseen_succ (S : Finset ℤ) {a m : ℤ} (h : a ≤ m + 1) :
    unseen S a (m + 1) = unseen S a m + if m + 1 ∈ S then 0 else 1 := by
  rw [unseen_split S h (by omega), unseen_singleton]

/-- Nothing of the range has been seen. -/
theorem unseen_fresh {S : Finset ℤ} {a b : ℤ} (h : ∀ x ∈ S, ¬ (a ≤ x ∧ x ≤ b)) :
    unseen S a b = (b + 1 - a).toNat := by
  unfold unseen
  rw [filter_true_of_mem, Int.card_Icc]
  intro x hx hS
  exact h x hS (mem_Icc.1 hx)

/-- An element outside the range does not change its count. -/
theorem unseen_insert_out {S : Finset ℤ} {a b q : ℤ} (h : ¬ (a ≤ q ∧ q ≤ b)) :
    unseen (insert q S) a b = unseen S a b := by
  unfold unseen
  congr 1
  apply filter_congr
  intro x hx
  have : x ≠ q := fun e => h (e ▸ mem_Icc.1 hx)
  simp [this]

/-- A new element of the range takes one off its count. -/
theorem unseen_insert_in {S : Finset ℤ} {a b q : ℤ} (h : a ≤ q ∧ q ≤ b) (hq : q ∉ S) :
    unseen (insert q S) a b + 1 = unseen S a b := by
  have hmem : q ∈ (Icc a b).filter (· ∉ S) := mem_filter.2 ⟨mem_Icc.2 h, hq⟩
  have herase : (Icc a b).filter (· ∉ insert q S) = ((Icc a b).filter (· ∉ S)).erase q := by
    ext x; simp only [mem_filter, mem_insert, mem_erase, not_or]; tauto
  unfold unseen
  rw [herase, card_erase_add_one hmem]

/-- Members and non-members together fill the range. -/
theorem card_add_unseen {S : Finset ℤ} {a b : ℤ} (hS : ∀ x ∈ S, a ≤ x ∧ x ≤ b) :
    (S.card : ℤ) + unseen S a b = (b + 1 - a).toNat := by
  have hin : (Icc a b).filter (· ∈ S) = S := by
    ext x; simp only [mem_filter, mem_Icc]; exact ⟨fun h => h.2, fun h => ⟨hS x h, h⟩⟩
  have := card_filter_add_card_filter_not (s := Icc a b) (· ∈ S)
  rw [hin, Int.card_Icc] at this
  unfold unseen
  exact_mod_cast this

end OTS
