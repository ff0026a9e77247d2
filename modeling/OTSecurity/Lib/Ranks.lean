import Mathlib.Algebra.BigOperators.Group.List.Basic
import Mathlib.Algebra.Order.Field.Rat
import Mathlib.Data.List.ProdSigma
import Mathlib.Tactic.LinearCombination
import Mathlib.Tactic.Ring

/-!
# Ranks and order statistics

Lists of values of a linear order, with ties.

* `avgRank` — the rank of a value among others, ties averaged.
* `beats`, `wins` — how often the values of one list beat those of another, a tie counting one half.
* `le_countP_le_getElem`, `countP_lt_getElem_le` — how many values reach, and exceed, one of a sorted list.
* `countP_of_places` — how many elements stand at some consecutive places.

Principal result: `rankSum_eq` — the sum of the ranks of some values among themselves and others.
-/

namespace OTS

variable {α : Type} [LinearOrder α]

/-! ## Order statistics -/

/-- At least what stands from a place of a sorted list on reaches the value there. -/
theorem le_countP_le_getElem {xs : List α} (hs : xs.Pairwise (· ≤ ·)) {k : Nat} (hk : k < xs.length) :
    xs.length - k ≤ xs.countP (xs[k] ≤ ·) := by
  have hall : (xs.drop k).countP (xs[k] ≤ ·) = (xs.drop k).length := by
    rw [List.countP_eq_length]
    intro x hx
    obtain ⟨i, hi, rfl⟩ := List.mem_iff_getElem.1 hx
    rw [List.getElem_drop, decide_eq_true_eq]
    rcases Nat.eq_zero_or_pos i with rfl | hpos
    · exact le_rfl
    · exact List.pairwise_iff_getElem.1 hs k (k + i) hk _ (by omega)
  rw [← List.length_drop, ← hall]
  exact (List.drop_sublist k xs).countP_le

/-- At most what stands behind a place of a sorted list exceeds the value there. -/
theorem countP_lt_getElem_le {xs : List α} (hs : xs.Pairwise (· ≤ ·)) {k : Nat} (hk : k < xs.length) :
    xs.countP (xs[k] < ·) ≤ xs.length - (k + 1) := by
  have hnone : (xs.take (k + 1)).countP (xs[k] < ·) = 0 := by
    rw [List.countP_eq_zero]
    intro x hx
    obtain ⟨i, hi, rfl⟩ := List.mem_iff_getElem.1 hx
    have hle : i < k + 1 := (List.length_take ▸ hi).trans_le (min_le_left ..)
    rw [List.getElem_take, decide_eq_true_eq, not_lt]
    rcases Nat.lt_or_eq_of_le (Nat.le_of_lt_succ hle) with hlt | rfl
    · exact List.pairwise_iff_getElem.1 hs i k _ hk hlt
    · exact le_rfl
  calc xs.countP (xs[k] < ·)
      = (xs.take (k + 1)).countP (xs[k] < ·) + (xs.drop (k + 1)).countP (xs[k] < ·) := by
        rw [← List.countP_append, List.take_append_drop]
    _ ≤ 0 + (xs.drop (k + 1)).length := by
        rw [hnone]
        exact Nat.add_le_add_left List.countP_le_length 0
    _ = xs.length - (k + 1) := by rw [Nat.zero_add, List.length_drop]

/-- The elements that satisfy `p`, when they are those of some consecutive places. -/
theorem countP_of_places {β : Type} {p : β → Bool} {xs : List β} {a b : Nat} (hab : a ≤ b)
    (hb : b ≤ xs.length) (h : ∀ k (hk : k < xs.length), p xs[k] = true ↔ a ≤ k ∧ k < b) :
    xs.countP p = b - a := by
  have hsplit : xs = xs.take a ++ ((xs.drop a).take (b - a) ++ xs.drop b) := by
    conv_lhs => rw [← List.take_append_drop a xs, ← List.take_append_drop (b - a) (xs.drop a)]
    rw [List.drop_drop, Nat.add_sub_cancel' hab]
  have hbefore : (xs.take a).countP p = 0 := by
    rw [List.countP_eq_zero]
    intro x hx
    obtain ⟨k, hk, rfl⟩ := List.mem_iff_getElem.1 hx
    rw [List.length_take] at hk
    rw [List.getElem_take, h]
    omega
  have hbehind : (xs.drop b).countP p = 0 := by
    rw [List.countP_eq_zero]
    intro x hx
    obtain ⟨k, hk, rfl⟩ := List.mem_iff_getElem.1 hx
    rw [List.getElem_drop, h]
    omega
  have hinside : ((xs.drop a).take (b - a)).countP p = b - a := by
    have hlen : ((xs.drop a).take (b - a)).length = b - a := by
      rw [List.length_take, List.length_drop]
      omega
    refine (List.countP_eq_length.2 fun x hx => ?_).trans hlen
    obtain ⟨k, hk, rfl⟩ := List.mem_iff_getElem.1 hx
    rw [List.getElem_take, List.getElem_drop, h]
    omega
  rw [hsplit, List.countP_append, List.countP_append, hbefore, hinside, hbehind]
  omega

/-! ## Ranks -/

/-- The rank of `v` among the values, from 1, the mean over the values that tie with it. -/
def avgRank (xs : List α) (v : α) : Rat := xs.countP (· < v) + ((xs.countP (· = v) : Rat) + 1) / 2

/-- What `a` scores against `b`. -/
def beats (a b : α) : Rat := if b < a then 1 else if b = a then 1 / 2 else 0

def wins (xs ys : List α) : Rat := (xs.map fun a => (ys.map (beats a)).sum).sum

theorem beats_self (a : α) : beats a a = 1 / 2 := by
  unfold beats
  rw [if_neg (lt_irrefl a), if_pos rfl]

/-- One of two values beats the other, or they share. -/
theorem beats_add_beats (a b : α) : beats a b + beats b a = 1 := by
  unfold beats
  rcases lt_trichotomy a b with h | rfl | h
  · rw [if_neg h.not_gt, if_neg h.ne', if_pos h]
    norm_num
  · rw [if_neg (lt_irrefl a), if_pos rfl]
    norm_num
  · rw [if_pos h, if_neg h.not_gt, if_neg h.ne']
    norm_num

theorem sum_beats (xs : List α) (v : α) :
    (xs.map (beats v)).sum = xs.countP (· < v) + (xs.countP (· = v) : Rat) / 2 := by
  induction xs with
  | nil => simp
  | cons x xs ih =>
    rw [List.map_cons, List.sum_cons, ih, List.countP_cons, List.countP_cons]
    unfold beats
    rcases lt_trichotomy x v with h | rfl | h
    · simp only [h, if_true, decide_true, h.ne, decide_false, Bool.false_eq_true, if_false]
      push_cast
      ring
    · simp only [lt_irrefl, if_false, decide_false, if_true, decide_true, Bool.false_eq_true]
      push_cast
      ring
    · simp only [h.not_gt, h.ne', if_false, decide_false, Bool.false_eq_true]
      push_cast
      ring

theorem avgRank_eq (xs : List α) (v : α) : avgRank xs v = (xs.map (beats v)).sum + 1 / 2 := by
  rw [sum_beats, avgRank]
  ring

theorem avgRank_perm {xs ys : List α} (h : xs.Perm ys) (v : α) : avgRank xs v = avgRank ys v := by
  unfold avgRank
  rw [h.countP_eq, h.countP_eq]

/-! ### Wins -/

theorem wins_cons (x : α) (xs ys : List α) : wins (x :: xs) ys = (ys.map (beats x)).sum + wins xs ys := by
  unfold wins
  rw [List.map_cons, List.sum_cons]

theorem wins_cons_right (xs : List α) (y : α) (ys : List α) :
    wins xs (y :: ys) = (xs.map (beats · y)).sum + wins xs ys := by
  induction xs with
  | nil => simp [wins]
  | cons x xs ih =>
    rw [wins_cons, wins_cons, ih, List.map_cons, List.sum_cons, List.map_cons, List.sum_cons]
    ring

theorem wins_append_right (xs ys zs : List α) : wins xs (ys ++ zs) = wins xs ys + wins xs zs := by
  induction xs with
  | nil => simp [wins]
  | cons x xs ih =>
    rw [wins_cons, wins_cons, wins_cons, ih, List.map_append, List.sum_append]
    ring

theorem sum_beats_swap (x : α) (xs : List α) :
    (xs.map (beats x)).sum + (xs.map (beats · x)).sum = xs.length := by
  induction xs with
  | nil => simp
  | cons y xs ih =>
    rw [List.map_cons, List.sum_cons, List.map_cons, List.sum_cons, List.length_cons]
    push_cast
    linear_combination ih + beats_add_beats x y

/-- **Against each other** the values share half of the comparisons, those with themselves among them. -/
theorem wins_self (xs : List α) : wins xs xs = (xs.length : Rat) ^ 2 / 2 := by
  induction xs with
  | nil => simp [wins]
  | cons x xs ih =>
    rw [wins_cons, wins_cons_right, ih, List.map_cons, List.sum_cons, beats_self, List.length_cons]
    push_cast
    linear_combination sum_beats_swap x xs

/-- **The sum of the ranks** of some values among themselves and others. -/
theorem rankSum_eq (xs ys : List α) : (xs.map (avgRank (xs ++ ys))).sum =
    (xs.length : Rat) * (xs.length + 1) / 2 + wins xs ys := by
  have hsum : ∀ zs ws : List α, (zs.map (avgRank ws)).sum = wins zs ws + (zs.length : Rat) / 2 := by
    intro zs ws
    induction zs with
    | nil => simp [wins]
    | cons z zs ih =>
      rw [List.map_cons, List.sum_cons, ih, wins_cons, avgRank_eq, List.length_cons]
      push_cast
      ring
  rw [hsum, wins_append_right, wins_self]
  ring

/-- The wins counted over all pairs. -/
theorem wins_eq_countP (xs ys : List α) : wins xs ys =
    (xs ×ˢ ys).countP (fun p => p.2 < p.1) + ((xs ×ˢ ys).countP (fun p => p.2 = p.1) : Rat) / 2 := by
  induction xs with
  | nil => simp [wins]
  | cons x xs ih =>
    rw [wins_cons, ih, List.product_cons, List.countP_append, List.countP_append, List.countP_map,
      List.countP_map, sum_beats]
    push_cast
    simp only [Function.comp_def]
    ring

end OTS
