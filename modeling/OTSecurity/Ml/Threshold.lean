import Mathlib.Algebra.Order.Floor.Ring
import Mathlib.Data.Rat.Floor
import OTSecurity.Ml.Metrics

/-!
# The threshold of the model

Model of how `train` of `model-training/sih_ml/train_dga.py` selects the decision threshold from the benign
scores of the validation samples.

* `quantile`, `threshold` — before and after the clip; `none` where there is no such score.
* `fractionAt` — how many of the benign scores are positives at a threshold.

Principal results: `threshold_exceeds_target` — always more than the target when the clip is inactive;
`fractionAbove_le` — scores above the threshold would be within the target.
-/

namespace OTS.Ml

def MAX_TARGET_FPR : Rat := 1 / 100

/-- `s[y == 0]`. -/
def benignScores (y s : List Rat) : List Rat := ((y.zip s).filter fun p => p.1 = 0).map (·.2)

/-- `np.sort`. -/
def sortScores (xs : List Rat) : List Rat := xs.mergeSort fun a b => a ≤ b

/-- The place of the 99th percentile among `n` scores. -/
def quantileAt (n : Nat) : Nat := ⌈(1 - MAX_TARGET_FPR) * n⌉.toNat - 1

/-- The score at that place. -/
def quantile (benign : List Rat) : Option Rat := (sortScores benign)[quantileAt benign.length]?

/-- `np.clip`. -/
def clip (x low high : Rat) : Rat := min (max x low) high

/-- `thr`. -/
def threshold (benign : List Rat) : Option Rat := (quantile benign).map fun x => clip x (1 / 2) (99 / 100)

/-- The fraction of the scores that are positives. -/
def fractionAt (benign : List Rat) (thr : Rat) : Rat := (benign.countP (thr ≤ ·) : Rat) / benign.length

/-- The clip leaves the score as it is. -/
def ClipInactive (benign : List Rat) : Prop := ∀ x ∈ quantile benign, 1 / 2 ≤ x ∧ x ≤ 99 / 100

/-! ## The place in the order -/

theorem sortScores_perm (xs : List Rat) : (sortScores xs).Perm xs := List.mergeSort_perm _ _

theorem sortScores_sorted (xs : List Rat) : (sortScores xs).Pairwise (· ≤ ·) := by
  refine (List.pairwise_mergeSort ?_ ?_ _).imp fun h => of_decide_eq_true h
  · intro a b c hab hbc
    exact decide_eq_true ((of_decide_eq_true hab).trans (of_decide_eq_true hbc))
  · intro a b
    simp only [Bool.or_eq_true, decide_eq_true_eq]
    exact le_total a b

/-- The place is the last one with less than 99 % of the scores before it. -/
theorem quantileAt_spec {n : Nat} (hn : 0 < n) :
    (quantileAt n : Rat) < (1 - MAX_TARGET_FPR) * n ∧ (1 - MAX_TARGET_FPR) * n ≤ quantileAt n + 1 := by
  obtain ⟨m, hm⟩ : ∃ m : Nat, ⌈(1 - MAX_TARGET_FPR) * n⌉ = (m : Int) + 1 := by
    have hpos : 0 < ⌈(1 - MAX_TARGET_FPR) * n⌉ := by
      refine Int.ceil_pos.2 (mul_pos ?_ (Nat.cast_pos.2 hn))
      unfold MAX_TARGET_FPR
      norm_num
    exact ⟨(⌈(1 - MAX_TARGET_FPR) * n⌉ - 1).toNat, by omega⟩
  have hplace : quantileAt n = m := by
    unfold quantileAt
    omega
  obtain ⟨hlow, hhigh⟩ := Int.ceil_eq_iff.1 hm
  push_cast at hlow hhigh
  rw [hplace]
  exact ⟨by linarith, hhigh⟩

theorem quantileAt_lt {n : Nat} (hn : 0 < n) : quantileAt n < n := by
  have hplace := (quantileAt_spec hn).1
  have hle : (1 - MAX_TARGET_FPR) * n ≤ n := by
    unfold MAX_TARGET_FPR
    linarith [(Nat.cast_nonneg n : (0 : Rat) ≤ n)]
  exact_mod_cast hplace.trans_le hle

variable {benign : List Rat} {x : Rat}

theorem quantile_some (h : benign ≠ []) : ∃ x, quantile benign = some x := by
  have hlen : (sortScores benign).length = benign.length := (sortScores_perm benign).length_eq
  have hlt := quantileAt_lt (List.length_pos_of_ne_nil h)
  exact ⟨_, List.getElem?_eq_getElem (hlt.trans_eq hlen.symm)⟩

theorem threshold_eq (hx : quantile benign = some x) (hclip : ClipInactive benign) :
    threshold benign = some x := by
  obtain ⟨hlow, hhigh⟩ := hclip x hx
  unfold threshold clip
  rw [hx, Option.map_some, max_eq_left hlow, min_eq_left hhigh]

/-- The scores from the place on reach the threshold. -/
theorem countP_quantile (hx : quantile benign = some x) :
    benign.length - quantileAt benign.length ≤ benign.countP (x ≤ ·) := by
  obtain ⟨hlt, rfl⟩ := List.getElem?_eq_some_iff.1 hx
  have hcount := le_countP_le_getElem (sortScores_sorted benign) hlt
  rwa [(sortScores_perm benign).length_eq, (sortScores_perm benign).countP_eq] at hcount

/-- At most the scores behind the place exceed it. -/
theorem countP_above (hx : quantile benign = some x) :
    benign.countP (x < ·) ≤ benign.length - (quantileAt benign.length + 1) := by
  obtain ⟨hlt, rfl⟩ := List.getElem?_eq_some_iff.1 hx
  have hcount := countP_lt_getElem_le (sortScores_sorted benign) hlt
  rwa [(sortScores_perm benign).length_eq, (sortScores_perm benign).countP_eq] at hcount

/-! ## The target -/

/-- The false positive rate that `metrics` reports. -/
theorem metrics_fpr {y s : List Rat} (h : benignScores y s = benign) (hne : benign ≠ []) (thr : Rat) :
    (metrics y s thr).fpr = some (fractionAt benign thr) := by
  have hcount : ∀ pred, (y.zip s).countP (fun p => p.1 = 0 ∧ decide (thr ≤ p.2) = pred) =
      benign.countP fun x => decide (thr ≤ x) = pred := by
    intro pred
    rw [← h, benignScores, List.countP_map, List.countP_filter]
    refine List.countP_congr fun p _ => ?_
    simp [and_comm]
  have hall : benign.countP (fun x => decide (thr ≤ x) = true) +
      benign.countP (fun x => decide (thr ≤ x) = false) = benign.length := by
    rw [List.length_eq_countP_add_countP (fun x => decide (thr ≤ x) = true)]
    simp
  have hlen : benign.length ≠ 0 := mt List.length_eq_zero_iff.1 hne
  unfold metrics
  simp only [hcount]
  unfold ratio fractionAt
  rw [hall, if_neg hlen]
  simp

/-- **The target is missed whenever the clip is inactive**: more of the benign scores than
`MAX_TARGET_FPR` are positives, and `metrics` reports so. -/
theorem threshold_exceeds_target (benign : List Rat) (h : benign ≠ []) (hclip : ClipInactive benign) :
    ∃ thr, threshold benign = some thr ∧ MAX_TARGET_FPR < fractionAt benign thr ∧
      ∀ y s, benignScores y s = benign → (metrics y s thr).fpr = some (fractionAt benign thr) := by
  obtain ⟨x, hx⟩ := quantile_some h
  have hlen : 0 < benign.length := List.length_pos_of_ne_nil h
  refine ⟨x, threshold_eq hx hclip, ?_, fun y s hbenign => metrics_fpr hbenign h x⟩
  have hplace := (quantileAt_spec hlen).1
  have hcount : (benign.length : Rat) - quantileAt benign.length ≤ benign.countP (x ≤ ·) := by
    rw [← Nat.cast_sub (quantileAt_lt hlen).le]
    exact Nat.cast_le.2 (countP_quantile hx)
  unfold fractionAt
  rw [lt_div_iff₀ (Nat.cast_pos.2 hlen)]
  linarith

theorem quantile_samples : quantile [3 / 4] = some (3 / 4) ∧
    quantile [6 / 10, 7 / 10] = some (7 / 10) := by
  have hpair : sortScores [6 / 10, 7 / 10] = [6 / 10, 7 / 10] :=
    List.mergeSort_of_pairwise (by decide +kernel)
  unfold quantile
  rw [hpair, sortScores, List.mergeSort_singleton]
  decide +kernel

/-- Two scores, the greater of which is the threshold. -/
theorem threshold_exceeds_target_sample : ∃ thr, threshold [6 / 10, 7 / 10] = some thr ∧
    MAX_TARGET_FPR < fractionAt [6 / 10, 7 / 10] thr ∧
    ∀ y s, benignScores y s = [6 / 10, 7 / 10] →
      (metrics y s thr).fpr = some (fractionAt [6 / 10, 7 / 10] thr) := by
  refine threshold_exceeds_target [6 / 10, 7 / 10] (by simp) fun x hx => ?_
  rw [quantile_samples.2, Option.mem_some_iff] at hx
  rw [← hx]
  norm_num

/-- **The only benign score is a positive.** -/
theorem single_score_positive : ¬ ∀ benign : List Rat, benign ≠ [] → ClipInactive benign →
    ∀ thr ∈ threshold benign, fractionAt benign thr ≤ MAX_TARGET_FPR := by
  intro hclaim
  have hclip : ClipInactive [3 / 4] := by
    intro x hx
    rw [quantile_samples.1, Option.mem_some_iff] at hx
    rw [← hx]
    norm_num
  have hle := hclaim [3 / 4] (by simp) hclip (3 / 4) (threshold_eq quantile_samples.1 hclip)
  exact absurd hle (by decide +kernel)

/-- Were only the scores above the threshold positives, the target would be met. -/
theorem fractionAbove_le (h : benign ≠ []) (hx : quantile benign = some x) :
    (benign.countP (x < ·) : Rat) / benign.length ≤ MAX_TARGET_FPR := by
  have hlen : 0 < benign.length := List.length_pos_of_ne_nil h
  have hplace := (quantileAt_spec hlen).2
  have hcount : (benign.countP (x < ·) : Rat) ≤ benign.length - (quantileAt benign.length + 1) := by
    have hle : (benign.countP (x < ·) : Rat) ≤ (benign.length - (quantileAt benign.length + 1) : Nat) :=
      Nat.cast_le.2 (countP_above hx)
    rwa [Nat.cast_sub (quantileAt_lt hlen), Nat.cast_succ] at hle
  rw [div_le_iff₀ (Nat.cast_pos.2 hlen)]
  linarith

end OTS.Ml
