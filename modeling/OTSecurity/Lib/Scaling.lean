import Mathlib.Algebra.Order.Field.Power
import Mathlib.Tactic.Linarith
import Mathlib.Tactic.Positivity
import Mathlib.Tactic.Ring
import Mathlib.Tactic.GCongr
import Mathlib.Tactic.FieldSimp
import Mathlib.Tactic.NormNum
import OTSecurity.Lib.Decimal
import OTSecurity.Lib.Digits

/-!
# Decimals that scale

When the product of a decimal with a whole number rounds to an integer in the default context.

* `PyDecimal.digitCount_le_iff` — a number has as many digits as its size asks for;
  `PyDecimal.roundHalfEven_lt_iff` — what rounds below an even number.

Principal result: `PyDecimal.scaled_isSome_iff` — it does exactly if the product is below 10^28 by more than
one half.
-/

namespace OTS

namespace PyDecimal

theorem pow_digitCount_le {n : Nat} (h : n ≠ 0) : 10 ^ (digitCount n - 1) ≤ n := by
  induction n using Nat.strong_induction_on with
  | _ n ih =>
    unfold digitCount
    rw [natText_step]
    by_cases hn : n < 10
    · rw [if_pos hn]
      simpa using Nat.one_le_iff_ne_zero.2 h
    · rw [if_neg hn, List.length_append]
      have hrec := ih (n / 10) (by omega) (by omega)
      unfold digitCount at hrec
      have hpos : 0 < (natText (n / 10)).length := by
        obtain ⟨c, rest, htext, -⟩ := natText_head (n / 10)
        rw [htext]
        exact Nat.succ_pos _
      have hlen : (natText (n / 10)).length + 1 - 1 = ((natText (n / 10)).length - 1) + 1 := by omega
      rw [List.length_singleton, hlen, pow_succ]
      calc 10 ^ ((natText (n / 10)).length - 1) * 10 ≤ n / 10 * 10 := Nat.mul_le_mul_right 10 hrec
        _ ≤ n := Nat.div_mul_le_self n 10

theorem lt_pow_digitCount (n : Nat) : n < 10 ^ digitCount n := by
  induction n using Nat.strong_induction_on with
  | _ n ih =>
    unfold digitCount
    rw [natText_step]
    by_cases hn : n < 10
    · rw [if_pos hn]
      exact hn
    · have hrec := ih (n / 10) (by omega)
      unfold digitCount at hrec
      rw [if_neg hn, List.length_append, List.length_singleton, pow_succ]
      omega

theorem digitCount_le_iff {n k : Nat} (h : n ≠ 0) : digitCount n ≤ k ↔ n < 10 ^ k := by
  constructor
  · intro hk
    exact (lt_pow_digitCount n).trans_le (Nat.pow_le_pow_right (by decide) hk)
  · intro hn
    by_contra hk
    have hle : 10 ^ k ≤ 10 ^ (digitCount n - 1) := Nat.pow_le_pow_right (by decide) (by omega)
    exact absurd (hle.trans (pow_digitCount_le h)) (Nat.not_le.2 hn)

/-! ## Rounding to the precision -/

theorem roundHalfEven_natCast (n : Nat) : roundHalfEven (n : Rat) = n :=
  le_antisymm (roundHalfEven_le (by push_cast; exact le_refl _)) (le_roundHalfEven (by push_cast; exact le_refl _))

/-- What rounds below an even number. -/
theorem roundHalfEven_lt_iff {q : Rat} {N : Int} (hN : N % 2 = 0) : roundHalfEven q < N ↔ q < N - 1 / 2 := by
  have hfl := Rat.floor_le q
  have hfu : q < (q.floor : Rat) + 1 := by exact_mod_cast Rat.lt_floor_add_one q
  constructor
  · intro h
    by_contra hq
    have hge : N - 1 ≤ q.floor := by
      have hlt : ((N - 1 : Int) : Rat) < ((q.floor + 1 : Int) : Rat) := by
        push_cast
        linarith
      have := Int.cast_lt.1 hlt
      omega
    unfold roundHalfEven at h
    split_ifs at h with h1 h2 h3
    · -- the floor is below `N`, and the fraction below one half
      have heq : q.floor = N - 1 := by omega
      rw [heq] at h1
      push_cast at h1
      linarith
    · omega
    · omega
    · omega
  · intro h
    have hlt : q.floor < N := by
      have : (q.floor : Rat) < N := by linarith
      exact_mod_cast this
    unfold roundHalfEven
    split_ifs with h1 h2 h3
    · exact hlt
    all_goals
      by_contra hge
      have heq : q.floor = N - 1 := by omega
      rw [heq] at h1
      push_cast at h1
      linarith

/-- Up to the precision nothing is dropped. -/
theorem roundCoeff_short {c : Nat} (h : digitCount c ≤ PREC) : roundCoeff c = (c, 0) := by
  have hdrop : digitCount c - PREC = 0 := Nat.sub_eq_zero_of_le h
  unfold roundCoeff
  simp only [hdrop, pow_zero, div_one, roundHalfEven_natCast, Int.toNat_natCast]

/-- Beyond it the quotient has as many digits before its point as the precision. -/
theorem quotient_bounds {c : Nat} (h : PREC < digitCount c) :
    (10 : Rat) ^ 27 ≤ c / 10 ^ (digitCount c - PREC) ∧ (c : Rat) / 10 ^ (digitCount c - PREC) < 10 ^ 28 := by
  have hne : c ≠ 0 := by
    rintro rfl
    exact absurd h (by decide)
  generalize hdrop : digitCount c - PREC = drop
  unfold PREC at h hdrop
  have hp : (0 : Rat) < 10 ^ drop := by positivity
  have hlow : (10 : Rat) ^ (27 + drop) ≤ c := by
    have := pow_digitCount_le hne
    rw [show digitCount c - 1 = 27 + drop by omega] at this
    exact_mod_cast this
  have hhigh : (c : Rat) < 10 ^ (28 + drop) := by
    have := lt_pow_digitCount c
    rw [show digitCount c = 28 + drop by omega] at this
    exact_mod_cast this
  rw [le_div_iff₀ hp, div_lt_iff₀ hp, ← pow_add, ← pow_add]
  exact ⟨hlow, hhigh⟩

/-! ## Products -/

/-- The product before it is rounded. -/
theorem mag_mul (d : PyDecimal) (n : Nat) : d.mag * n = ((d.coeff * n : Nat) : Rat) * (10 : Rat) ^ d.exp := by
  unfold mag
  rw [powInt_eq]
  push_cast
  ring

/-- Whether the rounded product is an integer of at most 28 digits. -/
theorem scaled_isSome_round (d : PyDecimal) (n : Nat) :
    ((d.mulNat n).bind roundToInt).isSome ↔
      ((roundCoeff (d.coeff * n)).1 ≠ 0 → d.exp + (roundCoeff (d.coeff * n)).2 +
        digitCount (roundCoeff (d.coeff * n)).1 ≤ 28) := by
  unfold mulNat
  generalize roundCoeff (d.coeff * n) = r
  obtain ⟨c, drop⟩ := r
  simp only
  have hround : ((roundToInt ⟨d.neg, c, d.exp + drop⟩).isSome) ↔ (c ≠ 0 → d.exp + drop + digitCount c ≤ 28) := by
    unfold roundToInt PREC
    simp only
    split
    · rename_i hlarge
      exact iff_of_false Bool.false_ne_true fun h => absurd (h hlarge.1) (not_le.2 hlarge.2)
    · rename_i hsmall
      exact iff_of_true rfl fun hc => not_lt.1 fun hlt => hsmall ⟨hc, hlt⟩
  split
  · rename_i hlarge
    refine iff_of_false Bool.false_ne_true fun h => ?_
    have := h hlarge.1
    unfold EMAX at hlarge
    omega
  · exact hround

/-- A product with no more digits than the precision. -/
theorem short_fits {C : Nat} (hshort : digitCount C ≤ PREC) (e : Int) :
    (C ≠ 0 → e + digitCount C ≤ 28) ↔ (C : Rat) * (10 : Rat) ^ e < 10 ^ 28 - 1 / 2 := by
  by_cases hC : C = 0
  · subst hC
    exact iff_of_true (fun h => absurd rfl h) (by norm_num)
  have hpos : 0 < digitCount C := Nat.pos_of_ne_zero fun h => by
    have := lt_pow_digitCount C
    rw [h] at this
    omega
  unfold PREC at hshort
  constructor
  · intro h
    have hle := h hC
    rcases lt_or_ge e 0 with hneg | hnonneg
    · have htenth : (10 : Rat) ^ e ≤ 10 ^ (-1 : Int) := zpow_le_zpow_right₀ (by norm_num) (by omega)
      have hlt : (C : Rat) < 10 ^ 28 := by
        exact_mod_cast (lt_pow_digitCount C).trans_le (Nat.pow_le_pow_right (by decide) hshort)
      calc (C : Rat) * 10 ^ e ≤ C * 10 ^ (-1 : Int) := by gcongr
        _ ≤ 10 ^ 28 * 10 ^ (-1 : Int) := by gcongr
        _ < 10 ^ 28 - 1 / 2 := by norm_num
    · obtain ⟨k, rfl⟩ := Int.eq_ofNat_of_zero_le hnonneg
      have hlt : C * 10 ^ k < 10 ^ 28 := by
        calc C * 10 ^ k < 10 ^ digitCount C * 10 ^ k := Nat.mul_lt_mul_of_pos_right (lt_pow_digitCount C) (by positivity)
          _ = 10 ^ (digitCount C + k) := (pow_add ..).symm
          _ ≤ 10 ^ 28 := Nat.pow_le_pow_right (by decide) (by omega)
      have hint : (C : Rat) * 10 ^ k + 1 ≤ 10 ^ 28 := by exact_mod_cast hlt
      rw [zpow_natCast]
      linarith
  · intro h _
    by_contra hlarge
    have hge : (10 : Rat) ^ 28 ≤ C * 10 ^ e := by
      calc (10 : Rat) ^ 28 = 10 ^ (28 : Int) := by norm_num
        _ ≤ 10 ^ (((digitCount C - 1 : Nat) : Int) + e) := zpow_le_zpow_right₀ (by norm_num) (by omega)
        _ = 10 ^ (digitCount C - 1) * 10 ^ e := by rw [zpow_add₀ (by norm_num), zpow_natCast]
        _ ≤ C * 10 ^ e := by
          gcongr
          exact_mod_cast pow_digitCount_le hC
    linarith

/-- The quotient of one with more, rounded to an integer. -/
theorem long_fits {q : Rat} (hlow : 10 ^ 27 ≤ q) (hhigh : q < 10 ^ 28) (f : Int) :
    f + digitCount (roundHalfEven q).toNat ≤ 28 ↔ q * (10 : Rat) ^ f < 10 ^ 28 - 1 / 2 := by
  have hc1 : (10 ^ 27 : Int) ≤ roundHalfEven q := le_roundHalfEven (by push_cast; exact hlow)
  have hc2 : roundHalfEven q ≤ (10 ^ 28 : Int) := roundHalfEven_le (by push_cast; exact hhigh.le)
  have hlt := @roundHalfEven_lt_iff q (10 ^ 28) (by decide)
  obtain ⟨c, hc⟩ := Int.eq_ofNat_of_zero_le (show (0 : Int) ≤ roundHalfEven q from le_trans (by decide) hc1)
  rw [hc] at hc1 hc2 hlt ⊢
  rw [Int.toNat_natCast]
  have hne : c ≠ 0 := by omega
  have hmany : 28 ≤ digitCount c := by
    by_contra hfew
    have := (digitCount_le_iff (k := 27) hne).1 (by omega)
    omega
  have hfew : digitCount c ≤ 29 := (digitCount_le_iff hne).2 (by omega)
  rcases lt_trichotomy f 0 with hneg | rfl | hpos
  · have htenth : (10 : Rat) ^ f ≤ 10 ^ (-1 : Int) := zpow_le_zpow_right₀ (by norm_num) (by omega)
    refine iff_of_true (by omega) ?_
    calc q * 10 ^ f ≤ 10 ^ 28 * 10 ^ (-1 : Int) := by gcongr
      _ < 10 ^ 28 - 1 / 2 := by norm_num
  · rw [zpow_zero, mul_one]
    have hdigits : (0 : Int) + digitCount c ≤ 28 ↔ (c : Int) < 10 ^ 28 := by
      rw [zero_add, Nat.cast_le_ofNat, digitCount_le_iff hne]
      exact_mod_cast Iff.rfl
    rw [hdigits, hlt]
    push_cast
    rfl
  · refine iff_of_false (by omega) (not_lt.2 ?_)
    calc (10 : Rat) ^ 28 - 1 / 2 ≤ 10 ^ 27 * 10 ^ (1 : Int) := by norm_num
      _ ≤ q * 10 ^ f := by
        gcongr
        · norm_num
        · omega

/-- **Exactly the products below 10^28, by more than one half, scale.** -/
theorem scaled_isSome_iff (d : PyDecimal) (n : Nat) :
    ((d.mulNat n).bind roundToInt).isSome ↔ d.mag * n < 10 ^ 28 - 1 / 2 := by
  rw [scaled_isSome_round, mag_mul]
  generalize d.coeff * n = C
  by_cases hshort : digitCount C ≤ PREC
  · rw [roundCoeff_short hshort]
    simpa using short_fits hshort d.exp
  · obtain ⟨hlow, hhigh⟩ := quotient_bounds (not_le.1 hshort)
    have hround : (roundHalfEven ((C : Rat) / 10 ^ (digitCount C - PREC))).toNat ≠ 0 := by
      have := le_roundHalfEven (n := 10 ^ 27) (by push_cast; exact hlow)
      omega
    have hval : (C : Rat) * 10 ^ d.exp =
        C / 10 ^ (digitCount C - PREC) * 10 ^ (d.exp + (digitCount C - PREC : Nat)) := by
      rw [zpow_add₀ (by norm_num), zpow_natCast]
      field_simp
    rw [hval, ← long_fits hlow hhigh]
    exact ⟨fun h => h hround, fun h _ => h⟩

end PyDecimal

end OTS
