import Mathlib.Data.List.TakeWhile
import OTSecurity.Lib.Scaling

/-!
# Floats that read back

A float is what its shortest decimal text denotes.

* `ilog2_spec` — the power of two below a number.
* `PyFloat.Exact` — a float that rounding leaves alone; `ofRat_exact` — what rounding gives.
* `PyFloat.ilog10_spec` — the power of ten below a number.
* `PyFloat.ofRat_le`, `le_ofRat` — rounding does not pass a float.

Principal results: `ofRat_near` — a number near enough to a float rounds to it; `decimalOf_isSome` — 17
digits are enough; `shortest_reads` — the shortest decimal of a float rounds to the float.
-/

namespace OTS

/-! ## Powers of two -/

/-- The power of two below a positive number. -/
theorem ilog2_spec {a : Rat} (h : 0 < a) : powInt 2 (ilog2 a) ≤ a ∧ a < powInt 2 (ilog2 a + 1) := by
  have hnum : 0 < a.num := Rat.num_pos.2 h
  have hne : a.num.natAbs ≠ 0 := by omega
  have hden : a.den ≠ 0 := a.den_nz
  have hdenpos : (0 : Rat) < a.den := by exact_mod_cast a.den_pos
  have hval : a * a.den = (a.num.natAbs : Rat) := by
    have hcast : ((a.num.natAbs : Int) : Rat) = (a.num : Rat) := by rw [Int.natAbs_of_nonneg hnum.le]
    rw [Rat.mul_den_eq_num, ← hcast, Int.cast_natCast]
  obtain ⟨n, hnlog⟩ : ∃ n, n = Nat.log2 a.num.natAbs := ⟨_, rfl⟩
  obtain ⟨d, hdlog⟩ : ∃ d, d = Nat.log2 a.den := ⟨_, rfl⟩
  have hn1 : (2 : Rat) ^ n ≤ a * a.den := by
    rw [hval, hnlog]
    exact_mod_cast Nat.log2_self_le hne
  have hn2 : a * a.den < 2 ^ (n + 1) := by
    rw [hval, hnlog]
    exact_mod_cast Nat.lt_log2_self
  have hd1 : (2 : Rat) ^ d ≤ a.den := by
    rw [hdlog]
    exact_mod_cast Nat.log2_self_le hden
  have hd2 : (a.den : Rat) < 2 ^ (d + 1) := by
    rw [hdlog]
    exact_mod_cast Nat.lt_log2_self
  have hlow : powInt 2 ((n : Int) - d - 1) ≤ a := by
    have hstep : powInt 2 ((n : Int) - d - 1) * 2 ^ (d + 1) = 2 ^ n := by
      rw [← powInt_natCast, ← powInt_natCast, ← powInt_add two_ne_zero]
      congr 1
      omega
    have hpos : (0 : Rat) < 2 ^ (d + 1) := by positivity
    refine le_of_mul_le_mul_right ?_ hpos
    rw [hstep]
    exact hn1.trans (mul_le_mul_of_nonneg_left hd2.le h.le)
  have hhigh : a < powInt 2 ((n : Int) - d + 1) := by
    have hstep : powInt 2 ((n : Int) - d + 1) * 2 ^ d = 2 ^ (n + 1) := by
      rw [← powInt_natCast, ← powInt_natCast, ← powInt_add two_ne_zero]
      congr 1
      omega
    have hpos : (0 : Rat) < 2 ^ d := by positivity
    refine lt_of_mul_lt_mul_right ?_ hpos.le
    rw [hstep]
    exact lt_of_le_of_lt (mul_le_mul_of_nonneg_left hd1 h.le) hn2
  unfold ilog2
  simp only [← hnlog, ← hdlog]
  split
  · exact ⟨by assumption, hhigh⟩
  · rename_i hk
    exact ⟨hlow, by rw [sub_add_cancel]; exact not_le.1 hk⟩

theorem ilog2_eq {a : Rat} {k : Int} (hlo : powInt 2 k ≤ a) (hhi : a < powInt 2 (k + 1)) : ilog2 a = k := by
  obtain ⟨h1, h2⟩ := ilog2_spec (lt_of_lt_of_le (powInt_pos two_pos k) hlo)
  have hle := (powInt_lt_iff one_lt_two).1 (lt_of_le_of_lt h1 hhi)
  have hge := (powInt_lt_iff one_lt_two).1 (lt_of_le_of_lt hlo h2)
  omega

theorem ilog2_lt {a : Rat} {k : Int} (h : 0 < a) (hhi : a < powInt 2 k) : ilog2 a < k :=
  (powInt_lt_iff one_lt_two).1 (lt_of_le_of_lt (ilog2_spec h).1 hhi)

/-! ## Rounding -/

theorem roundHalfEven_near {q : Rat} {n : Int} (h : |q - n| < 1 / 2) : roundHalfEven q = n := by
  obtain ⟨hlo, hhi⟩ := abs_lt.1 h
  have hfl := Rat.floor_le q
  have hfu := @Rat.lt_floor q
  unfold roundHalfEven
  rcases le_or_gt (n : Rat) q with hn | hn
  · have hfloor : q.floor = n := by
      refine le_antisymm ?_ (Rat.le_floor_iff.2 hn)
      have : (q.floor : Rat) < n + 1 := by linarith
      exact Int.lt_add_one_iff.1 (by exact_mod_cast this)
    rw [if_pos (by rw [hfloor]; linarith), hfloor]
  · have hfloor : q.floor = n - 1 := by
      refine le_antisymm ?_ (Rat.le_floor_iff.2 (by push_cast; linarith))
      have : (q.floor : Rat) < n := by linarith
      exact Int.le_sub_one_iff.2 (by exact_mod_cast this)
    have hcast : (q.floor : Rat) = n - 1 := by rw [hfloor]; push_cast; ring
    rw [if_neg (by rw [hcast]; linarith), if_pos (by rw [hcast]; linarith), hfloor, sub_add_cancel]

theorem roundHalfEven_intCast (n : Int) : roundHalfEven (n : Rat) = n :=
  roundHalfEven_near (by simp)

namespace PyFloat

/-- The exponent of the unit that a number is rounded to. -/
def unitExp (a : Rat) : Int := max (ilog2 a - 52) (-1074)

theorem ofRat_eq {a : Rat} (h : a ≠ 0) (neg : Bool) : ofRat neg a =
    if powInt 2 1024 ≤ (roundHalfEven (a / powInt 2 (unitExp a)) : Rat) * powInt 2 (unitExp a) then .inf neg
    else .finite neg ((roundHalfEven (a / powInt 2 (unitExp a)) : Rat) * powInt 2 (unitExp a)) := by
  rw [ofRat, if_neg h]
  rfl

theorem lt_unit {a : Rat} (h : 0 < a) : a < powInt 2 (unitExp a + 53) :=
  lt_of_lt_of_le (ilog2_spec h).2 ((powInt_le_iff one_lt_two).2 (by unfold unitExp; omega))

/-- A float that rounding leaves alone. -/
def Exact : PyFloat → Prop
  | .finite neg mag => 0 ≤ mag ∧ ofRat neg mag = .finite neg mag
  | _ => True

/-- A multiple of a unit that has at most 53 bits is a float. -/
theorem ofRat_grid {m : Nat} {e : Int} (hm : m ≤ 2 ^ 53) (he : -1074 ≤ e)
    (hlt : (m : Rat) * powInt 2 e < powInt 2 1024) (neg : Bool) :
    ofRat neg ((m : Rat) * powInt 2 e) = .finite neg ((m : Rat) * powInt 2 e) := by
  have hpe := powInt_pos two_pos e
  by_cases hzero : m = 0
  · simp [hzero, ofRat]
  have hmpos : (0 : Rat) < m := by exact_mod_cast Nat.pos_of_ne_zero hzero
  have hpos : 0 < (m : Rat) * powInt 2 e := mul_pos hmpos hpe
  have hreads : ∀ {k : Nat} {E : Int}, (m : Rat) * powInt 2 e = (k : Rat) * powInt 2 E →
      unitExp ((m : Rat) * powInt 2 e) = E →
      ofRat neg ((m : Rat) * powInt 2 e) = .finite neg ((m : Rat) * powInt 2 e) := by
    intro k E hk hE
    have hround : roundHalfEven ((m : Rat) * powInt 2 e / powInt 2 E) = (k : Int) := by
      rw [hk, mul_div_cancel_right₀ _ (powInt_pos two_pos E).ne']
      exact_mod_cast roundHalfEven_intCast (k : Int)
    rw [ofRat_eq hpos.ne', hE, hround]
    push_cast
    rw [← hk, if_neg (not_le.2 hlt)]
  obtain hmlt | rfl := hm.lt_or_eq
  · have hbound : (m : Rat) * powInt 2 e < powInt 2 (e + 53) := by
      rw [add_comm, powInt_add two_ne_zero]
      refine mul_lt_mul_of_pos_right ?_ hpe
      rw [show (53 : Int) = (53 : Nat) by rfl, powInt_natCast]
      exact_mod_cast hmlt
    have hexp : unitExp ((m : Rat) * powInt 2 e) ≤ e := by
      have := ilog2_lt hpos hbound
      unfold unitExp
      omega
    refine @hreads (m * 2 ^ (e - unitExp ((m : Rat) * powInt 2 e)).toNat) _ ?_ rfl
    generalize unitExp ((m : Rat) * powInt 2 e) = E at hexp ⊢
    push_cast
    rw [mul_assoc, ← powInt_natCast, ← powInt_add two_ne_zero]
    congr 2
    omega
  · have hval : ((2 ^ 53 : Nat) : Rat) * powInt 2 e = powInt 2 (e + 53) := by
      rw [add_comm, powInt_add two_ne_zero, show (53 : Int) = (53 : Nat) by rfl, powInt_natCast]
      push_cast
      rfl
    refine @hreads (2 ^ 52) (e + 1) ?_ ?_
    · rw [hval, show e + 53 = ((52 : Nat) : Int) + (e + 1) by push_cast; ring, powInt_add two_ne_zero, powInt_natCast]
      push_cast
      rfl
    · rw [hval, unitExp, ilog2_eq le_rfl ((powInt_lt_iff one_lt_two).2 (by omega))]
      omega

/-- **What rounding gives is a float.** -/
theorem ofRat_exact {a : Rat} (h : 0 ≤ a) (neg : Bool) : (ofRat neg a).Exact := by
  rcases h.eq_or_lt with rfl | hpos
  · have hzero : ofRat neg 0 = .finite neg 0 := if_pos rfl
    rw [hzero]
    exact ⟨le_rfl, hzero⟩
  have hpe := powInt_pos two_pos (unitExp a)
  have hlt := lt_unit hpos
  have hge : 0 ≤ roundHalfEven (a / powInt 2 (unitExp a)) := le_roundHalfEven (by positivity)
  have hle : roundHalfEven (a / powInt 2 (unitExp a)) ≤ (2 ^ 53 : Nat) := by
    refine roundHalfEven_le ((div_le_iff₀ hpe).2 ?_)
    rw [add_comm, powInt_add two_ne_zero, show (53 : Int) = (53 : Nat) by rfl, powInt_natCast] at hlt
    exact_mod_cast hlt.le
  obtain ⟨m, hm⟩ := Int.eq_ofNat_of_zero_le hge
  rw [ofRat_eq hpos.ne', hm]
  split
  · exact trivial
  · rename_i hfin
    rw [hm] at hle
    exact ⟨mul_nonneg (by exact_mod_cast Nat.zero_le m) hpe.le,
      ofRat_grid (by exact_mod_cast hle) (le_max_right _ _) (not_le.1 hfin) neg⟩

/-- What a positive float is: a multiple of its unit, of at most 53 bits. -/
theorem Exact.grid {neg : Bool} {a : Rat} (h : (finite neg a).Exact) (hpos : 0 < a) :
    ∃ m : Nat, a = (m : Rat) * powInt 2 (unitExp a) ∧ 0 < m ∧ m < 2 ^ 53 ∧ a < powInt 2 1024 := by
  have hpe := powInt_pos two_pos (unitExp a)
  have heq := h.2
  rw [ofRat_eq hpos.ne'] at heq
  split at heq
  · cases heq
  rename_i hfin
  have hval := (PyFloat.finite.inj heq).2
  rw [hval] at hfin
  have hmpos : 0 < roundHalfEven (a / powInt 2 (unitExp a)) := by
    have : (0 : Rat) < (roundHalfEven (a / powInt 2 (unitExp a)) : Rat) := by
      refine pos_of_mul_pos_left ?_ hpe.le
      rw [hval]
      exact hpos
    exact_mod_cast this
  obtain ⟨m, hm⟩ := Int.eq_ofNat_of_zero_le hmpos.le
  rw [hm] at hval hmpos
  have hvalm : (m : Rat) * powInt 2 (unitExp a) = a := by exact_mod_cast hval
  refine ⟨m, hvalm.symm, by exact_mod_cast hmpos, ?_, not_le.1 hfin⟩
  have hlt := lt_unit hpos
  rw [add_comm, powInt_add two_ne_zero, show (53 : Int) = (53 : Nat) by rfl, powInt_natCast] at hlt
  have hm53 : (m : Rat) < 2 ^ 53 := by
    refine lt_of_mul_lt_mul_right ?_ hpe.le
    rw [hvalm]
    exact hlt
  exact_mod_cast hm53

/-! ## Numbers near a float -/

theorem ofRat_of_round {x : Rat} {e : Int} {m : Nat} (hx : 0 < x) (he : unitExp x = e)
    (hnear : |x - m * powInt 2 e| < powInt 2 e / 2) (hlt : (m : Rat) * powInt 2 e < powInt 2 1024) (neg : Bool) :
    ofRat neg x = .finite neg ((m : Rat) * powInt 2 e) := by
  have hpe := powInt_pos two_pos e
  have hround : roundHalfEven (x / powInt 2 e) = (m : Int) := by
    apply roundHalfEven_near
    have hdiff : x / powInt 2 e - ((m : Int) : Rat) = (x - m * powInt 2 e) / powInt 2 e := by
      rw [sub_div, mul_div_cancel_right₀ _ hpe.ne', Int.cast_natCast]
    rw [hdiff, abs_div, abs_of_pos hpe, div_lt_iff₀ hpe]
    linarith
  rw [ofRat_eq hx.ne', he, hround, Int.cast_natCast, if_neg (not_le.2 hlt)]

/-- **A number near enough to a float rounds to it.** -/
theorem ofRat_near {neg sign : Bool} {a x : Rat} (h : (finite neg a).Exact) (hpos : 0 < a)
    (hx : |x - a| < a / 2 ^ 54) : ofRat sign x = .finite sign a := by
  obtain ⟨m, hm, hm0, hm53, hmax⟩ := h.grid hpos
  obtain ⟨hxlo, hxhi⟩ := abs_lt.1 hx
  have hxpos : 0 < x := by
    have : a / 2 ^ 54 ≤ a / 2 := div_le_div_of_nonneg_left hpos.le (by norm_num) (by norm_num)
    linarith
  obtain ⟨halo, hahi⟩ := ilog2_spec hpos
  obtain ⟨e, he⟩ : ∃ e, e = unitExp a := ⟨_, rfl⟩
  rw [← he] at hm
  have hpe := powInt_pos two_pos e
  have hunit : a / 2 ^ 54 < powInt 2 e / 2 := by
    have hlt := lt_unit hpos
    rw [← he, add_comm, powInt_add two_ne_zero, show (53 : Int) = (53 : Nat) by rfl, powInt_natCast] at hlt
    rw [div_lt_iff₀ (by norm_num)]
    linarith
  have hupper : unitExp x ≤ e := by
    have hm1 : (m : Rat) + 1 ≤ 2 ^ 53 := by exact_mod_cast hm53
    have hxlt : x < powInt 2 (e + 53) := by
      have hstep : a + powInt 2 e ≤ powInt 2 (e + 53) := by
        rw [add_comm e, powInt_add two_ne_zero, show (53 : Int) = (53 : Nat) by rfl, powInt_natCast]
        calc a + powInt 2 e = ((m : Rat) + 1) * powInt 2 e := by rw [hm]; ring
          _ ≤ 2 ^ 53 * powInt 2 e := mul_le_mul_of_nonneg_right hm1 hpe.le
      linarith
    have := ilog2_lt hxpos hxlt
    unfold unitExp at he ⊢
    omega
  rcases hupper.eq_or_lt with heq | hlt
  · rw [ofRat_of_round hxpos heq (by rw [← hm]; linarith) (by rwa [← hm]), ← hm]
  -- A number below a power of two has the unit below.
  have hnormal : e = ilog2 a - 52 ∧ -1074 < e := by
    unfold unitExp at he hlt
    omega
  have hxlow : x < powInt 2 (e + 52) := by
    have hlog : ilog2 x < e + 52 := by
      unfold unitExp at hlt
      omega
    exact lt_of_lt_of_le (ilog2_spec hxpos).2 ((powInt_le_iff one_lt_two).2 (by omega))
  have hpow : powInt 2 (e + 52) = 2 ^ 52 * powInt 2 e := by
    rw [add_comm, powInt_add two_ne_zero, show (52 : Int) = (52 : Nat) by rfl, powInt_natCast]
  have halo' : powInt 2 (e + 52) ≤ a := by
    rwa [hnormal.1, sub_add_cancel]
  have hm52 : m = 2 ^ 52 := by
    have hge : (2 : Rat) ^ 52 ≤ m := by
      refine le_of_mul_le_mul_right ?_ hpe
      rwa [← hpow, ← hm]
    have hlt : (m : Rat) < 2 ^ 52 + 1 := by
      refine lt_of_mul_lt_mul_right ?_ hpe.le
      rw [← hm, add_mul, ← hpow]
      linarith
    have h1 : 2 ^ 52 ≤ m := by exact_mod_cast hge
    have h2 : m < 2 ^ 52 + 1 := by exact_mod_cast hlt
    omega
  have hhalf : powInt 2 e = 2 * powInt 2 (e - 1) := by
    rw [show e = ((1 : Nat) : Int) + (e - 1) by push_cast; ring, powInt_add two_ne_zero, powInt_natCast, pow_one]
    congr 2
    push_cast
    ring
  have ha : a = ((2 ^ 53 : Nat) : Rat) * powInt 2 (e - 1) := by
    rw [hm, hm52, hhalf]
    push_cast
    ring
  have hxexp : unitExp x = e - 1 := by
    have hlow : powInt 2 (e + 51) ≤ x := by
      have hpow' : powInt 2 (e + 51) = 2 ^ 52 * powInt 2 (e - 1) := by
        rw [show e + 51 = ((52 : Nat) : Int) + (e - 1) by push_cast; ring, powInt_add two_ne_zero, powInt_natCast]
      rw [hpow']
      rw [ha] at hxlo
      push_cast at hxlo
      have := powInt_pos two_pos (e - 1)
      linarith
    have hlog := ilog2_eq hlow (by rw [show e + 51 + 1 = e + 52 by ring]; exact hxlow)
    unfold unitExp
    omega
  rw [ofRat_of_round hxpos hxexp ?_ (by rwa [← ha]), ← ha]
  rw [← ha]
  refine lt_of_lt_of_le hx (le_of_eq ?_)
  rw [ha]
  push_cast
  ring

/-! ## The shortest decimal -/

theorem Exact.tiny {neg : Bool} {a : Rat} (h : (finite neg a).Exact) (hpos : 0 < a) :
    1 ≤ a * 10 ^ 358 := by
  obtain ⟨m, hm, hm0, -, -⟩ := h.grid hpos
  have hunit : powInt 2 (-1074) ≤ powInt 2 (unitExp a) := (powInt_le_iff one_lt_two).2 (le_max_right _ _)
  have hge : powInt 2 (-1074) ≤ a := by
    have hm1 : (1 : Rat) ≤ m := by exact_mod_cast hm0
    calc powInt 2 (-1074) ≤ powInt 2 (unitExp a) := hunit
      _ ≤ m * powInt 2 (unitExp a) := le_mul_of_one_le_left (powInt_pos two_pos _).le hm1
      _ = a := hm.symm
  have hone : (1 : Rat) ≤ powInt 2 (-1074) * 10 ^ 358 := by
    rw [powInt, if_neg (by decide), show (-(-1074 : Int)).toNat = 1074 from rfl, div_mul_eq_mul_div, one_mul]
    refine (one_le_div (by positivity)).2 ?_
    calc (2 : Rat) ^ 1074 = (2 ^ 3) ^ 358 := by rw [← pow_mul]
      _ ≤ 10 ^ 358 := pow_le_pow_left₀ (by norm_num) (by norm_num) _
  exact hone.trans (mul_le_mul_of_nonneg_right hge (by positivity))

/-- The power of ten below a float. -/
theorem ilog10_spec {a : Rat} (hpos : 0 < a) (htiny : 1 ≤ a * 10 ^ 358) :
    powInt 10 (ilog10 a) ≤ a ∧ a < powInt 10 (ilog10 a + 1) := by
  unfold ilog10
  split
  · rename_i hone
    obtain ⟨n, hn⟩ : ∃ n : Nat, a.floor = n :=
      Int.eq_ofNat_of_zero_le (Rat.le_floor_iff.2 (by exact_mod_cast hpos.le))
    have hfloor : 1 ≤ n := by
      have : (1 : Int) ≤ a.floor := Rat.le_floor_iff.2 (by exact_mod_cast hone)
      omega
    have hlo := PyDecimal.pow_digitCount_le (n := n) (by omega)
    have hhi := PyDecimal.lt_pow_digitCount n
    have hlen : 1 ≤ (natText n).length := by
      obtain ⟨c, rest, htext, -⟩ := natText_head n
      rw [htext]
      exact Nat.succ_pos _
    rw [hn, Int.toNat_natCast]
    unfold PyDecimal.digitCount at hlo hhi
    obtain ⟨k, hk⟩ : ∃ k, (natText n).length = k + 1 := ⟨_, (Nat.succ_pred_eq_of_pos hlen).symm⟩
    rw [hk] at hlo hhi ⊢
    rw [show ((k + 1 : Nat) : Int) - 1 = (k : Nat) by push_cast; ring,
      show ((k : Nat) : Int) + 1 = ((k + 1 : Nat) : Int) by push_cast; ring, powInt_natCast, powInt_natCast]
    rw [Nat.add_sub_cancel] at hlo
    constructor
    · have h1 : ((10 ^ k : Nat) : Rat) ≤ n := by exact_mod_cast hlo
      have h2 : (n : Rat) ≤ a := by
        have := Rat.floor_le a
        rw [hn] at this
        exact_mod_cast this
      push_cast at h1
      exact h1.trans h2
    · have h1 : a < n + 1 := by
        have := @Rat.lt_floor a
        rw [hn] at this
        push_cast at this
        linarith
      have h2 : ((n + 1 : Nat) : Rat) ≤ ((10 ^ (k + 1) : Nat) : Rat) := by exact_mod_cast hhi
      push_cast at h2
      linarith
  · rename_i hone
    cases hfind : (List.range 400).find? fun j => 1 ≤ a * 10 ^ j with
    | none =>
      have := List.find?_eq_none.1 hfind 358 (List.mem_range.2 (by decide))
      exact absurd htiny (by simpa using this)
    | some j =>
      rw [Option.getD_some]
      have hj := List.find?_some hfind
      rw [decide_eq_true_eq] at hj
      have hprev : ∀ i < j, a * 10 ^ i < 1 := fun i hi => by
        simpa using (List.find?_range_eq_some.1 hfind).2.2 i hi
      have hjpos : j ≠ 0 := by
        rintro rfl
        exact hone (by simpa using hj)
      obtain ⟨i, rfl⟩ := Nat.exists_eq_succ_of_ne_zero hjpos
      have hlast := hprev i (Nat.lt_succ_self i)
      have hpow : ∀ k : Nat, powInt 10 (-(k : Int)) * 10 ^ k = 1 := fun k => by
        rw [← powInt_natCast, ← powInt_add (by norm_num), neg_add_cancel]
        rfl
      constructor
      · refine le_of_mul_le_mul_right ?_ (by positivity : (0 : Rat) < 10 ^ (i + 1))
        rw [hpow]
        exact hj
      · refine lt_of_mul_lt_mul_right ?_ (by positivity : (0 : Rat) ≤ 10 ^ i)
        rw [show -((i.succ : Nat) : Int) + 1 = -(i : Int) by push_cast; ring, hpow]
        exact hlast

/-- **Seventeen digits are enough.** -/
theorem decimalOf_isSome {neg : Bool} {a : Rat} (h : (finite neg a).Exact) (hpos : 0 < a) :
    (decimalOf a 17).isSome := by
  obtain ⟨hlo, -⟩ := ilog10_spec hpos (h.tiny hpos)
  obtain ⟨e, he⟩ : ∃ e, e = ilog10 a - ((17 : Nat) : Int) + 1 := ⟨_, rfl⟩
  have hp := powInt_pos (b := 10) (by norm_num) e
  have hunit : powInt 10 e * 10 ^ 16 ≤ a := by
    refine le_trans (le_of_eq ?_) hlo
    rw [← powInt_natCast, ← powInt_add (by norm_num)]
    congr 1
    push_cast at he
    omega
  have hfits : powInt 10 e / 2 < a / 2 ^ 54 := by
    rw [lt_div_iff₀ (by norm_num)]
    linarith
  obtain ⟨n, hn⟩ : ∃ n : Nat, (a / powInt 10 e).floor = n :=
    Int.eq_ofNat_of_zero_le (Rat.le_floor_iff.2 (by exact_mod_cast (div_pos hpos hp).le))
  have hnlo : (n : Rat) * powInt 10 e ≤ a := by
    have := Rat.floor_le (a / powInt 10 e)
    rw [hn, Int.cast_natCast] at this
    exact (le_div_iff₀ hp).1 this
  have hnhi : a < ((n + 1 : Nat) : Rat) * powInt 10 e := by
    have := @Rat.lt_floor (a / powInt 10 e)
    rw [hn, Int.cast_natCast] at this
    push_cast
    exact (div_lt_iff₀ hp).1 (by linarith)
  -- The nearer of the two decimals reads back.
  have hgood : ∃ N ∈ [n, n + 1], ofRat false ((N : Rat) * powInt 10 e) = .finite false a := by
    push_cast at hnhi
    rcases le_or_gt (a - n * powInt 10 e) (powInt 10 e / 2) with hnear | hfar
    · refine ⟨n, List.mem_cons_self, ofRat_near h hpos ?_⟩
      rw [abs_sub_comm, abs_of_nonneg (by linarith)]
      linarith
    · refine ⟨n + 1, .tail _ List.mem_cons_self, ofRat_near h hpos ?_⟩
      push_cast
      rw [abs_of_nonneg (by linarith)]
      linarith
  obtain ⟨N, hN, hreads⟩ := hgood
  have hmem : N ∈ [n, n + 1].filter fun N : Nat => ofRat false ((N : Rat) * powInt 10 e) = .finite false a :=
    List.mem_filter.2 ⟨hN, by simpa using hreads⟩
  unfold decimalOf
  simp only [← he, hn, Int.toNat_natCast]
  split
  · rename_i hnil
    rw [hnil] at hmem
    cases hmem
  · rfl
  · rfl

/-- A decimal that is found reads back. -/
theorem decimalOf_reads {a : Rat} {n N : Nat} {e : Int} (h : decimalOf a n = some (N, e)) :
    ofRat false ((N : Rat) * powInt 10 e) = .finite false a := by
  unfold decimalOf at h
  simp only at h
  have hall : ∀ K ∈ [(a / powInt 10 (ilog10 a - (n : Int) + 1)).floor.toNat,
      (a / powInt 10 (ilog10 a - (n : Int) + 1)).floor.toNat + 1].filter fun K : Nat =>
        ofRat false ((K : Rat) * powInt 10 (ilog10 a - (n : Int) + 1)) = .finite false a,
      ofRat false ((K : Rat) * powInt 10 (ilog10 a - (n : Int) + 1)) = .finite false a := fun K hK => by
    simpa using (List.mem_filter.1 hK).2
  split at h
  · cases h
  · rename_i K hgood
    cases h
    exact hall _ (by rw [hgood]; exact List.mem_cons_self)
  · rename_i K M rest hgood
    cases h
    rw [hgood] at hall
    split
    · exact hall _ List.mem_cons_self
    · exact hall _ (.tail _ List.mem_cons_self)

theorem ofRat_sign {x a : Rat} (h : ofRat false x = .finite false a) (neg : Bool) :
    ofRat neg x = .finite neg a := by
  by_cases hx : x = 0
  · rw [ofRat, if_pos hx] at h ⊢
    cases h
    rfl
  · rw [ofRat_eq hx] at h ⊢
    split at h
    · cases h
    · rename_i hfin
      rw [if_neg hfin]
      cases h
      rfl

/-- Digits without the zeros at their end. -/
theorem strip_zeros (ds : PyStr) : ∃ k : Nat,
    ds = (ds.reverse.dropWhile (· = 0x30)).reverse ++ List.replicate k 0x30 := by
  obtain ⟨k, hk⟩ : ∃ k, ds.reverse.takeWhile (· = 0x30) = List.replicate k 0x30 :=
    ⟨_, List.eq_replicate_iff.2 ⟨rfl, fun c hc => by simpa using List.mem_takeWhile_imp hc⟩⟩
  have hsplit := congrArg List.reverse (List.takeWhile_append_dropWhile (p := (· = 0x30)) (l := ds.reverse))
  rw [hk, List.reverse_append, List.reverse_reverse, List.reverse_replicate] at hsplit
  exact ⟨k, hsplit.symm⟩

/-- **The shortest decimal of a float**: digits that do not start with zero, and that round to the float. -/
theorem shortest_reads {neg : Bool} {a : Rat} (h : (finite neg a).Exact) (hpos : 0 < a) :
    ∃ c ds point, shortest a = (c :: ds, point) ∧ c ≠ 0x30 ∧ (∀ d ∈ c :: ds, isAsciiDigit d = true) ∧
      ∀ sign, ofRat sign (ofDigits (c :: ds) * powInt 10 (point - ((c :: ds).length : Nat))) = .finite sign a := by
  obtain ⟨N, e, hfound, hreads⟩ : ∃ N e, (List.range 17).findSome? (fun i => decimalOf a (i + 1)) = some (N, e) ∧
      ofRat false ((N : Rat) * powInt 10 e) = .finite false a := by
    cases hfind : (List.range 17).findSome? fun i => decimalOf a (i + 1) with
    | none =>
      have := List.findSome?_eq_none_iff.1 hfind 16 (List.mem_range.2 (by decide))
      have hsome := decimalOf_isSome h hpos
      rw [this] at hsome
      cases hsome
    | some p =>
      obtain ⟨i, -, hi⟩ := List.exists_of_findSome?_eq_some hfind
      exact ⟨p.1, p.2, rfl, decimalOf_reads hi⟩
  have hN : N ≠ 0 := by
    rintro rfl
    rw [Nat.cast_zero, zero_mul] at hreads
    have hzero : ofRat false 0 = .finite false 0 := if_pos rfl
    rw [hzero] at hreads
    cases hreads
    exact lt_irrefl _ hpos
  obtain ⟨c, rest, htext, hc⟩ := natText_head N
  obtain ⟨k, hk⟩ := strip_zeros (natText N)
  obtain ⟨ds, hds⟩ : ∃ ds, ds = ((natText N).reverse.dropWhile (· = 0x30)).reverse := ⟨_, rfl⟩
  rw [← hds] at hk
  obtain ⟨ds', rfl⟩ : ∃ ds', ds = c :: ds' := by
    cases ds with
    | nil =>
      have hzeros := ofDigits_natText N
      rw [hk, List.nil_append, ofDigits_zeros] at hzeros
      exact absurd hzeros.symm hN
    | cons d ds' =>
      rw [htext] at hk
      exact ⟨ds', by rw [(List.cons.inj hk).1]⟩
  refine ⟨c, ds', (natText N).length + e, ?_, hc hN, ?_, ?_⟩
  · unfold shortest
    rw [hfound]
    simp only [Option.getD_some, ← hds]
  · intro d hd
    apply natText_digits N
    rw [hk]
    exact List.mem_append_left _ hd
  · intro sign
    have hval : (N : Rat) * powInt 10 e =
        ofDigits (c :: ds') * powInt 10 ((natText N).length + e - ((c :: ds').length : Nat)) := by
      have hnum := ofDigits_natText N
      rw [hk, ofDigits_append, ofDigits_zeros, Nat.add_zero, List.length_replicate] at hnum
      have hexp : ((natText N).length : Int) + e - ((c :: ds').length : Nat) = (k : Nat) + e := by
        rw [hk, List.length_append, List.length_replicate]
        push_cast
        omega
      rw [hexp, powInt_add (by norm_num), powInt_natCast, ← mul_assoc, ← hnum]
      push_cast
      rfl
    rw [← hval]
    exact ofRat_sign hreads sign

end PyFloat

/-! ## Rounding keeps the order -/

namespace PyFloat

theorem unitExp_mono {a b : Rat} (ha : 0 < a) (hab : a ≤ b) : unitExp a ≤ unitExp b := by
  have hlt : powInt 2 (ilog2 a) < powInt 2 (ilog2 b + 1) :=
    lt_of_le_of_lt ((ilog2_spec ha).1.trans hab) (ilog2_spec (lt_of_lt_of_le ha hab)).2
  have hlog := (powInt_lt_iff one_lt_two).1 hlt
  unfold unitExp
  omega

/-- A float is a multiple of every smaller unit. -/
theorem Exact.multiple {neg : Bool} {a : Rat} (h : (finite neg a).Exact) (hpos : 0 < a) {e : Int}
    (he : e ≤ unitExp a) : ∃ k : Nat, a = (k : Rat) * powInt 2 e := by
  obtain ⟨m, hm, -⟩ := h.grid hpos
  generalize unitExp a = E at hm he
  refine ⟨m * 2 ^ (E - e).toNat, ?_⟩
  push_cast
  rw [mul_assoc, ← powInt_natCast, ← powInt_add two_ne_zero, hm]
  congr 2
  omega

/-- **Rounding does not pass a float above.** -/
theorem ofRat_le {neg : Bool} {a x : Rat} (h : (finite neg a).Exact) (hx : 0 ≤ x) (hle : x ≤ a) (sign : Bool) :
    ∃ v, ofRat sign x = .finite sign v ∧ 0 ≤ v ∧ v ≤ a := by
  rcases hx.eq_or_lt with rfl | hpos
  · exact ⟨0, if_pos rfl, le_rfl, hle⟩
  have hapos := lt_of_lt_of_le hpos hle
  obtain ⟨-, -, -, -, hmax⟩ := h.grid hapos
  obtain ⟨k, hk⟩ := h.multiple hapos (unitExp_mono hpos hle)
  have hpe := powInt_pos two_pos (unitExp x)
  have hround : roundHalfEven (x / powInt 2 (unitExp x)) ≤ (k : Int) := by
    refine roundHalfEven_le ((div_le_iff₀ hpe).2 ?_)
    rw [Int.cast_natCast, ← hk]
    exact hle
  have hge : 0 ≤ roundHalfEven (x / powInt 2 (unitExp x)) := le_roundHalfEven (by positivity)
  have hva : (roundHalfEven (x / powInt 2 (unitExp x)) : Rat) * powInt 2 (unitExp x) ≤ a := by
    refine le_trans (mul_le_mul_of_nonneg_right ?_ hpe.le) hk.ge
    exact_mod_cast hround
  refine ⟨_, ?_, mul_nonneg (by exact_mod_cast hge) hpe.le, hva⟩
  rw [ofRat_eq hpos.ne', if_neg (not_le.2 (lt_of_le_of_lt hva hmax))]

/-- **Rounding does not pass a float below.** -/
theorem le_ofRat {neg sign : Bool} {a x v : Rat} (h : (finite neg a).Exact) (hle : a ≤ x)
    (hv : ofRat sign x = .finite sign v) : a ≤ v := by
  have hv0 : 0 ≤ v := by
    have hexact := ofRat_exact (h.1.trans hle) sign
    rw [hv] at hexact
    exact hexact.1
  rcases h.1.eq_or_lt with rfl | hapos
  · exact hv0
  have hpos := lt_of_lt_of_le hapos hle
  have hpe := powInt_pos two_pos (unitExp x)
  -- A multiple of the unit of `x` that lies between the two.
  have hbetween : ∃ k : Nat, a ≤ (k : Rat) * powInt 2 (unitExp x) ∧ (k : Rat) * powInt 2 (unitExp x) ≤ x := by
    rcases (unitExp_mono hapos hle).lt_or_eq with hlt | heq
    · have hval : ((2 ^ 52 : Nat) : Rat) * powInt 2 (unitExp x) = powInt 2 (unitExp x + 52) := by
        rw [add_comm, powInt_add two_ne_zero, show (52 : Int) = (52 : Nat) by rfl, powInt_natCast]
        push_cast
        rfl
      refine ⟨2 ^ 52, ?_, ?_⟩
      · rw [hval]
        exact (lt_unit hapos).le.trans ((powInt_le_iff one_lt_two).2 (by omega))
      · have hexp : unitExp x + 52 = ilog2 x := by
          unfold unitExp at hlt ⊢
          omega
        rw [hval, hexp]
        exact (ilog2_spec hpos).1
    · obtain ⟨k, hk⟩ := h.multiple hapos heq.ge
      exact ⟨k, hk.le, hk.ge.trans hle⟩
  obtain ⟨k, hak, hkx⟩ := hbetween
  have hround : (k : Int) ≤ roundHalfEven (x / powInt 2 (unitExp x)) := by
    refine le_roundHalfEven ((le_div_iff₀ hpe).2 ?_)
    rw [Int.cast_natCast]
    exact hkx
  rw [ofRat_eq hpos.ne'] at hv
  split at hv
  · cases hv
  · rw [← (PyFloat.finite.inj hv).2]
    refine hak.trans (mul_le_mul_of_nonneg_right ?_ hpe.le)
    exact_mod_cast hround

end PyFloat

end OTS
