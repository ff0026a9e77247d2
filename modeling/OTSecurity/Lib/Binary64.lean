import Mathlib.Algebra.Order.Field.Power
import Mathlib.Algebra.Order.Ring.Rat
import Mathlib.Tactic.Positivity
import OTSecurity.Lib.PyStr

/-!
# Binary floating point

Floats of 64 bits by what they denote: a magnitude that is a multiple of a power of two, an
infinity, or no number.

* `roundHalfEven` — rounding to nearest, ties to even; `powInt` — a power with an integer exponent.
* `PyFloat.ofRat` — the nearest float of a magnitude, ties to even, with overflow to infinity.
* `PyFloat.nearest` — the number the nearest float denotes.
* `PyFloat.text` — the shortest decimal text that reads back as the same float (`repr`).
* `PyFloat.isInteger`, `ltInt`, `gtInt`, `mulNat`, `roundInt` — the operations on floats used here.
* `roundDigits`, `fixedText`, `floatText` — `round(v, digits)`, the format `.df` and `str(v)`.

`roundHalfEven_le`, `le_roundHalfEven` — rounding does not cross an integer; `PyFloat.ofRat_finite` — a
number that is not large has a float.
-/

namespace OTS

/-! ## Rounding -/

def roundHalfEven (q : Rat) : Int :=
  if q - q.floor < 1 / 2 then q.floor
  else if 1 / 2 < q - q.floor then q.floor + 1
  else if q.floor % 2 = 0 then q.floor else q.floor + 1

theorem roundHalfEven_le {q : Rat} {n : Int} (h : q ≤ n) : roundHalfEven q ≤ n := by
  have hfloor : q.floor ≤ n := by
    have : (q.floor : Rat) ≤ n := le_trans (Rat.floor_le q) h
    exact_mod_cast this
  rcases hfloor.lt_or_eq with hlt | heq
  · unfold roundHalfEven
    split_ifs <;> omega
  · have hzero : q - q.floor ≤ 0 := by rw [heq]; exact sub_nonpos.2 h
    have hlt : q - q.floor < 1 / 2 := lt_of_le_of_lt hzero (by decide +kernel)
    rw [roundHalfEven, if_pos hlt]
    exact hfloor

theorem le_roundHalfEven {q : Rat} {n : Int} (h : (n : Rat) ≤ q) : n ≤ roundHalfEven q := by
  have hfloor : n ≤ q.floor := Rat.le_floor_iff.2 h
  unfold roundHalfEven
  split_ifs <;> omega

/-! ## Powers -/

def powInt (b : Rat) (e : Int) : Rat := if 0 ≤ e then b ^ e.toNat else 1 / b ^ (-e).toNat

theorem powInt_eq (b : Rat) (e : Int) : powInt b e = b ^ e := by
  unfold powInt
  split
  · rename_i h
    conv => rhs; rw [← Int.toNat_of_nonneg h]
    rw [zpow_natCast]
  · rename_i h
    have he : e = -((-e).toNat : Int) := by omega
    conv => rhs; rw [he]
    rw [zpow_neg, zpow_natCast, one_div]

theorem powInt_pos {b : Rat} (hb : 0 < b) (e : Int) : 0 < powInt b e := by
  rw [powInt_eq]
  exact zpow_pos hb e

theorem powInt_add {b : Rat} (hb : b ≠ 0) (d e : Int) : powInt b (d + e) = powInt b d * powInt b e := by
  rw [powInt_eq, powInt_eq, powInt_eq, zpow_add₀ hb]

theorem powInt_natCast (b : Rat) (n : Nat) : powInt b n = b ^ n := by
  rw [powInt_eq, zpow_natCast]

theorem powInt_lt_iff {b : Rat} (hb : 1 < b) {d e : Int} : powInt b d < powInt b e ↔ d < e := by
  rw [powInt_eq, powInt_eq, zpow_lt_zpow_iff_right₀ hb]

theorem powInt_le_iff {b : Rat} (hb : 1 < b) {d e : Int} : powInt b d ≤ powInt b e ↔ d ≤ e := by
  rw [powInt_eq, powInt_eq, zpow_le_zpow_iff_right₀ hb]

/-! ## Floats -/

inductive PyFloat where
  | nan
  | inf (neg : Bool)
  | finite (neg : Bool) (mag : Rat)
  deriving DecidableEq

/-- `⌊log₂ a⌋` of a positive number. -/
def ilog2 (a : Rat) : Int :=
  let k : Int := (Nat.log2 a.num.natAbs : Int) - (Nat.log2 a.den : Int)
  if powInt 2 k ≤ a then k else k - 1

namespace PyFloat

/-- The nearest float: 53 significant bits, no unit below `2 ^ -1074`. -/
def ofRat (neg : Bool) (a : Rat) : PyFloat :=
  if a = 0 then .finite neg 0
  else
    let e := max (ilog2 a - 52) (-1074)
    let v : Rat := roundHalfEven (a / powInt 2 e) * powInt 2 e
    if powInt 2 1024 ≤ v then .inf neg else .finite neg v

theorem powInt_split {K : Nat} {e : Int} (h : e ≤ K) : (2 : Rat) ^ K = 2 ^ (K - e).toNat * powInt 2 e := by
  rw [← powInt_natCast, ← powInt_natCast, ← powInt_add two_ne_zero]
  congr 1
  omega

theorem ilog2_le {K : Nat} {a : Rat} (h0 : a ≠ 0) (h : |a| ≤ 2 ^ K) : ilog2 a ≤ K := by
  have hnum : a.num.natAbs ≤ 2 ^ K * a.den := by
    have hden : (0 : Rat) < a.den := by exact_mod_cast a.den_pos
    have hq : |(a.num : Rat)| ≤ 2 ^ K * a.den := by
      calc |(a.num : Rat)| = |a| * a.den := by rw [← Rat.mul_den_eq_num a, abs_mul, abs_of_pos hden]
        _ ≤ 2 ^ K * a.den := mul_le_mul_of_nonneg_right h hden.le
    have hz : |a.num| ≤ ((2 ^ K * a.den : Nat) : Int) := by exact_mod_cast hq
    rw [Int.abs_eq_natAbs] at hz
    exact_mod_cast hz
  have hlog : Nat.log2 a.num.natAbs ≤ K + Nat.log2 a.den := by
    have hne : a.num.natAbs ≠ 0 := by simpa using h0
    refine Nat.lt_succ_iff.1 ((Nat.log2_lt hne).2 (lt_of_le_of_lt hnum ?_))
    rw [Nat.succ_eq_add_one, Nat.add_assoc, pow_add]
    exact Nat.mul_lt_mul_of_pos_left (Nat.lt_log2_self) (by positivity)
  unfold ilog2
  simp only
  split <;> omega

/-- **A number that is not large has a float, no larger than a power of two above it.** -/
theorem ofRat_finite {K : Nat} (hK : K ≤ 1000) {a : Rat} (h : |a| ≤ 2 ^ K) (neg : Bool) :
    ∃ v, ofRat neg a = .finite neg v ∧ |v| ≤ 2 ^ K := by
  unfold ofRat
  by_cases h0 : a = 0
  · exact ⟨0, by simp [h0], by simp⟩
  rw [if_neg h0]
  have he := ilog2_le h0 h
  generalize hdef : max (ilog2 a - 52) (-1074) = e
  have heK : e ≤ K := by omega
  have hp := powInt_pos two_pos e
  have hsplit := powInt_split heK
  have hle : roundHalfEven (a / powInt 2 e) ≤ (2 ^ (K - e).toNat : Int) := by
    refine roundHalfEven_le ((div_le_iff₀ hp).2 ?_)
    push_cast
    rw [← hsplit]
    exact (abs_le.1 h).2
  have hge : -(2 ^ (K - e).toNat : Int) ≤ roundHalfEven (a / powInt 2 e) := by
    refine le_roundHalfEven ((le_div_iff₀ hp).2 ?_)
    push_cast
    rw [neg_mul, ← hsplit]
    exact (abs_le.1 h).1
  have hv : |(roundHalfEven (a / powInt 2 e) : Rat) * powInt 2 e| ≤ 2 ^ K := by
    rw [abs_mul, abs_of_pos hp, hsplit]
    refine mul_le_mul_of_nonneg_right ?_ hp.le
    exact_mod_cast abs_le.2 ⟨hge, hle⟩
  have hlarge : ¬ powInt 2 1024 ≤ (roundHalfEven (a / powInt 2 e) : Rat) * powInt 2 e := by
    have hpow : (2 : Rat) ^ K < powInt 2 1024 := by
      unfold powInt
      rw [if_pos (by decide)]
      exact pow_lt_pow_right₀ (by norm_num) (by simp; omega)
    exact not_le.2 (lt_of_le_of_lt (le_of_abs_le hv) hpow)
  exact ⟨_, if_neg hlarge, hv⟩

/-- The number a float denotes. -/
def value? : PyFloat → Option Rat
  | .finite neg mag => some (if neg then -mag else mag)
  | _ => none

/-- The number the nearest float denotes; a number beyond the largest float stays as it is. -/
def nearest (q : Rat) : Rat := (ofRat (q < 0) |q|).value?.getD q

def isInteger (x : PyFloat) : Bool := x.value?.any fun v => v.den = 1

/-- `x < n`. -/
def ltInt (x : PyFloat) (n : Rat) : Bool :=
  match x with
  | .nan => false
  | .inf neg => neg
  | .finite neg mag => (if neg then -mag else mag) < n

/-- `x > n`. -/
def gtInt (x : PyFloat) (n : Rat) : Bool :=
  match x with
  | .nan => false
  | .inf neg => !neg
  | .finite neg mag => n < (if neg then -mag else mag)

/-- `x * n` for a positive integer `n`. -/
def mulNat (x : PyFloat) (n : Nat) : PyFloat :=
  match x with
  | .finite neg mag => ofRat neg (mag * n)
  | x => x

/-- `round(x)`; `none` when it raises. -/
def roundInt (x : PyFloat) : Option Int := x.value?.map roundHalfEven

/-! ## Decimal text -/

/-- `⌊log₁₀ a⌋` of a positive number. -/
def ilog10 (a : Rat) : Int :=
  if 1 ≤ a then ((natText a.floor.toNat).length : Int) - 1
  else -(((List.range 400).find? fun j => 1 ≤ a * 10 ^ j).getD 0 : Int)

/-- The `n`-digit decimal `N * 10 ^ e` that reads back as `a`, if there is one; the nearer of two. -/
def decimalOf (a : Rat) (n : Nat) : Option (Nat × Int) :=
  let e : Int := ilog10 a - (n : Int) + 1
  let lo := (a / powInt 10 e).floor.toNat
  let good := [lo, lo + 1].filter fun N : Nat => ofRat false ((N : Rat) * powInt 10 e) = .finite false a
  let far : Nat → Rat := fun N => |(N : Rat) * powInt 10 e - a|
  match good with
  | [] => none
  | [N] => some (N, e)
  | N :: M :: _ => some (if far N ≤ far M then N else M, e)

/-- The digits of the shortest decimal and the place of its point. -/
def shortest (a : Rat) : PyStr × Int :=
  let (N, e) := ((List.range 17).findSome? fun i => decimalOf a (i + 1)).getD (0, 0)
  let text := natText N
  ((text.reverse.dropWhile (· = 0x30)).reverse, text.length + e)

def magText (a : Rat) : PyStr :=
  if a = 0 then pyStr "0.0"
  else
    let (ds, point) := shortest a
    if point ≤ -4 ∨ 16 < point then
      let tail := if ds.length ≤ 1 then [] else 0x2E :: ds.drop 1
      let n := natText (point - 1).natAbs
      ds.take 1 ++ tail ++ 0x65 :: (if point - 1 < 0 then 0x2D else 0x2B) ::
        (if n.length < 2 then 0x30 :: n else n)
    else if point ≤ 0 then pyStr "0." ++ List.replicate (-point).toNat 0x30 ++ ds
    else if (ds.length : Int) ≤ point then
      ds ++ List.replicate (point.toNat - ds.length) 0x30 ++ pyStr ".0"
    else ds.take point.toNat ++ 0x2E :: ds.drop point.toNat

/-- `float.__repr__`, with the names that JSON text uses. -/
def text : PyFloat → PyStr
  | .nan => pyStr "NaN"
  | .inf neg => pyStr (if neg then "-Infinity" else "Infinity")
  | .finite neg mag => (if neg then [0x2D] else []) ++ magText mag

end PyFloat

/-! ## Formats -/

/-- `round(q, digits)`. -/
def roundDigits (digits : Nat) (q : Rat) : Rat :=
  roundHalfEven (PyFloat.nearest q * 10 ^ digits) / 10 ^ digits

/-- `f"{q:.df}"`: the digits are those of the float, not of the number it stands for. -/
def fixedText (d : Nat) (q : Rat) : String :=
  let n := (roundHalfEven (PyFloat.nearest q * 10 ^ d)).natAbs
  let digits := (toString n).toList
  let padded := List.replicate (d + 1 - digits.length) '0' ++ digits
  let whole := padded.take (padded.length - d)
  let fraction := padded.drop (padded.length - d)
  String.ofList ((if q < 0 then ['-'] else []) ++ whole ++ if d = 0 then [] else '.' :: fraction)

/-- `str(q)` of the float nearest to a number. -/
def floatText (q : Rat) : String :=
  String.ofList ((PyFloat.ofRat (q < 0) |q|).text.map Char.ofNat)

example : (PyFloat.ofRat false (1 / 10)).text = pyStr "0.1" ∧
    (PyFloat.ofRat true (123456789 / 1000)).text = pyStr "-123456.789" ∧
    (PyFloat.ofRat false (10 ^ 16)).text = pyStr "1e+16" ∧
    (PyFloat.ofRat false (5 / 10 ^ 324)).text = pyStr "5e-324" ∧
    PyFloat.ofRat false (10 ^ 400) = .inf false := by decide +kernel

example : fixedText 1 (2999 / 10) = "299.9" ∧ fixedText 1 (535 / 100) = "5.3" ∧ fixedText 0 2700 = "2700" ∧
    floatText (15 / 100) = "0.15" ∧ roundDigits 2 (1 / 8) = 12 / 100 := by decide +kernel

end OTS
