import OTSecurity.Lib.Binary64

/-!
# Decimal numbers

Python's `decimal.Decimal` in its default context: results of at most 28 digits, with exponents up to
999999.

* `PyDecimal` — a sign, the digits and an exponent; `PyDecimal.value` — the number.
* `PyDecimal.checked` — the constructor, which takes no number that it cannot represent.
* `PyDecimal.mulNat` — a product, rounded to nearest, ties to even; `none` when it overflows.
* `PyDecimal.roundToInt` — `quantize(Decimal(1), ROUND_HALF_UP)`; `none` when the result has too many
  digits.
* `PyDecimal.text`, `PyDecimal.toFloat` — `str` and `float`.
-/

namespace OTS

structure PyDecimal where
  neg : Bool
  coeff : Nat
  exp : Int
  deriving DecidableEq, Repr

namespace PyDecimal

/-- `Decimal(n)`. -/
def ofInt (n : Int) : PyDecimal := ⟨n < 0, n.natAbs, 0⟩

/-- The number without its sign. -/
def mag (d : PyDecimal) : Rat := d.coeff * powInt 10 d.exp

def value (d : PyDecimal) : Rat := if d.neg then -d.mag else d.mag

def digitCount (n : Nat) : Nat := (natText n).length

/-! ## The constructor -/

/-- The largest exponent of the leading digit. -/
def MAX_EMAX : Int := 999999999999999999

/-- The smallest exponent of the last digit. -/
def MIN_ETINY : Int := -1999999999999999997

/-- `Decimal(text)`; `none` when it raises `InvalidOperation`. -/
def checked (d : PyDecimal) : Option PyDecimal :=
  let top := if d.coeff = 0 then d.exp else d.exp + digitCount d.coeff - 1
  if MIN_ETINY ≤ d.exp ∧ top ≤ MAX_EMAX then some d else none

/-! ## The default context -/

def PREC : Nat := 28

def EMAX : Int := 999999

/-- The digits of `c`, rounded to the precision, and how many were dropped. -/
def roundCoeff (c : Nat) : Nat × Nat :=
  let drop := digitCount c - PREC
  ((roundHalfEven ((c : Rat) / 10 ^ drop)).toNat, drop)

/-- `d * n`, rounded; `none` when `Overflow` is raised.  A result below the smallest exponent loses
digits in Python and keeps them here. -/
def mulNat (d : PyDecimal) (n : Nat) : Option PyDecimal :=
  let (c, drop) := roundCoeff (d.coeff * n)
  let e := d.exp + drop
  if c ≠ 0 ∧ EMAX < e + digitCount c - 1 then none else some ⟨d.neg, c, e⟩

/-- To the nearest integer, ties away from zero. -/
def halfUp (q : Rat) : Int := (q + 1 / 2).floor

/-- `int(d.quantize(Decimal(1), ROUND_HALF_UP))`; `none` when `InvalidOperation` is raised. -/
def roundToInt (d : PyDecimal) : Option Int :=
  if d.coeff ≠ 0 ∧ (PREC : Int) < d.exp + digitCount d.coeff then none
  else some (if d.neg then -halfUp d.mag else halfUp d.mag)

/-! ## Text and floats -/

/-- `str(d)`. -/
def text (d : PyDecimal) : PyStr :=
  let ds := natText d.coeff
  let left := d.exp + ds.length
  let dot := if d.exp ≤ 0 ∧ -6 < left then left else 1
  let body :=
    if dot ≤ 0 then pyStr "0." ++ List.replicate (-dot).toNat 0x30 ++ ds
    else if (ds.length : Int) ≤ dot then ds ++ List.replicate (dot.toNat - ds.length) 0x30
    else ds.take dot.toNat ++ 0x2E :: ds.drop dot.toNat
  let tail :=
    if left = dot then []
    else 0x45 :: (if left - dot < 0 then 0x2D else 0x2B) :: natText (left - dot).natAbs
  (if d.neg then [0x2D] else []) ++ body ++ tail

/-- `float(d)`. -/
def toFloat (d : PyDecimal) : PyFloat := .ofRat d.neg d.mag

end PyDecimal

example : (PyDecimal.mk false 150 (-2)).text = pyStr "1.50" ∧
    (PyDecimal.mk true 5 (-9)).text = pyStr "-5E-9" ∧
    (PyDecimal.mk false 12 3).text = pyStr "1.2E+4" ∧
    (PyDecimal.mk false 0 0).text = pyStr "0" := by decide +kernel
example : ((PyDecimal.mk false 25 (-1)).mulNat 3).bind PyDecimal.roundToInt = some 8 ∧
    (PyDecimal.mk true 25 (-1)).roundToInt = some (-3) ∧
    (PyDecimal.mk false 1 28).roundToInt = none := by decide +kernel

end OTS
