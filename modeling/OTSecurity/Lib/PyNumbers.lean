import OTSecurity.Lib.PyExc

/-!
# Numbers of Python from other values

`int(v)`, `float(v)` and `round(x)` of the values of `json.loads`, with the exceptions they raise.

* `asciiText` — blanks and decimal digits of any script as those of ASCII.
* `intOfText`, `floatOfText` — the numbers that a text denotes.
* `Json.toIntE`, `Json.toFloatE`, `roundE` — the conversions.
* `Json.truthy` — `bool(v)`.

Principal result: `float_text_encodable` — the text of a float has no lone surrogate.
-/

namespace OTS

/-! ## Texts -/

/-- A blank, as the conversions of texts see it. -/
def isBlank (c : Nat) : Bool :=
  (0x09 ≤ c ∧ c ≤ 0x0D) ∨ c = 0x20 ∨ c = 0x85 ∨ c = 0xA0 ∨ c = 0x1680 ∨ (0x2000 ≤ c ∧ c ≤ 0x200A) ∨
    c = 0x2028 ∨ c = 0x2029 ∨ c = 0x202F ∨ c = 0x205F ∨ c = 0x3000

def stripBlanks (s : PyStr) : PyStr := ((s.dropWhile isBlank).reverse.dropWhile isBlank).reverse

/-- The text without the blanks around it, with its decimal digits in ASCII. -/
def asciiText (s : PyStr) : PyStr :=
  (stripBlanks s).map fun c => (decimalDigit c).elim c fun d => 0x30 + d

/-- The sign in front: whether it is a minus, and the rest. -/
def signed (s : PyStr) : Bool × PyStr :=
  match s with
  | 0x2D :: r => (true, r)
  | 0x2B :: r => (false, r)
  | r => (false, r)

/-- The text without its underscores, if each stands between two digits.  `prev` is the character before. -/
def withoutUnderscores (prev : Nat) : PyStr → Option PyStr
  | [] => if prev = 0x5F then none else some []
  | c :: rest =>
    if c = 0x5F then if isAsciiDigit prev then withoutUnderscores c rest else none
    else if prev = 0x5F ∧ ¬ isAsciiDigit c then none
    else (withoutUnderscores c rest).map (c :: ·)

/-- `int(s)`. -/
def intOfText (s : PyStr) : Option Int :=
  let (neg, body) := signed (asciiText s)
  match withoutUnderscores 0 body with
  | none => none
  | some ds =>
    if ds = [] ∨ ¬ ds.all isAsciiDigit ∨ Json.INT_MAX_STR_DIGITS < ds.length then none
    else some (if neg then -(ofDigits ds : Int) else ofDigits ds)

def lowerAscii (s : PyStr) : PyStr := s.map fun c => if 0x41 ≤ c ∧ c ≤ 0x5A then c + 0x20 else c

/-- A decimal number without its sign, up to the end of the text. -/
def decimalFloat (neg : Bool) (s : PyStr) : Option PyFloat :=
  let (whole, r1) := Json.digits s
  let (frac, r2) := match r1 with
    | 0x2E :: r => Json.digits r
    | r => ([], r)
  if whole ++ frac = [] then none
  else match Json.exponent r2 with
    | (e, []) => some (.ofRat neg (ofDigits (whole ++ frac) * powInt 10 (e.getD 0 - frac.length)))
    | _ => none

/-- `float(s)`. -/
def floatOfText (s : PyStr) : Option PyFloat :=
  match withoutUnderscores 0 (asciiText s) with
  | none => none
  | some t =>
    let (neg, body) := signed t
    if lowerAscii body = pyStr "inf" ∨ lowerAscii body = pyStr "infinity" then some (.inf neg)
    else if lowerAscii body = pyStr "nan" then some .nan
    else decimalFloat neg body

/-! ## The text of a float -/

theorem Encodable.sub {s t : PyStr} (h : Encodable s) (hsub : t ⊆ s) : Encodable t := fun c hc => h c (hsub hc)

theorem shortest_encodable (a : Rat) : Encodable (PyFloat.shortest a).1 := by
  have hdigits : ∀ n : Nat, Encodable ((natText n).reverse.dropWhile (· = 0x30)).reverse := by
    intro n
    refine (pyStr_encodable (toString n)).sub fun c hc => ?_
    have hmem := (List.dropWhile_sublist (· = 0x30)).subset (List.mem_reverse.1 hc)
    exact List.mem_reverse.1 hmem
  exact hdigits _

theorem magText_encodable (a : Rat) : Encodable (PyFloat.magText a) := by
  have hds := shortest_encodable a
  have htake : ∀ n, Encodable ((PyFloat.shortest a).1.take n) := fun n => hds.take n
  have hdrop : ∀ n, Encodable ((PyFloat.shortest a).1.drop n) := fun n => hds.sub (List.drop_subset _ _)
  have hnat : ∀ n : Nat, Encodable (natText n) := fun n => pyStr_encodable _
  have hzeros : ∀ n, Encodable (List.replicate n 0x30) := by
    intro n c hc
    rw [List.eq_of_mem_replicate hc]
    decide
  have hdot : isSurrogate 0x2E = false := by decide
  unfold PyFloat.magText
  split
  · exact pyStr_encodable _
  simp only
  split
  · have htail : Encodable (if (PyFloat.shortest a).1.length ≤ 1 then []
        else 0x2E :: (PyFloat.shortest a).1.drop 1) := by
      split
      · exact encodable_nil
      · exact encodable_cons.2 ⟨hdot, hdrop 1⟩
    have hexp : Encodable (if (natText ((PyFloat.shortest a).2 - 1).natAbs).length < 2
        then 0x30 :: natText ((PyFloat.shortest a).2 - 1).natAbs
        else natText ((PyFloat.shortest a).2 - 1).natAbs) := by
      split
      · exact encodable_cons.2 ⟨by decide, hnat _⟩
      · exact hnat _
    have hsign : isSurrogate (if (PyFloat.shortest a).2 - 1 < 0 then 0x2D else 0x2B) = false := by
      split <;> decide
    exact encodable_append.2 ⟨encodable_append.2 ⟨htake 1, htail⟩,
      encodable_cons.2 ⟨by decide, encodable_cons.2 ⟨hsign, hexp⟩⟩⟩
  split
  · exact encodable_append.2 ⟨encodable_append.2 ⟨pyStr_encodable _, hzeros _⟩, hds⟩
  split
  · exact encodable_append.2 ⟨encodable_append.2 ⟨hds, hzeros _⟩, pyStr_encodable _⟩
  · exact encodable_append.2 ⟨htake _, encodable_cons.2 ⟨hdot, hdrop _⟩⟩

/-- **The text of a float has no lone surrogate.** -/
theorem float_text_encodable (x : PyFloat) : Encodable x.text := by
  cases x with
  | nan => exact pyStr_encodable _
  | inf neg => exact pyStr_encodable _
  | finite neg mag =>
    refine encodable_append.2 ⟨?_, magText_encodable mag⟩
    split
    · decide
    · exact encodable_nil

/-! ## Conversions -/

/-- `round(x)`. -/
def roundE (x : PyFloat) : Py Int :=
  match x with
  | .nan => .error .valueError
  | .inf _ => .error .overflowError
  | .finite .. => .ofOption .valueError x.roundInt

namespace Json

/-- `int(v)`. -/
def toIntE : Json → Py Int
  | .int n => .ok n
  | .bool b => .ok (if b then 1 else 0)
  | .float .nan => .error .valueError
  | .float (.inf _) => .error .overflowError
  | .float (.finite neg mag) =>
    .ofOption .valueError ((PyFloat.finite neg mag).value?.map fun v => if 0 ≤ v then v.floor else -(-v).floor)
  | .str s => .ofOption .valueError (intOfText s)
  | .null => .error .typeError
  | .arr _ => .error .typeError
  | .obj _ => .error .typeError

/-- `float(v)`. -/
def toFloatE : Json → Py PyFloat
  | .int n =>
    match PyFloat.ofRat (n < 0) n.natAbs with
    | .inf _ => .error .overflowError
    | x => .ok x
  | .bool b => .ok (.finite false (if b then 1 else 0))
  | .float x => .ok x
  | .str s => .ofOption .valueError (floatOfText s)
  | .null => .error .typeError
  | .arr _ => .error .typeError
  | .obj _ => .error .typeError

/-- `bool(v)`. -/
def truthy : Json → Bool
  | .null => false
  | .bool b => b
  | .int n => n ≠ 0
  | .float x => x.value? ≠ some 0
  | .str s => s ≠ []
  | .arr xs => !xs.isEmpty
  | .obj ms => !ms.isEmpty

end Json

/-- A number with its sign, blanks, an underscore and digits of another script. -/
example : intOfText (pyStr " -1_2\u0664 ") = some (-124) := by decide

end OTS
