import OTSecurity.Lib.Binary64

/-!
# JSON

The values of Python's `json` module, its reader and its writer.

* `Json` — a value; integers are unbounded, floats binary, the keys of an object are distinct and
  keep the order in which they were first set.
* `Json.loads` — the reader.  It takes `NaN` and the infinities, lone surrogates in escapes,
  repeated keys (the last value wins) and integers of at most 4300 digits; `depth` bounds the
  nesting, as the interpreter's recursion limit does.
* `Json.dumps` — the writer without blanks; with `ascii` every other character is escaped.
-/

namespace OTS

inductive Json where
  | null
  | bool (b : Bool)
  | int (n : Int)
  | float (x : PyFloat)
  | str (s : PyStr)
  | arr (xs : List Json)
  | obj (members : List (PyStr × Json))

/-! ## Objects -/

/-- `d[k] = v`: an old key keeps its place. -/
def dictSet {V : Type} (members : List (PyStr × V)) (k : PyStr) (v : V) : List (PyStr × V) :=
  if members.any (·.1 = k) then members.map fun m => if m.1 = k then (k, v) else m
  else members ++ [(k, v)]

def dictOf {V : Type} (pairs : List (PyStr × V)) : List (PyStr × V) :=
  pairs.foldl (fun d m => dictSet d m.1 m.2) []

namespace Json

/-- `d.get(k)`, with `none` for an absent key. -/
def dictGet (members : List (PyStr × Json)) (k : PyStr) : Option Json :=
  (members.find? (·.1 = k)).map (·.2)

/-- The value of key `k` of an object. -/
def get? (v : Json) (k : String) : Option Json :=
  match v with
  | .obj members => dictGet members (pyStr k)
  | _ => none

/-- The text of key `k` of an object. -/
def getStr? (v : Json) (k : String) : Option PyStr :=
  match v.get? k with
  | some (.str s) => some s
  | _ => none

def setKey (v : Json) (k : String) (w : Json) : Json :=
  match v with
  | .obj members => .obj (dictSet members (pyStr k) w)
  | v => v

/-! ## Reading -/

/-- `str.lstrip` on the blanks of JSON. -/
def skipWs (s : PyStr) : PyStr := s.dropWhile fun c => c = 0x20 ∨ c = 0x09 ∨ c = 0x0A ∨ c = 0x0D

def hexDigitValue (c : Nat) : Option Nat :=
  if 0x30 ≤ c ∧ c < 0x3A then some (c - 0x30)
  else if 0x61 ≤ c ∧ c < 0x67 then some (c - 0x61 + 10)
  else if 0x41 ≤ c ∧ c < 0x47 then some (c - 0x41 + 10)
  else none

/-- The code unit that four hexadecimal digits name. -/
def hex4 (a b c d : Nat) : Option Nat :=
  match hexDigitValue a, hexDigitValue b, hexDigitValue c, hexDigitValue d with
  | some w, some x, some y, some z => some (((w * 16 + x) * 16 + y) * 16 + z)
  | _, _, _, _ => none

def isHighSurrogate (u : Nat) : Bool := 0xD800 ≤ u && u < 0xDC00
def isLowSurrogate (u : Nat) : Bool := 0xDC00 ≤ u && u < 0xE000

def joinSurrogates (u l : Nat) : Nat := 0x10000 + (u - 0xD800) * 0x400 + (l - 0xDC00)

/-- What a backslash and `e` stand for. -/
def escaped (e : Nat) : Option Nat :=
  if e = 0x22 ∨ e = 0x5C ∨ e = 0x2F then some e
  else if e = 0x62 then some 0x08
  else if e = 0x66 then some 0x0C
  else if e = 0x6E then some 0x0A
  else if e = 0x72 then some 0x0D
  else if e = 0x74 then some 0x09
  else none

/-- The low surrogate that an escape at the front names, and what follows it. -/
def lowEscape : PyStr → Option (Nat × PyStr)
  | 0x5C :: 0x75 :: a :: b :: c :: d :: rest =>
    match hex4 a b c d with
    | some l => if isLowSurrogate l then some (l, rest) else none
    | none => none
  | _ => none

/-- A string after its opening quote: the characters and what follows the closing quote.  `skip`
characters of an escape remain to be dropped. -/
def scanString : Nat → PyStr → Option (PyStr × PyStr)
  | _, [] => none
  | skip + 1, _ :: rest => scanString skip rest
  | 0, c :: rest =>
    if c = 0x22 then some ([], rest)
    else if c < 0x20 then none
    else if c = 0x5C then
      match rest with
      | 0x75 :: a :: b :: x :: d :: tail =>
        match hex4 a b x d with
        | none => none
        | some u =>
          match lowEscape tail with
          | some (l, _) =>
            if isHighSurrogate u then
              (scanString 11 rest).map fun r => (joinSurrogates u l :: r.1, r.2)
            else (scanString 5 rest).map fun r => (u :: r.1, r.2)
          | none => (scanString 5 rest).map fun r => (u :: r.1, r.2)
      | e :: _ =>
        match escaped e with
        | none => none
        | some v => (scanString 1 rest).map fun r => (v :: r.1, r.2)
      | [] => none
    else (scanString 0 rest).map fun r => (c :: r.1, r.2)

/-- `sys.get_int_max_str_digits()`. -/
def INT_MAX_STR_DIGITS : Nat := 4300

/-- The digits at the front and the rest. -/
def digits (s : PyStr) : PyStr × PyStr := s.span isAsciiDigit

/-- The whole part of a number: one zero, or digits that do not start with zero. -/
def wholePart (s : PyStr) : Option (PyStr × PyStr) :=
  match s with
  | [] => none
  | c :: rest =>
    if c = 0x30 then some ([c], rest)
    else if isAsciiDigit c then some (digits s)
    else none

/-- The fraction, if a point and a digit stand in front. -/
def fraction (s : PyStr) : PyStr × PyStr :=
  match s with
  | 0x2E :: rest => if (digits rest).1 = [] then ([], s) else digits rest
  | _ => ([], s)

/-- The exponent, if there is one. -/
def exponent (s : PyStr) : Option Int × PyStr :=
  match s with
  | [] => (none, s)
  | e :: rest =>
    if e = 0x65 ∨ e = 0x45 then
      let (neg, ds) := match rest with
        | 0x2D :: r => (true, r)
        | 0x2B :: r => (false, r)
        | r => (false, r)
      let (d, tail) := digits ds
      if d = [] then (none, s) else (some (if neg then -(ofDigits d : Int) else ofDigits d), tail)
    else (none, s)

/-- A number: an integer, or a float if it has a fraction or an exponent. -/
def scanNumber (s : PyStr) : Option (Json × PyStr) :=
  let (neg, body) := match s with
    | 0x2D :: r => (true, r)
    | r => (false, r)
  match wholePart body with
  | none => none
  | some (whole, r1) =>
    let (frac, r2) := fraction r1
    match exponent r2 with
    | (none, r3) =>
      if frac = [] then
        if INT_MAX_STR_DIGITS < whole.length then none
        else some (.int (if neg then -(ofDigits whole : Int) else ofDigits whole), r3)
      else some (.float (.ofRat neg (ofDigits (whole ++ frac) * powInt 10 (-(frac.length : Int)))), r3)
    | (some e, r3) =>
      some (.float (.ofRat neg (ofDigits (whole ++ frac) * powInt 10 (e - frac.length))), r3)

def stripPrefix : PyStr → PyStr → Option PyStr
  | [], s => some s
  | _ :: _, [] => none
  | p :: ps, c :: cs => if p = c then stripPrefix ps cs else none

def literals : List (String × Json) :=
  [("null", .null), ("true", .bool true), ("false", .bool false), ("NaN", .float .nan),
    ("Infinity", .float (.inf false)), ("-Infinity", .float (.inf true))]

def scanLiteral (s : PyStr) : Option (Json × PyStr) :=
  literals.findSome? fun l => (stripPrefix (pyStr l.1) s).map fun r => (l.2, r)

mutual

/-- A value at the front of the text.  Every call takes one unit of fuel and, at the end of a
value, one character. -/
def scanValue : Nat → Nat → PyStr → Option (Json × PyStr)
  | 0, _, _ => none
  | _ + 1, _, [] => none
  | fuel + 1, depth, c :: rest =>
    if c = 0x22 then (scanString 0 rest).map fun r => (.str r.1, r.2)
    else if c = 0x5B then
      if depth = 0 then none
      else match skipWs rest with
        | 0x5D :: r => some (.arr [], r)
        | r => (scanElements fuel (depth - 1) r).map fun p => (.arr p.1, p.2)
    else if c = 0x7B then
      if depth = 0 then none
      else match skipWs rest with
        | 0x7D :: r => some (.obj [], r)
        | r => (scanMembers fuel (depth - 1) r).map fun p => (.obj (dictOf p.1), p.2)
    else match scanLiteral (c :: rest) with
      | some r => some r
      | none => scanNumber (c :: rest)

/-- The elements of an array up to its end. -/
def scanElements : Nat → Nat → PyStr → Option (List Json × PyStr)
  | 0, _, _ => none
  | fuel + 1, depth, s =>
    match scanValue fuel depth s with
    | none => none
    | some (v, r) =>
      match skipWs r with
      | 0x5D :: r' => some ([v], r')
      | 0x2C :: r' => (scanElements fuel depth (skipWs r')).map fun p => (v :: p.1, p.2)
      | _ => none

/-- The members of an object up to its end. -/
def scanMembers : Nat → Nat → PyStr → Option (List (PyStr × Json) × PyStr)
  | 0, _, _ => none
  | fuel + 1, depth, s =>
    match s with
    | 0x22 :: r =>
      match scanString 0 r with
      | none => none
      | some (k, r1) =>
        match skipWs r1 with
        | 0x3A :: r2 =>
          match scanValue fuel depth (skipWs r2) with
          | none => none
          | some (v, r3) =>
            match skipWs r3 with
            | 0x7D :: r4 => some ([(k, v)], r4)
            | 0x2C :: r4 => (scanMembers fuel depth (skipWs r4)).map fun p => ((k, v) :: p.1, p.2)
            | _ => none
        | _ => none
    | _ => none

end

/-- `json.loads(s)`; `none` when it raises `ValueError` or `RecursionError`. -/
def loads (depth : Nat) (s : PyStr) : Option Json :=
  match scanValue (s.length + 1) depth (skipWs s) with
  | some (v, r) => if skipWs r = [] then some v else none
  | none => none

/-! ## Writing -/

def hexDigit (d : Nat) : Nat := if d < 10 then 0x30 + d else 0x57 + d

/-- `\uXXXX`. -/
def unicodeEscape (u : Nat) : PyStr :=
  [0x5C, 0x75, hexDigit (u / 4096 % 16), hexDigit (u / 256 % 16), hexDigit (u / 16 % 16),
    hexDigit (u % 16)]

def escapeChar (ascii : Bool) (c : Nat) : PyStr :=
  if c = 0x22 then [0x5C, 0x22]
  else if c = 0x5C then [0x5C, 0x5C]
  else if c = 0x0A then [0x5C, 0x6E]
  else if c = 0x0D then [0x5C, 0x72]
  else if c = 0x09 then [0x5C, 0x74]
  else if c = 0x0C then [0x5C, 0x66]
  else if c = 0x08 then [0x5C, 0x62]
  else if c < 0x20 then unicodeEscape c
  else if !ascii || c < 0x7F then [c]
  else if c < 0x10000 then unicodeEscape c
  else unicodeEscape (0xD800 + (c - 0x10000) / 0x400) ++ unicodeEscape (0xDC00 + (c - 0x10000) % 0x400)

def dumpString (ascii : Bool) (s : PyStr) : PyStr := 0x22 :: (s.flatMap (escapeChar ascii) ++ [0x22])

mutual

/-- `json.dumps(v, separators=(",", ":"), ensure_ascii=ascii)`. -/
def dumps (ascii : Bool) : Json → PyStr
  | .null => pyStr "null"
  | .bool b => pyStr (if b then "true" else "false")
  | .int n => intText n
  | .float x => x.text
  | .str s => dumpString ascii s
  | .arr xs => 0x5B :: (dumpElements ascii xs ++ [0x5D])
  | .obj members => 0x7B :: (dumpMembers ascii members ++ [0x7D])

def dumpElements (ascii : Bool) : List Json → PyStr
  | [] => []
  | [x] => dumps ascii x
  | x :: y :: xs => dumps ascii x ++ 0x2C :: dumpElements ascii (y :: xs)

def dumpMembers (ascii : Bool) : List (PyStr × Json) → PyStr
  | [] => []
  | [(k, v)] => dumpString ascii k ++ 0x3A :: dumps ascii v
  | (k, v) :: m :: members =>
    dumpString ascii k ++ 0x3A :: dumps ascii v ++ 0x2C :: dumpMembers ascii (m :: members)

end

/-- `_dumps`: the bytes of the text; `none` when a string holds a lone surrogate. -/
def dumpBytes (v : Json) : Option Bytes := encodeUtf8 (v.dumps false)

theorem dumpBytes_isSome {v : Json} : v.dumpBytes.isSome ↔ Encodable (v.dumps false) :=
  encodeUtf8_isSome

/-! ### Which texts UTF-8 holds -/

theorem hexDigit_encodable {d : Nat} (h : d < 16) : isSurrogate (hexDigit d) = false := by
  unfold isSurrogate hexDigit
  simp only [Bool.and_eq_false_iff, decide_eq_false_iff_not]
  split <;> omega

theorem unicodeEscape_encodable (u : Nat) : Encodable (unicodeEscape u) := by
  have hd := fun n => hexDigit_encodable (Nat.mod_lt n (show 0 < 16 by decide))
  have hlit : isSurrogate 0x5C = false ∧ isSurrogate 0x75 = false := by decide
  simp only [unicodeEscape, encodable_cons, hlit, hd, encodable_nil, and_self]

/-- A character stands for itself, or is escaped by at most six that UTF-8 holds. -/
theorem escapeChar_cases (c : Nat) : escapeChar false c = [c] ∨
    c < 0x7F ∧ (escapeChar false c).length ≤ 6 ∧ Encodable (escapeChar false c) := by
  unfold escapeChar
  iterate 7
    split
    · exact .inr ⟨by omega, by decide, by decide⟩
  split
  · exact .inr ⟨by omega, Nat.le_refl 6, unicodeEscape_encodable c⟩
  · exact .inl (if_pos rfl)

theorem escapeChar_encodable (c : Nat) :
    Encodable (escapeChar false c) ↔ isSurrogate c = false := by
  rcases escapeChar_cases c with h | ⟨hc, -, he⟩
  · rw [h, encodable_cons, and_iff_left encodable_nil]
  · refine iff_of_true he ?_
    simp only [isSurrogate, Bool.and_eq_false_iff, decide_eq_false_iff_not]
    omega

theorem dumpString_encodable {s : PyStr} : Encodable (dumpString false s) ↔ Encodable s := by
  have hquote : isSurrogate 0x22 = false := by decide
  simp only [dumpString, encodable_cons, encodable_append, hquote, encodable_nil, true_and, and_true]
  induction s with
  | nil => simp
  | cons c s ih => simp only [List.flatMap_cons, encodable_append, escapeChar_encodable, ih,
      encodable_cons]

theorem dumpMembers_encodable (members : List (PyStr × Json)) :
    Encodable (dumpMembers false members) ↔
      ∀ m ∈ members, Encodable m.1 ∧ Encodable (dumps false m.2) := by
  have hmarks : isSurrogate 0x3A = false ∧ isSurrogate 0x2C = false := by decide
  induction members with
  | nil => simp [dumpMembers]
  | cons m ms ih =>
    obtain ⟨k, v⟩ := m
    cases ms with
    | nil => simp [dumpMembers, dumpString_encodable, hmarks]
    | cons m ms =>
      rw [dumpMembers]
      simp only [encodable_append, encodable_cons, dumpString_encodable, hmarks, true_and, ih,
        List.forall_mem_cons]

theorem dumps_obj_encodable {members : List (PyStr × Json)} :
    Encodable (dumps false (.obj members)) ↔
      ∀ m ∈ members, Encodable m.1 ∧ Encodable (dumps false m.2) := by
  have hmarks : isSurrogate 0x7B = false ∧ isSurrogate 0x7D = false := by decide
  rw [dumps]
  simp [hmarks, dumpMembers_encodable]

theorem dumps_obj_length_le (members : List (PyStr × Json)) :
    (dumps false (.obj members)).length ≤ 2 + (members.map fun m =>
      (dumpString false m.1).length + 2 + (dumps false m.2).length).sum := by
  have hmembers : (dumpMembers false members).length ≤ (members.map fun m =>
      (dumpString false m.1).length + 2 + (dumps false m.2).length).sum := by
    induction members with
    | nil => exact Nat.zero_le _
    | cons m ms ih =>
      obtain ⟨k, v⟩ := m
      cases ms with
      | nil =>
        simp only [dumpMembers, List.length_append, List.length_cons, List.map_cons, List.map_nil,
          List.sum_cons, List.sum_nil]
        omega
      | cons m ms =>
        rw [dumpMembers]
        simp only [List.map_cons, List.sum_cons, List.length_append, List.length_cons] at ih ⊢
        omega
  rw [dumps]
  simp only [List.length_cons, List.length_append, List.length_nil]
  omega

theorem dumpString_length_le (s : PyStr) : (dumpString false s).length ≤ 6 * s.length + 2 := by
  have hchar : ∀ c, (escapeChar false c).length ≤ 6 := by
    intro c
    rcases escapeChar_cases c with h | ⟨-, h, -⟩
    · rw [h]
      exact Nat.succ_le_succ (Nat.zero_le _)
    · exact h
  have hall : (s.flatMap (escapeChar false)).length ≤ 6 * s.length := by
    induction s with
    | nil => exact Nat.zero_le _
    | cons c s ih =>
      have := hchar c
      simp only [List.flatMap_cons, List.length_append, List.length_cons]
      omega
  simp only [dumpString, List.length_cons, List.length_append, List.length_nil]
  omega

-- A repeated key, an escape, a float and a lone surrogate.
example : ((loads 10 (pyStr " \x7b\"a\": [1, -2.50, true], \"b\": \"x\\n\\u00e9\", \"a\": []\x7d ")).map (dumps false)) =
    some (pyStr "\x7b\"a\":[],\"b\":\"x\\né\"\x7d") := by decide +kernel
example : ((loads 10 (pyStr "[1e2,\"\\ud83d\\ude00\\ud800\",NaN]")).map (dumps true)) =
    some (pyStr "[100.0,\"\\ud83d\\ude00\\ud800\",NaN]") := by decide +kernel
example : (loads 10 (pyStr "01")).isNone ∧ (loads 10 (pyStr "[1,]")).isNone ∧
    (loads 1 (pyStr "[[]]")).isNone := by decide +kernel

end Json

end OTS
