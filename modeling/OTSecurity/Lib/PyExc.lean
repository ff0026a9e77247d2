import OTSecurity.Lib.Json

/-!
# Python exceptions

Computations that may raise one of the built-in exceptions, on the values of `json.loads`.

* `PyExc` — the exceptions told apart; the Unicode and JSON errors are `ValueError`s.
* `Json.item`, `Json.get`, `Json.hashed` — `v[k]`, `v.get(k)` and `hash(v)`.
* `Json.readE` — the reader, with its errors told apart: text that is not JSON, and text that nests
  too deep.
* `Json.loadsBytes` — `json.loads` of bytes, which may be UTF-8, UTF-16 or UTF-32.
* `RaisesOnly` — a computation raises nothing but what `P` holds of; `raisesOnly_bind` — a sequence does when its first
  part does, and its second part does on every value of the first.

Principal results: `readE_toOption` — the reader with errors is the reader; `scanString_dump` — a
written string reads back.
-/

namespace OTS

inductive PyExc where
  | valueError
  | keyError
  | typeError
  | attributeError
  | overflowError
  | recursionError
  deriving DecidableEq, Repr

abbrev Py := Except PyExc

/-- A computation that raises `e` when it has no value. -/
def Py.ofOption {α : Type} (e : PyExc) : Option α → Py α
  | some a => .ok a
  | none => .error e

namespace Json

/-! ## Access -/

/-- `v[k]`. -/
def item (v : Json) (k : String) : Py Json :=
  match v with
  | .obj ms => .ofOption .keyError (dictGet ms (pyStr k))
  | _ => .error .typeError

/-- `v.get(k)`. -/
def get (v : Json) (k : String) : Py Json :=
  match v with
  | .obj ms => .ok ((dictGet ms (pyStr k)).getD .null)
  | _ => .error .attributeError

/-- `hash(v)`. -/
def hashed : Json → Py Unit
  | .arr _ => .error .typeError
  | .obj _ => .error .typeError
  | _ => .ok ()

/-- `v == text`. -/
def eqText (v : Json) (text : String) : Bool :=
  match v with
  | .str s => s = pyStr text
  | _ => false

/-! ## The reader with its errors -/

mutual

/-- `scanValue`, with the error. -/
def scanValueE : Nat → Nat → PyStr → Py (Json × PyStr)
  | 0, _, _ => .error .valueError
  | _ + 1, _, [] => .error .valueError
  | fuel + 1, depth, c :: rest =>
    if c = 0x22 then .ofOption .valueError ((scanString 0 rest).map fun r => (.str r.1, r.2))
    else if c = 0x5B then
      if depth = 0 then .error .recursionError
      else match skipWs rest with
        | 0x5D :: r => .ok (.arr [], r)
        | r => (scanElementsE fuel (depth - 1) r).map fun p => (.arr p.1, p.2)
    else if c = 0x7B then
      if depth = 0 then .error .recursionError
      else match skipWs rest with
        | 0x7D :: r => .ok (.obj [], r)
        | r => (scanMembersE fuel (depth - 1) r).map fun p => (.obj (dictOf p.1), p.2)
    else match scanLiteral (c :: rest) with
      | some r => .ok r
      | none => .ofOption .valueError (scanNumber (c :: rest))

/-- `scanElements`, with the error. -/
def scanElementsE : Nat → Nat → PyStr → Py (List Json × PyStr)
  | 0, _, _ => .error .valueError
  | fuel + 1, depth, s =>
    match scanValueE fuel depth s with
    | .error e => .error e
    | .ok (v, r) =>
      match skipWs r with
      | 0x5D :: r' => .ok ([v], r')
      | 0x2C :: r' => (scanElementsE fuel depth (skipWs r')).map fun p => (v :: p.1, p.2)
      | _ => .error .valueError

/-- `scanMembers`, with the error. -/
def scanMembersE : Nat → Nat → PyStr → Py (List (PyStr × Json) × PyStr)
  | 0, _, _ => .error .valueError
  | fuel + 1, depth, s =>
    match s with
    | 0x22 :: r =>
      match scanString 0 r with
      | none => .error .valueError
      | some (k, r1) =>
        match skipWs r1 with
        | 0x3A :: r2 =>
          match scanValueE fuel depth (skipWs r2) with
          | .error e => .error e
          | .ok (v, r3) =>
            match skipWs r3 with
            | 0x7D :: r4 => .ok ([(k, v)], r4)
            | 0x2C :: r4 => (scanMembersE fuel depth (skipWs r4)).map fun p => ((k, v) :: p.1, p.2)
            | _ => .error .valueError
        | _ => .error .valueError
    | _ => .error .valueError

end

/-- `json.loads(s)`. -/
def readE (depth : Nat) (s : PyStr) : Py Json :=
  match scanValueE (s.length + 1) depth (skipWs s) with
  | .ok (v, r) => if skipWs r = [] then .ok v else .error .valueError
  | .error e => .error e

/-! ### Bytes -/

/-- `decode("utf-8", "surrogatepass")`, inside a character as in `replaceFrom`. -/
def decodeFrom (acc lo hi need : Nat) : Bytes → Option PyStr
  | [] => if need = 0 then some [] else none
  | b :: rest =>
    if need = 0 then
      if b.toNat < 0x80 then (decodeFrom 0 0 0 0 rest).map (b.toNat :: ·)
      else match if b.toNat = 0xED then some (0x80, 0xC0, 2) else continuations b.toNat with
        | none => none
        | some (lo', hi', n) => decodeFrom (b.toNat % 2 ^ (6 - n)) lo' hi' n rest
    else if lo ≤ b.toNat ∧ b.toNat < hi then
      let acc' := acc * 64 + b.toNat % 64
      if need = 1 then (decodeFrom 0 0 0 0 rest).map (acc' :: ·)
      else decodeFrom acc' 0x80 0xC0 (need - 1) rest
    else none

/-- The code units of 16 bits. -/
def units16 (little : Bool) : Bytes → Option (List Nat)
  | [] => some []
  | [_] => none
  | a :: b :: rest =>
    (units16 little rest).map ((if little then a.toNat + 256 * b.toNat
      else 256 * a.toNat + b.toNat) :: ·)

/-- The characters of code units; a surrogate without its partner stands for itself. -/
def joinUnits : List Nat → PyStr
  | [] => []
  | [u] => [u]
  | u :: l :: rest =>
    if isHighSurrogate u && isLowSurrogate l then joinSurrogates u l :: joinUnits rest
    else u :: joinUnits (l :: rest)

/-- The code points of 32 bits. -/
def units32 (little : Bool) : Bytes → Option PyStr
  | [] => some []
  | a :: b :: c :: d :: rest =>
    let u := if little then a.toNat + 256 * (b.toNat + 256 * (c.toNat + 256 * d.toNat))
      else d.toNat + 256 * (c.toNat + 256 * (b.toNat + 256 * a.toNat))
    if u < 0x110000 then (units32 little rest).map (u :: ·) else none
  | _ => none

inductive Encoding where
  | utf8
  | utf16 (little : Bool)
  | utf32 (little : Bool)
  deriving DecidableEq, Repr

/-- `json.detect_encoding`, and what follows the byte order mark. -/
def detectEncoding (bs : Bytes) : Encoding × Bytes :=
  match bs with
  | 0x00 :: 0x00 :: 0xFE :: 0xFF :: rest => (.utf32 false, rest)
  | 0xFF :: 0xFE :: 0x00 :: 0x00 :: rest => (.utf32 true, rest)
  | 0xFE :: 0xFF :: rest => (.utf16 false, rest)
  | 0xFF :: 0xFE :: rest => (.utf16 true, rest)
  | 0xEF :: 0xBB :: 0xBF :: rest => (.utf8, rest)
  | a :: b :: c :: d :: _ =>
    if a = 0 then (if b = 0 then .utf32 false else .utf16 false, bs)
    else if b = 0 then (if c = 0 ∧ d = 0 then .utf32 true else .utf16 true, bs)
    else (.utf8, bs)
  | [a, b] => (if a = 0 then .utf16 false else if b = 0 then .utf16 true else .utf8, bs)
  | bs => (.utf8, bs)

/-- `bs.decode(detect_encoding(bs), "surrogatepass")`. -/
def decodeBytes (bs : Bytes) : Option PyStr :=
  match detectEncoding bs with
  | (.utf8, rest) => decodeFrom 0 0 0 0 rest
  | (.utf16 little, rest) => (units16 little rest).map joinUnits
  | (.utf32 little, rest) => units32 little rest

/-- `json.loads` of bytes. -/
def loadsBytes (depth : Nat) (bs : Bytes) : Py Json :=
  match decodeBytes bs with
  | none => .error .valueError
  | some s => readE depth s

-- The same text in three encodings, one of them with its mark; a lone surrogate in UTF-8.
example : decodeBytes [0x5B, 0x5D] = some (pyStr "[]") ∧
    decodeBytes [0x5B, 0x00, 0x5D, 0x00] = some (pyStr "[]") ∧
    decodeBytes [0x00, 0x00, 0xFE, 0xFF, 0x00, 0x00, 0x00, 0x5B, 0x00, 0x00, 0x00, 0x5D] =
      some (pyStr "[]") ∧
    decodeBytes [0x22, 0xED, 0xA0, 0x80, 0x22] = some [0x22, 0xD800, 0x22] := by decide

/-! ### It is the reader -/

theorem toOption_ok {α : Type} (a : α) : (Except.ok a : Py α).toOption = some a := rfl

theorem toOption_error {α : Type} (e : PyExc) : (Except.error e : Py α).toOption = none := rfl

theorem toOption_map {α β : Type} (f : α → β) (x : Py α) : (x.map f).toOption = x.toOption.map f := by
  cases x <;> rfl

theorem toOption_ofOption {α : Type} (e : PyExc) (x : Option α) :
    (Py.ofOption e x).toOption = x := by
  cases x <;> rfl

theorem scanE_toOption (fuel : Nat) :
    (∀ depth s, (scanValueE fuel depth s).toOption = scanValue fuel depth s) ∧
    (∀ depth s, (scanElementsE fuel depth s).toOption = scanElements fuel depth s) ∧
    (∀ depth s, (scanMembersE fuel depth s).toOption = scanMembers fuel depth s) := by
  induction fuel with
  | zero => exact ⟨fun _ _ => rfl, fun _ _ => rfl, fun _ _ => rfl⟩
  | succ fuel ih =>
    obtain ⟨ihv, ihe, ihm⟩ := ih
    refine ⟨?_, ?_, ?_⟩
    · intro depth s
      cases s with
      | nil => rfl
      | cons c rest =>
        rw [scanValueE, scanValue]
        split_ifs
        · rw [toOption_ofOption]
        · rfl
        · split
          · simp only [toOption_ok, *]
          · simp only [toOption_map, *]
        · rfl
        · split
          · simp only [toOption_ok, *]
          · simp only [toOption_map, *]
        · cases scanLiteral (c :: rest) with
          | some r => rfl
          | none => exact toOption_ofOption _ _
    · intro depth s
      rw [scanElementsE, scanElements, ← ihv]
      cases scanValueE fuel depth s with
      | error e => rfl
      | ok p =>
        simp only [toOption_ok]
        split
        · simp only [toOption_ok, *]
        · simp only [toOption_map, *]
        · simp only [toOption_error]
    · intro depth s
      rw [scanMembersE.eq_def, scanMembers.eq_def]
      simp only
      split
      · rename_i r
        cases hkey : scanString 0 r with
        | none => simp only [toOption_error, *]
        | some k =>
          simp only [*]
          split
          · rename_i r' hcolon
            have hvalue := (ihv depth (skipWs r')).symm
            cases hread : scanValueE fuel depth (skipWs r') with
            | error e => simp only [toOption_error, *]
            | ok p =>
              simp only [toOption_ok, *]
              split
              · simp only [toOption_ok, *]
              · simp only [toOption_map, *]
              · simp only [toOption_error]
          · simp only [toOption_error]
      · simp only [toOption_error]

/-- **The reader with errors is the reader.** -/
theorem readE_toOption (depth : Nat) (s : PyStr) : (readE depth s).toOption = loads depth s := by
  unfold readE loads
  rw [← (scanE_toOption _).1]
  cases scanValueE (s.length + 1) depth (skipWs s) with
  | error e => rfl
  | ok p =>
    simp only [Except.toOption]
    by_cases h : skipWs p.2 = []
    · simp only [if_pos h]
    · simp only [if_neg h]

/-! ## Written strings read back -/

theorem hexDigitValue_hexDigit : ∀ d < 16, hexDigitValue (hexDigit d) = some d := by decide

theorem hex4_escape {u : Nat} (h : u < 0x10000) :
    hex4 (hexDigit (u / 4096 % 16)) (hexDigit (u / 256 % 16)) (hexDigit (u / 16 % 16))
      (hexDigit (u % 16)) = some u := by
  unfold hex4
  simp only [hexDigitValue_hexDigit _ (Nat.mod_lt _ (show 0 < 16 by decide)), Option.some.injEq]
  omega

theorem lowEscape_unicodeEscape {u : Nat} (h : u < 0x10000) (rest : PyStr) :
    lowEscape (unicodeEscape u ++ rest) = if isLowSurrogate u then some (u, rest) else none := by
  simp only [unicodeEscape, List.cons_append, List.nil_append, lowEscape, hex4_escape h]

/-- An escape that names no high surrogate stands for its code unit. -/
theorem scanString_unicodeEscape {u : Nat} (h : u < 0x10000) (hs : isHighSurrogate u = false)
    (rest : PyStr) :
    scanString 0 (unicodeEscape u ++ rest) = (scanString 0 rest).map fun r => (u :: r.1, r.2) := by
  simp only [unicodeEscape, List.cons_append, List.nil_append]
  rw [scanString.eq_def]
  simp only [hex4_escape h, hs, Nat.reduceEqDiff, Nat.reduceLT, if_true, if_false, scanString]
  split <;> rfl

/-- An escaped pair of surrogates stands for one character. -/
theorem scanString_pair {u l : Nat} (hu : u < 0x10000) (hl : l < 0x10000)
    (hhigh : isHighSurrogate u = true) (hlow : isLowSurrogate l = true) (rest : PyStr) :
    scanString 0 (unicodeEscape u ++ (unicodeEscape l ++ rest)) =
      (scanString 0 rest).map fun r => (joinSurrogates u l :: r.1, r.2) := by
  have hnext := lowEscape_unicodeEscape hl rest
  rw [if_pos hlow] at hnext
  conv_lhs => rw [show unicodeEscape u = [0x5C, 0x75, hexDigit (u / 4096 % 16),
    hexDigit (u / 256 % 16), hexDigit (u / 16 % 16), hexDigit (u % 16)] from rfl]
  simp only [List.cons_append, List.nil_append]
  rw [scanString.eq_def]
  simp only [hex4_escape hu, hnext, hhigh, Nat.reduceEqDiff, Nat.reduceLT, if_true, if_false]
  simp only [unicodeEscape, List.cons_append, List.nil_append, scanString]

/-- The surrogates that a character beyond the first plane is escaped as. -/
theorem surrogates_of {c : Nat} (hlo : 0x10000 ≤ c) (hhi : c < 0x110000) :
    isHighSurrogate (0xD800 + (c - 0x10000) / 0x400) = true ∧
      isLowSurrogate (0xDC00 + (c - 0x10000) % 0x400) = true ∧
      joinSurrogates (0xD800 + (c - 0x10000) / 0x400) (0xDC00 + (c - 0x10000) % 0x400) = c := by
  have hq : (c - 0x10000) / 0x400 < 0x400 := by omega
  have hr : (c - 0x10000) % 0x400 < 0x400 := Nat.mod_lt _ (by decide)
  have hc := Nat.div_add_mod (c - 0x10000) 0x400
  generalize (c - 0x10000) / 0x400 = q at *
  generalize (c - 0x10000) % 0x400 = r at *
  unfold isHighSurrogate isLowSurrogate joinSurrogates
  refine ⟨?_, ?_, ?_⟩
  · rw [Bool.and_eq_true, decide_eq_true_eq, decide_eq_true_eq]
    omega
  · rw [Bool.and_eq_true, decide_eq_true_eq, decide_eq_true_eq]
    omega
  · omega

/-- A written character reads back. -/
theorem scanString_escapeChar {c : Nat} (hc : isSurrogate c = false) (hhi : c < 0x110000)
    (rest : PyStr) : scanString 0 (escapeChar true c ++ rest) =
      (scanString 0 rest).map fun r => (c :: r.1, r.2) := by
  have hnot : isHighSurrogate c = false := by
    simp only [isSurrogate, isHighSurrogate, Bool.and_eq_false_iff, decide_eq_false_iff_not] at hc ⊢
    omega
  unfold escapeChar
  split
  · subst_vars; rfl
  split
  · subst_vars; rfl
  split
  · subst_vars; rfl
  split
  · subst_vars; rfl
  split
  · subst_vars; rfl
  split
  · subst_vars; rfl
  split
  · subst_vars; rfl
  split
  · exact scanString_unicodeEscape (by omega) hnot rest
  split
  · rename_i hquote hslash _ _ _ _ _ hctl _
    simp only [List.cons_append, List.nil_append]
    rw [scanString.eq_def]
    simp only [if_neg hquote, if_neg hslash, if_neg hctl]
  split
  · exact scanString_unicodeEscape (by assumption) hnot rest
  · rw [List.append_assoc]
    obtain ⟨hhigh, hlow, hjoin⟩ := surrogates_of (c := c) (by omega) hhi
    rw [scanString_pair (by omega) (by omega) hhigh hlow, hjoin]

/-- **A written string reads back**, up to its closing quote. -/
theorem scanString_dump {s : PyStr} (hs : Encodable s) (hhi : ∀ c ∈ s, c < 0x110000) (rest : PyStr) :
    scanString 0 (s.flatMap (escapeChar true) ++ 0x22 :: rest) = some (s, rest) := by
  induction s with
  | nil => rfl
  | cons c s ih =>
    obtain ⟨hc, hs⟩ := encodable_cons.1 hs
    obtain ⟨hlt, hhi⟩ := List.forall_mem_cons.1 hhi
    rw [List.flatMap_cons, List.append_assoc, scanString_escapeChar hc hlt, ih hs hhi]
    rfl

/-- A written string determines what was written, whatever follows. -/
theorem dumpString_inj {s s' : String} {rest rest' : PyStr}
    (h : dumpString true (pyStr s) ++ rest = dumpString true (pyStr s') ++ rest') : s = s' := by
  have hread : ∀ (s : String) rest,
      scanString 0 ((pyStr s).flatMap (escapeChar true) ++ 0x22 :: rest) = some (pyStr s, rest) := by
    intro s rest
    refine scanString_dump (pyStr_encodable s) ?_ rest
    intro c hc
    obtain ⟨ch, -, rfl⟩ := List.mem_map.1 hc
    have hv : ch.toNat.isValidChar := ch.valid
    unfold Nat.isValidChar at hv
    omega
  simp only [dumpString, List.cons_append, List.cons.injEq, true_and, List.append_assoc,
    List.nil_append] at h
  have heq := (hread s rest).symm.trans (h ▸ hread s' rest')
  exact pyStr_inj (congrArg Prod.fst (Option.some.inj heq))

/-- A written string holds no newline. -/
theorem dumpString_no_newline (s : PyStr) : 0x0A ∉ dumpString true s := by
  have hhex : ∀ d < 16, hexDigit d ≠ 0x0A := by decide
  have hescape : ∀ v, 0x0A ∉ unicodeEscape v := by
    intro v hv
    have hd := fun n => (hhex _ (Nat.mod_lt n (show 0 < 16 by decide))).symm
    simp only [unicodeEscape, List.mem_cons, List.not_mem_nil, or_false, hd, Nat.reduceEqDiff] at hv
  have hchar : ∀ c, 0x0A ∉ escapeChar true c := by
    intro c
    unfold escapeChar
    iterate 7
      split
      · decide
    split
    · exact hescape c
    split
    · rename_i hctl _
      intro h
      exact hctl (List.mem_singleton.1 h ▸ by decide)
    split
    · exact hescape c
    · exact List.not_mem_append (hescape _) (hescape _)
  intro h
  rcases List.mem_cons.1 h with h | h
  · exact absurd h (by decide)
  rcases List.mem_append.1 h with h | h
  · obtain ⟨c, -, hc⟩ := List.mem_flatMap.1 h
    exact hchar c hc
  · exact absurd (List.mem_singleton.1 h) (by decide)

/-- An object of strings is written on one line. -/
theorem dumps_no_newline {ms : List (PyStr × Json)} (h : ∀ m ∈ ms, ∃ s, m.2 = .str s) :
    0x0A ∉ dumps true (.obj ms) := by
  have hmembers : 0x0A ∉ dumpMembers true ms := by
    induction ms with
    | nil => simp [dumpMembers]
    | cons m ms ih =>
      obtain ⟨⟨s, hs⟩, hms⟩ := List.forall_mem_cons.1 h
      obtain ⟨k, v⟩ := m
      simp only at hs
      subst hs
      have hfirst : 0x0A ∉ dumpString true k ++ 0x3A :: dumps true (.str s) := by
        rw [dumps]
        refine List.not_mem_append (dumpString_no_newline k) ?_
        exact List.not_mem_cons_of_ne_of_not_mem (by decide) (dumpString_no_newline s)
      cases ms with
      | nil => exact hfirst
      | cons m ms =>
        rw [dumpMembers]
        exact List.not_mem_append hfirst
          (List.not_mem_cons_of_ne_of_not_mem (by decide) (ih hms))
  rw [dumps]
  refine List.not_mem_cons_of_ne_of_not_mem (by decide) (List.not_mem_append hmembers ?_)
  decide

end Json

/-! ## What a computation may raise -/

section Raising

variable {ε α β : Type} {P : ε → Prop}

/-- It raises nothing but what `P` holds of. -/
def RaisesOnly (P : ε → Prop) (x : Except ε α) : Prop := ∀ e, x = .error e → P e

@[simp] theorem raisesOnly_ok (a : α) : RaisesOnly P (.ok a : Except ε α) := by
  intro e h
  cases h

@[simp] theorem raisesOnly_error (e : ε) : RaisesOnly P (.error e : Except ε α) ↔ P e := by
  constructor
  · intro h
    exact h e rfl
  · intro h e' he
    cases he
    exact h

/-- **What a sequence may raise.** -/
theorem raisesOnly_bind {x : Except ε α} {f : α → Except ε β} :
    RaisesOnly P (x >>= f) ↔ RaisesOnly P x ∧ ∀ a, x = .ok a → RaisesOnly P (f a) := by
  cases x with
  | error e =>
    have hbind : (Except.error e >>= f) = .error e := rfl
    rw [hbind, raisesOnly_error, raisesOnly_error]
    constructor
    · intro h
      refine ⟨h, fun a ha => ?_⟩
      cases ha
    · exact fun h => h.1
  | ok a =>
    have hbind : (Except.ok a >>= f) = f a := rfl
    rw [hbind]
    constructor
    · intro h
      refine ⟨raisesOnly_ok a, fun a' ha => ?_⟩
      cases ha
      exact h
    · exact fun h => h.2 a rfl

@[simp] theorem raisesOnly_map {x : Except ε α} {f : α → β} : RaisesOnly P (x.map f) ↔ RaisesOnly P x := by
  cases x with
  | error e =>
    have hmap : (Except.error e : Except ε α).map f = .error e := rfl
    rw [hmap, raisesOnly_error, raisesOnly_error]
  | ok a => exact iff_of_true (raisesOnly_ok (f a)) (raisesOnly_ok a)

/-- A computation that raises only `P` has a value, or raises one of them. -/
theorem RaisesOnly.cases {x : Except ε α} (h : RaisesOnly P x) :
    (∃ a, x = .ok a) ∨ ∃ e, x = .error e ∧ P e := by
  cases x with
  | error e => exact .inr ⟨e, rfl, h e rfl⟩
  | ok a => exact .inl ⟨a, rfl⟩

end Raising

end OTS
