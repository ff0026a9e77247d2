import Mathlib.Logic.Basic
import Mathlib.Tactic.SplitIfs
import OTSecurity.Lib.Bytes

/-!
# Python strings

A string is the list of its code points, lone surrogates among them: a JSON escape can name one,
and UTF-8 has no encoding for it.

* `pyStr` — the string of a text without surrogates; `chars?` — the way back.
* `encodeUtf8`, `decodeUtf8`, `decodeReplace` — the codec, strict and with `errors="replace"`.
* `decimalDigit` — the value of a character of category Nd, of any script.

Principal results: `encodeUtf8_isSome` — encoding fails exactly on a lone surrogate;
`decodeReplace_encodable` — decoding with replacement leaves none.
-/

namespace OTS

abbrev PyStr := List Nat

def pyStr (s : String) : PyStr := s.toList.map Char.toNat

def isSurrogate (c : Nat) : Bool := 0xD800 ≤ c && c < 0xE000

/-- The characters of a string without surrogates. -/
def chars? (s : PyStr) : Option (List Char) :=
  if s.all (fun c => decide c.isValidChar) then some (s.map Char.ofNat) else none

/-! ## UTF-8 -/

def utf8Char (c : Nat) : Bytes :=
  if c < 0x80 then [.ofNat c]
  else if c < 0x800 then [.ofNat (0xC0 + c / 64), .ofNat (0x80 + c % 64)]
  else if c < 0x10000 then
    [.ofNat (0xE0 + c / 4096), .ofNat (0x80 + c / 64 % 64), .ofNat (0x80 + c % 64)]
  else
    [.ofNat (0xF0 + c / 262144), .ofNat (0x80 + c / 4096 % 64), .ofNat (0x80 + c / 64 % 64),
      .ofNat (0x80 + c % 64)]

/-- `s.encode("utf-8")`; `none` when it raises. -/
def encodeUtf8 (s : PyStr) : Option Bytes :=
  if s.any isSurrogate then none else some (s.flatMap utf8Char)

/-- `bs.decode("utf-8")`; `none` when it raises. -/
def decodeUtf8 (bs : Bytes) : Option PyStr := (utf8Decode bs).map (·.map Char.toNat)

/-- The continuation bytes that may follow the lead byte `b`: the range of the first, and how many
there are. -/
def continuations (b : Nat) : Option (Nat × Nat × Nat) :=
  if 0xC2 ≤ b ∧ b < 0xE0 then some (0x80, 0xC0, 1)
  else if b = 0xE0 then some (0xA0, 0xC0, 2)
  else if b = 0xED then some (0x80, 0xA0, 2)
  else if 0xE1 ≤ b ∧ b < 0xF0 then some (0x80, 0xC0, 2)
  else if b = 0xF0 then some (0x90, 0xC0, 3)
  else if 0xF1 ≤ b ∧ b < 0xF4 then some (0x80, 0xC0, 3)
  else if b = 0xF4 then some (0x80, 0x90, 3)
  else none

/-- `bs.decode("utf-8", errors="replace")`, inside a character of which `acc` has been read:
`need` more bytes, the next one in `[lo, hi)`.  A character that breaks off is replaced as a whole,
and the byte that breaks it off is read again. -/
def replaceFrom (acc lo hi need : Nat) : Bytes → PyStr
  | [] => if need = 0 then [] else [0xFFFD]
  | b :: rest =>
    let lead : PyStr :=
      if b.toNat < 0x80 then b.toNat :: replaceFrom 0 0 0 0 rest
      else match continuations b.toNat with
        | none => 0xFFFD :: replaceFrom 0 0 0 0 rest
        | some (lo', hi', n) => replaceFrom (b.toNat % 2 ^ (6 - n)) lo' hi' n rest
    if need = 0 then lead
    else if lo ≤ b.toNat ∧ b.toNat < hi then
      let acc' := acc * 64 + b.toNat % 64
      if need = 1 then acc' :: replaceFrom 0 0 0 0 rest
      else replaceFrom acc' 0x80 0xC0 (need - 1) rest
    else 0xFFFD :: lead

def decodeReplace (bs : Bytes) : PyStr := replaceFrom 0 0 0 0 bs

/-- A string without lone surrogates. -/
def Encodable (s : PyStr) : Prop := ∀ c ∈ s, isSurrogate c = false

instance (s : PyStr) : Decidable (Encodable s) := inferInstanceAs (Decidable (∀ c ∈ s, _))

theorem encodeUtf8_isSome {s : PyStr} : (encodeUtf8 s).isSome ↔ Encodable s := by
  unfold encodeUtf8 Encodable
  split
  · rename_i h
    obtain ⟨c, hc, hs⟩ := List.any_eq_true.1 h
    simp only [Option.isSome_none, Bool.false_eq_true, false_iff, not_forall]
    exact ⟨c, hc, by simp [hs]⟩
  · rename_i h
    simpa using h

theorem encodeUtf8_eq_none {s : PyStr} : encodeUtf8 s = none ↔ ¬ Encodable s := by
  rw [← encodeUtf8_isSome, Option.not_isSome_iff_eq_none]

theorem encodeUtf8_length_le {s : PyStr} {bs : Bytes} (h : encodeUtf8 s = some bs) :
    bs.length ≤ 4 * s.length := by
  have hchar : ∀ c, (utf8Char c).length ≤ 4 := by
    intro c
    unfold utf8Char
    split_ifs <;> simp
  have hall : ∀ s : PyStr, (s.flatMap utf8Char).length ≤ 4 * s.length := by
    intro s
    induction s with
    | nil => exact Nat.zero_le _
    | cons c s ih =>
      have := hchar c
      simp only [List.flatMap_cons, List.length_append, List.length_cons]
      omega
  unfold encodeUtf8 at h
  split at h
  · cases h
  · exact Option.some.inj h ▸ hall s

@[simp] theorem encodable_nil : Encodable [] := fun _ h => nomatch h

@[simp] theorem encodable_cons {c : Nat} {s : PyStr} :
    Encodable (c :: s) ↔ isSurrogate c = false ∧ Encodable s := List.forall_mem_cons

@[simp] theorem encodable_append {s t : PyStr} :
    Encodable (s ++ t) ↔ Encodable s ∧ Encodable t := List.forall_mem_append

/-! ### Decoding what was encoded -/

theorem continuation_ofNat {n : Nat} (h : n < 64) :
    continuation (UInt8.ofNat (0x80 + n)) = some n := by
  have hb : (UInt8.ofNat (0x80 + n)).toNat = 0x80 + n := by simp; omega
  rw [continuation, hb, if_pos (by omega), Nat.add_sub_cancel_left]

theorem scalar_eq {lo c : Nat} (hlo : lo ≤ c) (hc : isSurrogate c = false) (hmax : c < 0x110000) :
    scalar lo c = some (Char.ofNat c) := by
  simp only [isSurrogate, Bool.and_eq_false_iff, decide_eq_false_iff_not] at hc
  exact if_pos ⟨hlo, by unfold Nat.isValidChar; omega⟩

/-- A character is read off the front of its own encoding. -/
theorem utf8Decode_utf8Char {c : Nat} (hc : isSurrogate c = false) (hmax : c < 0x110000) (rest : Bytes) :
    utf8Decode (utf8Char c ++ rest) = (utf8Decode rest).map (Char.ofNat c :: ·) := by
  have hbyte : ∀ n < 256, (UInt8.ofNat n).toNat = n := fun n hn => by simp; omega
  unfold utf8Char
  split
  · rename_i h
    rw [List.cons_append, utf8Decode.eq_def]
    simp only [hbyte _ (show c < 256 by omega), if_pos h, List.nil_append]
  split
  · rename_i h1 h2
    have hval : (0xC0 + c / 64 - 0xC0) * 64 + c % 64 = c := by omega
    rw [List.cons_append, utf8Decode.eq_def]
    simp only [List.cons_append, List.nil_append]
    rw [hbyte _ (by omega), if_neg (by omega), if_neg (by omega), if_pos (by omega),
      continuation_ofNat (Nat.mod_lt _ (by decide))]
    simp only [Option.bind_eq_bind, Option.bind_some, hval, scalar_eq (show 0x80 ≤ c by omega) hc hmax]
    cases utf8Decode rest <;> rfl
  split
  · rename_i h1 h2 h3
    have hval : ((0xE0 + c / 4096 - 0xE0) * 64 + c / 64 % 64) * 64 + c % 64 = c := by omega
    rw [List.cons_append, utf8Decode.eq_def]
    simp only [List.cons_append, List.nil_append]
    rw [hbyte _ (by omega), if_neg (by omega), if_neg (by omega), if_neg (by omega),
      if_pos (by omega), continuation_ofNat (Nat.mod_lt _ (by decide)),
      continuation_ofNat (Nat.mod_lt _ (by decide))]
    simp only [Option.bind_eq_bind, Option.bind_some, hval, scalar_eq (show 0x800 ≤ c by omega) hc hmax]
    cases utf8Decode rest <;> rfl
  · rename_i h1 h2 h3
    have hval : (((0xF0 + c / 262144 - 0xF0) * 64 + c / 4096 % 64) * 64 + c / 64 % 64) * 64 + c % 64 = c := by
      omega
    rw [List.cons_append, utf8Decode.eq_def]
    simp only [List.cons_append, List.nil_append]
    rw [hbyte _ (by omega), if_neg (by omega), if_neg (by omega), if_neg (by omega), if_neg (by omega), if_pos (by omega),
      continuation_ofNat (Nat.mod_lt _ (by decide)), continuation_ofNat (Nat.mod_lt _ (by decide)),
      continuation_ofNat (Nat.mod_lt _ (by decide))]
    simp only [Option.bind_eq_bind, Option.bind_some, hval, scalar_eq (show 0x10000 ≤ c by omega) hc hmax]
    cases utf8Decode rest <;> rfl

/-- **What is encoded decodes back.** -/
theorem decodeUtf8_encodeUtf8 {s : PyStr} {bs : Bytes} (hs : ∀ c ∈ s, c < 0x110000)
    (h : encodeUtf8 s = some bs) : decodeUtf8 bs = some s := by
  have henc : Encodable s := encodeUtf8_isSome.1 (by rw [h]; rfl)
  obtain rfl : s.flatMap utf8Char = bs := by
    unfold encodeUtf8 at h
    split at h
    · cases h
    · exact Option.some.inj h
  have hdecode : utf8Decode (s.flatMap utf8Char) = some (s.map Char.ofNat) := by
    clear h
    induction s with
    | nil => rfl
    | cons c s ih =>
      obtain ⟨hc, hrest⟩ := encodable_cons.1 henc
      rw [List.flatMap_cons, utf8Decode_utf8Char hc (hs c List.mem_cons_self),
        ih (fun d hd => hs d (.tail _ hd)) hrest]
      rfl
  rw [decodeUtf8, hdecode, Option.map_some, List.map_map]
  congr 1
  refine (List.map_congr_left fun c hc => ?_).trans (List.map_id s)
  have hsur := henc c hc
  have hv : c.isValidChar := by
    have := hs c hc
    simp only [isSurrogate, Bool.and_eq_false_iff, decide_eq_false_iff_not] at hsur
    unfold Nat.isValidChar
    omega
  rw [Function.comp_apply, Char.ofNat, dif_pos hv]
  rfl

theorem Encodable.take {s : PyStr} (h : Encodable s) (n : Nat) : Encodable (s.take n) :=
  fun c hc => h c (List.mem_of_mem_take hc)

theorem char_not_surrogate (c : Char) : isSurrogate c.toNat = false := by
  have hv : c.toNat.isValidChar := c.valid
  unfold isSurrogate
  unfold Nat.isValidChar at hv
  simp only [Bool.and_eq_false_iff, decide_eq_false_iff_not]
  omega

@[simp] theorem pyStr_encodable (s : String) : Encodable (pyStr s) := by
  intro c hc
  obtain ⟨ch, -, rfl⟩ := List.mem_map.1 hc
  exact char_not_surrogate ch

@[simp] theorem pyStr_length (s : String) : (pyStr s).length = s.length := by
  rw [pyStr, List.length_map, String.length_toList]

theorem pyStr_append (s t : String) : pyStr (s ++ t) = pyStr s ++ pyStr t := by
  unfold pyStr
  rw [String.toList_append, List.map_append]

theorem pyStr_inj {s t : String} (h : pyStr s = pyStr t) : s = t := by
  apply String.toList_inj.1
  refine List.map_inj_right ?_ |>.1 h
  intro a b hab
  exact Char.toNat_inj.1 hab

/-! ### Order -/

/-- Texts that begin with texts of one length are ordered as these are. -/
theorem append_lt {a b : PyStr} (hlen : a.length = b.length) (h : a < b) (s t : PyStr) : a ++ s < b ++ t := by
  induction a generalizing b with
  | nil =>
    obtain rfl := List.length_eq_zero_iff.1 hlen.symm
    exact absurd h (List.lt_irrefl _)
  | cons x a ih =>
    cases b with
    | nil => cases hlen
    | cons y b =>
      rw [List.cons_append, List.cons_append, List.cons_lt_cons_iff]
      rcases List.cons_lt_cons_iff.1 h with hxy | ⟨rfl, hab⟩
      · exact .inl hxy
      · exact .inr ⟨rfl, ih (Nat.succ.inj hlen) hab⟩

/-! ### Replacing what is not UTF-8 -/

/-- The bytes in `[lo, hi)` continue a character of which `acc` has been read without leading to a
surrogate: their ranges exclude what would. -/
def Continues (acc lo hi : Nat) : Nat → Prop
  | 0 => True
  | 1 => ¬ (864 ≤ acc ∧ acc < 896)
  | 2 => acc = 13 → 0x80 ≤ lo ∧ hi ≤ 0xA0
  | 3 => acc < 8 ∧ (acc = 0 → 0x90 ≤ lo) ∧ 0x80 ≤ lo ∧ hi ≤ 0xC0
  | _ => False

theorem continues_lead {b lo hi n : Nat} (h : continuations b = some (lo, hi, n)) :
    Continues (b % 2 ^ (6 - n)) lo hi n := by
  unfold continuations at h
  split_ifs at h <;> cases h <;> simp only [Continues] <;> omega

theorem replaceFrom_encodable (bs : Bytes) : ∀ (need : Nat) {acc lo hi : Nat},
    Continues acc lo hi need → Encodable (replaceFrom acc lo hi need bs) := by
  have hfffd : isSurrogate 0xFFFD = false := by decide
  induction bs with
  | nil =>
    intro need acc lo hi _
    unfold replaceFrom
    split
    · exact encodable_nil
    · exact encodable_cons.2 ⟨hfffd, encodable_nil⟩
  | cons b rest ih =>
    intro need acc lo hi h
    have hlead : Encodable (
        if b.toNat < 0x80 then b.toNat :: replaceFrom 0 0 0 0 rest
        else match continuations b.toNat with
          | none => 0xFFFD :: replaceFrom 0 0 0 0 rest
          | some (lo', hi', n) => replaceFrom (b.toNat % 2 ^ (6 - n)) lo' hi' n rest) := by
      split
      · refine encodable_cons.2 ⟨?_, ih 0 trivial⟩
        simp only [isSurrogate, Bool.and_eq_false_iff, decide_eq_false_iff_not]
        omega
      · split
        · exact encodable_cons.2 ⟨hfffd, ih 0 trivial⟩
        · rename_i hc
          exact ih _ (continues_lead hc)
    unfold replaceFrom
    simp only
    split
    · exact hlead
    · rename_i hneed
      split
      · rename_i hb
        split
        · rename_i h1
          rw [h1] at h
          refine encodable_cons.2 ⟨?_, ih 0 trivial⟩
          have : ¬ (864 ≤ acc ∧ acc < 896) := h
          simp only [isSurrogate, Bool.and_eq_false_iff, decide_eq_false_iff_not]
          omega
        · rename_i h1
          match need, hneed, h1, h with
          | 2, _, _, h =>
            refine ih 1 ?_
            simp only [Continues] at h ⊢
            omega
          | 3, _, _, h =>
            refine ih 2 ?_
            simp only [Continues] at h ⊢
            omega
          | n + 4, _, _, h => exact h.elim
      · exact encodable_cons.2 ⟨hfffd, hlead⟩

/-- Decoding with replacement yields no surrogates. -/
theorem decodeReplace_encodable (bs : Bytes) : Encodable (decodeReplace bs) :=
  replaceFrom_encodable bs 0 trivial

-- é and € and an escape that UTF-8 cannot hold; a sequence that breaks off before a letter.
example : encodeUtf8 [0xE9, 0x20AC] = some [0xC3, 0xA9, 0xE2, 0x82, 0xAC] ∧
    encodeUtf8 [0x61, 0xD800] = none ∧
    decodeReplace [0x61, 0xE2, 0x82, 0x62, 0xFF, 0xC3, 0xA9, 0xF0] =
      [0x61, 0xFFFD, 0x62, 0xFFFD, 0xE9, 0xFFFD] := by decide

/-! ## Digits -/

/-- The zeros of the ranges of ten decimal digits. -/
def decimalZeros : List Nat :=
  [0x30, 0x660, 0x6F0, 0x7C0, 0x966, 0x9E6, 0xA66, 0xAE6, 0xB66, 0xBE6, 0xC66, 0xCE6, 0xD66, 0xDE6,
    0xE50, 0xED0, 0xF20, 0x1040, 0x1090, 0x17E0, 0x1810, 0x1946, 0x19D0, 0x1A80, 0x1A90, 0x1B50,
    0x1BB0, 0x1C40, 0x1C50, 0xA620, 0xA8D0, 0xA900, 0xA9D0, 0xA9F0, 0xAA50, 0xABF0, 0xFF10, 0x104A0,
    0x10D30, 0x11066, 0x110F0, 0x11136, 0x111D0, 0x112F0, 0x11450, 0x114D0, 0x11650, 0x116C0,
    0x11730, 0x118E0, 0x11950, 0x11C50, 0x11D50, 0x11DA0, 0x11F50, 0x16A60, 0x16AC0, 0x16B50,
    0x1D7CE, 0x1D7D8, 0x1D7E2, 0x1D7EC, 0x1D7F6, 0x1E140, 0x1E2F0, 0x1E4F0, 0x1E950, 0x1FBF0]

/-- The value of a decimal digit of any script. -/
def decimalDigit (c : Nat) : Option Nat :=
  (decimalZeros.find? fun z => z ≤ c ∧ c < z + 10).map (c - ·)

/-- A digit of `0` to `9`. -/
def isAsciiDigit (c : Nat) : Bool := 0x30 ≤ c && c < 0x3A

/-- The number that ASCII digits spell. -/
def ofDigits (s : PyStr) : Nat := s.foldl (fun n c => n * 10 + (c - 0x30)) 0

/-- `str(n)`. -/
def natText (n : Nat) : PyStr := pyStr (toString n)

def intText (n : Int) : PyStr := pyStr (toString n)

@[simp] theorem natText_encodable (n : Nat) : Encodable (natText n) := pyStr_encodable _

@[simp] theorem intText_encodable (n : Int) : Encodable (intText n) := pyStr_encodable _

theorem natText_length_le {n k : Nat} (hk : 0 < k) (h : n < 10 ^ k) : (natText n).length ≤ k := by
  rw [natText, pyStr_length]
  exact (Nat.length_repr_le_iff hk).2 h

theorem intText_natCast (n : Nat) : intText n = natText n := rfl

end OTS
