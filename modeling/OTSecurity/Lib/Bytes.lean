import Mathlib.Algebra.GroupWithZero.Nat
import Mathlib.Algebra.Ring.Int.Defs

/-!
# Byte strings and what they encode

* `be n v` / `ofBe` — the `n`-byte big-endian encoding of a number and its reading.
* `ofBe_be` — every number below `256 ^ n` is read back; `be_ofBe` — and every field is the
  encoding of what it denotes.
* `beSigned` / `ofBeSigned` — two's complement 64-bit fields.
* `chunk` — the pieces of a fixed size that a byte string is cut into; `flatten_chunks` puts it together.
* `encodeAscii`, `decodeAscii` — `str.encode("ascii")` and `bytes.decode("ascii")`; `decodeAscii_encode` is their round
  trip.
* `utf8Decode` — the characters of a byte string in strict UTF-8: no overlong forms, no surrogates, nothing above
  `U+10FFFF`.
-/

namespace OTS

abbrev Bytes := List UInt8

/-- Big-endian encoding of `v` on `n` bytes. -/
def be : Nat → Nat → Bytes
  | 0, _ => []
  | n + 1, v => UInt8.ofNat (v / 256 ^ n) :: be n v

/-- The number a big-endian field denotes. -/
def ofBe (bs : Bytes) : Nat := bs.foldl (fun acc b => acc * 256 + b.toNat) 0

@[simp] theorem be_length (n v : Nat) : (be n v).length = n := by
  induction n with
  | zero => rfl
  | succ n ih => simp [be, ih]

theorem ofBe_foldl (bs : Bytes) (acc : Nat) :
    bs.foldl (fun acc b => acc * 256 + b.toNat) acc = acc * 256 ^ bs.length + ofBe bs := by
  unfold ofBe
  induction bs generalizing acc with
  | nil => simp
  | cons b bs ih =>
    simp only [List.foldl_cons, List.length_cons]
    rw [ih, ih (0 * 256 + b.toNat), Nat.pow_succ]
    simp only [Nat.zero_mul, Nat.zero_add, Nat.add_mul, Nat.mul_assoc, Nat.mul_comm 256]
    omega

theorem ofBe_cons (b : UInt8) (bs : Bytes) :
    ofBe (b :: bs) = b.toNat * 256 ^ bs.length + ofBe bs := by
  have := ofBe_foldl bs b.toNat
  unfold ofBe at this ⊢
  simpa using this

theorem ofBe_be_mod (n v : Nat) : ofBe (be n v) = v % 256 ^ n := by
  induction n with
  | zero => simp [be, ofBe, Nat.mod_one]
  | succ n ih =>
    rw [be, ofBe_cons, be_length, ih]
    have h1 : (UInt8.ofNat (v / 256 ^ n)).toNat = v / 256 ^ n % 256 := by simp
    rw [h1, Nat.pow_succ, Nat.mod_mul]
    have := Nat.mul_comm (v / 256 ^ n % 256) (256 ^ n)
    omega

/-- **A field wide enough for its number is read back.** -/
theorem ofBe_be {n v : Nat} (h : v < 256 ^ n) : ofBe (be n v) = v := by
  rw [ofBe_be_mod, Nat.mod_eq_of_lt h]

theorem ofBe_lt (bs : Bytes) : ofBe bs < 256 ^ bs.length := by
  induction bs with
  | nil => simp [ofBe]
  | cons b bs ih =>
    have hb := b.toNat_lt
    have hmul : b.toNat * 256 ^ bs.length + 256 ^ bs.length ≤ 256 * 256 ^ bs.length := by
      rw [← Nat.succ_mul]
      exact Nat.mul_le_mul_right _ (by omega)
    rw [ofBe_cons, List.length_cons, Nat.pow_succ, Nat.mul_comm (256 ^ bs.length)]
    omega

/-- Fields of one width that denote one number are equal. -/
theorem ofBe_inj {a b : Bytes} (hlen : a.length = b.length) (h : ofBe a = ofBe b) : a = b := by
  induction a generalizing b with
  | nil => exact (List.length_eq_zero_iff.1 hlen.symm).symm
  | cons x a ih =>
    cases b with
    | nil => cases hlen
    | cons y b =>
      have hl : a.length = b.length := Nat.succ.inj hlen
      have ha := ofBe_lt a
      have hb := ofBe_lt b
      rw [ofBe_cons, ofBe_cons, hl] at h
      rw [hl] at ha
      have hpos : 0 < 256 ^ b.length := Nat.pow_pos (by decide)
      have hx : x.toNat = y.toNat := by
        have hdiv : ∀ u v, v < 256 ^ b.length → (u * 256 ^ b.length + v) / 256 ^ b.length = u :=
          fun u v hv => by
            rw [Nat.mul_comm, Nat.mul_add_div hpos, Nat.div_eq_of_lt hv, Nat.add_zero]
        rw [← hdiv x.toNat _ ha, ← hdiv y.toNat _ hb, h]
      rw [UInt8.toNat_inj.1 hx, ih hl (by rw [hx] at h; omega)]

/-- A field is the encoding of the number it denotes. -/
theorem be_ofBe {n : Nat} {bs : Bytes} (h : bs.length = n) : be n (ofBe bs) = bs := by
  subst h
  exact ofBe_inj (be_length _ _) (ofBe_be (ofBe_lt bs))

/-- Two's complement on 64 bits. -/
def beSigned (v : Int) : Bytes := be 8 (v % 2 ^ 64).toNat

def ofBeSigned (bs : Bytes) : Int :=
  let u := ofBe bs
  if u < 2 ^ 63 then (u : Int) else (u : Int) - 2 ^ 64

@[simp] theorem beSigned_length (v : Int) : (beSigned v).length = 8 := be_length 8 _

theorem ofBeSigned_beSigned {v : Int} (h1 : -2 ^ 63 ≤ v) (h2 : v < 2 ^ 63) :
    ofBeSigned (beSigned v) = v := by
  unfold ofBeSigned beSigned
  rw [ofBe_be (by omega)]
  by_cases h : 0 ≤ v
  · rw [if_pos (by omega)]; omega
  · rw [if_neg (by omega)]; omega

/-! ## Cutting at an offset -/

/-- The `len` bytes of `data` at offset `off`. -/
def slice (data : Bytes) (off len : Nat) : Bytes := (data.drop off).take len

theorem slice_of_eq {data a b c : Bytes} {off len : Nat} (h : data = a ++ (b ++ c))
    (hoff : off = a.length) (hlen : len = b.length) : slice data off len = b := by
  subst h hoff hlen
  simp [slice]

theorem drop_of_eq {data a b : Bytes} {off : Nat} (h : data = a ++ b) (hoff : off = a.length) :
    data.drop off = b := by
  subst h hoff
  simp

/-- A field read off the front of what is left of `data`. -/
theorem slice_of_drop {data x rest : Bytes} {off len : Nat} (h : data.drop off = x ++ rest)
    (hlen : x.length = len) : slice data off len = x := by
  rw [slice, h, ← hlen, List.take_left]

theorem drop_of_drop {data x rest : Bytes} {off len : Nat} (h : data.drop off = x ++ rest)
    (hlen : x.length = len) : data.drop (off + len) = rest := by
  rw [← List.drop_drop, h, ← hlen, List.drop_left]

theorem slice_length {data : Bytes} {off len : Nat} (h : off + len ≤ data.length) :
    (slice data off len).length = len := by
  simp only [slice, List.length_take, List.length_drop]
  omega

/-- What is left from an offset on: the field there and what is left after it. -/
theorem drop_eq_slice_append (data : Bytes) (off len : Nat) :
    data.drop off = slice data off len ++ data.drop (off + len) := by
  rw [slice, ← List.drop_drop, List.take_append_drop]

/-- Piece `i` of the pieces of size `size`. -/
def chunk (size : Nat) (data : Bytes) (i : Nat) : Bytes := slice data (i * size) size

/-- The first `n` pieces put together are the first `n * size` bytes. -/
theorem flatten_chunks (size : Nat) (data : Bytes) (n : Nat) :
    ((List.range n).map (chunk size data)).flatten = data.take (n * size) := by
  induction n with
  | zero => simp
  | succ n ih =>
    rw [List.range_succ, List.map_append, List.flatten_append, ih]
    simp only [List.map_cons, List.map_nil, List.flatten_cons, List.flatten_nil, List.append_nil]
    rw [Nat.add_mul, Nat.one_mul, List.take_add]
    rfl

/-! ## ASCII -/

/-- `s.encode("ascii")`. -/
def encodeAscii (s : String) : Option Bytes :=
  if s.toList.all (fun c => c.toNat < 128) then some (s.toList.map (fun c => UInt8.ofNat c.toNat))
  else none

/-- `bs.decode("ascii")` on bytes below 128. -/
def decodeAscii (bs : Bytes) : String := String.ofList (bs.map (fun b => Char.ofNat b.toNat))

theorem toNat_ofNat_byte (b : UInt8) : (Char.ofNat b.toNat).toNat = b.toNat := by
  have hb := b.toNat_lt
  have hv : b.toNat.isValidChar := .inl (by omega)
  unfold Char.ofNat
  rw [dif_pos hv]
  rfl

theorem char_ofNat_byte {c : Char} (h : c.toNat < 128) :
    Char.ofNat (UInt8.ofNat c.toNat).toNat = c := by
  have : (UInt8.ofNat c.toNat).toNat = c.toNat := by simp; omega
  rw [this, Char.ofNat_toNat]

theorem decodeAscii_encode {s : String} (h : ∀ c ∈ s.toList, c.toNat < 128) :
    decodeAscii (s.toList.map (fun c => UInt8.ofNat c.toNat)) = s := by
  unfold decodeAscii
  rw [List.map_map]
  have hmap : s.toList.map ((fun b : UInt8 => Char.ofNat b.toNat) ∘ fun c => UInt8.ofNat c.toNat) =
      s.toList.map id := List.map_congr_left (fun c hc => char_ofNat_byte (h c hc))
  rw [hmap, List.map_id, String.ofList_toList]

theorem encodeAscii_eq {s : String} {bs : Bytes} (h : encodeAscii s = some bs) :
    bs = s.toList.map (fun c => UInt8.ofNat c.toNat) ∧ ∀ c ∈ s.toList, c.toNat < 128 := by
  unfold encodeAscii at h
  split at h
  · rename_i hall
    exact ⟨(Option.some.inj h).symm, by simpa using hall⟩
  · cases h

/-! ## UTF-8 -/

/-- The payload of a continuation byte. -/
def continuation (b : UInt8) : Option Nat :=
  if 0x80 ≤ b.toNat ∧ b.toNat < 0xC0 then some (b.toNat - 0x80) else none

/-- The character of code `n`, unless `n` is below `lo`, a surrogate or too large. -/
def scalar (lo n : Nat) : Option Char :=
  if lo ≤ n ∧ n.isValidChar then some (Char.ofNat n) else none

def utf8Decode : Bytes → Option (List Char)
  | [] => some []
  | b0 :: rest =>
    if b0.toNat < 0x80 then (utf8Decode rest).map (Char.ofNat b0.toNat :: ·)
    else if b0.toNat < 0xC0 then none
    else match rest with
      | [] => none
      | b1 :: rest1 =>
        if b0.toNat < 0xE0 then do
          let c1 ← continuation b1
          let c ← scalar 0x80 ((b0.toNat - 0xC0) * 64 + c1)
          return c :: (← utf8Decode rest1)
        else match rest1 with
          | [] => none
          | b2 :: rest2 =>
            if b0.toNat < 0xF0 then do
              let c1 ← continuation b1
              let c2 ← continuation b2
              let c ← scalar 0x800 (((b0.toNat - 0xE0) * 64 + c1) * 64 + c2)
              return c :: (← utf8Decode rest2)
            else match rest2 with
              | [] => none
              | b3 :: rest3 =>
                if b0.toNat < 0xF8 then do
                  let c1 ← continuation b1
                  let c2 ← continuation b2
                  let c3 ← continuation b3
                  let c ← scalar 0x10000 ((((b0.toNat - 0xF0) * 64 + c1) * 64 + c2) * 64 + c3)
                  return c :: (← utf8Decode rest3)
                else none

example : utf8Decode [0x61, 0xC3, 0xA9, 0xE2, 0x82, 0xAC] = some ['a', 'é', '€'] := by decide
example : utf8Decode [0xED, 0xA0, 0x80] = none := by decide

end OTS
