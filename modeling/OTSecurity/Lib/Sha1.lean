import OTSecurity.Lib.Uuid

/-!
# SHA-1 and name-based UUIDs

`sha1` hashes a byte string in 64-byte blocks of 80 rounds; `uuid5 ns name` is the canonical text of
the name-based UUID of version 5: the first 16 bytes of the hash of the namespace's bytes and the
name in UTF-8, with the version and variant bits set.

`uuid5_isUuid` — every such text is canonical.
-/

namespace OTS

/-! ## The hash -/

def WORD : Nat := 4294967296

/-- Rotation of a 32-bit word to the left. -/
def rotl (x n : Nat) : Nat := (x <<< n ||| x >>> (32 - n)) % WORD

/-- The big-endian 32-bit words of a message. -/
def words : Bytes → List Nat
  | a :: b :: c :: d :: rest => ofBe [a, b, c, d] :: words rest
  | _ => []

/-- `n` more words of the message schedule, the latest word first. -/
def schedule : Nat → List Nat → List Nat
  | 0, w => w
  | n + 1, w =>
    schedule n (rotl (w.getD 2 0 ^^^ w.getD 7 0 ^^^ w.getD 13 0 ^^^ w.getD 15 0) 1 :: w)

/-- The five words of the state. -/
structure Sha1 where
  a : Nat
  b : Nat
  c : Nat
  d : Nat
  e : Nat

def Sha1.init : Sha1 := ⟨0x67452301, 0xEFCDAB89, 0x98BADCFE, 0x10325476, 0xC3D2E1F0⟩

/-- The mixing function of round `t` with its constant. -/
def mix (t b c d : Nat) : Nat :=
  if t < 20 then ((b &&& c) ^^^ ((b ^^^ 0xFFFFFFFF) &&& d)) + 0x5A827999
  else if t < 40 then (b ^^^ c ^^^ d) + 0x6ED9EBA1
  else if t < 60 then ((b &&& c) ^^^ (b &&& d) ^^^ (c &&& d)) + 0x8F1BBCDC
  else (b ^^^ c ^^^ d) + 0xCA62C1D6

/-- The rounds from `t` on, one for each remaining word of the schedule. -/
def rounds : Nat → Sha1 → List Nat → Sha1
  | _, h, [] => h
  | t, h, w :: ws =>
    rounds (t + 1)
      ⟨(rotl h.a 5 + mix t h.b h.c h.d + h.e + w) % WORD, h.a, rotl h.b 30, h.c, h.d⟩ ws

def Sha1.add (h r : Sha1) : Sha1 :=
  ⟨(h.a + r.a) % WORD, (h.b + r.b) % WORD, (h.c + r.c) % WORD, (h.d + r.d) % WORD,
    (h.e + r.e) % WORD⟩

def sha1Block (h : Sha1) (block : List Nat) : Sha1 :=
  h.add (rounds 0 h (schedule 64 block.reverse).reverse)

def sha1Blocks : Nat → Sha1 → List Nat → Sha1
  | 0, h, _ => h
  | n + 1, h, ws => sha1Blocks n (sha1Block h (ws.take 16)) (ws.drop 16)

/-- The message, a one bit, zeros up to 56 bytes modulo 64, and the length in bits. -/
def sha1Pad (m : Bytes) : Bytes :=
  m ++ 0x80 :: List.replicate ((119 - m.length % 64) % 64) 0 ++ be 8 (8 * m.length)

def sha1 (m : Bytes) : Bytes :=
  let h := sha1Blocks ((sha1Pad m).length / 64) Sha1.init (words (sha1Pad m))
  be 4 h.a ++ be 4 h.b ++ be 4 h.c ++ be 4 h.d ++ be 4 h.e

theorem sha1_length (m : Bytes) : (sha1 m).length = 20 := by simp [sha1]

example : hexText (sha1 []) = "da39a3ee5e6b4b0d3255bfef95601890afd80709".toList := by
  decide +kernel

/-! ## Version 5 UUIDs -/

/-- The 16 bytes of a version 5 UUID from a hash. -/
def uuid5Bytes (hash : Bytes) : Bytes :=
  slice hash 0 6 ++ [UInt8.ofNat (0x50 + (hash.getD 6 0).toNat % 16)] ++ slice hash 7 1 ++
    [UInt8.ofNat (0x80 + (hash.getD 8 0).toNat % 64)] ++ slice hash 9 7

/-- `str(uuid.uuid5(uuid.UUID(ns), name))`. -/
def uuid5 (ns name : String) : String :=
  uuidStr (uuid5Bytes (sha1 ((uuidParse ns).getD [] ++ name.toUTF8.toList)))

theorem uuid5Bytes_length {hash : Bytes} (h : hash.length = 20) :
    (uuid5Bytes hash).length = 16 := by
  simp [uuid5Bytes, slice, h]

/-- **A name-based UUID is canonical text.** -/
theorem uuid5_isUuid (ns name : String) : IsUuid (uuid5 ns name) :=
  ⟨_, uuid5Bytes_length (sha1_length _), rfl⟩

end OTS
