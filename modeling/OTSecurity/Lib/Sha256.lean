import OTSecurity.Lib.Sha1

/-!
# SHA-256

`sha256` hashes a byte string in 64-byte blocks of 64 rounds, padded as for SHA-1; `sha256Hex` is
its hexadecimal digest, `hmacSha256` the keyed hash over it.
-/

namespace OTS

/-- Rotation of a 32-bit word to the right. -/
def rotr (x n : Nat) : Nat := (x >>> n ||| x <<< (32 - n)) % WORD

/-- The round constants: the first 32 bits of the fractional parts of the cube roots of the first
64 primes. -/
def SHA256_K : List Nat :=
  [0x428a2f98, 0x71374491, 0xb5c0fbcf, 0xe9b5dba5, 0x3956c25b, 0x59f111f1, 0x923f82a4, 0xab1c5ed5,
    0xd807aa98, 0x12835b01, 0x243185be, 0x550c7dc3, 0x72be5d74, 0x80deb1fe, 0x9bdc06a7, 0xc19bf174,
    0xe49b69c1, 0xefbe4786, 0x0fc19dc6, 0x240ca1cc, 0x2de92c6f, 0x4a7484aa, 0x5cb0a9dc, 0x76f988da,
    0x983e5152, 0xa831c66d, 0xb00327c8, 0xbf597fc7, 0xc6e00bf3, 0xd5a79147, 0x06ca6351, 0x14292967,
    0x27b70a85, 0x2e1b2138, 0x4d2c6dfc, 0x53380d13, 0x650a7354, 0x766a0abb, 0x81c2c92e, 0x92722c85,
    0xa2bfe8a1, 0xa81a664b, 0xc24b8b70, 0xc76c51a3, 0xd192e819, 0xd6990624, 0xf40e3585, 0x106aa070,
    0x19a4c116, 0x1e376c08, 0x2748774c, 0x34b0bcb5, 0x391c0cb3, 0x4ed8aa4a, 0x5b9cca4f, 0x682e6ff3,
    0x748f82ee, 0x78a5636f, 0x84c87814, 0x8cc70208, 0x90befffa, 0xa4506ceb, 0xbef9a3f7, 0xc67178f2]

/-- `n` more words of the message schedule, the latest word first. -/
def schedule256 : Nat → List Nat → List Nat
  | 0, w => w
  | n + 1, w =>
    let x := w.getD 14 0
    let y := w.getD 1 0
    let s0 := rotr x 7 ^^^ rotr x 18 ^^^ x >>> 3
    let s1 := rotr y 17 ^^^ rotr y 19 ^^^ y >>> 10
    schedule256 n ((w.getD 15 0 + s0 + w.getD 6 0 + s1) % WORD :: w)

/-- One round on the eight words of the state, with a constant and a word of the schedule. -/
def round256 (h : List Nat) (kw : Nat × Nat) : List Nat :=
  match h with
  | [a, b, c, d, e, f, g, i] =>
    let t1 := i + (rotr e 6 ^^^ rotr e 11 ^^^ rotr e 25) +
      ((e &&& f) ^^^ ((e ^^^ 0xFFFFFFFF) &&& g)) + kw.1 + kw.2
    let t2 := (rotr a 2 ^^^ rotr a 13 ^^^ rotr a 22) + ((a &&& b) ^^^ (a &&& c) ^^^ (b &&& c))
    [(t1 + t2) % WORD, a, b, c, (d + t1) % WORD, e, f, g]
  | h => h

def sha256Block (h block : List Nat) : List Nat :=
  List.zipWith (fun x y => (x + y) % WORD) h
    ((List.zip SHA256_K (schedule256 48 block.reverse).reverse).foldl round256 h)

def sha256Blocks : Nat → List Nat → List Nat → List Nat
  | 0, h, _ => h
  | n + 1, h, ws => sha256Blocks n (sha256Block h (ws.take 16)) (ws.drop 16)

def SHA256_INIT : List Nat :=
  [0x6a09e667, 0xbb67ae85, 0x3c6ef372, 0xa54ff53a, 0x510e527f, 0x9b05688c, 0x1f83d9ab, 0x5be0cd19]

def sha256 (m : Bytes) : Bytes :=
  (sha256Blocks ((sha1Pad m).length / 64) SHA256_INIT (words (sha1Pad m))).flatMap (be 4)

theorem round256_length (h : List Nat) (kw : Nat × Nat) : (round256 h kw).length = h.length := by
  unfold round256
  split <;> rfl

theorem sha256Block_length (h block : List Nat) : (sha256Block h block).length = h.length := by
  have hrounds : ∀ (kws : List (Nat × Nat)) (g : List Nat), (kws.foldl round256 g).length = g.length := by
    intro kws
    induction kws with
    | nil => exact fun _ => rfl
    | cons kw kws ih =>
      intro g
      rw [List.foldl_cons, ih, round256_length]
  rw [sha256Block, List.length_zipWith, hrounds, Nat.min_self]

theorem sha256Blocks_length (n : Nat) (h ws : List Nat) : (sha256Blocks n h ws).length = h.length := by
  induction n generalizing h ws with
  | zero => rfl
  | succ n ih =>
    rw [sha256Blocks, ih, sha256Block_length]

/-- A digest has 32 bytes. -/
theorem sha256_length (m : Bytes) : (sha256 m).length = 32 := by
  have hbytes : ∀ ws : List Nat, (ws.flatMap (be 4)).length = 4 * ws.length := by
    intro ws
    induction ws with
    | nil => rfl
    | cons w ws ih =>
      simp only [List.flatMap_cons, List.length_append, be_length, List.length_cons, ih]
      omega
  rw [sha256, hbytes, sha256Blocks_length]
  rfl

/-- `hashlib.sha256(m).hexdigest()`. -/
def sha256Hex (m : Bytes) : String := String.ofList (hexText (sha256 m))

/-- The key of a keyed hash, hashed when it is longer than a block, filled up to one. -/
def hmacPad (key : Bytes) (pad : UInt8) : Bytes :=
  let k := if key.length > 64 then sha256 key else key
  (k ++ List.replicate (64 - k.length) 0).map (· ^^^ pad)

/-- `hmac.new(key, m, hashlib.sha256).digest()`. -/
def hmacSha256 (key m : Bytes) : Vector UInt8 32 :=
  .ofFn fun i => (sha256 (hmacPad key 0x5C ++ sha256 (hmacPad key 0x36 ++ m))).getD i 0

example : sha256Hex [0x61, 0x62, 0x63] =
    "ba7816bf8f01cfea414140de5dae2223b00361a396177a9cb410ff61f20015ad" := by decide +kernel

example : (hexText (hmacSha256 (List.replicate 20 0x0B) [0x48, 0x69, 0x20, 0x54, 0x68, 0x65, 0x72,
    0x65]).toList).take 8 = ['b', '0', '3', '4', '4', 'c', '6', '1'] := by decide +kernel

end OTS
