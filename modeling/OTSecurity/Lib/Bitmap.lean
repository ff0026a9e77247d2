/-!
# Packed bitmaps

A fixed array of `n` bytes read as `8 * n` bits: bit `i` is bit `i % 8` of byte `i / 8`.

* `get` / `set` — the usual shift-and-mask accesses.
* `get_set` — writing one bit changes that bit and no other; `get_zero` — the cleared bitmap.
-/

namespace OTS

/-- A bitmap of `8 * n` bits. -/
abbrev Bitmap (n : Nat) := Vector UInt8 n

namespace Bitmap

variable {n : Nat}

/-- All bits clear. -/
def zero (n : Nat) : Bitmap n := Vector.replicate n 0

/-- The single-bit mask of bit `i` inside its byte. -/
def mask (i : Nat) : UInt8 := 1 <<< (i &&& 7).toUInt8

def get (v : Bitmap n) (i : Nat) : Bool :=
  match v[i >>> 3]? with
  | some b => b &&& mask i != 0
  | none => false

def set (v : Bitmap n) (i : Nat) (value : Bool) : Bitmap n :=
  match v[i >>> 3]? with
  | some b => v.setIfInBounds (i >>> 3) (if value then b ||| mask i else b &&& ~~~ mask i)
  | none => v

theorem getLsbD_mask (i k : Nat) (hk : k < 8) :
    (mask i).toBitVec.getLsbD k = decide (k = i % 8) := by
  have h7 : i &&& 7 = i % 8 := Nat.and_two_pow_sub_one_eq_mod i 3
  have hlt : i % 8 < 8 := Nat.mod_lt _ (by decide)
  unfold mask
  rw [h7]
  generalize i % 8 = j at hlt ⊢
  have hall : ∀ j < 8, ∀ k < 8, ((1 : UInt8) <<< j.toUInt8).toBitVec.getLsbD k = decide (k = j) := by
    decide
  exact hall j hlt k hk

theorem and_mask_ne_zero (b : UInt8) (i : Nat) :
    (b &&& mask i != 0) = b.toBitVec.getLsbD (i % 8) := by
  have hlt : i % 8 < 8 := Nat.mod_lt _ (by decide)
  cases hb : b.toBitVec.getLsbD (i % 8) with
  | true =>
    have hne : b &&& mask i ≠ 0 := by
      intro h
      have := congrArg (fun x : UInt8 => x.toBitVec.getLsbD (i % 8)) h
      simp [getLsbD_mask i _ hlt, hb] at this
    simpa using hne
  | false =>
    have heq : b &&& mask i = 0 := by
      apply UInt8.toBitVec_inj.1
      apply BitVec.eq_of_getLsbD_eq
      intro k hk
      by_cases hki : k = i % 8
      · subst hki; simp [hb]
      · simp [getLsbD_mask i k hk, hki]
    simp [heq]

theorem getLsbD_write (b : UInt8) (i k : Nat) (value : Bool) (hk : k < 8) :
    (if value then b ||| mask i else b &&& ~~~ mask i).toBitVec.getLsbD k =
      if k = i % 8 then value else b.toBitVec.getLsbD k := by
  have hm := getLsbD_mask i k hk
  cases value with
  | true => simp only [if_true, UInt8.toBitVec_or, BitVec.getLsbD_or, hm]; split <;> simp_all
  | false =>
    simp only [Bool.false_eq_true, if_false, UInt8.toBitVec_and, UInt8.toBitVec_not,
      BitVec.getLsbD_and, BitVec.getLsbD_not, hm]
    split <;> simp_all

theorem get_eq (v : Bitmap n) {i : Nat} (h : i < 8 * n) :
    get v i = (v[i / 8]).toBitVec.getLsbD (i % 8) := by
  have hi : i >>> 3 = i / 8 := Nat.shiftRight_eq_div_pow i 3
  unfold get
  rw [hi, Vector.getElem?_eq_getElem (by omega)]
  exact and_mask_ne_zero _ i

/-- **Writing one bit changes that bit and no other.** -/
theorem get_set (v : Bitmap n) {i j : Nat} (hi : i < 8 * n) (hj : j < 8 * n) (value : Bool) :
    get (set v i value) j = if j = i then value else get v j := by
  have hi3 : i >>> 3 = i / 8 := Nat.shiftRight_eq_div_pow i 3
  have hset : set v i value = v.setIfInBounds (i / 8)
      (if value then v[i / 8] ||| mask i else v[i / 8] &&& ~~~ mask i) := by
    unfold set
    rw [hi3, Vector.getElem?_eq_getElem (by omega)]
  rw [get_eq _ hj, get_eq _ hj, hset]
  by_cases hbyte : j / 8 = i / 8
  · have hlt : j % 8 < 8 := Nat.mod_lt _ (by decide)
    rw [Vector.getElem_setIfInBounds (by omega), if_pos hbyte.symm, getLsbD_write _ _ _ _ hlt]
    by_cases hbit : j % 8 = i % 8
    · rw [if_pos hbit, if_pos (by omega)]
    · rw [if_neg hbit, if_neg (by omega)]
      simp only [hbyte]
  · rw [Vector.getElem_setIfInBounds (by omega), if_neg (fun h => hbyte h.symm), if_neg (by omega)]

theorem get_zero (i : Nat) : get (zero n) i = false := by
  unfold get zero
  by_cases h : i >>> 3 < n
  · rw [Vector.getElem?_eq_getElem h]; simp
  · rw [Vector.getElem?_eq_none (by omega)]

end Bitmap

end OTS
