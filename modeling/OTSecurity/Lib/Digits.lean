import OTSecurity.Lib.PyStr

/-!
# Decimal digits

What the text of a number is made of, and the number that a run of digits spells.

* `ofDigits_append`, `ofDigits_zeros` — the number of a run of digits, by parts.
* `natText_digits`, `natText_head`, `ofDigits_natText` — the text of a number has only digits, no zero in
  front unless it is zero, and spells the number.
-/

namespace OTS

/-! ## The number of a run of digits -/

theorem ofDigits_foldl (s : PyStr) (n : Nat) :
    s.foldl (fun n c => n * 10 + (c - 0x30)) n = n * 10 ^ s.length + ofDigits s := by
  unfold ofDigits
  induction s generalizing n with
  | nil => simp
  | cons c s ih =>
    rw [List.foldl_cons, List.foldl_cons, ih, ih (0 * 10 + (c - 0x30)), List.length_cons,
      Nat.pow_succ', Nat.zero_mul, Nat.zero_add, Nat.add_mul, Nat.mul_assoc, Nat.add_assoc]

theorem ofDigits_append (s t : PyStr) :
    ofDigits (s ++ t) = ofDigits s * 10 ^ t.length + ofDigits t := by
  rw [ofDigits, List.foldl_append]
  exact ofDigits_foldl t _

theorem ofDigits_zeros (n : Nat) : ofDigits (List.replicate n 0x30) = 0 := by
  induction n with
  | zero => rfl
  | succ n ih =>
    rw [List.replicate_succ', ofDigits_append, ih]
    rfl

/-! ## The text of a number -/

theorem natText_eq (n : Nat) : natText n = (Nat.toDigits 10 n).map Char.toNat := by
  rw [natText, pyStr]
  exact congrArg (List.map Char.toNat) Nat.toList_repr

theorem natText_step (n : Nat) : natText n =
    if n < 10 then [0x30 + n] else natText (n / 10) ++ [0x30 + n % 10] := by
  have hdigit : ∀ d < 10, d.digitChar.toNat = 0x30 + d := by decide
  rw [natText_eq, natText_eq, Nat.toDigits_eq_if (by decide)]
  split
  · rename_i h
    rw [List.map_singleton, hdigit n h]
  · rw [List.map_append, List.map_singleton, hdigit _ (Nat.mod_lt _ (by decide))]

theorem natText_digits (n : Nat) : ∀ c ∈ natText n, isAsciiDigit c = true := by
  have hdigit : ∀ d < 10, isAsciiDigit (0x30 + d) = true := by decide
  induction n using Nat.strongRecOn with
  | ind n ih =>
    rw [natText_step]
    split
    · rename_i h
      intro c hc
      rw [List.mem_singleton.1 hc]
      exact hdigit n h
    · intro c hc
      rcases List.mem_append.1 hc with hc | hc
      · exact ih (n / 10) (by omega) c hc
      · rw [List.mem_singleton.1 hc]
        exact hdigit _ (Nat.mod_lt _ (by decide))

theorem ofDigits_natText (n : Nat) : ofDigits (natText n) = n := by
  induction n using Nat.strongRecOn with
  | ind n ih =>
    rw [natText_step]
    split
    · simp [ofDigits]
    · rw [ofDigits_append, ih (n / 10) (by omega)]
      simp [ofDigits]
      omega

/-- The text of a number starts with a digit, which is zero only if it is all. -/
theorem natText_head (n : Nat) : ∃ c rest, natText n = c :: rest ∧ (n ≠ 0 → c ≠ 0x30) := by
  induction n using Nat.strongRecOn with
  | ind n ih =>
    rw [natText_step]
    split
    · exact ⟨0x30 + n, [], rfl, by omega⟩
    · obtain ⟨c, rest, hc, hne⟩ := ih (n / 10) (by omega)
      exact ⟨c, rest ++ [0x30 + n % 10], by rw [hc]; rfl, fun _ => hne (by omega)⟩

end OTS
