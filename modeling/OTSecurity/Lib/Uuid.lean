import OTSecurity.Lib.Bytes

/-!
# UUID text

A UUID is 16 bytes.  `uuidStr` is its canonical text (`str(uuid)`: lower-case hexadecimal in groups
of 8-4-4-4-12 digits) and `uuidParse` the reader of the `UUID(hex)` constructor, which ignores
`urn:` and `uuid:` prefixes, enclosing braces and hyphens and wants 32 hexadecimal digits.

`uuidParse_uuidStr` — the reader inverts the canonical text; `uuidStr_injective`.
-/

namespace OTS

def hexDigits : List Char :=
  ['0', '1', '2', '3', '4', '5', '6', '7', '8', '9', 'a', 'b', 'c', 'd', 'e', 'f']

def hexChar (d : Nat) : Char := hexDigits.getD d '0'

/-- The value of a hexadecimal digit of either case. -/
def hexValue (c : Char) : Option Nat := hexDigits.idxOf? c.toLower

def hexText (bs : Bytes) : List Char :=
  bs.flatMap (fun b => [hexChar (b.toNat / 16), hexChar (b.toNat % 16)])

/-- Bytes of a text of hexadecimal digit pairs. -/
def hexBytes : List Char → Option Bytes
  | [] => some []
  | [_] => none
  | a :: b :: rest =>
    match hexValue a, hexValue b, hexBytes rest with
    | some x, some y, some bs => some (UInt8.ofNat (16 * x + y) :: bs)
    | _, _, _ => none

/-- `s.replace(pat, "")` on a text; `skip` characters of a match remain to be dropped. -/
def deleteAll (pat : List Char) : Nat → List Char → List Char
  | _, [] => []
  | 0, c :: cs => if pat.isPrefixOf (c :: cs) then deleteAll pat (pat.length - 1) cs
    else c :: deleteAll pat 0 cs
  | skip + 1, _ :: cs => deleteAll pat skip cs

def isBrace (c : Char) : Bool := c == '\x7b' || c == '\x7d'

/-- `s.strip("\x7b\x7d")`. -/
def stripBraces (cs : List Char) : List Char :=
  ((cs.dropWhile isBrace).reverse.dropWhile isBrace).reverse

/-- `uuid.UUID(s).bytes`. -/
def uuidParse (s : String) : Option Bytes :=
  let hex := (stripBraces (deleteAll ['u', 'u', 'i', 'd', ':'] 0
    (deleteAll ['u', 'r', 'n', ':'] 0 s.toList))).filter (· ≠ '-')
  if hex.length ≠ 32 then none else hexBytes hex

/-- `str(uuid.UUID(bytes=b))`. -/
def uuidChars (b : Bytes) : List Char :=
  hexText (slice b 0 4) ++ '-' :: (hexText (slice b 4 2) ++ '-' :: (hexText (slice b 6 2) ++
    '-' :: (hexText (slice b 8 2) ++ '-' :: hexText (slice b 10 6))))

def uuidStr (b : Bytes) : String := String.ofList (uuidChars b)

/-- The canonical text of some UUID. -/
def IsUuid (s : String) : Prop := ∃ b : Bytes, b.length = 16 ∧ s = uuidStr b

theorem hexValue_hexChar {d : Nat} (h : d < 16) : hexValue (hexChar d) = some d := by
  have hall : ∀ d < 16, hexValue (hexChar d) = some d := by decide
  exact hall d h

theorem hexChar_mem {d : Nat} (h : d < 16) : hexChar d ∈ hexDigits := by
  have hall : ∀ d < 16, hexChar d ∈ hexDigits := by decide
  exact hall d h

theorem hexText_mem {bs : Bytes} {c : Char} (h : c ∈ hexText bs) : c ∈ hexDigits := by
  obtain ⟨b, _, hc⟩ := List.mem_flatMap.1 h
  have hb := b.toNat_lt
  simp only [List.mem_cons, List.not_mem_nil, or_false] at hc
  rcases hc with rfl | rfl
  · exact hexChar_mem (by omega)
  · exact hexChar_mem (by omega)

theorem hexText_length (bs : Bytes) : (hexText bs).length = 2 * bs.length := by
  induction bs with
  | nil => rfl
  | cons b bs ih =>
    have : (hexText (b :: bs)).length = 2 + (hexText bs).length := by simp [hexText]; omega
    rw [this, ih, List.length_cons]
    omega

theorem hexBytes_hexText (bs : Bytes) : hexBytes (hexText bs) = some bs := by
  induction bs with
  | nil => rfl
  | cons b bs ih =>
    have hb := b.toNat_lt
    have hstep : hexText (b :: bs) =
        hexChar (b.toNat / 16) :: hexChar (b.toNat % 16) :: hexText bs := by
      simp [hexText]
    rw [hstep, hexBytes, hexValue_hexChar (by omega), hexValue_hexChar (by omega), ih]
    simp only [show 16 * (b.toNat / 16) + b.toNat % 16 = b.toNat by omega, UInt8.ofNat_toNat]

/-- Deleting a pattern whose first character does not occur changes nothing. -/
theorem deleteAll_of_notMem {p : Char} {pat : List Char} : ∀ {cs : List Char}, p ∉ cs →
    deleteAll (p :: pat) 0 cs = cs
  | [], _ => rfl
  | c :: cs, h => by
    have hc : ¬ p = c := fun e => h (e ▸ List.mem_cons_self ..)
    have hcs : p ∉ cs := fun hm => h (List.mem_cons_of_mem _ hm)
    simp only [deleteAll, List.isPrefixOf, hc, beq_iff_eq, Bool.and_eq_true, false_and, if_false]
    rw [deleteAll_of_notMem hcs]

theorem dropWhile_of_none {p : Char → Bool} {cs : List Char} (h : ∀ c ∈ cs, p c = false) :
    cs.dropWhile p = cs := by
  cases cs with
  | nil => rfl
  | cons c cs => simp [h c (List.mem_cons_self ..)]

theorem stripBraces_of_none {cs : List Char} (h : ∀ c ∈ cs, isBrace c = false) :
    stripBraces cs = cs := by
  unfold stripBraces
  rw [dropWhile_of_none h, dropWhile_of_none (fun c hc => h c (List.mem_reverse.1 hc)),
    List.reverse_reverse]

theorem uuidChars_mem {b : Bytes} {c : Char} (h : c ∈ uuidChars b) : c ∈ '-' :: hexDigits := by
  simp only [uuidChars, List.mem_append, List.mem_cons] at h ⊢
  rcases h with h | h | h | h | h | h | h | h | h <;>
    first | exact .inl h | exact .inr (hexText_mem h)

theorem slices_append (b : Bytes) (hb : b.length = 16) :
    slice b 0 4 ++ (slice b 4 2 ++ (slice b 6 2 ++ (slice b 8 2 ++ slice b 10 6))) = b := by
  have hstep : ∀ off len, b.drop off = slice b off len ++ b.drop (off + len) := fun off len => by
    unfold slice
    rw [← List.drop_drop, List.take_append_drop]
  have hend : b.drop 16 = [] := List.drop_of_length_le (by omega)
  have h10 := hstep 10 6
  rw [hend, List.append_nil] at h10
  rw [← h10, ← hstep 8 2, ← hstep 6 2, ← hstep 4 2, ← hstep 0 4, List.drop_zero]

theorem hexText_append (a b : Bytes) : hexText (a ++ b) = hexText a ++ hexText b :=
  List.flatMap_append ..

theorem hexText_no_hyphen (b : Bytes) : (hexText b).filter (· ≠ '-') = hexText b := by
  rw [List.filter_eq_self]
  intro c hc
  have hall : hexDigits.all (fun c => decide (c ≠ '-')) = true := by decide
  exact List.all_eq_true.1 hall c (hexText_mem hc)

theorem uuidChars_filter {b : Bytes} (hb : b.length = 16) :
    (uuidChars b).filter (· ≠ '-') = hexText b := by
  have hcons : ∀ cs : List Char, ('-' :: cs).filter (· ≠ '-') = cs.filter (· ≠ '-') := fun cs => by
    simp
  unfold uuidChars
  simp only [List.filter_append, hcons, hexText_no_hyphen, ← hexText_append]
  rw [slices_append b hb]

/-- **The UUID reader inverts the canonical text.** -/
theorem uuidParse_uuidStr {b : Bytes} (hb : b.length = 16) : uuidParse (uuidStr b) = some b := by
  have hu : ∀ p, p ∉ '-' :: hexDigits → p ∉ uuidChars b := fun p hp hm => hp (uuidChars_mem hm)
  have hbrace : ∀ c ∈ uuidChars b, isBrace c = false := by
    have hall : ('-' :: hexDigits).any isBrace = false := by decide
    exact fun c hc => Bool.eq_false_iff.2 (List.any_eq_false.1 hall c (uuidChars_mem hc))
  have hnu : 'u' ∉ uuidChars b := hu 'u' (by decide)
  unfold uuidParse uuidStr
  simp only [String.toList_ofList]
  rw [deleteAll_of_notMem hnu, deleteAll_of_notMem hnu, stripBraces_of_none hbrace,
    uuidChars_filter hb, hexText_length, hb]
  simp [hexBytes_hexText]

theorem uuidStr_injective {a b : Bytes} (ha : a.length = 16) (hb : b.length = 16)
    (h : uuidStr a = uuidStr b) : a = b := by
  have := uuidParse_uuidStr ha
  rw [h, uuidParse_uuidStr hb] at this
  exact (Option.some.inj this).symm

end OTS
