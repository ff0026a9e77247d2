import OTSecurity.Lib.Bytes

/-!
# The protobuf wire format

Messages of varint and length-delimited fields.  The reader takes a varint whose number satisfies `ok`: readers
differ in how large numbers they hold.

* `varint`, `readVarint` — base 128, least significant digits first.
* `Value`, `write`, `parse` — one message; `parse` consumes all bytes or fails.
* `Field` — a field with what its length-delimited bytes are meant to be; `Reads` — the bytes of a field read as
  that, at every level.

Principal results: `readVarint_varint`, `parse_write`, `readsAs_encode`.
-/

namespace OTS.Proto

/-! ## Varints -/

def varintLoop : Nat → Nat → Bytes
  | 0, _ => []
  | fuel + 1, n =>
    if n / 128 ≠ 0 then .ofNat (n % 128 + 128) :: varintLoop fuel (n / 128) else [.ofNat (n % 128)]

/-- The varint of a number. -/
def varint (n : Nat) : Bytes := varintLoop (n + 1) n

/-- The number of a varint and what follows it. -/
def readVarint : Bytes → Option (Nat × Bytes)
  | [] => none
  | b :: rest =>
    if b.toNat < 128 then some (b.toNat, rest)
    else (readVarint rest).map fun p => (b.toNat % 128 + 128 * p.1, p.2)

/-- **A varint is read back.** -/
theorem readVarint_varint (n : Nat) (rest : Bytes) : readVarint (varint n ++ rest) = some (n, rest) := by
  have hloop : ∀ fuel n, n < fuel → readVarint (varintLoop fuel n ++ rest) = some (n, rest) := by
    intro fuel
    induction fuel with
    | zero => exact fun n hn => absurd hn (Nat.not_lt_zero n)
    | succ fuel ih =>
      intro n hn
      unfold varintLoop
      split
      · have hbyte : (UInt8.ofNat (n % 128 + 128)).toNat = n % 128 + 128 := by
          rw [UInt8.toNat_ofNat']
          omega
        rw [List.cons_append, readVarint, hbyte, if_neg (by omega), ih (n / 128) (by omega)]
        simp only [Option.map_some, Option.some.injEq, Prod.mk.injEq, and_true]
        omega
      · have hbyte : (UInt8.ofNat (n % 128)).toNat = n % 128 := by
          rw [UInt8.toNat_ofNat']
          omega
        rw [List.singleton_append, readVarint, hbyte, if_pos (by omega)]
        simp only [Option.some.injEq, Prod.mk.injEq, and_true]
        omega
  exact hloop (n + 1) n (Nat.lt_succ_self n)

theorem varint_ne_nil (n : Nat) : varint n ≠ [] := by
  unfold varint varintLoop
  split
  · exact List.cons_ne_nil _ _
  · exact List.cons_ne_nil _ _

/-! ## Messages -/

/-- What a field holds on the wire. -/
inductive Value where
  | varint (n : Nat)
  | bytes (data : Bytes)
  deriving DecidableEq

/-- A field number and a wire type. -/
def key (field wire : Nat) : Bytes := varint (8 * field + wire)

def writeField (field : Nat) : Value → Bytes
  | .varint n => key field 0 ++ varint n
  | .bytes data => key field 2 ++ varint data.length ++ data

def write (fs : List (Nat × Value)) : Bytes := fs.flatMap fun f => writeField f.1 f.2

/-- A varint that the reader takes. -/
def readNumber (ok : Nat → Bool) (bs : Bytes) : Option (Nat × Bytes) := (readVarint bs).filter fun p => ok p.1

/-- The value of a field of a wire type. -/
def readValue (ok : Nat → Bool) (wire : Nat) (bs : Bytes) : Option (Value × Bytes) :=
  if wire = 0 then (readNumber ok bs).map fun p => (.varint p.1, p.2)
  else if wire = 2 then
    match readNumber ok bs with
    | some (len, rest) => if len ≤ rest.length then some (.bytes (rest.take len), rest.drop len) else none
    | none => none
  else none

/-- A field and what follows it. -/
def readField (ok : Nat → Bool) (bs : Bytes) : Option ((Nat × Value) × Bytes) :=
  match readNumber ok bs with
  | some (k, rest) =>
    if k / 8 = 0 then none else (readValue ok (k % 8) rest).map fun p => ((k / 8, p.1), p.2)
  | none => none

def parseLoop (ok : Nat → Bool) : Nat → Bytes → Option (List (Nat × Value))
  | _, [] => some []
  | 0, _ :: _ => none
  | fuel + 1, b :: bs =>
    match readField ok (b :: bs) with
    | some (f, rest) => (parseLoop ok fuel rest).map (f :: ·)
    | none => none

/-- The fields of a message; every field has a byte of its own. -/
def parse (ok : Nat → Bool) (bs : Bytes) : Option (List (Nat × Value)) := parseLoop ok bs.length bs

/-- The numbers on the wire for a field. -/
def Held (ok : Nat → Bool) (f : Nat × Value) : Prop :=
  1 ≤ f.1 ∧ match f.2 with
    | .varint n => ok (8 * f.1) = true ∧ ok n = true
    | .bytes data => ok (8 * f.1 + 2) = true ∧ ok data.length = true

variable {ok : Nat → Bool}

theorem readNumber_varint {n : Nat} (h : ok n = true) (rest : Bytes) :
    readNumber ok (varint n ++ rest) = some (n, rest) := by
  unfold readNumber
  rw [readVarint_varint, Option.filter_some, if_pos h]

theorem writeField_ne_nil (f : Nat × Value) : writeField f.1 f.2 ≠ [] := by
  unfold writeField key
  split
  · exact List.append_ne_nil_of_left_ne_nil (varint_ne_nil _) _
  · exact List.append_ne_nil_of_left_ne_nil (List.append_ne_nil_of_left_ne_nil (varint_ne_nil _) _) _

/-- A written field is read, whatever follows. -/
theorem readField_writeField {f : Nat × Value} (hf : Held ok f) (rest : Bytes) :
    readField ok (writeField f.1 f.2 ++ rest) = some (f, rest) := by
  obtain ⟨field, value⟩ := f
  obtain ⟨hpos, hvalue⟩ := hf
  have hfield : ¬ field = 0 := Nat.ne_of_gt hpos
  cases value with
  | varint n =>
    obtain ⟨hkey, hn⟩ := hvalue
    have hat : 8 * field / 8 = field ∧ 8 * field % 8 = 0 := by omega
    unfold readField writeField key
    simp only at hkey ⊢
    rw [List.append_assoc, Nat.add_zero, readNumber_varint hkey]
    simp only [hat.1, hat.2, if_neg hfield]
    rw [readValue, if_pos rfl, readNumber_varint hn]
    rfl
  | bytes data =>
    obtain ⟨hkey, hn⟩ := hvalue
    have hat : (8 * field + 2) / 8 = field ∧ (8 * field + 2) % 8 = 2 := by omega
    unfold readField writeField key
    simp only at hkey ⊢
    rw [List.append_assoc, List.append_assoc, readNumber_varint hkey]
    simp only [hat.1, hat.2, if_neg hfield]
    rw [readValue, if_neg (by decide), if_pos rfl, readNumber_varint hn]
    simp only
    rw [if_pos (by simp), List.take_left, List.drop_left]
    rfl

theorem parseLoop_writeField {f : Nat × Value} (hf : Held ok f) (fuel : Nat) (rest : Bytes) :
    parseLoop ok (fuel + 1) (writeField f.1 f.2 ++ rest) = (parseLoop ok fuel rest).map (f :: ·) := by
  have hread := readField_writeField hf rest
  cases hbytes : writeField f.1 f.2 ++ rest with
  | nil => exact absurd (List.append_eq_nil_iff.1 hbytes).1 (writeField_ne_nil f)
  | cons b bs =>
    rw [hbytes] at hread
    rw [parseLoop, hread]

/-- **A written message is read back.** -/
theorem parse_write {fs : List (Nat × Value)} (h : ∀ f ∈ fs, Held ok f) : parse ok (write fs) = some fs := by
  have hloop : ∀ fs : List (Nat × Value), (∀ f ∈ fs, Held ok f) → ∀ fuel, (write fs).length ≤ fuel →
      parseLoop ok fuel (write fs) = some fs := by
    intro fs
    induction fs with
    | nil =>
      intro _ fuel _
      cases fuel <;> rfl
    | cons f fs ih =>
      intro h fuel hfuel
      rw [List.forall_mem_cons] at h
      have hwrite : write (f :: fs) = writeField f.1 f.2 ++ write fs := List.flatMap_cons
      rw [hwrite, List.length_append] at hfuel
      have hpos := List.length_pos_iff.2 (writeField_ne_nil f)
      obtain ⟨fuel, rfl⟩ : ∃ k, fuel = k + 1 := ⟨fuel - 1, by omega⟩
      rw [hwrite, parseLoop_writeField h.1, ih h.2 fuel (by omega), Option.map_some]
  exact hloop fs h _ (Nat.le_refl _)

/-! ## Nested messages -/

/-- A field and what it means: a number, a string, or a message. -/
inductive Field where
  | number (field n : Nat)
  | bytes (field : Nat) (data : Bytes)
  | message (field : Nat) (fs : List Field)

mutual

/-- The field on the wire. -/
def Field.flat : Field → Nat × Value
  | .number field n => (field, .varint n)
  | .bytes field data => (field, .bytes data)
  | .message field fs => (field, .bytes (write (flats fs)))

def flats : List Field → List (Nat × Value)
  | [] => []
  | f :: fs => f.flat :: flats fs

end

/-- The bytes of some fields. -/
def encode (fs : List Field) : Bytes := write (flats fs)

mutual

/-- A field on the wire reads as a field with a meaning. -/
inductive Reads (ok : Nat → Bool) : Nat × Value → Field → Prop where
  | number (field n : Nat) : Reads ok (field, .varint n) (.number field n)
  | bytes (field : Nat) (data : Bytes) : Reads ok (field, .bytes data) (.bytes field data)
  | message (field : Nat) {data : Bytes} {vs : List (Nat × Value)} {fs : List Field} :
      parse ok data = some vs → ReadsAll ok vs fs → Reads ok (field, .bytes data) (.message field fs)

/-- So do all, in order. -/
inductive ReadsAll (ok : Nat → Bool) : List (Nat × Value) → List Field → Prop where
  | nil : ReadsAll ok [] []
  | cons {v : Nat × Value} {f : Field} {vs : List (Nat × Value)} {fs : List Field} :
      Reads ok v f → ReadsAll ok vs fs → ReadsAll ok (v :: vs) (f :: fs)

end

/-- The bytes are a message of exactly these fields. -/
def ReadsAs (ok : Nat → Bool) (bs : Bytes) (fs : List Field) : Prop :=
  ∃ vs, parse ok bs = some vs ∧ ReadsAll ok vs fs

mutual

/-- The field numbers, keys and numbers of the field are at most `limit`. -/
def Field.Within (limit : Nat) : Field → Prop
  | .number field n => 1 ≤ field ∧ 8 * field ≤ limit ∧ n ≤ limit
  | .bytes field _ => 1 ≤ field ∧ 8 * field + 2 ≤ limit
  | .message field fs => (1 ≤ field ∧ 8 * field + 2 ≤ limit) ∧ AllWithin limit fs

def AllWithin (limit : Nat) : List Field → Prop
  | [] => True
  | f :: fs => f.Within limit ∧ AllWithin limit fs

end

variable {limit : Nat}

@[simp] theorem allWithin_nil : AllWithin limit [] ↔ True := Iff.rfl

@[simp] theorem allWithin_cons {f : Field} {fs : List Field} :
    AllWithin limit (f :: fs) ↔ f.Within limit ∧ AllWithin limit fs := Iff.rfl

@[simp] theorem allWithin_append {fs gs : List Field} :
    AllWithin limit (fs ++ gs) ↔ AllWithin limit fs ∧ AllWithin limit gs := by
  induction fs with
  | nil => simp
  | cons f fs ih => rw [List.cons_append, allWithin_cons, allWithin_cons, ih, and_assoc]

@[simp] theorem allWithin_map {α : Type} {g : α → Field} {xs : List α} :
    AllWithin limit (xs.map g) ↔ ∀ x ∈ xs, (g x).Within limit := by
  induction xs with
  | nil => simp
  | cons x xs ih => rw [List.map_cons, allWithin_cons, ih, List.forall_mem_cons]

@[simp] theorem within_number {field n : Nat} :
    (Field.number field n).Within limit ↔ 1 ≤ field ∧ 8 * field ≤ limit ∧ n ≤ limit := Iff.rfl

@[simp] theorem within_bytes {field : Nat} {data : Bytes} :
    (Field.bytes field data).Within limit ↔ 1 ≤ field ∧ 8 * field + 2 ≤ limit := Iff.rfl

@[simp] theorem within_message {field : Nat} {fs : List Field} :
    (Field.message field fs).Within limit ↔ (1 ≤ field ∧ 8 * field + 2 ≤ limit) ∧ AllWithin limit fs := Iff.rfl

/-! ### Bytes of fields -/

@[simp] theorem encode_nil : encode [] = [] := rfl

theorem encode_cons (f : Field) (fs : List Field) :
    encode (f :: fs) = writeField f.flat.1 f.flat.2 ++ encode fs := by
  unfold encode write
  rw [flats, List.flatMap_cons]

theorem encode_append (fs gs : List Field) : encode (fs ++ gs) = encode fs ++ encode gs := by
  induction fs with
  | nil => rfl
  | cons f fs ih => rw [List.cons_append, encode_cons, encode_cons, ih, List.append_assoc]

theorem encode_map {α : Type} (g : α → Field) (xs : List α) :
    encode (xs.map g) = xs.flatMap fun x => encode [g x] := by
  induction xs with
  | nil => rfl
  | cons x xs ih =>
    rw [List.map_cons, encode_cons, ih, List.flatMap_cons, encode_cons, encode_nil, List.append_nil]

/-- The data of a field is no longer than the field. -/
theorem length_le_writeField (field : Nat) (data : Bytes) :
    data.length ≤ (writeField field (.bytes data)).length := by
  unfold writeField
  rw [List.length_append]
  exact Nat.le_add_left _ _

/-- A field is no longer than the message. -/
theorem length_le_encode {f : Field} {fs : List Field} (h : f ∈ fs) :
    (writeField f.flat.1 f.flat.2).length ≤ (encode fs).length := by
  obtain ⟨before, behind, rfl⟩ := List.append_of_mem h
  rw [encode_append, encode_cons, List.length_append, List.length_append]
  omega

theorem data_le_encode {k : Nat} {data : Bytes} {fs : List Field} (h : .bytes k data ∈ fs) :
    data.length ≤ (encode fs).length :=
  Nat.le_trans (length_le_writeField k data) (length_le_encode h)

theorem message_le_encode {k : Nat} {gs fs : List Field} (h : .message k gs ∈ fs) :
    (encode gs).length ≤ (encode fs).length :=
  Nat.le_trans (length_le_writeField k (encode gs)) (length_le_encode h)

mutual

theorem Field.reads (hok : ∀ n ≤ limit, ok n = true) : ∀ (f : Field), f.Within limit →
    (writeField f.flat.1 f.flat.2).length ≤ limit → Held ok f.flat ∧ Reads ok f.flat f
  | .number field n => by
    intro ⟨hpos, hkey, hn⟩ _
    exact ⟨⟨hpos, hok _ hkey, hok n hn⟩, .number field n⟩
  | .bytes field data => by
    intro ⟨hpos, hkey⟩ hlen
    have hdata := Nat.le_trans (length_le_writeField field data) hlen
    exact ⟨⟨hpos, hok _ hkey, hok _ hdata⟩, .bytes field data⟩
  | .message field fs => by
    intro ⟨⟨hpos, hkey⟩, hfs⟩ hlen
    have hdata := Nat.le_trans (length_le_writeField field (write (flats fs))) hlen
    obtain ⟨hheld, hreads⟩ := reads_all hok fs hfs hdata
    exact ⟨⟨hpos, hok _ hkey, hok _ hdata⟩, .message field (parse_write hheld) hreads⟩

theorem reads_all (hok : ∀ n ≤ limit, ok n = true) : ∀ (fs : List Field), AllWithin limit fs →
    (encode fs).length ≤ limit → (∀ v ∈ flats fs, Held ok v) ∧ ReadsAll ok (flats fs) fs
  | [] => fun _ _ => ⟨fun _ hv => (List.not_mem_nil hv).elim, .nil⟩
  | f :: fs => by
    intro ⟨hf, hfs⟩ hlen
    rw [encode_cons, List.length_append] at hlen
    obtain ⟨hheld, hread⟩ := f.reads hok hf (by omega)
    obtain ⟨hheldAll, hreadAll⟩ := reads_all hok fs hfs (by omega)
    refine ⟨?_, .cons hread hreadAll⟩
    rw [flats, List.forall_mem_cons]
    exact ⟨hheld, hheldAll⟩

end

/-- **Written fields are read, at every level**, by a reader that holds numbers as large as the message is
long. -/
theorem readsAs_encode {fs : List Field} (hok : ∀ n ≤ limit, ok n = true) (hfs : AllWithin limit fs)
    (hlen : (encode fs).length ≤ limit) : ReadsAs ok (encode fs) fs := by
  obtain ⟨hheld, hreads⟩ := reads_all hok fs hfs hlen
  exact ⟨flats fs, parse_write hheld, hreads⟩

end OTS.Proto
