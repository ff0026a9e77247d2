import OTSecurity.Lib.Bytes

/-!
# Length-prefixed, checksummed frames

A log file is a concatenation of frames `u32 length | body | u32 checksum`, over an arbitrary
checksum function.

* `readFrame` — the frame at an offset, as a reader of the file gets it.
* `validPrefix` — how far whole frames reach: what recovery keeps of a file.
* `Torn` — a strict initial piece of a frame: what a write cut short leaves.

Principal results: `readFrame_of_split`, every intact frame is read back; `take_framesOf`, every
initial piece of a log is whole frames and a torn one; `validPrefix_framesOf`, recovery keeps the
whole frames exactly, and consults no checksum to find the torn one.
-/

namespace OTS

variable (crc : Bytes → UInt32)

def frame (body : Bytes) : Bytes := be 4 body.length ++ (body ++ be 4 (crc body).toNat)

def framesOf : List Bytes → Bytes
  | [] => []
  | body :: bodies => frame crc body ++ framesOf bodies

/-- A body whose length its prefix can hold and which is not empty. -/
def Framable (body : Bytes) : Prop := body ≠ [] ∧ body.length < 256 ^ 4

@[simp] theorem frame_length (body : Bytes) : (frame crc body).length = body.length + 8 := by
  simp [frame]
  omega

theorem framesOf_append (as bs : List Bytes) :
    framesOf crc (as ++ bs) = framesOf crc as ++ framesOf crc bs := by
  induction as with
  | nil => rfl
  | cons a as ih => simp [framesOf, ih]

theorem framesOf_length (bodies : List Bytes) :
    (framesOf crc bodies).length = (bodies.map (fun b => b.length + 8)).sum := by
  induction bodies with
  | nil => rfl
  | cons b bodies ih => simp [framesOf, ih]

/-! ## Reading a frame -/

/-- Length, body and checksum read in turn; `none` when the file ends or the checksum differs. -/
def readFrame (data : Bytes) (off : Nat) : Option (Bytes × Nat) :=
  let head := slice data off 4
  let blen := ofBe head
  let body := slice data (off + 4) blen
  let tail := slice data (off + 4 + body.length) 4
  if head.length ≠ 4 ∨ tail.length ≠ 4 then none
  else if (crc body).toNat ≠ ofBe tail then none
  else some (body, off + 8 + blen)

variable {crc}

/-- The three fields of a frame inside a file. -/
theorem frame_fields {data a body c : Bytes} {off : Nat} (h : data = a ++ (frame crc body ++ c))
    (hoff : off = a.length) :
    slice data off 4 = be 4 body.length ∧ slice data (off + 4) body.length = body ∧
      slice data (off + 4 + body.length) 4 = be 4 (crc body).toNat := by
  have h0 : data = a ++ (be 4 body.length ++ (body ++ (be 4 (crc body).toNat ++ c))) := by
    simp [h, frame]
  have h1 : data = (a ++ be 4 body.length) ++ (body ++ (be 4 (crc body).toNat ++ c)) := by
    simp [h0]
  have h2 : data = (a ++ be 4 body.length ++ body) ++ (be 4 (crc body).toNat ++ c) := by
    simp [h0]
  refine ⟨slice_of_eq h0 hoff (be_length _ _).symm, slice_of_eq h1 (by simp [hoff]) rfl,
    slice_of_eq h2 ?_ (be_length _ _).symm⟩
  simp [hoff]
  omega

theorem ofBe_length {body : Bytes} (h : body.length < 256 ^ 4) :
    ofBe (be 4 body.length) = body.length :=
  ofBe_be h

theorem ofBe_crc (body : Bytes) : ofBe (be 4 (crc body).toNat) = (crc body).toNat :=
  ofBe_be (by have := (crc body).toNat_lt; omega)

/-- **An intact frame is read back.** -/
theorem readFrame_of_split {data a body c : Bytes} {off : Nat}
    (h : data = a ++ (frame crc body ++ c)) (hoff : off = a.length)
    (hlen : body.length < 256 ^ 4) :
    readFrame crc data off = some (body, off + 8 + body.length) := by
  obtain ⟨h1, h2, h3⟩ := frame_fields h hoff
  simp only [readFrame, h1, ofBe_length hlen, h2, h3, ofBe_crc, be_length, ne_eq,
    not_true_eq_false, or_self, if_false]

/-! ## Whole frames -/

variable (crc)

/-- One round of the scan a step of fuel: every frame moves it by more than 8 bytes. -/
def validLoop (data : Bytes) : Nat → Nat → Nat
  | 0, pos => pos
  | fuel + 1, pos =>
    if pos + 8 ≤ data.length then
      let blen := ofBe (slice data pos 4)
      if blen ≤ 0 ∨ pos + 8 + blen > data.length then pos
      else
        let body := slice data (pos + 4) blen
        if (crc body).toNat ≠ ofBe (slice data (pos + 4 + blen) 4) then pos
        else validLoop data fuel (pos + 8 + blen)
    else pos

/-- The end of the last whole frame from the start on. -/
def validPrefix (data : Bytes) : Nat := validLoop crc data data.length 0

/-- A strict initial piece of a frame. -/
def Torn (torn : Bytes) : Prop :=
  ∃ body, Framable body ∧ torn <+: frame crc body ∧ torn.length < body.length + 8

variable {crc}

theorem torn_nil : Torn crc [] :=
  ⟨[0], ⟨by simp, by simp⟩, List.nil_prefix, by simp⟩

/-- A torn piece long enough to hold its length field holds the length of its whole body. -/
theorem Torn.head {torn : Bytes} (h : Torn crc torn) (h8 : 8 ≤ torn.length) :
    ∃ blen, slice torn 0 4 = be 4 blen ∧ blen < 256 ^ 4 ∧ torn.length < blen + 8 := by
  obtain ⟨body, hb, ⟨rest, hrest⟩, hlt⟩ := h
  refine ⟨body.length, ?_, hb.2, hlt⟩
  have hfull := (@frame_fields crc _ [] body [] _ rfl rfl).1
  simpa [slice, ← hrest, List.take_append_of_le_length (show 4 ≤ torn.length by omega)] using hfull

theorem validLoop_torn {data a torn : Bytes} (h : data = a ++ torn) (ht : Torn crc torn)
    (fuel : Nat) : validLoop crc data fuel a.length = a.length := by
  cases fuel with
  | zero => rfl
  | succ fuel =>
    rw [validLoop]
    split
    · rename_i h8
      obtain ⟨blen, hs, hb, hlt⟩ := ht.head (by simp only [h, List.length_append] at h8; omega)
      have hslice : slice data a.length 4 = be 4 blen := by
        rw [h, ← hs]
        simp [slice]
      rw [hslice, ofBe_be hb, if_pos (.inr (by simp only [h, List.length_append]; omega))]
    · rfl

theorem validLoop_framesOf {data a torn : Bytes} (ht : Torn crc torn) (bodies : List Bytes)
    (hb : ∀ b ∈ bodies, Framable b) (fuel : Nat) (hfuel : (framesOf crc bodies).length ≤ fuel)
    (h : data = a ++ (framesOf crc bodies ++ torn)) :
    validLoop crc data fuel a.length = a.length + (framesOf crc bodies).length := by
  induction bodies generalizing a fuel with
  | nil => exact validLoop_torn (by simpa [framesOf] using h) ht fuel
  | cons b bodies ih =>
    obtain ⟨hne, hlt⟩ := hb b List.mem_cons_self
    have hpos : 0 < b.length := List.length_pos_iff.2 hne
    have hdata : data = a ++ (frame crc b ++ (framesOf crc bodies ++ torn)) := by
      simpa [framesOf] using h
    obtain ⟨h1, h2, h3⟩ := frame_fields hdata rfl
    have hlen : data.length = a.length + (b.length + 8 + ((framesOf crc bodies).length + torn.length)) := by
      simp [hdata]
    simp only [framesOf, List.length_append, frame_length] at hfuel ⊢
    obtain ⟨fuel, rfl⟩ : ∃ f, fuel = f + 1 := ⟨fuel - 1, by omega⟩
    rw [validLoop, if_pos (by omega), h1, ofBe_length hlt, if_neg (by omega), h2, h3, ofBe_crc,
      if_neg (by simp)]
    have hnext := ih (a := a ++ frame crc b) (fun x hx => hb x (List.mem_cons_of_mem _ hx)) fuel
      (by omega) (by simpa using hdata)
    simp only [List.length_append, frame_length] at hnext
    rw [show a.length + 8 + b.length = a.length + (b.length + 8) by omega, hnext]
    omega

/-- **Recovery keeps the whole frames and drops a torn one.** -/
theorem validPrefix_framesOf {torn : Bytes} (ht : Torn crc torn) {bodies : List Bytes}
    (hb : ∀ b ∈ bodies, Framable b) :
    validPrefix crc (framesOf crc bodies ++ torn) = (framesOf crc bodies).length := by
  have h := validLoop_framesOf (a := []) ht bodies hb (framesOf crc bodies ++ torn).length
    (by simp) rfl
  simpa [validPrefix] using h

/-- **Every initial piece of a log is whole frames and a torn one.** -/
theorem take_framesOf {bodies : List Bytes} (hb : ∀ b ∈ bodies, Framable b) (k : Nat) :
    ∃ j torn, Torn crc torn ∧ (framesOf crc bodies).take k = framesOf crc (bodies.take j) ++ torn ∧
      (∀ i, (framesOf crc (bodies.take i)).length ≤ k → i ≤ bodies.length → i ≤ j) := by
  induction bodies generalizing k with
  | nil =>
    refine ⟨0, [], torn_nil, by simp [framesOf], ?_⟩
    intro i _ hi
    simpa using hi
  | cons b bodies ih =>
    rcases Nat.lt_or_ge k (b.length + 8) with hk | hk
    · refine ⟨0, (frame crc b).take k, ⟨b, hb b List.mem_cons_self, List.take_prefix _ _, ?_⟩, ?_, ?_⟩
      · simp only [List.length_take, frame_length]
        omega
      · simp [framesOf, List.take_append_of_le_length (show k ≤ (frame crc b).length by simp; omega)]
      · intro i hle _
        cases i with
        | zero => exact Nat.le_refl 0
        | succ i =>
          simp only [List.take_succ_cons, framesOf, List.length_append, frame_length] at hle
          omega
    · obtain ⟨j, torn, ht, hj, hmax⟩ :=
        ih (fun x hx => hb x (List.mem_cons_of_mem _ hx)) (k - (b.length + 8))
      refine ⟨j + 1, torn, ht, ?_, ?_⟩
      · rw [framesOf, List.take_append, List.take_of_length_le (by simpa using hk), frame_length, hj]
        simp [framesOf]
      · intro i hle hi
        cases i with
        | zero => omega
        | succ i =>
          simp only [List.take_succ_cons, framesOf, List.length_append, frame_length] at hle
          have := hmax i (by omega) (by simpa using hi)
          omega

end OTS
