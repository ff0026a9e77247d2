import OTSecurity.Link.Frame

/-!
# The frame parser accepts the encoder's image

`LinkCodec.decode` of `lib/sih_common/linkframe.py` against `LinkCodec.encode`.

* `LinkCodec.decodeRaising` — `decode` with the library calls that can raise (`unpack_from`,
  `bytes.decode`, `uuid.UUID`); `decodeRaising_eq`: after the checks before them none does.
* `frameWith` — the bytes a decoded frame stands for, given its flags byte; `decode_ok` reads them
  off an accepted datagram, `decode_of_isFrame` is the converse.
* `reflag` — a frame with another flags byte, signed again.

Principal result: `decode_exact` — a datagram is accepted iff it is, up to the flags byte and the
MAC, a frame of the encoder; the decoded fields determine it; everything else is a `FrameError`.
-/

namespace OTS.Link

/-! ## The calls that can raise -/

/-- What `decode` can raise: its own `FrameError`, or what a library call raises. -/
inductive DecodeError where
  | frame (e : FrameError)
  | structError
  | unicodeDecodeError
  | valueError
  deriving DecidableEq, Repr

/-- `_HEAD.unpack_from(body, 0)`: magic, version, type, flags, index, count, length of the id. -/
def unpackHead (body : Bytes) : Except DecodeError (Bytes × Nat × Nat × Nat × Nat × Nat × Nat) :=
  if body.length < HEAD_SIZE then .error .structError
  else .ok (slice body 0 4, byteAt body 4, byteAt body 5, byteAt body 6, byteAt body 7,
    byteAt body 8, byteAt body 9)

/-- `_MID.unpack_from(body, off)`: boot, sequence, total length, chunk length. -/
def unpackMid (body : Bytes) (off : Nat) : Except DecodeError (Bytes × Nat × Nat × Nat) :=
  if body.length < off + MID_SIZE then .error .structError
  else .ok (slice body off 16, ofBe (slice body (off + 16) 8), ofBe (slice body (off + 24) 4),
    ofBe (slice body (off + 28) 2))

/-- `sid.decode("ascii")`. -/
def decodeAsciiRaising (bs : Bytes) : Except DecodeError String :=
  if bs.all (fun b => decide (b.toNat < 128)) then .ok (decodeAscii bs)
  else .error .unicodeDecodeError

/-- `str(uuid.UUID(bytes=boot))`. -/
def uuidOfBytes (boot : Bytes) : Except DecodeError String :=
  if boot.length ≠ 16 then .error .valueError else .ok (uuidStr boot)

def malformed (message : String) : Except DecodeError Frame :=
  .error (.frame ⟨"frame_malformed", message⟩)

def LinkCodec.decodeRaising (hmac : Hmac) (c : LinkCodec) (data : Bytes) :
    Except DecodeError Frame :=
  let n := data.length
  if n < MIN_FRAME ∨ n > MAX_DATAGRAM_BYTES then
    malformed s!"datagram length {n} outside bounds"
  else
    let body := data.take (n - HMAC_BYTES)
    if c.mac hmac body ≠ data.drop (n - HMAC_BYTES) then
      .error (.frame ⟨"frame_hmac_invalid", "HMAC mismatch"⟩)
    else match unpackHead body with
      | .error e => .error e
      | .ok (magic, version, ftype, _flags, idx, count, sidLen) =>
        if magic ≠ MAGIC ∨ version ≠ VERSION then malformed "bad magic or version"
        else if ¬ (ftype = TYPE_EVENT ∨ ftype = TYPE_HEALTH) then
          malformed s!"unknown frame type {ftype}"
        else if ¬ (1 ≤ count ∧ count ≤ MAX_FRAGMENTS) ∨ idx ≥ count then
          malformed s!"bad fragment {idx}/{count}"
        else if ¬ (1 ≤ sidLen ∧ sidLen ≤ 63) ∨ body.length < HEAD_SIZE + sidLen + MID_SIZE then
          malformed "bad sensor_id length"
        else
          let sid := slice body HEAD_SIZE sidLen
          if sid.any (fun b => Char.ofNat b.toNat ∉ sidAlphabet) then
            malformed "sensor_id has invalid characters"
          else match unpackMid body (HEAD_SIZE + sidLen) with
            | .error e => .error e
            | .ok (boot, seq, total, chunkLen) =>
              let piece := body.drop (HEAD_SIZE + sidLen + MID_SIZE)
              if ¬ (1 ≤ total ∧ total ≤ MAX_RECORD_BYTES) ∨ chunkLen ≠ piece.length ∨
                  chunkLen > MAX_CHUNK_BYTES then
                malformed s!"bad lengths total={total} chunk={chunkLen}"
              else if fragments total ≠ count ∨ chunkLen ≠ expectedLength total idx then
                malformed "fragment geometry inconsistent with total length"
              else match decodeAsciiRaising sid, uuidOfBytes boot with
                | .error e, _ => .error e
                | .ok _, .error e => .error e
                | .ok sensorId, .ok bootId =>
                  .ok ⟨ftype, idx, count, sensorId, bootId, seq, total, piece⟩

theorem sid_ascii {sid : Bytes}
    (h : sid.any (fun b => Char.ofNat b.toNat ∉ sidAlphabet) = false) :
    ∀ b ∈ sid, b.toNat < 128 ∧ Char.ofNat b.toNat ∈ sidAlphabet := by
  intro b hb
  have hin : Char.ofNat b.toNat ∈ sidAlphabet := by
    have := List.any_eq_false.1 h b hb
    simpa using this
  have hlt := sidAlphabet_ascii hin
  have hval := toNat_ofNat_byte b
  exact ⟨by omega, hin⟩

/-- **No library call raises: every failure is a `FrameError`.** -/
theorem decodeRaising_eq (hmac : Hmac) (c : LinkCodec) (data : Bytes) :
    c.decodeRaising hmac data = (c.decode hmac data).mapError .frame := by
  unfold LinkCodec.decodeRaising LinkCodec.decode malformed
  simp only
  obtain ⟨body, hbody⟩ : ∃ b, b = data.take (data.length - HMAC_BYTES) := ⟨_, rfl⟩
  rw [← hbody]
  by_cases hn : data.length < MIN_FRAME ∨ data.length > MAX_DATAGRAM_BYTES
  · rw [if_pos hn, if_pos hn]; rfl
  rw [if_neg hn, if_neg hn]
  have hlen : HEAD_SIZE ≤ body.length := by
    rw [hbody, List.length_take]
    unfold MIN_FRAME HEAD_SIZE MID_SIZE HMAC_BYTES at *
    omega
  by_cases hmac' : c.mac hmac body ≠ data.drop (data.length - HMAC_BYTES)
  · rw [if_pos hmac', if_pos hmac']; rfl
  rw [if_neg hmac', if_neg hmac', unpackHead, if_neg (Nat.not_lt.2 hlen)]
  simp only
  by_cases h1 : slice body 0 4 ≠ MAGIC ∨ byteAt body 4 ≠ VERSION
  · rw [if_pos h1, if_pos h1]; rfl
  rw [if_neg h1, if_neg h1]
  by_cases h2 : ¬ (byteAt body 5 = TYPE_EVENT ∨ byteAt body 5 = TYPE_HEALTH)
  · rw [if_pos h2, if_pos h2]; rfl
  rw [if_neg h2, if_neg h2]
  by_cases h3 : ¬ (1 ≤ byteAt body 8 ∧ byteAt body 8 ≤ MAX_FRAGMENTS) ∨
      byteAt body 7 ≥ byteAt body 8
  · rw [if_pos h3, if_pos h3]; rfl
  rw [if_neg h3, if_neg h3]
  by_cases h4 : ¬ (1 ≤ byteAt body 9 ∧ byteAt body 9 ≤ 63) ∨
      body.length < HEAD_SIZE + byteAt body 9 + MID_SIZE
  · rw [if_pos h4, if_pos h4]; rfl
  rw [if_neg h4, if_neg h4]
  rw [not_or, Nat.not_lt] at h4
  by_cases h5 : (slice body HEAD_SIZE (byteAt body 9)).any
      (fun b => Char.ofNat b.toNat ∉ sidAlphabet) = true
  · rw [if_pos h5, if_pos h5]; rfl
  rw [if_neg h5, if_neg h5, unpackMid, if_neg (Nat.not_lt.2 h4.2)]
  simp only
  split
  · rfl
  split
  · rfl
  have hascii : (slice body HEAD_SIZE (byteAt body 9)).all
      (fun b => decide (b.toNat < 128)) = true := by
    rw [List.all_eq_true]
    exact fun b hb => decide_eq_true (sid_ascii (Bool.not_eq_true _ ▸ h5) b hb).1
  have hboot : (slice body (HEAD_SIZE + byteAt body 9) 16).length = 16 :=
    slice_length (by have := h4.2; unfold MID_SIZE at this; omega)
  rw [decodeAsciiRaising, if_pos hascii, uuidOfBytes, if_neg (by simp [hboot])]
  rfl

/-! ## The bytes of an accepted datagram -/

/-- A body with its MAC. -/
def signed (hmac : Hmac) (c : LinkCodec) (body : Bytes) : Bytes := body ++ c.mac hmac body

/-- The body a decoded frame stands for, given its flags byte and the bytes of its two ids. -/
def frameWith (f : Frame) (flags : UInt8) (sid boot : Bytes) : Bytes :=
  (MAGIC ++ be 1 VERSION ++ be 1 f.type ++ [flags] ++ be 1 f.fragIndex ++ be 1 f.fragCount ++
    be 1 sid.length) ++ (sid ++ ((boot ++ be 8 f.sequence ++ be 4 f.totalLength ++
    be 2 f.chunk.length) ++ f.chunk))

/-- What the checks of `decode` establish of the fields. -/
structure Canonical (f : Frame) (sid boot : Bytes) : Prop where
  type : f.type = TYPE_EVENT ∨ f.type = TYPE_HEALTH
  index : f.fragIndex < f.fragCount
  count : f.fragCount = fragments f.totalLength
  sensorId : SensorIdOk f.sensorId
  sidBytes : encodeAscii f.sensorId = some sid
  bootLength : boot.length = 16
  bootId : f.bootId = uuidStr boot
  sequence : f.sequence < 2 ^ 64
  total_pos : 1 ≤ f.totalLength
  total_le : f.totalLength ≤ MAX_RECORD_BYTES
  chunk : f.chunk.length = expectedLength f.totalLength f.fragIndex

theorem Canonical.ids_unique {f : Frame} {sid sid' boot boot' : Bytes} (h : Canonical f sid boot)
    (h' : Canonical f sid' boot') : sid = sid' ∧ boot = boot' := by
  refine ⟨Option.some.inj (h.sidBytes.symm.trans h'.sidBytes), ?_⟩
  exact uuidStr_injective h.bootLength h'.bootLength (h.bootId.symm.trans h'.bootId)

theorem slice_byteAt {data : Bytes} {k : Nat} (h : k < data.length) :
    slice data k 1 = be 1 (byteAt data k) := by
  have hb := (data.getD k 0).toNat_lt
  have hget : data.getD k 0 = data[k] := by
    rw [List.getD_eq_getElem?_getD, List.getElem?_eq_getElem h]
    rfl
  rw [slice, List.drop_eq_getElem_cons h, List.take_succ_cons, List.take_zero, be, be, Nat.pow_zero,
    Nat.div_one, byteAt, UInt8.ofNat_toNat, hget]

theorem encodeAscii_decodeAscii {bs : Bytes} (h : ∀ b ∈ bs, b.toNat < 128) :
    encodeAscii (decodeAscii bs) = some bs ∧
      (decodeAscii bs).toList = bs.map (fun b => Char.ofNat b.toNat) := by
  have hval : ∀ b ∈ bs, (Char.ofNat b.toNat).toNat = b.toNat := fun b _ => toNat_ofNat_byte b
  have hlist : (decodeAscii bs).toList = bs.map (fun b => Char.ofNat b.toNat) := by
    rw [decodeAscii, String.toList_ofList]
  refine ⟨?_, hlist⟩
  unfold encodeAscii
  rw [hlist, if_pos]
  · rw [List.map_map, Option.some.injEq]
    refine (List.map_congr_left (fun b hb => ?_)).trans (List.map_id bs)
    rw [Function.comp, hval b hb, UInt8.ofNat_toNat, id]
  · rw [List.all_eq_true]
    intro ch hch
    obtain ⟨b, hb, rfl⟩ := List.mem_map.1 hch
    rw [hval b hb]
    exact decide_eq_true (h b hb)

/-- A body with room for its fields is its fields put together. -/
theorem body_eq {body : Bytes} (h : HEAD_SIZE + byteAt body 9 + MID_SIZE ≤ body.length) :
    body = (slice body 0 4 ++ be 1 (byteAt body 4) ++ be 1 (byteAt body 5) ++
        [body.getD 6 0] ++ be 1 (byteAt body 7) ++ be 1 (byteAt body 8) ++
        be 1 (byteAt body 9)) ++
      (slice body HEAD_SIZE (byteAt body 9) ++
        ((slice body (HEAD_SIZE + byteAt body 9) 16 ++
          be 8 (ofBe (slice body (HEAD_SIZE + byteAt body 9 + 16) 8)) ++
          be 4 (ofBe (slice body (HEAD_SIZE + byteAt body 9 + 24) 4)) ++
          be 2 (ofBe (slice body (HEAD_SIZE + byteAt body 9 + 28) 2))) ++
        body.drop (HEAD_SIZE + byteAt body 9 + MID_SIZE))) := by
  obtain ⟨n, hn⟩ : ∃ n, n = byteAt body 9 := ⟨_, rfl⟩
  rw [← hn] at h ⊢
  unfold HEAD_SIZE MID_SIZE at h ⊢
  have hflags : [body.getD 6 0] = slice body 6 1 := by
    rw [slice_byteAt (by omega), byteAt, be, be, Nat.pow_zero, Nat.div_one, UInt8.ofNat_toNat]
  rw [be_ofBe (slice_length (by omega)), be_ofBe (slice_length (by omega)),
    be_ofBe (slice_length (by omega)), hflags, hn, ← slice_byteAt (by omega),
    ← slice_byteAt (by omega), ← slice_byteAt (by omega), ← slice_byteAt (by omega),
    ← slice_byteAt (by omega), ← hn]
  simp only [List.append_assoc]
  rw [← drop_eq_slice_append, ← drop_eq_slice_append body (10 + n + 24) 4,
    ← drop_eq_slice_append body (10 + n + 16) 8, ← drop_eq_slice_append body (10 + n) 16,
    ← drop_eq_slice_append body 10 n, ← drop_eq_slice_append body 9 1,
    ← drop_eq_slice_append body 8 1, ← drop_eq_slice_append body 7 1,
    ← drop_eq_slice_append body 6 1, ← drop_eq_slice_append body 5 1,
    ← drop_eq_slice_append body 4 1, ← drop_eq_slice_append body 0 4, List.drop_zero]

/-- **An accepted datagram is the signed body its fields stand for.** -/
theorem decode_ok {hmac : Hmac} {c : LinkCodec} {data : Bytes} {f : Frame}
    (h : c.decode hmac data = .ok f) :
    ∃ sid boot, Canonical f sid boot ∧
      data = signed hmac c (frameWith f (data.getD 6 0) sid boot) := by
  unfold LinkCodec.decode at h
  simp only at h
  obtain ⟨body, hbody⟩ : ∃ b, b = data.take (data.length - HMAC_BYTES) := ⟨_, rfl⟩
  rw [← hbody] at h
  by_cases hn : data.length < MIN_FRAME ∨ data.length > MAX_DATAGRAM_BYTES
  · rw [if_pos hn] at h; cases h
  rw [if_neg hn] at h
  by_cases hmac' : c.mac hmac body ≠ data.drop (data.length - HMAC_BYTES)
  · rw [if_pos hmac'] at h; cases h
  rw [if_neg hmac'] at h
  by_cases h1 : slice body 0 4 ≠ MAGIC ∨ byteAt body 4 ≠ VERSION
  · rw [if_pos h1] at h; cases h
  rw [if_neg h1] at h
  by_cases h2 : ¬ (byteAt body 5 = TYPE_EVENT ∨ byteAt body 5 = TYPE_HEALTH)
  · rw [if_pos h2] at h; cases h
  rw [if_neg h2] at h
  by_cases h3 : ¬ (1 ≤ byteAt body 8 ∧ byteAt body 8 ≤ MAX_FRAGMENTS) ∨
      byteAt body 7 ≥ byteAt body 8
  · rw [if_pos h3] at h; cases h
  rw [if_neg h3] at h
  by_cases h4 : ¬ (1 ≤ byteAt body 9 ∧ byteAt body 9 ≤ 63) ∨
      body.length < HEAD_SIZE + byteAt body 9 + MID_SIZE
  · rw [if_pos h4] at h; cases h
  rw [if_neg h4] at h
  obtain ⟨off, hoff⟩ : ∃ o, o = HEAD_SIZE + byteAt body 9 := ⟨_, rfl⟩
  obtain ⟨sid, hsid⟩ : ∃ s, s = slice body HEAD_SIZE (byteAt body 9) := ⟨_, rfl⟩
  obtain ⟨total, htotal⟩ : ∃ t, t = ofBe (slice body (off + 24) 4) := ⟨_, rfl⟩
  obtain ⟨chunkLen, hchunkLen⟩ : ∃ t, t = ofBe (slice body (off + 28) 2) := ⟨_, rfl⟩
  obtain ⟨piece, hpiece⟩ : ∃ t, t = body.drop (off + MID_SIZE) := ⟨_, rfl⟩
  rw [← hoff, ← hsid, ← htotal, ← hchunkLen, ← hpiece] at h
  by_cases h5 : sid.any (fun b => Char.ofNat b.toNat ∉ sidAlphabet) = true
  · rw [if_pos h5] at h; cases h
  rw [if_neg h5] at h
  by_cases h6 : ¬ (1 ≤ total ∧ total ≤ MAX_RECORD_BYTES) ∨ chunkLen ≠ piece.length ∨
      chunkLen > MAX_CHUNK_BYTES
  · rw [if_pos h6] at h; cases h
  rw [if_neg h6] at h
  by_cases h7 : fragments total ≠ byteAt body 8 ∨ chunkLen ≠ expectedLength total (byteAt body 7)
  · rw [if_pos h7] at h; cases h
  rw [if_neg h7] at h
  have hf := Except.ok.inj h
  simp only [not_or, Decidable.not_not, Nat.not_lt] at hmac' h1 h2 h3 h4 h6 h7
  have hroom := h4.2
  rw [← hoff] at hroom
  have hsidLen : sid.length = byteAt body 9 := by
    rw [hsid]
    exact slice_length (by unfold HEAD_SIZE MID_SIZE at *; omega)
  obtain ⟨hascii, hchars⟩ := encodeAscii_decodeAscii
    (fun b hb => (sid_ascii (Bool.not_eq_true _ ▸ h5) b hb).1)
  refine ⟨sid, slice body off 16, ?_, ?_⟩
  · subst hf
    refine
      { type := Decidable.or_iff_not_not_and_not.2 h2, index := by simpa using h3.2, count := h7.1.symm, sensorId := ?_, sidBytes := hascii,
        bootLength := slice_length (by unfold MID_SIZE at hroom; omega), bootId := rfl, sequence := ?_,
        total_pos := h6.1.1, total_le := h6.1.2, chunk := h6.2.1 ▸ h7.2 }
    · refine ⟨?_, ?_, ?_⟩
      · rw [hchars, List.length_map]; omega
      · rw [hchars, List.length_map]; omega
      · intro ch hch
        rw [hchars] at hch
        obtain ⟨b, hb, rfl⟩ := List.mem_map.1 hch
        exact (sid_ascii (Bool.not_eq_true _ ▸ h5) b hb).2
    · have := ofBe_lt (slice body (off + 16) 8)
      rw [slice_length (by unfold MID_SIZE at hroom; omega)] at this
      exact this
  · have hsplit : data = body ++ c.mac hmac body := by
      rw [hmac', hbody, List.take_append_drop]
    have hflags : data.getD 6 0 = body.getD 6 0 := by
      have h10 : 6 < body.length := by unfold HEAD_SIZE MID_SIZE at *; omega
      rw [hsplit, List.getD_eq_getElem?_getD,
        List.getElem?_append_left h10, ← List.getD_eq_getElem?_getD]
    have hbodyEq : body = frameWith f (data.getD 6 0) sid (slice body off 16) := by
      subst hf
      unfold frameWith
      rw [hflags, ← h1.1, ← h1.2, hsidLen, ← h6.2.1, hsid, hpiece, htotal, hchunkLen, hoff]
      exact body_eq h4.2
    rw [← hbodyEq]
    exact hsplit

/-! ## The flags byte -/

/-- A frame with its flags byte set to `flags` and its MAC computed again. -/
def reflag (hmac : Hmac) (c : LinkCodec) (flags : UInt8) (frame : Bytes) : Bytes :=
  signed hmac c ((frame.take (frame.length - HMAC_BYTES)).set 6 flags)

theorem signed_length (hmac : Hmac) (c : LinkCodec) (body : Bytes) :
    (signed hmac c body).length = body.length + HMAC_BYTES := by
  rw [signed, List.length_append, mac_length]

theorem signed_take (hmac : Hmac) (c : LinkCodec) {body : Bytes} {n : Nat}
    (h : body.length = n) : (signed hmac c body).take n = body := List.take_left' h

theorem signed_drop (hmac : Hmac) (c : LinkCodec) {body : Bytes} {n : Nat}
    (h : body.length = n) : (signed hmac c body).drop n = c.mac hmac body := List.drop_left' h

theorem reflag_signed (hmac : Hmac) (c : LinkCodec) (flags : UInt8) (body : Bytes) :
    reflag hmac c flags (signed hmac c body) = signed hmac c (body.set 6 flags) := by
  rw [reflag, signed_length, Nat.add_sub_cancel, signed_take hmac c rfl]

theorem byteAt_set {body : Bytes} {flags : UInt8} {k : Nat} (h : k ≠ 6) :
    byteAt (body.set 6 flags) k = byteAt body k := by
  unfold byteAt
  rw [List.getD_eq_getElem?_getD, List.getElem?_set_ne (Ne.symm h), ← List.getD_eq_getElem?_getD]

theorem drop_set {body : Bytes} {flags : UInt8} {off : Nat} (h : 6 < off) :
    (body.set 6 flags).drop off = body.drop off := List.drop_set_of_lt h

theorem slice_set {body : Bytes} {flags : UInt8} {off len : Nat} (h : 6 < off) :
    slice (body.set 6 flags) off len = slice body off len := by
  rw [slice, slice, drop_set h]

theorem slice_magic_set (body : Bytes) (flags : UInt8) :
    slice (body.set 6 flags) 0 4 = slice body 0 4 := by
  rw [slice, slice, List.drop_zero, List.drop_zero, List.take_set_of_le (by decide)]

/-- **The parser ignores the flags byte.** -/
theorem decode_set (hmac : Hmac) (c : LinkCodec) (flags : UInt8) (body : Bytes) :
    c.decode hmac (signed hmac c (body.set 6 flags)) = c.decode hmac (signed hmac c body) := by
  have hpos : ∀ n, 6 < HEAD_SIZE + n := fun n => by unfold HEAD_SIZE; omega
  unfold LinkCodec.decode
  simp only [signed_length, List.length_set, Nat.add_sub_cancel,
    signed_take hmac c (List.length_set ..), signed_drop hmac c (List.length_set ..),
    signed_take hmac c (rfl : body.length = _), signed_drop hmac c (rfl : body.length = _),
    slice_magic_set,
    byteAt_set (show 4 ≠ 6 by decide), byteAt_set (show 5 ≠ 6 by decide),
    byteAt_set (show 7 ≠ 6 by decide), byteAt_set (show 8 ≠ 6 by decide),
    byteAt_set (show 9 ≠ 6 by decide), slice_set (show 6 < HEAD_SIZE by decide), Nat.add_assoc,
    slice_set (hpos _), drop_set (hpos _), ne_eq, not_true_eq_false]

/-! ## The encoder's image -/

/-- `data` is, up to the flags byte and the MAC, frame `f.fragIndex` that `encode` makes of some
record under `f`'s type, sensor id and sequence and a boot id that reads as `f`'s. -/
def IsFrame (hmac : Hmac) (c : LinkCodec) (f : Frame) (data : Bytes) : Prop :=
  ∃ (bootId : String) (boot record : Bytes) (frames : List Bytes) (frame : Bytes) (flags : UInt8),
    (f.type = TYPE_EVENT ∨ f.type = TYPE_HEALTH) ∧ SensorIdOk f.sensorId ∧
    uuidParse bootId = some boot ∧ f.bootId = uuidStr boot ∧ f.sequence < 2 ^ 64 ∧
    1 ≤ record.length ∧ record.length ≤ MAX_RECORD_BYTES ∧
    c.encode hmac f.type f.sensorId bootId f.sequence record = .ok frames ∧
    frames[f.fragIndex]? = some frame ∧ data = reflag hmac c flags frame ∧
    f.fragCount = frames.length ∧ f.totalLength = record.length ∧
    f.chunk = chunk MAX_CHUNK_BYTES record f.fragIndex

theorem frameWith_set {f : Frame} {sid boot record : Bytes} (flags : UInt8)
    (hcount : f.fragCount = fragments record.length) (htotal : f.totalLength = record.length)
    (hchunk : f.chunk = chunk MAX_CHUNK_BYTES record f.fragIndex) :
    frameWith f flags sid boot =
      (frameBody f.type sid boot f.sequence record f.fragIndex).set 6 flags := by
  unfold frameWith frameBody
  rw [hcount, htotal, hchunk]
  rfl

/-- A record with a given chunk at a given place. -/
theorem exists_record {total idx : Nat} {data : Bytes} (hidx : idx < fragments total)
    (hlen : data.length = expectedLength total idx) :
    ∃ record : Bytes, record.length = total ∧ chunk MAX_CHUNK_BYTES record idx = data := by
  have hfit : idx * MAX_CHUNK_BYTES + data.length ≤ total ∧
      (data.length = MAX_CHUNK_BYTES ∨ idx * MAX_CHUNK_BYTES + data.length = total) := by
    rw [hlen]
    unfold expectedLength fragments MAX_CHUNK_BYTES at *
    split <;> omega
  refine ⟨List.replicate (idx * MAX_CHUNK_BYTES) 0 ++
    (data ++ List.replicate (total - idx * MAX_CHUNK_BYTES - data.length) 0), ?_, ?_⟩
  · simp only [List.length_append, List.length_replicate]
    omega
  · rw [chunk, slice, List.drop_left' (List.length_replicate ..)]
    rcases hfit.2 with h | h
    · exact List.take_left' h
    · rw [show total - idx * MAX_CHUNK_BYTES - data.length = 0 by omega, List.replicate_zero,
        List.append_nil]
      refine List.take_of_length_le ?_
      rw [hlen]
      exact expectedLength_le hidx

theorem hexBytes_length : ∀ {cs : List Char} {bs : Bytes}, hexBytes cs = some bs →
    cs.length = 2 * bs.length
  | [], bs, h => by cases h; rfl
  | [_], bs, h => by cases h
  | a :: b :: rest, bs, h => by
    rw [hexBytes] at h
    cases ha : hexValue a with
    | none => rw [ha] at h; cases h
    | some x =>
      cases hb : hexValue b with
      | none => rw [ha, hb] at h; cases h
      | some y =>
        cases hr : hexBytes rest with
        | none => rw [ha, hb, hr] at h; cases h
        | some tl =>
          rw [ha, hb, hr] at h
          cases h
          have := hexBytes_length hr
          simp only [List.length_cons]
          omega

theorem uuidParse_length {s : String} {boot : Bytes} (h : uuidParse s = some boot) :
    boot.length = 16 := by
  unfold uuidParse at h
  simp only at h
  split at h
  · cases h
  · rename_i hlen
    have := hexBytes_length h
    omega

/-- `encode` looks at the boot id only through its bytes. -/
theorem encode_uuid (hmac : Hmac) (c : LinkCodec) (ftype : Nat) (sensorId : String)
    (sequence : Nat) (record : Bytes) {bootId : String} {boot : Bytes}
    (h : uuidParse bootId = some boot) :
    c.encode hmac ftype sensorId bootId sequence record =
      c.encode hmac ftype sensorId (uuidStr boot) sequence record := by
  unfold LinkCodec.encode
  rw [h, uuidParse_uuidStr (uuidParse_length h)]

/-- What the encoder makes of a record with a canonical frame's chunk in its place. -/
theorem isFrame_of_canonical {hmac : Hmac} {c : LinkCodec} {f : Frame} {sid boot : Bytes}
    (h : Canonical f sid boot) (flags : UInt8) :
    IsFrame hmac c f (signed hmac c (frameWith f flags sid boot)) := by
  have hidx : f.fragIndex < fragments f.totalLength := h.count ▸ h.index
  obtain ⟨record, hlen, hchunk⟩ := exists_record hidx h.chunk
  have henc : Encodable f.type f.sensorId (uuidStr boot) f.sequence record :=
    ⟨h.type, h.sensorId, ⟨boot, h.bootLength, rfl⟩, h.sequence, hlen ▸ h.total_pos,
      hlen ▸ h.total_le⟩
  obtain ⟨sid', boot', hsid', _, hboot', huuid, hok⟩ := encode_ok hmac c henc
  have hsid : sid' = sid := Option.some.inj (hsid'.symm.trans h.sidBytes)
  have hboot : boot' = boot := uuidStr_injective hboot' h.bootLength huuid.symm
  subst hsid hboot
  refine ⟨uuidStr boot', boot', record, _,
    frameBytes hmac c f.type sid' boot' f.sequence record f.fragIndex, flags, h.type, h.sensorId,
    uuidParse_uuidStr hboot', h.bootId, h.sequence, henc.record_pos, henc.record_le, hok, ?_, ?_,
    ?_, hlen.symm, hchunk.symm⟩
  · rw [List.getElem?_map, List.getElem?_range (hlen ▸ hidx), Option.map_some]
  · rw [frameWith_set flags (hlen ▸ h.count) hlen.symm hchunk.symm]
    exact (reflag_signed hmac c flags _).symm
  · rw [List.length_map, List.length_range, hlen, h.count]

theorem decode_of_isFrame {hmac : Hmac} {c : LinkCodec} {f : Frame} {data : Bytes}
    (h : IsFrame hmac c f data) : c.decode hmac data = .ok f := by
  obtain ⟨bootId, boot, record, frames, frame, flags, htype, hsidOk, hparse, hboot, hseq, hpos,
    hle, hok, hget, hdata, hcount, htotal, hchunk⟩ := h
  have hlen := uuidParse_length hparse
  have henc : Encodable f.type f.sensorId (uuidStr boot) f.sequence record :=
    ⟨htype, hsidOk, ⟨boot, hlen, rfl⟩, hseq, hpos, hle⟩
  obtain ⟨sid, boot', hsid, _, hboot', huuid, hframes⟩ := encode_ok hmac c henc
  have hbb : boot' = boot := uuidStr_injective hboot' hlen huuid.symm
  subst hbb
  rw [encode_uuid hmac c _ _ _ _ hparse, hframes] at hok
  cases hok
  obtain ⟨hi, hframe⟩ := List.getElem?_eq_some_iff.1 hget
  rw [List.length_map, List.length_range] at hi hcount
  rw [List.getElem_map, List.getElem_range] at hframe
  have hbytes : frame =
      signed hmac c (frameBody f.type sid boot' f.sequence record f.fragIndex) := hframe.symm
  rw [hdata, hbytes, reflag_signed, decode_set]
  refine (decode_frame hmac c henc hsid hlen hi).trans ?_
  rw [← hboot, ← hcount, ← htotal, ← hchunk]

/-- **The frame parser accepts exactly the encoder's image.**  A datagram is decoded to `f` iff it
is, up to the flags byte and the MAC over it, frame `f.fragIndex` of an encoded record; two
datagrams decoded to the same fields with the same flags byte are equal; whatever else comes in
raises a `FrameError`. -/
theorem decode_exact (hmac : Hmac) (c : LinkCodec) :
    (∀ data f, c.decodeRaising hmac data = .ok f ↔ IsFrame hmac c f data) ∧
    (∀ data data' f, c.decodeRaising hmac data = .ok f → c.decodeRaising hmac data' = .ok f →
      data.getD 6 0 = data'.getD 6 0 → data = data') ∧
    (∀ data, (¬ ∃ f, IsFrame hmac c f data) →
      ∃ e, c.decodeRaising hmac data = .error (.frame e)) := by
  have hok : ∀ data f, c.decodeRaising hmac data = .ok f ↔ c.decode hmac data = .ok f := by
    intro data f
    rw [decodeRaising_eq]
    cases c.decode hmac data with
    | ok g => simp [Except.mapError]
    | error e => simp [Except.mapError]
  have hiff : ∀ data f, c.decodeRaising hmac data = .ok f ↔ IsFrame hmac c f data := by
    intro data f
    rw [hok]
    constructor
    · intro h
      obtain ⟨sid, boot, hcan, hdata⟩ := decode_ok h
      rw [hdata]
      exact isFrame_of_canonical hcan _
    · exact decode_of_isFrame
  refine ⟨hiff, ?_, ?_⟩
  · intro data data' f h h' hflags
    obtain ⟨sid, boot, hcan, hdata⟩ := decode_ok ((hok data f).1 h)
    obtain ⟨sid', boot', hcan', hdata'⟩ := decode_ok ((hok data' f).1 h')
    obtain ⟨rfl, rfl⟩ := hcan.ids_unique hcan'
    rw [hdata, hdata', hflags]
  · intro data hnot
    cases hd : c.decode hmac data with
    | ok f => exact absurd ⟨f, (hiff data f).1 ((hok data f).2 hd)⟩ hnot
    | error e => exact ⟨e, by rw [decodeRaising_eq, hd]; rfl⟩

end OTS.Link
