import OTSecurity.Lib.Bytes
import OTSecurity.Lib.Uuid

/-!
# One-way link frames

Model of `LinkCodec` of `lib/sih_common/linkframe.py`.

* `LinkCodec.encode` — a record cut into chunks of `MAX_CHUNK_BYTES`, one datagram a chunk; the
  failures are the exceptions the code raises, in the order it checks.
* `LinkCodec.decode` — the receiver's checks in order, each with its reason code and message.

The MAC is a parameter: any function of key and bytes with 32 bytes of output.

Principal results: `encode_ok` — which frames a valid record is encoded to;
`frame_le_datagram` — no frame exceeds a datagram; `decode_frame` — every frame is decoded to
exactly its fields.
-/

namespace OTS.Link

def MAGIC : Bytes := [0x53, 0x49, 0x48, 0x31]
def VERSION : Nat := 1
def TYPE_EVENT : Nat := 1
def TYPE_HEALTH : Nat := 2
def MAX_DATAGRAM_BYTES : Nat := 1400
def MAX_CHUNK_BYTES : Nat := 1200
def MAX_RECORD_BYTES : Nat := 9600
def MAX_FRAGMENTS : Nat := 8
def HMAC_BYTES : Nat := 32

/-- `struct.calcsize(">4sBBBBBB")`. -/
def HEAD_SIZE : Nat := 10

/-- `struct.calcsize(">16sQIH")`. -/
def MID_SIZE : Nat := 30

def MIN_FRAME : Nat := HEAD_SIZE + 1 + MID_SIZE + HMAC_BYTES

/-- The characters of `_SID_OK`. -/
def sidAlphabet : List Char :=
  ['a', 'b', 'c', 'd', 'e', 'f', 'g', 'h', 'i', 'j', 'k', 'l', 'm', 'n', 'o', 'p', 'q', 'r', 's',
    't', 'u', 'v', 'w', 'x', 'y', 'z', '0', '1', '2', '3', '4', '5', '6', '7', '8', '9', '-']

/-- Rejected frame: reason code and message. -/
structure FrameError where
  reason : String
  message : String
  deriving DecidableEq, Repr

inductive EncodeError where
  | recordTooLarge (message : String)
  | valueError (message : String)
  | unicodeEncodeError
  | structError
  deriving DecidableEq, Repr

structure Frame where
  type : Nat
  fragIndex : Nat
  fragCount : Nat
  sensorId : String
  bootId : String
  sequence : Nat
  totalLength : Nat
  chunk : Bytes
  deriving DecidableEq, Repr

/-- HMAC-SHA256 as a function of key and data. -/
abbrev Hmac := Bytes → Bytes → Vector UInt8 32

/-- A codec holds a key of at least 16 bytes; the constructor refuses a shorter one. -/
structure LinkCodec where
  key : Bytes
  key_length : 16 ≤ key.length

def LinkCodec.mac (hmac : Hmac) (c : LinkCodec) (data : Bytes) : Bytes := (hmac c.key data).toList

/-- `-(-n // MAX_CHUNK_BYTES)`. -/
def fragments (n : Nat) : Nat := (n + (MAX_CHUNK_BYTES - 1)) / MAX_CHUNK_BYTES

/-- The frame of fragment `i`, before its MAC. -/
def frameBody (ftype : Nat) (sid boot : Bytes) (sequence : Nat) (record : Bytes) (i : Nat) :
    Bytes :=
  let data := chunk MAX_CHUNK_BYTES record i
  (MAGIC ++ be 1 VERSION ++ be 1 ftype ++ be 1 0 ++ be 1 i ++ be 1 (fragments record.length) ++
    be 1 sid.length) ++ (sid ++ ((boot ++ be 8 sequence ++ be 4 record.length ++
    be 2 data.length) ++ data))

def frameBytes (hmac : Hmac) (c : LinkCodec) (ftype : Nat) (sid boot : Bytes) (sequence : Nat)
    (record : Bytes) (i : Nat) : Bytes :=
  frameBody ftype sid boot sequence record i ++
    c.mac hmac (frameBody ftype sid boot sequence record i)

def LinkCodec.encode (hmac : Hmac) (c : LinkCodec) (ftype : Nat) (sensorId bootId : String)
    (sequence : Nat) (record : Bytes) : Except EncodeError (List Bytes) :=
  if record.length > MAX_RECORD_BYTES then
    .error (.recordTooLarge s!"record {record.length} bytes exceeds {MAX_RECORD_BYTES}")
  else if record = [] then .error (.valueError "empty record")
  else match encodeAscii sensorId with
    | none => .error .unicodeEncodeError
    | some sid =>
      if ¬ (1 ≤ sid.length ∧ sid.length ≤ 63) then
        .error (.valueError "sensor_id length must be 1..63")
      else match uuidParse bootId with
        | none => .error (.valueError "badly formed hexadecimal UUID string")
        | some boot =>
          if ftype ≥ 256 ∨ sequence ≥ 2 ^ 64 then .error .structError
          else .ok ((List.range (fragments record.length)).map
            (frameBytes hmac c ftype sid boot sequence record))

def byteAt (data : Bytes) (i : Nat) : Nat := (data.getD i 0).toNat

/-- The length the geometry wants of fragment `idx` of a record of `total` bytes. -/
def expectedLength (total idx : Nat) : Nat :=
  if idx + 1 < fragments total then MAX_CHUNK_BYTES
  else total - (fragments total - 1) * MAX_CHUNK_BYTES

def LinkCodec.decode (hmac : Hmac) (c : LinkCodec) (data : Bytes) : Except FrameError Frame :=
  let n := data.length
  let body := data.take (n - HMAC_BYTES)
  let ftype := byteAt body 5
  let idx := byteAt body 7
  let count := byteAt body 8
  let sidLen := byteAt body 9
  let sid := slice body HEAD_SIZE sidLen
  let off := HEAD_SIZE + sidLen
  let total := ofBe (slice body (off + 24) 4)
  let chunkLen := ofBe (slice body (off + 28) 2)
  let piece := body.drop (off + MID_SIZE)
  if n < MIN_FRAME ∨ n > MAX_DATAGRAM_BYTES then
    .error ⟨"frame_malformed", s!"datagram length {n} outside bounds"⟩
  else if c.mac hmac body ≠ data.drop (n - HMAC_BYTES) then
    .error ⟨"frame_hmac_invalid", "HMAC mismatch"⟩
  else if slice body 0 4 ≠ MAGIC ∨ byteAt body 4 ≠ VERSION then
    .error ⟨"frame_malformed", "bad magic or version"⟩
  else if ¬ (ftype = TYPE_EVENT ∨ ftype = TYPE_HEALTH) then
    .error ⟨"frame_malformed", s!"unknown frame type {ftype}"⟩
  else if ¬ (1 ≤ count ∧ count ≤ MAX_FRAGMENTS) ∨ idx ≥ count then
    .error ⟨"frame_malformed", s!"bad fragment {idx}/{count}"⟩
  else if ¬ (1 ≤ sidLen ∧ sidLen ≤ 63) ∨ body.length < HEAD_SIZE + sidLen + MID_SIZE then
    .error ⟨"frame_malformed", "bad sensor_id length"⟩
  else if sid.any (fun b => Char.ofNat b.toNat ∉ sidAlphabet) then
    .error ⟨"frame_malformed", "sensor_id has invalid characters"⟩
  else if ¬ (1 ≤ total ∧ total ≤ MAX_RECORD_BYTES) ∨ chunkLen ≠ piece.length ∨
      chunkLen > MAX_CHUNK_BYTES then
    .error ⟨"frame_malformed", s!"bad lengths total={total} chunk={chunkLen}"⟩
  else if fragments total ≠ count ∨ chunkLen ≠ expectedLength total idx then
    .error ⟨"frame_malformed", "fragment geometry inconsistent with total length"⟩
  else .ok ⟨ftype, idx, count, decodeAscii sid, uuidStr (slice body off 16),
    ofBe (slice body (off + 16) 8), total, piece⟩

/-! ## Sensor identifiers -/

/-- A sensor id the decoder accepts: 1 to 63 characters of its alphabet. -/
structure SensorIdOk (s : String) : Prop where
  pos : 1 ≤ s.toList.length
  le : s.toList.length ≤ 63
  chars : ∀ c ∈ s.toList, c ∈ sidAlphabet

theorem SensorIdOk.of_all {s : String} (hpos : 1 ≤ s.toList.length) (hle : s.toList.length ≤ 63)
    (hall : s.toList.all (· ∈ sidAlphabet) = true) : SensorIdOk s :=
  ⟨hpos, hle, fun c hc => of_decide_eq_true (List.all_eq_true.1 hall c hc)⟩

theorem sidAlphabet_ascii {c : Char} (h : c ∈ sidAlphabet) : c.toNat < 128 := by
  have hall : sidAlphabet.all (fun c => decide (c.toNat < 128)) = true := by decide
  exact of_decide_eq_true (List.all_eq_true.1 hall c h)

theorem encodeAscii_ok {s : String} (h : SensorIdOk s) :
    encodeAscii s = some (s.toList.map (fun c => UInt8.ofNat c.toNat)) := by
  unfold encodeAscii
  rw [if_pos]
  simp only [List.all_eq_true, decide_eq_true_eq]
  exact fun c hc => sidAlphabet_ascii (h.chars c hc)

/-! ## Fragment geometry -/

theorem fragments_bounds {n : Nat} (h1 : 1 ≤ n) (h2 : n ≤ MAX_RECORD_BYTES) :
    1 ≤ fragments n ∧ fragments n ≤ MAX_FRAGMENTS := by
  unfold fragments MAX_FRAGMENTS MAX_RECORD_BYTES MAX_CHUNK_BYTES at *
  omega

theorem chunk_length {record : Bytes} {i : Nat} (hi : i < fragments record.length) :
    (chunk MAX_CHUNK_BYTES record i).length = expectedLength record.length i := by
  have hc : (chunk MAX_CHUNK_BYTES record i).length =
      min MAX_CHUNK_BYTES (record.length - i * MAX_CHUNK_BYTES) := by
    simp [chunk, slice]
  rw [hc]
  unfold expectedLength fragments MAX_CHUNK_BYTES at *
  split <;> omega

theorem expectedLength_le {total idx : Nat} (hi : idx < fragments total) :
    expectedLength total idx ≤ MAX_CHUNK_BYTES := by
  unfold expectedLength fragments MAX_CHUNK_BYTES at *
  split <;> omega

/-- The fragments put together are the record. -/
theorem flatten_fragments (record : Bytes) :
    ((List.range (fragments record.length)).map (chunk MAX_CHUNK_BYTES record)).flatten =
      record := by
  rw [flatten_chunks, List.take_of_length_le]
  unfold fragments MAX_CHUNK_BYTES
  omega

/-! ## Frames -/

theorem mac_length (hmac : Hmac) (c : LinkCodec) (data : Bytes) :
    (c.mac hmac data).length = HMAC_BYTES := by
  simp [LinkCodec.mac, HMAC_BYTES]

theorem frameBody_length (ftype : Nat) {sid boot : Bytes} (hboot : boot.length = 16)
    (sequence : Nat) (record : Bytes) (i : Nat) :
    (frameBody ftype sid boot sequence record i).length =
      HEAD_SIZE + sid.length + MID_SIZE + (chunk MAX_CHUNK_BYTES record i).length := by
  simp only [frameBody, List.length_append, be_length, MAGIC, List.length_cons, List.length_nil,
    hboot, HEAD_SIZE, MID_SIZE]
  omega

/-- **No frame exceeds a datagram.** -/
theorem frame_le_datagram (hmac : Hmac) (c : LinkCodec) (ftype : Nat) {sid boot : Bytes}
    (hboot : boot.length = 16) (hsid : sid.length ≤ 63) (sequence : Nat) {record : Bytes} {i : Nat}
    (hi : i < fragments record.length) :
    (frameBytes hmac c ftype sid boot sequence record i).length ≤ MAX_DATAGRAM_BYTES := by
  have := expectedLength_le hi
  rw [frameBytes, List.length_append, mac_length, frameBody_length _ hboot, chunk_length hi]
  unfold HEAD_SIZE MID_SIZE HMAC_BYTES MAX_DATAGRAM_BYTES MAX_CHUNK_BYTES at *
  omega

/-- The arguments of `encode` for which every check passes. -/
structure Encodable (ftype : Nat) (sensorId bootId : String) (sequence : Nat) (record : Bytes) :
    Prop where
  type : ftype = TYPE_EVENT ∨ ftype = TYPE_HEALTH
  sensorId : SensorIdOk sensorId
  bootId : IsUuid bootId
  sequence : sequence < 2 ^ 64
  record_pos : 1 ≤ record.length
  record_le : record.length ≤ MAX_RECORD_BYTES

/-- The frames of an encodable record: one for each chunk. -/
theorem encode_ok (hmac : Hmac) (c : LinkCodec) {ftype sequence : Nat} {sensorId bootId : String}
    {record : Bytes} (h : Encodable ftype sensorId bootId sequence record) :
    ∃ sid boot, encodeAscii sensorId = some sid ∧ sid.length = sensorId.toList.length ∧
      boot.length = 16 ∧ bootId = uuidStr boot ∧
      c.encode hmac ftype sensorId bootId sequence record =
        .ok ((List.range (fragments record.length)).map
          (frameBytes hmac c ftype sid boot sequence record)) := by
  obtain ⟨boot, hboot, rfl⟩ := h.bootId
  have hsid := encodeAscii_ok h.sensorId
  have hlen : (sensorId.toList.map (fun c => UInt8.ofNat c.toNat)).length =
      sensorId.toList.length := List.length_map ..
  refine ⟨_, boot, hsid, hlen, hboot, rfl, ?_⟩
  have h1 := h.sensorId.pos
  have h2 := h.sensorId.le
  have hne : record ≠ [] := fun e => by have := h.record_pos; simp [e] at this
  have hft : ftype < 256 := by
    rcases h.type with rfl | rfl
    · decide
    · decide
  have hseq := h.sequence
  have hle := h.record_le
  unfold LinkCodec.encode
  rw [if_neg (by omega), if_neg hne, hsid]
  simp only [hlen]
  rw [if_neg (by omega), uuidParse_uuidStr hboot]
  simp only
  rw [if_neg (by omega)]

theorem slice_left {data a b : Bytes} {off len : Nat} (h : data = a ++ b)
    (hb : off + len ≤ a.length) : slice data off len = slice a off len := by
  subst h
  unfold slice
  rw [List.drop_append_of_le_length (by omega), List.take_append_of_le_length (by simp; omega)]

/-- **Every frame is decoded, under the same key, to exactly its fields.** -/
theorem decode_frame (hmac : Hmac) (c : LinkCodec) {ftype sequence : Nat} {sensorId : String}
    {sid boot record : Bytes} {i : Nat}
    (h : Encodable ftype sensorId (uuidStr boot) sequence record)
    (hsid : encodeAscii sensorId = some sid) (hboot : boot.length = 16)
    (hi : i < fragments record.length) :
    c.decode hmac (frameBytes hmac c ftype sid boot sequence record i) =
      .ok ⟨ftype, i, fragments record.length, sensorId, uuidStr boot, sequence, record.length,
        chunk MAX_CHUNK_BYTES record i⟩ := by
  obtain ⟨data, hdata⟩ : ∃ d, d = chunk MAX_CHUNK_BYTES record i := ⟨_, rfl⟩
  obtain ⟨body, hbody⟩ : ∃ b, b = frameBody ftype sid boot sequence record i := ⟨_, rfl⟩
  have hsidEq := encodeAscii_ok h.sensorId
  rw [hsid, Option.some.injEq] at hsidEq
  have hsidLen : sid.length = sensorId.toList.length := by rw [hsidEq, List.length_map]
  have hs1 := h.sensorId.pos
  have hs2 := h.sensorId.le
  have hfrag := fragments_bounds h.record_pos h.record_le
  have hdlen : data.length = expectedLength record.length i := by rw [hdata]; exact chunk_length hi
  have hdle := expectedLength_le hi
  have hblen : body.length = HEAD_SIZE + sid.length + MID_SIZE + data.length := by
    rw [hbody, frameBody_length _ hboot, hdata]
  have hrec := h.record_le
  have hrec1 := h.record_pos
  have hseq := h.sequence
  have hft : ftype < 256 := by rcases h.type with rfl | rfl <;> decide
  -- the frame, split at its body and then at the fields of the body
  have hframe : frameBytes hmac c ftype sid boot sequence record i = body ++ c.mac hmac body := by
    rw [hbody]; rfl
  obtain ⟨head, hhead⟩ : ∃ hd, hd = MAGIC ++ be 1 VERSION ++ be 1 ftype ++ be 1 0 ++ be 1 i ++
      be 1 (fragments record.length) ++ be 1 sid.length := ⟨_, rfl⟩
  have hheadLen : head.length = 10 := by rw [hhead]; simp [MAGIC]
  have hsplit : body = head ++ (sid ++ ((boot ++ be 8 sequence ++ be 4 record.length ++
      be 2 data.length) ++ data)) := by rw [hbody, hhead, hdata]; rfl
  have hbyte : ∀ k < 10, byteAt body k = byteAt head k := fun k hk => by
    unfold byteAt
    rw [hsplit, List.getD_eq_getElem?_getD, List.getElem?_append_left (by omega),
      ← List.getD_eq_getElem?_getD]
  have hone : ∀ v, v < 256 → be 1 v = [UInt8.ofNat v] := fun v _ => by simp [be]
  have hval : ∀ v, v < 256 → (UInt8.ofNat v).toNat = v := fun v hv => by simp; omega
  have hhead' : head = [0x53, 0x49, 0x48, 0x31, 1, UInt8.ofNat ftype, 0, UInt8.ofNat i,
      UInt8.ofNat (fragments record.length), UInt8.ofNat sid.length] := by
    rw [hhead]; simp [be, MAGIC, VERSION]
  have f4 : byteAt body 4 = VERSION := by rw [hbyte 4 (by omega), hhead']; rfl
  have f5 : byteAt body 5 = ftype := by
    rw [hbyte 5 (by omega), hhead']; exact hval _ hft
  have f7 : byteAt body 7 = i := by
    rw [hbyte 7 (by omega), hhead']; exact hval _ (by unfold MAX_FRAGMENTS at hfrag; omega)
  have f8 : byteAt body 8 = fragments record.length := by
    rw [hbyte 8 (by omega), hhead']; exact hval _ (by unfold MAX_FRAGMENTS at hfrag; omega)
  have f9 : byteAt body 9 = sid.length := by
    rw [hbyte 9 (by omega), hhead']; exact hval _ (by omega)
  have fmagic : slice body 0 4 = MAGIC := by
    rw [slice_left hsplit (by omega), hhead']; rfl
  have fsid : slice body HEAD_SIZE sid.length = sid :=
    slice_of_eq hsplit hheadLen.symm rfl
  have fboot : slice body (HEAD_SIZE + sid.length) 16 = boot :=
    slice_of_eq (a := head ++ sid) (c := be 8 sequence ++ be 4 record.length ++ be 2 data.length ++
      data) (by rw [hsplit]; simp only [List.append_assoc])
      (by rw [List.length_append, hheadLen]; rfl) hboot.symm
  have fseq : ofBe (slice body (HEAD_SIZE + sid.length + 16) 8) = sequence := by
    rw [slice_of_eq (a := head ++ sid ++ boot) (b := be 8 sequence)
      (c := be 4 record.length ++ be 2 data.length ++ data)
      (by rw [hsplit]; simp only [List.append_assoc])
      (by simp only [List.length_append, hheadLen, hboot]; rfl) (be_length 8 _).symm]
    exact ofBe_be (by omega)
  have ftotal : ofBe (slice body (HEAD_SIZE + sid.length + 24) 4) = record.length := by
    rw [slice_of_eq (a := head ++ sid ++ boot ++ be 8 sequence) (b := be 4 record.length)
      (c := be 2 data.length ++ data)
      (by rw [hsplit]; simp only [List.append_assoc])
      (by simp only [List.length_append, hheadLen, hboot, be_length]; rfl) (be_length 4 _).symm]
    exact ofBe_be (by unfold MAX_RECORD_BYTES at hrec; omega)
  have fchunkLen : ofBe (slice body (HEAD_SIZE + sid.length + 28) 2) = data.length := by
    rw [slice_of_eq (a := head ++ sid ++ boot ++ be 8 sequence ++ be 4 record.length)
      (b := be 2 data.length) (c := data)
      (by rw [hsplit]; simp only [List.append_assoc])
      (by simp only [List.length_append, hheadLen, hboot, be_length]; rfl) (be_length 2 _).symm]
    exact ofBe_be (by unfold MAX_CHUNK_BYTES at hdle; omega)
  have fpiece : body.drop (HEAD_SIZE + sid.length + MID_SIZE) = data :=
    drop_of_eq (a := head ++ sid ++ (boot ++ be 8 sequence ++ be 4 record.length ++
      be 2 data.length)) (by rw [hsplit]; simp only [List.append_assoc])
      (by simp only [List.length_append, hheadLen, hboot, be_length]; rfl)
  have hchars : sid.any (fun b => Char.ofNat b.toNat ∉ sidAlphabet) = false := by
    rw [List.any_eq_false]
    intro b hb
    rw [hsidEq] at hb
    obtain ⟨ch, hch, rfl⟩ := List.mem_map.1 hb
    have hm := h.sensorId.chars ch hch
    rw [char_ofNat_byte (sidAlphabet_ascii hm)]
    simpa using hm
  have hn : (body ++ c.mac hmac body).length - HMAC_BYTES = body.length := by
    rw [List.length_append, mac_length]; omega
  have htake : (body ++ c.mac hmac body).take body.length = body := List.take_left ..
  have hdrop : (body ++ c.mac hmac body).drop body.length = c.mac hmac body := List.drop_left ..
  have hdatagram := frame_le_datagram hmac c ftype hboot (by omega : sid.length ≤ 63) sequence hi
  rw [hframe] at hdatagram ⊢
  have hmin : ¬ ((body ++ c.mac hmac body).length < MIN_FRAME ∨
      (body ++ c.mac hmac body).length > MAX_DATAGRAM_BYTES) := by
    rw [not_or]
    refine ⟨?_, by omega⟩
    rw [List.length_append, mac_length, hblen]
    unfold MIN_FRAME HEAD_SIZE MID_SIZE
    omega
  unfold LinkCodec.decode
  simp only [hn, htake, hdrop, f4, f5, f7, f8, f9, fmagic, fsid, fboot, fseq, ftotal, fchunkLen,
    fpiece, hchars]
  rw [if_neg hmin, if_neg (by simp), if_neg (by simp), if_neg (by simp [h.type]),
    if_neg (by omega), if_neg (by omega), if_neg (by simp), if_neg (by omega), if_neg (by omega),
    ← hdata, hsidEq, decodeAscii_encode (fun ch hch => sidAlphabet_ascii (h.sensorId.chars ch hch))]

end OTS.Link
