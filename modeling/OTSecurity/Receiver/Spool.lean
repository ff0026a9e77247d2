import Mathlib.Algebra.GroupWithZero.Nat
import Mathlib.Data.List.Sort
import OTSecurity.Lib.Bytes
import OTSecurity.Lib.Framed
import OTSecurity.Lib.ODict
import OTSecurity.Lib.SegmentLog
import OTSecurity.Lib.Uuid

/-!
# The receiver's spool

Model of `Spool` of `ingest/receiver/sih_receiver/spool.py`: segment files of length-prefixed
records with CRC32, refused at a byte limit, truncated after a torn tail on open.

* `Rec` — what `append` is given; `Entry` — a record as `read` returns it, with its positions.
* `Disk` — the segment files, and how many bytes of the newest one an `fsync` has covered; the
  older ones are covered whole, since a segment is synced before the next is opened.
* `Spool` — the fields of the object; its file handle is the newest segment of the disk.

Principal result: `parseBody_encodeBody`, a record is parsed from its own body.
-/

namespace OTS.Receiver

def TOPIC_RAW : Nat := 1
def TOPIC_INVALID : Nat := 2
def TOPIC_HEALTH : Nat := 3

def ZERO_UUID : Bytes := List.replicate 16 0

/-! ## Records -/

/-- One bit of the reflected CRC32 polynomial. -/
def crcBit (c : UInt32) : UInt32 := if c &&& 1 = 1 then (c >>> 1) ^^^ 0xEDB88320 else c >>> 1

def crcByte (c : UInt32) (b : UInt8) : UInt32 :=
  crcBit (crcBit (crcBit (crcBit (crcBit (crcBit (crcBit (crcBit (c ^^^ b.toUInt32))))))))

/-- `zlib.crc32`. -/
def crc32 (bs : Bytes) : UInt32 := bs.foldl crcByte 0xFFFFFFFF ^^^ 0xFFFFFFFF

structure Rec where
  topic : Nat
  key : Bytes
  sensorId : Option String
  bootId : Option String
  sequence : Int
  tsMs : Int
  value : Bytes
  deriving DecidableEq, Repr

abbrev Entry := Placed Rec

/-- The range of `struct`'s `q`. -/
def Int64 (v : Int) : Prop := -2 ^ 63 ≤ v ∧ v < 2 ^ 63

instance (v : Int) : Decidable (Int64 v) := inferInstanceAs (Decidable (_ ∧ _))

/-- The bytes of a body, its fields encoded. -/
def bodyBytes (topic : Nat) (key sid boot : Bytes) (sequence tsMs : Int) (value : Bytes) : Bytes :=
  be 1 topic ++ (be 2 key.length ++ (key ++ (be 1 sid.length ++ (sid ++ (boot ++
    (beSigned sequence ++ (beSigned tsMs ++ (be 4 value.length ++ value))))))))

/-- The body `append` builds; `none` when an encoder raises. -/
def encodeBody (r : Rec) : Option Bytes :=
  match encodeAscii (r.sensorId.getD "") with
  | none => none
  | some sid =>
    match (if r.bootId.getD "" = "" then some ZERO_UUID else uuidParse (r.bootId.getD "")) with
    | none => none
    | some boot =>
      if r.topic < 256 ∧ r.key.length < 65536 ∧ sid.length < 256 ∧ Int64 r.sequence ∧
          Int64 r.tsMs ∧ r.value.length < 2 ^ 32 then
        some (bodyBytes r.topic r.key sid boot r.sequence r.tsMs r.value)
      else none

/-- `u32 body_len | body | u32 crc32(body)`. -/
def encodeRec (r : Rec) : Option Bytes :=
  match encodeBody r with
  | none => none
  | some body => if body.length < 2 ^ 32 then some (frame crc32 body) else none

/-- `_parse_body`; `none` when it raises. -/
def parseBody (body : Bytes) (start stop : Position) : Option Entry :=
  if body.length < 3 then none
  else
    let topic := ofBe (slice body 0 1)
    let klen := ofBe (slice body 1 2)
    let key := slice body 3 klen
    match body[3 + klen]? with
    | none => none
    | some slen =>
      let sid := slice body (3 + klen + 1) slen.toNat
      let off := 3 + klen + 1 + slen.toNat
      let boot := slice body off 16
      let value := slice body (off + 36) (ofBe (slice body (off + 32) 4))
      if ¬ sid.all (fun b => b.toNat < 128) then none
      else if body.length < off + 36 then none
      else some ⟨⟨topic, key, if slen = 0 then none else some (decodeAscii sid),
        if slen = 0 then none else some (uuidStr boot), ofBeSigned (slice body (off + 16) 8),
        ofBeSigned (slice body (off + 24) 8), value⟩, start, stop⟩

/-- What the callers pass: the identity of an event, as the link codec gives it, or none. -/
def Rec.Identified (r : Rec) : Prop :=
  r.sensorId = none ∧ r.bootId = none ∨
    ∃ s b, r.sensorId = some s ∧ s ≠ "" ∧ r.bootId = some b ∧ IsUuid b

/-- Where the fields of a body lie: each is read off the front of what the fields before it leave. -/
theorem body_fields {topic : Nat} {key sid boot : Bytes} {sequence tsMs : Int} {value body : Bytes}
    (hbody : body = bodyBytes topic key sid boot sequence tsMs value) (hboot : boot.length = 16) :
    let off := 3 + key.length + 1 + sid.length
    slice body 0 1 = be 1 topic ∧ slice body 1 2 = be 2 key.length ∧
      slice body 3 key.length = key ∧ body[3 + key.length]? = some (UInt8.ofNat sid.length) ∧
      slice body (3 + key.length + 1) sid.length = sid ∧ slice body off 16 = boot ∧
      slice body (off + 16) 8 = beSigned sequence ∧ slice body (off + 24) 8 = beSigned tsMs ∧
      slice body (off + 32) 4 = be 4 value.length ∧ slice body (off + 36) value.length = value ∧
      off + 36 ≤ body.length := by
  dsimp only
  have d0 : body.drop 0 = bodyBytes topic key sid boot sequence tsMs value := hbody
  have d1 := drop_of_drop d0 (be_length 1 topic)
  have d3 := drop_of_drop d1 (be_length 2 key.length)
  have dl := drop_of_drop d3 rfl
  have ds := drop_of_drop dl (be_length 1 sid.length)
  have db := drop_of_drop ds rfl
  have dq := drop_of_drop db hboot
  have dt := drop_of_drop dq (beSigned_length sequence)
  have dv := drop_of_drop dt (beSigned_length tsMs)
  have de := drop_of_drop dv (be_length 4 value.length)
  refine ⟨slice_of_drop d0 (be_length 1 topic), slice_of_drop d1 (be_length 2 _),
    slice_of_drop d3 rfl, ?_, slice_of_drop ds rfl, slice_of_drop db hboot,
    slice_of_drop dq (beSigned_length _), slice_of_drop dt (beSigned_length _),
    slice_of_drop dv (be_length 4 _), slice_of_drop (de.trans (List.append_nil value).symm) rfl, ?_⟩
  · have hhead := congrArg List.head? dl
    simpa [List.head?_drop, be] using hhead
  · rw [hbody]
    simp [bodyBytes, hboot]
    omega

theorem parseBody_bodyBytes {topic : Nat} {key sid boot : Bytes} {sequence tsMs : Int}
    {value : Bytes} (htopic : topic < 256) (hkey : key.length < 65536) (hsid : sid.length < 256)
    (hascii : ∀ b ∈ sid, b.toNat < 128) (hboot : boot.length = 16) (hseq : Int64 sequence)
    (hts : Int64 tsMs) (hvalue : value.length < 2 ^ 32) (start stop : Position) :
    parseBody (bodyBytes topic key sid boot sequence tsMs value) start stop =
      some ⟨⟨topic, key, if sid = [] then none else some (decodeAscii sid),
        if sid = [] then none else some (uuidStr boot), sequence, tsMs, value⟩, start, stop⟩ := by
  obtain ⟨h1, h2, h3, h4, h5, h6, h7, h8, h9, h10, h11⟩ :=
    @body_fields topic key sid boot sequence tsMs value _ rfl hboot
  have hklen : ofBe (be 2 key.length) = key.length := ofBe_be hkey
  have hslen : (UInt8.ofNat sid.length).toNat = sid.length := by simpa using hsid
  have hzero : UInt8.ofNat sid.length = 0 ↔ sid = [] := by
    rw [← UInt8.toNat_inj, hslen]
    simp
  have htop : ofBe (be 1 topic) = topic := ofBe_be htopic
  have hvlen : ofBe (be 4 value.length) = value.length := ofBe_be hvalue
  simp only [parseBody, h1, h2, htop, hklen, h3, h4, hslen, h5, h6, h7, h8, h9, hvlen, h10,
    ofBeSigned_beSigned hseq.1 hseq.2, ofBeSigned_beSigned hts.1 hts.2, hzero]
  rw [if_neg (by omega), if_neg (by simpa using hascii), if_neg (by omega)]

/-- **A record is parsed from its own body.** -/
theorem parseBody_encodeBody {r : Rec} {body : Bytes} (hid : r.Identified)
    (h : encodeBody r = some body) (start stop : Position) :
    parseBody body start stop = some ⟨r, start, stop⟩ := by
  obtain ⟨topic, key, sensorId, bootId, sequence, tsMs, value⟩ := r
  simp only [encodeBody] at h
  split at h
  · cases h
  · rename_i sid hsid
    obtain ⟨hsidEq, hascii⟩ := encodeAscii_eq hsid
    have hbytes : ∀ b ∈ sid, b.toNat < 128 := by
      intro b hb
      rw [hsidEq] at hb
      obtain ⟨c, hc, rfl⟩ := List.mem_map.1 hb
      have := hascii c hc
      simp only [UInt8.toNat_ofNat']
      omega
    split at h
    · cases h
    · rename_i boot hboot
      split at h
      · rename_i hrange
        obtain ⟨h1, h2, h3, h4, h5, h6⟩ := hrange
        obtain rfl := Option.some.inj h
        rcases hid with ⟨rfl, rfl⟩ | ⟨s, b, rfl, hs, rfl, u, hu, rfl⟩
        · obtain rfl : sid = [] := by simpa using hsidEq
          obtain rfl : ZERO_UUID = boot := by simpa using hboot
          exact parseBody_bodyBytes h1 h2 h3 hbytes rfl h4 h5 h6 start stop
        · have hne : uuidStr u ≠ "" := by
            intro he
            have := congrArg (fun s => s.toList.length) he
            simp [uuidStr, uuidChars] at this
          obtain rfl : u = boot := by
            simpa [hne, uuidParse_uuidStr hu] using hboot
          have hsidNe : sid ≠ [] := by
            rintro rfl
            refine hs (String.toList_inj.1 ?_)
            simpa using hsidEq.symm
          have hdec : decodeAscii sid = s := by
            rw [hsidEq]
            exact decodeAscii_encode hascii
          rw [parseBody_bodyBytes h1 h2 h3 hbytes hu h4 h5 h6 start stop, if_neg hsidNe, if_neg hsidNe,
            hdec]
      · cases h

/-! ## The directory and the spool -/

/-- The segment files by number, and the bytes of the newest that an `fsync` has covered. -/
structure Disk where
  files : ODict Nat Bytes
  durable : Nat

def Disk.data (d : Disk) (seg : Nat) : Bytes := (d.files.get? seg).getD []

structure Spool where
  maxBytes : Nat
  segmentBytes : Nat
  sizes : ODict Nat Nat
  active : Nat
  total : Nat
  dirty : Bool
  synced : Position

namespace Spool

/-- `self._sizes[self._active]`. -/
def activeSize (s : Spool) : Nat := (s.sizes.get? s.active).getD 0

/-- `end`; a name of its own, since `end` is a keyword. -/
def endPosition (s : Spool) : Position := ⟨s.active, s.activeSize⟩

def syncedEnd (s : Spool) : Position := s.synced

def firstPosition (s : Spool) : Position := ⟨s.sizes.keys.min?.getD 0, 0⟩

/-- `_open_segment`: the segment written so far is synced, the next created. -/
def openSegment (s : Spool) (d : Disk) (seg : Nat) : Spool × Disk :=
  ({ s with
      active := seg
      sizes := if seg ∈ s.sizes.keys then s.sizes else s.sizes.set seg 0 },
    { files := if seg ∈ d.files.keys then d.files else d.files.set seg []
      durable := 0 })

/-- `__init__`: the sizes of the segments found, the newest cut back to its whole records. Only
the cut is synced. -/
def «open» (maxBytes segmentBytes : Nat) (d : Disk) : Spool × Disk :=
  match d.files.keys.max? with
  | none =>
    ({ maxBytes, segmentBytes, sizes := ODict.empty.set 0 0, active := 0, total := 0, dirty := false,
       synced := ⟨0, 0⟩ },
     { files := ODict.empty.set 0 [], durable := 0 })
  | some active =>
    let data := d.data active
    let valid := validPrefix crc32 data
    let sizes := (d.files.mapVals List.length).set active valid
    ({ maxBytes, segmentBytes, sizes, active, total := (sizes.entries.map (·.2)).sum, dirty := false,
       synced := ⟨active, valid⟩ },
     if valid < data.length then ⟨d.files.set active (data.take valid), valid⟩ else d)

/-- The bytes of a record written to the newest segment. -/
def writeRecord (s : Spool) (d : Disk) (rec : Bytes) : Spool × Disk :=
  ({ s with
      sizes := s.sizes.set s.active (s.activeSize + rec.length)
      total := s.total + rec.length
      dirty := true },
    { d with files := d.files.set s.active (d.data s.active ++ rec) })

/-- Appending one record: whether it was accepted; `none` when the encoding raises, before
anything is written. -/
def append (s : Spool) (d : Disk) (r : Rec) : Option (Bool × Spool × Disk) :=
  match encodeRec r with
  | none => none
  | some rec =>
    if s.total + rec.length > s.maxBytes then some (false, s, d)
    else if s.activeSize > 0 ∧ s.activeSize + rec.length > s.segmentBytes then
      let sd := s.openSegment d (s.active + 1)
      some (true, sd.1.writeRecord sd.2 rec)
    else some (true, s.writeRecord d rec)

/-- Group commit: `fsync` only when something was appended since the last. -/
def sync (s : Spool) (d : Disk) : Spool × Disk :=
  ({ s with dirty := false, synced := s.endPosition },
    if s.dirty then { d with durable := (d.data s.active).length } else d)

/-- The inner loop of `read`, over one segment, for at most `n` records: the entries and the
offset reached. -/
def readSegment (data : Bytes) (seg segEnd : Nat) : Nat → Nat → Option (List Entry × Nat)
  | 0, off => some ([], off)
  | n + 1, off =>
    if off < segEnd then
      match readFrame crc32 data off with
      | none => none
      | some (body, stop) =>
        match parseBody body ⟨seg, off⟩ ⟨seg, stop⟩ with
        | none => none
        | some e =>
          match readSegment data seg segEnd n stop with
          | none => none
          | some (es, off') => some (e :: es, off')
    else some ([], off)

/-- The outer loop of `read`, one round a step of fuel, for at most `n` more records. -/
def readLoop (s : Spool) (d : Disk) (limit : Position) :
    Nat → Position → Nat → Option (List Entry)
  | 0, _, _ => none
  | fuel + 1, p, n =>
    if n = 0 ∨ ¬ p < limit then some []
    else
      let later := (s.sizes.keys.filter (p.seg < ·)).min?
      match s.sizes.get? p.seg with
      | none =>
        match later with
        | none => some []
        | some seg => readLoop s d limit fuel ⟨seg, 0⟩ n
      | some size =>
        let segEnd := if p.seg = limit.seg then limit.off else size
        if p.off ≥ segEnd then
          match later with
          | none => some []
          | some seg =>
            if p.seg ≥ limit.seg then some [] else readLoop s d limit fuel ⟨seg, 0⟩ n
        else
          match d.files.get? p.seg with
          | none => none
          | some data =>
            match readSegment data p.seg segEnd n p.off with
            | none => none
            | some (es, off) =>
              match readLoop s d limit fuel ⟨p.seg, off⟩ (n - es.length) with
              | none => none
              | some rest => some (es ++ rest)

/-- `read(start, limit, max_entries)`. Every segment takes at most a round to read it and one to
leave it. -/
def read (s : Spool) (d : Disk) (start limit : Position) (maxEntries : Nat) :
    Option (List Entry) :=
  readLoop s d limit (2 * s.sizes.length + 1) start maxEntries

/-- The loop of `release`, over the segments in order. -/
def releaseLoop (acked : Position) : List Nat → Spool × Disk → Spool × Disk
  | [], sd => sd
  | seg :: segs, (s, d) =>
    if seg ≥ acked.seg ∨ seg = s.active then (s, d)
    else
      releaseLoop acked segs
        ({ s with sizes := s.sizes.erase seg, total := s.total - (s.sizes.get? seg).getD 0 },
          { d with files := d.files.erase seg })

def release (s : Spool) (d : Disk) (acked : Position) : Spool × Disk :=
  releaseLoop acked (s.sizes.keys.insertionSort (· ≤ ·)) (s, d)

end Spool
end OTS.Receiver
