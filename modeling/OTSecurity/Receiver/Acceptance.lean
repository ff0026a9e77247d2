import OTSecurity.Receiver.Intake

/-!
# What is accepted

* `Known` — the invariant of one process: every spooled event has been recorded by its stream.

Principal results: `raw_at_most_once` — one process spools at most one event for each identity, and a
refused append changes nothing; `known_reach` — the invariant holds in every reachable state.
-/

namespace OTS.Receiver

open Function

/-! ## At most one event for each identity -/

/-- An identity of one of the given streams. -/
def Of (pairs : List (String × String)) (i : Identity) : Prop := i.Legit ∧ i.stream ∈ pairs

/-- The process has spooled the records `new` after the records `old` that it found: every event
among them has been recorded by its stream, and none is spooled twice. -/
structure Known (pairs : List (String × String)) (old new : List Entry) (M : String → List ℤ)
    (s : Intake) : Prop where
  window : WindowRefines s.dedup M
  within : Within (pairs.map streamName) s.dedup
  log : s.sys.log = old ++ new
  nodup : (rawIdentities new).Nodup
  recorded : ∀ i ∈ rawIdentities new,
    i.Legit ∧ (i.sequence : ℤ) ∈ M (streamKey i.sensorId i.bootId)

theorem rawIdentities_append (log : List Entry) (e : Entry) :
    rawIdentities (log ++ [e]) = rawIdentities log ++ (entryIdentity e).toList := by
  unfold rawIdentities
  rw [List.filterMap_append]
  cases h : entryIdentity e <;> simp [h]

theorem entryIdentity_raw {spool : Spool} {r : Rec} {i : Identity} (h : IsRaw r i) :
    entryIdentity (SpoolSys.appended spool r) = some i :=
  IsRaw.entryIdentity (e := SpoolSys.appended spool r) h

theorem entryIdentity_note {spool : Spool} {r : Rec} (h : IsNote r) :
    entryIdentity (SpoolSys.appended spool r) = none :=
  IsNote.entryIdentity (e := SpoolSys.appended spool r) h

variable {pairs : List (String × String)} {old new : List Entry} {M : String → List ℤ}
  {s s' : Intake}

theorem WindowRefines.old_iff {w : DedupWindow} (h : WindowRefines w M) (i : Identity) :
    w.Old i ↔ classify (M (streamKey i.sensorId i.bootId)) i.sequence = .duplicate ∨
      classify (M (streamKey i.sensorId i.bootId)) i.sequence = .stale := by
  unfold DedupWindow.Old DedupWindow.verdict
  rw [h.check]

theorem Of.name_mem {i : Identity} (h : Of pairs i) :
    streamKey i.sensorId i.bootId ∈ pairs.map streamName :=
  List.mem_map.2 ⟨_, h.2, rfl⟩

/-- Marking a sequence keeps what is recorded. -/
theorem Known.note (h : Known pairs old new M s) (hlen : pairs.length ≤ MAX_STREAMS) {i : Identity}
    (hi : Of pairs i) :
    Known pairs old new (update M (streamKey i.sensorId i.bootId)
      (record (M (streamKey i.sensorId i.bootId)) i.sequence)) { s with dedup := s.dedup.note i } := by
  obtain ⟨hw, hin⟩ := h.window.mark_room h.within (by simpa using hlen) hi.name_mem i.sequence
  refine ⟨hw, hin, h.log, h.nodup, ?_⟩
  intro j hj
  obtain ⟨hlegit, hmem⟩ := h.recorded j hj
  refine ⟨hlegit, ?_⟩
  by_cases hk : streamKey j.sensorId j.bootId = streamKey i.sensorId i.bootId
  · rw [hk, update_self]
    exact mem_record (hk ▸ hmem)
  · rw [update_of_ne hk]
    exact hmem

/-- **Every effect keeps the invariant.** -/
theorem Known.step (h : Known pairs old new M s) (hlen : pairs.length ≤ MAX_STREAMS)
    (he : Effect (Of pairs) s s') : ∃ new' M', Known pairs old new' M' s' := by
  cases he with
  | note hr ha =>
    rename_i r sys
    obtain ⟨spool, disk, _, rfl⟩ := ha
    have hnew : rawIdentities (new ++ [SpoolSys.appended spool r]) = rawIdentities new := by
      rw [rawIdentities_append, entryIdentity_note hr]
      exact List.append_nil _
    refine ⟨new ++ [SpoolSys.appended spool r], M, h.window, h.within, ?_, by rw [hnew]; exact h.nodup,
      by rw [hnew]; exact h.recorded⟩
    rw [h.log, List.append_assoc]
  | suppress hi _ => exact ⟨_, _, h.note hlen hi⟩
  | reject hi _ =>
    have hn := h.note hlen hi
    exact ⟨_, _, hn.window, hn.within, hn.log, hn.nodup, hn.recorded⟩
  | accept hi hnew hr ha =>
    rename_i i r sys
    obtain ⟨spool, disk, _, rfl⟩ := ha
    have hn := h.note hlen hi
    have hraw : rawIdentities (new ++ [SpoolSys.appended spool r]) = rawIdentities new ++ [i] := by
      rw [rawIdentities_append, entryIdentity_raw hr]
      rfl
    -- what is recorded is old, so a new identity has not been spooled
    have hout : i ∉ rawIdentities new := fun hmem =>
      hnew ((h.window.old_iff i).2 (classify_of_mem (h.recorded i hmem).2))
    refine ⟨new ++ [SpoolSys.appended spool r], _, hn.window, hn.within, ?_, ?_, ?_⟩
    · rw [h.log, List.append_assoc]
    · rw [hraw]
      exact List.Nodup.append h.nodup (List.nodup_singleton i) (by simpa using hout)
    · intro j hj
      rw [hraw] at hj
      rcases List.mem_append.1 hj with hj | hj
      · exact hn.recorded j hj
      · obtain rfl := List.mem_singleton.1 hj
        refine ⟨hi.1, ?_⟩
        rw [update_self, record_new (by
          rw [h.window.old_iff] at hnew
          exact not_or.1 hnew)]
        exact List.mem_append_right _ (List.mem_singleton.2 rfl)
  | sync => exact ⟨new, M, h.window, h.within, h.log, h.nodup, h.recorded⟩

/-- The process does not end, and every frame that is decoded names one of the given streams. -/
def OneProcess (hmac : Link.Hmac) (pairs : List (String × String)) (s : ReceiverSys) :
    ReceiverOp → Prop
  | .datagram data _ _ => ∀ f, s.core.codec.decode hmac data = .ok f → (f.sensorId, f.bootId) ∈ pairs
  | .housekeeping _ _ _ => True
  | .release _ => True
  | .crash _ _ _ _ => False

instance (hmac : Link.Hmac) (pairs : List (String × String)) (s : ReceiverSys) (op : ReceiverOp) :
    Decidable (OneProcess hmac pairs s op) :=
  match op with
  | .datagram data _ _ =>
    match h : s.core.codec.decode hmac data with
    | .ok f => decidable_of_iff (pairs.contains (f.sensorId, f.bootId) = true)
        ⟨fun hf _ hg => Except.ok.inj (h.symm.trans hg) ▸ List.contains_iff_mem.1 hf,
          fun hf => List.contains_iff_mem.2 (hf f h)⟩
    | .error _ => isTrue fun _ hf => nomatch h.symm.trans hf
  | .housekeeping _ _ _ => isTrue trivial
  | .release _ => isTrue trivial
  | .crash _ _ _ _ => isFalse not_false

theorem OneProcess.names {hmac : Link.Hmac} {s : ReceiverSys} {data : Bytes} {nowUs : Int}
    {clock : Nat → Reading} (h : OneProcess hmac pairs s (.datagram data nowUs clock)) :
    Names hmac s.core (Of pairs) data :=
  fun f hf => ⟨⟨(decode_legit hf).1, (decode_legit hf).2⟩, h f hf⟩

/-- The window that marking these identities leaves. -/
def marked (is : List Identity) : DedupWindow := is.foldl DedupWindow.note .init

/-- A process started on a spool, its window restored, as a machine. -/
def process (hmac : Link.Hmac) (rt : Runtime) (cfg : Config) (core : ReceiverCore)
    (snapshot : Option ReceiverCore.Snapshot) : Machine ReceiverSys ReceiverOp :=
  ⟨⟨core, snapshot⟩, ReceiverSys.step hmac rt cfg⟩

theorem known_marked (hlen : pairs.length ≤ MAX_STREAMS) (sys : SpoolSys) (rejected : List Identity)
    {is : List Identity} (his : ∀ i ∈ is, Of pairs i) :
    ∃ M, Known pairs sys.log [] M ⟨sys, marked is, rejected⟩ := by
  induction is using List.reverseRecOn with
  | nil =>
    exact ⟨fun _ => [], windowRefines_init, within_init _, (List.append_nil _).symm, List.nodup_nil,
      by rintro i ⟨⟩⟩
  | append_singleton is i ih =>
    obtain ⟨M, hk⟩ := ih fun j hj => his j (List.mem_append_left _ hj)
    have hn := hk.note hlen (his i (List.mem_append_right _ (List.mem_singleton.2 rfl)))
    have hm : marked (is ++ [i]) = (marked is).note i := List.foldl_append
    exact ⟨_, hm ▸ hn⟩

theorem known_reach {hmac : Link.Hmac} {rt : Runtime} {cfg : Config} {core : ReceiverCore}
    {snapshot : Option ReceiverCore.Snapshot} (hlen : pairs.length ≤ MAX_STREAMS)
    (hstart : ∃ new M, Known pairs old new M core.intake) {s : ReceiverSys}
    (h : (process hmac rt cfg core snapshot).Reach (OneProcess hmac pairs) s) :
    ∃ new M, Known pairs old new M s.core.intake := by
  have heffects : ∀ {a b : Intake}, Effects (Of pairs) a b → (∃ new M, Known pairs old new M a) →
      ∃ new M, Known pairs old new M b := fun he hM =>
    he.invariant (I := fun s => ∃ new M, Known pairs old new M s)
      (fun _ _ ⟨_, _, hk⟩ he => hk.step hlen he) hM
  refine h.invariant (I := fun s => ∃ new M, Known pairs old new M s.core.intake) hstart ?_
  intro s op s' hI hC hs
  cases op with
  | datagram data nowUs clock =>
    cases hs
    exact heffects (handleDatagram_effects hC.names) hI
  | housekeeping nowUs clock monotonic =>
    cases hs
    exact heffects housekeeping_effects hI
  | release acked =>
    cases hs
    obtain ⟨new, M, hk⟩ := hI
    exact ⟨new, M, hk.window, hk.within, hk.log, hk.nodup, hk.recorded⟩
  | crash call kept stable monotonic => exact hC.elim

/-! ### Refused appends -/

/-- Effects that name no identity spool no event and leave the window alone. -/
theorem Effects.quiet (h : Effects (fun _ => False) s s') :
    s'.dedup = s.dedup ∧ rawIdentities s'.sys.log = rawIdentities s.sys.log := by
  refine h.invariant (I := fun x => x.dedup = s.dedup ∧
    rawIdentities x.sys.log = rawIdentities s.sys.log) ?_ ⟨rfl, rfl⟩
  intro a b hI he
  cases he with
  | note hr ha =>
    obtain ⟨spool, disk, _, rfl⟩ := ha
    refine ⟨hI.1, ?_⟩
    show rawIdentities (a.sys.log ++ [SpoolSys.appended spool _]) = _
    rw [rawIdentities_append, entryIdentity_note hr]
    exact (List.append_nil _).trans hI.2
  | suppress hi => exact hi.elim
  | reject hi => exact hi.elim
  | accept hi => exact hi.elim
  | sync => exact hI

/-- An event that finds the spool full leaves the receiver as it was. -/
theorem event_spoolFull {rt : Runtime} {now : Reading} {core : ReceiverCore} {c : Link.Complete}
    (h : (core.event rt now c).2 = .spoolFull) :
    (core.event rt now c).1 = core ∧ ¬ core.dedup.Old (identity c) := by
  have hspec := event_spec (fun _ => True) rt now core c
  rw [h] at hspec
  generalize (core.event rt now c).1 = core' at hspec
  cases hspec with
  | rejected _ _ hfate => rcases hfate with hf | hf <;> cases hf
  | spoolFull hnew => exact ⟨rfl, hnew⟩

theorem handleDatagram_spoolFull {hmac : Link.Hmac} {rt : Runtime} {core : ReceiverCore}
    {data : Bytes} {nowUs : Int} {clock : Nat → Reading} {c : Link.Complete}
    (h : (core.handleDatagram hmac rt data nowUs clock).2.2 = some (c, .spoolFull)) :
    (core.handleDatagram hmac rt data nowUs clock).1.dedup = core.dedup ∧
    rawIdentities (core.handleDatagram hmac rt data nowUs clock).1.sys.log =
      rawIdentities core.sys.log ∧
    ¬ core.dedup.Old (identity c) := by
  unfold ReceiverCore.handleDatagram at h ⊢
  split at h
  · cases h
  · rename_i f hf
    split at h
    · cases h
    · rename_i a ha
      obtain ⟨_, _, he⟩ := quarantineAll_spec (P := fun _ => False) clock "reassembly limit reached"
        a.expired 0 { core with reassembler := a.reassembler }
      simp only at h ⊢
      split at h
      · cases h
      · rename_i core' hq
        rw [hq] at he
        split at h
        · cases h
        · rename_i c' hc
          split at h
          · cases h
          · rename_i htype
            simp only [Option.some.injEq, Prod.mk.injEq] at h
            obtain ⟨rfl, hfate⟩ := h
            obtain ⟨heq, hnew⟩ := event_spoolFull hfate
            obtain ⟨hd, hlog⟩ := he.quiet
            rw [if_neg htype]
            simp only [heq]
            have hd' : core'.dedup = core.dedup := hd
            exact ⟨hd', hlog, hd' ▸ hnew⟩

/-- **One process spools at most one event for each identity.**  For every spool that it finds, every
window that events of these streams leave, and every sequence of datagrams of at most `MAX_STREAMS`
streams, housekeeping and releases; and an append that is refused leaves no trace. -/
theorem raw_at_most_once (hmac : Link.Hmac) (rt : Runtime) (cfg : Config)
    (pairs : List (String × String)) (hlen : pairs.length ≤ MAX_STREAMS) (sys : SpoolSys)
    (is rejected : List Identity) (his : ∀ i ∈ is, Of pairs i) (monotonic : Rat)
    (snapshot : Option ReceiverCore.Snapshot) {s : ReceiverSys}
    (h : (process hmac rt cfg (.start cfg sys (marked is) monotonic rejected) snapshot).Reach
      (OneProcess hmac pairs) s) :
    (∃ new, s.core.sys.log = sys.log ++ new ∧ (rawIdentities new).Nodup) ∧
    (∀ r core', s.core.append r = some (false, core') → core' = s.core) ∧
    (∀ now c, (s.core.event rt now c).2 = .spoolFull →
      (s.core.event rt now c).1 = s.core ∧ ¬ s.core.dedup.Old (identity c)) ∧
    ∀ data nowUs clock c,
      (s.core.handleDatagram hmac rt data nowUs clock).2.2 = some (c, .spoolFull) →
      (s.core.handleDatagram hmac rt data nowUs clock).1.dedup = s.core.dedup ∧
      rawIdentities (s.core.handleDatagram hmac rt data nowUs clock).1.sys.log =
        rawIdentities s.core.sys.log ∧
      ¬ s.core.dedup.Old (identity c) := by
  obtain ⟨M, hstart⟩ := known_marked hlen sys rejected his
  obtain ⟨new, _, hk⟩ := known_reach hlen ⟨[], M, hstart⟩ h
  exact ⟨⟨new, hk.log, hk.nodup⟩, fun r core' hr => refused_append hr,
    fun now c hfull => event_spoolFull hfull,
    fun data nowUs clock c hfull => handleDatagram_spoolFull hfull⟩

/-- The one frame of an event record. -/
def wholeFrame (c : Link.Complete) : Link.Frame :=
  ⟨c.type, 0, 1, c.sensorId, c.bootId, c.sequence, c.record.length, c.record⟩

theorem handleDatagram_whole {hmac : Link.Hmac} {rt : Runtime} {core : ReceiverCore} {data : Bytes}
    {clock : Nat → Reading} {c : Link.Complete} (hdec : core.codec.decode hmac data = .ok (wholeFrame c))
    (htype : c.type ≠ Link.TYPE_HEALTH) :
    (core.handleDatagram hmac rt data c.receivedAtUs clock).1 = (core.event rt (clock 0) c).1 := by
  have hadd : core.reassembler.add (wholeFrame c) c.receivedAtUs =
      some ⟨core.reassembler, [], some c⟩ := rfl
  have hnone : core.quarantineAll clock "reassembly limit reached" 0 [] = (core, true) := rfl
  unfold ReceiverCore.handleDatagram
  simp only [hdec, hadd]
  rw [show ({ core with reassembler := core.reassembler } : ReceiverCore) = core from rfl, hnone]
  simp only [if_neg htype]
  rfl

/-! ## A sample run -/

def sampleConfig : Config where
  codec := ⟨List.replicate 32 0x6B, by decide⟩
  maxBytes := 1000000
  segmentBytes := 1000
  qRate := 200

def sampleBoot : String := "00000000-0000-4000-8000-000000000001"

/-- The identifiers of the sample events 0 and 1. -/
def sampleId (sequence : Nat) : String :=
  if sequence = 0 then "0905e4db-997e-551f-ba4c-5cc7144f8cd6"
  else "de87dc93-be39-597b-9c97-c36a736eff5f"

/-- The fields of a `weird` record that may be absent. -/
def sampleAbsent : List String :=
  ["uid", "src_ip", "src_port", "dst_ip", "dst_port", "addl", "notice", "peer", "source"]

def sampleObj (members : List (String × Json)) : Json := .obj (members.map fun m => (pyStr m.1, m.2))

/-- An event of which Zeek said the name only. -/
def sampleEvent (sequence : Nat) : Json :=
  let text := fun s => Json.str (pyStr s)
  sampleObj [("event_schema_version", text "1.0.0"), ("event_id", text (sampleId sequence)),
    ("sensor_id", text "ot-sensor-01"), ("sensor_boot_id", text sampleBoot),
    ("sequence", .int sequence), ("replay_run_id", .null), ("replay_time_offset_us", .int 0),
    ("log_type", text "weird"), ("event_time", text "2026-09-01T08:00:10Z"),
    ("sensor_emitted_at", text "2026-09-01T08:00:10Z"), ("receiver_received_at", .null),
    ("capture_mode", text "passive_live"), ("observation_coverage", text "both_directions"),
    ("original_record_sha256", .str (List.replicate 64 0x30)), ("original_record", .null),
    ("original_record_truncated", .bool true),
    ("availability", sampleObj (sampleAbsent.map fun k => (k, text "MISSING"))),
    ("availability_reasons", .obj []),
    ("payload", sampleObj (("name", text "truncated_header") ::
      sampleAbsent.map fun k => (k, .null)))]

/-- The record of a sample event, sent on 1 September 2026. -/
def sampleComplete (sequence : Nat) : Link.Complete :=
  ⟨Link.TYPE_EVENT, "ot-sensor-01", sampleBoot, sequence,
    ((sampleEvent sequence).dumpBytes).getD [], 1788249610000000⟩

/-- The datagram of a record that fits one. -/
def sampleDatagram (c : Link.Complete) : Bytes :=
  match sampleConfig.codec.encode hmacSha256 c.type c.sensorId c.bootId c.sequence c.record with
  | .ok (data :: _) => data
  | _ => []

def sampleClock (_ : Nat) : Reading := ⟨10, 1788249610000000⟩

def receives (sequence : Nat) : ReceiverOp :=
  .datagram (sampleDatagram (sampleComplete sequence)) 1788249610000000 sampleClock

def sampleIdentity (sequence : Nat) : Identity := ⟨"ot-sensor-01", sampleBoot, sequence⟩

theorem sampleIdentity_legit (q : Nat) : (sampleIdentity q).Legit :=
  ⟨(by decide : "ot-sensor-01" ≠ ""), [0, 0, 0, 0, 0, 0, 0x40, 0, 0x80, 0, 0, 0, 0, 0, 0, 1], rfl,
    (by decide : sampleBoot = uuidStr _)⟩

/-! ### What a sample event leaves in the spool -/

/-- What is spooled of a record that is a valid event. -/
def spooledRecord (rt : Runtime) (c : Link.Complete) : Option Rec :=
  match judge rt c with
  | .valid ev => rawRecord ev c
  | _ => none

def sampleRec (sequence : Nat) : Rec where
  topic := TOPIC_RAW
  key := (encodeUtf8 (pyStr (sampleId sequence))).getD []
  sensorId := "ot-sensor-01"
  bootId := sampleBoot
  sequence := sequence
  tsMs := 1788249610000
  value := (((sampleEvent sequence).setKey "receiver_received_at"
    (.str ((formatUs 1788249610000000).getD []))).dumpBytes).getD []

theorem sample_spooled : spooledRecord sampleRuntime (sampleComplete 0) = some (sampleRec 0) := by
  decide +kernel

theorem sample_length : (sampleComplete 0).record.length = 942 := by decide +kernel

/-- A record is spooled and marked, if there is room for it. -/
def spooledInto (core : ReceiverCore) (c : Link.Complete) (r : Rec) : ReceiverCore :=
  match core.append r with
  | some (true, core) => core.mark c
  | some (false, core) => core
  | none => core

theorem event_spooled {rt : Runtime} {core : ReceiverCore} {c : Link.Complete} {r : Rec}
    (now : Reading) (hnew : core.dedup.check c.sensorId c.bootId c.sequence = .new)
    (hr : spooledRecord rt c = some r) :
    (core.event rt now c).1 = spooledInto core c r := by
  unfold spooledRecord at hr
  unfold ReceiverCore.event spooledInto
  rw [hnew]
  split at hr
  · rename_i ev hj
    simp only [hj, hr]
    split <;> rename_i h <;> simp only [h]
  · cases hr

theorem sample_encodable : Link.Encodable (sampleComplete 0).type (sampleComplete 0).sensorId
    (sampleComplete 0).bootId (sampleComplete 0).sequence (sampleComplete 0).record where
  type := .inl rfl
  sensorId := show Link.SensorIdOk "ot-sensor-01" from .of_all (by decide) (by decide) (by decide)
  bootId := (sampleIdentity_legit 0).2
  sequence := by decide
  record_pos := by rw [sample_length]; decide
  record_le := by rw [sample_length]; decide

/-- The datagram of a record that fits one is its one frame. -/
theorem decode_sampleDatagram {c : Link.Complete}
    (hok : Link.Encodable c.type c.sensorId c.bootId c.sequence c.record)
    (hlen : c.record.length ≤ Link.MAX_CHUNK_BYTES) :
    sampleConfig.codec.decode hmacSha256 (sampleDatagram c) = .ok (wholeFrame c) := by
  have hpos := hok.record_pos
  have hcount : Link.fragments c.record.length = 1 := by
    unfold Link.fragments Link.MAX_CHUNK_BYTES at *
    omega
  obtain ⟨sid, boot, hsid, -, hboot, hbootId, henc⟩ := Link.encode_ok hmacSha256 sampleConfig.codec hok
  have hdata : sampleDatagram c = Link.frameBytes hmacSha256 sampleConfig.codec c.type sid boot
      c.sequence c.record 0 := by
    unfold sampleDatagram
    rw [henc, hcount]
    rfl
  have hchunk : chunk Link.MAX_CHUNK_BYTES c.record 0 = c.record := by
    unfold chunk slice
    rw [Nat.zero_mul, List.drop_zero, List.take_of_length_le hlen]
  have hdec := Link.decode_frame hmacSha256 sampleConfig.codec (i := 0) (hbootId ▸ hok) hsid hboot
    (by rw [hcount]; exact Nat.zero_lt_one)
  rw [hdata, hdec, hcount, hchunk, ← hbootId]
  rfl

theorem sample_decode : sampleConfig.codec.decode hmacSha256 (sampleDatagram (sampleComplete 0)) =
    .ok (wholeFrame (sampleComplete 0)) :=
  decode_sampleDatagram sample_encodable (by rw [sample_length]; decide)

/-- The receiver after the first sample event. -/
def sampleReceived (core : ReceiverCore) : ReceiverCore :=
  spooledInto core (sampleComplete 0) (sampleRec 0)

theorem handleDatagram_receives {core : ReceiverCore} (hcodec : core.codec = sampleConfig.codec)
    (hnew : core.dedup.check "ot-sensor-01" sampleBoot 0 = .new) :
    (core.handleDatagram hmacSha256 sampleRuntime (sampleDatagram (sampleComplete 0)) 1788249610000000
      sampleClock).1 = sampleReceived core := by
  have hdec := sample_decode
  rw [← hcodec] at hdec
  exact (@handleDatagram_whole hmacSha256 sampleRuntime core _ sampleClock _ hdec
    (by decide)).trans (event_spooled _ hnew sample_spooled)

theorem step_receives {s : ReceiverSys} (hcodec : s.core.codec = sampleConfig.codec)
    (hnew : s.core.dedup.check "ot-sensor-01" sampleBoot 0 = .new) :
    s.step hmacSha256 sampleRuntime sampleConfig (receives 0) =
      some { s with core := sampleReceived s.core } :=
  congrArg (fun core => (some { s with core := core } : Option ReceiverSys))
    (handleDatagram_receives hcodec hnew)

/-- The first sample event names its stream. -/
theorem sample_names {codec : Link.LinkCodec} (hcodec : codec = sampleConfig.codec) (f : Link.Frame)
    (hf : codec.decode hmacSha256 (sampleDatagram (sampleComplete 0)) = .ok f) :
    (f.sensorId, f.bootId) ∈ [("ot-sensor-01", sampleBoot)] := by
  rw [hcodec, sample_decode, Except.ok.injEq] at hf
  rw [← hf]
  exact List.mem_singleton_self _

/-- An event, a datagram that is none, and housekeeping. -/
theorem raw_at_most_once_sample : ∃ (s : ReceiverSys) (new : List Entry),
    (process hmacSha256 sampleRuntime sampleConfig (ReceiverSys.init sampleConfig).core none).Reach
      (OneProcess hmacSha256 [("ot-sensor-01", sampleBoot)]) s ∧
    rawIdentities s.core.sys.log = [sampleIdentity 0] ∧ s.core.sys.log = new ∧
    (rawIdentities new).Nodup := by
  obtain ⟨m, hm⟩ : ∃ m, m = process hmacSha256 sampleRuntime sampleConfig
    (ReceiverSys.init sampleConfig).core none := ⟨_, rfl⟩
  have hfirst : m.Reach (OneProcess hmacSha256 [("ot-sensor-01", sampleBoot)])
      ⟨sampleReceived (ReceiverSys.init sampleConfig).core, none⟩ := by
    rw [hm]
    refine .step (a := receives 0) .init ?_ ?_
    · exact sample_names rfl
    · exact step_receives (s := ⟨(ReceiverSys.init sampleConfig).core, none⟩) rfl rfl
  have hrun : (m.runMeeting (OneProcess hmacSha256 [("ot-sensor-01", sampleBoot)])
      ⟨sampleReceived (ReceiverSys.init sampleConfig).core, none⟩
      [.datagram [1, 2, 3] 1788249610000000 sampleClock,
        .housekeeping 1788249611000000 sampleClock 11]).any
        (fun s => rawIdentities s.core.sys.log = [sampleIdentity 0]) = true := by
    rw [hm]
    decide +kernel
  obtain ⟨s, hs, hlog⟩ := (Option.any_eq_true _ _).1 hrun
  have hreach := Machine.reach_runMeeting hfirst hs
  rw [hm] at hreach
  obtain ⟨⟨new, hnew, hnodup⟩, -⟩ := raw_at_most_once hmacSha256 sampleRuntime sampleConfig
    [("ot-sensor-01", sampleBoot)] (by decide) (.init 1000000 1000) [] [] (by rintro i ⟨⟩) 0 none hreach
  exact ⟨s, new, hreach, of_decide_eq_true hlog, hnew, hnodup⟩

end OTS.Receiver
