import OTSecurity.Link.Parsing
import OTSecurity.Receiver.Restart
import OTSecurity.Receiver.Verdicts

/-!
# Datagrams that are no frames

What the receiver accepts, beside an ideal receiver that has no quarantine and no byte limit and that
takes no notice of a datagram `decode` rejects.

* `Ideal`, `Ideal.step` — the ideal receiver.
* `Unbroken` — the process goes on and its clocks read times of the calendar; `Roomy` — no event is
  refused for want of space.
* `Injected` — a run with further datagrams that are no frames, and with releases of its own.

Principal results: `run_ideal` — a receiver that refuses no event accepts what the ideal one does;
`injected_keeps_accepted` — so injected datagrams change nothing of that; `injected_displaces` — they
do when the spool is full.
-/

namespace OTS.Receiver

/-! ## The ideal receiver -/

/-- The records of the events in a log. -/
def rawRecords (log : List Entry) : List Rec := (log.map (·.record)).filter (·.topic = TOPIC_RAW)

/-- What the acceptance of events depends on, and what has been accepted. -/
structure Ideal where
  codec : Link.LinkCodec
  reassembler : Link.Reassembler
  dedup : DedupWindow
  healthSeen : ODict String Nat
  accepted : List Rec

namespace Ideal

variable (v : Ideal)

def mark (c : Link.Complete) : Ideal := { v with dedup := v.dedup.note (identity c) }

/-- An event that can be written at all is accepted. -/
def event (rt : Runtime) (c : Link.Complete) : Ideal :=
  if v.dedup.Old (identity c) then v.mark c
  else match judge rt c with
    | .raises => v
    | .rejected _ _ => v.mark c
    | .valid ev =>
      match rawRecord ev c with
      | none => v
      | some r =>
        if (encodeRec r).isSome then { v.mark c with accepted := v.accepted ++ [r] } else v

def health (c : Link.Complete) : Ideal :=
  let key := streamKey c.sensorId c.bootId
  if ((v.healthSeen.get? key).elim (-1) fun n => (n : Int)) ≥ c.sequence then v
  else { v with healthSeen := v.healthSeen.set key c.sequence }

def datagram (hmac : Link.Hmac) (rt : Runtime) (data : Bytes) (nowUs : Int) : Ideal :=
  match v.codec.decode hmac data with
  | .error _ => v
  | .ok f =>
    match v.reassembler.add f nowUs with
    | none => v
    | some a =>
      let v := { v with reassembler := a.reassembler }
      match a.complete with
      | none => v
      | some c => if c.type = Link.TYPE_HEALTH then v.health c else v.event rt c

/-- Neither a release nor the end of a process is seen here. -/
def step (hmac : Link.Hmac) (rt : Runtime) (v : Ideal) : ReceiverOp → Ideal
  | .datagram data nowUs _ => v.datagram hmac rt data nowUs
  | .housekeeping nowUs _ _ => { v with reassembler := (v.reassembler.expire nowUs).2 }
  | .release _ => v
  | .crash _ _ _ _ => v

end Ideal

def ReceiverCore.ideal (core : ReceiverCore) : Ideal :=
  ⟨core.codec, core.reassembler, core.dedup, core.healthSeen, rawRecords core.sys.log⟩

/-! ## Runs -/

/-- The process goes on, and its clocks read times of the calendar. -/
def Unbroken : ReceiverOp → Prop
  | .datagram _ _ clock => ∀ i, (formatUs (clock i).wallUs).isSome
  | .housekeeping _ _ _ => True
  | .release _ => True
  | .crash _ _ _ _ => False

/-- No event is refused because the spool is at its byte limit. -/
def Roomy (hmac : Link.Hmac) (rt : Runtime) (s : ReceiverSys) : ReceiverOp → Prop
  | .datagram data nowUs clock =>
    ∀ c, (s.core.handleDatagram hmac rt data nowUs clock).2.2 ≠ some (c, .spoolFull)
  | _ => True

/-- The second run is the first with datagrams inserted that `decode` rejects; what the publisher
releases is named by the positions of each run. -/
inductive Injected (hmac : Link.Hmac) (codec : Link.LinkCodec) :
    List ReceiverOp → List ReceiverOp → Prop where
  | nil : Injected hmac codec [] []
  | same (op : ReceiverOp) {ops ops' : List ReceiverOp} (h : Injected hmac codec ops ops') :
    Injected hmac codec (op :: ops) (op :: ops')
  | release (acked acked' : Position) {ops ops' : List ReceiverOp} (h : Injected hmac codec ops ops') :
    Injected hmac codec (.release acked :: ops) (.release acked' :: ops')
  | insert {data : Bytes} {e : Link.FrameError} (hbad : codec.decode hmac data = .error e)
    (nowUs : Int) (clock : Nat → Reading) {ops ops' : List ReceiverOp}
    (h : Injected hmac codec ops ops') :
    Injected hmac codec ops (.datagram data nowUs clock :: ops')

variable {hmac : Link.Hmac} {rt : Runtime} {cfg : Config} {core core' : ReceiverCore}

/-! ## What quarantine leaves alone -/

theorem rawRecords_append (log : List Entry) (e : Entry) : rawRecords (log ++ [e]) =
    rawRecords log ++ if e.record.topic = TOPIC_RAW then [e.record] else [] := by
  unfold rawRecords
  rw [List.map_append, List.filter_append, List.map_singleton]
  by_cases h : e.record.topic = TOPIC_RAW <;> simp [h]

theorem append_ideal {r : Rec} {b : Bool} (hr : r.topic ≠ TOPIC_RAW)
    (h : core.append r = some (b, core')) : core'.ideal = core.ideal := by
  cases b with
  | false => rw [refused_append h]
  | true =>
    obtain ⟨sys, ⟨spool, disk, -, rfl⟩, rfl⟩ := append_accepted h
    simp only [ReceiverCore.ideal, rawRecords_append, SpoolSys.appended, if_neg hr, List.append_nil]

theorem quarantine_ideal (core : ReceiverCore) (now : Reading) (reason : String) (detail : PyStr)
    (sensorId bootId : Option String) (seq : Option Nat) (raw : Option Bytes) :
    (core.quarantine now reason detail sensorId bootId seq raw).1.ideal = core.ideal := by
  unfold ReceiverCore.quarantine
  simp only
  split
  · rfl
  · split
    · rfl
    · rename_i r hr
      split
      · rfl
      · rename_i b core' ha
        have hsame := append_ideal (invalidEntry_note hr).topic ha
        exact hsame

theorem quarantineAll_ideal (clock : Nat → Reading) (detail : String) (xs : List Link.Expired) :
    ∀ (i : Nat) (core : ReceiverCore),
      (ReceiverCore.quarantineAll clock detail i core xs).1.ideal = core.ideal := by
  induction xs with
  | nil => exact fun _ _ => rfl
  | cons x xs ih =>
    intro i core
    have hq := quarantine_ideal core (clock i) x.reason (pyStr detail) x.sensorId x.bootId x.sequence
      none
    unfold ReceiverCore.quarantineAll
    split
    · rename_i core' h
      rw [h] at hq
      exact hq
    · rename_i core' h
      rw [h] at hq
      exact (ih (i + 1) core').trans hq

/-! ## Records -/

/-- **An event that is not refused is treated as by the ideal receiver.** -/
theorem event_ideal (now : Reading) (c : Link.Complete) (hroom : (core.event rt now c).2 ≠ .spoolFull) :
    (core.event rt now c).1.ideal = core.ideal.event rt c := by
  unfold Ideal.event
  by_cases hold : core.ideal.dedup.Old (identity c)
  · rw [if_pos hold]
    unfold ReceiverCore.event
    split
    · rfl
    · rfl
    · rename_i h1 h2
      exact (hold.elim h1 h2).elim
  rw [if_neg hold]
  unfold ReceiverCore.event at hroom ⊢
  split
  · rename_i h
    exact absurd (.inl h) hold
  · rename_i h
    exact absurd (.inr h) hold
  rename_i h1 h2
  simp only at hroom
  cases hj : judge rt c with
  | raises => rfl
  | rejected reason detail =>
    have hq := quarantine_ideal { core.mark c with rejected := core.rejected ++ [identity c] } now
      reason detail (some c.sensorId) (some c.bootId) (some c.sequence) (some c.record)
    simp only
    split
    · rename_i core' h
      rw [h] at hq
      exact hq
    · rename_i core' h
      rw [h] at hq
      exact hq
  | valid ev =>
    rw [hj] at hroom
    simp only at hroom ⊢
    cases hr : rawRecord ev c with
    | none => rfl
    | some r =>
      rw [hr] at hroom
      simp only at hroom ⊢
      have hwritten := append_isSome core (r := r)
      cases ha : core.append r with
      | none =>
        rw [ha] at hwritten
        rw [if_neg (mt hwritten.2 Bool.false_ne_true)]
      | some p =>
        obtain ⟨b, core'⟩ := p
        rw [ha] at hwritten hroom
        rw [if_pos (hwritten.1 rfl)]
        cases b with
        | false => exact absurd rfl hroom
        | true =>
          obtain ⟨sys, ⟨spool, disk, -, rfl⟩, rfl⟩ := append_accepted ha
          have hraw : r.topic = TOPIC_RAW := (rawRecord_isRaw hr).topic
          simp only [ReceiverCore.ideal, ReceiverCore.mark, Ideal.mark, rawRecords_append,
            SpoolSys.appended, if_pos hraw]
          rfl

theorem health_ideal (now : Reading) (c : Link.Complete) :
    (core.health rt now c).1.ideal = core.ideal.health c := by
  have hq := fun reason detail => quarantine_ideal { core with
    healthSeen := core.healthSeen.set (streamKey c.sensorId c.bootId) c.sequence } now reason detail
    (some c.sensorId) (some c.bootId) (some c.sequence) (some c.record)
  unfold ReceiverCore.health
  simp only
  split
  · rename_i hold
    exact (if_pos hold).symm
  rename_i hnew
  rw [show core.ideal.health c = { core.ideal with
    healthSeen := core.healthSeen.set (streamKey c.sensorId c.bootId) c.sequence } from if_neg hnew]
  split
  · rfl
  · exact hq ..
  split
  · rfl
  · exact hq ..
  split
  · exact hq ..
  split
  · split
    · rfl
    · rename_i ha
      have hsame := append_ideal (show TOPIC_HEALTH ≠ TOPIC_RAW by decide) ha
      exact hsame
  · rfl

/-! ## Incomplete records -/

/-- The incomplete records are named as `decode` names frames. -/
def Keyed (r : Link.Reassembler) : Prop :=
  ∀ k ∈ r.pending.keys, IsUuid k.2.2.1 ∧ k.2.2.2 < 2 ^ 64

theorem keyed_empty (maxPending : Nat) (timeoutUs : Int) : Keyed ⟨maxPending, timeoutUs, .empty⟩ :=
  fun _ h => nomatch h

theorem mem_keys_erase {d : ODict Link.Key Link.Pending} {k j : Link.Key} (h : j ∈ (d.erase k).keys) :
    j ∈ d.keys := by
  obtain ⟨e, he, rfl⟩ := List.mem_map.1 h
  exact List.mem_map_of_mem (List.mem_of_mem_filter he)

theorem mem_keys_drop {d : ODict Link.Key Link.Pending} {n : Nat} {j : Link.Key}
    (h : j ∈ (d.drop n).keys) : j ∈ d.keys := by
  obtain ⟨e, he, rfl⟩ := List.mem_map.1 h
  exact List.mem_map_of_mem (List.mem_of_mem_drop he)

theorem store_keys {pending : ODict Link.Key Link.Pending} {p : Link.Pending} {f : Link.Frame}
    {nowUs : Int} {k : Link.Key} (h : k ∈ (Link.store pending p f nowUs).1.keys) :
    k = f.key ∨ k ∈ pending.keys := by
  unfold Link.store at h
  simp only at h
  split at h
  · exact ODict.mem_keys_set.1 h
  · exact .inr (mem_keys_erase h)

theorem decode_key {codec : Link.LinkCodec} {data : Bytes} {f : Link.Frame}
    (h : codec.decode hmac data = .ok f) : IsUuid f.bootId ∧ f.sequence < 2 ^ 64 := by
  obtain ⟨sid, boot, hframe⟩ := Link.decode_ok h
  exact ⟨(decode_legit h).2, hframe.1.sequence⟩

/-- What an entry that is given up is reported with. -/
def Reported (x : Link.Expired) : Prop := Quoted x.bootId x.sequence none ∧ x.reason.length ≤ 64

theorem reported_expired {reason : String} {k : Link.Key} (hk : IsUuid k.2.2.1 ∧ k.2.2.2 < 2 ^ 64)
    (hreason : reason.length ≤ 64) : Reported (Link.expired reason k) :=
  ⟨⟨hk.1, hk.2, fun _ h => nomatch h⟩, hreason⟩

theorem Keyed.add {r : Link.Reassembler} (hr : Keyed r) {f : Link.Frame} {nowUs : Int}
    {a : Link.Added} (hf : IsUuid f.bootId ∧ f.sequence < 2 ^ 64) (ha : r.add f nowUs = some a) :
    Keyed a.reassembler ∧ ∀ x ∈ a.expired, Reported x := by
  have hnone : ∀ x ∈ ([] : List Link.Expired), Reported x := fun _ h => nomatch h
  have hstored : ∀ {pending : ODict Link.Key Link.Pending} (p : Link.Pending),
      (∀ k ∈ pending.keys, IsUuid k.2.2.1 ∧ k.2.2.2 < 2 ^ 64) →
      Keyed { r with pending := (Link.store pending p f nowUs).1 } := by
    intro pending p hpending k hk
    rcases store_keys hk with rfl | hk
    · exact hf
    · exact hpending k hk
  unfold Link.Reassembler.add at ha
  split at ha
  · cases ha
    exact ⟨hr, hnone⟩
  split at ha
  · split at ha
    · cases ha
    · rename_i pending ex hevict
      cases ha
      unfold Link.Reassembler.evict at hevict
      split at hevict
      · unfold ODict.popFirst at hevict
        split at hevict
        · cases hevict
        · rename_i k p rest hpop
          split at hpop
          · cases hpop
          · rename_i e es hentries
            cases hpop
            cases hevict
            have hk : k ∈ r.pending.keys := by
              rw [ODict.keys, hentries]
              exact List.mem_cons_self
            refine ⟨hstored _ fun j hj => hr j (mem_keys_drop hj), fun x hx => ?_⟩
            rw [List.mem_singleton.1 hx]
            exact reported_expired (hr k hk) (by decide)
      · cases hevict
        exact ⟨hstored _ hr, hnone⟩
  · split at ha
    · cases ha
      refine ⟨fun k hk => hr k (mem_keys_erase hk), fun x hx => ?_⟩
      rw [List.mem_singleton.1 hx]
      exact reported_expired hf (by decide)
    · cases ha
      exact ⟨hstored _ hr, hnone⟩

/-- Quarantine of entries that are given up returns. -/
theorem quarantineAll_returns {clock : Nat → Reading} (hclock : ∀ i, (formatUs (clock i).wallUs).isSome)
    (detail : String) {xs : List Link.Expired} (hxs : ∀ x ∈ xs, Reported x) :
    ∀ (i : Nat) (core : ReceiverCore),
      (ReceiverCore.quarantineAll clock detail i core xs).2 = true := by
  induction xs with
  | nil => exact fun _ _ => rfl
  | cons x xs ih =>
    intro i core
    obtain ⟨hx, hreason⟩ := hxs x List.mem_cons_self
    have hq := (quarantine_returns core (clock i) x.reason (pyStr detail) x.sensorId x.bootId
      x.sequence none).2 (.inr ((invalidEntry_written hx hreason).2
        ⟨hclock i, (pyStr_encodable detail).take 512⟩))
    unfold ReceiverCore.quarantineAll
    split
    · rename_i core' h
      rw [h] at hq
      cases hq
    · exact ih (fun y hy => hxs y (List.mem_cons_of_mem _ hy)) _ _

/-! ## The receiver and the ideal one -/

theorem Keyed.event {v : Ideal} (h : Keyed v.reassembler) (rt : Runtime) (c : Link.Complete) :
    Keyed (v.event rt c).reassembler := by
  unfold Ideal.event
  split
  · exact h
  split
  · exact h
  · exact h
  split
  · exact h
  split
  · exact h
  · exact h

theorem Keyed.health {v : Ideal} (h : Keyed v.reassembler) (c : Link.Complete) :
    Keyed (v.health c).reassembler := by
  unfold Ideal.health
  simp only
  split
  · exact h
  · exact h

theorem Keyed.step {v : Ideal} (h : Keyed v.reassembler) (op : ReceiverOp) :
    Keyed (v.step hmac rt op).reassembler := by
  cases op with
  | datagram data nowUs clock =>
    unfold Ideal.step Ideal.datagram
    simp only
    split
    · exact h
    rename_i f hf
    split
    · exact h
    rename_i a ha
    obtain ⟨hkeyed, -⟩ := h.add (decode_key hf) ha
    split
    · exact hkeyed
    split
    · exact Keyed.health hkeyed _
    · exact Keyed.event hkeyed _ _
  | housekeeping nowUs clock monotonic => exact fun k hk => h k (mem_keys_drop hk)
  | release acked => exact h
  | crash call kept stable monotonic => exact h

/-- A datagram is taken as by the ideal receiver. -/
theorem handleDatagram_ideal (hk : Keyed core.reassembler) {data : Bytes} {nowUs : Int}
    {clock : Nat → Reading} (hclock : ∀ i, (formatUs (clock i).wallUs).isSome)
    (hroom : ∀ c, (core.handleDatagram hmac rt data nowUs clock).2.2 ≠ some (c, .spoolFull)) :
    (core.handleDatagram hmac rt data nowUs clock).1.ideal = core.ideal.datagram hmac rt data nowUs := by
  unfold Ideal.datagram
  unfold ReceiverCore.handleDatagram at hroom ⊢
  rw [show core.ideal.codec = core.codec from rfl, show core.ideal.reassembler = core.reassembler from rfl]
  cases hf : core.codec.decode hmac data with
  | error e => exact quarantine_ideal ..
  | ok f =>
    rw [hf] at hroom
    simp only at hroom ⊢
    cases ha : core.reassembler.add f nowUs with
    | none => rfl
    | some a =>
      rw [ha] at hroom
      simp only at hroom ⊢
      have hret := quarantineAll_returns hclock "reassembly limit reached"
        (hk.add (decode_key hf) ha).2 0 { core with reassembler := a.reassembler }
      have hsame := quarantineAll_ideal clock "reassembly limit reached" a.expired 0
        { core with reassembler := a.reassembler }
      change _ = (match a.complete with
        | none => ReceiverCore.ideal { core with reassembler := a.reassembler }
        | some c =>
          if c.type = Link.TYPE_HEALTH then
            (ReceiverCore.ideal { core with reassembler := a.reassembler }).health c
          else (ReceiverCore.ideal { core with reassembler := a.reassembler }).event rt c)
      generalize ReceiverCore.quarantineAll clock "reassembly limit reached" 0
        { core with reassembler := a.reassembler } a.expired = q at hret hsame hroom ⊢
      obtain ⟨core', b⟩ := q
      obtain rfl : b = true := hret
      simp only at hroom hsame ⊢
      rw [← hsame]
      cases hc : a.complete with
      | none => rfl
      | some c =>
        rw [hc] at hroom
        simp only at hroom ⊢
        split
        · exact health_ideal _ c
        · rename_i htype
          rw [if_neg htype] at hroom
          exact event_ideal _ c fun h => hroom c (by rw [h])

theorem housekeeping_ideal (core : ReceiverCore) (nowUs : Int) (clock : Nat → Reading)
    (monotonic : Rat) : (core.housekeeping nowUs clock monotonic).1.ideal =
      { core.ideal with reassembler := (core.reassembler.expire nowUs).2 } := by
  have hsame := quarantineAll_ideal clock "fragments incomplete" (core.reassembler.expire nowUs).1 0
    { core with reassembler := (core.reassembler.expire nowUs).2 }
  unfold ReceiverCore.housekeeping
  simp only
  split
  · rename_i core' h
    rw [h] at hsame
    exact hsame
  · rename_i core' h
    rw [h] at hsame
    split
    · exact hsame
    · exact hsame

/-- **A step that refuses no event is a step of the ideal receiver.** -/
theorem step_ideal {s s' : ReceiverSys} {op : ReceiverOp} (hk : Keyed s.core.reassembler)
    (hC : Unbroken op ∧ Roomy hmac rt s op) (hs : s.step hmac rt cfg op = some s') :
    s'.core.ideal = s.core.ideal.step hmac rt op := by
  cases op with
  | datagram data nowUs clock =>
    cases hs
    exact handleDatagram_ideal hk hC.1 hC.2
  | housekeeping nowUs clock monotonic =>
    cases hs
    exact housekeeping_ideal ..
  | release acked =>
    cases hs
    rfl
  | crash call kept stable monotonic => exact hC.1.elim

/-- **A run that refuses no event is a run of the ideal receiver.** -/
theorem run_ideal {s t : ReceiverSys} {ops : List ReceiverOp}
    (h : (receiver hmac rt cfg).Run (fun s op => Unbroken op ∧ Roomy hmac rt s op) s ops t)
    (hk : Keyed s.core.reassembler) : t.core.ideal = ops.foldl (Ideal.step hmac rt) s.core.ideal := by
  refine Machine.Run.simulate (f := fun s => s.core.ideal) (I := fun s => Keyed s.core.reassembler)
    ?_ ?_ h hk
  · intro s op s' hk hC hs
    have hnext : Keyed (s.core.ideal.step hmac rt op).reassembler := Keyed.step hk op
    rwa [← step_ideal hk hC hs] at hnext
  · exact fun s op s' hk hC hs => step_ideal hk hC hs

/-! ## Injected datagrams -/

theorem codec_step (v : Ideal) (op : ReceiverOp) : (v.step hmac rt op).codec = v.codec := by
  have hevent : ∀ (v : Ideal) c, (v.event rt c).codec = v.codec := by
    intro v c
    unfold Ideal.event
    split
    · rfl
    split
    · rfl
    · rfl
    split
    · rfl
    split <;> rfl
  have hhealth : ∀ (v : Ideal) c, (v.health c).codec = v.codec := by
    intro v c
    unfold Ideal.health
    simp only
    split <;> rfl
  cases op with
  | datagram data nowUs clock =>
    unfold Ideal.step Ideal.datagram
    simp only
    split
    · rfl
    split
    · rfl
    split
    · rfl
    split
    · rw [hhealth]
    · rw [hevent]
  | housekeeping nowUs clock monotonic => rfl
  | release acked => rfl
  | crash call kept stable monotonic => rfl

/-- The ideal receiver takes no notice of what is inserted. -/
theorem Injected.ideal {codec : Link.LinkCodec} {ops ops' : List ReceiverOp}
    (h : Injected hmac codec ops ops') : ∀ {v : Ideal}, v.codec = codec →
      ops.foldl (Ideal.step hmac rt) v = ops'.foldl (Ideal.step hmac rt) v := by
  induction h with
  | nil => exact fun _ => rfl
  | same op _ ih =>
    intro v hv
    rw [List.foldl_cons, List.foldl_cons, ih ((codec_step v op).trans hv)]
  | release acked acked' _ ih =>
    intro v hv
    rw [List.foldl_cons, List.foldl_cons]
    exact ih hv
  | @insert data e hbad nowUs clock _ _ _ ih =>
    intro v hv
    have hsame : v.step hmac rt (.datagram data nowUs clock) = v := by
      rw [Ideal.step, Ideal.datagram, hv, hbad]
    rw [List.foldl_cons, hsame]
    exact ih hv

/-- **Injected datagrams do not influence what is accepted** as long as no event is refused for want of
space: the same events are spooled in the same order, and every later sequence is classified as it
would have been. -/
theorem injected_keeps_accepted (hmac : Link.Hmac) (rt : Runtime) (cfg : Config) (sys : SpoolSys)
    (dedup : DedupWindow) (monotonic : Rat) (rejected : List Identity)
    (snapshot : Option ReceiverCore.Snapshot) {ops ops' : List ReceiverOp} {t t' : ReceiverSys}
    (hinjected : Injected hmac cfg.codec ops ops')
    (h : (receiver hmac rt cfg).Run (fun s op => Unbroken op ∧ Roomy hmac rt s op)
      ⟨.start cfg sys dedup monotonic rejected, snapshot⟩ ops t)
    (h' : (receiver hmac rt cfg).Run (fun s op => Unbroken op ∧ Roomy hmac rt s op)
      ⟨.start cfg sys dedup monotonic rejected, snapshot⟩ ops' t') :
    rawRecords t.core.sys.log = rawRecords t'.core.sys.log ∧
      ∀ i : Identity, t.core.dedup.verdict i = t'.core.dedup.verdict i := by
  have hsame : t.core.ideal = t'.core.ideal := by
    rw [run_ideal h (keyed_empty _ _), run_ideal h' (keyed_empty _ _)]
    exact hinjected.ideal rfl
  refine ⟨congrArg Ideal.accepted hsame, fun i => ?_⟩
  have hdedup : t.core.dedup = t'.core.dedup := congrArg Ideal.dedup hsame
  rw [hdedup]

/-! ### Sample runs -/

/-- A sample event finds room when it shows up in the log. -/
theorem roomy_receives {s : ReceiverSys} (hcodec : s.core.codec = sampleConfig.codec)
    (hnew : s.core.dedup.check "ot-sensor-01" sampleBoot 0 = .new)
    (hlog : rawIdentities (sampleReceived s.core).sys.log ≠ rawIdentities s.core.sys.log) :
    Roomy hmacSha256 sampleRuntime s (receives 0) := by
  intro c hfull
  have hsame := (handleDatagram_spoolFull hfull).2.1
  rw [handleDatagram_receives hcodec hnew] at hsame
  exact hlog hsame

theorem badDatagram_decode : sampleConfig.codec.decode hmacSha256 [1, 2, 3] =
    .error ⟨"frame_malformed", "datagram length 3 outside bounds"⟩ := by decide +kernel

theorem badDatagram_injected :
    Injected hmacSha256 sampleConfig.codec [receives 0] [badDatagram, receives 0] :=
  .insert badDatagram_decode _ _ (.same _ .nil)

theorem unbroken_sample (data : Bytes) (nowUs : Int) : Unbroken (.datagram data nowUs sampleClock) :=
  fun _ => (by decide +kernel : (formatUs 1788249610000000).isSome)

/-- The receiver after a datagram that is no frame. -/
def afterBad (core : ReceiverCore) : ReceiverCore :=
  (core.quarantine (sampleClock 0) "frame_malformed" (pyStr "datagram length 3 outside bounds") none
    none none (some [1, 2, 3])).1

theorem afterBad_ideal (core : ReceiverCore) : (afterBad core).ideal = core.ideal := quarantine_ideal ..

theorem afterBad_codec (core : ReceiverCore) : (afterBad core).codec = core.codec :=
  congrArg Ideal.codec (afterBad_ideal core)

theorem afterBad_dedup (core : ReceiverCore) : (afterBad core).dedup = core.dedup :=
  congrArg Ideal.dedup (afterBad_ideal core)

theorem handleDatagram_bad {core : ReceiverCore} (hcodec : core.codec = sampleConfig.codec) :
    (core.handleDatagram hmacSha256 sampleRuntime [1, 2, 3] 1788249610000000 sampleClock).1 =
        afterBad core ∧
      (core.handleDatagram hmacSha256 sampleRuntime [1, 2, 3] 1788249610000000 sampleClock).2.2 =
        none := by
  unfold ReceiverCore.handleDatagram
  rw [hcodec, badDatagram_decode]
  exact ⟨rfl, rfl⟩

theorem step_bad (cfg : Config) {s : ReceiverSys} (hcodec : s.core.codec = sampleConfig.codec) :
    s.step hmacSha256 sampleRuntime cfg badDatagram = some { s with core := afterBad s.core } :=
  congrArg (fun core => (some { s with core := core } : Option ReceiverSys))
    (handleDatagram_bad hcodec).1

theorem roomy_bad {s : ReceiverSys} (hcodec : s.core.codec = sampleConfig.codec) :
    Roomy hmacSha256 sampleRuntime s badDatagram := by
  intro c hfull
  rw [(handleDatagram_bad hcodec).2] at hfull
  cases hfull

def startCore (cfg : Config) : ReceiverCore := (ReceiverSys.init cfg).core

set_option maxRecDepth 100000 in
/-- An event, with and without a datagram before it that is no frame. -/
theorem injected_keeps_accepted_sample : ∃ t t' : ReceiverSys,
    (receiver hmacSha256 sampleRuntime sampleConfig).Run
      (fun s op => Unbroken op ∧ Roomy hmacSha256 sampleRuntime s op)
      ⟨startCore sampleConfig, none⟩ [receives 0] t ∧
    (receiver hmacSha256 sampleRuntime sampleConfig).Run
      (fun s op => Unbroken op ∧ Roomy hmacSha256 sampleRuntime s op)
      ⟨startCore sampleConfig, none⟩ [badDatagram, receives 0] t' ∧
    rawRecords t.core.sys.log = rawRecords t'.core.sys.log ∧
    ∀ i : Identity, t.core.dedup.verdict i = t'.core.dedup.verdict i := by
  have hplain : rawIdentities (sampleReceived (startCore sampleConfig)).sys.log ≠ [] := by
    decide +kernel
  have hafter : rawIdentities (sampleReceived (afterBad (startCore sampleConfig))).sys.log ≠
      rawIdentities (afterBad (startCore sampleConfig)).sys.log := by decide +kernel
  have hcodec := afterBad_codec (startCore sampleConfig)
  have hnew : (afterBad (startCore sampleConfig)).dedup.check "ot-sensor-01" sampleBoot 0 = .new := by
    rw [afterBad_dedup]
    rfl
  have hrun : (receiver hmacSha256 sampleRuntime sampleConfig).Run
      (fun s op => Unbroken op ∧ Roomy hmacSha256 sampleRuntime s op)
      ⟨startCore sampleConfig, none⟩ [receives 0] ⟨sampleReceived (startCore sampleConfig), none⟩ :=
    .cons ⟨unbroken_sample _ _, roomy_receives rfl rfl hplain⟩ (step_receives rfl rfl) (.nil _)
  have hrun' : (receiver hmacSha256 sampleRuntime sampleConfig).Run
      (fun s op => Unbroken op ∧ Roomy hmacSha256 sampleRuntime s op)
      ⟨startCore sampleConfig, none⟩ [badDatagram, receives 0]
      ⟨sampleReceived (afterBad (startCore sampleConfig)), none⟩ :=
    .cons ⟨unbroken_sample _ _, roomy_bad rfl⟩ (step_bad sampleConfig rfl)
      (.cons ⟨unbroken_sample _ _, roomy_receives hcodec hnew hafter⟩ (step_receives hcodec hnew)
        (.nil _))
  obtain ⟨hraw, hverdict⟩ := injected_keeps_accepted hmacSha256 sampleRuntime sampleConfig
    (.init 1000000 1000) .init 0 [] none badDatagram_injected hrun hrun'
  exact ⟨_, _, hrun, hrun', hraw, hverdict⟩

/-- A spool with room for one event. -/
def smallConfig : Config := { sampleConfig with maxBytes := 1100 }

set_option maxRecDepth 100000 in
/-- The record of quarantine of a datagram that is no frame takes the room of the event after it. -/
theorem injected_displaces : ¬ ∀ (hmac : Link.Hmac) (rt : Runtime) (cfg : Config) (sys : SpoolSys)
    (dedup : DedupWindow) (monotonic : Rat) (rejected : List Identity)
    (snapshot : Option ReceiverCore.Snapshot) (ops ops' : List ReceiverOp) (t t' : ReceiverSys),
    Injected hmac cfg.codec ops ops' →
    (receiver hmac rt cfg).Run (fun _ op => Unbroken op)
      ⟨.start cfg sys dedup monotonic rejected, snapshot⟩ ops t →
    (receiver hmac rt cfg).Run (fun _ op => Unbroken op)
      ⟨.start cfg sys dedup monotonic rejected, snapshot⟩ ops' t' →
    rawRecords t.core.sys.log = rawRecords t'.core.sys.log := by
  intro hclaim
  have hplain : rawRecords (sampleReceived (startCore smallConfig)).sys.log ≠ [] := by decide +kernel
  have hafter : rawRecords (sampleReceived (afterBad (startCore smallConfig))).sys.log = [] := by
    decide +kernel
  have hcodec := afterBad_codec (startCore smallConfig)
  have hnew : (afterBad (startCore smallConfig)).dedup.check "ot-sensor-01" sampleBoot 0 = .new := by
    rw [afterBad_dedup]
    rfl
  have hrun : (receiver hmacSha256 sampleRuntime smallConfig).Run (fun _ op => Unbroken op)
      ⟨startCore smallConfig, none⟩ [receives 0] ⟨sampleReceived (startCore smallConfig), none⟩ :=
    .cons (unbroken_sample _ _) (step_receives rfl rfl) (.nil _)
  have hrun' : (receiver hmacSha256 sampleRuntime smallConfig).Run (fun _ op => Unbroken op)
      ⟨startCore smallConfig, none⟩ [badDatagram, receives 0]
      ⟨sampleReceived (afterBad (startCore smallConfig)), none⟩ :=
    .cons (unbroken_sample _ _) (step_bad smallConfig rfl)
      (.cons (unbroken_sample _ _) (step_receives hcodec hnew) (.nil _))
  have hsame := hclaim hmacSha256 sampleRuntime smallConfig (.init 1100 1000) .init 0 [] none _ _ _ _
    badDatagram_injected hrun hrun'
  exact hplain (hsame.trans hafter)

end OTS.Receiver
