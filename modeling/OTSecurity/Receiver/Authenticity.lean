import OTSecurity.Lib.Machine
import OTSecurity.Receiver.QuarantineContract

/-!
# Authenticity from the sender to the spool

The network may lose, repeat, delay and reorder frames, mix in whatever it likes, and the receiver may be
killed and restarted at any point.  As long as the only datagrams that pass the HMAC are frames of records that
were handed to the encoder, no two of them with the same key, everything the receiver spools for the raw and for
the health topic is the record of one of them.

* `Unforged` — the condition on a step: what is decoded is a fragment of one of the records.
* `Attested` — where an entry of the spool comes from, one constructor for each topic.
* `Pieces` — the invariant: every incomplete entry of the reassembler holds fragments of one record.

Principal results: `Pieces.add` — a record that is completed was sent; `attested_reach` — every entry along a
run is attested; `spool_authentic` — what that says of an event: its identity is that of the frame, and its
value is the sent record with the time of receipt.
-/

namespace OTS.Link

/-- What the reassembler makes of the record at a time. -/
def Record.complete (r : Record) (nowUs : Int) : Complete :=
  ⟨r.type, r.sensorId, r.bootId, r.sequence, r.bytes, nowUs⟩

/-- What holds of the incomplete entries: they hold fragments of one of the records each. -/
def Pieces (recs : List Record) (r : Reassembler) : Prop := ∃ held, Tab recs r.pending held

namespace Pieces

variable {recs : List Record} {s : Reassembler}

theorem empty (hf : Family recs) (maxPending timeoutUs : Nat) : Pieces recs ⟨maxPending, timeoutUs, .empty⟩ :=
  ⟨_, .empty hf⟩

/-- **A record that is completed was sent.** -/
theorem add (hf : Family recs) (h : Pieces recs s) {r : Record} (hr : r ∈ recs) {i : Nat} (hi : i < r.count)
    {nowUs : Int} {a : Added} (ha : s.add (r.frame i) nowUs = some a) :
    Pieces recs a.reassembler ∧ ∀ c, a.complete = some c → c = r.complete nowUs := by
  obtain ⟨held, ht⟩ := h
  obtain ⟨hkept, hdone⟩ := add_sound hf ht hr hi ha
  exact ⟨hkept, fun c hc => hdone c hc⟩

theorem expire (hf : Family recs) (h : Pieces recs s) (nowUs : Int) : Pieces recs (s.expire nowUs).2 := by
  obtain ⟨held, ht⟩ := h
  exact ht.drop hf _

end Pieces

end OTS.Link

namespace OTS.Receiver

/-- **The condition on a step**: whatever passes the HMAC is a fragment of one of the records. -/
def Unforged (hmac : Link.Hmac) (recs : List Link.Record) (s : ReceiverSys) (op : ReceiverOp) : Prop :=
  ∀ data nowUs clock, op = .datagram data nowUs clock → ∀ f, s.core.codec.decode hmac data = .ok f →
    ∃ r ∈ recs, ∃ i < r.count, f = r.frame i

/-- A frame of the encoder is no forgery. -/
theorem unforged_of_frames {hmac : Link.Hmac} {recs : List Link.Record} {s : ReceiverSys} {op : ReceiverOp}
    (hf : Link.Family recs) (h : ∀ data nowUs clock, op = .datagram data nowUs clock →
      ∃ r ∈ recs, data ∈ r.frames hmac s.core.codec) : Unforged hmac recs s op := by
  intro data nowUs clock hop f hdecode
  obtain ⟨r, hr, hdata⟩ := h data nowUs clock hop
  obtain ⟨-, hlength, hframe⟩ := Link.frames_spec hmac s.core.codec (hf.encodable r hr)
  obtain ⟨i, hi, rfl⟩ := List.mem_iff_getElem.1 hdata
  refine ⟨r, hr, i, hlength ▸ hi, ?_⟩
  exact Except.ok.inj (hdecode.symm.trans (hframe i hi).2)

/-- Where an entry of the spool comes from. -/
inductive Attested (rt : Runtime) (recs : List Link.Record) : Rec → Prop
  | event {r : Link.Record} {nowUs : Int} {ev : Json} {entry : Rec} (hr : r ∈ recs)
    (htype : r.type ≠ Link.TYPE_HEALTH) (hj : judge rt (r.complete nowUs) = .valid ev)
    (hentry : rawRecord ev (r.complete nowUs) = some entry) : Attested rt recs entry
  | health {r : Link.Record} {nowUs : Int} {h : Json} {key value : Bytes} (hr : r ∈ recs)
    (htype : r.type = Link.TYPE_HEALTH)
    (hs : ReceiverCore.stampedHealth rt (r.complete nowUs) = some (some h))
    (hok : healthRefusal rt (r.complete nowUs) = none) (hkey : encodeAscii r.sensorId = some key)
    (hvalue : h.dumpBytes = some value) : Attested rt recs ⟨TOPIC_HEALTH, key, none, none, -1, 0, value⟩
  | quarantine {entry : Rec} (htopic : entry.topic = TOPIC_INVALID) : Attested rt recs entry

/-! ## One call -/

section Calls

variable {rt : Runtime} {core core' : ReceiverCore} {P : Entry → Prop}

theorem append_accrued {r : Rec} {b : Bool} (h : core.append r = some (b, core'))
    (hr : ∀ e : Entry, e.record = r → P e) : Accrued P core.sys.log core'.sys.log := by
  cases b with
  | false =>
    rw [refused_append h]
    exact .refl _
  | true =>
    obtain ⟨sys, ⟨spool, disk, -, rfl⟩, rfl⟩ := append_accepted h
    exact .snoc (hr _ rfl)

theorem invalidEntry_topic {wallUs : Int} {reason : String} {detail : PyStr} {sensorId bootId : Option String}
    {seq : Option Nat} {raw : Option Bytes} {r : Rec}
    (h : invalidEntry wallUs reason detail sensorId bootId seq raw = some r) : r.topic = TOPIC_INVALID := by
  unfold invalidEntry at h
  split at h
  · cases h
  split at h
  · cases h
  · cases h
    rfl

theorem quarantine_accrued (hP : ∀ e : Entry, e.record.topic = TOPIC_INVALID → P e) (core : ReceiverCore)
    (now : Reading) (reason : String) (detail : PyStr) (sensorId bootId : Option String) (seq : Option Nat)
    (raw : Option Bytes) :
    Accrued P core.sys.log (core.quarantine now reason detail sensorId bootId seq raw).1.sys.log := by
  unfold ReceiverCore.quarantine
  simp only
  split
  · exact .refl _
  split
  · exact .refl _
  rename_i r hr
  split
  · exact .refl _
  · rename_i happend
    have hgrown := append_accrued (P := P) happend fun e he => hP e (he ▸ invalidEntry_topic hr)
    exact hgrown

theorem quarantineAll_accrued (hP : ∀ e : Entry, e.record.topic = TOPIC_INVALID → P e) (clock : Nat → Reading)
    (detail : String) (xs : List Link.Expired) : ∀ (i : Nat) (core : ReceiverCore),
    Accrued P core.sys.log (ReceiverCore.quarantineAll clock detail i core xs).1.sys.log := by
  induction xs with
  | nil => exact fun i core => .refl _
  | cons x xs ih =>
    intro i core
    have hfirst := quarantine_accrued hP core (clock i) x.reason (pyStr detail) x.sensorId x.bootId x.sequence none
    unfold ReceiverCore.quarantineAll
    generalize core.quarantine (clock i) x.reason (pyStr detail) x.sensorId x.bootId x.sequence none = q
      at hfirst ⊢
    obtain ⟨core', b⟩ := q
    cases b with
    | false => exact hfirst
    | true => exact hfirst.trans (ih (i + 1) core')

variable {c : Link.Complete}

/-- **What the handler of an event spools**: an entry of quarantine, or that of a valid event. -/
theorem event_accrued (hnote : ∀ e : Entry, e.record.topic = TOPIC_INVALID → P e)
    (hevent : ∀ ev r, judge rt c = .valid ev → rawRecord ev c = some r → ∀ e : Entry, e.record = r → P e)
    (now : Reading) : Accrued P core.sys.log (core.event rt now c).1.sys.log := by
  unfold ReceiverCore.event
  split
  · exact .refl _
  · exact .refl _
  split
  · exact .refl _
  · rename_i reason detail hj
    have hgrown := quarantine_accrued hnote { core.mark c with rejected := core.rejected ++ [identity c] } now reason
      detail c.sensorId c.bootId c.sequence c.record
    simp only at hgrown ⊢
    split
    · rename_i h
      rw [h] at hgrown
      exact hgrown
    · rename_i h
      rw [h] at hgrown
      exact hgrown
  rename_i ev hj
  split
  · exact .refl _
  rename_i entry hentry
  have hnew := hevent ev entry hj hentry
  split
  · exact .refl _
  · rename_i happend
    exact append_accrued happend hnew
  · rename_i happend
    have hgrown := append_accrued (P := P) happend hnew
    exact hgrown

/-- **What the handler of a health record spools.** -/
theorem health_accrued (hnote : ∀ e : Entry, e.record.topic = TOPIC_INVALID → P e)
    (hhealth : ∀ h key value, ReceiverCore.stampedHealth rt c = some (some h) → healthRefusal rt c = none →
      encodeAscii c.sensorId = some key → h.dumpBytes = some value →
      ∀ e : Entry, e.record = ⟨TOPIC_HEALTH, key, none, none, -1, 0, value⟩ → P e)
    (now : Reading) : Accrued P core.sys.log (core.health rt now c).1.sys.log := by
  have hreject := fun (reason : String) (detail : PyStr) =>
    quarantine_accrued hnote { core with healthSeen := core.healthSeen.set (streamKey c.sensorId c.bootId) c.sequence }
      now reason detail c.sensorId c.bootId c.sequence c.record
  have hrefusal : healthRefusal rt c = healthRefusal rt c := rfl
  conv at hrefusal => rhs; unfold healthRefusal
  unfold ReceiverCore.health
  simp only
  split
  · exact .refl _
  split
  · exact .refl _
  · exact hreject _ _
  rename_i h hs
  rw [hs] at hrefusal
  simp only at hrefusal
  split
  · exact .refl _
  · exact hreject _ _
  rename_i hv
  rw [hv] at hrefusal
  simp only at hrefusal
  split
  · exact hreject _ _
  rename_i hid
  rw [if_neg hid] at hrefusal
  split
  · rename_i key value hkey hvalue
    split
    · exact .refl _
    · rename_i happend
      have hgrown := append_accrued (P := P) happend (hhealth h key value hs hrefusal hkey hvalue)
      exact hgrown
  · exact .refl _

end Calls

/-! ## One step -/

section Steps

variable {hmac : Link.Hmac} {rt : Runtime} {cfg : Config} {recs : List Link.Record} {core : ReceiverCore}

/-- **One datagram.**  The entries of the reassembler stay pieces of records, and what is spooled is attested. -/
theorem datagram_attested (hf : Link.Family recs) (h : Link.Pieces recs core.reassembler) {data : Bytes}
    {nowUs : Int} {clock : Nat → Reading}
    (hunforged : ∀ f, core.codec.decode hmac data = .ok f → ∃ r ∈ recs, ∃ i < r.count, f = r.frame i) :
    Link.Pieces recs (core.handleDatagram hmac rt data nowUs clock).1.reassembler ∧
      Accrued (fun e => Attested rt recs e.record) core.sys.log
        (core.handleDatagram hmac rt data nowUs clock).1.sys.log := by
  have hnote : ∀ e : Entry, e.record.topic = TOPIC_INVALID → Attested rt recs e.record := fun e he => .quarantine he
  unfold ReceiverCore.handleDatagram
  split
  · rename_i e _
    have hkept := quarantine_reassembler core (clock 0) e.reason (pyStr e.message) none none none data
    have hgrown := quarantine_accrued hnote core (clock 0) e.reason (pyStr e.message) none none none data
    exact ⟨cast (congrArg (Link.Pieces recs) hkept.symm) h, hgrown⟩
  rename_i f hdecode
  obtain ⟨r, hr, i, hi, rfl⟩ := hunforged f hdecode
  split
  · exact ⟨h, .refl _⟩
  rename_i a ha
  obtain ⟨hpieces, hdone⟩ := h.add hf hr hi ha
  have hkept := quarantineAll_reassembler clock "reassembly limit reached" a.expired 0
    { core with reassembler := a.reassembler }
  have hgrown := quarantineAll_accrued hnote clock "reassembly limit reached" a.expired 0
    { core with reassembler := a.reassembler }
  simp only
  generalize ReceiverCore.quarantineAll clock "reassembly limit reached" 0
    { core with reassembler := a.reassembler } a.expired = q at hkept hgrown ⊢
  obtain ⟨core', b⟩ := q
  have hpieces' : Link.Pieces recs core'.reassembler := cast (congrArg (Link.Pieces recs) hkept.symm) hpieces
  cases b with
  | false => exact ⟨hpieces', hgrown⟩
  | true =>
    simp only
    split
    · exact ⟨hpieces', hgrown⟩
    rename_i c hc
    obtain rfl := hdone c hc
    split
    · rename_i htype
      refine ⟨cast (congrArg (Link.Pieces recs) (health_reassembler _ _).symm) hpieces',
        hgrown.trans (health_accrued hnote ?_ _)⟩
      intro h key value hs hok hkey hvalue e he
      rw [he]
      exact .health hr htype hs hok hkey hvalue
    · rename_i htype
      refine ⟨cast (congrArg (Link.Pieces recs) (event_reassembler _ _).symm) hpieces',
        hgrown.trans (event_accrued hnote ?_ _)⟩
      intro ev entry hj hentry e he
      rw [he]
      exact .event hr htype hj hentry

theorem housekeeping_accrued {P : Entry → Prop} (hP : ∀ e : Entry, e.record.topic = TOPIC_INVALID → P e)
    (nowUs : Int) (clock : Nat → Reading) (monotonic : Rat) :
    Accrued P core.sys.log (core.housekeeping nowUs clock monotonic).1.sys.log := by
  have hgrown := quarantineAll_accrued hP clock "fragments incomplete" (core.reassembler.expire nowUs).1 0
    { core with reassembler := (core.reassembler.expire nowUs).2 }
  unfold ReceiverCore.housekeeping
  simp only
  generalize ReceiverCore.quarantineAll clock "fragments incomplete" 0
    { core with reassembler := (core.reassembler.expire nowUs).2 } (core.reassembler.expire nowUs).1 = q
    at hgrown ⊢
  obtain ⟨core', b⟩ := q
  cases b with
  | false => exact hgrown
  | true =>
    simp only
    split
    · exact hgrown
    · exact hgrown

theorem stop_accrued {P : Entry → Prop} (hP : ∀ e : Entry, e.record.topic = TOPIC_INVALID → P e)
    (call : ReceiverCore.Stopped) : Accrued P core.sys.log (core.stop hmac call).sys.log := by
  unfold ReceiverCore.stop
  split
  · exact quarantineAll_accrued hP _ _ _ _ _
  split
  · exact .refl _
  split
  · exact .refl _
  · exact quarantineAll_accrued hP _ _ _ _ _

theorem step_attested (hf : Link.Family recs) {s s' : ReceiverSys} {op : ReceiverOp}
    (h : Link.Pieces recs s.core.reassembler) (hunforged : Unforged hmac recs s op)
    (hstep : s.step hmac rt cfg op = some s') :
    Link.Pieces recs s'.core.reassembler ∧
      Accrued (fun e => Attested rt recs e.record) s.core.sys.log s'.core.sys.log := by
  have hnote : ∀ e : Entry, e.record.topic = TOPIC_INVALID → Attested rt recs e.record := fun e he => .quarantine he
  cases op with
  | datagram data nowUs clock =>
    cases hstep
    exact datagram_attested hf h (hunforged data nowUs clock rfl)
  | housekeeping nowUs clock monotonic =>
    cases hstep
    have hkept : (s.core.housekeeping nowUs clock monotonic).1.reassembler = (s.core.reassembler.expire nowUs).2 :=
      congrArg Ideal.reassembler (housekeeping_ideal s.core nowUs clock monotonic)
    exact ⟨cast (congrArg (Link.Pieces recs) hkept.symm) (h.expire hf nowUs),
      housekeeping_accrued hnote nowUs clock monotonic⟩
  | release acked =>
    cases hstep
    exact ⟨h, .refl _⟩
  | crash call kept stable monotonic =>
    have hended : Accrued (fun e => Attested rt recs e.record) s.core.sys.log (s.ended hmac call).sys.log := by
      cases call with
      | none => exact .refl _
      | some call => exact stop_accrued hnote call
    simp only [ReceiverSys.step] at hstep
    split at hstep
    · cases hstep
    rename_i sys hsys
    obtain ⟨core', hboot, rfl⟩ := Option.map_eq_some_iff.1 hstep
    obtain ⟨dedup, -, rfl⟩ := Option.map_eq_some_iff.1 hboot
    refine ⟨.empty hf 4096 2000000, ?_⟩
    simp only [SpoolSys.step] at hsys
    split at hsys
    · cases hsys
      exact hended.filter _
    · cases hsys

end Steps

/-! ## Runs -/

section Runs

variable {hmac : Link.Hmac} {rt : Runtime} {cfg : Config} {recs : List Link.Record}

theorem pieces_reach (hf : Link.Family recs) {s : ReceiverSys}
    (h : (receiver hmac rt cfg).Reach (Unforged hmac recs) s) : Link.Pieces recs s.core.reassembler :=
  h.invariant (I := fun s => Link.Pieces recs s.core.reassembler) (.empty hf 4096 2000000)
    fun _ _ _ hs hunforged hstep => (step_attested hf hs hunforged hstep).1

/-- **Every entry of the spool is attested**, in every run with no forged datagram. -/
theorem attested_reach (hf : Link.Family recs) {s : ReceiverSys}
    (h : (receiver hmac rt cfg).Reach (Unforged hmac recs) s) :
    ∀ e ∈ s.core.sys.log, Attested rt recs e.record :=
  h.all_of_accrued (I := fun s => Link.Pieces recs s.core.reassembler) (fun _ he => absurd he List.not_mem_nil)
    (fun _ hs => pieces_reach hf hs) fun _ _ _ hs hunforged hstep => (step_attested hf hs hunforged hstep).2

/-- The entry of an event: the identity of the frame, and the record sent, with the time of receipt. -/
structure EventEntry (rt : Runtime) (r : Link.Record) (entry : Rec) : Prop where
  sensorId : entry.sensorId = some r.sensorId
  bootId : entry.bootId = some r.bootId
  sequence : entry.sequence = r.sequence
  value : ∃ (ms : List (PyStr × Json)) (receivedAt : PyStr), parseRecord rt r.bytes = some (.obj ms) ∧
    validate rt eventContract ((Json.obj ms).setKey "receiver_received_at" (.str receivedAt)) = some [] ∧
    ((Json.obj ms).setKey "receiver_received_at" (.str receivedAt)).dumpBytes = some entry.value

theorem eventEntry_of_valid {r : Link.Record} {nowUs : Int} {ev : Json} {entry : Rec}
    (hj : judge rt (r.complete nowUs) = .valid ev) (hentry : rawRecord ev (r.complete nowUs) = some entry) :
    EventEntry rt r entry := by
  obtain ⟨-, hsensor, hboot, hseq⟩ := rawRecord_isRaw hentry
  refine ⟨hsensor, hboot, hseq, ?_⟩
  have hspec := judge_spec rt (r.complete nowUs)
  rw [hj] at hspec
  cases hspec with
  | checked hr hv hcheck =>
    cases hcheck with
    | valid =>
      obtain ⟨ms, hparse, hstamped⟩ := hr
      obtain ⟨receivedAt, -, rfl⟩ := Option.map_eq_some_iff.1 hstamped
      refine ⟨ms, receivedAt, hparse, hv, ?_⟩
      unfold rawRecord at hentry
      split at hentry
      · rename_i hvalue
        cases hentry
        exact hvalue
      · cases hentry

/-- **Authenticity from the sender to the spool.**  In every run, with crashes and restarts anywhere, whose
decoded datagrams are fragments of records with distinct keys: what is spooled for the raw topic is an event that
was sent, under the identity it was sent with, as it was sent but for the time of receipt; what is spooled for the
health topic is a health record that was sent; and there is nothing else but quarantine.  Fragments of two records
with one key would complete to a mixture of them. -/
theorem spool_authentic (hmac : Link.Hmac) (rt : Runtime) (cfg : Config) {recs : List Link.Record}
    (hf : Link.Family recs) {s : ReceiverSys} (h : (receiver hmac rt cfg).Reach (Unforged hmac recs) s) :
    ∀ e ∈ s.core.sys.log,
      (e.record.topic = TOPIC_RAW ∧ ∃ r ∈ recs, r.type = Link.TYPE_EVENT ∧ EventEntry rt r e.record) ∨
      (e.record.topic = TOPIC_HEALTH ∧ ∃ r ∈ recs, r.type = Link.TYPE_HEALTH ∧
        ∃ nowUs h, ReceiverCore.stampedHealth rt (r.complete nowUs) = some (some h) ∧
          healthRefusal rt (r.complete nowUs) = none ∧ h.dumpBytes = some e.record.value) ∨
      e.record.topic = TOPIC_INVALID := by
  intro e he
  have hattested := attested_reach hf h e he
  generalize e.record = entry at hattested ⊢
  cases hattested with
  | event hr htype hj hentry =>
    have htype' : _ = Link.TYPE_EVENT := (hf.encodable _ hr).type.resolve_right htype
    exact .inl ⟨(rawRecord_isRaw hentry).topic, _, hr, htype', eventEntry_of_valid hj hentry⟩
  | health hr htype hs hok hkey hvalue => exact .inr (.inl ⟨rfl, _, hr, htype, _, _, hs, hok, hvalue⟩)
  | quarantine htopic => exact .inr (.inr htopic)

/-- The record that is completed in one datagram. -/
def sentAs (c : Link.Complete) : Link.Record := ⟨c.type, c.sensorId, c.bootId, c.sequence, c.record⟩

theorem sentAs_encodable {c : Link.Complete}
    (h : Link.Encodable c.type c.sensorId c.bootId c.sequence c.record) : (sentAs c).Encodable := h

theorem sentAs_frame {c : Link.Complete} (hpos : 0 < c.record.length)
    (hlen : c.record.length ≤ Link.MAX_CHUNK_BYTES) : wholeFrame c = (sentAs c).frame 0 := by
  have hcount : (sentAs c).count = 1 := by
    unfold Link.Record.count Link.fragments sentAs Link.MAX_CHUNK_BYTES at *
    simp only
    omega
  have hchunk : chunk Link.MAX_CHUNK_BYTES c.record 0 = c.record := by
    unfold chunk slice
    rw [Nat.zero_mul, List.drop_zero, List.take_of_length_le hlen]
  unfold Link.Record.frame
  rw [hcount]
  simp only [sentAs, hchunk]
  rfl

/-- The record of the first sample event. -/
def sampleSent : Link.Record := sentAs (sampleComplete 0)

theorem sampleSent_family : Link.Family [sampleSent] where
  encodable r hr := by
    rw [List.mem_singleton.1 hr]
    exact sentAs_encodable sample_encodable
  distinct := List.nodup_singleton _

theorem sampleSent_frame : wholeFrame (sampleComplete 0) = sampleSent.frame 0 :=
  sentAs_frame (by rw [sample_length]; decide) (by rw [sample_length]; decide)

set_option maxRecDepth 100000 in
/-- The first sample event is spooled as it was sent. -/
theorem spool_authentic_sample : ∃ s : ReceiverSys,
    (receiver hmacSha256 sampleRuntime sampleConfig).Reach (Unforged hmacSha256 [sampleSent]) s ∧
    s.core.sys.log ≠ [] ∧ ∀ e ∈ s.core.sys.log,
      (e.record.topic = TOPIC_RAW ∧ ∃ r ∈ [sampleSent], r.type = Link.TYPE_EVENT ∧
        EventEntry sampleRuntime r e.record) ∨
      (e.record.topic = TOPIC_HEALTH ∧ ∃ r ∈ [sampleSent], r.type = Link.TYPE_HEALTH ∧
        ∃ nowUs h, ReceiverCore.stampedHealth sampleRuntime (r.complete nowUs) = some (some h) ∧
          healthRefusal sampleRuntime (r.complete nowUs) = none ∧ h.dumpBytes = some e.record.value) ∨
      e.record.topic = TOPIC_INVALID := by
  have hunforged : Unforged hmacSha256 [sampleSent] (ReceiverSys.init sampleConfig) (receives 0) := by
    intro data nowUs clock hop f hdecode
    cases hop
    obtain rfl : wholeFrame (sampleComplete 0) = f := Except.ok.inj (sample_decode.symm.trans hdecode)
    refine ⟨sampleSent, List.mem_singleton_self _, 0, ?_, sampleSent_frame⟩
    exact sampleSent_family.count_pos (List.mem_singleton_self _)
  have hreach := (Machine.Reach.init (m := receiver hmacSha256 sampleRuntime sampleConfig)).step hunforged
    (step_receives rfl rfl)
  refine ⟨_, hreach, ?_, spool_authentic hmacSha256 sampleRuntime sampleConfig sampleSent_family hreach⟩
  have hlog : rawIdentities (sampleReceived (ReceiverSys.init sampleConfig).core).sys.log ≠ [] := by
    decide +kernel
  intro hnil
  exact hlog (congrArg rawIdentities hnil)

end Runs

end OTS.Receiver
