import OTSecurity.Common.InvalidEvents
import OTSecurity.Detect.Events
import OTSecurity.Link.Pending
import OTSecurity.Receiver.Injection

/-!
# Quarantined records and their contract

What `quarantine` is called with along a run of the receiver, and when the record that it writes passes
`invalid-event.v1`.

* `QuarantineArgs` — the arguments of a call; `record`, `entry` — what it makes of them.
* `Makes` — the calls that a step makes, one constructor for each place of the source.
* `Healthy` — what every reachable receiver holds of its incomplete records.
* `InRange` — the condition on a call; `Tame` — all calls of a step meet it.

Principal results: `QuarantineArgs.sound_iff` — when the record of a call is sound; `step_log` — what a step
adds to the spool for quarantine are entries of its calls; `quarantine_contract` — both along runs, with the
records of the detection job; `large_sequence_quarantined` — a sequence that JSON does not hold exactly is
written as it is.
-/

namespace OTS.Receiver

/-! ## Calls -/

/-- The arguments of a call of `quarantine`. -/
structure QuarantineArgs where
  reason : String
  detail : PyStr
  sensorId : Option String
  bootId : Option String
  sequence : Option Nat
  raw : Option Bytes

namespace QuarantineArgs

/-- The call for an entry that the reassembler gives up. -/
def givenUp (detail : String) (x : Link.Expired) : QuarantineArgs :=
  ⟨x.reason, pyStr detail, some x.sensorId, some x.bootId, some x.sequence, none⟩

/-- The call for a complete record. -/
def refused (reason : String) (detail : PyStr) (c : Link.Complete) : QuarantineArgs :=
  ⟨reason, detail, some c.sensorId, some c.bootId, some c.sequence, some c.record⟩

variable (args : QuarantineArgs)

/-- The record that is built; `none` when the clock is outside the calendar. -/
def record (wallUs : Int) : Option Json :=
  (invalidRecord wallUs args.reason args.detail args.sensorId args.bootId args.sequence args.raw).map (·.2)

/-- What is spooled of it; `none` when building it raises. -/
def entry (wallUs : Int) : Option Rec :=
  invalidEntry wallUs args.reason args.detail args.sensorId args.bootId args.sequence args.raw

/-- Its fields. -/
def quarantined : Quarantined where
  invalidId := invalidId "receiver" args.reason (args.raw.map sha256Hex) args.sensorId args.bootId
    (args.sequence.map fun n => (n : Int))
  detectedAt := []
  stage := "receiver"
  reasonCode := args.reason
  detail := args.detail.take 512
  sensorId := args.sensorId.map fun s => String.ofList (s.toList.take 63)
  sensorBootId := args.bootId
  sequence := args.sequence
  rawSha256 := args.raw.map sha256Hex
  rawSizeBytes := args.raw.elim 0 List.length
  rawExcerpt := args.raw.bind fun bytes =>
    if args.reason = "frame_hmac_invalid" ∨ args.reason = "frame_malformed" then none
    else some ((decodeReplace bytes).take 2048)

/-- What holds of the arguments of every call. -/
structure Proper : Prop where
  reason : args.reason ∈ REASONS
  bootId : ∀ b ∈ args.bootId, IsUuid b

/-- **The condition on a call**: its clock reads a time of the calendar in a year of four digits, its sequence
is one that JSON holds exactly, its detail has no lone surrogate as far as it is kept, and its bytes are no more
than 2^30. -/
structure InRange (now : Reading) : Prop where
  present : Present now.wallUs
  sequence : ∀ n ∈ args.sequence, n ≤ 9007199254740991
  detail : Encodable (args.detail.take 512)
  size : args.raw.elim 0 List.length ≤ 1073741824

variable {args}

theorem record_eq (wallUs : Int) :
    args.record wallUs = (formatUs wallUs).map fun t => { args.quarantined with detectedAt := t }.json := by
  obtain ⟨reason, detail, sensorId, bootId, sequence, raw⟩ := args
  have hstr : ∀ s : Option String, optStr s = strOrNull (s.map pyStr) := by
    intro s
    cases s <;> rfl
  unfold record invalidRecord quarantined
  simp only [Option.map_map]
  congr 1
  funext t
  simp only [Function.comp, hstr]
  cases raw with
  | none => rfl
  | some bytes =>
    by_cases h : reason = "frame_hmac_invalid" ∨ reason = "frame_malformed"
    · simp only [Option.bind_some, if_pos h]
      rfl
    · simp only [Option.bind_some, if_neg h]
      rfl

theorem Proper.wellFormed (h : args.Proper) : args.quarantined.WellFormed where
  invalidId := uuid5_isUuid _ _
  stage := by simp [quarantined]
  reasonCode := h.reason
  detail := List.length_take_le _ _
  sensorId := by
    intro s hs
    obtain ⟨s, -, rfl⟩ := Option.map_eq_some_iff.1 hs
    rw [String.length_ofList]
    exact List.length_take_le _ _
  sensorBootId := fun b hb => (isUuid_length (h.bootId b hb)).le
  rawSha256 := by
    intro sha hsha
    obtain ⟨bytes, -, rfl⟩ := Option.map_eq_some_iff.1 hsha
    exact ⟨bytes, rfl⟩
  rawExcerpt := by
    intro s hs
    obtain ⟨bytes, -, hs⟩ := Option.bind_eq_some_iff.1 hs
    split at hs
    · cases hs
    · rw [← Option.some.inj hs]
      exact List.length_take_le _ _

/-- **When the record of a call is sound.** -/
theorem sound_iff (rt : Runtime) (h : args.Proper) (now : Reading) :
    OTS.Sound rt (args.record now.wallUs) ↔ args.InRange now := by
  rw [record_eq, Quarantined.sound_iff rt h.wellFormed]
  constructor
  · rintro ⟨hpresent, hs⟩
    exact ⟨hpresent, hs.sequence, hs.detail, hs.size⟩
  · rintro ⟨hpresent, hsequence, hdetail, hsize⟩
    refine ⟨hpresent, hsequence, hsize, hdetail, ?_⟩
    intro s hs
    obtain ⟨bytes, -, hs⟩ := Option.bind_eq_some_iff.1 hs
    split at hs
    · cases hs
    · rw [← Option.some.inj hs]
      exact (decodeReplace_encodable bytes).take _

end QuarantineArgs

/-! ## The places that call it -/

/-- What `_health` finds wrong with a record. -/
def healthRefusal (rt : Runtime) (c : Link.Complete) : Option (String × PyStr) :=
  match ReceiverCore.stampedHealth rt c with
  | none => none
  | some none => some ("json_parse_error", pyStr "health record is not valid UTF-8 JSON")
  | some (some h) =>
    match validate rt sensorHealthContract h with
    | none => none
    | some (e :: errs) => some (reasonOf e.1 "schema_violation", errorDetail (e :: errs))
    | some [] =>
      if (h.field "sensor_id").text ≠ pyStr c.sensorId ∨ (h.field "sensor_boot_id").text ≠ pyStr c.bootId then
        some ("schema_violation", pyStr "health identity does not match link frame identity")
      else none

/-- A health record that is a duplicate, or reordered. -/
def HealthOld (core : ReceiverCore) (c : Link.Complete) : Prop :=
  ((core.healthSeen.get? (streamKey c.sensorId c.bootId)).elim (-1) fun n => (n : Int)) ≥ c.sequence

open QuarantineArgs in
/-- The calls of a step, each with the reading of the clock in it. -/
inductive Makes (hmac : Link.Hmac) (rt : Runtime) (core : ReceiverCore) :
    ReceiverOp → Reading → QuarantineArgs → Prop
  | frame {data : Bytes} {nowUs : Int} {clock : Nat → Reading} {e : Link.FrameError}
    (h : core.codec.decode hmac data = .error e) :
    Makes hmac rt core (.datagram data nowUs clock) (clock 0)
      ⟨e.reason, pyStr e.message, none, none, none, some data⟩
  | evicted {data : Bytes} {nowUs : Int} {clock : Nat → Reading} {f : Link.Frame} {a : Link.Added} {i : Nat}
    {x : Link.Expired} (hf : core.codec.decode hmac data = .ok f) (ha : core.reassembler.add f nowUs = some a)
    (hx : a.expired[i]? = some x) :
    Makes hmac rt core (.datagram data nowUs clock) (clock i) (givenUp "reassembly limit reached" x)
  | event {data : Bytes} {nowUs : Int} {clock : Nat → Reading} {f : Link.Frame} {a : Link.Added}
    {c : Link.Complete} {reason : String} {detail : PyStr} (hf : core.codec.decode hmac data = .ok f)
    (ha : core.reassembler.add f nowUs = some a) (hc : a.complete = some c) (ht : c.type ≠ Link.TYPE_HEALTH)
    (hnew : ¬ core.dedup.Old (identity c)) (hj : judge rt c = .rejected reason detail) :
    Makes hmac rt core (.datagram data nowUs clock) (clock a.expired.length) (refused reason detail c)
  | health {data : Bytes} {nowUs : Int} {clock : Nat → Reading} {f : Link.Frame} {a : Link.Added}
    {c : Link.Complete} {reason : String} {detail : PyStr} (hf : core.codec.decode hmac data = .ok f)
    (ha : core.reassembler.add f nowUs = some a) (hc : a.complete = some c) (ht : c.type = Link.TYPE_HEALTH)
    (hnew : ¬ HealthOld core c) (hj : healthRefusal rt c = some (reason, detail)) :
    Makes hmac rt core (.datagram data nowUs clock) (clock a.expired.length) (refused reason detail c)
  | incomplete {nowUs : Int} {clock : Nat → Reading} {monotonic : Rat} {i : Nat} {x : Link.Expired}
    (hx : (core.reassembler.expire nowUs).1[i]? = some x) :
    Makes hmac rt core (.housekeeping nowUs clock monotonic) (clock i) (givenUp "fragments incomplete" x)
  | stoppedIncomplete {nowUs : Int} {clock : Nat → Reading} {n kept stable i : Nat} {monotonic : Rat}
    {x : Link.Expired} (hx : (core.reassembler.expire nowUs).1[i]? = some x) :
    Makes hmac rt core (.crash (some ⟨none, nowUs, clock, n⟩) kept stable monotonic) (clock i)
      (givenUp "fragments incomplete" x)
  | stoppedEvicted {data : Bytes} {nowUs : Int} {clock : Nat → Reading} {n kept stable i : Nat} {monotonic : Rat}
    {f : Link.Frame} {a : Link.Added} {x : Link.Expired} (hf : core.codec.decode hmac data = .ok f)
    (ha : core.reassembler.add f nowUs = some a) (hx : a.expired[i]? = some x) :
    Makes hmac rt core (.crash (some ⟨some data, nowUs, clock, n⟩) kept stable monotonic) (clock i)
      (givenUp "reassembly limit reached" x)

/-! ## What a step adds to the spool -/

/-- What is new of quarantine are entries of calls. -/
def LogFrom (P : Reading → QuarantineArgs → Prop) (old new : List Entry) : Prop :=
  ∀ e ∈ new, e ∈ old ∨ e.record.topic ≠ TOPIC_INVALID ∨
    ∃ now args, P now args ∧ args.entry now.wallUs = some e.record

/-- An element of a prefix stands at the same place of the list. -/
theorem getElem?_of_take {α : Type} {xs : List α} {n i : Nat} {x : α} (h : (xs.take n)[i]? = some x) :
    xs[i]? = some x := by
  rw [List.getElem?_take] at h
  split at h
  · exact h
  · cases h

section Log

variable {hmac : Link.Hmac} {rt : Runtime} {cfg : Config} {core core' : ReceiverCore} {P : Reading → QuarantineArgs → Prop}

theorem LogFrom.refl (log : List Entry) : LogFrom P log log := fun _ he => .inl he

theorem LogFrom.trans {a b c : List Entry} (h : LogFrom P a b) (h' : LogFrom P b c) : LogFrom P a c := by
  intro e he
  rcases h' e he with he | he
  · exact h e he
  · exact .inr he

theorem append_log {r : Rec} {b : Bool} (h : core.append r = some (b, core'))
    (hr : r.topic ≠ TOPIC_INVALID ∨ ∃ now args, P now args ∧ args.entry now.wallUs = some r) :
    LogFrom P core.sys.log core'.sys.log := by
  cases b with
  | false =>
    rw [refused_append h]
    exact .refl _
  | true =>
    obtain ⟨sys, ⟨spool, disk, -, rfl⟩, rfl⟩ := append_accepted h
    intro e he
    rcases List.mem_append.1 he with he | he
    · exact .inl he
    · rw [List.mem_singleton.1 he]
      exact .inr hr

theorem quarantine_log {now : Reading} {args : QuarantineArgs} {b : Bool} (hargs : P now args)
    (h : core.quarantine now args.reason args.detail args.sensorId args.bootId args.sequence args.raw =
      (core', b)) : LogFrom P core.sys.log core'.sys.log := by
  unfold ReceiverCore.quarantine at h
  simp only at h
  split at h
  · cases h
    exact .refl _
  split at h
  · cases h
    exact .refl _
  rename_i r hr
  split at h
  · cases h
    exact .refl _
  · rename_i hsome
    cases h
    have hlog := append_log (P := P) hsome (.inr ⟨now, args, hargs, hr⟩)
    exact hlog

theorem quarantineAll_log (clock : Nat → Reading) (detail : String) (xs : List Link.Expired) :
    ∀ (k : Nat) (core : ReceiverCore),
      (∀ i x, xs[i]? = some x → P (clock (k + i)) (.givenUp detail x)) →
      LogFrom P core.sys.log (ReceiverCore.quarantineAll clock detail k core xs).1.sys.log := by
  induction xs with
  | nil => exact fun k core _ => .refl _
  | cons x xs ih =>
    intro k core hxs
    have hfirst := hxs 0 x rfl
    have hrest : ∀ i y, xs[i]? = some y → P (clock (k + 1 + i)) (.givenUp detail y) := by
      intro i y hy
      have hnext := hxs (i + 1) y hy
      rwa [Nat.add_right_comm]
    unfold ReceiverCore.quarantineAll
    split
    · rename_i core' h
      exact quarantine_log hfirst h
    · rename_i core' h
      exact (quarantine_log hfirst h).trans (ih (k + 1) core' hrest)

theorem event_log {now : Reading} {c : Link.Complete}
    (hP : ∀ reason detail, ¬ core.dedup.Old (identity c) → judge rt c = .rejected reason detail →
      P now (.refused reason detail c)) :
    LogFrom P core.sys.log (core.event rt now c).1.sys.log := by
  unfold ReceiverCore.event
  split
  · exact .refl _
  · exact .refl _
  rename_i hdup hstale
  have hnew : ¬ core.dedup.Old (identity c) := fun h => h.elim hdup hstale
  split
  · exact .refl _
  · rename_i reason detail hj
    have hargs := hP reason detail hnew hj
    simp only
    split
    · rename_i h
      have hlog := quarantine_log hargs h
      exact hlog
    · rename_i h
      have hlog := quarantine_log hargs h
      exact hlog
  · split
    · exact .refl _
    rename_i ev _ r hr
    have hraw : r.topic ≠ TOPIC_INVALID := by
      rw [(rawRecord_isRaw hr).topic]
      decide
    split
    · exact .refl _
    · rename_i happend
      exact append_log happend (.inl hraw)
    · rename_i happend
      have hlog := append_log (P := P) happend (.inl hraw)
      exact hlog

theorem health_log {now : Reading} {c : Link.Complete}
    (hP : ∀ reason detail, ¬ HealthOld core c → healthRefusal rt c = some (reason, detail) →
      P now (.refused reason detail c)) :
    LogFrom P core.sys.log (core.health rt now c).1.sys.log := by
  unfold ReceiverCore.health
  simp only
  split
  · exact .refl _
  rename_i hnew
  have hlog := fun (reason : String) (detail : PyStr) (hj : healthRefusal rt c = some (reason, detail)) =>
    @quarantine_log { core with healthSeen := core.healthSeen.set (streamKey c.sensorId c.bootId) c.sequence }
      _ P now _ _ (hP reason detail hnew hj) rfl
  have href : healthRefusal rt c = healthRefusal rt c := rfl
  conv at href => rhs; unfold healthRefusal
  split
  · exact .refl _
  · rename_i h
    rw [h] at href
    exact hlog _ _ href
  rename_i h hs
  rw [hs] at href
  simp only at href
  split
  · exact .refl _
  · rename_i hv
    rw [hv] at href
    exact hlog _ _ href
  rename_i hv
  rw [hv] at href
  simp only at href
  split
  · rename_i hid
    rw [if_pos hid] at href
    exact hlog _ _ href
  split
  · split
    · exact .refl _
    · rename_i happend
      have hrecord := append_log (P := P) happend (.inl (show TOPIC_HEALTH ≠ TOPIC_INVALID by decide))
      exact hrecord
  · exact .refl _

theorem handleDatagram_log (data : Bytes) (nowUs : Int) (clock : Nat → Reading) :
    LogFrom (Makes hmac rt core (.datagram data nowUs clock)) core.sys.log
      (core.handleDatagram hmac rt data nowUs clock).1.sys.log := by
  unfold ReceiverCore.handleDatagram
  split
  · rename_i e he
    have hlog := @quarantine_log core _ (Makes hmac rt core (.datagram data nowUs clock)) _ _ _ (.frame he) rfl
    exact hlog
  rename_i f hf
  split
  · exact .refl _
  rename_i a ha
  simp only
  have hgiven := quarantineAll_log (P := Makes hmac rt core (.datagram data nowUs clock)) clock
    "reassembly limit reached" a.expired 0 { core with reassembler := a.reassembler } fun i x hx => by
      rw [Nat.zero_add]
      exact .evicted hf ha hx
  have hsame := quarantineAll_ideal clock "reassembly limit reached" a.expired 0
    { core with reassembler := a.reassembler }
  generalize ReceiverCore.quarantineAll clock "reassembly limit reached" 0
    { core with reassembler := a.reassembler } a.expired = q at hgiven hsame ⊢
  obtain ⟨core', b⟩ := q
  have hdedup : core'.dedup = core.dedup := congrArg Ideal.dedup hsame
  have hseen : core'.healthSeen = core.healthSeen := congrArg Ideal.healthSeen hsame
  cases b with
  | false => exact hgiven
  | true =>
    simp only
    split
    · exact hgiven
    rename_i c hc
    split
    · rename_i ht
      refine hgiven.trans (health_log fun reason detail hnew hj => ?_)
      have hnew' : ¬ HealthOld core c := by
        unfold HealthOld at hnew ⊢
        rwa [hseen] at hnew
      exact .health hf ha hc ht hnew' hj
    · rename_i ht
      refine hgiven.trans (event_log fun reason detail hnew hj => ?_)
      rw [hdedup] at hnew
      exact .event hf ha hc ht hnew hj

theorem housekeeping_log (nowUs : Int) (clock : Nat → Reading) (monotonic : Rat) :
    LogFrom (Makes hmac rt core (.housekeeping nowUs clock monotonic)) core.sys.log
      (core.housekeeping nowUs clock monotonic).1.sys.log := by
  have hgiven := quarantineAll_log (P := Makes hmac rt core (.housekeeping nowUs clock monotonic)) clock
    "fragments incomplete" (core.reassembler.expire nowUs).1 0
    { core with reassembler := (core.reassembler.expire nowUs).2 } fun i x hx => by
      rw [Nat.zero_add]
      exact .incomplete hx
  unfold ReceiverCore.housekeeping
  simp only
  generalize ReceiverCore.quarantineAll clock "fragments incomplete" 0
    { core with reassembler := (core.reassembler.expire nowUs).2 } (core.reassembler.expire nowUs).1 = q
    at hgiven ⊢
  obtain ⟨core', b⟩ := q
  cases b with
  | false => exact hgiven
  | true =>
    simp only
    split
    · exact hgiven
    · exact hgiven

theorem stop_log (call : ReceiverCore.Stopped) (kept stable : Nat) (monotonic : Rat) :
    LogFrom (Makes hmac rt core (.crash (some call) kept stable monotonic)) core.sys.log
      (core.stop hmac call).sys.log := by
  obtain ⟨data, nowUs, clock, n⟩ := call
  unfold ReceiverCore.stop
  cases data with
  | none =>
    refine quarantineAll_log clock "fragments incomplete" _ 0 core fun i x hx => ?_
    rw [Nat.zero_add]
    exact .stoppedIncomplete (getElem?_of_take hx)
  | some data =>
    simp only
    split
    · exact .refl _
    rename_i f hf
    split
    · exact .refl _
    rename_i a ha
    refine quarantineAll_log clock "reassembly limit reached" _ 0 core fun i x hx => ?_
    rw [Nat.zero_add]
    exact .stoppedEvicted hf ha (getElem?_of_take hx)

/-- **What a step adds to the spool for quarantine are entries of its calls.** -/
theorem step_log {s s' : ReceiverSys} {op : ReceiverOp} (h : s.step hmac rt cfg op = some s') :
    LogFrom (Makes hmac rt s.core op) s.core.sys.log s'.core.sys.log := by
  cases op with
  | datagram data nowUs clock =>
    cases h
    exact handleDatagram_log data nowUs clock
  | housekeeping nowUs clock monotonic =>
    cases h
    exact housekeeping_log nowUs clock monotonic
  | release acked =>
    cases h
    exact .refl _
  | crash call kept stable monotonic =>
    have hended : LogFrom (Makes hmac rt s.core (.crash call kept stable monotonic)) s.core.sys.log
        (s.ended hmac call).sys.log := by
      cases call with
      | none => exact .refl _
      | some call => exact stop_log call kept stable monotonic
    simp only [ReceiverSys.step] at h
    split at h
    · cases h
    rename_i sys hsys
    obtain ⟨core', hboot, rfl⟩ := Option.map_eq_some_iff.1 h
    obtain ⟨dedup, -, rfl⟩ := Option.map_eq_some_iff.1 hboot
    simp only [SpoolSys.step] at hsys
    split at hsys
    · cases hsys
      exact fun e he => hended e (List.mem_of_mem_filter he)
    · cases hsys

end Log

/-! ## What every reachable receiver holds -/

/-- What every reachable receiver holds of its incomplete records. -/
def Healthy (core : ReceiverCore) : Prop := core.reassembler.All fun k p => k.Legit ∧ Link.Fits p

section Invariant

variable {hmac : Link.Hmac} {rt : Runtime} {cfg : Config} {core core' : ReceiverCore}

/-- What is given up under a legitimate key is put into quarantine properly. -/
theorem givenUp_proper {reasons : List String} (hreasons : ∀ reason ∈ reasons, reason ∈ REASONS) (detail : String)
    {x : Link.Expired} (h : Link.Reassembler.All.GivenUp (fun k p => k.Legit ∧ Link.Fits p) reasons x) :
    (QuarantineArgs.givenUp detail x).Proper := by
  obtain ⟨reason, hreason, k, p, ⟨hk, -⟩, rfl⟩ := h
  refine ⟨hreasons reason hreason, fun b hb => ?_⟩
  rw [← Option.some.inj hb]
  exact hk.bootId

/-- **One frame.**  What is given up has a legitimate identity, and what is completed is framed. -/
theorem Healthy.add (h : Healthy core) {data : Bytes} {f : Link.Frame} {nowUs : Int} {a : Link.Added}
    (hf : core.codec.decode hmac data = .ok f) (ha : core.reassembler.add f nowUs = some a) :
    a.reassembler.All (fun k p => k.Legit ∧ Link.Fits p) ∧
      (∀ x ∈ a.expired, (QuarantineArgs.givenUp "reassembly limit reached" x).Proper) ∧
      ∀ c, a.complete = some c → Framed c := by
  obtain ⟨hkey, hcount, hchunk⟩ := Link.decode_bounds hf
  obtain ⟨hkept, hgiven, hdone⟩ := Link.Reassembler.All.add h ⟨hkey, (Link.Fits.fresh hcount nowUs).put hchunk⟩
    (fun p hp => ⟨hp.1, hp.2.put hchunk⟩) ha
  refine ⟨hkept, fun x hx => givenUp_proper (by decide) _ (hgiven x hx), fun c hc => ?_⟩
  have hrecord : c.record.length ≤ Link.MAX_RECORD_BYTES := by
    rcases hdone c hc with rfl | ⟨p, ⟨-, hfits⟩, rfl⟩
    · exact Nat.le_trans hchunk (by decide)
    · exact hfits.join_length
  have hid := add_complete ha hc
  have hsensor : c.sensorId = f.sensorId := congrArg Identity.sensorId hid
  have hboot : c.bootId = f.bootId := congrArg Identity.bootId hid
  have hseq : c.sequence = f.sequence := congrArg Identity.sequence hid
  exact ⟨hsensor ▸ hkey.sensorId, hboot ▸ hkey.bootId, hseq ▸ hkey.sequence, hrecord⟩

/-- **The completion timeout.** -/
theorem Healthy.expire (h : Healthy core) (nowUs : Int) :
    (core.reassembler.expire nowUs).2.All (fun k p => k.Legit ∧ Link.Fits p) ∧
      ∀ x ∈ (core.reassembler.expire nowUs).1, (QuarantineArgs.givenUp "fragments incomplete" x).Proper := by
  obtain ⟨hkept, hgiven⟩ := Link.Reassembler.All.expire h nowUs
  exact ⟨hkept, fun x hx => givenUp_proper (by decide) _ (hgiven x hx)⟩

theorem append_reassembler {r : Rec} {b : Bool} (h : core.append r = some (b, core')) :
    core'.reassembler = core.reassembler := by
  cases b with
  | false => rw [refused_append h]
  | true =>
    obtain ⟨sys, -, rfl⟩ := append_accepted h
    rfl

theorem quarantine_reassembler (core : ReceiverCore) (now : Reading) (reason : String) (detail : PyStr)
    (sensorId bootId : Option String) (seq : Option Nat) (raw : Option Bytes) :
    (core.quarantine now reason detail sensorId bootId seq raw).1.reassembler = core.reassembler :=
  congrArg Ideal.reassembler (quarantine_ideal core now reason detail sensorId bootId seq raw)

theorem quarantineAll_reassembler (clock : Nat → Reading) (detail : String) (xs : List Link.Expired) (i : Nat)
    (core : ReceiverCore) :
    (ReceiverCore.quarantineAll clock detail i core xs).1.reassembler = core.reassembler :=
  congrArg Ideal.reassembler (quarantineAll_ideal clock detail xs i core)

theorem event_reassembler (now : Reading) (c : Link.Complete) :
    (core.event rt now c).1.reassembler = core.reassembler := by
  unfold ReceiverCore.event
  split
  · rfl
  · rfl
  split
  · rfl
  · rename_i reason detail hj
    have hq := quarantine_reassembler { core.mark c with rejected := core.rejected ++ [identity c] } now reason
      detail c.sensorId c.bootId c.sequence c.record
    simp only
    split
    · rename_i h
      rw [h] at hq
      exact hq
    · rename_i h
      rw [h] at hq
      exact hq
  · split
    · rfl
    split
    · rfl
    · rename_i happend
      exact append_reassembler happend
    · rename_i happend
      have hkept := append_reassembler happend
      exact hkept

theorem health_reassembler (now : Reading) (c : Link.Complete) :
    (core.health rt now c).1.reassembler = core.reassembler := by
  have hreject := fun (reason : String) (detail : PyStr) =>
    quarantine_reassembler { core with healthSeen := core.healthSeen.set (streamKey c.sensorId c.bootId) c.sequence }
      now reason detail c.sensorId c.bootId c.sequence c.record
  unfold ReceiverCore.health
  simp only
  split
  · rfl
  split
  · rfl
  · exact hreject _ _
  split
  · rfl
  · exact hreject _ _
  split
  · exact hreject _ _
  split
  · split
    · rfl
    · rename_i happend
      have hkept := append_reassembler happend
      exact hkept
  · rfl

theorem Healthy.datagram (h : Healthy core) (data : Bytes) (nowUs : Int) (clock : Nat → Reading) :
    Healthy (core.handleDatagram hmac rt data nowUs clock).1 := by
  unfold ReceiverCore.handleDatagram
  split
  · rename_i e he
    have hkept := quarantine_reassembler core (clock 0) e.reason (pyStr e.message) none none none data
    exact cast (congrArg (Link.Reassembler.All _) hkept.symm) h
  rename_i f hf
  split
  · exact h
  rename_i a ha
  have hadded := (h.add hf ha).1
  have hkept := quarantineAll_reassembler clock "reassembly limit reached" a.expired 0
    { core with reassembler := a.reassembler }
  simp only
  generalize ReceiverCore.quarantineAll clock "reassembly limit reached" 0
    { core with reassembler := a.reassembler } a.expired = q at hkept ⊢
  obtain ⟨core', b⟩ := q
  have hhealthy : Healthy core' := cast (congrArg (Link.Reassembler.All _) hkept.symm) hadded
  cases b with
  | false => exact hhealthy
  | true =>
    simp only
    split
    · exact hhealthy
    split
    · exact cast (congrArg (Link.Reassembler.All _) (health_reassembler _ _).symm) hhealthy
    · exact cast (congrArg (Link.Reassembler.All _) (event_reassembler _ _).symm) hhealthy

theorem Healthy.housekeeping (h : Healthy core) (nowUs : Int) (clock : Nat → Reading) (monotonic : Rat) :
    Healthy (core.housekeeping nowUs clock monotonic).1 := by
  have hkept : (core.housekeeping nowUs clock monotonic).1.reassembler = (core.reassembler.expire nowUs).2 :=
    congrArg Ideal.reassembler (housekeeping_ideal core nowUs clock monotonic)
  exact cast (congrArg (Link.Reassembler.All _) hkept.symm) (h.expire nowUs).1

theorem Healthy.step {s s' : ReceiverSys} {op : ReceiverOp} (h : Healthy s.core)
    (hs : s.step hmac rt cfg op = some s') : Healthy s'.core := by
  cases op with
  | datagram data nowUs clock =>
    cases hs
    exact h.datagram data nowUs clock
  | housekeeping nowUs clock monotonic =>
    cases hs
    exact h.housekeeping nowUs clock monotonic
  | release acked =>
    cases hs
    exact h
  | crash call kept stable monotonic =>
    simp only [ReceiverSys.step] at hs
    split at hs
    · cases hs
    obtain ⟨core', hboot, rfl⟩ := Option.map_eq_some_iff.1 hs
    obtain ⟨dedup, -, rfl⟩ := Option.map_eq_some_iff.1 hboot
    exact .empty _ _

theorem healthy_reach {C : ReceiverSys → ReceiverOp → Prop} {s : ReceiverSys}
    (h : (receiver hmac rt cfg).Reach C s) : Healthy s.core := by
  have hinit : Healthy (ReceiverSys.init cfg).core := Link.Reassembler.All.empty 4096 2000000
  exact h.invariant (I := fun s => Healthy s.core) hinit fun _ _ _ hs _ hstep => hs.step hstep

end Invariant

/-! ## The contract -/

/-- Every reason of `_validate_event` is one of the contract. -/
theorem judge_reason {rt : Runtime} {c : Link.Complete} {reason : String} {detail : PyStr}
    (h : judge rt c = .rejected reason detail) : reason ∈ REASONS := by
  have hspec := judge_spec rt c
  rw [h] at hspec
  cases hspec with
  | noObject => decide
  | errors =>
    unfold reasonOf
    split_ifs <;> decide
  | checked _ _ hj =>
    cases hj
    decide

/-- Every reason of `_health` is one of the contract. -/
theorem healthRefusal_reason {rt : Runtime} {c : Link.Complete} {reason : String} {detail : PyStr}
    (h : healthRefusal rt c = some (reason, detail)) : reason ∈ REASONS := by
  unfold healthRefusal at h
  split at h
  · cases h
  · cases h
    decide
  split at h
  · cases h
  · cases h
    unfold reasonOf
    split_ifs <;> decide
  split at h
  · cases h
    decide
  · cases h

section Contract

variable {hmac : Link.Hmac} {rt : Runtime} {cfg : Config} {core : ReceiverCore}

/-- **What holds of the arguments of every call.** -/
theorem Makes.proper {op : ReceiverOp} {now : Reading} {args : QuarantineArgs}
    (h : Makes hmac rt core op now args) (hcore : Healthy core) : args.Proper := by
  have hrefused : ∀ {c : Link.Complete} {reason : String} {detail : PyStr}, Framed c → reason ∈ REASONS →
      (QuarantineArgs.refused reason detail c).Proper := by
    intro c reason detail hc hreason
    refine ⟨hreason, fun b hb => ?_⟩
    rw [← Option.some.inj hb]
    exact hc.bootId
  cases h with
  | frame h =>
    refine ⟨?_, fun b hb => absurd hb (Option.not_mem_none _)⟩
    have hreasons : ∀ r ∈ ["frame_malformed", "frame_hmac_invalid"], r ∈ REASONS := by decide
    exact hreasons _ (Link.decode_reason h)
  | evicted hf ha hx => exact (hcore.add hf ha).2.1 _ (List.mem_of_getElem? hx)
  | event hf ha hc ht hnew hj => exact hrefused ((hcore.add hf ha).2.2 _ hc) (judge_reason hj)
  | health hf ha hc ht hnew hj => exact hrefused ((hcore.add hf ha).2.2 _ hc) (healthRefusal_reason hj)
  | incomplete hx => exact (hcore.expire _).2 _ (List.mem_of_getElem? hx)
  | stoppedIncomplete hx => exact (hcore.expire _).2 _ (List.mem_of_getElem? hx)
  | stoppedEvicted hf ha hx => exact (hcore.add hf ha).2.1 _ (List.mem_of_getElem? hx)

/-- What the socket delivers is never too long for the contract, and neither is a record. -/
theorem Makes.size {op : ReceiverOp} {now : Reading} {args : QuarantineArgs}
    (h : Makes hmac rt core op now args) (hcore : Healthy core)
    (hop : ∀ data nowUs clock, op = .datagram data nowUs clock → data.length ≤ 65535) :
    args.raw.elim 0 List.length ≤ 1073741824 := by
  have hrecord : ∀ {c : Link.Complete}, Framed c → c.record.length ≤ 1073741824 :=
    fun hc => hc.record.trans (by decide)
  cases h with
  | frame h => exact (hop _ _ _ rfl).trans (by decide)
  | event hf ha hc ht hnew hj => exact hrecord ((hcore.add hf ha).2.2 _ hc)
  | health hf ha hc ht hnew hj => exact hrecord ((hcore.add hf ha).2.2 _ hc)
  | evicted | incomplete | stoppedIncomplete | stoppedEvicted => exact Nat.zero_le _

/-- Every call of the step is in range. -/
def Tame (hmac : Link.Hmac) (rt : Runtime) (s : ReceiverSys) (op : ReceiverOp) : Prop :=
  ∀ now args, Makes hmac rt s.core op now args → args.InRange now

/-- The value of a record is an object that passes the contract, as UTF-8. -/
def Conforming (rt : Runtime) (r : Rec) : Prop :=
  ∃ v, validate rt invalidEventContract v = some [] ∧ v.dumpBytes = some r.value

theorem QuarantineArgs.entry_conforming {args : QuarantineArgs} {wallUs : Int} {r : Rec}
    (hs : OTS.Sound rt (args.record wallUs)) (h : args.entry wallUs = some r) : Conforming rt r := by
  obtain ⟨v, hv, hpass, -⟩ := hs
  obtain ⟨⟨id, v'⟩, hrecord, rfl⟩ := Option.map_eq_some_iff.1 hv
  unfold QuarantineArgs.entry invalidEntry at h
  rw [hrecord] at h
  simp only at h
  split at h
  · cases h
  · rename_i value hvalue
    cases h
    exact ⟨v', hpass, hvalue⟩

/-- **In a run whose calls are all in range, every record in quarantine conforms.** -/
theorem quarantine_conforming {s : ReceiverSys} (h : (receiver hmac rt cfg).Reach (Tame hmac rt) s) :
    ∀ e ∈ s.core.sys.log, e.record.topic = TOPIC_INVALID → Conforming rt e.record := by
  induction h with
  | init => exact fun e he => absurd he List.not_mem_nil
  | step hs htame hstep ih =>
    intro e he htopic
    rcases step_log hstep e he with hold | hother | ⟨now, args, hargs, hentry⟩
    · exact ih e hold htopic
    · exact absurd htopic hother
    · have hsound := (args.sound_iff rt (hargs.proper (healthy_reach hs)) now).2 (htame now args hargs)
      exact QuarantineArgs.entry_conforming hsound hentry

/-- **Quarantined records and their contract.**  The record of a call of the receiver is sound exactly when
the call is in range, in a run whose calls are all in range every record in quarantine conforms, and the
record of the detection job is sound exactly when its clock reads a time of the calendar and the string is
one that UTF-8 holds, as far as it is quoted, and not too long. -/
theorem quarantine_contract (hmac : Link.Hmac) (rt : Runtime) (cfg : Config) (tx : Detect.Texts) :
    (∀ s op now args, (receiver hmac rt cfg).Reach (fun _ _ => True) s → Makes hmac rt s.core op now args →
      (OTS.Sound rt (args.record now.wallUs) ↔ args.InRange now)) ∧
    (∀ s, (receiver hmac rt cfg).Reach (Tame hmac rt) s →
      ∀ e ∈ s.core.sys.log, e.record.topic = TOPIC_INVALID → Conforming rt e.record) ∧
    ∀ raw reason detail wallUs, Detect.parse rt tx raw = .error (.invalid reason detail) →
      (OTS.Sound rt (Detect.invalidRecord wallUs raw reason detail) ↔
        Present wallUs ∧ Encodable (raw.take 2048) ∧ (Detect.encodeReplace raw).length ≤ 1073741824) := by
  refine ⟨fun s op now args hs hargs => ?_, fun s hs => quarantine_conforming hs, ?_⟩
  · exact args.sound_iff rt (hargs.proper (healthy_reach hs)) now
  · exact fun raw reason detail wallUs h => Detect.refused_sound_iff h wallUs

end Contract

/-! ## A sequence that JSON does not hold exactly -/

/-- A record that is not JSON, with the sequence 2^53. -/
def largeSequence : Link.Complete where
  type := Link.TYPE_EVENT
  sensorId := "ot-sensor-01"
  bootId := sampleBoot
  sequence := 9007199254740992
  record := [0x78]
  receivedAtUs := 1788249610000000

/-- The call for it. -/
def largeCall : QuarantineArgs :=
  .refused "json_parse_error" (pyStr "record is not valid UTF-8 JSON") largeSequence

theorem largeSequence_decode :
    sampleConfig.codec.decode hmacSha256 (sampleDatagram largeSequence) = .ok (wholeFrame largeSequence) := by
  refine decode_sampleDatagram ?_ (by decide)
  exact {
    type := .inl rfl
    sensorId := show Link.SensorIdOk "ot-sensor-01" from .of_all (by decide) (by decide) (by decide)
    bootId := (sampleIdentity_legit 0).2
    sequence := by decide
    record_pos := by decide
    record_le := by decide }

theorem largeCall_made : Makes hmacSha256 sampleRuntime (ReceiverSys.init sampleConfig).core
    (.datagram (sampleDatagram largeSequence) 1788249610000000 sampleClock) (sampleClock 0) largeCall :=
  .event largeSequence_decode (a := ⟨(ReceiverSys.init sampleConfig).core.reassembler, [], some largeSequence⟩) rfl
    rfl (by decide) (by rintro (h | h) <;> cases h) rfl

/-- **A sequence that JSON does not hold exactly is written as it is**, outside the range of the contract. -/
theorem large_sequence_quarantined : ¬ ∀ (hmac : Link.Hmac) (rt : Runtime) (cfg : Config) (s s' : ReceiverSys)
    (op : ReceiverOp) (now : Reading) (args : QuarantineArgs), (receiver hmac rt cfg).Reach (fun _ _ => True) s →
      s.step hmac rt cfg op = some s' → Makes hmac rt s.core op now args →
      (∃ e ∈ s'.core.sys.log, args.entry now.wallUs = some e.record) →
      OTS.Sound rt (args.record now.wallUs) := by
  intro hclaim
  have hreach : (receiver hmacSha256 sampleRuntime sampleConfig).Reach (fun _ _ => True)
      (ReceiverSys.init sampleConfig) := .init
  obtain ⟨core', hcore'⟩ : ∃ core', core' = ((ReceiverSys.init sampleConfig).core.handleDatagram hmacSha256
      sampleRuntime (sampleDatagram largeSequence) 1788249610000000 sampleClock).1 := ⟨_, rfl⟩
  have hstep : (ReceiverSys.init sampleConfig).step hmacSha256 sampleRuntime sampleConfig
      (.datagram (sampleDatagram largeSequence) 1788249610000000 sampleClock) = some ⟨core', none⟩ := by
    rw [hcore']
    rfl
  have hwritten : ∃ e ∈ core'.sys.log, largeCall.entry (sampleClock 0).wallUs = some e.record := by
    rw [hcore']
    decide +kernel
  have hsound := hclaim _ _ _ _ _ _ _ _ hreach hstep largeCall_made hwritten
  have hcore : Healthy (ReceiverSys.init sampleConfig).core := Link.Reassembler.All.empty 4096 2000000
  have hrange := (largeCall.sound_iff sampleRuntime (largeCall_made.proper hcore) (sampleClock 0)).1 hsound
  have hsequence : largeCall.sequence = some 9007199254740992 := rfl
  exact absurd (hrange.sequence 9007199254740992 hsequence) (by decide)

end OTS.Receiver
