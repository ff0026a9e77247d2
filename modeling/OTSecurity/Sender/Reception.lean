import OTSecurity.Detect.Agreement
import OTSecurity.Sender.Conformance

/-!
# What becomes of an envelope

The envelope that the sender writes, in the hands of the receiver and of the detection job.

* `EnvelopeContext.Configured` — what `Settings.validate` and the callers of `envelope` promise.
* `InRange` — the condition on the clocks and the offset.

Principal result: `sent_record_accepted` — the receiver accepts an envelope exactly when it is in range, and
then the record is spooled and the detection job parses it.
-/

namespace OTS.Sender

open Json (Readable Unicode unicode_pyStr dictGet)
open Schema

/-! ## The maps of an envelope -/

theorem dictGet_entries {α : Type} (d : ODict String α) (f : α → Json) (k : String) :
    dictGet (d.entries.map fun e => (pyStr e.1, f e.2)) (pyStr k) = (d.get? k).map f := by
  unfold dictGet ODict.get?
  have hkeys : (fun m : PyStr × Json => decide (m.1 = pyStr k)) ∘ (fun e : String × α => (pyStr e.1, f e.2)) =
      fun e => decide (e.1 = k) := by
    funext e
    exact decide_eq_decide.2 ⟨fun h => pyStr_inj h, fun h => congrArg pyStr h⟩
  rw [List.find?_map, hkeys, Option.map_map, Option.map_map]
  rfl

theorem dictGet_keyed (d : ODict String Json) (k : String) : dictGet (keyed d) (pyStr k) = d.get? k :=
  (dictGet_entries d id k).trans (congrFun Option.map_id _)

theorem dictGet_keyedText (d : ODict String String) (k : String) :
    dictGet (keyedText d) (pyStr k) = (d.get? k).map fun s => .str (pyStr s) :=
  dictGet_entries d (fun s => .str (pyStr s)) k

theorem keys_nodup {α : Type} (d : ODict String α) (f : α → Json) :
    ((d.entries.map fun e => (pyStr e.1, f e.2)).map (·.1)).Nodup := by
  have hkeys : (d.entries.map fun e => (pyStr e.1, f e.2)).map (·.1) = (d.entries.map (·.1)).map pyStr := by
    rw [List.map_map, List.map_map]
    rfl
  rw [hkeys]
  exact d.nodup.map fun _ _ h => pyStr_inj h

/-- The name of a field, as the maps of availability want it. -/
def fieldName : Schema :=
  pattern (Regex.seq [Regex.run lower 1 1, Regex.run (fun c => lower c || digit c || oneOf "_" c) 0 63])

theorem payloadProps_names : ∀ q ∈ payloadProps, q.2.length ≤ 64 ∧
    ∀ p ∈ q.2, fieldName (.str (pyStr p.1)) = true := by decide +kernel

section Maps

variable {b : Builder} {ps : List (String × Schema)}

/-- **The payload conforms to the schema.** -/
theorem Builder.Good.record (h : b.Good ps) : record ps (.obj (keyed b.payload)) = true := by
  refine record_iff.2 ⟨fun m hm => ?_, fun p hp => ?_⟩
  · obtain ⟨e, he, rfl⟩ := List.mem_map.1 hm
    have hname := h.names e.1 (ODict.get?_isSome.2 (List.mem_map_of_mem he))
    obtain ⟨p, hp, heq⟩ := List.mem_map.1 hname
    exact ⟨p, hp, congrArg pyStr heq⟩
  · rw [dictGet_keyed]
    exact h.values p hp

/-- A map from fields to texts. -/
theorem map_conforms {d : ODict String String} {value : Schema} (hlen : ps.length ≤ 64)
    (hnames : ∀ p ∈ ps, fieldName (.str (pyStr p.1)) = true) (hkeys : ∀ f ∈ d.keys, f ∈ ps.map (·.1))
    (hvalues : ∀ f s, d.get? f = some s → value (.str (pyStr s)) = true) :
    Defs.availabilityMap value (.obj (keyedText d)) = true := by
  unfold Defs.availabilityMap
  rw [all_iff, List.forall_mem_cons, List.forall_mem_cons, List.forall_mem_cons, List.forall_mem_singleton]
  refine ⟨rfl, ?_, ?_, ?_⟩
  · show decide ((keyedText d).length ≤ 64) = true
    have hsub := (List.subperm_of_subset (show d.keys.Nodup from d.nodup) hkeys).length_le
    rw [decide_eq_true_eq, keyedText, List.length_map]
    rw [ODict.keys, List.length_map, List.length_map] at hsub
    exact hsub.trans hlen
  · show (keyedText d).all _ = true
    rw [List.all_eq_true]
    intro m hm
    obtain ⟨e, he, rfl⟩ := List.mem_map.1 hm
    obtain ⟨p, hp, heq⟩ := List.mem_map.1 (hkeys e.1 (List.mem_map_of_mem he))
    rw [← heq]
    exact hnames p hp
  · show (keyedText d).all _ = true
    rw [List.all_eq_true]
    intro m hm
    obtain ⟨e, he, rfl⟩ := List.mem_map.1 hm
    rw [Bool.or_eq_true]
    exact .inr (hvalues e.1 e.2 (ODict.mem_entries.1 he))

theorem Builder.Good.availability (h : b.Good ps) (hlen : ps.length ≤ 64)
    (hnames : ∀ p ∈ ps, fieldName (.str (pyStr p.1)) = true) :
    Defs.availabilityMap (enum [some "MISSING", some "NOT_APPLICABLE", some "UNKNOWN"])
      (.obj (keyedText b.availability)) = true := by
  refine map_conforms hlen hnames (fun f hf => h.names f ?_) fun f s hs => ?_
  · have hnull := (h.consistent.state f).1 (ODict.get?_isSome.2 hf)
    obtain ⟨v, hv, -⟩ := (Option.any_eq_true _ _).1 hnull
    rw [hv]
    rfl
  · exact @Quarantined.enum_of_mem STATES s (h.states f s hs)

theorem Builder.Good.availabilityReasons (h : b.Good ps) (hlen : ps.length ≤ 64)
    (hnames : ∀ p ∈ ps, fieldName (.str (pyStr p.1)) = true) :
    Defs.availabilityMap reasonSchema (.obj (keyedText b.reasons)) = true := by
  refine map_conforms hlen hnames (fun f hf => h.names f ?_) h.reasons
  have hstate := h.consistent.reason f (ODict.get?_isSome.2 hf)
  obtain ⟨v, hv, -⟩ := (Option.any_eq_true _ _).1 ((h.consistent.state f).1 hstate)
  rw [hv]
  rfl

/-- **The states are exactly those of what is null.** -/
theorem Builder.Good.rules (h : b.Good ps) :
    availabilityErrors (keyed b.payload) (keyedText b.availability) (keyedText b.reasons) = [] := by
  have hstate : ∀ f, hasKey (keyedText b.availability) (pyStr f) = (b.availability.get? f).isSome := fun f => by
    rw [hasKey, dictGet_keyedText, Option.isSome_map]
  unfold availabilityErrors
  rw [List.append_eq_nil_iff, List.append_eq_nil_iff, List.flatMap_eq_nil_iff, List.flatMap_eq_nil_iff,
    List.flatMap_eq_nil_iff]
  refine ⟨⟨fun m hm => ?_, fun m hm => ?_⟩, fun m hm => ?_⟩
  · obtain ⟨e, he, rfl⟩ := List.mem_map.1 hm
    have hconsistent := h.consistent.state e.1
    rw [ODict.mem_entries.1 he, Option.any_some] at hconsistent
    simp only
    rw [hstate, dictGet_keyedText]
    cases hget : b.availability.get? e.1 with
    | none =>
      rw [hget, Option.isSome_none] at hconsistent
      have hvalue : ¬ e.2.isNull = true := fun hnull => Bool.false_ne_true (hconsistent.2 hnull)
      rw [if_neg fun hnull => hvalue hnull.1]
      rfl
    | some s =>
      rw [hget] at hconsistent
      have hnull : e.2.isNull = true := hconsistent.1 rfl
      rw [if_neg fun hno => hno.2 rfl]
      show (if e.2.isNull = true then [] else _) = []
      rw [if_pos hnull]
  · obtain ⟨e, he, rfl⟩ := List.mem_map.1 hm
    have hnull := (h.consistent.state e.1).1 (ODict.get?_isSome.2 (List.mem_map_of_mem he))
    obtain ⟨v, hv, -⟩ := (Option.any_eq_true _ _).1 hnull
    refine if_pos ?_
    rw [hasKey, dictGet_keyed, hv]
    rfl
  · obtain ⟨e, he, rfl⟩ := List.mem_map.1 hm
    refine if_pos ?_
    rw [hstate]
    exact h.consistent.reason e.1 (ODict.get?_isSome.2 (List.mem_map_of_mem he))

end Maps

/-! ## The envelope -/

def CAPTURE_MODES : List String := ["pcap_replay", "synthetic_log", "passive_live"]

def COVERAGES : List String := ["both_directions", "originator_only", "responder_only", "unknown"]

/-- What `Settings.validate` checks of the settings, and what the callers promise of the rest: a boot id of
`uuid4`, a number that JSON holds exactly, the name of a run that `RUN_ID` matches, an offset that Python
writes as text. -/
structure EnvelopeContext.Configured (c : EnvelopeContext) : Prop where
  sensorId : Defs.sensorId (.str (pyStr c.sensorId)) = true
  bootId : IsUuid c.bootId
  sequence : c.sequence ≤ 9007199254740991
  runId : ∀ s ∈ c.replayRunId, fullmatch (fun c => alnum c || oneOf "._-" c) 1 64 (pyStr s) = true
  captureMode : c.captureMode ∈ CAPTURE_MODES
  coverage : c.coverage ∈ COVERAGES
  offset : (natText c.replayOffsetUs.natAbs).length ≤ Json.INT_MAX_STR_DIGITS

/-- **The condition**: the offset is one that JSON holds exactly, and the times are written with four digits of
the year. -/
structure InRange (r : Normalized) (c : EnvelopeContext) (receivedAtUs : Int) : Prop where
  offset : -MAX_SAFE_INT ≤ c.replayOffsetUs ∧ c.replayOffsetUs ≤ MAX_SAFE_INT
  eventTime : EARLIEST_US ≤ r.eventTimeUs
  emittedAt : EARLIEST_US ≤ c.nowUs
  received : Present receivedAtUs

theorem toText_pyStr (s : String) : Receiver.toText (pyStr s) = s := by
  have hid : Char.ofNat ∘ Char.toNat = id := funext Char.ofNat_toNat
  unfold Receiver.toText pyStr
  rw [List.map_map, hid, List.map_id, String.ofList_toList]

theorem text_str (s : PyStr) : (Json.str s).text = s := rfl

/-- The key of an event that UTF-8 holds. -/
theorem partitionKey_isSome {ev : Json} (h : Encodable (ev.dumps false)) : (Receiver.partitionKey ev).isSome := by
  have htext := fun k => Receiver.text_encodable (Receiver.field_encodable h k)
  have huid := Receiver.text_encodable (Receiver.field_encodable (Receiver.field_encodable h "payload") "uid")
  unfold Receiver.partitionKey
  simp only
  split
  · rw [encodeUtf8_isSome]
    simp only [joinWith, List.intercalate, List.intersperse, List.flatten_cons, List.flatten_nil,
      encodable_append, htext, huid, pyStr_encodable, encodable_nil, and_self]
  · exact encodeUtf8_isSome.2 (htext "event_id")

/-- What the link delivers of an envelope. -/
def delivered (c : EnvelopeContext) (out : Bytes) (receivedAtUs : Int) : Link.Complete where
  type := Link.TYPE_EVENT
  sensorId := c.sensorId
  bootId := c.bootId
  sequence := c.sequence
  record := out
  receivedAtUs := receivedAtUs

/-- How an envelope was made. -/
structure Enveloped (r : Normalized) (c : EnvelopeContext) (raw : Bytes) (eventTime emittedAt : PyStr)
    (original : Option PyStr) : Prop where
  raw : encodeUtf8 r.originalLine = some raw
  eventTime : formatUs r.eventTimeUs = some eventTime
  emittedAt : formatUs c.nowUs = some emittedAt
  original : ∀ s ∈ original, s = r.originalLine ∧ s.length ≤ ORIGINAL_MAX_CHARS

theorem ofOption_ok {α : Type} {e : Raised} {o : Option α} {a : α} (h : Attempt.ofOption e o = .ok a) :
    o = some a := by
  cases o with
  | none => cases h
  | some b =>
    cases h
    rfl

theorem checkSize_ok {env env' : Json} {out out' : Bytes} (h : checkSize env out = .ok (env', out')) :
    env' = env ∧ out' = out := by
  unfold checkSize at h
  split at h
  · cases h
  · cases h
    exact ⟨rfl, rfl⟩

theorem envelope_inv {r : Normalized} {c : EnvelopeContext} {env : Json} {out : Bytes}
    (h : envelope r c = .ok (env, out)) : ∃ raw eventTime emittedAt original,
      Enveloped r c raw eventTime emittedAt original ∧
        env = envelopeOf r c (sha256Hex raw) eventTime emittedAt original ∧ env.dumpBytes = some out := by
  obtain ⟨raw, hraw, h⟩ := Attempt.bind_eq_ok.1 h
  obtain ⟨eventTime, hevent, h⟩ := Attempt.bind_eq_ok.1 h
  obtain ⟨emittedAt, hemitted, h⟩ := Attempt.bind_eq_ok.1 h
  have hmade : ∀ original : Option PyStr, (∀ s ∈ original, s = r.originalLine ∧ s.length ≤ ORIGINAL_MAX_CHARS) →
      Enveloped r c raw eventTime emittedAt original := fun original horiginal =>
    ⟨ofOption_ok hraw, ofOption_ok hevent, ofOption_ok hemitted, horiginal⟩
  have hwhole : ∀ s ∈ (if r.originalLine.length ≤ ORIGINAL_MAX_CHARS then some r.originalLine else none),
      s = r.originalLine ∧ s.length ≤ ORIGINAL_MAX_CHARS := by
    intro s hs
    split at hs
    · rename_i hle
      obtain rfl := Option.some.inj hs
      exact ⟨rfl, hle⟩
    · exact absurd hs (Option.not_mem_none _)
  obtain ⟨out', hout, h⟩ := Attempt.bind_eq_ok.1 h
  split at h
  · obtain ⟨short, hshort, h⟩ := Attempt.bind_eq_ok.1 h
    obtain ⟨rfl, rfl⟩ := checkSize_ok h
    exact ⟨raw, eventTime, emittedAt, none, hmade none fun s hs => absurd hs (Option.not_mem_none _), rfl,
      ofOption_ok hshort⟩
  · obtain ⟨rfl, rfl⟩ := checkSize_ok h
    exact ⟨raw, eventTime, emittedAt, _, hmade _ hwhole, rfl, ofOption_ok hout⟩

/-! ### The members of an envelope -/

def ENVELOPE_KEYS : List String :=
  ["event_schema_version", "event_id", "sensor_id", "sensor_boot_id", "sequence", "replay_run_id",
    "replay_time_offset_us", "log_type", "event_time", "sensor_emitted_at", "capture_mode",
    "observation_coverage", "original_record_sha256", "original_record", "original_record_truncated",
    "availability", "availability_reasons", "payload"]

section Members

variable {r : Normalized} {c : EnvelopeContext} {sha : String} {eventTime emittedAt : PyStr}
  {original : Option PyStr} {ps : List (String × Schema)}

/-- The event that the receiver makes of an envelope. -/
def receivedEvent (r : Normalized) (c : EnvelopeContext) (sha : String) (eventTime emittedAt : PyStr)
    (original : Option PyStr) (receipt : PyStr) : Json :=
  .obj ((envelopeOf r c sha eventTime emittedAt original).members ++ [(pyStr "receiver_received_at", .str receipt)])

theorem members_keys : (envelopeOf r c sha eventTime emittedAt original).members.map (·.1) =
    ENVELOPE_KEYS.map pyStr := rfl

theorem setKey_received (receipt : PyStr) :
    (envelopeOf r c sha eventTime emittedAt original).setKey "receiver_received_at" (.str receipt) =
      receivedEvent r c sha eventTime emittedAt original receipt := by
  show Json.obj (dictSet (envelopeOf r c sha eventTime emittedAt original).members _ _) = _
  have hnew : "receiver_received_at" ∉ ENVELOPE_KEYS := by decide
  unfold dictSet
  rw [if_neg]
  · rfl
  · rw [List.any_eq_true]
    rintro ⟨m, hm, heq⟩
    have hkey : m.1 ∈ ENVELOPE_KEYS.map pyStr := by
      rw [← @members_keys r c sha eventTime emittedAt original]
      exact List.mem_map_of_mem hm
    obtain ⟨k, hk, hkm⟩ := List.mem_map.1 hkey
    rw [of_decide_eq_true heq] at hkm
    exact hnew (pyStr_inj hkm ▸ hk)

theorem received_nodup (receipt : PyStr) : (((envelopeOf r c sha eventTime emittedAt original).members ++
    [(pyStr "receiver_received_at", Json.str receipt)]).map (·.1)).Nodup := by
  show ((ENVELOPE_KEYS ++ ["receiver_received_at"]).map pyStr).Nodup
  have hnodup : (ENVELOPE_KEYS ++ ["receiver_received_at"]).Nodup := by decide
  exact hnodup.map fun _ _ h => pyStr_inj h

/-- The member at a place of the event. -/
theorem received_get {receipt : PyStr} {m : PyStr × Json} (i : Nat)
    (h : ((envelopeOf r c sha eventTime emittedAt original).members ++
      [(pyStr "receiver_received_at", .str receipt)])[i]? = some m) :
    dictGet ((envelopeOf r c sha eventTime emittedAt original).members ++
      [(pyStr "receiver_received_at", .str receipt)]) m.1 = some m.2 :=
  Json.dictGet_of_mem (received_nodup receipt) (List.mem_of_getElem? h)

theorem received_field {receipt : PyStr} {k : String} {w : Json} (i : Nat)
    (h : ((envelopeOf r c sha eventTime emittedAt original).members ++
      [(pyStr "receiver_received_at", .str receipt)])[i]? = some (pyStr k, w)) :
    (receivedEvent r c sha eventTime emittedAt original receipt).field k = w :=
  congrArg (fun o => Option.getD o Json.null) (received_get i h)

theorem maps_readable {α : Type} (d : ODict String α) (f : α → Json) {depth : Nat}
    (h : ∀ k v, d.get? k = some v → Readable depth (f v)) :
    Readable (depth + 1) (.obj (d.entries.map fun e => (pyStr e.1, f e.2))) := by
  refine .obj (keys_nodup d f) (fun m hm => ?_) fun m hm => ?_
  · obtain ⟨e, -, rfl⟩ := List.mem_map.1 hm
    exact unicode_pyStr _
  · obtain ⟨e, he, rfl⟩ := List.mem_map.1 hm
    exact h e.1 e.2 (ODict.mem_entries.1 he)

/-- **An envelope is read back as it was written.** -/
theorem envelope_readable (hc : c.Configured) (hgood : (⟨r.payload, r.availability, r.reasons⟩ : Builder).Good ps)
    (heventTime : Unicode eventTime) (hemittedAt : Unicode emittedAt) (horiginal : ∀ s ∈ original, Unicode s) :
    Readable 3 (envelopeOf r c sha eventTime emittedAt original) := by
  have hstr : ∀ s : String, Readable 2 (.str (pyStr s)) := fun s => .str (unicode_pyStr s)
  have hrun : Readable 2 (c.replayRunId.elim .null fun s => .str (pyStr s)) := by
    cases c.replayRunId with
    | none => exact .null
    | some s => exact hstr s
  have hkept : Readable 2 (original.elim .null .str) := by
    cases original with
    | none => exact .null
    | some s => exact .str (horiginal s rfl)
  have hsequence : Readable 2 (.int (c.sequence : Int)) := by
    have hle := hc.sequence
    refine int_readable (by omega) ?_
    unfold MAX_SAFE_INT
    omega
  have htext : ∀ d : ODict String String, Readable 2 (.obj (keyedText d)) := fun d =>
    maps_readable d (fun s => .str (pyStr s)) fun _ s _ => .str (unicode_pyStr s)
  have hpayload : Readable 2 (.obj (keyed r.payload)) :=
    maps_readable r.payload id fun f v hv => (hgood.plain f v hv).1
  refine .obj ?_ (fun m hm => ?_) ?_
  · show (ENVELOPE_KEYS.map pyStr).Nodup
    have hnodup : ENVELOPE_KEYS.Nodup := by decide
    exact hnodup.map fun _ _ h => pyStr_inj h
  · have hkey : m.1 ∈ ENVELOPE_KEYS.map pyStr := List.mem_map_of_mem (f := (·.1)) hm
    obtain ⟨k, -, hk⟩ := List.mem_map.1 hkey
    rw [← hk]
    exact unicode_pyStr k
  · simp only [List.forall_mem_cons, List.not_mem_nil, false_imp_iff, implies_true, and_true]
    exact ⟨hstr _, hstr _, hstr _, hstr _, hsequence, hrun, .int hc.offset, hstr _, .str heventTime,
      .str hemittedAt, hstr _, hstr _, hstr _, hkept, .bool _, htext _, htext _, hpayload⟩

/-! ### The contract of events -/

theorem eq_of_nodup_keys {α : Type} {l : List (String × α)} (h : (l.map (·.1)).Nodup) {k : String} {a b : α}
    (ha : (k, a) ∈ l) (hb : (k, b) ∈ l) : a = b :=
  (Prod.mk.inj (List.inj_on_of_nodup_map h ha hb rfl)).2

theorem offset_iff (n : Int) : Defs.integer (-MAX_SAFE) MAX_SAFE (.int n) = true ↔
    -MAX_SAFE_INT ≤ n ∧ n ≤ MAX_SAFE_INT := by
  have hcast : MAX_SAFE = ((MAX_SAFE_INT : Int) : Rat) := by norm_num [MAX_SAFE, MAX_SAFE_INT]
  unfold Defs.integer
  rw [integer_iff, hcast]
  norm_cast

/-- The payload is that of its log type. -/
theorem payload_conforms {receipt : PyStr} (hps : (r.logType, ps) ∈ payloadProps)
    (hgood : (⟨r.payload, r.availability, r.reasons⟩ : Builder).Good ps) :
    ∀ p ∈ payloads, Defs.payloadOf p.1 p.2 (receivedEvent r c sha eventTime emittedAt original receipt) = true := by
  intro p hp
  unfold Defs.payloadOf ifThen
  rw [Bool.or_eq_true, Bool.not_eq_true']
  by_cases hname : p.1 = r.logType
  · refine .inr ?_
    have hmem : (r.logType, record ps) ∈ payloads := by
      rw [payloads_eq]
      exact List.mem_map_of_mem (f := fun p => (p.1, record p.2)) hps
    have hnodup : (payloads.map (·.1)).Nodup := by decide
    have hp' : (r.logType, p.2) ∈ payloads := hname ▸ hp
    rw [eq_of_nodup_keys hnodup hp' hmem]
    refine properties_iff.2 fun q hq w hw => ?_
    rw [List.mem_singleton.1 hq] at hw ⊢
    have hget := @received_get r c sha eventTime emittedAt original receipt _ 17 rfl
    rw [← Option.some.inj (hget.symm.trans hw)]
    exact hgood.record
  · refine .inl (Bool.eq_false_iff.2 fun htrue => hname ?_)
    have hconst := properties_iff.1 htrue ("log_type", const p.1) (List.mem_singleton.2 rfl) _
      (@received_get r c sha eventTime emittedAt original receipt _ 7 rfl)
    obtain ⟨w, hw, heq⟩ := List.any_eq_true.1 (show [some p.1].any _ = true from hconst)
    rw [List.mem_singleton.1 hw] at heq
    exact pyStr_inj (of_decide_eq_true heq)

/-- **When the event conforms to the schema.** -/
theorem event_schema_iff {raw : Bytes} {receipt : PyStr} {receivedAtUs : Int} (hc : c.Configured)
    (hlog : r.logType ∈ LOG_TYPES) (hps : (r.logType, ps) ∈ payloadProps)
    (hgood : (⟨r.payload, r.availability, r.reasons⟩ : Builder).Good ps)
    (hmade : Enveloped r c raw eventTime emittedAt original) (hreceipt : formatUs receivedAtUs = some receipt) :
    eventSchema (receivedEvent r c (sha256Hex raw) eventTime emittedAt original receipt) = true ↔
      InRange r c receivedAtUs := by
  have hget := fun {m : PyStr × Json} => @received_get r c (sha256Hex raw) eventTime emittedAt original receipt m
  constructor
  · intro h
    have hfield : ∀ {k : String} {s : Schema} {w : Json}, (k, s) ∈ eventProperties →
        dictGet ((envelopeOf r c (sha256Hex raw) eventTime emittedAt original).members ++
          [(pyStr "receiver_received_at", .str receipt)]) (pyStr k) = some w → s w = true := by
      intro k s w hk hw
      have hconforms := event_property h hk
      unfold Json.field at hconforms
      rw [show (receivedEvent r c (sha256Hex raw) eventTime emittedAt original receipt).get? k = some w from hw]
        at hconforms
      exact hconforms
    refine ⟨(offset_iff _).1 (hfield (List.mem_of_getElem? (i := 6) rfl) (hget 6 rfl)),
      (timestamp_conforms_iff hmade.eventTime).1 (hfield (List.mem_of_getElem? (i := 8) rfl) (hget 8 rfl)),
      (timestamp_conforms_iff hmade.emittedAt).1 (hfield (List.mem_of_getElem? (i := 9) rfl) (hget 9 rfl)),
      ⟨hreceipt ▸ rfl, ?_⟩⟩
    exact (timestamp_conforms_iff hreceipt).1 (hfield (List.mem_of_getElem? (i := 10) rfl) (hget 18 rfl))
  · intro hin
    obtain ⟨hlen, hnames⟩ := payloadProps_names _ hps
    have hsequence : Defs.integer 0 MAX_SAFE (.int (c.sequence : Int)) = true := by
      have hle := hc.sequence
      refine integer_iff.2 ⟨by positivity, ?_⟩
      unfold MAX_SAFE
      exact_mod_cast hle
    have hrun : Defs.replayRunId (c.replayRunId.elim .null fun s => .str (pyStr s)) = true := by
      cases hrunId : c.replayRunId with
      | none => exact orNull_null _
      | some s => exact orNull_of (text_conforms (hc.runId s hrunId))
    have horiginal : orNull (Defs.shortText 4096) (original.elim .null .str) = true := by
      cases horiginal : original with
      | none => exact orNull_null _
      | some s => exact orNull_of (shortText_str (hmade.original s horiginal).2)
    have hlogType : enum (LOG_TYPES.map some) (.str (pyStr r.logType)) = true := Quarantined.enum_of_mem hlog
    have hmode : enum (CAPTURE_MODES.map some) (.str (pyStr c.captureMode)) = true :=
      Quarantined.enum_of_mem hc.captureMode
    have hcoverage : enum (COVERAGES.map some) (.str (pyStr c.coverage)) = true := Quarantined.enum_of_mem hc.coverage
    have hversion : const "1.0.0" (.str (pyStr "1.0.0")) = true := @Quarantined.enum_of_mem ["1.0.0"] _ List.mem_cons_self
    have hrecord : record eventProperties
        (receivedEvent r c (sha256Hex raw) eventTime emittedAt original receipt) = true := by
      refine record_iff.2 ⟨fun m hm => ?_, ?_⟩
      · have hall : ∀ k ∈ ENVELOPE_KEYS ++ ["receiver_received_at"], k ∈ eventProperties.map (·.1) := by decide
        have hkey : m.1 ∈ (ENVELOPE_KEYS ++ ["receiver_received_at"]).map pyStr :=
          List.mem_map_of_mem (f := (·.1)) hm
        obtain ⟨k, hk, hkm⟩ := List.mem_map.1 hkey
        obtain ⟨p, hp, rfl⟩ := List.mem_map.1 (hall k hk)
        exact ⟨p, hp, hkm⟩
      · simp only [eventProperties, List.forall_mem_cons, List.not_mem_nil, false_imp_iff, implies_true, and_true]
        exact ⟨⟨_, hget 0 rfl, hversion⟩, ⟨_, hget 1 rfl, uuid_conforms (uuid5_isUuid _ _)⟩,
          ⟨_, hget 2 rfl, hc.sensorId⟩, ⟨_, hget 3 rfl, uuid_conforms hc.bootId⟩, ⟨_, hget 4 rfl, hsequence⟩,
          ⟨_, hget 5 rfl, hrun⟩, ⟨_, hget 6 rfl, (offset_iff _).2 hin.offset⟩, ⟨_, hget 7 rfl, hlogType⟩,
          ⟨_, hget 8 rfl, timestamp_conforms hin.eventTime hmade.eventTime⟩,
          ⟨_, hget 9 rfl, timestamp_conforms hin.emittedAt hmade.emittedAt⟩,
          ⟨_, hget 18 rfl, timestamp_conforms hin.received.year hreceipt⟩, ⟨_, hget 10 rfl, hmode⟩,
          ⟨_, hget 11 rfl, hcoverage⟩, ⟨_, hget 12 rfl, digest_conforms raw⟩, ⟨_, hget 13 rfl, horiginal⟩,
          ⟨_, hget 14 rfl, rfl⟩, ⟨_, hget 15 rfl, hgood.availability hlen hnames⟩,
          ⟨_, hget 16 rfl, hgood.availabilityReasons hlen hnames⟩, ⟨_, hget 17 rfl, rfl⟩⟩
    refine all_iff.2 (List.forall_mem_cons.2 ⟨hrecord, fun s hs => ?_⟩)
    obtain ⟨p, hp, rfl⟩ := List.mem_map.1 (show s ∈ payloads.map (fun p => Defs.payloadOf p.1 p.2) from hs)
    exact payload_conforms hps hgood p hp

/-- **When the event passes the contract**: the rules between fields hold of every envelope. -/
theorem event_valid_iff (rt : Runtime) {raw : Bytes} {receipt : PyStr} {receivedAtUs : Int} (hc : c.Configured)
    (hlog : r.logType ∈ LOG_TYPES) (hps : (r.logType, ps) ∈ payloadProps)
    (hgood : (⟨r.payload, r.availability, r.reasons⟩ : Builder).Good ps)
    (hmade : Enveloped r c raw eventTime emittedAt original) (hreceipt : formatUs receivedAtUs = some receipt) :
    validate rt eventContract (receivedEvent r c (sha256Hex raw) eventTime emittedAt original receipt) = some [] ↔
      InRange r c receivedAtUs := by
  have hget := fun {m : PyStr × Json} => @received_get r c (sha256Hex raw) eventTime emittedAt original receipt m
  have hversion : (receivedEvent r c (sha256Hex raw) eventTime emittedAt original receipt).get?
      eventContract.versionField = some (.str (pyStr "1.0.0")) := hget 0 rfl
  rw [validate_supported hversion, show eventContract.schema = eventSchema from rfl, event_schema_iff hc hlog hps hgood hmade hreceipt,
    and_iff_left]
  show eventRules _ = []
  unfold eventRules
  rw [received_field 17 rfl, received_field 15 rfl, received_field 16 rfl, received_field 13 rfl, received_field 14 rfl]
  show availabilityErrors (keyed r.payload) (keyedText r.availability) (keyedText r.reasons) ++ _ = []
  rw [hgood.rules]
  cases original <;> rfl

/-- The event has the id that its identity and its hash give. -/
theorem received_id {out : Bytes} {receipt : PyStr} {receivedAtUs : Int} : Receiver.IdMatches
    (receivedEvent r c sha eventTime emittedAt original receipt) (delivered c out receivedAtUs) := by
  unfold Receiver.IdMatches
  rw [received_field 12 rfl, received_field 1 rfl, text_str, text_str, toText_pyStr]
  rfl

/-- **An envelope in range passes every check of the receiver.** -/
theorem envelope_conforms {rt : Runtime} {raw out : Bytes} {receivedAtUs : Int} (hc : c.Configured)
    (hlog : r.logType ∈ LOG_TYPES) (hps : (r.logType, ps) ∈ payloadProps)
    (hgood : (⟨r.payload, r.availability, r.reasons⟩ : Builder).Good ps)
    (hmade : Enveloped r c raw eventTime emittedAt original)
    (hparse : Receiver.parseRecord rt out = some (envelopeOf r c (sha256Hex raw) eventTime emittedAt original))
    (hin : InRange r c receivedAtUs) : ∃ receipt, formatUs receivedAtUs = some receipt ∧
      Receiver.Conforms rt (delivered c out receivedAtUs)
        (receivedEvent r c (sha256Hex raw) eventTime emittedAt original receipt) := by
  obtain ⟨receipt, hreceipt⟩ := Option.isSome_iff_exists.1 hin.received.calendar
  have hline : Encodable r.originalLine := encodeUtf8_isSome.1 (hmade.raw ▸ rfl)
  refine ⟨receipt, hreceipt, ⟨⟨⟨_, hparse, ?_⟩, (event_valid_iff rt hc hlog hps hgood hmade hreceipt).2 hin, ?_⟩,
    ?_, ?_, ?_⟩⟩
  · exact Option.map_eq_some_iff.2 ⟨receipt, hreceipt, setKey_received receipt⟩
  · unfold Receiver.identityMatches
    rw [received_field 2 rfl, received_field 3 rfl, received_field 4 rfl, decide_eq_true_eq]
    exact ⟨rfl, rfl, decide_eq_true rfl⟩
  · rw [received_field 13 rfl]
    cases horiginal : original with
    | none => exact encodable_nil
    | some s =>
      rw [(hmade.original s horiginal).1]
      exact hline
  · intro orig horig bytes hbytes
    rw [received_field 13 rfl] at horig
    cases horiginal : original with
    | none =>
      rw [horiginal] at horig
      cases horig
    | some s =>
      rw [horiginal] at horig
      obtain rfl : s = orig := Json.str.inj horig
      rw [(hmade.original s horiginal).1, hmade.raw] at hbytes
      rw [← Option.some.inj hbytes, received_field 12 rfl]
      rfl
  · exact received_id

/-- What is spooled of it. -/
theorem envelope_spooled {raw out : Bytes} {receipt : PyStr} {receivedAtUs : Int}
    (hgood : (⟨r.payload, r.availability, r.reasons⟩ : Builder).Good ps)
    (hmade : Enveloped r c raw eventTime emittedAt original)
    (hout : (envelopeOf r c sha eventTime emittedAt original).dumpBytes = some out)
    (hreceipt : formatUs receivedAtUs = some receipt) (hin : InRange r c receivedAtUs)
    (hschema : eventSchema (receivedEvent r c sha eventTime emittedAt original receipt) = true) :
    ∃ rec, Receiver.rawRecord (receivedEvent r c sha eventTime emittedAt original receipt)
      (delivered c out receivedAtUs) = some rec := by
  -- Its texts are those of the envelope, and the time of receipt.
  have htexts : Encodable ((receivedEvent r c sha eventTime emittedAt original receipt).dumps false) := by
    have henv : Encodable ((envelopeOf r c sha eventTime emittedAt original).dumps false) :=
      Json.dumpBytes_isSome.1 (hout ▸ rfl)
    refine Json.dumps_obj_encodable.2 fun m hm => ?_
    rcases List.mem_append.1 hm with hm | hm
    · exact Json.dumps_obj_encodable.1 henv m hm
    · rw [List.mem_singleton.1 hm]
      exact ⟨pyStr_encodable _, Receiver.str_encodable.2 (formatUs_text hreceipt).1⟩
  have htime : (observationMs (receivedEvent r c sha eventTime emittedAt original receipt)).isSome := by
    rw [observationMs_isSome hschema, received_field 8 rfl]
    refine ⟨?_, fun hnan => ?_⟩
    · rw [text_str, formatUs_parses hmade.eventTime hin.eventTime]
      rfl
    · have hduration := hnan.2
      rw [received_field 17 rfl] at hduration
      have hfield : (Json.obj (keyed r.payload)).field "duration_s" =
          (r.payload.get? "duration_s").getD .null := congrArg (·.getD Json.null) (dictGet_keyed r.payload _)
      rw [hfield] at hduration
      cases hget : r.payload.get? "duration_s" with
      | none =>
        rw [hget] at hduration
        cases hduration
      | some v =>
        rw [hget] at hduration
        exact (hgood.plain _ v hget).2 hduration
  obtain ⟨key, hkey⟩ := Option.isSome_iff_exists.1 (partitionKey_isSome htexts)
  obtain ⟨ts, hts⟩ := Option.isSome_iff_exists.1 htime
  obtain ⟨value, hvalue⟩ := Option.isSome_iff_exists.1 (Json.dumpBytes_isSome.2 htexts)
  unfold Receiver.rawRecord
  rw [hkey, hts, hvalue]
  exact ⟨_, rfl⟩

end Members

/-! ## From the sender to the detection job -/

/-- The event of the detectors is the record of the sender. -/
structure Carried (r : Normalized) (c : EnvelopeContext) (receivedAtUs : Int) (e : Detect.Event) : Prop where
  logType : e.logType = .str (pyStr r.logType)
  eventTime : e.eventTimeUs = r.eventTimeUs
  offset : e.offsetUs = c.replayOffsetUs
  received : e.receivedUs = receivedAtUs
  payload : e.p = keyed r.payload

/-- What is normalized conforms to its contract, and keeps the line. -/
theorem normalize_good {rt : Runtime} {coverage logType : String} {line : PyStr} {r : Normalized}
    (hline : Unicode line) (h : normalize rt coverage logType line = .ok r) : r.originalLine = line ∧
      r.logType ∈ LOG_TYPES ∧ ∃ ps, (r.logType, ps) ∈ payloadProps ∧
        (⟨r.payload, r.availability, r.reasons⟩ : Builder).Good ps := by
  obtain ⟨_, hlog, h⟩ := Attempt.bind_eq_ok.1 h
  obtain ⟨n, hn, h⟩ := Attempt.bind_eq_ok.1 h
  obtain ⟨ts, -, h⟩ := Attempt.bind_eq_ok.1 h
  obtain ⟨⟨uid, b, emit⟩, hb, h⟩ := Attempt.bind_eq_ok.1 h
  have hmem : logType ∈ LOG_TYPES := by
    unfold checkLogType at hlog
    split at hlog
    · assumption
    · cases hlog
  cases h
  exact ⟨rfl, hmem, payloadOf_good hmem (parse_readable hline hn) hb⟩

/-- **What the sender writes, the receiver accepts and the detection job reads.**  The receiver accepts an
envelope exactly when its clocks and its offset are in range; then the record is spooled, and the detection job
parses from it the event that the sender normalized. -/
theorem sent_record_accepted {rt rt' rt'' : Runtime} {tx : Detect.Texts} {logType : String} {line : PyStr}
    {r : Normalized} {c : EnvelopeContext} {env : Json} {out : Bytes} (hline : Unicode line) (hc : c.Configured)
    (hr : normalize rt c.coverage logType line = .ok r) (henv : envelope r c = .ok (env, out))
    (hdepth : 3 ≤ rt'.recursionLimit) (hlimit : rt'.recursionLimit ≤ rt''.recursionLimit) (receivedAtUs : Int) :
    ((∃ ev, Receiver.judge rt' (delivered c out receivedAtUs) = .valid ev) ↔ InRange r c receivedAtUs) ∧
      (InRange r c receivedAtUs → ∃ ev rec raw e,
        Receiver.judge rt' (delivered c out receivedAtUs) = .valid ev ∧
        Receiver.rawRecord ev (delivered c out receivedAtUs) = some rec ∧ decodeUtf8 rec.value = some raw ∧
        Detect.parse rt'' tx raw = .ok e ∧ Detect.ParsedAs rt'' tx rec e ∧ Carried r c receivedAtUs e) := by
  obtain ⟨horiginalLine, hlog, ps, hps, hgood⟩ := normalize_good hline hr
  obtain ⟨raw, eventTime, emittedAt, original, hmade, rfl, hout⟩ := envelope_inv henv
  have hreadable : Readable rt'.recursionLimit (envelopeOf r c (sha256Hex raw) eventTime emittedAt original) :=
    (envelope_readable hc hgood (formatUs_unicode hmade.eventTime) (formatUs_unicode hmade.emittedAt)
      fun s hs => ((hmade.original s hs).1.trans horiginalLine) ▸ hline).mono hdepth
  have hparse : Receiver.parseRecord rt' out =
      some (envelopeOf r c (sha256Hex raw) eventTime emittedAt original) := by
    unfold Receiver.parseRecord
    rw [Json.decodeUtf8_dumpBytes hreadable hout]
    exact Json.loads_dumps hreadable
  refine ⟨⟨fun ⟨ev, hj⟩ => ?_, fun hin => ?_⟩, fun hin => ?_⟩
  · obtain ⟨⟨⟨ms, hms, hstamped⟩, hvalid, -⟩, -, -, -⟩ := Receiver.judge_valid_iff.1 hj
    obtain ⟨receipt, hreceipt, rfl⟩ := Option.map_eq_some_iff.1 hstamped
    rw [← Option.some.inj (hparse.symm.trans hms), setKey_received] at hvalid
    exact (event_valid_iff rt' hc hlog hps hgood hmade hreceipt).1 hvalid
  · obtain ⟨receipt, -, hconforms⟩ := envelope_conforms hc hlog hps hgood hmade hparse hin
    exact ⟨_, Receiver.judge_valid_iff.2 hconforms⟩
  · obtain ⟨receipt, hreceipt, hconforms⟩ := envelope_conforms hc hlog hps hgood hmade hparse hin
    have hj := Receiver.judge_valid_iff.2 hconforms
    have hschema := (event_schema_iff hc hlog hps hgood hmade hreceipt).2 hin
    obtain ⟨rec, hrec⟩ := envelope_spooled hgood hmade hout hreceipt hin hschema
    obtain ⟨text, e, htext, he, hparsed, hagrees, hreceived⟩ := @Detect.accepted_parsed rt'' tx _ _ _ _ hj hrec hlimit
    refine ⟨_, rec, text, e, hj, hrec, htext, he, hparsed, ?_, ?_, ?_, hreceived, ?_⟩
    · rw [hagrees.logType, received_field 7 rfl]
    · have htime := hagrees.eventTime
      rw [received_field 8 rfl, text_str, formatUs_parses hmade.eventTime hin.eventTime] at htime
      exact (Option.some.inj htime).symm
    · have hoffset := hagrees.offset
      rw [received_field 6 rfl] at hoffset
      exact (Option.some.inj hoffset).symm
    · have hpayload := hagrees.payload
      rw [received_field 17 rfl] at hpayload
      exact (Json.obj.inj hpayload).symm

def sampleEnvelope : EnvelopeContext where
  sensorId := "sensor-1"
  bootId := "00000000-0000-4000-8000-000000000000"
  sequence := 7
  replayRunId := none
  replayOffsetUs := 0
  captureMode := "passive_live"
  coverage := "originator_only"
  nowUs := 2000000

theorem sampleEnvelope_configured : sampleEnvelope.Configured where
  sensorId := by decide +kernel
  bootId := ⟨[0, 0, 0, 0, 0, 0, 0x40, 0, 0x80, 0, 0, 0, 0, 0, 0, 0], rfl, by decide +kernel⟩
  sequence := by decide
  runId s h := absurd h (Option.not_mem_none _)
  captureMode := by decide
  coverage := by decide
  offset := by decide +kernel

set_option maxRecDepth 100000 in
/-- A one-sided flow, from its line to the detection job. -/
theorem sent_record_accepted_sample : ∃ r out ev rec raw e,
    normalize sampleRuntime "originator_only" "conn" oneSided = .ok r ∧
      Receiver.judge sampleRuntime (delivered sampleEnvelope out 3000000) = .valid ev ∧
      Receiver.rawRecord ev (delivered sampleEnvelope out 3000000) = some rec ∧ decodeUtf8 rec.value = some raw ∧
      Detect.parse sampleRuntime Detect.sampleTexts raw = .ok e ∧ Carried r sampleEnvelope 3000000 e := by
  have hok : (match normalize sampleRuntime "originator_only" "conn" oneSided with
      | .ok r => decide (EARLIEST_US ≤ r.eventTimeUs) && (envelope r sampleEnvelope).isOk
      | .error _ => false) = true := by decide +kernel
  cases hr : normalize sampleRuntime "originator_only" "conn" oneSided with
  | error e =>
    rw [hr] at hok
    cases hok
  | ok r =>
    rw [hr] at hok
    obtain ⟨htime, henv⟩ := Bool.and_eq_true_iff.1 hok
    cases hout : envelope r sampleEnvelope with
    | error e =>
      rw [hout] at henv
      cases henv
    | ok p =>
      obtain ⟨-, haccepted⟩ := @sent_record_accepted _ sampleRuntime sampleRuntime Detect.sampleTexts _ _ _ _ _ _
        (unicode_pyStr _) sampleEnvelope_configured hr hout (by decide) (Nat.le_refl _) 3000000
      obtain ⟨ev, rec, raw, e, hj, hrec, hraw, he, -, hcarried⟩ :=
        haccepted ⟨by decide, of_decide_eq_true htime, by decide, by decide +kernel, by decide⟩
      exact ⟨r, p.2, ev, rec, raw, e, rfl, hj, hrec, hraw, he, hcarried⟩

end OTS.Sender
