import OTSecurity.Lib.JsonRead
import OTSecurity.Detect.Events
import OTSecurity.Receiver.Authenticity

/-!
# The receiver and the detection job agree

What the receiver spools for the raw topic, the parser of the detection job takes, and both compute the same
observation time and the same key of a flow.

* `flowKey` — model of `flow_key` of `flink/sih_detect/events.py`.
* `Agrees` — what the event of the detectors has of the record.
* `Judged` — where an entry of the raw topic comes from.

Principal results: `parse_agrees` — a record that passes the contract and has an observation time is parsed;
`flowKey_agrees` — the key of a flow is that of the partition; `spooled_events_parsed` — every entry of the raw
topic, in every run of the receiver, is parsed with the time and the key that it was spooled under.
-/

namespace OTS

/-! ## Times that are parsed have the canonical form -/

theorem decimalNumber_all {s : PyStr} {n : Nat} (h : decimalNumber s = some n) :
    ∀ c ∈ s, (decimalDigit c).isSome := by
  have hfold : ∀ (s : PyStr) (acc : Nat),
      s.foldlM (fun n c => (decimalDigit c).map (n * 10 + ·)) acc = some n → ∀ c ∈ s, (decimalDigit c).isSome := by
    intro s
    induction s with
    | nil => exact fun _ _ c hc => absurd hc List.not_mem_nil
    | cons d s ih =>
      intro acc h
      rw [List.foldlM_cons] at h
      obtain ⟨m, hm, hrest⟩ := Option.bind_eq_some_iff.1 h
      obtain ⟨v, hv, -⟩ := Option.map_eq_some_iff.1 hm
      exact List.forall_mem_cons.2 ⟨hv ▸ rfl, ih m hrest⟩
  exact hfold s 0 h

theorem dateField_all {a b lo hi v : Nat} {free : Nat → Bool} (h : dateField a b free lo hi = some v) :
    (decimalDigit a).isSome ∧ (decimalDigit b).isSome := by
  unfold dateField at h
  split at h
  · split at h
    · rename_i hnum
      have hall := decimalNumber_all hnum
      exact ⟨hall a List.mem_cons_self, hall b (.tail _ List.mem_cons_self)⟩
    · cases h
  · cases h

/-- A formatted time is a Unicode text. -/
theorem formatUs_unicode {t : Int} {s : PyStr} (h : formatUs t = some s) : Json.Unicode s := by
  obtain ⟨y, m, d, rest, hf⟩ := formatUs_fields h
  have hpadded : ∀ n k, Json.Unicode (padded n k) := by
    intro n k
    refine Json.unicode_append.2 ⟨fun c hc => ?_, Json.unicode_pyStr _⟩
    rw [List.eq_of_mem_replicate hc]
    decide
  have hyear : Json.Unicode (natText y) := Json.unicode_pyStr _
  rw [hf.text]
  simp only [Json.unicode_append, Json.unicode_cons, hpadded, hyear, Json.unicode_nil, and_true, true_and]
  decide

namespace Detect

theorem tsMatches_of_parseUs {text : PyStr} {t : Int} (h : parseUs text = some t) : tsMatches text = true := by
  unfold parseUs at h
  simp only at h
  split at h
  · cases h
  rename_i hshape
  rw [not_or, not_not, not_lt] at hshape
  simp only [Option.bind_eq_bind, Option.bind_eq_some_iff] at h
  obtain ⟨y, hy, m, hm, d, hd, hour, hhour, minute, hminute, second, hsecond, frac, hfrac, -⟩ := h
  have hyear : ∀ i < 4, (decimalDigit (text.getD i 0)).isSome := by
    intro i hi
    have hlt : i < text.length := by omega
    rw [List.getD_eq_getElem?_getD, List.getElem?_eq_getElem hlt, Option.getD_some]
    exact decimalNumber_all hy _ (List.mem_take_iff_getElem.2 ⟨i, by omega, rfl⟩)
  have hdigit : ∀ i < 19, separators.any (·.1 = i) = true ∨ (decimalDigit (text.getD i 0)).isSome := by
    intro i hi
    by_cases hsmall : i < 4
    · exact .inr (hyear i hsmall)
    · have hcases : separators.any (·.1 = i) = true ∨ i = 5 ∨ i = 6 ∨ i = 8 ∨ i = 9 ∨ i = 11 ∨ i = 12 ∨
          i = 14 ∨ i = 15 ∨ i = 17 ∨ i = 18 := by
        have hall : ∀ i < 19, i < 4 ∨ separators.any (·.1 = i) = true ∨ i = 5 ∨ i = 6 ∨ i = 8 ∨ i = 9 ∨ i = 11 ∨
            i = 12 ∨ i = 14 ∨ i = 15 ∨ i = 17 ∨ i = 18 := by decide
        exact (hall i hi).resolve_left hsmall
      rcases hcases with hsep | rfl | rfl | rfl | rfl | rfl | rfl | rfl | rfl | rfl | rfl
      · exact .inl hsep
      · exact .inr (dateField_all hm).1
      · exact .inr (dateField_all hm).2
      · exact .inr (dateField_all hd).1
      · exact .inr (dateField_all hd).2
      · exact .inr (dateField_all hhour).1
      · exact .inr (dateField_all hhour).2
      · exact .inr (dateField_all hminute).1
      · exact .inr (dateField_all hminute).2
      · exact .inr (dateField_all hsecond).1
      · exact .inr (dateField_all hsecond).2
  have hall : (List.range 19).all (fun i => separators.any (·.1 = i) ∨ (decimalDigit (text.getD i 0)).isSome) :=
    List.all_eq_true.2 fun i hi => decide_eq_true (hdigit i (List.mem_range.1 hi))
  unfold tsMatches
  exact decide_eq_true ⟨hshape.1, hshape.2, hall, hfrac ▸ rfl⟩

variable {rt : Runtime} {tx : Texts}

theorem parseTime_str {s : PyStr} {t : Int} (h : parseUs s = some t) : parseTime rt tx (.str s) = .ok t := by
  unfold parseTime
  simp only [tsMatches_of_parseUs h, h, not_true_eq_false, if_false]

/-! ## Conversions that do not raise -/

theorem toIntE_of_toInt {v : Json} {n : Int} (h : v.toInt? = some n) : v.toIntE = .ok n := by
  cases v with
  | int m =>
    cases h
    rfl
  | float x =>
    cases x with
    | finite neg mag =>
      unfold Json.toInt? at h
      unfold Json.toIntE
      simp only at h ⊢
      rw [h]
      rfl
    | nan => cases h
    | inf neg => cases h
  | _ => cases h

theorem toFloatE_of_toFloat {v : Json} {x : PyFloat} (h : v.toFloat? = some x) : v.toFloatE = .ok x := by
  cases v with
  | int n =>
    unfold Json.toFloat? at h
    unfold Json.toFloatE
    simp only at h ⊢
    generalize PyFloat.ofRat (n < 0) n.natAbs = y at h ⊢
    cases y with
    | inf neg => cases h
    | nan =>
      cases h
      rfl
    | finite neg mag =>
      cases h
      rfl
  | float y =>
    cases h
    rfl
  | _ => cases h

theorem roundE_of_roundInt {x : PyFloat} {n : Int} (h : x.roundInt = some n) : roundE x = .ok n := by
  cases x with
  | finite neg mag =>
    rw [roundE, h]
    rfl
  | nan => cases h
  | inf neg => cases h

theorem checkMember_str {texts : List String} {text : String} (h : text ∈ texts) (reason k : String) :
    checkMember rt (.str (pyStr text)) texts reason k = .ok () := by
  have hany : texts.any (Json.str (pyStr text)).eqText = true :=
    List.any_eq_true.2 ⟨text, h, decide_eq_true rfl⟩
  unfold checkMember
  rw [Runtime.reprScalar]
  simp only [hany, if_true]

theorem require_ok {ms : List (PyStr × Json)} {k : String} {v : Json} (h : Json.dictGet ms (pyStr k) = some v) :
    require rt ms k = .ok v := by
  rw [require, h]

/-! ## What is parsed -/

/-- `flow_key`; `none` when a value nests too deep. -/
def flowKey (rt : Runtime) (tx : Texts) (ev : Event) : Option PyStr :=
  match strOf rt tx ev.sensorId, strOf rt tx ev.boot,
      (if ev.run.truthy then strOf rt tx ev.run else some []),
      strOf rt tx ((Json.dictGet ev.p (pyStr "uid")).getD .null) with
  | some sensorId, some boot, some run, some uid => some (joinWith (pyStr "|") [sensorId, boot, run, uid])
  | _, _, _, _ => none

/-- What the event of the detectors has of the record. -/
structure Agrees (ev : Json) (e : Event) : Prop where
  eventId : e.eventId = ev.field "event_id"
  sensorId : e.sensorId = ev.field "sensor_id"
  boot : e.boot = ev.field "sensor_boot_id"
  run : e.run = ev.field "replay_run_id"
  logType : e.logType = ev.field "log_type"
  eventTime : parseUs (ev.field "event_time").text = some e.eventTimeUs
  received : parseUs (ev.field "receiver_received_at").text = some e.receivedUs
  offset : (ev.field "replay_time_offset_us").toInt? = some e.offsetUs
  observed : observationMs ev = some e.obsMs
  payload : ev.field "payload" = .obj e.p

theorem durationOf_ok {ms p : List (PyStr × Json)} {name : String} {d : Int}
    (hlog : (Json.obj ms).field "log_type" = .str (pyStr name)) (hp : (Json.obj ms).field "payload" = .obj p)
    (h : durationUs (.obj ms) = some d) : durationOf tx (.str (pyStr name)) p = .ok d := by
  have hconn : (Json.str (pyStr name)).eqText "conn" = decide (pyStr name = pyStr "conn") := rfl
  have htext : (Json.str (pyStr name)).text = pyStr name := rfl
  have hget : (Json.obj p).field "duration_s" = (Json.dictGet p (pyStr "duration_s")).getD .null := rfl
  unfold durationUs at h
  rw [hlog, hp, hget, htext] at h
  unfold durationOf
  rw [hconn]
  simp only [decide_eq_true_eq]
  split at h
  · rename_i hname
    rw [if_pos hname]
    generalize (Json.dictGet p (pyStr "duration_s")).getD .null = v at h ⊢
    cases v with
    | null =>
      cases h
      rfl
    | _ =>
      obtain ⟨x, hx, hd⟩ := Option.bind_eq_some_iff.1 h
      have hfloat := toFloatE_of_toFloat hx
      simp only [converted, hfloat, roundE_of_roundInt hd, Except.mapError, bind, Except.bind]
  · rename_i hname
    cases h
    rw [if_neg hname]

/-- **A record that passes the contract and has an observation time is parsed**, and to what it says. -/
theorem parse_agrees {ms : List (PyStr × Json)} {raw : PyStr}
    (hread : Json.readE rt.recursionLimit raw = .ok (.obj ms)) (hschema : eventSchema (.obj ms) = true)
    (hobs : (observationMs (.obj ms)).isSome)
    (hreceived : (parseUs ((Json.obj ms).field "receiver_received_at").text).isSome) :
    ∃ e, parse rt tx raw = .ok e ∧ Agrees (.obj ms) e := by
  have hfield : ∀ {k : String} {s : Schema}, (k, s) ∈ eventProperties →
      Json.dictGet ms (pyStr k) = some ((Json.obj ms).field k) ∧ s ((Json.obj ms).field k) = true := by
    intro k s hk
    obtain ⟨w, hw, hs⟩ := Schema.record_property (Schema.all_iff.1 hschema _ List.mem_cons_self) hk
    have hget : Json.dictGet ms (pyStr k) = some w := hw
    have hval : (Json.obj ms).field k = w := by rw [Json.field, hw]; rfl
    rw [hval]
    exact ⟨hget, hs⟩
  have hstr : ∀ {v : Json} {t : Int}, parseUs v.text = some t → v = .str v.text := by
    intro v t ht
    cases v with
    | str s => rfl
    | _ => cases ht
  -- The fields that the parser reads.
  obtain ⟨hversion, hversionOk⟩ := hfield (List.mem_of_getElem? (i := 0) rfl)
  obtain ⟨hid, -⟩ := hfield (List.mem_of_getElem? (i := 1) rfl)
  obtain ⟨hsensor, -⟩ := hfield (List.mem_of_getElem? (i := 2) rfl)
  obtain ⟨hboot, -⟩ := hfield (List.mem_of_getElem? (i := 3) rfl)
  obtain ⟨hrun, -⟩ := hfield (List.mem_of_getElem? (i := 5) rfl)
  obtain ⟨hoffset, -⟩ := hfield (List.mem_of_getElem? (i := 6) rfl)
  obtain ⟨hlog, -⟩ := hfield (List.mem_of_getElem? (i := 7) rfl)
  obtain ⟨htime, -⟩ := hfield (List.mem_of_getElem? (i := 8) rfl)
  obtain ⟨hreceipt, -⟩ := hfield (List.mem_of_getElem? (i := 10) rfl)
  obtain ⟨havail, havailOk⟩ := hfield (List.mem_of_getElem? (i := 16) rfl)
  obtain ⟨hpayload, hpayloadOk⟩ := hfield (List.mem_of_getElem? (i := 18) rfl)
  obtain ⟨name, hname, hlogType⟩ : ∃ name ∈ LOG_TYPES, (Json.obj ms).field "log_type" = .str (pyStr name) := by
    obtain ⟨q, hq, hlogType, -⟩ := event_payload hschema
    exact ⟨q.1, List.mem_map.2 ⟨q, hq, rfl⟩, hlogType⟩
  obtain ⟨p, hp⟩ : ∃ p, (Json.obj ms).field "payload" = .obj p := by
    obtain ⟨t, ht, hholds⟩ := Schema.type_iff.1 hpayloadOk
    rw [List.mem_singleton.1 ht] at hholds
    exact Schema.holds_object hholds
  obtain ⟨a, ha⟩ : ∃ a, (Json.obj ms).field "availability" = .obj a := by
    obtain ⟨t, ht, hholds⟩ := Schema.type_iff.1 (Schema.all_iff.1 havailOk _ List.mem_cons_self)
    rw [List.mem_singleton.1 ht] at hholds
    exact Schema.holds_object hholds
  obtain ⟨version, hversionMem, hversionText⟩ := @enum_str ["1.0.0"] _ hversionOk
  obtain ⟨ts, hts⟩ := Option.isSome_iff_exists.1 hobs
  obtain ⟨recv, hrecv⟩ := Option.isSome_iff_exists.1 hreceived
  -- What the observation time is made of.
  have hparts : ∃ t offset d, parseUs ((Json.obj ms).field "event_time").text = some t ∧
      ((Json.obj ms).field "replay_time_offset_us").toInt? = some offset ∧ durationUs (.obj ms) = some d ∧
      ts = (t + offset + d) / 1000 := by
    unfold observationMs at hts
    split at hts
    · rename_i h1 h2 h3
      exact ⟨_, _, _, h1, h2, h3, (Option.some.inj hts).symm⟩
    · cases hts
  obtain ⟨t, offset, d, ht, hint, hdur, rfl⟩ := hparts
  have hchecked : checkMember rt ((Json.obj ms).field "event_schema_version") ["1.0.0"]
      "unsupported_schema_version" "event_schema_version" = .ok () := by
    rw [hversionText]
    exact checkMember_str hversionMem _ _
  have hlogChecked : checkMember rt ((Json.obj ms).field "log_type") LOG_TYPES "unknown_log_type" "log_type" =
      .ok () := by
    rw [hlogType]
    exact checkMember_str hname _ _
  have hduration := @durationOf_ok tx _ _ _ _ hlogType hp hdur
  rw [← hlogType] at hduration
  have havailable : ∃ a', (if ((Json.dictGet ms (pyStr "availability")).getD .null).truthy = true
      then (Json.dictGet ms (pyStr "availability")).getD .null else .obj []) = .obj a' := by
    rw [havail, Option.getD_some, ha]
    split
    · exact ⟨a, rfl⟩
    · exact ⟨[], rfl⟩
  obtain ⟨a', ha'⟩ := havailable
  have hfields : ∃ e, parseFields rt tx ms ((Json.obj ms).field "log_type") = .ok e ∧ Agrees (.obj ms) e := by
    refine ⟨{
      eventId := (Json.obj ms).field "event_id"
      sensorId := (Json.obj ms).field "sensor_id"
      boot := (Json.obj ms).field "sensor_boot_id"
      run := (Json.dictGet ms (pyStr "replay_run_id")).getD .null
      offsetUs := offset
      logType := (Json.obj ms).field "log_type"
      eventTimeUs := t
      obsMs := (t + offset + d) / 1000
      receivedUs := recv
      coverage := (Json.dictGet ms (pyStr "observation_coverage")).getD (.str (pyStr "unknown"))
      p, a := a' }, ?_, ?_⟩
    · have htime' := @parseTime_str rt tx _ _ ht
      have hrecv' := @parseTime_str rt tx _ _ hrecv
      rw [← hstr ht] at htime'
      rw [← hstr hrecv] at hrecv'
      unfold parseFields
      simp only [require_ok htime, require_ok hreceipt, require_ok hoffset, require_ok hpayload, require_ok hid,
        require_ok hsensor, require_ok hboot, htime', hrecv', toIntE_of_toInt hint, converted, Except.mapError, bind,
        Except.bind, ha', hp, hduration]
      rfl
    · exact ⟨rfl, rfl, rfl, by rw [hrun]; rfl, rfl, ht, hrecv, hint, hts, hp⟩
  obtain ⟨e, he, hagrees⟩ := hfields
  refine ⟨e, ?_, hagrees⟩
  unfold parse
  simp only [hread, hversion, hlog, Option.getD_some, hchecked, hlogChecked, he, bind, Except.bind]

/-! ## The key of a flow -/

/-- The text of the flow that a payload belongs to, empty when it names none. -/
def uidText (ev : Json) : PyStr := ((ev.field "payload").field "uid").text

theorem strOf_text {v : Json} (h : v.text ≠ []) : strOf rt tx v = some v.text := by
  cases v with
  | str s => rfl
  | _ => exact absurd rfl h

/-- **The key of a flow is that of its partition**, for every record that names the flow. -/
theorem flowKey_agrees {ev : Json} {e : Event} (h : Agrees ev e) (hschema : eventSchema ev = true)
    (huid : uidText ev ≠ []) : (flowKey rt tx e).bind encodeUtf8 = Receiver.partitionKey ev := by
  have hstr : ∀ {k : String} {s : Schema}, (k, s) ∈ eventProperties → (∀ v, s v = true → v = .str v.text) →
      ev.field k = .str (ev.field k).text := fun hk hs => hs _ (event_property hschema hk)
  have htyped : ∀ (s : Schema) (ks : List Schema) (v : Json), s = Schema.all (Schema.type [.string] :: ks) →
      s v = true → v = .str v.text := by
    rintro s ks v rfl hv
    obtain ⟨t, ht, hholds⟩ := Schema.type_iff.1 (Schema.all_iff.1 hv _ List.mem_cons_self)
    rw [List.mem_singleton.1 ht] at hholds
    cases v with
    | str s => rfl
    | _ => cases hholds
  have hsensor := hstr (k := "sensor_id") (List.mem_of_getElem? (i := 2) rfl) fun v => htyped _ _ v rfl
  have hboot := hstr (k := "sensor_boot_id") (List.mem_of_getElem? (i := 3) rfl) fun v => htyped _ _ v rfl
  have hrun : (if (ev.field "replay_run_id").truthy then strOf rt tx (ev.field "replay_run_id") else some []) =
      some (ev.field "replay_run_id").text := by
    have hprop := event_property hschema (k := "replay_run_id") (List.mem_of_getElem? (i := 5) rfl)
    rcases Schema.orNull_iff.1 hprop with hs | hnull
    · obtain ⟨s, hs⟩ : ∃ s, ev.field "replay_run_id" = .str s := ⟨_, htyped _ _ _ rfl hs⟩
      rw [hs]
      by_cases hempty : s = []
      · subst hempty
        rfl
      · simp only [Json.truthy, hempty, ne_eq, not_false_eq_true, decide_true, if_true]
        rfl
    · rw [hnull]
      rfl
  have hpayloadUid : (Json.dictGet e.p (pyStr "uid")).getD .null = (ev.field "payload").field "uid" := by
    rw [h.payload]
    rfl
  have hkey : flowKey rt tx e = some (joinWith (pyStr "|") [(ev.field "sensor_id").text,
      (ev.field "sensor_boot_id").text, (ev.field "replay_run_id").text, uidText ev]) := by
    have h1 : strOf rt tx e.sensorId = some (ev.field "sensor_id").text := by rw [h.sensorId, hsensor]; rfl
    have h2 : strOf rt tx e.boot = some (ev.field "sensor_boot_id").text := by rw [h.boot, hboot]; rfl
    have h3 : (if e.run.truthy then strOf rt tx e.run else some []) = some (ev.field "replay_run_id").text := by
      rw [h.run, hrun]
    have h4 : strOf rt tx ((Json.dictGet e.p (pyStr "uid")).getD .null) = some (uidText ev) := by
      rw [hpayloadUid]
      exact strOf_text huid
    unfold flowKey
    rw [h1, h2, h3, h4]
  unfold uidText at huid hkey
  unfold Receiver.partitionKey
  rw [hkey, Option.bind_some]
  simp only [huid, ne_eq, not_false_eq_true, if_true]

/-! ## What is spooled -/

/-- What the detectors know of an entry of the raw topic. -/
structure ParsedAs (rt : Runtime) (tx : Texts) (r : Receiver.Rec) (e : Event) : Prop where
  sensorId : ∃ sensorId, r.sensorId = some sensorId ∧ e.sensorId.text = pyStr sensorId
  boot : ∃ bootId, r.bootId = some bootId ∧ e.boot.text = pyStr bootId
  observed : e.obsMs = r.tsMs
  key : ((Json.obj e.p).field "uid").text ≠ [] → (flowKey rt tx e).bind encodeUtf8 = some r.key
  keyless : ((Json.obj e.p).field "uid").text = [] → encodeUtf8 e.eventId.text = some r.key

theorem readE_ok {depth : Nat} {s : PyStr} {v : Json} (h : Json.loads depth s = some v) :
    Json.readE depth s = .ok v := by
  rw [← Json.readE_toOption] at h
  generalize Json.readE depth s = x at h ⊢
  cases x with
  | error e => cases h
  | ok w =>
    cases h
    rfl

/-- **What the receiver accepts, the detection job parses**, with the time and the key it was spooled under. -/
theorem accepted_parsed {rt' : Runtime} {c : Link.Complete} {ev : Json} {r : Receiver.Rec}
    (hj : Receiver.judge rt' c = .valid ev) (hr : Receiver.rawRecord ev c = some r)
    (hlimit : rt'.recursionLimit ≤ rt.recursionLimit) :
    ∃ raw e, decodeUtf8 r.value = some raw ∧ parse rt tx raw = .ok e ∧ ParsedAs rt tx r e ∧
      Agrees ev e ∧ e.receivedUs = c.receivedAtUs := by
  obtain ⟨⟨hreceived, hvalid, hidentity⟩, -, -, -⟩ := Receiver.judge_valid_iff.1 hj
  obtain ⟨ms, hparse, hstamped⟩ := hreceived
  obtain ⟨receipt, hreceipt, hset⟩ := Option.map_eq_some_iff.1 hstamped
  obtain ⟨hschema, -⟩ := validate_nil hvalid
  -- What the bytes of the entry hold.
  obtain ⟨text, htext, hloads⟩ := Option.bind_eq_some_iff.1 hparse
  have hreadable : Json.Readable rt'.recursionLimit ev := by
    rw [← hset]
    refine (Json.readable_of_loads (Json.decodeUtf8_unicode htext) hloads).setKey fun d => .str ?_
    exact formatUs_unicode hreceipt
  obtain ⟨key, ts, value, hkey, hts, hvalue, rfl⟩ : ∃ key ts value, Receiver.partitionKey ev = some key ∧
      observationMs ev = some ts ∧ ev.dumpBytes = some value ∧
      r = ⟨Receiver.TOPIC_RAW, key, some c.sensorId, some c.bootId, c.sequence, ts, value⟩ := by
    unfold Receiver.rawRecord at hr
    split at hr
    · rename_i h1 h2 h3
      exact ⟨_, _, _, h1, h2, h3, (Option.some.inj hr).symm⟩
    · cases hr
  obtain ⟨ms', rfl⟩ : ∃ ms', ev = .obj ms' := ⟨_, hset.symm⟩
  have hread := readE_ok (Json.loads_dumps (hreadable.mono hlimit))
  have hstamp : (Json.obj ms').field "receiver_received_at" = .str receipt := by
    rw [← hset, Json.field]
    exact congrArg (fun v => v.getD Json.null) (Json.dictGet_dictSet ms _ _)
  have htime : parseUs ((Json.obj ms').field "receiver_received_at").text = some c.receivedAtUs := by
    have hconforms := event_property hschema (k := "receiver_received_at") (List.mem_of_getElem? (i := 10) rfl)
    rw [hstamp] at hconforms ⊢
    exact formatUs_parses hreceipt ((timestamp_conforms_iff hreceipt).1 hconforms)
  obtain ⟨e, he, hagrees⟩ := @parse_agrees rt tx _ _ hread hschema (hts ▸ rfl) (htime ▸ rfl)
  refine ⟨_, e, Json.decodeUtf8_dumpBytes hreadable hvalue, he, ?_, hagrees, ?_⟩
  · obtain ⟨hsensor, hboot⟩ : ((Json.obj ms').field "sensor_id").text = pyStr c.sensorId ∧
        ((Json.obj ms').field "sensor_boot_id").text = pyStr c.bootId := by
      simp only [Receiver.identityMatches, decide_eq_true_eq] at hidentity
      exact ⟨hidentity.1, hidentity.2.1⟩
    have huid : ((Json.obj e.p).field "uid").text = uidText (.obj ms') := by
      rw [uidText, hagrees.payload]
    refine ⟨⟨_, rfl, by rw [hagrees.sensorId, hsensor]⟩, ⟨_, rfl, by rw [hagrees.boot, hboot]⟩,
      Option.some.inj (hagrees.observed.symm.trans hts), fun hne => ?_, fun hempty => ?_⟩
    · rw [huid] at hne
      rw [flowKey_agrees hagrees hschema hne, hkey]
    · rw [huid, uidText] at hempty
      rw [← hkey, Receiver.partitionKey, hagrees.eventId]
      simp only [hempty, ne_eq, not_true_eq_false, if_false]
  · exact Option.some.inj (hagrees.received.symm.trans htime)

end Detect

/-! ## Runs of the receiver -/

namespace Receiver

/-- An entry of the raw topic is that of a valid event. -/
def Judged (rt : Runtime) (r : Rec) : Prop :=
  r.topic = TOPIC_RAW → ∃ c ev, judge rt c = .valid ev ∧ rawRecord ev c = some r

theorem judged_of_topic {rt : Runtime} {r : Rec} (h : r.topic ≠ TOPIC_RAW) : Judged rt r := fun hr => absurd hr h

section Steps

variable {hmac : Link.Hmac} {rt : Runtime} {cfg : Config} {core : ReceiverCore}

theorem note_judged (e : Entry) (he : e.record.topic = TOPIC_INVALID) : Judged rt e.record :=
  judged_of_topic (by rw [he]; decide)

theorem datagram_judged (data : Bytes) (nowUs : Int) (clock : Nat → Reading) :
    Accrued (fun e => Judged rt e.record) core.sys.log
      (core.handleDatagram hmac rt data nowUs clock).1.sys.log := by
  have hnote : ∀ e : Entry, e.record.topic = TOPIC_INVALID → Judged rt e.record := note_judged
  unfold ReceiverCore.handleDatagram
  split
  · exact quarantine_accrued hnote _ _ _ _ _ _ _ _
  split
  · exact .refl _
  rename_i a ha
  have hgrown := quarantineAll_accrued hnote clock "reassembly limit reached" a.expired 0
    { core with reassembler := a.reassembler }
  simp only
  generalize ReceiverCore.quarantineAll clock "reassembly limit reached" 0
    { core with reassembler := a.reassembler } a.expired = q at hgrown ⊢
  obtain ⟨core', b⟩ := q
  cases b with
  | false => exact hgrown
  | true =>
    simp only
    split
    · exact hgrown
    split
    · refine hgrown.trans (health_accrued hnote ?_ _)
      intro h key value _ _ _ _ e he
      rw [he]
      exact judged_of_topic (show TOPIC_HEALTH ≠ TOPIC_RAW by decide)
    · refine hgrown.trans (event_accrued hnote ?_ _)
      intro ev entry hj hentry e he _
      rw [he]
      exact ⟨_, ev, hj, hentry⟩

theorem step_judged {s s' : ReceiverSys} {op : ReceiverOp} (hstep : s.step hmac rt cfg op = some s') :
    Accrued (fun e => Judged rt e.record) s.core.sys.log s'.core.sys.log := by
  have hnote : ∀ e : Entry, e.record.topic = TOPIC_INVALID → Judged rt e.record := note_judged
  cases op with
  | datagram data nowUs clock =>
    cases hstep
    exact datagram_judged data nowUs clock
  | housekeeping nowUs clock monotonic =>
    cases hstep
    exact housekeeping_accrued hnote nowUs clock monotonic
  | release acked =>
    cases hstep
    exact .refl _
  | crash call kept stable monotonic =>
    have hended : Accrued (fun e => Judged rt e.record) s.core.sys.log (s.ended hmac call).sys.log := by
      cases call with
      | none => exact .refl _
      | some call => exact stop_accrued hnote call
    simp only [ReceiverSys.step] at hstep
    split at hstep
    · cases hstep
    rename_i sys hsys
    obtain ⟨core', hboot, rfl⟩ := Option.map_eq_some_iff.1 hstep
    obtain ⟨dedup, -, rfl⟩ := Option.map_eq_some_iff.1 hboot
    simp only [SpoolSys.step] at hsys
    split at hsys
    · cases hsys
      exact hended.filter _
    · cases hsys

/-- **Every entry of the raw topic is that of a valid event**, whatever arrives. -/
theorem judged_reach {C : ReceiverSys → ReceiverOp → Prop} {s : ReceiverSys}
    (h : (receiver hmac rt cfg).Reach C s) : ∀ e ∈ s.core.sys.log, Judged rt e.record :=
  h.all_of_accrued (I := fun _ => True) (fun _ he => absurd he List.not_mem_nil) (fun _ _ => trivial)
    fun s _ _ _ _ hstep => @step_judged hmac rt cfg s _ _ hstep

end Steps

end Receiver

namespace Detect

/-- **The receiver and the detection job agree.**  In every run of the receiver, with crashes anywhere and
whatever arrives, the detection job parses every entry that is spooled for the raw topic; the event has the
identity and the observation time that the entry was spooled under, and when it names a flow, the key of the
flow is the key of the partition. -/
theorem spooled_events_parsed (hmac : Link.Hmac) (rt rt' : Runtime) (tx : Texts) (cfg : Receiver.Config)
    (hlimit : rt.recursionLimit ≤ rt'.recursionLimit) {s : Receiver.ReceiverSys}
    (h : (Receiver.receiver hmac rt cfg).Reach (fun _ _ => True) s) :
    ∀ entry ∈ s.core.sys.log, entry.record.topic = Receiver.TOPIC_RAW →
      ∃ raw e, decodeUtf8 entry.record.value = some raw ∧ parse rt' tx raw = .ok e ∧
        ParsedAs rt' tx entry.record e := by
  intro entry hentry htopic
  obtain ⟨c, ev, hj, hr⟩ := Receiver.judged_reach h entry hentry htopic
  obtain ⟨raw, e, hraw, he, hparsed, -⟩ := @accepted_parsed rt' tx _ _ _ _ hj hr hlimit
  exact ⟨raw, e, hraw, he, hparsed⟩

/-- Texts of nothing. -/
def sampleTexts : Texts := ⟨fun _ => none, fun _ _ => [], fun _ _ => encodable_nil⟩

set_option maxRecDepth 100000 in
/-- The first sample event is parsed from the spool. -/
theorem spooled_events_parsed_sample : ∃ s : Receiver.ReceiverSys,
    (Receiver.receiver hmacSha256 sampleRuntime Receiver.sampleConfig).Reach (fun _ _ => True) s ∧
    s.core.sys.log ≠ [] ∧ ∀ entry ∈ s.core.sys.log, entry.record.topic = Receiver.TOPIC_RAW →
      ∃ raw e, decodeUtf8 entry.record.value = some raw ∧ parse sampleRuntime sampleTexts raw = .ok e ∧
        ParsedAs sampleRuntime sampleTexts entry.record e := by
  have hreach := (Machine.Reach.init
    (m := Receiver.receiver hmacSha256 sampleRuntime Receiver.sampleConfig)
    (C := fun _ _ => True)).step (a := Receiver.receives 0) trivial
    (Receiver.step_receives (s := Receiver.ReceiverSys.init Receiver.sampleConfig) rfl rfl)
  refine ⟨_, hreach, ?_, spooled_events_parsed hmacSha256 sampleRuntime sampleRuntime sampleTexts
    Receiver.sampleConfig (Nat.le_refl _) hreach⟩
  have hlog : Receiver.rawIdentities
      (Receiver.sampleReceived (Receiver.ReceiverSys.init Receiver.sampleConfig).core).sys.log ≠ [] := by
    decide +kernel
  intro hnil
  exact hlog (congrArg Receiver.rawIdentities hnil)

end Detect

end OTS
