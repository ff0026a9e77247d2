import OTSecurity.Common.InvalidEvents
import OTSecurity.Lib.PyNumbers

/-!
# The parser of the detection job

Model of `parse` and `invalid_record` of `flink/sih_detect/events.py`, on every string.

* `Texts` — what the interpreter writes of values and errors, a parameter.
* `Raising` — computations that raise an exception with its text; `caught` — those that become `Invalid`.
* `parse` — an event, a refusal with its reason and detail, or an exception that escapes.
* `invalidRecord` — the record of a refusal.

Principal results: `parse_invalid` — a refusal has a reason of the contract and a detail that UTF-8 holds;
`refused_sound_iff` — when its record is sound.
-/

namespace OTS.Detect

/-! ## Exceptions with their texts -/

/-- What the interpreter writes of a list or an object, `none` when it nests too deep, and of the errors of
its own conversions.  They name types and quote values by `repr`, so that no lone surrogate is in them. -/
structure Texts where
  container : Json → Option PyStr
  error : PyExc → Json → PyStr
  error_encodable : ∀ e v, Encodable (error e v)

abbrev Raising := Except (PyExc × PyStr)

/-- `str(v)`. -/
def strOf (rt : Runtime) (tx : Texts) (v : Json) : Option PyStr :=
  match v with
  | .str s => some s
  | v => (rt.reprScalar v).or (tx.container v)

/-- `d[k]`. -/
def require (rt : Runtime) (ms : List (PyStr × Json)) (k : String) : Raising Json :=
  match Json.dictGet ms (pyStr k) with
  | some v => .ok v
  | none => .error (.keyError, rt.reprStr (pyStr k))

/-- A conversion of the interpreter. -/
def converted {α : Type} (tx : Texts) (v : Json) (x : Py α) : Raising α :=
  x.mapError fun e => (e, tx.error e v)

/-- `_TS.fullmatch(text)`: the separators stand in their places, digits in the others. -/
def tsMatches (text : PyStr) : Bool :=
  20 ≤ text.length ∧ separators.all (fun p => text[p.1]? = some p.2) ∧
    (List.range 19).all (fun i => separators.any (·.1 = i) ∨ (decimalDigit (text.getD i 0)).isSome) ∧
    (fractionUs (text.drop 19)).isSome

/-- `timeutil.parse_us(v)`. -/
def parseTime (rt : Runtime) (tx : Texts) (v : Json) : Raising Int :=
  let shapeless : Raising Int :=
    match strOf rt tx v with
    | none => .error (.recursionError, tx.error .recursionError v)
    | some s => .error (.valueError, pyStr "timestamp not in canonical form: " ++ rt.reprStr (s.take 40))
  match v with
  | .str s =>
    if ¬ tsMatches s then shapeless
    else match parseUs s with
      | some t => .ok t
      | none => .error (.valueError, tx.error .valueError v)
  | _ => shapeless

/-! ## The parser -/

def LOG_TYPES : List String := ["conn", "flow_update", "dns", "ssl", "weird"]

/-- The compact event that the detectors use. -/
structure Event where
  eventId : Json
  sensorId : Json
  boot : Json
  run : Json
  offsetUs : Int
  logType : Json
  eventTimeUs : Int
  obsMs : Int
  receivedUs : Int
  coverage : Json
  p : List (PyStr × Json)
  a : List (PyStr × Json)

/-- How parsing ends without an event: `Invalid`, or another exception. -/
inductive Refused where
  | invalid (reason : String) (detail : PyStr)
  | escapes (e : PyExc)

/-- The exceptions that `parse` catches. -/
def caught (e : PyExc) : Bool := e = .keyError ∨ e = .typeError ∨ e = .valueError

/-- The duration of a terminal `conn`, in microseconds. -/
def durationOf (tx : Texts) (logType : Json) (payload : List (PyStr × Json)) : Raising Int :=
  if logType.eqText "conn" then
    match (Json.dictGet payload (pyStr "duration_s")).getD .null with
    | .null => .ok 0
    | d => do
      let x ← converted tx d d.toFloatE
      converted tx d (roundE (x.mulNat 1000000))
  else .ok 0

/-- The fields of an object whose version and log type are known. -/
def parseFields (rt : Runtime) (tx : Texts) (ms : List (PyStr × Json)) (logType : Json) : Raising Event := do
  let eventTimeUs ← parseTime rt tx (← require rt ms "event_time")
  let receivedUs ← parseTime rt tx (← require rt ms "receiver_received_at")
  let offset ← require rt ms "replay_time_offset_us"
  let offsetUs ← converted tx offset offset.toIntE
  let payload ← require rt ms "payload"
  let avail := (Json.dictGet ms (pyStr "availability")).getD .null
  match payload, (if avail.truthy then avail else .obj []) with
  | .obj p, .obj a =>
    let duration ← durationOf tx logType p
    let eventId ← require rt ms "event_id"
    let sensorId ← require rt ms "sensor_id"
    let boot ← require rt ms "sensor_boot_id"
    return {
      eventId, sensorId, boot
      run := (Json.dictGet ms (pyStr "replay_run_id")).getD .null
      offsetUs, logType, eventTimeUs
      obsMs := (eventTimeUs + offsetUs + duration) / 1000
      receivedUs
      coverage := (Json.dictGet ms (pyStr "observation_coverage")).getD (.str (pyStr "unknown"))
      p, a }
  | _, _ => .error (.valueError, pyStr "payload/availability not objects")

/-- `d.get(k) not in texts`, and the refusal then. -/
def checkMember (rt : Runtime) (v : Json) (texts : List String) (reason k : String) : Except Refused Unit :=
  match rt.reprScalar v with
  | none => .error (.escapes .typeError)
  | some text =>
    if texts.any v.eqText then .ok () else .error (.invalid reason (pyStr k ++ pyStr "=" ++ text))

/-- `parse`. -/
def parse (rt : Runtime) (tx : Texts) (raw : PyStr) : Except Refused Event :=
  match Json.readE rt.recursionLimit raw with
  | .error _ => .error (.invalid "json_parse_error" (pyStr "record is not valid JSON"))
  | .ok (.obj ms) => do
    checkMember rt ((Json.dictGet ms (pyStr "event_schema_version")).getD .null) ["1.0.0"]
      "unsupported_schema_version" "event_schema_version"
    let logType := (Json.dictGet ms (pyStr "log_type")).getD .null
    checkMember rt logType LOG_TYPES "unknown_log_type" "log_type"
    match parseFields rt tx ms logType with
    | .ok ev => .ok ev
    | .error (e, text) =>
      if caught e then
        .error (.invalid "field_bound_violation" (pyStr "missing or invalid field: " ++ text.take 200))
      else .error (.escapes e)
  | .ok _ => .error (.invalid "json_parse_error" (pyStr "record is not a JSON object"))

/-! ## The record of a refusal -/

/-- `raw.encode("utf-8", errors="replace")`. -/
def encodeReplace (raw : PyStr) : Bytes :=
  (raw.map fun c => if isSurrogate c then 0x3F else c).flatMap utf8Char

/-- `invalid_record`; `none` when the clock is outside the calendar. -/
def invalidRecord (wallUs : Int) (raw : PyStr) (reason : String) (detail : PyStr) : Option Json :=
  let data := encodeReplace raw
  let sha := sha256Hex data
  (formatUs wallUs).map fun detectedAt => .obj [
    (pyStr "invalid_schema_version", .str (pyStr "1.0.0")),
    (pyStr "invalid_id", .str (pyStr (invalidId "flink" reason (some sha) none none none))),
    (pyStr "detected_at", .str detectedAt),
    (pyStr "stage", .str (pyStr "flink")),
    (pyStr "reason_code", .str (pyStr reason)),
    (pyStr "detail", .str (detail.take 512)),
    (pyStr "sensor_id", .null),
    (pyStr "sensor_boot_id", .null),
    (pyStr "sequence", .null),
    (pyStr "raw_sha256", .str (pyStr sha)),
    (pyStr "raw_size_bytes", .int data.length),
    (pyStr "raw_excerpt", .str (raw.take 2048))]

/-! ## What a refusal says -/

variable {rt : Runtime} {tx : Texts}

theorem reprScalar_encodable {v : Json} {text : PyStr} (h : rt.reprScalar v = some text) : Encodable text := by
  cases v with
  | null => exact Option.some.inj h ▸ pyStr_encodable _
  | bool b => exact Option.some.inj h ▸ pyStr_encodable _
  | int n => exact Option.some.inj h ▸ intText_encodable n
  | float x =>
    cases x with
    | nan => exact Option.some.inj h ▸ pyStr_encodable _
    | inf neg => exact Option.some.inj h ▸ pyStr_encodable _
    | finite neg mag => exact Option.some.inj h ▸ float_text_encodable _
  | str s => exact Option.some.inj h ▸ reprStr_encodable rt s
  | arr xs => cases h
  | obj ms => cases h

/-- What the computation raises has a text that UTF-8 holds. -/
def Legible {α : Type} (x : Raising α) : Prop := ∀ e text, x = .error (e, text) → Encodable text

theorem legible_ok {α : Type} (a : α) : Legible (.ok a : Raising α) := by
  intro e text h
  cases h

theorem legible_error {α : Type} {e : PyExc} {text : PyStr} (h : Encodable text) :
    Legible (.error (e, text) : Raising α) := by
  rintro _ _ ⟨⟩
  exact h

theorem Legible.bind {α β : Type} {x : Raising α} {f : α → Raising β} (hx : Legible x)
    (hf : ∀ a, Legible (f a)) : Legible (x >>= f) := by
  cases x with
  | error p => exact fun e text h => hx e text (by cases h; rfl)
  | ok a => exact hf a

theorem legible_require (ms : List (PyStr × Json)) (k : String) : Legible (require rt ms k) := by
  unfold require
  split
  · exact legible_ok _
  · exact legible_error (reprStr_encodable rt _)

theorem legible_converted {α : Type} (v : Json) (x : Py α) : Legible (converted tx v x) := by
  cases x with
  | error e => exact legible_error (tx.error_encodable e v)
  | ok a => exact legible_ok a

theorem legible_parseTime (v : Json) : Legible (parseTime rt tx v) := by
  have hshapeless : Legible (match strOf rt tx v with
      | none => .error (.recursionError, tx.error .recursionError v)
      | some s => .error (.valueError, pyStr "timestamp not in canonical form: " ++ rt.reprStr (s.take 40)) :
      Raising Int) := by
    split
    · exact legible_error (tx.error_encodable _ v)
    · exact legible_error (encodable_append.2 ⟨pyStr_encodable _, reprStr_encodable rt _⟩)
  unfold parseTime
  simp only
  split
  · split
    · exact hshapeless
    split
    · exact legible_ok _
    · exact legible_error (tx.error_encodable _ _)
  · exact hshapeless

theorem legible_durationOf (logType : Json) (payload : List (PyStr × Json)) :
    Legible (durationOf tx logType payload) := by
  unfold durationOf
  split
  · split
    · exact legible_ok 0
    · exact (legible_converted _ _).bind fun _ => legible_converted _ _
  · exact legible_ok 0

theorem legible_parseFields (ms : List (PyStr × Json)) (logType : Json) :
    Legible (parseFields rt tx ms logType) := by
  unfold parseFields
  refine (legible_require ms _).bind fun et => (legible_parseTime et).bind fun _ => ?_
  refine (legible_require ms _).bind fun recv => (legible_parseTime recv).bind fun _ => ?_
  refine (legible_require ms _).bind fun offset => (legible_converted offset _).bind fun _ => ?_
  refine (legible_require ms _).bind fun payload => ?_
  simp only
  split
  · refine (legible_durationOf _ _).bind fun _ => (legible_require ms _).bind fun _ => ?_
    exact (legible_require ms _).bind fun _ => (legible_require ms _).bind fun _ => legible_ok _
  · exact legible_error (pyStr_encodable _)

theorem checkMember_invalid {v : Json} {texts : List String} {reason k r : String} {detail : PyStr}
    (h : checkMember rt v texts reason k = .error (.invalid r detail)) : r = reason ∧ Encodable detail := by
  unfold checkMember at h
  split at h
  · cases h
  · rename_i text htext
    split at h
    · cases h
    · cases h
      exact ⟨rfl, encodable_append.2 ⟨encodable_append.2 ⟨pyStr_encodable _, pyStr_encodable _⟩,
        reprScalar_encodable htext⟩⟩

/-- **A refusal has a reason of the contract, and a detail that UTF-8 holds.** -/
theorem parse_invalid {raw detail : PyStr} {reason : String}
    (h : parse rt tx raw = .error (.invalid reason detail)) : reason ∈ REASONS ∧ Encodable detail := by
  unfold parse at h
  split at h
  · cases h
    exact ⟨by decide, pyStr_encodable _⟩
  · rename_i ms hread
    cases hv : checkMember rt ((Json.dictGet ms (pyStr "event_schema_version")).getD .null) ["1.0.0"]
        "unsupported_schema_version" "event_schema_version" with
    | error e =>
      rw [hv] at h
      obtain rfl := Except.error.inj h
      obtain ⟨rfl, hdetail⟩ := checkMember_invalid hv
      exact ⟨by decide, hdetail⟩
    | ok _ =>
      cases hl : checkMember rt ((Json.dictGet ms (pyStr "log_type")).getD .null) LOG_TYPES
          "unknown_log_type" "log_type" with
      | error e =>
        simp only [hv, hl] at h
        obtain rfl := Except.error.inj h
        obtain ⟨rfl, hdetail⟩ := checkMember_invalid hl
        exact ⟨by decide, hdetail⟩
      | ok _ =>
        have hfields := @legible_parseFields rt tx ms ((Json.dictGet ms (pyStr "log_type")).getD .null)
        simp only [hv, hl, bind, Except.bind] at h
        split at h
        · cases h
        · rename_i e text herr
          split at h
          · cases h
            exact ⟨by decide, encodable_append.2 ⟨pyStr_encodable _, (hfields e text herr).take 200⟩⟩
          · cases h
  · cases h
    exact ⟨by decide, pyStr_encodable _⟩

/-- The fields of the record of a refusal. -/
def refusal (raw : PyStr) (reason : String) (detail : PyStr) : Quarantined where
  invalidId := invalidId "flink" reason (some (sha256Hex (encodeReplace raw))) none none none
  detectedAt := []
  stage := "flink"
  reasonCode := reason
  detail := detail.take 512
  sensorId := none
  sensorBootId := none
  sequence := none
  rawSha256 := some (sha256Hex (encodeReplace raw))
  rawSizeBytes := (encodeReplace raw).length
  rawExcerpt := some (raw.take 2048)

theorem invalidRecord_eq (wallUs : Int) (raw : PyStr) (reason : String) (detail : PyStr) :
    invalidRecord wallUs raw reason detail =
      (formatUs wallUs).map fun t => { refusal raw reason detail with detectedAt := t }.json := rfl

/-- **When the record of a refusal is sound**: the clock reads a time of the calendar, and the string is
one that UTF-8 holds, as far as it is quoted, and of no more than 2^30 bytes. -/
theorem refused_sound_iff {raw detail : PyStr} {reason : String}
    (h : parse rt tx raw = .error (.invalid reason detail)) (wallUs : Int) :
    Sound rt (invalidRecord wallUs raw reason detail) ↔
      Present wallUs ∧ Encodable (raw.take 2048) ∧ (encodeReplace raw).length ≤ 1073741824 := by
  obtain ⟨hreason, hdetail⟩ := parse_invalid h
  have hwf : (refusal raw reason detail).WellFormed := {
    invalidId := uuid5_isUuid _ _
    stage := by simp [refusal]
    reasonCode := hreason
    detail := by simp [refusal]
    sensorId := fun _ h => absurd h (Option.not_mem_none _)
    sensorBootId := fun _ h => absurd h (Option.not_mem_none _)
    rawSha256 := fun _ h => ⟨_, (Option.some.inj h).symm⟩
    rawExcerpt := by
      rintro _ ⟨⟩
      exact List.length_take_le _ _ }
  rw [invalidRecord_eq, Quarantined.sound_iff rt hwf]
  refine and_congr_right fun _ => ⟨fun hs => ⟨hs.excerpt _ rfl, hs.size⟩, fun hs => ?_⟩
  refine ⟨fun _ h => absurd h (Option.not_mem_none _), hs.2, hdetail.take 512, ?_⟩
  rintro _ ⟨⟩
  exact hs.1

end OTS.Detect
