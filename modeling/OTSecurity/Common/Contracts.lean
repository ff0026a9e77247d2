import Mathlib.Tactic.NormNum
import OTSecurity.Common.Timeutil
import OTSecurity.Lib.JsonSchema

/-!
# Contracts

Model of `lib/sih_common/contracts.py` with the schemas `event.v1` and `sensor-health.v1`.

* `Runtime` — what the program takes from elsewhere: the errors that `jsonschema` reports, the
  Unicode table behind `repr`, the recursion limit.
* `Contract` — a kind of message: its version field, its schema and its cross-field rules.
* `validate` — the version, the schema, then the rules; `none` when it raises.
* `observationMs` — the observation time of an event; `none` when it raises.

Principal results: `validate_isSome` — `validate` raises exactly when the version field cannot be
hashed; `validate_nil` — what it accepts; `observationMs_isSome`, `observationMs_bounds` — when an
accepted event has an observation time, and how large it is.
-/

namespace OTS

/-! ## What comes from elsewhere -/

/-- An error of `iter_errors`: the path of the value, its items rendered by `str`, and the message. -/
structure SchemaError where
  path : List PyStr
  message : PyStr

structure Runtime where
  /-- `Draft202012Validator(schema).iter_errors(value)`, in its order. -/
  iterErrors : Schema → Json → List SchemaError
  /-- There is no error exactly when the value is valid. -/
  iterErrors_nil : ∀ s v, iterErrors s v = [] ↔ s v = true
  /-- `str.isprintable` of one character. -/
  printable : Nat → Bool
  /-- How deep the JSON reader may nest. -/
  recursionLimit : Nat

/-- A code, as in `invalid-event.v1`, and a message. -/
abbrev ContractError := String × PyStr

structure Contract where
  versionField : String
  supported : String
  schema : Schema
  rules : Json → List ContractError

/-! ## Rendering -/

def hexPadded (n v : Nat) : PyStr := (List.range n).map fun i => Json.hexDigit (v / 16 ^ (n - 1 - i) % 16)

/-- A character in `repr` of a string quoted with `quote`. -/
def Runtime.reprChar (rt : Runtime) (quote c : Nat) : PyStr :=
  if c = quote ∨ c = 0x5C then [0x5C, c]
  else if c = 0x09 then [0x5C, 0x74]
  else if c = 0x0A then [0x5C, 0x6E]
  else if c = 0x0D then [0x5C, 0x72]
  else if c < 0x20 ∨ c = 0x7F then 0x5C :: 0x78 :: hexPadded 2 c
  else if c < 0x7F ∨ rt.printable c ∧ ¬ isSurrogate c then [c]
  else if c < 0x100 then 0x5C :: 0x78 :: hexPadded 2 c
  else if c < 0x10000 then 0x5C :: 0x75 :: hexPadded 4 c
  else 0x5C :: 0x55 :: hexPadded 8 c

def Runtime.reprStr (rt : Runtime) (s : PyStr) : PyStr :=
  let quote := if 0x27 ∈ s ∧ 0x22 ∉ s then 0x22 else 0x27
  quote :: (s.flatMap (rt.reprChar quote) ++ [quote])

theorem hexPadded_encodable (n v : Nat) : Encodable (hexPadded n v) := by
  intro c hc
  obtain ⟨i, -, rfl⟩ := List.mem_map.1 hc
  exact Json.hexDigit_encodable (Nat.mod_lt _ (by decide))

/-- `repr` of a string has no lone surrogate: none is printable. -/
theorem reprStr_encodable (rt : Runtime) (s : PyStr) : Encodable (rt.reprStr s) := by
  have hascii : ∀ {c : Nat}, c < 0x7F → isSurrogate c = false := by
    intro c hc
    simp only [isSurrogate, Bool.and_eq_false_iff, decide_eq_false_iff_not]
    omega
  have hescape : ∀ (a : Nat) (t : PyStr), isSurrogate a = false → Encodable t → Encodable (0x5C :: a :: t) :=
    fun a t ha ht => encodable_cons.2 ⟨by decide, encodable_cons.2 ⟨ha, ht⟩⟩
  have hchar : ∀ quote c, isSurrogate quote = false → Encodable (rt.reprChar quote c) := by
    intro quote c hquote
    unfold Runtime.reprChar
    split
    · rename_i h
      rcases h with rfl | rfl
      · exact hescape _ _ hquote encodable_nil
      · decide
    split
    · decide
    split
    · decide
    split
    · decide
    split
    · exact hescape _ _ (by decide) (hexPadded_encodable _ _)
    split
    · rename_i h
      refine encodable_cons.2 ⟨?_, encodable_nil⟩
      rcases h with h | ⟨-, h⟩
      · exact hascii h
      · simpa using h
    split
    · exact hescape _ _ (by decide) (hexPadded_encodable _ _)
    split
    · exact hescape _ _ (by decide) (hexPadded_encodable _ _)
    · exact hescape _ _ (by decide) (hexPadded_encodable _ _)
  have hquote : isSurrogate (if 0x27 ∈ s ∧ 0x22 ∉ s then 0x22 else 0x27) = false := by
    split <;> decide
  unfold Runtime.reprStr
  refine encodable_cons.2 ⟨hquote, encodable_append.2 ⟨?_, encodable_cons.2 ⟨hquote, encodable_nil⟩⟩⟩
  intro d hd
  obtain ⟨c, -, hdc⟩ := List.mem_flatMap.1 hd
  exact hchar _ c hquote d hdc

/-- `repr` of a value that can be hashed, and `none` for the others. -/
def Runtime.reprScalar (rt : Runtime) : Json → Option PyStr
  | .null => some (pyStr "None")
  | .bool b => some (pyStr (if b then "True" else "False"))
  | .int n => some (intText n)
  | .float .nan => some (pyStr "nan")
  | .float (.inf neg) => some (pyStr (if neg then "-inf" else "inf"))
  | .float x => some x.text
  | .str s => some (rt.reprStr s)
  | .arr _ => none
  | .obj _ => none

def strLt (a b : PyStr) : Bool := List.lex a b (fun x y => decide (x < y))

/-- The order in which errors are reported: by path, otherwise as they come. -/
def SchemaError.le (a b : SchemaError) : Bool := !List.lex b.path a.path strLt

def joinWith (sep : PyStr) (parts : List PyStr) : PyStr := sep.intercalate parts

/-- The message of an error, under its path. -/
def SchemaError.render (e : SchemaError) : PyStr :=
  (if e.path = [] then pyStr "<root>" else joinWith (pyStr "/") e.path) ++ pyStr ": " ++
    e.message.take 300

/-- `_schema_errors`. -/
def schemaErrors (rt : Runtime) (c : Contract) (v : Json) : List ContractError :=
  ((rt.iterErrors c.schema v).mergeSort SchemaError.le).map fun e => ("schema", e.render)

/-- `validate`; `none` when it raises: a version that cannot be hashed. -/
def validate (rt : Runtime) (c : Contract) (v : Json) : Option (List ContractError) :=
  let checked :=
    let errs := schemaErrors rt c v
    some (if errs ≠ [] then errs else c.rules v)
  match v.get? c.versionField with
  | none => checked
  | some w =>
    match rt.reprScalar w with
    | none => none
    | some text =>
      match w with
      | .str s => if s = pyStr c.supported then checked else
          some [("unsupported_schema_version",
            pyStr c.versionField ++ pyStr "=" ++ text ++ pyStr s!" not in ['{c.supported}']")]
      | _ => some [("unsupported_schema_version",
          pyStr c.versionField ++ pyStr "=" ++ text ++ pyStr s!" not in ['{c.supported}']")]

/-! ## Cross-field rules -/

def Json.members : Json → List (PyStr × Json)
  | .obj ms => ms
  | _ => []

def Json.isNull : Json → Bool
  | .null => true
  | _ => false

/-- The text of a value that is a string. -/
def Json.text : Json → PyStr
  | .str s => s
  | _ => []

def hasKey (ms : List (PyStr × Json)) (k : PyStr) : Bool := (Json.dictGet ms k).isSome

/-- `availability_errors`. -/
def availabilityErrors (values availability reasons : List (PyStr × Json)) : List ContractError :=
  values.flatMap (fun m =>
    if m.2.isNull ∧ ¬ hasKey availability m.1 then
      [("availability_null", m.1 ++ pyStr " is null without an availability state")]
    else match Json.dictGet availability m.1 with
      | some state =>
        if m.2.isNull then []
        else [("availability_on_value", m.1 ++ pyStr " has a value but is marked " ++ state.text)]
      | none => []) ++
  availability.flatMap (fun m =>
    if hasKey values m.1 then []
    else [("availability_unknown_field", pyStr "availability names unknown field " ++ m.1)]) ++
  reasons.flatMap (fun m =>
    if hasKey availability m.1 then []
    else [("reason_without_availability",
      pyStr "availability_reasons." ++ m.1 ++ pyStr " without availability state")])

def Json.field (v : Json) (k : String) : Json := (v.get? k).getD .null

/-- `_event_rules`. -/
def eventRules (ev : Json) : List ContractError :=
  availabilityErrors (ev.field "payload").members (ev.field "availability").members
      (ev.field "availability_reasons").members ++
    match ev.field "original_record", ev.field "original_record_truncated" with
    | .null, .bool false =>
      [("original_record_null", pyStr "original_record is null but original_record_truncated is false")]
    | _, _ => []

/-! ## Schemas -/

open Schema Regex

/-- `2^53 - 1`. -/
def MAX_SAFE : Rat := 9007199254740991

namespace Defs

def uuid : Schema :=
  all [type [.string], pattern (seq [run hexLower 8 8, lit "-", run hexLower 4 4, lit "-",
    run hexLower 4 4, lit "-", run hexLower 4 4, lit "-", run hexLower 12 12])]

def sensorId : Schema :=
  all [type [.string], pattern (seq [run (fun c => lower c || digit c) 1 1,
    run (fun c => lower c || digit c || oneOf "-" c) 0 62])]

def timestamp : Schema :=
  all [type [.string], maxLength 32, pattern (seq [run digit 4 4, lit "-", run digit 2 2, lit "-",
    run digit 2 2, lit "T", run digit 2 2, lit ":", run digit 2 2, lit ":", run digit 2 2,
    opt (seq [lit ".", run digit 1 6]), lit "Z"])]

def integer (lo hi : Rat) : Schema := all [type [.integer], minimum lo, maximum hi]

def text (p : Nat → Bool) (lo hi : Nat) : Schema := all [type [.string], pattern (run p lo hi)]

def shortText (n : Nat) : Schema := all [type [.string], maxLength n]

def replayRunId : Schema := orNull (text (fun c => alnum c || oneOf "._-" c) 1 64)

def ip : Schema := all [type [.string], maxLength 45, anyOf [format ipv4Valid, format ipv6Valid]]

def ipOrNull : Schema := orNull ip

def portOrNull : Schema := orNull (integer 0 65535)

def countOrNull : Schema := orNull (integer 0 MAX_SAFE)

def boolOrNull : Schema := type [.boolean, .null]

def bool : Schema := type [.boolean]

def zeekUid : Schema := text alnum 1 32

def transport : Schema := enum [some "tcp", some "udp", some "icmp", some "unknown_transport"]

def number (lo hi : Rat) : Schema := all [type [.number], minimum lo, maximum hi]

def durationOrNull : Schema := orNull (number 0 31536000)

def serviceOrNull : Schema := orNull (text (fun c => alnum c || oneOf "_,.-" c) 1 64)

def historyOrNull : Schema := orNull (text (fun c => alpha c || oneOf "^" c) 0 64)

def connStateOrNull : Schema :=
  enum [some "S0", some "S1", some "SF", some "REJ", some "S2", some "S3", some "RSTO", some "RSTR",
    some "RSTOS0", some "RSTRH", some "SH", some "SHR", some "OTH", none]

def shortTextOrNull : Schema := orNull (shortText 64)

/-- The five properties of a connection that every payload shares; in `weird` they may be null. -/
def endpoints (uid ip : Schema) : List (String × Schema) :=
  [("uid", uid), ("src_ip", ip), ("src_port", portOrNull), ("dst_ip", ip), ("dst_port", portOrNull)]

def flowFields : List (String × Schema) :=
  endpoints zeekUid ip ++ [("proto", transport), ("service", serviceOrNull),
    ("duration_s", durationOrNull), ("orig_bytes", countOrNull), ("resp_bytes", countOrNull),
    ("orig_pkts", countOrNull), ("resp_pkts", countOrNull), ("orig_ip_bytes", countOrNull),
    ("resp_ip_bytes", countOrNull)]

def connPayload : Schema :=
  record (flowFields ++ [("missed_bytes", countOrNull), ("conn_state", connStateOrNull),
    ("history", historyOrNull), ("local_orig", boolOrNull), ("local_resp", boolOrNull)])

def flowUpdatePayload : Schema :=
  record (flowFields ++ [("history", historyOrNull), ("snapshot_seq", integer 1 1000000000),
    ("snapshot_interval_s", number (1 / 10) 3600)])

def dnsPayload : Schema :=
  record (endpoints zeekUid ip ++ [("proto", enum [some "udp", some "tcp"]), ("trans_id", portOrNull),
    ("rtt_s", durationOrNull), ("query", orNull (shortText 255)), ("query_truncated", bool),
    ("qclass", portOrNull), ("qtype", portOrNull),
    ("qtype_name", orNull (text (fun c => alnum c || oneOf "_*-" c) 1 16)), ("rcode", portOrNull),
    ("rcode_name", orNull (text (fun c => alnum c || oneOf "_-" c) 1 32)), ("aa", boolOrNull),
    ("tc", boolOrNull), ("rd", boolOrNull), ("ra", boolOrNull),
    ("answers", orNull (all [type [.array], maxItems 16, items (shortText 255)])),
    ("answers_truncated", bool), ("rejected", boolOrNull)])

def sslPayload : Schema :=
  record (endpoints zeekUid ip ++ [("version", orNull (text (fun c => alnum c || oneOf "._ -" c) 1 16)),
    ("cipher", orNull (text (fun c => alnum c || oneOf "_-" c) 1 128)),
    ("curve", orNull (text (fun c => alnum c || oneOf "_-" c) 1 64)),
    ("server_name", orNull (shortText 255)), ("resumed", boolOrNull), ("established", boolOrNull),
    ("next_protocol", shortTextOrNull), ("ssl_history", orNull (text alpha 0 64)),
    ("validation_status", orNull (shortText 128)), ("cert_chain_len", orNull (integer 0 32)),
    ("sni_matches_cert", boolOrNull)])

def weirdPayload : Schema :=
  record (endpoints (orNull zeekUid) ipOrNull ++
    [("name", text (fun c => alnum c || oneOf "_./:-" c) 1 128), ("addl", orNull (shortText 256)),
      ("notice", boolOrNull), ("peer", shortTextOrNull), ("source", shortTextOrNull)])

/-- `availability` and `availability_reasons`: a schema for the values, names of fields as keys. -/
def availabilityMap (value : Schema) : Schema :=
  all [type [.object], maxProperties 64,
    propertyNames (pattern (seq [run lower 1 1, run (fun c => lower c || digit c || oneOf "_" c) 0 63])),
    additionalProperties [] value]

/-- The payload of events of one log type. -/
def payloadOf (logType : String) (payload : Schema) : Schema :=
  ifThen (properties [("log_type", const logType)]) (properties [("payload", payload)])

end Defs

open Defs

def eventProperties : List (String × Schema) :=
  [("event_schema_version", const "1.0.0"), ("event_id", uuid), ("sensor_id", sensorId),
    ("sensor_boot_id", uuid), ("sequence", integer 0 MAX_SAFE), ("replay_run_id", replayRunId),
    ("replay_time_offset_us", integer (-MAX_SAFE) MAX_SAFE),
    ("log_type", enum [some "conn", some "flow_update", some "dns", some "ssl", some "weird"]),
    ("event_time", timestamp), ("sensor_emitted_at", timestamp), ("receiver_received_at", timestamp),
    ("capture_mode", enum [some "pcap_replay", some "synthetic_log", some "passive_live"]),
    ("observation_coverage",
      enum [some "both_directions", some "originator_only", some "responder_only", some "unknown"]),
    ("original_record_sha256", text hexLower 64 64), ("original_record", orNull (shortText 4096)),
    ("original_record_truncated", bool),
    ("availability", availabilityMap (enum [some "MISSING", some "NOT_APPLICABLE", some "UNKNOWN"])),
    ("availability_reasons", availabilityMap (text (fun c => lower c || digit c || oneOf "_" c) 1 64)),
    ("payload", type [.object])]

/-- `event.v1.schema.json`. -/
def eventSchema : Schema :=
  all [record eventProperties, payloadOf "conn" connPayload, payloadOf "flow_update" flowUpdatePayload,
    payloadOf "dns" dnsPayload, payloadOf "ssl" sslPayload, payloadOf "weird" weirdPayload]

/-- `sensor-health.v1.schema.json`. -/
def sensorHealthSchema : Schema :=
  record [("health_schema_version", const "1.0.0"), ("sensor_id", sensorId), ("sensor_boot_id", uuid),
    ("health_seq", integer 0 MAX_SAFE), ("emitted_at", timestamp), ("received_at", orNull timestamp),
    ("sender_state", enum [some "running", some "degraded", some "idle", some "stopping"]),
    ("mode", enum [some "tail", some "replay"]), ("replay_run_id", replayRunId),
    ("last_sequence_sent", countOrNull), ("records_read_total", integer 0 MAX_SAFE),
    ("frames_sent_total", integer 0 MAX_SAFE), ("records_rejected_oversize_total", integer 0 MAX_SAFE),
    ("records_invalid_local_total", integer 0 MAX_SAFE), ("spool_bytes", integer 0 MAX_SAFE),
    ("spool_max_bytes", integer 0 MAX_SAFE), ("tail_lag_bytes", countOrNull),
    ("files_tracked", integer 0 100000),
    ("zeek_status", enum [some "running", some "finished", some "not_running", some "unknown",
      some "not_applicable"]),
    ("replay_records_total", countOrNull), ("replay_records_sent", countOrNull)]

def eventContract : Contract := ⟨"event_schema_version", "1.0.0", eventSchema, eventRules⟩

def sensorHealthContract : Contract :=
  ⟨"health_schema_version", "1.0.0", sensorHealthSchema, fun _ => []⟩

/-! ## Observation time -/

/-- `int(v)` of a number; `none` when it raises. -/
def Json.toInt? : Json → Option Int
  | .int n => some n
  | .float x => x.value?.map fun v => if 0 ≤ v then v.floor else -(-v).floor
  | _ => none

/-- `float(v)` of a number; `none` when it raises. -/
def Json.toFloat? : Json → Option PyFloat
  | .int n =>
    match PyFloat.ofRat (n < 0) n.natAbs with
    | .inf _ => none
    | x => some x
  | .float x => some x
  | _ => none

/-- The duration that a terminal `conn` adds, in microseconds; `none` when it raises. -/
def durationUs (ev : Json) : Option Int :=
  if (ev.field "log_type").text = pyStr "conn" then
    match (ev.field "payload").field "duration_s" with
    | .null => some 0
    | d => d.toFloat?.bind fun x => (x.mulNat 1000000).roundInt
  else some 0

/-- `observation_ms`. -/
def observationMs (ev : Json) : Option Int :=
  match parseUs (ev.field "event_time").text, (ev.field "replay_time_offset_us").toInt?,
      durationUs ev with
  | some t, some offset, some d => some ((t + offset + d) / 1000)
  | _, _, _ => none

/-! ## What is accepted -/

/-- Neither a list nor a dictionary. -/
def Json.Hashable : Json → Prop
  | .arr _ => False
  | .obj _ => False
  | _ => True

theorem reprScalar_isSome (rt : Runtime) (w : Json) : (rt.reprScalar w).isSome ↔ w.Hashable := by
  cases w with
  | float x => cases x <;> exact iff_of_true rfl trivial
  | arr xs => exact iff_of_false (by simp [Runtime.reprScalar]) id
  | obj ms => exact iff_of_false (by simp [Runtime.reprScalar]) id
  | null => exact iff_of_true rfl trivial
  | bool b => exact iff_of_true rfl trivial
  | int n => exact iff_of_true rfl trivial
  | str s => exact iff_of_true rfl trivial

/-- **`validate` raises exactly on a version that cannot be hashed.** -/
theorem validate_isSome (rt : Runtime) (c : Contract) (v : Json) :
    (validate rt c v).isSome ↔ ∀ w, v.get? c.versionField = some w → w.Hashable := by
  simp only [← reprScalar_isSome rt]
  unfold validate
  cases v.get? c.versionField with
  | none => simp
  | some w =>
    cases h : rt.reprScalar w with
    | none => simp [h]
    | some text =>
      cases w with
      | str s =>
        simp only [h, Option.some.injEq, forall_eq', Option.isSome_some, iff_true]
        split <;> rfl
      | _ => simp [h]

theorem schemaErrors_nil {rt : Runtime} {c : Contract} {v : Json} :
    schemaErrors rt c v = [] ↔ c.schema v = true := by
  unfold schemaErrors
  rw [List.map_eq_nil_iff, ← List.length_eq_zero_iff, List.length_mergeSort, List.length_eq_zero_iff]
  exact rt.iterErrors_nil c.schema v

/-- What is accepted satisfies the schema and the rules. -/
theorem validate_nil {rt : Runtime} {c : Contract} {v : Json} (h : validate rt c v = some []) :
    c.schema v = true ∧ c.rules v = [] := by
  have hchecked : ∀ errs, some (if errs ≠ [] then errs else c.rules v) = some ([] : List ContractError) →
      errs = [] ∧ c.rules v = [] := by
    intro errs he
    by_cases hn : errs = []
    · exact ⟨hn, by simpa [hn] using he⟩
    · simp [hn] at he
  have hboth : schemaErrors rt c v = [] ∧ c.rules v = [] := by
    unfold validate at h
    cases hv : v.get? c.versionField with
    | none =>
      rw [hv] at h
      exact hchecked _ h
    | some w =>
      rw [hv] at h
      cases hr : rt.reprScalar w with
      | none => simp [hr] at h
      | some text =>
        cases w with
        | str s =>
          simp only [hr] at h
          split at h
          · exact hchecked _ h
          · simp at h
        | _ => simp [hr] at h
  exact ⟨schemaErrors_nil.1 hboth.1, hboth.2⟩

/-- A value of the supported version is accepted when it satisfies the schema and the rules. -/
theorem validate_supported {rt : Runtime} {c : Contract} {v : Json}
    (hv : v.get? c.versionField = some (.str (pyStr c.supported))) :
    validate rt c v = some [] ↔ c.schema v = true ∧ c.rules v = [] := by
  refine ⟨validate_nil, ?_⟩
  rintro ⟨hs, hr⟩
  have herrs : schemaErrors rt c v = [] := schemaErrors_nil.2 hs
  unfold validate
  simp only [hv, Runtime.reprScalar, herrs, hr, if_true, ne_eq, not_true_eq_false, if_false]

/-! ## What an accepted event holds -/

variable {ev : Json}

theorem event_property (h : eventSchema ev = true) {k : String} {s : Schema}
    (hk : (k, s) ∈ eventProperties) : s (ev.field k) = true := by
  obtain ⟨w, hw, hs⟩ := record_property (all_iff.1 h _ List.mem_cons_self) hk
  rw [Json.field, hw]
  exact hs

/-- The log types and the schemas of their payloads. -/
def payloads : List (String × Schema) :=
  [("conn", connPayload), ("flow_update", flowUpdatePayload), ("dns", dnsPayload),
    ("ssl", sslPayload), ("weird", weirdPayload)]

theorem enum_str {names : List String} {v : Json} (h : enum (names.map some) v = true) :
    ∃ name ∈ names, v = .str (pyStr name) := by
  cases v with
  | str s =>
    obtain ⟨w, hw, heq⟩ := List.any_eq_true.1 h
    obtain ⟨name, hname, rfl⟩ := List.mem_map.1 hw
    exact ⟨name, hname, congrArg Json.str (of_decide_eq_true heq).symm⟩
  | null => simp [enum] at h
  | bool b => cases h
  | int n => cases h
  | float x => cases h
  | arr xs => cases h
  | obj ms => cases h

/-- The payload of an accepted event is that of its log type. -/
theorem event_payload (h : eventSchema ev = true) : ∃ p ∈ payloads,
    ev.field "log_type" = .str (pyStr p.1) ∧ p.2 (ev.field "payload") = true := by
  obtain ⟨name, hname, hlog⟩ := @enum_str (payloads.map (·.1)) _
    (event_property h (List.mem_of_getElem? (i := 7) rfl))
  obtain ⟨p, hp, rfl⟩ := List.mem_map.1 hname
  refine ⟨p, hp, hlog, ?_⟩
  have hkeyword : ∀ s ∈ payloads.map (fun p => payloadOf p.1 p.2), s ev = true := fun s hs =>
    all_iff.1 h s (List.mem_cons_of_mem _ hs)
  have hcase := hkeyword _ (List.mem_map.2 ⟨p, hp, rfl⟩)
  obtain ⟨w, hw, -⟩ := record_property (all_iff.1 h _ List.mem_cons_self)
    (List.mem_of_getElem? (i := 18) (l := eventProperties) rfl)
  obtain ⟨l, hl, -⟩ := record_property (all_iff.1 h _ List.mem_cons_self)
    (List.mem_of_getElem? (i := 7) (l := eventProperties) rfl)
  have hl' : l = .str (pyStr p.1) := by
    rw [← hlog, Json.field, hl]
    rfl
  cases ev with
  | obj ms =>
    have hthen : properties [("payload", p.2)] (.obj ms) = true := by
      have hif : properties [("log_type", const p.1)] (.obj ms) = true := by
        rw [properties_iff]
        intro q hq v hv
        rw [List.mem_singleton.1 hq] at hv ⊢
        obtain rfl : l = v := Option.some.inj (hl.symm.trans hv)
        rw [hl']
        simp [const, enum]
      simpa [payloadOf, ifThen, hif] using hcase
    rw [Json.field, hw]
    exact properties_iff.1 hthen _ (List.mem_singleton.2 rfl) w hw
  | _ => cases hw

/-- An integer of a bounded property is read as one, within the bounds. -/
theorem toInt_of_integer {lo hi : Int} {v : Json} (h : Defs.integer lo hi v = true) :
    ∃ n, v.toInt? = some n ∧ lo ≤ n ∧ n ≤ hi := by
  simp only [Defs.integer, all_iff, List.forall_mem_cons] at h
  obtain ⟨htype, hmin, hmax, -⟩ := h
  obtain ⟨t, ht, hint⟩ := type_iff.1 htype
  rw [List.mem_singleton.1 ht] at hint
  cases v with
  | int n =>
    refine ⟨n, rfl, ?_, ?_⟩
    · have : ¬ (n : Rat) < lo := by simpa [minimum, onNumber] using hmin
      exact_mod_cast not_lt.1 this
    · have : ¬ (hi : Rat) < n := by simpa [maximum, onNumber] using hmax
      exact_mod_cast not_lt.1 this
  | float x =>
    cases x with
    | nan => cases hint
    | inf neg => cases hint
    | finite neg mag =>
      generalize hv : (if neg then -mag else mag) = r
      have hval : (PyFloat.finite neg mag).value? = some r := by rw [PyFloat.value?, hv]
      have hlo : (lo : Rat) ≤ r := by
        have : ¬ r < lo := by simpa [minimum, onNumber, PyFloat.ltInt, hv] using hmin
        exact not_lt.1 this
      have hhi : r ≤ hi := by
        have : ¬ (hi : Rat) < r := by simpa [maximum, onNumber, PyFloat.gtInt, hv] using hmax
        exact not_lt.1 this
      have hden : r.den = 1 := by
        simpa [JsonType.holds, PyFloat.isInteger, hval] using hint
      obtain ⟨n, rfl⟩ : ∃ n : Int, r = n := ⟨r.num, (Rat.den_eq_one_iff r).1 hden |>.symm⟩
      refine ⟨n, ?_, by exact_mod_cast hlo, by exact_mod_cast hhi⟩
      simp only [Json.toInt?, hval, Option.map_some, Option.some.injEq]
      split
      · exact Rat.floor_intCast n
      · rw [← Int.cast_neg, Rat.floor_intCast, neg_neg]
  | null => cases hint
  | bool b => cases hint
  | str s => cases hint
  | arr xs => cases hint
  | obj ms => cases hint

/-! ### The observation time -/

/-- The duration of a connection is not a number, which no bound of the schema refuses. -/
def NanDuration (ev : Json) : Prop :=
  (ev.field "log_type").text = pyStr "conn" ∧
    (ev.field "payload").field "duration_s" = .float .nan

theorem roundInt_mulNat {neg : Bool} {mag : Rat} (h : |mag| ≤ 2 ^ 25) :
    ∃ d, ((PyFloat.finite neg mag).mulNat 1000000).roundInt = some d ∧ -2 ^ 45 ≤ d ∧ d ≤ 2 ^ 45 := by
  have hmul : |mag * (1000000 : Nat)| ≤ 2 ^ 45 := by
    rw [abs_mul]
    calc |mag| * |((1000000 : Nat) : Rat)| ≤ 2 ^ 25 * 2 ^ 20 :=
          mul_le_mul h (by norm_num) (abs_nonneg _) (by positivity)
      _ = 2 ^ 45 := by norm_num
  obtain ⟨v, hv, hle⟩ := PyFloat.ofRat_finite (K := 45) (by decide) hmul neg
  refine ⟨roundHalfEven (if neg then -v else v), ?_, ?_, ?_⟩
  · rw [PyFloat.mulNat, hv]
    rfl
  · refine le_roundHalfEven ?_
    push_cast
    split
    · exact neg_le_neg (abs_le.1 hle).2
    · exact (abs_le.1 hle).1
  · refine roundHalfEven_le ?_
    push_cast
    split
    · exact neg_le.1 (abs_le.1 hle).1
    · exact (abs_le.1 hle).2

/-- A duration that the schema accepts is not a number, or has a number of microseconds. -/
theorem microseconds_of_number {v : Json} (h : Defs.number 0 31536000 v = true) :
    v = .float .nan ∨ ∃ d, (v.toFloat?.bind fun x => (x.mulNat 1000000).roundInt) = some d ∧
      -2 ^ 45 ≤ d ∧ d ≤ 2 ^ 45 := by
  simp only [Defs.number, all_iff, List.forall_mem_cons] at h
  obtain ⟨htype, hmin, hmax, -⟩ := h
  obtain ⟨t, ht, hnum⟩ := type_iff.1 htype
  rw [List.mem_singleton.1 ht] at hnum
  cases v with
  | int n =>
    have h0 : 0 ≤ n := by
      have : ¬ (n : Rat) < 0 := by simpa [minimum, onNumber] using hmin
      exact_mod_cast not_lt.1 this
    have h1 : n ≤ 31536000 := by
      have : ¬ (31536000 : Rat) < n := by simpa [maximum, onNumber] using hmax
      exact_mod_cast not_lt.1 this
    have habs : |((n.natAbs : Nat) : Rat)| ≤ 2 ^ 25 := by
      rw [abs_of_nonneg (by positivity)]
      have : n.natAbs ≤ 2 ^ 25 := by omega
      exact_mod_cast this
    obtain ⟨v, hv, hle⟩ := PyFloat.ofRat_finite (K := 25) (by decide) habs (n < 0)
    refine .inr ?_
    simp only [Json.toFloat?, hv, Option.bind_some]
    exact roundInt_mulNat hle
  | float x =>
    cases x with
    | nan => exact .inl rfl
    | inf neg =>
      cases neg with
      | true => simp [minimum, onNumber, PyFloat.ltInt] at hmin
      | false => simp [maximum, onNumber, PyFloat.gtInt] at hmax
    | finite neg mag =>
      refine .inr ?_
      have hlo : 0 ≤ if neg = true then -mag else mag := by
        have : ¬ (if neg = true then -mag else mag) < 0 := by
          simpa [minimum, onNumber, PyFloat.ltInt] using hmin
        exact not_lt.1 this
      have hhi : (if neg = true then -mag else mag) ≤ 31536000 := by
        have : ¬ (31536000 : Rat) < if neg = true then -mag else mag := by
          simpa [maximum, onNumber, PyFloat.gtInt] using hmax
        exact not_lt.1 this
      have habs : |mag| ≤ 2 ^ 25 := by
        have hle : (31536000 : Rat) ≤ 2 ^ 25 := by norm_num
        cases neg with
        | true =>
          rw [if_pos rfl] at hlo hhi
          rw [← abs_neg, abs_of_nonneg hlo]
          exact hhi.trans hle
        | false =>
          rw [if_neg Bool.false_ne_true] at hlo hhi
          rw [abs_of_nonneg hlo]
          exact hhi.trans hle
      simp only [Json.toFloat?, Option.bind_some]
      exact roundInt_mulNat habs
  | null => cases hnum
  | bool b => cases hnum
  | str s => cases hnum
  | arr xs => cases hnum
  | obj ms => cases hnum

theorem durationUs_of_valid (h : eventSchema ev = true) :
    NanDuration ev ∧ durationUs ev = none ∨
      ¬ NanDuration ev ∧ ∃ d, durationUs ev = some d ∧ -2 ^ 45 ≤ d ∧ d ≤ 2 ^ 45 := by
  by_cases hconn : (ev.field "log_type").text = pyStr "conn"
  · obtain ⟨p, hp, hlog, hpayload⟩ := event_payload h
    have hp1 : pyStr p.1 = pyStr "conn" := by rwa [hlog] at hconn
    have hconnPayload : connPayload (ev.field "payload") = true := by
      simp only [payloads, List.mem_cons, List.not_mem_nil, or_false] at hp
      rcases hp with rfl | rfl | rfl | rfl | rfl
      · exact hpayload
      all_goals exact absurd hp1 (by decide)
    obtain ⟨w, hw, hd⟩ := record_property hconnPayload
      (k := "duration_s") (s := durationOrNull) (List.mem_of_getElem? (i := 7) rfl)
    have hfield : (ev.field "payload").field "duration_s" = w := by
      rw [Json.field, hw]
      rfl
    unfold NanDuration durationUs
    rw [hfield, if_pos hconn]
    rcases orNull_iff.1 hd with hd | rfl
    · rcases microseconds_of_number hd with rfl | ⟨d, hsome, hbounds⟩
      · exact .inl ⟨⟨hconn, rfl⟩, rfl⟩
      · refine .inr ⟨?_, d, ?_, hbounds⟩
        · rintro ⟨-, rfl⟩
          cases hsome
        · cases w with
          | null => cases hsome
          | _ => exact hsome
    · refine .inr ⟨?_, 0, rfl, by norm_num, by norm_num⟩
      rintro ⟨-, hnan⟩
      cases hnan
  · refine .inr ⟨fun hn => hconn hn.1, 0, ?_, by norm_num, by norm_num⟩
    rw [durationUs, if_neg hconn]

/-- **When an accepted event has an observation time**: its time is one of the calendar and its
duration is a number. -/
theorem observationMs_isSome (h : eventSchema ev = true) : (observationMs ev).isSome ↔
    (parseUs (ev.field "event_time").text).isSome ∧ ¬ NanDuration ev := by
  obtain ⟨n, hn, -⟩ := @toInt_of_integer (-9007199254740991) 9007199254740991 _
    (by exact_mod_cast event_property h (k := "replay_time_offset_us")
          (s := Defs.integer (-MAX_SAFE) MAX_SAFE) (List.mem_of_getElem? (i := 6) rfl))
  unfold observationMs
  rw [hn]
  rcases durationUs_of_valid h with ⟨hnan, hd⟩ | ⟨hnan, d, hd, -⟩
  · simp [hd, hnan]
  · cases hp : parseUs (ev.field "event_time").text with
    | none => simp
    | some t => simp [hd, hnan]

/-- It fits 64 bits. -/
theorem observationMs_bounds (h : eventSchema ev = true) {t : Int} (ht : observationMs ev = some t) :
    -2 ^ 63 ≤ t ∧ t < 2 ^ 63 := by
  obtain ⟨n, hn, hlo, hhi⟩ := @toInt_of_integer (-9007199254740991) 9007199254740991 _
    (by exact_mod_cast event_property h (k := "replay_time_offset_us")
          (s := Defs.integer (-MAX_SAFE) MAX_SAFE) (List.mem_of_getElem? (i := 6) rfl))
  unfold observationMs at ht
  split at ht
  · rename_i t' n' d hp hn' hd
    obtain rfl := Option.some.inj ht
    obtain rfl : n = n' := Option.some.inj (hn.symm.trans hn')
    obtain ⟨hp1, hp2⟩ := parseUs_bounds hp
    rcases durationUs_of_valid h with ⟨-, hnone⟩ | ⟨-, d', hd', hb⟩
    · rw [hnone] at hd
      cases hd
    · obtain rfl : d' = d := Option.some.inj (hd'.symm.trans hd)
      omega
  · cases ht

/-! ## A sample runtime -/

/-- A validator that reports one error for an invalid value. -/
def sampleRuntime : Runtime where
  iterErrors s v := if s v = true then [] else [⟨[], pyStr "invalid"⟩]
  iterErrors_nil s v := by split <;> simp_all
  printable c := c < 0x7F
  recursionLimit := 1000

end OTS
