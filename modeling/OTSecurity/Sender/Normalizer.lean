import OTSecurity.Common.Contracts
import OTSecurity.Common.Ids
import OTSecurity.Lib.DecimalJson
import OTSecurity.Lib.ODict
import OTSecurity.Lib.Sha256
import OTSecurity.Link.Frame

/-!
# The normalizer of the sender

Model of `ingest/sender/sih_sender/normalizer.py`: from a line of a Zeek log to the envelope of an
event.

* `Raised` — what the functions raise; `NormalizationError` and `RecordTooLarge` are expected.
* `Outcome` — what becomes of a field; `Builder` — the payload under construction, with the states and
  the reasons of what is not there, and `Builder.puts`, which writes one field after the other.
* `connLike`, `dns`, `ssl`, `weird` — the payloads; `normalize`, `emitTimeUs`, `envelope`.

The lines are Python strings, the values those of `json.loads` with decimals.
-/

namespace OTS.Sender

open Link (MAX_RECORD_BYTES)

inductive Raised where
  | normalization (message : String)
  | recordTooLarge (message : String)
  /-- `decimal.InvalidOperation` or `decimal.Overflow`. -/
  | arithmetic
  | typeError
  | overflow
  | unicode
  deriving DecidableEq, Repr

abbrev Attempt := Except Raised

/-- A computation that raises `e` when it has no value. -/
def Attempt.ofOption {α : Type} (e : Raised) : Option α → Attempt α
  | some a => .ok a
  | none => .error e

def LOG_TYPES : List String := ["conn", "flow_update", "dns", "ssl", "weird"]

def ORIGINAL_MAX_CHARS : Nat := 4096

def CONN_STATES : List String :=
  ["S0", "S1", "SF", "REJ", "S2", "S3", "RSTO", "RSTR", "RSTOS0", "RSTRH", "SH", "SHR", "OTH"]

def COUNTERS : List String :=
  ["orig_bytes", "resp_bytes", "orig_pkts", "resp_pkts", "orig_ip_bytes", "resp_ip_bytes"]

/-- `2 ** 53 - 1`. -/
def MAX_SAFE_INT : Int := 9007199254740991

/-! ## Zeek records -/

abbrev ZeekRecord := List (PyStr × DecJson)

/-- `n.get(k)`. -/
def ZeekRecord.get (n : ZeekRecord) (k : String) : DecJson :=
  ((n.find? (·.1 = pyStr k)).map (·.2)).getD .null

/-- The number that `_is_num` admits. -/
def num? : DecJson → Option PyDecimal
  | .int n => some (.ofInt n)
  | .dec d => some d
  | _ => none

/-- `fullmatch` of a pattern that repeats one class of characters. -/
def fullmatch (p : Nat → Bool) (lo hi : Nat) (s : PyStr) : Bool :=
  lo ≤ s.length ∧ s.length ≤ hi ∧ s.all p

def UID : PyStr → Bool := fullmatch alnum 1 32
def SERVICE : PyStr → Bool := fullmatch (fun c => alnum c || oneOf "_,.-" c) 1 64
def HISTORY : PyStr → Bool := fullmatch (fun c => alpha c || oneOf "^" c) 0 64
def SSL_HISTORY : PyStr → Bool := fullmatch alpha 0 64
def QTYPE_NAME : PyStr → Bool := fullmatch (fun c => alnum c || oneOf "_*-" c) 1 16
def RCODE_NAME : PyStr → Bool := fullmatch (fun c => alnum c || oneOf "_-" c) 1 32
def TLS_VERSION : PyStr → Bool := fullmatch (fun c => alnum c || oneOf "._ -" c) 1 16
def CIPHER : PyStr → Bool := fullmatch (fun c => alnum c || oneOf "_-" c) 1 128
def CURVE : PyStr → Bool := fullmatch (fun c => alnum c || oneOf "_-" c) 1 64

/-- `WEIRD_NAME_BAD.sub("_", name)`. -/
def weirdName (name : PyStr) : PyStr :=
  name.map fun c => if alnum c || oneOf "_./:-" c then c else 0x5F

/-- `is_ip`. -/
def isIpText : DecJson → Option PyStr
  | .str s => (chars? s).bind fun cs => if isIp (String.ofList cs) then some s else none
  | _ => none

mutual

/-- `repr(v)`. -/
def reprDec (rt : Runtime) : DecJson → PyStr
  | .null => pyStr "None"
  | .bool b => pyStr (if b then "True" else "False")
  | .int n => intText n
  | .dec d => pyStr "Decimal('" ++ d.text ++ pyStr "')"
  | .float .nan => pyStr "nan"
  | .float (.inf neg) => pyStr (if neg then "-inf" else "inf")
  | .float x => x.text
  | .str s => rt.reprStr s
  | .arr xs => 0x5B :: (reprElements rt xs ++ [0x5D])
  | .obj ms => 0x7B :: (reprMembers rt ms ++ [0x7D])

def reprElements (rt : Runtime) : List DecJson → PyStr
  | [] => []
  | [x] => reprDec rt x
  | x :: y :: xs => reprDec rt x ++ pyStr ", " ++ reprElements rt (y :: xs)

def reprMembers (rt : Runtime) : List (PyStr × DecJson) → PyStr
  | [] => []
  | [(k, v)] => rt.reprStr k ++ pyStr ": " ++ reprDec rt v
  | (k, v) :: m :: ms =>
    rt.reprStr k ++ pyStr ": " ++ reprDec rt v ++ pyStr ", " ++ reprMembers rt (m :: ms)

end

/-- `str(v)`. -/
def strDec (rt : Runtime) : DecJson → PyStr
  | .str s => s
  | .dec d => d.text
  | v => reprDec rt v

/-- `_parse`. -/
def parse (rt : Runtime) (line : PyStr) : Attempt ZeekRecord :=
  match DecJson.loads rt.recursionLimit line with
  | .error .invalid => .error (.normalization "not valid JSON")
  | .error .inexact => .error .arithmetic
  | .ok (.obj n) => .ok n
  | .ok _ => .error (.normalization "record is not a JSON object")

/-- `_ts`. -/
def tsUs (n : ZeekRecord) : Attempt Int :=
  match num? (n.get "ts") with
  | none => .error (.normalization "ts missing or not numeric")
  | some t => .ofOption .arithmetic (zeekTsToUs t)

/-- `_required_uid`. -/
def requiredUid (n : ZeekRecord) : Attempt PyStr :=
  match n.get "uid" with
  | .str u => if UID u then .ok u else .error (.normalization "uid missing or invalid")
  | _ => .error (.normalization "uid missing or invalid")

/-- `_required_ip`. -/
def requiredIp (n : ZeekRecord) (field : String) : Attempt PyStr :=
  .ofOption (.normalization (field ++ " missing or not an IP literal")) (isIpText (n.get field))

/-- `_transport`. -/
def transport (n : ZeekRecord) : String :=
  match n.get "proto" with
  | .str p => (["tcp", "udp", "icmp"].find? fun t => p = pyStr t).getD "unknown_transport"
  | _ => "unknown_transport"

/-! ## The builder -/

/-- What becomes of a field: it has a value, or a state that says why it has none, and a reason. -/
inductive Outcome where
  | known (v : Json)
  | unavailable (state reason : String)

/-- A value that breaks the contract of its field. -/
def Outcome.outOfContract : Outcome := .unavailable "UNKNOWN" "value_out_of_contract"

/-- The fields that are written, in order. -/
abbrev Writes := List (String × Outcome)

structure Builder where
  payload : ODict String Json
  availability : ODict String String
  reasons : ODict String String

namespace Builder

def empty : Builder := ⟨.empty, .empty, .empty⟩

/-- `b.payload[field] = v`, or `unavailable`. -/
def put (b : Builder) (field : String) : Outcome → Builder
  | .known v => { b with payload := b.payload.set field v }
  | .unavailable state reason =>
    { payload := b.payload.set field .null
      availability := b.availability.set field state
      reasons := if reason = "" then b.reasons else b.reasons.set field reason }

def puts (b : Builder) (ws : Writes) : Builder := ws.foldl (fun b w => b.put w.1 w.2) b

/-- The value of a field whose direction is not observed goes. -/
def hide (b : Builder) (field : String) : Builder :=
  { b with availability := b.availability.erase field, reasons := b.reasons.erase field }.put field
    (.unavailable "UNKNOWN" "direction_not_observed")

end Builder

/-! ### The methods of the builder -/

def count (n : ZeekRecord) (zeek : String) (maximum : Int) (absentState absentReason : String) :
    Outcome :=
  match n.get zeek with
  | .null => .unavailable absentState absentReason
  | .int v => if 0 ≤ v ∧ v ≤ maximum then .known (.int v) else .outOfContract
  | _ => .outOfContract

def port (n : ZeekRecord) (zeek : String) : Outcome :=
  count n zeek 65535 "MISSING" "zeek_field_absent"

/-- The longest duration, in seconds. -/
def MAX_SECONDS : Rat := 31536000

def seconds (n : ZeekRecord) (zeek absentState absentReason : String) : Outcome :=
  match n.get zeek with
  | .null => .unavailable absentState absentReason
  | v =>
    match num? v with
    | some d =>
      if 0 ≤ d.value ∧ d.value ≤ MAX_SECONDS then .known (.float d.toFloat) else .outOfContract
    | none => .outOfContract

def boolean (n : ZeekRecord) (zeek absentState absentReason : String) : Outcome :=
  match n.get zeek with
  | .null => .unavailable absentState absentReason
  | .bool v => .known (.bool v)
  | _ => .outOfContract

def text (n : ZeekRecord) (zeek : String) (pattern : PyStr → Bool) (maxLen : Nat)
    (absentState absentReason : String) : Outcome :=
  match n.get zeek with
  | .null => .unavailable absentState absentReason
  | .str v => if v.length ≤ maxLen ∧ pattern v then .known (.str v) else .outOfContract
  | _ => .outOfContract

/-! ## Payloads -/

/-- The fields of the direction that is not observed. -/
def hidden (coverage : String) : List String :=
  if coverage = "originator_only" then ["resp_bytes", "resp_pkts", "resp_ip_bytes"]
  else if coverage = "responder_only" then ["orig_bytes", "orig_pkts", "orig_ip_bytes"]
  else []

/-- The identity and the endpoints of a connection. -/
def endpoints (n : ZeekRecord) : Attempt (PyStr × Writes) := do
  let uid ← requiredUid n
  let src ← requiredIp n "id.orig_h"
  let dst ← requiredIp n "id.resp_h"
  return (uid, [("uid", .known (.str uid)), ("src_ip", .known (.str src)),
    ("src_port", port n "id.orig_p"), ("dst_ip", .known (.str dst)),
    ("dst_port", port n "id.resp_p")])

/-- `service`; a list of names is joined with commas. -/
def service (rt : Runtime) (n : ZeekRecord) : Outcome :=
  let named : PyStr → Outcome := fun s => if SERVICE s then .known (.str s) else .outOfContract
  match n.get "service" with
  | .null => .unavailable "UNKNOWN" "no_protocol_identified"
  | .arr xs => named (joinWith (pyStr ",") (xs.map (strDec rt)))
  | .str s => named s
  | _ => .outOfContract

/-- `conn_state`; a value that cannot be hashed is not looked up in a set. -/
def connState (n : ZeekRecord) : Attempt Outcome :=
  match n.get "conn_state" with
  | .null => .ok (.unavailable "MISSING" "zeek_field_absent")
  | .arr _ => .error .typeError
  | .obj _ => .error .typeError
  | .str s =>
    .ok (if CONN_STATES.any fun t => s = pyStr t then .known (.str s) else .outOfContract)
  | _ => .ok .outOfContract

/-- The fields that only the final record of a connection has. -/
def terminalWrites (n : ZeekRecord) : Attempt Writes := do
  let state ← connState n
  return [("missed_bytes", count n "missed_bytes" MAX_SAFE_INT "MISSING" "zeek_field_absent"),
    ("conn_state", state),
    ("local_orig", boolean n "local_orig" "UNKNOWN" "site_networks_unconfigured"),
    ("local_resp", boolean n "local_resp" "UNKNOWN" "site_networks_unconfigured")]

/-- `_conn_like`. -/
def connLike (rt : Runtime) (coverage : String) (n : ZeekRecord) (terminal : Bool) :
    Attempt (PyStr × Builder) := do
  let (uid, ends) ← endpoints n
  let last ← (if terminal then terminalWrites n else .ok [])
  let b := Builder.empty.puts (ends ++ [("proto", .known (.str (pyStr (transport n)))),
    ("service", service rt n),
    ("duration_s", seconds n "duration" "MISSING" "zeek_field_absent")] ++
    COUNTERS.map (fun f => (f, count n f MAX_SAFE_INT "MISSING" "zeek_field_absent")) ++
    [("history", text n "history" HISTORY 64 "MISSING" "zeek_field_absent")] ++ last)
  -- A zero from an unobserved direction is no evidence.
  return (uid, (hidden coverage).foldl Builder.hide b)

def query (n : ZeekRecord) : Writes :=
  match n.get "query" with
  | .str q =>
    [("query", .known (.str (q.take 255))), ("query_truncated", .known (.bool (255 < q.length)))]
  | _ =>
    [("query", .unavailable "MISSING" "zeek_field_absent"),
      ("query_truncated", .known (.bool false))]

/-- `answers`, given what became of `rcode`. -/
def answers (rt : Runtime) (n : ZeekRecord) (rcode : Outcome) : Writes :=
  match n.get "answers", rcode with
  | .arr xs, _ =>
    let texts := (xs.take 16).map (strDec rt)
    [("answers", .known (.arr (texts.map fun s => .str (s.take 255)))),
      ("answers_truncated", .known (.bool (16 < xs.length || texts.any fun s => 255 < s.length)))]
  | _, .known _ => [("answers", .known (.arr [])), ("answers_truncated", .known (.bool false))]
  | _, .unavailable _ _ =>
    [("answers", .unavailable "MISSING" "no_response_observed"),
      ("answers_truncated", .known (.bool false))]

def dnsTransport (n : ZeekRecord) : Attempt String :=
  if transport n = "udp" ∨ transport n = "tcp" then .ok (transport n)
  else .error (.normalization "dns proto must be udp or tcp")

/-- `_dns`. -/
def dns (rt : Runtime) (n : ZeekRecord) : Attempt (PyStr × Builder) := do
  let (uid, ends) ← endpoints n
  let proto ← dnsTransport n
  let rcode := count n "rcode" 65535 "MISSING" "no_response_observed"
  return (uid, Builder.empty.puts (ends ++ [("proto", .known (.str (pyStr proto))),
    ("trans_id", count n "trans_id" 65535 "MISSING" "zeek_field_absent"),
    ("rtt_s", seconds n "rtt" "MISSING" "no_response_observed")] ++ query n ++
    [("qclass", count n "qclass" 65535 "MISSING" "zeek_field_absent"),
    ("qtype", count n "qtype" 65535 "MISSING" "zeek_field_absent"),
    ("qtype_name", text n "qtype_name" QTYPE_NAME 16 "MISSING" "zeek_field_absent"),
    ("rcode", rcode),
    ("rcode_name", text n "rcode_name" RCODE_NAME 32 "MISSING" "no_response_observed"),
    ("aa", boolean n "AA" "MISSING" "zeek_field_absent"),
    ("tc", boolean n "TC" "MISSING" "zeek_field_absent"),
    ("rd", boolean n "RD" "MISSING" "zeek_field_absent"),
    ("ra", boolean n "RA" "MISSING" "zeek_field_absent")] ++ answers rt n rcode ++
    [("rejected", boolean n "rejected" "MISSING" "zeek_field_absent")]))

def certChainLen (n : ZeekRecord) : Outcome :=
  match n.get "cert_chain_fps" with
  | .arr fps => if fps.length ≤ 32 then .known (.int fps.length) else .outOfContract
  | _ =>
    let tls13 := match n.get "version" with
      | .str v => decide (v = pyStr "TLSv13")
      | _ => false
    .unavailable "UNKNOWN"
      (if tls13 then "tls13_certificates_encrypted" else "no_certificate_observed")

def anyText : PyStr → Bool := fun _ => true

/-- `_ssl`. -/
def ssl (n : ZeekRecord) : Attempt (PyStr × Builder) := do
  let (uid, ends) ← endpoints n
  return (uid, Builder.empty.puts (ends ++
    [("version", text n "version" TLS_VERSION 16 "MISSING" "handshake_incomplete"),
    ("cipher", text n "cipher" CIPHER 128 "MISSING" "handshake_incomplete"),
    ("curve", text n "curve" CURVE 64 "UNKNOWN" "zeek_field_absent"),
    ("server_name", text n "server_name" anyText 255 "MISSING" "not_sent_by_client"),
    ("resumed", boolean n "resumed" "MISSING" "zeek_field_absent"),
    ("established", boolean n "established" "MISSING" "zeek_field_absent"),
    ("next_protocol", text n "next_protocol" anyText 64 "NOT_APPLICABLE" "alpn_not_negotiated"),
    ("ssl_history", text n "ssl_history" SSL_HISTORY 64 "MISSING" "zeek_field_absent"),
    ("validation_status",
      text n "validation_status" anyText 128 "UNKNOWN" "validation_not_configured"),
    ("cert_chain_len", certChainLen n),
    ("sni_matches_cert", boolean n "sni_matches_cert" "UNKNOWN" "zeek_field_absent")]))

/-- The uid of a `weird`, which may not belong to a connection. -/
def weirdUid (n : ZeekRecord) : Option PyStr :=
  match n.get "uid" with
  | .str u => if UID u then some u else none
  | _ => none

/-- An endpoint of a `weird`. -/
def endpoint (n : ZeekRecord) (zeek : String) : Outcome :=
  match n.get zeek with
  | .null => .unavailable "NOT_APPLICABLE" "not_connection_scoped"
  | v => (isIpText v).elim .outOfContract fun s => .known (.str s)

def addl (rt : Runtime) (n : ZeekRecord) : Outcome :=
  match n.get "addl" with
  | .null => .unavailable "NOT_APPLICABLE" "no_additional_info"
  | v => .known (.str ((strDec rt v).take 256))

def requiredName (n : ZeekRecord) : Attempt PyStr :=
  match n.get "name" with
  | .str s => if s = [] then .error (.normalization "weird name missing") else .ok s
  | _ => .error (.normalization "weird name missing")

/-- `_weird`. -/
def weird (rt : Runtime) (n : ZeekRecord) : Attempt (Option PyStr × Builder) := do
  let name ← requiredName n
  return (weirdUid n, Builder.empty.puts [
    ("uid", (weirdUid n).elim (.unavailable "NOT_APPLICABLE" "not_connection_scoped") fun u =>
      .known (.str u)),
    ("src_ip", endpoint n "id.orig_h"), ("dst_ip", endpoint n "id.resp_h"),
    ("src_port", count n "id.orig_p" 65535 "NOT_APPLICABLE" "not_connection_scoped"),
    ("dst_port", count n "id.resp_p" 65535 "NOT_APPLICABLE" "not_connection_scoped"),
    ("name", .known (.str ((weirdName name).take 128))), ("addl", addl rt n),
    ("notice", boolean n "notice" "MISSING" "zeek_field_absent"),
    ("peer", text n "peer" anyText 64 "MISSING" "zeek_field_absent"),
    ("source", text n "source" anyText 64 "NOT_APPLICABLE" "zeek_field_absent")])

/-! ## Records -/

structure Normalized where
  logType : String
  payload : ODict String Json
  availability : ODict String String
  reasons : ODict String String
  eventTimeUs : Int
  /-- When a live sensor would have emitted it. -/
  emitTimeUs : Int
  uid : Option PyStr
  originalLine : PyStr

/-- `emit_time_us`: the key by which a replay orders the records. -/
def emitTimeUs (rt : Runtime) (logType : String) (line : PyStr) : Attempt Int := do
  let n ← parse rt line
  let ts ← tsUs n
  match num? (n.get "duration") with
  | some d =>
    if logType = "conn" ∧ 0 ≤ d.value then
      (Attempt.ofOption .arithmetic (zeekTsToUs d)).map (ts + ·)
    else .ok ts
  | none => .ok ts

/-- `0.1`, which is not a tenth. -/
def MIN_INTERVAL : Rat := 3602879701896397 / 36028797018963968

def snapshotSeq (n : ZeekRecord) : Attempt Int :=
  match n.get "snapshot_seq" with
  | .int seq =>
    if 1 ≤ seq ∧ seq ≤ 1000000000 then .ok seq
    else .error (.normalization "flow_update snapshot_seq missing or out of range")
  | _ => .error (.normalization "flow_update snapshot_seq missing or out of range")

def snapshotInterval (n : ZeekRecord) : Attempt PyFloat :=
  match num? (n.get "snapshot_interval") with
  | some iv =>
    if MIN_INTERVAL ≤ iv.value ∧ iv.value ≤ 3600 then .ok iv.toFloat
    else .error (.normalization "flow_update snapshot_interval missing or out of range")
  | none => .error (.normalization "flow_update snapshot_interval missing or out of range")

/-- The two fields that only a `flow_update` has. -/
def snapshot (n : ZeekRecord) : Attempt Writes := do
  let seq ← snapshotSeq n
  let interval ← snapshotInterval n
  return [("snapshot_seq", .known (.int seq)), ("snapshot_interval_s", .known (.float interval))]

/-- When a `conn` was emitted: at its start, and its duration later when that was kept. -/
def connEmit (n : ZeekRecord) (b : Builder) (ts : Int) : Attempt Int :=
  if (b.payload.get? "duration_s").all Json.isNull then .ok ts
  else match num? (n.get "duration") with
    | some d => (Attempt.ofOption .arithmetic (zeekTsToUs d)).map (ts + ·)
    | none => .error .typeError

/-- The payload of a record of a log type, its uid and its time of emission. -/
def payloadOf (rt : Runtime) (coverage logType : String) (n : ZeekRecord) (ts : Int) :
    Attempt (Option PyStr × Builder × Int) :=
  if logType = "conn" then do
    let (uid, b) ← connLike rt coverage n true
    let emit ← connEmit n b ts
    return (some uid, b, emit)
  else if logType = "flow_update" then do
    let (uid, b) ← connLike rt coverage n false
    let ws ← snapshot n
    return (some uid, b.puts ws, ts)
  else if logType = "dns" then do
    let (uid, b) ← dns rt n
    return (some uid, b, ts)
  else if logType = "ssl" then do
    let (uid, b) ← ssl n
    return (some uid, b, ts)
  else do
    let (uid, b) ← weird rt n
    return (uid, b, ts)

def checkLogType (logType : String) : Attempt Unit :=
  if logType ∈ LOG_TYPES then .ok ()
  else .error (.normalization ("unsupported log type " ++ logType))

def normalize (rt : Runtime) (coverage logType : String) (line : PyStr) : Attempt Normalized := do
  checkLogType logType
  let n ← parse rt line
  let ts ← tsUs n
  let (uid, b, emit) ← payloadOf rt coverage logType n ts
  return ⟨logType, b.payload, b.availability, b.reasons, ts, emit, uid, line⟩

/-! ## Envelopes -/

/-- What an envelope says about its sender and its run. -/
structure EnvelopeContext where
  sensorId : String
  bootId : String
  sequence : Nat
  replayRunId : Option String
  replayOffsetUs : Int
  captureMode : String
  coverage : String
  nowUs : Int

def keyed (d : ODict String Json) : List (PyStr × Json) := d.entries.map fun e => (pyStr e.1, e.2)

def keyedText (d : ODict String String) : List (PyStr × Json) :=
  d.entries.map fun e => (pyStr e.1, .str (pyStr e.2))

/-- The members of the envelope; `original` is the record, unless it is left out. -/
def envelopeOf (r : Normalized) (c : EnvelopeContext) (sha : String) (eventTime emittedAt : PyStr)
    (original : Option PyStr) : Json :=
  .obj [
    (pyStr "event_schema_version", .str (pyStr "1.0.0")),
    (pyStr "event_id", .str (pyStr (eventId c.sensorId c.bootId c.sequence sha))),
    (pyStr "sensor_id", .str (pyStr c.sensorId)),
    (pyStr "sensor_boot_id", .str (pyStr c.bootId)),
    (pyStr "sequence", .int c.sequence),
    (pyStr "replay_run_id", c.replayRunId.elim .null fun s => .str (pyStr s)),
    (pyStr "replay_time_offset_us", .int c.replayOffsetUs),
    (pyStr "log_type", .str (pyStr r.logType)),
    (pyStr "event_time", .str eventTime),
    (pyStr "sensor_emitted_at", .str emittedAt),
    (pyStr "capture_mode", .str (pyStr c.captureMode)),
    (pyStr "observation_coverage", .str (pyStr c.coverage)),
    (pyStr "original_record_sha256", .str (pyStr sha)),
    (pyStr "original_record", original.elim .null .str),
    (pyStr "original_record_truncated", .bool original.isNone),
    (pyStr "availability", .obj (keyedText r.availability)),
    (pyStr "availability_reasons", .obj (keyedText r.reasons)),
    (pyStr "payload", .obj (keyed r.payload))]

def checkSize (env : Json) (out : Bytes) : Attempt (Json × Bytes) :=
  if MAX_RECORD_BYTES < out.length then
    .error (.recordTooLarge s!"envelope {out.length} bytes after dropping original record")
  else .ok (env, out)

/-- `envelope`: the value that is serialized, and its bytes. -/
def envelope (r : Normalized) (c : EnvelopeContext) : Attempt (Json × Bytes) := do
  let raw ← Attempt.ofOption .unicode (encodeUtf8 r.originalLine)
  let eventTime ← Attempt.ofOption .overflow (formatUs r.eventTimeUs)
  let emittedAt ← Attempt.ofOption .overflow (formatUs c.nowUs)
  let env := envelopeOf r c (sha256Hex raw) eventTime emittedAt
  let fits := r.originalLine.length ≤ ORIGINAL_MAX_CHARS
  let whole := env (if fits then some r.originalLine else none)
  let out ← Attempt.ofOption .unicode whole.dumpBytes
  if MAX_RECORD_BYTES < out.length ∧ fits then do
    let out ← Attempt.ofOption .unicode (env none).dumpBytes
    checkSize (env none) out
  else checkSize whole out

end OTS.Sender
