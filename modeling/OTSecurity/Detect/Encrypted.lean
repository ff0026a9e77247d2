import OTSecurity.Common.Iputil
import OTSecurity.Detect.Alerts
import OTSecurity.Detect.Beacon

/-!
# TLS metadata

Model of `EncryptedLogic` of `flink/sih_detect/encrypted.py`, for one key `src|dst|dst_port`.

* `indicators` — what a handshake shows, by name, `none` where it cannot be observed.
* `TlsState` — the sessions of the pair within the horizon; `encryptedLogic` — the logic.
-/

namespace OTS.Detect

/-- The payload fields read here. -/
structure SslPayload where
  srcIp : String
  dstIp : String
  dstPort : Option Int
  version : Option String
  serverName : Option String
  validationStatus : Option String

structure TlsEvent where
  eventId : String
  sensorId : String
  run : Option String
  offsetUs : Int
  eventTimeUs : Int
  obsMs : Int
  receivedUs : Int
  coverage : String
  p : SslPayload
  a : List (String × String)

def TlsEvent.evidence (ev : TlsEvent) : Evidence :=
  ⟨ev.obsMs, ev.eventTimeUs, ev.offsetUs, ev.receivedUs, ev.sensorId, ev.run⟩

def OLD_VERSIONS : List String := ["SSLv2", "SSLv3", "TLSv10", "TLSv11"]

def STANDARD_TLS_PORTS : List Int :=
  [443, 465, 563, 636, 853, 989, 990, 993, 995, 4843, 5061, 8443, 8883]

def WEIGHTS : List (String × Rat) :=
  [("old_tls_version", 3 / 10), ("sni_absent", 25 / 100), ("sni_ip_literal", 2 / 10),
    ("nonstandard_port", 1 / 10), ("certificate_not_validated", 25 / 100), ("dst_external", 1 / 10)]

def weight (name : String) : Rat := (WEIGHTS.lookup name).getD 0

/-- The characters that `str.strip` removes. -/
def isSpace (c : Char) : Bool :=
  c.toNat ∈ [0x20, 0x85, 0xA0, 0x1680, 0x2028, 0x2029, 0x202F, 0x205F, 0x3000] ||
    (9 ≤ c.toNat && c.toNat ≤ 13) || (0x1C ≤ c.toNat && c.toNat ≤ 0x1F) ||
    (0x2000 ≤ c.toNat && c.toNat ≤ 0x200A)

/-- `s.strip().lower() == "ok"`; the Kelvin sign is a `k` in lower case. -/
def saysOk (s : String) : Bool :=
  let stripped := ((s.toList.dropWhile isSpace).reverse.dropWhile isSpace).reverse
  match stripped with
  | [o, k] => (o == 'o' || o == 'O') && (k == 'k' || k == 'K' || k.toNat == 0x212A)
  | _ => false

/-- The indicators in the order of `WEIGHTS`. -/
def indicators (p : SslPayload) (a : List (String × String)) (dstExternal : Bool) :
    List (String × Option Bool) :=
  let handshakeSeen := p.version.isSome
  let absent := handshakeSeen && a.lookup "server_name" == some "MISSING"
  [("old_tls_version", p.version.map (· ∈ OLD_VERSIONS)),
    ("sni_absent", if p.serverName.isSome then some false else if absent then some true else none),
    ("sni_ip_literal", match p.serverName with
      | some sni => some (isIp sni)
      | none => if absent then some false else none),
    ("nonstandard_port", p.dstPort.map (· ∉ STANDARD_TLS_PORTS)),
    ("certificate_not_validated", p.validationStatus.map fun vs => !saysOk vs),
    ("dst_external", some dstExternal)]

/-- The dictionary of the state `s`. -/
structure TlsState where
  sessions : Nat
  scored : Nat
  maxScore : Rat
  maxPos : Nat
  first : Evidence
  last : Evidence
  ids : List String
  rank : Int
  positives : List String
  lastFeatureMs : Option Int

def TlsState.fresh (ev : TlsEvent) : TlsState :=
  ⟨0, 0, 0, 0, ev.evidence, ev.evidence, [], -1, [], none⟩

/-- The names of the indicators that are true. -/
def positivesOf (ind : List (String × Option Bool)) : List String :=
  (ind.filter fun p => p.2 = some true).map (·.1)

def availableOf (ind : List (String × Option Bool)) : List String :=
  (ind.filter fun p => p.2.isSome).map (·.1)

def unavailableOf (ind : List (String × Option Bool)) : List String :=
  sortedSet ((ind.filter fun p => p.2.isNone).map (·.1))

/-- The score of a session, `none` when it abstains. -/
def scoreOf (cfg : DetectConfig) (ind : List (String × Option Bool)) : Option Rat :=
  if (availableOf ind).length < cfg.tlsMinAvailable then none
  else some (((positivesOf ind).map weight).sum / ((availableOf ind).map weight).sum)

/-- The state to go on with: a new one when there is none or the last session is too old. -/
def TlsState.current (cfg : DetectConfig) (v : Option TlsState) (ev : TlsEvent) : TlsState :=
  match v with
  | none => .fresh ev
  | some s => if s.last.obsMs + cfg.tlsHorizonMs < ev.obsMs then .fresh ev else s

/-- One more session. -/
def TlsState.add (s : TlsState) (cfg : DetectConfig) (ev : TlsEvent)
    (ind : List (String × Option Bool)) : TlsState :=
  let s := { s with
    sessions := s.sessions + 1
    last := ev.evidence
    ids := appendIds s.ids ev.eventId }
  match scoreOf cfg ind with
  | none => s
  | some score =>
    let s := { s with scored := s.scored + 1 }
    if s.maxScore ≤ score then
      { s with
        maxScore := score
        maxPos := (positivesOf ind).length
        positives := positivesOf ind }
    else s

def TlsState.triggers (s : TlsState) (cfg : DetectConfig) : Bool :=
  cfg.tlsMinSessions ≤ s.scored ∧ cfg.tlsMinScore ≤ s.maxScore ∧ cfg.tlsMinPositive ≤ s.maxPos

def Scalar.ofIndicator : Option Bool → Scalar
  | none => .null
  | some b => .bool b

/-- `', '.join(names) or 'none'`. -/
def namesText (names : List String) : String :=
  if names = [] then "none" else ", ".intercalate names

def encryptedFinding (cfg : DetectConfig) (key : String) (ev : TlsEvent) (s : TlsState)
    (ind : List (String × Option Bool)) (severity : Severity) : Finding :=
  finding
    { detector := "encrypted"
      threatClass := "encrypted_malware_like"
      subtype := "suspicious_tls_metadata"
      entityType := "service_pair"
      entityKey := key
      severity := severity
      score := some s.maxScore
      method := "rule"
      detectorVersion := "encrypted-1.0.0"
      featureSchemaVersion := "tls_features-1.0.0"
      first := s.first
      last := s.last
      windowStartMs := s.first.obsMs
      windowEndMs := ev.obsMs
      observed := [("sessions", .int s.sessions), ("scored_sessions", .int s.scored),
        ("max_score", .float s.maxScore), ("tls_version", Scalar.ofText ev.p.version),
        ("server_name", Scalar.ofText ev.p.serverName),
        ("validation_status", Scalar.ofText ev.p.validationStatus)] ++
        ind.map fun p => ("ind_" ++ p.1, Scalar.ofIndicator p.2)
      thresholds := [("min_score", .float cfg.tlsMinScore), ("min_positive", .int cfg.tlsMinPositive),
        ("min_sessions", .int cfg.tlsMinSessions), ("min_available", .int cfg.tlsMinAvailable)]
      unavailable := unavailableOf ind
      coverage := ev.coverage
      srcIp := some ev.p.srcIp
      dstIp := some ev.p.dstIp
      dstPort := ev.p.dstPort
      protocol := some "tcp"
      rawEventIds := s.ids
      evidenceCount := s.sessions
      topFeatures := s.positives.map fun k => ⟨k, .int 1, .float (weight k), "indicator"⟩
      explanation := toString s.sessions ++ " TLS sessions from " ++ ev.p.srcIp ++ " to " ++
        ev.p.dstIp ++ ":" ++ portText ev.p.dstPort ++ " show metadata indicators: " ++
        namesText s.positives ++ ". Unobservable indicators: " ++ namesText (unavailableOf ind) ++
        ". Handshake metadata only; no payload was decrypted and this is not a malware verdict." }

def encryptedFeature (nowUs : Int) (key : String) (ev : TlsEvent) (s : TlsState)
    (ind : List (String × Option Bool)) (score : Rat) : FeatureRecord :=
  featureRecord nowUs "encrypted" "tls_features-1.0.0" "service_pair" key ev.sensorId s.first.obsMs
    ev.obsMs
    ([("sessions", .int s.sessions), ("score", .float score)] ++ ind.map fun p =>
      (p.1, match p.2 with
        | none => .null
        | some b => .int (if b then 1 else 0)))
    ((unavailableOf ind).map fun k => (k, "UNKNOWN")) []

def encryptedOnEvent (cfg : DetectConfig) (inv : Inventory) (key : String) (nowUs : Int)
    (v : Option TlsState) (ev : TlsEvent) : Effect TlsState Emitted :=
  let external := !inv.isLocal ev.p.dstIp
  let ind := indicators ev.p ev.a external
  let s := (TlsState.current cfg v ev).add cfg ev ind
  let severity : Severity := if 10 ≤ s.sessions && external then .medium else .low
  let raise := s.triggers cfg && s.rank < severity.rank
  let findings := if raise then [Emitted.out (encryptedFinding cfg key ev s ind severity)] else []
  let s := if raise then { s with rank := severity.rank } else s
  let r : TlsState × List Emitted :=
    match (scoreOf cfg ind).filter (cfg.tlsMinScore / 2 ≤ ·) with
    | none => (s, [])
    | some score =>
      let limit := rateLimited s.lastFeatureMs ev.obsMs cfg.featureMinIntervalMs
      ({ s with lastFeatureMs := limit.2 },
        if limit.1 then [Emitted.feature (encryptedFeature nowUs key ev s ind score)] else [])
  ⟨some r.1, [bucketUp ((ev.obsMs + cfg.tlsHorizonMs : Int) : Rat) 60000], findings ++ r.2⟩

def encryptedOnTimer (cfg : DetectConfig) (v : Option TlsState) (ts : Int) :
    Effect TlsState Emitted :=
  match v with
  | none => ⟨none, [], []⟩
  | some s =>
    if s.last.obsMs + cfg.tlsHorizonMs ≤ ts then ⟨none, [], []⟩ else ⟨some s, [], []⟩

def encryptedLogic (cfg : DetectConfig) (inv : Inventory) (key : String) :
    Logic TlsEvent TlsState Emitted :=
  ⟨encryptedOnEvent cfg inv key, fun _ => encryptedOnTimer cfg⟩

end OTS.Detect
