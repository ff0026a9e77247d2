import Mathlib.Algebra.GroupWithZero.Nat
import Mathlib.Data.List.Dedup
import Mathlib.Data.List.Sort
import OTSecurity.Common.Ids
import OTSecurity.Lib.Binary64

/-!
# Findings, alert updates and feature records

Model of `flink/sih_detect/alerts.py` and of the helpers of `flink/sih_detect/common.py`.

* `Finding`, `finding` — what a detector hands to the correlator.
* `AlertRecord`, `alertRecord` — one incident update.
* `FeatureRecord`, `featureRecord` — one snapshot of a detector's features.

Floats are rationals; times are kept as numbers (`format_us` writes them as text).
-/

namespace OTS.Detect

/-! ## Helpers -/

/-- The members of `SEVERITY_RANK`. -/
inductive Severity where
  | info
  | low
  | medium
  | high
  | critical
  deriving DecidableEq, Repr

/-- `SEVERITY_RANK`. -/
def Severity.rank : Severity → Nat
  | .info => 0
  | .low => 1
  | .medium => 2
  | .high => 3
  | .critical => 4

/-- The value of a feature or of an observation. -/
inductive Scalar where
  | null
  | bool (b : Bool)
  | int (n : Int)
  | float (q : Rat)
  | str (s : String)
  deriving DecidableEq

def Scalar.ofOption : Option Rat → Scalar
  | none => .null
  | some q => .float q

def Scalar.ofText : Option String → Scalar
  | none => .null
  | some s => .str s

/-- `num(v)` at its default of six digits. -/
def num : Scalar → Scalar
  | .float q => .float (roundDigits 6 q)
  | v => v

/-- `s[:n]`. -/
def cut (n : Nat) (s : String) : String := String.ofList (s.toList.take n)

/-- `xs[-n:]`. -/
def lastN {α : Type} (n : Nat) (xs : List α) : List α := xs.drop (xs.length - n)

/-- `sorted(set(names))`. -/
def sortedSet (names : List String) : List String := names.dedup.insertionSort (· ≤ ·)

/-- `EVENT_FIELDS` of an event: what describes first and last evidence. -/
structure Evidence where
  obsMs : Int
  eventTimeUs : Int
  offsetUs : Int
  receivedUs : Int
  sensorId : String
  run : Option String
  deriving DecidableEq

def bucketUp (ts : Rat) (step : Int) : Int := ((ts / step).floor + 1) * step

/-- `append_ids` at its default cap. -/
def appendIds (ids : List String) (eventId : String) : List String :=
  lastN 32 (if eventId ∈ ids then ids else ids ++ [eventId])

/-- `statistics.median` of a nonempty list. -/
def median (values : List Rat) : Rat :=
  let s := values.insertionSort (· ≤ ·)
  if s.length % 2 = 1 then s.getD (s.length / 2) 0
  else (s.getD (s.length / 2 - 1) 0 + s.getD (s.length / 2) 0) / 2

def robustCv (values : List Rat) : Option Rat :=
  if values.length < 2 then none
  else
    let m := median values
    if m ≤ 0 then none
    else some (14826 / 10000 * median (values.map fun v => |v - m|) / m)

/-! ## Findings -/

structure TopFeature where
  name : String
  value : Scalar
  contribution : Scalar
  unit : Option String
  deriving DecidableEq

structure Finding where
  detector : String
  threatClass : String
  subtype : String
  entityType : String
  entityKey : String
  severity : Severity
  score : Option Rat
  confidenceKind : String
  calibrationStatus : String
  modelVersion : Option String
  detectorVersion : String
  featureSchemaVersion : String
  method : String
  obsMs : Int
  eventTimeUs : Int
  offsetUs : Int
  receivedUs : Int
  sensorId : String
  run : Option String
  firstSeenMs : Int
  lastSeenMs : Int
  windowStartMs : Int
  windowEndMs : Int
  flowId : Option String
  srcIp : Option String
  srcPort : Option Int
  dstIp : Option String
  dstPort : Option Int
  protocol : Option String
  observed : List (String × Scalar)
  thresholds : List (String × Scalar)
  baseline : List (String × Scalar)
  coverage : String
  unavailable : List String
  capped : List String
  modelEligible : Bool
  modelReason : Option String
  rawEventIds : List String
  evidenceCount : Nat
  topFeatures : List TopFeature
  explanation : String
  deriving DecidableEq

/-- The keyword arguments of `finding`, with its defaults. -/
structure FindingArgs where
  detector : String
  threatClass : String
  subtype : String
  entityType : String
  entityKey : String
  severity : Severity
  score : Option Rat
  method : String
  detectorVersion : String
  featureSchemaVersion : String
  first : Evidence
  last : Evidence
  windowStartMs : Int
  windowEndMs : Int
  observed : List (String × Scalar)
  thresholds : List (String × Scalar)
  baseline : List (String × Scalar) := []
  unavailable : List String := []
  capped : List String := []
  coverage : String := "unknown"
  srcIp : Option String := none
  srcPort : Option Int := none
  dstIp : Option String := none
  dstPort : Option Int := none
  protocol : Option String := none
  flowId : Option String := none
  modelVersion : Option String := none
  calibrationStatus : Option String := none
  confidenceKind : Option String := none
  modelEligible : Bool := false
  modelReason : Option String := none
  rawEventIds : List String := []
  evidenceCount : Nat := 0
  topFeatures : List TopFeature := []
  explanation : String := ""

def FindingArgs.kind (a : FindingArgs) : String :=
  a.confidenceKind.getD (if a.score.isSome then "heuristic_score" else "unavailable")

/-- An observed value: texts are cut, numbers rounded. -/
def observedValue : Scalar → Scalar
  | .str s => .str (cut 255 s)
  | v => num v

def finding (a : FindingArgs) : Finding where
  detector := a.detector
  threatClass := a.threatClass
  subtype := a.subtype
  entityType := a.entityType
  entityKey := cut 320 a.entityKey
  severity := a.severity
  score := if a.kind = "unavailable" then none
    else a.score.map fun q => roundDigits 6 (max 0 (min 1 q))
  confidenceKind := a.kind
  calibrationStatus :=
    a.calibrationStatus.getD (if a.kind = "heuristic_score" then "uncalibrated" else "not_applicable")
  modelVersion := a.modelVersion
  detectorVersion := a.detectorVersion
  featureSchemaVersion := a.featureSchemaVersion
  method := a.method
  obsMs := a.last.obsMs
  eventTimeUs := a.last.eventTimeUs
  offsetUs := a.last.offsetUs
  receivedUs := a.last.receivedUs
  sensorId := a.last.sensorId
  run := a.last.run
  firstSeenMs := min a.first.obsMs a.last.obsMs
  lastSeenMs := a.last.obsMs
  windowStartMs := min a.windowStartMs a.windowEndMs
  windowEndMs := a.windowEndMs
  flowId := a.flowId.bind fun s => if s = "" then none else some (cut 200 s)
  srcIp := a.srcIp
  srcPort := a.srcPort
  dstIp := a.dstIp
  dstPort := a.dstPort
  protocol := a.protocol
  observed := (a.observed.take 32).map fun p => (p.1, observedValue p.2)
  thresholds := (a.thresholds.take 16).map fun p => (p.1, num p.2)
  baseline := (a.baseline.take 16).map fun p => (p.1, num p.2)
  coverage := a.coverage
  unavailable := (sortedSet a.unavailable).take 64
  capped := (sortedSet a.capped).take 64
  modelEligible := a.modelEligible
  modelReason := a.modelReason
  rawEventIds := lastN 32 a.rawEventIds
  evidenceCount := a.evidenceCount
  topFeatures := (a.topFeatures.take 10).map fun t =>
    { t with value := num t.value, contribution := num t.contribution }
  explanation := cut 1024 a.explanation

/-! ## Alert updates -/

inductive Status where
  | new
  | escalated
  | updated
  | resolved
  deriving DecidableEq, Repr

structure Entity where
  type : String
  key : String
  deriving DecidableEq

structure AlertEvidence where
  observed : List (String × Scalar)
  thresholds : List (String × Scalar)
  baseline : List (String × Scalar)
  observationCoverage : String
  unavailableFeatures : List String
  cappedFeatures : List String
  modelEligible : Bool
  modelReason : Option String
  rawEventIds : List String
  rawEventIdsTruncated : Bool
  evidenceCount : Nat
  deriving DecidableEq

/-- Times are microseconds, except the milliseconds of `observationTime` and of the window. -/
structure AlertRecord where
  alertSchemaVersion : String
  alertId : String
  incidentId : String
  updateId : String
  updateSeq : Nat
  status : Status
  timestamp : Int
  eventTime : Int
  observationTime : Int
  replayTimeOffsetUs : Int
  evidenceReceivedAt : Int
  sensorId : String
  replayRunId : Option String
  flowId : Option String
  srcIp : Option String
  srcPort : Option Int
  dstIp : Option String
  dstPort : Option Int
  protocol : Option String
  entity : Entity
  threatClass : String
  subtype : String
  severity : Severity
  confidence : Option Rat
  confidenceKind : String
  calibrationStatus : String
  modelVersion : Option String
  detectorVersion : String
  featureSchemaVersion : String
  detectionMethod : String
  evidence : AlertEvidence
  topFeatures : List TopFeature
  explanation : String
  windowStart : Int
  windowEnd : Int
  firstSeen : Int
  lastSeen : Int
  dedupKey : String
  deriving DecidableEq

/-- The key of the incident of a finding: `threat_class|entity_type|entity_key`. -/
def Finding.incidentKey (f : Finding) : String :=
  joinName [f.threatClass, f.entityType, f.entityKey]

def alertRecord (nowMs : Int) (f : Finding) (incidentId : String) (updateSeq : Nat)
    (status : Status) : AlertRecord where
  alertSchemaVersion := "1.0.0"
  alertId := alertId f.detector f.entityType f.entityKey f.windowEndMs f.subtype
  incidentId := incidentId
  updateId := updateId incidentId updateSeq
  updateSeq := updateSeq
  status := status
  timestamp := nowMs * 1000
  eventTime := f.eventTimeUs
  observationTime := f.obsMs
  replayTimeOffsetUs := f.offsetUs
  evidenceReceivedAt := f.receivedUs
  sensorId := f.sensorId
  replayRunId := f.run
  flowId := f.flowId
  srcIp := f.srcIp
  srcPort := f.srcPort
  dstIp := f.dstIp
  dstPort := f.dstPort
  protocol := f.protocol
  entity := ⟨f.entityType, f.entityKey⟩
  threatClass := f.threatClass
  subtype := f.subtype
  severity := f.severity
  confidence := f.score
  confidenceKind := f.confidenceKind
  calibrationStatus := f.calibrationStatus
  modelVersion := f.modelVersion
  detectorVersion := f.detectorVersion
  featureSchemaVersion := f.featureSchemaVersion
  detectionMethod := f.method
  evidence :=
    { observed := f.observed
      thresholds := f.thresholds
      baseline := f.baseline
      observationCoverage := f.coverage
      unavailableFeatures := f.unavailable
      cappedFeatures := f.capped
      modelEligible := f.modelEligible
      modelReason := f.modelReason
      rawEventIds := f.rawEventIds
      rawEventIdsTruncated := f.evidenceCount > f.rawEventIds.length
      evidenceCount := f.evidenceCount }
  topFeatures := f.topFeatures
  explanation := f.explanation
  windowStart := f.windowStartMs
  windowEnd := f.windowEndMs
  firstSeen := f.firstSeenMs
  lastSeen := f.lastSeenMs
  dedupKey := cut 400 f.incidentKey

/-! ## Feature records -/

structure FeatureRecord where
  featureRecordSchemaVersion : String
  featureRecordId : String
  featureSchemaVersion : String
  detector : String
  entity : Entity
  sensorId : String
  windowStart : Int
  windowEnd : Int
  computedAt : Int
  values : List (String × Scalar)
  availability : List (String × String)
  capped : List String
  deriving DecidableEq

def featureRecord (nowUs : Int) (detector featureSchemaVersion entityType entityKey sensorId : String)
    (windowStartMs windowEndMs : Int) (values : List (String × Scalar))
    (unavailable : List (String × String)) (capped : List String) : FeatureRecord where
  featureRecordSchemaVersion := "1.0.0"
  featureRecordId := featureRecordId detector entityType entityKey windowEndMs
  featureSchemaVersion := featureSchemaVersion
  detector := detector
  entity := ⟨entityType, cut 320 entityKey⟩
  sensorId := sensorId
  windowStart := min windowStartMs windowEndMs
  windowEnd := windowEndMs
  computedAt := nowUs
  values := values.map fun p => (p.1, num p.2)
  availability := (values.filter fun p => num p.2 = .null).map fun p =>
    (p.1, (unavailable.lookup p.1).getD "UNKNOWN")
  capped := capped.filter fun c => ((values.lookup c).map num).getD .null ≠ .null

/-- `rate_limited`: whether a record may be emitted now, and the time it leaves in the state. -/
def rateLimited (last : Option Int) (nowObsMs minIntervalMs : Int) : Bool × Option Int :=
  match last with
  | some t => if nowObsMs - t < minIntervalMs then (false, last) else (true, some nowObsMs)
  | none => (true, some nowObsMs)

/-- What a detector emits: findings on the main output, feature records on a side output. -/
inductive Emitted where
  | out (f : Finding)
  | feature (r : FeatureRecord)

def Emitted.finding : Emitted → Option Finding
  | .out f => some f
  | .feature _ => none

/-! ## Configuration -/

/-- The fields of `DetectConfig` read here, with their defaults. -/
structure DetectConfig where
  featureMinIntervalMs : Int := 5000
  beaconMinEvents : Nat := 8
  beaconMaxEvents : Nat := 64
  beaconMinIntervalMs : Int := 5000
  beaconMaxCv : Rat := 15 / 100
  tlsHorizonMs : Int := 1800000
  tlsMinScore : Rat := 6 / 10
  tlsMinPositive : Nat := 2
  tlsMinAvailable : Nat := 3
  tlsMinSessions : Nat := 3
  incidentCooldownMs : Int := 60000
  incidentIdleMs : Int := 300000
  incidentIdleBeaconMs : Int := 1800000

end OTS.Detect
