import OTSecurity.Detect.Beacon
import OTSecurity.Detect.Sketch
import OTSecurity.Lib.Harness

/-!
# Exfiltration

Model of `ExfilLogic` of `flink/sih_detect/exfil.py`, for one local source host: the outbound bytes of a
sliding window against a baseline of earlier windows.

* `exfilEligible` — the deltas that the detector is given.
* `ExfilState` — the value state with the map state `dsts`; `exfilLogic` — the logic.
-/

namespace OTS.Detect

/-- The fields of `DetectConfig` read by `ExfilLogic`, with their defaults. -/
structure ExfilConfig where
  exfilWindowMs : Int := 30000
  exfilMinBytes : Nat := 10000000
  exfilMinSpanMs : Int := 15000
  exfilMinRecords : Nat := 3
  exfilBaselineK : Rat := 10
  exfilDstCap : Nat := 256
  featureMinIntervalMs : Int := 5000
  /-- What `on_event` divides by. -/
  divisors_pos : 0 < exfilWindowMs ∧ 0 < exfilMinBytes := by decide

def MAX_RECORDS : Nat := 2048

/-- `eligible`. -/
def exfilEligible (inv : Inventory) (d : Delta) : Bool :=
  inv.isLocal d.src && !inv.isLocal d.dst && !decide ((d.src, d.dst) ∈ inv.bulk) &&
    decide (0 < (d.d .origBytes).getD 0)

/-- What the filter before the detector lets through. -/
def EligibleDelta (inv : Inventory) : Type := { d : Delta // exfilEligible inv d = true }

/-- An entry of `recs`. -/
structure ExfilRecord where
  obsMs : Int
  outBytes : Int
  inBytes : Option Int
  dst : String

/-- The dictionary of the state `x`. -/
structure ExfilInfo where
  recs : List ExfilRecord
  base : Ewma
  win : Option Int
  winBytes : Int
  winAnomalous : Bool
  first : Evidence
  last : Evidence
  ids : List String
  rank : Int
  emittedBytes : Int
  ndst : Nat
  lastFeatureMs : Option Int

def ExfilInfo.fresh (d : Delta) : ExfilInfo :=
  ⟨[], .new, none, 0, false, d.evidence, d.evidence, [], -1, 0, 0, none⟩

structure ExfilState where
  x : Option ExfilInfo
  dsts : ODict String Int

/-- A window that is over goes into the baseline, unless something was found in it. -/
def ExfilInfo.enter (x : ExfilInfo) (win : Int) : ExfilInfo :=
  if x.win.any (· ≠ win) then
    { x with
      base := if x.winAnomalous then x.base else x.base.update x.winBytes (1 / 10)
      winBytes := 0
      winAnomalous := false
      win := some win }
  else { x with win := some win }

/-- The delta is recorded; records that are too old or too many are dropped. -/
def ExfilInfo.record (cfg : ExfilConfig) (x : ExfilInfo) (d : Delta) : ExfilInfo :=
  let outBytes := (d.d .origBytes).getD 0
  let inBytes := if d.coverage = "both_directions" then d.d .respBytes else none
  let recs := x.recs ++ [⟨d.obsMs, outBytes, inBytes, d.dst⟩]
  { x with
    recs := lastN MAX_RECORDS (recs.filter fun r => d.obsMs - cfg.exfilWindowMs ≤ r.obsMs)
    winBytes := x.winBytes + outBytes
    ids := appendIds x.ids d.eventId
    last := d.evidence }

/-! ## What is found -/

/-- What an event is judged by. -/
structure ExfilView where
  records : Nat
  start : Int
  outSum : Int
  inSum : Option Int
  span : Int
  warm : Bool
  thr : Threshold
  ratio : Option Rat
  newDst : Bool

def ExfilInfo.view (cfg : ExfilConfig) (x : ExfilInfo) (newDst : Bool) : ExfilView :=
  let ins := x.recs.map (·.inBytes)
  let outSum := (x.recs.map (·.outBytes)).sum
  let inSum := if none ∈ ins then none else some (ins.map (·.getD 0)).sum
  let start := (x.recs.head?.map (·.obsMs)).getD 0
  let warm : Bool := 6 ≤ x.base.n
  { records := x.recs.length
    start := start
    outSum := outSum
    inSum := inSum
    span := (x.recs.getLast?.map (·.obsMs)).getD 0 - start
    warm := warm
    thr := .learned warm cfg.exfilMinBytes (cfg.exfilBaselineK * x.base.mean)
    ratio := inSum.bind fun n => if n = 0 then none else some ((outSum : Rat) / n)
    newDst := newDst }

namespace ExfilView

variable (v : ExfilView) (cfg : ExfilConfig)

def triggers : Bool :=
  v.thr.value ≤ v.outSum ∧ cfg.exfilMinSpanMs ≤ v.span ∧ cfg.exfilMinRecords ≤ v.records

def severity : Severity :=
  if 5 * v.thr.value ≤ v.outSum ∨ v.newDst ∧ 2 * v.thr.value ≤ v.outSum then .high else .medium

def rate : Rat := v.outSum / max 1 ((v.span : Rat) / 1000)

def inSumShown : Scalar := v.inSum.elim .null .int

def explanation (src : String) (d : Delta) : String :=
  "Local host " ++ src ++ " sent " ++ fixedText 1 (v.outSum / 1000000) ++
    " MB to external destinations over " ++ fixedText 0 ((v.span : Rat) / 1000) ++ "s (threshold " ++
    fixedText 1 (v.thr.value / 1000000) ++ " MB per " ++ toString (cfg.exfilWindowMs / 1000) ++
    "s window" ++ (if v.warm then ", learned baseline" else ", baseline still warming up") ++ "). " ++
    if v.newDst then "First transfer to " ++ d.dst ++ " seen from this host." else ""

def finding (M : Maths) (x : ExfilInfo) (src : String) (d : Delta) : Finding :=
  Detect.finding
    { detector := "exfil"
      threatClass := "exfiltration"
      subtype := "sustained_upload"
      entityType := "src_host"
      entityKey := src
      severity := v.severity
      score := some (min 1 (1 / 2 + 1 / 10 * v.outSum / v.thr.value))
      method := if v.warm then "statistical" else "rule"
      detectorVersion := "exfil-1.0.0"
      featureSchemaVersion := "exfil_features-1.0.0"
      first := x.first
      last := x.last
      windowStartMs := v.start
      windowEndMs := d.obsMs
      observed := [("outbound_bytes_window", .int v.outSum), ("outbound_rate_bps", .float (v.rate * 8)),
        ("span_s", .float ((v.span : Rat) / 1000)), ("records", .int v.records),
        ("inbound_bytes_window", v.inSumShown), ("out_in_ratio", Scalar.ofOption v.ratio),
        ("new_destination", .bool v.newDst), ("destination", .str d.dst)]
      thresholds := [("min_bytes_window", v.thr.shown),
        ("min_span_s", .float ((cfg.exfilMinSpanMs : Rat) / 1000)),
        ("window_s", .float ((cfg.exfilWindowMs : Rat) / 1000))]
      baseline := [("window_bytes_mean", if v.warm then .float x.base.mean else .null),
        ("window_bytes_std", if v.warm then .float (x.base.std M) else .null)]
      unavailable := (if v.inSum.isNone then ["inbound_bytes_window"] else []) ++
        if v.ratio.isNone then ["out_in_ratio"] else []
      coverage := d.coverage
      srcIp := some src
      dstIp := some d.dst
      dstPort := d.dport
      protocol := some d.proto
      flowId := some d.flowId
      rawEventIds := x.ids
      evidenceCount := v.records
      topFeatures := [⟨"outbound_bytes_window", .int v.outSum, .null, "B"⟩,
        ⟨"span_s", .float ((v.span : Rat) / 1000), .null, "s"⟩,
        ⟨"out_in_ratio", Scalar.ofOption v.ratio, .null, "ratio"⟩]
      explanation := v.explanation cfg src d }

def feature (x : ExfilInfo) (nowUs : Int) (src : String) (d : Delta) : FeatureRecord :=
  featureRecord nowUs "exfil" "exfil_features-1.0.0" "src_host" src d.sensorId v.start d.obsMs
    [("outbound_bytes_window", .int v.outSum), ("inbound_bytes_window", v.inSumShown),
      ("out_in_ratio", Scalar.ofOption v.ratio), ("span_s", .float ((v.span : Rat) / 1000)),
      ("records", .int v.records),
      ("baseline_window_bytes_mean", if v.warm then .float x.base.mean else .null)]
    [("inbound_bytes_window", "UNKNOWN"), ("out_in_ratio", "UNKNOWN"),
      ("baseline_window_bytes_mean", "MISSING")] []

/-- The condition holds: the state it leaves, and the finding unless it brings nothing new. -/
def report (M : Maths) (x : ExfilInfo) (src : String) (d : Delta) : ExfilInfo × List Emitted :=
  let rank : Int := v.severity.rank
  let x := { x with winAnomalous := true }
  if x.rank < rank ∨ 2 * max 1 x.emittedBytes ≤ v.outSum then
    ({ x with rank := max rank x.rank, emittedBytes := v.outSum }, [.out (v.finding cfg M x src d)])
  else (x, [])

end ExfilView

/-! ## The logic -/

/-- A destination is remembered, unless there are too many. -/
def ExfilState.remember (cfg : ExfilConfig) (dsts : ODict String Int) (x : ExfilInfo) (d : Delta) :
    ExfilInfo × ODict String Int :=
  if (dsts.get? d.dst).isNone ∧ x.ndst < cfg.exfilDstCap then
    ({ x with ndst := x.ndst + 1 }, dsts.set d.dst d.obsMs)
  else (x, dsts)

def exfilOnEvent (M : Maths) (cfg : ExfilConfig) (nowUs : Int) (src : String) (s : ExfilState)
    (d : Delta) : Outcome ExfilState Emitted :=
  let x := ((s.x.getD (.fresh d)).enter (d.obsMs / cfg.exfilWindowMs)).record cfg d
  let newDst := (s.dsts.get? d.dst).isNone
  let (x, dsts) := ExfilState.remember cfg s.dsts x d
  let v := x.view cfg newDst
  let (x, findings) := if v.triggers cfg then v.report cfg M x src d else (x, [])
  let limit := if v.thr.value / 4 ≤ v.outSum then
      rateLimited x.lastFeatureMs d.obsMs cfg.featureMinIntervalMs
    else (false, x.lastFeatureMs)
  let features := if limit.1 then [Emitted.feature (v.feature x nowUs src d)] else []
  ⟨⟨some { x with lastFeatureMs := limit.2 }, dsts⟩,
    [bucketUp ((d.obsMs + 600000 : Int) : Rat) 60000], findings ++ features⟩

def exfilOnTimer (s : ExfilState) (ts : Int) : Outcome ExfilState Emitted :=
  match s.x with
  | none => ⟨s, [], []⟩
  | some x => if x.last.obsMs + 600000 ≤ ts then ⟨⟨none, .empty⟩, [], []⟩ else ⟨s, [], []⟩

def ExfilState.entries (s : ExfilState) : Nat := (if s.x.isSome then 1 else 0) + s.dsts.length

def exfilLogic (M : Maths) (cfg : ExfilConfig) (inv : Inventory) :
    KeyedLogic String (EligibleDelta inv) ExfilState Emitted where
  empty := ⟨none, .empty⟩
  entries := ExfilState.entries
  entries_empty := rfl
  onEvent := fun nowUs src s d => exfilOnEvent M cfg nowUs src s d.val
  onTimer := fun _ _ => exfilOnTimer

end OTS.Detect
