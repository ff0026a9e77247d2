import OTSecurity.Detect.Beacon
import OTSecurity.Detect.Sketch
import OTSecurity.Lib.ODict

/-!
# Floods

Model of `DdosLogic` of `flink/sih_detect/ddos.py`, for one destination host: one-second buckets of what
arrives, evaluated against the current second and the last five, with a baseline learned from the seconds
in which nothing was found.

* `Bucket`, `Bucket.add` — what a second holds; `DdosState.closeOld` — closed seconds.
* `DdosView` — what an event is judged by; `DdosView.subtype` — what is found.
* `ddosLogic` — the logic.
-/

namespace OTS.Detect

/-- The fields of `DetectConfig` read by `DdosLogic`, with their defaults. -/
structure DdosConfig where
  ddosMinFlowsPerS : Nat := 200
  ddosMinBytesPerS : Nat := 20000000
  ddosSynMinPerS : Nat := 100
  ddosSpoofMinSources5s : Nat := 500
  ddosAmpMinBytesPerS : Nat := 500000
  ddosAmpMinReflectors5s : Nat := 10
  ddosBaselineK : Rat := 6
  ddosWarmupBuckets : Nat := 30
  ddosEpisodeGapMs : Int := 30000
  ddosIdleMs : Int := 120000
  featureMinIntervalMs : Int := 5000
  /-- What `on_event` divides by. -/
  divisors_pos : 0 < ddosMinFlowsPerS ∧ 0 < ddosMinBytesPerS ∧ 0 < ddosAmpMinBytesPerS := by decide

def AMP_PORTS : List Int := [19, 53, 111, 123, 137, 161, 389, 1900, 3702, 5353, 11211]

/-- `PRIORITY`. -/
def PRIORITY : List (String × Int) :=
  [("udp_amplification_like", 3), ("spoofed_source_like_flood", 2), ("syn_flood", 1),
    ("volumetric_flood", 0)]

def KEEP_BUCKETS : Int := 10

/-! ## Buckets -/

structure Bucket where
  flows : Nat
  syn : Nat
  bytes : Int
  pkts : Int
  bytesUnknown : Bool
  pktsUnknown : Bool
  ampFlows : Nat
  ampBytes : Int
  srcs : Cardinality
  ampSrcs : Cardinality
  anomalous : Bool
  /-- Set once the second is closed. -/
  closed : Bool

/-- `_new_bucket`. -/
def Bucket.new : Bucket := ⟨0, 0, 0, 0, false, false, 0, 0, .new, .new, false, false⟩

/-- UDP traffic from a port that is used for amplification. -/
def Delta.amp (d : Delta) : Bool := d.proto = "udp" && d.sport.any (· ∈ AMP_PORTS)

/-- The sum of the two directions of a counter, without those that are unavailable. -/
def Delta.both (d : Delta) (orig resp : Counter) : Int := (d.d orig).getD 0 + (d.d resp).getD 0

def Delta.unknown (d : Delta) (orig resp : Counter) : Bool := (d.d orig).isNone || (d.d resp).isNone

def Bucket.add (M : Maths) (b : Bucket) (d : Delta) : Bucket :=
  let syn := d.proto = "tcp" && d.terminal && d.connState = some "S0"
  let b := if d.newFlow then
      { b with
        flows := b.flows + 1
        srcs := b.srcs.add M d.src
        syn := if syn then b.syn + 1 else b.syn
        ampFlows := if d.amp then b.ampFlows + 1 else b.ampFlows
        ampSrcs := if d.amp then b.ampSrcs.add M d.src else b.ampSrcs }
    else b
  { b with
    bytesUnknown := b.bytesUnknown || d.unknown .origBytes .respBytes
    bytes := b.bytes + d.both .origBytes .respBytes
    pktsUnknown := b.pktsUnknown || d.unknown .origPkts .respPkts
    pkts := b.pkts + d.both .origPkts .respPkts
    ampBytes := if d.amp then b.ampBytes + (d.d .origBytes).getD 0 else b.ampBytes }

structure Episode where
  start : Int
  last : Int
  rank : Int
  prio : Int
  emittedFlows : Nat

/-- The dictionary of the state `s`. -/
structure DdosState where
  b : ODict Int Bucket
  flows : Ewma
  bytes : Ewma
  episode : Option Episode
  ids : List String
  first : Evidence
  last : Evidence
  lastFeatureMs : Option Int

def DdosState.fresh (d : Delta) : DdosState :=
  ⟨.empty, .new, .new, none, [], d.evidence, d.evidence, none⟩

/-- One round of the loop of `_close_old`. -/
def DdosState.closeOne (sec : Int) (s : DdosState) (k : Int) : DdosState :=
  match s.b.get? k with
  | none => s
  | some bk =>
    let s := if bk.closed then s else
      { s with
        b := s.b.set k { bk with closed := true }
        flows := if bk.anomalous then s.flows else s.flows.update bk.flows
        bytes := if bk.anomalous || bk.bytesUnknown then s.bytes else s.bytes.update bk.bytes }
    if k < sec - KEEP_BUCKETS then { s with b := s.b.erase k } else s

/-- `_close_old`. -/
def DdosState.closeOld (s : DdosState) (sec : Int) : DdosState :=
  ((s.b.keys.insertionSort (· ≤ ·)).takeWhile (· < sec)).foldl (DdosState.closeOne sec) s

/-! ## What is found -/

/-- What an event is judged by. -/
structure DdosView where
  b : Bucket
  sec : Int
  flows : Nat
  srcs : Cardinality
  srcCount : Int
  ampSrcCount : Int
  warm : Bool
  thrFlows : Threshold
  thrBytes : Threshold

/-- The seconds of the window of `sec`. -/
def DdosState.window (s : DdosState) (sec : Int) : List Bucket :=
  (s.b.entries.filter fun e => sec - 4 ≤ e.1 ∧ e.1 ≤ sec).map (·.2)

def DdosState.view (M : Maths) (cfg : DdosConfig) (s : DdosState) (b : Bucket) (sec : Int) :
    DdosView :=
  let window := s.window sec
  let srcs := Cardinality.merge M (window.map (·.srcs))
  let warm : Bool := cfg.ddosWarmupBuckets ≤ s.flows.n
  { b := b
    sec := sec
    flows := (window.map (·.flows)).sum
    srcs := srcs
    srcCount := srcs.count M
    ampSrcCount := (Cardinality.merge M (window.map (·.ampSrcs))).count M
    warm := warm
    thrFlows := .learned warm cfg.ddosMinFlowsPerS (s.flows.mean + cfg.ddosBaselineK * s.flows.std M)
    thrBytes := .learned warm cfg.ddosMinBytesPerS (s.bytes.mean + cfg.ddosBaselineK * s.bytes.std M) }

namespace DdosView

variable (v : DdosView) (cfg : DdosConfig)

def flowsPerSource : Rat := v.flows / max 1 v.srcCount

def subtype : Option String :=
  if (cfg.ddosAmpMinBytesPerS : Int) ≤ v.b.ampBytes ∧ cfg.ddosAmpMinReflectors5s ≤ v.ampSrcCount then
    some "udp_amplification_like"
  else if cfg.ddosSpoofMinSources5s ≤ v.srcCount ∧ v.flowsPerSource ≤ 3 / 2 ∧
      v.thrFlows.value / 2 ≤ v.b.flows then
    some "spoofed_source_like_flood"
  else if cfg.ddosSynMinPerS ≤ v.b.syn ∧ (8 / 10 : Rat) * v.b.flows ≤ v.b.syn then some "syn_flood"
  else if v.thrFlows.value ≤ v.b.flows ∨ v.thrBytes.value ≤ v.b.bytes then some "volumetric_flood"
  else none

def factor (subtype : String) : Rat :=
  max (max (v.b.flows / v.thrFlows.value) (v.b.bytes / v.thrBytes.value))
    (if subtype = "udp_amplification_like" then v.b.ampBytes / cfg.ddosAmpMinBytesPerS else 0)

def bytesPerS : Scalar := if v.b.bytesUnknown then .null else .int v.b.bytes

def pktsPerS : Scalar := if v.b.pktsUnknown then .null else .int v.b.pkts

def capped : List String := if v.srcs.isEstimate then ["distinct_sources_5s"] else []

/-- The members that the observation and the feature record share. -/
def values : List (String × Scalar) :=
  [("flows_per_s", .int v.b.flows), ("syn_only_per_s", .int v.b.syn), ("bytes_per_s", v.bytesPerS),
    ("pkts_per_s", v.pktsPerS), ("distinct_sources_5s", .int v.srcCount),
    ("flows_per_source_5s", .float v.flowsPerSource), ("amp_bytes_per_s", .int v.b.ampBytes),
    ("amp_sources_5s", .int v.ampSrcCount)]

def explanation (dst subtype : String) : String :=
  "Destination " ++ dst ++ " received " ++ toString v.b.flows ++ " new flows and " ++
    toString v.b.bytes ++ " bytes in one second (flow threshold " ++ fixedText 0 v.thrFlows.value ++
    "/s) from about " ++ toString v.srcCount ++ " sources in 5 s." ++
    (if subtype = "syn_flood" then
      " " ++ toString v.b.syn ++ " were connection attempts with no observed reply."
    else if subtype = "udp_amplification_like" then
      " " ++ toString v.b.ampBytes ++ " bytes/s arrived from " ++ toString v.ampSrcCount ++
        " sources using amplification-prone UDP ports."
    else if subtype = "spoofed_source_like_flood" then
      " Sources average at most 1.5 flows each; this pattern is consistent with, but does not prove," ++
        " spoofed sources."
    else "") ++
    if v.srcs.isEstimate then " Source count is a sketch estimate." else ""

def finding (M : Maths) (s : DdosState) (dst : String) (d : Delta) (subtype : String)
    (severity : Severity) : Finding :=
  Detect.finding
    { detector := "ddos"
      threatClass := "ddos"
      subtype := subtype
      entityType := "dst_host"
      entityKey := dst
      severity := severity
      score := some (min 1 (1 / 2 + 5 / 100 * v.factor cfg subtype))
      method := if v.warm then "statistical" else "rule"
      detectorVersion := "ddos-1.0.0"
      featureSchemaVersion := "ddos_features-1.0.0"
      first := s.first
      last := s.last
      windowStartMs := (v.sec - 4) * 1000
      windowEndMs := d.obsMs
      observed := v.values
      thresholds := [("flows_per_s", v.thrFlows.shown), ("bytes_per_s", v.thrBytes.shown),
        ("syn_only_per_s", .int cfg.ddosSynMinPerS),
        ("spoof_min_sources_5s", .int cfg.ddosSpoofMinSources5s),
        ("amp_bytes_per_s", .int cfg.ddosAmpMinBytesPerS)]
      baseline := [("flows_mean", if v.warm then .float s.flows.mean else .null),
        ("flows_std", if v.warm then .float (s.flows.std M) else .null),
        ("bytes_mean", if v.warm then .float s.bytes.mean else .null)]
      unavailable := (if v.b.bytesUnknown then ["bytes_per_s"] else []) ++
        if v.b.pktsUnknown then ["pkts_per_s"] else []
      capped := v.capped
      coverage := d.coverage
      dstIp := some dst
      protocol := some d.proto
      rawEventIds := s.ids
      evidenceCount := v.flows
      topFeatures := [⟨"flows_per_s", .int v.b.flows, .null, "1/s"⟩,
        ⟨"distinct_sources_5s", .int v.srcCount, .null, "count"⟩,
        ⟨"syn_only_per_s", .int v.b.syn, .null, "1/s"⟩,
        ⟨"amp_bytes_per_s", .int v.b.ampBytes, .null, "B/s"⟩]
      explanation := v.explanation dst subtype }

def feature (M : Maths) (s : DdosState) (nowUs : Int) (dst : String) (d : Delta) : FeatureRecord :=
  featureRecord nowUs "ddos" "ddos_features-1.0.0" "dst_host" dst d.sensorId ((v.sec - 4) * 1000)
    d.obsMs
    (v.values ++ [("baseline_flows_mean", if v.warm then .float s.flows.mean else .null),
      ("baseline_flows_std", if v.warm then .float (s.flows.std M) else .null)])
    [("bytes_per_s", "UNKNOWN"), ("pkts_per_s", "UNKNOWN"), ("baseline_flows_mean", "MISSING"),
      ("baseline_flows_std", "MISSING")] v.capped

/-- The episode that a finding belongs to. -/
def episode (s : DdosState) (d : Delta) : Episode :=
  match s.episode with
  | some ep =>
    if ep.last + cfg.ddosEpisodeGapMs < d.obsMs then ⟨d.obsMs, d.obsMs, -1, -1, 0⟩
    else { ep with last := d.obsMs }
  | none => ⟨d.obsMs, d.obsMs, -1, -1, 0⟩

/-- Something of `subtype` is found: the episode it leaves, and the finding unless it brings nothing
new. -/
def report (M : Maths) (s : DdosState) (dst : String) (d : Delta) (subtype : String) :
    Episode × List Emitted :=
  let severity : Severity := if 10 ≤ v.factor cfg subtype then .critical else .high
  let ep := episode cfg s d
  let rank : Int := severity.rank
  let prio : Int := (PRIORITY.lookup subtype).getD 0
  if ep.rank < rank ∨ ep.prio < prio ∨ 2 * max 1 ep.emittedFlows ≤ v.flows then
    ({ ep with
        rank := max rank ep.rank
        prio := max prio ep.prio
        emittedFlows := v.flows },
      [.out (v.finding cfg M s dst d subtype severity)])
  else (ep, [])

end DdosView

/-! ## The logic -/

/-- `d` is added to the bucket of its second. -/
def DdosState.add (M : Maths) (s : DdosState) (d : Delta) : DdosState × Bucket :=
  let sec := d.obsMs / 1000
  let s := s.closeOld sec
  let b := ((s.b.get? sec).getD .new).add M d
  ({ s with
      b := s.b.set sec b
      ids := appendIds s.ids d.eventId
      last := d.evidence }, b)

def ddosOnEvent (M : Maths) (cfg : DdosConfig) (dst : String) (nowUs : Int) (st : Option DdosState)
    (d : Delta) : Effect DdosState Emitted :=
  let sec := d.obsMs / 1000
  let (s, b) := (st.getD (.fresh d)).add M d
  let v := s.view M cfg b sec
  let subtype := v.subtype cfg
  let (s, findings) := match subtype with
    | none => (s, [])
    | some subtype =>
      let (ep, out) := v.report cfg M s dst d subtype
      ({ s with b := s.b.set sec { b with anomalous := true }, episode := some ep }, out)
  let limit := if v.thrFlows.value / 4 ≤ b.flows ∨ subtype.isSome then
      rateLimited s.lastFeatureMs d.obsMs cfg.featureMinIntervalMs
    else (false, s.lastFeatureMs)
  let features := if limit.1 then [Emitted.feature (v.feature M s nowUs dst d)] else []
  ⟨some { s with lastFeatureMs := limit.2 }, [bucketUp ((d.obsMs + cfg.ddosIdleMs : Int) : Rat) 10000],
    findings ++ features⟩

def ddosOnTimer (cfg : DdosConfig) (st : Option DdosState) (ts : Int) : Effect DdosState Emitted :=
  match st with
  | none => ⟨none, [], []⟩
  | some s => if s.last.obsMs + cfg.ddosIdleMs ≤ ts then ⟨none, [], []⟩ else ⟨some s, [], []⟩

def ddosLogic (M : Maths) (cfg : DdosConfig) (dst : String) : Logic Delta DdosState Emitted :=
  ⟨fun now => ddosOnEvent M cfg dst now, fun _ => ddosOnTimer cfg⟩

end OTS.Detect
