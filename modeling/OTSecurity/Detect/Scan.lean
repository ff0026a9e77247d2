import OTSecurity.Detect.Beacon
import OTSecurity.Lib.Harness

/-!
# Scans

Model of `ScanLogic` of `flink/sih_detect/scan.py`, for one source host: the (destination, port) pairs
contacted within a horizon, with the hosts on each port and the ports on each host.

* `ScanMeta` — the value state; `ScanTables` — the three map states.
* `ScanTables.contact`, `ScanTables.expire` — a pair is contacted; old pairs are dropped.
* `scanLogic` — the logic.
-/

namespace OTS.Detect

/-- The fields of `DetectConfig` read by `ScanLogic`, with their defaults. -/
structure ScanConfig where
  scanHorizonMs : Int := 30000
  scanHostThreshold : Nat := 20
  scanPortThreshold : Nat := 25
  scanPairCap : Nat := 4096
  featureMinIntervalMs : Int := 5000
  /-- What `on_event` divides by. -/
  divisors_pos : 0 < scanHostThreshold ∧ 0 < scanPortThreshold := by decide

def FAILED_STATES : List String := ["S0", "REJ", "RSTOS0", "SH"]

def EXPIRY_STEP_MS : Int := 5000

/-- The dictionary of the state `meta`. -/
structure ScanMeta where
  n : Int
  hosts : Int
  ports : Int
  capped : Bool
  failed : Nat
  known : Nat
  first : Evidence
  last : Evidence
  /-- Rank by subtype. -/
  levels : ODict String Nat
  /-- Count by subtype. -/
  emitted : ODict String Int
  ids : List String
  lastFeatureMs : Option Int

def ScanMeta.fresh (d : Delta) : ScanMeta :=
  ⟨0, 0, 0, false, 0, 0, d.evidence, d.evidence, .empty, .empty, [], none⟩

/-- The map states `pairs`, `port_hosts`, `host_ports`. -/
structure ScanTables where
  pairs : ODict String Int
  portHosts : ODict String Int
  hostPorts : ODict String Int

def ScanTables.empty : ScanTables := ⟨.empty, .empty, .empty⟩

structure ScanState where
  info : Option ScanMeta
  tables : ScanTables

/-! ## Contacts -/

def Delta.portKey (d : Delta) : String := portText d.dport ++ "/" ++ d.proto

def Delta.pair (d : Delta) : String := d.dst ++ "|" ++ d.portKey

/-- The pair of `d` is contacted; no new one when there are too many. -/
def ScanTables.contact (cfg : ScanConfig) (t : ScanTables) (m : ScanMeta) (d : Delta) :
    ScanMeta × ScanTables :=
  match t.pairs.get? d.pair with
  | some prev => (m, { t with pairs := t.pairs.set d.pair (max prev d.obsMs) })
  | none =>
    if cfg.scanPairCap ≤ m.n then ({ m with capped := true }, t)
    else
      let hosts := t.portHosts.get? d.portKey
      let ports := t.hostPorts.get? d.dst
      ({ m with
          n := m.n + 1
          ports := if hosts.isNone then m.ports + 1 else m.ports
          hosts := if ports.isNone then m.hosts + 1 else m.hosts },
        ⟨t.pairs.set d.pair d.obsMs, t.portHosts.set d.portKey (hosts.getD 0 + 1),
          t.hostPorts.set d.dst (ports.getD 0 + 1)⟩)

/-- The outcome of the flow, its evidence. -/
def ScanMeta.record (m : ScanMeta) (d : Delta) : ScanMeta :=
  let state := d.connState.getD ""
  let known := d.terminal && d.coverage = "both_directions" && state ≠ ""
  { m with
    known := if known then m.known + 1 else m.known
    failed := if known && state ∈ FAILED_STATES then m.failed + 1 else m.failed
    ids := appendIds m.ids d.eventId
    last := d.evidence }

def ScanMeta.failedRatio (m : ScanMeta) (d : Delta) : Option Rat :=
  if m.known ≠ 0 ∧ d.coverage = "both_directions" then some (m.failed / m.known) else none

/-! ## Findings -/

/-- An entry of `checks`. -/
structure ScanCheck where
  subtype : String
  name : String
  count : Int
  thr : Nat
  dstIp : Option String
  dstPort : Option Int
  what : String

def scanChecks (cfg : ScanConfig) (d : Delta) (hostsOnPort portsOnHost : Int) : List ScanCheck :=
  [{ subtype := "horizontal_scan", name := "horizontal_distinct", count := hostsOnPort
     thr := cfg.scanHostThreshold, dstIp := none, dstPort := d.dport
     what := toString hostsOnPort ++ " distinct hosts on port " ++ d.portKey },
   { subtype := "vertical_scan", name := "vertical_distinct", count := portsOnHost
     thr := cfg.scanPortThreshold, dstIp := some d.dst, dstPort := none
     what := toString portsOnHost ++ " distinct ports on host " ++ d.dst }]

def ScanCheck.severity (c : ScanCheck) (failedRatio : Option Rat) (allowed : Bool) : Severity :=
  if allowed then .info
  else if 5 * c.thr ≤ c.count ∨
      (failedRatio.any fun r => 8 / 10 ≤ r) ∧ 2 * c.thr ≤ c.count then .high
  else .medium

def ScanCheck.explanation (c : ScanCheck) (cfg : ScanConfig) (src : String) (m : ScanMeta)
    (failedRatio : Option Rat) (allowed : Bool) : String :=
  "Source " ++ src ++ " contacted " ++ c.what ++ " within " ++ toString (cfg.scanHorizonMs / 1000) ++
    "s (threshold " ++ toString c.thr ++ "); " ++ toString m.n ++
    " distinct host/port pairs in total." ++
    (match failedRatio with
      | some r => " " ++ fixedText 0 (100 * r) ++
        "% of observed attempts received no reply or a reset."
      | none => "") ++
    if allowed then " Source is listed as an authorized scanner in the asset inventory." else ""

def scanFinding (cfg : ScanConfig) (src : String) (d : Delta) (m : ScanMeta) (c : ScanCheck)
    (failedRatio : Option Rat) (allowed : Bool) : Finding :=
  finding
    { detector := "scan"
      threatClass := "scan"
      subtype := c.subtype
      entityType := "src_host"
      entityKey := src
      severity := c.severity failedRatio allowed
      score := some (min 1 (1 / 2 + 1 / 2 * c.count / (4 * c.thr)))
      method := "rule"
      detectorVersion := "scan-1.0.0"
      featureSchemaVersion := "scan_features-1.0.0"
      first := m.first
      last := m.last
      windowStartMs := max m.first.obsMs (d.obsMs - cfg.scanHorizonMs)
      windowEndMs := d.obsMs
      observed := [("distinct_count", .int c.count), ("distinct_pairs", .int m.n),
        ("distinct_hosts", .int m.hosts), ("distinct_ports", .int m.ports),
        ("failed_ratio", Scalar.ofOption failedRatio), ("authorized_scanner", .bool allowed)]
      thresholds := [("distinct_threshold", .int c.thr),
        ("horizon_s", .float ((cfg.scanHorizonMs : Rat) / 1000))]
      unavailable := if failedRatio.isSome then [] else ["failed_ratio"]
      capped := if m.capped then ["distinct_pairs"] else []
      coverage := d.coverage
      srcIp := some src
      dstIp := c.dstIp
      dstPort := c.dstPort
      protocol := some d.proto
      rawEventIds := m.ids
      evidenceCount := m.n.toNat
      topFeatures := [⟨c.name, .int c.count, .null, "count"⟩,
        ⟨"failed_ratio", Scalar.ofOption failedRatio, .null, "ratio"⟩]
      explanation := c.explanation cfg src m failedRatio allowed }

/-- One round of the loop over `checks`. -/
def ScanCheck.run (cfg : ScanConfig) (inv : Inventory) (src : String) (d : Delta)
    (r : ScanMeta × List Emitted) (c : ScanCheck) : ScanMeta × List Emitted :=
  let (m, out) := r
  let failedRatio := m.failedRatio d
  let allowed : Bool := src ∈ inv.scanners
  let rank := (c.severity failedRatio allowed).rank
  let known := (m.levels.get? c.subtype).any fun level => rank ≤ level
  if c.count < c.thr ∨ known ∧ c.count < 2 * (m.emitted.get? c.subtype).getD 0 then r
  else
    let m := { m with
      levels := m.levels.set c.subtype rank
      emitted := m.emitted.set c.subtype c.count }
    (m, out ++ [.out (scanFinding cfg src d m c failedRatio allowed)])

def scanFeature (cfg : ScanConfig) (nowUs : Int) (src : String) (d : Delta) (m : ScanMeta)
    (hostsOnPort portsOnHost : Int) : FeatureRecord :=
  featureRecord nowUs "scan" "scan_features-1.0.0" "src_host" src d.sensorId
    (d.obsMs - cfg.scanHorizonMs) d.obsMs
    [("distinct_pairs", .int m.n), ("distinct_hosts", .int m.hosts), ("distinct_ports", .int m.ports),
      ("hosts_on_port", .int hostsOnPort), ("ports_on_host", .int portsOnHost),
      ("failed_ratio", Scalar.ofOption (m.failedRatio d))]
    [("failed_ratio", "UNKNOWN")] (if m.capped then ["distinct_pairs"] else [])

/-! ## The logic -/

def scanOnEvent (cfg : ScanConfig) (inv : Inventory) (nowUs : Int) (src : String) (s : ScanState)
    (d : Delta) : Outcome ScanState Emitted :=
  if !d.newFlow then ⟨s, [], []⟩
  else
    let (m, tables) := s.tables.contact cfg (s.info.getD (.fresh d)) d
    let hostsOnPort := (tables.portHosts.get? d.portKey).getD 0
    let portsOnHost := (tables.hostPorts.get? d.dst).getD 0
    let (m, findings) := (scanChecks cfg d hostsOnPort portsOnHost).foldl
      (ScanCheck.run cfg inv src d) (m.record d, [])
    let top : Rat := max (hostsOnPort / cfg.scanHostThreshold) (portsOnHost / cfg.scanPortThreshold)
    let limit := if 1 / 2 ≤ top then rateLimited m.lastFeatureMs d.obsMs cfg.featureMinIntervalMs
      else (false, m.lastFeatureMs)
    let features := if limit.1 then
      [Emitted.feature (scanFeature cfg nowUs src d m hostsOnPort portsOnHost)] else []
    ⟨⟨some { m with lastFeatureMs := limit.2 }, tables⟩, [bucketUp d.obsMs EXPIRY_STEP_MS],
      findings ++ features⟩

/-- `pair.split("|", 1)`. -/
def splitPair (pair : String) : String × String :=
  let dst := pair.toList.takeWhile (· ≠ '|')
  (String.ofList dst, String.ofList (pair.toList.drop (dst.length + 1)))

/-- One contact less under a key: the counts left, and whether the key is gone. -/
def releaseKey (counts : ODict String Int) (k : String) : ODict String Int × Bool :=
  let c := (match counts.get? k with
    | some c => if c = 0 then 1 else c
    | none => 1) - 1
  if c ≤ 0 then (counts.erase k, true) else (counts.set k c, false)

/-- One round of the loop of `on_timer`. -/
def dropPair (r : ScanMeta × ScanTables) (pair : String) : ScanMeta × ScanTables :=
  let (m, t) := r
  let (dst, portKey) := splitPair pair
  let (portHosts, portGone) := releaseKey t.portHosts portKey
  let (hostPorts, hostGone) := releaseKey t.hostPorts dst
  ({ m with
      n := m.n - 1
      ports := if portGone then m.ports - 1 else m.ports
      hosts := if hostGone then m.hosts - 1 else m.hosts },
    ⟨t.pairs.erase pair, portHosts, hostPorts⟩)

/-- The pairs last contacted before the cutoff are dropped. -/
def ScanTables.expire (t : ScanTables) (m : ScanMeta) (cutoff : Int) : ScanMeta × ScanTables :=
  ((t.pairs.entries.filter fun e => e.2 < cutoff).map (·.1)).foldl dropPair (m, t)

def scanOnTimer (cfg : ScanConfig) (s : ScanState) (ts : Int) : Outcome ScanState Emitted :=
  match s.info with
  | none => ⟨s, [], []⟩
  | some m =>
    let (m, tables) := s.tables.expire m (ts - cfg.scanHorizonMs)
    if m.n ≤ 0 then ⟨⟨none, .empty⟩, [], []⟩
    else ⟨⟨some { m with capped := m.capped && cfg.scanPairCap ≤ m.n }, tables⟩,
      [ts + EXPIRY_STEP_MS], []⟩

def ScanState.entries (s : ScanState) : Nat :=
  (if s.info.isSome then 1 else 0) + s.tables.pairs.length + s.tables.portHosts.length +
    s.tables.hostPorts.length

def scanLogic (cfg : ScanConfig) (inv : Inventory) : KeyedLogic String Delta ScanState Emitted where
  empty := ⟨none, .empty⟩
  entries := ScanState.entries
  entries_empty := rfl
  onEvent := scanOnEvent cfg inv
  onTimer := fun _ _ => scanOnTimer cfg

end OTS.Detect
