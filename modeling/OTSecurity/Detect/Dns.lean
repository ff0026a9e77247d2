import OTSecurity.Detect.Beacon
import OTSecurity.Detect.Sketch
import OTSecurity.Lib.Harness

/-!
# DNS windows

Model of `DnsDomainLogic` and `DgaBurstLogic` of `flink/sih_detect/dns.py`: the queries for one domain,
and the NXDOMAIN answers to one source, in tumbling windows.

* `DnsObs` — what `DnsScorer.observe` says of a query.
* `DomainState`, `dnsDomainLogic` — key `src|registrable domain`.
* `BurstState`, `dgaBurstLogic` — key source host.
-/

namespace OTS.Detect

/-- The fields of `DetectConfig` read here, with their defaults. -/
structure DnsConfig where
  dnsWindowMs : Int := 60000
  dnsLabelCap : Nat := 1024
  tunnelMinUniqueLabels : Nat := 30
  tunnelMinMeanLabelLen : Rat := 20
  tunnelMinMeanEntropy : Rat := 33 / 10
  dgaBurstMinNxDomains : Nat := 10
  dgaBurstMinDgaLike : Nat := 5
  dgaBurstDomainCap : Nat := 512
  featureMinIntervalMs : Int := 5000
  /-- What `on_event` divides by; a window has a length. -/
  divisors_pos : 0 < dnsWindowMs ∧ 0 < tunnelMinUniqueLabels := by decide

/-- `model_info`; empty when no model is selected. -/
structure ModelInfo where
  threshold : Option Rat
  calibrationStatus : Option String
  confidenceKind : Option String

/-- The dictionary made by `observe`, without the feature vector. -/
structure DnsObs where
  src : String
  query : Option String
  registrable : Option String
  sub : Option String
  p : Option Rat
  lex : Option Bool
  reason : Option String
  nx : Bool
  qtype : Option String
  eventId : String
  obsMs : Int
  eventTimeUs : Int
  offsetUs : Int
  receivedUs : Int
  sensorId : String
  run : Option String
  coverage : String
  modelVersion : Option String
  contrib : List TopFeature

def DnsObs.evidence (o : DnsObs) : Evidence :=
  ⟨o.obsMs, o.eventTimeUs, o.offsetUs, o.receivedUs, o.sensorId, o.run⟩

def TUNNEL_QTYPES : List String := ["TXT", "NULL", "CNAME", "MX", "AAAA"]

/-- `entropy` of `dga_features`: in bits per character. -/
def entropy (M : Maths) (s : String) : Rat :=
  let share (c : Char) : Rat := s.toList.count c / s.length
  0 - (s.toList.dedup.map fun c => share c * M.log2 (share c)).sum

/-- `f"{s}"` of a text or `None`. -/
def shown (s : Option String) : String := s.getD "None"

/-! ## Domains -/

/-- The dictionary of the state `m` of a domain. -/
structure DomainInfo where
  win : Int
  n : Nat
  uniq : Nat
  capped : Bool
  lenSum : Nat
  entSum : Rat
  nameBytes : Nat
  tunnelQtypes : Nat
  nx : Nat
  first : Evidence
  last : Evidence
  ids : List String
  rankT : Int
  rankD : Int
  lastFeatureMs : Option Int

def DomainInfo.fresh (win : Int) (o : DnsObs) : DomainInfo :=
  ⟨win, 0, 0, false, 0, 0, 0, 0, 0, o.evidence, o.evidence, [], -1, -1, none⟩

structure DomainState where
  m : Option DomainInfo
  labels : ODict String Int

/-- The state of the window `win`: what there is, or a new one. -/
def DomainState.current (s : DomainState) (win : Int) (o : DnsObs) :
    DomainInfo × ODict String Int :=
  match s.m with
  | none => (.fresh win o, .empty)
  | some m => if m.win = win then (m, s.labels) else (.fresh win o, .empty)

/-- The subdomain of a query is counted once, unless there are too many. -/
def DomainInfo.label (M : Maths) (cfg : DnsConfig) (m : DomainInfo) (labels : ODict String Int)
    (sub : Option String) : DomainInfo × ODict String Int :=
  match sub with
  | none => (m, labels)
  | some sub =>
    if sub = "" ∨ (labels.get? sub).isSome then (m, labels)
    else if cfg.dnsLabelCap ≤ m.uniq then ({ m with capped := true }, labels)
    else
      ({ m with
          uniq := m.uniq + 1
          lenSum := m.lenSum + sub.length
          entSum := m.entSum + entropy M (String.ofList (sub.toList.filter (· ≠ '.'))) },
        labels.set sub 1)

def DomainInfo.count (m : DomainInfo) (o : DnsObs) : DomainInfo :=
  { m with
    n := m.n + 1
    nameBytes := m.nameBytes + (o.query.getD "").length
    nx := if o.nx then m.nx + 1 else m.nx
    tunnelQtypes := if o.qtype.any (· ∈ TUNNEL_QTYPES) then m.tunnelQtypes + 1 else m.tunnelQtypes }

def DomainInfo.record (m : DomainInfo) (o : DnsObs) : DomainInfo :=
  { m with
    ids := appendIds m.ids o.eventId
    last := o.evidence }

namespace DomainInfo

variable (m : DomainInfo) (cfg : DnsConfig) (key : String) (o : DnsObs)

def meanLen : Option Rat := if m.uniq = 0 then none else some (m.lenSum / m.uniq)

def meanEnt : Option Rat := if m.uniq = 0 then none else some (m.entSum / m.uniq)

def winStart : Int := m.win * cfg.dnsWindowMs

def capNames : List String := if m.capped then ["unique_subdomains"] else []

def tunnels : Bool :=
  cfg.tunnelMinUniqueLabels ≤ m.uniq ∧ m.meanLen.any (cfg.tunnelMinMeanLabelLen ≤ ·) ∧
    m.meanEnt.any (cfg.tunnelMinMeanEntropy ≤ ·)

def tunnelSeverity : Severity :=
  if 5 * cfg.tunnelMinUniqueLabels ≤ m.uniq ∨ 20000 ≤ m.nameBytes then .high else .medium

def tunnelFinding : Finding :=
  finding
    { detector := "dns"
      threatClass := "dns_tunnel"
      subtype := "dns_tunnel_like"
      entityType := "src_domain"
      entityKey := key
      severity := m.tunnelSeverity cfg
      score := some (min 1 (4 / 10 +
        3 / 10 * min 1 ((m.uniq : Rat) / (4 * cfg.tunnelMinUniqueLabels)) +
        3 / 10 * min 1 (m.meanEnt.getD 0 / (45 / 10))))
      method := "rule"
      detectorVersion := "dns_tunnel-1.0.0"
      featureSchemaVersion := "dns_features-1.0.0"
      first := m.first
      last := m.last
      windowStartMs := m.winStart cfg
      windowEndMs := o.obsMs
      observed := [("queries", .int m.n), ("unique_subdomains", .int m.uniq),
        ("mean_subdomain_len", Scalar.ofOption m.meanLen),
        ("mean_subdomain_entropy", Scalar.ofOption m.meanEnt), ("query_name_bytes", .int m.nameBytes),
        ("tunnel_qtype_queries", .int m.tunnelQtypes),
        ("registrable_domain", Scalar.ofText o.registrable)]
      thresholds := [("min_unique_subdomains", .int cfg.tunnelMinUniqueLabels),
        ("min_mean_len", .float cfg.tunnelMinMeanLabelLen),
        ("min_mean_entropy", .float cfg.tunnelMinMeanEntropy),
        ("window_s", .float ((cfg.dnsWindowMs : Rat) / 1000))]
      capped := m.capNames
      coverage := o.coverage
      srcIp := some o.src
      protocol := some "udp"
      rawEventIds := m.ids
      evidenceCount := m.n
      topFeatures := [⟨"unique_subdomains", .int m.uniq, .null, "count"⟩,
        ⟨"mean_subdomain_len", Scalar.ofOption m.meanLen, .null, "chars"⟩,
        ⟨"mean_subdomain_entropy", Scalar.ofOption m.meanEnt, .null, "bits/char"⟩]
      explanation := o.src ++ " sent " ++ toString m.n ++ " queries under " ++ shown o.registrable ++
        " with " ++ toString m.uniq ++ " distinct subdomain strings (mean length " ++
        fixedText 1 (m.meanLen.getD 0) ++ ", mean entropy " ++ fixedText 2 (m.meanEnt.getD 0) ++
        " bits/char) within the current " ++ toString (cfg.dnsWindowMs / 1000) ++
        "s window. High-entropy unique labels are consistent with data encoded in DNS names." }

/-- A tunnel is reported when its severity rises. -/
def reportTunnel : DomainInfo × List Emitted :=
  let rank : Int := (m.tunnelSeverity cfg).rank
  if m.tunnels cfg ∧ m.rankT < rank then
    ({ m with rankT := rank }, [.out (m.tunnelFinding cfg key o)])
  else (m, [])

def dgaFinding (info : ModelInfo) (p : Rat) (severity : Severity) : Finding :=
  finding
    { detector := "dns"
      threatClass := "dga"
      subtype := "dga_domain"
      entityType := "src_domain"
      entityKey := key
      severity := severity
      score := some p
      method := "model"
      modelVersion := o.modelVersion
      calibrationStatus := some (info.calibrationStatus.getD "uncalibrated")
      confidenceKind := some (info.confidenceKind.getD "heuristic_score")
      modelEligible := true
      detectorVersion := "dga-1.0.0"
      featureSchemaVersion := "dga_lexical-1.0.0"
      first := m.first
      last := m.last
      windowStartMs := m.winStart cfg
      windowEndMs := o.obsMs
      observed := [("query", .str (cut 255 (o.query.getD ""))),
        ("registrable_domain", Scalar.ofText o.registrable), ("nxdomain", .bool o.nx),
        ("model_score", .float p)]
      thresholds := [("decision_threshold", Scalar.ofOption info.threshold)]
      coverage := o.coverage
      srcIp := some o.src
      protocol := some "udp"
      rawEventIds := [o.eventId]
      evidenceCount := 1
      topFeatures := o.contrib
      explanation := "Model " ++ shown o.modelVersion ++ " scored the name " ++ shown o.registrable ++
        " at " ++ fixedText 3 p ++ " (threshold " ++ shown (info.threshold.map floatText) ++
        "); the score is " ++ info.calibrationStatus.getD "uncalibrated" ++
        ", not a verified probability." ++
        if o.nx then " The resolver answered NXDOMAIN." else "" }

/-- A name that the model scores high is reported when the severity rises. -/
def reportDga (info : ModelInfo) : DomainInfo × List Emitted :=
  match o.p with
  | none => (m, [])
  | some p =>
    let severity : Severity := if o.nx then .medium else .low
    let rank : Int := severity.rank
    if info.threshold.getD (11 / 10) ≤ p ∧ m.rankD < rank then
      ({ m with rankD := rank }, [.out (m.dgaFinding cfg key o info p severity)])
    else (m, [])

def domainFeature (nowUs : Int) : FeatureRecord :=
  featureRecord nowUs "dns" "dns_features-1.0.0" "src_domain" key o.sensorId (m.winStart cfg) o.obsMs
    [("queries", .int m.n), ("unique_subdomains", .int m.uniq),
      ("mean_subdomain_len", Scalar.ofOption m.meanLen),
      ("mean_subdomain_entropy", Scalar.ofOption m.meanEnt), ("query_name_bytes", .int m.nameBytes),
      ("nxdomain_queries", .int m.nx), ("dga_score", Scalar.ofOption o.p)]
    [("mean_subdomain_len", "NOT_APPLICABLE"), ("mean_subdomain_entropy", "NOT_APPLICABLE"),
      ("dga_score", if [none, some "model_error", some "model_unavailable"].contains o.reason then "UNKNOWN"
        else "NOT_APPLICABLE")] m.capNames

end DomainInfo

def domainOnEvent (M : Maths) (cfg : DnsConfig) (info : ModelInfo) (nowUs : Int) (key : String)
    (s : DomainState) (o : DnsObs) : Outcome DomainState Emitted :=
  let win := o.obsMs / cfg.dnsWindowMs
  let (m, labels) := s.current win o
  let (m, labels) := (m.count o).label M cfg labels o.sub
  let (m, tunnels) := (m.record o).reportTunnel cfg key o
  let (m, names) := m.reportDga cfg key o info
  let limit := if cfg.tunnelMinUniqueLabels / 2 ≤ m.uniq ∨ 1 / 2 ≤ o.p.getD 0 then
      rateLimited m.lastFeatureMs o.obsMs cfg.featureMinIntervalMs
    else (false, m.lastFeatureMs)
  let features := if limit.1 then [Emitted.feature (m.domainFeature cfg key o nowUs)] else []
  ⟨⟨some { m with lastFeatureMs := limit.2 }, labels⟩,
    [bucketUp (((win + 1) * cfg.dnsWindowMs : Int) : Rat) cfg.dnsWindowMs],
    tunnels ++ names ++ features⟩

def domainOnTimer (cfg : DnsConfig) (s : DomainState) (ts : Int) : Outcome DomainState Emitted :=
  match s.m with
  | none => ⟨s, [], []⟩
  | some m => if (m.win + 1) * cfg.dnsWindowMs < ts then ⟨⟨none, .empty⟩, [], []⟩ else ⟨s, [], []⟩

def DomainState.entries (s : DomainState) : Nat := (if s.m.isSome then 1 else 0) + s.labels.length

def dnsDomainLogic (M : Maths) (cfg : DnsConfig) (info : ModelInfo) :
    KeyedLogic String DnsObs DomainState Emitted where
  empty := ⟨none, .empty⟩
  entries := DomainState.entries
  entries_empty := rfl
  onEvent := domainOnEvent M cfg info
  onTimer := fun _ _ => domainOnTimer cfg

/-! ## Bursts -/

/-- The dictionary of the state `m` of a source. -/
structure BurstInfo where
  win : Int
  nx : Nat
  dgaLike : Nat
  capped : Bool
  first : Evidence
  last : Evidence
  ids : List String
  rank : Int
  modelVersion : Option String
  scored : Nat
  ruleOnly : Nat

def BurstInfo.fresh (win : Int) (o : DnsObs) : BurstInfo :=
  ⟨win, 0, 0, false, o.evidence, o.evidence, [], -1, none, 0, 0⟩

structure BurstState where
  m : Option BurstInfo
  domains : ODict String Int

def BurstState.current (s : BurstState) (win : Int) (o : DnsObs) : BurstInfo × ODict String Int :=
  match s.m with
  | none => (.fresh win o, .empty)
  | some m => if m.win = win then (m, s.domains) else (.fresh win o, .empty)

/-- Whether a name looks generated: by its score, or by its letters when there is none. -/
def DnsObs.looksGenerated (o : DnsObs) : Bool :=
  match o.p with
  | some p => 1 / 2 ≤ p
  | none => o.lex.getD false

/-- A domain is counted once, unless there are too many. -/
def BurstInfo.domain (cfg : DnsConfig) (m : BurstInfo) (domains : ODict String Int) (o : DnsObs)
    (dom : String) : BurstInfo × ODict String Int :=
  if (domains.get? dom).isSome then (m, domains)
  else if cfg.dgaBurstDomainCap ≤ m.nx then ({ m with capped := true }, domains)
  else
    ({ m with
        scored := if o.p.isSome then m.scored + 1 else m.scored
        modelVersion := if o.p.isSome then o.modelVersion else m.modelVersion
        ruleOnly := if o.p.isSome then m.ruleOnly else m.ruleOnly + 1
        nx := m.nx + 1
        dgaLike := if o.looksGenerated then m.dgaLike + 1 else m.dgaLike
        ids := appendIds m.ids o.eventId },
      domains.set dom (if o.looksGenerated then 1 else 0))

namespace BurstInfo

variable (m : BurstInfo) (cfg : DnsConfig) (src : String) (o : DnsObs)

def burstFinding : Finding :=
  let hybrid := m.modelVersion.isSome
  finding
    { detector := "dns"
      threatClass := "dga"
      subtype := "dga_nxdomain_burst"
      entityType := "src_host"
      entityKey := src
      severity := .high
      score := some ((m.dgaLike : Rat) / max 1 m.nx)
      method := if hybrid then "hybrid" else "rule"
      modelVersion := m.modelVersion
      modelEligible := hybrid
      modelReason := if hybrid then none else some "model_unavailable"
      detectorVersion := "dga_burst-1.0.0"
      featureSchemaVersion := "dns_features-1.0.0"
      first := m.first
      last := m.last
      windowStartMs := m.win * cfg.dnsWindowMs
      windowEndMs := o.obsMs
      observed := [("nxdomain_domains", .int m.nx), ("dga_like_domains", .int m.dgaLike),
        ("model_scored", .int m.scored), ("rule_scored", .int m.ruleOnly)]
      thresholds := [("min_nxdomain_domains", .int cfg.dgaBurstMinNxDomains),
        ("min_dga_like", .int cfg.dgaBurstMinDgaLike),
        ("window_s", .float ((cfg.dnsWindowMs : Rat) / 1000))]
      capped := if m.capped then ["nxdomain_domains"] else []
      coverage := o.coverage
      srcIp := some src
      protocol := some "udp"
      rawEventIds := m.ids
      evidenceCount := m.nx
      topFeatures := [⟨"nxdomain_domains", .int m.nx, .null, "count"⟩,
        ⟨"dga_like_domains", .int m.dgaLike, .null, "count"⟩]
      explanation := src ++ " received NXDOMAIN for " ++ toString m.nx ++
        " distinct registrable domains in " ++ toString (cfg.dnsWindowMs / 1000) ++ "s; " ++
        toString m.dgaLike ++ " look algorithmically generated (" ++
        (if hybrid then "model" else "lexical rule, model unavailable") ++ ")." }

/-- A burst is reported once in a window. -/
def reportBurst : BurstInfo × List Emitted :=
  let rank : Int := Severity.high.rank
  if cfg.dgaBurstMinNxDomains ≤ m.nx ∧ cfg.dgaBurstMinDgaLike ≤ m.dgaLike ∧ m.rank < rank then
    ({ m with rank := rank }, [.out (m.burstFinding cfg src o)])
  else (m, [])

end BurstInfo

def burstOnEvent (cfg : DnsConfig) (src : String) (s : BurstState) (o : DnsObs) :
    Outcome BurstState Emitted :=
  let dom := o.registrable.getD ""
  if !o.nx || dom = "" then ⟨s, [], []⟩
  else
    let win := o.obsMs / cfg.dnsWindowMs
    let (m, domains) := s.current win o
    let (m, domains) := m.domain cfg domains o dom
    let (m, bursts) := { m with last := o.evidence }.reportBurst cfg src o
    ⟨⟨some m, domains⟩, [bucketUp (((win + 1) * cfg.dnsWindowMs : Int) : Rat) cfg.dnsWindowMs], bursts⟩

def burstOnTimer (cfg : DnsConfig) (s : BurstState) (ts : Int) : Outcome BurstState Emitted :=
  match s.m with
  | none => ⟨s, [], []⟩
  | some m => if (m.win + 1) * cfg.dnsWindowMs < ts then ⟨⟨none, .empty⟩, [], []⟩ else ⟨s, [], []⟩

def BurstState.entries (s : BurstState) : Nat := (if s.m.isSome then 1 else 0) + s.domains.length

def dgaBurstLogic (cfg : DnsConfig) : KeyedLogic String DnsObs BurstState Emitted where
  empty := ⟨none, .empty⟩
  entries := BurstState.entries
  entries_empty := rfl
  onEvent := fun _ => burstOnEvent cfg
  onTimer := fun _ _ => burstOnTimer cfg

end OTS.Detect
