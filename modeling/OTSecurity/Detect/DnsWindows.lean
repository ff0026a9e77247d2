import OTSecurity.Detect.Expiry
import OTSecurity.Lib.CappedSet
import OTSecurity.Lib.Tumbling

/-!
# DNS counters

The counters of `DnsDomainLogic` and `DgaBurstLogic` against the observations of their windows.

* `DomainInfo.Counts`, `BurstInfo.Counts` — the counters and the stored texts are those of some observations.
* `Raised` — each finding was raised once, none above the rank that the state remembers.
* `domainTumbling`, `burstTumbling` — both logics hold one window at a time.

Principal results: `dns_counters_exact` — the counters of a window are exact from its start on;
`dns_windows_survive_iff` — they are those of the whole sequence when the window is not interrupted.
-/

namespace OTS.Detect

/-! ## What is counted -/

/-- `win`. -/
def DnsObs.window (cfg : DnsConfig) (o : DnsObs) : Int := o.obsMs / cfg.dnsWindowMs

/-- The subdomain that is counted. -/
def DnsObs.subdomain (o : DnsObs) : Option String := o.sub.filter (· ≠ "")

/-- The domain that is counted: one that does not exist. -/
def DnsObs.nxDomain (o : DnsObs) : Option String :=
  if o.nx then o.registrable.filter (· ≠ "") else none

def labelEntropy (M : Maths) (sub : String) : Rat :=
  entropy M (String.ofList (sub.toList.filter (· ≠ '.')))

/-- The counters of a domain are those of the observations, the sums those of the stored labels. -/
structure DomainInfo.Counts (M : Maths) (cfg : DnsConfig) (os : List DnsObs)
    (labels : ODict String Int) (m : DomainInfo) : Prop where
  n : m.n = os.length
  nameBytes : m.nameBytes = (os.map fun o => (o.query.getD "").length).sum
  nx : m.nx = os.countP (·.nx)
  tunnelQtypes : m.tunnelQtypes = os.countP fun o => o.qtype.any (· ∈ TUNNEL_QTYPES)
  stored : CappedSet cfg.dnsLabelCap labels.keys m.capped (os.filterMap (·.subdomain))
  uniq : m.uniq = labels.keys.length
  lenSum : m.lenSum = (labels.keys.map String.length).sum
  entSum : m.entSum = (labels.keys.map (labelEntropy M)).sum

/-- The counters of a burst are those of the stored domains. -/
structure BurstInfo.Counts (cfg : DnsConfig) (os : List DnsObs) (domains : ODict String Int)
    (m : BurstInfo) : Prop where
  stored : CappedSet cfg.dgaBurstDomainCap domains.keys m.capped (os.filterMap (·.nxDomain))
  nx : m.nx = domains.keys.length
  dgaLike : m.dgaLike = domains.entries.countP (·.2 = 1)
  scored : m.scored + m.ruleOnly = m.nx

/-- What an observation may change beside what is counted. -/
def DomainInfo.counters (m : DomainInfo) : Nat × Nat × Nat × Nat × Bool × Nat × Nat × Rat :=
  (m.n, m.nameBytes, m.nx, m.tunnelQtypes, m.capped, m.uniq, m.lenSum, m.entSum)

variable {M : Maths} {cfg : DnsConfig} {os : List DnsObs} {labels : ODict String Int}

theorem DomainInfo.Counts.congr {m m' : DomainInfo} (h : m.Counts M cfg os labels)
    (hm : m'.counters = m.counters) : m'.Counts M cfg os labels := by
  simp only [counters, Prod.mk.injEq] at hm
  obtain ⟨hn, hbytes, hnx, hqtypes, hcapped, huniq, hlen, hent⟩ := hm
  exact ⟨hn.trans h.n, hbytes.trans h.nameBytes, hnx.trans h.nx, hqtypes.trans h.tunnelQtypes,
    hcapped ▸ h.stored, huniq.trans h.uniq, hlen.trans h.lenSum, hent.trans h.entSum⟩

theorem domain_counts_fresh (win : Int) (o : DnsObs) :
    (DomainInfo.fresh win o).Counts M cfg [] .empty where
  n := rfl
  nameBytes := rfl
  nx := rfl
  tunnelQtypes := rfl
  stored := .nil
  uniq := rfl
  lenSum := rfl
  entSum := rfl

theorem burst_counts_fresh (win : Int) (o : DnsObs) :
    (BurstInfo.fresh win o).Counts cfg [] .empty where
  stored := .nil
  nx := rfl
  dgaLike := rfl
  scored := rfl

theorem subdomain_none {o : DnsObs} (h : o.subdomain = none) (m : DomainInfo) :
    m.label M cfg labels o.sub = (m, labels) := by
  unfold DnsObs.subdomain at h
  unfold DomainInfo.label
  cases hsub : o.sub with
  | none => rfl
  | some sub =>
    rw [hsub] at h
    have hempty : sub = "" := by simpa [Option.filter] using h
    simp [hempty]

theorem subdomain_some {o : DnsObs} {sub : String} (h : o.subdomain = some sub) :
    o.sub = some sub ∧ sub ≠ "" := by
  obtain ⟨hsub, hne⟩ := Option.filter_eq_some_iff.1 h
  exact ⟨hsub, of_decide_eq_true hne⟩

/-- An observation is counted, and so is its subdomain unless it is stored or there are too many. -/
theorem label_counts {m : DomainInfo} (h : m.Counts M cfg os labels) (o : DnsObs) :
    ((m.count o).label M cfg labels o.sub).1.Counts M cfg (os ++ [o])
      ((m.count o).label M cfg labels o.sub).2 := by
  have hn : m.n + 1 = (os ++ [o]).length := by
    rw [h.n, List.length_append, List.length_singleton]
  have hbytes : m.nameBytes + (o.query.getD "").length =
      ((os ++ [o]).map fun o => (o.query.getD "").length).sum := by
    rw [h.nameBytes, List.map_append, List.sum_append]
    rfl
  have hnx : (if o.nx then m.nx + 1 else m.nx) = (os ++ [o]).countP (·.nx) := by
    rw [h.nx, List.countP_append, List.countP_singleton]
    split <;> rfl
  have hqtypes : (if o.qtype.any (· ∈ TUNNEL_QTYPES) then m.tunnelQtypes + 1 else m.tunnelQtypes) =
      (os ++ [o]).countP fun o => o.qtype.any (· ∈ TUNNEL_QTYPES) := by
    rw [h.tunnelQtypes, List.countP_append, List.countP_singleton]
    split <;> rfl
  -- what an observation without a new subdomain leaves
  have hsame : ∀ full, CappedSet cfg.dnsLabelCap labels.keys full ((os ++ [o]).filterMap (·.subdomain)) →
      { m.count o with capped := full }.Counts M cfg (os ++ [o]) labels := by
    intro full hlabels
    exact ⟨hn, hbytes, hnx, hqtypes, hlabels, h.uniq, h.lenSum, h.entSum⟩
  rw [List.filterMap_append] at hsame
  cases hsub : o.subdomain with
  | none =>
    rw [subdomain_none hsub]
    apply hsame m.capped
    simpa [hsub] using h.stored
  | some sub =>
    obtain ⟨htext, hempty⟩ := subdomain_some hsub
    have hseen : [o].filterMap (·.subdomain) = [sub] := by simp [hsub]
    rw [hseen] at hsame
    have huniq : (m.count o).uniq = labels.keys.length := h.uniq
    unfold DomainInfo.label
    simp only [htext, hempty, false_or, ODict.get?_isSome]
    by_cases hkey : sub ∈ labels.keys
    · rw [if_pos hkey]
      exact hsame m.capped (h.stored.again hkey)
    · rw [if_neg hkey]
      split
      · rename_i hfull
        exact hsame true (h.stored.turnedAway hkey (huniq ▸ hfull))
      · rename_i hroom
        have hkeys := ODict.keys_set_of_not_mem (1 : Int) hkey
        refine ⟨hn, hbytes, hnx, hqtypes, ?_, ?_, ?_, ?_⟩
        · rw [List.filterMap_append, hseen, hkeys]
          exact h.stored.room hkey (by omega)
        · rw [hkeys, List.length_append, List.length_singleton]
          exact congrArg (· + 1) h.uniq
        · rw [hkeys, List.map_append, List.sum_append, ← h.lenSum]
          rfl
        · rw [hkeys, List.map_append, List.sum_append, ← h.entSum, List.map_singleton, List.sum_singleton]
          rfl

/-- An answer that a domain does not exist is counted, unless the domain is stored or there are too many. -/
theorem domain_counts {domains : ODict String Int} {m : BurstInfo} (h : m.Counts cfg os domains)
    {o : DnsObs} {dom : String} (hdom : o.nxDomain = some dom) :
    (m.domain cfg domains o dom).1.Counts cfg (os ++ [o]) (m.domain cfg domains o dom).2 := by
  have hseen : (os ++ [o]).filterMap (·.nxDomain) = os.filterMap (·.nxDomain) ++ [dom] := by
    rw [List.filterMap_append]
    simp [hdom]
  unfold BurstInfo.domain
  simp only [ODict.get?_isSome]
  by_cases hkey : dom ∈ domains.keys
  · rw [if_pos hkey]
    exact ⟨hseen ▸ h.stored.again hkey, h.nx, h.dgaLike, h.scored⟩
  · rw [if_neg hkey]
    have hnx := h.nx
    split
    · rename_i hfull
      exact ⟨hseen ▸ h.stored.turnedAway hkey (by omega), h.nx, h.dgaLike, h.scored⟩
    · rename_i hroom
      have hkeys := ODict.keys_set_of_not_mem (if o.looksGenerated then (1 : Int) else 0) hkey
      refine ⟨?_, ?_, ?_, ?_⟩
      · rw [hseen, hkeys]
        exact h.stored.room hkey (by omega)
      · rw [hkeys, List.length_append, List.length_singleton]
        exact congrArg (· + 1) hnx
      · rw [ODict.entries_set_new _ hkey, List.countP_append, ← h.dgaLike, List.countP_singleton]
        show (if o.looksGenerated then m.dgaLike + 1 else m.dgaLike) = _
        cases o.looksGenerated <;> rfl
      · show (if o.p.isSome then m.scored + 1 else m.scored) +
          (if o.p.isSome then m.ruleOnly else m.ruleOnly + 1) = m.nx + 1
        have hscored := h.scored
        split <;> omega

/-! ## What is raised -/

/-- What a finding of a window raises. -/
def Emitted.raisedIn (startMs : Int) : Emitted → Option (String × Severity)
  | .out f => if f.windowStartMs = startMs then some (f.subtype, f.severity) else none
  | .feature _ => none

/-- Each was raised once, none above the rank that is remembered of its subtype. -/
structure Raised (ranks : String → Int) (fs : List (String × Severity)) : Prop where
  once : fs.Nodup
  below : ∀ f ∈ fs, (f.2.rank : Int) ≤ ranks f.1

variable {rs rs' : String → Int} {fs : List (String × Severity)}

theorem Raised.nil : Raised rs [] := ⟨List.nodup_nil, fun _ hf => nomatch hf⟩

theorem Raised.mono (h : Raised rs fs) (hranks : ∀ t, rs t ≤ rs' t) : Raised rs' fs :=
  ⟨h.once, fun f hf => (h.below f hf).trans (hranks f.1)⟩

/-- A finding is raised when its severity exceeds the rank, which rises to it. -/
theorem Raised.finding (h : Raised rs fs) {f : Finding} (hlt : rs f.subtype < f.severity.rank)
    (hranks : ∀ t, rs t ≤ rs' t) (hrank : (f.severity.rank : Int) ≤ rs' f.subtype)
    (startMs : Int) : Raised rs' (fs ++ [Emitted.out f].filterMap (·.raisedIn startMs)) := by
  by_cases hstart : f.windowStartMs = startMs
  · have hone : [Emitted.out f].filterMap (·.raisedIn startMs) = [(f.subtype, f.severity)] := by
      simp [Emitted.raisedIn, hstart]
    rw [hone]
    constructor
    · apply List.nodup_append.2
      refine ⟨h.once, List.nodup_singleton _, fun g hg g' hg' heq => ?_⟩
      rw [List.mem_singleton.1 hg'] at heq
      have := h.below g hg
      rw [heq] at this
      exact absurd hlt (not_lt.2 this)
    · intro g hg
      rcases List.mem_append.1 hg with hg | hg
      · exact (h.below g hg).trans (hranks g.1)
      · rw [List.mem_singleton.1 hg]
        exact hrank
  · have hnone : [Emitted.out f].filterMap (·.raisedIn startMs) = [] := by
      simp [Emitted.raisedIn, hstart]
    rw [hnone, List.append_nil]
    exact h.mono hranks

/-- What is emitted raises the ranks from `rs` to `rs'`, with findings of the window `win`. -/
structure Reports (cfg : DnsConfig) (o : DnsObs) (win : Int) (rs rs' : String → Int)
    (out : List Emitted) : Prop where
  raised : ∀ startMs fs, Raised rs fs → Raised rs' (fs ++ out.filterMap (·.raisedIn startMs))
  start : ∀ e ∈ out, ∀ startMs f, e.raisedIn startMs = some f →
    startMs = min (win * cfg.dnsWindowMs) o.obsMs

namespace Reports

variable {o : DnsObs} {win : Int} {rs'' : String → Int} {out out' : List Emitted}

theorem trans (h : Reports cfg o win rs rs' out) (h' : Reports cfg o win rs' rs'' out') :
    Reports cfg o win rs rs'' (out ++ out') where
  raised := by
    intro startMs fs hfs
    rw [List.filterMap_append, ← List.append_assoc]
    exact h'.raised startMs _ (h.raised startMs fs hfs)
  start := by
    intro e he
    rcases List.mem_append.1 he with he | he
    · exact h.start e he
    · exact h'.start e he

theorem quiet (hout : ∀ e ∈ out, ∀ startMs, e.raisedIn startMs = none) :
    Reports cfg o win rs rs out where
  raised := by
    intro startMs fs hfs
    rw [List.filterMap_eq_nil_iff.2 fun e he => hout e he startMs, List.append_nil]
    exact hfs
  start := by
    intro e he startMs f hf
    cases hf.symm.trans (hout e he startMs)

theorem nil : Reports cfg o win rs rs [] := quiet fun _ he => nomatch he

theorem finding {f : Finding} (hlt : rs f.subtype < f.severity.rank) (hranks : ∀ t, rs t ≤ rs' t)
    (hrank : (f.severity.rank : Int) ≤ rs' f.subtype)
    (hstart : f.windowStartMs = min (win * cfg.dnsWindowMs) o.obsMs) :
    Reports cfg o win rs rs' [.out f] where
  raised := fun startMs _ hfs => hfs.finding hlt hranks hrank startMs
  start := by
    intro e he startMs g hg
    rw [List.mem_singleton.1 he] at hg
    unfold Emitted.raisedIn at hg
    simp only at hg
    split at hg
    · rename_i hf
      exact hf.symm.trans hstart
    · cases hg

/-- What is emitted for an observation of another window raises nothing in this one. -/
theorem elsewhere (h : Reports cfg o (o.window cfg) rs rs' out) (hwin : o.window cfg ≠ win) :
    ∀ e ∈ out, e.raisedIn (win * cfg.dnsWindowMs) = none := by
  intro e he
  have hpos := cfg.divisors_pos.1.ne'
  cases hraised : e.raisedIn (win * cfg.dnsWindowMs) with
  | none => rfl
  | some f =>
    have hstart := h.start e he _ f hraised
    have hmin : min (o.window cfg * cfg.dnsWindowMs) o.obsMs = o.window cfg * cfg.dnsWindowMs :=
      min_eq_left (Int.ediv_mul_le _ hpos)
    exact absurd (Int.eq_of_mul_eq_mul_right hpos (hstart.trans hmin)).symm hwin

end Reports

def DomainInfo.ranks (m : DomainInfo) (subtype : String) : Int :=
  if subtype = "dns_tunnel_like" then m.rankT else m.rankD

def BurstInfo.ranks (m : BurstInfo) (_subtype : String) : Int := m.rank

/-- A part of `on_event` reports, and counts nothing. -/
structure DomainInfo.Reported (cfg : DnsConfig) (o : DnsObs) (m m' : DomainInfo)
    (out : List Emitted) : Prop where
  win : m'.win = m.win
  counters : m'.counters = m.counters
  reports : Reports cfg o m.win m.ranks m'.ranks out

theorem DomainInfo.Reported.trans {m m' m'' : DomainInfo} {o : DnsObs} {out out' : List Emitted}
    (h : m.Reported cfg o m' out) (h' : m'.Reported cfg o m'' out') :
    m.Reported cfg o m'' (out ++ out') :=
  ⟨h'.win.trans h.win, h'.counters.trans h.counters, h.reports.trans (h.win ▸ h'.reports)⟩

theorem reportTunnel_reported (cfg : DnsConfig) (m : DomainInfo) (key : String) (o : DnsObs) :
    m.Reported cfg o (m.reportTunnel cfg key o).1 (m.reportTunnel cfg key o).2 := by
  unfold DomainInfo.reportTunnel
  simp only
  split
  · rename_i hrises
    have hrank : ({ m with rankT := ((m.tunnelSeverity cfg).rank : Int) } : DomainInfo).ranks
        "dns_tunnel_like" = (m.tunnelSeverity cfg).rank := rfl
    refine ⟨rfl, rfl, .finding hrises.2 ?_ hrank.ge rfl⟩
    intro t
    unfold DomainInfo.ranks
    split
    · exact le_of_lt hrises.2
    · exact le_refl _
  · exact ⟨rfl, rfl, .nil⟩

theorem reportDga_reported (cfg : DnsConfig) (m : DomainInfo) (key : String) (o : DnsObs)
    (info : ModelInfo) :
    m.Reported cfg o (m.reportDga cfg key o info).1 (m.reportDga cfg key o info).2 := by
  unfold DomainInfo.reportDga
  generalize (if o.nx = true then Severity.medium else .low) = severity
  cases o.p with
  | none => exact ⟨rfl, rfl, .nil⟩
  | some p =>
    simp only
    split
    · rename_i hrises
      have hrank : ({ m with rankD := (severity.rank : Int) } : DomainInfo).ranks "dga_domain" =
        severity.rank := rfl
      refine ⟨rfl, rfl, .finding hrises.2 ?_ hrank.ge rfl⟩
      intro t
      unfold DomainInfo.ranks
      split
      · exact le_refl _
      · exact le_of_lt hrises.2
    · exact ⟨rfl, rfl, .nil⟩

theorem feature_reported (cfg : DnsConfig) (m : DomainInfo) (o : DnsObs) (last : Option Int) (b : Bool)
    (r : FeatureRecord) :
    m.Reported cfg o { m with lastFeatureMs := last } (if b then [.feature r] else []) := by
  refine ⟨rfl, rfl, .quiet fun e he startMs => ?_⟩
  split at he
  · rw [List.mem_singleton.1 he]
    rfl
  · cases he

/-- A burst is reported, and nothing is counted. -/
theorem reportBurst_reported (cfg : DnsConfig) (m : BurstInfo) (src : String) (o : DnsObs) :
    (m.reportBurst cfg src o).1.win = m.win ∧
      (∀ os domains, m.Counts cfg os domains → (m.reportBurst cfg src o).1.Counts cfg os domains) ∧
      Reports cfg o m.win m.ranks (m.reportBurst cfg src o).1.ranks (m.reportBurst cfg src o).2 := by
  unfold BurstInfo.reportBurst
  simp only
  split
  · rename_i hrises
    refine ⟨rfl, fun _ _ h => ⟨h.stored, h.nx, h.dgaLike, h.scored⟩, .finding hrises.2.2 ?_ ?_ rfl⟩
    · exact fun _ => le_of_lt hrises.2.2
    · exact le_refl _
  · exact ⟨rfl, fun _ _ h => h, .nil⟩

/-! ## One observation -/

/-- The window that a state holds. -/
def DomainState.window (s : DomainState) : Option Int := s.m.map (·.win)

def BurstState.window (s : BurstState) : Option Int := s.m.map (·.win)

theorem DomainState.current_of_window {s : DomainState} {win : Int} (h : s.window ≠ some win)
    (o : DnsObs) : s.current win o = (.fresh win o, .empty) := by
  unfold DomainState.current
  cases hm : s.m with
  | none => rfl
  | some m => exact if_neg fun hwin => h (by rw [window, hm, Option.map_some, hwin])

theorem BurstState.current_of_window {s : BurstState} {win : Int} (h : s.window ≠ some win)
    (o : DnsObs) : s.current win o = (.fresh win o, .empty) := by
  unfold BurstState.current
  cases hm : s.m with
  | none => rfl
  | some m => exact if_neg fun hwin => h (by rw [window, hm, Option.map_some, hwin])

theorem label_ranks (m : DomainInfo) (o : DnsObs) :
    ((m.count o).label M cfg labels o.sub).1.ranks = m.ranks := by
  unfold DomainInfo.label
  split
  · rfl
  · split
    · rfl
    · split <;> rfl

/-- What an observation leaves of the counters. -/
def DomainState.counted (M : Maths) (cfg : DnsConfig) (s : DomainState) (o : DnsObs) :
    DomainInfo × ODict String Int :=
  ((s.current (o.window cfg) o).1.count o).label M cfg (s.current (o.window cfg) o).2 o.sub

/-- The rest of `on_event`, once an observation is counted. -/
def DomainInfo.report (cfg : DnsConfig) (info : ModelInfo) (nowUs : Int) (key : String) (o : DnsObs)
    (m : DomainInfo) : DomainInfo × List Emitted :=
  let tunnel := (m.record o).reportTunnel cfg key o
  let dga := tunnel.1.reportDga cfg key o info
  let limit := if cfg.tunnelMinUniqueLabels / 2 ≤ dga.1.uniq ∨ 1 / 2 ≤ o.p.getD 0 then
      rateLimited dga.1.lastFeatureMs o.obsMs cfg.featureMinIntervalMs
    else (false, dga.1.lastFeatureMs)
  ({ dga.1 with lastFeatureMs := limit.2 }, tunnel.2 ++ dga.2 ++
    if limit.1 then [Emitted.feature (dga.1.domainFeature cfg key o nowUs)] else [])

theorem domainOnEvent_eq (M : Maths) (cfg : DnsConfig) (info : ModelInfo) (nowUs : Int) (key : String)
    (s : DomainState) (o : DnsObs) :
    domainOnEvent M cfg info nowUs key s o =
      ⟨⟨some ((s.counted M cfg o).1.report cfg info nowUs key o).1, (s.counted M cfg o).2⟩,
        [bucketUp (((o.window cfg + 1) * cfg.dnsWindowMs : Int) : Rat) cfg.dnsWindowMs],
        ((s.counted M cfg o).1.report cfg info nowUs key o).2⟩ := rfl

theorem report_reported (cfg : DnsConfig) (info : ModelInfo) (nowUs : Int) (key : String) (o : DnsObs)
    (m : DomainInfo) :
    m.Reported cfg o (m.report cfg info nowUs key o).1 (m.report cfg info nowUs key o).2 := by
  have hrecord : m.Reported cfg o (m.record o) [] := ⟨rfl, rfl, .nil⟩
  have htunnel := reportTunnel_reported cfg (m.record o) key o
  have hdga := reportDga_reported cfg ((m.record o).reportTunnel cfg key o).1 key o info
  exact ((hrecord.trans htunnel).trans hdga).trans (feature_reported ..)

/-- An observation is counted, and reported in its window. -/
theorem domainOnEvent_reported (M : Maths) (cfg : DnsConfig) (info : ModelInfo) (nowUs : Int) (key : String)
    (s : DomainState) (o : DnsObs) :
    ∃ m', (domainOnEvent M cfg info nowUs key s o).state = ⟨some m', (s.counted M cfg o).2⟩ ∧
      m'.win = o.window cfg ∧ m'.counters = (s.counted M cfg o).1.counters ∧
      Reports cfg o (o.window cfg) (s.counted M cfg o).1.ranks m'.ranks
        (domainOnEvent M cfg info nowUs key s o).out := by
  have hwin : (s.counted M cfg o).1.win = o.window cfg :=
    (DomainInfo.label_win ..).trans (s.current_win _ o)
  have h := report_reported cfg info nowUs key o (s.counted M cfg o).1
  rw [domainOnEvent_eq]
  exact ⟨_, rfl, h.win.trans hwin, h.counters, hwin ▸ h.reports⟩

/-! ## Domains -/

/-- A domain holds one window at a time. -/
def domainTumbling (M : Maths) (cfg : DnsConfig) (info : ModelInfo) (key : String) :
    Tumbling (dnsDomainLogic M cfg info) key (fun o => some (o.window cfg)) where
  held := DomainState.window
  deadline win := (win + 1) * cfg.dnsWindowMs + 1
  held_empty := rfl
  ignored := fun _ _ _ h => nomatch h
  entered := by
    intro now s o win hwin
    obtain ⟨m, hm, hmwin, -⟩ := domainOnEvent_timer M cfg info now key s o
    show (domainOnEvent M cfg info now key s o).state.m.map _ = _
    rw [hm, ← hwin, Option.map_some, hmwin]
    rfl
  restarted := by
    intro now s o win hwin hheld
    obtain rfl := Option.some.inj hwin
    have hs := DomainState.current_of_window hheld o
    have hempty : (⟨none, .empty⟩ : DomainState).current (o.window cfg) o =
      (.fresh (o.window cfg) o, .empty) := rfl
    show domainOnEvent M cfg info now key s o = domainOnEvent M cfg info now key ⟨none, .empty⟩ o
    unfold DnsObs.window at hs hempty
    unfold domainOnEvent
    simp only [hs, hempty]
  timer := by
    intro now s ts
    refine ((domainDeadlines M cfg info).timer now key s ts).trans ?_
    simp [domainDeadlines, DomainState.window]

/-- What is counted and raised of a window, whatever the next observation of it. -/
structure DomainState.Tracks (M : Maths) (cfg : DnsConfig) (win : Int) (os : List DnsObs)
    (out : List Emitted) (s : DomainState) : Prop where
  counts : ∀ o, (s.current win o).1.Counts M cfg os (s.current win o).2
  raised : ∀ o, Raised (s.current win o).1.ranks (out.filterMap (·.raisedIn (win * cfg.dnsWindowMs)))

theorem domain_tracks_empty (win : Int) :
    (⟨none, .empty⟩ : DomainState).Tracks M cfg win [] [] :=
  ⟨fun o => domain_counts_fresh win o, fun _ => .nil⟩

theorem domainOnEvent_tracks (info : ModelInfo) (nowUs : Int) (key : String) {win : Int}
    {out : List Emitted} {s : DomainState} {o : DnsObs} (hwin : o.window cfg = win)
    (h : s.Tracks M cfg win os out) :
    (domainOnEvent M cfg info nowUs key s o).state.Tracks M cfg win (os ++ [o])
      (out ++ (domainOnEvent M cfg info nowUs key s o).out) := by
  subst hwin
  obtain ⟨m', hstate, hheld, hcounters, hreports⟩ := domainOnEvent_reported M cfg info nowUs key s o
  have hcurrent : ∀ o', (⟨some m', (s.counted M cfg o).2⟩ : DomainState).current (o.window cfg) o' =
      (m', (s.counted M cfg o).2) := fun _ => if_pos hheld
  have hcounts : (s.counted M cfg o).1.Counts M cfg (os ++ [o]) (s.counted M cfg o).2 :=
    label_counts (h.counts o) o
  have hranks : (s.counted M cfg o).1.ranks = (s.current (o.window cfg) o).1.ranks := label_ranks _ o
  rw [hstate]
  constructor
  · intro o'
    rw [hcurrent]
    exact hcounts.congr hcounters
  · intro o'
    rw [hcurrent, List.filterMap_append]
    exact hreports.raised _ _ (hranks ▸ h.raised o)

/-! ## Bursts -/

theorem burstOnEvent_none (cfg : DnsConfig) {o : DnsObs} (h : o.nxDomain = none) (src : String) (s : BurstState) :
    burstOnEvent cfg src s o = ⟨s, [], []⟩ := by
  unfold DnsObs.nxDomain at h
  unfold burstOnEvent
  apply if_pos
  cases hnx : o.nx with
  | false => rfl
  | true =>
    rw [hnx, if_pos rfl] at h
    cases hdom : o.registrable with
    | none => rfl
    | some dom =>
      rw [hdom] at h
      simpa [Option.filter] using h

/-- What an answer leaves of the counters. -/
def BurstState.counted (cfg : DnsConfig) (s : BurstState) (o : DnsObs) (dom : String) :
    BurstInfo × ODict String Int :=
  (s.current (o.window cfg) o).1.domain cfg (s.current (o.window cfg) o).2 o dom

theorem BurstInfo.domain_ranks (m : BurstInfo) (domains : ODict String Int) (o : DnsObs) (dom : String) :
    (m.domain cfg domains o dom).1.win = m.win ∧ (m.domain cfg domains o dom).1.ranks = m.ranks := by
  unfold BurstInfo.domain
  split
  · exact ⟨rfl, rfl⟩
  · split <;> exact ⟨rfl, rfl⟩

theorem burstOnEvent_some {o : DnsObs} {dom : String} (h : o.nxDomain = some dom) (src : String)
    (s : BurstState) :
    burstOnEvent cfg src s o =
      ⟨⟨some ({ (s.counted cfg o dom).1 with last := o.evidence }.reportBurst cfg src o).1,
          (s.counted cfg o dom).2⟩,
        [bucketUp (((o.window cfg + 1) * cfg.dnsWindowMs : Int) : Rat) cfg.dnsWindowMs],
        ({ (s.counted cfg o dom).1 with last := o.evidence }.reportBurst cfg src o).2⟩ := by
  have hnx : o.nx = true := by
    by_contra hnot
    simp [DnsObs.nxDomain, hnot] at h
  unfold DnsObs.nxDomain at h
  rw [if_pos hnx] at h
  obtain ⟨hdom, hne⟩ := Option.filter_eq_some_iff.1 h
  have hdom' : o.registrable.getD "" = dom := by rw [hdom]; rfl
  have hcond : (!o.nx || decide (dom = "")) = false := by
    rw [hnx]
    simpa using hne
  unfold burstOnEvent
  simp only [hdom', hcond, Bool.false_eq_true, if_false]
  rfl

/-- An answer is counted, and reported in its window. -/
theorem burstOnEvent_reported (cfg : DnsConfig) {o : DnsObs} {dom : String} (h : o.nxDomain = some dom) (src : String)
    (s : BurstState) :
    ∃ m', (burstOnEvent cfg src s o).state = ⟨some m', (s.counted cfg o dom).2⟩ ∧
      m'.win = o.window cfg ∧
      (∀ os domains, (s.counted cfg o dom).1.Counts cfg os domains → m'.Counts cfg os domains) ∧
      Reports cfg o (o.window cfg) (s.counted cfg o dom).1.ranks m'.ranks
        (burstOnEvent cfg src s o).out := by
  have hwin : (s.counted cfg o dom).1.win = o.window cfg :=
    (BurstInfo.domain_ranks ..).1.trans (s.current_win _ o)
  obtain ⟨hsame, hcounts, hreports⟩ :=
    reportBurst_reported cfg { (s.counted cfg o dom).1 with last := o.evidence } src o
  rw [burstOnEvent_some h]
  refine ⟨_, rfl, hsame.trans hwin, fun os domains hm => ?_, hwin ▸ hreports⟩
  exact hcounts os domains ⟨hm.stored, hm.nx, hm.dgaLike, hm.scored⟩

/-- The window of an answer that a domain does not exist. -/
def DnsObs.burstWindow (cfg : DnsConfig) (o : DnsObs) : Option Int :=
  o.nxDomain.map fun _ => o.window cfg

/-- A burst is of one window at a time. -/
def burstTumbling (cfg : DnsConfig) (src : String) :
    Tumbling (dgaBurstLogic cfg) src (DnsObs.burstWindow cfg) where
  held := BurstState.window
  deadline win := (win + 1) * cfg.dnsWindowMs + 1
  held_empty := rfl
  ignored := by
    intro now s o hnone
    have hevent := burstOnEvent_none cfg (Option.map_eq_none_iff.1 hnone) src s
    exact ⟨congrArg Outcome.state hevent, congrArg Outcome.out hevent⟩
  entered := by
    intro now s o win hwin
    obtain ⟨dom, hdom, rfl⟩ := Option.map_eq_some_iff.1 hwin
    obtain ⟨m', hstate, hheld, -⟩ := burstOnEvent_reported cfg hdom src s
    show (burstOnEvent cfg src s o).state.window = _
    rw [hstate, BurstState.window, Option.map_some, hheld]
  restarted := by
    intro now s o win hwin hheld
    obtain ⟨dom, hdom, rfl⟩ := Option.map_eq_some_iff.1 hwin
    show burstOnEvent cfg src s o = burstOnEvent cfg src ⟨none, .empty⟩ o
    rw [burstOnEvent_some hdom, burstOnEvent_some hdom]
    unfold BurstState.counted
    rw [BurstState.current_of_window hheld]
    rfl
  timer := by
    intro now s ts
    refine ((burstDeadlines cfg).timer now src s ts).trans ?_
    simp [burstDeadlines, BurstState.window]

structure BurstState.Tracks (cfg : DnsConfig) (win : Int) (os : List DnsObs) (out : List Emitted)
    (s : BurstState) : Prop where
  counts : ∀ o, (s.current win o).1.Counts cfg os (s.current win o).2
  raised : ∀ o, Raised (s.current win o).1.ranks (out.filterMap (·.raisedIn (win * cfg.dnsWindowMs)))

theorem burst_tracks_empty (win : Int) : (⟨none, .empty⟩ : BurstState).Tracks cfg win [] [] :=
  ⟨fun o => burst_counts_fresh win o, fun _ => .nil⟩

theorem burstOnEvent_tracks (src : String) {win : Int} {out : List Emitted} {s : BurstState} {o : DnsObs}
    (hwin : o.burstWindow cfg = some win) (h : s.Tracks cfg win os out) :
    (burstOnEvent cfg src s o).state.Tracks cfg win (os ++ [o])
      (out ++ (burstOnEvent cfg src s o).out) := by
  obtain ⟨dom, hdom, rfl⟩ := Option.map_eq_some_iff.1 hwin
  obtain ⟨m', hstate, hheld, hcounters, hreports⟩ := burstOnEvent_reported cfg hdom src s
  have hcurrent : ∀ o', (⟨some m', (s.counted cfg o dom).2⟩ : BurstState).current (o.window cfg) o' =
      (m', (s.counted cfg o dom).2) := fun _ => if_pos hheld
  have hcounts : (s.counted cfg o dom).1.Counts cfg (os ++ [o]) (s.counted cfg o dom).2 :=
    domain_counts (h.counts o) hdom
  have hranks : (s.counted cfg o dom).1.ranks = (s.current (o.window cfg) o).1.ranks :=
    (BurstInfo.domain_ranks ..).2
  rw [hstate]
  constructor
  · intro o'
    rw [hcurrent]
    exact hcounters _ _ hcounts
  · intro o'
    rw [hcurrent, List.filterMap_append]
    exact hreports.raised _ _ (hranks ▸ h.raised o)

/-! ## A window from its start on -/

/-- A state holds the window and the counts of the observations; if there are none it does not hold it. -/
def DomainState.Exact (M : Maths) (cfg : DnsConfig) (win : Int) (os : List DnsObs) (s : DomainState) : Prop :=
  (∃ m, s.m = some m ∧ m.win = win ∧ m.Counts M cfg os s.labels) ∨ (os = [] ∧ s.window ≠ some win)

def BurstState.Exact (cfg : DnsConfig) (win : Int) (os : List DnsObs) (s : BurstState) : Prop :=
  (∃ m, s.m = some m ∧ m.win = win ∧ m.Counts cfg os s.domains) ∨
    (os.filterMap (·.nxDomain) = [] ∧ s.window ≠ some win)

/-- The observations of a window. -/
def observed (cfg : DnsConfig) (win : Int) (calls : List (Call DnsObs)) : List DnsObs :=
  (elements calls).filter (·.window cfg = win)

/-- What is raised in a window. -/
def raisedOf (cfg : DnsConfig) (win : Int) (out : List Emitted) : List (String × Severity) :=
  out.filterMap (·.raisedIn (win * cfg.dnsWindowMs))

theorem observed_append (win : Int) (calls more : List (Call DnsObs)) :
    observed cfg win (calls ++ more) = observed cfg win calls ++ observed cfg win more := by
  unfold observed
  rw [elements_append, List.filter_append]

theorem observed_eq_nil {win : Int} {calls : List (Call DnsObs)} :
    observed cfg win calls = [] ↔ ∀ o ∈ elements calls, o.window cfg ≠ win := by
  unfold observed
  rw [List.filter_eq_nil_iff]
  simp

theorem observed_eq_elements {win : Int} {calls : List (Call DnsObs)}
    (h : ∀ o ∈ elements calls, o.window cfg = win) : observed cfg win calls = elements calls :=
  List.filter_eq_self.2 fun o ho => decide_eq_true (h o ho)

theorem inSlot_window (win : Int) (calls : List (Call DnsObs)) :
    inSlot (fun o => some (o.window cfg)) win (elements calls) = observed cfg win calls := by
  unfold inSlot observed
  simp only [Option.some.injEq]

/-- The answers that a burst counts are those of the window. -/
theorem inSlot_burstWindow (cfg : DnsConfig) (win : Int) (calls : List (Call DnsObs)) :
    (inSlot (DnsObs.burstWindow cfg) win (elements calls)).filterMap (·.nxDomain) =
      (observed cfg win calls).filterMap (·.nxDomain) := by
  unfold inSlot observed DnsObs.burstWindow
  rw [List.filterMap_filter, List.filterMap_filter]
  congr 1
  funext o
  cases hdom : o.nxDomain with
  | none => simp
  | some dom => simp

theorem burstWindow_ne {o : DnsObs} {win : Int} (h : o.window cfg ≠ win) : o.burstWindow cfg ≠ some win := by
  unfold DnsObs.burstWindow
  cases o.nxDomain with
  | none => exact fun heq => nomatch heq
  | some dom => exact fun heq => h (Option.some.inj heq)

theorem burstWindow_of_window {o : DnsObs} {win : Int} (h : o.window cfg = win) :
    o.burstWindow cfg = none ∨ o.burstWindow cfg = some win := by
  unfold DnsObs.burstWindow
  cases o.nxDomain with
  | none => exact .inl rfl
  | some dom => exact .inr (congrArg some h)

/-- The counts of a domain and its findings, from the start of a window on. -/
theorem domain_window_run (M : Maths) (cfg : DnsConfig) (info : ModelInfo) (key : String) {win : Int}
    {earlier calls : List (Call DnsObs)}
    (hearlier : ((dnsDomainLogic M cfg info).after key earlier).window ≠ some win)
    (hcalls : ∀ o ∈ elements calls, o.window cfg = win)
    (htimers : ∀ now ts, .timer now ts ∈ calls → ts ≤ (win + 1) * cfg.dnsWindowMs) :
    ((dnsDomainLogic M cfg info).after key (earlier ++ calls)).Exact M cfg win (elements calls) ∧
      (raisedOf cfg win ((dnsDomainLogic M cfg info).emittedFrom key
        ((dnsDomainLogic M cfg info).after key earlier) calls)).Nodup := by
  have hrun := (domainTumbling M cfg info key).window_run
    (P := fun os out s => s.Tracks M cfg win os out) (domain_tracks_empty win)
    (fun now os out s o hslot h => domainOnEvent_tracks info now key (Option.some.inj hslot) h)
    hearlier calls (fun o ho => .inr (congrArg some (hcalls o ho)))
    (fun now ts ht => Int.lt_add_one_iff.2 (htimers now ts ht))
  rw [inSlot_window, observed_eq_elements hcalls] at hrun
  rcases hrun with ⟨hnone, hout, hheld⟩ | ⟨hne, hheld, htracks⟩
  · rw [hout]
    exact ⟨.inr ⟨hnone, hheld⟩, List.nodup_nil⟩
  · obtain ⟨o, -⟩ := List.exists_mem_of_ne_nil _ hne
    refine ⟨.inl ?_, (htracks.raised o).once⟩
    obtain ⟨m, hm, hwin⟩ := Option.map_eq_some_iff.1 hheld
    have hcounts := htracks.counts o
    unfold DomainState.current at hcounts
    rw [hm] at hcounts
    simp only [hwin, if_true] at hcounts
    exact ⟨m, hm, hwin, hcounts⟩

/-- Those of a burst. -/
theorem burst_window_run (cfg : DnsConfig) (src : String) {win : Int} {earlier calls : List (Call DnsObs)}
    (hearlier : ((dgaBurstLogic cfg).after src earlier).window ≠ some win)
    (hcalls : ∀ o ∈ elements calls, o.window cfg = win)
    (htimers : ∀ now ts, .timer now ts ∈ calls → ts ≤ (win + 1) * cfg.dnsWindowMs) :
    ((dgaBurstLogic cfg).after src (earlier ++ calls)).Exact cfg win (elements calls) ∧
      (raisedOf cfg win ((dgaBurstLogic cfg).emittedFrom src
        ((dgaBurstLogic cfg).after src earlier) calls)).Nodup := by
  have hrun := (burstTumbling cfg src).window_run
    (P := fun os out s => s.Tracks cfg win os out) (burst_tracks_empty win)
    (fun now os out s o hslot h => burstOnEvent_tracks src hslot h)
    hearlier calls (fun o ho => burstWindow_of_window (hcalls o ho))
    (fun now ts ht => Int.lt_add_one_iff.2 (htimers now ts ht))
  have hanswers := inSlot_burstWindow cfg win calls
  rw [observed_eq_elements hcalls] at hanswers
  rcases hrun with ⟨hnone, hout, hheld⟩ | ⟨hne, hheld, htracks⟩
  · rw [hout]
    rw [hnone] at hanswers
    exact ⟨.inr ⟨hanswers.symm, hheld⟩, List.nodup_nil⟩
  · obtain ⟨o, -⟩ := List.exists_mem_of_ne_nil _ hne
    refine ⟨.inl ?_, (htracks.raised o).once⟩
    obtain ⟨m, hm, hwin⟩ := Option.map_eq_some_iff.1 hheld
    have hcounts := htracks.counts o
    unfold BurstState.current at hcounts
    rw [hm] at hcounts
    simp only [hwin, if_true] at hcounts
    exact ⟨m, hm, hwin, hanswers ▸ hcounts.stored, hcounts.nx, hcounts.dgaLike, hcounts.scored⟩

/-- **DNS counters are exact up to their caps**: once a state that does not hold a window gets observations
of it, with no timer past its end in between, the counters of a domain are those of the observations, with
every label up to the cap; and so are those of a burst. -/
theorem dns_counters_exact (M : Maths) (cfg : DnsConfig) (info : ModelInfo) (key src : String) (win : Int)
    (earlier calls : List (Call DnsObs)) (hcalls : ∀ o ∈ elements calls, o.window cfg = win)
    (htimers : ∀ now ts, .timer now ts ∈ calls → ts ≤ (win + 1) * cfg.dnsWindowMs) :
    (((dnsDomainLogic M cfg info).after key earlier).window ≠ some win →
      ((dnsDomainLogic M cfg info).after key (earlier ++ calls)).Exact M cfg win (elements calls)) ∧
    (((dgaBurstLogic cfg).after src earlier).window ≠ some win →
      ((dgaBurstLogic cfg).after src (earlier ++ calls)).Exact cfg win (elements calls)) :=
  ⟨fun hearlier => (domain_window_run M cfg info key hearlier hcalls htimers).1,
    fun hearlier => (burst_window_run cfg src hearlier hcalls htimers).1⟩

/-- A query for a name that does not exist. -/
def sampleQuery (sub : String) (obsMs : Int) (p : Option Rat) : DnsObs :=
  ⟨"10.10.1.20", some (sub ++ ".q7x2.example"), some "q7x2.example", some sub, p, some true, none, true,
    some "TXT", "e1", obsMs, obsMs * 1000, 0, obsMs * 1000, "s1", none, "full", none, []⟩

/-- Three queries of a minute, two of them for one name, after one of the minute before. -/
def sampleQueries : List (Call DnsObs) :=
  [.event 0 (sampleQuery "aa" 60000 none), .event 0 (sampleQuery "b" 61000 none),
    .event 0 (sampleQuery "aa" 60500 none)]

def sampleDns : DnsConfig := { dnsLabelCap := 1 }

def sampleInfo : ModelInfo := ⟨some (1 / 2), none, none⟩

theorem dns_counters_exact_sample :
    ((dnsDomainLogic sampleMaths sampleDns sampleInfo).after "10.10.1.20|q7x2.example"
      ([.event 0 (sampleQuery "c" 59000 none)] ++ sampleQueries)).Exact sampleMaths sampleDns 1
      (elements sampleQueries) :=
  (dns_counters_exact sampleMaths sampleDns sampleInfo "10.10.1.20|q7x2.example" "10.10.1.20" 1
    [.event 0 (sampleQuery "c" 59000 none)] sampleQueries (by decide +kernel)
    (fun now ts ht => by simp [sampleQueries] at ht)).1 (by decide +kernel)

/-! ## A window in a whole sequence -/

/-- What is promised of a window, whose last observation is that of the last of `calls`: its counts are those
of all its observations, and none of its findings is raised twice. -/
structure DomainSurvives (M : Maths) (cfg : DnsConfig) (info : ModelInfo) (key : String) (win : Int)
    (calls more : List (Call DnsObs)) : Prop where
  counts : ((dnsDomainLogic M cfg info).after key calls).Exact M cfg win (observed cfg win (calls ++ more))
  once : (raisedOf cfg win ((dnsDomainLogic M cfg info).emitted key (calls ++ more))).Nodup

structure BurstSurvives (cfg : DnsConfig) (src : String) (win : Int) (calls more : List (Call DnsObs)) :
    Prop where
  counts : ((dgaBurstLogic cfg).after src calls).Exact cfg win (observed cfg win (calls ++ more))
  once : (raisedOf cfg win ((dgaBurstLogic cfg).emitted src (calls ++ more))).Nodup

/-- A window whose observations come without another one between them survives. -/
theorem domain_survives (M : Maths) (cfg : DnsConfig) (info : ModelInfo) (key : String) {win : Int}
    {before calls more : List (Call DnsObs)} (hbefore : ∀ o ∈ elements before, o.window cfg ≠ win)
    (hcalls : ∀ o ∈ elements calls, o.window cfg = win) (hmore : ∀ o ∈ elements more, o.window cfg ≠ win)
    (htimers : ∀ now ts, .timer now ts ∈ calls → ts ≤ (win + 1) * cfg.dnsWindowMs) :
    DomainSurvives M cfg info key win (before ++ calls) more := by
  have hother : ∀ calls : List (Call DnsObs), (∀ o ∈ elements calls, o.window cfg ≠ win) →
      ∀ o ∈ elements calls, some (o.window cfg) ≠ some win :=
    fun _ h o ho heq => h o ho (Option.some.inj heq)
  have hheld := (domainTumbling M cfg info key).held_of_unseen before (hother before hbefore)
  obtain ⟨hcounts, honce⟩ := domain_window_run M cfg info key hheld hcalls htimers
  have hall : observed cfg win (before ++ calls ++ more) = elements calls := by
    rw [observed_append, observed_append, observed_eq_nil.2 hbefore, observed_eq_nil.2 hmore,
      observed_eq_elements hcalls, List.append_nil, List.nil_append]
  constructor
  · rw [hall]
    exact hcounts
  · unfold raisedOf
    rw [(domainTumbling M cfg info key).shown_between ?_ calls (hother before hbefore)
      (hother more hmore)]
    · exact honce
    · intro now s o hwin
      obtain ⟨m', -, -, -, hreports⟩ := domainOnEvent_reported M cfg info now key s o
      exact hreports.elsewhere fun heq => hwin (congrArg some heq)

theorem burst_survives (cfg : DnsConfig) (src : String) {win : Int}
    {before calls more : List (Call DnsObs)} (hbefore : ∀ o ∈ elements before, o.window cfg ≠ win)
    (hcalls : ∀ o ∈ elements calls, o.window cfg = win) (hmore : ∀ o ∈ elements more, o.window cfg ≠ win)
    (htimers : ∀ now ts, .timer now ts ∈ calls → ts ≤ (win + 1) * cfg.dnsWindowMs) :
    BurstSurvives cfg src win (before ++ calls) more := by
  have hother : ∀ calls : List (Call DnsObs), (∀ o ∈ elements calls, o.window cfg ≠ win) →
      ∀ o ∈ elements calls, o.burstWindow cfg ≠ some win :=
    fun _ h o ho => burstWindow_ne (h o ho)
  have hheld := (burstTumbling cfg src).held_of_unseen before (hother before hbefore)
  obtain ⟨hcounts, honce⟩ := burst_window_run cfg src hheld hcalls htimers
  have hall : observed cfg win (before ++ calls ++ more) = elements calls := by
    rw [observed_append, observed_append, observed_eq_nil.2 hbefore, observed_eq_nil.2 hmore,
      observed_eq_elements hcalls, List.append_nil, List.nil_append]
  constructor
  · rw [hall]
    exact hcounts
  · unfold raisedOf
    rw [(burstTumbling cfg src).shown_between ?_ calls (hother before hbefore) (hother more hmore)]
    · exact honce
    · intro now s o hwin e he
      cases hdom : o.nxDomain with
      | none =>
        rw [show (dgaBurstLogic cfg).onEvent now src s o = burstOnEvent cfg src s o from rfl,
          burstOnEvent_none cfg hdom] at he
        cases he
      | some dom =>
        obtain ⟨m', -, -, -, hreports⟩ := burstOnEvent_reported cfg hdom src s
        refine hreports.elsewhere (fun heq => hwin ?_) e he
        rw [DnsObs.burstWindow, hdom, Option.map_some, heq]

/-- A state holds the counts of so many observations only. -/
theorem DomainState.Exact.length_eq {win : Int} {os os' : List DnsObs} {s : DomainState}
    (h : s.Exact M cfg win os) (h' : s.Exact M cfg win os') : os.length = os'.length := by
  rcases h with ⟨m, hm, hwin, hcounts⟩ | ⟨rfl, hheld⟩
  · rcases h' with ⟨m', hm', -, hcounts'⟩ | ⟨-, hheld'⟩
    · obtain rfl := Option.some.inj (hm.symm.trans hm')
      exact hcounts.n.symm.trans hcounts'.n
    · exact absurd (by rw [window, hm, Option.map_some, hwin]) hheld'
  · rcases h' with ⟨m', hm', hwin', -⟩ | ⟨rfl, -⟩
    · exact absurd (by rw [window, hm', Option.map_some, hwin']) hheld
    · rfl

/-- **DNS windows survive when they are not interrupted**: for any observations and timers that are not late,
and the last observation of a window, the counts then held are those of all observations of the window, and
its findings are raised once, exactly when no observation of another window came between two of its own. -/
theorem dns_windows_survive_iff (M : Maths) (cfg : DnsConfig) (info : ModelInfo) (key src : String)
    (earlier later : List (Call DnsObs)) (now : Int) (o : DnsObs)
    (htimely : Timely DnsObs.obsMs (earlier ++ .event now o :: later))
    (hlast : ∀ e ∈ elements later, e.window cfg ≠ o.window cfg) :
    DomainSurvives M cfg info key (o.window cfg) (earlier ++ [.event now o]) later ∧
      BurstSurvives cfg src (o.window cfg) (earlier ++ [.event now o]) later ↔
    Uninterrupted (fun e => e.window cfg = o.window cfg) (elements (earlier ++ .event now o :: later)) := by
  obtain ⟨before, since, rfl, hsince, hbefore⟩ :=
    exists_split (fun e : DnsObs => some (e.window cfg)) (o.window cfg) earlier
  have hcalls : ∀ e ∈ elements (since ++ [.event now o]), e.window cfg = o.window cfg := by
    intro e he
    rw [elements_append] at he
    rcases List.mem_append.1 he with he | he
    · exact Option.some.inj ((hsince e he).resolve_left fun h => nomatch h)
    · rw [List.mem_singleton.1 he]
  have htimers : ∀ now' ts, .timer now' ts ∈ since ++ [.event now o] →
      ts ≤ (o.window cfg + 1) * cfg.dnsWindowMs := by
    intro now' ts ht
    exact (htimely.timers now' ts ht).trans (le_of_lt (Int.lt_ediv_add_one_mul_self _ cfg.divisors_pos.1))
  have hsplit : elements (before ++ since ++ .event now o :: later) =
      elements before ++ elements (since ++ [.event now o]) ++ elements later := by
    rw [← elements_append, ← elements_append]
    simp
  have hne : elements (since ++ [.event now o]) ≠ [] := by
    rw [elements_append]
    exact List.append_ne_nil_of_right_ne_nil _ (List.cons_ne_nil o [])
  rw [hsplit, uninterrupted_iff ?_ hcalls hne hlast, List.append_assoc before]
  · constructor
    · rintro ⟨hdomain, -⟩
      have hexact := (domain_window_run M cfg info key
        ((domainTumbling M cfg info key).held_of_other hbefore) hcalls htimers).1
      have hlength := hexact.length_eq hdomain.counts
      rw [observed_append, observed_append, observed_eq_elements hcalls, observed_eq_nil.2 hlast,
        List.append_nil, List.length_append] at hlength
      exact observed_eq_nil.1 (List.length_eq_zero_iff.1 (by omega))
    · exact fun hnone => ⟨domain_survives M cfg info key hnone hcalls hlast htimers,
        burst_survives cfg src hnone hcalls hlast htimers⟩
  · rcases hbefore with rfl | ⟨init, now', e, v, rfl, hslot, hne⟩
    · exact .inl rfl
    · refine .inr ⟨elements init, e, elements_append .., fun heq => hne ?_⟩
      exact (Option.some.inj hslot).symm.trans heq

theorem dns_windows_survive_sample :
    DomainSurvives sampleMaths sampleDns sampleInfo "10.10.1.20|q7x2.example" 1
        ([.event 0 (sampleQuery "c" 59000 none), .event 0 (sampleQuery "aa" 60000 none)] ++
          [.event 0 (sampleQuery "b" 61000 none)]) [] ∧
      BurstSurvives sampleDns "10.10.1.20" 1
        ([.event 0 (sampleQuery "c" 59000 none), .event 0 (sampleQuery "aa" 60000 none)] ++
          [.event 0 (sampleQuery "b" 61000 none)]) [] := by
  refine (dns_windows_survive_iff sampleMaths sampleDns sampleInfo "10.10.1.20|q7x2.example" "10.10.1.20"
    [.event 0 (sampleQuery "c" 59000 none), .event 0 (sampleQuery "aa" 60000 none)] [] 0
    (sampleQuery "b" 61000 none) (.of_no_timer (by simp)) (by decide)).2 ?_
  exact (uninterrupted_iff (.inr ⟨[], sampleQuery "c" 59000 none, rfl, by decide +kernel⟩)
    (by decide +kernel : ∀ e ∈ [sampleQuery "aa" 60000 none, sampleQuery "b" 61000 none],
      e.window sampleDns = (sampleQuery "b" 61000 none).window sampleDns) (List.cons_ne_nil _ _)
    (List.forall_mem_nil _)).2 (by decide +kernel)

/-- No observation is behind an earlier one by more than `out_of_orderness_ms`. -/
def WithinAllowance (os : List DnsObs) : Prop := os.Pairwise fun a b => a.obsMs ≤ b.obsMs + 2000

/-- Two queries of a minute, and between them one of the minute before, a second late. -/
def sampleLateQuery : List (Call DnsObs) :=
  [.event 0 (sampleQuery "aa" 60000 (some (9 / 10))), .event 0 (sampleQuery "c" 59000 none)]

/-- A late observation of the window before wipes a window. -/
theorem dns_windows_wiped : ¬ ∀ (earlier later : List (Call DnsObs)) (now : Int) (o : DnsObs),
    WithinAllowance (elements (earlier ++ .event now o :: later)) →
    Timely DnsObs.obsMs (earlier ++ .event now o :: later) →
    (∀ e ∈ elements later, e.window sampleDns ≠ o.window sampleDns) →
      DomainSurvives sampleMaths sampleDns sampleInfo "10.10.1.20|q7x2.example" (o.window sampleDns)
          (earlier ++ [.event now o]) later ∧
        BurstSurvives sampleDns "10.10.1.20" (o.window sampleDns) (earlier ++ [.event now o]) later := by
  intro hall
  obtain ⟨hdomain, -⟩ := hall sampleLateQuery [] 0 (sampleQuery "b" 60500 (some (9 / 10)))
    (by unfold WithinAllowance; decide +kernel)
    (.of_no_timer (by simp [sampleLateQuery])) (by decide)
  exact absurd hdomain.once (by decide +kernel)

end OTS.Detect
