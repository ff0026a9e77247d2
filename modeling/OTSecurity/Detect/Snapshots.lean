import Mathlib.Data.Set.Function
import OTSecurity.Detect.Ddos
import OTSecurity.Detect.DnsWindows
import OTSecurity.Detect.ExfilRuns
import OTSecurity.Detect.Scan
import OTSecurity.Detect.TlsTrigger
import OTSecurity.Lib.Ration

/-!
# Feature snapshots

The identities of the feature records that a detector emits for one key: `rate_limited` keeps their times
apart as long as the state lives in which it keeps the last one.

* `Emitted.snapshot` — the time of a feature record; `Snaps` — what one event may emit.
* `KeepsSnapshots` — no two feature records share their identity, in every run that does not revisit.

Principal results: `Snapshots.keeps` — what events may emit makes it so; `feature_ids_distinct` — all
detectors.
-/

namespace OTS.Detect

/-! ## Records and their identities -/

/-- The time of a feature record. -/
def Emitted.snapshot : Emitted → Option Int
  | .out _ => none
  | .feature r => some r.windowEnd

def Emitted.featureId : Emitted → Option String
  | .out _ => none
  | .feature r => some r.featureRecordId

/-- What `uuid5` is given. -/
def featureName (detector entityType key : String) (t : Int) : String :=
  joinName [detector, entityType, key, toString t]

/-- The names of the feature records of a run. -/
def featureNames (detector entityType key : String) (out : List Emitted) : Set String :=
  {n | ∃ t ∈ out.filterMap Emitted.snapshot, n = featureName detector entityType key t}

/-- The feature records are of this detector and this entity. -/
def Named (detector entityType key : String) (out : List Emitted) : Prop :=
  ∀ r, Emitted.feature r ∈ out → r.featureRecordId = featureRecordId detector entityType key r.windowEnd

theorem Named.append {detector entityType key : String} {out more : List Emitted}
    (h : Named detector entityType key out) (hmore : Named detector entityType key more) :
    Named detector entityType key (out ++ more) :=
  fun r hr => (List.mem_append.1 hr).elim (h r) (hmore r)

/-- The identities are those of the times. -/
theorem featureIds_eq {detector entityType key : String} {out : List Emitted}
    (hnamed : Named detector entityType key out) : out.filterMap Emitted.featureId =
      (out.filterMap Emitted.snapshot).map (featureRecordId detector entityType key) := by
  induction out with
  | nil => rfl
  | cons e out ih =>
    have ih := ih fun r hr => hnamed r (List.mem_cons_of_mem _ hr)
    cases e with
    | out f => exact ih
    | feature r =>
      show r.featureRecordId :: _ = featureRecordId detector entityType key r.windowEnd :: _
      rw [hnamed r List.mem_cons_self]
      exact congrArg _ ih

/-- Records of different times have different identities. -/
theorem featureIds_nodup {detector entityType key : String} {out : List Emitted}
    (hnamed : Named detector entityType key out)
    (huuid : Set.InjOn (uuid5 (NAMESPACES .feature)) (featureNames detector entityType key out))
    (htimes : (out.filterMap Emitted.snapshot).Nodup) : (out.filterMap Emitted.featureId).Nodup := by
  rw [featureIds_eq hnamed]
  refine (List.nodup_map_iff_inj_on htimes).2 ?_
  intro t ht u hu hid
  have hname := huuid ⟨t, ht, rfl⟩ ⟨u, hu, rfl⟩ hid
  have hne : [some detector, some entityType, some key] ≠ [] := List.cons_ne_nil _ _
  exact (joinName_int_inj hne hne hname).2

/-! ## What an event may emit -/

/-- An event of the time `t` emits a feature record of this time, or none, as the limit allows. -/
def Snaps (detector entityType key : String) (t interval : Int) (kept kept' : Option Int)
    (out : List Emitted) : Prop :=
  Ration t interval kept kept' (out.filterMap Emitted.snapshot) ∧ Named detector entityType key out

/-- Only findings are emitted. -/
def AllFindings (out : List Emitted) : Prop := ∀ e ∈ out, ∃ f, e = .out f

theorem AllFindings.nil : AllFindings [] := fun _ h => nomatch h

theorem AllFindings.one (f : Finding) : AllFindings [.out f] := fun _ h => ⟨f, List.mem_singleton.1 h⟩

theorem AllFindings.append {out more : List Emitted} (h : AllFindings out) (hmore : AllFindings more) :
    AllFindings (out ++ more) := fun e he => (List.mem_append.1 he).elim (h e) (hmore e)

theorem AllFindings.snapshot {out : List Emitted} (h : AllFindings out) :
    out.filterMap Emitted.snapshot = [] := by
  apply List.filterMap_eq_nil_iff.2
  intro e he
  obtain ⟨f, rfl⟩ := h e he
  rfl

theorem AllFindings.named {detector entityType key : String} {out : List Emitted} (h : AllFindings out) :
    Named detector entityType key out := by
  intro r hr
  obtain ⟨f, hf⟩ := h _ hr
  cases hf

theorem AllFindings.snaps {detector entityType key : String} {t interval : Int} {kept : Option Int}
    {out : List Emitted} (h : AllFindings out) : Snaps detector entityType key t interval kept kept out :=
  ⟨.inl ⟨h.snapshot, rfl⟩, h.named⟩

/-- What the limit gives. -/
theorem limit_cases (due : Prop) [Decidable due] (kept : Option Int) (t interval : Int) :
    (if due then rateLimited kept t interval else (false, kept)) = (false, kept) ∨
      (if due then rateLimited kept t interval else (false, kept)) = (true, some t) ∧
        ∀ u ∈ kept, u + interval ≤ t := by
  split
  · unfold rateLimited
    cases kept with
    | none => exact .inr ⟨rfl, fun u hu => nomatch hu⟩
    | some u =>
      simp only
      split
      · exact .inl rfl
      · refine .inr ⟨rfl, fun u' hu => ?_⟩
        obtain rfl := Option.some.inj hu
        omega
  · exact .inl rfl

/-- Findings, and a feature record if the limit allows it. -/
theorem AllFindings.snaps_limited {detector entityType key : String} {t interval : Int}
    {kept : Option Int} {findings : List Emitted} (h : AllFindings findings) (due : Prop) [Decidable due]
    {r : FeatureRecord} (htime : r.windowEnd = t)
    (hid : r.featureRecordId = featureRecordId detector entityType key t) :
    Snaps detector entityType key t interval kept
      (if due then rateLimited kept t interval else (false, kept)).2 (findings ++
        if (if due then rateLimited kept t interval else (false, kept)).1 then [.feature r] else []) := by
  rcases limit_cases due kept t interval with hlimit | ⟨hlimit, hold⟩
  · rw [hlimit, if_neg Bool.false_ne_true, List.append_nil]
    exact h.snaps
  · rw [hlimit, if_pos rfl]
    constructor
    · refine .inr ⟨?_, rfl, hold⟩
      rw [List.filterMap_append, h.snapshot, List.nil_append]
      exact congrArg (fun t => [t]) htime
    · refine h.named.append fun r' hr' => ?_
      cases List.mem_singleton.1 hr'
      rw [htime]
      exact hid

/-- The same where a record is always due. -/
theorem AllFindings.snaps_rated {detector entityType key : String} {t interval : Int}
    {kept : Option Int} {findings : List Emitted} (h : AllFindings findings) {r : FeatureRecord}
    (htime : r.windowEnd = t) (hid : r.featureRecordId = featureRecordId detector entityType key t) :
    Snaps detector entityType key t interval kept (rateLimited kept t interval).2
      (findings ++ if (rateLimited kept t interval).1 then [.feature r] else []) := by
  have hlimited := @snaps_limited detector entityType key t interval kept findings h True _ r htime hid
  rwa [if_pos trivial] at hlimited

/-! ## Runs -/

/-- Each event of a logic emits what it may, and timers emit nothing. -/
structure Snapshots {ε σ : Type} (L : Logic ε σ Emitted) (detector entityType key : String)
    (restarts : Option σ → ε → Bool) (obs : ε → Int) (interval : Int) (memory : σ → Option Int) : Prop where
  event : ∀ now v e, Snaps detector entityType key (obs e) interval
    (if restarts v e then none else v.bind memory) ((L.onEvent now v e).value.bind memory)
    (L.onEvent now v e).out
  timer : ∀ now v ts, (L.onTimer now v ts).out = [] ∧
    ((L.onTimer now v ts).value = none ∨ (L.onTimer now v ts).value.bind memory = v.bind memory)

/-- No two feature records of a run share their identity, if no element has the time of one that the state
no longer carries, and `uuid5` tells their names apart. -/
def KeepsSnapshots {ε σ : Type} (L : Logic ε σ Emitted) (detector entityType key : String)
    (restarts : Option σ → ε → Bool) (obs : ε → Int) : Prop :=
  ∀ calls, L.NoneRevisited restarts obs calls →
    Set.InjOn (uuid5 (NAMESPACES .feature))
      (featureNames detector entityType key (L.emitted none calls)) →
    ((L.emitted none calls).filterMap Emitted.featureId).Nodup

section

variable {ε σ : Type} {L : Logic ε σ Emitted} {detector entityType key : String}
  {restarts : Option σ → ε → Bool} {obs : ε → Int} {interval : Int} {memory : σ → Option Int}

theorem Snapshots.named (h : Snapshots L detector entityType key restarts obs interval memory)
    (calls : List (Call ε)) : Named detector entityType key (L.emitted none calls) := by
  intro r hr
  obtain ⟨v, c, -, hout⟩ := Logic.mem_observe _ hr
  cases c with
  | event now e => exact (h.event now v e).2 r hout
  | timer now ts =>
    rw [show (L.call v (.timer now ts)).out = [] from (h.timer now v ts).1] at hout
    cases hout

/-- **Feature records keep their identities apart** when each event emits what it may. -/
theorem Snapshots.keeps (h : Snapshots L detector entityType key restarts obs interval memory)
    (hpos : 0 < interval) : KeepsSnapshots L detector entityType key restarts obs := by
  intro calls hnone huuid
  have hrations : L.Rations restarts obs Emitted.snapshot interval memory := by
    constructor
    · exact fun now v e => (h.event now v e).1
    · intro now v ts
      obtain ⟨hout, hvalue⟩ := h.timer now v ts
      exact ⟨by rw [hout]; rfl, hvalue⟩
  exact featureIds_nodup (h.named calls) huuid (hrations.nodup hpos calls hnone)

end

/-- The same for one key of a keyed logic. -/
theorem snapshots_single {ε σ : Type} {L : KeyedLogic String ε σ Emitted} {detector entityType key : String}
    {restarts : Option σ → ε → Bool} {obs : ε → Int} {interval : Int} {memory : σ → Option Int}
    (hempty : memory L.empty = none) (hbare : ∀ s, L.entries s = 0 → memory s = none)
    (hevent : ∀ now v e, Snaps detector entityType key (obs e) interval
      (if restarts v e then none else memory (v.getD L.empty))
      (memory (L.onEvent now key (v.getD L.empty) e).state) (L.onEvent now key (v.getD L.empty) e).out)
    (htimer : ∀ now s ts, (L.onTimer now key s ts).out = [] ∧
      ((L.onTimer now key s ts).state = L.empty ∨ memory (L.onTimer now key s ts).state = memory s)) :
    Snapshots (L.single key) detector entityType key restarts obs interval memory := by
  have hkept : ∀ s, (L.kept s).bind memory = memory s := by
    intro s
    unfold KeyedLogic.kept
    split
    · exact (hbare s ‹_›).symm
    · rfl
  have hget : ∀ v : Option σ, memory (v.getD L.empty) = v.bind memory := by
    intro v
    cases v with
    | none => exact hempty
    | some s => rfl
  constructor
  · intro now v e
    show Snaps _ _ _ _ _ _ ((L.kept _).bind memory) _
    rw [hkept, ← hget]
    exact hevent now v e
  · intro now v ts
    obtain ⟨hout, hstate⟩ := htimer now (v.getD L.empty) ts
    refine ⟨hout, ?_⟩
    show L.kept _ = none ∨ (L.kept _).bind memory = _
    rw [hkept, ← hget]
    rcases hstate with hclear | hsame
    · rw [hclear]
      exact .inl KeyedLogic.kept_empty
    · exact .inr hsame

/-! ## The detectors -/

variable {M : Maths} {inv : Inventory} {key : String}

/-- No state is begun anew but when there is none. -/
def neverRestarts {ε σ : Type} : Option σ → ε → Bool := fun _ _ => false

/-- A timer clears the state or leaves it. -/
def TimerKeeps {σ : Type} (v : Option σ) (r : Effect σ Emitted) : Prop := r = ⟨none, [], []⟩ ∨ r = ⟨v, [], []⟩

theorem TimerKeeps.timer {σ : Type} {memory : σ → Option Int} {v : Option σ} {r : Effect σ Emitted}
    (h : TimerKeeps v r) : r.out = [] ∧ (r.value = none ∨ r.value.bind memory = v.bind memory) := by
  rcases h with rfl | rfl
  · exact ⟨rfl, .inl rfl⟩
  · exact ⟨rfl, .inr rfl⟩

theorem beacon_report_snaps (cfg : DetectConfig) (b : BeaconState) (now : Int) (d : Delta)
    (x : BeaconStats) (cv : Rat) :
    Snaps "beacon" "service_pair" key d.obsMs cfg.featureMinIntervalMs b.lastFeatureMs
      (b.report cfg inv key now d x cv).1.lastFeatureMs (b.report cfg inv key now d x cv).2 := by
  have hkept : ∀ (raise : Bool) (rank : Int) (n : Nat),
      (if raise then { b with rank := rank, emittedN := n } else b).lastFeatureMs = b.lastFeatureMs := by
    intro raise rank n
    cases raise <;> rfl
  unfold BeaconState.report
  simp only [hkept]
  refine AllFindings.snaps_rated ?_ rfl rfl
  split
  · exact .one _
  · exact .nil

theorem beacon_snapshots (cfg : DetectConfig) :
    Snapshots (beaconLogic cfg inv key) "beacon" "service_pair" key neverRestarts Delta.obsMs
      cfg.featureMinIntervalMs BeaconState.lastFeatureMs where
  event := by
    intro now v d
    show Snaps _ _ _ _ _ (v.bind BeaconState.lastFeatureMs)
      ((beaconOnEvent cfg inv key now v d).value.bind BeaconState.lastFeatureMs)
      (beaconOnEvent cfg inv key now v d).out
    have hkept : ((v.getD (.fresh d)).insert cfg d).lastFeatureMs = v.bind BeaconState.lastFeatureMs := by
      cases v <;> rfl
    unfold beaconOnEvent
    simp only
    split
    · exact AllFindings.nil.snaps
    · rw [← hkept]
      split
      · exact beacon_report_snaps ..
      · exact AllFindings.nil.snaps
  timer := by
    intro now v ts
    apply TimerKeeps.timer
    show TimerKeeps v (beaconOnTimer v ts)
    unfold beaconOnTimer TimerKeeps
    cases v with
    | none => exact .inl rfl
    | some b =>
      simp only
      split
      · exact .inl rfl
      · exact .inr rfl

theorem closeOne_last (sec : Int) (s : DdosState) (k : Int) :
    (s.closeOne sec k).lastFeatureMs = s.lastFeatureMs := by
  unfold DdosState.closeOne
  split
  · rfl
  · simp only
    split <;> split <;> rfl

theorem closeOld_last (s : DdosState) (sec : Int) : (s.closeOld sec).lastFeatureMs = s.lastFeatureMs := by
  unfold DdosState.closeOld
  generalize ((s.b.keys.insertionSort (· ≤ ·)).takeWhile (· < sec)) = ks
  induction ks generalizing s with
  | nil => rfl
  | cons k ks ih => exact (ih _).trans (closeOne_last ..)

theorem ddos_report_findings (v : DdosView) (cfg : DdosConfig) (s : DdosState) (dst : String) (d : Delta)
    (subtype : String) : AllFindings (v.report cfg M s dst d subtype).2 := by
  unfold DdosView.report
  generalize (if 10 ≤ v.factor cfg subtype then Severity.critical else .high) = severity
  simp only
  split
  · exact .one _
  · exact .nil

theorem ddos_snapshots (M : Maths) (cfg : DdosConfig) (dst : String) :
    Snapshots (ddosLogic M cfg dst) "ddos" "dst_host" dst neverRestarts Delta.obsMs
      cfg.featureMinIntervalMs DdosState.lastFeatureMs where
  event := by
    intro now v d
    show Snaps _ _ _ _ _ (v.bind DdosState.lastFeatureMs)
      ((ddosOnEvent M cfg dst now v d).value.bind DdosState.lastFeatureMs)
      (ddosOnEvent M cfg dst now v d).out
    have hkept : ((v.getD (.fresh d)).add M d).1.lastFeatureMs = v.bind DdosState.lastFeatureMs := by
      cases v
      · exact closeOld_last ..
      · exact closeOld_last ..
    rw [← hkept]
    unfold ddosOnEvent
    simp only
    generalize (v.getD (.fresh d)).add M d = added
    cases (added.1.view M cfg added.2 (d.obsMs / 1000)).subtype cfg with
    | none => exact AllFindings.nil.snaps_limited _ rfl rfl
    | some subtype => exact AllFindings.snaps_limited (ddos_report_findings _ cfg _ dst d subtype) _ rfl rfl
  timer := by
    intro now v ts
    apply TimerKeeps.timer
    show TimerKeeps v (ddosOnTimer cfg v ts)
    unfold ddosOnTimer TimerKeeps
    cases v with
    | none => exact .inl rfl
    | some s =>
      simp only
      split
      · exact .inl rfl
      · exact .inr rfl

theorem encrypted_snapshots (cfg : DetectConfig) :
    Snapshots (encryptedLogic cfg inv key) "encrypted" "service_pair" key (tlsRestarts cfg) TlsEvent.obsMs
      cfg.featureMinIntervalMs TlsState.lastFeatureMs where
  event := by
    intro now v ev
    show Snaps _ _ _ _ _ (if tlsRestarts cfg v ev then none else v.bind TlsState.lastFeatureMs)
      ((encryptedOnEvent cfg inv key now v ev).value.bind TlsState.lastFeatureMs)
      (encryptedOnEvent cfg inv key now v ev).out
    have hadd : ∀ (s : TlsState) ind, (s.add cfg ev ind).lastFeatureMs = s.lastFeatureMs := by
      intro s ind
      unfold TlsState.add
      cases scoreOf cfg ind with
      | none => rfl
      | some score =>
        simp only
        split <;> rfl
    have hcurrent : (TlsState.current cfg v ev).lastFeatureMs =
        if tlsRestarts cfg v ev then none else v.bind TlsState.lastFeatureMs := by
      unfold TlsState.current tlsRestarts
      cases v with
      | none => rfl
      | some s =>
        simp only [decide_eq_true_eq]
        split <;> rfl
    have hrank : ∀ (raise : Bool) (s : TlsState) (rank : Int),
        (if raise then { s with rank := rank } else s).lastFeatureMs = s.lastFeatureMs := by
      intro raise s rank
      cases raise <;> rfl
    have hfindings : ∀ (raise : Bool) (f : Finding), AllFindings (if raise then [Emitted.out f] else []) := by
      intro raise f
      cases raise
      · exact .nil
      · exact .one f
    unfold encryptedOnEvent
    rw [← hcurrent]
    simp only
    generalize indicators ev.p ev.a (!inv.isLocal ev.p.dstIp) = ind
    rw [← hadd (TlsState.current cfg v ev) ind]
    generalize (TlsState.current cfg v ev).add cfg ev ind = s
    cases (scoreOf cfg ind).filter (cfg.tlsMinScore / 2 ≤ ·) with
    | none =>
      simp only [List.append_nil, Option.bind_some, hrank]
      exact AllFindings.snaps (hfindings _ _)
    | some score =>
      simp only [Option.bind_some, hrank]
      exact AllFindings.snaps_rated (hfindings _ _) rfl rfl
  timer := by
    intro now v ts
    apply TimerKeeps.timer
    show TimerKeeps v (encryptedOnTimer cfg v ts)
    unfold encryptedOnTimer TimerKeeps
    cases v with
    | none => exact .inl rfl
    | some s =>
      simp only
      split
      · exact .inl rfl
      · exact .inr rfl

/-- The state is of another window than the query. -/
def domainRestarts (cfg : DnsConfig) (v : Option DomainState) (o : DnsObs) : Bool :=
  (v.bind (·.m)).any (·.win ≠ o.obsMs / cfg.dnsWindowMs)

theorem domain_snapshots (M : Maths) (cfg : DnsConfig) (info : ModelInfo) :
    Snapshots ((dnsDomainLogic M cfg info).single key) "dns" "src_domain" key (domainRestarts cfg)
      DnsObs.obsMs cfg.featureMinIntervalMs fun s => s.m.bind (·.lastFeatureMs) := by
  apply snapshots_single
  · rfl
  · intro s hbare
    have hboth : (if s.m.isSome then 1 else 0) + s.labels.length = 0 := hbare
    cases hm : s.m with
    | none => rfl
    | some m =>
      rw [hm] at hboth
      exact absurd hboth (by simp)
  · intro now v o
    show Snaps _ _ _ _ _ (if domainRestarts cfg v o then none else (v.getD ⟨none, .empty⟩).m.bind _)
      ((domainOnEvent M cfg info now key (v.getD ⟨none, .empty⟩) o).state.m.bind _)
      (domainOnEvent M cfg info now key (v.getD ⟨none, .empty⟩) o).out
    have hcurrent : ((v.getD ⟨none, .empty⟩).current (o.obsMs / cfg.dnsWindowMs) o).1.lastFeatureMs =
        if domainRestarts cfg v o then none
        else (v.getD ⟨none, .empty⟩).m.bind (·.lastFeatureMs) := by
      unfold DomainState.current domainRestarts
      cases v with
      | none => rfl
      | some s =>
        cases hm : s.m with
        | none => simp [hm, DomainInfo.fresh]
        | some m =>
          simp only [Option.getD_some, hm, Option.bind_some, Option.any_some, decide_eq_true_eq]
          split <;> simp_all [DomainInfo.fresh]
    have hlabel : ∀ (m : DomainInfo) labels,
        (m.label M cfg labels o.sub).1.lastFeatureMs = m.lastFeatureMs := by
      intro m labels
      unfold DomainInfo.label
      cases o.sub with
      | none => rfl
      | some sub =>
        simp only
        split
        · rfl
        · split <;> rfl
    have htunnel : ∀ m : DomainInfo, (m.reportTunnel cfg key o).1.lastFeatureMs = m.lastFeatureMs ∧
        AllFindings (m.reportTunnel cfg key o).2 := by
      intro m
      unfold DomainInfo.reportTunnel
      simp only
      split
      · exact ⟨rfl, .one _⟩
      · exact ⟨rfl, .nil⟩
    have hdga : ∀ m : DomainInfo, (m.reportDga cfg key o info).1.lastFeatureMs = m.lastFeatureMs ∧
        AllFindings (m.reportDga cfg key o info).2 := by
      intro m
      unfold DomainInfo.reportDga
      generalize (if o.nx = true then Severity.medium else .low) = severity
      cases o.p with
      | none => exact ⟨rfl, .nil⟩
      | some p =>
        simp only
        split
        · exact ⟨rfl, .one _⟩
        · exact ⟨rfl, .nil⟩
    unfold domainOnEvent
    rw [← hcurrent]
    simp only
    generalize (v.getD ⟨none, .empty⟩).current (o.obsMs / cfg.dnsWindowMs) o = current
    have hcount : (current.1.count o).lastFeatureMs = current.1.lastFeatureMs := rfl
    rw [← hcount, ← hlabel (current.1.count o) current.2]
    generalize (current.1.count o).label M cfg current.2 o.sub = labelled
    have hrecord : (labelled.1.record o).lastFeatureMs = labelled.1.lastFeatureMs := rfl
    obtain ⟨hkeptT, houtT⟩ := htunnel (labelled.1.record o)
    obtain ⟨hkeptD, houtD⟩ := hdga ((labelled.1.record o).reportTunnel cfg key o).1
    rw [← hrecord, ← hkeptT, ← hkeptD]
    exact AllFindings.snaps_limited (houtT.append houtD) _ rfl rfl
  · intro now s ts
    show (domainOnTimer cfg s ts).out = [] ∧ ((domainOnTimer cfg s ts).state = ⟨none, .empty⟩ ∨
      (domainOnTimer cfg s ts).state.m.bind _ = s.m.bind _)
    unfold domainOnTimer
    split
    · exact ⟨rfl, .inr rfl⟩
    · split
      · exact ⟨rfl, .inl rfl⟩
      · exact ⟨rfl, .inr rfl⟩

theorem exfil_snapshots (M : Maths) (cfg : ExfilConfig) (src : String) :
    Snapshots (exfilOf M cfg inv src) "exfil" "src_host" src neverRestarts (·.val.obsMs)
      cfg.featureMinIntervalMs fun s => s.x.bind (·.lastFeatureMs) := by
  apply snapshots_single
  · rfl
  · intro s hbare
    rw [exfil_bare s hbare]
    rfl
  · intro now v d
    show Snaps _ _ _ _ _ ((v.getD ⟨none, .empty⟩).x.bind _)
      ((exfilOnEvent M cfg now src (v.getD ⟨none, .empty⟩) d.val).state.x.bind _)
      (exfilOnEvent M cfg now src (v.getD ⟨none, .empty⟩) d.val).out
    have hfindings : AllFindings (exfilJudged M cfg src (v.getD ⟨none, .empty⟩) d.val).2 := by
      intro e he
      obtain ⟨x, hx⟩ := (exfilJudged_spec M cfg src (v.getD ⟨none, .empty⟩) d.val).2.2.2 e he
      exact ⟨_, hx⟩
    rw [exfilOnEvent_eq]
    simp only [Option.bind_some]
    unfold exfilLimit
    exact hfindings.snaps_limited _ rfl rfl
  · intro now s ts
    show (exfilOnTimer s ts).out = [] ∧ ((exfilOnTimer s ts).state = ⟨none, .empty⟩ ∨
      (exfilOnTimer s ts).state.x.bind _ = s.x.bind _)
    unfold exfilOnTimer
    split
    · exact ⟨rfl, .inr rfl⟩
    · split
      · exact ⟨rfl, .inl rfl⟩
      · exact ⟨rfl, .inr rfl⟩

theorem scan_run_spec (cfg : ScanConfig) (src : String) (d : Delta) (cs : List ScanCheck)
    (r : ScanMeta × List Emitted) (h : AllFindings r.2) :
    (cs.foldl (ScanCheck.run cfg inv src d) r).1.lastFeatureMs = r.1.lastFeatureMs ∧
      AllFindings (cs.foldl (ScanCheck.run cfg inv src d) r).2 := by
  induction cs generalizing r with
  | nil => exact ⟨rfl, h⟩
  | cons c cs ih =>
    have hone : (ScanCheck.run cfg inv src d r c).1.lastFeatureMs = r.1.lastFeatureMs ∧
        AllFindings (ScanCheck.run cfg inv src d r c).2 := by
      unfold ScanCheck.run
      simp only
      split
      · exact ⟨rfl, h⟩
      · exact ⟨rfl, h.append (.one _)⟩
    obtain ⟨hlast, hall⟩ := ih _ hone.2
    exact ⟨hlast.trans hone.1, hall⟩

theorem contact_last (cfg : ScanConfig) (t : ScanTables) (m : ScanMeta) (d : Delta) :
    (t.contact cfg m d).1.lastFeatureMs = m.lastFeatureMs := by
  unfold ScanTables.contact
  split
  · rfl
  · split <;> rfl

theorem expire_last (t : ScanTables) (m : ScanMeta) (cutoff : Int) :
    (t.expire m cutoff).1.lastFeatureMs = m.lastFeatureMs := by
  unfold ScanTables.expire
  generalize (t.pairs.entries.filter fun e => e.2 < cutoff).map (·.1) = pairs
  suffices ∀ r : ScanMeta × ScanTables, (pairs.foldl dropPair r).1.lastFeatureMs = r.1.lastFeatureMs from
    this (m, t)
  induction pairs with
  | nil => exact fun r => rfl
  | cons pair pairs ih => exact fun r => ih (dropPair r pair)

theorem scan_snapshots (cfg : ScanConfig) (src : String) :
    Snapshots ((scanLogic cfg inv).single src) "scan" "src_host" src neverRestarts Delta.obsMs
      cfg.featureMinIntervalMs fun s => s.info.bind (·.lastFeatureMs) := by
  apply snapshots_single
  · rfl
  · intro s hbare
    have hall : (if s.info.isSome then 1 else 0) + s.tables.pairs.length + s.tables.portHosts.length +
      s.tables.hostPorts.length = 0 := hbare
    cases hinfo : s.info with
    | none => rfl
    | some m =>
      rw [hinfo] at hall
      exact absurd hall (by simp)
  · intro now v d
    show Snaps _ _ _ _ _ ((v.getD ⟨none, .empty⟩).info.bind _)
      ((scanOnEvent cfg inv now src (v.getD ⟨none, .empty⟩) d).state.info.bind _)
      (scanOnEvent cfg inv now src (v.getD ⟨none, .empty⟩) d).out
    generalize v.getD ⟨none, .empty⟩ = s
    unfold scanOnEvent
    split
    · exact AllFindings.nil.snaps
    · have hfresh : (s.info.getD (.fresh d)).lastFeatureMs = s.info.bind (·.lastFeatureMs) := by
        cases s.info <;> rfl
      rw [← hfresh, ← contact_last cfg s.tables]
      simp only
      generalize s.tables.contact cfg (s.info.getD (.fresh d)) d = contacted
      have hrecord : (contacted.1.record d).lastFeatureMs = contacted.1.lastFeatureMs := rfl
      generalize scanChecks cfg d ((contacted.2.portHosts.get? d.portKey).getD 0)
        ((contacted.2.hostPorts.get? d.dst).getD 0) = checks
      obtain ⟨hkept, hfindings⟩ := @scan_run_spec inv cfg src d checks (contacted.1.record d, []) .nil
      rw [← hrecord, ← hkept]
      exact hfindings.snaps_limited _ rfl rfl
  · intro now s ts
    show (scanOnTimer cfg s ts).out = [] ∧ ((scanOnTimer cfg s ts).state = ⟨none, .empty⟩ ∨
      (scanOnTimer cfg s ts).state.info.bind _ = s.info.bind _)
    unfold scanOnTimer
    cases hinfo : s.info with
    | none => exact ⟨rfl, .inr (by rw [hinfo])⟩
    | some m =>
      simp only
      split
      · exact ⟨rfl, .inl rfl⟩
      · exact ⟨rfl, .inr (expire_last s.tables m (ts - cfg.scanHorizonMs))⟩

/-! ## All detectors -/

/-- **No two feature records of a key share their identity**, in every run in which no event has the time
of one that the state no longer carries. -/
theorem feature_ids_distinct (M : Maths) (inv : Inventory) (info : ModelInfo) (key : String)
    (detect : DetectConfig) (ddos : DdosConfig) (dns : DnsConfig) (exfil : ExfilConfig) (scan : ScanConfig)
    (hdetect : 0 < detect.featureMinIntervalMs) (hddos : 0 < ddos.featureMinIntervalMs)
    (hdns : 0 < dns.featureMinIntervalMs) (hexfil : 0 < exfil.featureMinIntervalMs)
    (hscan : 0 < scan.featureMinIntervalMs) :
    KeepsSnapshots (beaconLogic detect inv key) "beacon" "service_pair" key neverRestarts Delta.obsMs ∧
      KeepsSnapshots (encryptedLogic detect inv key) "encrypted" "service_pair" key (tlsRestarts detect)
        TlsEvent.obsMs ∧
      KeepsSnapshots (ddosLogic M ddos key) "ddos" "dst_host" key neverRestarts Delta.obsMs ∧
      KeepsSnapshots ((dnsDomainLogic M dns info).single key) "dns" "src_domain" key (domainRestarts dns)
        DnsObs.obsMs ∧
      KeepsSnapshots ((exfilLogic M exfil inv).single key) "exfil" "src_host" key neverRestarts
        (·.val.obsMs) ∧
      KeepsSnapshots ((scanLogic scan inv).single key) "scan" "src_host" key neverRestarts Delta.obsMs := by
  refine ⟨?_, ?_, ?_, ?_, ?_, ?_⟩
  · exact (beacon_snapshots detect).keeps hdetect
  · exact (encrypted_snapshots detect).keeps hdetect
  · exact (ddos_snapshots M ddos key).keeps hddos
  · exact (domain_snapshots M dns info).keeps hdns
  · exact (exfil_snapshots M exfil key).keeps hexfil
  · exact (scan_snapshots scan key).keeps hscan

/-- Two queries in one window, five seconds apart. -/
def sampleSnapshots : List (Call DnsObs) :=
  [.event 0 (sampleQuery "aa" 50000 (some (9 / 10))), .event 0 (sampleQuery "b" 55000 (some (9 / 10)))]

theorem sampleSnapshots_times :
    (((dnsDomainLogic sampleMaths {} sampleInfo).single "10.10.1.20|q7x2.example").emitted none
      sampleSnapshots).filterMap Emitted.snapshot = [50000, 55000] := by decide +kernel

theorem feature_ids_distinct_sample :
    ((((dnsDomainLogic sampleMaths {} sampleInfo).single "10.10.1.20|q7x2.example").emitted none
      sampleSnapshots).filterMap Emitted.featureId).Nodup := by
  refine (feature_ids_distinct sampleMaths sampleInventory sampleInfo "10.10.1.20|q7x2.example" {} {} {} {} {}
    (by decide) (by decide) (by decide) (by decide) (by decide)).2.2.2.1 sampleSnapshots ?_ ?_
  · exact Logic.noneRevisited_of_nodup (by decide +kernel)
  · unfold featureNames
    rw [sampleSnapshots_times]
    rintro n ⟨t, ht, rfl⟩ m ⟨u, hu, rfl⟩ hid
    have huuid : ∀ t ∈ [50000, 55000], ∀ u ∈ [50000, 55000],
        featureRecordId "dns" "src_domain" "10.10.1.20|q7x2.example" t =
          featureRecordId "dns" "src_domain" "10.10.1.20|q7x2.example" u → t = u := by decide +kernel
    rw [huuid t ht u hu hid]

/-- A query at the end of a window, one of the next window, and the first once more. -/
def sampleRevisit : List (Call DnsObs) :=
  [.event 0 (sampleQuery "aa" 59999 (some (9 / 10))), .event 0 (sampleQuery "b" 60000 none),
    .event 0 (sampleQuery "aa" 59999 (some (9 / 10)))]

theorem sampleRevisit_times :
    (((dnsDomainLogic sampleMaths {} sampleInfo).single "10.10.1.20|q7x2.example").emitted none
      sampleRevisit).filterMap Emitted.snapshot = [59999, 59999] := by decide +kernel

/-- A window is revisited, and its state no longer knows of the first record. -/
theorem feature_ids_coincide : ¬ ∀ calls : List (Call DnsObs),
    Set.InjOn (uuid5 (NAMESPACES .feature)) (featureNames "dns" "src_domain" "10.10.1.20|q7x2.example"
      (((dnsDomainLogic sampleMaths {} sampleInfo).single "10.10.1.20|q7x2.example").emitted none calls)) →
    ((((dnsDomainLogic sampleMaths {} sampleInfo).single "10.10.1.20|q7x2.example").emitted none
      calls).filterMap Emitted.featureId).Nodup := by
  intro h
  have hnodup := h sampleRevisit ?_
  · rw [featureIds_eq ((domain_snapshots sampleMaths {} sampleInfo).named sampleRevisit),
      sampleRevisit_times] at hnodup
    exact (List.nodup_cons.1 hnodup).1 (List.mem_singleton.2 rfl)
  · unfold featureNames
    rw [sampleRevisit_times]
    rintro n ⟨t, ht, rfl⟩ m ⟨u, hu, rfl⟩ -
    have htime : ∀ t ∈ [59999, 59999], t = (59999 : Int) := by decide
    rw [htime t ht, htime u hu]

end OTS.Detect
