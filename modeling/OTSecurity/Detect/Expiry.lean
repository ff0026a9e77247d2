import Mathlib.Data.String.Basic
import OTSecurity.Detect.Ddos
import OTSecurity.Detect.Dns
import OTSecurity.Detect.Encrypted
import OTSecurity.Detect.Exfil
import OTSecurity.Detect.Scan

/-!
# State expiry

Why the keyed state of each detector goes away.

* `flowDeadlines`, `ddosDeadlines`, `encryptedDeadlines`, `exfilDeadlines`, `domainDeadlines`,
  `burstDeadlines` — the timer that an element registers is at or after the deadline of the state it
  leaves.
* `scanRetention` — the timer of a scan registers the next one for as long as there are pairs.

Principal result: `no_state_left` — none of the seven logics keeps state.
-/

namespace OTS.Detect

theorem lt_bucketUp_int (x : Int) {step : Int} (h : 0 < step) : x < bucketUp x step := by
  exact_mod_cast lt_bucketUp (x : Rat) h

theorem bucketUp_le_int (x : Int) {step : Int} (h : 0 < step) : bucketUp x step ≤ x + step := by
  have hstep : (0 : Rat) < step := by exact_mod_cast h
  have hfloor : (((x : Rat) / step).floor : Rat) * step ≤ x := by
    have := mul_le_mul_of_nonneg_right (Rat.floor_le ((x : Rat) / step)) (le_of_lt hstep)
    rwa [div_mul_cancel₀ _ (ne_of_gt hstep)] at this
  have hint : ((x : Rat) / step).floor * step ≤ x := by exact_mod_cast hfloor
  unfold bucketUp
  rw [add_mul, one_mul]
  omega

/-! ## Flows -/

/-- When a flow state is due to expire. -/
def FlowState.deadline (cfg : FlowConfig) : FlowState → Int
  | .live _ _ lastObs => lastObs + cfg.flowIdleMs
  | .tombstone lastObs => lastObs + cfg.flowTombstoneMs

def flowDelay (cfg : FlowConfig) : Int := max cfg.flowIdleMs cfg.flowTombstoneMs + 10000

theorem flowBucketUp_spec (x : Int) : x ≤ flowBucketUp x ∧ flowBucketUp x ≤ x + 10000 := by
  unfold flowBucketUp
  omega

/-- What a flow event leaves: what there was, or a state with a timer after its deadline. -/
theorem flowOnEvent_timer (cfg : FlowConfig) (key : String) (v : Option FlowState) (ev : FlowEvent) :
    ((flowOnEvent cfg key v ev).value = v ∧ (flowOnEvent cfg key v ev).timers = []) ∨
    ∃ st, (flowOnEvent cfg key v ev).value = some st ∧
      (flowOnEvent cfg key v ev).timers = [flowBucketUp (st.deadline cfg)] ∧
      st.deadline cfg + 10000 ≤ ev.obsMs + flowDelay cfg := by
  have hidle : cfg.flowIdleMs + 10000 ≤ flowDelay cfg := by
    unfold flowDelay
    omega
  have htomb : cfg.flowTombstoneMs + 10000 ≤ flowDelay cfg := by
    unfold flowDelay
    omega
  unfold flowOnEvent
  split
  · exact .inl ⟨rfl, rfl⟩
  · unfold flowNext
    split
    · cases v with
      | none => exact .inl ⟨rfl, rfl⟩
      | some st =>
        refine .inr ⟨_, rfl, rfl, ?_⟩
        simp only [FlowState.deadline]
        omega
    · refine .inr ⟨_, rfl, rfl, ?_⟩
      simp only [FlowState.deadline]
      omega

def flowDeadlines (cfg : FlowConfig) :
    Deadlines (Logic.keyed (flowDeltaLogic cfg)) FlowEvent.obsMs (flowDelay cfg) where
  deadline v := v.map (·.deadline cfg)
  timer := by
    intro now key v ts
    show (flowOnTimer cfg v ts).outcome = _
    cases v with
    | none => rfl
    | some st =>
      cases st <;> simp only [flowOnTimer, Option.map_some, FlowState.deadline] <;> split <;>
        simp_all [Effect.outcome, Logic.keyed]
  event := by
    intro now key v ev
    rcases flowOnEvent_timer cfg key v ev with ⟨hv, ht⟩ | ⟨st, hv, ht, hle⟩
    · exact .inl ⟨hv, ht⟩
    · obtain ⟨hlow, hhigh⟩ := flowBucketUp_spec (st.deadline cfg)
      exact .inr ⟨_, _, congrArg _ hv, ht, hlow, by omega⟩

/-! ## Idle states -/

/-- Every delta leaves a state of its own time. -/
theorem ddosOnEvent_timer (M : Maths) (cfg : DdosConfig) (dst : String) (nowUs : Int)
    (st : Option DdosState) (d : Delta) :
    ∃ s, (ddosOnEvent M cfg dst nowUs st d).value = some s ∧ s.last = d.evidence ∧
      (ddosOnEvent M cfg dst nowUs st d).timers =
        [bucketUp ((d.obsMs + cfg.ddosIdleMs : Int) : Rat) 10000] := by
  refine ⟨_, rfl, ?_, rfl⟩
  simp only
  split <;> rfl

def ddosDeadlines (M : Maths) (cfg : DdosConfig) :
    Deadlines (Logic.keyed (ddosLogic M cfg)) Delta.obsMs (cfg.ddosIdleMs + 10000) where
  deadline v := v.map (·.last.obsMs + cfg.ddosIdleMs)
  timer := by
    intro now dst v ts
    show (ddosOnTimer cfg v ts).outcome = _
    cases v with
    | none => rfl
    | some s =>
      simp only [ddosOnTimer, Option.map_some, Option.some.injEq, exists_eq_left']
      split <;> rfl
  event := by
    intro now dst v d
    obtain ⟨s, hs, hlast, ht⟩ := ddosOnEvent_timer M cfg dst now v d
    have hlow := @lt_bucketUp_int (d.obsMs + cfg.ddosIdleMs) 10000 (by decide)
    have hhigh := @bucketUp_le_int (d.obsMs + cfg.ddosIdleMs) 10000 (by decide)
    refine .inr ⟨_, _, congrArg _ hs, ht, ?_, by omega⟩
    show s.last.obsMs + cfg.ddosIdleMs ≤ _
    exact hlast ▸ le_of_lt hlow

theorem encryptedOnEvent_timer (cfg : DetectConfig) (inv : Inventory) (key : String) (nowUs : Int)
    (v : Option TlsState) (ev : TlsEvent) :
    ∃ s, (encryptedOnEvent cfg inv key nowUs v ev).value = some s ∧ s.last = ev.evidence ∧
      (encryptedOnEvent cfg inv key nowUs v ev).timers =
        [bucketUp ((ev.obsMs + cfg.tlsHorizonMs : Int) : Rat) 60000] := by
  have hadd : ∀ s ind, (TlsState.add s cfg ev ind).last = ev.evidence := by
    intro s ind
    unfold TlsState.add
    simp only
    split
    · rfl
    · split <;> rfl
  have hraise : ∀ (raise : Bool) (s : TlsState) (rank : Int), s.last = ev.evidence →
      (if raise then { s with rank := rank } else s).last = ev.evidence := by
    intro raise s rank hs
    split <;> exact hs
  refine ⟨_, rfl, ?_, rfl⟩
  simp only
  generalize (scoreOf cfg _).filter _ = score
  cases score <;> exact hraise _ _ _ (hadd _ _)

def encryptedDeadlines (cfg : DetectConfig) (inv : Inventory) :
    Deadlines (Logic.keyed (encryptedLogic cfg inv)) TlsEvent.obsMs (cfg.tlsHorizonMs + 60000) where
  deadline v := v.map (·.last.obsMs + cfg.tlsHorizonMs)
  timer := by
    intro now key v ts
    show (encryptedOnTimer cfg v ts).outcome = _
    cases v with
    | none => rfl
    | some s =>
      simp only [encryptedOnTimer, Option.map_some, Option.some.injEq, exists_eq_left']
      split <;> rfl
  event := by
    intro now key v ev
    obtain ⟨s, hs, hlast, ht⟩ := encryptedOnEvent_timer cfg inv key now v ev
    have hlow := @lt_bucketUp_int (ev.obsMs + cfg.tlsHorizonMs) 60000 (by decide)
    have hhigh := @bucketUp_le_int (ev.obsMs + cfg.tlsHorizonMs) 60000 (by decide)
    refine .inr ⟨_, _, congrArg _ hs, ht, ?_, by omega⟩
    show s.last.obsMs + cfg.tlsHorizonMs ≤ _
    exact hlast ▸ le_of_lt hlow

theorem exfilOnEvent_timer (M : Maths) (cfg : ExfilConfig) (nowUs : Int) (src : String)
    (s : ExfilState) (d : Delta) :
    ∃ x, (exfilOnEvent M cfg nowUs src s d).state.x = some x ∧ x.last = d.evidence ∧
      (exfilOnEvent M cfg nowUs src s d).timers = [bucketUp ((d.obsMs + 600000 : Int) : Rat) 60000] := by
  have hremember : ∀ x : ExfilInfo, x.last = d.evidence →
      (ExfilState.remember cfg s.dsts x d).1.last = d.evidence := by
    intro x hx
    unfold ExfilState.remember
    split <;> exact hx
  have hreport : ∀ (v : ExfilView) (x : ExfilInfo), x.last = d.evidence →
      (v.report cfg M x src d).1.last = d.evidence := by
    intro v x hx
    unfold ExfilView.report
    simp only
    split <;> exact hx
  unfold exfilOnEvent
  simp only [Option.some.injEq, exists_eq_left', and_true]
  split
  · exact hreport _ _ (hremember _ rfl)
  · exact hremember _ rfl

def exfilDeadlines (M : Maths) (cfg : ExfilConfig) (inv : Inventory) :
    Deadlines (exfilLogic M cfg inv) (fun d => d.val.obsMs) 660000 where
  deadline s := s.x.map (·.last.obsMs + 600000)
  timer := by
    intro now src s ts
    show exfilOnTimer s ts = _
    unfold exfilOnTimer
    cases hx : s.x with
    | none => rfl
    | some x =>
      simp only [Option.map_some, Option.some.injEq, exists_eq_left']
      split <;> rfl
  event := by
    intro now src s d
    obtain ⟨x, hx, hlast, ht⟩ := exfilOnEvent_timer M cfg now src s d.val
    have hlow := @lt_bucketUp_int (d.val.obsMs + 600000) 60000 (by decide)
    have hhigh := @bucketUp_le_int (d.val.obsMs + 600000) 60000 (by decide)
    refine .inr ⟨_, _, congrArg _ hx, ht, ?_, by omega⟩
    show x.last.obsMs + 600000 ≤ _
    exact hlast ▸ le_of_lt hlow

/-! ## Windows -/

/-- The timer of a window is after its end, and no later than two windows after its events. -/
theorem window_timer (x : Int) {w : Int} (h : 0 < w) :
    (x / w + 1) * w + 1 ≤ bucketUp (((x / w + 1) * w : Int) : Rat) w ∧
      bucketUp (((x / w + 1) * w : Int) : Rat) w ≤ x + 2 * w := by
  have hlow := lt_bucketUp_int ((x / w + 1) * w) h
  have hhigh := bucketUp_le_int ((x / w + 1) * w) h
  have hdiv : x / w * w ≤ x := Int.ediv_mul_le x (ne_of_gt h)
  rw [add_mul, one_mul] at hlow hhigh ⊢
  omega

theorem DomainState.current_win (s : DomainState) (win : Int) (o : DnsObs) :
    (s.current win o).1.win = win := by
  unfold DomainState.current
  split
  · rfl
  · split
    · assumption
    · rfl

theorem DomainInfo.label_win (M : Maths) (cfg : DnsConfig) (m : DomainInfo) (labels : ODict String Int)
    (sub : Option String) : (m.label M cfg labels sub).1.win = m.win := by
  unfold DomainInfo.label
  split
  · rfl
  · split
    · rfl
    · split <;> rfl

theorem domainOnEvent_timer (M : Maths) (cfg : DnsConfig) (info : ModelInfo) (nowUs : Int)
    (key : String) (s : DomainState) (o : DnsObs) :
    ∃ m, (domainOnEvent M cfg info nowUs key s o).state.m = some m ∧
      m.win = o.obsMs / cfg.dnsWindowMs ∧
      (domainOnEvent M cfg info nowUs key s o).timers =
        [bucketUp (((o.obsMs / cfg.dnsWindowMs + 1) * cfg.dnsWindowMs : Int) : Rat) cfg.dnsWindowMs] := by
  have htunnel : ∀ m : DomainInfo, (m.reportTunnel cfg key o).1.win = m.win := by
    intro m
    unfold DomainInfo.reportTunnel
    simp only
    split <;> rfl
  have hdga : ∀ m : DomainInfo, (m.reportDga cfg key o info).1.win = m.win := by
    intro m
    unfold DomainInfo.reportDga
    generalize (if o.nx = true then Severity.medium else .low) = severity
    cases o.p with
    | none => rfl
    | some p =>
      simp only
      split <;> rfl
  refine ⟨_, rfl, ?_, rfl⟩
  exact (hdga _).trans ((htunnel _).trans ((DomainInfo.label_win ..).trans (s.current_win _ o)))

def domainDeadlines (M : Maths) (cfg : DnsConfig) (info : ModelInfo) :
    Deadlines (dnsDomainLogic M cfg info) DnsObs.obsMs (2 * cfg.dnsWindowMs) where
  deadline s := s.m.map fun m => (m.win + 1) * cfg.dnsWindowMs + 1
  timer := by
    intro now key s ts
    show domainOnTimer cfg s ts = _
    unfold domainOnTimer
    cases hm : s.m with
    | none => rfl
    | some m =>
      simp only [Option.map_some, Option.some.injEq, exists_eq_left', Int.add_one_le_iff]
      split <;> rfl
  event := by
    intro now key s o
    obtain ⟨m, hm, hwin, ht⟩ := domainOnEvent_timer M cfg info now key s o
    obtain ⟨hlow, hhigh⟩ := window_timer o.obsMs cfg.divisors_pos.1
    refine .inr ⟨_, _, congrArg _ hm, ht, ?_, hhigh⟩
    exact hwin ▸ hlow

theorem BurstState.current_win (s : BurstState) (win : Int) (o : DnsObs) :
    (s.current win o).1.win = win := by
  unfold BurstState.current
  split
  · rfl
  · split
    · assumption
    · rfl

/-- What an answer leaves: what there was, or the state of its window. -/
theorem burstOnEvent_timer (cfg : DnsConfig) (src : String) (s : BurstState) (o : DnsObs) :
    ((burstOnEvent cfg src s o).state = s ∧ (burstOnEvent cfg src s o).timers = []) ∨
    ∃ m, (burstOnEvent cfg src s o).state.m = some m ∧ m.win = o.obsMs / cfg.dnsWindowMs ∧
      (burstOnEvent cfg src s o).timers =
        [bucketUp (((o.obsMs / cfg.dnsWindowMs + 1) * cfg.dnsWindowMs : Int) : Rat) cfg.dnsWindowMs] := by
  have hdomain : ∀ (m : BurstInfo) domains dom, (m.domain cfg domains o dom).1.win = m.win := by
    intro m domains dom
    unfold BurstInfo.domain
    split
    · rfl
    · split <;> rfl
  have hburst : ∀ m : BurstInfo, (m.reportBurst cfg src o).1.win = m.win := by
    intro m
    unfold BurstInfo.reportBurst
    simp only
    split <;> rfl
  unfold burstOnEvent
  simp only
  split
  · exact .inl ⟨rfl, rfl⟩
  · refine .inr ⟨_, rfl, ?_, rfl⟩
    exact (hburst _).trans ((hdomain _ _ _).trans (s.current_win _ o))

def burstDeadlines (cfg : DnsConfig) :
    Deadlines (dgaBurstLogic cfg) DnsObs.obsMs (2 * cfg.dnsWindowMs) where
  deadline s := s.m.map fun m => (m.win + 1) * cfg.dnsWindowMs + 1
  timer := by
    intro now src s ts
    show burstOnTimer cfg s ts = _
    unfold burstOnTimer
    cases hm : s.m with
    | none => rfl
    | some m =>
      simp only [Option.map_some, Option.some.injEq, exists_eq_left', Int.add_one_le_iff]
      split <;> rfl
  event := by
    intro now src s o
    rcases burstOnEvent_timer cfg src s o with ⟨hs, ht⟩ | ⟨m, hm, hwin, ht⟩
    · exact .inl ⟨hs, ht⟩
    · obtain ⟨hlow, hhigh⟩ := window_timer o.obsMs cfg.divisors_pos.1
      refine .inr ⟨_, _, congrArg _ hm, ht, ?_, hhigh⟩
      exact hwin ▸ hlow

/-! ## Scans -/

/-- The count of pairs is their number, and nothing is held without it. -/
def ScanState.Counted (s : ScanState) : Prop :=
  match s.info with
  | none => s.tables = .empty
  | some m => m.n = s.tables.pairs.length

/-- No pair is kept beyond `b`. -/
def ScanState.Within (cfg : ScanConfig) (b : Int) (s : ScanState) : Prop :=
  ∀ e ∈ s.tables.pairs.entries, e.2 + cfg.scanHorizonMs + EXPIRY_STEP_MS ≤ b

/-- A pair that is live after a contact was so before, or was last contacted by it. -/
theorem contact_pairs (cfg : ScanConfig) (t : ScanTables) (m : ScanMeta) (d : Delta) :
    ∀ e ∈ (t.contact cfg m d).2.pairs.entries, e ∈ t.pairs.entries ∨ e = (d.pair, d.obsMs) := by
  intro e he
  unfold ScanTables.contact at he
  cases hprev : t.pairs.get? d.pair with
  | some prev =>
    simp only [hprev] at he
    rcases ODict.mem_set he with he | rfl
    · exact .inl he
    · rcases max_choice prev d.obsMs with hmax | hmax
      · rw [hmax]
        exact .inl (ODict.mem_entries.2 hprev)
      · rw [hmax]
        exact .inr rfl
  | none =>
    simp only [hprev] at he
    split at he
    · exact .inl he
    · exact ODict.mem_set he

theorem contact_spec (cfg : ScanConfig) (t : ScanTables) (m : ScanMeta) (d : Delta)
    (hn : m.n = t.pairs.length) :
    (t.contact cfg m d).1.n = (t.contact cfg m d).2.pairs.length := by
  unfold ScanTables.contact
  cases hprev : t.pairs.get? d.pair with
  | some prev =>
    have hmem : d.pair ∈ t.pairs.keys := ODict.get?_isSome.1 (by rw [hprev]; rfl)
    rw [ODict.length_set, if_pos hmem]
    exact hn
  | none =>
    simp only
    split
    · exact hn
    · rw [ODict.length_set, if_neg (ODict.get?_eq_none.1 hprev)]
      push_cast
      omega

/-- Dropping pairs keeps the count. -/
theorem dropPairs_spec (ks : List String) {m : ScanMeta} {t : ScanTables} (hnodup : ks.Nodup)
    (hks : ∀ k ∈ ks, k ∈ t.pairs.keys) (hn : m.n = t.pairs.length) :
    (ks.foldl dropPair (m, t)).1.n = (ks.foldl dropPair (m, t)).2.pairs.length ∧
      ∀ j, (ks.foldl dropPair (m, t)).2.pairs.get? j = if j ∈ ks then none else t.pairs.get? j := by
  induction ks generalizing m t with
  | nil => exact ⟨hn, fun j => by simp⟩
  | cons k ks ih =>
    obtain ⟨hk, hnodup⟩ := List.nodup_cons.1 hnodup
    have hlength := ODict.length_erase t.pairs (hks k List.mem_cons_self)
    have hpairs : (dropPair (m, t) k).2.pairs = t.pairs.erase k := rfl
    have hcount : (dropPair (m, t) k).1.n = m.n - 1 := rfl
    rw [List.foldl_cons]
    obtain ⟨hn', hget⟩ := ih (m := (dropPair (m, t) k).1) (t := (dropPair (m, t) k).2) hnodup
      (by
        intro j hj
        have hne : j ≠ k := fun h => hk (h ▸ hj)
        rw [hpairs, ← ODict.get?_isSome, ODict.get?_erase, if_neg hne, ODict.get?_isSome]
        exact hks j (List.mem_cons_of_mem _ hj))
      (by rw [hpairs, hcount]; omega)
    refine ⟨hn', fun j => (hget j).trans ?_⟩
    rw [hpairs, ODict.get?_erase]
    by_cases hjk : j = k
    · simp [hjk]
    · simp [hjk]

/-- What expiry leaves: the pairs contacted since the cutoff, and their number. -/
theorem expire_spec (t : ScanTables) (m : ScanMeta) (cutoff : Int) (hn : m.n = t.pairs.length) :
    (t.expire m cutoff).1.n = (t.expire m cutoff).2.pairs.length ∧
      ∀ e ∈ (t.expire m cutoff).2.pairs.entries, e ∈ t.pairs.entries ∧ cutoff ≤ e.2 := by
  obtain ⟨hn', hget⟩ := dropPairs_spec ((t.pairs.entries.filter fun e => e.2 < cutoff).map (·.1))
    (m := m) (t := t) (t.pairs.nodup.sublist (List.filter_sublist.map _))
    (by
      intro k hk
      obtain ⟨e, he, rfl⟩ := List.mem_map.1 hk
      exact List.mem_map_of_mem (List.mem_of_mem_filter he)) hn
  refine ⟨hn', ?_⟩
  rintro ⟨k, v⟩ he
  have hv := ODict.mem_entries.1 he
  unfold ScanTables.expire at hv
  rw [hget] at hv
  split at hv
  · cases hv
  · rename_i hkept
    have hmem := ODict.mem_entries.2 hv
    refine ⟨hmem, ?_⟩
    by_contra hlt
    exact hkept (List.mem_map.2
      ⟨(k, v), List.mem_filter.2 ⟨hmem, decide_eq_true (not_le.1 hlt)⟩, rfl⟩)

theorem ScanState.Counted.getD {s : ScanState} (hs : s.Counted) (d : Delta) :
    (s.info.getD (.fresh d)).n = s.tables.pairs.length := by
  unfold ScanState.Counted at hs
  cases hinfo : s.info with
  | none =>
    simp only [hinfo] at hs
    rw [hs]
    rfl
  | some m =>
    simp only [hinfo] at hs
    exact hs

/-- The three counters. -/
def ScanMeta.counts (m : ScanMeta) : Int × Int × Int := (m.n, m.hosts, m.ports)

/-- What a delta does: nothing, or a contact, with a timer. -/
theorem scanOnEvent_cases (cfg : ScanConfig) (inv : Inventory) (nowUs : Int) (src : String)
    (s : ScanState) (d : Delta) :
    scanOnEvent cfg inv nowUs src s d = ⟨s, [], []⟩ ∨
    ((scanOnEvent cfg inv nowUs src s d).timers = [bucketUp d.obsMs EXPIRY_STEP_MS] ∧
      (scanOnEvent cfg inv nowUs src s d).state.tables =
        (s.tables.contact cfg (s.info.getD (.fresh d)) d).2 ∧
      ∃ m, (scanOnEvent cfg inv nowUs src s d).state.info = some m ∧
        m.counts = (s.tables.contact cfg (s.info.getD (.fresh d)) d).1.counts) := by
  have hrun : ∀ (cs : List ScanCheck) r,
      (cs.foldl (ScanCheck.run cfg inv src d) r).1.counts = r.1.counts := by
    intro cs
    induction cs with
    | nil => exact fun _ => rfl
    | cons c cs ih =>
      intro r
      rw [List.foldl_cons, ih]
      unfold ScanCheck.run
      simp only
      split <;> rfl
  unfold scanOnEvent
  split
  · exact .inl rfl
  · exact .inr ⟨rfl, rfl, _, rfl, hrun _ _⟩

/-- What a timer does to a state that is counted: nothing is left, or the pairs since the cutoff, with
the next timer. -/
theorem scanOnTimer_cases (cfg : ScanConfig) {s : ScanState} (hs : s.Counted) (ts : Int) :
    ((scanOnTimer cfg s ts).state = ⟨none, .empty⟩ ∧ (scanOnTimer cfg s ts).timers = []) ∨
    ((scanOnTimer cfg s ts).timers = [ts + EXPIRY_STEP_MS] ∧
      (scanOnTimer cfg s ts).state.Counted ∧
      (∀ e ∈ (scanOnTimer cfg s ts).state.tables.pairs.entries,
        e ∈ s.tables.pairs.entries ∧ ts - cfg.scanHorizonMs ≤ e.2) ∧
      ∃ e ∈ s.tables.pairs.entries, ts - cfg.scanHorizonMs ≤ e.2) := by
  obtain ⟨info, tables⟩ := s
  cases info with
  | none =>
    have hempty : tables = .empty := hs
    exact .inl ⟨by rw [hempty]; rfl, rfl⟩
  | some m =>
    obtain ⟨hn, hpairs⟩ := expire_spec tables m (ts - cfg.scanHorizonMs) hs
    unfold scanOnTimer
    simp only
    split
    · exact .inl ⟨rfl, rfl⟩
    · rename_i hpos
      refine .inr ⟨rfl, hn, hpairs, ?_⟩
      rw [hn] at hpos
      obtain ⟨e, rest, he⟩ := List.exists_cons_of_ne_nil
        (l := (tables.expire m (ts - cfg.scanHorizonMs)).2.pairs.entries)
        (fun hnil => hpos (by simp [ODict.length, hnil]))
      have hmem := he ▸ List.mem_cons_self (a := e) (l := rest)
      exact ⟨e, hpairs e hmem⟩

def scanRetention (cfg : ScanConfig) (inv : Inventory) :
    Retention (scanLogic cfg inv) Delta.obsMs (max cfg.scanHorizonMs 0 + EXPIRY_STEP_MS) where
  Inv := ScanState.Counted
  Covers _ _ := True
  Within := ScanState.Within cfg
  later := by
    intro now src s ts
    show (scanOnTimer cfg s ts).timers.length ≤ 1 ∧ ∀ t ∈ (scanOnTimer cfg s ts).timers, ts < t
    unfold scanOnTimer
    split
    · exact ⟨Nat.zero_le _, fun _ ht => nomatch ht⟩
    · simp only
      split
      · exact ⟨Nat.zero_le _, fun _ ht => nomatch ht⟩
      · refine ⟨le_refl _, fun t ht => ?_⟩
        rw [List.mem_singleton.1 ht]
        unfold EXPIRY_STEP_MS
        omega
  inv_empty := rfl
  within_empty := fun _ _ he => nomatch he
  event := by
    intro now src s d hs
    show (scanOnEvent cfg inv now src s d).state.Counted ∧ _
    rcases scanOnEvent_cases cfg inv now src s d with h | ⟨ht, htables, m, hm, hn⟩
    · rw [h]
      refine ⟨hs, fun hne => .inr ⟨?_, fun _ _ => trivial⟩⟩
      exact fun hzero => hne ((congrArg (fun r : Outcome ScanState Emitted => r.state.entries) h).trans
        hzero)
    · refine ⟨?_, fun _ => .inl ⟨bucketUp d.obsMs EXPIRY_STEP_MS, ?_, trivial⟩⟩
      · unfold ScanState.Counted
        rw [hm, htables]
        exact (congrArg Prod.fst hn).trans (contact_spec cfg s.tables _ d (hs.getD d))
      · exact ht.symm ▸ List.mem_singleton.2 rfl
  timer := by
    intro now src s ts hs
    show (scanOnTimer cfg s ts).state.Counted ∧ _
    rcases scanOnTimer_cases cfg hs ts with ⟨hst, -⟩ | ⟨ht, hcounted, -, -⟩
    · refine ⟨by rw [hst]; rfl, fun hne => absurd ?_ hne⟩
      exact congrArg ScanState.entries hst
    · exact ⟨hcounted, fun _ => .inl ⟨_, ht.symm ▸ List.mem_singleton.2 rfl, trivial⟩⟩
  event_within := by
    intro b now src s d hs hw hle
    show (scanOnEvent cfg inv now src s d).state.Within cfg b ∧
      ∀ t ∈ (scanOnEvent cfg inv now src s d).timers, t ≤ b
    rcases scanOnEvent_cases cfg inv now src s d with h | ⟨ht, htables, -⟩
    · rw [h]
      exact ⟨hw, fun _ ht => nomatch ht⟩
    · constructor
      · intro e he
        rw [htables] at he
        rcases contact_pairs cfg s.tables _ d e he with he | rfl
        · exact hw e he
        · simp only
          omega
      · intro t htm
        rw [ht] at htm
        rw [List.mem_singleton.1 htm]
        have := @bucketUp_le_int d.obsMs EXPIRY_STEP_MS (by decide)
        omega
  timer_within := by
    intro b now src s ts hs hw hle
    show (scanOnTimer cfg s ts).state.Within cfg b ∧ ∀ t ∈ (scanOnTimer cfg s ts).timers, t ≤ b
    rcases scanOnTimer_cases cfg hs ts with ⟨hst, ht⟩ | ⟨ht, -, hleft, e, he, hlate⟩
    · rw [hst, ht]
      exact ⟨fun _ he => (nomatch he), fun _ ht => (nomatch ht)⟩
    · refine ⟨fun e he => hw e (hleft e he).1, fun t htm => ?_⟩
      rw [ht] at htm
      rw [List.mem_singleton.1 htm]
      have := hw e he
      omega

/-! ## No leak -/

/-- **No keyed-state leak**: whatever the elements, their keys and their order, and however the watermark
advances, no value and no map entry is left for any key once every registered timer has fired; and every
one has once the watermark advances past each element by a fixed delay. -/
theorem no_state_left (M : Maths) (flow : FlowConfig) (scan : ScanConfig) (ddos : DdosConfig)
    (detect : DetectConfig) (exfil : ExfilConfig) (dns : DnsConfig) (inv : Inventory)
    (info : ModelInfo) :
    Forgets (Logic.keyed (flowDeltaLogic flow)) FlowEvent.obsMs (flowDelay flow) ∧
    Forgets (scanLogic scan inv) Delta.obsMs (max scan.scanHorizonMs 0 + EXPIRY_STEP_MS) ∧
    Forgets (Logic.keyed (ddosLogic M ddos)) Delta.obsMs (ddos.ddosIdleMs + 10000) ∧
    Forgets (Logic.keyed (encryptedLogic detect inv)) TlsEvent.obsMs (detect.tlsHorizonMs + 60000) ∧
    Forgets (exfilLogic M exfil inv) (fun d => d.val.obsMs) 660000 ∧
    Forgets (dnsDomainLogic M dns info) DnsObs.obsMs (2 * dns.dnsWindowMs) ∧
    Forgets (dgaBurstLogic dns) DnsObs.obsMs (2 * dns.dnsWindowMs) :=
  ⟨(flowDeadlines flow).retention.forgets, (scanRetention scan inv).forgets,
    (ddosDeadlines M ddos).retention.forgets, (encryptedDeadlines detect inv).retention.forgets,
    (exfilDeadlines M exfil inv).retention.forgets, (domainDeadlines M dns info).retention.forgets,
    (burstDeadlines dns).retention.forgets⟩

end OTS.Detect
