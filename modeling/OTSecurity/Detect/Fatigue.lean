import Mathlib.Data.List.Chain
import OTSecurity.Detect.Incidents

/-!
# Alert fatigue

How many updates one incident emits, and how close together.  Each update after the first is paid for
by a severity that rises, by a subtype that the incident has not seen, or by a cooldown that has passed.

* `Incident.Orderly` — the findings arrive in order and have at most eight subtypes.
* `Incident.Budget` — what the updates of the open incident have used up so far.
* `Incident.Calm` — the bound on the updates, and when two of them may be close.

Principal result: `alert_fatigue_bound` — in every run of the operator of one key, every incident is
calm.
-/

namespace OTS.Detect

namespace Incident

variable (cfg : DetectConfig) (i : Incident)

/-- The distinct subtypes of the findings. -/
def subtypes : List String := (i.findings.map (·.subtype)).dedup

/-- The observation time between the first finding and the last. -/
def span : Int := (i.further.getLastD i.opening).obsMs - i.opening.obsMs

structure Orderly : Prop where
  sorted : (i.findings.map (·.obsMs)).Pairwise (· ≤ ·)
  few : i.subtypes.length ≤ 8

/-- The update is about a finding with a subtype that no finding before it has. -/
def Introduces (u : AlertRecord) : Prop :=
  ∃ before f after, i.findings = before ++ f :: after ∧ f.obsMs = u.observationTime ∧
    f.subtype = u.subtype ∧ f.subtype ∉ before.map (·.subtype)

/-- Two consecutive updates are a cooldown apart, unless the second is about something new. -/
def Spaced (u w : AlertRecord) : Prop :=
  u.observationTime + cfg.incidentCooldownMs ≤ w.observationTime ∨ w.status = .escalated ∨
    w.status = .resolved ∨ i.Introduces w

structure Calm : Prop where
  bounded : (i.updates.length : Int) ≤
    1 + 4 + (i.subtypes.length - 1) + i.span / cfg.incidentCooldownMs + 1
  spaced : i.updates.IsChain (i.Spaced cfg)

/-- What the updates of the open incident have used up: ranks, subtypes, cooldowns. -/
structure Budget (st : IncidentState) : Prop where
  seen : st.subtypes.Nodup ∧ ∀ s, s ∈ st.subtypes ↔ s ∈ i.findings.map (·.subtype)
  rank : i.opening.severity.rank ≤ st.rank ∧ st.rank ≤ 4
  emitted : i.opening.obsMs ≤ st.lastEmit ∧ st.lastEmit ≤ (i.further.getLastD i.opening).obsMs
  used : (i.updates.length : Int) ≤ 1 + (st.rank - i.opening.severity.rank) +
    (st.subtypes.length - 1) + (st.lastEmit - i.opening.obsMs) / cfg.incidentCooldownMs
  latest : ∃ us u, i.updates = us ++ [u] ∧ u.observationTime = st.lastEmit
  spaced : i.updates.IsChain (i.Spaced cfg)

end Incident

variable {cfg : DetectConfig} {i : Incident} {st : IncidentState} {f : Finding}

theorem Severity.rank_le (s : Severity) : s.rank ≤ 4 := by cases s <;> decide

/-! ## What a further finding may emit -/

/-- No update, or one that is paid for. -/
inductive Pays (cfg : DetectConfig) (st : IncidentState) (f : Finding) : Status → Prop where
  | rank (h : st.rank < f.severity.rank) : Pays cfg st f .escalated
  | subtype (h : f.subtype ∉ st.subtypes) : Pays cfg st f .updated
  | cooldown (h : st.lastEmit + cfg.incidentCooldownMs ≤ f.obsMs) (hs : f.subtype ∈ st.subtypes) :
    Pays cfg st f .updated

theorem pays_of_verdict {status : Status}
    (h : (st.absorb f).verdict cfg f (f.subtype ∉ st.subtypes) = some status) :
    Pays cfg st f status := by
  unfold IncidentState.verdict at h
  split_ifs at h with hrank hnew hcool
  · cases h
    exact .rank hrank
  · cases h
    exact .subtype (of_decide_eq_true hnew)
  · cases h
    refine .cooldown ?_ (by simpa using hnew)
    have hlate : f.obsMs - st.lastEmit ≥ cfg.incidentCooldownMs := hcool.1
    omega

theorem seen_of_verdict
    (h : (st.absorb f).verdict cfg f (f.subtype ∉ st.subtypes) = none) :
    f.subtype ∈ st.subtypes := by
  unfold IncidentState.verdict at h
  split_ifs at h with hrank hnew hcool
  simpa using hnew

/-! ## The budget of the open incident -/

theorem Incident.subtypes_grow (us : List AlertRecord) :
    (i.grow f us).findings.map (·.subtype) = i.findings.map (·.subtype) ++ [f.subtype] := by
  rw [Incident.findings_grow, List.map_append]
  rfl

theorem Incident.Orderly.of_grow {us : List AlertRecord} (h : (i.grow f us).Orderly) :
    i.Orderly := by
  constructor
  · have := h.sorted
    rw [Incident.findings_grow, List.map_append] at this
    exact (List.pairwise_append.1 this).1
  · refine le_trans ?_ h.few
    unfold Incident.subtypes
    rw [Incident.subtypes_grow]
    exact (List.nodup_dedup _).length_le_of_subset fun s hs =>
      List.mem_dedup.2 (List.mem_append_left _ (List.mem_dedup.1 hs))

theorem Incident.last_grow (us : List AlertRecord) :
    (i.grow f us).further.getLastD (i.grow f us).opening = f := by
  simp [Incident.grow]

/-- The last finding is the latest. -/
theorem Incident.Orderly.le_last {us : List AlertRecord} (h : (i.grow f us).Orderly) :
    (i.further.getLastD i.opening).obsMs ≤ f.obsMs := by
  have hsorted := h.sorted
  rw [Incident.findings_grow, List.map_append] at hsorted
  refine (List.pairwise_append.1 hsorted).2.2 _ (List.mem_map_of_mem ?_) _
    (List.mem_singleton.2 rfl)
  unfold Incident.findings
  cases hfurther : i.further using List.reverseRecOn with
  | nil => simp
  | append_singleton fs g => simp

/-- No subtype is forgotten while there are at most eight. -/
theorem Incident.Budget.absorbed {us : List AlertRecord} (h : i.Budget cfg st)
    (ho : (i.grow f us).Orderly) :
    (st.absorb f).subtypes.Nodup ∧
      (∀ s, s ∈ (st.absorb f).subtypes ↔ s ∈ (i.grow f us).findings.map (·.subtype)) ∧
      ((st.absorb f).subtypes.length : Int) =
        st.subtypes.length + if f.subtype ∈ st.subtypes then 0 else 1 := by
  obtain ⟨hnodup, hseen⟩ := h.seen
  rw [Incident.subtypes_grow]
  unfold IncidentState.absorb
  by_cases hold : f.subtype ∈ st.subtypes
  · simp only [if_pos hold]
    refine ⟨hnodup, ?_, by simp⟩
    intro s
    rw [hseen, List.mem_append, List.mem_singleton]
    constructor
    · exact .inl
    · rintro (hs | rfl)
      · exact hs
      · exact (hseen _).1 hold
  · simp only [if_neg hold]
    have hnew : (st.subtypes ++ [f.subtype]).Nodup := by
      rw [List.nodup_append]
      refine ⟨hnodup, List.nodup_singleton _, ?_⟩
      rintro a ha b hb rfl
      exact hold (List.mem_singleton.1 hb ▸ ha)
    have hfew : (st.subtypes ++ [f.subtype]).length ≤ 8 := by
      refine le_trans (hnew.length_le_of_subset fun s hs => ?_) ho.few
      unfold Incident.subtypes
      rw [Incident.subtypes_grow, List.mem_dedup]
      rcases List.mem_append.1 hs with hs | hs
      · exact List.mem_append_left _ ((hseen s).1 hs)
      · exact List.mem_append_right _ hs
    have hall : lastN 8 (st.subtypes ++ [f.subtype]) = st.subtypes ++ [f.subtype] := by
      unfold lastN
      rw [Nat.sub_eq_zero_of_le hfew, List.drop_zero]
    rw [hall]
    refine ⟨hnew, ?_, by simp⟩
    intro s
    rw [List.mem_append, List.mem_append, hseen]

theorem Incident.Introduces.grow {u : AlertRecord} {us : List AlertRecord} (h : i.Introduces u) :
    (i.grow f us).Introduces u := by
  obtain ⟨before, g, after, hsplit, hobs, hsub, hnew⟩ := h
  refine ⟨before, g, after ++ [f], ?_, hobs, hsub, hnew⟩
  rw [Incident.findings_grow, hsplit, List.append_assoc, List.cons_append]

theorem Incident.Spaced.grow {u w : AlertRecord} {us : List AlertRecord} (h : i.Spaced cfg u w) :
    (i.grow f us).Spaced cfg u w := by
  rcases h with h | h | h | h
  · exact .inl h
  · exact .inr (.inl h)
  · exact .inr (.inr (.inl h))
  · exact .inr (.inr (.inr h.grow))

/-- One update more, spaced from the latest. -/
theorem Incident.spaced_concat {us : List AlertRecord} {u v : AlertRecord}
    (h : (us ++ [u]).IsChain (i.Spaced cfg)) (hv : i.Spaced cfg u v) :
    (us ++ [u] ++ [v]).IsChain (i.Spaced cfg) := by
  rw [List.isChain_append]
  refine ⟨h, List.isChain_singleton v, ?_⟩
  intro x hx y hy
  rw [List.getLast?_concat] at hx
  obtain rfl := Option.some.inj hx
  obtain rfl := Option.some.inj hy
  exact hv

/-- A finding that emits nothing uses up nothing. -/
theorem Incident.Budget.quiet (h : i.Budget cfg st) (ho : (i.grow f []).Orderly)
    (hold : f.subtype ∈ st.subtypes) : (i.grow f []).Budget cfg (st.absorb f) := by
  obtain ⟨hnodup, hseen, hlen⟩ := h.absorbed ho
  have hlast := ho.le_last
  have hsame : (i.grow f []).updates = i.updates := List.append_nil _
  rw [if_pos hold] at hlen
  constructor
  · exact ⟨hnodup, hseen⟩
  · exact h.rank
  · rw [Incident.last_grow]
    exact ⟨h.emitted.1, h.emitted.2.trans hlast⟩
  · have hused := h.used
    rw [hsame]
    show _ ≤ 1 + ((st.rank : Int) - i.opening.severity.rank) + (((st.absorb f).subtypes.length : Int) - 1) +
      (st.lastEmit - i.opening.obsMs) / cfg.incidentCooldownMs
    omega
  · rw [hsame]
    exact h.latest
  · rw [hsame]
    exact h.spaced.imp fun _ _ => Incident.Spaced.grow

/-- **An update is paid for**: by a rank, by a subtype, or by a cooldown. -/
theorem Incident.Budget.pay (hc : 0 < cfg.incidentCooldownMs) (h : i.Budget cfg st)
    {u : AlertRecord} {status : Status} (ho : (i.grow f [u]).Orderly) (hp : Pays cfg st f status)
    (hobs : u.observationTime = f.obsMs) (hsub : u.subtype = f.subtype) (hu : u.status = status) :
    (i.grow f [u]).Budget cfg ((st.absorb f).bump f (max st.rank f.severity.rank)) := by
  obtain ⟨hnodup, hseen, hlen⟩ := h.absorbed ho
  have hlast := ho.le_last
  obtain ⟨hfirst, hemit⟩ := h.emitted
  have hlate : st.lastEmit ≤ f.obsMs := hemit.trans hlast
  constructor
  · exact ⟨hnodup, hseen⟩
  · exact ⟨h.rank.1.trans (le_max_left _ _), max_le h.rank.2 f.severity.rank_le⟩
  · rw [Incident.last_grow]
    exact ⟨hfirst.trans hlate, le_refl _⟩
  · have hused := h.used
    have hmore : ((i.grow f [u]).updates.length : Int) = i.updates.length + 1 := by
      simp [Incident.grow]
    have hmono : (st.lastEmit - i.opening.obsMs) / cfg.incidentCooldownMs ≤
        (f.obsMs - i.opening.obsMs) / cfg.incidentCooldownMs :=
      Int.ediv_le_ediv hc (by omega)
    have hmax : (st.rank : Int) ≤ ((max st.rank f.severity.rank : Nat) : Int) := by
      exact_mod_cast le_max_left _ _
    rw [hmore]
    show _ ≤ 1 + (((max st.rank f.severity.rank : Nat) : Int) - i.opening.severity.rank) +
      (((st.absorb f).subtypes.length : Int) - 1) +
      (f.obsMs - i.opening.obsMs) / cfg.incidentCooldownMs
    cases hp with
    | rank hrank =>
      have : ((max st.rank f.severity.rank : Nat) : Int) ≥ st.rank + 1 := by
        exact_mod_cast (Nat.succ_le_of_lt hrank).trans (le_max_right _ _)
      split at hlen <;> omega
    | subtype hnew =>
      rw [if_neg hnew] at hlen
      omega
    | cooldown hcool hold =>
      rw [if_pos hold] at hlen
      have hstep : (st.lastEmit - i.opening.obsMs) / cfg.incidentCooldownMs + 1 ≤
          (f.obsMs - i.opening.obsMs) / cfg.incidentCooldownMs := by
        rw [← Int.add_mul_ediv_right _ 1 (ne_of_gt hc)]
        exact Int.ediv_le_ediv hc (by omega)
      omega
  · exact ⟨i.updates, u, rfl, hobs⟩
  · obtain ⟨us, v, hus, hv⟩ := h.latest
    have hchain : (us ++ [v]).IsChain ((i.grow f [u]).Spaced cfg) := by
      rw [← hus]
      exact h.spaced.imp fun _ _ => Incident.Spaced.grow
    show (i.updates ++ [u]).IsChain _
    rw [hus]
    refine Incident.spaced_concat hchain ?_
    cases hp with
    | rank => exact .inr (.inl hu)
    | subtype hnew =>
      refine .inr (.inr (.inr ⟨i.findings, f, [], Incident.findings_grow i f [u], hobs.symm,
        hsub.symm, fun hs => hnew ((h.seen.2 _).2 hs)⟩))
    | cooldown hcool hold =>
      refine .inl ?_
      rw [hv, hobs]
      exact hcool

theorem Incident.Budget.further (hc : 0 < cfg.incidentCooldownMs) (h : i.Budget cfg st) (nowMs : Int)
    (ho : (i.grow f (st.further cfg nowMs f).2).Orderly) :
    (i.grow f (st.further cfg nowMs f).2).Budget cfg (st.further cfg nowMs f).1 := by
  unfold IncidentState.further at ho ⊢
  cases hv : (st.absorb f).verdict cfg f (f.subtype ∉ st.subtypes) with
  | none =>
    simp only [hv] at ho ⊢
    exact h.quiet ho (seen_of_verdict hv)
  | some status =>
    simp only [hv] at ho ⊢
    exact h.pay hc ho (pays_of_verdict hv) rfl rfl rfl

theorem Incident.Budget.start (cfg : DetectConfig) (f : Finding) (nowMs : Int) :
    (Incident.start f nowMs).Budget cfg (openState f) := by
  constructor
  · refine ⟨List.nodup_singleton _, ?_⟩
    intro s
    rfl
  · exact ⟨le_refl _, f.severity.rank_le⟩
  · exact ⟨le_refl _, le_refl _⟩
  · simp [Incident.start, openState]
  · exact ⟨[], _, rfl, rfl⟩
  · exact List.isChain_singleton _

/-! ## Calm incidents -/

/-- The bound that the budget leaves, before the incident is resolved. -/
theorem Incident.Budget.bounded (hc : 0 < cfg.incidentCooldownMs) (h : i.Budget cfg st) :
    (i.updates.length : Int) ≤
      1 + 4 + (i.subtypes.length - 1) + i.span / cfg.incidentCooldownMs := by
  have hused := h.used
  have hsubs : st.subtypes.length ≤ i.subtypes.length :=
    h.seen.1.length_le_of_subset fun s hs => List.mem_dedup.2 ((h.seen.2 s).1 hs)
  have hspan : (st.lastEmit - i.opening.obsMs) / cfg.incidentCooldownMs ≤
      i.span / cfg.incidentCooldownMs := by
    have := h.emitted.2
    refine Int.ediv_le_ediv hc ?_
    unfold Incident.span
    omega
  have hrank := h.rank
  omega

theorem Incident.Budget.calm (hc : 0 < cfg.incidentCooldownMs) (h : i.Budget cfg st) :
    i.Calm cfg := by
  have hbound := h.bounded hc
  exact ⟨by omega, h.spaced⟩

/-- The resolution is one update more. -/
theorem Incident.Budget.close (hc : 0 < cfg.incidentCooldownMs) (h : i.Budget cfg st)
    (nowMs t : Int) : (i.close (st.resolve nowMs) t).Calm cfg := by
  have hbound := h.bounded hc
  obtain ⟨us, u, hus, -⟩ := h.latest
  constructor
  · have hmore : ((i.close (st.resolve nowMs) t).updates.length : Int) = i.updates.length + 1 := by
      simp [Incident.close]
    show ((i.close (st.resolve nowMs) t).updates.length : Int) ≤
      1 + 4 + (i.subtypes.length - 1) + i.span / cfg.incidentCooldownMs + 1
    omega
  · show (i.updates ++ [st.resolve nowMs]).IsChain (i.Spaced cfg)
    have hchain := h.spaced
    rw [hus] at hchain ⊢
    exact Incident.spaced_concat hchain (.inr (.inr (.inl rfl)))

/-- Every incident so far is calm, and the open one is within its budget. -/
structure Calmed (cfg : DetectConfig) (v : Option IncidentState) (hist : List Incident) : Prop where
  calm : ∀ i ∈ hist, i.Orderly → i.Calm cfg
  running : ∀ st past i, v = some st → hist = past ++ [i] → i.Orderly → i.Budget cfg st

theorem Calmed.concat {past : List Incident} {v : Option IncidentState} {st' : IncidentState}
    (hc : 0 < cfg.incidentCooldownMs) (h : ∀ j ∈ past, j.Orderly → j.Calm cfg)
    (hi : i.Orderly → i.Budget cfg st') (hv : v = some st') : Calmed cfg v (past ++ [i]) := by
  constructor
  · intro j hj ho
    rcases List.mem_append.1 hj with hj | hj
    · exact h j hj ho
    · obtain rfl := List.mem_singleton.1 hj
      exact (hi ho).calm hc
  · intro st past' j hst hsplit ho
    obtain rfl := Option.some.inj (hv.symm.trans hst)
    obtain ⟨-, hlast⟩ := List.append_inj' hsplit rfl
    obtain rfl := List.singleton_inj.1 hlast
    exact hi ho

theorem calmed_stable (hc : 0 < cfg.incidentCooldownMs) (P : Finding → Prop) :
    Stable cfg P (Calmed cfg) where
  nil := by
    constructor
    · exact fun _ hi => nomatch hi
    · exact fun _ _ _ hv => nomatch hv
  start := by
    intro hist nowMs f _ h
    exact Calmed.concat hc h.calm (fun _ => Incident.Budget.start cfg f nowMs) rfl
  grow := by
    intro st past i nowMs f _ _ h
    refine Calmed.concat hc (fun j hj => h.calm j (List.mem_append_left _ hj)) ?_ rfl
    intro ho
    exact (h.running st past i rfl rfl ho.of_grow).further hc nowMs ho
  close := by
    intro st past i nowMs t _ h
    constructor
    · intro j hj ho
      rcases List.mem_append.1 hj with hj | hj
      · exact h.calm j (List.mem_append_left _ hj) ho
      · obtain rfl := List.mem_singleton.1 hj
        exact (h.running st past i rfl rfl ⟨ho.sorted, ho.few⟩).close hc nowMs t
    · exact fun _ _ _ hv => nomatch hv

theorem sublist_flatMap {hist : List Incident} (hi : i ∈ hist) :
    i.findings.Sublist (hist.flatMap Incident.findings) := by
  obtain ⟨past, rest, rfl⟩ := List.append_of_mem hi
  rw [List.flatMap_append, List.flatMap_cons]
  exact (List.sublist_append_left _ _).trans (List.sublist_append_right _ _)

/-- The incidents of findings that arrive in order, with at most eight subtypes, are orderly. -/
theorem orderly_of_flatMap {hist : List Incident} {fs : List Finding}
    (hfs : fs = hist.flatMap Incident.findings) (hsorted : (fs.map (·.obsMs)).Pairwise (· ≤ ·))
    (hfew : (fs.map (·.subtype)).dedup.length ≤ 8) : ∀ i ∈ hist, i.Orderly := by
  intro i hi
  have hsub : i.findings.Sublist fs := hfs ▸ sublist_flatMap hi
  constructor
  · exact hsorted.sublist (hsub.map _)
  · refine le_trans ?_ hfew
    exact (List.nodup_dedup _).length_le_of_subset fun s hs =>
      List.mem_dedup.2 ((hsub.map _).subset (List.mem_dedup.1 hs))

/-- **Alert fatigue is bounded.**  In every run of the operator of one key whose findings arrive in
order and have at most eight subtypes, the findings and updates are those of consecutive incidents,
each with a bounded number of updates, of which two are less than a cooldown apart only for an
escalation, a new subtype or the resolution. -/
theorem alert_fatigue_bound (cfg : DetectConfig) (hc : 0 < cfg.incidentCooldownMs) (k : IncidentKey)
    {s : Operator Finding IncidentState AlertRecord}
    (h : (operator (incidentLogic cfg)).Reach (OnKey k) s)
    (hsorted : ((s.log.filterMap Call.element).map (·.obsMs)).Pairwise (· ≤ ·))
    (hfew : ((s.log.filterMap Call.element).map (·.subtype)).dedup.length ≤ 8) :
    ∃ hist, Lifecycle cfg k s hist ∧ ∀ i ∈ hist, i.Calm cfg := by
  obtain ⟨hist, hl, hcalm⟩ := lifecycle_stable (calmed_stable hc k.Of) h
  have horderly := orderly_of_flatMap hl.findings hsorted hfew
  exact ⟨hist, hl, fun i hi => hcalm.calm i hi (horderly i hi)⟩

theorem alert_fatigue_bound_sample : ∃ s : Operator Finding IncidentState AlertRecord,
    s.out.map (·.status) = [.new, .escalated, .resolved, .new] ∧
    ∃ hist, Lifecycle {} ⟨"scan", "src_host", "10.10.1.99"⟩ s hist ∧ ∀ i ∈ hist, i.Calm {} := by
  obtain ⟨s, hs, hprop⟩ := (Option.any_eq_true _ _).1 (show
    ((operator (incidentLogic {})).runMeeting (OnKey ⟨"scan", "src_host", "10.10.1.99"⟩)
      Operator.init sampleActs).any (fun s => s.out.map (·.status) = [.new, .escalated, .resolved, .new] ∧
        ((s.log.filterMap Call.element).map (·.obsMs)).Pairwise (· ≤ ·) ∧
        ((s.log.filterMap Call.element).map (·.subtype)).dedup.length ≤ 8) = true by
    decide +kernel)
  obtain ⟨hout, hsorted, hfew⟩ := of_decide_eq_true hprop
  exact ⟨s, hout, alert_fatigue_bound {} (by decide) _ (Machine.reach_of_run _ hs) hsorted hfew⟩

end OTS.Detect
