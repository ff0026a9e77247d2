import OTSecurity.Detect.Incidents

/-!
# The evidence of an incident over its updates

What the successive updates of one incident say of its evidence, for any order of findings and
timers.

* `IncidentState.next`, `reports` — the state after a further finding, and whether an update
  reports it.
* `Incident.reported` — the findings of an incident that an update reports, the opening one first.
* `seen` — the three times of the update that reports a finding: the opening finding's times and
  its own, nothing of the findings in between.
* `Recorded` — the incidents of the calls made so far, with the times and counts of their updates.

Principal result: `evidence_accumulates` — evidence count and severity never fall; the times are
monotone, and the resolved update covers every finding, exactly for the incidents whose findings
are `InOrder`.
-/

namespace OTS.Detect

variable {cfg : DetectConfig}

/-! ## A further finding -/

/-- Whether an update reports a further finding. -/
def IncidentState.reports (st : IncidentState) (cfg : DetectConfig) (f : Finding) : Bool :=
  ((st.absorb f).verdict cfg f (f.subtype ∉ st.subtypes)).isSome

/-- The state after a further finding. -/
def IncidentState.next (st : IncidentState) (cfg : DetectConfig) (f : Finding) : IncidentState :=
  if st.reports cfg f then (st.absorb f).bump f (max st.rank f.severity.rank) else st.absorb f

theorem further_fst (st : IncidentState) (nowMs : Int) (f : Finding) :
    (st.further cfg nowMs f).1 = st.next cfg f := by
  unfold IncidentState.further IncidentState.next IncidentState.reports
  cases (st.absorb f).verdict cfg f (f.subtype ∉ st.subtypes) with
  | none => rfl
  | some status => rfl

theorem further_snd (st : IncidentState) (nowMs : Int) (f : Finding) :
    st.reports cfg f = false ∧ (st.further cfg nowMs f).2 = [] ∨
      st.reports cfg f = true ∧ ∃ status, status ≠ .resolved ∧
        (st.further cfg nowMs f).2 = [(st.next cfg f).emit nowMs f status] := by
  obtain ⟨_, _, _, h⟩ := @further_spec cfg st nowMs f
  rw [further_fst] at h
  unfold IncidentState.further at h ⊢
  unfold IncidentState.reports
  cases hv : (st.absorb f).verdict cfg f (f.subtype ∉ st.subtypes) with
  | none => exact .inl ⟨rfl, rfl⟩
  | some status =>
    rw [hv] at h
    rcases h with ⟨h, _⟩ | ⟨status', _, hres, hout, _⟩
    · cases h
    · exact .inr ⟨rfl, status', hres, hout⟩

@[simp] theorem next_id (st : IncidentState) (f : Finding) : (st.next cfg f).id = st.id := by
  unfold IncidentState.next
  split <;> rfl

@[simp] theorem next_first (st : IncidentState) (f : Finding) :
    (st.next cfg f).first = st.first := by
  unfold IncidentState.next
  split <;> rfl

@[simp] theorem next_windowStart (st : IncidentState) (f : Finding) :
    (st.next cfg f).windowStart = st.windowStart := by
  unfold IncidentState.next
  split <;> rfl

@[simp] theorem next_last (st : IncidentState) (f : Finding) : (st.next cfg f).last = f := by
  unfold IncidentState.next
  split <;> rfl

@[simp] theorem next_count (st : IncidentState) (f : Finding) :
    (st.next cfg f).count = max st.count f.evidenceCount := by
  unfold IncidentState.next
  split <;> rfl

@[simp] theorem next_ids (st : IncidentState) (f : Finding) :
    (st.next cfg f).ids = lastN 32 (st.ids ++ f.rawEventIds.filter (· ∉ st.ids)) := by
  unfold IncidentState.next
  split <;> rfl

/-! ## The evidence count -/

/-- The evidence count of the updates a state emits. -/
def IncidentState.evidence (st : IncidentState) : Nat := max st.count st.ids.length

@[simp] theorem emit_evidence (st : IncidentState) (nowMs : Int) (f : Finding) (status : Status) :
    (st.emit nowMs f status).evidence.evidenceCount = st.evidence := rfl

theorem lastN_length {α : Type} (n : Nat) (xs : List α) :
    (lastN n xs).length = min n xs.length := by
  unfold lastN
  rw [List.length_drop]
  omega

/-- The list of ids is cut to the last 32, so it never gets shorter. -/
theorem next_evidence {st : IncidentState} (hids : st.ids.length ≤ 32) (f : Finding) :
    st.evidence ≤ (st.next cfg f).evidence ∧ (st.next cfg f).ids.length ≤ 32 := by
  unfold IncidentState.evidence
  rw [next_ids, next_count, lastN_length, List.length_append]
  constructor <;> omega

/-! ## The findings that are reported -/

def IncidentState.after (cfg : DetectConfig) (st : IncidentState) (fs : List Finding) :
    IncidentState :=
  fs.foldl (fun st f => st.next cfg f) st

def IncidentState.reported (cfg : DetectConfig) : IncidentState → List Finding → List Finding
  | _, [] => []
  | st, f :: fs => (if st.reports cfg f then [f] else []) ++ (st.next cfg f).reported cfg fs

/-- The findings of an incident that an update reports, in order. -/
def Incident.reported (cfg : DetectConfig) (i : Incident) : List Finding :=
  i.opening :: (openState i.opening).reported cfg i.further

theorem after_concat (st : IncidentState) (fs : List Finding) (f : Finding) :
    st.after cfg (fs ++ [f]) = (st.after cfg fs).next cfg f := by
  simp [IncidentState.after]

theorem reported_concat (st : IncidentState) (fs : List Finding) (f : Finding) :
    st.reported cfg (fs ++ [f]) =
      st.reported cfg fs ++ if (st.after cfg fs).reports cfg f then [f] else [] := by
  induction fs generalizing st with
  | nil => exact List.append_nil _
  | cons g fs ih =>
    rw [List.cons_append, IncidentState.reported, ih, IncidentState.reported, List.append_assoc]
    rfl

/-- Only the opening finding's earliest times are kept. -/
theorem after_times (f : Finding) (fs : List Finding) :
    ((openState f).after cfg fs).first = f.firstSeenMs ∧
      ((openState f).after cfg fs).windowStart = f.windowStartMs ∧
      ((openState f).after cfg fs).last = (f :: fs).getLast (List.cons_ne_nil _ _) := by
  induction fs using List.reverseRecOn with
  | nil => exact ⟨rfl, rfl, rfl⟩
  | append_singleton fs g ih =>
    obtain ⟨h1, h2, _⟩ := ih
    rw [after_concat, next_first, next_windowStart, next_last]
    refine ⟨h1, h2, ?_⟩
    rw [List.getLast_cons (by simp), List.getLast_append_singleton]

/-! ## The updates of one incident -/

/-- First seen, start of the window and last seen of an update. -/
def AlertRecord.times (u : AlertRecord) : Int × Int × Int :=
  (u.firstSeen, u.windowStart, u.lastSeen)

/-- The times of the update that reports `f` in an incident opened by `o`. -/
def seen (o f : Finding) : Int × Int × Int :=
  (min o.firstSeenMs f.firstSeenMs, min o.windowStartMs f.windowStartMs, f.lastSeenMs)

def Incident.latest (i : Incident) : Finding := i.findings.getLast (List.cons_ne_nil _ _)

/-- The findings that the updates carry: the reported ones, and the latest one once resolved. -/
def Incident.carried (cfg : DetectConfig) (i : Incident) : List Finding :=
  i.reported cfg ++ if i.resolvedAt.isSome then [i.latest] else []

structure Incident.Reports (cfg : DetectConfig) (i : Incident) : Prop where
  times : i.updates.map AlertRecord.times = (i.carried cfg).map (seen i.opening)
  evidence : (i.updates.map (·.evidence.evidenceCount)).Pairwise (· ≤ ·)

/-- The state of the open incident is that of its findings. -/
structure Incident.StateOf (cfg : DetectConfig) (i : Incident) (st : IncidentState) : Prop where
  state : st = (openState i.opening).after cfg i.further
  ids : st.ids.length ≤ 32
  evidence : ∀ u ∈ i.updates, u.evidence.evidenceCount ≤ st.evidence

/-- The incidents so far, and the state of the open one. -/
structure Recorded (cfg : DetectConfig) (v : Option IncidentState) (hist : List Incident) :
    Prop where
  reports : ∀ i ∈ hist, i.Reports cfg
  running : ∀ st past i, v = some st → hist = past ++ [i] → i.StateOf cfg st

theorem emit_times {o : Finding} {st : IncidentState} (hf : st.first = o.firstSeenMs)
    (hw : st.windowStart = o.windowStartMs) (nowMs : Int) (f : Finding) (status : Status) :
    (st.emit nowMs f status).times = seen o f := by
  show (min st.first _, min st.windowStart _, _) = _
  rw [hf, hw]
  rfl

theorem resolve_times {o : Finding} {st : IncidentState} (hf : st.first = o.firstSeenMs)
    (hw : st.windowStart = o.windowStartMs) (nowMs : Int) :
    (st.resolve nowMs).times = seen o st.last := by
  have hf' : ({ st with seq := st.seq + 1 } : IncidentState).first = o.firstSeenMs := hf
  exact emit_times hf' hw nowMs st.last .resolved

theorem pairwise_concat {xs : List Nat} {x : Nat} (h : xs.Pairwise (· ≤ ·)) (hx : ∀ y ∈ xs, y ≤ x) :
    (xs ++ [x]).Pairwise (· ≤ ·) := by
  rw [List.pairwise_append]
  refine ⟨h, List.pairwise_singleton .., ?_⟩
  intro y hy z hz
  rw [List.mem_singleton.1 hz]
  exact hx y hy

/-- What `finding` promises of a finding's ids. -/
def IdsBounded (f : Finding) : Prop := f.rawEventIds.length ≤ 32

theorem finding_idsBounded (a : FindingArgs) : IdsBounded (finding a) := by
  show (lastN 32 _).length ≤ 32
  rw [lastN_length]
  exact Nat.min_le_left _ _

theorem Incident.start_recorded (f : Finding) (nowMs : Int) (hf : IdsBounded f) :
    (Incident.start f nowMs).Reports cfg ∧ (Incident.start f nowMs).StateOf cfg (openState f) := by
  refine ⟨⟨?_, List.pairwise_singleton ..⟩, rfl, hf, ?_⟩
  · show [((openState f).emit nowMs f .new).times] = [seen f f]
    rw [emit_times rfl rfl]
  · intro u hu
    rw [List.mem_singleton.1 hu]
    exact le_refl _

section Grow

variable {i : Incident} {st : IncidentState}

theorem Incident.StateOf.first (h : i.StateOf cfg st) :
    st.first = i.opening.firstSeenMs ∧ st.windowStart = i.opening.windowStartMs ∧
      st.last = i.latest := by
  rw [h.state]
  exact after_times i.opening i.further

theorem Incident.reported_grow (h : i.StateOf cfg st) (f : Finding) (us : List AlertRecord) :
    (i.grow f us).reported cfg = i.reported cfg ++ if st.reports cfg f then [f] else [] := by
  show i.opening :: (openState i.opening).reported cfg (i.further ++ [f]) = _
  rw [reported_concat, ← h.state]
  rfl

theorem Incident.grow_recorded (hr : i.Reports cfg) (hs : i.StateOf cfg st)
    (hopen : i.resolvedAt = none) (nowMs : Int) (f : Finding) :
    (i.grow f (st.further cfg nowMs f).2).Reports cfg ∧
      (i.grow f (st.further cfg nowMs f).2).StateOf cfg (st.further cfg nowMs f).1 := by
  obtain ⟨hle, hids⟩ := @next_evidence cfg st hs.ids f
  obtain ⟨hfirst, hwin, _⟩ := hs.first
  have hcarried : ∀ us, (i.grow f us).carried cfg =
      i.carried cfg ++ if st.reports cfg f then [f] else [] := fun us => by
    unfold Incident.carried
    rw [Incident.reported_grow hs, show (i.grow f us).resolvedAt = none from hopen, hopen]
    simp
  have hstate : st.next cfg f = (openState i.opening).after cfg (i.further ++ [f]) := by
    rw [after_concat, ← hs.state]
  rw [further_fst]
  rcases @further_snd cfg st nowMs f with ⟨hrep, hout⟩ | ⟨hrep, status, _, hout⟩
  · rw [hout]
    have hsame : (i.grow f []).updates = i.updates := List.append_nil _
    refine ⟨⟨?_, ?_⟩, hstate, hids, ?_⟩
    · rw [hsame, hcarried, hrep, hr.times]
      simp [Incident.grow]
    · rw [hsame]
      exact hr.evidence
    · rw [hsame]
      exact fun u hu => (hs.evidence u hu).trans hle
  · rw [hout]
    refine ⟨⟨?_, ?_⟩, hstate, hids, ?_⟩
    · show (i.updates ++ [_]).map AlertRecord.times = _
      rw [hcarried, hrep, List.map_append, hr.times]
      show _ ++ [((st.next cfg f).emit nowMs f status).times] = _
      rw [emit_times ((next_first ..).trans hfirst) ((next_windowStart ..).trans hwin)]
      simp [Incident.grow]
    · show ((i.updates ++ [_]).map _).Pairwise _
      rw [List.map_append]
      refine pairwise_concat hr.evidence ?_
      intro n hn
      obtain ⟨u, hu, rfl⟩ := List.mem_map.1 hn
      exact (hs.evidence u hu).trans hle
    · intro u hu
      rcases List.mem_append.1 hu with hu | hu
      · exact (hs.evidence u hu).trans hle
      · rw [List.mem_singleton.1 hu]
        exact le_refl _

theorem Incident.close_recorded (hr : i.Reports cfg) (hs : i.StateOf cfg st)
    (hopen : i.resolvedAt = none) (nowMs t : Int) :
    (i.close (st.resolve nowMs) t).Reports cfg := by
  obtain ⟨hfirst, hwin, hlast⟩ := hs.first
  refine ⟨?_, ?_⟩
  · show (i.updates ++ [_]).map AlertRecord.times = _
    have hcarried : (i.close (st.resolve nowMs) t).carried cfg = i.carried cfg ++ [i.latest] := by
      unfold Incident.carried
      rw [hopen]
      simp [Incident.close, Incident.latest, Incident.reported, Incident.findings]
    rw [hcarried, List.map_append, List.map_append, hr.times]
    show _ ++ [(st.resolve nowMs).times] = _
    rw [resolve_times hfirst hwin, hlast]
    rfl
  · show ((i.updates ++ [_]).map _).Pairwise _
    rw [List.map_append]
    refine pairwise_concat hr.evidence ?_
    intro n hn
    obtain ⟨u, hu, rfl⟩ := List.mem_map.1 hn
    exact hs.evidence u hu

end Grow

theorem recorded_stable (cfg : DetectConfig) : Stable cfg IdsBounded (Recorded cfg) where
  nil := ⟨by simp, by rintro _ _ _ ⟨⟩⟩
  start := by
    intro hist nowMs f hf h
    obtain ⟨hr, hs⟩ := @Incident.start_recorded cfg f nowMs hf
    refine ⟨?_, ?_⟩
    · intro i hi
      rcases List.mem_append.1 hi with hi | hi
      · exact h.reports i hi
      · rw [List.mem_singleton.1 hi]
        exact hr
    · rintro st past i ⟨⟩ hh
      obtain ⟨_, rfl⟩ := List.append_singleton_inj.1 hh
      exact hs
  grow := by
    intro st past i nowMs f _ hopen h
    obtain ⟨hr, hs⟩ := Incident.grow_recorded (h.reports i (by simp)) (h.running st past i rfl rfl)
      hopen nowMs f
    refine ⟨?_, ?_⟩
    · intro j hj
      rcases List.mem_append.1 hj with hj | hj
      · exact h.reports j (List.mem_append_left _ hj)
      · rw [List.mem_singleton.1 hj]
        exact hr
    · rintro st' past' j ⟨⟩ hh
      obtain ⟨_, rfl⟩ := List.append_singleton_inj.1 hh
      exact hs
  close := by
    intro st past i nowMs t hopen h
    refine ⟨?_, by rintro _ _ _ ⟨⟩⟩
    intro j hj
    rcases List.mem_append.1 hj with hj | hj
    · exact h.reports j (List.mem_append_left _ hj)
    · rw [List.mem_singleton.1 hj]
      exact Incident.close_recorded (h.reports i (by simp)) (h.running st past i rfl rfl) hopen
        nowMs t

/-! ## Monotone evidence -/

/-- What the updates of an incident promise of its evidence. -/
structure Incident.Monotone (i : Incident) : Prop where
  evidence : (i.updates.map (·.evidence.evidenceCount)).Pairwise (· ≤ ·)
  severity : (i.updates.map (·.severity.rank)).Pairwise (· ≤ ·)
  firstSeen : (i.updates.map (·.firstSeen)).Pairwise (· ≥ ·)
  windowStart : (i.updates.map (·.windowStart)).Pairwise (· ≥ ·)
  lastSeen : (i.updates.map (·.lastSeen)).Pairwise (· ≤ ·)
  covers : ∀ u ∈ i.updates, u.status = .resolved →
    ∀ f ∈ i.findings, u.firstSeen ≤ f.firstSeenMs ∧ f.lastSeenMs ≤ u.lastSeen

/-- After `a`, `b` starts no later unless the opening finding `o` starts as early as `a`, and ends
no earlier. -/
def SpanKept (o a b : Finding) : Prop :=
  (o.firstSeenMs ≤ a.firstSeenMs ∨ b.firstSeenMs ≤ a.firstSeenMs) ∧ a.lastSeenMs ≤ b.lastSeenMs

/-- The same for the start of the window. -/
def WindowKept (o a b : Finding) : Prop :=
  o.windowStartMs ≤ a.windowStartMs ∨ b.windowStartMs ≤ a.windowStartMs

/-- The findings that updates carry come in an order in which no time goes back, and the finding
that a resolved incident ends with spans all of its findings. -/
structure Incident.InOrder (cfg : DetectConfig) (i : Incident) : Prop where
  spans : (i.carried cfg).Pairwise (SpanKept i.opening)
  windows : (i.carried cfg).Pairwise (WindowKept i.opening)
  ends : i.resolvedAt.isSome → ∀ f ∈ i.findings, SpanKept i.opening f i.latest

theorem Incident.Reports.times_iff {i : Incident} (h : i.Reports cfg) (r : Int → Int → Prop)
    (g : Int × Int × Int → Int) (p : AlertRecord → Int) (hp : ∀ u, p u = g u.times) :
    (i.updates.map p).Pairwise r ↔
      (i.carried cfg).Pairwise fun a b => r (g (seen i.opening a)) (g (seen i.opening b)) := by
  have hmap : i.updates.map p = (i.carried cfg).map (fun f => g (seen i.opening f)) := by
    rw [show p = g ∘ AlertRecord.times from funext hp, ← List.map_map, h.times, List.map_map]
    rfl
  rw [hmap, List.pairwise_map]

theorem Incident.monotone_iff {i : Incident} (h : i.Reports cfg) {P : Finding → Prop}
    (hv : i.Valid cfg P) : i.Monotone ↔ i.InOrder cfg := by
  have hfirst := h.times_iff (· ≥ ·) (·.1) (·.firstSeen) fun _ => rfl
  have hwin := h.times_iff (· ≥ ·) (·.2.1) (·.windowStart) fun _ => rfl
  have hlast := h.times_iff (· ≤ ·) (·.2.2) (·.lastSeen) fun _ => rfl
  -- a resolved update is the last one and carries the latest finding
  have hres : i.resolvedAt.isSome → ∃ u ∈ i.updates, u.status = .resolved ∧
      u.times = seen i.opening i.latest := by
    intro hs
    obtain ⟨t, ht⟩ := Option.isSome_iff_exists.1 hs
    obtain ⟨⟨us, u, hus, hu⟩, _⟩ := hv.resolved t ht
    refine ⟨u, by rw [hus]; simp, hu, ?_⟩
    have htimes := h.times
    rw [hus, Incident.carried, if_pos hs, List.map_append, List.map_append] at htimes
    exact (List.append_singleton_inj.1 htimes).2
  have honly : ∀ u ∈ i.updates, u.status = .resolved →
      i.resolvedAt.isSome ∧ u.times = seen i.opening i.latest := by
    intro u hu hst
    cases hr : i.resolvedAt with
    | none => exact absurd hst (hv.unresolved hr u hu)
    | some t =>
      obtain ⟨⟨us, w, hus, hw⟩, _⟩ := hv.resolved t hr
      have hdrop := hv.lifetime.closes
      rw [hus, List.dropLast_concat] at hdrop
      rw [hus] at hu
      rcases List.mem_append.1 hu with hu | hu
      · exact absurd hst (hdrop u hu)
      · obtain ⟨u', hu', hst', htimes⟩ := hres (by rw [hr]; rfl)
        rw [hus] at hu'
        rcases List.mem_append.1 hu' with hu' | hu'
        · exact absurd hst' (hdrop u' hu')
        · rw [List.mem_singleton.1 hu, ← List.mem_singleton.1 hu']
          exact ⟨rfl, htimes⟩
  constructor
  · intro hm
    refine ⟨?_, ?_, ?_⟩
    · have h1 := hfirst.1 hm.firstSeen
      have h2 := hlast.1 hm.lastSeen
      refine (h1.and h2).imp ?_
      rintro a b ⟨hab, hl⟩
      simp only [seen] at hab hl
      exact ⟨by omega, hl⟩
    · refine (hwin.1 hm.windowStart).imp ?_
      intro a b hab
      simp only [seen] at hab
      unfold WindowKept
      omega
    · intro hs f hf
      obtain ⟨u, hu, hst, htimes⟩ := hres hs
      obtain ⟨hl, hr⟩ := hm.covers u hu hst f hf
      have hu1 : u.firstSeen = (seen i.opening i.latest).1 := congrArg (·.1) htimes
      have hu2 : u.lastSeen = (seen i.opening i.latest).2.2 := congrArg (·.2.2) htimes
      simp only [seen] at hu1 hu2
      unfold SpanKept
      omega
  · intro ho
    refine ⟨h.evidence, hv.severity, hfirst.2 ?_, hwin.2 ?_, hlast.2 ?_, ?_⟩
    · refine ho.spans.imp ?_
      intro a b hab
      simp only [seen]
      unfold SpanKept at hab
      omega
    · refine ho.windows.imp ?_
      intro a b hab
      simp only [seen]
      unfold WindowKept at hab
      omega
    · exact ho.spans.imp fun hab => hab.2
    · intro u hu hst f hf
      obtain ⟨hs, htimes⟩ := honly u hu hst
      have hu1 : u.firstSeen = (seen i.opening i.latest).1 := congrArg (·.1) htimes
      have hu2 : u.lastSeen = (seen i.opening i.latest).2.2 := congrArg (·.2.2) htimes
      have hspan := ho.ends hs f hf
      simp only [seen] at hu1 hu2
      unfold SpanKept at hspan
      omega

/-- **Evidence accumulates exactly in the incidents whose findings come in order.**  For every
sequence of findings and timers, evidence count and severity never fall; the times are monotone,
and the resolved update covers every finding, iff the findings the updates carry are in order. -/
theorem evidence_accumulates (cfg : DetectConfig) (calls : List (Call Finding))
    (hf : ∀ f ∈ calls.filterMap Call.element, ∃ a, f = finding a) :
    ∃ hist, Tracks cfg IdsBounded calls hist ∧ ∀ i ∈ hist,
      (i.updates.map (·.evidence.evidenceCount)).Pairwise (· ≤ ·) ∧
      (i.updates.map (·.severity.rank)).Pairwise (· ≤ ·) ∧
      (i.Monotone ↔ i.InOrder cfg) := by
  obtain ⟨hist, ht, hr⟩ := tracked_stable (recorded_stable cfg) calls (by
    intro f hm
    obtain ⟨a, rfl⟩ := hf f hm
    exact finding_idsBounded a)
  refine ⟨hist, ht, ?_⟩
  intro i hi
  have hv := Ledger.valid ht i hi
  exact ⟨(hr.reports i hi).evidence, hv.severity, Incident.monotone_iff (hr.reports i hi) hv⟩

/-- A scan finding of the events from `first` to `last`, in milliseconds. -/
def spanFinding (first last : Int) (severity : Severity) : Finding :=
  finding
    { detector := "scan"
      threatClass := "scan"
      subtype := "horizontal_scan"
      entityType := "src_host"
      entityKey := "10.10.1.99"
      severity := severity
      score := some (8 / 10)
      method := "rule"
      detectorVersion := "scan-1.0.0"
      featureSchemaVersion := "scan_features-1.0.0"
      first := ⟨first, 1000 * first, 0, 1000 * first, "ot-sensor-01", none⟩
      last := ⟨last, 1000 * last, 0, 1000 * last, "ot-sensor-01", none⟩
      windowStartMs := first
      windowEndMs := last
      observed := [("hosts", .int 30)]
      thresholds := [("hosts", .int 20)]
      evidenceCount := 30 }

/-- The second finding is of earlier events than the first. -/
def lateCalls : List (Call Finding) :=
  [.event 0 (spanFinding 1788256800000 1788256810000 .medium),
    .event 0 (spanFinding 1788256790000 1788256805000 .high),
    .event 0 (spanFinding 1788256800000 1788256820000 .critical),
    .timer 0 1788257600000]

theorem lateCalls_findings : ∀ f ∈ lateCalls.filterMap Call.element, ∃ a, f = finding a := by
  intro f hf
  have hmem : f ∈ [spanFinding 1788256800000 1788256810000 .medium,
      spanFinding 1788256790000 1788256805000 .high,
      spanFinding 1788256800000 1788256820000 .critical] := hf
  simp only [List.mem_cons, List.not_mem_nil, or_false] at hmem
  rcases hmem with rfl | rfl | rfl <;> exact ⟨_, rfl⟩

theorem evidence_accumulates_late : ∃ hist, Tracks {} IdsBounded lateCalls hist ∧ ∀ i ∈ hist,
    (i.updates.map (·.evidence.evidenceCount)).Pairwise (· ≤ ·) ∧
    (i.updates.map (·.severity.rank)).Pairwise (· ≤ ·) ∧
    (i.Monotone ↔ i.InOrder {}) :=
  evidence_accumulates {} lateCalls lateCalls_findings

/-- The third update is first seen later than the second, and the second last seen earlier than the
first. -/
theorem incident_times_go_back : ¬ ∀ calls : List (Call Finding),
    (∀ f ∈ calls.filterMap Call.element, ∃ a, f = finding a) →
    ∀ hist, Tracks {} IdsBounded calls hist → ∀ i ∈ hist, i.Monotone := by
  intro hall
  obtain ⟨hist, ht⟩ := tracked {} lateCalls (P := IdsBounded) (by
    intro f hm
    obtain ⟨a, rfl⟩ := lateCalls_findings f hm
    exact finding_idsBounded a)
  have hopen : hist.map Incident.opening = [spanFinding 1788256800000 1788256810000 .medium] := by
    rw [← Ledger.openings ht]
    decide +kernel
  obtain ⟨i, rfl⟩ : ∃ i, hist = [i] := List.length_eq_one_iff.1 (by
    rw [← List.length_map (f := Incident.opening), hopen]
    rfl)
  have hups : i.updates.map (·.firstSeen) =
      [1788256800000, 1788256790000, 1788256800000, 1788256800000] := by
    have hmap := congrArg (List.map (·.firstSeen)) (Ledger.updates ht)
    rw [List.flatMap_singleton] at hmap
    rw [← hmap]
    decide +kernel
  have hm := (hall lateCalls lateCalls_findings [i] ht i (by simp)).firstSeen
  rw [hups] at hm
  exact absurd hm (by decide)

end OTS.Detect
