import OTSecurity.Detect.Alerts
import OTSecurity.Lib.Keyed
import OTSecurity.Lib.Lifetimes

/-!
# Incident correlation

Model of `IncidentLogic` of `flink/sih_detect/incidents.py`, for one key.

* `IncidentState` — the value state; `open`, `absorb`, `bump`, `resolve` — the pieces of `on_event`
  and `on_timer`.
* `incidentLogic` — the logic, with `Opens` for the findings that start an incident.
* `Incident` — the findings, updates and resolution time of one incident; `Tracks` relates the calls
  made so far, the value state and the incidents.

Principal results: `tracked` — the findings and updates of any sequence of calls are those of
consecutive incidents; `incident_lifecycle` — the form of these incidents, with the operator's
timers.
-/

namespace OTS.Detect

/-! ## The logic -/

/-- The dictionary of the state `incident`. -/
structure IncidentState where
  id : String
  seq : Nat
  rank : Nat
  lastEmit : Int
  lastObs : Int
  count : Nat
  emittedCount : Nat
  first : Int
  windowStart : Int
  ids : List String
  last : Finding
  subtypes : List String

/-- `_bucket_up` with its default step. -/
def bucketUp10s (ts : Int) : Int := (ts / 10000 + 1) * 10000

def DetectConfig.idleFor (cfg : DetectConfig) (threatClass : String) : Int :=
  if threatClass = "beaconing" then cfg.incidentIdleBeaconMs else cfg.incidentIdleMs

/-- `_severity_of`. -/
def severityOf (rank : Nat) : Severity :=
  ([.info, .low, .medium, .high, .critical].find? fun s => s.rank = rank).getD .info

/-- `_merged`. -/
def IncidentState.merged (st : IncidentState) (f : Finding) : Finding :=
  { f with
    rawEventIds := st.ids
    evidenceCount := max st.count st.ids.length
    firstSeenMs := min st.first f.firstSeenMs
    windowStartMs := min st.windowStart f.windowStartMs
    severity := severityOf st.rank }

def IncidentState.emit (st : IncidentState) (nowMs : Int) (f : Finding) (status : Status) :
    AlertRecord :=
  alertRecord nowMs (st.merged f) st.id st.seq status

/-- `_resolve`. -/
def IncidentState.resolve (st : IncidentState) (nowMs : Int) : AlertRecord :=
  { st with seq := st.seq + 1 }.emit nowMs st.last .resolved

/-- The incident epoch: the start of the finding's window, floored to the second. -/
def Finding.epochMs (f : Finding) : Int := f.windowStartMs / 1000 * 1000

/-- The state of a new incident. -/
def openState (f : Finding) : IncidentState where
  id := incidentId f.threatClass f.entityType f.entityKey f.epochMs
  seq := 1
  rank := f.severity.rank
  lastEmit := f.obsMs
  lastObs := f.obsMs
  count := f.evidenceCount
  emittedCount := f.evidenceCount
  first := f.firstSeenMs
  windowStart := f.windowStartMs
  ids := f.rawEventIds
  last := f
  subtypes := [f.subtype]

/-- What every further finding leaves in the state. -/
def IncidentState.absorb (st : IncidentState) (f : Finding) : IncidentState :=
  { st with
    lastObs := max st.lastObs f.obsMs
    count := max st.count f.evidenceCount
    ids := lastN 32 (st.ids ++ f.rawEventIds.filter (· ∉ st.ids))
    last := f
    subtypes := if f.subtype ∈ st.subtypes then st.subtypes
      else lastN 8 (st.subtypes ++ [f.subtype]) }

/-- The next update is about to be emitted. -/
def IncidentState.bump (st : IncidentState) (f : Finding) (rank : Nat) : IncidentState :=
  { st with
    seq := st.seq + 1
    rank := rank
    lastEmit := f.obsMs
    emittedCount := st.count }

/-- The status of the update that a further finding emits, if any; `st` has absorbed it. -/
def IncidentState.verdict (st : IncidentState) (cfg : DetectConfig) (f : Finding)
    (newSubtype : Bool) : Option Status :=
  if f.severity.rank > st.rank then some .escalated
  else if newSubtype then some .updated
  else if f.obsMs - st.lastEmit ≥ cfg.incidentCooldownMs ∧ st.count > st.emittedCount then
    some .updated
  else none

/-- A finding of the open incident; only an escalation raises the rank. -/
def IncidentState.further (st : IncidentState) (cfg : DetectConfig) (nowMs : Int) (f : Finding) :
    IncidentState × List AlertRecord :=
  match (st.absorb f).verdict cfg f (f.subtype ∉ st.subtypes) with
  | none => (st.absorb f, [])
  | some status =>
    let st' := (st.absorb f).bump f (max st.rank f.severity.rank)
    (st', [st'.emit nowMs f status])

/-- Whether a finding starts an incident: none is open, or the open one has been idle for too long
when the finding arrives. -/
def Opens (cfg : DetectConfig) (v : Option IncidentState) (f : Finding) : Prop :=
  ∀ st, v = some st → st.lastObs + cfg.idleFor f.threatClass < f.obsMs

instance (cfg : DetectConfig) (v : Option IncidentState) (f : Finding) :
    Decidable (Opens cfg v f) :=
  match v with
  | none => isTrue (by simp [Opens])
  | some st => decidable_of_iff (st.lastObs + cfg.idleFor f.threatClass < f.obsMs) (by simp [Opens])

def onEvent (cfg : DetectConfig) (nowUs : Int) (v : Option IncidentState) (f : Finding) :
    Effect IncidentState AlertRecord :=
  let idle := cfg.idleFor f.threatClass
  let r : IncidentState × List AlertRecord :=
    match v with
    | none => (openState f, [(openState f).emit (nowUs / 1000) f .new])
    | some st =>
      if st.lastObs + idle < f.obsMs then
        (openState f, [st.resolve (nowUs / 1000), (openState f).emit (nowUs / 1000) f .new])
      else st.further cfg (nowUs / 1000) f
  ⟨some r.1, [bucketUp10s (r.1.lastObs + idle)], r.2⟩

def onTimer (cfg : DetectConfig) (nowUs : Int) (v : Option IncidentState) (ts : Int) :
    Effect IncidentState AlertRecord :=
  match v with
  | none => ⟨none, [], []⟩
  | some st =>
    if st.lastObs + cfg.idleFor st.last.threatClass ≤ ts then
      ⟨none, [], [st.resolve (nowUs / 1000)]⟩
    else ⟨some st, [], []⟩

def incidentLogic (cfg : DetectConfig) : Logic Finding IncidentState AlertRecord :=
  ⟨onEvent cfg, onTimer cfg⟩

/-! ## What a call does -/

variable {cfg : DetectConfig}

@[simp] theorem emit_incidentId (st : IncidentState) (nowMs : Int) (f : Finding)
    (status : Status) : (st.emit nowMs f status).incidentId = st.id := rfl

@[simp] theorem emit_updateSeq (st : IncidentState) (nowMs : Int) (f : Finding)
    (status : Status) : (st.emit nowMs f status).updateSeq = st.seq := rfl

@[simp] theorem emit_status (st : IncidentState) (nowMs : Int) (f : Finding)
    (status : Status) : (st.emit nowMs f status).status = status := rfl

@[simp] theorem emit_severity (st : IncidentState) (nowMs : Int) (f : Finding)
    (status : Status) : (st.emit nowMs f status).severity = severityOf st.rank := rfl

@[simp] theorem resolve_incidentId (st : IncidentState) (nowMs : Int) :
    (st.resolve nowMs).incidentId = st.id := rfl

@[simp] theorem resolve_updateSeq (st : IncidentState) (nowMs : Int) :
    (st.resolve nowMs).updateSeq = st.seq + 1 := rfl

@[simp] theorem resolve_status (st : IncidentState) (nowMs : Int) :
    (st.resolve nowMs).status = .resolved := rfl

@[simp] theorem resolve_severity (st : IncidentState) (nowMs : Int) :
    (st.resolve nowMs).severity = severityOf st.rank := rfl

theorem severityOf_rank (s : Severity) : severityOf s.rank = s := by cases s <;> rfl

theorem onEvent_opens {nowUs : Int} {v : Option IncidentState} {f : Finding} (h : Opens cfg v f) :
    (onEvent cfg nowUs v f).value = some (openState f) ∧
      (onEvent cfg nowUs v f).out = v.toList.map (·.resolve (nowUs / 1000)) ++
        [(openState f).emit (nowUs / 1000) f .new] := by
  cases v with
  | none => exact ⟨rfl, rfl⟩
  | some st =>
    have hlate := h st rfl
    simp [onEvent, hlate]

theorem onEvent_further {nowUs : Int} {st : IncidentState} {f : Finding}
    (h : ¬ Opens cfg (some st) f) :
    (onEvent cfg nowUs (some st) f).value = some (st.further cfg (nowUs / 1000) f).1 ∧
      (onEvent cfg nowUs (some st) f).out = (st.further cfg (nowUs / 1000) f).2 := by
  have hlate : ¬ st.lastObs + cfg.idleFor f.threatClass < f.obsMs := by
    simpa [Opens] using h
  simp [onEvent, hlate]

theorem onTimer_none {nowUs ts : Int} : onTimer cfg nowUs none ts = ⟨none, [], []⟩ := rfl

/-- What a further finding does: the incident keeps its identity, and emits at most one update, the
next in number, with a severity between the rank before and the rank after. -/
theorem further_spec (st : IncidentState) (nowMs : Int) (f : Finding) :
    (st.further cfg nowMs f).1.id = st.id ∧
    (st.further cfg nowMs f).1.lastObs = max st.lastObs f.obsMs ∧
    (st.further cfg nowMs f).1.last = f ∧
    ((st.further cfg nowMs f).2 = [] ∧ (st.further cfg nowMs f).1.seq = st.seq ∧
        (st.further cfg nowMs f).1.rank = st.rank ∨
      ∃ status, status ≠ .new ∧ status ≠ .resolved ∧
        (st.further cfg nowMs f).2 = [(st.further cfg nowMs f).1.emit nowMs f status] ∧
        (st.further cfg nowMs f).1.seq = st.seq + 1 ∧
        (st.further cfg nowMs f).1.rank = max st.rank f.severity.rank) := by
  unfold IncidentState.further
  cases h : (st.absorb f).verdict cfg f (f.subtype ∉ st.subtypes) with
  | none => exact ⟨rfl, rfl, rfl, .inl ⟨rfl, rfl, rfl⟩⟩
  | some status =>
    refine ⟨rfl, rfl, rfl, .inr ⟨status, ?_, ?_, rfl, rfl, rfl⟩⟩ <;>
    · rintro rfl
      unfold IncidentState.verdict at h
      split_ifs at h <;> cases h

/-! ## Incidents -/

/-- The time of a call: of the finding that arrives, or of the timer. -/
def callTime : Call Finding → Int
  | .event _ f => f.obsMs
  | .timer _ ts => ts

/-- One incident of a run. -/
structure Incident where
  opening : Finding
  further : List Finding
  updates : List AlertRecord
  resolvedAt : Option Int

def Incident.findings (i : Incident) : List Finding := i.opening :: i.further

def Incident.id (i : Incident) : String :=
  incidentId i.opening.threatClass i.opening.entityType i.opening.entityKey i.opening.epochMs

/-- Updates are numbered within the incident they name, and `resolved` closes it. -/
def updateReading : Reading AlertRecord String :=
  ⟨AlertRecord.incidentId, AlertRecord.updateSeq, fun u => u.status = .resolved⟩

/-- The findings that start an incident. -/
def openings (cfg : DetectConfig) (calls : List (Call Finding)) : List Finding :=
  (incidentLogic cfg).observe (fun v c => c.element.toList.filter (Opens cfg v ·)) none calls

/-- The times of the calls that emit a `resolved` update. -/
def resolutions (cfg : DetectConfig) (calls : List (Call Finding)) : List Int :=
  (incidentLogic cfg).observe
    (fun v c => ((((incidentLogic cfg).call v c).out.filter (·.status = .resolved)).map
      fun _ => callTime c)) none calls

/-- The form of one incident of findings that satisfy `P`. -/
structure Incident.Valid (cfg : DetectConfig) (P : Finding → Prop) (i : Incident) : Prop where
  onKey : ∀ f ∈ i.findings, P f
  lifetime : Lifetime updateReading i.id i.updates
  opened : ∃ u us, i.updates = u :: us ∧ u.status = .new ∧ ∀ w ∈ us, w.status ≠ .new
  severity : (i.updates.map (·.severity.rank)).Pairwise (· ≤ ·)
  unresolved : i.resolvedAt = none → ∀ u ∈ i.updates, u.status ≠ .resolved
  resolved : ∀ t, i.resolvedAt = some t → (∃ us u, i.updates = us ++ [u] ∧ u.status = .resolved) ∧
    ∃ g, P g ∧ ∀ f ∈ i.findings, f.obsMs + cfg.idleFor g.threatClass ≤ t

/-- The open incident and the state that the logic keeps of it. -/
structure Incident.OpenWith (i : Incident) (st : IncidentState) : Prop where
  unresolved : i.resolvedAt = none
  id : st.id = i.id
  seq : st.seq = i.updates.length
  obs : ∀ f ∈ i.findings, f.obsMs ≤ st.lastObs
  last : st.last ∈ i.findings
  rank : ∃ sev : Severity, st.rank = sev.rank ∧ ∀ u ∈ i.updates, u.severity.rank ≤ st.rank

/-- The findings `fs`, updates `us`, opening findings `os` and resolution times `ts` of a run are
those of the incidents `hist`, all resolved except the last one when there is a state. -/
structure Ledger (cfg : DetectConfig) (P : Finding → Prop) (v : Option IncidentState)
    (fs : List Finding) (us : List AlertRecord) (os : List Finding) (ts : List Int)
    (hist : List Incident) : Prop where
  valid : ∀ i ∈ hist, i.Valid cfg P
  findings : fs = hist.flatMap Incident.findings
  updates : us = hist.flatMap Incident.updates
  openings : os = hist.map Incident.opening
  resolutions : ts = hist.filterMap Incident.resolvedAt
  idle : v = none → ∀ i ∈ hist, i.resolvedAt.isSome
  running : ∀ st, v = some st →
    ∃ past i, hist = past ++ [i] ∧ (∀ j ∈ past, j.resolvedAt.isSome) ∧ i.OpenWith st

/-- The ledger of the calls made so far. -/
def Tracks (cfg : DetectConfig) (P : Finding → Prop) (calls : List (Call Finding))
    (hist : List Incident) : Prop :=
  Ledger cfg P ((incidentLogic cfg).valueAfter none calls) (calls.filterMap Call.element)
    ((incidentLogic cfg).emitted none calls) (openings cfg calls) (resolutions cfg calls) hist

/-! ## One incident grows -/

variable {P : Finding → Prop}

/-- The incident that a finding starts. -/
def Incident.start (f : Finding) (nowMs : Int) : Incident :=
  ⟨f, [], [(openState f).emit nowMs f .new], none⟩

theorem Incident.start_valid {f : Finding} (nowMs : Int) (hf : P f) :
    (Incident.start f nowMs).Valid cfg P where
  onKey := by
    intro g hg
    rw [List.mem_singleton.1 hg]
    exact hf
  lifetime := .single rfl rfl
  opened := ⟨_, [], rfl, rfl, by simp⟩
  severity := List.pairwise_singleton ..
  unresolved := by
    intro _ u hu
    rw [List.mem_singleton.1 hu]
    exact Status.noConfusion
  resolved := by
    intro t ht
    cases ht

theorem Incident.start_open (f : Finding) (nowMs : Int) :
    (Incident.start f nowMs).OpenWith (openState f) where
  unresolved := rfl
  id := rfl
  seq := rfl
  obs := by
    intro g hg
    rw [List.mem_singleton.1 hg]
    exact le_refl _
  last := List.mem_singleton.2 rfl
  rank := by
    refine ⟨f.severity, rfl, ?_⟩
    intro u hu
    rw [List.mem_singleton.1 hu]
    show (severityOf f.severity.rank).rank ≤ f.severity.rank
    rw [severityOf_rank]

/-- The open incident with a further finding and the updates it emits. -/
def Incident.grow (i : Incident) (f : Finding) (us : List AlertRecord) : Incident :=
  { i with further := i.further ++ [f], updates := i.updates ++ us }

theorem Incident.findings_grow (i : Incident) (f : Finding) (us : List AlertRecord) :
    (i.grow f us).findings = i.findings ++ [f] := rfl

/-- One more update of the open incident, with the severity of the rank it leaves. -/
theorem Incident.Valid.append_update {i : Incident} {st : IncidentState} (hv : i.Valid cfg P)
    (ho : i.OpenWith st) {u : AlertRecord} (hid : u.incidentId = st.id)
    (hseq : u.updateSeq = st.seq + 1) (hnew : u.status ≠ .new) (hrank : st.rank ≤ u.severity.rank) :
    Lifetime updateReading i.id (i.updates ++ [u]) ∧
    (∃ w us, i.updates ++ [u] = w :: us ∧ w.status = .new ∧ ∀ x ∈ us, x.status ≠ .new) ∧
    ((i.updates ++ [u]).map (·.severity.rank)).Pairwise (· ≤ ·) := by
  refine ⟨?_, ?_, ?_⟩
  · exact hv.lifetime.concat (hv.unresolved ho.unresolved) (hid.trans ho.id) (hseq.trans (by rw [ho.seq]))
  · obtain ⟨w, us, hw, hwn, hrest⟩ := hv.opened
    refine ⟨w, us ++ [u], by rw [hw]; rfl, hwn, ?_⟩
    intro x hx
    rcases List.mem_append.1 hx with hx | hx
    · exact hrest x hx
    · rw [List.mem_singleton.1 hx]
      exact hnew
  · rw [List.map_append, List.pairwise_append]
    refine ⟨hv.severity, List.pairwise_singleton .., ?_⟩
    intro a ha b hb
    obtain ⟨w, hw, rfl⟩ := List.mem_map.1 ha
    rw [List.mem_singleton.1 hb]
    obtain ⟨_, _, hle⟩ := ho.rank
    exact (hle w hw).trans hrank

theorem further_rank {i : Incident} {st : IncidentState} (ho : i.OpenWith st) (f : Finding) :
    ∃ sev : Severity, max st.rank f.severity.rank = sev.rank := by
  obtain ⟨sev, hsev, _⟩ := ho.rank
  rcases le_total st.rank f.severity.rank with h | h
  · exact ⟨f.severity, max_eq_right h⟩
  · exact ⟨sev, (max_eq_left h).trans hsev⟩

theorem Incident.grow_valid {i : Incident} {st : IncidentState} (hv : i.Valid cfg P)
    (ho : i.OpenWith st) (nowMs : Int) {f : Finding} (hf : P f) :
    (i.grow f (st.further cfg nowMs f).2).Valid cfg P := by
  have hkey : ∀ g ∈ (i.grow f (st.further cfg nowMs f).2).findings, P g := by
    intro g hg
    rw [Incident.findings_grow] at hg
    rcases List.mem_append.1 hg with hg | hg
    · exact hv.onKey g hg
    · rw [List.mem_singleton.1 hg]
      exact hf
  obtain ⟨hid, _, _, ⟨hout, _⟩ | ⟨status, hnew, hres, hout, hseq, hrank⟩⟩ :=
    @further_spec cfg st nowMs f
  · rw [hout] at hkey ⊢
    have hsame : (i.grow f []).updates = i.updates := List.append_nil _
    refine ⟨hkey, ?_, ?_, ?_, ?_, ?_⟩
    · rw [hsame]; exact hv.lifetime
    · rw [hsame]; exact hv.opened
    · rw [hsame]; exact hv.severity
    · rw [hsame]; exact hv.unresolved
    · intro t ht
      exact absurd (ho.unresolved.symm.trans ht) (by simp)
  · rw [hout] at hkey ⊢
    obtain ⟨sev, hsev⟩ := further_rank ho f
    obtain ⟨hlife, hopen, hsort⟩ := hv.append_update ho
      (u := (st.further cfg nowMs f).1.emit nowMs f status) (by rw [emit_incidentId, hid])
      (by rw [emit_updateSeq, hseq]) hnew
      (by rw [emit_severity, hrank, hsev, severityOf_rank, ← hsev]; exact le_max_left _ _)
    refine ⟨hkey, hlife, hopen, hsort, ?_, ?_⟩
    · intro _ u hu
      rcases List.mem_append.1 hu with hu | hu
      · exact hv.unresolved ho.unresolved u hu
      · rw [List.mem_singleton.1 hu]
        exact hres
    · intro t ht
      exact absurd (ho.unresolved.symm.trans ht) (by simp)

theorem Incident.grow_open {i : Incident} {st : IncidentState} (ho : i.OpenWith st) (nowMs : Int)
    (f : Finding) :
    (i.grow f (st.further cfg nowMs f).2).OpenWith (st.further cfg nowMs f).1 := by
  obtain ⟨hid, hobs, hlast, hcase⟩ := @further_spec cfg st nowMs f
  refine ⟨ho.unresolved, hid.trans ho.id, ?_, ?_, ?_, ?_⟩
  · rcases hcase with ⟨hout, hseq, _⟩ | ⟨_, _, _, hout, hseq, _⟩
    · rw [hseq, hout, ho.seq]
      simp [Incident.grow]
    · rw [hseq, hout, ho.seq]
      simp [Incident.grow]
  · intro g hg
    rw [hobs]
    rw [Incident.findings_grow] at hg
    rcases List.mem_append.1 hg with hg | hg
    · exact (ho.obs g hg).trans (le_max_left _ _)
    · rw [List.mem_singleton.1 hg]
      exact le_max_right _ _
  · rw [hlast, Incident.findings_grow]
    simp
  · obtain ⟨sev, hsev, hle⟩ := ho.rank
    rcases hcase with ⟨hout, _, hrank⟩ | ⟨_, _, _, hout, _, hrank⟩
    · rw [hrank, hout]
      refine ⟨sev, hsev, ?_⟩
      intro u hu
      exact hle u (by simpa [Incident.grow] using hu)
    · obtain ⟨sev', hsev'⟩ := further_rank ho f
      rw [hout]
      refine ⟨sev', hrank.trans hsev', ?_⟩
      intro u hu
      rcases List.mem_append.1 hu with hu | hu
      · rw [hrank]
        exact (hle u hu).trans (le_max_left _ _)
      · rw [List.mem_singleton.1 hu, emit_severity, hrank, hsev', severityOf_rank]

/-- The open incident once it is resolved at time `t`. -/
def Incident.close (i : Incident) (u : AlertRecord) (t : Int) : Incident :=
  { i with updates := i.updates ++ [u], resolvedAt := some t }

theorem Incident.close_valid {i : Incident} {st : IncidentState} (hv : i.Valid cfg P)
    (ho : i.OpenWith st) (nowMs : Int) {t : Int} {g : Finding} (hg : P g)
    (ht : st.lastObs + cfg.idleFor g.threatClass ≤ t) :
    (i.close (st.resolve nowMs) t).Valid cfg P := by
  obtain ⟨sev, hsev, _⟩ := ho.rank
  obtain ⟨hlife, hopen, hsort⟩ := hv.append_update ho (u := st.resolve nowMs) rfl rfl
    Status.noConfusion (by rw [resolve_severity, hsev, severityOf_rank])
  refine ⟨hv.onKey, hlife, hopen, hsort, by simp [Incident.close], ?_⟩
  intro t' ht'
  cases ht'
  refine ⟨⟨i.updates, _, rfl, rfl⟩, g, hg, ?_⟩
  intro f hf
  have := ho.obs f hf
  omega

/-! ## Every run is a sequence of incidents -/

section Ledger

variable {st : IncidentState} {fs : List Finding} {us : List AlertRecord} {os : List Finding}
  {ts : List Int} {hist : List Incident} {f : Finding}

theorem Ledger.nil : Ledger cfg P none [] [] [] [] [] where
  valid := by simp
  findings := rfl
  updates := rfl
  openings := rfl
  resolutions := rfl
  idle := by simp
  running := by simp

theorem Ledger.start (h : Ledger cfg P none fs us os ts hist) (nowMs : Int) (hf : P f) :
    Ledger cfg P (some (openState f)) (fs ++ [f]) (us ++ [(openState f).emit nowMs f .new])
      (os ++ [f]) ts (hist ++ [Incident.start f nowMs]) where
  valid := by
    intro i hi
    rcases List.mem_append.1 hi with hi | hi
    · exact h.valid i hi
    · rw [List.mem_singleton.1 hi]
      exact Incident.start_valid nowMs hf
  findings := by rw [h.findings]; simp [Incident.start, Incident.findings]
  updates := by rw [h.updates]; simp [Incident.start]
  openings := by rw [h.openings]; simp [Incident.start]
  resolutions := by rw [h.resolutions]; simp [Incident.start]
  idle := by simp
  running := by
    rintro _ ⟨⟩
    exact ⟨hist, _, rfl, h.idle rfl, Incident.start_open f nowMs⟩

theorem Ledger.close (h : Ledger cfg P (some st) fs us os ts hist) (nowMs : Int) {t : Int}
    {g : Finding} (hg : P g) (ht : st.lastObs + cfg.idleFor g.threatClass ≤ t) :
    ∃ past i, hist = past ++ [i] ∧ i.resolvedAt = none ∧
      Ledger cfg P none fs (us ++ [st.resolve nowMs]) os (ts ++ [t])
        (past ++ [i.close (st.resolve nowMs) t]) := by
  obtain ⟨past, i, rfl, hpast, ho⟩ := h.running st rfl
  have hv := h.valid i (by simp)
  refine ⟨past, i, rfl, ho.unresolved, ?_, ?_, ?_, ?_, ?_, ?_, ?_⟩
  · intro j hj
    rcases List.mem_append.1 hj with hj | hj
    · exact h.valid j (List.mem_append_left _ hj)
    · rw [List.mem_singleton.1 hj]
      exact Incident.close_valid hv ho nowMs hg ht
  · rw [h.findings]; simp [Incident.close, Incident.findings]
  · rw [h.updates]; simp [Incident.close]
  · rw [h.openings]; simp [Incident.close]
  · rw [h.resolutions]; simp [Incident.close, ho.unresolved]
  · intro _ j hj
    rcases List.mem_append.1 hj with hj | hj
    · exact hpast j hj
    · rw [List.mem_singleton.1 hj]
      rfl
  · simp

theorem Ledger.grow (h : Ledger cfg P (some st) fs us os ts hist) (nowMs : Int) (hf : P f) :
    ∃ past i, hist = past ++ [i] ∧ i.resolvedAt = none ∧
      Ledger cfg P (some (st.further cfg nowMs f).1) (fs ++ [f])
        (us ++ (st.further cfg nowMs f).2) os ts
        (past ++ [i.grow f (st.further cfg nowMs f).2]) := by
  obtain ⟨past, i, rfl, hpast, ho⟩ := h.running st rfl
  have hv := h.valid i (by simp)
  refine ⟨past, i, rfl, ho.unresolved, ?_, ?_, ?_, ?_, ?_, ?_, ?_⟩
  · intro j hj
    rcases List.mem_append.1 hj with hj | hj
    · exact h.valid j (List.mem_append_left _ hj)
    · rw [List.mem_singleton.1 hj]
      exact Incident.grow_valid hv ho nowMs hf
  · rw [h.findings]; simp [Incident.grow, Incident.findings]
  · rw [h.updates]; simp [Incident.grow]
  · rw [h.openings]; simp [Incident.grow]
  · rw [h.resolutions]; simp [Incident.grow, ho.unresolved]
  · simp
  · rintro _ ⟨⟩
    exact ⟨past, _, rfl, hpast, Incident.grow_open ho nowMs f⟩

/-- A property of the state and the incidents so far that opening, growing and closing keep. -/
structure Stable (cfg : DetectConfig) (P : Finding → Prop)
    (R : Option IncidentState → List Incident → Prop) : Prop where
  nil : R none []
  start : ∀ hist nowMs f, P f → R none hist →
    R (some (openState f)) (hist ++ [Incident.start f nowMs])
  grow : ∀ st past i nowMs f, P f → i.resolvedAt = none → R (some st) (past ++ [i]) →
    R (some (st.further cfg nowMs f).1) (past ++ [i.grow f (st.further cfg nowMs f).2])
  close : ∀ st past i nowMs t, i.resolvedAt = none → R (some st) (past ++ [i]) →
    R none (past ++ [i.close (st.resolve nowMs) t])

variable {R : Option IncidentState → List Incident → Prop}

theorem Ledger.event {v : Option IncidentState} (h : Ledger cfg P v fs us os ts hist)
    (hR : Stable cfg P R) (r : R v hist) (nowUs : Int) (hf : P f) :
    ∃ hist', Ledger cfg P (onEvent cfg nowUs v f).value (fs ++ [f])
      (us ++ (onEvent cfg nowUs v f).out) (os ++ [f].filter (Opens cfg v ·))
      (ts ++ ((onEvent cfg nowUs v f).out.filter (·.status = .resolved)).map fun _ => f.obsMs)
      hist' ∧ R (onEvent cfg nowUs v f).value hist' := by
  by_cases hopens : Opens cfg v f
  · obtain ⟨hval, hout⟩ := @onEvent_opens cfg nowUs _ _ hopens
    rw [hval, hout]
    cases v with
    | none =>
      exact ⟨_, by simpa [hopens] using h.start (nowUs / 1000) hf, hR.start _ _ _ hf r⟩
    | some st =>
      have hlate : st.lastObs + cfg.idleFor f.threatClass ≤ f.obsMs := le_of_lt (hopens st rfl)
      obtain ⟨past, i, rfl, hnone, hclosed⟩ := h.close (nowUs / 1000) hf hlate
      exact ⟨_, by simpa [hopens] using hclosed.start (nowUs / 1000) hf,
        hR.start _ _ _ hf (hR.close _ _ _ _ _ hnone r)⟩
  · cases v with
    | none => exact absurd (by simp [Opens]) hopens
    | some st =>
      obtain ⟨hval, hout⟩ := @onEvent_further cfg nowUs _ _ hopens
      rw [hval, hout]
      obtain ⟨past, i, rfl, hnone, hgrown⟩ := h.grow (nowUs / 1000) hf
      have hres : (st.further cfg (nowUs / 1000) f).2.filter (·.status = .resolved) = [] := by
        obtain ⟨_, _, _, ⟨hout, _⟩ | ⟨status, _, hres, hout, _⟩⟩ :=
          @further_spec cfg st (nowUs / 1000) f
        · rw [hout]; rfl
        · rw [hout]; simp [hres]
      exact ⟨_, by simpa [hopens, hres] using hgrown, hR.grow _ _ _ _ _ hf hnone r⟩

theorem Ledger.timer {v : Option IncidentState} (h : Ledger cfg P v fs us os ts hist)
    (hR : Stable cfg P R) (r : R v hist) (nowUs t : Int) :
    ∃ hist', Ledger cfg P (onTimer cfg nowUs v t).value fs (us ++ (onTimer cfg nowUs v t).out) os
      (ts ++ ((onTimer cfg nowUs v t).out.filter (·.status = .resolved)).map fun _ => t) hist' ∧
      R (onTimer cfg nowUs v t).value hist' := by
  cases v with
  | none => exact ⟨hist, by simpa [onTimer_none] using h, r⟩
  | some st =>
    by_cases hdue : st.lastObs + cfg.idleFor st.last.threatClass ≤ t
    · obtain ⟨past, i, hh, _, ho⟩ := h.running st rfl
      have hP : P st.last := (h.valid i (by rw [hh]; simp)).onKey st.last ho.last
      obtain ⟨past, i, rfl, hnone, hclosed⟩ := h.close (nowUs / 1000) hP hdue
      exact ⟨_, by simpa [onTimer, hdue] using hclosed,
        by simpa [onTimer, hdue] using hR.close _ _ _ (nowUs / 1000) t hnone r⟩
    · exact ⟨hist, by simpa [onTimer, hdue] using h, by simpa [onTimer, hdue] using r⟩

end Ledger

/-- Every sequence of calls is one of consecutive incidents, of which every stable property holds. -/
theorem tracked_stable {P : Finding → Prop} {R : Option IncidentState → List Incident → Prop}
    (hR : Stable cfg P R) (calls : List (Call Finding))
    (hP : ∀ f ∈ calls.filterMap Call.element, P f) :
    ∃ hist, Tracks cfg P calls hist ∧ R ((incidentLogic cfg).valueAfter none calls) hist := by
  induction calls using List.reverseRecOn with
  | nil => exact ⟨[], Ledger.nil, hR.nil⟩
  | append_singleton calls c ih =>
    rw [List.filterMap_append] at hP
    obtain ⟨hist, h, r⟩ := ih fun f hf => hP f (List.mem_append_left _ hf)
    unfold Tracks openings resolutions
    rw [Logic.valueAfter_concat, Logic.emitted_concat, Logic.observe_concat, Logic.observe_concat,
      List.filterMap_append]
    cases c with
    | event now f =>
      exact h.event hR r now (hP f (List.mem_append_right _ (by simp [Call.element])))
    | timer now t =>
      obtain ⟨hist', h', r'⟩ := h.timer hR r now t
      refine ⟨hist', ?_, r'⟩
      rw [← List.append_nil (calls.filterMap Call.element), ← List.append_nil (OTS.Detect.openings _ _)] at h'
      exact h'

theorem stable_true (cfg : DetectConfig) (P : Finding → Prop) : Stable cfg P fun _ _ => True :=
  ⟨trivial, fun _ _ _ _ h => h, fun _ _ _ _ _ _ _ h => h, fun _ _ _ _ _ _ h => h⟩

/-- **Every sequence of calls is one of consecutive incidents.** -/
theorem tracked (cfg : DetectConfig) {P : Finding → Prop} (calls : List (Call Finding))
    (hP : ∀ f ∈ calls.filterMap Call.element, P f) : ∃ hist, Tracks cfg P calls hist := by
  obtain ⟨hist, h, _⟩ := tracked_stable (stable_true cfg P) calls hP
  exact ⟨hist, h⟩

/-! ## The lifecycle of incidents -/

/-- The key of an incident. -/
structure IncidentKey where
  threatClass : String
  entityType : String
  entityKey : String

/-- A finding of the key `k`. -/
def IncidentKey.Of (k : IncidentKey) (f : Finding) : Prop :=
  f.threatClass = k.threatClass ∧ f.entityType = k.entityType ∧ f.entityKey = k.entityKey

/-- The findings that reach the operator are those of its key. -/
def OnKey (k : IncidentKey) (_ : Operator Finding IncidentState AlertRecord) (a : Act Finding) :
    Prop :=
  ∀ now f, a = .event now f → k.Of f

instance (k : IncidentKey) (f : Finding) : Decidable (k.Of f) :=
  inferInstanceAs (Decidable (_ ∧ _))

instance (k : IncidentKey) (s : Operator Finding IncidentState AlertRecord) (a : Act Finding) :
    Decidable (OnKey k s a) :=
  match a with
  | .event _ f => decidable_of_iff (k.Of f) (by simp [OnKey])
  | .advance _ => isTrue (fun _ _ h => by cases h)
  | .fire _ => isTrue (fun _ _ h => by cases h)

theorem incidentLogic_quiet (cfg : DetectConfig) : Operator.Quiet (incidentLogic cfg) := by
  intro now v ts
  show (onTimer cfg now v ts).timers = []
  unfold onTimer
  split
  · rfl
  · split <;> rfl

theorem onEvent_value (cfg : DetectConfig) (nowUs : Int) (v : Option IncidentState) (f : Finding) :
    ∃ st, (onEvent cfg nowUs v f).value = some st ∧ st.last = f ∧
      (onEvent cfg nowUs v f).timers = [bucketUp10s (st.lastObs + cfg.idleFor f.threatClass)] := by
  refine ⟨_, rfl, ?_, rfl⟩
  cases v with
  | none => rfl
  | some st =>
    simp only
    split
    · rfl
    · exact (further_spec st (nowUs / 1000) f).2.2.1

theorem le_bucketUp10s (ts : Int) : ts ≤ bucketUp10s ts := by
  unfold bucketUp10s
  omega

/-- Whenever there is a state, a timer is registered that will resolve it. -/
def Timed (cfg : DetectConfig) (s : Operator Finding IncidentState AlertRecord) : Prop :=
  ∀ st, s.value = some st → ∃ t ∈ s.timers, st.lastObs + cfg.idleFor st.last.threatClass ≤ t

theorem Timed.step {s s' : Operator Finding IncidentState AlertRecord} {a : Act Finding}
    (h : Timed cfg s) (hs : s.step (incidentLogic cfg) a = some s') : Timed cfg s' := by
  cases a with
  | event now f =>
    cases hs
    obtain ⟨st', hval, hlast, htimers⟩ := onEvent_value cfg now s.value f
    intro st hst
    have hst' : (onEvent cfg now s.value f).value = some st := hst
    obtain rfl : st' = st := Option.some.inj (hval.symm.trans hst')
    have hle := le_bucketUp10s (st'.lastObs + cfg.idleFor f.threatClass)
    refine ⟨bucketUp10s (st'.lastObs + cfg.idleFor f.threatClass), ?_, by rw [hlast]; exact hle⟩
    show _ ∈ (onEvent cfg now s.value f).timers.foldl register s.timers
    rw [htimers]
    exact mem_register.2 (.inl rfl)
  | advance w =>
    simp only [Operator.step] at hs
    split at hs
    · cases hs; exact h
    · cases hs
  | fire now =>
    simp only [Operator.step, Option.map_eq_some_iff] at hs
    obtain ⟨⟨ts, u⟩, hd, rfl⟩ := hs
    obtain ⟨hv, _, _, _, htimers, _⟩ := Operator.due_some hd
    intro st hst
    have hst' : (onTimer cfg now u.value ts).value = some st := hst
    rw [hv] at hst'
    cases hval : s.value with
    | none => rw [hval] at hst'; cases hst'
    | some st₀ =>
      rw [hval] at hst'
      unfold onTimer at hst'
      simp only at hst'
      split at hst'
      · cases hst'
      · rename_i hnot
        cases hst'
        obtain ⟨t, ht, hle⟩ := h st hval
        rw [htimers] at ht
        refine ⟨t, ?_, hle⟩
        show t ∈ (onTimer cfg now u.value ts).timers.foldl register u.timers
        rw [show (onTimer cfg now u.value ts).timers = [] from incidentLogic_quiet cfg now u.value ts]
        rcases List.mem_cons.1 ht with rfl | ht
        · exact absurd hle hnot
        · exact ht

/-- One incident of the key `k`: its updates carry one identity, are numbered from 1 on, start with
`new` and end with `resolved` if it is resolved; severity never falls; it is resolved no earlier
than `idle` after every one of its findings. -/
structure Incident.WellFormed (cfg : DetectConfig) (k : IncidentKey) (i : Incident) : Prop where
  identity : ∀ u ∈ i.updates, u.incidentId = i.id
  numbered : i.updates.map (·.updateSeq) = List.range' 1 i.updates.length
  opened : ∃ u us, i.updates = u :: us ∧ u.status = .new ∧ ∀ w ∈ us, w.status ≠ .new
  severity : (i.updates.map (·.severity.rank)).Pairwise (· ≤ ·)
  unresolved : i.resolvedAt = none → ∀ u ∈ i.updates, u.status ≠ .resolved
  resolved : ∀ t, i.resolvedAt = some t →
    (∃ us u, i.updates = us ++ [u] ∧ u.status = .resolved ∧ ∀ w ∈ us, w.status ≠ .resolved) ∧
    ∀ f ∈ i.findings, f.obsMs + cfg.idleFor k.threatClass ≤ t

/-- The findings and updates of an operator are those of consecutive incidents: all but the last
are resolved, and the last is open exactly when the operator has a state. -/
structure Lifecycle (cfg : DetectConfig) (k : IncidentKey)
    (s : Operator Finding IncidentState AlertRecord) (hist : List Incident) : Prop where
  findings : s.log.filterMap Call.element = hist.flatMap Incident.findings
  updates : s.out = hist.flatMap Incident.updates
  resolutions : resolutions cfg s.log = hist.filterMap Incident.resolvedAt
  wellFormed : ∀ i ∈ hist, i.WellFormed cfg k
  oneOpen : ∀ i ∈ hist.dropLast, i.resolvedAt.isSome
  state : s.value = none ↔ ∀ i ∈ hist, i.resolvedAt.isSome

theorem Incident.Valid.wellFormed {k : IncidentKey} {i : Incident} (h : i.Valid cfg k.Of) :
    i.WellFormed cfg k where
  identity := h.lifetime.ident
  numbered := h.lifetime.seq
  opened := h.opened
  severity := h.severity
  unresolved := h.unresolved
  resolved := by
    intro t ht
    obtain ⟨⟨us, u, hus, hu⟩, g, hg, hle⟩ := h.resolved t ht
    refine ⟨⟨us, u, hus, hu, ?_⟩, hg.1 ▸ hle⟩
    have := h.lifetime.closes
    rw [hus, List.dropLast_concat] at this
    exact this

theorem events_onKey {k : IncidentKey} {s : Operator Finding IncidentState AlertRecord}
    (h : (operator (incidentLogic cfg)).Reach (OnKey k) s) :
    ∀ f ∈ s.log.filterMap Call.element, k.Of f := by
  refine h.invariant (I := fun s => ∀ f ∈ s.log.filterMap Call.element, k.Of f) (by
    intro f hf
    cases hf) ?_
  intro s a s' hI hC hs
  cases a with
  | event now f =>
    cases hs
    intro g hg
    rw [show (s.apply (incidentLogic cfg) (.event now f)).log = s.log ++ [.event now f] from rfl,
      List.filterMap_append] at hg
    rcases List.mem_append.1 hg with hg | hg
    · exact hI g hg
    · rw [List.mem_singleton.1 hg]
      exact hC now f rfl
  | advance w =>
    simp only [operator, Operator.step] at hs
    split at hs
    · cases hs; exact hI
    · cases hs
  | fire now =>
    simp only [operator, Operator.step, Option.map_eq_some_iff] at hs
    obtain ⟨⟨ts, u⟩, hd, rfl⟩ := hs
    intro g hg
    rw [show (u.apply (incidentLogic cfg) (.timer now ts)).log = u.log ++ [.timer now ts] from rfl,
      (Operator.due_some hd).2.1, List.filterMap_append] at hg
    rcases List.mem_append.1 hg with hg | hg
    · exact hI g hg
    · cases hg

/-- The incidents of a run, of which every stable property holds. -/
theorem lifecycle_stable {k : IncidentKey} {R : Option IncidentState → List Incident → Prop}
    (hR : Stable cfg k.Of R) {s : Operator Finding IncidentState AlertRecord}
    (h : (operator (incidentLogic cfg)).Reach (OnKey k) s) :
    ∃ hist, Lifecycle cfg k s hist ∧ R s.value hist := by
  obtain ⟨hval, hout⟩ := reach_operator h
  obtain ⟨hist, hl, hr⟩ := tracked_stable hR s.log (events_onKey h)
  unfold Tracks at hl
  rw [← hval] at hl hr
  rw [← hout] at hl
  refine ⟨hist, ⟨hl.findings, hl.updates, hl.resolutions, fun i hi => (hl.valid i hi).wellFormed,
    ?_, hl.idle, ?_⟩, hr⟩
  · cases hv : s.value with
    | none => exact fun i hi => hl.idle hv i (List.dropLast_subset _ hi)
    | some st =>
      obtain ⟨past, i, rfl, hpast, _⟩ := hl.running st hv
      rwa [List.dropLast_concat]
  · intro hall
    cases hv : s.value with
    | none => rfl
    | some st =>
      obtain ⟨past, i, rfl, _, ho⟩ := hl.running st hv
      have := hall i (by simp)
      rw [ho.unresolved] at this
      cases this

theorem lifecycle {k : IncidentKey} {s : Operator Finding IncidentState AlertRecord}
    (h : (operator (incidentLogic cfg)).Reach (OnKey k) s) : ∃ hist, Lifecycle cfg k s hist := by
  obtain ⟨hist, hl, _⟩ := lifecycle_stable (stable_true cfg k.Of) h
  exact ⟨hist, hl⟩

/-- **The lifecycle of incidents.**  In every run of the operator of one key, findings and updates
are those of consecutive incidents; once the watermark passes every registered timer, all of them
are resolved and no state is left. -/
theorem incident_lifecycle (cfg : DetectConfig) (k : IncidentKey)
    {s : Operator Finding IncidentState AlertRecord}
    (h : (operator (incidentLogic cfg)).Reach (OnKey k) s) :
    (∃ hist, Lifecycle cfg k s hist) ∧
    ∀ now w, s.watermark < w → (∀ t ∈ s.timers, t ≤ w) →
      (s.advanceTo (incidentLogic cfg) now w).value = none ∧
      ∃ hist, Lifecycle cfg k (s.advanceTo (incidentLogic cfg) now w) hist ∧
        ∀ i ∈ hist, i.resolvedAt.isSome := by
  refine ⟨lifecycle h, ?_⟩
  intro now w hw hts
  obtain ⟨hreach, htimers⟩ := reach_advanceTo now (incidentLogic_quiet cfg)
    (fun _ _ _ hc => by cases hc) (fun _ _ hc => by cases hc) h hw hts
  have htimed : Timed cfg (s.advanceTo (incidentLogic cfg) now w) :=
    hreach.invariant (I := Timed cfg) (by rintro st ⟨⟩) (fun _ _ _ hI _ hs => hI.step hs)
  have hnone : (s.advanceTo (incidentLogic cfg) now w).value = none := by
    rw [Option.eq_none_iff_forall_ne_some]
    intro st hst
    obtain ⟨t, ht, _⟩ := htimed st hst
    rw [htimers] at ht
    cases ht
  obtain ⟨hist, hl⟩ := lifecycle hreach
  exact ⟨hnone, hist, hl, hl.state.1 hnone⟩

/-- A scan finding whose window starts at `window`, in milliseconds. -/
def sampleFinding (window obs : Int) : Finding :=
  finding
    { detector := "scan"
      threatClass := "scan"
      subtype := "horizontal_scan"
      entityType := "src_host"
      entityKey := "10.10.1.99"
      severity := .medium
      score := some (8 / 10)
      method := "rule"
      detectorVersion := "scan-1.0.0"
      featureSchemaVersion := "scan_features-1.0.0"
      first := ⟨window, 1000 * window, 0, 1000 * window, "ot-sensor-01", none⟩
      last := ⟨obs, 1000 * obs, 0, 1000 * obs, "ot-sensor-01", none⟩
      windowStartMs := window
      windowEndMs := obs
      observed := [("hosts", .int 30)]
      thresholds := [("hosts", .int 20)]
      evidenceCount := 30 }

/-- An incident that is updated, resolved by its timer and followed by another one. -/
def sampleActs : List (Act Finding) :=
  [.event 0 (sampleFinding 1788256800000 1788256810000),
    .event 0 { sampleFinding 1788256800000 1788256820000 with severity := .high },
    .advance 1788257600000, .fire 0,
    .event 0 (sampleFinding 1788257600000 1788257610000)]

theorem incident_lifecycle_sample : ∃ s : Operator Finding IncidentState AlertRecord,
    s.out.map (·.status) = [.new, .escalated, .resolved, .new] ∧
    (s.advanceTo (incidentLogic {}) 0 1788258400000).value = none ∧
    ∃ hist, Lifecycle {} ⟨"scan", "src_host", "10.10.1.99"⟩ s hist := by
  obtain ⟨s, hs, hprop⟩ := (Option.any_eq_true _ _).1 (show
    ((operator (incidentLogic {})).runMeeting (OnKey ⟨"scan", "src_host", "10.10.1.99"⟩)
      Operator.init sampleActs).any (fun s => s.out.map (·.status) = [.new, .escalated, .resolved, .new] ∧
        s.watermark < 1788258400000 ∧ ∀ t ∈ s.timers, t ≤ 1788258400000) = true by
    decide +kernel)
  obtain ⟨hout, hw, hts⟩ := of_decide_eq_true hprop
  obtain ⟨hist, hend⟩ := incident_lifecycle {} ⟨"scan", "src_host", "10.10.1.99"⟩
    (Machine.reach_of_run _ hs)
  exact ⟨s, hout, (hend 0 1788258400000 hw hts).1, hist⟩

end OTS.Detect
