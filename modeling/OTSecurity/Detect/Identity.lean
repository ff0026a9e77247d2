import Mathlib.Data.Set.Function
import OTSecurity.Detect.Encrypted
import OTSecurity.Detect.Incidents

/-!
# Identities of incidents and of their updates

The identity of an incident is that of its key and of the second in which the window of its first
finding starts; the identity of an update is that of its incident and its number.

* `IdentitiesDistinct` — updates before and after a `resolved` belong to different incidents, and no
  two updates share their identity.
* `incidentNames`, `updateNames` — the names that a run gives to `uuid5`.

Principal results: `incident_identity_iff` — identities are distinct exactly when no two incidents
open in the same second; `incident_identity_reused` — beacon and TLS findings, which keep the start
of their window, reopen an incident under its old identity.
-/

namespace OTS.Detect

variable {cfg : DetectConfig}

/-- Updates up to a `resolved` and after it name different incidents, and no two updates share
their identity. -/
def IdentitiesDistinct (us : List AlertRecord) : Prop :=
  (∀ a r b, us = a ++ r :: b → r.status = .resolved →
    ∀ u ∈ a ++ [r], ∀ w ∈ b, u.incidentId ≠ w.incidentId) ∧
  (us.map (·.updateId)).Nodup

/-- The second in which the window of a finding starts. -/
def Finding.startSecond (f : Finding) : Int := f.windowStartMs / 1000

def Finding.incidentName (f : Finding) : String :=
  joinName [f.threatClass, f.entityType, f.entityKey, toString f.epochMs]

/-- The names of the incidents of a run. -/
def incidentNames (cfg : DetectConfig) (calls : List (Call Finding)) : Set String :=
  {n | ∃ f ∈ openings cfg calls, n = f.incidentName}

/-- The names of the updates of a run. -/
def updateNames (cfg : DetectConfig) (calls : List (Call Finding)) : Set String :=
  {n | ∃ u ∈ (incidentLogic cfg).emitted none calls, n = joinName [u.incidentId, toString u.updateSeq]}

/-! ## Names -/

theorem incidentName_inj {f g : Finding} (hkey : f.incidentKey = g.incidentKey) :
    f.incidentName = g.incidentName ↔ f.startSecond = g.startSecond := by
  constructor
  · intro h
    obtain ⟨_, he⟩ := @joinName_int_inj [f.threatClass, f.entityType, f.entityKey]
      [g.threatClass, g.entityType, g.entityKey] _ _ (List.cons_ne_nil _ _) (List.cons_ne_nil _ _) h
    unfold Finding.epochMs at he
    unfold Finding.startSecond
    omega
  · intro h
    have he : f.epochMs = g.epochMs := congrArg (· * 1000) h
    have hname : ∀ f : Finding, f.incidentName = f.incidentKey ++ "|" ++ toString f.epochMs :=
      fun f => @joinName_concat [f.threatClass, f.entityType, f.entityKey]
        (List.cons_ne_nil _ _) _
    rw [hname, hname, hkey, he]

/-- Every update carries the identity of its incident and number. -/
theorem emitted_updateId {v : Option IncidentState} {calls : List (Call Finding)} {u : AlertRecord}
    (h : u ∈ (incidentLogic cfg).emitted v calls) : u.updateId = updateId u.incidentId u.updateSeq := by
  obtain ⟨w, c, _, hu⟩ := Logic.mem_observe _ h
  have hout : ∀ (st : IncidentState) nowMs f status,
      (st.emit nowMs f status).updateId =
        updateId (st.emit nowMs f status).incidentId (st.emit nowMs f status).updateSeq :=
    fun _ _ _ _ => rfl
  cases c with
  | event now f =>
    by_cases hopens : Opens cfg w f
    · rw [show ((incidentLogic cfg).call w (.event now f)).out = _ from (onEvent_opens hopens).2] at hu
      rcases List.mem_append.1 hu with hu | hu
      · obtain ⟨st, _, rfl⟩ := List.mem_map.1 hu
        rfl
      · rw [List.mem_singleton.1 hu]
        rfl
    · cases w with
      | none => exact absurd (by simp [Opens]) hopens
      | some st =>
        rw [show ((incidentLogic cfg).call (some st) (.event now f)).out = _
          from (onEvent_further hopens).2] at hu
        obtain ⟨_, _, _, ⟨hnil, _⟩ | ⟨status, _, _, hone, _⟩⟩ :=
          @further_spec cfg st (now / 1000) f
        · rw [hnil] at hu; cases hu
        · rw [hone, List.mem_singleton] at hu
          rw [hu]
          exact hout ..
  | timer now ts =>
    have hu' : u ∈ (onTimer cfg now w ts).out := hu
    unfold onTimer at hu'
    split at hu'
    · cases hu'
    · split at hu'
      · rw [List.mem_singleton.1 hu']
        rfl
      · cases hu'

/-! ## Distinct identities -/

/-- The updates of a run are lifetimes with the identities of the findings that open them. -/
theorem emitted_lifetimes (cfg : DetectConfig) (calls : List (Call Finding)) :
    Lifetimes updateReading
      ((openings cfg calls).map fun f => uuid5 (NAMESPACES .incident) f.incidentName)
      ((incidentLogic cfg).emitted none calls) := by
  obtain ⟨hist, hl⟩ := tracked cfg (P := fun _ => True) calls (fun _ _ => trivial)
  refine ⟨hist.map Incident.updates, hl.updates.trans (List.flatMap_def ..), ?_⟩
  rw [hl.openings, List.map_map]
  have hall : ∀ i ∈ hist, Lifetime updateReading i.id i.updates := fun i hi => (hl.valid i hi).lifetime
  clear hl
  induction hist with
  | nil => exact .nil
  | cons i hist ih =>
    exact .cons (hall i List.mem_cons_self) (ih fun j hj => hall j (List.mem_cons_of_mem _ hj))

/-- The identity and number of every update. -/
def updateKeys (us : List AlertRecord) : List (String × Nat) := us.map fun u => (u.incidentId, u.updateSeq)

theorem updateIds_eq (calls : List (Call Finding)) :
    ((incidentLogic cfg).emitted none calls).map (·.updateId) =
      (updateKeys ((incidentLogic cfg).emitted none calls)).map fun p => updateId p.1 p.2 := by
  rw [updateKeys, List.map_map]
  exact List.map_congr_left fun u hu => emitted_updateId hu

/-- What is distinct under `f` is distinct under `g`, if `g` tells apart no less. -/
theorem nodup_map_of {α β γ : Type} {f : α → β} {g : α → γ} {l : List α}
    (h : ∀ x ∈ l, ∀ y ∈ l, g x = g y → f x = f y) (hn : (l.map f).Nodup) : (l.map g).Nodup := by
  rw [List.Nodup, List.pairwise_map] at hn ⊢
  exact hn.imp_of_mem fun hx hy hne hg => hne (h _ hx _ hy hg)

/-- Distinct updates need incidents that start in different seconds. -/
theorem startSeconds_nodup {calls : List (Call Finding)} {key : String}
    (hkey : ∀ f ∈ openings cfg calls, f.incidentKey = key)
    (h : (((incidentLogic cfg).emitted none calls).map (·.updateId)).Nodup) :
    ((openings cfg calls).map Finding.startSecond).Nodup := by
  rw [updateIds_eq] at h
  have hids := (emitted_lifetimes cfg calls).nodup_iff.1 (List.Nodup.of_map _ h)
  refine nodup_map_of ?_ hids
  intro f hf g hg hsec
  rw [(incidentName_inj ((hkey f hf).trans (hkey g hg).symm)).2 hsec]

theorem openings_subset (calls : List (Call Finding)) :
    ∀ f ∈ openings cfg calls, f ∈ calls.filterMap Call.element := by
  intro f hf
  obtain ⟨w, c, hc, hmem⟩ := Logic.mem_observe _ hf
  have hel : c.element = some f := by simpa using (List.mem_filter.1 hmem).1
  exact List.mem_filterMap.2 ⟨c, hc, hel⟩

/-- **Identities are distinct exactly when no two incidents open in the same second.**  For any
sequence of findings of one key and of timers, with `uuid5` injective on the names it is given. -/
theorem incident_identity_iff (cfg : DetectConfig) (key : String) (calls : List (Call Finding))
    (hkey : ∀ f ∈ calls.filterMap Call.element, f.incidentKey = key)
    (hincident : Set.InjOn (uuid5 (NAMESPACES .incident)) (incidentNames cfg calls))
    (hupdate : Set.InjOn (uuid5 (NAMESPACES .update)) (updateNames cfg calls)) :
    IdentitiesDistinct ((incidentLogic cfg).emitted none calls) ↔
      ((openings cfg calls).map Finding.startSecond).Nodup := by
  have hopen : ∀ f ∈ openings cfg calls, f.incidentKey = key := fun f hf =>
    hkey f (openings_subset calls f hf)
  have hlife := emitted_lifetimes cfg calls
  constructor
  · exact fun h => startSeconds_nodup hopen h.2
  · intro h
    have hids : ((openings cfg calls).map fun f => uuid5 (NAMESPACES .incident) f.incidentName).Nodup := by
      refine nodup_map_of ?_ h
      intro f hf g hg huuid
      have hname : f.incidentName = g.incidentName := hincident ⟨f, hf, rfl⟩ ⟨g, hg, rfl⟩ huuid
      exact (incidentName_inj ((hopen f hf).trans (hopen g hg).symm)).1 hname
    constructor
    · intro a r b heq hr
      exact hlife.separated hids heq hr
    · refine nodup_map_of ?_ (hlife.nodup_iff.2 hids)
      intro u hu w hw hid
      rw [emitted_updateId hu, emitted_updateId hw] at hid
      obtain ⟨hinc, hseq⟩ := updateName_inj (hupdate ⟨u, hu, rfl⟩ ⟨w, hw, rfl⟩ hid)
      exact Prod.ext hinc hseq

/-- An incident that opens and is resolved by a timer. -/
def sampleOpened : Finding := sampleFinding 1788256800000 1788256810000

/-- The one that opens next, ten minutes later. -/
def sampleReopened : Finding := sampleFinding 1788257400000 1788257410000

def sampleCalls : List (Call Finding) :=
  [.event 0 sampleOpened, .timer 0 1788257120000, .event 0 sampleReopened]

theorem incident_identity_iff_sample :
    IdentitiesDistinct ((incidentLogic {}).emitted none sampleCalls) := by
  have hopen : openings {} sampleCalls = [sampleOpened, sampleReopened] := rfl
  have hupdates : ((incidentLogic {}).emitted none sampleCalls).map
      (fun u => joinName [u.incidentId, toString u.updateSeq]) =
      [joinName [(openState sampleOpened).id, "1"], joinName [(openState sampleOpened).id, "2"],
        joinName [(openState sampleReopened).id, "1"]] := rfl
  refine (incident_identity_iff {} "scan|src_host|10.10.1.99" sampleCalls ?_ ?_ ?_).2 ?_
  · intro f hf
    have hmem : f ∈ [sampleOpened, sampleReopened] := hf
    simp only [List.mem_cons, List.not_mem_nil, or_false] at hmem
    rcases hmem with rfl | rfl <;> decide +kernel
  · -- the identities of the two incidents differ
    have hdistinct : ([sampleOpened, sampleReopened].map fun f =>
        uuid5 (NAMESPACES .incident) f.incidentName).Nodup := by decide +kernel
    rintro _ ⟨f, hf, rfl⟩ _ ⟨g, hg, rfl⟩ heq
    rw [hopen] at hf hg
    exact congrArg Finding.incidentName (List.inj_on_of_nodup_map hdistinct hf hg heq)
  · -- the identities of the three updates differ
    have hdistinct : ([joinName [(openState sampleOpened).id, "1"], joinName [(openState sampleOpened).id, "2"],
        joinName [(openState sampleReopened).id, "1"]].map (uuid5 (NAMESPACES .update))).Nodup := by
      decide +kernel
    rintro _ ⟨u, hu, rfl⟩ _ ⟨w, hw, rfl⟩ heq
    have hname : ∀ u ∈ (incidentLogic {}).emitted none sampleCalls,
        joinName [u.incidentId, toString u.updateSeq] ∈ [joinName [(openState sampleOpened).id, "1"],
          joinName [(openState sampleOpened).id, "2"], joinName [(openState sampleReopened).id, "1"]] :=
      fun u hu => hupdates ▸ List.mem_map_of_mem hu
    exact List.inj_on_of_nodup_map hdistinct (hname u hu) (hname w hw) heq
  · rw [hopen]
    decide +kernel

/-! ## Reuse -/

/-- Connections every five minutes.  The window is found periodic at the 8th and again at the 16th,
40 minutes later, when the incident has been resolved. -/
def beaconRun : List (PipeAct Delta) :=
  ((List.range 8).map fun i => .up (.event 0 (sampleDelta (300 * i) (300 * i + 5)))) ++
    [.deliver 0] ++
    ((List.range 8).map fun i => .up (.event 0 (sampleDelta (300 * (i + 8)) (300 * (i + 8) + 5)))) ++
    [.advance 1788260800000, .fire 0, .deliver 0]

/-- A session of an old protocol version without a server name, `t` seconds after a fixed time. -/
def sampleTls (t : Int) : TlsEvent where
  eventId := toString t
  sensorId := "ot-sensor-01"
  run := none
  offsetUs := 0
  eventTimeUs := 1788256800000000 + 1000000 * t
  obsMs := 1788256800000 + 1000 * t
  receivedUs := 1788256800000000 + 1000000 * t
  coverage := "both_directions"
  p := ⟨"10.10.1.20", "203.0.113.9", some 4444, some "SSLv3", none, none⟩
  a := [("server_name", "MISSING")]

/-- Sessions every minute.  The finding of the third is raised again at the tenth, 7 minutes later,
when the incident has been resolved. -/
def tlsRun : List (PipeAct TlsEvent) :=
  ((List.range 3).map fun i => .up (.event 0 (sampleTls (60 * i)))) ++ [.deliver 0] ++
    ((List.range 7).map fun i => .up (.event 0 (sampleTls (60 * (i + 3))))) ++
    [.advance 1788257300000, .fire 0, .deliver 0]

/-- The incident is resolved and a second one opened, both in one second and of one key. -/
def Reopened (key : String) (d : Operator Finding IncidentState AlertRecord) : Prop :=
  d.out.map (·.status) = [.new, .resolved, .new] ∧
    (∀ f ∈ openings {} d.log, f.incidentKey = key) ∧
    ¬ ((openings {} d.log).map Finding.startSecond).Nodup

instance (key : String) (d : Operator Finding IncidentState AlertRecord) :
    Decidable (Reopened key d) := inferInstanceAs (Decidable (_ ∧ _))

theorem Reopened.not_distinct {key : String} {d : Operator Finding IncidentState AlertRecord}
    (h : Reopened key d) (hlog : d.Logged (incidentLogic {})) : ¬ IdentitiesDistinct d.out := by
  intro hdist
  rw [hlog.2] at hdist
  exact h.2.2 (startSeconds_nodup h.2.1 hdist.2)

/-- **Beacon and TLS findings reopen an incident under its old identity.** -/
theorem incident_identity_reused :
    (∃ s, (pipe (beaconLogic {} sampleInventory samplePair) Emitted.finding (incidentLogic {})).Reach
        (fun _ _ => True) s ∧
      s.down.out.map (·.status) = [.new, .resolved, .new] ∧ ¬ IdentitiesDistinct s.down.out) ∧
    ∃ s, (pipe (encryptedLogic {} sampleInventory "10.10.1.20|203.0.113.9|4444") Emitted.finding
        (incidentLogic {})).Reach (fun _ _ => True) s ∧
      s.down.out.map (·.status) = [.new, .resolved, .new] ∧ ¬ IdentitiesDistinct s.down.out := by
  constructor
  · obtain ⟨s, hs, hprop⟩ := (Option.any_eq_true _ _).1 (show
      ((pipe (beaconLogic {} sampleInventory samplePair) Emitted.finding
        (incidentLogic {})).runMeeting (fun _ _ => True) Pipe.init beaconRun).any
        (fun s => Reopened ("beaconing|service_pair|" ++ samplePair) s.down) = true by
      decide +kernel)
    have hreach := Machine.reach_of_run _ hs
    have hprop := of_decide_eq_true hprop
    exact ⟨s, hreach, hprop.1, hprop.not_distinct (reach_pipe hreach).2.1⟩
  · obtain ⟨s, hs, hprop⟩ := (Option.any_eq_true _ _).1 (show
      ((pipe (encryptedLogic {} sampleInventory "10.10.1.20|203.0.113.9|4444") Emitted.finding
        (incidentLogic {})).runMeeting (fun _ _ => True) Pipe.init tlsRun).any
        (fun s => Reopened "encrypted_malware_like|service_pair|10.10.1.20|203.0.113.9|4444" s.down) =
        true by decide +kernel)
    have hreach := Machine.reach_of_run _ hs
    have hprop := of_decide_eq_true hprop
    exact ⟨s, hreach, hprop.1, hprop.not_distinct (reach_pipe hreach).2.1⟩

end OTS.Detect
