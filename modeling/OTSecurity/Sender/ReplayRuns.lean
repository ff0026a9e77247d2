import OTSecurity.Lib.Machine
import OTSecurity.Sender.Replay

/-!
# Which runs are replayed

Over the steps of `ReplaySys`, with run directories that may come, go and change between two steps.

* `replayIn` — the machine; `Roomy` is the condition on its steps.
* `Once` — the invariant: the runs marked completed and the run in progress are different runs.
* `record_isSome` — every entry of an index can be read back, so that `replay` does not stop.

Principal results: `replay_completed_once` — a run whose completion was saved is not chosen again,
and the mode becomes idle with every run completed; `replay_repeats_completed` — a run that is no
longer remembered is chosen again.
-/

namespace OTS.Sender

/-! ## The machine -/

/-- The step marks a run completed: it has been replayed, or its directory is gone. -/
def Marks (cfg : ReplayConfig) (s : ReplaySys) : InputRoot × ReplayOp → Prop
  | (root, .go _ stop) =>
    match s.phase, s.st.currentRun with
    | .ending d, some run => min run.total (d.index cfg).length ≤ run.nextIndex
    | .idle, some run => stop = false ∧ root.named run.runId = none
    | _, _ => False
  | (_, .kill) | (_, .shutdown) => False

/-- No run is marked completed when a thousand already are. -/
def Roomy (cfg : ReplayConfig) (s : ReplaySys) (op : InputRoot × ReplayOp) : Prop :=
  Marks cfg s op → s.st.completedRuns.length < MAX_COMPLETED_RUNS

/-- The sender over an input root that changes between two steps. -/
def replayIn (cfg : ReplayConfig) (s : ReplaySys) : Machine ReplaySys (InputRoot × ReplayOp) where
  init := s
  step s op := s.step cfg op.1 op.2

/-- A sender whose state file has just been created. -/
def ReplaySys.fresh (bootId : String) : ReplaySys :=
  ⟨.fresh bootId, .fresh bootId, .idle, [], [], []⟩

/-! ## The invariant -/

/-- The runs marked completed are different, few enough, and none is in progress. -/
structure SenderState.Tidy (st : SenderState) : Prop where
  nodup : st.completedRuns.Nodup
  small : st.completedRuns.length ≤ MAX_COMPLETED_RUNS
  current : ∀ run, st.currentRun = some run → run.runId ∉ st.completedRuns

/-- Where the process stands, about the run directory it works on. -/
def ReplaySys.PhaseOnce (s : ReplaySys) : ReplayPhase → Prop
  | .idle => s.st = s.saved
  | .chosen d => s.st = s.saved ∧ d.name ∉ s.st.completedRuns ∧
    ∀ run, s.st.currentRun = some run → run.runId = d.name
  | .reserved d | .sending d _ | .sent d _ | .counted d _ | .ending d =>
    ∃ run, s.st.currentRun = some run ∧ run.runId = d.name
  | .closing => True

/-- The invariant; the completion of the runs `done` has been saved. -/
structure Once (done : List String) (s : ReplaySys) : Prop where
  st : s.st.Tidy
  saved : s.saved.Tidy
  kept : s.saved.completedRuns ⊆ s.st.completedRuns
  done : done ⊆ s.saved.completedRuns
  phase : s.PhaseOnce s.phase

theorem Once.fresh (bootId : String) : Once [] (.fresh bootId) := by
  have htidy : (SenderState.fresh bootId).Tidy := ⟨List.nodup_nil, Nat.zero_le _, nofun⟩
  exact ⟨htidy, htidy, List.Subset.refl _, List.nil_subset _, rfl⟩

/-- A run is marked completed while there is room. -/
theorem SenderState.Tidy.markCompleted {st : SenderState} (h : st.Tidy) {runId : String}
    (hroom : st.completedRuns.length < MAX_COMPLETED_RUNS) (hnew : runId ∉ st.completedRuns) :
    (st.markCompleted runId).Tidy := by
  have hruns := st.markCompleted_runs runId hroom
  have hnone : (st.markCompleted runId).currentRun = none := by rw [SenderState.markCompleted]
  constructor
  · rw [hruns, List.nodup_append]
    refine ⟨h.nodup, List.nodup_singleton _, ?_⟩
    intro a ha b hb heq
    exact hnew (List.mem_singleton.1 hb ▸ heq ▸ ha)
  · rw [hruns]
    exact length_concat_le hroom runId
  · intro run hrun
    rw [hnone] at hrun
    cases hrun

theorem SenderState.Tidy.persisted {st : SenderState} (h : st.Tidy) : st.persisted = st :=
  SenderState.persisted_eq h.small

theorem ReplaySys.finish_current (s : ReplaySys) (runId : String) :
    (s.finish runId).st.currentRun = none := by
  rw [ReplaySys.finish, SenderState.markCompleted]

namespace Once

variable {cfg : ReplayConfig} {root : InputRoot} {done : List String} {s : ReplaySys}

theorem done_st (h : Once done s) : done ⊆ s.st.completedRuns := fun _ hr => h.kept (h.done hr)

theorem save_st (h : Once done s) : s.save.saved = s.st := h.st.persisted

theorem save (h : Once done s) (hphase : s.save.PhaseOnce s.phase) : Once done s.save :=
  ⟨h.st, h.save_st ▸ h.st, h.save_st ▸ List.Subset.refl _, h.save_st ▸ h.done_st, hphase⟩

/-- The process starts from the state file. -/
theorem load {t : ReplaySys} (h : t.saved.Tidy) (hdone : done ⊆ t.saved.completedRuns) :
    Once done t.load := ⟨h, h, List.Subset.refl _, hdone, rfl⟩

theorem goto (h : Once done s) {phase : ReplayPhase} (hphase : s.PhaseOnce phase) :
    Once done (s.goto phase) := ⟨h.st, h.saved, h.kept, h.done, hphase⟩

/-- A run is marked completed. -/
theorem finish (h : Once done s) {runId : String} (hroom : s.st.completedRuns.length < MAX_COMPLETED_RUNS)
    (hnew : runId ∉ s.st.completedRuns) : Once done ((s.finish runId).goto .closing) := by
  obtain ⟨st, hst⟩ : ∃ st, st = s.st.markCompleted runId := ⟨_, rfl⟩
  have htidy : st.Tidy := hst ▸ h.st.markCompleted hroom hnew
  have hruns : st.completedRuns = s.st.completedRuns ++ [runId] :=
    hst ▸ s.st.markCompleted_runs runId hroom
  simp only [ReplaySys.goto, ReplaySys.finish, ← hst]
  refine ⟨htidy, h.saved, ?_, h.done, trivial⟩
  intro r hr
  rw [hruns]
  exact List.mem_append_left _ (h.kept hr)

/-- No run is in progress, and the next one is chosen. -/
theorem nextRun (h : Once done s) (hphase : s.phase = .idle) (hnone : s.st.currentRun = none) :
    Once done (s.nextRun root) := by
  unfold ReplaySys.nextRun
  cases hcand : root.candidates s.st.completedRuns with
  | nil => exact h
  | cons d ds =>
    have hst := h.phase
    rw [hphase] at hst
    have hchosen : s.PhaseOnce (.chosen d) := by
      refine ⟨hst, (root.mem_candidates hcand).2, fun run hrun => ?_⟩
      rw [hnone] at hrun
      cases hrun
    exact h.goto hchosen

/-- What was marked completed is saved, and the process is idle. -/
theorem saveIdle (h : Once done s) : Once done (s.save.goto .idle) :=
  ⟨h.st, h.save_st ▸ h.st, h.save_st ▸ List.Subset.refl _, h.save_st ▸ h.done_st,
    h.save_st.symm⟩

theorem stepIdle (h : Once done s) (hphase : s.phase = .idle)
    (hroom : ∀ run, s.st.currentRun = some run → root.named run.runId = none →
      s.st.completedRuns.length < MAX_COMPLETED_RUNS) : Once done (s.stepIdle root) := by
  have hst := h.phase
  rw [hphase] at hst
  unfold ReplaySys.stepIdle
  cases hrun : s.st.currentRun with
  | none => exact h.nextRun hphase hrun
  | some run =>
    cases hnamed : root.named run.runId with
    | some d =>
      have hname : d.name = run.runId := by simpa using List.find?_some hnamed
      have hchosen : s.PhaseOnce (.chosen d) := by
        refine ⟨hst, hname ▸ h.st.current run hrun, fun r hr => ?_⟩
        obtain rfl := Option.some.inj (hrun.symm.trans hr)
        exact hname.symm
      simp only [hnamed]
      exact h.goto hchosen
    | none =>
      have hclosing := h.finish (hroom run hrun hnamed) (h.st.current run hrun)
      have hsame : ((s.finish run.runId).goto .closing).save.goto .idle = (s.finish run.runId).save := by
        simp only [ReplaySys.goto, ReplaySys.save, ReplaySys.finish, hphase]
      simp only [hnamed, ← hsame]
      exact hclosing.saveIdle.nextRun rfl (s.finish_current run.runId)

theorem stepChosen (h : Once done s) {d : RunDir} (hphase : s.phase = .chosen d) (nowUs : Int) :
    Once done (s.stepChosen cfg d nowUs) := by
  have hchosen := h.phase
  rw [hphase] at hchosen
  obtain ⟨-, hnew, hsame⟩ := hchosen
  unfold ReplaySys.stepChosen
  split
  · rename_i hany
    obtain ⟨run, hrun, hname⟩ := Option.any_eq_true _ _ |>.1 hany
    have hsending : s.PhaseOnce (.sending d 0) := ⟨run, hrun, of_decide_eq_true hname⟩
    exact h.goto hsending
  · refine ⟨⟨h.st.nodup, h.st.small, fun run hrun => ?_⟩, h.saved, h.kept, h.done, _, rfl, rfl⟩
    cases hrun
    exact hnew

/-- The run in progress goes on. -/
theorem stepSending (h : Once done s) {d : RunDir} {n : Nat} {run : CurrentRun} {stop : Bool}
    {s' : ReplaySys} (hphase : s.phase = .sending d n) (hs : s.stepSending cfg d n run stop = some s') :
    Once done s' := by
  have hsending := h.phase
  rw [hphase] at hsending
  unfold ReplaySys.stepSending at hs
  split at hs
  · cases hs
    have hending : s.PhaseOnce (.ending d) := hsending
    exact h.goto hending
  · obtain ⟨r, -, rfl⟩ := Option.map_eq_some_iff.1 hs
    exact ⟨h.st, h.saved, h.kept, h.done, hsending⟩

theorem stepSent (h : Once done s) {d : RunDir} {n : Nat} {run : CurrentRun} (hphase : s.phase = .sent d n)
    (hrun : s.st.currentRun = some run) : Once done (s.stepSent d n run) := by
  have hsent := h.phase
  rw [hphase] at hsent
  obtain ⟨run', hrun', hname⟩ := hsent
  obtain rfl := Option.some.inj (hrun.symm.trans hrun')
  refine ⟨⟨h.st.nodup, h.st.small, fun r hr => ?_⟩, h.saved, h.kept, h.done, _, rfl, hname⟩
  cases hr
  exact h.st.current run hrun

theorem stepCounted (h : Once done s) {d : RunDir} {n : Nat} (hphase : s.phase = .counted d n) :
    Once done (s.stepCounted cfg d n) := by
  have hcounted := h.phase
  rw [hphase] at hcounted
  have hsending : ∀ m, s.PhaseOnce (.sending d m) := fun _ => hcounted
  unfold ReplaySys.stepCounted
  split
  · exact (h.save (hphase ▸ hcounted)).goto (hsending 0)
  · exact h.goto (hsending n)

theorem stepEnding (h : Once done s) {d : RunDir} {run : CurrentRun} (hphase : s.phase = .ending d)
    (hrun : s.st.currentRun = some run)
    (hroom : min run.total (d.index cfg).length ≤ run.nextIndex →
      s.st.completedRuns.length < MAX_COMPLETED_RUNS) : Once done (s.stepEnding cfg d run) := by
  have hending := h.phase
  rw [hphase] at hending
  obtain ⟨run', hrun', hname⟩ := hending
  obtain rfl := Option.some.inj (hrun.symm.trans hrun')
  unfold ReplaySys.stepEnding
  split
  · rename_i hdone
    exact h.finish (hroom hdone) (hname ▸ h.st.current run hrun)
  · have hclosing : s.PhaseOnce .closing := trivial
    exact h.goto hclosing

/-- **Every step keeps the invariant.** -/
theorem step (h : Once done s) {op : InputRoot × ReplayOp} {s' : ReplaySys} (hC : Roomy cfg s op)
    (hs : s.step cfg op.1 op.2 = some s') : Once done s' := by
  obtain ⟨root, op⟩ := op
  cases op with
  | kill =>
    cases hs
    exact load h.saved h.done
  | shutdown =>
    cases hs
    exact load (h.save_st ▸ h.st) (h.save_st ▸ h.done_st)
  | go nowUs stop =>
    simp only [ReplaySys.step, ReplaySys.go] at hs
    cases hphase : s.phase with
    | idle =>
      simp only [hphase] at hs
      split at hs
      · cases hs
      · rename_i hstop
        cases hs
        refine h.stepIdle hphase fun run hrun hnamed => hC ?_
        simp only [Marks, hphase, hrun]
        exact ⟨Bool.eq_false_iff.2 hstop, hnamed⟩
    | chosen d =>
      simp only [hphase] at hs
      cases hs
      exact h.stepChosen hphase nowUs
    | reserved d =>
      simp only [hphase] at hs
      cases hs
      have hreserved := h.phase
      rw [hphase] at hreserved
      have hsending : s.PhaseOnce (.sending d 0) := hreserved
      exact (h.save (hphase ▸ hreserved)).goto hsending
    | sending d n =>
      simp only [hphase] at hs
      obtain ⟨run, hrun, hs⟩ := Option.bind_eq_some_iff.1 hs
      exact h.stepSending hphase hs
    | sent d n =>
      simp only [hphase] at hs
      obtain ⟨run, hrun, rfl⟩ := Option.map_eq_some_iff.1 hs
      exact h.stepSent hphase hrun
    | counted d n =>
      simp only [hphase] at hs
      cases hs
      exact h.stepCounted hphase
    | ending d =>
      simp only [hphase] at hs
      obtain ⟨run, hrun, rfl⟩ := Option.map_eq_some_iff.1 hs
      refine h.stepEnding hphase hrun fun hdone => hC ?_
      simp only [Marks, hphase, hrun]
      exact hdone
    | closing =>
      simp only [hphase] at hs
      cases hs
      exact h.saveIdle

end Once

/-! ## Every entry can be read back -/

/-- Each line stands at its offset. -/
theorem withOffsets_drop {data : Bytes} {lines : List Bytes} {pos : Nat} {tail : Bytes}
    (h : data.drop pos ++ [NEWLINE] = (lines.map (· ++ [NEWLINE])).flatten ++ tail) :
    ∀ l ∈ withOffsets pos lines, ∃ rest, data.drop l.1 ++ [NEWLINE] = l.2 ++ NEWLINE :: rest := by
  induction lines generalizing pos with
  | nil => exact nofun
  | cons line lines ih =>
    rw [List.map_cons, List.flatten_cons, List.append_assoc, List.append_assoc] at h
    intro l hl
    rcases List.mem_cons.1 hl with rfl | hl
    · exact ⟨_, h⟩
    · have hlen := congrArg List.length h
      simp only [List.length_append, List.length_drop, List.length_singleton] at hlen
      by_cases hmore : pos + line.length + 1 ≤ data.length
      · refine ih ?_ l hl
        have hdrop := congrArg (List.drop (line.length + 1)) h
        rw [List.drop_append_of_le_length (by rw [List.length_drop]; omega), List.drop_drop,
          ← List.append_assoc, List.drop_left' (by rw [List.length_append, List.length_singleton])] at hdrop
        exact hdrop
      · -- the last line of a file that does not end in a newline
        cases lines with
        | nil => cases hl
        | cons next lines =>
          simp only [List.map_cons, List.flatten_cons, List.length_append, List.length_singleton] at hlen
          omega

theorem fileLines_drop (data : Bytes) :
    ∀ l ∈ fileLines data, ∃ rest, data.drop l.1 ++ [NEWLINE] = l.2 ++ NEWLINE :: rest := by
  obtain ⟨⟨lines, rest⟩, hsplit⟩ : ∃ st, splitLines data = st := ⟨_, rfl⟩
  have hdata := splitLines_flatten data
  rw [hsplit] at hdata
  unfold fileLines
  simp only [hsplit]
  by_cases hrest : rest = []
  · refine @withOffsets_drop data _ 0 [NEWLINE] ?_
    rw [if_pos hrest, List.append_nil, List.drop_zero, hdata, hrest, List.append_nil]
  · refine @withOffsets_drop data _ 0 [] ?_
    rw [if_neg hrest, List.drop_zero, hdata, List.map_append, List.flatten_append, List.append_assoc]
    simp only [List.map_cons, List.map_nil, List.flatten_cons, List.flatten_nil, List.append_nil]

theorem stripCr_take (line : Bytes) : ∃ n ≤ line.length, stripCr line = line.take n := by
  unfold stripCr
  split
  · exact ⟨line.length - 1, Nat.sub_le .., List.dropLast_eq_take⟩
  · exact ⟨line.length, Nat.le_refl _, (List.take_length).symm⟩

/-- What an entry of a file says is what is read back. -/
theorem slice_lineItem {cfg : ReplayConfig} {type : String} {file : Nat} {data : Bytes}
    {l : Nat × Bytes} (hl : l ∈ fileLines data) {item : Item}
    (h : lineItem cfg type file l.1 l.2 = some item) :
    item.file = file ∧ (utf8Decode (slice data item.offset item.length)).isSome := by
  unfold lineItem at h
  simp only at h
  split at h
  · cases h
  · obtain ⟨text, htext, h⟩ := Option.bind_eq_some_iff.1 h
    obtain ⟨emit, -, h⟩ := Option.bind_eq_some_iff.1 h
    cases h
    refine ⟨rfl, ?_⟩
    obtain ⟨rest, hrest⟩ := fileLines_drop data l hl
    obtain ⟨n, hn, hstrip⟩ := stripCr_take l.2
    have hlen := congrArg List.length hrest
    simp only [List.length_append, List.length_cons, List.length_nil] at hlen
    have hslice : slice data l.1 (stripCr l.2).length = stripCr l.2 := by
      have htake := congrArg (List.take n) hrest
      rw [List.take_append_of_le_length (by omega), List.take_append_of_le_length hn] at htake
      have hn' : (stripCr l.2).length = n := by rw [hstrip, List.length_take]; omega
      unfold slice
      rw [hn', htake, hstrip]
    show (utf8Decode (slice data l.1 (stripCr l.2).length)).isSome
    rw [hslice, htext]
    rfl

/-- **Every entry of an index can be read back.** -/
theorem record_isSome (cfg : ReplayConfig) (d : RunDir) {i : Nat} (hi : i < (d.index cfg).length) :
    (d.record cfg i).isSome := by
  obtain ⟨item, hitem⟩ : ∃ item, (d.index cfg)[i]? = some item := ⟨_, List.getElem?_eq_getElem hi⟩
  have hmem := List.mem_of_getElem? hitem
  unfold RunDir.index at hmem
  rw [List.mem_insertionSort] at hmem
  obtain ⟨f, hf, hmem⟩ := List.mem_flatMap.1 (List.mem_of_mem_take hmem)
  obtain ⟨l, hl, hline⟩ := List.mem_filterMap.1 hmem
  obtain ⟨hfile, hslice⟩ := slice_lineItem hl hline
  obtain ⟨text, htext⟩ := Option.isSome_iff_exists.1 hslice
  have hget : d.logs[item.file]? = some f.1 := hfile ▸ List.mk_mem_zipIdx_iff_getElem?.1 hf
  unfold RunDir.record
  simp only [hitem, hget, htext, Option.bind_eq_bind, Option.bind_some, Option.isSome_some, pure]

/-! ## The mode becomes idle -/

/-- One step of a process that is not stopped. -/
def ReplaySys.goOn (cfg : ReplayConfig) (root : InputRoot) (s : ReplaySys) (nowUs : Int) :
    Option ReplaySys := s.go cfg root nowUs false

/-- The runs that are ready or in progress, and not completed. -/
def InputRoot.waiting (root : InputRoot) (st : SenderState) : Nat :=
  match st.currentRun with
  | none => (root.candidates st.completedRuns).length
  | some run => ((root.candidates st.completedRuns).filter (·.name ≠ run.runId)).length + 1

/-- A replay is over, and saved, with these runs completed. -/
structure ReplaySys.Over (runs : List String) (s : ReplaySys) : Prop where
  phase : s.phase = .idle
  current : s.st.currentRun = none
  completed : s.st.completedRuns = runs
  saved : s.st = s.saved

section Liveness

variable {cfg : ReplayConfig} {root : InputRoot} {s : ReplaySys}

theorem inevitable_ending {d : RunDir} {run : CurrentRun} (hphase : s.phase = .ending d)
    (hrun : s.st.currentRun = some run) (hdone : min run.total (d.index cfg).length ≤ run.nextIndex)
    (hroom : s.st.completedRuns.length < MAX_COMPLETED_RUNS) :
    Inevitable (ReplaySys.goOn cfg root) (ReplaySys.Over (s.st.completedRuns ++ [d.name])) s := by
  have hruns := s.st.markCompleted_runs d.name hroom
  have hlength : (s.st.markCompleted d.name).completedRuns.length ≤ MAX_COMPLETED_RUNS :=
    hruns ▸ length_concat_le hroom d.name
  have hclosing : ∀ nowUs, s.goOn cfg root nowUs = some ((s.finish d.name).goto .closing) := by
    intro nowUs
    simp only [ReplaySys.goOn, ReplaySys.go, hphase, hrun, Option.map_some, ReplaySys.stepEnding, hdone,
      if_true]
  have hidle : ∀ nowUs, ((s.finish d.name).goto .closing).goOn cfg root nowUs =
      some (((s.finish d.name).goto .closing).save.goto .idle) := by
    intro nowUs
    simp only [ReplaySys.goOn, ReplaySys.go, ReplaySys.goto]
  refine .one hclosing (.one hidle (.now ⟨rfl, ?_, ?_, ?_⟩))
  · exact s.finish_current d.name
  · simp only [ReplaySys.goto, ReplaySys.save, ReplaySys.finish]
    exact hruns
  · simp only [ReplaySys.goto, ReplaySys.save, ReplaySys.finish]
    exact (SenderState.persisted_eq hlength).symm

/-- The entries from the next one on are sent, then the run is completed. -/
theorem inevitable_sending {d : RunDir} {k : Nat} :
    ∀ {s : ReplaySys} {n : Nat} {run : CurrentRun}, s.phase = .sending d n →
      s.st.currentRun = some run → min run.total (d.index cfg).length - run.nextIndex = k →
      s.st.completedRuns.length < MAX_COMPLETED_RUNS →
      Inevitable (ReplaySys.goOn cfg root) (ReplaySys.Over (s.st.completedRuns ++ [d.name])) s := by
  induction k with
  | zero =>
    intro s n run hphase hrun hk hroom
    have hdone : min run.total (d.index cfg).length ≤ run.nextIndex := by omega
    have hending : ∀ nowUs, s.goOn cfg root nowUs = some (s.goto (.ending d)) := by
      intro nowUs
      simp only [ReplaySys.goOn, ReplaySys.go, hphase, hrun, Option.bind_some, ReplaySys.stepSending,
        hdone, or_true, if_true]
    exact .one hending (inevitable_ending (s := s.goto (.ending d)) rfl hrun hdone hroom)
  | succ k ih =>
    intro s n run hphase hrun hk hroom
    have hmore : ¬ min run.total (d.index cfg).length ≤ run.nextIndex := by omega
    obtain ⟨r, hr⟩ := Option.isSome_iff_exists.1
      (record_isSome cfg d (i := run.nextIndex) (by omega))
    obtain ⟨t, ht⟩ : ∃ t : ReplaySys, t = { s with
      sent := s.sent ++
        [⟨d.name, run.nextIndex, r.1, r.2, run.baseSequence + run.nextIndex, run.offsetUs⟩]
      phase := .sent d n } := ⟨_, rfl⟩
    have hsent : ∀ nowUs, s.goOn cfg root nowUs = some t := by
      intro nowUs
      simp only [ReplaySys.goOn, ReplaySys.go, hphase, hrun, Option.bind_some, ReplaySys.stepSending,
        hmore, hr, Option.map_some, Bool.false_eq_true, or_self, if_false, ht]
    have hcounted : ∀ nowUs, t.goOn cfg root nowUs = some (t.stepSent d n run) := by
      intro nowUs
      simp only [ReplaySys.goOn, ReplaySys.go, ht, hrun, Option.map_some]
    have hnext : ∀ nowUs, (t.stepSent d n run).goOn cfg root nowUs =
        some ((t.stepSent d n run).stepCounted cfg d (n + 1)) := by
      intro nowUs
      simp only [ReplaySys.goOn, ReplaySys.go, ReplaySys.stepSent]
    refine .one hsent (.one hcounted (.one hnext ?_))
    have hstate : ((t.stepSent d n run).stepCounted cfg d (n + 1)).st =
        { s.st with currentRun := some { run with nextIndex := run.nextIndex + 1 } } := by
      unfold ReplaySys.stepCounted
      split <;> simp only [ReplaySys.goto, ReplaySys.save, ReplaySys.stepSent, ht]
    obtain ⟨m, hm⟩ : ∃ m, ((t.stepSent d n run).stepCounted cfg d (n + 1)).phase = .sending d m := by
      unfold ReplaySys.stepCounted
      split
      · exact ⟨0, rfl⟩
      · exact ⟨n + 1, rfl⟩
    have hrun' : ((t.stepSent d n run).stepCounted cfg d (n + 1)).st.currentRun =
        some { run with nextIndex := run.nextIndex + 1 } := by rw [hstate]
    have hleft : min run.total (d.index cfg).length - (run.nextIndex + 1) = k := by omega
    have hlater := ih hm hrun' hleft (by rw [hstate]; exact hroom)
    rw [hstate] at hlater
    exact hlater

/-- A run that is chosen is replayed to its end. -/
theorem inevitable_chosen {d : RunDir} (hphase : s.phase = .chosen d)
    (hroom : s.st.completedRuns.length < MAX_COMPLETED_RUNS)
    (hsame : ∀ run, s.st.currentRun = some run → run.runId = d.name) :
    Inevitable (ReplaySys.goOn cfg root) (ReplaySys.Over (s.st.completedRuns ++ [d.name])) s := by
  have hstep : ∀ nowUs, s.goOn cfg root nowUs = some (s.stepChosen cfg d nowUs) := by
    intro nowUs
    simp only [ReplaySys.goOn, ReplaySys.go, hphase]
  refine .later _ hstep fun nowUs => ?_
  unfold ReplaySys.stepChosen
  cases hrun : s.st.currentRun with
  | some run =>
    rw [if_pos (by rw [Option.any_some]; exact decide_eq_true (hsame run hrun))]
    exact inevitable_sending (s := s.goto (.sending d 0)) rfl hrun rfl hroom
  | none =>
    rw [if_neg (by rw [Option.any_none]; exact Bool.false_ne_true)]
    obtain ⟨t, ht⟩ : ∃ t : ReplaySys, t = { s with
      st := { s.st with
        currentRun := some (s.newRun cfg d nowUs)
        nextSequence := s.st.nextSequence + (d.index cfg).length }
      reserved := s.reserved ++ [(s.newRun cfg d nowUs).reservation]
      phase := .reserved d } := ⟨_, rfl⟩
    have hcurrent : (t.save.goto (.sending d 0)).st.currentRun = some (s.newRun cfg d nowUs) := by
      rw [ht]
      rfl
    have hsaved : ∀ nowUs, t.goOn cfg root nowUs = some (t.save.goto (.sending d 0)) := by
      intro nowUs
      simp only [ReplaySys.goOn, ReplaySys.go, ht]
    have hruns : (t.save.goto (.sending d 0)).st.completedRuns = s.st.completedRuns := by
      rw [ht]
      rfl
    have hlater : Inevitable (ReplaySys.goOn cfg root) (ReplaySys.Over (_ ++ [d.name]))
        (t.save.goto (.sending d 0)) := inevitable_sending rfl hcurrent rfl (hruns ▸ hroom)
    rw [hruns] at hlater
    rw [ht] at hsaved hlater
    exact .one hsaved hlater

theorem candidates_concat (root : InputRoot) (done : List String) (runId : String) :
    (root.candidates (done ++ [runId])).length =
      ((root.candidates done).filter (·.name ≠ runId)).length := by
  unfold InputRoot.candidates byName
  rw [List.length_insertionSort,
    ((List.perm_insertionSort _ _).filter _).length_eq, List.filter_filter]
  congr 2
  funext d
  by_cases h : d.name = runId <;> simp [h, Bool.and_comm]

/-- Every run that is ready has been completed, and that is saved. -/
structure ReplaySys.AllDone (root : InputRoot) (s : ReplaySys) : Prop where
  phase : s.phase = .idle
  current : s.st.currentRun = none
  completed : ∀ d ∈ root.dirs, isRunId d.name = true → d.done = true → d.name ∈ s.saved.completedRuns

/-- With no candidates left all is done. -/
theorem Over.allDone {runs : List String} (h : s.Over runs) (hnil : root.candidates runs = []) :
    s.AllDone root := by
  refine ⟨h.phase, h.current, fun d hd hid hdone => ?_⟩
  rw [← h.saved, h.completed]
  by_contra hnot
  have hmem : d ∈ root.candidates runs := by
    unfold InputRoot.candidates byName
    rw [List.mem_insertionSort, List.mem_filter]
    refine ⟨hd, ?_⟩
    rw [hid, hdone, decide_eq_true hnot]
    rfl
  rw [hnil] at hmem
  cases hmem

theorem goOn_idle (hphase : s.phase = .idle) (nowUs : Int) :
    s.goOn cfg root nowUs = some (s.stepIdle root) := by
  simp only [ReplaySys.goOn, ReplaySys.go, hphase, Bool.false_eq_true, if_false]

theorem Over.stepIdle {runs : List String} (h : s.Over runs) : s.stepIdle root = s.nextRun root := by
  simp only [ReplaySys.stepIdle, h.current]

/-- Without a run in progress, by induction on the runs that are ready. -/
theorem inevitable_nextRun {k : Nat} : ∀ {s : ReplaySys} {runs : List String}, s.Over runs →
    (root.candidates runs).length ≤ k → runs.length + (root.candidates runs).length ≤ MAX_COMPLETED_RUNS →
    Inevitable (ReplaySys.goOn cfg root) (ReplaySys.AllDone root) (s.nextRun root) := by
  induction k with
  | zero =>
    intro s runs h hk _
    have hnil := List.length_eq_zero_iff.1 (Nat.le_zero.1 hk)
    unfold ReplaySys.nextRun
    rw [h.completed, hnil]
    exact .now (Over.allDone h hnil)
  | succ k ih =>
    intro s runs h hk hroom
    unfold ReplaySys.nextRun
    rw [h.completed]
    cases hcand : root.candidates runs with
    | nil => exact .now (Over.allDone h hcand)
    | cons d ds =>
      rw [hcand, List.length_cons] at hk hroom
      have hruns : (s.goto (.chosen d)).st.completedRuns = runs := h.completed
      have hnone : (s.goto (.chosen d)).st.currentRun = none := h.current
      have hreplayed : Inevitable (ReplaySys.goOn cfg root) (ReplaySys.Over (runs ++ [d.name]))
          (s.goto (.chosen d)) := by
        rw [← hruns]
        refine inevitable_chosen rfl (hruns ▸ (by omega)) fun run hrun => ?_
        rw [hnone] at hrun
        cases hrun
      refine hreplayed.trans fun t ht => .one (goOn_idle ht.phase) ?_
      -- the run that was completed waits no more, and no other run does
      have hfewer : (root.candidates (runs ++ [d.name])).length ≤ ds.length := by
        rw [candidates_concat, hcand, List.filter_cons_of_neg (by simp)]
        exact List.length_filter_le _ _
      have hlonger : (runs ++ [d.name]).length = runs.length + 1 := List.length_append
      rw [Over.stepIdle ht]
      exact ih ht (by omega) (by omega)

/-- **The mode becomes idle**, from any state in which it chooses a run. -/
theorem Once.inevitable {done : List String} (h : Once done s) (hphase : s.phase = .idle)
    (hroom : s.st.completedRuns.length + root.waiting s.st ≤ MAX_COMPLETED_RUNS) :
    Inevitable (ReplaySys.goOn cfg root) (ReplaySys.AllDone root) s := by
  have hst := h.phase
  rw [hphase] at hst
  refine .one (goOn_idle hphase) ?_
  unfold InputRoot.waiting at hroom
  unfold ReplaySys.stepIdle
  cases hrun : s.st.currentRun with
  | none =>
    simp only [hrun] at hroom
    exact inevitable_nextRun ⟨hphase, hrun, rfl, hst⟩ (Nat.le_refl _) hroom
  | some run =>
    simp only [hrun] at hroom
    have hlength : (root.candidates (s.st.completedRuns ++ [run.runId])).length =
        ((root.candidates s.st.completedRuns).filter (·.name ≠ run.runId)).length :=
      candidates_concat root _ _
    have hlonger : (s.st.completedRuns ++ [run.runId]).length = s.st.completedRuns.length + 1 :=
      List.length_append
    have hsmall : s.st.completedRuns.length < MAX_COMPLETED_RUNS := by omega
    cases hnamed : root.named run.runId with
    | some d =>
      have hname : d.name = run.runId := by simpa using List.find?_some hnamed
      simp only [hnamed]
      have hreplayed : Inevitable (ReplaySys.goOn cfg root)
          (ReplaySys.Over (s.st.completedRuns ++ [d.name])) (s.goto (.chosen d)) := by
        refine @inevitable_chosen cfg root (s.goto (.chosen d)) d rfl hsmall fun r hr => ?_
        obtain rfl := Option.some.inj (hrun.symm.trans hr)
        exact hname.symm
      rw [hname] at hreplayed
      refine hreplayed.trans fun t ht => .one (goOn_idle ht.phase) ?_
      rw [Over.stepIdle ht]
      exact inevitable_nextRun ht (Nat.le_refl _) (by omega)
    | none =>
      simp only [hnamed]
      have hover : (s.finish run.runId).save.Over (s.st.completedRuns ++ [run.runId]) := by
        have htidy := h.st.markCompleted hsmall (h.st.current run hrun)
        refine ⟨?_, s.finish_current run.runId, ?_, ?_⟩
        · simp only [ReplaySys.save, ReplaySys.finish]
          exact hphase
        · simp only [ReplaySys.save, ReplaySys.finish]
          exact s.st.markCompleted_runs run.runId hsmall
        · simp only [ReplaySys.save, ReplaySys.finish]
          exact htidy.persisted.symm
      exact inevitable_nextRun hover (Nat.le_refl _) (by omega)

end Liveness

/-! ## A completed run is not replayed again -/

/-- **A completed run is not replayed again**, however the sender is stopped, killed and restarted
and the input root changes, in the runs in which a run is marked completed only while there is room
for it: a run whose completion was saved is kept among the completed ones, once, and is not chosen
again; and with few enough run directories the mode becomes idle with every run completed. -/
theorem replay_completed_once {cfg : ReplayConfig} {bootId : String} {s : ReplaySys}
    (h : (replayIn cfg (.fresh bootId)).Reach (Roomy cfg) s) :
    s.saved.completedRuns.Nodup ∧
    (∀ s', (replayIn cfg s).Reach (Roomy cfg) s' →
      s.saved.completedRuns ⊆ s'.saved.completedRuns ∧
      ∀ d, s'.phase = .chosen d → d.name ∉ s.saved.completedRuns) ∧
    ∀ root : InputRoot, s.phase = .idle →
      s.st.completedRuns.length + root.waiting s.st ≤ MAX_COMPLETED_RUNS →
      Inevitable (ReplaySys.goOn cfg root) (ReplaySys.AllDone root) s := by
  have honce : Once [] s := h.invariant (.fresh bootId) fun _ _ _ hi hC hs => hi.step hC hs
  refine ⟨honce.saved.nodup, fun s' h' => ?_, fun root hphase hroom => honce.inevitable hphase hroom⟩
  have hstart : Once s.saved.completedRuns s :=
    ⟨honce.st, honce.saved, honce.kept, List.Subset.refl _, honce.phase⟩
  have hlater : Once s.saved.completedRuns s' :=
    h'.invariant (I := Once s.saved.completedRuns) hstart fun _ _ _ hi hC hs => hi.step hC hs
  refine ⟨hlater.done, fun d hphase hmem => ?_⟩
  have hchosen := hlater.phase
  rw [hphase] at hchosen
  exact hchosen.2.1 (hlater.done_st hmem)

theorem reach_replayIn {cfg : ReplayConfig} {root : InputRoot} {i s : ReplaySys}
    {C : ReplaySys → ReplayOp → Prop} {D : ReplaySys → InputRoot × ReplayOp → Prop}
    (hCD : ∀ s op, C s op → D s (root, op)) (h : (replayFrom cfg root i).Reach C s) :
    (replayIn cfg i).Reach D s := by
  induction h with
  | init => exact .init
  | step _ hC hs ih => exact ih.step (hCD _ _ hC) hs

/-- One run is replayed, the sender killed on the way; it is not chosen again. -/
theorem replay_completed_once_one : ∃ s, s.saved.completedRuns = [(sampleRun 0).name] ∧
    (∀ s', (replayIn sampleReplay s).Reach (Roomy sampleReplay) s' →
      ∀ d, s'.phase = .chosen d → d.name ∉ [(sampleRun 0).name]) ∧
    Inevitable (ReplaySys.goOn sampleReplay oneRun) (ReplaySys.AllDone oneRun) s := by
  have hrun : ((replayFrom sampleReplay oneRun (.fresh "boot")).runMeeting
      (fun s _ => s.st.completedRuns.length < MAX_COMPLETED_RUNS) (.fresh "boot")
      (List.replicate 4 (.go 0 false) ++ .kill :: List.replicate 8 (.go 0 false))).any
        (fun s => s.phase = .idle ∧ s.saved.completedRuns = [(sampleRun 0).name] ∧
          s.st.completedRuns.length + oneRun.waiting s.st ≤ MAX_COMPLETED_RUNS) = true := by
    decide +kernel
  obtain ⟨s, hs, hstate⟩ := (Option.any_eq_true _ _).1 hrun
  obtain ⟨hphase, hsaved, hroom⟩ := of_decide_eq_true hstate
  have hreach : (replayIn sampleReplay (.fresh "boot")).Reach (Roomy sampleReplay) s :=
    reach_replayIn (fun _ _ hfew _ => hfew) (Machine.reach_of_run _ hs)
  obtain ⟨-, hagain, hidle⟩ := replay_completed_once hreach
  exact ⟨s, hsaved, fun s' h' d hd => hsaved ▸ (hagain s' h').2 d hd, hidle oneRun hphase hroom⟩

/-- **A run that is no longer remembered is chosen again**, though its completion was saved and its
directory is there: a thousand and one run directories are ready from the start. -/
theorem replay_repeats_completed : ∃ s s',
    (replayIn sampleReplay (.fresh "boot")).Reach (fun _ op => op.1 = manyRuns) s ∧
    (replayIn sampleReplay s).Reach (fun _ op => op.1 = manyRuns) s' ∧
    ∃ d ∈ manyRuns.dirs, s'.phase = .chosen d ∧ d.name ∈ s.saved.completedRuns := by
  obtain ⟨s, hs, hbetween, -⟩ := reach_manyRuns 999 (by decide)
  have hsaved : (sampleRun 0).name ∈ s.saved.completedRuns := by
    rw [hbetween.saved]
    exact (mem_runNames (by decide) (by decide)).2 ⟨Nat.le_refl 0, by decide⟩
  have hlast : Machine.Reach (replayFrom sampleReplay manyRuns s) (fun _ _ => True) s := .init
  obtain ⟨ds, hcand⟩ := @manyRuns_candidates (runNames 0 1000) 1000 (by decide)
    (fun i hi => (mem_runNames (by omega) (by decide)).2 ⟨Nat.zero_le i, hi⟩)
    (fun hmem => Nat.lt_irrefl _ ((mem_runNames (by decide) (by decide)).1 hmem).2)
  obtain ⟨s₁, hs₁, hbetween₁, -⟩ :=
    reach_empty (fun _ _ => trivial) hlast hbetween hcand (index_sampleRun_succ 999)
  rw [lastRuns_manyRuns] at hbetween₁
  obtain ⟨es, hagain⟩ := @manyRuns_candidates (runNames 1 1001) 0 (by decide) nofun
    (fun hmem => absurd ((mem_runNames (by decide) (by decide)).1 hmem).1 (by decide))
  have hmem := (manyRuns.mem_candidates hagain).1
  have hchosen : (replayFrom sampleReplay manyRuns s).Reach (fun _ _ => True)
      (s₁.goto (.chosen (sampleRun 0))) := by
    refine hs₁.step (a := .go 0 false) trivial ?_
    simp only [replayFrom, ReplaySys.step, ReplaySys.go, hbetween₁.phase, ReplaySys.stepIdle,
      hbetween₁.current, ReplaySys.nextRun, hbetween₁.completed, hagain, Bool.false_eq_true, if_false]
  exact ⟨s, _, reach_replayIn (fun _ _ _ => rfl) hs, reach_replayIn (fun _ _ _ => rfl) hchosen,
    sampleRun 0, hmem, rfl, hsaved⟩

end OTS.Sender
