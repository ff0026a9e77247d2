import Mathlib.Data.Char
import Mathlib.Data.List.Lex
import Mathlib.Data.List.Pairwise
import Mathlib.Data.List.Sort
import OTSecurity.Sender.State

/-!
# The replay-mode sender

Model of `ReplayMode` of `ingest/sender/sih_sender/replay.py` over the state file of `state.py`, as a
machine whose steps are small enough that the process can be killed between any two effects.

* `RunDir`, `InputRoot` — the run directories; their contents do not change.
* `RunDir.index` — `index`: the records of a run in the order in which they are sent.
* `ReplayPhase` — where `run`, `next_run` and `replay` stand; `ReplaySys.go` — one step of each phase.
* `replay` — the machine: the sender steps, is killed, or ends and saves.
* `Identity` — what a resumed replay keeps.
* `replay_keeps_identity` — it keeps it as long as no completed run is forgotten.
* `replay_repeats_forgotten` — with more than a thousand runs one is.

The calls of `send_record`, the completed runs and the reservations are kept as ghosts.
-/

namespace OTS.Sender

/-! ## Run directories -/

/-- A directory of the input root; its regular files with their bytes. -/
structure RunDir where
  name : String
  /-- `.done` exists. -/
  done : Bool
  files : List (String × Bytes)
  deriving DecidableEq

structure InputRoot where
  dirs : List RunDir
  nodup : (dirs.map (·.name)).Nodup

/-- Settings; `emitTime` is `emit_time_us` of the normalizer, `none` when it rejects the line. -/
structure ReplayConfig where
  maxReplayRecords : Nat
  persistEvery : Nat
  emitTime : String → List Char → Option Int

def isRunIdChar (c : Char) : Bool :=
  ('A' ≤ c && c ≤ 'Z') || ('a' ≤ c && c ≤ 'z') || ('0' ≤ c && c ≤ '9') ||
    c = '.' || c = '_' || c = '-'

/-- `RUN_ID.fullmatch(name)`. -/
def isRunId (name : String) : Bool :=
  1 ≤ name.toList.length ∧ name.toList.length ≤ 64 ∧ name.toList.all isRunIdChar

/-- `sorted` by name. -/
def byName {α : Type} (name : α → String) (xs : List α) : List α :=
  xs.insertionSort fun a b => (name a).toList ≤ (name b).toList

/-- An entry of the index. -/
structure Item where
  emitUs : Int
  file : Nat
  offset : Nat
  length : Nat
  deriving DecidableEq, Repr

/-- The order of tuples. -/
def Item.le (a b : Item) : Bool :=
  decide (a.emitUs < b.emitUs) || a.emitUs = b.emitUs && (decide (a.file < b.file) ||
    a.file = b.file && (decide (a.offset < b.offset) || a.offset = b.offset && a.length ≤ b.length))

/-- Each line with the offset at which it starts. -/
def withOffsets : Nat → List Bytes → List (Nat × Bytes)
  | _, [] => []
  | pos, line :: lines => (pos, line) :: withOffsets (pos + line.length + 1) lines

/-- The lines of a file, the last one also without its newline. -/
def fileLines (data : Bytes) : List (Nat × Bytes) :=
  let (lines, rest) := splitLines data
  withOffsets 0 (lines ++ if rest = [] then [] else [rest])

/-- `line[:-1]` when the line ends in a carriage return. -/
def stripCr (line : Bytes) : Bytes := if line.getLast? = some 13 then line.dropLast else line

/-- The entry of one line, unless it is empty, a comment, or rejected. -/
def lineItem (cfg : ReplayConfig) (type : String) (file : Nat) (start : Nat) (raw : Bytes) :
    Option Item :=
  let line := stripCr raw
  if line = [] ∨ line.head? = some 35 then none
  else do
    let text ← utf8Decode line
    let emit ← cfg.emitTime type text
    return ⟨emit, file, start, line.length⟩

namespace RunDir

/-- The files that are replayed, in order, each with its log type. -/
def logs (d : RunDir) : List (String × Bytes) :=
  (byName (·.1) d.files).filterMap fun f => (logType f.1).map fun type => (type, f.2)

/-- `index`: at most `max_replay_records` entries, and at least one if there is one. -/
def index (cfg : ReplayConfig) (d : RunDir) : List Item :=
  ((d.logs.zipIdx.flatMap fun f => (fileLines f.1.2).filterMap fun l =>
    lineItem cfg f.1.1 f.2 l.1 l.2).take (max 1 cfg.maxReplayRecords)).insertionSort
      fun a b => a.le b

/-- What is read back for entry `i`: the log type and the line. -/
def record (cfg : ReplayConfig) (d : RunDir) (i : Nat) : Option (String × List Char) := do
  let item ← (d.index cfg)[i]?
  let file ← d.logs[item.file]?
  let line ← utf8Decode (slice file.2 item.offset item.length)
  return (file.1, line)

end RunDir

/-- The run directories that are ready, but for those in `done`, in order. -/
def InputRoot.candidates (root : InputRoot) (done : List String) : List RunDir :=
  byName (·.name) (root.dirs.filter fun d => isRunId d.name && d.done && decide (d.name ∉ done))

def InputRoot.named (root : InputRoot) (name : String) : Option RunDir :=
  root.dirs.find? (·.name = name)

/-! ## The machine -/

/-- A call of `send_record` for an entry of the index. -/
structure Transmission where
  runId : String
  index : Nat
  logType : String
  line : List Char
  sequence : Nat
  offsetUs : Int
  deriving DecidableEq

/-- A range of sequence numbers taken for a run. -/
structure Reservation where
  runId : String
  base : Nat
  total : Nat
  offsetUs : Int
  deriving DecidableEq

inductive ReplayPhase where
  | idle
  | chosen (dir : RunDir)
  /-- A range has been reserved and is yet to be saved. -/
  | reserved (dir : RunDir)
  | sending (dir : RunDir) (sinceSave : Nat)
  | sent (dir : RunDir) (sinceSave : Nat)
  | counted (dir : RunDir) (sinceSave : Nat)
  /-- The loop is over. -/
  | ending (dir : RunDir)
  | closing
  deriving DecidableEq

structure ReplaySys where
  st : SenderState
  /-- The state file. -/
  saved : SenderState
  phase : ReplayPhase
  sent : List Transmission
  /-- The runs marked completed. -/
  finished : List String
  reserved : List Reservation

inductive ReplayOp where
  /-- One step of the process; `stop` is what `stop.is_set()` says then. -/
  | go (nowUs : Int) (stop : Bool)
  /-- The process is killed, and started again from the state file. -/
  | kill
  /-- The process ends by the `finally` of `main`, which saves, and is started again. -/
  | shutdown
  deriving DecidableEq

def CurrentRun.reservation (run : CurrentRun) : Reservation :=
  ⟨run.runId, run.baseSequence, run.total, run.offsetUs⟩

namespace ReplaySys

variable (cfg : ReplayConfig) (root : InputRoot) (s : ReplaySys)

def goto (phase : ReplayPhase) : ReplaySys := { s with phase := phase }

def save : ReplaySys := { s with saved := s.st.persisted }

/-- `mark_completed`. -/
def finish (runId : String) : ReplaySys :=
  { s with
    st := s.st.markCompleted runId
    finished := s.finished ++ [runId] }

/-- `next_run` without a run in progress. -/
def nextRun : ReplaySys :=
  match root.candidates s.st.completedRuns with
  | [] => s
  | d :: _ => s.goto (.chosen d)

/-- `next_run`; a run in progress whose directory is gone is given up. -/
def stepIdle : ReplaySys :=
  match s.st.currentRun with
  | none => s.nextRun root
  | some run =>
    match root.named run.runId with
    | some d => s.goto (.chosen d)
    | none => (s.finish run.runId).save.nextRun root

/-- The run that a reservation starts. -/
def newRun (d : RunDir) (nowUs : Int) : CurrentRun :=
  let items := d.index cfg
  let wallStart := nowUs + 500000
  let first := (items.head?.map (·.emitUs)).getD 0
  ⟨d.name, s.st.nextSequence, items.length, 0, wallStart, first, wallStart - first⟩

/-- The start of `replay`: the run is resumed, or a range is reserved for it. -/
def stepChosen (d : RunDir) (nowUs : Int) : ReplaySys :=
  if s.st.currentRun.any (·.runId = d.name) then s.goto (.sending d 0)
  else
    let run := s.newRun cfg d nowUs
    { s with
      st := { s.st with currentRun := some run, nextSequence := run.baseSequence + run.total }
      reserved := s.reserved ++ [run.reservation]
      phase := .reserved d }

/-- One round of the loop: an entry is sent, or the loop is over. -/
def stepSending (d : RunDir) (n : Nat) (run : CurrentRun) (stop : Bool) : Option ReplaySys :=
  if stop ∨ min run.total (d.index cfg).length ≤ run.nextIndex then some (s.goto (.ending d))
  else (d.record cfg run.nextIndex).map fun r =>
    { s with
      sent := s.sent ++
        [⟨d.name, run.nextIndex, r.1, r.2, run.baseSequence + run.nextIndex, run.offsetUs⟩]
      phase := .sent d n }

/-- `run["next_index"] = i + 1`. -/
def stepSent (d : RunDir) (n : Nat) (run : CurrentRun) : ReplaySys :=
  { s with
    st := { s.st with currentRun := some { run with nextIndex := run.nextIndex + 1 } }
    phase := .counted d (n + 1) }

def stepCounted (d : RunDir) (n : Nat) : ReplaySys :=
  if cfg.persistEvery ≤ n then s.save.goto (.sending d 0) else s.goto (.sending d n)

/-- The end of `replay`. -/
def stepEnding (d : RunDir) (run : CurrentRun) : ReplaySys :=
  (if min run.total (d.index cfg).length ≤ run.nextIndex then s.finish d.name else s).goto .closing

def go (nowUs : Int) (stop : Bool) : Option ReplaySys :=
  match s.phase with
  | .idle => if stop then none else some (s.stepIdle root)
  | .chosen d => some (s.stepChosen cfg d nowUs)
  | .reserved d => some (s.save.goto (.sending d 0))
  | .sending d n => s.st.currentRun.bind fun run => s.stepSending cfg d n run stop
  | .sent d n => s.st.currentRun.map fun run => s.stepSent d n run
  | .counted d n => some (s.stepCounted cfg d n)
  | .ending d => s.st.currentRun.map fun run => s.stepEnding cfg d run
  | .closing => some (s.save.goto .idle)

/-- The process starts from the state file. -/
def load : ReplaySys := { s with st := s.saved, phase := .idle }

def step : ReplayOp → Option ReplaySys
  | .go nowUs stop => s.go cfg root nowUs stop
  | .kill => some s.load
  | .shutdown => some s.save.load

end ReplaySys

/-- A sender whose state file has just been created. -/
def replay (cfg : ReplayConfig) (root : InputRoot) (bootId : String) : Machine ReplaySys ReplayOp where
  init := ⟨.fresh bootId, .fresh bootId, .idle, [], [], []⟩
  step := ReplaySys.step cfg root

/-! ## The property -/

/-- What a resumed replay keeps. -/
structure Identity (cfg : ReplayConfig) (root : InputRoot) (s : ReplaySys) : Prop where
  /-- Every transmission is an entry of its run, under a number of the range reserved for the run. -/
  own : ∀ t ∈ s.sent,
    (∃ d ∈ root.dirs, d.name = t.runId ∧ d.record cfg t.index = some (t.logType, t.line)) ∧
    ∃ r ∈ s.reserved, r.runId = t.runId ∧ t.sequence = r.base + t.index ∧ t.index < r.total ∧
      t.offsetUs = r.offsetUs
  /-- All transmissions of a run have the same base and the same offset. -/
  same : ∀ t ∈ s.sent, ∀ u ∈ s.sent, t.runId = u.runId →
    t.sequence + u.index = u.sequence + t.index ∧ t.offsetUs = u.offsetUs
  /-- A run that has been marked completed has been sent. -/
  whole : ∀ d ∈ root.dirs, d.name ∈ s.finished →
    ∀ i < (d.index cfg).length, ∃ t ∈ s.sent, t.runId = d.name ∧ t.index = i
  /-- The ranges of different runs do not overlap. -/
  apart : ∀ r ∈ s.reserved, ∀ q ∈ s.reserved, r.runId ≠ q.runId →
    r.base + r.total ≤ q.base ∨ q.base + q.total ≤ r.base

/-- No run is marked completed when a thousand already are. -/
def Remembers (cfg : ReplayConfig) (s : ReplaySys) (op : ReplayOp) : Prop :=
  ∀ nowUs stop d run, op = .go nowUs stop → s.phase = .ending d → s.st.currentRun = some run →
    min run.total (d.index cfg).length ≤ run.nextIndex → s.st.completedRuns.length < MAX_COMPLETED_RUNS

/-! ## What the states agree on -/

theorem lastRuns_eq {runs : List String} (h : runs.length ≤ MAX_COMPLETED_RUNS) :
    lastRuns runs = runs := by
  unfold lastRuns
  rw [Nat.sub_eq_zero_of_le h, List.drop_zero]

theorem length_lastRuns_le (runs : List String) : (lastRuns runs).length ≤ MAX_COMPLETED_RUNS := by
  unfold lastRuns
  rw [List.length_drop]
  omega

/-- There is room for one run more. -/
theorem length_concat_le {runs : List String} (h : runs.length < MAX_COMPLETED_RUNS) (runId : String) :
    (runs ++ [runId]).length ≤ MAX_COMPLETED_RUNS := by
  rw [List.length_append]
  exact h

/-- A run is added to the completed ones when there is room. -/
theorem SenderState.markCompleted_runs (st : SenderState) (runId : String)
    (h : st.completedRuns.length < MAX_COMPLETED_RUNS) :
    (st.markCompleted runId).completedRuns = st.completedRuns ++ [runId] := by
  simp only [SenderState.markCompleted]
  rw [lastRuns_eq (length_concat_le h runId)]

theorem SenderState.persisted_eq {st : SenderState}
    (h : st.completedRuns.length ≤ MAX_COMPLETED_RUNS) : st.persisted = st := by
  unfold SenderState.persisted
  rw [lastRuns_eq h]

theorem InputRoot.eq_of_name {root : InputRoot} {d e : RunDir} (hd : d ∈ root.dirs)
    (he : e ∈ root.dirs) (h : d.name = e.name) : d = e :=
  List.inj_on_of_nodup_map root.nodup hd he h

theorem InputRoot.named_of_mem {root : InputRoot} {d : RunDir} (hd : d ∈ root.dirs) :
    root.named d.name = some d := by
  unfold InputRoot.named
  cases h : root.dirs.find? (·.name = d.name) with
  | none =>
    have := List.find?_eq_none.1 h d hd
    simp at this
  | some e =>
    have hname : e.name = d.name := by simpa using List.find?_some h
    rw [root.eq_of_name (List.mem_of_find?_eq_some h) hd hname]

theorem InputRoot.mem_candidates {root : InputRoot} {done : List String} {d : RunDir}
    {ds : List RunDir} (h : root.candidates done = d :: ds) : d ∈ root.dirs ∧ d.name ∉ done := by
  have hmem : d ∈ root.candidates done := h ▸ List.mem_cons_self
  unfold InputRoot.candidates byName at hmem
  rw [List.mem_insertionSort, List.mem_filter] at hmem
  refine ⟨hmem.1, ?_⟩
  have hnot := (Bool.and_eq_true_iff.1 hmem.2).2
  exact of_decide_eq_true hnot

namespace Replay

section Invariant

variable {cfg : ReplayConfig} {root : InputRoot}

/-- The entries of a run before `n` have been sent. -/
def SentUpTo (sent : List Transmission) (runId : String) (n : Nat) : Prop :=
  ∀ i < n, ∃ t ∈ sent, t.runId = runId ∧ t.index = i

/-- A state that knows of the saved reservations `A`: each is of a completed run or of the current
one. -/
structure Follows (cfg : ReplayConfig) (root : InputRoot) (A : List Reservation)
    (sent : List Transmission) (st : SenderState) : Prop where
  accounted : ∀ a ∈ A,
    a.runId ∈ st.completedRuns ∨ ∃ run, st.currentRun = some run ∧ run.runId = a.runId
  small : st.completedRuns.length ≤ MAX_COMPLETED_RUNS
  current : ∀ run, st.currentRun = some run → run.reservation ∈ A ∧
    ∃ d ∈ root.dirs, d.name = run.runId ∧ run.total = (d.index cfg).length ∧
      run.nextIndex ≤ run.total ∧ SentUpTo sent run.runId run.nextIndex
  next : ∀ a ∈ A, a.base + a.total ≤ st.nextSequence

/-- Two reservations of one range; a range that was not saved may be taken again at another time. -/
def SameRange (a r : Reservation) : Prop :=
  a.runId = r.runId ∧ a.base = r.base ∧ a.total = r.total

/-- A reservation that the state file does not know of: the next run will get the same range. -/
def Pending (cfg : ReplayConfig) (root : InputRoot) (saved : SenderState) (r : Reservation) : Prop :=
  saved.currentRun = none ∧ r.base = saved.nextSequence ∧
    ∃ d ds, root.candidates saved.completedRuns = d :: ds ∧ r.runId = d.name ∧
      r.total = (d.index cfg).length

/-- What holds between two steps, with the reservations `A` that the state file knows of. -/
structure Settled (cfg : ReplayConfig) (root : InputRoot) (A : List Reservation) (s : ReplaySys) :
    Prop where
  names : (A.map (·.runId)).Nodup
  ranges : A.Pairwise fun a b => a.base + a.total ≤ b.base
  sent : ∀ t ∈ s.sent,
    (∃ d ∈ root.dirs, d.name = t.runId ∧ d.record cfg t.index = some (t.logType, t.line)) ∧
    ∃ a ∈ A, a.runId = t.runId ∧ t.sequence = a.base + t.index ∧ t.index < a.total ∧
      t.offsetUs = a.offsetUs
  whole : ∀ d ∈ root.dirs, d.name ∈ s.finished → SentUpTo s.sent d.name (d.index cfg).length
  known : ∀ a ∈ A, a ∈ s.reserved
  reserved : ∀ r ∈ s.reserved, (∃ a ∈ A, SameRange a r) ∨ Pending cfg root s.saved r
  saved : Follows cfg root A s.sent s.saved

/-- The run in progress is `d`. -/
def InProgress (cfg : ReplayConfig) (root : InputRoot) (A : List Reservation) (s : ReplaySys)
    (d : RunDir) : Prop :=
  Follows cfg root A s.sent s.st ∧ d ∈ root.dirs ∧ s.saved.currentRun.isSome ∧
    ∃ run, s.st.currentRun = some run ∧ run.runId = d.name

def PhaseInv (cfg : ReplayConfig) (root : InputRoot) (A : List Reservation) (s : ReplaySys) :
    ReplayPhase → Prop
  | .idle => s.st = s.saved
  | .chosen d => s.st = s.saved ∧
    ((d ∈ root.dirs ∧ ∃ run, s.st.currentRun = some run ∧ run.runId = d.name) ∨
      (s.st.currentRun = none ∧ ∃ ds, root.candidates s.st.completedRuns = d :: ds))
  | .reserved d => s.saved.currentRun = none ∧
    (∃ ds, root.candidates s.saved.completedRuns = d :: ds) ∧
    ∃ nowUs, s.st = { s.saved with
      currentRun := some ({ s with st := s.saved }.newRun cfg d nowUs)
      nextSequence := s.saved.nextSequence + (d.index cfg).length } ∧
      ({ s with st := s.saved }.newRun cfg d nowUs).reservation ∈ s.reserved
  | .sending d _ => InProgress cfg root A s d
  | .sent d _ => InProgress cfg root A s d ∧ ∀ run, s.st.currentRun = some run →
    run.nextIndex < run.total ∧ ∃ t ∈ s.sent, t.runId = run.runId ∧ t.index = run.nextIndex
  | .counted d _ => InProgress cfg root A s d
  | .ending d => InProgress cfg root A s d
  | .closing => Follows cfg root A s.sent s.st ∧ s.saved.currentRun.isSome

def Inv (cfg : ReplayConfig) (root : InputRoot) (s : ReplaySys) : Prop :=
  ∃ A, Settled cfg root A s ∧ PhaseInv cfg root A s s.phase

/-! ## Saving -/

variable {A : List Reservation} {s : ReplaySys}

/-- With a run in the state file every reservation is known. -/
theorem Settled.all_known (h : Settled cfg root A s) (hsome : s.saved.currentRun.isSome) :
    ∀ r ∈ s.reserved, ∃ a ∈ A, SameRange a r := by
  intro r hr
  rcases h.reserved r hr with hA | ⟨hnone, -⟩
  · exact hA
  · rw [hnone] at hsome
    cases hsome

/-- Saving a state that knows of every reservation. -/
theorem Settled.save (h : Settled cfg root A s) (hst : Follows cfg root A s.sent s.st)
    (hall : ∀ r ∈ s.reserved, ∃ a ∈ A, SameRange a r) :
    Settled cfg root A s.save ∧ s.save.saved = s.st := by
  have hsave : s.st.persisted = s.st := SenderState.persisted_eq hst.small
  refine ⟨⟨h.names, h.ranges, h.sent, h.whole, h.known, fun r hr => .inl (hall r hr), ?_⟩, hsave⟩
  show Follows cfg root A s.sent s.st.persisted
  rw [hsave]
  exact hst

/-- A new reservation is saved: it becomes known, and those that were pending were the same. -/
theorem Settled.save_reserved (h : Settled cfg root A s) {d : RunDir}
    (hp : PhaseInv cfg root A s (.reserved d)) :
    ∃ B, Settled cfg root B s.save ∧ s.save.saved = s.st ∧ InProgress cfg root B s.save d := by
  obtain ⟨hnone, ⟨ds, hcand⟩, nowUs, hst, hmem⟩ := hp
  obtain ⟨run, hrun⟩ : ∃ run, run = { s with st := s.saved }.newRun cfg d nowUs := ⟨_, rfl⟩
  rw [← hrun] at hst hmem
  have hid : run.runId = d.name := by rw [hrun]; rfl
  have hbase : run.baseSequence = s.saved.nextSequence := by rw [hrun]; rfl
  have htotal : run.total = (d.index cfg).length := by rw [hrun]; rfl
  have hindex : run.nextIndex = 0 := by rw [hrun]; rfl
  obtain ⟨hd, hnew⟩ := root.mem_candidates hcand
  have hfresh : ∀ a ∈ A, a.runId ≠ d.name := by
    intro a ha heq
    rcases h.saved.accounted a ha with hc | ⟨r, hr, -⟩
    · exact hnew (heq ▸ hc)
    · rw [hnone] at hr
      cases hr
  have hcompleted : s.st.completedRuns = s.saved.completedRuns := by rw [hst]
  have hcurrent : s.st.currentRun = some run := by rw [hst]
  have hnext : s.st.nextSequence = s.saved.nextSequence + run.total := by rw [hst, htotal]
  have hfollows : Follows cfg root (A ++ [run.reservation]) s.sent s.st := by
    constructor
    · intro a ha
      rcases List.mem_append.1 ha with ha | ha
      · rcases h.saved.accounted a ha with hc | ⟨r, hr, -⟩
        · exact .inl (hcompleted ▸ hc)
        · rw [hnone] at hr
          cases hr
      · rw [List.mem_singleton.1 ha]
        exact .inr ⟨run, hcurrent, rfl⟩
    · rw [hcompleted]
      exact h.saved.small
    · intro r hr
      obtain rfl := Option.some.inj (hcurrent.symm.trans hr)
      refine ⟨List.mem_append_right _ (List.mem_singleton.2 rfl), d, hd, hid.symm, htotal, ?_, ?_⟩
      · omega
      · intro i hi
        omega
    · intro a ha
      rw [hnext]
      rcases List.mem_append.1 ha with ha | ha
      · have := h.saved.next a ha
        omega
      · rw [List.mem_singleton.1 ha]
        show run.baseSequence + run.total ≤ _
        omega
  have hsave : s.st.persisted = s.st := SenderState.persisted_eq hfollows.small
  refine ⟨A ++ [run.reservation], ⟨?_, ?_, ?_, h.whole, ?_, ?_, ?_⟩, hsave, ?_⟩
  · rw [List.map_append, List.nodup_append]
    refine ⟨h.names, List.nodup_singleton _, ?_⟩
    intro a ha b hb
    obtain ⟨x, hx, rfl⟩ := List.mem_map.1 ha
    rw [List.mem_singleton.1 hb]
    exact fun heq => hfresh x hx (heq.trans hid)
  · rw [List.pairwise_append]
    refine ⟨h.ranges, List.pairwise_singleton _ _, ?_⟩
    intro a ha b hb
    rw [List.mem_singleton.1 hb]
    have := h.saved.next a ha
    show _ ≤ run.baseSequence
    omega
  · intro t ht
    obtain ⟨hown, a, ha, hrest⟩ := h.sent t ht
    exact ⟨hown, a, List.mem_append_left _ ha, hrest⟩
  · intro a ha
    rcases List.mem_append.1 ha with ha | ha
    · exact h.known a ha
    · exact List.mem_singleton.1 ha ▸ hmem
  · intro r hr
    rcases h.reserved r hr with ⟨a, ha, hsame⟩ | ⟨-, hb, e, es, hcand', hid', htot'⟩
    · exact .inl ⟨a, List.mem_append_left _ ha, hsame⟩
    · obtain ⟨rfl, -⟩ := List.cons_eq_cons.1 (hcand'.symm.trans hcand)
      exact .inl ⟨run.reservation, List.mem_append_right _ (List.mem_singleton.2 rfl),
        hid.trans hid'.symm, hbase.trans hb.symm, htotal.trans htot'.symm⟩
  · show Follows cfg root _ s.sent s.st.persisted
    rw [hsave]
    exact hfollows
  · refine ⟨hfollows, hd, ?_, run, hcurrent, hid⟩
    show (s.st.persisted).currentRun.isSome
    rw [hsave, hcurrent]
    rfl

/-- The process starts from a settled state file. -/
theorem Settled.load (h : Settled cfg root A s) : Inv cfg root s.load :=
  ⟨A, ⟨h.names, h.ranges, h.sent, h.whole, h.known, h.reserved, h.saved⟩, rfl⟩

theorem Settled.save_same (h : Settled cfg root A s) (hst : s.st = s.saved) : s.save = s := by
  have hsaved : s.st.persisted = s.saved := by rw [hst, SenderState.persisted_eq h.saved.small]
  unfold ReplaySys.save
  rw [hsaved]

theorem InProgress.save {d : RunDir} (h : Settled cfg root A s) (hp : InProgress cfg root A s d) :
    Settled cfg root A s.save ∧ InProgress cfg root A s.save d := by
  obtain ⟨hst, hd, hsome, run, hrun, hid⟩ := hp
  obtain ⟨hset, hsaved⟩ := h.save hst (h.all_known hsome)
  refine ⟨hset, hst, hd, ?_, run, hrun, hid⟩
  rw [hsaved, hrun]
  rfl

/-- **Ending with a save** leaves a settled state file. -/
theorem Inv.shutdown (h : Inv cfg root s) : Inv cfg root s.save.load := by
  obtain ⟨A, hset, hp⟩ := h
  cases hphase : s.phase with
  | idle =>
    rw [hphase] at hp
    rw [hset.save_same hp]
    exact hset.load
  | chosen d =>
    rw [hphase] at hp
    rw [hset.save_same hp.1]
    exact hset.load
  | reserved d =>
    rw [hphase] at hp
    obtain ⟨B, hB, -⟩ := hset.save_reserved hp
    exact hB.load
  | sending d n =>
    rw [hphase] at hp
    exact (InProgress.save hset hp).1.load
  | sent d n =>
    rw [hphase] at hp
    exact (InProgress.save hset hp.1).1.load
  | counted d n =>
    rw [hphase] at hp
    exact (InProgress.save hset hp).1.load
  | ending d =>
    rw [hphase] at hp
    exact (InProgress.save hset hp).1.load
  | closing =>
    rw [hphase] at hp
    exact (hset.save hp.1 (hset.all_known hp.2)).1.load

/-! ## Steps -/

theorem Settled.nextRun (h : Settled cfg root A s) (hst : s.st = s.saved)
    (hnone : s.st.currentRun = none) (hphase : s.phase = .idle) : Inv cfg root (s.nextRun root) := by
  unfold ReplaySys.nextRun
  cases hcand : root.candidates s.st.completedRuns with
  | nil => exact ⟨A, h, by rw [hphase]; exact hst⟩
  | cons d ds =>
    exact ⟨A, ⟨h.names, h.ranges, h.sent, h.whole, h.known, h.reserved, h.saved⟩, hst,
      .inr ⟨hnone, ds, hcand⟩⟩

theorem Settled.stepIdle (h : Settled cfg root A s) (hst : s.st = s.saved) (hphase : s.phase = .idle) :
    Inv cfg root (s.stepIdle root) := by
  unfold ReplaySys.stepIdle
  cases hrun : s.st.currentRun with
  | none => exact h.nextRun hst hrun hphase
  | some run =>
    -- the directory of the run in progress is still there
    obtain ⟨-, d, hd, hname, -⟩ := h.saved.current run (hst ▸ hrun)
    simp only [← hname, root.named_of_mem hd]
    exact ⟨A, ⟨h.names, h.ranges, h.sent, h.whole, h.known, h.reserved, h.saved⟩, hst,
      .inl ⟨hd, run, hrun, hname.symm⟩⟩

theorem Settled.stepChosen (h : Settled cfg root A s) {d : RunDir}
    (hp : PhaseInv cfg root A s (.chosen d)) (nowUs : Int) : Inv cfg root (s.stepChosen cfg d nowUs) := by
  obtain ⟨hst, hcases⟩ := hp
  unfold ReplaySys.stepChosen
  rcases hcases with ⟨hd, run, hrun, hid⟩ | ⟨hnone, ds, hcand⟩
  · rw [if_pos (by rw [hrun]; exact decide_eq_true hid)]
    refine ⟨A, ⟨h.names, h.ranges, h.sent, h.whole, h.known, h.reserved, h.saved⟩, ?_, hd, ?_, run,
      hrun, hid⟩
    · show Follows cfg root A s.sent s.st
      rw [hst]
      exact h.saved
    · show s.saved.currentRun.isSome
      rw [← hst, hrun]
      rfl
  · rw [if_neg (by rw [hnone]; exact Bool.false_ne_true)]
    have hsaved : s.saved.currentRun = none := hst ▸ hnone
    have hcand' : root.candidates s.saved.completedRuns = d :: ds := hst ▸ hcand
    refine ⟨A, ⟨h.names, h.ranges, h.sent, h.whole, fun a ha => List.mem_append_left _ (h.known a ha),
      ?_, h.saved⟩, hsaved, ⟨ds, hcand'⟩, nowUs, ?_, ?_⟩
    · intro r hr
      rcases List.mem_append.1 hr with hr | hr
      · exact h.reserved r hr
      · rw [List.mem_singleton.1 hr]
        refine .inr ⟨hsaved, ?_, d, ds, hcand', rfl, rfl⟩
        show s.st.nextSequence = _
        rw [hst]
    · simp only [ReplaySys.newRun, hst]
    · refine List.mem_append_right _ (List.mem_singleton.2 ?_)
      simp only [ReplaySys.newRun, hst]

/-- A further transmission. -/
theorem Follows.mono {st : SenderState} {sent more : List Transmission}
    (h : Follows cfg root A sent st) : Follows cfg root A (sent ++ more) st := by
  refine ⟨h.accounted, h.small, fun run hrun => ?_, h.next⟩
  obtain ⟨hA, d, hd, hname, htotal, hle, hsent⟩ := h.current run hrun
  refine ⟨hA, d, hd, hname, htotal, hle, fun i hi => ?_⟩
  obtain ⟨t, ht, heq⟩ := hsent i hi
  exact ⟨t, List.mem_append_left _ ht, heq⟩

theorem Settled.stepSending (h : Settled cfg root A s) {d : RunDir} {n : Nat} {run : CurrentRun}
    {stop : Bool} {s' : ReplaySys} (hp : InProgress cfg root A s d)
    (hrun : s.st.currentRun = some run) (hs : s.stepSending cfg d n run stop = some s') :
    Inv cfg root s' := by
  obtain ⟨hst, hd, hsome, run', hrun', hid⟩ := hp
  obtain rfl := Option.some.inj (hrun.symm.trans hrun')
  obtain ⟨hA, e, he, hname, htotal, hle, hup⟩ := hst.current run hrun
  obtain rfl := root.eq_of_name hd he (hid.symm.trans hname.symm)
  unfold ReplaySys.stepSending at hs
  split at hs
  · cases hs
    exact ⟨A, ⟨h.names, h.ranges, h.sent, h.whole, h.known, h.reserved, h.saved⟩, hst, hd, hsome, run,
      hrun, hid⟩
  · rename_i hmore
    obtain ⟨r, hr, rfl⟩ := Option.map_eq_some_iff.1 hs
    have hlt : run.nextIndex < run.total := by
      by_contra hge
      exact hmore (.inr (by omega))
    refine ⟨A, ⟨h.names, h.ranges, ?_, ?_, h.known, h.reserved, h.saved.mono⟩,
      ⟨hst.mono, hd, hsome, run, hrun, hid⟩, ?_⟩
    · intro t ht
      rcases List.mem_append.1 ht with ht | ht
      · exact h.sent t ht
      · rw [List.mem_singleton.1 ht]
        exact ⟨⟨d, hd, rfl, hr⟩, run.reservation, hA, hid, rfl, hlt, rfl⟩
    · intro e he hfin i hi
      obtain ⟨t, ht, heq⟩ := h.whole e he hfin i hi
      exact ⟨t, List.mem_append_left _ ht, heq⟩
    · intro run' hrun'
      obtain rfl := Option.some.inj (hrun.symm.trans hrun')
      exact ⟨hlt, _, List.mem_append_right _ (List.mem_singleton.2 rfl), hid.symm, rfl⟩

theorem Settled.stepSent (h : Settled cfg root A s) {d : RunDir} {n : Nat} {run : CurrentRun}
    (hp : PhaseInv cfg root A s (.sent d n)) (hrun : s.st.currentRun = some run) :
    Inv cfg root (s.stepSent d n run) := by
  obtain ⟨⟨hst, hd, hsome, run', hrun', hid⟩, hlast⟩ := hp
  obtain rfl := Option.some.inj (hrun.symm.trans hrun')
  obtain ⟨hlt, t, ht, hrunId, hindex⟩ := hlast run hrun
  obtain ⟨hA, e, he, hname, htotal, hle, hup⟩ := hst.current run hrun
  refine ⟨A, ⟨h.names, h.ranges, h.sent, h.whole, h.known, h.reserved, h.saved⟩, ?_, hd, hsome, _, rfl,
    hid⟩
  refine ⟨fun a ha => ?_, hst.small, fun r hr => ?_, hst.next⟩
  · rcases hst.accounted a ha with hc | ⟨r, hr, hra⟩
    · exact .inl hc
    · obtain rfl := Option.some.inj (hrun.symm.trans hr)
      exact .inr ⟨_, rfl, hra⟩
  · cases hr
    refine ⟨hA, e, he, hname, htotal, hlt, fun i hi => ?_⟩
    rcases Nat.lt_succ_iff_lt_or_eq.1 hi with hi | rfl
    · exact hup i hi
    · exact ⟨t, ht, hrunId, hindex⟩

theorem Settled.stepCounted (h : Settled cfg root A s) {d : RunDir} {n : Nat}
    (hp : InProgress cfg root A s d) : Inv cfg root (s.stepCounted cfg d n) := by
  unfold ReplaySys.stepCounted
  split
  · obtain ⟨hset, hprog⟩ := InProgress.save h hp
    exact ⟨A, ⟨hset.names, hset.ranges, hset.sent, hset.whole, hset.known, hset.reserved, hset.saved⟩,
      hprog⟩
  · exact ⟨A, ⟨h.names, h.ranges, h.sent, h.whole, h.known, h.reserved, h.saved⟩, hp⟩

theorem Settled.stepEnding (h : Settled cfg root A s) {d : RunDir} {run : CurrentRun}
    (hp : InProgress cfg root A s d) (hrun : s.st.currentRun = some run)
    (hroom : min run.total (d.index cfg).length ≤ run.nextIndex →
      s.st.completedRuns.length < MAX_COMPLETED_RUNS) : Inv cfg root (s.stepEnding cfg d run) := by
  obtain ⟨hst, hd, hsome, run', hrun', hid⟩ := hp
  obtain rfl := Option.some.inj (hrun.symm.trans hrun')
  obtain ⟨hA, e, he, hname, htotal, hle, hup⟩ := hst.current run hrun
  obtain rfl := root.eq_of_name hd he (hid.symm.trans hname.symm)
  unfold ReplaySys.stepEnding
  split
  · rename_i hdone
    have hlength : s.st.completedRuns.length < MAX_COMPLETED_RUNS := hroom hdone
    obtain ⟨st, hst'⟩ : ∃ st, st = s.st.markCompleted d.name := ⟨_, rfl⟩
    have hcompleted : st.completedRuns = s.st.completedRuns ++ [d.name] :=
      hst' ▸ s.st.markCompleted_runs d.name hlength
    have hnone : st.currentRun = none := by
      rw [hst', SenderState.markCompleted]
    have hnext : st.nextSequence = s.st.nextSequence := by
      rw [hst', SenderState.markCompleted]
    simp only [ReplaySys.goto, ReplaySys.finish, ← hst']
    refine ⟨A, ⟨h.names, h.ranges, h.sent, ?_, h.known, h.reserved, h.saved⟩, ?_, hsome⟩
    · intro f hf hfin i hi
      rcases List.mem_append.1 hfin with hfin | hfin
      · exact h.whole f hf hfin i hi
      · obtain rfl := root.eq_of_name hf hd (List.mem_singleton.1 hfin)
        obtain ⟨t, ht, heq⟩ := hup i (by omega)
        exact ⟨t, ht, heq.1.trans hid, heq.2⟩
    · constructor
      · intro a ha
        left
        rw [hcompleted]
        rcases hst.accounted a ha with hc | ⟨r, hr, hra⟩
        · exact List.mem_append_left _ hc
        · obtain rfl := Option.some.inj (hrun.symm.trans hr)
          exact List.mem_append_right _ (List.mem_singleton.2 (hra.symm.trans hid))
      · rw [hcompleted]
        exact length_concat_le hlength d.name
      · intro r hr
        rw [hnone] at hr
        cases hr
      · rw [hnext]
        exact hst.next
  · exact ⟨A, ⟨h.names, h.ranges, h.sent, h.whole, h.known, h.reserved, h.saved⟩, hst, hsome⟩

/-- **Every step keeps the invariant.** -/
theorem Inv.step {s' : ReplaySys} {op : ReplayOp} (h : Inv cfg root s) (hC : Remembers cfg s op)
    (hs : s.step cfg root op = some s') : Inv cfg root s' := by
  cases op with
  | kill =>
    cases hs
    obtain ⟨A, hset, -⟩ := h
    exact hset.load
  | shutdown =>
    cases hs
    exact h.shutdown
  | go nowUs stop =>
    obtain ⟨A, hset, hp⟩ := h
    simp only [ReplaySys.step, ReplaySys.go] at hs
    cases hphase : s.phase with
    | idle =>
      simp only [hphase] at hs hp
      split at hs
      · cases hs
      · cases hs
        exact hset.stepIdle hp hphase
    | chosen d =>
      simp only [hphase] at hs hp
      cases hs
      exact hset.stepChosen hp nowUs
    | reserved d =>
      simp only [hphase] at hs hp
      cases hs
      obtain ⟨B, hB, -, hprog⟩ := hset.save_reserved hp
      exact ⟨B, ⟨hB.names, hB.ranges, hB.sent, hB.whole, hB.known, hB.reserved, hB.saved⟩, hprog⟩
    | sending d n =>
      simp only [hphase] at hs hp
      obtain ⟨run, hrun, hs⟩ := Option.bind_eq_some_iff.1 hs
      exact hset.stepSending hp hrun hs
    | sent d n =>
      simp only [hphase] at hs hp
      obtain ⟨run, hrun, rfl⟩ := Option.map_eq_some_iff.1 hs
      exact hset.stepSent hp hrun
    | counted d n =>
      simp only [hphase] at hs hp
      cases hs
      exact hset.stepCounted hp
    | ending d =>
      simp only [hphase] at hs hp
      obtain ⟨run, hrun, rfl⟩ := Option.map_eq_some_iff.1 hs
      exact hset.stepEnding hp hrun (hC nowUs stop d run rfl hphase hrun)
    | closing =>
      simp only [hphase] at hs hp
      cases hs
      obtain ⟨hset', hsaved⟩ := hset.save hp.1 (hset.all_known hp.2)
      exact ⟨A, ⟨hset'.names, hset'.ranges, hset'.sent, hset'.whole, hset'.known, hset'.reserved,
        hset'.saved⟩, hsaved.symm⟩

theorem Inv.init (cfg : ReplayConfig) (root : InputRoot) (bootId : String) :
    Inv cfg root (replay cfg root bootId).init := by
  refine ⟨[], ⟨List.nodup_nil, List.Pairwise.nil, nofun, nofun, nofun, nofun, ?_⟩, rfl⟩
  exact ⟨nofun, Nat.zero_le _, nofun, nofun⟩

theorem Inv.identity (h : Inv cfg root s) : Identity cfg root s := by
  obtain ⟨A, h, -⟩ := h
  have hsame : ∀ a ∈ A, ∀ b ∈ A, a.runId = b.runId → a = b := fun a ha b hb hab =>
    List.inj_on_of_nodup_map h.names ha hb hab
  constructor
  · intro t ht
    obtain ⟨hown, a, ha, hrest⟩ := h.sent t ht
    exact ⟨hown, a, h.known a ha, hrest⟩
  · intro t ht u hu htu
    obtain ⟨-, a, ha, har, hseq, -, hoff⟩ := h.sent t ht
    obtain ⟨-, b, hb, hbr, hseq', -, hoff'⟩ := h.sent u hu
    obtain rfl := hsame a ha b hb (har.trans (htu.trans hbr.symm))
    exact ⟨by omega, hoff.trans hoff'.symm⟩
  · exact h.whole
  · intro r hr q hq hne
    have hbelow : ∀ a ∈ A, ∀ x, Pending cfg root s.saved x → a.base + a.total ≤ x.base := by
      intro a ha x hx
      rw [hx.2.1]
      exact h.saved.next a ha
    rcases h.reserved r hr with ⟨a, ha, har, hab, hat⟩ | hpr
    · rcases h.reserved q hq with ⟨b, hb, hbr, hbb, hbt⟩ | hpq
      · have hab' : a ≠ b := fun heq => hne (har.symm.trans ((congrArg _ heq).trans hbr))
        have hsymm : Std.Symm fun a b : Reservation =>
            a.base + a.total ≤ b.base ∨ b.base + b.total ≤ a.base := ⟨fun _ _ => Or.symm⟩
        have := (h.ranges.imp .inl).forall (R := fun a b : Reservation =>
          a.base + a.total ≤ b.base ∨ b.base + b.total ≤ a.base) ha hb hab'
        omega
      · left
        have := hbelow a ha q hpq
        omega
    · rcases h.reserved q hq with ⟨b, hb, hbr, hbb, hbt⟩ | hpq
      · right
        have := hbelow b hb r hpr
        omega
      · obtain ⟨-, -, d, ds, hd, hrd, -⟩ := hpr
        obtain ⟨-, -, e, es, he, hqe, -⟩ := hpq
        obtain ⟨rfl, -⟩ := List.cons_eq_cons.1 (hd.symm.trans he)
        exact absurd (hrd.trans hqe.symm) hne

end Invariant

end Replay

/-! ## Resuming a replay -/

theorem remembers_of_few {cfg : ReplayConfig} {s : ReplaySys} (op : ReplayOp)
    (h : s.st.completedRuns.length < MAX_COMPLETED_RUNS) : Remembers cfg s op :=
  fun _ _ _ _ _ _ _ _ => h

/-- Four decimal digits. -/
def runDigits (k : Nat) : List Char :=
  [k / 1000, k / 100 % 10, k / 10 % 10, k % 10].map Nat.digitChar

/-- Run directory `k`: the first has one line, the others have none. -/
def sampleRun (k : Nat) : RunDir :=
  ⟨String.ofList (runDigits k), true, if k = 0 then [("conn.log", [120, 10])] else []⟩

/-- Every line is accepted, with the same time. -/
def sampleReplay : ReplayConfig := ⟨10, 1, fun _ _ => some 0⟩

/-- One run directory, with one line. -/
def oneRun : InputRoot := ⟨[sampleRun 0], List.nodup_singleton _⟩

/-- **A resumed replay keeps the identity of what it sends**, however it is stopped, killed and
restarted, in the runs in which a run is marked completed only while there is room for it: every
transmission of an entry carries its number and offset, a completed run has been sent whole, and the
ranges of different runs do not overlap. -/
theorem replay_keeps_identity {cfg : ReplayConfig} {root : InputRoot} {bootId : String}
    {s : ReplaySys} (h : (replay cfg root bootId).Reach (Remembers cfg) s) : Identity cfg root s :=
  (h.invariant (Replay.Inv.init cfg root bootId) fun _ _ _ hi hC hs => hi.step hC hs).identity

/-- The sender is killed when it has just sent the line. -/
theorem replay_keeps_identity_killed :
    ∃ s, s.sent.length = 2 ∧ s.finished = [(sampleRun 0).name] ∧ Identity sampleReplay oneRun s := by
  have hrun : (((replay sampleReplay oneRun "boot").runMeeting
      (fun s _ => s.st.completedRuns.length < MAX_COMPLETED_RUNS) (replay sampleReplay oneRun "boot").init
      (List.replicate 4 (.go 0 false) ++ .kill :: List.replicate 8 (.go 0 false))).map
        fun s => (s.sent.length, s.finished)) = some (2, [(sampleRun 0).name]) := by decide +kernel
  obtain ⟨s, hs, heq⟩ := Option.map_eq_some_iff.1 hrun
  obtain ⟨hsent, hfinished⟩ := Prod.mk.inj heq
  have hreach : (replay sampleReplay oneRun "boot").Reach (Remembers sampleReplay) s :=
    (Machine.reach_of_run _ hs).mono fun _ op h => remembers_of_few op h
  exact ⟨s, hsent, hfinished, replay_keeps_identity hreach⟩

/-! ## One whole run -/

section Runs

/-- The sender from any state. -/
def replayFrom (cfg : ReplayConfig) (root : InputRoot) (s : ReplaySys) : Machine ReplaySys ReplayOp where
  init := s
  step := ReplaySys.step cfg root

variable {cfg : ReplayConfig} {root : InputRoot} {i : ReplaySys} {C : ReplaySys → ReplayOp → Prop}

/-- Between two runs, with the completed runs and the next sequence number. -/
structure ReplaySys.Between (s : ReplaySys) (runs : List String) (next : Nat) : Prop where
  phase : s.phase = .idle
  current : s.st.currentRun = none
  completed : s.st.completedRuns = runs
  saved : s.saved.completedRuns = runs
  next : s.st.nextSequence = next

/-- The run that is next in order is chosen, and its range is saved. -/
theorem reach_started (hC : ∀ s op, C s op) {s : ReplaySys} {completed : List String} {next : Nat}
    (h : (replayFrom cfg root i).Reach C s) (hs : s.Between completed next) {d : RunDir}
    {ds : List RunDir} (hcand : root.candidates completed = d :: ds) :
    ∃ s', (replayFrom cfg root i).Reach C s' ∧ s'.phase = .sending d 0 ∧ s'.sent = s.sent ∧
      s'.st.completedRuns = completed ∧
      s'.st.nextSequence = next + (d.index cfg).length ∧
      ∃ run, s'.st.currentRun = some run ∧ run.baseSequence = next ∧
        run.total = (d.index cfg).length ∧ run.nextIndex = 0 := by
  have hchosen : (replayFrom cfg root i).Reach C (s.goto (.chosen d)) := by
    refine h.step (a := .go 0 false) (hC _ _) ?_
    simp only [replayFrom, ReplaySys.step, ReplaySys.go, hs.phase, ReplaySys.stepIdle, hs.current,
      ReplaySys.nextRun, hs.completed, hcand, Bool.false_eq_true, if_false]
  have hreserved := hchosen.step (a := .go 0 false) (hC _ _) rfl
  have hsaved := hreserved.step (a := .go 0 false) (hC _ _) (by
    simp only [replayFrom, ReplaySys.step, ReplaySys.go, ReplaySys.goto, ReplaySys.stepChosen, hs.current,
      Option.any_none, Bool.false_eq_true, if_false]
    rfl)
  refine ⟨_, hsaved, rfl, rfl, hs.completed, ?_, _, rfl, hs.next, rfl, rfl⟩
  show s.st.nextSequence + _ = _
  rw [hs.next]
  rfl

/-- A run whose entries have all been sent is marked completed and saved. -/
theorem reach_completed (hC : ∀ s op, C s op) {s : ReplaySys}
    (h : (replayFrom cfg root i).Reach C s) {d : RunDir} {n : Nat} (hphase : s.phase = .sending d n)
    {run : CurrentRun} (hrun : s.st.currentRun = some run)
    (hover : min run.total (d.index cfg).length ≤ run.nextIndex) :
    ∃ s', (replayFrom cfg root i).Reach C s' ∧ s'.sent = s.sent ∧
      s'.Between (lastRuns (s.st.completedRuns ++ [d.name])) s.st.nextSequence := by
  have hending : (replayFrom cfg root i).Reach C (s.goto (.ending d)) := by
    refine h.step (a := .go 0 false) (hC _ _) ?_
    simp only [replayFrom, ReplaySys.step, ReplaySys.go, hphase, hrun, Option.bind_some,
      ReplaySys.stepSending, hover, or_true, if_true]
  have hclosing : (replayFrom cfg root i).Reach C ((s.finish d.name).goto .closing) := by
    refine hending.step (a := .go 0 false) (hC _ _) ?_
    simp only [replayFrom, ReplaySys.step, ReplaySys.go, ReplaySys.goto, hrun, Option.map_some,
      ReplaySys.stepEnding, hover, if_true, ReplaySys.finish]
  have hidle : (replayFrom cfg root i).Reach C (((s.finish d.name).goto .closing).save.goto .idle) :=
    hclosing.step (a := .go 0 false) (hC _ _) rfl
  refine ⟨_, hidle, ?_, ?_, ?_, ?_, ?_, ?_⟩ <;>
    simp only [ReplaySys.goto, ReplaySys.save, ReplaySys.finish, SenderState.persisted,
      SenderState.markCompleted]
  rw [lastRuns_eq (length_lastRuns_le _)]

/-- The first entry of a run is sent under the base of its range. -/
theorem reach_sent_first (hC : ∀ s op, C s op) {s : ReplaySys}
    (h : (replayFrom cfg root i).Reach C s) {d : RunDir} {n : Nat} (hphase : s.phase = .sending d n)
    {run : CurrentRun} (hrun : s.st.currentRun = some run) (hindex : run.nextIndex = 0)
    (hmore : 0 < min run.total (d.index cfg).length) {r : String × List Char}
    (hr : d.record cfg 0 = some r) :
    (replayFrom cfg root i).Reach C { s with
      sent := s.sent ++ [⟨d.name, 0, r.1, r.2, run.baseSequence, run.offsetUs⟩]
      phase := .sent d n } := by
  refine h.step (a := .go 0 false) (hC _ _) ?_
  simp only [replayFrom, ReplaySys.step, ReplaySys.go, hphase, hrun, Option.bind_some,
    ReplaySys.stepSending, hindex, hr, Option.map_some, Nat.add_zero, Nat.not_le.2 hmore,
    Bool.false_eq_true, or_self, if_false]

/-- After the first entry of a run comes its second. -/
theorem reach_past_first (hC : ∀ s op, C s op) {s : ReplaySys}
    (h : (replayFrom cfg root i).Reach C s) {d : RunDir} {n : Nat} (hphase : s.phase = .sent d n)
    {run : CurrentRun} (hrun : s.st.currentRun = some run) :
    ∃ s' m, (replayFrom cfg root i).Reach C s' ∧ s'.phase = .sending d m ∧ s'.sent = s.sent ∧
      s'.st = { s.st with currentRun := some { run with nextIndex := run.nextIndex + 1 } } := by
  have hcounted : (replayFrom cfg root i).Reach C (s.stepSent d n run) :=
    h.step (a := .go 0 false) (hC _ _) (by
      simp only [replayFrom, ReplaySys.step, ReplaySys.go, hphase, hrun, Option.map_some])
  have hnext := hcounted.step (a := .go 0 false) (hC _ _) rfl
  by_cases hsave : cfg.persistEvery ≤ n + 1
  · refine ⟨_, 0, hnext, ?_, ?_, ?_⟩ <;>
      simp only [ReplaySys.stepCounted, hsave, if_true, ReplaySys.goto, ReplaySys.save,
        ReplaySys.stepSent]
  · refine ⟨_, n + 1, hnext, ?_, ?_, ?_⟩ <;>
      simp only [ReplaySys.stepCounted, hsave, if_false, ReplaySys.goto, ReplaySys.stepSent]

/-- A run with one entry is sent and completed. -/
theorem reach_single (hC : ∀ s op, C s op) {s : ReplaySys} {completed : List String} {next : Nat}
    (h : (replayFrom cfg root i).Reach C s) (hs : s.Between completed next) {d : RunDir}
    {ds : List RunDir} (hcand : root.candidates completed = d :: ds)
    (hone : (d.index cfg).length = 1) {r : String × List Char} (hr : d.record cfg 0 = some r) :
    ∃ s', (replayFrom cfg root i).Reach C s' ∧
      s'.Between (lastRuns (completed ++ [d.name])) (next + 1) ∧
      ∃ offsetUs, s'.sent = s.sent ++ [⟨d.name, 0, r.1, r.2, next, offsetUs⟩] := by
  obtain ⟨s₁, h₁, hphase, hsent, hcompleted, hnext, run, hrun, hbase, htotal, hindex⟩ :=
    reach_started hC h hs hcand
  have h₂ := reach_sent_first hC h₁ hphase hrun hindex (by omega) hr
  obtain ⟨s₃, m, h₃, hphase₃, hsent₃, hst₃⟩ := reach_past_first hC h₂ rfl hrun
  have hrun₃ : s₃.st.currentRun = some { run with nextIndex := run.nextIndex + 1 } := by rw [hst₃]
  obtain ⟨s₄, h₄, hsent₄, hs₄⟩ := reach_completed hC h₃ hphase₃ hrun₃ (by
    show min run.total _ ≤ run.nextIndex + 1
    omega)
  rw [hst₃] at hs₄
  refine ⟨s₄, h₄, ?_, run.offsetUs, ?_⟩
  · rw [← hcompleted]
    rw [hone] at hnext
    exact hnext ▸ hs₄
  · rw [hsent₄, hsent₃, hsent, hbase]

/-- A run without entries is completed. -/
theorem reach_empty (hC : ∀ s op, C s op) {s : ReplaySys} {completed : List String} {next : Nat}
    (h : (replayFrom cfg root i).Reach C s) (hs : s.Between completed next) {d : RunDir}
    {ds : List RunDir} (hcand : root.candidates completed = d :: ds) (hempty : d.index cfg = []) :
    ∃ s', (replayFrom cfg root i).Reach C s' ∧
      s'.Between (lastRuns (completed ++ [d.name])) next ∧ s'.sent = s.sent := by
  obtain ⟨s₁, h₁, hphase, hsent, hcompleted, hnext, run, hrun, hbase, htotal, hindex⟩ :=
    reach_started hC h hs hcand
  rw [hempty] at htotal hnext
  obtain ⟨s₂, h₂, hsent₂, hs₂⟩ := reach_completed hC h₁ hphase hrun (by
    rw [htotal]
    exact (Nat.min_le_left ..).trans (Nat.zero_le _))
  rw [hcompleted, hnext] at hs₂
  exact ⟨s₂, h₂, hs₂, hsent₂.trans hsent⟩

end Runs

/-! ## More runs than are remembered -/

theorem runDigits_sorted : ((List.range 1001).map runDigits).Pairwise (· < ·) :=
  List.isChain_iff_pairwise.1 (by decide +kernel)

theorem toList_sampleRun (k : Nat) : (sampleRun k).name.toList = runDigits k := String.toList_ofList

theorem runDigits_inj {i j : Nat} (hi : i < 1001) (hj : j < 1001)
    (h : (sampleRun i).name = (sampleRun j).name) : i = j := by
  have hnodup : ((List.range 1001).map runDigits).Nodup := by
    refine runDigits_sorted.imp fun {a b} hlt heq => ?_
    exact List.lt_irrefl a (Eq.subst heq.symm hlt)
  refine List.inj_on_of_nodup_map hnodup (List.mem_range.2 hi) (List.mem_range.2 hj) ?_
  rw [← toList_sampleRun, ← toList_sampleRun, h]

/-- A thousand and one run directories. -/
def manyRuns : InputRoot where
  dirs := (List.range 1001).map sampleRun
  nodup := by
    rw [List.map_map]
    exact List.Nodup.map_on (fun i hi j hj => runDigits_inj (List.mem_range.1 hi) (List.mem_range.1 hj))
      List.nodup_range

theorem isRunId_sampleRun : ∀ k < 1001, isRunId (sampleRun k).name = true := by
  have hdigits : ∀ k < 1001, (runDigits k).length = 4 ∧ (runDigits k).all isRunIdChar = true := by
    decide +kernel
  intro k hk
  obtain ⟨hlength, hall⟩ := hdigits k hk
  simp only [isRunId, toList_sampleRun, hlength, hall]
  decide

/-- The names of the runs from `a` on, below `b`. -/
def runNames (a b : Nat) : List String := (List.range' a (b - a)).map fun k => (sampleRun k).name

theorem runNames_concat {a b : Nat} (h : a ≤ b) :
    runNames a b ++ [(sampleRun b).name] = runNames a (b + 1) := by
  unfold runNames
  rw [Nat.succ_sub h, List.range'_concat, List.map_append]
  simp only [Nat.one_mul, Nat.add_sub_cancel' h, List.map_cons, List.map_nil]

theorem manyRuns_sorted :
    manyRuns.dirs.Pairwise fun a b => a.name.toList ≤ b.name.toList := by
  unfold manyRuns
  rw [List.pairwise_map]
  refine (List.pairwise_map.1 runDigits_sorted).imp fun h => ?_
  rw [toList_sampleRun, toList_sampleRun]
  exact le_of_lt h

theorem range_split {k n : Nat} (h : k < n) :
    List.range n = List.range k ++ k :: List.range' (k + 1) (n - (k + 1)) := by
  have happend := @List.range'_append_1 0 k (n - (k + 1) + 1)
  rw [Nat.zero_add, List.range'_succ, ← List.range_eq_range'] at happend
  rw [happend, List.range_eq_range']
  congr 1
  omega

/-- The next run is the first that is not marked completed. -/
theorem manyRuns_candidates {done : List String} {k : Nat} (hk : k < 1001)
    (hbefore : ∀ i < k, (sampleRun i).name ∈ done) (hnot : (sampleRun k).name ∉ done) :
    ∃ ds, manyRuns.candidates done = sampleRun k :: ds := by
  have hsplit : manyRuns.dirs = (List.range k).map sampleRun ++
      sampleRun k :: (List.range' (k + 1) (1001 - (k + 1))).map sampleRun := by
    rw [← List.map_cons, ← List.map_append, ← range_split hk, manyRuns]
  refine ⟨((List.range' (k + 1) (1001 - (k + 1))).map sampleRun).filter fun d =>
    isRunId d.name && d.done && decide (d.name ∉ done), ?_⟩
  unfold InputRoot.candidates byName
  rw [List.Pairwise.insertionSort_eq, hsplit, List.filter_append, List.filter_eq_nil_iff.2,
    List.nil_append, List.filter_cons_of_pos]
  · rw [isRunId_sampleRun k hk, decide_eq_true hnot]
    rfl
  · intro d hd
    obtain ⟨i, hi, rfl⟩ := List.mem_map.1 hd
    rw [decide_eq_false (not_not_intro (hbefore i (List.mem_range.1 hi))), Bool.and_false]
    exact Bool.false_ne_true
  · exact manyRuns_sorted.filter _

theorem index_sampleRun_zero : ((sampleRun 0).index sampleReplay).length = 1 := by decide +kernel

theorem record_sampleRun_zero :
    (sampleRun 0).record sampleReplay 0 = some ("conn", ['x']) := by decide +kernel

theorem index_sampleRun_succ (k : Nat) : (sampleRun (k + 1)).index sampleReplay = [] := rfl

theorem length_runNames (a b : Nat) : (runNames a b).length = b - a := by
  unfold runNames
  rw [List.length_map, List.length_range']

theorem mem_runNames {a b i : Nat} (hi : i < 1001) (hb : b ≤ 1001) :
    (sampleRun i).name ∈ runNames a b ↔ a ≤ i ∧ i < b := by
  unfold runNames
  rw [List.mem_map]
  constructor
  · rintro ⟨j, hj, hname⟩
    rw [List.mem_range'_1] at hj
    obtain rfl := runDigits_inj (by omega) hi hname
    omega
  · intro h
    refine ⟨i, ?_, rfl⟩
    rw [List.mem_range'_1]
    omega

/-- The first runs are replayed one after the other; the entry of the first is sent once. -/
theorem reach_manyRuns (k : Nat) (hk : k < 1000) :
    ∃ s, (replay sampleReplay manyRuns "boot").Reach (fun _ _ => True) s ∧
      s.Between (runNames 0 (k + 1)) 1 ∧
      ∃ offsetUs, s.sent = [⟨(sampleRun 0).name, 0, "conn", ['x'], 0, offsetUs⟩] := by
  have hsmall : ∀ i < 1000, lastRuns (runNames 0 i ++ [(sampleRun i).name]) = runNames 0 (i + 1) := by
    intro i hi
    rw [runNames_concat (Nat.zero_le i), lastRuns_eq]
    rw [length_runNames]
    exact hi
  induction k with
  | zero =>
    obtain ⟨ds, hcand⟩ := @manyRuns_candidates [] 0 (by decide) nofun nofun
    obtain ⟨s, hs, hbetween, offsetUs, hsent⟩ := reach_single (fun _ _ => trivial)
      (Machine.Reach.init (m := replay sampleReplay manyRuns "boot")) ⟨rfl, rfl, rfl, rfl, rfl⟩ hcand
      index_sampleRun_zero record_sampleRun_zero
    exact ⟨s, hs, hsmall 0 hk ▸ hbetween, offsetUs, hsent⟩
  | succ k ih =>
    obtain ⟨s, hs, hbetween, offsetUs, hsent⟩ := ih (by omega)
    obtain ⟨ds, hcand⟩ := @manyRuns_candidates (runNames 0 (k + 1)) (k + 1) (by omega)
      (fun i hi => (mem_runNames (by omega) (by omega)).2 ⟨Nat.zero_le i, hi⟩)
      (fun hmem => Nat.lt_irrefl _ ((mem_runNames (by omega) (by omega)).1 hmem).2)
    obtain ⟨s', hs', hbetween', hsent'⟩ :=
      reach_empty (fun _ _ => trivial) hs hbetween hcand (index_sampleRun_succ k)
    exact ⟨s', hs', hsmall (k + 1) hk ▸ hbetween', offsetUs, hsent'.trans hsent⟩

/-- After a thousand and one runs the first is no longer among the completed ones. -/
theorem lastRuns_manyRuns :
    lastRuns (runNames 0 1000 ++ [(sampleRun 1000).name]) = runNames 1 1001 := by
  rw [runNames_concat (Nat.zero_le _)]
  unfold lastRuns
  rw [length_runNames]
  unfold runNames
  rw [← List.map_drop, List.drop_range']
  have hroom : 1000 + 1 - 0 - MAX_COMPLETED_RUNS = 1 := by decide
  rw [hroom]

/-- **A forgotten run is replayed under new numbers**: when a thousand and one run directories are
ready, the first is replayed again after the last. -/
theorem replay_repeats_forgotten : ∃ s,
    (replay sampleReplay manyRuns "boot").Reach (fun _ _ => True) s ∧
      ¬ Identity sampleReplay manyRuns s := by
  obtain ⟨s, hs, hbetween, offsetUs, hsent⟩ := reach_manyRuns 999 (by decide)
  obtain ⟨ds, hcand⟩ := @manyRuns_candidates (runNames 0 1000) 1000 (by decide)
    (fun i hi => (mem_runNames (by omega) (by decide)).2 ⟨Nat.zero_le i, hi⟩)
    (fun hmem => Nat.lt_irrefl _ ((mem_runNames (by decide) (by decide)).1 hmem).2)
  obtain ⟨s₁, hs₁, hbetween₁, hsent₁⟩ :=
    reach_empty (fun _ _ => trivial) hs hbetween hcand (index_sampleRun_succ 999)
  rw [lastRuns_manyRuns] at hbetween₁
  obtain ⟨es, hagain⟩ := @manyRuns_candidates (runNames 1 1001) 0 (by decide) nofun
    (fun hmem => absurd ((mem_runNames (by decide) (by decide)).1 hmem).1 (by decide))
  obtain ⟨s₂, hs₂, -, offsetUs', hsent₂⟩ := reach_single (fun _ _ => trivial) hs₁ hbetween₁ hagain
    index_sampleRun_zero record_sampleRun_zero
  rw [hsent₁, hsent] at hsent₂
  refine ⟨s₂, hs₂, fun hid => ?_⟩
  have hsame := hid.same
  rw [hsent₂] at hsame
  obtain ⟨hsequence, -⟩ := hsame _ (.head _) _ (.tail _ (.head _)) rfl
  exact absurd hsequence Nat.zero_ne_one

end OTS.Sender
