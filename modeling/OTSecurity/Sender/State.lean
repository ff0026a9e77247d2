import OTSecurity.Sender.Tail

/-!
# The state of the sender

Model of `SenderState` of `ingest/sender/sih_sender/state.py`: what the sender keeps over a restart.

* `SenderState.persisted` — what `save` writes, as `load` reads it back.
* `markCompleted`, `nextHealthSeq` — the two methods that change the state under its lock.

The state of a new file is `SenderState.fresh`; `load` saves it at once.
-/

namespace OTS.Sender

def MAX_COMPLETED_RUNS : Nat := 1000

/-- `current_run`. -/
structure CurrentRun where
  runId : String
  baseSequence : Nat
  total : Nat
  nextIndex : Nat
  wallStartUs : Int
  firstEmitUs : Int
  offsetUs : Int
  deriving DecidableEq, Repr

structure SenderState where
  bootId : String
  nextSequence : Nat
  healthSeq : Nat
  tailFiles : ODict String Tracked
  completedRuns : List String
  currentRun : Option CurrentRun

/-- The last `MAX_COMPLETED_RUNS` of a list. -/
def lastRuns (runs : List String) : List String := runs.drop (runs.length - MAX_COMPLETED_RUNS)

namespace SenderState

/-- `SenderState(path)` with the boot id it drew. -/
def fresh (bootId : String) : SenderState := ⟨bootId, 0, 0, .empty, [], none⟩

/-- What `save` writes and `load` reads back. -/
def persisted (st : SenderState) : SenderState :=
  { st with completedRuns := lastRuns st.completedRuns }

/-- `mark_completed`. -/
def markCompleted (st : SenderState) (runId : String) : SenderState :=
  { st with completedRuns := lastRuns (st.completedRuns ++ [runId]), currentRun := none }

/-- `next_health_seq`. -/
def nextHealthSeq (st : SenderState) : Nat × SenderState :=
  (st.healthSeq, { st with healthSeq := st.healthSeq + 1 })

end SenderState

end OTS.Sender
