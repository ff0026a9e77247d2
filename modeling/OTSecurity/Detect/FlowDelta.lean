import OTSecurity.Lib.Binary64
import OTSecurity.Lib.Keyed

/-!
# Flow deltas

Model of `FlowDeltaLogic` of `flink/sih_detect/flowdelta.py`, for one flow key: cumulative snapshots
and the terminal summary of a flow become deltas.

* `FlowEvent` — a `conn` or `flow_update` event; `Delta` — what is emitted for one.
* `FlowState` — the counters of a live flow, or the tombstone of a finished one.
* `Kept` — the events that are not dropped.

Principal results: `flow_counted_once` — the deltas of a counter sum up to its greatest value;
`terminal_remembered_iff` — when the record of a finished flow makes all later ones be dropped.
-/

namespace OTS.Detect

/-! ## The logic -/

/-- `COUNTERS`. -/
inductive Counter where
  | origBytes
  | respBytes
  | origPkts
  | respPkts
  deriving DecidableEq, Repr

/-- The payload fields read here. -/
structure FlowPayload where
  srcIp : String
  srcPort : Option Int
  dstIp : String
  dstPort : Option Int
  proto : String
  service : Option String
  durationS : Option Rat
  counter : Counter → Option Nat
  history : Option String
  connState : Option String
  snapshotSeq : Int

inductive FlowLog where
  | conn
  | flowUpdate
  deriving DecidableEq

structure FlowEvent where
  eventId : String
  sensorId : String
  boot : String
  run : Option String
  offsetUs : Int
  logType : FlowLog
  eventTimeUs : Int
  obsMs : Int
  receivedUs : Int
  coverage : String
  p : FlowPayload

def FlowEvent.terminal (ev : FlowEvent) : Bool := ev.logType = .conn

structure Delta where
  flowId : String
  sensorId : String
  run : Option String
  eventId : String
  receivedUs : Int
  eventTimeUs : Int
  offsetUs : Int
  obsMs : Int
  startMs : Int
  coverage : String
  src : String
  dst : String
  sport : Option Int
  dport : Option Int
  proto : String
  service : Option String
  newFlow : Bool
  terminal : Bool
  connState : Option String
  history : Option String
  d : Counter → Option Int
  totalOrigBytes : Option Nat
  totalRespBytes : Option Nat
  durationS : Option Rat

/-- The state `flow`: without or with `term`. -/
inductive FlowState where
  | live (c : Counter → Option Nat) (seq : Int) (lastObs : Int)
  | tombstone (lastObs : Int)

/-- The fields of `DetectConfig` read by `FlowDeltaLogic`, with their defaults. -/
structure FlowConfig where
  flowIdleMs : Int := 600000
  flowTombstoneMs : Int := 60000

/-- `_bucket_up` with its default step. -/
def flowBucketUp (ts : Int) : Int := (ts / 10000 + 1) * 10000

/-- The delta of one counter against its stored value. -/
def deltaOf (before cur : Option Nat) : Option Int :=
  cur.map fun cur => if cur < before.getD 0 then 0 else (cur : Int) - before.getD 0

/-- The stored value of one counter after a snapshot. -/
def mergedOf (before cur : Option Nat) : Option Nat :=
  match cur with
  | some cur => some (max (before.getD 0) cur)
  | none => before

/-- `st["c"] if st else {}`; a tombstone has no counters. -/
def storedCounters : Option FlowState → Counter → Option Nat
  | some (.live c _ _) => c
  | _ => fun _ => none

/-- `int(x)` of a float. -/
def truncate (x : Rat) : Int := if x < 0 then x.ceil else x.floor

def FlowEvent.startMs (ev : FlowEvent) : Int :=
  let start := (ev.eventTimeUs + ev.offsetUs) / 1000
  match ev.logType, ev.p.durationS with
  -- a snapshot's time is that of the poll; the product is one of floats
  | .flowUpdate, some d => start - truncate (PyFloat.nearest (PyFloat.nearest d * 1000))
  | _, _ => start

def FlowEvent.delta (ev : FlowEvent) (key : String) (v : Option FlowState) : Delta where
  flowId := key
  sensorId := ev.sensorId
  run := ev.run
  eventId := ev.eventId
  receivedUs := ev.receivedUs
  eventTimeUs := ev.eventTimeUs
  offsetUs := ev.offsetUs
  obsMs := ev.obsMs
  startMs := ev.startMs
  coverage := ev.coverage
  src := ev.p.srcIp
  dst := ev.p.dstIp
  sport := ev.p.srcPort
  dport := ev.p.dstPort
  proto := ev.p.proto
  service := ev.p.service
  newFlow := v.isNone
  terminal := ev.terminal
  connState := if ev.terminal then ev.p.connState else none
  history := ev.p.history
  d := fun c => deltaOf (storedCounters v c) (ev.p.counter c)
  totalOrigBytes := ev.p.counter .origBytes
  totalRespBytes := ev.p.counter .respBytes
  durationS := ev.p.durationS

/-- Whether an event is dropped: after the terminal record, or a snapshot not newer than the last. -/
def Drops (v : Option FlowState) (ev : FlowEvent) : Bool :=
  match v with
  | none => false
  | some (.tombstone _) => true
  | some (.live _ seq _) => !ev.terminal && ev.p.snapshotSeq ≤ seq

/-- The state that an event leaves, and the timer it registers. -/
def flowNext (cfg : FlowConfig) (v : Option FlowState) (ev : FlowEvent) :
    Option FlowState × List Int :=
  if ev.terminal then
    match v with
    | none => (none, [])
    | some _ => (some (.tombstone ev.obsMs), [flowBucketUp (ev.obsMs + cfg.flowTombstoneMs)])
  else
    (some (.live (fun c => mergedOf (storedCounters v c) (ev.p.counter c)) ev.p.snapshotSeq ev.obsMs),
      [flowBucketUp (ev.obsMs + cfg.flowIdleMs)])

def flowOnEvent (cfg : FlowConfig) (key : String) (v : Option FlowState) (ev : FlowEvent) :
    Effect FlowState Delta :=
  if Drops v ev then ⟨v, [], []⟩
  else ⟨(flowNext cfg v ev).1, (flowNext cfg v ev).2, [ev.delta key v]⟩

def flowOnTimer (cfg : FlowConfig) (v : Option FlowState) (ts : Int) : Effect FlowState Delta :=
  match v with
  | none => ⟨none, [], []⟩
  | some (.live c seq lastObs) =>
    if lastObs + cfg.flowIdleMs ≤ ts then ⟨none, [], []⟩ else ⟨some (.live c seq lastObs), [], []⟩
  | some (.tombstone lastObs) =>
    if lastObs + cfg.flowTombstoneMs ≤ ts then ⟨none, [], []⟩
    else ⟨some (.tombstone lastObs), [], []⟩

def flowDeltaLogic (cfg : FlowConfig) (key : String) : Logic FlowEvent FlowState Delta :=
  ⟨fun _ => flowOnEvent cfg key, fun _ => flowOnTimer cfg⟩

/-! ## Counting once -/

variable {cfg : FlowConfig} {key : String}

/-- Records that arrive with nothing expiring in between; each with the wall clock. -/
def arrivals (es : List (Int × FlowEvent)) : List (Call FlowEvent) := es.map fun p => .event p.1 p.2

/-- The records of a sequence that are not dropped. -/
def kept (cfg : FlowConfig) (key : String) (v : Option FlowState) (calls : List (Call FlowEvent)) :
    List FlowEvent :=
  (flowDeltaLogic cfg key).observe (fun v c => c.element.toList.filter fun ev => !Drops v ev) v calls

/-- The stored value of a counter, zero when there is none. -/
def stored (v : Option FlowState) (c : Counter) : Nat := (storedCounters v c).getD 0

theorem deltaOf_nonneg {before cur : Option Nat} {x : Int} (h : deltaOf before cur = some x) :
    0 ≤ x := by
  obtain ⟨n, rfl, rfl⟩ := Option.map_eq_some_iff.1 h
  split <;> omega

/-- **The delta of one counter takes its stored value to the new one.** -/
theorem stored_add_delta (before cur : Option Nat) :
    ((before.getD 0 : Nat) : Int) + (deltaOf before cur).getD 0 =
      (max (before.getD 0) (cur.getD 0) : Nat) := by
  cases cur with
  | none => simp [deltaOf]
  | some n =>
    simp only [deltaOf, Option.map_some, Option.getD_some]
    split <;> omega

theorem mergedOf_getD (before cur : Option Nat) :
    (mergedOf before cur).getD 0 = max (before.getD 0) (cur.getD 0) := by
  cases cur with
  | none => simp [mergedOf]
  | some n => rfl

/-- What one record does to the state: it is dropped, it ends the flow, or it is a snapshot. -/
theorem flowOnEvent_cases (v : Option FlowState) (ev : FlowEvent) :
    (Drops v ev ∧ flowOnEvent cfg key v ev = ⟨v, [], []⟩) ∨
    (¬ Drops v ev ∧ (flowOnEvent cfg key v ev).out = [ev.delta key v] ∧
      (flowOnEvent cfg key v ev).value = (flowNext cfg v ev).1) := by
  unfold flowOnEvent
  cases h : Drops v ev with
  | true => exact .inl ⟨rfl, rfl⟩
  | false => exact .inr ⟨Bool.false_ne_true, rfl, rfl⟩

theorem flowNext_snapshot {v : Option FlowState} {ev : FlowEvent} (h : ev.terminal = false) :
    (flowNext cfg v ev).1 = some (.live (fun c => mergedOf (storedCounters v c) (ev.p.counter c))
      ev.p.snapshotSeq ev.obsMs) := by
  simp [flowNext, h]

theorem flowNext_terminal {st : FlowState} {ev : FlowEvent} (h : ev.terminal = true) :
    (flowNext cfg (some st) ev).1 = some (.tombstone ev.obsMs) := by
  simp [flowNext, h]

/-- Events keep a state once there is one. -/
theorem flowOnEvent_isSome {st : FlowState} (ev : FlowEvent) :
    (flowOnEvent cfg key (some st) ev).value.isSome := by
  rcases @flowOnEvent_cases cfg key (some st) ev with ⟨_, h⟩ | ⟨_, _, h⟩
  · rw [h]; rfl
  · rw [h]
    cases ht : ev.terminal with
    | true => rw [flowNext_terminal ht]; rfl
    | false => rw [flowNext_snapshot ht]; rfl

/-- After a terminal record nothing is kept. -/
theorem tombstone_silent (o : Int) (es : List (Int × FlowEvent)) :
    (flowDeltaLogic cfg key).emitted (some (.tombstone o)) (arrivals es) = [] ∧
      kept cfg key (some (.tombstone o)) (arrivals es) = [] := by
  induction es with
  | nil => exact ⟨rfl, rfl⟩
  | cons p es ih =>
    obtain ⟨hout, hkept⟩ := ih
    constructor
    · exact hout
    · exact hkept

section Counted

variable (c : Counter)

/-- The sum of the deltas of a counter. -/
def deltaSum (ds : List Delta) : Int := (ds.filterMap (·.d c)).sum

/-- The greatest value of a counter, at least `n`. -/
def greatest (n : Nat) (es : List FlowEvent) : Nat := (es.filterMap (·.p.counter c)).foldl max n

theorem deltaSum_cons (d : Delta) (ds : List Delta) :
    deltaSum c (d :: ds) = (d.d c).getD 0 + deltaSum c ds := by
  unfold deltaSum
  cases h : d.d c <;> simp [h]

theorem greatest_cons (n : Nat) (ev : FlowEvent) (es : List FlowEvent) :
    greatest c n (ev :: es) = greatest c (max n ((ev.p.counter c).getD 0)) es := by
  unfold greatest
  cases h : ev.p.counter c <;> simp [h]

/-- One record that is not dropped. -/
theorem stored_add_record (v : Option FlowState) (ev : FlowEvent) :
    (stored v c : Int) + ((ev.delta key v).d c).getD 0 =
      (max (stored v c) ((ev.p.counter c).getD 0) : Nat) :=
  stored_add_delta (storedCounters v c) (ev.p.counter c)

/-- **The stored value and the deltas add up to the greatest value.** -/
theorem stored_add_deltaSum (st : FlowState) (es : List (Int × FlowEvent)) :
    (stored (some st) c : Int) +
        deltaSum c ((flowDeltaLogic cfg key).emitted (some st) (arrivals es)) =
      greatest c (stored (some st) c) (kept cfg key (some st) (arrivals es)) := by
  induction es generalizing st with
  | nil => simp [arrivals, Logic.emitted, Logic.observe, kept, deltaSum, greatest]
  | cons p es ih =>
    obtain ⟨now, ev⟩ := p
    show (stored (some st) c : Int) + deltaSum c ((flowOnEvent cfg key (some st) ev).out ++
        (flowDeltaLogic cfg key).emitted (flowOnEvent cfg key (some st) ev).value (arrivals es)) =
      greatest c (stored (some st) c) ([ev].filter (fun ev => !Drops (some st) ev) ++
        kept cfg key (flowOnEvent cfg key (some st) ev).value (arrivals es))
    rcases @flowOnEvent_cases cfg key (some st) ev with ⟨hd, h⟩ | ⟨hd, hout, hval⟩
    · rw [h]
      simpa [hd] using ih st
    · rw [hout, hval]
      have hkeep : [ev].filter (fun ev => !Drops (some st) ev) = [ev] := by simp [hd]
      rw [hkeep, List.singleton_append, List.singleton_append, deltaSum_cons, greatest_cons,
        ← add_assoc, stored_add_record]
      cases ht : ev.terminal with
      | true =>
        obtain ⟨h1, h2⟩ := @tombstone_silent cfg key ev.obsMs es
        rw [flowNext_terminal ht, h1, h2]
        simp [deltaSum, greatest]
      | false =>
        rw [flowNext_snapshot ht]
        have hstored : stored (some (.live (fun c => mergedOf (storedCounters (some st) c)
            (ev.p.counter c)) ev.p.snapshotSeq ev.obsMs)) c =
            max (stored (some st) c) ((ev.p.counter c).getD 0) :=
          mergedOf_getD _ _
        rw [← hstored]
        exact ih _

end Counted

/-- No record of a known flow opens it again. -/
theorem known_not_new (st : FlowState) (es : List (Int × FlowEvent)) :
    ∀ d ∈ (flowDeltaLogic cfg key).emitted (some st) (arrivals es), d.newFlow = false := by
  induction es generalizing st with
  | nil => intro d hd; cases hd
  | cons p es ih =>
    intro d hd
    obtain ⟨st', hst'⟩ := Option.isSome_iff_exists.1 (@flowOnEvent_isSome cfg key
      st p.2)
    rcases List.mem_append.1 (show d ∈ (flowOnEvent cfg key (some st) p.2).out ++
        (flowDeltaLogic cfg key).emitted (flowOnEvent cfg key (some st) p.2).value (arrivals es)
        from hd) with hd | hd
    · rcases @flowOnEvent_cases cfg key (some st) p.2 with ⟨_, h⟩ | ⟨_, h, _⟩
      · rw [h] at hd; cases hd
      · rw [h, List.mem_singleton] at hd
        rw [hd]
        rfl
    · rw [hst'] at hd
      exact ih st' d hd

theorem known_isSome (st : FlowState) (es : List (Int × FlowEvent)) :
    ((flowDeltaLogic cfg key).valueAfter (some st) (arrivals es)).isSome := by
  induction es generalizing st with
  | nil => rfl
  | cons p es ih =>
    obtain ⟨st', hst'⟩ := Option.isSome_iff_exists.1 (@flowOnEvent_isSome cfg key
      st p.2)
    show ((flowDeltaLogic cfg key).valueAfter (flowOnEvent cfg key (some st) p.2).value
      (arrivals es)).isSome
    rw [hst']
    exact ih st'

theorem arrivals_append (es fs : List (Int × FlowEvent)) :
    arrivals (es ++ fs) = arrivals es ++ arrivals fs := List.map_append ..

/-- A terminal record of a known flow is remembered. -/
theorem known_terminal (st : FlowState) {ev : FlowEvent} (ht : ev.terminal = true) :
    ∃ o, (flowOnEvent cfg key (some st) ev).value = some (.tombstone o) := by
  rcases @flowOnEvent_cases cfg key (some st) ev with ⟨hd, h⟩ | ⟨_, _, h⟩
  · rw [h]
    cases st with
    | live c seq o => simp [Drops, ht] at hd
    | tombstone o => exact ⟨o, rfl⟩
  · rw [h]
    exact ⟨_, flowNext_terminal ht⟩

theorem flowOnTimer_silent (v : Option FlowState) (ts : Int) : (flowOnTimer cfg v ts).out = [] := by
  unfold flowOnTimer
  split
  · rfl
  · split <;> rfl
  · split <;> rfl

theorem emitted_nonneg {v : Option FlowState} {calls : List (Call FlowEvent)} {d : Delta}
    (hd : d ∈ (flowDeltaLogic cfg key).emitted v calls) {c : Counter} {x : Int} (hx : d.d c = some x) :
    0 ≤ x := by
  obtain ⟨w, call, _, hmem⟩ := Logic.mem_observe _ hd
  cases call with
  | event now ev =>
    have hmem' : d ∈ (flowOnEvent cfg key w ev).out := hmem
    rcases @flowOnEvent_cases cfg key w ev with ⟨_, h⟩ | ⟨_, h, _⟩
    · rw [h] at hmem'; cases hmem'
    · rw [h, List.mem_singleton] at hmem'
      rw [hmem'] at hx
      exact deltaOf_nonneg hx
  | timer now t =>
    have hmem' : d ∈ (flowOnTimer cfg w t).out := hmem
    rw [flowOnTimer_silent] at hmem'
    cases hmem'

/-- Nothing follows a terminal record of a known flow. -/
theorem silent_after_terminal (st : FlowState) (pre : List (Int × FlowEvent)) {p : Int × FlowEvent}
    (hp : p.2.terminal = true) (post : List (Int × FlowEvent)) :
    (flowDeltaLogic cfg key).emitted
      ((flowDeltaLogic cfg key).valueAfter (some st) (arrivals (pre ++ [p]))) (arrivals post) = [] := by
  obtain ⟨st', hst'⟩ := Option.isSome_iff_exists.1 (@known_isSome cfg key st pre)
  rw [arrivals_append]
  show (flowDeltaLogic cfg key).emitted ((flowDeltaLogic cfg key).valueAfter (some st)
    (arrivals pre ++ [.event p.1 p.2])) (arrivals post) = []
  rw [Logic.valueAfter_concat, hst']
  obtain ⟨o, ho⟩ := @known_terminal cfg key st' _ hp
  rw [show ((flowDeltaLogic cfg key).call (some st') (.event p.1 p.2)).value = some (.tombstone o)
    from ho]
  exact (tombstone_silent o post).1

/-- **Flow bytes are counted exactly once.**  For a sequence of records of one flow that starts with
a snapshot, with nothing expiring in between: no delta is negative, the deltas of every counter sum
up to its greatest value over the records that are not dropped, one record opens the flow, and
nothing follows a terminal record. -/
theorem flow_counted_once (cfg : FlowConfig) (key : String) (es : List (Int × FlowEvent))
    (hfirst : ∃ p rest, es = p :: rest ∧ p.2.logType = .flowUpdate) :
    (∀ c, (∀ d ∈ (flowDeltaLogic cfg key).emitted none (arrivals es), ∀ x, d.d c = some x → 0 ≤ x) ∧
      (((flowDeltaLogic cfg key).emitted none (arrivals es)).filterMap (·.d c)).sum =
        ((kept cfg key none (arrivals es)).filterMap (·.p.counter c)).foldl max 0) ∧
    (((flowDeltaLogic cfg key).emitted none (arrivals es)).filter (·.newFlow)).length = 1 ∧
    ∀ pre p post, es = pre ++ p :: post → p.2.terminal = true →
      (flowDeltaLogic cfg key).emitted
        ((flowDeltaLogic cfg key).valueAfter none (arrivals (pre ++ [p]))) (arrivals post) = [] := by
  obtain ⟨⟨now, ev⟩, rest, rfl, hlog⟩ := hfirst
  have ht : ev.terminal = false := by simp only at hlog; simp [FlowEvent.terminal, hlog]
  obtain ⟨st, hst⟩ : ∃ st, (flowOnEvent cfg key none ev).value = some st := ⟨_, flowNext_snapshot ht⟩
  have hem : (flowDeltaLogic cfg key).emitted none (arrivals ((now, ev) :: rest)) =
      ev.delta key none :: (flowDeltaLogic cfg key).emitted (some st) (arrivals rest) := by
    rw [← hst]
    rfl
  have hk : kept cfg key none (arrivals ((now, ev) :: rest)) =
      ev :: kept cfg key (some st) (arrivals rest) := by
    rw [← hst]
    rfl
  refine ⟨fun c => ⟨fun d hd x hx => emitted_nonneg hd hx, ?_⟩, ?_, ?_⟩
  · have hsum := @stored_add_deltaSum cfg key c st rest
    have hone := @stored_add_record key c none ev
    have hstored : stored (some st) c = max (stored none c) ((ev.p.counter c).getD 0) := by
      have : some st = (flowNext cfg none ev).1 := hst.symm
      rw [this, flowNext_snapshot ht]
      exact mergedOf_getD _ _
    have hzero : stored none c = 0 := rfl
    show deltaSum c _ = (greatest c 0 _ : Nat)
    rw [hem, hk, deltaSum_cons, greatest_cons]
    rw [hstored, hzero] at hsum
    rw [hzero] at hone
    omega
  · have hrest : ((flowDeltaLogic cfg key).emitted (some st) (arrivals rest)).filter (·.newFlow) = [] := by
      rw [List.filter_eq_nil_iff]
      intro d hd
      simp [known_not_new st rest d hd]
    rw [hem, List.filter_cons_of_pos rfl, hrest]
    rfl
  · intro pre p post heq hterm
    cases pre with
    | nil =>
      obtain ⟨rfl, rfl⟩ := List.cons.inj heq
      rw [ht] at hterm
      cases hterm
    | cons q pre =>
      obtain ⟨rfl, rfl⟩ := List.cons.inj heq
      have := @silent_after_terminal cfg key st pre _ hterm post
      rw [← hst] at this
      exact this

/-- A snapshot of a flow with the given sequence number and originator bytes. -/
def sampleEvent (logType : FlowLog) (seq : Int) (bytes : Option Nat) : FlowEvent where
  eventId := "e"
  sensorId := "ot-sensor-01"
  boot := "7f1c2a9e-4b61-4d7e-9a0c-5c1e2f3a4b5d"
  run := none
  offsetUs := 0
  logType := logType
  eventTimeUs := 1788256800000000
  obsMs := 1788256800000 + 1000 * seq
  receivedUs := 1788256800000000
  coverage := "both_directions"
  p :=
    { srcIp := "10.10.1.30"
      srcPort := some 40000
      dstIp := "203.0.113.50"
      dstPort := some 443
      proto := "tcp"
      service := none
      durationS := some 5
      counter := fun c => if c = .origBytes then bytes else none
      history := none
      connState := none
      snapshotSeq := seq }

/-- A regression, a duplicate and a null counter on the way to the terminal record. -/
def sampleFlow : List (Int × FlowEvent) :=
  [(0, sampleEvent .flowUpdate 1 (some 700)), (0, sampleEvent .flowUpdate 1 (some 700)),
    (0, sampleEvent .flowUpdate 3 (some 500)), (0, sampleEvent .flowUpdate 4 none),
    (0, sampleEvent .conn 5 (some 900)), (0, sampleEvent .flowUpdate 6 (some 950))]

theorem flow_counted_once_sample :
    ((((flowDeltaLogic {} "flow").emitted none (arrivals sampleFlow)).filterMap
      (·.d .origBytes)).sum = 900 ∧
    (((flowDeltaLogic {} "flow").emitted none (arrivals sampleFlow)).filter (·.newFlow)).length = 1) :=
  have h := flow_counted_once {} "flow" sampleFlow ⟨_, _, rfl, rfl⟩
  ⟨(h.1 .origBytes).2.trans (by decide +kernel), h.2.1⟩

/-! ## What is remembered of a finished flow -/

/-- The tombstone of `ev` cannot have expired: no timer as late as its period fires. -/
def WithinTombstone (cfg : FlowConfig) (ev : FlowEvent) (post : List (Call FlowEvent)) : Prop :=
  ∀ now ts, .timer now ts ∈ post → ts < ev.obsMs + cfg.flowTombstoneMs

/-- The flow has state when `ev` is processed: counters, or a tombstone not older than `ev`. -/
def Remembered (v : Option FlowState) (ev : FlowEvent) : Prop :=
  ∃ st, v = some st ∧ ∀ o, st = .tombstone o → ev.obsMs ≤ o

theorem within_silent {ev : FlowEvent} {o : Int} (ho : ev.obsMs ≤ o) {post : List (Call FlowEvent)}
    (hpost : WithinTombstone cfg ev post) :
    (flowDeltaLogic cfg key).emitted (some (.tombstone o)) post = [] := by
  induction post with
  | nil => rfl
  | cons c post ih =>
    have hrest := ih fun now ts h => hpost now ts (List.mem_cons_of_mem _ h)
    cases c with
    | event now ev' => exact hrest
    | timer now ts =>
      have hts := hpost now ts List.mem_cons_self
      have hkeep : flowOnTimer cfg (some (.tombstone o)) ts = ⟨some (.tombstone o), [], []⟩ := by
        unfold flowOnTimer
        exact if_neg (by omega)
      show (flowOnTimer cfg (some (.tombstone o)) ts).out ++
        (flowDeltaLogic cfg key).emitted (flowOnTimer cfg (some (.tombstone o)) ts).value post = []
      rw [hkeep]
      exact hrest

/-- **When a finished flow is remembered.**  All further records within the tombstone period of a
terminal record are dropped exactly when the flow has state as the terminal record is processed. -/
theorem terminal_remembered_iff (cfg : FlowConfig) (key : String) (pre : List (Call FlowEvent))
    (now : Int) (ev : FlowEvent) (ht : ev.terminal = true) :
    (∀ post, WithinTombstone cfg ev post →
      (flowDeltaLogic cfg key).emitted
        ((flowDeltaLogic cfg key).valueAfter none (pre ++ [.event now ev])) post = []) ↔
      Remembered ((flowDeltaLogic cfg key).valueAfter none pre) ev := by
  rw [Logic.valueAfter_concat]
  generalize (flowDeltaLogic cfg key).valueAfter none pre = v
  show (∀ post, WithinTombstone cfg ev post → (flowDeltaLogic cfg key).emitted
    (flowOnEvent cfg key v ev).value post = []) ↔ _
  constructor
  · intro h
    cases v with
    | none =>
      -- nothing is stored, so the same record is emitted again
      have hval : (flowOnEvent cfg key none ev).value = none := by
        simp [flowOnEvent, Drops, flowNext, ht]
      have := h [.event now ev] (by intro n ts hm; simp at hm)
      rw [hval] at this
      cases this
    | some st =>
      refine ⟨st, rfl, ?_⟩
      rintro o rfl
      by_contra hlt
      -- the older tombstone expires within the period of this record
      have := h [.timer now (o + cfg.flowTombstoneMs), .event now ev] (by
        intro n ts hm
        simp only [List.mem_cons, Call.timer.injEq, List.not_mem_nil, or_false, reduceCtorEq] at hm
        omega)
      have hexp : (flowOnTimer cfg (some (.tombstone o)) (o + cfg.flowTombstoneMs)) =
          ⟨none, [], []⟩ := if_pos (le_refl _)
      have hcall : (flowDeltaLogic cfg key).emitted (some (.tombstone o))
          [.timer now (o + cfg.flowTombstoneMs), .event now ev] = [ev.delta key none] := by
        show (flowOnTimer cfg (some (.tombstone o)) (o + cfg.flowTombstoneMs)).out ++
          (flowDeltaLogic cfg key).emitted
            (flowOnTimer cfg (some (.tombstone o)) (o + cfg.flowTombstoneMs)).value [.event now ev] = _
        rw [hexp]
        rfl
      have hdrop : (flowOnEvent cfg key (some (.tombstone o)) ev).value = some (.tombstone o) := rfl
      rw [hdrop, hcall] at this
      cases this
  · rintro ⟨st, rfl, hst⟩ post hpost
    cases st with
    | tombstone o => exact within_silent (hst o rfl) hpost
    | live c seq o =>
      have hval : (flowOnEvent cfg key (some (.live c seq o)) ev).value = some (.tombstone ev.obsMs) := by
        simp [flowOnEvent, Drops, flowNext, ht]
      rw [hval]
      exact within_silent (le_refl _) hpost

theorem terminal_remembered_iff_sample :
    (flowDeltaLogic {} "flow").emitted ((flowDeltaLogic {} "flow").valueAfter none
      ([.event 0 (sampleEvent .flowUpdate 1 (some 700))] ++ [.event 0 (sampleEvent .conn 5 none)]))
      [.event 0 (sampleEvent .conn 5 none)] = [] :=
  (terminal_remembered_iff {} "flow" [.event 0 (sampleEvent .flowUpdate 1 (some 700))] 0
    (sampleEvent .conn 5 none) rfl).2 ⟨_, rfl, fun _ h => FlowState.noConfusion h⟩
    [.event 0 (sampleEvent .conn 5 none)] (by simp [WithinTombstone])

/-- A flow known only from its terminal record is counted again with every copy of the record. -/
theorem terminal_counted_twice :
    (¬ ∀ post, WithinTombstone {} (sampleEvent .conn 5 (some 900)) post →
      (flowDeltaLogic {} "flow").emitted ((flowDeltaLogic {} "flow").valueAfter none
        ([] ++ [.event 0 (sampleEvent .conn 5 (some 900))])) post = []) ∧
    ∃ s, (operator (flowDeltaLogic {} "flow")).Reach
        (fun _ a => ∃ now, a = .event now (sampleEvent .conn 5 (some 900))) s ∧
      s.out.map (·.newFlow) = [true, true] ∧
      s.out.map (·.d .origBytes) = [some 900, some 900] := by
  constructor
  · intro h
    cases h [.event 0 (sampleEvent .conn 5 (some 900))] (by simp [WithinTombstone])
  · refine ⟨_, .step (.step .init ⟨0, rfl⟩ rfl) ⟨0, rfl⟩ rfl, ?_⟩
    decide +kernel

end OTS.Detect
