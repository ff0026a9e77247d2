import Mathlib.Algebra.BigOperators.Group.List.Basic
import Mathlib.Algebra.GroupWithZero.Nat
import Mathlib.Data.List.Sort
import Mathlib.Order.Defs.LinearOrder
import OTSecurity.Lib.Keyed
import OTSecurity.Lib.ODict

/-!
# Keyed state under event time

A keyed logic has a state for each key.  A call, with an element or with a timer that fires, reads the
state of its key, leaves a new one, registers timers for the key and emits.

* `KeyedLogic.after`, `KeyedLogic.emitted` — the state of one key after a sequence of calls, and what they
  emit.
* `Harness` — the states of all keys, the registered timers, the watermark.
* `Harness.feed`, `Harness.advance` — an element arrives, or the watermark advances; timers that are due
  fire then, the earliest first, also those registered while timers fire.
* `Harness.step_timers` — once the watermark has risen no timer that it has reached is left.
* `Harness.step_states` — what an operation preserves of the states.
* `Retention` — an account of why a logic forgets: a state that holds something is covered by a timer, and
  a timer that does not clear its state leaves it covered by another one.
* `KeyedLogic.single` — a keyed logic seen from one key: a logic whose value state is absent when the key holds
  nothing; `single_value`, `single_emitted` — the states are the same, and the same is emitted.

Principal result: `Retention.forgets` — no state is left once no timer is, and no timer is left once the
watermark has advanced past every element by a fixed delay.
-/

namespace OTS

/-- What a call does to the state of its key. -/
structure Outcome (σ ο : Type) where
  state : σ
  timers : List Int
  out : List ο

structure KeyedLogic (κ ε σ ο : Type) where
  empty : σ
  /-- How many values and map entries a state holds. -/
  entries : σ → Nat
  entries_empty : entries empty = 0
  onEvent : Int → κ → σ → ε → Outcome σ ο
  onTimer : Int → κ → σ → Int → Outcome σ ο

/-- A logic whose only state is a value. -/
def Effect.outcome {σ ο : Type} (r : Effect σ ο) : Outcome (Option σ) ο := ⟨r.value, r.timers, r.out⟩

def Logic.keyed {κ ε σ ο : Type} (L : κ → Logic ε σ ο) : KeyedLogic κ ε (Option σ) ο where
  empty := none
  entries := fun v => if v.isSome then 1 else 0
  entries_empty := rfl
  onEvent := fun now k v e => ((L k).onEvent now v e).outcome
  onTimer := fun now k v ts => ((L k).onTimer now v ts).outcome

/-! ## The calls for one key -/

namespace KeyedLogic

variable {κ ε σ ο : Type} (L : KeyedLogic κ ε σ ο) (k : κ)

def call (s : σ) : Call ε → Outcome σ ο
  | .event now e => L.onEvent now k s e
  | .timer now ts => L.onTimer now k s ts

/-- The state of a key after a sequence of calls, in any order. -/
def after (calls : List (Call ε)) : σ := calls.foldl (fun s c => (L.call k s c).state) L.empty

theorem after_concat (calls : List (Call ε)) (c : Call ε) :
    L.after k (calls ++ [c]) = (L.call k (L.after k calls) c).state := by
  simp [after]

/-- What a sequence of calls emits, from a state on. -/
def emittedFrom : σ → List (Call ε) → List ο
  | _, [] => []
  | s, c :: calls => (L.call k s c).out ++ emittedFrom (L.call k s c).state calls

def emitted (calls : List (Call ε)) : List ο := L.emittedFrom k L.empty calls

theorem emittedFrom_append (s : σ) (calls more : List (Call ε)) :
    L.emittedFrom k s (calls ++ more) = L.emittedFrom k s calls ++
      L.emittedFrom k (calls.foldl (fun s c => (L.call k s c).state) s) more := by
  induction calls generalizing s with
  | nil => rfl
  | cons c calls ih =>
    rw [List.cons_append, emittedFrom, emittedFrom, ih, List.append_assoc]
    rfl

theorem emitted_append (calls more : List (Call ε)) :
    L.emitted k (calls ++ more) = L.emitted k calls ++ L.emittedFrom k (L.after k calls) more :=
  L.emittedFrom_append k L.empty calls more

theorem emittedFrom_concat (earlier calls : List (Call ε)) (c : Call ε) :
    L.emittedFrom k (L.after k earlier) (calls ++ [c]) =
      L.emittedFrom k (L.after k earlier) calls ++
        (L.call k (L.after k (earlier ++ calls)) c).out := by
  rw [emittedFrom_append]
  simp [emittedFrom, after]

/-- What a sequence of calls emits, one of its calls emits. -/
theorem mem_emittedFrom {s : σ} {calls : List (Call ε)} {x : ο} (h : x ∈ L.emittedFrom k s calls) :
    ∃ s', ∃ c ∈ calls, x ∈ (L.call k s' c).out := by
  induction calls generalizing s with
  | nil => cases h
  | cons c calls ih =>
    rcases List.mem_append.1 h with h | h
    · exact ⟨s, c, List.mem_cons_self, h⟩
    · obtain ⟨s', d, hd, hx⟩ := ih h
      exact ⟨s', d, List.mem_cons_of_mem _ hd, hx⟩

/-- What holds of the empty state and survives every call holds after any. -/
theorem after_invariant (Inv : σ → Prop) {P : ε → Prop} (hempty : Inv L.empty)
    (hevent : ∀ now s e, Inv s → P e → Inv (L.onEvent now k s e).state)
    (htimer : ∀ now s ts, Inv s → Inv (L.onTimer now k s ts).state) (calls : List (Call ε))
    (hcalls : ∀ e ∈ calls.filterMap Call.element, P e) : Inv (L.after k calls) := by
  induction calls using List.reverseRecOn with
  | nil => exact hempty
  | append_singleton calls c ih =>
    rw [List.filterMap_append] at hcalls
    have hbefore := ih fun e he => hcalls e (List.mem_append_left _ he)
    rw [after_concat]
    cases c with
    | event now e =>
      exact hevent now _ e hbefore (hcalls e (List.mem_append_right _ (List.mem_singleton.2 rfl)))
    | timer now ts => exact htimer now _ ts hbefore

end KeyedLogic

/-! ## The harness -/

structure Harness (κ σ ο : Type) where
  states : ODict κ σ
  timers : List (Int × κ)
  watermark : Int
  maxTs : Int
  out : List ο

inductive HarnessOp (κ ε : Type) where
  /-- An element with its timestamp. -/
  | feed (now : Int) (key : κ) (e : ε) (ts : Int)
  | advance (now watermark : Int)

def HarnessOp.element {κ ε : Type} : HarnessOp κ ε → Option ε
  | .feed _ _ e _ => some e
  | .advance _ _ => none

/-- The elements that are fed. -/
def fed {κ ε : Type} (ops : List (HarnessOp κ ε)) : List ε := ops.filterMap (·.element)

namespace Harness

variable {κ ε σ ο : Type} [LinearOrder κ]

def init : Harness κ σ ο := ⟨.empty, [], -2 ^ 62, -2 ^ 62, []⟩

/-- The order of the heap. -/
def Earlier (a b : Int × κ) : Prop := a.1 < b.1 ∨ a.1 = b.1 ∧ a.2 ≤ b.2

instance (a b : Int × κ) : Decidable (Earlier a b) := inferInstanceAs (Decidable (_ ∨ _))

/-- A timer of a key is registered once. -/
def register (timers : List (Int × κ)) (t : Int × κ) : List (Int × κ) :=
  if t ∈ timers then timers else timers.orderedInsert Earlier t

variable (L : KeyedLogic κ ε σ ο) (h : Harness κ σ ο)

def state (k : κ) : σ := (h.states.get? k).getD L.empty

/-- The number of values and of map entries. -/
def stateEntries : Nat := (h.states.entries.map fun e => L.entries e.2).sum

/-- What a call leaves. -/
def call (h : Harness κ σ ο) (k : κ) (r : Outcome σ ο) : Harness κ σ ο :=
  { h with
    states := h.states.set k r.state
    timers := (r.timers.map fun t => (t, k)).foldl register h.timers
    out := h.out ++ r.out }

/-- The earliest timer, if the watermark has reached it, and the harness without it. -/
def due (h : Harness κ σ ο) : Option ((Int × κ) × Harness κ σ ο) :=
  match h.timers with
  | [] => none
  | t :: rest => if t.1 ≤ h.watermark then some (t, { h with timers := rest }) else none

/-- Fire the timers that are due, at most `n` of them. -/
def drain (now : Int) : Nat → Harness κ σ ο → Harness κ σ ο
  | 0, h => h
  | n + 1, h =>
    match h.due with
    | none => h
    | some (t, u) => drain now n (u.call t.2 (L.onTimer now t.2 (u.state L t.2) t.1))

/-- Enough steps to fire every timer up to `w`, when each registers at most one, and that later. -/
def steps (w : Int) (timers : List (Int × κ)) : Nat := (timers.map fun t => (w + 1 - t.1).toNat).sum

/-- `advance`. -/
def advance (now w : Int) : Harness κ σ ο :=
  if w ≤ h.watermark then h else drain L now (steps w h.timers) { h with watermark := w }

/-- `feed`. -/
def feed (outOfOrdernessMs now : Int) (k : κ) (e : ε) (ts : Int) : Harness κ σ ο :=
  let u := h.call k (L.onEvent now k (h.state L k) e)
  advance L { u with maxTs := max h.maxTs ts } now (max h.maxTs ts - outOfOrdernessMs)

/-- `finish`. -/
def finish (now : Int) : Harness κ σ ο := h.advance L now (2 ^ 62)

def step (outOfOrdernessMs : Int) : HarnessOp κ ε → Harness κ σ ο
  | .feed now k e ts => h.feed L outOfOrdernessMs now k e ts
  | .advance now w => h.advance L now w

/-- The harness after a sequence of operations. -/
def run (outOfOrdernessMs : Int) (ops : List (HarnessOp κ ε)) : Harness κ σ ο :=
  ops.foldl (fun h op => h.step L outOfOrdernessMs op) init

/-! ## Timers -/

theorem mem_register {timers : List (Int × κ)} {t u : Int × κ} :
    t ∈ register timers u ↔ t = u ∨ t ∈ timers := by
  unfold register
  split
  · rename_i hu
    constructor
    · exact .inr
    · rintro (rfl | ht)
      · exact hu
      · exact ht
  · exact List.mem_orderedInsert _

theorem mem_registered {new timers : List (Int × κ)} {t : Int × κ} :
    t ∈ new.foldl register timers ↔ t ∈ new ∨ t ∈ timers := by
  induction new generalizing timers with
  | nil => simp
  | cons u new ih =>
    rw [List.foldl_cons, ih, mem_register, List.mem_cons]
    tauto

variable {L h}

theorem mem_call {k : κ} {r : Outcome σ ο} {t : Int × κ} :
    t ∈ (h.call k r).timers ↔ (t.1 ∈ r.timers ∧ t.2 = k) ∨ t ∈ h.timers := by
  unfold call
  rw [mem_registered]
  constructor
  · rintro (ht | ht)
    · obtain ⟨x, hx, rfl⟩ := List.mem_map.1 ht
      exact .inl ⟨hx, rfl⟩
    · exact .inr ht
  · rintro (⟨ht, rfl⟩ | ht)
    · exact .inl (List.mem_map.2 ⟨t.1, ht, rfl⟩)
    · exact .inr ht

theorem state_call (k j : κ) (r : Outcome σ ο) :
    (h.call k r).state L j = if j = k then r.state else h.state L j := by
  unfold state call
  rw [ODict.get?_set]
  split <;> rfl

omit [LinearOrder κ] in
theorem due_some {u : Harness κ σ ο} {t : Int × κ} (hd : h.due = some (t, u)) :
    u = { h with timers := u.timers } ∧ h.timers = t :: u.timers ∧ t.1 ≤ h.watermark := by
  unfold due at hd
  split at hd
  · cases hd
  · rename_i s rest hs
    split at hd
    · rename_i hle
      cases hd
      exact ⟨rfl, hs, hle⟩
    · cases hd

/-- Nothing is held when no key holds anything. -/
theorem stateEntries_eq_zero (hzero : ∀ k, L.entries (h.state L k) = 0) : h.stateEntries L = 0 := by
  unfold stateEntries
  apply List.sum_eq_zero
  intro n hn
  obtain ⟨⟨k, v⟩, hmem, rfl⟩ := List.mem_map.1 hn
  have hstate : h.state L k = v := by rw [state, ODict.mem_entries.1 hmem, Option.getD_some]
  exact hstate ▸ hzero k

/-! ## Firing ends -/

theorem steps_register_le (w : Int) (timers : List (Int × κ)) (t : Int × κ) :
    steps w (register timers t) ≤ steps w timers + (w + 1 - t.1).toNat := by
  unfold register
  split
  · exact Nat.le_add_right _ _
  · have hperm := (List.perm_orderedInsert Earlier t timers).map fun t => (w + 1 - t.1).toNat
    unfold steps
    rw [hperm.sum_nat, List.map_cons, List.sum_cons, Nat.add_comm]

end Harness

/-- A timer that fires registers at most one timer, and that later. -/
def KeyedLogic.Later {κ ε σ ο : Type} (L : KeyedLogic κ ε σ ο) : Prop :=
  ∀ now k st ts, (L.onTimer now k st ts).timers.length ≤ 1 ∧
    ∀ t ∈ (L.onTimer now k st ts).timers, ts < t

namespace Harness

variable {κ ε σ ο : Type} [LinearOrder κ] {L : KeyedLogic κ ε σ ο}

theorem steps_call_lt {h u : Harness κ σ ο} {t : Int × κ} (hlater : L.Later)
    (hd : h.due = some (t, u)) (now : Int) (st : σ) :
    steps h.watermark (u.call t.2 (L.onTimer now t.2 st t.1)).timers < steps h.watermark h.timers := by
  obtain ⟨-, htimers, hle⟩ := due_some hd
  obtain ⟨hone, hlt⟩ := hlater now t.2 st t.1
  have hfired : steps h.watermark h.timers =
      (h.watermark + 1 - t.1).toNat + steps h.watermark u.timers := by
    rw [htimers]
    simp [steps]
  rw [hfired]
  show steps _ (((L.onTimer now t.2 st t.1).timers.map fun x => (x, t.2)).foldl register u.timers) < _
  match hnew : (L.onTimer now t.2 st t.1).timers with
  | [] =>
    simp only [List.map_nil, List.foldl_nil]
    omega
  | [x] =>
    have hx : t.1 < x := hlt x (by rw [hnew]; exact List.mem_singleton.2 rfl)
    have hstep := steps_register_le h.watermark u.timers (x, t.2)
    simp only [List.map_cons, List.map_nil, List.foldl_cons, List.foldl_nil]
    omega
  | x :: y :: rest =>
    rw [hnew] at hone
    simp at hone

/-- **Firing comes to an end**: once `advance` is done, no timer is due. -/
theorem drain_due (hlater : L.Later) (now : Int) (n : Nat) (h : Harness κ σ ο)
    (hn : steps h.watermark h.timers ≤ n) : (drain L now n h).due = none := by
  induction n generalizing h with
  | zero =>
    cases hd : h.due with
    | none => exact hd
    | some d =>
      obtain ⟨t, u⟩ := d
      have := steps_call_lt hlater hd now (u.state L t.2)
      omega
  | succ n ih =>
    rw [drain]
    cases hd : h.due with
    | none => exact hd
    | some d =>
      obtain ⟨t, u⟩ := d
      have hlt := steps_call_lt hlater hd now (u.state L t.2)
      have hw : (u.call t.2 (L.onTimer now t.2 (u.state L t.2) t.1)).watermark = h.watermark := by
        rw [(due_some hd).1]
        rfl
      apply ih
      rw [hw]
      omega

/-! ## The order of timers -/

instance : Std.Total (α := Int × κ) Earlier where
  total a b := by
    rcases lt_trichotomy a.1 b.1 with h | h | h
    · exact .inl (.inl h)
    · rcases le_total a.2 b.2 with hk | hk
      · exact .inl (.inr ⟨h, hk⟩)
      · exact .inr (.inr ⟨h.symm, hk⟩)
    · exact .inr (.inl h)

instance : IsTrans (Int × κ) Earlier where
  trans a b c hab hbc := by
    rcases hab with hab | ⟨hab, hk⟩ <;> rcases hbc with hbc | ⟨hbc, hk'⟩
    · exact .inl (hab.trans hbc)
    · exact .inl (hbc ▸ hab)
    · exact .inl (hab ▸ hbc)
    · exact .inr ⟨hab.trans hbc, hk.trans hk'⟩

/-- The heap is in order. -/
def Ordered {σ ο : Type} (h : Harness κ σ ο) : Prop := h.timers.Pairwise Earlier

theorem pairwise_registered {new timers : List (Int × κ)} (h : timers.Pairwise Earlier) :
    (new.foldl register timers).Pairwise Earlier := by
  induction new generalizing timers with
  | nil => exact h
  | cons t new ih =>
    apply ih
    unfold register
    split
    · exact h
    · exact h.orderedInsert t _

theorem Ordered.call {h : Harness κ σ ο} (ho : h.Ordered) (k : κ) (r : Outcome σ ο) :
    (h.call k r).Ordered := pairwise_registered ho

end Harness

/-! ## Forgetting -/

/-- Why a logic forgets.  `Covers st t`: a timer at `t` finds `st` old enough; `Within b st`: as timers up
to `b` fire, none is registered beyond `b`. -/
structure Retention {κ ε σ ο : Type} (L : KeyedLogic κ ε σ ο) (obs : ε → Int) (delay : Int) where
  Inv : σ → Prop
  Covers : σ → Int → Prop
  Within : Int → σ → Prop
  later : L.Later
  inv_empty : Inv L.empty
  within_empty : ∀ b, Within b L.empty
  /-- An element leaves a state that its own timer covers, or every timer that covered it before. -/
  event : ∀ now k st e, Inv st →
    Inv (L.onEvent now k st e).state ∧
    (L.entries (L.onEvent now k st e).state ≠ 0 →
      (∃ t ∈ (L.onEvent now k st e).timers, Covers (L.onEvent now k st e).state t) ∨
      (L.entries st ≠ 0 ∧ ∀ t, Covers st t → Covers (L.onEvent now k st e).state t))
  /-- So does a timer, unless it was one of those. -/
  timer : ∀ now k st ts, Inv st →
    Inv (L.onTimer now k st ts).state ∧
    (L.entries (L.onTimer now k st ts).state ≠ 0 →
      (∃ t ∈ (L.onTimer now k st ts).timers, Covers (L.onTimer now k st ts).state t) ∨
      (L.entries st ≠ 0 ∧ ¬ Covers st ts ∧ ∀ t, Covers st t → Covers (L.onTimer now k st ts).state t))
  event_within : ∀ b now k st e, Inv st → Within b st → obs e + delay ≤ b →
    Within b (L.onEvent now k st e).state ∧ ∀ t ∈ (L.onEvent now k st e).timers, t ≤ b
  timer_within : ∀ b now k st ts, Inv st → Within b st → ts ≤ b →
    Within b (L.onTimer now k st ts).state ∧ ∀ t ∈ (L.onTimer now k st ts).timers, t ≤ b

/-- No key keeps state: there is none once every timer has fired, and every timer has once the watermark
advances past each element by `delay`, as it does when the harness finishes. -/
structure Forgets {κ ε σ ο : Type} [LinearOrder κ] (L : KeyedLogic κ ε σ ο) (obs : ε → Int)
    (delay : Int) : Prop where
  fired : ∀ ooo ops, (Harness.run L ooo ops).timers = [] → (Harness.run L ooo ops).stateEntries L = 0
  passed : ∀ ooo ops now w, (Harness.run L ooo ops).watermark < w → (∀ e ∈ fed ops, obs e + delay ≤ w) →
    ((Harness.run L ooo ops).advance L now w).timers = [] ∧
      ((Harness.run L ooo ops).advance L now w).stateEntries L = 0
  finished : ∀ ooo ops now, (Harness.run L ooo ops).watermark < 2 ^ 62 →
    (∀ e ∈ fed ops, obs e + delay ≤ 2 ^ 62) → ((Harness.run L ooo ops).finish L now).stateEntries L = 0

namespace Retention

variable {κ ε σ ο : Type} [LinearOrder κ] {L : KeyedLogic κ ε σ ο} {obs : ε → Int} {delay : Int}
  (R : Retention L obs delay)

/-- Every state that holds something is covered by a timer. -/
structure Covered (h : Harness κ σ ο) : Prop where
  inv : ∀ k, R.Inv (h.state L k)
  timer : ∀ k, L.entries (h.state L k) ≠ 0 → ∃ t, (t, k) ∈ h.timers ∧ R.Covers (h.state L k) t

/-- No timer is beyond `b`, now or later. -/
structure Bounded (b : Int) (h : Harness κ σ ο) : Prop where
  within : ∀ k, R.Within b (h.state L k)
  timer : ∀ t ∈ h.timers, t.1 ≤ b

variable {R}

theorem Covered.init : R.Covered Harness.init := by
  constructor
  · exact fun _ => R.inv_empty
  · exact fun _ hk => absurd L.entries_empty hk

theorem Bounded.init (b : Int) : R.Bounded b Harness.init := by
  constructor
  · exact fun _ => R.within_empty b
  · exact fun _ ht => nomatch ht

/-- A call keeps every state covered: those of other keys by their timers, its own by what `hcovers`
says of it. -/
theorem Covered.call {h u : Harness κ σ ο} (hcov : R.Covered h) {k : κ} {r : Outcome σ ο}
    (hstates : ∀ j, u.state L j = h.state L j)
    (hothers : ∀ t j, j ≠ k → (t, j) ∈ h.timers → (t, j) ∈ u.timers) (hinv : R.Inv r.state)
    (hcovers : L.entries r.state ≠ 0 → (∃ t ∈ r.timers, R.Covers r.state t) ∨
      ∃ t, (t, k) ∈ u.timers ∧ R.Covers r.state t) :
    R.Covered (u.call k r) := by
  constructor
  · intro j
    rw [Harness.state_call]
    split
    · exact hinv
    · exact hstates j ▸ hcov.inv j
  · intro j hj
    rw [Harness.state_call] at hj ⊢
    by_cases hjk : j = k
    · rw [if_pos hjk] at hj ⊢
      rcases hcovers hj with ⟨t, ht, hcov⟩ | ⟨t, ht, hcov⟩
      · exact ⟨t, Harness.mem_call.2 (.inl ⟨ht, hjk⟩), hcov⟩
      · exact ⟨t, Harness.mem_call.2 (.inr (hjk ▸ ht)), hcov⟩
    · rw [if_neg hjk, hstates] at hj ⊢
      obtain ⟨t, ht, hcov⟩ := hcov.timer j hj
      exact ⟨t, Harness.mem_call.2 (.inr (hothers t j hjk ht)), hcov⟩

theorem Covered.event {h : Harness κ σ ο} (hcov : R.Covered h) (now : Int) (k : κ) (e : ε) :
    R.Covered (h.call k (L.onEvent now k (h.state L k) e)) := by
  obtain ⟨hinv, hcovers⟩ := R.event now k (h.state L k) e (hcov.inv k)
  refine hcov.call (fun _ => rfl) (fun _ _ _ ht => ht) hinv fun hne => ?_
  rcases hcovers hne with hnew | ⟨hheld, hold⟩
  · exact .inl hnew
  · obtain ⟨t, ht, hcov⟩ := hcov.timer k hheld
    exact .inr ⟨t, ht, hold t hcov⟩

theorem Covered.fire {h u : Harness κ σ ο} {t : Int × κ} (hcov : R.Covered h)
    (hd : h.due = some (t, u)) (now : Int) :
    R.Covered (u.call t.2 (L.onTimer now t.2 (u.state L t.2) t.1)) := by
  obtain ⟨hu, htimers, -⟩ := Harness.due_some hd
  have hstates : ∀ j, u.state L j = h.state L j := fun j => by rw [hu]; rfl
  have hkeep : ∀ s, s ∈ h.timers → s ≠ t → s ∈ u.timers := by
    intro s hs hne
    rw [htimers] at hs
    exact (List.mem_cons.1 hs).resolve_left hne
  obtain ⟨hinv, hcovers⟩ := R.timer now t.2 (u.state L t.2) t.1 (hstates t.2 ▸ hcov.inv t.2)
  refine hcov.call hstates (fun s j hj hs => hkeep _ hs (fun h => hj (h ▸ rfl))) hinv fun hne => ?_
  rcases hcovers hne with hnew | ⟨hheld, hnot, hold⟩
  · exact .inl hnew
  · -- the timer that covers the state is not the one that fires
    rw [hstates] at hheld hnot
    obtain ⟨s, hs, hcov⟩ := hcov.timer t.2 hheld
    refine .inr ⟨s, hkeep _ hs fun h => hnot (h ▸ hcov), hold s ?_⟩
    rw [hstates]
    exact hcov

theorem Bounded.call {b : Int} {h u : Harness κ σ ο} (hb : R.Bounded b h) {k : κ} {r : Outcome σ ο}
    (hstates : ∀ j, u.state L j = h.state L j) (htimers : ∀ t ∈ u.timers, t ∈ h.timers)
    (hr : R.Within b r.state ∧ ∀ t ∈ r.timers, t ≤ b) : R.Bounded b (u.call k r) := by
  constructor
  · intro j
    rw [Harness.state_call]
    split
    · exact hr.1
    · exact hstates j ▸ hb.within j
  · intro t ht
    rcases Harness.mem_call.1 ht with ⟨ht, -⟩ | ht
    · exact hr.2 _ ht
    · exact hb.timer _ (htimers t ht)

theorem Bounded.fire {b : Int} {h u : Harness κ σ ο} {t : Int × κ} (hb : R.Bounded b h)
    (hcov : R.Covered h) (hd : h.due = some (t, u)) (now : Int) :
    R.Bounded b (u.call t.2 (L.onTimer now t.2 (u.state L t.2) t.1)) := by
  obtain ⟨hu, htimers, -⟩ := Harness.due_some hd
  have hstates : ∀ j, u.state L j = h.state L j := fun j => by rw [hu]; rfl
  have hmem : ∀ s ∈ u.timers, s ∈ h.timers := by
    intro s hs
    rw [htimers]
    exact List.mem_cons_of_mem _ hs
  refine hb.call hstates hmem ?_
  rw [hstates]
  exact R.timer_within b now t.2 _ t.1 (hcov.inv _) (hb.within _)
    (hb.timer t (by rw [htimers]; exact List.mem_cons_self))

/-- Firing keeps every state covered and no timer beyond `b`. -/
theorem drain_spec (now : Int) (n : Nat) {h : Harness κ σ ο} (hcov : R.Covered h) :
    R.Covered (h.drain L now n) ∧ (h.drain L now n).watermark = h.watermark ∧
      ∀ b, R.Bounded b h → R.Bounded b (h.drain L now n) := by
  induction n generalizing h with
  | zero => exact ⟨hcov, rfl, fun _ hb => hb⟩
  | succ n ih =>
    rw [Harness.drain]
    cases hd : h.due with
    | none => exact ⟨hcov, rfl, fun _ hb => hb⟩
    | some d =>
      obtain ⟨t, u⟩ := d
      obtain ⟨hcov', hw, hb'⟩ := ih (hcov.fire hd now)
      refine ⟨hcov', ?_, fun b hb => hb' b (hb.fire hcov hd now)⟩
      rw [hw, (Harness.due_some hd).1]
      rfl

theorem advance_spec (now w : Int) {h : Harness κ σ ο} (hcov : R.Covered h) :
    R.Covered (h.advance L now w) ∧ ∀ b, R.Bounded b h → R.Bounded b (h.advance L now w) := by
  unfold Harness.advance
  split
  · exact ⟨hcov, fun _ hb => hb⟩
  · obtain ⟨hcov', -, hb'⟩ := drain_spec (R := R) now (Harness.steps w h.timers)
      (h := { h with watermark := w }) ⟨hcov.inv, hcov.timer⟩
    exact ⟨hcov', fun b hb => hb' b ⟨hb.within, hb.timer⟩⟩

theorem step_spec (ooo : Int) (op : HarnessOp κ ε) {h : Harness κ σ ο} (hcov : R.Covered h) :
    R.Covered (h.step L ooo op) ∧ ∀ b, (∀ e ∈ op.element, obs e + delay ≤ b) → R.Bounded b h →
      R.Bounded b (h.step L ooo op) := by
  cases op with
  | feed now k e ts =>
    have hcall := hcov.event now k e
    obtain ⟨hcov', hb'⟩ := advance_spec (R := R) now (max h.maxTs ts - ooo)
      (h := { h.call k (L.onEvent now k (h.state L k) e) with maxTs := max h.maxTs ts })
      ⟨hcall.inv, hcall.timer⟩
    refine ⟨hcov', fun b hobs hb => hb' b ?_⟩
    have hbound := hb.call (k := k) (fun _ => rfl) (fun _ ht => ht)
      (R.event_within b now k _ e (hcov.inv k) (hb.within k) (hobs e rfl))
    exact ⟨hbound.within, hbound.timer⟩
  | advance now w =>
    obtain ⟨hcov', hb'⟩ := advance_spec (R := R) now w hcov
    exact ⟨hcov', fun b _ hb => hb' b hb⟩

theorem run_spec (ooo : Int) (ops : List (HarnessOp κ ε)) :
    R.Covered (Harness.run L ooo ops) ∧
      ∀ b, (∀ e ∈ fed ops, obs e + delay ≤ b) → R.Bounded b (Harness.run L ooo ops) := by
  have hgen : ∀ h : Harness κ σ ο, R.Covered h →
      R.Covered (ops.foldl (fun h op => h.step L ooo op) h) ∧
      ∀ b, (∀ e ∈ fed ops, obs e + delay ≤ b) → R.Bounded b h →
        R.Bounded b (ops.foldl (fun h op => h.step L ooo op) h) := by
    induction ops with
    | nil => exact fun h hcov => ⟨hcov, fun _ _ hb => hb⟩
    | cons op ops ih =>
      intro h hcov
      obtain ⟨hcov', hb'⟩ := step_spec (R := R) ooo op hcov
      obtain ⟨hcov'', hb''⟩ := ih _ hcov'
      refine ⟨hcov'', fun b hobs hb => hb'' b ?_ (hb' b ?_ hb)⟩
      · intro e he
        apply hobs
        obtain ⟨o, ho, heq⟩ := List.mem_filterMap.1 he
        exact List.mem_filterMap.2 ⟨o, List.mem_cons_of_mem _ ho, heq⟩
      · intro e he
        exact hobs e (List.mem_filterMap.2 ⟨op, List.mem_cons_self, he⟩)
  obtain ⟨hcov, hb⟩ := hgen Harness.init Covered.init
  exact ⟨hcov, fun b hobs => hb b hobs (Bounded.init b)⟩

theorem Covered.stateEntries {h : Harness κ σ ο} (hcov : R.Covered h) (hnone : h.timers = []) :
    h.stateEntries L = 0 := by
  apply Harness.stateEntries_eq_zero
  intro k
  by_contra hne
  obtain ⟨t, ht, -⟩ := hcov.timer k hne
  rw [hnone] at ht
  cases ht

/-- Advancing past each element by the delay leaves no timer and no state. -/
theorem advance_past (R : Retention L obs delay) (ooo : Int) (ops : List (HarnessOp κ ε))
    (now w : Int) (hw : (Harness.run L ooo ops).watermark < w)
    (hobs : ∀ e ∈ fed ops, obs e + delay ≤ w) :
    ((Harness.run L ooo ops).advance L now w).timers = [] ∧
      ((Harness.run L ooo ops).advance L now w).stateEntries L = 0 := by
  obtain ⟨hcov, hb⟩ := run_spec (R := R) ooo ops
  obtain ⟨hcov', hb'⟩ := advance_spec (R := R) now w hcov
  have hnone : ((Harness.run L ooo ops).advance L now w).timers = [] := by
    have hbound := (hb' w (hb w hobs)).timer
    unfold Harness.advance at hbound ⊢
    rw [if_neg (not_le.2 hw)] at hbound ⊢
    have hdue := Harness.drain_due R.later now _
      { Harness.run L ooo ops with watermark := w } (le_refl _)
    obtain ⟨-, hwm, -⟩ := drain_spec (R := R) now
      (Harness.steps w (Harness.run L ooo ops).timers)
      (h := { Harness.run L ooo ops with watermark := w }) ⟨hcov.inv, hcov.timer⟩
    -- every timer is up to `w`, so the earliest would be due
    unfold Harness.due at hdue
    split at hdue
    · assumption
    · rename_i t rest ht
      rw [if_pos ?_] at hdue
      · cases hdue
      · rw [hwm]
        exact hbound t (by rw [ht]; exact List.mem_cons_self)
  exact ⟨hnone, hcov'.stateEntries hnone⟩

/-- **A logic whose retention is accounted for forgets.** -/
theorem forgets (R : Retention L obs delay) : Forgets L obs delay := by
  constructor
  · intro ooo ops hnone
    exact (run_spec (R := R) ooo ops).1.stateEntries hnone
  · intro ooo ops now w hw hobs
    exact R.advance_past ooo ops now w hw hobs
  · intro ooo ops now hw hobs
    exact (R.advance_past ooo ops now _ hw hobs).2

end Retention

/-! ## Deadlines -/

/-- A logic whose timers clear a state from its deadline on, and do nothing else. -/
structure Deadlines {κ ε σ ο : Type} (L : KeyedLogic κ ε σ ο) (obs : ε → Int) (delay : Int) where
  deadline : σ → Option Int
  timer : ∀ now k st ts, L.onTimer now k st ts =
    if ∃ d, deadline st = some d ∧ d ≤ ts then ⟨L.empty, [], []⟩ else ⟨st, [], []⟩
  /-- An element changes nothing, or leaves a state that its own timer clears. -/
  event : ∀ now k st e,
    ((L.onEvent now k st e).state = st ∧ (L.onEvent now k st e).timers = []) ∨
    ∃ d t, deadline (L.onEvent now k st e).state = some d ∧ (L.onEvent now k st e).timers = [t] ∧
      d ≤ t ∧ t ≤ obs e + delay

/-- The timers of such a logic cover a state from its deadline on. -/
def Deadlines.retention {κ ε σ ο : Type} {L : KeyedLogic κ ε σ ο} {obs : ε → Int} {delay : Int}
    (D : Deadlines L obs delay) : Retention L obs delay where
  Inv st := D.deadline st = none → L.entries st = 0
  Covers st t := ∀ d, D.deadline st = some d → d ≤ t
  Within _ _ := True
  later := by
    intro now k st ts
    rw [D.timer]
    split <;> exact ⟨Nat.zero_le _, fun _ ht => nomatch ht⟩
  inv_empty := fun _ => L.entries_empty
  within_empty := fun _ => trivial
  event := by
    intro now k st e hinv
    rcases D.event now k st e with ⟨hst, -⟩ | ⟨d, t, hd, ht, hle, -⟩
    · rw [hst]
      exact ⟨hinv, fun hne => .inr ⟨hne, fun _ hcov => hcov⟩⟩
    · refine ⟨fun hnone => (nomatch hnone.symm.trans hd), fun _ => .inl ⟨t, ?_, ?_⟩⟩
      · rw [ht]
        exact List.mem_singleton.2 rfl
      · intro d' hd'
        obtain rfl := Option.some.inj (hd.symm.trans hd')
        exact hle
  timer := by
    intro now k st ts hinv
    rw [D.timer]
    split
    · exact ⟨fun _ => L.entries_empty, fun hne => absurd L.entries_empty hne⟩
    · rename_i hnot
      refine ⟨hinv, fun hne => .inr ⟨hne, fun hcov => ?_, fun _ hcov => hcov⟩⟩
      cases hd : D.deadline st with
      | none => exact hne (hinv hd)
      | some d => exact hnot ⟨d, hd, hcov d hd⟩
  event_within := by
    intro b now k st e _ _ hle
    refine ⟨trivial, fun t ht => ?_⟩
    rcases D.event now k st e with ⟨-, hnone⟩ | ⟨d, t', -, hone, -, hlate⟩
    · rw [hnone] at ht
      cases ht
    · rw [hone] at ht
      obtain rfl := List.mem_singleton.1 ht
      omega
  timer_within := by
    intro b now k st ts _ _ _
    rw [D.timer]
    split <;> exact ⟨trivial, fun _ ht => nomatch ht⟩

/-! ## One key -/

namespace KeyedLogic

variable {κ ε σ ο : Type} (L : KeyedLogic κ ε σ ο) (k : κ)

/-- Only the empty state holds nothing. -/
def Bare : Prop := ∀ s, L.entries s = 0 → s = L.empty

/-- The value of a state. -/
def kept (s : σ) : Option σ := if L.entries s = 0 then none else some s

/-- The logic of one key. -/
def single : Logic ε σ ο where
  onEvent := fun now v e =>
    let r := L.onEvent now k (v.getD L.empty) e
    ⟨L.kept r.state, r.timers, r.out⟩
  onTimer := fun now v ts =>
    let r := L.onTimer now k (v.getD L.empty) ts
    ⟨L.kept r.state, r.timers, r.out⟩

variable {L k}

theorem kept_getD (h : L.Bare) (s : σ) : (L.kept s).getD L.empty = s := by
  unfold kept
  split
  · exact (h s ‹_›).symm
  · rfl

theorem kept_empty : L.kept L.empty = none := if_pos L.entries_empty

/-- The states of a key, and of its logic. -/
theorem single_value (h : L.Bare) (calls : List (Call ε)) :
    ((L.single k).valueAfter none calls).getD L.empty = L.after k calls := by
  induction calls using List.reverseRecOn with
  | nil => rfl
  | append_singleton calls c ih =>
    rw [Logic.valueAfter_concat, L.after_concat, ← ih]
    cases c <;> exact kept_getD h _

/-- What a key emits, and its logic. -/
theorem single_emitted (h : L.Bare) (calls : List (Call ε)) :
    (L.single k).emitted none calls = L.emitted k calls := by
  induction calls using List.reverseRecOn with
  | nil => rfl
  | append_singleton calls c ih =>
    rw [Logic.emitted_concat, emitted_append, ih, ← single_value h]
    cases c <;> exact congrArg (L.emitted k calls ++ ·) (List.append_nil _).symm

/-- Timers clear the logic of a key if they empty its state or leave it. -/
theorem single_clears
    (h : ∀ now s ts, (L.onTimer now k s ts).state = L.empty ∨ (L.onTimer now k s ts).state = s) :
    (L.single k).Clears := by
  intro now v ts
  show L.kept (L.onTimer now k (v.getD L.empty) ts).state = none ∨
    L.kept (L.onTimer now k (v.getD L.empty) ts).state = v
  rcases h now (v.getD L.empty) ts with hstate | hstate
  · rw [hstate]
    exact .inl kept_empty
  · rw [hstate]
    cases v with
    | none => exact .inl kept_empty
    | some s =>
      show L.kept s = none ∨ L.kept s = some s
      unfold kept
      split
      · exact .inl rfl
      · exact .inr rfl

end KeyedLogic

end OTS
