import Mathlib.Algebra.Ring.Int.Defs
import Mathlib.Data.List.Induction
import Mathlib.Data.List.Sort
import OTSecurity.Lib.Machine

/-!
# Keyed stream operators

A logic is what an operator does for one key: a call, with an element or with a timer that fires,
reads the value state and leaves a new one, registers timers and emits.  Every call carries the
wall clock.

* `Logic.valueAfter`, `Logic.emitted` — a sequence of calls, in any order; `Logic.observe` — what
  each call shows, given the state it finds.
* `Logic.Meets` — each element meets a condition on the state that it finds.
* `Logic.since` — the elements since the state was last cleared; `Logic.Unexpired` — it never was.
* `Operator` — one key under event time: registered timers fire, the earliest first, once the
  watermark has reached them.  `operator` is its machine.
* `Pipe` — an operator whose output another one consumes in order, each under its own watermark.

Principal results: `reach_operator` — an operator's value and output are those of the calls made;
`reach_advanceTo` — advancing the watermark past every timer fires them all;
`reach_pipe` — the elements of the calls downstream are an initial part of what was emitted.
-/

namespace OTS

/-- What a call does. -/
structure Effect (σ ο : Type) where
  value : Option σ
  timers : List Int
  out : List ο

inductive Call (ε : Type) where
  | event (now : Int) (e : ε)
  | timer (now ts : Int)
  deriving DecidableEq

def Call.element {ε : Type} : Call ε → Option ε
  | .event _ e => some e
  | .timer _ _ => none

structure Logic (ε σ ο : Type) where
  onEvent : Int → Option σ → ε → Effect σ ο
  onTimer : Int → Option σ → Int → Effect σ ο

namespace Logic

variable {ε σ ο α : Type} (L : Logic ε σ ο)

def call (v : Option σ) : Call ε → Effect σ ο
  | .event now e => L.onEvent now v e
  | .timer now ts => L.onTimer now v ts

/-- The value state after a sequence of calls. -/
def valueAfter (v : Option σ) (calls : List (Call ε)) : Option σ :=
  calls.foldl (fun v c => (L.call v c).value) v

/-- What each call of a sequence shows, given the value state it finds. -/
def observe (g : Option σ → Call ε → List α) : Option σ → List (Call ε) → List α
  | _, [] => []
  | v, c :: calls => g v c ++ observe g (L.call v c).value calls

def emitted (v : Option σ) (calls : List (Call ε)) : List ο :=
  L.observe (fun v c => (L.call v c).out) v calls

theorem valueAfter_concat (v : Option σ) (calls : List (Call ε)) (c : Call ε) :
    L.valueAfter v (calls ++ [c]) = (L.call (L.valueAfter v calls) c).value := by
  simp [valueAfter]

theorem observe_concat (g : Option σ → Call ε → List α) (v : Option σ) (calls : List (Call ε))
    (c : Call ε) :
    L.observe g v (calls ++ [c]) = L.observe g v calls ++ g (L.valueAfter v calls) c := by
  induction calls generalizing v with
  | nil => simp [observe, valueAfter]
  | cons d calls ih =>
    rw [List.cons_append, observe, observe, ih, List.append_assoc]
    rfl

theorem emitted_concat (v : Option σ) (calls : List (Call ε)) (c : Call ε) :
    L.emitted v (calls ++ [c]) = L.emitted v calls ++ (L.call (L.valueAfter v calls) c).out :=
  L.observe_concat ..

/-! ## Conditions on elements -/

/-- Each element meets a condition on the value state that it finds. -/
def Meets (C : Option σ → ε → Prop) (calls : List (Call ε)) : Prop :=
  ∀ earlier now e, earlier ++ [.event now e] <+: calls → C (L.valueAfter none earlier) e

/-- `Meets`, call by call. -/
def meetsFrom (C : Option σ → ε → Prop) [∀ v e, Decidable (C v e)] : Option σ → List (Call ε) → Bool
  | _, [] => true
  | v, c :: calls => (c.element.all fun e => C v e) && meetsFrom C (L.call v c).value calls

variable {L}

theorem Meets.prefix_left {C : Option σ → ε → Prop} {calls more : List (Call ε)}
    (h : L.Meets C (calls ++ more)) : L.Meets C calls :=
  fun earlier now e hpre => h earlier now e (hpre.trans (List.prefix_append _ _))

theorem Meets.last {C : Option σ → ε → Prop} {calls : List (Call ε)} {now : Int} {e : ε}
    (h : L.Meets C (calls ++ [.event now e])) : C (L.valueAfter none calls) e :=
  h calls now e (List.prefix_refl _)

theorem meets_of_check {C : Option σ → ε → Prop} [∀ v e, Decidable (C v e)] {calls : List (Call ε)}
    (h : L.meetsFrom C none calls = true) : L.Meets C calls := by
  have hfrom : ∀ (earlier rest : List (Call ε)) (v : Option σ) now e,
      L.meetsFrom C v (earlier ++ .event now e :: rest) = true → C (L.valueAfter v earlier) e := by
    intro earlier rest
    induction earlier with
    | nil =>
      intro v now e h
      exact of_decide_eq_true (Bool.and_eq_true_iff.1 h).1
    | cons c earlier ih =>
      intro v now e h
      exact ih _ now e (Bool.and_eq_true_iff.1 h).2
  rintro earlier now e ⟨rest, rfl⟩
  refine hfrom earlier rest none now e ?_
  rwa [List.append_assoc] at h

variable (L)

/-! ## Expiry -/

/-- A timer clears the state or leaves it as it is. -/
def Clears : Prop :=
  ∀ now v ts, (L.onTimer now v ts).value = none ∨ (L.onTimer now v ts).value = v

/-- No timer clears the state that it finds. -/
def Unexpired (calls : List (Call ε)) : Prop :=
  ∀ earlier now ts, earlier ++ [.timer now ts] <+: calls → (L.valueAfter none earlier).isSome →
    (L.valueAfter none (earlier ++ [.timer now ts])).isSome

/-- One more call: the value state, and the elements since it was last cleared. -/
def sinceStep (r : Option σ × List ε) (c : Call ε) : Option σ × List ε :=
  ((L.call r.1 c).value,
    match c with
    | .event _ e => r.2 ++ [e]
    | .timer _ _ => if (L.call r.1 c).value.isSome then r.2 else [])

/-- The elements since the value state was last cleared. -/
def since (calls : List (Call ε)) : List ε := (calls.foldl L.sinceStep (none, [])).2

variable {L}

theorem since_value (calls : List (Call ε)) :
    (calls.foldl L.sinceStep (none, [])).1 = L.valueAfter none calls := by
  induction calls using List.reverseRecOn with
  | nil => rfl
  | append_singleton calls c ih =>
    rw [List.foldl_append, valueAfter_concat, ← ih]
    rfl

theorem since_event (calls : List (Call ε)) (now : Int) (e : ε) :
    L.since (calls ++ [.event now e]) = L.since calls ++ [e] := by
  unfold since
  rw [List.foldl_append]
  rfl

theorem since_timer (calls : List (Call ε)) (now ts : Int) :
    L.since (calls ++ [.timer now ts]) =
      if (L.valueAfter none (calls ++ [.timer now ts])).isSome then L.since calls else [] := by
  rw [valueAfter_concat, ← since_value]
  unfold since
  rw [List.foldl_append]
  rfl

/-- What holds of no state and no element, and survives each element, holds of the state and the elements
since it was last cleared. -/
theorem since_invariant (hclears : L.Clears) {P : List ε → Option σ → Prop} (hnone : P [] none)
    (hevent : ∀ now es v e, P es v → P (es ++ [e]) (L.onEvent now v e).value)
    (calls : List (Call ε)) : P (L.since calls) (L.valueAfter none calls) := by
  induction calls using List.reverseRecOn with
  | nil => exact hnone
  | append_singleton calls c ih =>
    cases c with
    | event now e =>
      rw [since_event, valueAfter_concat]
      exact hevent now _ _ e ih
    | timer now ts =>
      rw [since_timer, valueAfter_concat]
      show P (if (L.onTimer now (L.valueAfter none calls) ts).value.isSome then L.since calls else [])
        (L.onTimer now (L.valueAfter none calls) ts).value
      cases hv : (L.onTimer now (L.valueAfter none calls) ts).value with
      | none => exact hnone
      | some s =>
        rcases hclears now (L.valueAfter none calls) ts with h | h
        · cases hv.symm.trans h
        · have hsame : L.valueAfter none calls = some s := h.symm.trans hv
          simpa [hsame] using ih

theorem Unexpired.prefix_left {calls more : List (Call ε)} (h : L.Unexpired (calls ++ more)) :
    L.Unexpired calls :=
  fun earlier now ts hpre => h earlier now ts (hpre.trans (List.prefix_append _ _))

theorem Unexpired.of_no_timer {calls : List (Call ε)} (h : ∀ now ts, .timer now ts ∉ calls) :
    L.Unexpired calls :=
  fun _ now ts hpre _ => absurd (hpre.subset (List.mem_append_right _ List.mem_cons_self)) (h now ts)

/-- A timer that does not clear the state changes nothing. -/
theorem Unexpired.value_timer (hclears : L.Clears) {calls : List (Call ε)} {now ts : Int}
    (h : L.Unexpired (calls ++ [.timer now ts])) :
    L.valueAfter none (calls ++ [.timer now ts]) = L.valueAfter none calls := by
  have hsome := h calls now ts (List.prefix_refl _)
  rw [valueAfter_concat] at hsome ⊢
  rcases hclears now (L.valueAfter none calls) ts with hnone | hsame
  · have hcall : (L.call (L.valueAfter none calls) (.timer now ts)).value = none := hnone
    rw [hcall] at hsome ⊢
    cases hv : L.valueAfter none calls with
    | none => rfl
    | some s =>
      rw [hv] at hsome
      cases hsome rfl
  · exact hsame

/-- Without expiry these are all the elements, if each leaves a state. -/
theorem Unexpired.since_eq (hclears : L.Clears) (hsome : ∀ now v e, (L.onEvent now v e).value.isSome)
    {calls : List (Call ε)} (h : L.Unexpired calls) : L.since calls = calls.filterMap Call.element := by
  have hboth : L.since calls = calls.filterMap Call.element ∧
      (calls.filterMap Call.element ≠ [] → (L.valueAfter none calls).isSome) := by
    induction calls using List.reverseRecOn with
    | nil => exact ⟨rfl, fun hne => absurd rfl hne⟩
    | append_singleton calls c ih =>
      obtain ⟨hsince, hvalue⟩ := ih h.prefix_left
      rw [List.filterMap_append]
      cases c with
      | event now e =>
        rw [since_event, hsince, valueAfter_concat]
        exact ⟨rfl, fun _ => hsome now _ e⟩
      | timer now ts =>
        rw [since_timer, h.value_timer hclears, show [Call.timer (ε := ε) now ts].filterMap
          Call.element = [] from rfl, List.append_nil]
        refine ⟨?_, hvalue⟩
        split
        · exact hsince
        · rename_i hnone
          by_contra hne
          exact hnone (hvalue fun hnil => hne hnil.symm)
  exact hboth.1

variable (L)

/-- What a sequence of calls shows, one of its calls shows. -/
theorem mem_observe {g : Option σ → Call ε → List α} {v : Option σ} {calls : List (Call ε)} {x : α}
    (h : x ∈ L.observe g v calls) : ∃ w, ∃ c ∈ calls, x ∈ g w c := by
  induction calls generalizing v with
  | nil => cases h
  | cons c calls ih =>
    rcases List.mem_append.1 h with h | h
    · exact ⟨v, c, List.mem_cons_self, h⟩
    · obtain ⟨w, d, hd, hx⟩ := ih h
      exact ⟨w, d, List.mem_cons_of_mem _ hd, hx⟩

end Logic

/-! ## Event time -/

/-- One key of an operator; `log` is the calls made. -/
structure Operator (ε σ ο : Type) where
  value : Option σ
  timers : List Int
  watermark : Int
  log : List (Call ε)
  out : List ο

inductive Act (ε : Type) where
  | event (now : Int) (e : ε)
  | advance (watermark : Int)
  | fire (now : Int)

/-- A timer is registered once. -/
def register (timers : List Int) (ts : Int) : List Int :=
  if ts ∈ timers then timers else timers.orderedInsert (· ≤ ·) ts

theorem mem_register {timers : List Int} {t ts : Int} :
    t ∈ register timers ts ↔ t = ts ∨ t ∈ timers := by
  unfold register
  split
  · rename_i h
    constructor
    · exact .inr
    · rintro (rfl | ht)
      · exact h
      · exact ht
  · exact List.mem_orderedInsert _

theorem subset_foldl_register (new timers : List Int) : timers ⊆ new.foldl register timers := by
  induction new generalizing timers with
  | nil => exact fun _ h => h
  | cons ts new ih => exact fun t ht => ih _ (mem_register.2 (.inr ht))

theorem sorted_foldl_register (new : List Int) {timers : List Int}
    (h : timers.Pairwise (· ≤ ·)) : (new.foldl register timers).Pairwise (· ≤ ·) := by
  induction new generalizing timers with
  | nil => exact h
  | cons ts new ih =>
    apply ih
    unfold register
    split
    · exact h
    · exact h.orderedInsert ts _

namespace Operator

variable {ε σ ο : Type}

def init : Operator ε σ ο := ⟨none, [], -2 ^ 62, [], []⟩

def apply (L : Logic ε σ ο) (s : Operator ε σ ο) (c : Call ε) : Operator ε σ ο :=
  { s with
    value := (L.call s.value c).value
    timers := (L.call s.value c).timers.foldl register s.timers
    log := s.log ++ [c]
    out := s.out ++ (L.call s.value c).out }

/-- The earliest timer, if the watermark has reached it, and the operator without it. -/
def due (s : Operator ε σ ο) : Option (Int × Operator ε σ ο) :=
  match s.timers with
  | [] => none
  | ts :: rest => if ts ≤ s.watermark then some (ts, { s with timers := rest }) else none

def step (L : Logic ε σ ο) (s : Operator ε σ ο) : Act ε → Option (Operator ε σ ο)
  | .event now e => some (s.apply L (.event now e))
  | .advance w => if s.watermark < w then some { s with watermark := w } else none
  | .fire now => s.due.map fun d => d.2.apply L (.timer now d.1)

/-- Fire the timers that are due, at most `n` of them. -/
def drain (L : Logic ε σ ο) (now : Int) : Nat → Operator ε σ ο → Operator ε σ ο
  | 0, s => s
  | n + 1, s =>
    match s.due with
    | none => s
    | some (ts, u) => drain L now n (u.apply L (.timer now ts))

/-- The watermark advances and every timer that is due fires. -/
def advanceTo (L : Logic ε σ ο) (now w : Int) (s : Operator ε σ ο) : Operator ε σ ο :=
  drain L now s.timers.length { s with watermark := w }

/-- The value and the output are those of the calls made. -/
def Logged (L : Logic ε σ ο) (s : Operator ε σ ο) : Prop :=
  s.value = L.valueAfter none s.log ∧ s.out = L.emitted none s.log

theorem Logged.init (L : Logic ε σ ο) : Logged L Operator.init := ⟨rfl, rfl⟩

theorem Logged.apply {L : Logic ε σ ο} {s : Operator ε σ ο} (h : Logged L s) (c : Call ε) :
    Logged L (s.apply L c) := by
  obtain ⟨hv, ho⟩ := h
  constructor
  · show (L.call s.value c).value = L.valueAfter none (s.log ++ [c])
    rw [L.valueAfter_concat, ← hv]
  · show s.out ++ (L.call s.value c).out = L.emitted none (s.log ++ [c])
    rw [L.emitted_concat, ← hv, ← ho]

theorem due_some {s u : Operator ε σ ο} {ts : Int} (h : s.due = some (ts, u)) :
    u.value = s.value ∧ u.log = s.log ∧ u.out = s.out ∧ u.watermark = s.watermark ∧
      s.timers = ts :: u.timers ∧ ts ≤ s.watermark := by
  unfold due at h
  split at h
  · cases h
  · rename_i t rest ht
    split at h
    · rename_i hle
      cases h
      exact ⟨rfl, rfl, rfl, rfl, ht, hle⟩
    · cases h

theorem step_out {L : Logic ε σ ο} {s t : Operator ε σ ο} {a : Act ε}
    (hs : s.step L a = some t) : s.out <+: t.out := by
  cases a with
  | event now e => cases hs; exact List.prefix_append _ _
  | advance w =>
    simp only [Operator.step] at hs
    split at hs
    · cases hs; exact List.prefix_rfl
    · cases hs
  | fire now =>
    simp only [Operator.step, Option.map_eq_some_iff] at hs
    obtain ⟨⟨ts, u⟩, hd, rfl⟩ := hs
    rw [← (due_some hd).2.2.1]
    exact List.prefix_append _ _

theorem Logged.step {L : Logic ε σ ο} {s t : Operator ε σ ο} {a : Act ε} (h : Logged L s)
    (hs : s.step L a = some t) : Logged L t := by
  cases a with
  | event now e => cases hs; exact h.apply _
  | advance w =>
    simp only [Operator.step] at hs
    split at hs
    · cases hs; exact h
    · cases hs
  | fire now =>
    simp only [Operator.step, Option.map_eq_some_iff] at hs
    obtain ⟨⟨ts, u⟩, hd, rfl⟩ := hs
    obtain ⟨hv, hl, ho, _⟩ := due_some hd
    have hu : Logged L u := by
      unfold Logged
      rw [hv, hl, ho]
      exact h
    exact hu.apply _

theorem sorted_step {L : Logic ε σ ο} {s t : Operator ε σ ο} {a : Act ε}
    (h : s.timers.Pairwise (· ≤ ·)) (hs : s.step L a = some t) : t.timers.Pairwise (· ≤ ·) := by
  cases a with
  | event now e => cases hs; exact sorted_foldl_register _ h
  | advance w =>
    simp only [Operator.step] at hs
    split at hs
    · cases hs; exact h
    · cases hs
  | fire now =>
    simp only [Operator.step, Option.map_eq_some_iff] at hs
    obtain ⟨⟨ts, u⟩, hd, rfl⟩ := hs
    rw [(due_some hd).2.2.2.2.1] at h
    exact sorted_foldl_register _ (List.pairwise_cons.1 h).2

theorem lt_of_due_none {s : Operator ε σ ο} (h : s.timers.Pairwise (· ≤ ·)) (hd : s.due = none)
    {ts : Int} (hts : ts ∈ s.timers) : s.watermark < ts := by
  unfold due at hd
  split at hd
  · rename_i hnil
    rw [hnil] at hts
    cases hts
  · rename_i t rest ht
    rw [ht] at h hts
    split at hd
    · cases hd
    · rename_i hlt
      rcases List.mem_cons.1 hts with rfl | hmem
      · omega
      · have := (List.pairwise_cons.1 h).1 ts hmem
        omega

/-- A logic whose timers register no timers. -/
def Quiet (L : Logic ε σ ο) : Prop := ∀ now v ts, (L.onTimer now v ts).timers = []

theorem drain_timers {L : Logic ε σ ο} (hq : Quiet L) (now : Int) (s : Operator ε σ ο)
    (h : ∀ ts ∈ s.timers, ts ≤ s.watermark) : (drain L now s.timers.length s).timers = [] := by
  obtain ⟨n, hn⟩ : ∃ n, s.timers.length = n := ⟨_, rfl⟩
  rw [hn]
  induction n generalizing s with
  | zero => exact List.length_eq_zero_iff.1 hn
  | succ n ih =>
    obtain ⟨ts, rest, hts⟩ := List.exists_cons_of_length_eq_add_one hn
    have hdue : s.due = some (ts, { s with timers := rest }) := by
      unfold due
      rw [hts]
      exact if_pos (h ts (by rw [hts]; exact List.mem_cons_self))
    have hrest : (apply L { s with timers := rest } (.timer now ts)).timers = rest := by
      show ((L.onTimer now s.value ts).timers.foldl register rest) = rest
      rw [hq]
      rfl
    rw [drain, hdue]
    refine ih _ ?_ ?_
    · intro t ht
      rw [hrest] at ht
      exact h t (by rw [hts]; exact List.mem_cons_of_mem _ ht)
    · rw [hrest]
      rw [hts] at hn
      exact Nat.succ_inj.1 hn

end Operator

def operator {ε σ ο : Type} (L : Logic ε σ ο) : Machine (Operator ε σ ο) (Act ε) :=
  ⟨Operator.init, Operator.step L⟩

/-- **An operator's value and output are those of the calls made.** -/
theorem reach_operator {ε σ ο : Type} {L : Logic ε σ ο} {C : Operator ε σ ο → Act ε → Prop}
    {s : Operator ε σ ο} (h : (operator L).Reach C s) : s.Logged L :=
  h.invariant (Operator.Logged.init L) (fun _ _ _ hI _ hs => hI.step hs)

/-- **Once every due timer has fired, the timers left are beyond the watermark.** -/
theorem reach_timers {ε σ ο : Type} {L : Logic ε σ ο} {C : Operator ε σ ο → Act ε → Prop}
    {s : Operator ε σ ο} (h : (operator L).Reach C s) (hd : s.due = none) :
    ∀ ts ∈ s.timers, s.watermark < ts := by
  have hsorted : s.timers.Pairwise (· ≤ ·) :=
    h.invariant (I := fun s => s.timers.Pairwise (· ≤ ·)) List.Pairwise.nil
      (fun _ _ _ hI _ hs => Operator.sorted_step hI hs)
  exact fun ts hts => Operator.lt_of_due_none hsorted hd hts

theorem reach_drain {ε σ ο : Type} {L : Logic ε σ ο} {C : Operator ε σ ο → Act ε → Prop} {now : Int}
    (hC : ∀ s, C s (.fire now)) (n : Nat) {s : Operator ε σ ο} (h : (operator L).Reach C s) :
    (operator L).Reach C (s.drain L now n) := by
  induction n generalizing s with
  | zero => exact h
  | succ n ih =>
    rw [Operator.drain]
    cases hd : s.due with
    | none => exact h
    | some d =>
      obtain ⟨ts, u⟩ := d
      exact ih (h.step (hC s) (by simp [operator, Operator.step, hd]))

/-- **Advancing the watermark past every timer leaves none**, and is a run of the operator. -/
theorem reach_advanceTo {ε σ ο : Type} {L : Logic ε σ ο} {C : Operator ε σ ο → Act ε → Prop}
    (now : Int) {w : Int} (hq : Operator.Quiet L) (hfire : ∀ s, C s (.fire now)) {s : Operator ε σ ο}
    (hadv : C s (.advance w)) (h : (operator L).Reach C s) (hw : s.watermark < w)
    (hts : ∀ ts ∈ s.timers, ts ≤ w) :
    (operator L).Reach C (s.advanceTo L now w) ∧ (s.advanceTo L now w).timers = [] := by
  have hs : (operator L).Reach C { s with watermark := w } :=
    h.step hadv (by simp [operator, Operator.step, hw])
  constructor
  · exact reach_drain hfire _ hs
  · exact Operator.drain_timers hq now { s with watermark := w } hts

/-! ## One operator feeding another -/

/-- An operator and the one downstream that consumes what it emits, `taken` elements so far. -/
structure Pipe (ε σ ο ε' σ' ο' : Type) where
  up : Operator ε σ ο
  taken : Nat
  down : Operator ε' σ' ο'

inductive PipeAct (ε : Type) where
  | up (a : Act ε)
  | deliver (now : Int)
  | advance (watermark : Int)
  | fire (now : Int)

namespace Pipe

variable {ε σ ο ε' σ' ο' : Type}

def init : Pipe ε σ ο ε' σ' ο' := ⟨Operator.init, 0, Operator.init⟩

/-- What was emitted for the operator downstream; `pick` leaves out side outputs. -/
def channel (pick : ο → Option ε') (p : Pipe ε σ ο ε' σ' ο') : List ε' := p.up.out.filterMap pick

def step (L : Logic ε σ ο) (pick : ο → Option ε') (M : Logic ε' σ' ο')
    (p : Pipe ε σ ο ε' σ' ο') : PipeAct ε → Option (Pipe ε σ ο ε' σ' ο')
  | .up a => (p.up.step L a).map fun u => { p with up := u }
  | .deliver now =>
    match (p.channel pick)[p.taken]? with
    | none => none
    | some e => some { p with taken := p.taken + 1, down := p.down.apply M (.event now e) }
  | .advance w => (p.down.step M (.advance w)).map fun d => { p with down := d }
  | .fire now => (p.down.step M (.fire now)).map fun d => { p with down := d }

/-- Both operators are logged, and the elements downstream are those emitted, in order. -/
def Fed (L : Logic ε σ ο) (pick : ο → Option ε') (M : Logic ε' σ' ο')
    (p : Pipe ε σ ο ε' σ' ο') : Prop :=
  p.up.Logged L ∧ p.down.Logged M ∧
    p.taken ≤ (p.channel pick).length ∧
    p.down.log.filterMap Call.element = (p.channel pick).take p.taken

variable {L : Logic ε σ ο} {pick : ο → Option ε'} {M : Logic ε' σ' ο'}

theorem Fed.init : Fed L pick M Pipe.init :=
  ⟨Operator.Logged.init L, Operator.Logged.init M, by simp [Pipe.init, Operator.init, channel]⟩

/-- The operator downstream does something other than consume an element. -/
theorem Fed.down {p : Pipe ε σ ο ε' σ' ο'} (h : Fed L pick M p) {d : Operator ε' σ' ο'}
    (hd : d.Logged M) (hl : d.log.filterMap Call.element = p.down.log.filterMap Call.element) :
    Fed L pick M { p with down := d } :=
  ⟨h.1, hd, h.2.2.1, hl.trans h.2.2.2⟩

theorem Fed.step {p q : Pipe ε σ ο ε' σ' ο'} {a : PipeAct ε} (h : Fed L pick M p)
    (hs : p.step L pick M a = some q) : Fed L pick M q := by
  obtain ⟨hup, hdown, hle, htaken⟩ := h
  cases a with
  | up a =>
    simp only [Pipe.step, Option.map_eq_some_iff] at hs
    obtain ⟨u, hu, rfl⟩ := hs
    obtain ⟨new, hout⟩ := Operator.step_out hu
    have hchan : channel pick { p with up := u } = p.channel pick ++ new.filterMap pick := by
      unfold channel
      rw [← hout, List.filterMap_append]
    refine ⟨hup.step hu, hdown, ?_, ?_⟩
    · rw [hchan, List.length_append]
      exact Nat.le_add_right_of_le hle
    · rw [hchan, List.take_append_of_le_length hle]
      exact htaken
  | deliver now =>
    simp only [Pipe.step] at hs
    split at hs
    · cases hs
    · rename_i e he
      cases hs
      obtain ⟨hlt, hget⟩ := List.getElem?_eq_some_iff.1 he
      refine ⟨hup, hdown.apply _, hlt, ?_⟩
      show (p.down.log ++ [Call.event now e]).filterMap Call.element =
        (p.channel pick).take (p.taken + 1)
      rw [List.filterMap_append, htaken, List.take_succ_eq_append_getElem hlt, hget]
      rfl
  | advance w =>
    simp only [Pipe.step, Option.map_eq_some_iff] at hs
    obtain ⟨d, hd, rfl⟩ := hs
    refine Fed.down ⟨hup, hdown, hle, htaken⟩ (hdown.step hd) ?_
    simp only [Operator.step] at hd
    split at hd
    · cases hd; rfl
    · cases hd
  | fire now =>
    simp only [Pipe.step, Option.map_eq_some_iff] at hs
    obtain ⟨d, hd, rfl⟩ := hs
    refine Fed.down ⟨hup, hdown, hle, htaken⟩ (hdown.step hd) ?_
    simp only [Operator.step, Option.map_eq_some_iff] at hd
    obtain ⟨⟨ts, u⟩, hu, rfl⟩ := hd
    simp [Operator.apply, (Operator.due_some hu).2.1, Call.element]

end Pipe

def pipe {ε σ ο ε' σ' ο' : Type} (L : Logic ε σ ο) (pick : ο → Option ε') (M : Logic ε' σ' ο') :
    Machine (Pipe ε σ ο ε' σ' ο') (PipeAct ε) :=
  ⟨Pipe.init, Pipe.step L pick M⟩

/-- **The elements of the calls downstream are an initial part of what was emitted.** -/
theorem reach_pipe {ε σ ο ε' σ' ο' : Type} {L : Logic ε σ ο} {pick : ο → Option ε'}
    {M : Logic ε' σ' ο'} {C : Pipe ε σ ο ε' σ' ο' → PipeAct ε → Prop}
    {p : Pipe ε σ ο ε' σ' ο'} (h : (pipe L pick M).Reach C p) : p.Fed L pick M :=
  h.invariant Pipe.Fed.init (fun _ _ _ hI _ hs => hI.step hs)

end OTS
