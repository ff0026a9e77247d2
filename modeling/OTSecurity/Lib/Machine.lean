/-!
# State machines

A machine has an initial state and a partial step: `none` when the action is not possible there.

* `Reach m C s` — `s` is reached by a run each of whose steps meets the condition `C`, which may
  speak of the state before the step and of the action; `fun _ _ => True` is every run.
* `Reach.invariant` — what holds initially and is kept by the steps that meet `C` holds of every
  state reached.
* `Run m C s as t` — the actions `as` lead from `s` to `t`, and each of their steps meets `C`.
* `runMeeting`, `reach_of_run` — a list of actions, each checked against a decidable condition,
  reaches its final state.
* `Accrued P old new` — every entry of the new log stands in the old one or has `P`; entries may be lost.
  `Reach.all_of_accrued` — when every step from a state of the invariant grows the log by entries with `P`, all
  entries of every state reached have `P`.
* `Inevitable step P s` — from `s`, whatever inputs the steps are given, after finitely many steps, none of which is
  stuck, a state is reached that satisfies `P`; `Inevitable.trans`, `Inevitable.mono` — how such statements compose;
  `Inevitable.run` — with a sequence of inputs, the number of steps.
-/

namespace OTS

structure Machine (σ α : Type) where
  init : σ
  step : σ → α → Option σ

namespace Machine

variable {σ α : Type} {m : Machine σ α} {C : σ → α → Prop}

/-- The states of the runs whose steps all meet `C`. -/
inductive Reach (m : Machine σ α) (C : σ → α → Prop) : σ → Prop where
  | init : Reach m C m.init
  | step {s s' : σ} {a : α} : Reach m C s → C s a → m.step s a = some s' → Reach m C s'

/-- **Invariants of conditional runs.** -/
theorem Reach.invariant {I : σ → Prop} (hinit : I m.init)
    (hstep : ∀ s a s', I s → C s a → m.step s a = some s' → I s') {s : σ} (h : Reach m C s) :
    I s := by
  induction h with
  | init => exact hinit
  | step _ hC hs ih => exact hstep _ _ _ ih hC hs

theorem Reach.mono {D : σ → α → Prop} (hCD : ∀ s a, C s a → D s a) {s : σ} (h : Reach m C s) :
    Reach m D s := by
  induction h with
  | init => exact .init
  | step _ hC hs ih => exact ih.step (hCD _ _ hC) hs

/-- The actions lead from one state to another by steps that all meet `C`. -/
inductive Run (m : Machine σ α) (C : σ → α → Prop) : σ → List α → σ → Prop where
  | nil (s : σ) : Run m C s [] s
  | cons {s s' t : σ} {a : α} {as : List α} : C s a → m.step s a = some s' → Run m C s' as t →
    Run m C s (a :: as) t

/-- **Simulation along a run.**  What `f` makes of the state follows the steps of another system, as
long as the invariant holds. -/
theorem Run.simulate {τ : Type} {f : σ → τ} {next : τ → α → τ} {I : σ → Prop}
    (hkeep : ∀ s a s', I s → C s a → m.step s a = some s' → I s')
    (hstep : ∀ s a s', I s → C s a → m.step s a = some s' → f s' = next (f s) a)
    {s t : σ} {as : List α} (h : Run m C s as t) (hs : I s) : f t = as.foldl next (f s) := by
  induction h with
  | nil => rfl
  | cons hC hmove _ ih =>
    rw [ih (hkeep _ _ _ hs hC hmove), hstep _ _ _ hs hC hmove, List.foldl_cons]

/-- Do a list of actions as long as each meets the condition. -/
def runMeeting (m : Machine σ α) (C : σ → α → Prop) [∀ s a, Decidable (C s a)] (s : σ)
    (as : List α) : Option σ :=
  as.foldlM (fun s a => if C s a then m.step s a else none) s

theorem reach_runMeeting [∀ s a, Decidable (C s a)] {s t : σ} {as : List α} (h : Reach m C s)
    (hr : m.runMeeting C s as = some t) : Reach m C t := by
  induction as generalizing s with
  | nil =>
    simp only [runMeeting, List.foldlM_nil, Option.pure_def, Option.some.injEq] at hr
    exact hr ▸ h
  | cons a as ih =>
    simp only [runMeeting, List.foldlM_cons, Option.bind_eq_bind, Option.bind_eq_some_iff] at hr
    obtain ⟨u, hu, hr⟩ := hr
    split at hu
    · rename_i hC
      exact ih (h.step hC hu) hr
    · cases hu

/-- A concrete run whose steps meet `C` reaches its final state. -/
theorem reach_of_run [∀ s a, Decidable (C s a)] {t : σ} (as : List α)
    (hr : m.runMeeting C m.init as = some t) : Reach m C t :=
  reach_runMeeting .init hr

end Machine

/-! ## Where the entries of a log come from -/

/-- What is new in a log has `P`. -/
def Accrued {α : Type} (P : α → Prop) (old new : List α) : Prop := ∀ e ∈ new, e ∈ old ∨ P e

namespace Accrued

variable {α : Type} {P Q : α → Prop} {a b c : List α}

theorem refl (a : List α) : Accrued P a a := fun _ he => .inl he

theorem trans (h : Accrued P a b) (h' : Accrued P b c) : Accrued P a c := by
  intro e he
  rcases h' e he with he | he
  · exact h e he
  · exact .inr he

theorem mono (hPQ : ∀ e, P e → Q e) (h : Accrued P a b) : Accrued Q a b :=
  fun e he => (h e he).imp id (hPQ e)

/-- An entry with `P` is appended. -/
theorem snoc {e : α} (he : P e) : Accrued P a (a ++ [e]) := by
  intro e' he'
  rcases List.mem_append.1 he' with he' | he'
  · exact .inl he'
  · rw [List.mem_singleton.1 he']
    exact .inr he

/-- Entries are lost. -/
theorem filter (h : Accrued P a b) (p : α → Bool) : Accrued P a (b.filter p) :=
  fun e he => h e (List.mem_filter.1 he).1

theorem all (h : Accrued P a b) (ha : ∀ e ∈ a, P e) : ∀ e ∈ b, P e :=
  fun e he => (h e he).elim (ha e) id

end Accrued

/-- **Provenance along runs.** -/
theorem Machine.Reach.all_of_accrued {σ α ε : Type} {m : Machine σ α} {C : σ → α → Prop} {I : σ → Prop}
    {log : σ → List ε} {P : ε → Prop} (hinit : ∀ e ∈ log m.init, P e)
    (hI : ∀ s, m.Reach C s → I s)
    (hstep : ∀ s a s', I s → C s a → m.step s a = some s' → Accrued P (log s) (log s')) {s : σ}
    (h : m.Reach C s) : ∀ e ∈ log s, P e := by
  induction h with
  | init => exact hinit
  | step hs hC hmove ih => exact (hstep _ _ _ (hI _ hs) hC hmove).all ih

/-! ## What happens whatever the inputs are -/

/-- `P` is reached from a state whatever the inputs are. -/
inductive Inevitable {σ ι : Type} (step : σ → ι → Option σ) (P : σ → Prop) : σ → Prop where
  | now {s : σ} (h : P s) : Inevitable step P s
  | later {s : σ} (next : ι → σ) (hstep : ∀ i, step s i = some (next i))
      (h : ∀ i, Inevitable step P (next i)) : Inevitable step P s

namespace Inevitable

variable {σ ι : Type} {step : σ → ι → Option σ} {P Q : σ → Prop} {s : σ}

/-- What is reached first leads to what is reached then. -/
theorem trans (h : Inevitable step P s) (hPQ : ∀ t, P t → Inevitable step Q t) :
    Inevitable step Q s := by
  induction h with
  | now hp => exact hPQ _ hp
  | later next hstep _ ih => exact .later next hstep ih

theorem mono (h : Inevitable step P s) (hPQ : ∀ t, P t → Q t) : Inevitable step Q s :=
  h.trans fun t ht => .now (hPQ t ht)

/-- One step that does not depend on its input. -/
theorem one {t : σ} (hstep : ∀ i, step s i = some t) (h : Inevitable step P t) :
    Inevitable step P s :=
  .later (fun _ => t) hstep fun _ => h

/-- `n` steps with the inputs of a sequence. -/
def runInputs (step : σ → ι → Option σ) : Nat → (Nat → ι) → σ → Option σ
  | 0, _, s => some s
  | n + 1, inputs, s => (step s (inputs 0)).bind (runInputs step n fun i => inputs (i + 1))

/-- With the inputs of a sequence the state is reached after some number of steps. -/
theorem run (h : Inevitable step P s) (inputs : Nat → ι) :
    ∃ n t, runInputs step n inputs s = some t ∧ P t := by
  induction h generalizing inputs with
  | now hp => exact ⟨0, _, rfl, hp⟩
  | later next hstep _ ih =>
    obtain ⟨n, t, hrun, ht⟩ := ih (inputs 0) fun i => inputs (i + 1)
    refine ⟨n + 1, t, ?_, ht⟩
    rw [runInputs, hstep, Option.bind_some, hrun]

end Inevitable

end OTS
