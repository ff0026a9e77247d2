import Mathlib.Data.List.Induction

/-!
# Safety properties of traces

A trace is the list of the events so far; a safety property says of each event what the events
before it must have been.

* `Always P t` — every event `e` of `t`, with `a` the events before it, satisfies `P a e`.
* `always_concat` — a trace grows by one event: the property of that event is what is to be shown.
* `Always.append` — growth by events whose property does not depend on the past.
* `Always.mono`, `Always.of_prefix` — weakening, and the traces on the way.
* `replay` — the state that a trace leaves, where the effect of an event depends on the events before it.
-/

namespace OTS

variable {ε : Type}

/-- Every event of the trace satisfies `P` with the events before it. -/
def Always (P : List ε → ε → Prop) (t : List ε) : Prop := ∀ a e c, t = a ++ e :: c → P a e

variable {P Q : List ε → ε → Prop} {t : List ε}

/-- The state after the events of a trace. -/
def replay {σ : Type} (f : List ε → σ → ε → σ) (s : σ) (t : List ε) : σ :=
  (t.foldl (fun p e => (p.1 ++ [e], f p.1 p.2 e)) ([], s)).2

theorem always_nil : Always P [] := fun a e c h => by simp at h

/-- **The trace grown by one event.** -/
theorem always_concat {e : ε} : Always P (t ++ [e]) ↔ Always P t ∧ P t e := by
  constructor
  · intro h
    exact ⟨fun a x c ht => h a x (c ++ [e]) (by rw [ht]; simp), h t e [] rfl⟩
  · rintro ⟨ht, he⟩ a x c heq
    rcases List.eq_nil_or_concat c with rfl | ⟨c', y, rfl⟩
    · obtain ⟨rfl, hx⟩ := List.append_inj' heq rfl
      simp only [List.cons.injEq, and_true] at hx
      exact hx ▸ he
    · have hsplit : t ++ [e] = (a ++ x :: c') ++ [y] := by rw [heq]; simp
      exact ht a x c' (List.append_inj' hsplit rfl).1

theorem Always.concat {e : ε} (h : Always P t) (he : P t e) : Always P (t ++ [e]) :=
  always_concat.2 ⟨h, he⟩

/-- Events that have their property whatever came before. -/
theorem Always.append (h : Always P t) {s : List ε} (hs : ∀ e ∈ s, ∀ a, P a e) :
    Always P (t ++ s) := by
  induction s generalizing t with
  | nil => simpa using h
  | cons e s ih =>
    have hcons : t ++ e :: s = (t ++ [e]) ++ s := by simp
    rw [hcons]
    exact ih (h.concat (hs e List.mem_cons_self t)) (fun x hx => hs x (List.mem_cons_of_mem _ hx))

theorem Always.mono (h : Always P t) (hPQ : ∀ a e, P a e → Q a e) : Always Q t :=
  fun a e c ht => hPQ a e (h a e c ht)

theorem Always.of_prefix {s : List ε} (h : Always P t) (hs : s <+: t) : Always P s := by
  obtain ⟨r, rfl⟩ := hs
  exact fun a e c hs => h a e (c ++ r) (by rw [hs]; simp)

/-- An event of the trace, with the events before it. -/
theorem Always.mem (h : Always P t) {e : ε} (he : e ∈ t) : ∃ a, a <+: t ∧ P a e := by
  obtain ⟨a, c, rfl⟩ := List.append_of_mem he
  exact ⟨a, List.prefix_append _ _, h a e c rfl⟩

/-! ## Replaying -/

section Replay

variable {σ : Type} {f : List ε → σ → ε → σ} {s : σ}

theorem replay_prefix (t : List ε) : (t.foldl (fun p e => (p.1 ++ [e], f p.1 p.2 e)) ([], s)).1 = t := by
  induction t using List.reverseRecOn with
  | nil => rfl
  | append_singleton t e ih => rw [List.foldl_append, List.foldl_cons, List.foldl_nil, ih]

theorem replay_concat (t : List ε) (e : ε) : replay f s (t ++ [e]) = f t (replay f s t) e := by
  unfold replay
  rw [List.foldl_append, List.foldl_cons, List.foldl_nil, replay_prefix]

/-- **What every event keeps holds of the state that a trace leaves.** -/
theorem replay_invariant {J : List ε → σ → Prop} (hinit : J [] s) (h : Always P t)
    (hstep : ∀ t e, J t (replay f s t) → P t e → J (t ++ [e]) (f t (replay f s t) e)) : J t (replay f s t) := by
  induction t using List.reverseRecOn with
  | nil => exact hinit
  | append_singleton t e ih =>
    obtain ⟨ht, he⟩ := always_concat.1 h
    rw [replay_concat]
    exact hstep t e (ih ht) he

end Replay

end OTS
