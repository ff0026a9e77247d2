import OTSecurity.Lib.Harness

/-!
# Tumbling windows

A keyed logic that holds one window at a time.  An element of another window than the one that is held
starts that window afresh, and a timer past its deadline drops it.

* `Tumbling` — what makes a logic one; `slot` is the window of an element that counts.
* `Tumbling.window_run` — what holds after the calls of a window, from its start on.
* `exists_split` — the calls since the last element of another window.
* `Timely` — no timer has passed the time of an element that follows it.
* `Uninterrupted` — no element is between two of the window without being of it.
-/

namespace OTS

variable {κ ε σ ο α : Type}

structure Tumbling (L : KeyedLogic κ ε σ ο) (k : κ) (slot : ε → Option Int) where
  /-- The window that a state holds. -/
  held : σ → Option Int
  deadline : Int → Int
  held_empty : held L.empty = none
  ignored : ∀ now s e, slot e = none →
    (L.onEvent now k s e).state = s ∧ (L.onEvent now k s e).out = []
  entered : ∀ now s e v, slot e = some v → held (L.onEvent now k s e).state = some v
  restarted : ∀ now s e v, slot e = some v → held s ≠ some v →
    L.onEvent now k s e = L.onEvent now k L.empty e
  timer : ∀ now s ts, L.onTimer now k s ts =
    if ∃ v, held s = some v ∧ deadline v ≤ ts then ⟨L.empty, [], []⟩ else ⟨s, [], []⟩

/-- The elements of a window. -/
def inSlot (slot : ε → Option Int) (w : Int) (es : List ε) : List ε := es.filter (slot · = some w)

/-- The elements of the calls. -/
def elements (calls : List (Call ε)) : List ε := calls.filterMap Call.element

theorem elements_append (calls more : List (Call ε)) :
    elements (calls ++ more) = elements calls ++ elements more := List.filterMap_append ..

theorem elements_event (now : Int) (e : ε) : elements [Call.event now e] = [e] := rfl

theorem inSlot_append (slot : ε → Option Int) (w : Int) (es more : List ε) :
    inSlot slot w (es ++ more) = inSlot slot w es ++ inSlot slot w more := List.filter_append ..

theorem inSlot_eq_nil {slot : ε → Option Int} {w : Int} {es : List ε} :
    inSlot slot w es = [] ↔ ∀ e ∈ es, slot e ≠ some w := by
  unfold inSlot
  rw [List.filter_eq_nil_iff]
  simp

/-! ## The calls of a window -/

namespace Tumbling

variable {L : KeyedLogic κ ε σ ο} {k : κ} {slot : ε → Option Int} {w : Int} (T : Tumbling L k slot)

include T

theorem timer_out (now : Int) (s : σ) (ts : Int) : (L.onTimer now k s ts).out = [] := by
  rw [T.timer]
  split <;> rfl

theorem timer_held (now : Int) (s : σ) {ts : Int} (hs : T.held s ≠ some w) :
    T.held (L.onTimer now k s ts).state ≠ some w := by
  rw [T.timer]
  split
  · rw [T.held_empty]
    exact (Option.some_ne_none w).symm
  · exact hs

/-- Before its deadline a window stays as it is. -/
theorem timer_before (now : Int) {s : σ} {ts : Int} (hs : T.held s = some w) (hts : ts < T.deadline w) :
    (L.onTimer now k s ts).state = s := by
  rw [T.timer, if_neg]
  rintro ⟨v, hv, hle⟩
  cases hs.symm.trans hv
  omega

/-- What a window holds after calls that bring no element of another one, each timer before its deadline:
nothing, or what starting it and then every element make hold. -/
theorem window_run {P : List ε → List ο → σ → Prop} (hstart : P [] [] L.empty)
    (hstep : ∀ now es out s e, slot e = some w → P es out s →
      P (es ++ [e]) (out ++ (L.onEvent now k s e).out) (L.onEvent now k s e).state)
    {earlier : List (Call ε)} (hearlier : T.held (L.after k earlier) ≠ some w)
    (calls : List (Call ε)) (hcalls : ∀ e ∈ elements calls, slot e = none ∨ slot e = some w)
    (htimers : ∀ now ts, .timer now ts ∈ calls → ts < T.deadline w) :
    (inSlot slot w (elements calls) = [] ∧ L.emittedFrom k (L.after k earlier) calls = [] ∧
      T.held (L.after k (earlier ++ calls)) ≠ some w) ∨
    (inSlot slot w (elements calls) ≠ [] ∧ T.held (L.after k (earlier ++ calls)) = some w ∧
      P (inSlot slot w (elements calls)) (L.emittedFrom k (L.after k earlier) calls)
        (L.after k (earlier ++ calls))) := by
  induction calls using List.reverseRecOn with
  | nil =>
    rw [List.append_nil]
    exact .inl ⟨rfl, rfl, hearlier⟩
  | append_singleton calls c ih =>
    have ih := ih (fun e he => hcalls e (by rw [elements_append]; exact List.mem_append_left _ he))
      (fun now ts ht => htimers now ts (List.mem_append_left _ ht))
    rw [L.emittedFrom_concat, ← List.append_assoc, L.after_concat, elements_append, inSlot_append]
    cases c with
    | timer now ts =>
      have hts := htimers now ts (List.mem_append_right _ (List.mem_singleton.2 rfl))
      have hout : (L.call k (L.after k (earlier ++ calls)) (.timer now ts)).out = [] :=
        T.timer_out now _ ts
      have hnone : inSlot slot w (elements [Call.timer now ts]) = [] := rfl
      rw [hout, hnone, List.append_nil, List.append_nil]
      rcases ih with ⟨hes, hempty, hheld⟩ | ⟨hne, hheld, hP⟩
      · exact .inl ⟨hes, hempty, T.timer_held now _ hheld⟩
      · have hsame : (L.call k (L.after k (earlier ++ calls)) (.timer now ts)).state =
          L.after k (earlier ++ calls) := T.timer_before now hheld hts
        rw [hsame]
        exact .inr ⟨hne, hheld, hP⟩
    | event now e =>
      rw [elements_event]
      rcases hcalls e (by rw [elements_append]; exact List.mem_append_right _ List.mem_cons_self)
        with hslot | hslot
      · obtain ⟨hstate, hout⟩ := T.ignored now (L.after k (earlier ++ calls)) e hslot
        have hskip : inSlot slot w [e] = [] := by
          apply inSlot_eq_nil.2
          intro d hd
          rw [List.mem_singleton.1 hd, hslot]
          exact (Option.some_ne_none w).symm
        simp only [KeyedLogic.call, hstate, hout, hskip, List.append_nil]
        exact ih
      · have hone : inSlot slot w [e] = [e] := by
          unfold inSlot
          simp [hslot]
        rw [hone]
        refine .inr ⟨List.append_ne_nil_of_right_ne_nil _ (List.cons_ne_nil e []),
          T.entered now _ e w hslot, ?_⟩
        show P _ (_ ++ (L.onEvent now k _ e).out) (L.onEvent now k _ e).state
        rcases ih with ⟨hes, hempty, hheld⟩ | ⟨-, -, hP⟩
        · -- the first element of the window finds it as if there were nothing
          rw [hes, hempty, T.restarted now _ e w hslot hheld]
          exact hstep now [] [] _ e hslot hstart
        · exact hstep now _ _ _ e hslot hP

/-- Before an element of the window the last one was of another window, or there is nothing. -/
theorem held_of_other {before : List (Call ε)}
    (h : before = [] ∨ ∃ init now e v, before = init ++ [.event now e] ∧ slot e = some v ∧ v ≠ w) :
    T.held (L.after k before) ≠ some w := by
  rcases h with rfl | ⟨init, now, e, v, rfl, hslot, hne⟩
  · show T.held L.empty ≠ some w
    rw [T.held_empty]
    exact (Option.some_ne_none w).symm
  · rw [L.after_concat]
    show T.held (L.onEvent now k _ e).state ≠ some w
    rw [T.entered now _ e v hslot]
    exact fun h => hne (Option.some.inj h)

/-- A window is held only once an element of it has come. -/
theorem held_of_unseen (calls : List (Call ε)) (h : ∀ e ∈ elements calls, slot e ≠ some w) :
    T.held (L.after k calls) ≠ some w := by
  apply L.after_invariant k (fun s => T.held s ≠ some w) (P := fun e => slot e ≠ some w) ?_ ?_ ?_ calls h
  · rw [T.held_empty]
    exact (Option.some_ne_none w).symm
  · intro now s e hs hslot
    cases hv : slot e with
    | none =>
      rw [(T.ignored now s e hv).1]
      exact hs
    | some v =>
      rw [T.entered now s e v hv, ← hv]
      exact hslot
  · exact fun now s ts hs => T.timer_held now s hs

/-- What is shown of a window shows nothing of the calls that bring no element of it. -/
theorem shown_elsewhere {g : ο → Option α}
    (hg : ∀ now s e, slot e ≠ some w → ∀ x ∈ (L.onEvent now k s e).out, g x = none) (s : σ)
    (calls : List (Call ε)) (hcalls : ∀ e ∈ elements calls, slot e ≠ some w) :
    (L.emittedFrom k s calls).filterMap g = [] := by
  apply List.filterMap_eq_nil_iff.2
  intro x hx
  obtain ⟨s', c, hc, hx⟩ := L.mem_emittedFrom k hx
  cases c with
  | event now e => exact hg now s' e (hcalls e (List.mem_filterMap.2 ⟨_, hc, rfl⟩)) x hx
  | timer now ts =>
    have hout : (L.call k s' (.timer now ts)).out = [] := T.timer_out now s' ts
    rw [hout] at hx
    cases hx

/-- What the calls show of a window is shown by those in between, if no other bring an element of it. -/
theorem shown_between {g : ο → Option α}
    (hg : ∀ now s e, slot e ≠ some w → ∀ x ∈ (L.onEvent now k s e).out, g x = none)
    {before after : List (Call ε)} (calls : List (Call ε))
    (hbefore : ∀ e ∈ elements before, slot e ≠ some w) (hafter : ∀ e ∈ elements after, slot e ≠ some w) :
    (L.emitted k (before ++ calls ++ after)).filterMap g =
      (L.emittedFrom k (L.after k before) calls).filterMap g := by
  have hfirst : (L.emitted k before).filterMap g = [] := T.shown_elsewhere hg L.empty before hbefore
  have hlast := T.shown_elsewhere hg (L.after k (before ++ calls)) after hafter
  rw [L.emitted_append, L.emitted_append, List.filterMap_append, List.filterMap_append, hfirst, hlast,
    List.append_nil, List.nil_append]

end Tumbling

/-! ## Interruptions -/

/-- The calls since the last element of another window. -/
theorem exists_split (slot : ε → Option Int) (w : Int) (calls : List (Call ε)) :
    ∃ before since, calls = before ++ since ∧
      (∀ e ∈ elements since, slot e = none ∨ slot e = some w) ∧
      (before = [] ∨ ∃ init now e v, before = init ++ [.event now e] ∧ slot e = some v ∧ v ≠ w) := by
  induction calls using List.reverseRecOn with
  | nil => exact ⟨[], [], rfl, fun _ he => (nomatch he), .inl rfl⟩
  | append_singleton calls c ih =>
    obtain ⟨before, since, rfl, hsince, hbefore⟩ := ih
    by_cases hother : ∃ now e v, c = .event now e ∧ slot e = some v ∧ v ≠ w
    · obtain ⟨now, e, v, rfl, hslot, hne⟩ := hother
      exact ⟨_, [], (List.append_nil _).symm, fun _ he => (nomatch he), .inr ⟨_, now, e, v, rfl, hslot, hne⟩⟩
    · refine ⟨before, since ++ [c], List.append_assoc .., ?_, hbefore⟩
      intro e he
      rw [elements_append] at he
      rcases List.mem_append.1 he with he | he
      · exact hsince e he
      · cases c with
        | timer now ts => cases he
        | event now d =>
          obtain rfl := List.mem_singleton.1 he
          cases hslot : slot e with
          | none => exact .inl rfl
          | some v =>
            by_contra hne
            exact hother ⟨now, e, v, rfl, hslot, fun h => hne (.inr (congrArg some h))⟩

/-- No timer has passed the time of an element that follows it. -/
def Timely (obs : ε → Int) (calls : List (Call ε)) : Prop :=
  ∀ earlier now ts later, calls = earlier ++ .timer now ts :: later → ∀ e ∈ elements later, ts ≤ obs e

theorem Timely.of_no_timer {obs : ε → Int} {calls : List (Call ε)} (h : ∀ now ts, .timer now ts ∉ calls) :
    Timely obs calls := by
  rintro earlier now ts later rfl
  exact absurd (List.mem_append_right _ List.mem_cons_self) (h now ts)

/-- Up to an element that follows them the timers are no later than it. -/
theorem Timely.timers {obs : ε → Int} {before since after : List (Call ε)} {now : Int} {e : ε}
    (h : Timely obs (before ++ since ++ .event now e :: after)) :
    ∀ now' ts, .timer now' ts ∈ since ++ [.event now e] → ts ≤ obs e := by
  intro now' ts ht
  rcases List.mem_append.1 ht with ht | ht
  · obtain ⟨earlier, later, rfl⟩ := List.append_of_mem ht
    apply h (before ++ earlier) now' ts (later ++ .event now e :: after)
    · simp
    · rw [elements_append]
      exact List.mem_append_right _ List.mem_cons_self
  · cases List.mem_singleton.1 ht

theorem sublist_of_head_notMem {x : ε} {l before after : List ε} (hx : x ∉ before)
    (h : (x :: l).Sublist (before ++ after)) : (x :: l).Sublist after := by
  induction before with
  | nil => exact h
  | cons a before ih =>
    rcases List.cons_sublist_cons'.1 h with h | ⟨rfl, -⟩
    · exact ih (fun hmem => hx (List.mem_cons_of_mem _ hmem)) h
    · exact absurd List.mem_cons_self hx

theorem sublist_of_last_notMem {z : ε} {l before after : List ε} (hz : z ∉ after)
    (h : (l ++ [z]).Sublist (before ++ after)) : (l ++ [z]).Sublist before := by
  have hreverse := List.reverse_sublist.2 h
  rw [List.reverse_append, List.reverse_append] at hreverse
  apply List.reverse_sublist.1
  rw [List.reverse_append]
  exact sublist_of_head_notMem (fun hmem => hz (List.mem_reverse.1 hmem)) hreverse

/-- The elements of a window come without another one between them. -/
def Uninterrupted (inside : ε → Prop) (es : List ε) : Prop :=
  ∀ x y z, [x, y, z].Sublist es → inside x → inside z → inside y

/-- Of elements up to the last one of the window: they are uninterrupted when none of the window is before
the last one of another. -/
theorem uninterrupted_iff {inside : ε → Prop} {before since after : List ε}
    (hbefore : before = [] ∨ ∃ init e, before = init ++ [e] ∧ ¬ inside e)
    (hsince : ∀ e ∈ since, inside e) (hne : since ≠ []) (hafter : ∀ e ∈ after, ¬ inside e) :
    Uninterrupted inside (before ++ since ++ after) ↔ ∀ e ∈ before, ¬ inside e := by
  constructor
  · intro h x hx hin
    rcases hbefore with rfl | ⟨init, y, rfl, hout⟩
    · cases hx
    · have hxinit : x ∈ init := by
        rcases List.mem_append.1 hx with hx | hx
        · exact hx
        · exact absurd (List.mem_singleton.1 hx ▸ hin) hout
      obtain ⟨z, hz⟩ := List.exists_mem_of_ne_nil since hne
      apply hout
      refine h x y z ?_ hin (hsince z hz)
      have hxy : [x, y].Sublist (init ++ [y]) := (List.singleton_sublist.2 hxinit).append_right [y]
      exact (hxy.append (List.singleton_sublist.2 hz)).trans (List.sublist_append_left _ _)
  · intro hnone x y z hsub hx hz
    rw [List.append_assoc] at hsub
    -- the first is not before, and the last is not after
    have hrest := sublist_of_head_notMem (fun hmem => hnone x hmem hx) hsub
    have hin : ([x, y] ++ [z]).Sublist since :=
      sublist_of_last_notMem (fun hmem => hafter z hmem hz) hrest
    exact hsince y (hin.subset (by simp))

end OTS
