import OTSecurity.Lib.Carried

/-!
# Rationed output

A logic that shows something of an element at most once in an interval: its value state keeps the time of
the last element that was shown.

* `Ration` — what one element shows, given the time that is kept; `Logic.Rations` — a logic that keeps to
  it.
* `Logic.dropped` — the elements that the value state no longer carries.
* `Logic.NoneRevisited` — no element has the time of one that was dropped before.

Principal result: `Rations.nodup` — then no time is shown twice.
-/

namespace OTS

/-- An element of the time `t` shows nothing, or its time, if the one that is kept is old enough. -/
def Ration (t interval : Int) (kept kept' : Option Int) (shown : List Int) : Prop :=
  (shown = [] ∧ kept' = kept) ∨ (shown = [t] ∧ kept' = some t ∧ ∀ u ∈ kept, u + interval ≤ t)

namespace Logic

variable {ε σ ο : Type} (L : Logic ε σ ο) (restarts : Option σ → ε → Bool)

/-- The elements that the value state no longer carries. -/
def dropped (calls : List (Call ε)) : List ε :=
  (calls.filterMap Call.element).take
    ((calls.filterMap Call.element).length - (L.carried restarts calls).length)

variable (obs : ε → Int) (shown : ο → Option Int) (interval : Int) (memory : σ → Option Int)

/-- Elements show their time as their ration allows; a state that is begun anew keeps no time. -/
structure Rations : Prop where
  event : ∀ now v e, Ration (obs e) interval (if restarts v e then none else v.bind memory)
    ((L.onEvent now v e).value.bind memory) ((L.onEvent now v e).out.filterMap shown)
  timer : ∀ now v ts, (L.onTimer now v ts).out.filterMap shown = [] ∧
    ((L.onTimer now v ts).value = none ∨ (L.onTimer now v ts).value.bind memory = v.bind memory)

/-- No element has the time of one that was dropped before. -/
def NoneRevisited (calls : List (Call ε)) : Prop :=
  ∀ past now e, past ++ [.event now e] <+: calls →
    ∀ e' ∈ L.dropped restarts (past ++ [.event now e]), obs e' ≠ obs e

variable {L restarts obs shown interval memory}

theorem dropped_append_carried (calls : List (Call ε)) :
    L.dropped restarts calls ++ L.carried restarts calls = calls.filterMap Call.element := by
  obtain ⟨before, h⟩ := @carried_suffix _ _ _ L restarts calls
  unfold dropped
  rw [← h, List.length_append, Nat.add_sub_cancel, List.take_left]

theorem dropped_event (calls : List (Call ε)) (now : Int) (e : ε) :
    L.dropped restarts (calls ++ [.event now e]) =
      if restarts (L.valueAfter none calls) e then calls.filterMap Call.element
      else L.dropped restarts calls := by
  have hall := @dropped_append_carried _ _ _ L restarts (calls ++ [.event now e])
  rw [carried_event, List.filterMap_append] at hall
  have hone : [Call.event now e].filterMap Call.element = [e] := rfl
  rw [hone] at hall
  split
  · rename_i hr
    rw [if_pos hr] at hall
    exact List.append_cancel_right hall
  · rename_i hr
    rw [if_neg hr, ← List.append_assoc] at hall
    rw [← @dropped_append_carried _ _ _ L restarts calls] at hall
    exact List.append_cancel_right (List.append_cancel_right hall)

theorem dropped_timer (calls : List (Call ε)) (now ts : Int) :
    L.dropped restarts (calls ++ [.timer now ts]) =
      if (L.valueAfter none (calls ++ [.timer now ts])).isSome then L.dropped restarts calls
      else calls.filterMap Call.element := by
  have hall := @dropped_append_carried _ _ _ L restarts (calls ++ [.timer now ts])
  rw [carried_timer, List.filterMap_append] at hall
  have hnone : [Call.timer now ts].filterMap (Call.element (ε := ε)) = [] := rfl
  rw [hnone, List.append_nil] at hall
  split
  · rename_i hsome
    rw [if_pos hsome, ← @dropped_append_carried _ _ _ L restarts calls] at hall
    exact List.append_cancel_right hall
  · rename_i hclear
    rw [if_neg hclear, List.append_nil] at hall
    exact hall

/-- Elements of different times are not revisited. -/
theorem noneRevisited_of_nodup {calls : List (Call ε)} (h : ((calls.filterMap Call.element).map obs).Nodup) :
    L.NoneRevisited restarts obs calls := by
  intro past now e hpast e' he' hobs
  have hbefore : e' ∈ past.filterMap Call.element := by
    rw [dropped_event] at he'
    split at he'
    · exact he'
    · rw [← @dropped_append_carried _ _ _ L restarts past]
      exact List.mem_append_left _ he'
  have hnodup := ((hpast.filterMap Call.element).map obs).sublist.nodup h
  rw [List.filterMap_append, List.map_append, List.nodup_append] at hnodup
  apply hnodup.2.2 (obs e') (List.mem_map_of_mem hbefore) (obs e) ?_ hobs
  exact List.mem_singleton.2 rfl

/-- What was shown: the times of dropped elements, and then of carried ones, no later than the time that
is kept. -/
structure Showing (L : Logic ε σ ο) (restarts : Option σ → ε → Bool) (obs : ε → Int)
    (memory : σ → Option Int) (calls : List (Call ε)) (before since : List Int) : Prop where
  ofDropped : ∀ t ∈ before, ∃ e ∈ L.dropped restarts calls, obs e = t
  ofCarried : ∀ t ∈ since, ∃ e ∈ L.carried restarts calls, obs e = t
  kept : ∀ t ∈ since, ∃ u ∈ (L.valueAfter none calls).bind memory, t ≤ u
  nodup : (before ++ since).Nodup

section Step

variable {calls : List (Call ε)} {before since : List Int}

theorem Showing.ofElement (h : Showing L restarts obs memory calls before since) :
    ∀ t ∈ before ++ since, ∃ e ∈ calls.filterMap Call.element, obs e = t := by
  intro t ht
  rw [← @dropped_append_carried _ _ _ L restarts calls]
  rcases List.mem_append.1 ht with ht | ht
  · obtain ⟨e, he, hobs⟩ := h.ofDropped t ht
    exact ⟨e, List.mem_append_left _ he, hobs⟩
  · obtain ⟨e, he, hobs⟩ := h.ofCarried t ht
    exact ⟨e, List.mem_append_right _ he, hobs⟩

/-- A timer leaves the state, or what was shown is of dropped elements then. -/
theorem Showing.timer (h : Showing L restarts obs memory calls before since) {now ts : Int}
    (hvalue : (L.onTimer now (L.valueAfter none calls) ts).value = none ∨
      (L.onTimer now (L.valueAfter none calls) ts).value.bind memory =
        (L.valueAfter none calls).bind memory) :
    ∃ before' since', before' ++ since' = before ++ since ∧
      Showing L restarts obs memory (calls ++ [.timer now ts]) before' since' := by
  have hafter : L.valueAfter none (calls ++ [.timer now ts]) =
      (L.onTimer now (L.valueAfter none calls) ts).value := valueAfter_concat ..
  cases hv : (L.onTimer now (L.valueAfter none calls) ts).value with
  | none =>
    refine ⟨before ++ since, [], List.append_nil _, ?_, by simp, by simp, ?_⟩
    · rw [dropped_timer, hafter, hv]
      exact h.ofElement
    · rw [List.append_nil]
      exact h.nodup
  | some s =>
    have hkept := hvalue.resolve_left fun hnone => by cases hv.symm.trans hnone
    refine ⟨before, since, rfl, ?_, ?_, ?_, h.nodup⟩
    · rw [dropped_timer, hafter, hv]
      exact h.ofDropped
    · rw [carried_timer, hafter, hv]
      exact h.ofCarried
    · rw [hafter, hkept]
      exact h.kept

/-- An element that goes on with the state or begins it anew: what was shown before it. -/
theorem Showing.event (h : Showing L restarts obs memory calls before since) (now : Int) (e : ε) :
    ∃ before' since', before' ++ since' = before ++ since ∧
      (∀ t ∈ before', ∃ e' ∈ L.dropped restarts (calls ++ [.event now e]), obs e' = t) ∧
      (∀ t ∈ since', ∃ e' ∈ L.carried restarts (calls ++ [.event now e]), obs e' = t) ∧
      ∀ t ∈ since', ∃ u ∈ (if restarts (L.valueAfter none calls) e then none
        else (L.valueAfter none calls).bind memory), t ≤ u := by
  rw [dropped_event, carried_event]
  cases hr : restarts (L.valueAfter none calls) e with
  | true => exact ⟨before ++ since, [], List.append_nil _, h.ofElement, by simp, by simp⟩
  | false =>
    refine ⟨before, since, rfl, h.ofDropped, ?_, h.kept⟩
    intro t ht
    obtain ⟨e', he', hobs⟩ := h.ofCarried t ht
    exact ⟨e', List.mem_append_left _ he', hobs⟩

end Step

/-- **No time is shown twice** if no element has the time of one that was dropped before. -/
theorem Rations.nodup (h : L.Rations restarts obs shown interval memory) (hpos : 0 < interval)
    (calls : List (Call ε)) (hnone : L.NoneRevisited restarts obs calls) :
    ((L.emitted none calls).filterMap shown).Nodup := by
  suffices ∃ before since, (L.emitted none calls).filterMap shown = before ++ since ∧
      Showing L restarts obs memory calls before since by
    obtain ⟨before, since, hall, hshowing⟩ := this
    rw [hall]
    exact hshowing.nodup
  induction calls using List.reverseRecOn with
  | nil => exact ⟨[], [], rfl, by simp, by simp, by simp, List.nodup_nil⟩
  | append_singleton calls c ih =>
    obtain ⟨before, since, hall, hs⟩ :=
      ih fun past now e hpre => hnone past now e (hpre.trans (List.prefix_append _ _))
    rw [emitted_concat, List.filterMap_append, hall]
    cases c with
    | timer now ts =>
      obtain ⟨hquiet, hvalue⟩ := h.timer now (L.valueAfter none calls) ts
      obtain ⟨before', since', heq, hshowing⟩ := hs.timer hvalue
      refine ⟨before', since', ?_, hshowing⟩
      rw [heq]
      exact (congrArg _ hquiet).trans (List.append_nil _)
    | event now e =>
      have hnew := hnone calls now e (List.prefix_refl _)
      have hafter : L.valueAfter none (calls ++ [.event now e]) =
          (L.onEvent now (L.valueAfter none calls) e).value := valueAfter_concat ..
      obtain ⟨before', since', heq, hbefore, hsince, hkept⟩ := hs.event now e
      rw [← heq]
      show ∃ before since, _ ++ (L.onEvent now (L.valueAfter none calls) e).out.filterMap shown = _ ∧ _
      rcases h.event now (L.valueAfter none calls) e with ⟨hout, hmemory⟩ | ⟨hout, hmemory, hold⟩
      · refine ⟨before', since', by rw [hout, List.append_nil], hbefore, hsince, ?_, heq ▸ hs.nodup⟩
        rw [hafter, hmemory]
        exact hkept
      · -- the time is later than all that the state knows of, and none of the others is revisited
        have hlater : ∀ t ∈ since', t < obs e := by
          intro t ht
          obtain ⟨u, hu, hle⟩ := hkept t ht
          have hgap := hold u hu
          omega
        refine ⟨before', since' ++ [obs e], by rw [hout, List.append_assoc], hbefore, ?_, ?_, ?_⟩
        · intro t ht
          rcases List.mem_append.1 ht with ht | ht
          · exact hsince t ht
          · refine ⟨e, ?_, (List.mem_singleton.1 ht).symm⟩
            rw [carried_event]
            split
            · exact List.mem_singleton.2 rfl
            · exact List.mem_append_right _ (List.mem_singleton.2 rfl)
        · intro t ht
          refine ⟨obs e, by rw [hafter, hmemory]; rfl, ?_⟩
          rcases List.mem_append.1 ht with ht | ht
          · exact le_of_lt (hlater t ht)
          · exact le_of_eq (List.mem_singleton.1 ht)
        · rw [← List.append_assoc, List.nodup_append]
          refine ⟨heq ▸ hs.nodup, List.nodup_singleton _, ?_⟩
          rintro t ht u hu rfl
          rw [List.mem_singleton.1 hu] at ht
          rcases List.mem_append.1 ht with ht | ht
          · obtain ⟨e', he', hobs⟩ := hbefore _ ht
            exact hnew e' he' hobs
          · exact absurd (hlater _ ht) (lt_irrefl _)

end Logic

end OTS
