import OTSecurity.Lib.Keyed

/-!
# What a state carries

A logic may begin its value state anew, for some elements that find it: what the state carries are the
elements since then, or since a timer cleared it.

* `Logic.carried` — the elements that the value state carries.

Principal results: `carried_invariant` — what each element keeps, begun anew or not, holds of the state and
the elements it carries; `carried_suffix` — these are the last of all elements.
-/

namespace OTS.Logic

variable {ε σ ο : Type} (L : Logic ε σ ο) (restarts : Option σ → ε → Bool)

/-- One more call: the value state, and the elements that it carries. -/
def carriedStep (r : Option σ × List ε) (c : Call ε) : Option σ × List ε :=
  ((L.call r.1 c).value,
    match c with
    | .event _ e => if restarts r.1 e then [e] else r.2 ++ [e]
    | .timer _ _ => if (L.call r.1 c).value.isSome then r.2 else [])

/-- The elements that the value state carries. -/
def carried (calls : List (Call ε)) : List ε := (calls.foldl (L.carriedStep restarts) (none, [])).2

variable {L restarts}

theorem carried_value (calls : List (Call ε)) :
    (calls.foldl (L.carriedStep restarts) (none, [])).1 = L.valueAfter none calls := by
  induction calls using List.reverseRecOn with
  | nil => rfl
  | append_singleton calls c ih =>
    rw [List.foldl_append, valueAfter_concat, ← ih]
    rfl

theorem carried_event (calls : List (Call ε)) (now : Int) (e : ε) :
    L.carried restarts (calls ++ [.event now e]) =
      if restarts (L.valueAfter none calls) e then [e] else L.carried restarts calls ++ [e] := by
  rw [← carried_value calls]
  unfold carried
  rw [List.foldl_append]
  rfl

theorem carried_timer (calls : List (Call ε)) (now ts : Int) :
    L.carried restarts (calls ++ [.timer now ts]) =
      if (L.valueAfter none (calls ++ [.timer now ts])).isSome then L.carried restarts calls else [] := by
  rw [valueAfter_concat, ← carried_value calls]
  unfold carried
  rw [List.foldl_append]
  rfl

/-- What holds of no state, of a state begun anew, and survives each other element, holds of the state and
the elements it carries. -/
theorem carried_invariant (hclears : L.Clears) {P : List ε → Option σ → Prop} (hnone : P [] none)
    (hbegin : ∀ now v e, restarts v e = true → P [e] (L.onEvent now v e).value)
    (hevent : ∀ now es v e, restarts v e = false → P es v → P (es ++ [e]) (L.onEvent now v e).value)
    (calls : List (Call ε)) : P (L.carried restarts calls) (L.valueAfter none calls) := by
  induction calls using List.reverseRecOn with
  | nil => exact hnone
  | append_singleton calls c ih =>
    cases c with
    | event now e =>
      rw [carried_event, valueAfter_concat]
      cases hr : restarts (L.valueAfter none calls) e with
      | true => exact hbegin now _ e hr
      | false => exact hevent now _ _ e hr ih
    | timer now ts =>
      rw [carried_timer, valueAfter_concat]
      show P (if (L.onTimer now (L.valueAfter none calls) ts).value.isSome then L.carried restarts calls
        else []) (L.onTimer now (L.valueAfter none calls) ts).value
      cases hv : (L.onTimer now (L.valueAfter none calls) ts).value with
      | none => exact hnone
      | some s =>
        rcases hclears now (L.valueAfter none calls) ts with h | h
        · cases hv.symm.trans h
        · have hsame : L.valueAfter none calls = some s := h.symm.trans hv
          simpa [hsame] using ih

/-- They are the last of all elements. -/
theorem carried_suffix (calls : List (Call ε)) :
    L.carried restarts calls <:+ calls.filterMap Call.element := by
  induction calls using List.reverseRecOn with
  | nil => exact List.suffix_refl _
  | append_singleton calls c ih =>
    rw [List.filterMap_append]
    cases c with
    | event now e =>
      rw [carried_event]
      show (if restarts (L.valueAfter none calls) e then [e] else _) <:+
        calls.filterMap Call.element ++ [e]
      split
      · exact List.suffix_append _ _
      · exact (List.suffix_append_inj_of_length_eq rfl).2 ⟨ih, rfl⟩
    | timer now ts =>
      rw [carried_timer]
      show (if (L.valueAfter none (calls ++ [.timer now ts])).isSome then _ else []) <:+
        calls.filterMap Call.element ++ []
      rw [List.append_nil]
      split
      · exact ih
      · exact List.nil_suffix

end OTS.Logic
