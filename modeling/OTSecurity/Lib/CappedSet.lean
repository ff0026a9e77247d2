import Mathlib.Data.List.Dedup
import Mathlib.Data.List.Perm.Subperm

/-!
# Sets with a cap

What is kept of a sequence when each new member is added until there are `cap` of them, and a flag is
raised once one has been turned away.

* `CappedSet cap keys full seen` — `keys` and the flag `full` are what is kept of `seen`.
* `firsts` — the first members, up to a cap.
* `CappedSet.again`, `CappedSet.turnedAway`, `CappedSet.room` — a member that is kept already; one for which
  there is no room; one that is added.
-/

namespace OTS

variable {α : Type} [DecidableEq α] {cap : Nat} {keys seen : List α} {full : Bool} {x : α}

/-- Members of what was seen, each once and all of them up to the cap; the flag tells if there were more. -/
structure CappedSet (cap : Nat) (keys : List α) (full : Bool) (seen : List α) : Prop where
  nodup : keys.Nodup
  subset : keys ⊆ seen
  length : keys.length = min cap seen.dedup.length
  full : full = true ↔ cap < seen.dedup.length

theorem length_dedup_concat (seen : List α) (x : α) :
    (seen ++ [x]).dedup.length = if x ∈ seen then seen.dedup.length else seen.dedup.length + 1 := by
  have hperm : (seen ++ [x]).dedup.Perm (x :: seen).dedup := (List.perm_append_singleton x seen).dedup
  rw [hperm.length_eq]
  split
  · rename_i hx
    rw [List.dedup_cons_of_mem hx]
  · rename_i hx
    rw [List.dedup_cons_of_notMem hx, List.length_cons]

/-- Distinct members of what was seen are no more than there are. -/
theorem length_le_dedup (hnodup : keys.Nodup) (hsub : keys ⊆ seen) :
    keys.length ≤ seen.dedup.length := by
  exact (List.subperm_of_subset hnodup fun x hx => List.mem_dedup.2 (hsub hx)).length_le

namespace CappedSet

theorem nil : CappedSet cap ([] : List α) false [] where
  nodup := List.nodup_nil
  subset := List.nil_subset _
  length := by simp
  full := by simp

theorem again (h : CappedSet cap keys full seen) (hx : x ∈ keys) :
    CappedSet cap keys full (seen ++ [x]) := by
  have hlength := length_dedup_concat seen x
  rw [if_pos (h.subset hx)] at hlength
  constructor
  · exact h.nodup
  · exact fun y hy => List.mem_append_left _ (h.subset hy)
  · rw [hlength]
    exact h.length
  · rw [hlength]
    exact h.full

theorem turnedAway (h : CappedSet cap keys full seen) (hx : x ∉ keys) (hcap : cap ≤ keys.length) :
    CappedSet cap keys true (seen ++ [x]) := by
  have hsub : x :: keys ⊆ seen ++ [x] := by
    intro y hy
    rcases List.mem_cons.1 hy with rfl | hy
    · exact List.mem_append_right _ (List.mem_singleton.2 rfl)
    · exact List.mem_append_left _ (h.subset hy)
  have hmore := length_le_dedup (List.nodup_cons.2 ⟨hx, h.nodup⟩) hsub
  have hlength := h.length
  rw [List.length_cons] at hmore
  constructor
  · exact h.nodup
  · exact fun y hy => List.mem_append_left _ (h.subset hy)
  · omega
  · exact ⟨fun _ => by omega, fun _ => rfl⟩

theorem room (h : CappedSet cap keys full seen) (hx : x ∉ keys) (hcap : keys.length < cap) :
    CappedSet cap (keys ++ [x]) full (seen ++ [x]) := by
  have hlength := h.length
  -- below the cap everything that was seen is kept
  have hall : keys.length = seen.dedup.length := by omega
  have hperm : keys.Perm seen.dedup := by
    apply (List.subperm_of_subset h.nodup fun y hy => List.mem_dedup.2 (h.subset hy)).perm_of_length_le
    omega
  have hnew : x ∉ seen := fun hmem => hx (hperm.mem_iff.2 (List.mem_dedup.2 hmem))
  have hdedup := length_dedup_concat seen x
  rw [if_neg hnew] at hdedup
  have hfull := h.full
  constructor
  · apply List.nodup_append.2
    exact ⟨h.nodup, List.nodup_singleton x, fun y hy z hz heq =>
      hx (List.mem_singleton.1 hz ▸ heq ▸ hy)⟩
  · exact List.append_subset.2 ⟨fun y hy => List.mem_append_left _ (h.subset hy),
      List.subset_append_right _ _⟩
  · rw [List.length_append, List.length_singleton]
    omega
  · rw [hfull]
    omega

end CappedSet

/-! ## The first members -/

/-- The first `cap` distinct members, in the order in which they were first seen. -/
def firsts (cap : Nat) (seen : List α) : List α := seen.eraseDups.take cap

theorem firsts_nil : firsts cap ([] : List α) = [] := List.take_nil

theorem eraseDups_concat (seen : List α) (x : α) :
    (seen ++ [x]).eraseDups = if x ∈ seen then seen.eraseDups else seen.eraseDups ++ [x] := by
  rw [List.eraseDups_append]
  split
  · rename_i hx
    have hnone : [x].removeAll seen = [] := by simp [List.removeAll, hx]
    rw [hnone, List.eraseDups_nil, List.append_nil]
  · rename_i hx
    have hone : [x].removeAll seen = [x] := by simp [List.removeAll, hx]
    rw [hone]
    rfl

/-- **One member more**: it is among the first if it is new and there is room. -/
theorem firsts_concat (seen : List α) (x : α) :
    firsts cap (seen ++ [x]) =
      if x ∉ firsts cap seen ∧ (firsts cap seen).length < cap then firsts cap seen ++ [x]
      else firsts cap seen := by
  unfold firsts
  rw [eraseDups_concat, List.length_take]
  by_cases hroom : seen.eraseDups.length < cap
  · have hall : seen.eraseDups.take cap = seen.eraseDups := List.take_of_length_le (by omega)
    by_cases hx : x ∈ seen
    · rw [if_pos hx, hall, if_neg fun h => h.1 (List.mem_eraseDups.2 hx)]
    · have hnew : x ∉ seen.eraseDups := fun h => hx (List.mem_eraseDups.1 h)
      rw [if_neg hx, hall, if_pos ⟨hnew, by omega⟩]
      exact List.take_of_length_le (by rw [List.length_append, List.length_singleton]; omega)
  · have hfull : ¬ (x ∉ seen.eraseDups.take cap ∧ min cap seen.eraseDups.length < cap) := by
      rintro ⟨-, hlt⟩
      omega
    rw [if_neg hfull]
    split
    · rfl
    · exact List.take_append_of_le_length (by omega)

end OTS
