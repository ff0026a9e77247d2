import Mathlib.Data.List.Count
import Mathlib.Data.List.Induction
import OTSecurity.Lib.ODict

/-!
# Counting

A dictionary of counts, one for each member of a list, none for anything else; and a collector that holds the
distinct parts seen since the last completion and counts completions: with `c` parts to a whole, the `c`-th distinct
part completes it and empties the collector.

* `Tallies counts js` — the count of a key is the number of its occurrences in `js`, and a key that does
  not occur is absent.
* `Tallies.cons`, `Tallies.erase`, `Tallies.lower` — a member more; one less, the last of its kind or not.
* `Tallies.isNone_iff` — a key is absent when it does not occur.
* `nodup_hold` — no part is held twice; `collected_distinct` — distinct parts, fewer than `c`, are all held.
* `collected_once` — parts that each arrive once complete the whole exactly once.
-/

namespace OTS

variable {κ : Type} [DecidableEq κ]

/-- The counts are those of the members of `js`. -/
def Tallies (counts : ODict κ Int) (js : List κ) : Prop :=
  ∀ j, counts.get? j = if j ∈ js then some (js.count j : Int) else none

namespace Tallies

variable {counts : ODict κ Int} {js ks : List κ} {k : κ}

theorem nil : Tallies (.empty : ODict κ Int) [] := fun _ => rfl

theorem perm (h : Tallies counts js) (hperm : js.Perm ks) : Tallies counts ks := by
  intro j
  rw [h j, hperm.count_eq j]
  simp only [hperm.mem_iff]

theorem mem_keys (h : Tallies counts js) (j : κ) : j ∈ counts.keys ↔ j ∈ js := by
  rw [← ODict.get?_isSome, h j]
  split <;> simp_all

theorem isNone_iff (h : Tallies counts js) (j : κ) : (counts.get? j).isNone ↔ j ∉ js := by
  rw [← h.mem_keys, ← ODict.get?_eq_none, Option.isNone_iff_eq_none]

theorem getD_zero (h : Tallies counts js) (j : κ) : (counts.get? j).getD 0 = js.count j := by
  rw [h j]
  split
  · rfl
  · rename_i hj
    rw [List.count_eq_zero.2 hj]
    rfl

/-- One member more. -/
theorem cons (h : Tallies counts js) (k : κ) :
    Tallies (counts.set k ((counts.get? k).getD 0 + 1)) (k :: js) := by
  intro j
  rw [ODict.get?_set, h.getD_zero]
  by_cases hj : j = k
  · subst hj
    simp
  · rw [if_neg hj, List.count_cons_of_ne (fun hkj => hj hkj.symm), h j]
    simp [hj]

theorem length_cons (h : Tallies counts js) (k : κ) (v : Int) :
    (counts.set k v).length = if k ∈ js then counts.length else counts.length + 1 := by
  rw [ODict.length_set]
  simp only [h.mem_keys]

/-- One member less, the last of its kind. -/
theorem erase (h : Tallies counts (k :: js)) (hk : k ∉ js) : Tallies (counts.erase k) js := by
  intro j
  rw [ODict.get?_erase]
  by_cases hj : j = k
  · rw [if_pos hj, hj, if_neg hk]
  · rw [if_neg hj, h j, List.count_cons_of_ne (fun hkj => hj hkj.symm)]
    simp [hj]

/-- One member less of several. -/
theorem lower (h : Tallies counts (k :: js)) (hk : k ∈ js) :
    Tallies (counts.set k (js.count k)) js := by
  intro j
  rw [ODict.get?_set]
  by_cases hj : j = k
  · rw [if_pos hj, hj, if_pos hk]
  · rw [if_neg hj, h j, List.count_cons_of_ne (fun hkj => hj hkj.symm)]
    simp [hj]

theorem length_erase (h : Tallies counts (k :: js)) : (counts.erase k).length + 1 = counts.length :=
  ODict.length_erase counts ((h.mem_keys k).2 List.mem_cons_self)

theorem length_lower (h : Tallies counts (k :: js)) (v : Int) :
    (counts.set k v).length = counts.length := by
  rw [ODict.length_set, if_pos ((h.mem_keys k).2 List.mem_cons_self)]

end Tallies

/-! ## Collecting the parts of a whole -/

/-- The parts held once part `i` has arrived. -/
def hold (held : List Nat) (i : Nat) : List Nat := if i ∈ held then held else held ++ [i]

/-- One part arrives: `(held, completions)`. -/
def collect (c : Nat) (st : List Nat × Nat) (i : Nat) : List Nat × Nat :=
  if (hold st.1 i).length = c then ([], st.2 + 1) else (hold st.1 i, st.2)

def collected (c : Nat) (parts : List Nat) : List Nat × Nat := parts.foldl (collect c) ([], 0)

theorem collected_append (c : Nat) (parts : List Nat) (i : Nat) :
    collected c (parts ++ [i]) = collect c (collected c parts) i := by
  simp [collected]

theorem hold_of_notMem {held : List Nat} {i : Nat} (h : i ∉ held) : hold held i = held ++ [i] :=
  if_neg h

theorem mem_hold {held : List Nat} {i j : Nat} : j ∈ hold held i ↔ j = i ∨ j ∈ held := by
  unfold hold
  split
  · rename_i hi; exact ⟨.inr, fun h => h.elim (fun e => e ▸ hi) id⟩
  · simp [or_comm]

theorem nodup_hold {held : List Nat} {i : Nat} (h : held.Nodup) : (hold held i).Nodup := by
  by_cases hi : i ∈ held
  · rw [hold, if_pos hi]; exact h
  · rw [hold_of_notMem hi, List.nodup_append]
    refine ⟨h, by simp, ?_⟩
    intro a ha b hb
    rw [List.mem_singleton] at hb
    subst hb
    exact fun e => hi (e ▸ ha)

theorem length_hold_le (held : List Nat) (i : Nat) : (hold held i).length ≤ held.length + 1 := by
  unfold hold
  split <;> simp

/-- Distinct parts, too few of them: all are held, nothing is complete. -/
theorem collected_distinct {c : Nat} {parts : List Nat} (hn : parts.Nodup)
    (hl : parts.length < c) : collected c parts = (parts, 0) := by
  induction parts using List.reverseRecOn with
  | nil => rfl
  | append_singleton parts i ih =>
    obtain ⟨h1, _, h3⟩ := List.nodup_append.1 hn
    have hi : i ∉ parts := fun h => h3 i h i (by simp) rfl
    rw [List.length_append, List.length_singleton] at hl
    rw [collected_append, ih h1 (by omega), collect, hold_of_notMem hi]
    rw [if_neg (by simp; omega)]

/-- **Parts that each arrive once complete the whole exactly once.** -/
theorem collected_once {c : Nat} {parts : List Nat} (hn : parts.Nodup) (hl : parts.length = c)
    (hc : 0 < c) : collected c parts = ([], 1) := by
  induction parts using List.reverseRecOn with
  | nil => simp at hl; omega
  | append_singleton parts i _ =>
    obtain ⟨h1, _, h3⟩ := List.nodup_append.1 hn
    have hi : i ∉ parts := fun h => h3 i h i (by simp) rfl
    rw [collected_append, collected_distinct h1 (by simp at hl; omega), collect, hold_of_notMem hi]
    rw [if_pos hl]

end OTS
