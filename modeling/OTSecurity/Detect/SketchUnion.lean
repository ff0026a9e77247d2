import Mathlib.Data.List.GetD
import OTSecurity.Detect.Sketch

/-!
# Sketches as sets

What `Cardinality.add` and `Cardinality.merge` of `flink/sih_detect/common.py` make of sets of items.

* `ofItems` — `add` of each item in turn.
* `Same` — the same state, up to the order of the exact list.
* `Holds.same` — states of the same set are the same, whichever way they came about.
* `Homomorphism` — `ofItems` takes unions of sets to `merge`; `sketch_homomorphism` — it is one for every
  hash.
-/

namespace OTS.Detect.Cardinality

variable (maths : Maths)

/-- `add` of each item in turn, from `new`. -/
def ofItems (items : List String) : Cardinality := items.foldl (add maths) new

/-- The same state, up to the order of the exact list. -/
structure Same (s t : Cardinality) : Prop where
  hll : s.hll = t.hll
  set : s.set.Perm t.set

variable {maths} {regs regs' : List Nat} {items more : List String} {s t u : Cardinality}

theorem Same.symm (h : Same s t) : Same t s := ⟨h.hll.symm, h.set.symm⟩

theorem Same.trans (h : Same s t) (h' : Same t u) : Same s u :=
  ⟨h.hll.trans h'.hll, h.set.trans h'.set⟩

/-! ## Registers -/

theorem zeros_le (n : Nat) (w : BitVec 64) : zeros n w ≤ n := by
  induction n generalizing w with
  | zero => exact Nat.le_refl 0
  | succ n ih =>
    rw [zeros]
    split
    · exact Nat.zero_le _
    · exact Nat.succ_le_succ (ih _)

/-- `rho` is at most 57, whatever the hash. -/
theorem rank_le (item : String) : rank maths item ≤ 57 := by
  unfold rank
  have := zeros_le 56 (maths.hash64 item <<< 8)
  omega

theorem Registers.le (h : Registers maths regs items) : ∀ r ∈ regs, r ≤ 57 := by
  intro r hr
  obtain ⟨i, hi, rfl⟩ := List.getElem_of_mem hr
  have hle := (h.le_iff i (h.length ▸ hi) 57).2 fun x _ _ => rank_le x
  rwa [List.getD_eq_getElem _ _ hi] at hle

/-- The registers of a set are determined by it. -/
theorem Registers.unique (h : Registers maths regs items) (h' : Registers maths regs' items) :
    regs = regs' := by
  apply List.ext_getElem (h.length.trans h'.length.symm)
  intro i hi hi'
  have hM : i < M := h.length ▸ hi
  rw [← List.getD_eq_getElem _ 0 hi, ← List.getD_eq_getElem _ 0 hi']
  apply Nat.le_antisymm
  · exact (h.le_iff i hM _).2 ((h'.le_iff i hM _).1 (Nat.le_refl _))
  · exact (h'.le_iff i hM _).2 ((h.le_iff i hM _).1 (Nat.le_refl _))

/-! ## One state for each set -/

/-- A state is exact if and only if its set has at most `EXACT_CAP` members. -/
theorem Holds.hll_none_iff (h : s.Holds maths items) :
    s.hll = none ↔ items.dedup.length ≤ EXACT_CAP := by
  constructor
  · intro hnone
    simp only [Holds, hnone] at h
    obtain ⟨hnodup, hlength, hmem⟩ := h
    rw [← hnodup.dedup] at hlength
    exact (dedup_length_le fun x hx => (hmem x).2 hx).trans hlength
  · exact fun hfew => (h.exact hfew).1

/-- States of the same set are the same. -/
theorem Holds.same (h : s.Holds maths items) (h' : t.Holds maths more)
    (hsame : ∀ x, x ∈ items ↔ x ∈ more) : Same s t := by
  have h := h.congr hsame
  by_cases hfew : more.dedup.length ≤ EXACT_CAP
  · obtain ⟨hs, hperm⟩ := h.exact hfew
    obtain ⟨ht, hperm'⟩ := h'.exact hfew
    exact ⟨hs.trans ht.symm, hperm.trans hperm'.symm⟩
  · obtain ⟨regs, hs⟩ := Option.ne_none_iff_exists'.1 (hfew ∘ h.hll_none_iff.1)
    obtain ⟨regs', ht⟩ := Option.ne_none_iff_exists'.1 (hfew ∘ h'.hll_none_iff.1)
    simp only [Holds, hs] at h
    simp only [Holds, ht] at h'
    constructor
    · rw [hs, ht, h.2.2.unique h'.2.2]
    · rw [h.1, h'.1]

variable (maths) in
theorem holds_ofItems (items : List String) : (ofItems maths items).Holds maths items := by
  have hnew : new.Holds maths [] := holds_new
  have h := hnew.addAll items
  rwa [List.nil_append] at h

/-- Merged states of sets make a state of their union. -/
theorem holds_merge_ofItems (lists : List (List String)) :
    (merge maths (lists.map (ofItems maths))).Holds maths lists.flatten := by
  have h := holds_merge lists (ofItems maths) id fun items _ => holds_ofItems maths items
  rwa [List.flatMap_id] at h

theorem Holds.merge_two (h : s.Holds maths items) (h' : t.Holds maths more) :
    (merge maths [s, t]).Holds maths (items ++ more) := by
  have hnew : new.Holds maths [] := holds_new
  have h := (hnew.mergeOne h).mergeOne h'
  rwa [List.nil_append] at h

/-! ## The homomorphism -/

variable (maths)

/-- What a list of items becomes depends on its set alone, and `merge` is the union of sets. -/
structure Homomorphism : Prop where
  /-- The state is that of the set. -/
  ofSet : ∀ items more, (∀ x, x ∈ items ↔ x ∈ more) → Same (ofItems maths items) (ofItems maths more)
  exact_iff : ∀ items, (ofItems maths items).hll = none ↔ items.dedup.length ≤ EXACT_CAP
  exact : ∀ items, (ofItems maths items).hll = none → (ofItems maths items).set.Perm items.dedup
  /-- Merging gives the state of the union. -/
  union : ∀ lists : List (List String),
    Same (merge maths (lists.map (ofItems maths))) (ofItems maths lists.flatten)
  comm : ∀ lists lists' : List (List String), lists.Perm lists' →
    Same (merge maths (lists.map (ofItems maths))) (merge maths (lists'.map (ofItems maths)))
  assoc : ∀ xs ys zs,
    Same (merge maths [merge maths [ofItems maths xs, ofItems maths ys], ofItems maths zs])
      (merge maths [ofItems maths xs, merge maths [ofItems maths ys, ofItems maths zs]])
  idem : ∀ items, Same (merge maths [ofItems maths items, ofItems maths items]) (ofItems maths items)
  /-- There are 256 registers, of at most 57. -/
  registers : ∀ items regs, (ofItems maths items).hll = some regs →
    regs.length = 256 ∧ ∀ r ∈ regs, r ≤ 57

/-- **Sketches are a homomorphism from sets**, for every hash. -/
theorem sketch_homomorphism : Homomorphism maths where
  ofSet items more hsame := (holds_ofItems maths items).same (holds_ofItems maths more) hsame
  exact_iff items := (holds_ofItems maths items).hll_none_iff
  exact items hnone := by
    have h := holds_ofItems maths items
    exact (h.exact (h.hll_none_iff.1 hnone)).2
  union lists := (holds_merge_ofItems lists).same (holds_ofItems maths _) fun _ => Iff.rfl
  comm lists lists' hperm := by
    apply (holds_merge_ofItems lists).same (holds_merge_ofItems lists')
    intro x
    rw [hperm.flatten.mem_iff]
  assoc xs ys zs := by
    have hxs := holds_ofItems maths xs
    have hys := holds_ofItems maths ys
    have hzs := holds_ofItems maths zs
    apply ((hxs.merge_two hys).merge_two hzs).same (hxs.merge_two (hys.merge_two hzs))
    intro x
    rw [List.append_assoc]
  idem items := by
    have h := holds_ofItems maths items
    apply (h.merge_two h).same h
    intro x
    rw [List.mem_append, or_self]
  registers items regs hregs := by
    have h := holds_ofItems maths items
    simp only [Holds, hregs] at h
    exact ⟨h.2.2.length, h.2.2.le⟩

end OTS.Detect.Cardinality
