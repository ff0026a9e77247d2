/-!
# Insertion-ordered dictionaries

A dictionary that remembers the order in which its keys were inserted, as an association list
whose keys are distinct (the field `nodup`), so a dictionary with a repeated key cannot be built.

* `get?`, `set` (replace in place, else append), `erase`, `moveToEnd`, `popFirst`.
* `get?_set`, `get?_erase`, `get?_moveToEnd`, `get?_drop_one` — lookups after each update.
* `length_set`, `length_erase`, `keys_set_of_mem`, `perm_keys_erase` — sizes and keys after each update.
-/

namespace OTS

/-- Association list with distinct keys, oldest entry first. -/
structure ODict (κ ν : Type) where
  entries : List (κ × ν)
  nodup : (entries.map (·.1)).Nodup

namespace ODict

variable {κ ν : Type}

def empty : ODict κ ν := ⟨[], List.nodup_nil⟩

def keys (d : ODict κ ν) : List κ := d.entries.map (·.1)

def length (d : ODict κ ν) : Nat := d.entries.length

/-- Drop the oldest `n` entries. -/
def drop (n : Nat) (d : ODict κ ν) : ODict κ ν :=
  ⟨d.entries.drop n, by rw [List.map_drop]; exact d.nodup.sublist (List.drop_sublist _ _)⟩

theorem drop_zero (d : ODict κ ν) : d.drop 0 = d := rfl

/-- `popitem(last=False)`: the oldest entry and the rest. -/
def popFirst (d : ODict κ ν) : Option ((κ × ν) × ODict κ ν) :=
  match d.entries with
  | [] => none
  | e :: _ => some (e, d.drop 1)

variable [DecidableEq κ]

def get? (d : ODict κ ν) (k : κ) : Option ν := (d.entries.find? (fun e => e.1 = k)).map (·.2)

def erase (d : ODict κ ν) (k : κ) : ODict κ ν :=
  ⟨d.entries.filter (fun e => e.1 ≠ k), d.nodup.sublist (List.filter_sublist.map _)⟩

theorem get?_eq_none {d : ODict κ ν} {k : κ} : d.get? k = none ↔ k ∉ d.keys := by
  simp only [get?, keys, Option.map_eq_none_iff, List.find?_eq_none, List.mem_map,
    decide_eq_true_eq, not_exists, not_and]

theorem get?_isSome {d : ODict κ ν} {k : κ} : (d.get? k).isSome ↔ k ∈ d.keys := by
  rw [← Option.ne_none_iff_isSome, ne_eq, get?_eq_none, Decidable.not_not]

/-- Value replaced in place: the keys keep their order. -/
def replace (d : ODict κ ν) (k : κ) (v : ν) : ODict κ ν :=
  ⟨d.entries.map (fun e => if e.1 = k then (k, v) else e), by
    have : (d.entries.map (fun e => if e.1 = k then (k, v) else e)).map (·.1) =
        d.entries.map (·.1) := by
      rw [List.map_map]
      apply List.map_congr_left
      intro e _
      by_cases h : e.1 = k <;> simp [h]
    rw [this]; exact d.nodup⟩

/-- A new newest entry; the key must be absent. -/
def append (d : ODict κ ν) (k : κ) (v : ν) (h : k ∉ d.keys) : ODict κ ν :=
  ⟨d.entries ++ [(k, v)], by
    rw [List.map_append, List.nodup_append]
    refine ⟨d.nodup, by simp, ?_⟩
    intro a ha b hb
    simp only [List.map_cons, List.map_nil, List.mem_singleton] at hb
    subst hb
    exact fun e => h (e ▸ ha)⟩

/-- `d[k] = v`: replaced in place when present, appended otherwise. -/
def set (d : ODict κ ν) (k : κ) (v : ν) : ODict κ ν :=
  if h : k ∈ d.keys then d.replace k v else d.append k v h

/-- `move_to_end(k)`. -/
def moveToEnd (d : ODict κ ν) (k : κ) : ODict κ ν :=
  match d.get? k with
  | some v => (d.erase k).set k v
  | none => d

/-- Replacing the value of a present key, on the bare association list. -/
theorem find?_replace {k j : κ} (v : ν) : ∀ (l : List (κ × ν)), (j = k → k ∈ l.map (·.1)) →
    ((l.map (fun e => if e.1 = k then (k, v) else e)).find? (fun e => e.1 = j)).map (·.2) =
      if j = k then some v else (l.find? (fun e => e.1 = j)).map (·.2)
  | [], hl => by
    by_cases hj : j = k
    · have := hl hj; simp at this
    · simp [hj]
  | e :: l, hl => by
    by_cases he : e.1 = k
    · by_cases hj : j = k
      · subst hj; simp [he]
      · have hkj : ¬ k = j := fun h => hj h.symm
        simp only [List.map_cons, he, if_true, List.find?_cons, hkj, decide_false]
        exact find?_replace v l (fun h => absurd h hj)
    · by_cases hej : e.1 = j
      · have hj : ¬ j = k := fun h => he (hej.trans h)
        subst hej
        simp [he]
      · simp only [List.map_cons, he, if_false, List.find?_cons, hej, decide_false]
        refine find?_replace v l (fun h => ?_)
        have := hl h
        simp only [List.map_cons, List.mem_cons] at this
        exact this.resolve_left (fun hh => he hh.symm)

theorem get?_replace (d : ODict κ ν) {k j : κ} (v : ν) (hk : k ∈ d.keys) :
    (d.replace k v).get? j = if j = k then some v else d.get? j :=
  find?_replace v d.entries (fun _ => hk)

theorem get?_append (d : ODict κ ν) {k j : κ} (v : ν) (hk : k ∉ d.keys) :
    (d.append k v hk).get? j = if j = k then some v else d.get? j := by
  have hkn := get?_eq_none.2 hk
  unfold get? at hkn ⊢
  simp only [append, List.find?_append]
  by_cases hj : j = k
  · subst hj
    simp only [Option.map_eq_none_iff] at hkn
    simp [hkn]
  · have hkj : ¬ k = j := fun h => hj h.symm
    simp [hj, hkj]

/-- **Lookup after an assignment.** -/
theorem get?_set (d : ODict κ ν) (k j : κ) (v : ν) :
    (d.set k v).get? j = if j = k then some v else d.get? j := by
  unfold set
  split
  · exact get?_replace d v (by assumption)
  · exact get?_append d v (by assumption)

theorem get?_set_self (d : ODict κ ν) (k : κ) (v : ν) : (d.set k v).get? k = some v := by
  rw [get?_set, if_pos rfl]

theorem get?_erase (d : ODict κ ν) (k j : κ) :
    (d.erase k).get? j = if j = k then none else d.get? j := by
  unfold get? erase
  rw [List.find?_filter]
  by_cases hj : j = k
  · subst hj
    simp only [if_true, Option.map_eq_none_iff, List.find?_eq_none]
    intro e _
    simp
  · rw [if_neg hj]
    congr 2
    funext e
    by_cases he : e.1 = j
    · have : ¬ e.1 = k := fun h => hj (he.symm.trans h)
      simp [he, hj]
    · simp [he]

theorem get?_moveToEnd (d : ODict κ ν) (k j : κ) : (d.moveToEnd k).get? j = d.get? j := by
  unfold moveToEnd
  split
  · rename_i v hv
    rw [get?_set, get?_erase]
    by_cases hj : j = k
    · subst hj; simp [hv]
    · simp [hj]
  · rfl

@[simp] theorem get?_empty (k : κ) : (empty : ODict κ ν).get? k = none := rfl

/-- Lookups once the oldest entry is gone. -/
theorem get?_drop_one {d : ODict κ ν} {e : κ × ν} {l : List (κ × ν)} (h : d.entries = e :: l)
    (j : κ) : (d.drop 1).get? j = if j = e.1 then none else d.get? j := by
  have hn := d.nodup
  rw [h, List.map_cons, List.nodup_cons] at hn
  unfold get?
  simp only [drop, h, List.drop_succ_cons, List.drop_zero, List.find?_cons]
  by_cases hj : j = e.1
  · subst hj
    rw [if_pos rfl, Option.map_eq_none_iff, List.find?_eq_none]
    intro x hx hxe
    exact hn.1 (List.mem_map.2 ⟨x, hx, of_decide_eq_true hxe⟩)
  · have hej : ¬ e.1 = j := fun h => hj h.symm
    rw [if_neg hj]
    simp only [hej, decide_false]

/-- The entries whose key satisfies `p`. -/
def keepKeys (d : ODict κ ν) (p : κ → Bool) : ODict κ ν :=
  ⟨d.entries.filter (fun e => p e.1), d.nodup.sublist (List.filter_sublist.map _)⟩

omit [DecidableEq κ] in
/-- Nothing is dropped when every key is kept. -/
theorem keepKeys_eq (d : ODict κ ν) {p : κ → Bool} (h : ∀ k ∈ d.keys, p k = true) :
    d.keepKeys p = d := by
  cases d with
  | mk entries nodup =>
    unfold keepKeys
    congr 1
    exact List.filter_eq_self.2 (fun e he => h e.1 (List.mem_map_of_mem he))

theorem mem_keys_set {d : ODict κ ν} {k j : κ} {v : ν} :
    j ∈ (d.set k v).keys ↔ j = k ∨ j ∈ d.keys := by
  rw [← get?_isSome, get?_set, ← get?_isSome]
  by_cases hj : j = k <;> simp [hj]

theorem mem_set {d : ODict κ ν} {k : κ} {v : ν} {e : κ × ν}
    (h : e ∈ (d.set k v).entries) : e ∈ d.entries ∨ e = (k, v) := by
  unfold set at h
  split at h
  · obtain ⟨e', he', rfl⟩ := List.mem_map.1 h
    split
    · exact .inr rfl
    · exact .inl he'
  · rcases List.mem_append.1 h with h | h
    · exact .inl h
    · exact .inr (List.mem_singleton.1 h)

theorem length_set (d : ODict κ ν) (k : κ) (v : ν) :
    (d.set k v).length = if k ∈ d.keys then d.length else d.length + 1 := by
  unfold set
  split <;> rename_i h <;> simp [replace, append, length]

theorem length_erase (d : ODict κ ν) {k : κ} (hk : k ∈ d.keys) :
    (d.erase k).length + 1 = d.length := by
  have hn := d.nodup
  unfold keys at hk
  show (d.entries.filter (fun e => e.1 ≠ k)).length + 1 = d.entries.length
  generalize d.entries = l at hk hn
  induction l with
  | nil => simp at hk
  | cons e l ih =>
    simp only [List.map_cons, List.nodup_cons] at hn
    by_cases he : e.1 = k
    · have hnone : ∀ x ∈ l, decide (x.1 ≠ k) = true := by
        intro x hx
        have : x.1 ≠ k := fun h => hn.1 (he ▸ h ▸ List.mem_map_of_mem hx)
        simp [this]
      simp only [List.filter_cons, he, ne_eq, not_true_eq_false, decide_false,
        Bool.false_eq_true, if_false]
      rw [List.filter_eq_self.2 hnone]
      rfl
    · have hk' : k ∈ l.map (·.1) := by
        simp only [List.map_cons, List.mem_cons] at hk
        exact hk.resolve_left (fun h => he h.symm)
      simp only [List.filter_cons, he, ne_eq, not_false_eq_true, decide_true, if_true,
        List.length_cons]
      have := ih hk' hn.2
      simp only [ne_eq] at this
      omega

theorem keys_set_of_mem {d : ODict κ ν} {k : κ} (v : ν) (hk : k ∈ d.keys) :
    (d.set k v).keys = d.keys := by
  unfold set
  rw [dif_pos hk]
  unfold keys replace
  rw [List.map_map]
  apply List.map_congr_left
  intro e _
  by_cases he : e.1 = k <;> simp [he]

theorem keys_set_of_not_mem {d : ODict κ ν} {k : κ} (v : ν) (hk : k ∉ d.keys) :
    (d.set k v).keys = d.keys ++ [k] := by
  unfold set
  rw [dif_neg hk]
  simp [keys, append]

theorem perm_keys_erase {d : ODict κ ν} {k : κ} (hk : k ∈ d.keys) :
    d.keys.Perm (k :: (d.erase k).keys) := by
  have hkeys : (d.erase k).keys = d.keys.erase k := by
    unfold keys erase
    rw [List.Nodup.erase_eq_filter d.nodup, List.filter_map]
    congr 1
    apply List.filter_congr
    intro e _
    by_cases he : e.1 = k <;> simp [he]
  rw [hkeys]
  exact List.perm_cons_erase hk

theorem length_moveToEnd (d : ODict κ ν) (k : κ) : (d.moveToEnd k).length = d.length := by
  unfold moveToEnd
  split
  · rename_i v hv
    have hk : k ∈ d.keys := get?_isSome.1 (by rw [hv]; rfl)
    have hne : k ∉ (d.erase k).keys := get?_eq_none.1 (by rw [get?_erase, if_pos rfl])
    rw [length_set, if_neg hne]
    exact length_erase d hk
  · rfl

/-! ## The bare entries -/

/-- Values rewritten, keys kept. -/
def mapVals {μ : Type} (f : ν → μ) (d : ODict κ ν) : ODict κ μ :=
  ⟨d.entries.map (fun e => (e.1, f e.2)), by
    have h : (d.entries.map (fun e => (e.1, f e.2))).map (·.1) = d.entries.map (·.1) := by
      rw [List.map_map]
      rfl
    rw [h]
    exact d.nodup⟩

theorem get?_of_entries {d : ODict κ ν} {as bs : List (κ × ν)} {k : κ} {v : ν}
    (h : d.entries = as ++ (k, v) :: bs) : d.get? k = some v := by
  have hn := d.nodup
  rw [h, List.map_append, List.map_cons, List.nodup_append] at hn
  have has : as.find? (fun e => e.1 = k) = none := by
    rw [List.find?_eq_none]
    intro e he hk
    exact hn.2.2 e.1 (List.mem_map_of_mem he) k List.mem_cons_self (by simpa using hk)
  simp [get?, h, List.find?_append, has]

theorem entries_set_last {d : ODict κ ν} {es : List (κ × ν)} {k : κ} {v : ν} (w : ν)
    (h : d.entries = es ++ [(k, v)]) : (d.set k w).entries = es ++ [(k, w)] := by
  have hn := d.nodup
  have hk : k ∈ d.keys := by simp [keys, h]
  rw [h, List.map_append, List.nodup_append] at hn
  have hes : es.map (fun e => if e.1 = k then (k, w) else e) = es := by
    conv => rhs; rw [← List.map_id es]
    refine List.map_congr_left (fun e he => if_neg (fun hek => ?_))
    exact hn.2.2 e.1 (List.mem_map_of_mem he) k (by simp) hek
  simp [set, hk, replace, h, hes]

theorem entries_set_new {d : ODict κ ν} {k : κ} (w : ν) (h : k ∉ d.keys) :
    (d.set k w).entries = d.entries ++ [(k, w)] := by
  simp [set, h, append]

theorem entries_erase_head {d : ODict κ ν} {es : List (κ × ν)} {k : κ} {v : ν}
    (h : d.entries = (k, v) :: es) : (d.erase k).entries = es := by
  have hn := d.nodup
  rw [h, List.map_cons, List.nodup_cons] at hn
  simp only [erase, h, List.filter_cons, ne_eq, not_true_eq_false, decide_false]
  refine List.filter_eq_self.2 (fun e he => decide_eq_true (fun hek => hn.1 ?_))
  exact List.mem_map.2 ⟨e, he, hek⟩

theorem mem_entries {d : ODict κ ν} {k : κ} {v : ν} : (k, v) ∈ d.entries ↔ d.get? k = some v := by
  constructor
  · intro h
    obtain ⟨as, bs, heq⟩ := List.append_of_mem h
    exact get?_of_entries heq
  · intro h
    obtain ⟨e, he, rfl⟩ := Option.map_eq_some_iff.1 h
    have hk : e.1 = k := by simpa using List.find?_some he
    exact hk ▸ List.mem_of_find?_eq_some he

omit [DecidableEq κ] in
theorem entries_nodup (d : ODict κ ν) : d.entries.Nodup :=
  List.Pairwise.of_map Prod.fst (fun _ _ h e => h (e ▸ rfl)) d.nodup

end ODict

end OTS
