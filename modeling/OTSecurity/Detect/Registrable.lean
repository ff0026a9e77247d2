import Mathlib.Data.List.GetD
import OTSecurity.Detect.DgaFeatures
import OTSecurity.Lib.Joined

/-!
# Splitting names

What `split_registrable` of `lib/sih_common/dga_features.py` makes of a name, and of the names below it.

* `Registers` — the names that it accepts; `suffixLen`, `splitLabels` — what it returns of their labels.

Principal result: `split_lossless_stable` — the parts joined are the name, and a name below a name of three
labels or more has its domain.
-/

namespace OTS.Detect

variable {u : Unicode} {name : PyStr} {r : Registrable}

/-! ## What is accepted -/

/-- How many labels the suffix has. -/
def suffixLen (labels : List PyStr) : Nat :=
  if 3 ≤ labels.length ∧ MULTI_PART_SUFFIXES.contains (joinDots (labels.drop (labels.length - 2))) then 2 else 1

/-- The parts of a name with these labels. -/
def splitLabels (labels : List PyStr) : Registrable :=
  let k := suffixLen labels
  let sld := labels.getD (labels.length - k - 1) []
  let suffix := joinDots (labels.drop (labels.length - k))
  ⟨sld ++ DOT :: suffix, sld, suffix, labels.take (labels.length - k - 1)⟩

/-- A name that is accepted. -/
structure Registers (u : Unicode) (name : PyStr) : Prop where
  two : 2 ≤ (name.splitOn DOT).length
  labels : [] ∉ name.splitOn DOT
  top : (name.splitOn DOT).getLastD [] ∉ NON_REGISTRABLE
  digits : ¬ ∀ lab ∈ name.splitOn DOT, ∀ ch ∈ lab, u.isDigit ch
  colon : COLON ∉ name

/-- A suffix leaves a label in front of it. -/
theorem suffixLen_lt {labels : List PyStr} (h : 2 ≤ labels.length) : suffixLen labels < labels.length := by
  unfold suffixLen
  split
  · omega
  · omega

/-- **What `split_registrable` returns.** -/
theorem splitRegistrable_ok :
    splitRegistrable u name = .ok r ↔ Registers u name ∧ r = splitLabels (name.splitOn DOT) := by
  unfold splitRegistrable
  simp only
  split
  · rename_i h
    refine iff_of_false (by simp) ?_
    rintro ⟨hreg, -⟩
    rcases h with h | h
    · have := hreg.two
      omega
    · exact hreg.labels h
  rename_i hlabels
  rw [not_or, not_lt] at hlabels
  split
  · rename_i h
    refine iff_of_false (by simp) ?_
    rintro ⟨hreg, -⟩
    exact h.elim hreg.top hreg.digits
  rename_i htop
  rw [not_or] at htop
  split
  · rename_i h
    exact iff_of_false (by simp) fun hreg => hreg.1.colon h
  rename_i hcolon
  have hlen : ¬ (name.splitOn DOT).length < suffixLen (name.splitOn DOT) + 1 := by
    have := suffixLen_lt hlabels.1
    omega
  change (if (name.splitOn DOT).length < suffixLen (name.splitOn DOT) + 1 then Except.error "not_registrable"
    else .ok (splitLabels (name.splitOn DOT))) = .ok r ↔ _
  rw [if_neg hlen]
  constructor
  · intro h
    exact ⟨⟨hlabels.1, hlabels.2, htop.1, htop.2, hcolon⟩, (Except.ok.inj h).symm⟩
  · rintro ⟨-, rfl⟩
    rfl

/-! ## Names and their labels -/

theorem joinDots_splitOn (name : PyStr) : joinDots (name.splitOn DOT) = name := List.intercalate_splitOn DOT

theorem joinDots_cons {lab : PyStr} {labels : List PyStr} (h : labels ≠ []) :
    joinDots (lab :: labels) = lab ++ DOT :: joinDots labels := intercalate_cons h

/-- The labels of a name below another. -/
theorem splitOn_below {labels : List PyStr} (hdots : ∀ lab ∈ labels, DOT ∉ lab) (name : PyStr) :
    (joinDots (labels ++ [name])).splitOn DOT = labels ++ name.splitOn DOT := by
  induction labels with
  | nil =>
    unfold joinDots
    rw [List.nil_append, List.intercalate_singleton, List.nil_append]
  | cons lab labels ih =>
    rw [List.forall_mem_cons] at hdots
    rw [List.cons_append, joinDots_cons (by simp), List.splitOn_append_cons_self_of_not_mem hdots.1, ih hdots.2,
      List.cons_append]

theorem colon_below {labels : List PyStr} (hcolons : ∀ lab ∈ labels, COLON ∉ lab) (hname : COLON ∉ name) :
    COLON ∉ joinDots (labels ++ [name]) := by
  induction labels with
  | nil =>
    unfold joinDots
    rw [List.nil_append, List.intercalate_singleton]
    exact hname
  | cons lab labels ih =>
    rw [List.forall_mem_cons] at hcolons
    rw [List.cons_append, joinDots_cons (by simp)]
    intro h
    rcases List.mem_append.1 h with h | h
    · exact hcolons.1 h
    · rcases List.mem_cons.1 h with h | h
      · exact absurd h (by decide)
      · exact ih hcolons.2 h

/-! ## The parts of a name -/

/-- The parts joined are the labels joined. -/
theorem joinDots_parts {labels : List PyStr} (h : 2 ≤ labels.length) :
    joinDots ((splitLabels labels).sub ++ [(splitLabels labels).sld, (splitLabels labels).suffix]) =
      joinDots labels := by
  have hk := suffixLen_lt h
  have hpos : 0 < suffixLen labels := by
    unfold suffixLen
    split <;> decide
  obtain ⟨k, hk'⟩ : ∃ k, k = labels.length - suffixLen labels := ⟨_, rfl⟩
  have hsld : labels.getD (k - 1) [] :: labels.drop k = labels.drop (k - 1) := by
    have hlt : k - 1 < labels.length := by omega
    rw [List.getD_eq_getElem _ _ hlt, List.drop_eq_getElem_cons hlt, Nat.sub_add_cancel (by omega)]
  have hsuffix : labels.drop k ≠ [] := by
    intro hnil
    have := List.drop_eq_nil_iff.1 hnil
    omega
  unfold splitLabels
  simp only [← hk']
  calc joinDots (labels.take (k - 1) ++ [labels.getD (k - 1) [], joinDots (labels.drop k)])
      = joinDots (labels.take (k - 1) ++ [labels.getD (k - 1) []] ++ [joinDots (labels.drop k)]) := by
        rw [List.append_assoc, List.singleton_append]
    _ = joinDots (labels.take (k - 1) ++ [labels.getD (k - 1) []] ++ labels.drop k) :=
        intercalate_nest _ hsuffix
    _ = joinDots labels := by
        rw [List.append_assoc, List.singleton_append, hsld, List.take_append_drop]

/-- **The parts of a name below another**: the labels in front join the labels below the domain. -/
theorem splitLabels_below (labels : List PyStr) {below : List PyStr} (h : 3 ≤ below.length) :
    splitLabels (labels ++ below) =
      { splitLabels below with sub := labels ++ (splitLabels below).sub } := by
  have hdrop : ∀ k ≤ below.length, (labels ++ below).drop ((labels ++ below).length - k) =
      below.drop (below.length - k) := by
    intro k hk
    rw [List.length_append, Nat.add_sub_assoc hk, List.drop_append, List.drop_eq_nil_of_le (by omega),
      List.nil_append, Nat.add_sub_cancel_left]
  have hsuffix : suffixLen (labels ++ below) = suffixLen below := by
    unfold suffixLen
    rw [hdrop 2 (by omega)]
    simp only [List.length_append, h, show 3 ≤ labels.length + below.length by omega]
  have hk := suffixLen_lt (show 2 ≤ below.length by omega)
  obtain ⟨k, hk'⟩ : ∃ k, k = suffixLen below := ⟨_, rfl⟩
  have hat : (labels ++ below).length - k - 1 = labels.length + (below.length - k - 1) := by
    rw [List.length_append]
    omega
  unfold splitLabels
  simp only [hsuffix, ← hk', hdrop k (by omega), hat]
  have hget : (labels ++ below).getD (labels.length + (below.length - k - 1)) [] =
      below.getD (below.length - k - 1) [] := by
    rw [List.getD_append_right _ _ _ _ (Nat.le_add_right ..), Nat.add_sub_cancel_left]
  rw [hget, List.take_length_add_append]

/-! ## Names below a domain -/

/-- What is below a name that is accepted is accepted. -/
theorem Registers.below (h : Registers u name) {labels : List PyStr}
    (hlabels : ∀ lab ∈ labels, lab ≠ [] ∧ DOT ∉ lab ∧ COLON ∉ lab) :
    Registers u (joinDots (labels ++ [name])) := by
  have hsplit := splitOn_below (fun lab hlab => (hlabels lab hlab).2.1) name
  constructor
  · rw [hsplit, List.length_append]
    exact Nat.le_add_left_of_le h.two
  · rw [hsplit, List.mem_append, not_or]
    exact ⟨fun hnil => (hlabels [] hnil).1 rfl, h.labels⟩
  · have hne : name.splitOn DOT ≠ [] := List.ne_nil_of_length_pos (Nat.lt_of_lt_of_le (by decide) h.two)
    rw [hsplit, List.getLastD_eq_getLast?, List.getLast?_append_of_ne_nil _ hne, ← List.getLastD_eq_getLast?]
    exact h.top
  · rw [hsplit]
    exact fun hall => h.digits fun lab hlab => hall lab (List.mem_append_right _ hlab)
  · exact colon_below (fun lab hlab => (hlabels lab hlab).2.2) h.colon

/-- **Splitting a name is lossless and stable**: the labels below the domain, the label of the domain and
the suffix joined with dots are the name; and when the name has at least three labels, every name below it
is accepted, with the same domain, the labels in front added to those below the domain. -/
theorem split_lossless_stable (u : Unicode) (name : PyStr) (r : Registrable)
    (h : splitRegistrable u name = .ok r) :
    (joinDots (r.sub ++ [r.sld, r.suffix]) = name ∧ r.domain = joinDots [r.sld, r.suffix]) ∧
    (3 ≤ (name.splitOn DOT).length → ∀ labels : List PyStr,
      (∀ lab ∈ labels, lab ≠ [] ∧ DOT ∉ lab ∧ COLON ∉ lab) →
      splitRegistrable u (joinDots (labels ++ [name])) = .ok { r with sub := labels ++ r.sub }) := by
  obtain ⟨hreg, rfl⟩ := splitRegistrable_ok.1 h
  refine ⟨⟨?_, ?_⟩, ?_⟩
  · rw [joinDots_parts hreg.two, joinDots_splitOn]
  · rw [joinDots_cons (by simp)]
    unfold joinDots
    rw [List.intercalate_singleton]
    rfl
  · intro hthree labels hlabels
    refine splitRegistrable_ok.2 ⟨hreg.below hlabels, ?_⟩
    rw [splitOn_below (fun lab hlab => (hlabels lab hlab).2.1), splitLabels_below labels hthree]

/-- `a.b.example.co.uk` has the domain of `example.co.uk`. -/
theorem split_lossless_stable_sample :
    splitRegistrable sampleUnicode (pyStr "a.b.example.co.uk") =
      .ok ⟨pyStr "example.co.uk", pyStr "example", pyStr "co.uk", [pyStr "a", pyStr "b"]⟩ :=
  (split_lossless_stable sampleUnicode (pyStr "example.co.uk")
    ⟨pyStr "example.co.uk", pyStr "example", pyStr "co.uk", []⟩ (by decide +kernel)).2 (by decide +kernel)
    [pyStr "a", pyStr "b"] (by decide +kernel)

end OTS.Detect
