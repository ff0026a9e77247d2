import Mathlib.Data.List.GetD
import Mathlib.Data.List.Nodup
import OTSecurity.Lib.Ranks

/-!
# The metrics of a model

Model of `roc_auc`, `average_precision` and `metrics` of `model-training/sih_ml/train_dga.py`, over
rational scores.

* `argsort` — a stable order of the scores; `rankLoop` — the loop over the runs of equal scores.
* `rocAuc` — `none` where the code returns NaN; `metrics`, without the confidence intervals.

Principal results: `averageRanks_eq` — the loop gives every sample its rank, ties averaged;
`roc_auc_pairs` — so `roc_auc` counts pairs, in whatever order the samples come.
-/

namespace OTS.Ml

/-! ## Ranks -/

/-- `np.argsort(s, kind="mergesort")`. -/
def argsort (s : List Rat) : List Nat :=
  (List.range s.length).mergeSort fun i j => s.getD i 0 ≤ s.getD j 0

/-- `s[order]`. -/
def takeAt (s : List Rat) (order : List Nat) : List Rat := order.map (s.getD · 0)

/-- The inner loop: the last place of the run of equal scores that starts at `i`. -/
def runEnd (sorted : List Rat) (i : Nat) : Nat → Nat → Nat
  | 0, j => j
  | fuel + 1, j =>
    if j + 1 < sorted.length ∧ sorted.getD (j + 1) 0 = sorted.getD i 0 then runEnd sorted i fuel (j + 1)
    else j

/-- `ranks[idx] = v`. -/
def setAll (ranks : List Rat) (idx : List Nat) (v : Rat) : List Rat :=
  idx.foldl (fun r k => r.set k v) ranks

/-- The outer loop.  Every round ends a run of at least one score. -/
def rankLoop (order : List Nat) (sorted : List Rat) : Nat → Nat → List Rat → List Rat
  | 0, _, ranks => ranks
  | fuel + 1, i, ranks =>
    if i < sorted.length then
      let j := runEnd sorted i sorted.length i
      rankLoop order sorted fuel (j + 1)
        (setAll ranks ((order.drop i).take (j + 1 - i)) (((i : Rat) + j) / 2 + 1))
    else ranks

/-- The ranks of the samples; every place of the array is written. -/
def averageRanks (s : List Rat) : List Rat :=
  rankLoop (argsort s) (takeAt s (argsort s)) s.length 0 (List.replicate s.length 0)

/-! ## Metrics -/

/-- `xs[y == 1]` or, for the other labels, `xs[~(y == 1)]`. -/
def select (y xs : List Rat) (pos : Bool) : List Rat :=
  ((y.zip xs).filter fun p => decide (p.1 = 1) = pos).map (·.2)

/-- `roc_auc`. -/
def rocAuc (y s : List Rat) : Option Rat :=
  let nPos := y.countP (· = 1)
  let nNeg := y.countP (· ≠ 1)
  if nPos = 0 ∨ nNeg = 0 then none
  else some (((select y (averageRanks s) true).sum - (nPos : Rat) * (nPos + 1) / 2) / (nPos * nNeg))

/-- `average_precision`, of labels 0 and 1. -/
def averagePrecision (y s : List Rat) : Rat :=
  let yt := takeAt y (argsort (s.map Neg.neg))
  let precision := (List.range yt.length).map fun i => (yt.take (i + 1)).sum / (i + 1)
  ((precision.zip yt).map fun p => p.1 * p.2).sum / max 1 yt.sum

structure Metrics where
  samples : Nat
  positives : Nat
  negatives : Nat
  tp : Nat
  fp : Nat
  tn : Nat
  fn : Nat
  precision : Option Rat
  recallRate : Option Rat
  f1 : Option Rat
  fpr : Option Rat
  fnr : Option Rat
  rocAuc : Option Rat
  prAuc : Option Rat
  brier : Rat

/-- `a / b if b else None`. -/
def ratio (a b : Nat) : Option Rat := if b = 0 then none else some ((a : Rat) / b)

/-- `metrics`. -/
def metrics (y s : List Rat) (thr : Rat) : Metrics :=
  let count := fun (label : Rat) (pred : Bool) =>
    (y.zip s).countP fun p => p.1 = label ∧ decide (thr ≤ p.2) = pred
  let tp := count 1 true
  let fp := count 0 true
  let tn := count 0 false
  let fn := count 1 false
  let precision := ratio tp (tp + fp)
  let recallRate := ratio tp (tp + fn)
  let positives := y.countP (· = 1)
  { samples := y.length
    positives := positives
    negatives := y.countP (· = 0)
    tp, fp, tn, fn, precision, recallRate
    f1 := match precision, recallRate with
      | some p, some r => if p ≠ 0 ∧ r ≠ 0 then some (2 * p * r / (p + r)) else none
      | _, _ => none
    fpr := ratio fp (fp + tn)
    fnr := ratio fn (fn + tp)
    rocAuc := if 0 < positives ∧ positives < y.length then rocAuc y s else none
    prAuc := if positives ≠ 0 then some (averagePrecision y s) else none
    brier := ((y.zip s).map fun p => (p.2 - p.1) ^ 2).sum / y.length }

/-! ## The order of the scores -/

variable {s : List Rat}

theorem argsort_perm (s : List Rat) : (argsort s).Perm (List.range s.length) := List.mergeSort_perm _ _

theorem argsort_length (s : List Rat) : (argsort s).length = s.length := by
  rw [(argsort_perm s).length_eq, List.length_range]

theorem sorted_takeAt (s : List Rat) : (takeAt s (argsort s)).Pairwise (· ≤ ·) := by
  unfold takeAt argsort
  rw [List.pairwise_map]
  refine (List.pairwise_mergeSort ?_ ?_ _).imp fun h => of_decide_eq_true h
  · intro a b c hab hbc
    exact decide_eq_true ((of_decide_eq_true hab).trans (of_decide_eq_true hbc))
  · intro a b
    simp only [Bool.or_eq_true, decide_eq_true_eq]
    exact le_total _ _

/-- The scores in order are the scores. -/
theorem takeAt_perm (s : List Rat) : (takeAt s (argsort s)).Perm s := by
  have hrange : takeAt s (List.range s.length) = s := by
    apply List.ext_getElem
    · simp [takeAt]
    · intro i hi hi'
      simp [takeAt, hi']
  exact ((argsort_perm s).map _).trans (List.Perm.of_eq hrange)

/-! ## Runs of equal scores -/

variable {xs : List Rat} {i : Nat}

/-- What the inner loop finds. -/
structure IsRun (xs : List Rat) (i j : Nat) : Prop where
  start : i ≤ j
  inside : j < xs.length
  equal : ∀ k, i ≤ k → k ≤ j → xs.getD k 0 = xs.getD i 0
  ends : j + 1 < xs.length → xs.getD (j + 1) 0 ≠ xs.getD i 0

theorem runEnd_spec (hi : i < xs.length) : IsRun xs i (runEnd xs i xs.length i) := by
  have hloop : ∀ fuel j, i ≤ j → j < xs.length → xs.length ≤ fuel + j →
      (∀ k, i ≤ k → k ≤ j → xs.getD k 0 = xs.getD i 0) → IsRun xs i (runEnd xs i fuel j) := by
    intro fuel
    induction fuel with
    | zero =>
      intro j _ hlt hfuel _
      omega
    | succ fuel ih =>
      intro j hij hlt hfuel hequal
      unfold runEnd
      split
      · rename_i h
        refine ih (j + 1) (by omega) h.1 (by omega) fun k hk hkj => ?_
        rcases Nat.lt_or_ge k (j + 1) with hlt' | hge
        · exact hequal k hk (by omega)
        · exact (show k = j + 1 by omega) ▸ h.2
      · rename_i h
        exact ⟨hij, hlt, hequal, fun hnext heq => h ⟨hnext, heq⟩⟩
  refine hloop xs.length i le_rfl hi (Nat.le_add_right ..) fun k hk hki => ?_
  rw [show k = i by omega]

/-- The places of a sorted list before `i` hold less than those from `i` on. -/
def Boundary (xs : List Rat) (i : Nat) : Prop :=
  ∀ p q, p < i → i ≤ q → q < xs.length → xs.getD p 0 < xs.getD q 0

theorem sorted_getD (hs : xs.Pairwise (· ≤ ·)) {p q : Nat} (hpq : p ≤ q) (hq : q < xs.length) :
    xs.getD p 0 ≤ xs.getD q 0 := by
  have hp : p < xs.length := by omega
  rw [List.getD_eq_getElem _ _ hp, List.getD_eq_getElem _ _ hq]
  rcases hpq.lt_or_eq with hlt | rfl
  · exact List.pairwise_iff_getElem.1 hs p q hp hq hlt
  · exact le_rfl

variable {j : Nat}

/-- Behind a run stands more. -/
theorem IsRun.behind (hs : xs.Pairwise (· ≤ ·)) (h : IsRun xs i j) {q : Nat} (hjq : j < q)
    (hq : q < xs.length) : xs.getD i 0 < xs.getD q 0 := by
  have hnext : xs.getD i 0 < xs.getD (j + 1) 0 := by
    have hstart := h.start
    refine lt_of_le_of_ne (sorted_getD hs (by omega) (by omega)) ?_
    exact (h.ends (by omega)).symm
  exact hnext.trans_le (sorted_getD hs hjq hq)

/-- The end of a run is a boundary. -/
theorem IsRun.boundary (hs : xs.Pairwise (· ≤ ·)) (h : IsRun xs i j) (hi : Boundary xs i) :
    Boundary xs (j + 1) := by
  intro p q hp hjq hq
  have hstart := h.start
  rcases Nat.lt_or_ge p i with hlt | hge
  · exact hi p q hlt (by omega) hq
  · rw [h.equal p hge (by omega)]
    exact h.behind hs hjq hq

/-- **The ranks of a run**: the mean of its places, from 1. -/
theorem avgRank_run (hs : xs.Pairwise (· ≤ ·)) (h : IsRun xs i j) (hi : Boundary xs i) :
    avgRank xs (xs.getD i 0) = ((i : Rat) + j) / 2 + 1 := by
  have hstart := h.start
  have hinside := h.inside
  have hcompare : ∀ k (hk : k < xs.length), (xs[k] < xs.getD i 0 ↔ k < i) ∧
      (xs[k] = xs.getD i 0 ↔ i ≤ k ∧ k < j + 1) := by
    intro k hk
    rw [← List.getD_eq_getElem _ 0 hk]
    rcases Nat.lt_or_ge k i with hlt | hge
    · have hless := hi k i hlt le_rfl (by omega)
      exact ⟨iff_of_true hless hlt, iff_of_false hless.ne (by omega)⟩
    · rcases Nat.lt_or_ge j k with hjk | hkj
      · have hmore := h.behind hs hjk hk
        exact ⟨iff_of_false hmore.not_gt (by omega), iff_of_false hmore.ne' (by omega)⟩
      · have hequal := h.equal k hge hkj
        exact ⟨iff_of_false hequal.not_lt (by omega), iff_of_true hequal (by omega)⟩
  have hless : xs.countP (· < xs.getD i 0) = i - 0 := by
    refine countP_of_places (Nat.zero_le i) (by omega) fun k hk => ?_
    rw [decide_eq_true_eq, (hcompare k hk).1]
    omega
  have hequal : xs.countP (· = xs.getD i 0) = j + 1 - i := by
    refine countP_of_places (by omega) (by omega) fun k hk => ?_
    rw [decide_eq_true_eq, (hcompare k hk).2]
  unfold avgRank
  rw [hless, hequal, Nat.sub_zero, Nat.cast_sub (by omega)]
  push_cast
  ring

/-! ## The loop over the runs -/

theorem setAll_length (ranks : List Rat) (idx : List Nat) (v : Rat) :
    (setAll ranks idx v).length = ranks.length := by
  unfold setAll
  induction idx generalizing ranks with
  | nil => rfl
  | cons k idx ih => rw [List.foldl_cons, ih, List.length_set]

theorem setAll_getD (ranks : List Rat) (idx : List Nat) (v : Rat) {k : Nat} (hk : k < ranks.length) :
    (setAll ranks idx v).getD k 0 = if k ∈ idx then v else ranks.getD k 0 := by
  induction idx generalizing ranks with
  | nil => simp [setAll]
  | cons m idx ih =>
    have hset : (setAll ranks (m :: idx) v) = setAll (ranks.set m v) idx v := rfl
    rw [hset, ih _ (by rwa [List.length_set])]
    by_cases hmem : k ∈ idx
    · rw [if_pos hmem, if_pos (List.mem_cons_of_mem _ hmem)]
    · rw [if_neg hmem, List.getD_eq_getElem _ _ (by rwa [List.length_set]), List.getElem_set]
      by_cases hmk : m = k
      · rw [if_pos hmk, if_pos (hmk ▸ List.mem_cons_self)]
      · rw [if_neg hmk, if_neg (by simp [hmem, Ne.symm hmk]), List.getD_eq_getElem _ _ hk]

/-- What the loop has done when it is at place `i` of the order. -/
structure Ranked (order : List Nat) (xs : List Rat) (i : Nat) (ranks : List Rat) : Prop where
  length : ranks.length = xs.length
  boundary : Boundary xs i
  written : ∀ p < i, p < xs.length → ranks.getD (order.getD p 0) 0 = avgRank xs (xs.getD p 0)

variable {order : List Nat} {ranks : List Rat}

/-- One round. -/
theorem Ranked.round (hs : xs.Pairwise (· ≤ ·)) (horder : order.Perm (List.range xs.length))
    (h : Ranked order xs i ranks) (hrun : IsRun xs i j) :
    Ranked order xs (j + 1)
      (setAll ranks ((order.drop i).take (j + 1 - i)) (((i : Rat) + j) / 2 + 1)) := by
  have hstart := hrun.start
  have hinside := hrun.inside
  have hlen : order.length = xs.length := by rw [horder.length_eq, List.length_range]
  have hnodup : order.Nodup := horder.nodup_iff.2 List.nodup_range
  have hat : ∀ p (hp : p < xs.length), order.getD p 0 < ranks.length := by
    intro p hp
    rw [h.length, List.getD_eq_getElem _ _ (hlen ▸ hp)]
    exact List.mem_range.1 (horder.subset (List.getElem_mem _))
  have hmem : ∀ p (hp : p < xs.length),
      (order.getD p 0 ∈ (order.drop i).take (j + 1 - i) ↔ i ≤ p ∧ p ≤ j) := by
    intro p hp
    rw [List.getD_eq_getElem _ _ (hlen ▸ hp)]
    constructor
    · intro hp'
      obtain ⟨k, hk, heq⟩ := List.mem_iff_getElem.1 hp'
      rw [List.length_take, List.length_drop] at hk
      rw [List.getElem_take, List.getElem_drop] at heq
      have := hnodup.getElem_inj_iff.1 heq
      omega
    · rintro ⟨hip, hpj⟩
      refine List.mem_iff_getElem.2 ⟨p - i, ?_, ?_⟩
      · rw [List.length_take, List.length_drop]
        omega
      · rw [List.getElem_take, List.getElem_drop]
        congr 1
        omega
  refine ⟨(setAll_length ..).trans h.length, hrun.boundary hs h.boundary, fun p hpj hp => ?_⟩
  rw [setAll_getD _ _ _ (hat p hp)]
  by_cases hip : i ≤ p
  · rw [if_pos ((hmem p hp).2 ⟨hip, by omega⟩), hrun.equal p hip (by omega), avgRank_run hs hrun h.boundary]
  · rw [if_neg fun hin => hip ((hmem p hp).1 hin).1]
    exact h.written p (by omega) hp

/-- All rounds. -/
theorem Ranked.loop (hs : xs.Pairwise (· ≤ ·)) (horder : order.Perm (List.range xs.length)) (fuel : Nat)
    (hfuel : xs.length ≤ fuel + i) (h : Ranked order xs i ranks) :
    ∃ k, xs.length ≤ k ∧ Ranked order xs k (rankLoop order xs fuel i ranks) := by
  induction fuel generalizing i ranks with
  | zero => exact ⟨i, by omega, h⟩
  | succ fuel ih =>
    unfold rankLoop
    split
    · rename_i hi
      have hrun := runEnd_spec hi
      have hstart := hrun.start
      exact ih (by omega) (h.round hs horder hrun)
    · rename_i hi
      exact ⟨i, by omega, h⟩

/-- **Every sample has its rank**, ties averaged. -/
theorem averageRanks_eq (s : List Rat) : averageRanks s = s.map (avgRank s) := by
  have hperm := argsort_perm s
  have hlen : (takeAt s (argsort s)).length = s.length := (takeAt_perm s).length_eq
  have horder : (argsort s).Perm (List.range (takeAt s (argsort s)).length) := by rwa [hlen]
  have hinit : Ranked (argsort s) (takeAt s (argsort s)) 0 (List.replicate s.length 0) := by
    refine ⟨by rw [List.length_replicate, hlen], ?_, ?_⟩
    · rintro p q ⟨⟩
    · rintro p ⟨⟩
  obtain ⟨k, hk, hranked⟩ := hinit.loop (sorted_takeAt s) horder s.length (by omega)
  change Ranked _ _ k (averageRanks s) at hranked
  apply List.ext_getElem
  · rw [hranked.length, hlen, List.length_map]
  · intro m hm hm'
    rw [List.length_map] at hm'
    have hmem : m ∈ argsort s := hperm.symm.subset (List.mem_range.2 hm')
    obtain ⟨p, hp, hat⟩ := List.mem_iff_getElem.1 hmem
    rw [argsort_length] at hp
    have hwritten := hranked.written p (by omega) (by omega)
    have hscore : (takeAt s (argsort s)).getD p 0 = s[m] := by
      rw [List.getD_eq_getElem _ _ (by omega)]
      simp [takeAt, hat, hm']
    rw [hscore, avgRank_perm (takeAt_perm s), List.getD_eq_getElem (argsort s) 0 (by rwa [argsort_length]),
      hat, List.getD_eq_getElem _ _ hm] at hwritten
    rw [hwritten, List.getElem_map]

/-! ## Pairs -/

/-- The scores of the samples labelled 1, and of the others. -/
theorem select_perm {y xs : List Rat} (h : y.length = xs.length) :
    (select y xs true ++ select y xs false).Perm xs := by
  have hsplit := List.filter_append_perm (fun p : Rat × Rat => decide (p.1 = 1)) (y.zip xs)
  have hsnd : (y.zip xs).map (·.2) = xs := List.map_snd_zip h.ge
  have hmap := hsplit.map (·.2)
  rw [hsnd, List.map_append] at hmap
  refine (List.Perm.of_eq ?_).trans hmap
  unfold select
  simp

theorem select_map (y : List Rat) {xs : List Rat} (f : Rat → Rat) (pos : Bool) :
    select y (xs.map f) pos = (select y xs pos).map f := by
  unfold select
  rw [List.zip_map_right, List.filter_map, List.map_map, List.map_map]
  rfl

theorem select_length {y xs : List Rat} (h : y.length = xs.length) (pos : Bool) :
    (select y xs pos).length = y.countP fun l => decide (l = 1) = pos := by
  have hfst : (y.zip xs).map (·.1) = y := List.map_fst_zip h.le
  unfold select
  rw [List.length_map, ← List.countP_eq_length_filter]
  conv_rhs => rw [← hfst, List.countP_map]
  rfl

/-- The pairs in which the positive scores more, and half of those that tie, over all pairs. -/
def pairScore (pos neg : List Rat) : Rat :=
  (((pos ×ˢ neg).countP (fun p => p.2 < p.1) : Rat) + ((pos ×ˢ neg).countP (fun p => p.2 = p.1) : Rat) / 2) /
    (pos.length * neg.length)

theorem pairScore_perm {pos pos' neg neg' : List Rat} (hpos : pos.Perm pos') (hneg : neg.Perm neg') :
    pairScore pos neg = pairScore pos' neg' := by
  have hpairs : (pos ×ˢ neg).Perm (pos' ×ˢ neg') := hpos.product hneg
  unfold pairScore
  rw [hpairs.countP_eq, hpairs.countP_eq, hpos.length_eq, hneg.length_eq]

/-- What `roc_auc` returns for labels of both kinds. -/
theorem rocAuc_eq {y s : List Rat} (hlen : y.length = s.length) (hpos : ∃ l ∈ y, l = 1)
    (hneg : ∃ l ∈ y, l ≠ 1) : rocAuc y s = some (pairScore (select y s true) (select y s false)) := by
  have hp : y.countP (· = 1) = (select y s true).length := by
    rw [select_length hlen]
    simp
  have hn : y.countP (· ≠ 1) = (select y s false).length := by
    rw [select_length hlen]
    simp
  have hranks : select y (averageRanks s) true =
      (select y s true).map (avgRank (select y s true ++ select y s false)) := by
    rw [averageRanks_eq, select_map]
    exact List.map_congr_left fun v _ => avgRank_perm (select_perm hlen).symm v
  have hsome : ¬ (y.countP (· = 1) = 0 ∨ y.countP (· ≠ 1) = 0) := by
    rw [List.countP_eq_zero, List.countP_eq_zero]
    rintro (h | h)
    · obtain ⟨l, hl, hl1⟩ := hpos
      exact h l hl (decide_eq_true hl1)
    · obtain ⟨l, hl, hl1⟩ := hneg
      exact h l hl (decide_eq_true hl1)
  unfold rocAuc
  simp only
  rw [if_neg hsome, hranks, rankSum_eq, hp, hn, add_sub_cancel_left, wins_eq_countP]
  rfl

/-- **The area under the curve counts pairs**: for labels with a positive and a negative and scores with
any ties, it is the number of pairs in which the positive scores more, and half of those that tie, over
the number of all pairs; and it is the same in whatever order the samples come. -/
theorem roc_auc_pairs (y s : List Rat) (hlen : y.length = s.length) (hpos : ∃ l ∈ y, l = 1)
    (hneg : ∃ l ∈ y, l ≠ 1) :
    rocAuc y s = some
      ((((select y s true ×ˢ select y s false).countP (fun p => p.2 < p.1) : Rat) +
        ((select y s true ×ˢ select y s false).countP (fun p => p.2 = p.1) : Rat) / 2) /
      ((y.countP (· = 1) : Rat) * y.countP (· ≠ 1))) ∧
    ∀ y' s' : List Rat, y'.length = s'.length → (y.zip s).Perm (y'.zip s') → rocAuc y' s' = rocAuc y s := by
  refine ⟨?_, fun y' s' hlen' hperm => ?_⟩
  · rw [rocAuc_eq hlen hpos hneg, pairScore, select_length hlen, select_length hlen]
    simp
  · have hlabels : y.Perm y' := by
      have := hperm.map (·.1)
      rwa [List.map_fst_zip hlen.le, List.map_fst_zip hlen'.le] at this
    have hselect : ∀ pos, (select y' s' pos).Perm (select y s pos) := fun pos => (hperm.symm.filter _).map _
    obtain ⟨p, hp, hp1⟩ := hpos
    obtain ⟨n, hn, hn1⟩ := hneg
    rw [rocAuc_eq hlen ⟨p, hp, hp1⟩ ⟨n, hn, hn1⟩,
      rocAuc_eq hlen' ⟨p, hlabels.subset hp, hp1⟩ ⟨n, hlabels.subset hn, hn1⟩,
      pairScore_perm (hselect true) (hselect false)]

/-- One of the two positives ties with one of the two negatives. -/
theorem roc_auc_pairs_sample : rocAuc [1, 0, 1, 0] [9 / 10, 1 / 2, 1 / 2, 1 / 10] = some (7 / 8) := by
  have hpairs := (roc_auc_pairs [1, 0, 1, 0] [9 / 10, 1 / 2, 1 / 2, 1 / 10] rfl ⟨1, by simp, rfl⟩
    ⟨0, by simp, by norm_num⟩).1
  rw [hpairs]
  decide +kernel

end OTS.Ml
