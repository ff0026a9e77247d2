import Mathlib.Data.List.Induction
import Mathlib.Data.List.Perm.Subperm
import OTSecurity.Detect.Alerts

/-!
# Running statistics

Model of `Ewma` and `Cardinality` of `flink/sih_detect/common.py`.

* `Maths` — the functions taken from `math` and `hashlib`.
* `Ewma` — exponentially weighted mean and variance.
* `Cardinality` — an exact set up to 64 members, then the registers of a HyperLogLog.
* `Cardinality.Holds` — the state of a set of items; `holds_merge` — merging gives that of the union.
* `Threshold` — a bound that is configured or learned.
-/

namespace OTS.Detect

/-- `math.sqrt`, `math.log`, `math.log2`, and `hash64`. -/
structure Maths where
  sqrt : Rat → Rat
  log : Rat → Rat
  log2 : Rat → Rat
  hash64 : String → BitVec 64

/-- A function for each of `math` and `hashlib`, enough to run on. -/
def sampleMaths : Maths := ⟨id, id, id, fun s => BitVec.ofNat 64 (s.length * 0x9E3779B97F4A7C15)⟩

/-! ## Ewma -/

structure Ewma where
  n : Nat
  mean : Rat
  var : Rat
  deriving DecidableEq

namespace Ewma

def new : Ewma := ⟨0, 0, 0⟩

def update (s : Ewma) (x : Rat) (alpha : Rat := 5 / 100) : Ewma :=
  if s.n = 0 then ⟨1, x, 0⟩
  else
    let diff := x - s.mean
    ⟨s.n + 1, s.mean + alpha * diff, (1 - alpha) * (s.var + alpha * diff * diff)⟩

def std (M : Maths) (s : Ewma) : Rat := M.sqrt (max 0 s.var)

end Ewma

/-! ## Cardinality -/

structure Cardinality where
  set : List String
  hll : Option (List Nat)
  deriving DecidableEq

namespace Cardinality

def EXACT_CAP : Nat := 64

/-- The number of registers. -/
def M : Nat := 256

def new : Cardinality := ⟨[], none⟩

/-- The zeros before the first one bit of `w`, at most `n`. -/
def zeros : Nat → BitVec 64 → Nat
  | 0, _ => 0
  | n + 1, w => if w.msb then 0 else zeros n (w <<< 1) + 1

variable (maths : Maths)

/-- `_hll_add`. -/
def hllAdd (regs : List Nat) (item : String) : List Nat :=
  let h := maths.hash64 item
  let idx := (h >>> 56).toNat
  let rho := 1 + zeros 56 (h <<< 8)
  if regs.getD idx 0 < rho then regs.set idx rho else regs

/-- The registers of a set. -/
def sketch (items : List String) : List Nat := items.foldl (hllAdd maths) (List.replicate M 0)

def add (s : Cardinality) (item : String) : Cardinality :=
  match s.hll with
  | some regs => { s with hll := some (hllAdd maths regs item) }
  | none =>
    if item ∈ s.set then s
    else if EXACT_CAP < (s.set ++ [item]).length then ⟨[], some (sketch maths (s.set ++ [item]))⟩
    else { s with set := s.set ++ [item] }

/-- One step of `merge`. -/
def mergeOne (out s : Cardinality) : Cardinality :=
  match s.hll with
  | none => s.set.foldl (add maths) out
  | some regs =>
    ⟨[], some (List.zipWith max (out.hll.getD (sketch maths out.set)) regs)⟩

def merge (sketches : List Cardinality) : Cardinality := sketches.foldl (mergeOne maths) new

def count (s : Cardinality) : Int :=
  match s.hll with
  | none => s.set.length
  | some regs =>
    let m : Rat := M
    let est := 7213 / 10000 / (1 + 1079 / 1000 / m) * m * m / (regs.map fun r => 1 / 2 ^ r).sum
    let empty := regs.count 0
    roundHalfEven (if est ≤ 5 / 2 * m ∧ empty ≠ 0 then m * maths.log (m / empty) else est)

def isEstimate (s : Cardinality) : Bool := s.hll.isSome

/-! ## What a sketch holds -/

/-- The register of an item. -/
def index (item : String) : Nat := (maths.hash64 item >>> 56).toNat

/-- What an item raises its register to. -/
def rank (item : String) : Nat := 1 + zeros 56 (maths.hash64 item <<< 8)

/-- Each register is the greatest rank of its items, zero when it has none. -/
structure Registers (regs : List Nat) (items : List String) : Prop where
  length : regs.length = M
  le_iff : ∀ i < M, ∀ r, regs.getD i 0 ≤ r ↔ ∀ x ∈ items, index maths x = i → rank maths x ≤ r

/-- The state is that of the set of the items: the set itself if it has at most `EXACT_CAP` members, else
its registers. -/
def Holds (s : Cardinality) (items : List String) : Prop :=
  match s.hll with
  | none => s.set.Nodup ∧ s.set.length ≤ EXACT_CAP ∧ ∀ x, x ∈ s.set ↔ x ∈ items
  | some regs => s.set = [] ∧ EXACT_CAP < items.dedup.length ∧ Registers maths regs items

variable {maths} {regs : List Nat} {items more : List String} {s : Cardinality}

theorem index_lt (item : String) : index maths item < M := by
  unfold index M
  rw [BitVec.toNat_ushiftRight, Nat.shiftRight_eq_div_pow]
  have := (maths.hash64 item).isLt
  omega

theorem getD_hllAdd (hlength : regs.length = M) (item : String) (i : Nat) :
    (hllAdd maths regs item).getD i 0 =
      if index maths item = i then max (regs.getD i 0) (rank maths item) else regs.getD i 0 := by
  have hlt : index maths item < regs.length := hlength ▸ index_lt item
  show (if regs.getD (index maths item) 0 < rank maths item then
    regs.set (index maths item) (rank maths item) else regs).getD i 0 = _
  by_cases hi : index maths item = i
  · subst hi
    rw [if_pos rfl]
    split
    · rename_i hless
      rw [max_eq_right (le_of_lt hless)]
      simp [List.getD_eq_getElem?_getD, hlt]
    · rename_i hmore
      rw [max_eq_left (not_lt.1 hmore)]
  · rw [if_neg hi]
    split
    · simp [List.getD_eq_getElem?_getD, hi]
    · rfl

theorem length_hllAdd (regs : List Nat) (item : String) :
    (hllAdd maths regs item).length = regs.length := by
  unfold hllAdd
  simp only
  split
  · exact List.length_set
  · rfl

theorem Registers.congr (h : Registers maths regs items) (hsame : ∀ x, x ∈ items ↔ x ∈ more) :
    Registers maths regs more := by
  refine ⟨h.length, fun i hi r => (h.le_iff i hi r).trans ?_⟩
  constructor
  · exact fun hall x hx => hall x ((hsame x).2 hx)
  · exact fun hall x hx => hall x ((hsame x).1 hx)

theorem Registers.add (h : Registers maths regs items) (item : String) :
    Registers maths (hllAdd maths regs item) (items ++ [item]) := by
  refine ⟨(length_hllAdd regs item).trans h.length, fun i hi r => ?_⟩
  rw [getD_hllAdd h.length]
  have hitems : (∀ x ∈ items ++ [item], index maths x = i → rank maths x ≤ r) ↔
      (∀ x ∈ items, index maths x = i → rank maths x ≤ r) ∧
        (index maths item = i → rank maths item ≤ r) := by
    simp only [List.mem_append, List.mem_singleton, or_imp, forall_and, forall_eq]
  rw [hitems, ← h.le_iff i hi r]
  split
  · rename_i hindex
    simp [hindex]
  · rename_i hindex
    simp [hindex]

theorem registers_sketch (items : List String) : Registers maths (sketch maths items) items := by
  induction items using List.reverseRecOn with
  | nil =>
    refine ⟨List.length_replicate, fun i hi r => ?_⟩
    simp [sketch, List.getD_eq_getElem?_getD, hi]
  | append_singleton items item ih =>
    unfold sketch at ih ⊢
    rw [List.foldl_append]
    exact ih.add item

/-- The greater of each two registers holds both sets. -/
theorem Registers.union {regs' : List Nat} (h : Registers maths regs items)
    (h' : Registers maths regs' more) : Registers maths (List.zipWith max regs regs') (items ++ more) := by
  refine ⟨by rw [List.length_zipWith, h.length, h'.length, min_self], fun i hi r => ?_⟩
  have hget : (List.zipWith max regs regs').getD i 0 = max (regs.getD i 0) (regs'.getD i 0) := by
    simp [List.getD_eq_getElem?_getD, h.length, h'.length, hi]
  rw [hget, max_le_iff, h.le_iff i hi r, h'.le_iff i hi r]
  simp only [List.mem_append, or_imp, forall_and]

theorem Holds.congr (h : s.Holds maths items) (hsame : ∀ x, x ∈ items ↔ x ∈ more) :
    s.Holds maths more := by
  unfold Holds at h ⊢
  have hdedup : items.dedup.length = more.dedup.length := by
    apply List.Perm.length_eq
    rw [List.perm_ext_iff_of_nodup (List.nodup_dedup _) (List.nodup_dedup _)]
    intro x
    rw [List.mem_dedup, List.mem_dedup, hsame]
  split at h
  · exact ⟨h.1, h.2.1, fun x => (h.2.2 x).trans (hsame x)⟩
  · exact ⟨h.1, hdedup ▸ h.2.1, h.2.2.congr hsame⟩

theorem holds_new : Cardinality.new.Holds maths [] := ⟨List.nodup_nil, Nat.zero_le _, fun _ => Iff.rfl⟩

theorem dedup_length_le {xs ys : List String} (h : ∀ x ∈ xs, x ∈ ys) :
    xs.dedup.length ≤ ys.dedup.length := by
  apply List.Subperm.length_le
  exact (List.nodup_dedup xs).subperm fun x hx => List.mem_dedup.2 (h x (List.mem_dedup.1 hx))

/-- One item more. -/
theorem Holds.add (h : s.Holds maths items) (item : String) :
    (s.add maths item).Holds maths (items ++ [item]) := by
  unfold Cardinality.add
  cases hhll : s.hll with
  | some regs =>
    simp only [Holds, hhll] at h ⊢
    refine ⟨h.1, h.2.1.trans_le (dedup_length_le fun x hx => List.mem_append_left _ hx), h.2.2.add item⟩
  | none =>
    have hs := h
    simp only [Holds, hhll] at h
    obtain ⟨hnodup, hlength, hmem⟩ := h
    have hmem' : ∀ x, x ∈ s.set ++ [item] ↔ x ∈ items ++ [item] := by
      intro x
      rw [List.mem_append, List.mem_append, hmem]
    simp only
    split
    · rename_i hseen
      refine hs.congr fun x => ?_
      rw [List.mem_append, List.mem_singleton]
      constructor
      · exact .inl
      · rintro (hx | rfl)
        · exact hx
        · exact (hmem x).1 hseen
    · rename_i hnew
      have hnodup' : (s.set ++ [item]).Nodup := by
        rw [List.nodup_append]
        refine ⟨hnodup, List.nodup_singleton _, fun x hx y hy hxy => hnew ?_⟩
        rw [← List.mem_singleton.1 hy, ← hxy]
        exact hx
      split
      · rename_i hfull
        refine ⟨rfl, ?_, (registers_sketch _).congr hmem'⟩
        rw [← hnodup'.dedup] at hfull
        exact hfull.trans_le (dedup_length_le fun x hx => (hmem' x).1 hx)
      · rename_i hroom
        exact ⟨hnodup', not_lt.1 hroom, hmem'⟩

theorem Holds.addAll (h : s.Holds maths items) (more : List String) :
    (more.foldl (Cardinality.add maths) s).Holds maths (items ++ more) := by
  induction more generalizing s items with
  | nil => simpa using h
  | cons item more ih => simpa using ih (h.add item)

/-- The registers of a state, whether it has them yet or not. -/
theorem Holds.registers (h : s.Holds maths items) :
    Registers maths (s.hll.getD (sketch maths s.set)) items := by
  unfold Holds at h
  split at h
  · rename_i hhll
    rw [hhll]
    exact (registers_sketch s.set).congr h.2.2
  · rename_i regs hhll
    rw [hhll]
    exact h.2.2

theorem Holds.mergeOne {out : Cardinality} (hout : out.Holds maths items) (h : s.Holds maths more) :
    (mergeOne maths out s).Holds maths (items ++ more) := by
  unfold Cardinality.mergeOne
  cases hhll : s.hll with
  | none =>
    simp only [Holds, hhll] at h
    refine (hout.addAll s.set).congr fun x => ?_
    rw [List.mem_append, List.mem_append, h.2.2]
  | some regs =>
    simp only [Holds, hhll] at h
    refine ⟨rfl, h.2.1.trans_le (dedup_length_le fun x hx => List.mem_append_right _ hx), ?_⟩
    exact hout.registers.union h.2.2

/-- **What is merged is the state of the union.** -/
theorem holds_merge {ι : Type} (ks : List ι) (sketchOf : ι → Cardinality) (itemsOf : ι → List String)
    (h : ∀ k ∈ ks, (sketchOf k).Holds maths (itemsOf k)) :
    (merge maths (ks.map sketchOf)).Holds maths (ks.flatMap itemsOf) := by
  have hfold : ∀ (out : Cardinality) (items : List String), out.Holds maths items →
      ((ks.map sketchOf).foldl (Cardinality.mergeOne maths) out).Holds maths
        (items ++ ks.flatMap itemsOf) := by
    induction ks with
    | nil => exact fun out items hout => by simpa using hout
    | cons k ks ih =>
      intro out items hout
      obtain ⟨hk, hks⟩ := List.forall_mem_cons.1 h
      have := ih hks _ _ (hout.mergeOne hk)
      simpa using this
  exact hfold new [] holds_new

/-- At most `EXACT_CAP` members are held as they are. -/
theorem Holds.exact (h : s.Holds maths items) (hfew : items.dedup.length ≤ EXACT_CAP) :
    s.hll = none ∧ s.set.Perm items.dedup := by
  unfold Holds at h
  split at h
  · rename_i hhll
    refine ⟨hhll, ?_⟩
    rw [List.perm_ext_iff_of_nodup h.1 (List.nodup_dedup _)]
    intro x
    rw [h.2.2, List.mem_dedup]
  · exact absurd hfew (not_le.2 h.2.1)

theorem Holds.count_eq (h : s.Holds maths items) (hfew : items.dedup.length ≤ EXACT_CAP) :
    s.count maths = items.dedup.length := by
  obtain ⟨hhll, hperm⟩ := h.exact hfew
  unfold count
  rw [hhll]
  show (s.set.length : Int) = _
  rw [hperm.length_eq]

end Cardinality

/-! ## Thresholds -/

/-- An integer or a float, with its value. -/
structure Threshold where
  shown : Scalar
  value : Rat

def Threshold.ofInt (n : Int) : Threshold := ⟨.int n, n⟩

/-- `max(n, q)` of an integer and a float. -/
def Threshold.max (n : Int) (q : Rat) : Threshold := if (n : Rat) < q then ⟨.float q, q⟩ else .ofInt n

/-- The bound in force: that of the configuration until the baseline is warm. -/
def Threshold.learned (warm : Bool) (n : Int) (q : Rat) : Threshold :=
  if warm then .max n q else .ofInt n

end OTS.Detect
