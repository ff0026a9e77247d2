import Mathlib.Algebra.GroupWithZero.Nat
import Mathlib.Data.List.Basic
import Mathlib.Data.Prod.Lex

/-!
# Segmented logs

An append-only log kept as numbered segments, each a list of records of known sizes. A position
is a segment and an offset in it; positions are ordered as tuples are.

* `Position` — with the lexicographic linear order.
* `place`, `placeAll` — the records of a segment, of a log, with where each starts and stops.
* `Boundary` — the positions between records.

Principal results: `placeAll_sorted`, records follow one another without overlap;
`placeAll_from`, what is at or after a boundary is the rest of its segment and the later segments;
`placeAll_upto`, what lies below a boundary is what precedes it; `filter_resume`, reading goes on
behind the last record of a batch.
-/

namespace OTS

@[ext] structure Position where
  seg : Nat
  off : Nat
  deriving DecidableEq, Repr

namespace Position

instance : LinearOrder Position :=
  LinearOrder.lift' (fun p => toLex (p.seg, p.off)) (fun a b h => by
    have h' : (a.seg, a.off) = (b.seg, b.off) := toLex.injective h
    exact Position.ext (congrArg Prod.fst h') (congrArg Prod.snd h'))

theorem lt_def {a b : Position} : a < b ↔ a.seg < b.seg ∨ a.seg = b.seg ∧ a.off < b.off :=
  Prod.Lex.lt_iff

theorem le_def {a b : Position} : a ≤ b ↔ a.seg < b.seg ∨ a.seg = b.seg ∧ a.off ≤ b.off :=
  Prod.Lex.le_iff

end Position

/-- A record and where it lies. -/
structure Placed (ρ : Type) where
  record : ρ
  start : Position
  stop : Position
  deriving DecidableEq, Repr

section

variable {ρ : Type} (size : ρ → Nat)

/-- The bytes a list of records takes. -/
def bytesOf (rs : List ρ) : Nat := (rs.map size).sum

/-- Records laid out one after the other from an offset of a segment on. -/
def place (seg : Nat) : Nat → List ρ → List (Placed ρ)
  | _, [] => []
  | off, r :: rs => ⟨r, ⟨seg, off⟩, ⟨seg, off + size r⟩⟩ :: place seg (off + size r) rs

def placeAll (segs : List (Nat × List ρ)) : List (Placed ρ) :=
  segs.flatMap (fun s => place size s.1 0 s.2)

/-- Segments in the order of their numbers. -/
def Ascending (segs : List (Nat × List ρ)) : Prop := segs.Pairwise (fun a b => a.1 < b.1)

/-- The position after the first `i` records of segment `seg`. -/
def mark (seg : Nat) (rs : List ρ) (i : Nat) : Position := ⟨seg, bytesOf size (rs.take i)⟩

/-- A position between two records of the log, or at an end of a segment. -/
def Boundary (segs : List (Nat × List ρ)) (p : Position) : Prop :=
  ∃ s ∈ segs, ∃ i ≤ s.2.length, p = mark size s.1 s.2 i

variable {size}

@[simp] theorem bytesOf_nil : bytesOf size ([] : List ρ) = 0 := rfl

@[simp] theorem bytesOf_cons (r : ρ) (rs : List ρ) :
    bytesOf size (r :: rs) = size r + bytesOf size rs := rfl

@[simp] theorem bytesOf_append (as bs : List ρ) :
    bytesOf size (as ++ bs) = bytesOf size as + bytesOf size bs := by
  simp [bytesOf]

theorem bytesOf_take_drop (rs : List ρ) (i : Nat) :
    bytesOf size (rs.take i) + bytesOf size (rs.drop i) = bytesOf size rs := by
  rw [← bytesOf_append, List.take_append_drop]

theorem bytesOf_pos (hsize : ∀ r, 0 < size r) {rs : List ρ} (h : rs ≠ []) :
    0 < bytesOf size rs := by
  cases rs with
  | nil => exact absurd rfl h
  | cons r rs =>
    have := hsize r
    simp only [bytesOf_cons]
    omega

/-- Positive sizes: boundaries of one segment are in the order of their indices. -/
theorem bytesOf_take_lt (hsize : ∀ r, 0 < size r) {rs : List ρ} {i j : Nat} (hij : i < j)
    (hj : j ≤ rs.length) : bytesOf size (rs.take i) < bytesOf size (rs.take j) := by
  have hsplit : rs.take j = rs.take i ++ (rs.drop i).take (j - i) := by
    rw [← List.take_add]
    congr 1
    omega
  have hne : (rs.drop i).take (j - i) ≠ [] := by
    intro h
    have := congrArg List.length h
    simp only [List.length_take, List.length_drop, List.length_nil] at this
    omega
  have := bytesOf_pos hsize hne
  rw [hsplit, bytesOf_append]
  omega

theorem bytesOf_take_lt_iff (hsize : ∀ r, 0 < size r) {rs : List ρ} {i j : Nat}
    (hi : i ≤ rs.length) (hj : j ≤ rs.length) :
    bytesOf size (rs.take i) < bytesOf size (rs.take j) ↔ i < j := by
  constructor
  · intro h
    rcases Nat.lt_trichotomy i j with hij | rfl | hij
    · exact hij
    · exact absurd h (Nat.lt_irrefl _)
    · have := bytesOf_take_lt hsize hij hi
      omega
  · exact fun h => bytesOf_take_lt hsize h hj

/-! ## Where records lie -/

theorem place_append (seg off : Nat) (as bs : List ρ) :
    place size seg off (as ++ bs) =
      place size seg off as ++ place size seg (off + bytesOf size as) bs := by
  induction as generalizing off with
  | nil => simp [place]
  | cons a as ih => simp [place, ih, Nat.add_assoc]

theorem place_length (seg off : Nat) (rs : List ρ) : (place size seg off rs).length = rs.length := by
  induction rs generalizing off with
  | nil => rfl
  | cons r rs ih => simp [place, ih]

theorem place_take (seg off n : Nat) (rs : List ρ) :
    (place size seg off rs).take n = place size seg off (rs.take n) := by
  induction rs generalizing off n with
  | nil => simp [place]
  | cons r rs ih =>
    cases n with
    | zero => rfl
    | succ n => simp [place, ih]

theorem mem_place {seg off : Nat} {rs : List ρ} {e : Placed ρ} (h : e ∈ place size seg off rs) :
    e.start.seg = seg ∧ e.stop = ⟨seg, e.start.off + size e.record⟩ ∧ off ≤ e.start.off ∧
      e.stop.off ≤ off + bytesOf size rs ∧ e.record ∈ rs := by
  induction rs generalizing off with
  | nil => simp [place] at h
  | cons r rs ih =>
    simp only [place, List.mem_cons] at h
    rcases h with rfl | h
    · simp
    · obtain ⟨h1, h2, h3, h4, h5⟩ := ih h
      refine ⟨h1, h2, by omega, ?_, List.mem_cons_of_mem _ h5⟩
      simp only [bytesOf_cons]
      omega

/-- Every record lies between two boundaries of its segment. -/
theorem mem_place_mark {seg : Nat} {as rs : List ρ} {e : Placed ρ}
    (h : e ∈ place size seg (bytesOf size as) rs) :
    ∃ i < (as ++ rs).length, e.start = mark size seg (as ++ rs) i ∧
      e.stop = mark size seg (as ++ rs) (i + 1) := by
  induction rs generalizing as with
  | nil => simp [place] at h
  | cons r rs ih =>
    simp only [place, List.mem_cons] at h
    rcases h with rfl | h
    · exact ⟨as.length, by simp, by simp [mark], by simp [mark, List.take_append, List.take_of_length_le]⟩
    · have h' : e ∈ place size seg (bytesOf size (as ++ [r])) rs := by simpa using h
      simpa using ih h'

theorem placeAll_append (as bs : List (Nat × List ρ)) :
    placeAll size (as ++ bs) = placeAll size as ++ placeAll size bs := by
  simp [placeAll]

theorem placeAll_cons (s : Nat × List ρ) (segs : List (Nat × List ρ)) :
    placeAll size (s :: segs) = place size s.1 0 s.2 ++ placeAll size segs := rfl

theorem mem_placeAll {segs : List (Nat × List ρ)} {e : Placed ρ} :
    e ∈ placeAll size segs ↔ ∃ s ∈ segs, e ∈ place size s.1 0 s.2 := List.mem_flatMap

theorem mem_placeAll_seg {segs : List (Nat × List ρ)} {e : Placed ρ}
    (h : e ∈ placeAll size segs) : ∃ s ∈ segs, s.1 = e.start.seg ∧ s.1 = e.stop.seg := by
  obtain ⟨s, hs, he⟩ := mem_placeAll.1 h
  obtain ⟨h1, h2, -⟩ := mem_place he
  exact ⟨s, hs, h1.symm, by rw [h2]⟩

theorem start_lt_stop (hsize : ∀ r, 0 < size r) {segs : List (Nat × List ρ)} {e : Placed ρ}
    (h : e ∈ placeAll size segs) : e.start < e.stop := by
  obtain ⟨s, -, he⟩ := mem_placeAll.1 h
  obtain ⟨h1, h2, -⟩ := mem_place he
  have := hsize e.record
  rw [Position.lt_def, h2]
  exact .inr ⟨h1, by dsimp only; omega⟩

theorem boundary_of_mem {segs : List (Nat × List ρ)} {e : Placed ρ}
    (h : e ∈ placeAll size segs) : Boundary size segs e.start ∧ Boundary size segs e.stop := by
  obtain ⟨s, hs, he⟩ := mem_placeAll.1 h
  obtain ⟨i, hi, h1, h2⟩ := @mem_place_mark _ size _ [] _ _ (by simpa using he)
  rw [List.nil_append] at hi h1 h2
  exact ⟨⟨s, hs, i, by omega, h1⟩, ⟨s, hs, i + 1, by omega, h2⟩⟩

theorem place_sorted (seg off : Nat) (rs : List ρ) :
    (place size seg off rs).Pairwise (fun a b => a.stop ≤ b.start) := by
  induction rs generalizing off with
  | nil => exact .nil
  | cons r rs ih =>
    refine .cons (fun e he => ?_) (ih _)
    obtain ⟨h1, -, h3, -⟩ := mem_place he
    exact Position.le_def.2 (.inr ⟨h1.symm, h3⟩)

/-- **Records follow one another without overlap.** -/
theorem placeAll_sorted {segs : List (Nat × List ρ)} (h : Ascending segs) :
    (placeAll size segs).Pairwise (fun a b => a.stop ≤ b.start) := by
  induction segs with
  | nil => exact .nil
  | cons s segs ih =>
    obtain ⟨hs, hrest⟩ := List.pairwise_cons.1 h
    rw [placeAll_cons, List.pairwise_append]
    refine ⟨place_sorted _ _ _, ih hrest, fun a ha b hb => ?_⟩
    obtain ⟨t, ht, hseg, -⟩ := mem_placeAll_seg hb
    obtain ⟨-, h2, -⟩ := mem_place ha
    have := hs t ht
    exact Position.le_def.2 (.inl (by rw [h2]; dsimp only; omega))

theorem Ascending.congr {segs segs' : List (Nat × List ρ)} (h : Ascending segs)
    (heq : segs'.map (·.1) = segs.map (·.1)) : Ascending segs' :=
  List.pairwise_map.1 (heq ▸ (List.pairwise_map (f := Prod.fst) (R := (· < ·))).2 h)

/-! ## What lies before and after a boundary -/

theorem filter_append_right {α : Type} {p : α → Bool} {as bs : List α} (ha : ∀ a ∈ as, p a = false)
    (hb : ∀ b ∈ bs, p b = true) : (as ++ bs).filter p = bs := by
  rw [List.filter_append, List.filter_eq_self.2 hb, List.filter_eq_nil_iff.2 (by simpa using ha),
    List.nil_append]

theorem filter_append_left {α : Type} {p : α → Bool} {as bs : List α} (ha : ∀ a ∈ as, p a = true)
    (hb : ∀ b ∈ bs, p b = false) : (as ++ bs).filter p = as := by
  rw [List.filter_append, List.filter_eq_self.2 ha, List.filter_eq_nil_iff.2 (by simpa using hb),
    List.append_nil]

/-- The records of segments numbered below `seg` precede every position of it. -/
theorem start_lt_of_before {before : List (Nat × List ρ)} {p : Position}
    (h : ∀ s ∈ before, s.1 < p.seg) : ∀ e ∈ placeAll size before, e.start < p := by
  intro e he
  obtain ⟨s, hs, hseg, -⟩ := mem_placeAll_seg he
  exact Position.lt_def.2 (.inl (hseg ▸ h s hs))

theorem lt_start_of_after {after : List (Nat × List ρ)} {p : Position}
    (h : ∀ s ∈ after, p.seg < s.1) : ∀ e ∈ placeAll size after, p < e.start := by
  intro e he
  obtain ⟨s, hs, hseg, -⟩ := mem_placeAll_seg he
  exact Position.lt_def.2 (.inl (hseg ▸ h s hs))

/-- A segment cut at a boundary: its records before and after it. -/
theorem place_split (seg i : Nat) (rs : List ρ) :
    place size seg 0 rs =
      place size seg 0 (rs.take i) ++ place size seg (mark size seg rs i).off (rs.drop i) := by
  conv => lhs; rw [← List.take_append_drop i rs, place_append]
  simp [mark]

theorem stop_le_mark {seg i : Nat} {rs : List ρ} :
    ∀ e ∈ place size seg 0 (rs.take i), e.stop ≤ mark size seg rs i := by
  intro e he
  obtain ⟨-, h2, -, h4, -⟩ := mem_place he
  exact Position.le_def.2 (.inr ⟨by rw [h2]; rfl, by simpa [mark] using h4⟩)

theorem mark_le_start {seg i : Nat} {rs : List ρ} :
    ∀ e ∈ place size seg (mark size seg rs i).off (rs.drop i), mark size seg rs i ≤ e.start := by
  intro e he
  obtain ⟨h1, -, h3, -⟩ := mem_place he
  exact Position.le_def.2 (.inr ⟨h1.symm, h3⟩)

variable {before after : List (Nat × List ρ)} {seg : Nat} {rs : List ρ}

theorem ascending_split (h : Ascending (before ++ (seg, rs) :: after)) :
    (∀ s ∈ before, s.1 < seg) ∧ (∀ s ∈ after, seg < s.1) := by
  obtain ⟨-, h2, h3⟩ := List.pairwise_append.1 h
  exact ⟨fun s hs => h3 s hs _ List.mem_cons_self, (List.pairwise_cons.1 h2).1⟩

/-- The log cut at a boundary of one of its segments. -/
theorem placeAll_split (i : Nat) :
    placeAll size (before ++ (seg, rs) :: after) =
      (placeAll size before ++ place size seg 0 (rs.take i)) ++
        (place size seg (mark size seg rs i).off (rs.drop i) ++ placeAll size after) := by
  rw [placeAll_append, placeAll_cons, place_split seg i rs]
  simp only [List.append_assoc]

/-- What precedes a boundary stops at or before it. -/
theorem stop_le_of_split (h : Ascending (before ++ (seg, rs) :: after)) (i : Nat) :
    ∀ e ∈ placeAll size before ++ place size seg 0 (rs.take i), e.stop ≤ mark size seg rs i := by
  intro e he
  rcases List.mem_append.1 he with he | he
  · obtain ⟨s, hs, -, hseg⟩ := mem_placeAll_seg he
    exact Position.le_def.2 (.inl (hseg ▸ (ascending_split h).1 s hs))
  · exact stop_le_mark e he

theorem le_start_of_split (h : Ascending (before ++ (seg, rs) :: after)) (i : Nat) :
    ∀ e ∈ place size seg (mark size seg rs i).off (rs.drop i) ++ placeAll size after,
      mark size seg rs i ≤ e.start := by
  intro e he
  rcases List.mem_append.1 he with he | he
  · exact mark_le_start e he
  · exact (lt_start_of_after (p := mark size seg rs i) (ascending_split h).2 e he).le

/-- **At or after a boundary lie the rest of its segment and the later segments.** -/
theorem placeAll_from (hsize : ∀ r, 0 < size r) (h : Ascending (before ++ (seg, rs) :: after))
    (i : Nat) :
    (placeAll size (before ++ (seg, rs) :: after)).filter (fun e => mark size seg rs i ≤ e.start) =
      place size seg (mark size seg rs i).off (rs.drop i) ++ placeAll size after := by
  have hall := @placeAll_split _ size before after seg rs i
  rw [hall]
  refine filter_append_right (fun e he => ?_) (fun e he => ?_)
  · have hmem : e ∈ placeAll size (before ++ (seg, rs) :: after) := by
      rw [hall]
      exact List.mem_append_left _ he
    have := lt_of_lt_of_le (start_lt_stop hsize hmem) (stop_le_of_split h i e he)
    simpa using this
  · simpa using le_start_of_split h i e he

/-- **Below a boundary lies what precedes it.** -/
theorem placeAll_upto (hsize : ∀ r, 0 < size r) (h : Ascending (before ++ (seg, rs) :: after))
    (i : Nat) :
    (placeAll size (before ++ (seg, rs) :: after)).filter (fun e => e.stop ≤ mark size seg rs i) =
      placeAll size before ++ place size seg 0 (rs.take i) := by
  have hall := @placeAll_split _ size before after seg rs i
  rw [hall]
  refine filter_append_left (fun e he => ?_) (fun e he => ?_)
  · simpa using stop_le_of_split h i e he
  · have hmem : e ∈ placeAll size (before ++ (seg, rs) :: after) := by
      rw [hall]
      exact List.mem_append_right _ he
    have := lt_of_le_of_lt (le_start_of_split h i e he) (start_lt_stop hsize hmem)
    simpa using this

/-- A position of a segment that the log does not have. -/
theorem placeAll_from_gap {p : Position} (hb : ∀ s ∈ before, s.1 < p.seg)
    (ha : ∀ s ∈ after, p.seg < s.1) :
    (placeAll size (before ++ after)).filter (fun e => p ≤ e.start) = placeAll size after := by
  rw [placeAll_append]
  refine filter_append_right (fun e he => ?_) (fun e he => ?_)
  · simpa using start_lt_of_before hb e he
  · simpa using (lt_start_of_after ha e he).le

/-! ## Growth -/

/-- A record more at the end of the last segment. -/
theorem placeAll_snoc (r : ρ) :
    placeAll size (before ++ [(seg, rs ++ [r])]) = placeAll size (before ++ [(seg, rs)]) ++
      [⟨r, ⟨seg, bytesOf size rs⟩, ⟨seg, bytesOf size rs + size r⟩⟩] := by
  simp [placeAll, place_append, place]

/-- A new segment, still empty. -/
theorem placeAll_open : placeAll size (before ++ [(seg, [])]) = placeAll size before := by
  simp [placeAll, place]

theorem Boundary.snoc {p : Position} (h : Boundary size (before ++ [(seg, rs)]) p) (r : ρ) :
    Boundary size (before ++ [(seg, rs ++ [r])]) p := by
  obtain ⟨g, hg, i, hi, rfl⟩ := h
  rcases List.mem_append.1 hg with hg | hg
  · exact ⟨g, List.mem_append_left _ hg, i, hi, rfl⟩
  · obtain rfl := List.mem_singleton.1 hg
    have hi' : i ≤ rs.length := hi
    refine ⟨(seg, rs ++ [r]), by simp, i, by simp; omega, ?_⟩
    simp [mark, List.take_append_of_le_length hi']

theorem Boundary.mono {segs segs' : List (Nat × List ρ)} {p : Position} (h : Boundary size segs p)
    (hsub : segs ⊆ segs') : Boundary size segs' p := by
  obtain ⟨g, hg, hp⟩ := h
  exact ⟨g, hsub hg, hp⟩

/-- Boundaries lie at or before the end of the log. -/
theorem Boundary.le_end {p : Position} (h : Boundary size (before ++ [(seg, rs)]) p)
    (hasc : Ascending (before ++ [(seg, rs)])) : p ≤ ⟨seg, bytesOf size rs⟩ := by
  obtain ⟨g, hg, i, hi, rfl⟩ := h
  rcases List.mem_append.1 hg with hg | hg
  · exact Position.le_def.2 (.inl ((ascending_split hasc).1 g hg))
  · obtain rfl := List.mem_singleton.1 hg
    refine Position.le_def.2 (.inr ⟨rfl, ?_⟩)
    have := @bytesOf_take_drop _ size rs i
    dsimp only [mark]
    omega

theorem boundary_end : Boundary size (before ++ [(seg, rs)]) ⟨seg, bytesOf size rs⟩ :=
  ⟨(seg, rs), by simp, rs.length, Nat.le_refl _, by simp [mark]⟩

/-! ## Going on after the last record read -/

/-- **After a record of a sorted log come the records behind it.** -/
theorem filter_after {as bs : List (Placed ρ)} {e : Placed ρ}
    (hs : (as ++ e :: bs).Pairwise (fun a b => a.stop ≤ b.start))
    (hlt : ∀ x ∈ as ++ e :: bs, x.start < x.stop) :
    (as ++ e :: bs).filter (fun x => e.stop ≤ x.start) = bs := by
  obtain ⟨-, h2, h3⟩ := List.pairwise_append.1 hs
  have hsplit : as ++ e :: bs = (as ++ [e]) ++ bs := by simp
  rw [hsplit]
  refine filter_append_right (fun x hx => ?_) (fun x hx => ?_)
  · have he := hlt e (by simp)
    have hxe : x.start < e.stop := by
      rcases List.mem_append.1 hx with hx | hx
      · exact ((hlt x (by simp [hx])).trans_le (h3 x hx e List.mem_cons_self)).trans he
      · rw [List.mem_singleton.1 hx]
        exact he
    simpa using hxe
  · simpa using (List.pairwise_cons.1 h2).1 x hx

/-- Where reading goes on after a batch: behind its last record. -/
def resume (p : Position) (es : List (Placed ρ)) : Position := es.getLast?.elim p (·.stop)

theorem resume_cons (p : Position) (e : Placed ρ) (es : List (Placed ρ)) :
    resume p (e :: es) = resume e.stop es := by
  simp only [resume, List.getLast?_cons]
  cases es.getLast? <;> rfl

/-- **Going on after a batch reads what the batch left.** -/
theorem filter_resume {es : List (Placed ρ)} (hs : es.Pairwise (fun a b => a.stop ≤ b.start))
    (hlt : ∀ x ∈ es, x.start < x.stop) (p : Position) (n : Nat) :
    es.filter (fun e => resume p ((es.filter (fun e => p ≤ e.start)).take n) ≤ e.start) =
      (es.filter (fun e => p ≤ e.start)).drop n := by
  have hsF := hs.filter (fun e => p ≤ e.start)
  generalize hF : es.filter (fun e => p ≤ e.start) = F at hsF
  rcases List.eq_nil_or_concat (F.take n) with h | ⟨as, e, h⟩
  · have hdrop : F.drop n = F := by
      conv => rhs; rw [← List.take_append_drop n F, h]
      rfl
    rw [h, hdrop, ← hF]
    rfl
  · rw [List.concat_eq_append] at h
    have hsplit : F = as ++ e :: F.drop n := by
      conv => lhs; rw [← List.take_append_drop n F, h]
      simp
    have hmem : ∀ x ∈ F, x ∈ es ∧ p ≤ x.start := by
      intro x hx
      rw [← hF] at hx
      simpa using List.mem_filter.1 hx
    have he := hmem e (by rw [hsplit]; simp)
    have hpe : p < e.stop := he.2.trans_lt (hlt e he.1)
    have hres : resume p (F.take n) = e.stop := by simp [resume, h]
    have hsub : es.filter (fun x => e.stop ≤ x.start) = F.filter (fun x => e.stop ≤ x.start) := by
      rw [← hF, List.filter_filter]
      refine List.filter_congr (fun x _ => ?_)
      by_cases hx : e.stop ≤ x.start
      · simp [hx, (hpe.trans_le hx).le]
      · simp [hx]
    rw [hres, hsub]
    conv => lhs; rw [hsplit]
    exact filter_after (hsplit ▸ hsF) (fun x hx => hlt x (hmem x (hsplit ▸ hx)).1)

/-! ## Cutting a log at a position -/

/-- The records `as` stop at or before `p`, the records `bs` start at or after it. -/
structure Cut (es : List (Placed ρ)) (p : Position) (as bs : List (Placed ρ)) : Prop where
  eq : es = as ++ bs
  le : ∀ e ∈ as, e.stop ≤ p
  ge : ∀ e ∈ bs, p ≤ e.start

theorem Boundary.cut {segs : List (Nat × List ρ)} {p : Position} (h : Boundary size segs p)
    (hasc : Ascending segs) : ∃ as bs, Cut (placeAll size segs) p as bs := by
  obtain ⟨⟨seg, rs⟩, hg, i, -, rfl⟩ := h
  obtain ⟨before, after, rfl⟩ := List.append_of_mem hg
  exact ⟨_, _, placeAll_split i, stop_le_of_split hasc i, le_start_of_split hasc i⟩

/-- A sorted log is cut at the end of each of its records. -/
theorem cut_of_sorted {es as bs : List (Placed ρ)} {e : Placed ρ} (heq : es = as ++ e :: bs)
    (hs : es.Pairwise (fun a b => a.stop ≤ b.start)) (hlt : ∀ x ∈ es, x.start < x.stop) :
    Cut es e.stop (as ++ [e]) bs := by
  subst heq
  obtain ⟨-, h2, h3⟩ := List.pairwise_append.1 hs
  refine ⟨by simp, fun x hx => ?_, fun x hx => (List.pairwise_cons.1 h2).1 x hx⟩
  rcases List.mem_append.1 hx with hx | hx
  · exact (h3 x hx e List.mem_cons_self).trans (hlt e (by simp)).le
  · rw [List.mem_singleton.1 hx]

theorem Cut.snoc {es as bs : List (Placed ρ)} {p : Position} (h : Cut es p as bs) {e : Placed ρ}
    (he : p ≤ e.start) : Cut (es ++ [e]) p as (bs ++ [e]) := by
  refine ⟨by rw [h.eq, List.append_assoc], h.le, fun x hx => ?_⟩
  rcases List.mem_append.1 hx with hx | hx
  · exact h.ge x hx
  · rw [List.mem_singleton.1 hx]
    exact he

theorem Cut.filter_from {es as bs : List (Placed ρ)} {p : Position} (h : Cut es p as bs)
    (hlt : ∀ x ∈ es, x.start < x.stop) : es.filter (fun e => p ≤ e.start) = bs := by
  rw [h.eq]
  refine filter_append_right (fun e he => ?_) (fun e he => decide_eq_true (h.ge e he))
  have hes : e ∈ es := h.eq ▸ List.mem_append_left _ he
  exact decide_eq_false (not_le.2 ((hlt e hes).trans_le (h.le e he)))

/-- A record of a sorted log is known by where it stops. -/
theorem stop_injective {es : List (Placed ρ)} (hs : es.Pairwise (fun a b => a.stop ≤ b.start))
    (hlt : ∀ x ∈ es, x.start < x.stop) {e f : Placed ρ} (he : e ∈ es) (hf : f ∈ es)
    (h : e.stop = f.stop) : e = f := by
  obtain ⟨as, bs, rfl⟩ := List.append_of_mem he
  obtain ⟨-, h2, h3⟩ := List.pairwise_append.1 hs
  rcases List.mem_append.1 hf with hf' | hf'
  · have := (h3 f hf' e List.mem_cons_self).trans_lt (hlt e he)
    exact absurd h this.ne'
  · rcases List.mem_cons.1 hf' with rfl | hf'
    · rfl
    · have := ((List.pairwise_cons.1 h2).1 f hf').trans_lt (hlt f hf)
      exact absurd h this.ne

/-- The records of a sorted list that stop by `q` come first. -/
theorem filter_stop_initial {es : List (Placed ρ)} (hs : es.Pairwise (fun a b => a.stop ≤ b.start))
    (hlt : ∀ x ∈ es, x.start < x.stop) (q : Position) : es.filter (fun e => e.stop ≤ q) <+: es := by
  induction es with
  | nil => exact List.prefix_rfl
  | cons x es ih =>
    obtain ⟨hx, hrest⟩ := List.pairwise_cons.1 hs
    have hih := ih hrest (fun y hy => hlt y (List.mem_cons_of_mem _ hy))
    by_cases hq : x.stop ≤ q
    · rw [List.filter_cons_of_pos (by simpa using hq)]
      exact (List.prefix_cons_inj x).2 hih
    · have hnone : (x :: es).filter (fun e => e.stop ≤ q) = [] := by
        rw [List.filter_eq_nil_iff]
        intro y hy
        rcases List.mem_cons.1 hy with rfl | hy'
        · simpa using hq
        · have := (not_le.1 hq).trans_le ((hx y hy').trans (hlt y hy).le)
          simpa using this
      rw [hnone]
      exact List.nil_prefix

end

end OTS
