import OTSecurity.Lib.Bitmap
import OTSecurity.Lib.ODict
import OTSecurity.Lib.Window

/-!
# Duplicate suppression: the circular bitmap refines a set of sequences

Model of `DedupWindow` of `ingest/receiver/sih_receiver/dedup.py`.

* `Stream` — `_Stream`: base, highest, missing and the packed bitmap, indexed by the sequence
  modulo `WINDOW` (`seq & (WINDOW - 1)`).
* `DedupWindow.check` / `DedupWindow.mark` — classification without and with recording; `advance`
  is the loop that evicts one sequence for every sequence the window moves over.
* `classify` / `record` — the set model: the list of recorded sequences, oldest first.

Principal results: `mark_refines` — one call keeps the relation `Refines` between the bitmap and the
set; `dedup_refines_set` — after any sequence of calls on one stream, both calls classify the next
sequence as the set model does, and `missing` and `gapsTotal` count what the set lacks.
-/

namespace OTS.Receiver

open Finset

def WINDOW : ℤ := 65536

def MAX_STREAMS : ℕ := 64

/-- `NEW, REORDERED, DUPLICATE, STALE`. -/
inductive Verdict where
  | new
  | reordered
  | duplicate
  | stale
  deriving DecidableEq, Repr

/-- `_Stream`. -/
structure Stream where
  base : ℤ
  highest : ℤ
  missing : ℤ
  bits : Bitmap 8192

def Stream.init : Stream := ⟨-1, -1, 0, Bitmap.zero 8192⟩

/-- `seq & (WINDOW - 1)` on a two's complement integer. -/
def slot (seq : ℤ) : ℕ := (seq % WINDOW).toNat

def Stream.get (s : Stream) (seq : ℤ) : Bool := s.bits.get (slot seq)

def Stream.set (s : Stream) (seq : ℤ) (value : Bool) : Stream :=
  { s with bits := s.bits.set (slot seq) value }

/-- The counters of `DedupWindow`. -/
structure Totals where
  gapsTotal : ℤ
  duplicatesTotal : ℤ
  reorderedTotal : ℤ
  staleTotal : ℤ
  deriving DecidableEq, Repr

structure DedupWindow extends Totals where
  streams : ODict String Stream

def DedupWindow.init : DedupWindow := ⟨⟨0, 0, 0, 0⟩, ODict.empty⟩

def streamKey (sensorId bootId : String) : String := sensorId ++ "|" ++ bootId

def DedupWindow.check (w : DedupWindow) (sensorId bootId : String) (seq : ℤ) : Verdict :=
  match w.streams.get? (streamKey sensorId bootId) with
  | none => .new
  | some s =>
    if s.highest < 0 ∨ seq > s.highest then .new
    else if seq ≤ s.highest - WINDOW ∨ seq < s.base then .stale
    else if s.get seq then .duplicate else .reordered

/-- One turn of the loop of `mark`: sequence `q` enters, `q - WINDOW` leaves. -/
def evict (st : Stream × ℤ) (q : ℤ) : Stream × ℤ :=
  let evicted := q - WINDOW
  let st' := if evicted ≥ st.1.base ∧ st.1.get evicted = false
    then ({ st.1 with missing := st.1.missing - 1 }, st.2 + 1) else st
  (st'.1.set q false, st'.2)

/-- `for q in range(lo, lo + n)`. -/
def advance (st : Stream × ℤ) (lo : ℤ) (n : ℕ) : Stream × ℤ :=
  (List.range n).foldl (fun st (i : ℕ) => evict st (lo + i)) st

/-- The body of `mark` once the stream of the key is at hand. -/
def Stream.mark (s : Stream) (t : Totals) (seq : ℤ) : Stream × Totals × Verdict :=
  if s.highest < 0 then
    ({ s with base := seq, highest := seq }.set seq true, t, .new)
  else if seq > s.highest then
    let delta := seq - s.highest
    let st := if delta > WINDOW then
        ({ s with bits := Bitmap.zero 8192, missing := WINDOW - 1 },
          t.gapsTotal + (s.missing + (delta - WINDOW)))
      else
        let st := advance (s, t.gapsTotal) (s.highest + 1) delta.toNat
        ({ st.1 with missing := st.1.missing + (delta - 1) }, st.2)
    ({ st.1 with highest := seq }.set seq true, { t with gapsTotal := st.2 }, .new)
  else if seq ≤ s.highest - WINDOW ∨ seq < s.base then
    (s, { t with staleTotal := t.staleTotal + 1 }, .stale)
  else if s.get seq then
    (s, { t with duplicatesTotal := t.duplicatesTotal + 1 }, .duplicate)
  else
    ({ s.set seq true with missing := s.missing - 1 },
      { t with reorderedTotal := t.reorderedTotal + 1 }, .reordered)

/-- The stream dictionary after the lookup of `mark`: a new stream evicts the least recently
marked ones beyond `MAX_STREAMS`, a known one becomes the most recent. -/
def DedupWindow.touch (w : DedupWindow) (key : String) : ODict String Stream :=
  match w.streams.get? key with
  | none =>
    let d := w.streams.set key Stream.init
    d.drop (d.length - MAX_STREAMS)
  | some _ => w.streams.moveToEnd key

def DedupWindow.mark (w : DedupWindow) (sensorId bootId : String) (seq : ℤ) :
    DedupWindow × Verdict :=
  let key := streamKey sensorId bootId
  let s := (w.streams.get? key).getD Stream.init
  let r := s.mark w.toTotals seq
  (⟨r.2.1, (w.touch key).set key r.1⟩, r.2.2)

def DedupWindow.missingInWindow (w : DedupWindow) : ℤ :=
  (w.streams.entries.map (·.2.missing)).sum

/-! ## The set model -/

/-- The greatest recorded sequence. -/
def high (b : ℤ) (S : List ℤ) : ℤ := S.foldl max b

/-- Classification against the recorded sequences `S`, oldest first. -/
def classify (S : List ℤ) (q : ℤ) : Verdict :=
  match S with
  | [] => .new
  | b :: rest =>
    if q > high b rest then .new
    else if q ≤ high b rest - WINDOW ∨ q < b then .stale
    else if q ∈ S then .duplicate else .reordered

def record (S : List ℤ) (q : ℤ) : List ℤ :=
  match classify S q with
  | .new | .reordered => S ++ [q]
  | .duplicate | .stale => S

/-! ## Bits -/

theorem slot_lt (x : ℤ) : slot x < 8 * 8192 := by unfold slot WINDOW; omega

/-- Two sequences less than `WINDOW` apart share a bit only when they are equal. -/
theorem slot_inj {x y : ℤ} (h : slot x = slot y) (h1 : x - y < WINDOW) (h2 : y - x < WINDOW) :
    x = y := by
  unfold slot WINDOW at *; omega

theorem get_set (s : Stream) (q x : ℤ) (value : Bool) :
    (s.set q value).get x = if slot x = slot q then value else s.get x :=
  Bitmap.get_set s.bits (slot_lt q) (slot_lt x) value

@[simp] theorem set_base (s : Stream) (q : ℤ) (value : Bool) : (s.set q value).base = s.base := rfl

@[simp] theorem set_highest (s : Stream) (q : ℤ) (value : Bool) :
    (s.set q value).highest = s.highest := rfl

@[simp] theorem set_missing (s : Stream) (q : ℤ) (value : Bool) :
    (s.set q value).missing = s.missing := rfl

/-! ## The relation between the bitmap and the set -/

/-- The window of a stream that has recorded `S`, first `b`, greatest `h`, with `gaps` sequences
counted as lost. -/
structure Tracks (s : Stream) (gaps : ℤ) (S : Finset ℤ) (b h : ℤ) : Prop where
  base : s.base = b
  highest : s.highest = h
  first_mem : b ∈ S
  high_mem : h ∈ S
  bounds : ∀ x ∈ S, b ≤ x ∧ x ≤ h
  gaps_eq : gaps = unseen S b (h - WINDOW)
  missing_eq : gaps + s.missing = unseen S b h
  bits : ∀ x, b ≤ x → h - WINDOW < x → x ≤ h → s.get x = decide (x ∈ S)

/-- State of the eviction loop after `k` turns: the bits describe the window ending at `h + k`. -/
structure Evicted (s₀ : Stream) (S : Finset ℤ) (b h : ℤ) (k : ℕ) (st : Stream × ℤ) : Prop where
  base : st.1.base = b
  highest : st.1.highest = s₀.highest
  gaps_eq : st.2 = unseen S b (h + k - WINDOW)
  missing_eq : st.2 + st.1.missing = unseen S b h
  bits : ∀ x, b ≤ x → h + k - WINDOW < x → x ≤ h + k → st.1.get x = decide (x ∈ S)

theorem evict_step {s₀ : Stream} {S : Finset ℤ} {b h : ℤ} {k : ℕ} {st : Stream × ℤ}
    (hb : ∀ x ∈ S, b ≤ x ∧ x ≤ h) (hk : (k : ℤ) < WINDOW) (E : Evicted s₀ S b h k st) :
    Evicted s₀ S b h (k + 1) (evict st (h + 1 + k)) := by
  have hW : WINDOW = 65536 := rfl
  obtain ⟨e, he⟩ : ∃ e, e = h + 1 + (k : ℤ) - WINDOW := ⟨_, rfl⟩
  have hgap : (unseen S b (h + (k + 1 : ℕ) - WINDOW) : ℤ) =
      st.2 + if e ≥ b ∧ e ∉ S then 1 else 0 := by
    rw [E.gaps_eq]
    by_cases hbe : e ≥ b
    · have hsucc := unseen_succ S (a := b) (m := e - 1) (by omega)
      rw [show e - 1 + 1 = e by omega] at hsucc
      rw [show h + ((k + 1 : ℕ) : ℤ) - WINDOW = e by push_cast; omega, hsucc,
        show e - 1 = h + k - WINDOW by omega]
      by_cases heS : e ∈ S <;> simp [hbe, heS]
    · rw [unseen_empty (show h + ((k + 1 : ℕ) : ℤ) - WINDOW < b by push_cast; omega),
        unseen_empty (show h + (k : ℤ) - WINDOW < b by omega)]
      simp [hbe]
  have hget : b ≤ e → st.1.get e = decide (e ∈ S) := fun h1 => E.bits e h1 (by omega) (by omega)
  have hcond : (e ≥ st.1.base ∧ st.1.get e = false) ↔ (e ≥ b ∧ e ∉ S) := by
    rw [E.base]
    constructor
    · rintro ⟨h1, h2⟩; rw [hget h1] at h2; exact ⟨h1, by simpa using h2⟩
    · rintro ⟨h1, h2⟩; exact ⟨h1, by rw [hget h1]; simpa using h2⟩
  have hbits : ∀ x, b ≤ x → h + ((k + 1 : ℕ) : ℤ) - WINDOW < x → x ≤ h + ((k + 1 : ℕ) : ℤ) →
      (st.1.set (h + 1 + k) false).get x = decide (x ∈ S) := by
    intro x h1 h2 h3
    push_cast at h2 h3
    rw [get_set]
    split
    · rename_i hs
      have hx := slot_inj hs (by omega) (by omega)
      have : x ∉ S := fun hxS => by have := (hb x hxS).2; omega
      simp [this]
    · rename_i hs
      have : x ≠ h + 1 + k := fun e => hs (e ▸ rfl)
      exact E.bits x h1 (by omega) (by omega)
  unfold evict
  simp only [← he]
  by_cases hc : e ≥ b ∧ e ∉ S
  · rw [if_pos (hcond.2 hc)]
    refine ⟨E.base, E.highest, ?_, ?_, hbits⟩
    · rw [hgap, if_pos hc]
    · simp only [set_missing]; have := E.missing_eq; omega
  · rw [if_neg (fun h => hc (hcond.1 h))]
    refine ⟨E.base, E.highest, ?_, E.missing_eq, hbits⟩
    rw [hgap, if_neg hc, add_zero]

/-- The whole loop: for every jump of at most `WINDOW`. -/
theorem advance_evicted {s : Stream} {gaps : ℤ} {S : Finset ℤ} {b h : ℤ}
    (T : Tracks s gaps S b h) (n : ℕ) (hn : (n : ℤ) ≤ WINDOW) :
    Evicted s S b h n (advance (s, gaps) (h + 1) n) := by
  induction n with
  | zero =>
    refine ⟨T.base, rfl, ?_, T.missing_eq, ?_⟩
    · simpa [advance] using T.gaps_eq
    · simpa [advance] using T.bits
  | succ n ih =>
    have hstep : advance (s, gaps) (h + 1) (n + 1) =
        evict (advance (s, gaps) (h + 1) n) (h + 1 + n) := by
      unfold advance
      rw [List.range_succ, List.foldl_append]
      rfl
    rw [hstep]
    exact evict_step T.bounds (by omega) (ih (by omega))

theorem mark_init {q : ℤ} (hq : 0 ≤ q) (t : Totals) :
    (Stream.init.mark t q).2 = (t, .new) ∧ Tracks (Stream.init.mark t q).1 0 {q} q q := by
  have hW : WINDOW = 65536 := rfl
  have hm : Stream.init.mark t q =
      ({ Stream.init with base := q, highest := q }.set q true, t, .new) := by
    unfold Stream.mark
    rw [if_pos (by decide)]
  rw [hm]
  refine ⟨rfl, ⟨rfl, rfl, by simp, by simp, by simp, ?_, ?_, ?_⟩⟩
  · rw [unseen_empty (by omega)]; rfl
  · rw [unseen_singleton]; simp [Stream.init]
  · intro x h1 _ h3
    have : x = q := by omega
    subst this
    simp [get_set]

/-- Advance by at most `WINDOW`: the loop's gaps, plus the sequences jumped over. -/
theorem mark_advance {s : Stream} {t : Totals} {S : Finset ℤ} {b h q : ℤ}
    (T : Tracks s t.gapsTotal S b h) (h0 : 0 ≤ h) (hq : h < q) (hd : q - h ≤ WINDOW) :
    (s.mark t q).2.2 = .new ∧
      Tracks (s.mark t q).1 (s.mark t q).2.1.gapsTotal (insert q S) b q := by
  have hW : WINDOW = 65536 := rfl
  have hbh : b ≤ h := (T.bounds b T.first_mem).2
  have hout : ∀ x ∈ S, ¬ (h + 1 ≤ x ∧ x ≤ q) := fun x hx hxq => by
    have := (T.bounds x hx).2; omega
  have hjump : unseen (insert q S) b q + 1 = unseen S b h + (q - h).toNat := by
    rw [unseen_insert_in ⟨by omega, le_refl q⟩ (fun hm => hout q hm ⟨by omega, le_refl q⟩),
      unseen_split S (m := h) (by omega) (by omega), unseen_fresh hout]
    congr 2; omega
  have E := advance_evicted T (q - h).toNat (by omega)
  have hm : s.mark t q = ((({ (advance (s, t.gapsTotal) (h + 1) (q - h).toNat).1 with
        missing := (advance (s, t.gapsTotal) (h + 1) (q - h).toNat).1.missing + (q - h - 1),
        highest := q } : Stream).set q true),
      { t with gapsTotal := (advance (s, t.gapsTotal) (h + 1) (q - h).toNat).2 }, .new) := by
    unfold Stream.mark
    rw [T.highest, if_neg (by omega), if_pos (by omega)]
    simp only [if_neg (show ¬ q - h > WINDOW by omega)]
  rw [hm]
  generalize advance (s, t.gapsTotal) (h + 1) (q - h).toNat = st at E
  have hn : h + ((q - h).toNat : ℤ) = q := by omega
  refine ⟨rfl, ⟨E.base, rfl, mem_insert_of_mem T.first_mem, mem_insert_self q S, ?_, ?_, ?_, ?_⟩⟩
  · intro x hx
    rcases mem_insert.1 hx with rfl | hx
    · omega
    · have := T.bounds x hx; omega
  · have := E.gaps_eq
    rw [hn] at this
    rw [unseen_insert_out (by omega)]
    exact this
  · have := E.missing_eq
    simp only [set_missing]
    omega
  · intro x h1 h2 h3
    rw [get_set]
    split
    · rename_i hs
      have := slot_inj hs (by omega) (by omega)
      simp [this]
    · rename_i hs
      have hne : x ≠ q := fun e => hs (e ▸ rfl)
      have := E.bits x h1 (by omega) (by omega)
      simp only [mem_insert, hne, false_or]
      exact this

/-- Advance by more than `WINDOW`: the whole window is lost, and all that lies between. -/
theorem mark_jump {s : Stream} {t : Totals} {S : Finset ℤ} {b h q : ℤ}
    (T : Tracks s t.gapsTotal S b h) (h0 : 0 ≤ h) (hd : q - h > WINDOW) :
    (s.mark t q).2.2 = .new ∧
      Tracks (s.mark t q).1 (s.mark t q).2.1.gapsTotal (insert q S) b q := by
  have hW : WINDOW = 65536 := rfl
  have hbh : b ≤ h := (T.bounds b T.first_mem).2
  have hout : ∀ m, ∀ x ∈ S, ¬ (h + 1 ≤ x ∧ x ≤ m) := fun m x hx hxq => by
    have := (T.bounds x hx).2; omega
  have hm : s.mark t q = ((({ s with
        bits := Bitmap.zero 8192, missing := WINDOW - 1, highest := q } : Stream).set q true),
      { t with gapsTotal := t.gapsTotal + (s.missing + (q - h - WINDOW)) }, .new) := by
    unfold Stream.mark
    rw [T.highest, if_neg (by omega), if_pos (by omega)]
    simp only [if_pos hd]
  rw [hm]
  have hsplit : ∀ m, h ≤ m → unseen S b m = unseen S b h + (m - h).toNat := fun m hm' => by
    rw [unseen_split S (m := h) (by omega) hm', unseen_fresh (hout m)]
    congr 2; omega
  have hme := T.missing_eq
  refine ⟨rfl, ⟨T.base, rfl, mem_insert_of_mem T.first_mem, mem_insert_self q S, ?_, ?_, ?_, ?_⟩⟩
  · intro x hx
    rcases mem_insert.1 hx with rfl | hx
    · omega
    · have := T.bounds x hx; omega
  · rw [unseen_insert_out (by omega), hsplit _ (by omega)]
    push_cast
    omega
  · have hins := unseen_insert_in (S := S) (a := b) (b := q) ⟨by omega, le_refl q⟩
      (fun hm => hout q q hm ⟨by omega, le_refl q⟩)
    rw [hsplit q (by omega)] at hins
    simp only [set_missing]
    omega
  · intro x h1 h2 h3
    rw [get_set]
    split
    · rename_i hs
      have := slot_inj hs (by omega) (by omega)
      simp [this]
    · rename_i hs
      have hne : x ≠ q := fun e => hs (e ▸ rfl)
      have hxS : x ∉ S := fun hx => by have := (T.bounds x hx).2; omega
      have hz : (Bitmap.zero 8192).get (slot x) = false := Bitmap.get_zero _
      simp only [mem_insert, hne, hxS, or_self, decide_false]
      exact hz

/-- Inside the window: stale and duplicate sequences change a counter, a reordered one fills its
gap. -/
theorem mark_window {s : Stream} {t : Totals} {S : Finset ℤ} {b h q : ℤ}
    (T : Tracks s t.gapsTotal S b h) (h0 : 0 ≤ h) (hq : q ≤ h) :
    if q ≤ h - WINDOW ∨ q < b then
      s.mark t q = (s, { t with staleTotal := t.staleTotal + 1 }, .stale)
    else if q ∈ S then
      s.mark t q = (s, { t with duplicatesTotal := t.duplicatesTotal + 1 }, .duplicate)
    else (s.mark t q).2.2 = .reordered ∧ (s.mark t q).2.1.gapsTotal = t.gapsTotal ∧
      Tracks (s.mark t q).1 t.gapsTotal (insert q S) b h := by
  have hm : s.mark t q = if q ≤ h - WINDOW ∨ q < b then
      (s, { t with staleTotal := t.staleTotal + 1 }, .stale)
    else if s.get q then (s, { t with duplicatesTotal := t.duplicatesTotal + 1 }, .duplicate)
    else ({ s.set q true with missing := s.missing - 1 },
      { t with reorderedTotal := t.reorderedTotal + 1 }, .reordered) := by
    unfold Stream.mark
    rw [T.highest, T.base, if_neg (by omega), if_neg (by omega)]
  rw [hm]
  split
  · rfl
  · rename_i hst
    have hget := T.bits q (by omega) (by omega) hq
    rw [hget]
    by_cases hS : q ∈ S
    · simp [hS]
    · simp only [hS, decide_false, Bool.false_eq_true, if_false]
      refine ⟨trivial, trivial, ⟨T.base, T.highest, mem_insert_of_mem T.first_mem,
        mem_insert_of_mem T.high_mem, ?_, ?_, ?_, ?_⟩⟩
      · intro x hx
        rcases mem_insert.1 hx with rfl | hx
        · omega
        · exact T.bounds x hx
      · rw [unseen_insert_out (by omega)]; exact T.gaps_eq
      · have := unseen_insert_in (S := S) (a := b) (b := h) ⟨by omega, hq⟩ hS
        have := T.missing_eq
        show t.gapsTotal + (s.missing - 1) = _
        omega
      · intro x h1 h2 h3
        show (s.set q true).get x = _
        rw [get_set]
        split
        · rename_i hs
          have := slot_inj hs (by omega) (by omega)
          simp [this]
        · rename_i hs
          have hne : x ≠ q := fun e => hs (e ▸ rfl)
          simp only [mem_insert, hne, false_or]
          exact T.bits x h1 h2 h3

/-! ## One stream of a receiver -/

/-- The dictionary holds the stream of `key` alone, tracking the recorded sequences `S`. -/
def Refines (w : DedupWindow) (key : String) (S : List ℤ) : Prop :=
  match S with
  | [] => w.streams.get? key = none ∧ w.gapsTotal = 0 ∧ w.streams.length = 0
  | b :: rest => 0 ≤ b ∧ w.streams.length = 1 ∧
      ∃ s, w.streams.get? key = some s ∧ Tracks s w.gapsTotal (b :: rest).toFinset b (high b rest)

theorem high_append (b : ℤ) (S : List ℤ) (q : ℤ) : high b (S ++ [q]) = max (high b S) q := by
  simp [high]

theorem le_high (b : ℤ) (S : List ℤ) : b ≤ high b S := by
  unfold high
  induction S generalizing b with
  | nil => exact le_refl b
  | cons x S ih => exact le_trans (le_max_left b x) (ih (max b x))

/-- Recording a sequence that is not above the greatest one keeps the greatest one. -/
theorem high_append_of_le {b q : ℤ} {S : List ℤ} (h : q ≤ high b S) :
    high b (S ++ [q]) = high b S := by
  rw [high_append, max_eq_left h]

theorem toFinset_append_one (S : List ℤ) (q : ℤ) : (S ++ [q]).toFinset = insert q S.toFinset := by
  ext x; simp

theorem check_refines {w : DedupWindow} {sensorId bootId : String} {S : List ℤ}
    (R : Refines w (streamKey sensorId bootId) S) (q : ℕ) :
    w.check sensorId bootId q = classify S q := by
  unfold DedupWindow.check
  match S, R with
  | [], R => rw [R.1]; rfl
  | b :: rest, ⟨h0, _, s, hs, T⟩ =>
    have hh := le_high b rest
    rw [hs]
    simp only [T.highest, T.base, classify]
    by_cases h1 : (q : ℤ) > high b rest
    · rw [if_pos (.inr h1), if_pos h1]
    · rw [if_neg (by omega), if_neg h1]
      by_cases h2 : (q : ℤ) ≤ high b rest - WINDOW ∨ (q : ℤ) < b
      · rw [if_pos h2, if_pos h2]
      · rw [if_neg h2, if_neg h2, T.bits q (by omega) (by omega) (by omega)]
        simp only [List.mem_toFinset, decide_eq_true_eq]

/-- `mark` on the only stream replaces that stream and adds none. -/
theorem mark_streams (w : DedupWindow) (key : String) (hl : w.streams.length ≤ 1)
    (hk : w.streams.length = 1 → (w.streams.get? key).isSome) (s : Stream) :
    ((w.touch key).set key s).length = 1 := by
  unfold DedupWindow.touch
  cases hg : w.streams.get? key with
  | none =>
    have hlen : w.streams.length = 0 := by
      by_contra hne
      have := hk (by omega)
      rw [hg] at this
      cases this
    have hnk : key ∉ w.streams.keys := ODict.get?_eq_none.1 hg
    have hset : (w.streams.set key Stream.init).length = 1 := by
      rw [ODict.length_set, if_neg hnk, hlen]
    simp only [hset, MAX_STREAMS, Nat.reduceSub, ODict.drop_zero]
    rw [ODict.length_set, if_pos (ODict.mem_keys_set.2 (.inl rfl)), hset]
  | some v =>
    have hmem : key ∈ w.streams.keys := ODict.get?_isSome.1 (by rw [hg]; rfl)
    have hpos : w.streams.length ≠ 0 := by
      intro h0
      have hnil : w.streams.entries = [] := List.length_eq_zero_iff.1 h0
      simp [ODict.keys, hnil] at hmem
    simp only
    rw [ODict.length_set, if_pos, ODict.length_moveToEnd]
    · omega
    · exact ODict.get?_isSome.1 (by rw [ODict.get?_moveToEnd, hg]; rfl)

/-- **One call of `mark` keeps the refinement and classifies as the set model does.** -/
theorem mark_refines {w : DedupWindow} {sensorId bootId : String} {S : List ℤ}
    (R : Refines w (streamKey sensorId bootId) S) (q : ℕ) :
    (w.mark sensorId bootId q).2 = classify S q ∧
      Refines (w.mark sensorId bootId q).1 (streamKey sensorId bootId) (record S q) := by
  have hW : WINDOW = 65536 := rfl
  have hget : ∀ s, ((w.touch (streamKey sensorId bootId)).set (streamKey sensorId bootId) s).get?
      (streamKey sensorId bootId) = some s := fun s => ODict.get?_set_self _ _ _
  unfold DedupWindow.mark
  match S, R with
  | [], ⟨hnone, hgaps, hlen⟩ =>
    have hl := mark_streams w (streamKey sensorId bootId) (by omega) (by omega)
    obtain ⟨h1, T⟩ := mark_init (q := (q : ℤ)) (by omega) w.toTotals
    simp only [hnone, Option.getD_none, record, classify, List.nil_append]
    refine ⟨by rw [h1], ⟨by omega, hl _, _, hget _, ?_⟩⟩
    rw [h1]
    simpa [hgaps, high] using T
  | b :: rest, ⟨h0, hlen, s, hs, T⟩ =>
    have hh := le_high b rest
    have hl := mark_streams w (streamKey sensorId bootId) (by omega)
      (fun _ => by rw [hs]; rfl)
    simp only [hs, Option.getD_some, record, classify]
    by_cases h1 : (q : ℤ) > high b rest
    · have hm : (s.mark w.toTotals q).2.2 = .new ∧ Tracks (s.mark w.toTotals q).1
          (s.mark w.toTotals q).2.1.gapsTotal (insert (q : ℤ) (b :: rest).toFinset) b q := by
        by_cases hd : (q : ℤ) - high b rest ≤ WINDOW
        · exact mark_advance T (by omega) (by omega) hd
        · exact mark_jump T (by omega) (by omega)
      simp only [if_pos h1]
      refine ⟨hm.1, h0, hl _, _, hget _, ?_⟩
      show Tracks _ _ (b :: (rest ++ [(q : ℤ)])).toFinset b (high b (rest ++ [(q : ℤ)]))
      rw [high_append, max_eq_right (by omega), ← List.cons_append, toFinset_append_one]
      exact hm.2
    · have hm := mark_window T (q := (q : ℤ)) (by omega) (by omega)
      simp only [if_neg h1]
      by_cases h2 : (q : ℤ) ≤ high b rest - WINDOW ∨ (q : ℤ) < b
      · rw [if_pos h2] at hm
        simp only [if_pos h2, hm]
        exact ⟨trivial, h0, hl _, _, hget _, T⟩
      · rw [if_neg h2] at hm
        simp only [if_neg h2]
        by_cases h3 : (q : ℤ) ∈ b :: rest
        · rw [if_pos (List.mem_toFinset.2 h3)] at hm
          simp only [if_pos h3, hm]
          exact ⟨trivial, h0, hl _, _, hget _, T⟩
        · rw [if_neg (fun h => h3 (List.mem_toFinset.1 h))] at hm
          simp only [if_neg h3]
          refine ⟨hm.1, h0, hl _, _, hget _, ?_⟩
          show Tracks _ (s.mark w.toTotals q).2.1.gapsTotal
            (b :: (rest ++ [(q : ℤ)])).toFinset b (high b (rest ++ [(q : ℤ)]))
          rw [high_append_of_le (by omega), ← List.cons_append, toFinset_append_one, hm.2.1]
          exact hm.2.2

/-- The window after a run of `mark` calls on one stream. -/
def marks (sensorId bootId : String) (qs : List ℕ) : DedupWindow :=
  qs.foldl (fun w (q : ℕ) => (w.mark sensorId bootId q).1) DedupWindow.init

/-- The sequences the run has recorded. -/
def recorded (qs : List ℕ) : List ℤ := qs.foldl (fun S (q : ℕ) => record S q) []

theorem marks_refines (sensorId bootId : String) (qs : List ℕ) :
    Refines (marks sensorId bootId qs) (streamKey sensorId bootId) (recorded qs) := by
  induction qs using List.reverseRecOn with
  | nil => exact ⟨rfl, rfl, rfl⟩
  | append_singleton qs q ih =>
    simp only [marks, recorded, List.foldl_append, List.foldl_cons, List.foldl_nil]
    exact (mark_refines ih q).2

/-- **The circular bitmap refines the set model.**  After any calls of `mark` on one stream,
`check` and `mark` classify the next sequence against the set of recorded sequences, and the two
counters are the numbers of unrecorded sequences inside the window and below it. -/
theorem dedup_refines_set (sensorId bootId : String) (qs : List ℕ) (q : ℕ) :
    (marks sensorId bootId qs).check sensorId bootId q = classify (recorded qs) q ∧
    ((marks sensorId bootId qs).mark sensorId bootId q).2 = classify (recorded qs) q ∧
    ∀ b rest, recorded qs = b :: rest → ∃ s,
      (marks sensorId bootId qs).streams.get? (streamKey sensorId bootId) = some s ∧
      s.missing =
        unseen (recorded qs).toFinset (max b (high b rest - 65535)) (high b rest) ∧
      (marks sensorId bootId qs).gapsTotal =
        unseen (recorded qs).toFinset b (high b rest - 65536) ∧
      ((recorded qs).toFinset.card : ℤ) + s.missing + (marks sensorId bootId qs).gapsTotal =
        high b rest - b + 1 := by
  obtain ⟨w, hw⟩ : ∃ w, w = marks sensorId bootId qs := ⟨_, rfl⟩
  obtain ⟨S, hSdef⟩ : ∃ S, S = recorded qs := ⟨_, rfl⟩
  have R : Refines w (streamKey sensorId bootId) S := by
    rw [hw, hSdef]; exact marks_refines sensorId bootId qs
  rw [← hw, ← hSdef]
  refine ⟨check_refines R q, (mark_refines R q).1, ?_⟩
  intro b rest hS
  obtain ⟨h0, _, s, hs, T⟩ : Refines w (streamKey sensorId bootId) (b :: rest) := hS ▸ R
  have hh := le_high b rest
  have hgaps : w.gapsTotal = unseen (b :: rest).toFinset b (high b rest - 65536) := T.gaps_eq
  have hmiss := T.missing_eq
  have hcard := card_add_unseen T.bounds
  refine ⟨s, hs, ?_, hS ▸ hgaps, ?_⟩
  · by_cases hb : b ≤ high b rest - 65535
    · have := unseen_split (b :: rest).toFinset (a := b) (m := high b rest - 65536)
        (b := high b rest) (by omega) (by omega)
      rw [show high b rest - 65536 + 1 = high b rest - 65535 by omega] at this
      rw [hS, max_eq_right hb]
      omega
    · rw [unseen_empty (by omega)] at hgaps
      rw [hS, max_eq_left (by omega)]
      omega
  · rw [hS]
    omega

end OTS.Receiver
