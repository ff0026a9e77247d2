import Mathlib.Logic.Function.Basic
import Mathlib.Data.List.Perm.Subperm
import OTSecurity.Receiver.Dedup

/-!
# The window of many streams

Duplicate suppression for every stream at once: each stream of the dictionary refines the list of
its recorded sequences, and what one call does to the others is nothing, or to forget them.

* `StreamRefines`, `WindowRefines` — a stream, and the window, against recorded sequences.

Principal results: `WindowRefines.mark` — one call of `mark`; `WindowRefines.mark_room` — with at
most `MAX_STREAMS` streams nothing is forgotten; `classify_of_mem` — what is recorded is never
classified as new again.
-/

namespace OTS.Receiver

open Function

/-! ## One stream -/

theorem evict_fst {st st' : Stream × ℤ} (h : st.1 = st'.1) (q : ℤ) :
    (evict st q).1 = (evict st' q).1 := by
  unfold evict
  rw [h]
  dsimp only
  split
  · rfl
  · rw [h]

theorem advance_fst (s : Stream) (g g' lo : ℤ) (n : ℕ) :
    (advance (s, g) lo n).1 = (advance (s, g') lo n).1 := by
  unfold advance
  induction n with
  | zero => rfl
  | succ n ih =>
    rw [List.range_succ, List.foldl_append, List.foldl_append]
    exact evict_fst ih _

/-- What `mark` does to a stream does not depend on the counters of the window. -/
theorem mark_counters (s : Stream) (t t' : Totals) (q : ℤ) :
    (s.mark t q).1 = (s.mark t' q).1 ∧ (s.mark t q).2.2 = (s.mark t' q).2.2 := by
  unfold Stream.mark
  dsimp only
  rw [advance_fst s t.gapsTotal t'.gapsTotal]
  split_ifs
  · exact ⟨rfl, rfl⟩
  · exact ⟨rfl, rfl⟩
  · exact ⟨rfl, rfl⟩
  · exact ⟨rfl, rfl⟩
  · exact ⟨rfl, rfl⟩
  · exact ⟨rfl, rfl⟩

/-- A stream that has recorded the sequences of a list, oldest first. -/
def StreamRefines (s : Stream) : List ℤ → Prop
  | [] => False
  | b :: rest => 0 ≤ b ∧ ∃ g, Tracks s g (b :: rest).toFinset b (high b rest)

theorem StreamRefines.first {t : Totals} (q : ℕ) :
    (Stream.init.mark t q).2.2 = .new ∧ StreamRefines (Stream.init.mark t q).1 [(q : ℤ)] := by
  obtain ⟨hv, T⟩ := mark_init (q := (q : ℤ)) (by omega) t
  refine ⟨by rw [hv], by omega, 0, ?_⟩
  simpa [high] using T

theorem StreamRefines.mark {s : Stream} {S : List ℤ} (R : StreamRefines s S) (t : Totals) (q : ℕ) :
    (s.mark t q).2.2 = classify S q ∧ StreamRefines (s.mark t q).1 (record S q) := by
  cases S with
  | nil => exact R.elim
  | cons b rest =>
    obtain ⟨h0, g, T⟩ := R
    -- the stream alone in a window whose counter is the one it tracks
    let w : DedupWindow := ⟨⟨g, 0, 0, 0⟩, ODict.empty.set (streamKey "" "") s⟩
    have hget : w.streams.get? (streamKey "" "") = some s := ODict.get?_set_self _ _ _
    have R₁ : Refines w (streamKey "" "") (b :: rest) :=
      ⟨h0, by rw [ODict.length_set]; rfl, s, hget, T⟩
    obtain ⟨hv, R₂⟩ := mark_refines R₁ q
    obtain ⟨hfst, hsnd⟩ := mark_counters s t w.toTotals q
    have hmark : (w.mark "" "" q).2 = (s.mark w.toTotals q).2.2 ∧
        (w.mark "" "" q).1.streams.get? (streamKey "" "") = some (s.mark w.toTotals q).1 := by
      unfold DedupWindow.mark
      dsimp only
      rw [hget]
      exact ⟨rfl, ODict.get?_set_self _ _ _⟩
    rw [hfst, hsnd, ← hmark.1]
    refine ⟨hv, ?_⟩
    have hne : record (b :: rest) q ≠ [] := by
      unfold record
      split <;> simp
    cases hrec : record (b :: rest) q with
    | nil => exact absurd hrec hne
    | cons b' rest' =>
      rw [hrec] at R₂
      obtain ⟨h0', _, s', hs', T'⟩ := R₂
      rw [hmark.2, Option.some.injEq] at hs'
      exact ⟨h0', _, hs' ▸ T'⟩

/-! ## Recorded sequences -/

theorem mem_le_high {b q : ℤ} {S : List ℤ} (h : q ∈ b :: S) : q ≤ high b S := by
  unfold high
  induction S generalizing b with
  | nil => exact le_of_eq (List.mem_singleton.1 h)
  | cons x S ih =>
    rcases List.mem_cons.1 h with rfl | h
    · exact le_trans (le_max_left _ _) (le_high (max q x) S)
    · rcases List.mem_cons.1 h with rfl | h
      · exact le_trans (le_max_right _ _) (le_high (max b q) S)
      · exact ih (List.mem_cons_of_mem _ h)

/-- **What is recorded is never new again.** -/
theorem classify_of_mem {S : List ℤ} {q : ℤ} (h : q ∈ S) :
    classify S q = .duplicate ∨ classify S q = .stale := by
  cases S with
  | nil => cases h
  | cons b rest =>
    have hle := mem_le_high h
    simp only [classify]
    rw [if_neg (by omega), if_pos h]
    split
    · exact .inr rfl
    · exact .inl rfl

theorem mem_of_duplicate {S : List ℤ} {q : ℤ} (h : classify S q = .duplicate) : q ∈ S := by
  cases S with
  | nil => cases h
  | cons b rest =>
    simp only [classify] at h
    split at h
    · cases h
    split at h
    · cases h
    split at h
    · assumption
    · cases h

theorem record_old {S : List ℤ} {q : ℤ}
    (h : classify S q = .duplicate ∨ classify S q = .stale) : record S q = S := by
  unfold record
  rcases h with h | h <;> rw [h]

theorem record_new {S : List ℤ} {q : ℤ} (h : classify S q ≠ .duplicate ∧ classify S q ≠ .stale) :
    record S q = S ++ [q] := by
  unfold record
  split
  · rfl
  · rfl
  · exact absurd (by assumption) h.1
  · exact absurd (by assumption) h.2

theorem mem_record {S : List ℤ} {q x : ℤ} (h : x ∈ S) : x ∈ record S q := by
  unfold record
  split
  · exact List.mem_append_left _ h
  · exact List.mem_append_left _ h
  · exact h
  · exact h

theorem mem_of_mem_record {S : List ℤ} {q x : ℤ} (h : x ∈ record S q) : x ∈ S ∨ x = q := by
  unfold record at h
  split at h
  · simpa using h
  · simpa using h
  · exact .inl h
  · exact .inl h

/-- What is too old, or recorded, stays so. -/
theorem record_keeps_old {S : List ℤ} {q : ℤ} (r : ℤ)
    (h : classify S q = .duplicate ∨ classify S q = .stale) :
    classify (record S r) q = .duplicate ∨ classify (record S r) q = .stale := by
  by_cases hr : classify S r = .duplicate ∨ classify S r = .stale
  · rw [record_old hr]
    exact h
  rw [record_new (not_or.1 hr)]
  cases S with
  | nil => rcases h with h | h <;> cases h
  | cons b rest =>
    have hle : q ≤ high b rest := by
      by_contra hgt
      rcases h with h | h <;> simp [classify, not_le.1 hgt] at h
    have hhigh : high b (rest ++ [r]) = max (high b rest) r := high_append b rest r
    by_cases hstale : q ≤ high b (rest ++ [r]) - WINDOW ∨ q < b
    · refine .inr ?_
      simp only [List.cons_append, classify]
      rw [if_neg (by omega), if_pos hstale]
    · refine classify_of_mem (List.mem_append_left _ ?_)
      rcases h with h | h
      · exact mem_of_duplicate h
      · simp only [classify] at h
        rw [if_neg (by omega), if_neg (by omega)] at h
        split at h <;> cases h

/-- After it has been recorded, a sequence is old. -/
theorem record_self_old (S : List ℤ) (q : ℤ) :
    classify (record S q) q = .duplicate ∨ classify (record S q) q = .stale := by
  by_cases hq : classify S q = .duplicate ∨ classify S q = .stale
  · rw [record_old hq]
    exact hq
  · rw [record_new (not_or.1 hq)]
    exact classify_of_mem (List.mem_append_right _ (List.mem_singleton.2 rfl))

/-! ## The window -/

/-- Every stream refines its recorded sequences; a stream that is not there has none. -/
def WindowRefines (w : DedupWindow) (M : String → List ℤ) : Prop :=
  ∀ key, match w.streams.get? key with
    | none => M key = []
    | some s => StreamRefines s (M key)

variable {w : DedupWindow} {M : String → List ℤ}

theorem WindowRefines.none (R : WindowRefines w M) {key : String} (h : w.streams.get? key = none) :
    M key = [] := by
  have := R key
  rwa [h] at this

theorem WindowRefines.some (R : WindowRefines w M) {key : String} {s : Stream}
    (h : w.streams.get? key = some s) : StreamRefines s (M key) := by
  have := R key
  rwa [h] at this

theorem windowRefines_init : WindowRefines .init (fun _ => []) := fun _ => rfl

theorem WindowRefines.check (R : WindowRefines w M) (sensorId bootId : String) (q : ℕ) :
    w.check sensorId bootId q = classify (M (streamKey sensorId bootId)) q := by
  unfold DedupWindow.check
  cases h : w.streams.get? (streamKey sensorId bootId) with
  | none => rw [R.none h]; rfl
  | some s =>
    have hs := R.some h
    cases hM : M (streamKey sensorId bootId) with
    | nil => rw [hM] at hs; exact hs.elim
    | cons b rest =>
      rw [hM] at hs
      obtain ⟨h0, g, T⟩ := hs
      have hh := le_high b rest
      simp only [T.highest, T.base, classify]
      by_cases h1 : (q : ℤ) > high b rest
      · rw [if_pos (.inr h1), if_pos h1]
      · rw [if_neg (by omega), if_neg h1]
        by_cases h2 : (q : ℤ) ≤ high b rest - WINDOW ∨ (q : ℤ) < b
        · rw [if_pos h2, if_pos h2]
        · rw [if_neg h2, if_neg h2, T.bits q (by omega) (by omega) (by omega)]
          simp only [List.mem_toFinset, decide_eq_true_eq]

/-- The stream that `mark` leaves under its key. -/
theorem WindowRefines.marked (R : WindowRefines w M) (key : String) (q : ℕ) :
    (((w.streams.get? key).getD Stream.init).mark w.toTotals q).2.2 = classify (M key) q ∧
    StreamRefines (((w.streams.get? key).getD Stream.init).mark w.toTotals q).1
      (record (M key) q) := by
  cases h : w.streams.get? key with
  | none =>
    rw [R.none h]
    exact StreamRefines.first q
  | some s => exact (R.some h).mark w.toTotals q

theorem get?_drop {d : ODict String Stream} {n : ℕ} {k : String} {s : Stream}
    (h : (d.drop n).get? k = .some s) : d.get? k = .some s :=
  ODict.mem_entries.1 (List.mem_of_mem_drop (ODict.mem_entries.2 h))

/-- The streams that are left when room is made for a key. -/
theorem get?_touch {key k : String} (hk : k ≠ key) {s : Stream}
    (h : (w.touch key).get? k = Option.some s) : w.streams.get? k = Option.some s := by
  unfold DedupWindow.touch at h
  split at h
  · have := get?_drop h
    rwa [ODict.get?_set, if_neg hk] at this
  · rwa [ODict.get?_moveToEnd] at h

/-- **One call of `mark`.**  The stream of the key records the sequence; the others are as before, or
forgotten to make room. -/
theorem WindowRefines.mark (R : WindowRefines w M) (sensorId bootId : String) (q : ℕ) :
    (w.mark sensorId bootId q).2 = classify (M (streamKey sensorId bootId)) q ∧
    ∃ M', WindowRefines (w.mark sensorId bootId q).1 M' ∧
      M' (streamKey sensorId bootId) = record (M (streamKey sensorId bootId)) q ∧
      ∀ k ≠ streamKey sensorId bootId, M' k = M k ∨ M' k = [] := by
  obtain ⟨hv, hR⟩ := R.marked (streamKey sensorId bootId) q
  refine ⟨hv, fun k => if k = streamKey sensorId bootId then record (M (streamKey sensorId bootId)) q
    else if ((w.touch (streamKey sensorId bootId)).get? k).isSome then M k else [], ?_, ?_, ?_⟩
  · intro k
    show match ((w.touch (streamKey sensorId bootId)).set _ _).get? k with
      | Option.none => _
      | Option.some s => _
    rw [ODict.get?_set]
    by_cases hk : k = streamKey sensorId bootId
    · simp only [hk, if_true]
      exact hR
    · simp only [hk, if_false]
      cases ht : (w.touch (streamKey sensorId bootId)).get? k with
      | none => rfl
      | some s => exact R.some (get?_touch hk ht)
  · exact if_pos rfl
  · intro k hk
    simp only [if_neg hk]
    split
    · exact .inl rfl
    · exact .inr rfl

/-! ## At most `MAX_STREAMS` streams -/

/-- The streams of the window are among the given ones. -/
def Within (keys : List String) (w : DedupWindow) : Prop := ∀ k ∈ w.streams.keys, k ∈ keys

theorem within_init (keys : List String) : Within keys .init := by rintro k ⟨⟩

theorem Within.length_le {keys : List String} (h : Within keys w) :
    w.streams.length ≤ keys.length := by
  have hn : w.streams.keys.Nodup := w.streams.nodup
  have := (List.subperm_of_subset hn h).length_le
  simpa [ODict.keys, ODict.length] using this

/-- With a key that is among them, there is room for it. -/
theorem Within.room {keys : List String} (h : Within keys w) {key : String} (hkey : key ∈ keys)
    (hnew : key ∉ w.streams.keys) : w.streams.length < keys.length := by
  have hn : (key :: w.streams.keys).Nodup := List.nodup_cons.2 ⟨hnew, w.streams.nodup⟩
  have hsub : ∀ k ∈ key :: w.streams.keys, k ∈ keys := by
    intro k hk
    rcases List.mem_cons.1 hk with rfl | hk
    · exact hkey
    · exact h k hk
  have := (List.subperm_of_subset hn hsub).length_le
  simp only [List.length_cons] at this
  have hlen : w.streams.keys.length = w.streams.length := List.length_map _
  omega

theorem Within.get?_touch {keys : List String} (h : Within keys w) (hlen : keys.length ≤ MAX_STREAMS)
    {key k : String} (hkey : key ∈ keys) (hk : k ≠ key) :
    (w.touch key).get? k = w.streams.get? k := by
  unfold DedupWindow.touch
  split
  · rename_i hnone
    have hnew : key ∉ w.streams.keys := ODict.get?_eq_none.1 hnone
    have hroom := h.room hkey hnew
    dsimp only
    rw [show (w.streams.set key Stream.init).length - MAX_STREAMS = 0 by
      rw [ODict.length_set, if_neg hnew]; omega]
    simp only [ODict.drop_zero]
    rw [ODict.get?_set, if_neg hk]
  · exact ODict.get?_moveToEnd _ _ _

/-- **With at most `MAX_STREAMS` streams nothing is forgotten.** -/
theorem WindowRefines.mark_room (R : WindowRefines w M) {keys : List String} (h : Within keys w)
    (hlen : keys.length ≤ MAX_STREAMS) {sensorId bootId : String}
    (hkey : streamKey sensorId bootId ∈ keys) (q : ℕ) :
    WindowRefines (w.mark sensorId bootId q).1
      (update M (streamKey sensorId bootId) (record (M (streamKey sensorId bootId)) q)) ∧
    Within keys (w.mark sensorId bootId q).1 := by
  have hget : ∀ k, (w.mark sensorId bootId q).1.streams.get? k =
      if k = streamKey sensorId bootId then
        Option.some (((w.streams.get? (streamKey sensorId bootId)).getD Stream.init).mark w.toTotals q).1
      else w.streams.get? k := by
    intro k
    show ((w.touch (streamKey sensorId bootId)).set _ _).get? k = _
    rw [ODict.get?_set]
    by_cases hk : k = streamKey sensorId bootId
    · rw [if_pos hk, if_pos hk]
    · rw [if_neg hk, if_neg hk, h.get?_touch hlen hkey hk]
  constructor
  · intro k
    rw [hget]
    by_cases hk : k = streamKey sensorId bootId
    · rw [if_pos hk, hk, update_self]
      exact (R.marked _ q).2
    · rw [if_neg hk, update_of_ne hk]
      exact R k
  · intro k hk
    rw [← ODict.get?_isSome, hget] at hk
    by_cases hkk : k = streamKey sensorId bootId
    · exact hkk ▸ hkey
    · rw [if_neg hkk] at hk
      exact h k (ODict.get?_isSome.1 hk)

end OTS.Receiver
