import OTSecurity.Receiver.SpoolLog

/-!
# The space of the spool

The byte accounting of the spool over every run of appends, syncs, releases and reopenings, whatever
a crash keeps, and whether space comes back once everything is released.

* `Accounted` — what holds of total, sizes and segments in every state.
* `Space` — the invariant: the segments held, the total as their sum, each within its limit.
* `Recovers` — with everything up to `end()` released, every record of at most half the limit is
  accepted; `RoomLeft` — the newest segment leaves room for it.

Principal result: `spool_space` — the accounting holds in every run, the spool recovers exactly in
the states whose newest segment leaves room, and in every run whose appends leave room.
-/

namespace OTS.Receiver

/-- The bytes of the segments held. -/
def totalOf (segs : List (Nat × List Rec)) : Nat := (segs.map fun g => bytesOf recSize g.2).sum

/-- A segment within its limit: up to `segmentBytes`, or a single record. -/
def WithinSegment (segmentBytes : Nat) (g : Nat × List Rec) : Prop :=
  bytesOf recSize g.2 ≤ segmentBytes ∨ g.2.length ≤ 1

/-- The segments held, their total and their limits. -/
structure Space (maxBytes segmentBytes : Nat) (spool : Spool) (disk : Disk)
    (older : List (Nat × List Rec)) (rs : List Rec) : Prop where
  holds : Holds spool disk (held spool.active older rs)
  limit : spool.maxBytes = maxBytes
  segment : spool.segmentBytes = segmentBytes
  total : spool.total = totalOf (held spool.active older rs)
  total_le : spool.total ≤ maxBytes
  fits : ∀ g ∈ held spool.active older rs, WithinSegment segmentBytes g

variable {maxBytes segmentBytes : Nat} {spool : Spool} {disk : Disk}
  {older : List (Nat × List Rec)} {rs : List Rec}

theorem totalOf_held (newest : Nat) (older : List (Nat × List Rec)) (rs : List Rec) :
    totalOf (held newest older rs) = totalOf older + bytesOf recSize rs := by
  simp [totalOf, held]

/-! ## Every operation keeps the accounting -/

theorem space_init : ∃ older rs, Space maxBytes segmentBytes
    (SpoolSys.init maxBytes segmentBytes).spool (SpoolSys.init maxBytes segmentBytes).disk older rs := by
  refine ⟨[], [], (shape_init maxBytes segmentBytes).holds, rfl, rfl, rfl, Nat.zero_le _, ?_⟩
  intro g hg
  rw [List.mem_singleton.1 hg]
  exact .inr (Nat.zero_le _)

/-- A record is written where the append rule puts it. -/
theorem Space.write (h : Space maxBytes segmentBytes spool disk older rs) {r : Rec} (hr : Stored r)
    (hroom : spool.total + recSize r ≤ maxBytes)
    (hfit : bytesOf recSize rs + recSize r ≤ segmentBytes ∨ rs = []) :
    Space maxBytes segmentBytes (spool.writeRecord disk (frame crc32 (bodyOf r))).1
      (spool.writeRecord disk (frame crc32 (bodyOf r))).2 older (rs ++ [r]) where
  holds := h.holds.write hr
  limit := h.limit
  segment := h.segment
  total := by
    have htotal := h.total
    rw [totalOf_held] at htotal ⊢
    simp only [Spool.writeRecord, frame_length, bytesOf_append, bytesOf_cons, bytesOf_nil]
    unfold recSize at *
    omega
  total_le := by
    simp only [Spool.writeRecord, frame_length]
    exact hroom
  fits := by
    intro g hg
    rcases List.mem_append.1 hg with hg | hg
    · exact h.fits g (List.mem_append_left _ hg)
    · rw [List.mem_singleton.1 hg]
      rcases hfit with hfit | rfl
      · exact .inl (by simpa using hfit)
      · exact .inr (by simp)

theorem Space.rotate (h : Space maxBytes segmentBytes spool disk older rs) :
    Space maxBytes segmentBytes (spool.openSegment disk (spool.active + 1)).1
      (spool.openSegment disk (spool.active + 1)).2 (held spool.active older rs) [] where
  holds := h.holds.rotate
  limit := h.limit
  segment := h.segment
  total := h.total.trans (by simp [totalOf, held])
  total_le := h.total_le
  fits := by
    intro g hg
    rcases List.mem_append.1 hg with hg | hg
    · exact h.fits g hg
    · rw [List.mem_singleton.1 hg]
      exact .inr (Nat.zero_le _)

theorem Space.append (h : Space maxBytes segmentBytes spool disk older rs) {r : CallerRec}
    {ok : Bool} {spool' : Spool} {disk' : Disk}
    (happ : spool.append disk r.val = some (ok, spool', disk')) :
    (∃ older' rs', Space maxBytes segmentBytes spool' disk' older' rs') ∧
      spool.active ≤ spool'.active ∧
      (∀ k ∈ spool'.sizes.keys, k ∈ spool.sizes.keys ∨ ∀ j ∈ spool.sizes.keys, j < k) := by
  have hold : spool.sizes.keys = (held spool.active older rs).map (·.1) := h.holds.keys
  obtain ⟨hst, ⟨_, heq⟩ | ⟨hroom, _, heq⟩ | ⟨hroom, hkeep, heq⟩⟩ := append_cases happ
  · cases heq
    exact ⟨⟨_, _, h⟩, le_refl _, fun k hk => .inl hk⟩
  · cases heq
    have hnew := h.rotate.write hst (h.limit ▸ hroom) (.inr rfl)
    refine ⟨⟨_, _, hnew⟩, Nat.le_succ _, ?_⟩
    intro k hk
    have hk' : k ∈ (held (spool.active + 1) (held spool.active older rs) ([] ++ [r.val])).map
      (·.1) := hnew.holds.keys ▸ hk
    rw [held, List.map_append, ← hold] at hk'
    rcases List.mem_append.1 hk' with hk' | hk'
    · exact .inl hk'
    · refine .inr ?_
      intro j hj
      rw [hold] at hj
      obtain ⟨g, hg, rfl⟩ := List.mem_map.1 hj
      rw [List.mem_singleton.1 hk']
      exact Nat.lt_succ_of_le (h.holds.le_active g hg)
  · cases heq
    have hfit : bytesOf recSize rs + recSize r.val ≤ segmentBytes ∨ rs = [] := by
      rw [h.holds.activeSize, h.segment] at hkeep
      rcases Classical.em (rs = []) with hnil | hne
      · exact .inr hnil
      · have := bytesOf_pos recSize_pos hne
        exact .inl (by omega)
    have hnew := h.write hst (h.limit ▸ hroom) hfit
    refine ⟨⟨_, _, hnew⟩, le_refl _, fun k hk => .inl ?_⟩
    have hk' : k ∈ (held spool.active older (rs ++ [r.val])).map (·.1) := hnew.holds.keys ▸ hk
    rw [hold]
    simpa [held] using hk'

theorem Space.dropSegment {g : Nat × List Rec}
    (h : Space maxBytes segmentBytes spool disk (g :: older) rs) :
    Space maxBytes segmentBytes (spool.dropSegment g.1) (disk.dropSegment g.1) older rs where
  holds := h.holds.dropSegment
  limit := h.limit
  segment := h.segment
  total := by
    have hsize : (spool.sizes.get? g.1).getD 0 = bytesOf recSize g.2 := by
      have := @Holds.size spool disk [] (held spool.active older rs) g.1 g.2 h.holds
      rw [this, Option.getD_some]
    have htotal := h.total
    simp only [Spool.dropSegment, hsize, totalOf, held, List.cons_append, List.map_cons,
      List.sum_cons] at htotal ⊢
    omega
  total_le := (Nat.sub_le _ _).trans h.total_le
  fits := fun x hx => h.fits x (List.mem_cons_of_mem _ hx)

/-- `release` drops the segments before `acked` and keeps the newest as it is. -/
theorem Space.releaseLoop (acked : Position)
    (h : Space maxBytes segmentBytes spool disk older rs) :
    ∃ spool' disk', Spool.releaseLoop acked (older.map (·.1) ++ [spool.active]) (spool, disk) =
        (spool', disk') ∧
      Space maxBytes segmentBytes spool' disk' (older.dropWhile (before acked)) rs ∧
      spool'.active = spool.active := by
  induction older generalizing spool disk with
  | nil =>
    refine ⟨spool, disk, ?_, h, rfl⟩
    simp [Spool.releaseLoop]
  | cons g older ih =>
    have hne := h.holds.older_lt g List.mem_cons_self
    by_cases hg : g.1 < acked.seg
    · obtain ⟨spool', disk', heq, hspace, hactive⟩ := ih h.dropSegment
      refine ⟨spool', disk', ?_, by simpa [before, hg] using hspace, hactive⟩
      rw [List.map_cons, List.cons_append, Spool.releaseLoop, if_neg (by omega)]
      exact heq
    · refine ⟨spool, disk, ?_, by simpa [before, hg] using h, rfl⟩
      rw [List.map_cons, List.cons_append, Spool.releaseLoop, if_pos (by omega)]

theorem Space.release (h : Space maxBytes segmentBytes spool disk older rs) (acked : Position) :
    Space maxBytes segmentBytes (spool.release disk acked).1 (spool.release disk acked).2
        (older.dropWhile (before acked)) rs ∧
      (spool.release disk acked).1.active = spool.active := by
  rw [h.holds.release_eq]
  obtain ⟨spool', disk', heq, hspace, hactive⟩ := h.releaseLoop acked
  rw [heq]
  exact ⟨hspace, hactive⟩

/-- **Reopening after any crash.**  The newest segment is cut back to whole records. -/
theorem Space.crash (h : Space maxBytes segmentBytes spool disk older rs) (kept stable : Nat) :
    ∃ spool' disk' j, Spool.open maxBytes segmentBytes (disk.crash spool.active kept stable) =
        (spool', disk') ∧
      Space maxBytes segmentBytes spool' disk' older (rs.take j) ∧ spool'.active = spool.active := by
  obtain ⟨j, torn, htorn, _, hfiles, hasc, hst, _⟩ := h.holds.crash_files kept stable
  obtain ⟨spool', disk', hopen, hholds, hactive, _, _, _⟩ :=
    open_torn maxBytes segmentBytes hasc hst htorn hfiles
  have hfields : spool'.maxBytes = maxBytes ∧ spool'.segmentBytes = segmentBytes ∧
      spool'.total = (spool'.sizes.entries.map (·.2)).sum := by
    have h1 : spool' = (Spool.open maxBytes segmentBytes (disk.crash spool.active kept stable)).1 := by
      rw [hopen]
    rw [h1]
    unfold Spool.open
    split <;> exact ⟨rfl, rfl, rfl⟩
  have hcut : bytesOf recSize (rs.take j) ≤ bytesOf recSize rs := by
    have := @bytesOf_take_drop _ recSize rs j
    omega
  have htotal : spool'.total = totalOf (held spool.active older (rs.take j)) := by
    rw [hfields.2.2, hholds.sizes, List.map_map]
    rfl
  refine ⟨spool', disk', j, hopen, ⟨hactive ▸ hholds, hfields.1, hfields.2.1, hactive ▸ htotal, ?_,
    ?_⟩, hactive⟩
  · have hle := h.total_le
    rw [h.total] at hle
    rw [htotal]
    rw [totalOf_held] at hle ⊢
    omega
  · rw [hactive]
    intro g hg
    rcases List.mem_append.1 hg with hg | hg
    · exact h.fits g (List.mem_append_left _ hg)
    · rw [List.mem_singleton.1 hg]
      have hlen : (rs.take j).length ≤ rs.length := by
        rw [List.length_take]
        exact Nat.min_le_right _ _
      rcases h.fits (spool.active, rs) (by simp [held]) with hfit | hfit
      · exact .inl (hcut.trans hfit)
      · exact .inr (hlen.trans hfit)

/-! ## Runs -/

namespace SpoolSys

/-- The accounting of a state: the sizes are those of the segment files, the total is their sum and
within the limit, a segment over its limit is a single record, and the newest has the highest id. -/
structure Accounted (maxBytes segmentBytes : Nat) (s : SpoolSys) : Prop where
  sizes : s.spool.sizes.entries = s.disk.files.entries.map (fun e => (e.1, e.2.length))
  total : s.spool.total = (s.disk.files.entries.map (fun e => e.2.length)).sum
  total_le : s.spool.total ≤ maxBytes
  segments : ∀ e ∈ s.disk.files.entries, e.2.length ≤ segmentBytes ∨
    ∃ r, Stored r ∧ e.2 = frame crc32 (bodyOf r)
  increasing : s.spool.sizes.keys.Pairwise (· < ·)
  newest : s.spool.sizes.keys.max? = some s.spool.active

/-- Segment ids only go up: a segment not there before is numbered above those that were. -/
def IdsIncrease (s s' : SpoolSys) : Prop :=
  s.spool.active ≤ s'.spool.active ∧
    ∀ k ∈ s'.spool.sizes.keys, k ∈ s.spool.sizes.keys ∨ ∀ j ∈ s.spool.sizes.keys, j < k

/-- The spool with everything up to `end()` released. -/
def released (s : SpoolSys) : Spool × Disk := s.spool.release s.disk s.spool.endPosition

/-- Once everything is released, a record of at most half the limit is accepted. -/
def Recovers (maxBytes : Nat) (s : SpoolSys) : Prop :=
  ∀ (r : CallerRec) (rec : Bytes), encodeRec r.val = some rec → 2 * rec.length ≤ maxBytes →
    ∃ spool disk, s.released.1.append s.released.2 r.val = some (true, spool, disk)

/-- The newest segment leaves room for every record of at most half the limit. -/
def RoomLeft (maxBytes : Nat) (s : SpoolSys) : Prop :=
  ∀ (r : CallerRec) (rec : Bytes), encodeRec r.val = some rec → 2 * rec.length ≤ maxBytes →
    s.spool.activeSize + rec.length ≤ maxBytes

/-- What is in the newest segment once a record of `n` bytes is written. -/
def sizeAfter (s : SpoolSys) (n : Nat) : Nat :=
  if 0 < s.spool.activeSize ∧ s.spool.segmentBytes < s.spool.activeSize + n then n
  else s.spool.activeSize + n

/-- An accepted record leaves the newest segment with at most the larger half of the limit. -/
def LeavesRoom (maxBytes : Nat) (s : SpoolSys) : SpoolOp → Prop
  | .append r => ∀ rec, encodeRec r.val = some rec → s.spool.total + rec.length ≤ maxBytes →
      s.sizeAfter rec.length ≤ maxBytes - maxBytes / 2
  | _ => True

end SpoolSys

variable {s : SpoolSys}

theorem Space.accounted (h : Space maxBytes segmentBytes s.spool s.disk older rs) :
    s.Accounted maxBytes segmentBytes where
  sizes := by
    rw [h.holds.sizes, h.holds.files, List.map_map]
    exact List.map_congr_left fun g _ => by simp
  total := by
    rw [h.total, h.holds.files, List.map_map, totalOf]
    congr 1
    exact List.map_congr_left fun g _ => by simp
  total_le := h.total_le
  segments := by
    intro e he
    rw [h.holds.files] at he
    obtain ⟨g, hg, rfl⟩ := List.mem_map.1 he
    rcases h.fits g hg with hfit | hfit
    · exact .inl (by simpa using hfit)
    · cases hrs : g.2 with
      | nil => exact .inl (by simp)
      | cons r tl =>
        rw [hrs, List.length_cons] at hfit
        obtain rfl : tl = [] := List.length_eq_zero_iff.1 (by omega)
        refine .inr ⟨r, h.holds.stored g hg r (by rw [hrs]; simp), ?_⟩
        simp [fileBytes, framesOf]
  increasing := by
    rw [h.holds.keys]
    exact (List.pairwise_map (f := Prod.fst) (R := (· < ·))).2 h.holds.asc
  newest := by rw [h.holds.keys, max?_ascending h.holds.asc]

/-- What one operation does to the space and the newest segment. -/
theorem Space.step (h : Space maxBytes segmentBytes s.spool s.disk older rs) {op : SpoolOp}
    {s' : SpoolSys} (hstep : s.step maxBytes segmentBytes op = some s') :
    (∃ older' rs', Space maxBytes segmentBytes s'.spool s'.disk older' rs') ∧ s.IdsIncrease s' := by
  have hsame : s.IdsIncrease s := ⟨le_refl _, fun k hk => .inl hk⟩
  cases op with
  | append r =>
    simp only [SpoolSys.step] at hstep
    split at hstep
    · obtain rfl := Option.some.inj hstep
      exact ⟨⟨_, _, h⟩, hsame⟩
    · rename_i spool disk happ
      obtain rfl := Option.some.inj hstep
      obtain ⟨hspace, hid⟩ := h.append happ
      exact ⟨hspace, hid⟩
    · rename_i spool disk happ
      obtain rfl := Option.some.inj hstep
      obtain ⟨hspace, hid⟩ := h.append happ
      exact ⟨hspace, hid⟩
  | sync =>
    obtain rfl := Option.some.inj hstep
    refine ⟨⟨older, rs, ⟨⟨h.holds.asc, h.holds.stored, ?_, h.holds.sizes⟩, h.limit, h.segment, h.total,
      h.total_le, h.fits⟩⟩, hsame⟩
    show (s.spool.sync s.disk).2.files.entries = _
    unfold Spool.sync
    split <;> exact h.holds.files
  | release acked =>
    obtain rfl := Option.some.inj hstep
    obtain ⟨hspace, hactive⟩ := h.release acked
    refine ⟨⟨_, _, hspace⟩, hactive.ge, fun k hk => .inl ?_⟩
    have hk' : k ∈ (held s.spool.active (older.dropWhile (before acked)) rs).map (·.1) := by
      rw [← hactive, ← hspace.holds.keys]
      exact hk
    rw [h.holds.keys]
    obtain ⟨g, hg, rfl⟩ := List.mem_map.1 hk'
    refine List.mem_map_of_mem ?_
    rcases List.mem_append.1 hg with hg | hg
    · exact List.mem_append_left _ (List.dropWhile_subset _ hg)
    · exact List.mem_append_right _ hg
  | crash kept stable =>
    simp only [SpoolSys.step] at hstep
    split at hstep
    · obtain ⟨spool', disk', j, hopen, hspace, hactive⟩ := h.crash kept stable
      simp only [hopen] at hstep
      obtain rfl := Option.some.inj hstep
      refine ⟨⟨_, _, hspace⟩, hactive.ge, fun k hk => .inl ?_⟩
      rw [hspace.holds.keys, hactive, held, List.map_append] at hk
      rw [h.holds.keys, held, List.map_append]
      exact hk
    · cases hstep

theorem space_reach {C : SpoolSys → SpoolOp → Prop}
    (h : (spoolMachine maxBytes segmentBytes).Reach C s) :
    ∃ older rs, Space maxBytes segmentBytes s.spool s.disk older rs := by
  refine h.invariant (I := fun s => ∃ older rs, Space maxBytes segmentBytes s.spool s.disk older rs)
    space_init ?_
  rintro t op t' ⟨older, rs, ht⟩ _ hstep
  exact (ht.step hstep).1

/-! ## Getting the space back -/

/-- Only the newest segment is left once everything is released. -/
theorem Space.released (h : Space maxBytes segmentBytes s.spool s.disk older rs) :
    Space maxBytes segmentBytes s.released.1 s.released.2 [] rs ∧
      s.released.1.total = s.spool.activeSize := by
  obtain ⟨hspace, _⟩ := h.release s.spool.endPosition
  have hnil : older.dropWhile (before s.spool.endPosition) = [] := by
    rw [List.dropWhile_eq_nil_iff]
    exact fun g hg => decide_eq_true (h.holds.older_lt g hg)
  rw [hnil] at hspace
  refine ⟨hspace, ?_⟩
  show (s.spool.release s.disk s.spool.endPosition).1.total = _
  rw [hspace.total, totalOf_held, h.holds.activeSize]
  exact Nat.zero_add _

theorem append_accepts {r : CallerRec} {rec : Bytes} (hrec : encodeRec r.val = some rec) :
    (∃ spool' disk', spool.append disk r.val = some (true, spool', disk')) ↔
      spool.total + rec.length ≤ spool.maxBytes := by
  unfold Spool.append
  rw [hrec]
  simp only
  constructor
  · rintro ⟨spool', disk', h⟩
    split at h
    · cases h
    · omega
  · intro h
    rw [if_neg (by omega)]
    split <;> exact ⟨_, _, rfl⟩

theorem Space.recovers_iff (h : Space maxBytes segmentBytes s.spool s.disk older rs) :
    s.Recovers maxBytes ↔ s.RoomLeft maxBytes := by
  obtain ⟨hspace, htotal⟩ := h.released
  have hone : ∀ (r : CallerRec) (rec : Bytes), encodeRec r.val = some rec →
      ((∃ spool disk, s.released.1.append s.released.2 r.val = some (true, spool, disk)) ↔
        s.spool.activeSize + rec.length ≤ maxBytes) := by
    intro r rec hrec
    rw [append_accepts hrec, htotal, hspace.limit]
  constructor
  · exact fun hr r rec hrec hhalf => (hone r rec hrec).1 (hr r rec hrec hhalf)
  · exact fun hr r rec hrec hhalf => (hone r rec hrec).2 (hr r rec hrec hhalf)

/-- The newest segment stays within the larger half of the limit. -/
theorem Space.activeSize_step (h : Space maxBytes segmentBytes s.spool s.disk older rs)
    {op : SpoolOp} {s' : SpoolSys} (hC : s.LeavesRoom maxBytes op)
    (hle : s.spool.activeSize ≤ maxBytes - maxBytes / 2)
    (hstep : s.step maxBytes segmentBytes op = some s') :
    s'.spool.activeSize ≤ maxBytes - maxBytes / 2 := by
  cases op with
  | append r =>
    simp only [SpoolSys.step] at hstep
    split at hstep
    · obtain rfl := Option.some.inj hstep
      exact hle
    · rename_i spool disk happ
      obtain rfl := Option.some.inj hstep
      obtain ⟨_, ⟨_, heq⟩ | ⟨_, _, heq⟩ | ⟨_, _, heq⟩⟩ := append_cases happ
      · cases heq
        exact hle
      · cases heq
      · cases heq
    · rename_i spool disk happ
      obtain rfl := Option.some.inj hstep
      obtain ⟨rec, hrec⟩ : ∃ rec, encodeRec r.val = some rec := by
        cases he : encodeRec r.val with
        | none => rw [Spool.append, he] at happ; cases happ
        | some rec => exact ⟨rec, rfl⟩
      obtain ⟨hst, _, hlen⟩ := encodeRec_eq r.property hrec
      have hroom := hC rec hrec
      rw [hlen, SpoolSys.sizeAfter] at hroom
      obtain ⟨_, ⟨_, heq⟩ | ⟨hfit, hrot, heq⟩ | ⟨hfit, hrot, heq⟩⟩ := append_cases happ
      · cases heq
      · cases heq
        rw [h.limit] at hfit
        have hsize := (h.rotate.holds.write hst).activeSize
        rw [if_pos hrot] at hroom
        refine le_of_eq_of_le hsize ?_
        simpa using hroom hfit
      · cases heq
        rw [h.limit] at hfit
        have hsize := (h.holds.write hst).activeSize
        rw [if_neg hrot] at hroom
        refine le_of_eq_of_le hsize ?_
        rw [bytesOf_append, ← h.holds.activeSize]
        simpa using hroom hfit
  | sync =>
    obtain rfl := Option.some.inj hstep
    exact hle
  | release acked =>
    obtain rfl := Option.some.inj hstep
    obtain ⟨hspace, _⟩ := h.release acked
    have hsize := hspace.holds.activeSize
    rw [← h.holds.activeSize] at hsize
    exact hsize.le.trans hle
  | crash kept stable =>
    simp only [SpoolSys.step] at hstep
    split at hstep
    · obtain ⟨spool', disk', j, hopen, hspace, _⟩ := h.crash kept stable
      simp only [hopen] at hstep
      obtain rfl := Option.some.inj hstep
      have hsize := hspace.holds.activeSize
      have hcut := @bytesOf_take_drop _ recSize rs j
      rw [h.holds.activeSize] at hle
      show spool'.activeSize ≤ _
      omega
    · cases hstep

/-- **The space of the spool.**  In every run the total is the sum of the segment sizes and within
the limit, a refused append changes nothing, segments keep to their limit and ids only go up.  With
everything released, every record of at most half the limit is accepted exactly when the newest
segment leaves room for it, and so in every run whose appends leave room. -/
theorem spool_space (maxBytes segmentBytes : Nat) :
    (∀ s, (spoolMachine maxBytes segmentBytes).Reach (fun _ _ => True) s →
      s.Accounted maxBytes segmentBytes ∧
      (∀ r spool disk, s.spool.append s.disk r = some (false, spool, disk) →
        spool = s.spool ∧ disk = s.disk) ∧
      (∀ op s', s.step maxBytes segmentBytes op = some s' → s.IdsIncrease s') ∧
      (s.Recovers maxBytes ↔ s.RoomLeft maxBytes)) ∧
    (∀ s, (spoolMachine maxBytes segmentBytes).Reach (SpoolSys.LeavesRoom maxBytes) s →
      s.Recovers maxBytes) := by
  constructor
  · intro s h
    obtain ⟨older, rs, hspace⟩ := space_reach h
    refine ⟨hspace.accounted, ?_, fun op s' hstep => (hspace.step hstep).2, hspace.recovers_iff⟩
    intro r spool disk happ
    unfold Spool.append at happ
    split at happ
    · cases happ
    · split at happ
      · cases happ
        exact ⟨rfl, rfl⟩
      · split at happ <;> cases happ
  · intro s h
    have hsmall : (∃ older rs, Space maxBytes segmentBytes s.spool s.disk older rs) ∧
        s.spool.activeSize ≤ maxBytes - maxBytes / 2 := by
      refine h.invariant (I := fun s =>
        (∃ older rs, Space maxBytes segmentBytes s.spool s.disk older rs) ∧
          s.spool.activeSize ≤ maxBytes - maxBytes / 2) ⟨space_init, Nat.zero_le _⟩ ?_
      rintro t op t' ⟨⟨older, rs, ht⟩, hle⟩ hC hstep
      exact ⟨(ht.step hstep).1, ht.activeSize_step hC hle hstep⟩
    obtain ⟨⟨older, rs, hspace⟩, hle⟩ := hsmall
    rw [hspace.recovers_iff]
    intro r rec _ hhalf
    omega

/-- Segments of at most the larger half of the limit leave room for every record of at most that
half. -/
theorem leavesRoom_of_segment {older : List (Nat × List Rec)} {rs : List Rec}
    (h : Space maxBytes segmentBytes s.spool s.disk older rs)
    (hseg : segmentBytes ≤ maxBytes - maxBytes / 2) {r : CallerRec}
    (hrec : ∀ rec, encodeRec r.val = some rec → rec.length ≤ maxBytes - maxBytes / 2) :
    s.LeavesRoom maxBytes (.append r) := by
  intro rec he _
  have hle := hrec rec he
  unfold SpoolSys.sizeAfter
  rw [h.segment]
  split
  · exact hle
  · omega

/-- A limit of 100 bytes, reached within one segment: nothing is released, and a record of half the
limit is refused for ever. -/
theorem spool_wedges : ¬ ∀ (maxBytes segmentBytes : Nat) (s : SpoolSys),
    (spoolMachine maxBytes segmentBytes).Reach (fun _ _ => True) s → s.Recovers maxBytes := by
  intro hclaim
  have hrun : ((spoolMachine 100 1000).runMeeting (fun _ _ => True) (.init 100 1000)
      [.append healthRec, .append healthRec, .sync]).any (fun s =>
        (s.released.1.append s.released.2 healthRec.val).any (fun res => res.1 = false)) = true := by
    decide +kernel
  obtain ⟨s, hs, hfull⟩ := (Option.any_eq_true _ _).1 hrun
  obtain ⟨res, hres, hno⟩ := (Option.any_eq_true _ _).1 hfull
  have hsize : (encodeRec healthRec.val).any (fun rec => 2 * rec.length ≤ 100) = true := by
    decide +kernel
  obtain ⟨rec, hrec, hhalf⟩ := (Option.any_eq_true _ _).1 hsize
  obtain ⟨spool, disk, hok⟩ := hclaim 100 1000 s (Machine.reach_of_run _ hs) healthRec rec hrec
    (of_decide_eq_true hhalf)
  rw [hok] at hres
  cases hres
  exact absurd (of_decide_eq_true hno) Bool.noConfusion

/-- The same limit with segments of 50 bytes: two records are released and two more accepted. -/
theorem spool_space_two : ∃ s : SpoolSys, s.log.length = 2 ∧ s.Accounted 100 50 ∧
    s.Recovers 100 := by
  have hrun : ((spoolMachine 100 50).runMeeting (fun _ _ => True) (.init 100 50)
      [.append healthRec, .append healthRec, .sync]).any (fun s =>
        s.log.length = 2 ∧ s.spool.activeSize = 50) = true := by decide +kernel
  obtain ⟨s, hs, hprop⟩ := (Option.any_eq_true _ _).1 hrun
  obtain ⟨hlog, hactive⟩ := of_decide_eq_true hprop
  obtain ⟨hacc, _, _, hiff⟩ := (spool_space 100 50).1 s (Machine.reach_of_run _ hs)
  refine ⟨s, hlog, hacc, hiff.2 ?_⟩
  intro r rec _ hhalf
  omega

end OTS.Receiver
