import OTSecurity.Receiver.Acceptance

/-!
# Restarting on the directory

A new process reads the snapshot of the window and marks again what the spool holds behind the
position of the snapshot.

* `Grounded` — the spool is a segmented log that has the position of the snapshot as one of its
  boundaries, at or before what is synced.
* `Genuine` — every record of the log is an event with a legitimate identity, or has none.

Principal results: `replayLoop_eq` — the batches together replay every record held from the start
on; `Grounded.boot` — on such a directory the process always comes up; `Grounded.step` — every
operation of a settling run keeps the directory so.
-/

namespace OTS.Receiver

open Relation

variable {s : SpoolSys} {gone older : List (Nat × List Rec)} {rs : List Rec}

/-! ## The replay -/

theorem Shape.lt_end (h : Shape s gone older rs) {p : Position} {e : Entry} (he : e ∈ s.unreleased)
    (hp : p ≤ e.start) : p < s.spool.endPosition := by
  have hmem : e ∈ s.log := List.mem_of_mem_filter he
  exact lt_of_le_of_lt hp (lt_of_lt_of_le (h.start_lt e hmem) (h.stop_le_end e hmem))

/-- **The replay marks every record held from the start on**, given a round for each and one more. -/
theorem replayLoop_eq (h : Shape s gone older rs) (fuel : Nat) :
    ∀ {p : Position} {w : DedupWindow}, Boundary recSize (gone ++ held s.spool.active older rs) p →
      (s.unreleased.filter (fun e => p ≤ e.start)).length < fuel →
      replayLoop s.spool s.disk s.spool.endPosition fuel p w =
        some ((s.unreleased.filter (fun e => p ≤ e.start)).foldl replayEntry w) := by
  have hsorted : s.unreleased.Pairwise (fun a b => a.stop ≤ b.start) := h.sorted.filter _
  have hlt : ∀ e ∈ s.unreleased, e.start < e.stop := fun e he =>
    h.start_lt e (List.mem_of_mem_filter he)
  induction fuel with
  | zero => exact fun _ hfuel => absurd hfuel (Nat.not_lt_zero _)
  | succ fuel ih =>
    intro p w hp hfuel
    rw [replayLoop]
    split
    · rw [h.read_end hp 5000]
      split
      · cases ‹some _ = none›
      · rename_i hnil
        have hempty : s.unreleased.filter (fun e => p ≤ e.start) = [] := by
          simpa using hnil
        rw [hempty]
        rfl
      · rename_i es hne hes
        obtain rfl := Option.some.inj hes
        have hres : Boundary recSize (gone ++ held s.spool.active older rs)
            (resume p ((s.unreleased.filter (fun e => p ≤ e.start)).take 5000)) := by
          unfold resume
          cases hl : ((s.unreleased.filter (fun e => p ≤ e.start)).take 5000).getLast? with
          | none => exact hp
          | some e =>
            have he := List.mem_of_mem_filter (List.mem_of_mem_filter
              (List.mem_of_mem_take (List.mem_of_getLast? hl)))
            exact h.boundary (.inr (.inr ⟨e, he, .inr rfl⟩))
        have hdrop := filter_resume hsorted hlt p 5000
        have hpos : 0 < (s.unreleased.filter (fun e => p ≤ e.start)).length := by
          refine List.length_pos_of_ne_nil (fun hnil => hne ?_)
          rw [hnil]
          rfl
        have hless : (s.unreleased.filter (fun e => p ≤ e.start)).length - 5000 < fuel :=
          Nat.lt_of_lt_of_le (Nat.sub_lt hpos (by decide)) (Nat.lt_succ_iff.1 hfuel)
        rw [ih hres (by rw [hdrop, List.length_drop]; exact hless), hdrop, ← List.foldl_append,
          List.take_append_drop]
    · rename_i hend
      have hempty : s.unreleased.filter (fun e => p ≤ e.start) = [] := by
        refine List.filter_eq_nil_iff.2 (fun e he hle => ?_)
        exact hend (h.lt_end he (by simpa using hle))
      rw [hempty]
      rfl

/-- Every record takes a byte of its segment at least. -/
theorem Shape.length_le_files (h : Shape s gone older rs) :
    s.unreleased.length ≤ (s.disk.files.entries.map (·.2.length)).sum := by
  have hplace : ∀ (seg : Nat) (off : Nat) (rs : List Rec),
      (place recSize seg off rs).length ≤ bytesOf recSize rs := by
    intro seg off rs
    rw [place_length]
    induction rs with
    | nil => exact Nat.le_refl _
    | cons r rs ih =>
      have := recSize_pos r
      rw [bytesOf_cons, List.length_cons]
      omega
  have hall : ∀ segs : List (Nat × List Rec), (placeAll recSize segs).length ≤
      ((segs.map (fun g => (g.1, fileBytes g.2))).map (·.2.length)).sum := by
    intro segs
    induction segs with
    | nil => exact Nat.le_refl _
    | cons g segs ih =>
      rw [placeAll_cons, List.length_append, List.map_cons, List.map_cons, List.sum_cons,
        fileBytes_length]
      exact Nat.add_le_add (hplace _ _ _) ih
  rw [h.unreleased, h.holds.files]
  exact hall _

theorem first_le {e : Entry} (he : e ∈ s.unreleased) : s.spool.firstPosition ≤ e.start := by
  have hmem : e.start.seg ∈ s.spool.sizes.keys := of_decide_eq_true (List.mem_filter.1 he).2
  have hle : s.spool.sizes.keys.min?.getD 0 ≤ e.start.seg := by
    cases hmin : s.spool.sizes.keys.min? with
    | none => exact Nat.zero_le _
    | some m => exact (List.min?_eq_some_iff.1 hmin).2 _ hmem
  rcases hle.lt_or_eq with hlt | heq
  · exact Position.le_def.2 (.inl hlt)
  · exact Position.le_def.2 (.inr ⟨heq, Nat.zero_le _⟩)

/-- The record starts at or behind the position of the snapshot. -/
def behind (snapshot : Option ReceiverCore.Snapshot) (e : Entry) : Bool :=
  snapshot.elim true fun snap => snap.position ≤ e.start

def snapshotWindow (snapshot : Option ReceiverCore.Snapshot) : DedupWindow :=
  snapshot.elim .init (·.window)

/-- **What a restart restores**: the window of the snapshot, marked with the records behind it. -/
theorem restoreDedup_eq (h : Shape s gone older rs) {snapshot : Option ReceiverCore.Snapshot}
    (hb : ∀ snap, snapshot = some snap →
      Boundary recSize (gone ++ held s.spool.active older rs) snap.position) :
    restoreDedup s.spool s.disk snapshot =
      some ((s.unreleased.filter (behind snapshot)).foldl replayEntry (snapshotWindow snapshot)) := by
  have hfuel : ∀ p : Entry → Bool, (s.unreleased.filter p).length <
      (s.disk.files.entries.map (·.2.length)).sum + 1 := fun p =>
    Nat.lt_succ_of_le (Nat.le_trans (List.length_filter_le _ _) h.length_le_files)
  have hfirst := h.boundary (.inl rfl)
  cases snapshot with
  | none =>
    have hall : s.unreleased.filter (fun e => s.spool.firstPosition ≤ e.start) =
        s.unreleased.filter (behind none) :=
      List.filter_congr fun e he => by simpa [behind] using first_le he
    unfold restoreDedup
    rw [← hall]
    exact replayLoop_eq h _ hfirst (hfuel _)
  | some snap =>
    have hsame : ∀ start, (start = if s.spool.firstPosition < snap.position then snap.position
        else s.spool.firstPosition) → s.unreleased.filter (fun e => start ≤ e.start) =
        s.unreleased.filter (behind (some snap)) := by
      rintro start rfl
      refine List.filter_congr fun e he => ?_
      have hle := first_le he
      simp only [behind, Option.elim_some, decide_eq_decide]
      split
      · exact Iff.rfl
      · rename_i hnot
        exact iff_of_true hle (le_trans (not_lt.1 hnot) hle)
    unfold restoreDedup
    rw [← hsame _ rfl]
    refine replayLoop_eq h _ ?_ (hfuel _)
    split
    · exact hb snap rfl
    · exact hfirst

/-! ## Genuine records -/

/-- An event with a legitimate identity, or a record without one. -/
def Genuine (P : Identity → Prop) (log : List Entry) : Prop :=
  ∀ e ∈ log, (∃ i, P i ∧ IsRaw e.record i) ∨ IsNote e.record

variable {P : Identity → Prop} {log : List Entry}

theorem IsRaw.replayEntry {w : DedupWindow} {e : Entry} {i : Identity} (h : IsRaw e.record i) :
    replayEntry w e = w.note i := by
  unfold Receiver.replayEntry
  simp only [h.topic, if_true, h.sensorId, h.bootId, Option.getD_some, h.sequence]
  rfl

theorem IsNote.replayEntry {w : DedupWindow} {e : Entry} (h : IsNote e.record) :
    replayEntry w e = w := by
  unfold Receiver.replayEntry
  rw [if_neg h.topic]

theorem Genuine.identity (h : Genuine P log) {e : Entry} (he : e ∈ log) {i : Identity}
    (hi : entryIdentity e = some i) : P i := by
  rcases h e he with ⟨j, hj, hraw⟩ | hnote
  · rw [hraw.entryIdentity] at hi
    exact Option.some.inj hi ▸ hj
  · rw [hnote.entryIdentity] at hi
    cases hi

/-- Replaying genuine records marks their identities, in order. -/
theorem Genuine.replay (h : Genuine P log) (w : DedupWindow) :
    log.foldl replayEntry w = (rawIdentities log).foldl DedupWindow.note w := by
  induction log generalizing w with
  | nil => rfl
  | cons e log ih =>
    have hrest : Genuine P log := fun x hx => h x (List.mem_cons_of_mem _ hx)
    rw [List.foldl_cons, ih hrest]
    rcases h e List.mem_cons_self with ⟨i, -, hraw⟩ | hnote
    · have hids : rawIdentities (e :: log) = i :: rawIdentities log :=
        List.filterMap_cons_some hraw.entryIdentity
      rw [hids, List.foldl_cons, hraw.replayEntry]
    · have hids : rawIdentities (e :: log) = rawIdentities log :=
        List.filterMap_cons_none hnote.entryIdentity
      rw [hids, hnote.replayEntry]

/-! ## The directory -/

/-- The log is that of segments of which `p`, at or before what is synced, is a boundary. -/
structure Grounded (s : SpoolSys) (p : Option Position) (gone older : List (Nat × List Rec))
    (rs : List Rec) : Prop where
  shape : Shape s gone older rs
  synced : ∀ q, p = some q → q ≤ s.spool.synced
  boundary : ∀ q, p = some q → Boundary recSize (gone ++ held s.spool.active older rs) q

variable {p : Option Position} {maxBytes segmentBytes : Nat}

/-- What one operation on a grounded spool does. -/
structure Moves (s s' : SpoolSys) (p : Option Position) (op : SpoolOp)
    (gone : List (Nat × List Rec)) : Prop where
  grounded : ∃ gone' older' rs', Grounded s' p gone' older' rs' ∧
    ∀ g ∈ gone', g ∈ gone ∨ ∃ acked, op = .release acked ∧ g.1 < acked.seg
  spec : s.OpSpec s' op

/-- **Every operation of a settling run keeps the spool grounded.** -/
theorem Grounded.step (h : Grounded s p gone older rs) {op : SpoolOp} {s' : SpoolSys}
    (hC : s.Settles op) (hstep : s.step maxBytes segmentBytes op = some s') :
    Moves s s' p op gone := by
  obtain ⟨⟨gone', older', rs', hshape, hgone, hbound⟩, hspec, hsynced⟩ := next_step h.shape hC hstep
  refine ⟨⟨gone', older', rs', ⟨hshape, fun q hq => (h.synced q hq).trans hsynced, fun q hq => ?_⟩,
    hgone⟩, hspec⟩
  exact hbound q (h.synced q hq) (h.boundary q hq)

/-- **On a grounded directory the process comes up**, with the window of the snapshot marked with the
events held behind it. -/
theorem Grounded.boot {snapshot : Option ReceiverCore.Snapshot}
    (h : Grounded s (snapshot.map (·.position)) gone older rs) (hlog : Genuine P s.log)
    (cfg : Config) (monotonic : Rat) (rejected : List Identity) :
    ReceiverCore.boot cfg s snapshot monotonic rejected = some (.start cfg s
      ((rawIdentities (s.unreleased.filter (behind snapshot))).foldl DedupWindow.note
        (snapshotWindow snapshot)) monotonic rejected) := by
  have hheld : Genuine P (s.unreleased.filter (behind snapshot)) := fun e he =>
    hlog e (List.mem_of_mem_filter (List.mem_of_mem_filter he))
  unfold ReceiverCore.boot
  rw [restoreDedup_eq h.shape (fun snap hs => h.boundary _ (by rw [hs]; rfl)), hheld.replay]
  rfl

/-- A record is held, or its segment is gone. -/
theorem Grounded.held_or_gone (h : Grounded s p gone older rs) {e : Entry} (he : e ∈ s.log) :
    e ∈ s.unreleased ∨ e ∈ placeAll recSize gone := by
  rw [h.shape.log, placeAll_append] at he
  rcases List.mem_append.1 he with he | he
  · exact .inr he
  · exact .inl (h.shape.unreleased ▸ he)

/-- The records of a segment that is gone are not held. -/
theorem Grounded.gone_released (h : Grounded s p gone older rs) {e : Entry}
    (he : e ∈ placeAll recSize gone) : e ∉ s.unreleased := by
  rw [h.shape.unreleased]
  intro hheld
  obtain ⟨g, hg, hge, -⟩ := mem_placeAll_seg he
  obtain ⟨g', hg', hge', -⟩ := mem_placeAll_seg hheld
  have hlt := (List.pairwise_append.1 h.shape.asc).2.2 g hg g' hg'
  omega

/-- A record lies before the boundary or behind it. -/
theorem Grounded.before_or_behind (h : Grounded s p gone older rs) {q : Position} (hq : p = some q)
    {e : Entry} (he : e ∈ s.log) : e.stop ≤ q ∨ q ≤ e.start := by
  obtain ⟨as, bs, hcut⟩ := (h.boundary q hq).cut h.shape.asc
  rw [h.shape.log, hcut.eq] at he
  rcases List.mem_append.1 he with he | he
  · exact .inl (hcut.le e he)
  · exact .inr (hcut.ge e he)

/-! ## What the receive thread does to it -/

theorem IsRaw.identified {r : Rec} {i : Identity} (h : IsRaw r i) (hi : i.Legit) : r.Identified :=
  .inr ⟨i.sensorId, i.bootId, h.sensorId, hi.sensorId, h.bootId, hi.bootId⟩

theorem IsNote.identified {r : Rec} (h : IsNote r) : r.Identified := .inl ⟨h.sensorId, h.bootId⟩

/-- What an effect does to the spool is nothing, or one of its operations. -/
theorem Effect.spool {a b : Intake} (maxBytes segmentBytes : Nat) (hP : ∀ i, P i → i.Legit)
    (h : Effect P a b) :
    b.sys = a.sys ∨ ∃ op, a.sys.step maxBytes segmentBytes op = some b.sys ∧
      (op = .sync ∨ ∃ r, op = .append r ∧ ((∃ i, P i ∧ IsRaw r.val i) ∨ IsNote r.val)) := by
  have happend : ∀ {r : Rec} {sys : SpoolSys} (hid : r.Identified), a.sys.Appends r sys →
      a.sys.step maxBytes segmentBytes (.append ⟨r, hid⟩) = some sys := by
    rintro r sys hid ⟨spool, disk, ha, rfl⟩
    simp only [SpoolSys.step, ha]
  cases h with
  | note hr ha => exact .inr ⟨_, happend hr.identified ha, .inr ⟨_, rfl, .inr hr⟩⟩
  | suppress => exact .inl rfl
  | reject => exact .inl rfl
  | accept hi _ hr ha =>
    exact .inr ⟨_, happend (hr.identified (hP _ hi)) ha, .inr ⟨_, rfl, .inl ⟨_, hi, hr⟩⟩⟩
  | sync => exact .inr ⟨.sync, rfl, .inl rfl⟩

end OTS.Receiver
