import OTSecurity.Receiver.Replay

/-!
# Duplicates across restarts

What the window of a restarted process knows of the log: nothing that the log has lost, and every
event that it has.

* `Backed` — every sequence that the window holds is of an identity of the given kind.
* `Remembers` — every identity of the given kind is old to the window.
* `Sound`, `Complete` — the invariants of the two directions, for the window and for the snapshot.

Principal results: `lost_never_suppressed` — if crashes settle, a duplicate is an event of the log or
a rejected one; `restart_suppresses` — if moreover the snapshot covers what has been deleted, every
event of the log is old, and spooled once.
-/

namespace OTS.Receiver

open Function Relation

/-! ## What a window holds -/

variable {Q R : Identity → Prop} {w : DedupWindow} {i j : Identity}

/-- The window holds sequences of the identities `Q` only. -/
def Backed (w : DedupWindow) (Q : Identity → Prop) : Prop :=
  ∃ M, WindowRefines w M ∧
    ∀ i : Identity, i.Legit → (i.sequence : ℤ) ∈ M (streamKey i.sensorId i.bootId) → Q i

theorem backed_init : Backed .init Q :=
  ⟨fun _ => [], windowRefines_init, by rintro i - ⟨⟩⟩

theorem Backed.mono (h : Backed w Q) (hQ : ∀ i, Q i → R i) : Backed w R := by
  obtain ⟨M, hw, hM⟩ := h
  exact ⟨M, hw, fun i hi hmem => hQ i (hM i hi hmem)⟩

theorem Backed.of_duplicate (h : Backed w Q) (hi : i.Legit) (hd : w.verdict i = .duplicate) :
    Q i := by
  obtain ⟨M, hw, hM⟩ := h
  unfold DedupWindow.verdict at hd
  rw [hw.check] at hd
  exact hM i hi (mem_of_duplicate hd)

/-- Marking adds no sequence but its own, and none at all when it is old. -/
theorem Backed.note (h : Backed w Q) (hj : j.Legit) (hQ : w.Old j ∨ Q j) : Backed (w.note j) Q := by
  obtain ⟨M, hw, hM⟩ := h
  obtain ⟨-, M', hw', hself, hother⟩ := hw.mark j.sensorId j.bootId j.sequence
  refine ⟨M', hw', fun i hi hmem => ?_⟩
  by_cases hk : streamKey i.sensorId i.bootId = streamKey j.sensorId j.bootId
  · rw [hk, hself] at hmem
    rcases hQ with hold | hQ
    · rw [record_old ((hw.old_iff j).1 hold), ← hk] at hmem
      exact hM i hi hmem
    · rcases mem_of_mem_record hmem with hmem | hseq
      · exact hM i hi (hk ▸ hmem)
      · obtain ⟨hs, hb⟩ := streamKey_inj hi.bootId hj.bootId hk
        have hij : i = j := by
          obtain ⟨s, b, q⟩ := i
          obtain ⟨s', b', q'⟩ := j
          simp_all
        exact hij ▸ hQ
  · rcases hother _ hk with h | h
    · exact hM i hi (h ▸ hmem)
    · rw [h] at hmem
      cases hmem

theorem Backed.replay {is : List Identity} (h : Backed w Q) (his : ∀ i ∈ is, i.Legit ∧ Q i) :
    Backed (is.foldl DedupWindow.note w) Q := by
  induction is generalizing w with
  | nil => exact h
  | cons j is ih =>
    obtain ⟨hj, hQ⟩ := his j List.mem_cons_self
    exact ih (h.note hj (.inr hQ)) fun i hi => his i (List.mem_cons_of_mem _ hi)

variable {pairs : List (String × String)}

/-- The identities `Q` are old to the window, which has the given streams only. -/
structure Remembers (pairs : List (String × String)) (w : DedupWindow) (Q : Identity → Prop) :
    Prop where
  refines : ∃ M, WindowRefines w M
  within : Within (pairs.map streamName) w
  old : ∀ i, Q i → w.Old i

theorem remembers_init : Remembers pairs .init (fun _ => False) :=
  ⟨⟨_, windowRefines_init⟩, within_init _, fun _ h => h.elim⟩

theorem Remembers.mono (h : Remembers pairs w Q) (hR : ∀ i, R i → Q i) : Remembers pairs w R :=
  ⟨h.refines, h.within, fun i hi => h.old i (hR i hi)⟩

theorem Remembers.note (h : Remembers pairs w Q) (hlen : pairs.length ≤ MAX_STREAMS)
    (hj : Of pairs j) : Remembers pairs (w.note j) (fun i => Q i ∨ i = j) := by
  obtain ⟨M, hw⟩ := h.refines
  obtain ⟨hw', hin⟩ := hw.mark_room h.within (by simpa using hlen) hj.name_mem j.sequence
  refine ⟨⟨_, hw'⟩, hin, fun i hi => (hw'.old_iff i).2 ?_⟩
  by_cases hk : streamKey i.sensorId i.bootId = streamKey j.sensorId j.bootId
  · rw [hk, update_self]
    rcases hi with hi | rfl
    · exact record_keeps_old _ (hk ▸ (hw.old_iff i).1 (h.old i hi))
    · exact record_self_old _ _
  · rw [update_of_ne hk]
    rcases hi with hi | rfl
    · exact (hw.old_iff i).1 (h.old i hi)
    · exact absurd rfl hk

theorem Remembers.replay {is : List Identity} (h : Remembers pairs w Q)
    (hlen : pairs.length ≤ MAX_STREAMS) (his : ∀ i ∈ is, Of pairs i) :
    Remembers pairs (is.foldl DedupWindow.note w) (fun i => Q i ∨ i ∈ is) := by
  induction is generalizing w Q with
  | nil => exact h.mono fun i hi => hi.resolve_right List.not_mem_nil
  | cons j is ih =>
    have hn := h.note hlen (his j List.mem_cons_self)
    refine (ih hn fun i hi => his i (List.mem_cons_of_mem _ hi)).mono ?_
    rintro i (hi | hi)
    · exact .inl (.inl hi)
    · rcases List.mem_cons.1 hi with rfl | hi
      · exact .inl (.inr rfl)
      · exact .inr hi

/-! ## The directory under the calls of a process -/

variable {P : Identity → Prop} {snapshot : Option ReceiverCore.Snapshot} {a b : Intake}

/-- The directory of a process: grounded at its snapshot, with genuine records. -/
structure Steady (P : Identity → Prop) (snapshot : Option ReceiverCore.Snapshot) (x : Intake) :
    Prop where
  grounded : ∃ gone older rs, Grounded x.sys (snapshot.map (·.position)) gone older rs
  genuine : Genuine P x.sys.log

/-- The events of the log that end at or before a position. -/
def upTo (p : Position) (log : List Entry) : List Identity :=
  rawIdentities (log.filter (fun e => e.stop ≤ p))

theorem mem_upTo {p : Position} {log : List Entry} {i : Identity} :
    i ∈ upTo p log ↔ ∃ e ∈ log, entryIdentity e = some i ∧ e.stop ≤ p := by
  unfold upTo rawIdentities
  simp only [List.mem_filterMap, List.mem_filter, decide_eq_true_eq]
  constructor
  · rintro ⟨e, ⟨he, hp⟩, hi⟩
    exact ⟨e, he, hi, hp⟩
  · rintro ⟨e, he, hi, hp⟩
    exact ⟨e, ⟨he, hp⟩, hi⟩

theorem mem_rawIdentities {log : List Entry} {i : Identity} :
    i ∈ rawIdentities log ↔ ∃ e ∈ log, entryIdentity e = some i := List.mem_filterMap

/-- **An effect keeps the directory steady**, and adds records behind the snapshot only. -/
theorem Steady.effect (hP : ∀ i, P i → i.Legit) (h : Steady P snapshot a) (he : Effect P a b) :
    Steady P snapshot b ∧ a.sys.log <+: b.sys.log ∧
      ∀ snap, snapshot = some snap → upTo snap.position b.sys.log = upTo snap.position a.sys.log := by
  obtain ⟨gone, older, rs, hg⟩ := h.grounded
  rcases he.spool 0 0 hP with hsame | ⟨op, hstep, hop⟩
  · refine ⟨⟨hsame ▸ h.grounded, hsame ▸ h.genuine⟩, hsame ▸ List.prefix_refl _, ?_⟩
    intro snap _
    rw [hsame]
  rcases hop with rfl | ⟨r, rfl, hr⟩
  · obtain ⟨⟨gone', older', rs', hg', -⟩, hlog, -, -⟩ :=
      hg.step (show a.sys.Settles .sync from trivial) hstep
    refine ⟨⟨⟨_, _, _, hg'⟩, hlog ▸ h.genuine⟩, hlog ▸ List.prefix_refl _, ?_⟩
    intro snap _
    rw [hlog]
  · obtain ⟨⟨gone', older', rs', hg', -⟩, hspec⟩ :=
      hg.step (show a.sys.Settles (.append r) from trivial) hstep
    rcases hspec with hsame | ⟨e, herec, hlog, -, -, hstart, -⟩
    · rw [hsame]
      exact ⟨⟨hsame ▸ h.grounded, hsame ▸ h.genuine⟩, List.prefix_refl _, fun _ _ => rfl⟩
    refine ⟨⟨⟨_, _, _, hg'⟩, ?_⟩, hlog ▸ List.prefix_append _ _, ?_⟩
    · intro x hx
      rw [hlog] at hx
      rcases List.mem_append.1 hx with hx | hx
      · exact h.genuine x hx
      · obtain rfl := List.mem_singleton.1 hx
        exact herec ▸ hr
    · intro snap hs
      -- the record starts at the end of the spool, the snapshot lies before what is synced
      have hpos : snap.position < e.stop := calc
        snap.position ≤ a.sys.spool.synced := hg.synced _ (by rw [hs]; rfl)
        _ ≤ a.sys.spool.endPosition := hg.shape.synced_le_end
        _ ≤ e.start := hstart
        _ < e.stop := hg'.shape.start_lt e (hlog ▸ List.mem_append_right _ (List.mem_singleton_self e))
      unfold upTo
      rw [hlog, List.filter_append, List.filter_cons_of_neg (by simpa using hpos), List.filter_nil,
        List.append_nil]

/-- Housekeeping saves the window with the end of the spool, which it has just synced. -/
theorem housekeeping_saves {core : ReceiverCore} {nowUs : Int} {clock : Nat → Reading}
    {monotonic : Rat} {snap : ReceiverCore.Snapshot}
    (h : (core.housekeeping nowUs clock monotonic).2 = some snap) :
    snap = ⟨(core.housekeeping nowUs clock monotonic).1.dedup,
      (core.housekeeping nowUs clock monotonic).1.sys.spool.synced⟩ ∧
    (core.housekeeping nowUs clock monotonic).1.sys.spool.synced =
      (core.housekeeping nowUs clock monotonic).1.sys.spool.endPosition := by
  unfold ReceiverCore.housekeeping at h ⊢
  simp only at h ⊢
  split at h
  · cases h
  · rename_i core' hq
    split at h
    · rename_i hdue
      obtain rfl := Option.some.inj h
      rw [if_pos hdue]
      exact ⟨rfl, rfl⟩
    · cases h

theorem Steady.save (h : Steady P snapshot a) {snap : ReceiverCore.Snapshot}
    (hpos : snap.position = a.sys.spool.synced) : Steady P (some snap) a := by
  obtain ⟨gone, older, rs, hg⟩ := h.grounded
  refine ⟨⟨gone, older, rs, hg.shape, ?_, ?_⟩, h.genuine⟩
  · rintro q hq
    obtain rfl := Option.some.inj hq
    exact hpos.le
  · rintro q hq
    obtain rfl := Option.some.inj hq
    have hsynced := hg.shape.synced
    rwa [← hpos] at hsynced

/-- Up to its end, that is the whole log. -/
theorem Steady.upTo_end (h : Steady P snapshot a) :
    upTo a.sys.spool.endPosition a.sys.log = rawIdentities a.sys.log := by
  obtain ⟨gone, older, rs, hg⟩ := h.grounded
  unfold upTo
  rw [List.filter_eq_self.2 fun e he => decide_eq_true (hg.shape.stop_le_end e he)]

/-- What the publisher leaves of the segments. -/
def Intake.released (x : Intake) (acked : Position) : Intake :=
  { x with sys := ⟨(x.sys.spool.release x.sys.disk acked).1,
      (x.sys.spool.release x.sys.disk acked).2, x.sys.log⟩ }

theorem Steady.release (h : Steady P snapshot a) (acked : Position) :
    Steady P snapshot (a.released acked) := by
  obtain ⟨gone, older, rs, hg⟩ := h.grounded
  have hstep : a.sys.step 0 0 (.release acked) = some ⟨(a.sys.spool.release a.sys.disk acked).1,
    (a.sys.spool.release a.sys.disk acked).2, a.sys.log⟩ := rfl
  obtain ⟨⟨gone', older', rs', hg', -⟩, -⟩ :=
    hg.step (show a.sys.Settles (.release acked) from trivial) hstep
  exact ⟨⟨gone', older', rs', hg'⟩, h.genuine⟩

/-! ## The window and the snapshot -/

/-- What the window and the snapshot hold is an event of the log, or was rejected. -/
structure Sound (snapshot : Option ReceiverCore.Snapshot) (x : Intake) : Prop where
  steady : Steady Identity.Legit snapshot x
  window : Backed x.dedup (fun i => i ∈ rawIdentities x.sys.log ∨ i ∈ x.rejected)
  saved : ∀ snap, snapshot = some snap →
    Backed snap.window (fun i => i ∈ upTo snap.position x.sys.log ∨ i ∈ x.rejected)

theorem rawIdentities_mono {log log' : List Entry} (h : log <+: log') {i : Identity}
    (hi : i ∈ rawIdentities log) : i ∈ rawIdentities log' :=
  (h.sublist.filterMap _).subset hi

theorem Sound.effect (h : Sound snapshot a) (he : Effect Identity.Legit a b) : Sound snapshot b := by
  obtain ⟨hsteady, hlog, hsaved⟩ := h.steady.effect (fun _ hi => hi) he
  have hsaved' : (∀ i ∈ a.rejected, i ∈ b.rejected) → ∀ snap, snapshot = some snap →
      Backed snap.window (fun i => i ∈ upTo snap.position b.sys.log ∨ i ∈ b.rejected) :=
    fun hrej snap hs => (h.saved snap hs).mono fun i hi =>
      hi.imp (fun hi => (hsaved snap hs).symm ▸ hi) (hrej i)
  have hkeep : ∀ i, i ∈ rawIdentities a.sys.log ∨ i ∈ a.rejected →
      i ∈ rawIdentities b.sys.log ∨ i ∈ a.rejected :=
    fun i hi => hi.imp_left (rawIdentities_mono hlog)
  cases he with
  | note => exact ⟨hsteady, h.window.mono hkeep, hsaved' fun _ hi => hi⟩
  | suppress hi hold =>
    exact ⟨hsteady, (h.window.mono hkeep).note hi (.inl hold), hsaved' fun _ hi => hi⟩
  | reject hi hnew =>
    rename_i i
    refine ⟨hsteady, ?_, hsaved' fun _ hi => List.mem_append_left _ hi⟩
    refine Backed.note (h.window.mono fun j hj => ?_) hi (.inr (.inr ?_))
    · exact hj.imp_right (List.mem_append_left _)
    · exact List.mem_append_right _ (List.mem_singleton_self i)
  | accept hi hnew hr ha =>
    obtain ⟨spool, disk, _, rfl⟩ := ha
    refine ⟨hsteady, (h.window.mono hkeep).note hi (.inr (.inl ?_)), hsaved' fun _ hi => hi⟩
    show _ ∈ rawIdentities (a.sys.log ++ [SpoolSys.appended spool _])
    rw [rawIdentities_append, entryIdentity_raw hr]
    exact List.mem_append_right _ (List.mem_singleton_self _)
  | sync => exact ⟨hsteady, h.window.mono hkeep, hsaved' fun _ hi => hi⟩

theorem Sound.save (h : Sound snapshot a) {snap : ReceiverCore.Snapshot}
    (hsnap : snap = ⟨a.dedup, a.sys.spool.synced⟩)
    (hend : a.sys.spool.synced = a.sys.spool.endPosition) : Sound (some snap) a := by
  subst hsnap
  refine ⟨h.steady.save rfl, h.window, fun snap hs => ?_⟩
  obtain rfl := Option.some.inj hs
  exact h.window.mono fun i hi => hi.imp_left fun hi => by
    rw [hend, h.steady.upTo_end]
    exact hi

/-- Every event of the log is old to the window, and spooled once; those up to the position of the
snapshot are old to the snapshot. -/
structure Complete (pairs : List (String × String)) (snapshot : Option ReceiverCore.Snapshot)
    (x : Intake) : Prop where
  steady : Steady (Of pairs) snapshot x
  window : Remembers pairs x.dedup (· ∈ rawIdentities x.sys.log)
  nodup : (rawIdentities x.sys.log).Nodup
  saved : ∀ snap, snapshot = some snap →
    Remembers pairs snap.window (· ∈ upTo snap.position x.sys.log)

theorem Complete.effect (h : Complete pairs snapshot a) (hlen : pairs.length ≤ MAX_STREAMS)
    (he : Effect (Of pairs) a b) : Complete pairs snapshot b := by
  obtain ⟨hsteady, hlog, hsaved⟩ := h.steady.effect (fun _ hi => hi.1) he
  have hsaved' : ∀ snap, snapshot = some snap →
      Remembers pairs snap.window (· ∈ upTo snap.position b.sys.log) :=
    fun snap hs => (h.saved snap hs).mono fun i hi => hsaved snap hs ▸ hi
  have hnote : ∀ i, Of pairs i →
      Remembers pairs (a.dedup.note i) (· ∈ rawIdentities a.sys.log) :=
    fun i hi => (h.window.note hlen hi).mono fun _ => .inl
  cases he with
  | note hr ha =>
    rename_i r sys
    obtain ⟨spool, disk, _, rfl⟩ := ha
    have hsame : rawIdentities (a.sys.log ++ [SpoolSys.appended spool r]) = rawIdentities a.sys.log := by
      rw [rawIdentities_append, entryIdentity_note hr]
      exact List.append_nil _
    exact ⟨hsteady, h.window.mono fun i hi => hsame ▸ hi, hsame ▸ h.nodup, hsaved'⟩
  | suppress hi _ => exact ⟨hsteady, hnote _ hi, h.nodup, hsaved'⟩
  | reject hi _ => exact ⟨hsteady, hnote _ hi, h.nodup, hsaved'⟩
  | accept hi hnew hr ha =>
    rename_i i r sys
    obtain ⟨spool, disk, _, rfl⟩ := ha
    have hraw : rawIdentities (a.sys.log ++ [SpoolSys.appended spool r]) =
        rawIdentities a.sys.log ++ [i] := by
      rw [rawIdentities_append, entryIdentity_raw hr]
      rfl
    -- an event of the log would be old
    have hout : i ∉ rawIdentities a.sys.log := fun hmem => hnew (h.window.old i hmem)
    refine ⟨hsteady, (h.window.note hlen hi).mono ?_, ?_, hsaved'⟩
    · intro j hj
      rcases List.mem_append.1 (hraw ▸ hj) with hj | hj
      · exact .inl hj
      · exact .inr (List.mem_singleton.1 hj)
    · exact hraw ▸ List.Nodup.append h.nodup (List.nodup_singleton i) (by simpa using hout)
  | sync => exact ⟨hsteady, h.window, h.nodup, hsaved'⟩

theorem Complete.save (h : Complete pairs snapshot a) {snap : ReceiverCore.Snapshot}
    (hsnap : snap = ⟨a.dedup, a.sys.spool.synced⟩)
    (hend : a.sys.spool.synced = a.sys.spool.endPosition) : Complete pairs (some snap) a := by
  subst hsnap
  refine ⟨h.steady.save rfl, h.window, h.nodup, fun snap hs => ?_⟩
  obtain rfl := Option.some.inj hs
  exact h.window.mono fun i hi => by
    rw [hend, h.steady.upTo_end] at hi
    exact hi

/-! ## A crash -/

variable {sys : SpoolSys} {maxBytes segmentBytes kept stable : Nat}

/-- The window a new process restores. -/
def restored (snapshot : Option ReceiverCore.Snapshot) (sys : SpoolSys) : DedupWindow :=
  (rawIdentities (sys.unreleased.filter (behind snapshot))).foldl DedupWindow.note
    (snapshotWindow snapshot)

/-- What a crash leaves of a steady directory, and the window restored from it. -/
structure Crashed (P : Identity → Prop) (snapshot : Option ReceiverCore.Snapshot) (x : Intake)
    (sys : SpoolSys) : Prop where
  steady : ∀ dedup rejected, Steady P snapshot ⟨sys, dedup, rejected⟩
  log : sys.log <+: x.sys.log
  synced : ∀ e ∈ x.sys.log, e.stop ≤ x.sys.spool.synced → e ∈ sys.log
  position : ∀ snap, snapshot = some snap → snap.position ≤ x.sys.spool.synced
  held : ∀ e ∈ sys.log, e ∈ x.sys.unreleased → e ∈ sys.unreleased
  cut : ∀ snap, snapshot = some snap → ∀ e ∈ sys.log, e.stop ≤ snap.position ∨ behind snapshot e
  boot : ∀ cfg monotonic rejected, ReceiverCore.boot cfg sys snapshot monotonic rejected =
    some (.start cfg sys (restored snapshot sys) monotonic rejected)

theorem Steady.crash (h : Steady P snapshot a) (hC : a.sys.Settles (.crash kept stable))
    (hstep : a.sys.step maxBytes segmentBytes (.crash kept stable) = some sys) :
    Crashed P snapshot a sys := by
  obtain ⟨gone, older, rs, hg⟩ := h.grounded
  obtain ⟨⟨gone', older', rs', hg', hgone⟩, hlog, -, hsynced⟩ := hg.step hC hstep
  have hgenuine : Genuine P sys.log := fun e he => h.genuine e (hlog.subset he)
  refine ⟨fun _ _ => ⟨⟨_, _, _, hg'⟩, hgenuine⟩, hlog, hsynced, ?_, ?_, ?_, ?_⟩
  · intro snap hs
    exact hg.synced _ (by rw [hs]; rfl)
  · intro e he hheld
    refine (hg'.held_or_gone he).resolve_right fun hmem => ?_
    obtain ⟨g, hg₁, heg⟩ := mem_placeAll.1 hmem
    rcases hgone g hg₁ with hold | ⟨acked, hop, -⟩
    · exact hg.gone_released (mem_placeAll.2 ⟨g, hold, heg⟩) hheld
    · cases hop
  · intro snap hs e he
    refine (hg'.before_or_behind (by rw [hs]; rfl) he).imp_right fun hle => ?_
    rw [hs]
    exact decide_eq_true hle
  · exact fun cfg monotonic rejected => hg'.boot hgenuine cfg monotonic rejected

theorem Crashed.upTo (h : Crashed P snapshot a sys) {snap : ReceiverCore.Snapshot}
    (hs : snapshot = some snap) {i : Identity} (hi : i ∈ upTo snap.position a.sys.log) :
    i ∈ upTo snap.position sys.log := by
  obtain ⟨e, he, hid, hle⟩ := mem_upTo.1 hi
  exact mem_upTo.2 ⟨e, h.synced e he (hle.trans (h.position snap hs)), hid, hle⟩

/-- **The restored window holds nothing that the crash has lost.** -/
theorem Sound.crash (h : Sound snapshot a) (hx : Crashed Identity.Legit snapshot a sys) :
    Sound snapshot ⟨sys, restored snapshot sys, a.rejected⟩ := by
  have hsaved : ∀ snap, snapshot = some snap →
      Backed snap.window (fun i => i ∈ OTS.Receiver.upTo snap.position sys.log ∨ i ∈ a.rejected) :=
    fun snap hs => (h.saved snap hs).mono fun i hi => hi.imp_left (hx.upTo hs)
  refine ⟨hx.steady _ _, ?_, hsaved⟩
  have hbase : Backed (snapshotWindow snapshot)
      (fun i => i ∈ rawIdentities sys.log ∨ i ∈ a.rejected) := by
    cases snapshot with
    | none => exact backed_init
    | some snap =>
      refine (hsaved snap rfl).mono fun i hi => hi.imp_left fun hi => ?_
      obtain ⟨e, he, hid, -⟩ := mem_upTo.1 hi
      exact mem_rawIdentities.2 ⟨e, he, hid⟩
  refine hbase.replay fun i hi => ?_
  obtain ⟨e, he, hid⟩ := mem_rawIdentities.1 hi
  have hmem : e ∈ sys.log := List.mem_of_mem_filter (List.mem_of_mem_filter he)
  exact ⟨(hx.steady .init []).genuine.identity hmem hid, .inl (mem_rawIdentities.2 ⟨e, hmem, hid⟩)⟩

/-- The snapshot reflects the record. -/
def reflects (snapshot : Option ReceiverCore.Snapshot) (e : Entry) : Bool :=
  snapshot.elim false fun snap => e.stop ≤ snap.position

/-- Every event whose segment has been deleted is reflected by the snapshot. -/
def Covered (snapshot : Option ReceiverCore.Snapshot) (sys : SpoolSys) : Prop :=
  ∀ e ∈ sys.log, (entryIdentity e).isSome → e ∈ sys.unreleased ∨ reflects snapshot e

instance (snapshot : Option ReceiverCore.Snapshot) (sys : SpoolSys) :
    Decidable (Covered snapshot sys) := inferInstanceAs (Decidable (∀ e ∈ sys.log, _ → _ ∨ _))

/-- **The restored window remembers every event that the crash has left.** -/
theorem Complete.crash (h : Complete pairs snapshot a) (hlen : pairs.length ≤ MAX_STREAMS)
    (hx : Crashed (Of pairs) snapshot a sys) (hcov : Covered snapshot a.sys) :
    Complete pairs snapshot ⟨sys, restored snapshot sys, a.rejected⟩ := by
  have hgenuine := (hx.steady .init []).genuine
  have hback : ∀ p i, i ∈ OTS.Receiver.upTo p sys.log → i ∈ OTS.Receiver.upTo p a.sys.log := by
    intro p i hi
    obtain ⟨e, he, hid, hle⟩ := mem_upTo.1 hi
    exact mem_upTo.2 ⟨e, hx.log.subset he, hid, hle⟩
  have hsaved : ∀ snap, snapshot = some snap →
      Remembers pairs snap.window (· ∈ OTS.Receiver.upTo snap.position sys.log) :=
    fun snap hs => (h.saved snap hs).mono (hback _)
  refine ⟨hx.steady _ _, ?_, (hx.log.sublist.filterMap _).nodup h.nodup, hsaved⟩
  have hreplayed : ∀ i ∈ rawIdentities (sys.unreleased.filter (behind snapshot)), Of pairs i := by
    intro i hi
    obtain ⟨e, he, hid⟩ := mem_rawIdentities.1 hi
    exact hgenuine.identity (List.mem_of_mem_filter (List.mem_of_mem_filter he)) hid
  -- an event left is behind the snapshot and replayed, or the snapshot reflects it
  cases snapshot with
  | none =>
    refine (remembers_init.replay hlen hreplayed).mono fun i hi => .inr ?_
    obtain ⟨e, he, hid⟩ := mem_rawIdentities.1 hi
    refine mem_rawIdentities.2 ⟨e, List.mem_filter.2 ⟨hx.held e he ?_, rfl⟩, hid⟩
    exact (hcov e (hx.log.subset he) (by rw [hid]; rfl)).resolve_right Bool.false_ne_true
  | some snap =>
    refine ((hsaved snap rfl).replay hlen hreplayed).mono fun i hi => ?_
    obtain ⟨e, he, hid⟩ := mem_rawIdentities.1 hi
    rcases hcov e (hx.log.subset he) (by rw [hid]; rfl) with hheld | hrefl
    · rcases hx.cut snap rfl e he with hle | hbehind
      · exact .inl (mem_upTo.2 ⟨e, he, hid, hle⟩)
      · exact .inr (mem_rawIdentities.2
          ⟨e, List.mem_filter.2 ⟨hx.held e he hheld, hbehind⟩, hid⟩)
    · exact .inl (mem_upTo.2 ⟨e, he, hid, of_decide_eq_true hrefl⟩)

/-! ## Runs with restarts -/

variable {hmac : Link.Hmac} {rt : Runtime} {cfg : Config} {s : ReceiverSys}

/-- What a crash keeps is on stable storage, or its last record is torn. -/
def Settling (hmac : Link.Hmac) (s : ReceiverSys) : ReceiverOp → Prop
  | .crash call kept stable _ => (s.ended hmac call).sys.Settles (.crash kept stable)
  | _ => True

/-- Every frame that is decoded names one of the given streams. -/
def Naming (hmac : Link.Hmac) (pairs : List (String × String)) (s : ReceiverSys) :
    ReceiverOp → Prop
  | .datagram data _ _ => ∀ f, s.core.codec.decode hmac data = .ok f → (f.sensorId, f.bootId) ∈ pairs
  | _ => True

/-- When the process ends, every event whose segment has been deleted is reflected by the snapshot. -/
def Covering (hmac : Link.Hmac) (s : ReceiverSys) : ReceiverOp → Prop
  | .crash call _ _ _ => Covered s.snapshot (s.ended hmac call).sys
  | _ => True

instance (hmac : Link.Hmac) (s : ReceiverSys) (op : ReceiverOp) : Decidable (Settling hmac s op) :=
  match op with
  | .crash call kept stable _ =>
    inferInstanceAs (Decidable ((s.ended hmac call).sys.Settles (.crash kept stable)))
  | .datagram _ _ _ => isTrue trivial
  | .housekeeping _ _ _ => isTrue trivial
  | .release _ => isTrue trivial

instance (hmac : Link.Hmac) (pairs : List (String × String)) (s : ReceiverSys) (op : ReceiverOp) :
    Decidable (Naming hmac pairs s op) :=
  match op with
  | .datagram data nowUs clock =>
    inferInstanceAs (Decidable (OneProcess hmac pairs s (.datagram data nowUs clock)))
  | .housekeeping _ _ _ => isTrue trivial
  | .release _ => isTrue trivial
  | .crash _ _ _ _ => isTrue trivial

instance (hmac : Link.Hmac) (s : ReceiverSys) (op : ReceiverOp) : Decidable (Covering hmac s op) :=
  match op with
  | .crash call _ _ _ => inferInstanceAs (Decidable (Covered s.snapshot (s.ended hmac call).sys))
  | .datagram _ _ _ => isTrue trivial
  | .housekeeping _ _ _ => isTrue trivial
  | .release _ => isTrue trivial

theorem steady_init (cfg : Config) : Steady P none (ReceiverSys.init cfg).core.intake :=
  ⟨⟨[], [], [], shape_init _ _, (by rintro q ⟨⟩), (by rintro q ⟨⟩)⟩, by rintro e ⟨⟩⟩

/-- The end of the process in the middle of a call. -/
theorem ended_effects (call : Option ReceiverCore.Stopped) :
    Effects P s.core.intake (s.ended hmac call).intake := by
  cases call with
  | none => exact .refl
  | some call => exact stop_effects hmac call

/-- **Invariants of the receiver**: what holds at the start and is kept by the effects of the calls,
by a new snapshot, by a release, and by a crash under a condition `D`. -/
theorem receiver_invariant {C : ReceiverSys → ReceiverOp → Prop}
    {I : Option ReceiverCore.Snapshot → Intake → Prop} {D : ReceiverSys → Intake → Nat → Nat → Prop}
    (hnames : ∀ s data nowUs clock, C s (.datagram data nowUs clock) → Names hmac s.core P data)
    (hends : ∀ s call kept stable monotonic, C s (.crash call kept stable monotonic) →
      D s (s.ended hmac call).intake kept stable)
    (hinit : I none (ReceiverSys.init cfg).core.intake)
    (heffects : ∀ snapshot a b, I snapshot a → Effects P a b → I snapshot b)
    (hsave : ∀ snapshot a, I snapshot a → a.sys.spool.synced = a.sys.spool.endPosition →
      I (some ⟨a.dedup, a.sys.spool.synced⟩) a)
    (hrelease : ∀ snapshot a acked, I snapshot a → I snapshot (a.released acked))
    (hcrash : ∀ s a kept stable sys monotonic core, I s.snapshot a → D s a kept stable →
      a.sys.step cfg.maxBytes cfg.segmentBytes (.crash kept stable) = some sys →
      ReceiverCore.boot cfg sys s.snapshot monotonic a.rejected = some core →
      I s.snapshot core.intake)
    (h : (receiver hmac rt cfg).Reach C s) : I s.snapshot s.core.intake := by
  refine h.invariant (I := fun s => I s.snapshot s.core.intake) hinit ?_
  intro s op s' hI hC hs
  cases op with
  | datagram data nowUs clock =>
    cases hs
    exact heffects _ _ _ hI (handleDatagram_effects (hnames s data nowUs clock hC))
  | housekeeping nowUs clock monotonic =>
    cases hs
    have hcore : I s.snapshot (s.core.housekeeping nowUs clock monotonic).1.intake :=
      heffects _ _ _ hI housekeeping_effects
    show I ((s.core.housekeeping nowUs clock monotonic).2.or s.snapshot) _
    cases hsnap : (s.core.housekeeping nowUs clock monotonic).2 with
    | none => exact hcore
    | some snap =>
      obtain ⟨rfl, hend⟩ := housekeeping_saves hsnap
      exact hsave _ _ hcore hend
  | release acked =>
    cases hs
    exact hrelease _ _ acked hI
  | crash call kept stable monotonic =>
    have hended := heffects _ _ (s.ended hmac call).intake hI (ended_effects call)
    simp only [receiver, ReceiverSys.step] at hs
    split at hs
    · cases hs
    · rename_i sys hsys
      obtain ⟨core, hcore, rfl⟩ := Option.map_eq_some_iff.1 hs
      exact hcrash s _ kept stable sys monotonic core hended (hends _ _ _ _ _ hC) hsys hcore

theorem sound_reach (h : (receiver hmac rt cfg).Reach (Settling hmac) s) :
    Sound s.snapshot s.core.intake := by
  refine receiver_invariant (P := Identity.Legit) (I := Sound)
    (D := fun _ a kept stable => a.sys.Settles (.crash kept stable)) ?_ (fun _ _ _ _ _ hC => hC)
    ⟨steady_init cfg, backed_init, by rintro snap ⟨⟩⟩ ?_ ?_ ?_ ?_ h
  · exact fun s data nowUs clock _ f hf => ⟨(decode_legit hf).1, (decode_legit hf).2⟩
  · exact fun snapshot a b hI he => he.invariant (fun _ _ hx => hx.effect) hI
  · exact fun snapshot a hI hend => hI.save rfl hend
  · exact fun snapshot a acked hI => ⟨hI.steady.release acked, hI.window, hI.saved⟩
  · intro s a kept stable sys monotonic core hI hC hsys hboot
    have hx := hI.steady.crash hC hsys
    rw [hx.boot, Option.some.injEq] at hboot
    exact hboot ▸ hI.crash hx

/-- The conditions under which nothing is spooled twice. -/
def Keeping (hmac : Link.Hmac) (pairs : List (String × String)) (s : ReceiverSys) (op : ReceiverOp) :
    Prop :=
  Naming hmac pairs s op ∧ Settling hmac s op ∧ Covering hmac s op

instance (hmac : Link.Hmac) (pairs : List (String × String)) (s : ReceiverSys) (op : ReceiverOp) :
    Decidable (Keeping hmac pairs s op) := inferInstanceAs (Decidable (_ ∧ _ ∧ _))

theorem complete_reach (hlen : pairs.length ≤ MAX_STREAMS)
    (h : (receiver hmac rt cfg).Reach (Keeping hmac pairs) s) :
    Complete pairs s.snapshot s.core.intake := by
  refine receiver_invariant (P := Of pairs) (I := Complete pairs)
    (D := fun s a kept stable => a.sys.Settles (.crash kept stable) ∧ Covered s.snapshot a.sys)
    ?_ (fun _ _ _ _ _ hC => hC.2)
    ⟨steady_init cfg, remembers_init.mono (by rintro i ⟨⟩), List.nodup_nil, by rintro snap ⟨⟩⟩
    ?_ ?_ ?_ ?_ h
  · exact fun s data nowUs clock hC f hf =>
      ⟨⟨(decode_legit hf).1, (decode_legit hf).2⟩, hC.1 f hf⟩
  · exact fun snapshot a b hI he => he.invariant (fun _ _ hx => hx.effect hlen) hI
  · exact fun snapshot a hI hend => hI.save rfl hend
  · exact fun snapshot a acked hI => ⟨hI.steady.release acked, hI.window, hI.nodup, hI.saved⟩
  · intro s a kept stable sys monotonic core hI hC hsys hboot
    have hx := hI.steady.crash hC.1 hsys
    rw [hx.boot, Option.some.injEq] at hboot
    exact hboot ▸ hI.crash hlen hx hC.2

/-! ## What is lost is not suppressed -/

/-- **A duplicate is an event of the log or a rejected one.**  In every run whose crashes settle,
before and after every restart; what a crash has taken from the log is no duplicate afterwards. -/
theorem lost_never_suppressed (hmac : Link.Hmac) (rt : Runtime) (cfg : Config) {s : ReceiverSys}
    (h : (receiver hmac rt cfg).Reach (Settling hmac) s) :
    (∀ i : Identity, i.Legit → s.core.dedup.verdict i = .duplicate →
      i ∈ rawIdentities s.core.sys.log ∨ i ∈ s.core.rejected) ∧
    ∀ call kept stable monotonic s', Settling hmac s (.crash call kept stable monotonic) →
      ReceiverSys.step hmac rt cfg s (.crash call kept stable monotonic) = some s' →
      s'.core.sys.log <+: (s.ended hmac call).sys.log ∧
      s'.core.rejected = (s.ended hmac call).rejected ∧
      ∀ i : Identity, i.Legit → s'.core.dedup.verdict i = .duplicate →
        i ∈ rawIdentities s'.core.sys.log ∨ i ∈ (s.ended hmac call).rejected := by
  refine ⟨fun i hi hd => (sound_reach h).window.of_duplicate hi hd, ?_⟩
  intro call kept stable monotonic s' hC hstep
  have hended : Sound s.snapshot (s.ended hmac call).intake :=
    (ended_effects (P := Identity.Legit) call).invariant (fun _ _ hx => hx.effect) (sound_reach h)
  have hs' := sound_reach (h.step hC hstep)
  simp only [ReceiverSys.step] at hstep
  split at hstep
  · cases hstep
  · rename_i sys hsys
    have hx := hended.steady.crash hC hsys
    rw [show ReceiverCore.boot cfg sys s.snapshot monotonic (s.ended hmac call).rejected = _ from
      hx.boot cfg monotonic _] at hstep
    obtain rfl := Option.some.inj hstep
    exact ⟨hx.log, rfl, fun i hi hd => hs'.window.of_duplicate hi hd⟩

/-! ## What is spooled is suppressed -/

/-- **Nothing is spooled twice across restarts.**  In every run over at most `MAX_STREAMS` streams
whose crashes settle with the deleted events reflected by the snapshot, every event of the log is old
and spooled once; and the process always restarts, with everything that was synced. -/
theorem restart_suppresses (hmac : Link.Hmac) (rt : Runtime) (cfg : Config)
    (pairs : List (String × String)) (hlen : pairs.length ≤ MAX_STREAMS) {s : ReceiverSys}
    (h : (receiver hmac rt cfg).Reach (Keeping hmac pairs) s) :
    (∀ i ∈ rawIdentities s.core.sys.log, s.core.dedup.Old i) ∧
    (rawIdentities s.core.sys.log).Nodup ∧
    ∀ call kept stable monotonic, Keeping hmac pairs s (.crash call kept stable monotonic) →
      (s.ended hmac call).sys.disk.durable ≤ stable → stable ≤ kept →
      kept ≤ ((s.ended hmac call).sys.disk.data (s.ended hmac call).sys.spool.active).length →
      ∃ s', ReceiverSys.step hmac rt cfg s (.crash call kept stable monotonic) = some s' ∧
        ∀ e ∈ (s.ended hmac call).sys.log, e.stop ≤ (s.ended hmac call).sys.spool.synced →
          e ∈ s'.core.sys.log ∧ ∀ i, entryIdentity e = some i → s'.core.dedup.Old i := by
  have hI := complete_reach hlen h
  refine ⟨hI.window.old, hI.nodup, ?_⟩
  intro call kept stable monotonic hC hdurable hstable hkept
  have hended : Complete pairs s.snapshot (s.ended hmac call).intake :=
    (ended_effects (P := Of pairs) call).invariant (fun _ _ hx => hx.effect hlen) hI
  obtain ⟨sys, hsys⟩ : ∃ sys, (s.ended hmac call).sys.step cfg.maxBytes cfg.segmentBytes
      (.crash kept stable) = some sys := by
    simp only [SpoolSys.step, if_pos (And.intro hdurable (And.intro hstable hkept))]
    exact ⟨_, rfl⟩
  have hx := hended.steady.crash hC.2.1 hsys
  have hrestarted := hended.crash hlen hx hC.2.2
  have hboot : ReceiverCore.boot cfg sys s.snapshot monotonic (s.ended hmac call).rejected = _ :=
    hx.boot cfg monotonic _
  refine ⟨⟨.start cfg sys (restored s.snapshot sys) monotonic (s.ended hmac call).rejected,
    s.snapshot⟩, by simp only [ReceiverSys.step, hsys, hboot, Option.map_some], fun e he hle => ?_⟩
  have hkeep : e ∈ sys.log := hx.synced e he hle
  exact ⟨hkeep, fun i hi => hrestarted.window.old i (mem_rawIdentities.2 ⟨e, hkeep, hi⟩)⟩

/-! ### Sample runs -/

def sampleReceiver : Machine ReceiverSys ReceiverOp :=
  receiver hmacSha256 sampleRuntime sampleConfig

def badDatagram : ReceiverOp := .datagram [1, 2, 3] 1788249610000000 sampleClock

def housekept (monotonic : Rat) : ReceiverOp :=
  .housekeeping 1788249611000000 sampleClock monotonic

/-- The first sample event is received, its stream being new. -/
theorem reach_receives {C : ReceiverSys → ReceiverOp → Prop} {s : ReceiverSys}
    (h : sampleReceiver.Reach C s) (hC : C s (receives 0)) (hcodec : s.core.codec = sampleConfig.codec)
    (hnew : s.core.dedup.check "ot-sensor-01" sampleBoot 0 = .new) :
    sampleReceiver.Reach C { s with core := sampleReceived s.core } :=
  h.step hC (step_receives hcodec hnew)

/-- The receiver after its first event. -/
def sampleStart : ReceiverSys := ⟨sampleReceived (ReceiverSys.init sampleConfig).core, none⟩

theorem reach_sampleStart {C : ReceiverSys → ReceiverOp → Prop}
    (hC : C sampleReceiver.init (receives 0)) : sampleReceiver.Reach C sampleStart :=
  reach_receives .init hC rfl rfl

set_option maxRecDepth 100000 in
/-- An event is reflected by the snapshot, its segment deleted, and the process restarted. -/
theorem sample_restarted : ∃ s,
    sampleReceiver.Reach (Keeping hmacSha256 [("ot-sensor-01", sampleBoot)]) s ∧
    s.core.dedup.verdict (sampleIdentity 0) = .duplicate ∧
    rawIdentities s.core.sys.log = [sampleIdentity 0] := by
  have hrun : (sampleReceiver.runMeeting (Keeping hmacSha256 [("ot-sensor-01", sampleBoot)])
      sampleStart [badDatagram, housekept 11, .release ⟨1, 482⟩, .crash none 482 482 20]).any
      (fun s => s.core.dedup.verdict (sampleIdentity 0) = .duplicate ∧
        rawIdentities s.core.sys.log = [sampleIdentity 0]) = true := by decide +kernel
  obtain ⟨s, hs, hlog⟩ := (Option.any_eq_true _ _).1 hrun
  obtain ⟨hd, hlog⟩ := of_decide_eq_true hlog
  exact ⟨s, Machine.reach_runMeeting (reach_sampleStart ⟨sample_names rfl, trivial, trivial⟩) hs,
    hd, hlog⟩

theorem lost_never_suppressed_sample : ∃ s : ReceiverSys,
    (receiver hmacSha256 sampleRuntime sampleConfig).Reach (Settling hmacSha256) s ∧
    s.core.dedup.verdict (sampleIdentity 0) = .duplicate ∧
    (sampleIdentity 0 ∈ rawIdentities s.core.sys.log ∨ sampleIdentity 0 ∈ s.core.rejected) := by
  obtain ⟨s, hs, hd, -⟩ := sample_restarted
  have hreach := Machine.Reach.mono (fun _ _ hC => hC.2.1) hs
  exact ⟨s, hreach, hd,
    (lost_never_suppressed hmacSha256 sampleRuntime sampleConfig hreach).1 _
      (sampleIdentity_legit 0) hd⟩

theorem restart_suppresses_sample : ∃ s : ReceiverSys,
    (receiver hmacSha256 sampleRuntime sampleConfig).Reach
      (Keeping hmacSha256 [("ot-sensor-01", sampleBoot)]) s ∧
    rawIdentities s.core.sys.log = [sampleIdentity 0] ∧ s.core.dedup.Old (sampleIdentity 0) := by
  obtain ⟨s, hs, -, hlog⟩ := sample_restarted
  refine ⟨s, hs, hlog, ?_⟩
  exact (restart_suppresses hmacSha256 sampleRuntime sampleConfig [("ot-sensor-01", sampleBoot)]
    (by decide) hs).1 _ (hlog ▸ List.mem_singleton_self _)

set_option maxRecDepth 100000 in
/-- A killed process leaves an event in the file that is not on stable storage.  The next one takes
it for synced and saves it in the snapshot; when the power then fails, the event is lost and stays a
duplicate. -/
theorem lost_suppressed : ¬ ∀ (hmac : Link.Hmac) (rt : Runtime) (cfg : Config) (s : ReceiverSys),
    (receiver hmac rt cfg).Reach (fun _ _ => True) s →
    ∀ i : Identity, i.Legit → s.core.dedup.verdict i = .duplicate →
      i ∈ rawIdentities s.core.sys.log ∨ i ∈ s.core.rejected := by
  intro hclaim
  have hrun : (sampleReceiver.runMeeting (fun _ _ => True) sampleStart
      [.crash none 1063 0 20, housekept 30, .crash none 0 0 40]).any
      (fun s => s.core.dedup.verdict (sampleIdentity 0) = .duplicate ∧
        rawIdentities s.core.sys.log = [] ∧ s.core.rejected = []) = true := by decide +kernel
  obtain ⟨s, hs, hlost⟩ := (Option.any_eq_true _ _).1 hrun
  obtain ⟨hd, hlog, hrej⟩ := of_decide_eq_true hlost
  have hreach := Machine.reach_runMeeting (reach_sampleStart trivial) hs
  have hmem := hclaim _ _ _ s hreach _ (sampleIdentity_legit 0) hd
  rw [hlog, hrej] at hmem
  rcases hmem with hmem | hmem <;> cases hmem

/-- The receiver once its first snapshot is written. -/
def sampleSaved : ReceiverSys :=
  (sampleReceiver.step sampleReceiver.init (housekept 10)).getD sampleReceiver.init

theorem step_sampleSaved : sampleReceiver.step sampleReceiver.init (housekept 10) = some sampleSaved := by
  have hsome : (sampleReceiver.step sampleReceiver.init (housekept 10)).isSome = true := by decide +kernel
  obtain ⟨s, hs⟩ := Option.isSome_iff_exists.1 hsome
  rw [sampleSaved, hs]
  rfl

set_option maxRecDepth 100000 in
/-- Less than a second after a snapshot an event is spooled, synced and published, its segment is deleted, and
the process ends: the next one knows nothing of it. -/
theorem released_forgotten : ¬ ∀ (hmac : Link.Hmac) (rt : Runtime) (cfg : Config)
    (pairs : List (String × String)), pairs.length ≤ MAX_STREAMS → ∀ s : ReceiverSys,
    (receiver hmac rt cfg).Reach (fun s op => Naming hmac pairs s op ∧ Settling hmac s op) s →
    ∀ i ∈ rawIdentities s.core.sys.log, s.core.dedup.Old i := by
  intro hclaim
  have hsaved : sampleReceiver.Reach (fun s op =>
      Naming hmacSha256 [("ot-sensor-01", sampleBoot)] s op ∧ Settling hmacSha256 s op)
      { sampleSaved with core := sampleReceived sampleSaved.core } := by
    have hcodec : sampleSaved.core.codec = sampleConfig.codec := by
      rw [Link.LinkCodec.mk.injEq]
      decide +kernel
    refine reach_receives (Machine.Reach.init.step (a := housekept 10) ⟨trivial, trivial⟩ step_sampleSaved) ?_
      hcodec (by decide +kernel)
    exact ⟨sample_names hcodec, trivial⟩
  have hrun : (sampleReceiver.runMeeting (fun s op =>
      Naming hmacSha256 [("ot-sensor-01", sampleBoot)] s op ∧ Settling hmacSha256 s op)
      { sampleSaved with core := sampleReceived sampleSaved.core }
      [badDatagram, housekept (21 / 2), .release ⟨1, 482⟩, .crash none 482 482 20]).any
      (fun s => sampleIdentity 0 ∈ rawIdentities s.core.sys.log ∧
        ¬ s.core.dedup.Old (sampleIdentity 0)) = true := by decide +kernel
  obtain ⟨s, hs, hforgotten⟩ := (Option.any_eq_true _ _).1 hrun
  obtain ⟨hmem, hnew⟩ := of_decide_eq_true hforgotten
  exact hnew (hclaim _ _ _ [("ot-sensor-01", sampleBoot)] (by decide) s
    (Machine.reach_runMeeting hsaved hs) _ hmem)

end OTS.Receiver
