import Mathlib.Data.List.TakeWhile
import OTSecurity.Lib.Machine
import OTSecurity.Receiver.SpoolRead

/-!
# The spool as a durable log

The spool with its directory as a machine: records are appended, synced and released, and the
process can crash and reopen the directory at any point.

A crash keeps everything an `fsync` covered and any number of the bytes written after it to the
newest segment. What it keeps need not be on stable storage yet: a process that is killed leaves
all of its writes to the operating system. `kept` is how much the reopened file holds, `stable` how
much of that a later loss of power cannot take.

* `SpoolSys` — spool, directory and, as a ghost, every record appended and not lost since.
* `Settles` — what a crash keeps is stable, or it ends in a torn record, which `open` cuts and syncs.
* `Shape` — the invariant: the log is the records of the segments released and the segments held.

Principal results: `spool_faithful_log`, in every run whose crashes settle the spool is a faithful
log; `spool_loses_synced`, without that condition a record below `synced` is lost, since `open`
takes the bytes it finds for synced.
-/

namespace OTS.Receiver

/-- What a caller of `append` passes. -/
abbrev CallerRec := { r : Rec // r.Identified }

structure SpoolSys where
  spool : Spool
  disk : Disk
  log : List Entry

inductive SpoolOp where
  | append (r : CallerRec)
  | sync
  | release (acked : Position)
  | crash (kept stable : Nat)

/-- The directory after a crash. -/
def Disk.crash (d : Disk) (newest kept stable : Nat) : Disk :=
  ⟨d.files.set newest ((d.data newest).take kept), stable⟩

namespace SpoolSys

/-- The record an accepted `append` has written. -/
def appended (s : Spool) (r : Rec) : Entry :=
  ⟨r, ⟨s.active, s.activeSize - recSize r⟩, s.endPosition⟩

def init (maxBytes segmentBytes : Nat) : SpoolSys :=
  let (spool, disk) := Spool.open maxBytes segmentBytes ⟨.empty, 0⟩
  ⟨spool, disk, []⟩

def step (maxBytes segmentBytes : Nat) (s : SpoolSys) : SpoolOp → Option SpoolSys
  | .append r =>
    match s.spool.append s.disk r.val with
    | none => some s
    | some (false, spool, disk) => some { s with spool, disk }
    | some (true, spool, disk) => some ⟨spool, disk, s.log ++ [appended spool r.val]⟩
  | .sync =>
    let (spool, disk) := s.spool.sync s.disk
    some { s with spool, disk }
  | .release acked =>
    let (spool, disk) := s.spool.release s.disk acked
    some { s with spool, disk }
  | .crash kept stable =>
    if s.disk.durable ≤ stable ∧ stable ≤ kept ∧ kept ≤ (s.disk.data s.spool.active).length then
      let (spool, disk) :=
        Spool.open maxBytes segmentBytes (s.disk.crash s.spool.active kept stable)
      some ⟨spool, disk, s.log.filter (fun e => e.stop ≤ spool.endPosition)⟩
    else none

/-- What a crash keeps is on stable storage, or its last record is torn. -/
def Settles (s : SpoolSys) : SpoolOp → Prop
  | .crash kept stable =>
    stable = kept ∨ validPrefix crc32 ((s.disk.data s.spool.active).take kept) < kept
  | _ => True

instance (s : SpoolSys) (op : SpoolOp) : Decidable (s.Settles op) :=
  match op with
  | .crash _ _ => inferInstanceAs (Decidable (_ ∨ _))
  | .append _ => inferInstanceAs (Decidable True)
  | .sync => inferInstanceAs (Decidable True)
  | .release _ => inferInstanceAs (Decidable True)

/-- The records whose segments are held. -/
def unreleased (s : SpoolSys) : List Entry :=
  s.log.filter (fun e => e.start.seg ∈ s.spool.sizes.keys)

/-- A position between two records ever appended and not lost, or at an end of the spool. -/
def AtRecord (s : SpoolSys) (p : Position) : Prop :=
  p = s.spool.firstPosition ∨ p = s.spool.endPosition ∨ ∃ e ∈ s.log, p = e.start ∨ p = e.stop

/-- Reading to the end in batches of the given sizes, each from where the one before stopped. -/
def readBatches (s : SpoolSys) (p : Position) : List Nat → Option (List Entry)
  | [] => some []
  | n :: ns =>
    match s.spool.read s.disk p s.spool.endPosition n with
    | none => none
    | some es => (readBatches s (resume p es) ns).map (es ++ ·)

/-- What each operation does to the log. -/
def OpSpec (s : SpoolSys) (s' : SpoolSys) : SpoolOp → Prop
  | .append r =>
    s' = s ∨ ∃ e, e.record = r.val ∧ s'.log = s.log ++ [e] ∧ s'.unreleased = s.unreleased ++ [e] ∧
      e.stop = s'.spool.endPosition ∧ s.spool.endPosition ≤ e.start ∧
      ∀ x ∈ s.log, x.stop ≤ e.start
  | .sync =>
    s'.log = s.log ∧ s'.unreleased = s.unreleased ∧ ∀ e ∈ s'.log, e.stop ≤ s'.spool.synced
  | .release acked =>
    s'.log = s.log ∧ s'.unreleased = s.unreleased.filter
      (fun e => acked.seg ≤ e.start.seg ∨ e.start.seg = s.spool.active)
  | .crash _ _ =>
    s'.log <+: s.log ∧ s'.unreleased <+: s.unreleased ∧
      ∀ e ∈ s.log, e.stop ≤ s.spool.synced → e ∈ s'.log

end SpoolSys

/-- The spool as a machine. -/
def spoolMachine (maxBytes segmentBytes : Nat) : Machine SpoolSys SpoolOp :=
  ⟨.init maxBytes segmentBytes, SpoolSys.step maxBytes segmentBytes⟩

/-! ## The segments held -/

/-- The segments held: the older ones and the newest. -/
def held (newest : Nat) (older : List (Nat × List Rec)) (rs : List Rec) :
    List (Nat × List Rec) :=
  older ++ [(newest, rs)]

section Held

variable {spool : Spool} {disk : Disk} {older : List (Nat × List Rec)} {rs : List Rec}

theorem Holds.older_lt (h : Holds spool disk (held spool.active older rs)) :
    ∀ g ∈ older, g.1 < spool.active :=
  (ascending_split h.asc).1

theorem Holds.le_active (h : Holds spool disk (held spool.active older rs)) :
    ∀ g ∈ held spool.active older rs, g.1 ≤ spool.active := by
  intro g hg
  rcases List.mem_append.1 hg with hg | hg
  · exact (h.older_lt g hg).le
  · rw [List.mem_singleton.1 hg]

theorem Holds.activeSize (h : Holds spool disk (held spool.active older rs)) :
    spool.activeSize = bytesOf recSize rs := by
  rw [Spool.activeSize, h.size, Option.getD_some]

theorem Holds.data (h : Holds spool disk (held spool.active older rs)) :
    disk.data spool.active = fileBytes rs := by
  rw [Disk.data, h.file, Option.getD_some]

/-- The next segment is created. -/
theorem Holds.rotate (h : Holds spool disk (held spool.active older rs)) :
    Holds (spool.openSegment disk (spool.active + 1)).1 (spool.openSegment disk (spool.active + 1)).2
      (held (spool.active + 1) (held spool.active older rs) []) := by
  have hnew : ∀ g ∈ held spool.active older rs, g.1 ≠ spool.active + 1 := fun g hg =>
    (Nat.lt_succ_of_le (h.le_active g hg)).ne
  have hsizes : spool.active + 1 ∉ spool.sizes.keys := by
    rw [h.keys]
    intro hm
    obtain ⟨g, hg, he⟩ := List.mem_map.1 hm
    exact hnew g hg he
  have hfiles : spool.active + 1 ∉ disk.files.keys := by
    rw [ODict.keys, h.files, List.map_map]
    intro hm
    obtain ⟨g, hg, he⟩ := List.mem_map.1 hm
    exact hnew g hg he
  have hheld : held (spool.active + 1) (held spool.active older rs) [] =
      held spool.active older rs ++ [(spool.active + 1, [])] := rfl
  refine ⟨?_, ?_, ?_, ?_⟩
  · refine List.pairwise_append.2 ⟨h.asc, List.pairwise_singleton _ _, ?_⟩
    intro g hg g' hg'
    rw [List.mem_singleton.1 hg']
    exact Nat.lt_succ_of_le (h.le_active g hg)
  · intro g hg
    rcases List.mem_append.1 hg with hg | hg
    · exact h.stored g hg
    · rw [List.mem_singleton.1 hg]
      simp
  · rw [hheld, List.map_append, ← h.files]
    simp only [Spool.openSegment, if_neg hfiles, ODict.entries_set_new _ hfiles]
    rfl
  · rw [hheld, List.map_append, ← h.sizes]
    simp only [Spool.openSegment, if_neg hsizes, ODict.entries_set_new _ hsizes]
    rfl

/-- A record is written to the newest segment. -/
theorem Holds.write (h : Holds spool disk (held spool.active older rs)) {r : Rec} (hr : Stored r) :
    Holds (spool.writeRecord disk (frame crc32 (bodyOf r))).1
      (spool.writeRecord disk (frame crc32 (bodyOf r))).2
      (held spool.active older (rs ++ [r])) := by
  have hfile : disk.data spool.active ++ frame crc32 (bodyOf r) = fileBytes (rs ++ [r]) := by
    rw [h.data, fileBytes_append]
    simp [fileBytes, framesOf]
  have hsize : spool.activeSize + recSize r = bytesOf recSize (rs ++ [r]) := by
    simp [h.activeSize]
  refine ⟨h.asc.congr (by simp [held]), ?_, ?_, ?_⟩
  · intro g hg x hx
    rcases List.mem_append.1 hg with hg | hg
    · exact h.stored g (List.mem_append_left _ hg) x hx
    · rw [List.mem_singleton.1 hg] at hx
      rcases List.mem_append.1 hx with hx | hx
      · exact h.stored (spool.active, rs) (by simp [held]) x hx
      · rw [List.mem_singleton.1 hx]
        exact hr
  · have hent := h.files
    rw [held, List.map_append] at hent
    simp only [Spool.writeRecord, hfile, held, List.map_append]
    exact ODict.entries_set_last _ hent
  · have hent := h.sizes
    rw [held, List.map_append] at hent
    simp only [Spool.writeRecord, frame_length, held, List.map_append]
    rw [← recSize, hsize]
    exact ODict.entries_set_last _ hent

/-- The oldest segment deleted. -/
def Spool.dropSegment (spool : Spool) (seg : Nat) : Spool :=
  { spool with
    sizes := spool.sizes.erase seg
    total := spool.total - (spool.sizes.get? seg).getD 0 }

def Disk.dropSegment (disk : Disk) (seg : Nat) : Disk :=
  { disk with files := disk.files.erase seg }

theorem Holds.dropSegment {g : Nat × List Rec}
    (h : Holds spool disk (held spool.active (g :: older) rs)) :
    Holds (spool.dropSegment g.1) (disk.dropSegment g.1) (held spool.active older rs) :=
  ⟨(List.pairwise_cons.1 h.asc).2, fun x hx => h.stored x (List.mem_cons_of_mem _ hx),
    ODict.entries_erase_head h.files, ODict.entries_erase_head h.sizes⟩

/-- The order in which `release` goes through the segments. -/
theorem Holds.release_eq (h : Holds spool disk (held spool.active older rs)) (acked : Position) :
    spool.release disk acked =
      Spool.releaseLoop acked (older.map (·.1) ++ [spool.active]) (spool, disk) := by
  have hkeys : spool.sizes.keys = older.map (·.1) ++ [spool.active] := by
    rw [h.keys, held, List.map_append]
    rfl
  have hasc : (older.map (·.1) ++ [spool.active]).Pairwise (· < ·) := by
    have := (List.pairwise_map (f := Prod.fst) (R := (· < ·))).2 h.asc
    rwa [held, List.map_append] at this
  rw [Spool.release, hkeys, List.Pairwise.insertionSort_eq (hasc.imp Nat.le_of_lt)]

/-- What a crash leaves of the newest segment: whole records and a torn one. -/
theorem Holds.crash_files (h : Holds spool disk (held spool.active older rs)) (kept stable : Nat) :
    ∃ j torn, Torn crc32 torn ∧
      (disk.data spool.active).take kept = fileBytes (rs.take j) ++ torn ∧
      (disk.crash spool.active kept stable).files.entries =
        older.map (fun g => (g.1, fileBytes g.2)) ++
          [(spool.active, fileBytes (rs.take j) ++ torn)] ∧
      Ascending (held spool.active older (rs.take j)) ∧
      (∀ g ∈ held spool.active older (rs.take j), ∀ r ∈ g.2, Stored r) ∧
      ∀ i, bytesOf recSize (rs.take i) ≤ kept → i ≤ rs.length → i ≤ j := by
  have hframable : ∀ b ∈ rs.map bodyOf, Framable b := by
    intro b hb
    obtain ⟨r, hr, rfl⟩ := List.mem_map.1 hb
    exact (h.stored (spool.active, rs) (by simp [held]) r hr).framable
  obtain ⟨j, torn, htorn, htake, hmax⟩ := @take_framesOf crc32 _ hframable kept
  rw [← List.map_take] at htake
  have hdata : (disk.data spool.active).take kept = fileBytes (rs.take j) ++ torn := by
    rw [h.data]
    exact htake
  refine ⟨j, torn, htorn, hdata, ?_, h.asc.congr (by simp [held]), ?_, ?_⟩
  · have hent := h.files
    rw [held, List.map_append] at hent
    rw [Disk.crash, hdata, ODict.entries_set_last _ hent]
  · intro g hg r hr
    rcases List.mem_append.1 hg with hg | hg
    · exact h.stored g (List.mem_append_left _ hg) r hr
    · rw [List.mem_singleton.1 hg] at hr
      exact h.stored (spool.active, rs) (by simp [held]) r (List.mem_of_mem_take hr)
  · intro i hle hi
    refine hmax i ?_ (by simpa using hi)
    rw [← List.map_take]
    exact (fileBytes_length (rs.take i)).le.trans hle

end Held

/-! ## The invariant -/

/-- The log is the records of the segments `gone`, of the `older` ones and of the newest. -/
structure Shape (s : SpoolSys) (gone older : List (Nat × List Rec)) (rs : List Rec) : Prop where
  asc : Ascending (gone ++ held s.spool.active older rs)
  log : s.log = placeAll recSize (gone ++ held s.spool.active older rs)
  holds : Holds s.spool s.disk (held s.spool.active older rs)
  durable_le : s.disk.durable ≤ bytesOf recSize rs
  clean : s.spool.dirty = false → s.disk.durable = bytesOf recSize rs
  synced : Boundary recSize (gone ++ held s.spool.active older rs) s.spool.synced
  fsynced : s.spool.synced.seg = s.spool.active → s.spool.synced.off ≤ s.disk.durable

section

variable {s : SpoolSys} {gone older : List (Nat × List Rec)} {rs : List Rec}

theorem Shape.activeSize (h : Shape s gone older rs) : s.spool.activeSize = bytesOf recSize rs :=
  h.holds.activeSize

theorem Shape.data (h : Shape s gone older rs) : s.disk.data s.spool.active = fileBytes rs :=
  h.holds.data

theorem Shape.endPosition (h : Shape s gone older rs) :
    s.spool.endPosition = ⟨s.spool.active, bytesOf recSize rs⟩ := by
  rw [Spool.endPosition, h.activeSize]

theorem Shape.asc' (h : Shape s gone older rs) :
    Ascending ((gone ++ older) ++ [(s.spool.active, rs)]) := by
  rw [List.append_assoc]
  exact h.asc

theorem Shape.sorted (h : Shape s gone older rs) :
    s.log.Pairwise (fun a b => a.stop ≤ b.start) := by
  rw [h.log]
  exact placeAll_sorted h.asc

theorem Shape.start_lt (h : Shape s gone older rs) : ∀ e ∈ s.log, e.start < e.stop := by
  intro e he
  rw [h.log] at he
  exact start_lt_stop recSize_pos he

theorem Shape.stop_le_end (h : Shape s gone older rs) :
    ∀ e ∈ s.log, e.stop ≤ s.spool.endPosition := by
  intro e he
  rw [h.log] at he
  have hb := (boundary_of_mem he).2
  rw [held, ← List.append_assoc] at hb
  rw [h.endPosition]
  exact hb.le_end h.asc'

theorem Shape.synced_le_end (h : Shape s gone older rs) : s.spool.synced ≤ s.spool.endPosition := by
  have hb := h.synced
  rw [held, ← List.append_assoc] at hb
  rw [h.endPosition]
  exact hb.le_end h.asc'

/-- The records whose segments are held are those of the held segments. -/
theorem Shape.unreleased (h : Shape s gone older rs) :
    s.unreleased = placeAll recSize (held s.spool.active older rs) := by
  have hcross := (List.pairwise_append.1 h.asc).2.2
  rw [SpoolSys.unreleased, h.log, placeAll_append, h.holds.keys]
  refine filter_append_right (fun e he => ?_) (fun e he => ?_)
  · obtain ⟨g, hg, hseg, -⟩ := mem_placeAll_seg he
    refine decide_eq_false (fun hmem => ?_)
    obtain ⟨g', hg', hseg'⟩ := List.mem_map.1 hmem
    have := hcross g hg g' hg'
    omega
  · obtain ⟨g, hg, hseg, -⟩ := mem_placeAll_seg he
    exact decide_eq_true (List.mem_map.2 ⟨g, hg, hseg⟩)

/-! ## Appending -/

theorem shape_init (maxBytes segmentBytes : Nat) : Shape (.init maxBytes segmentBytes) [] [] [] where
  asc := by simp [held, Ascending]
  log := by simp [held, placeAll, place, SpoolSys.init]
  holds := ⟨by simp [held, Ascending], by simp [held], rfl, rfl⟩
  durable_le := Nat.le_refl _
  clean := fun _ => rfl
  synced := boundary_end
  fsynced := fun _ => Nat.le_refl _

/-- The spool after the newest segment is closed and the next one created. -/
def SpoolSys.rotate (s : SpoolSys) : SpoolSys :=
  let (spool, disk) := s.spool.openSegment s.disk (s.spool.active + 1)
  { s with spool, disk }

theorem Shape.next_notMem (h : Shape s gone older rs) :
    ∀ g ∈ gone ++ held s.spool.active older rs, g.1 < s.spool.active + 1 := by
  intro g hg
  have hasc := h.asc'
  rw [held, ← List.append_assoc] at hg
  rcases List.mem_append.1 hg with hg | hg
  · have := (ascending_split hasc).1 g hg
    omega
  · rw [List.mem_singleton.1 hg]
    exact Nat.lt_succ_self _

theorem Shape.rotate (h : Shape s gone older rs) : Shape s.rotate gone (held s.spool.active older rs) [] := by
  have hasc : Ascending ((gone ++ held s.spool.active older rs) ++ [(s.spool.active + 1, [])]) :=
    List.pairwise_append.2 ⟨h.asc, List.pairwise_singleton _ _, fun g hg g' hg' => by
      rw [List.mem_singleton.1 hg']
      exact h.next_notMem g hg⟩
  have hheld : held s.rotate.spool.active (held s.spool.active older rs) [] =
      held s.spool.active older rs ++ [(s.spool.active + 1, [])] := rfl
  refine ⟨?_, ?_, h.holds.rotate, ?_, ?_, ?_, ?_⟩
  · rw [hheld, ← List.append_assoc]
    exact hasc
  · rw [hheld, ← List.append_assoc, placeAll_open]
    exact h.log
  · exact Nat.le_refl _
  · exact fun _ => rfl
  · refine h.synced.mono ?_
    rw [hheld, ← List.append_assoc]
    exact List.subset_append_left _ _
  · intro hseg
    have hle := h.synced_le_end
    rw [h.endPosition] at hle
    have hseg' : s.spool.synced.seg = s.spool.active + 1 := hseg
    rcases Position.le_def.1 hle with hlt | ⟨heq, -⟩
    · dsimp only at hlt
      omega
    · dsimp only at heq
      omega

/-- The newest segment with a record more at its end. -/
def SpoolSys.write (s : SpoolSys) (r : Rec) : SpoolSys :=
  let (spool, disk) := s.spool.writeRecord s.disk (frame crc32 (bodyOf r))
  ⟨spool, disk,
    s.log ++ [⟨r, s.spool.endPosition, ⟨s.spool.active, s.spool.activeSize + recSize r⟩⟩]⟩

theorem Shape.write (h : Shape s gone older rs) {r : Rec} (hr : Stored r) :
    Shape (s.write r) gone older (rs ++ [r]) := by
  refine ⟨h.asc.congr (by simp [held, SpoolSys.write, Spool.writeRecord]), ?_, h.holds.write hr,
    ?_, ?_, ?_, ?_⟩
  · simp only [SpoolSys.write, h.log, h.endPosition, h.activeSize, held]
    rw [← List.append_assoc gone, ← List.append_assoc gone, placeAll_snoc]
    rfl
  · have := h.durable_le
    rw [bytesOf_append]
    exact Nat.le_add_right_of_le this
  · intro hd
    cases hd
  · have hb := h.synced
    rw [held, ← List.append_assoc] at hb
    rw [held, ← List.append_assoc]
    exact hb.snoc r
  · exact h.fsynced

/-- What `append` decides: to refuse, to write to the next segment, or to the newest. -/
theorem append_cases {spool : Spool} {disk : Disk} {r : CallerRec} {res : Bool × Spool × Disk}
    (h : spool.append disk r.val = some res) :
    Stored r.val ∧
      (spool.maxBytes < spool.total + recSize r.val ∧ res = (false, spool, disk) ∨
        spool.total + recSize r.val ≤ spool.maxBytes ∧
          (0 < spool.activeSize ∧ spool.segmentBytes < spool.activeSize + recSize r.val) ∧
          res = (true, (spool.openSegment disk (spool.active + 1)).1.writeRecord
            (spool.openSegment disk (spool.active + 1)).2 (frame crc32 (bodyOf r.val))) ∨
        spool.total + recSize r.val ≤ spool.maxBytes ∧
          ¬ (0 < spool.activeSize ∧ spool.segmentBytes < spool.activeSize + recSize r.val) ∧
          res = (true, spool.writeRecord disk (frame crc32 (bodyOf r.val)))) := by
  unfold Spool.append at h
  split at h
  · cases h
  · rename_i rec hrec
    obtain ⟨hst, rfl, hlen⟩ := encodeRec_eq r.property hrec
    rw [hlen] at h
    refine ⟨hst, ?_⟩
    split at h
    · rename_i hfull
      exact .inl ⟨hfull, (Option.some.inj h).symm⟩
    · rename_i hroom
      split at h
      · rename_i hrot
        exact .inr (.inl ⟨Nat.not_lt.1 hroom, hrot, (Option.some.inj h).symm⟩)
      · rename_i hrot
        exact .inr (.inr ⟨Nat.not_lt.1 hroom, hrot, (Option.some.inj h).symm⟩)

/-- What `append` does: nothing, or a write to the newest segment or to the next one. -/
theorem append_eq {r : CallerRec} {res : Bool × Spool × Disk}
    (h : s.spool.append s.disk r.val = some res) :
    res = (false, s.spool, s.disk) ∨ Stored r.val ∧
      (res = (true, (s.write r.val).spool, (s.write r.val).disk) ∨
        res = (true, (s.rotate.write r.val).spool, (s.rotate.write r.val).disk)) := by
  obtain ⟨hst, ⟨_, h⟩ | ⟨_, _, h⟩ | ⟨_, _, h⟩⟩ := append_cases h
  · exact .inl h
  · exact .inr ⟨hst, .inr h⟩
  · exact .inr ⟨hst, .inl h⟩

/-- The entry an accepted `append` adds to the log is the one written. -/
theorem Shape.appended (h : Shape s gone older rs) {r : Rec} (hr : Stored r) :
    SpoolSys.appended (s.write r).spool r =
      ⟨r, s.spool.endPosition, ⟨s.spool.active, s.spool.activeSize + recSize r⟩⟩ := by
  have hw := (h.write hr).activeSize
  have hend := (h.write hr).endPosition
  rw [SpoolSys.appended, hend, hw, h.endPosition, h.activeSize]
  simp only [bytesOf_append, bytesOf_cons, bytesOf_nil, Nat.add_zero, Nat.add_sub_cancel]
  rfl

/-! ## Releasing -/

theorem Shape.older_ne (h : Shape s gone older rs) : ∀ g ∈ older, g.1 < s.spool.active :=
  fun g hg => (ascending_split h.asc').1 g (List.mem_append_right _ hg)

/-- The oldest segment deleted. -/
def SpoolSys.dropSegment (s : SpoolSys) (seg : Nat) : SpoolSys where
  spool := s.spool.dropSegment seg
  disk := s.disk.dropSegment seg
  log := s.log

theorem Shape.dropSegment {g : Nat × List Rec} (h : Shape s gone (g :: older) rs) :
    Shape (s.dropSegment g.1) (gone ++ [g]) older rs := by
  have hsegs : (gone ++ [g]) ++ held s.spool.active older rs =
      gone ++ held s.spool.active (g :: older) rs := by simp [held]
  exact ⟨hsegs ▸ h.asc, hsegs ▸ h.log, h.holds.dropSegment, h.durable_le, h.clean,
    hsegs ▸ h.synced, h.fsynced⟩

/-- The segments before `acked`. -/
def before (acked : Position) (g : Nat × List Rec) : Bool := g.1 < acked.seg

theorem shape_releaseLoop (acked : Position) (h : Shape s gone older rs) :
    ∃ spool disk, Spool.releaseLoop acked (older.map (·.1) ++ [s.spool.active])
        (s.spool, s.disk) = (spool, disk) ∧
      Shape { s with spool, disk } (gone ++ older.takeWhile (before acked))
        (older.dropWhile (before acked)) rs ∧
      spool.active = s.spool.active ∧ spool.synced = s.spool.synced := by
  induction older generalizing s gone with
  | nil =>
    refine ⟨s.spool, s.disk, ?_, by simpa using h, rfl, rfl⟩
    simp [Spool.releaseLoop]
  | cons g older ih =>
    have hne := h.older_ne g List.mem_cons_self
    by_cases hg : g.1 < acked.seg
    · obtain ⟨spool, disk, heq, hshape, hactive, hsynced⟩ := ih h.dropSegment
      refine ⟨spool, disk, ?_, by simpa [before, hg, SpoolSys.dropSegment] using hshape, hactive, hsynced⟩
      rw [List.map_cons, List.cons_append, Spool.releaseLoop, if_neg (by omega)]
      exact heq
    · refine ⟨s.spool, s.disk, ?_, by simpa [before, hg] using h, rfl, rfl⟩
      rw [List.map_cons, List.cons_append, Spool.releaseLoop, if_pos (by omega)]

theorem Shape.release (h : Shape s gone older rs) (acked : Position) :
    ∃ spool disk, s.spool.release s.disk acked = (spool, disk) ∧
      Shape { s with spool, disk } (gone ++ older.takeWhile (before acked))
        (older.dropWhile (before acked)) rs ∧
      spool.active = s.spool.active ∧ spool.synced = s.spool.synced := by
  rw [h.holds.release_eq]
  exact shape_releaseLoop acked h

/-- Past the segments before `acked` come those from it on. -/
theorem mem_dropWhile_before {acked : Position} {g : Nat × List Rec}
    (hasc : older.Pairwise (fun a b => a.1 < b.1)) (h : g ∈ older.dropWhile (before acked)) :
    acked.seg ≤ g.1 := by
  induction older with
  | nil => cases h
  | cons x older ih =>
    obtain ⟨hx, hrest⟩ := List.pairwise_cons.1 hasc
    by_cases hlt : x.1 < acked.seg
    · exact ih hrest (by simpa [before, hlt] using h)
    · have h' : g ∈ x :: older := by simpa [before, hlt] using h
      rcases List.mem_cons.1 h' with rfl | h'
      · omega
      · have := hx g h'
        omega

/-- **`release` deletes the segments before `acked` but never the newest.** -/
theorem Shape.release_unreleased (h : Shape s gone older rs) (acked : Position) :
    placeAll recSize (held s.spool.active (older.dropWhile (before acked)) rs) =
      s.unreleased.filter (fun e => acked.seg ≤ e.start.seg ∨ e.start.seg = s.spool.active) := by
  have hsplit : held s.spool.active older rs = older.takeWhile (before acked) ++
      held s.spool.active (older.dropWhile (before acked)) rs := by
    rw [held, held, ← List.append_assoc, List.takeWhile_append_dropWhile]
  rw [h.unreleased, hsplit, placeAll_append]
  refine (filter_append_right (fun e he => ?_) (fun e he => ?_)).symm
  · obtain ⟨g, hg, hseg, -⟩ := mem_placeAll_seg he
    have hlt : g.1 < acked.seg := by simpa [before] using List.mem_takeWhile_imp hg
    have := h.older_ne g (List.takeWhile_subset _ hg)
    exact decide_eq_false (by omega)
  · obtain ⟨g, hg, hseg, -⟩ := mem_placeAll_seg he
    rcases List.mem_append.1 hg with hg | hg
    · have := mem_dropWhile_before (List.pairwise_append.1 h.holds.asc).1 hg
      exact decide_eq_true (.inl (by omega))
    · rw [List.mem_singleton.1 hg] at hseg
      exact decide_eq_true (.inr hseg.symm)

/-! ## Crashing and reopening -/

variable {maxBytes segmentBytes : Nat}

theorem max?_ascending {older : List (Nat × List Rec)} {newest : Nat} {rs : List Rec}
    (h : Ascending (held newest older rs)) :
    ((held newest older rs).map (·.1)).max? = some newest := by
  rw [List.max?_eq_some_iff]
  refine ⟨by simp [held], fun k hk => ?_⟩
  obtain ⟨g, hg, rfl⟩ := List.mem_map.1 hk
  rcases List.mem_append.1 hg with hg | hg
  · exact ((ascending_split h).1 g hg).le
  · rw [List.mem_singleton.1 hg]

/-- **Opening a directory whose newest segment ends in a torn record keeps the whole ones.** -/
theorem open_torn (maxBytes segmentBytes : Nat) {d : Disk} {older : List (Nat × List Rec)} {newest : Nat} {rs : List Rec}
    {torn : Bytes} (hasc : Ascending (held newest older rs))
    (hst : ∀ g ∈ held newest older rs, ∀ r ∈ g.2, Stored r) (htorn : Torn crc32 torn)
    (hfiles : d.files.entries =
      older.map (fun g => (g.1, fileBytes g.2)) ++ [(newest, fileBytes rs ++ torn)]) :
    ∃ spool disk, Spool.open maxBytes segmentBytes d = (spool, disk) ∧
      Holds spool disk (held newest older rs) ∧ spool.active = newest ∧ spool.dirty = false ∧
      spool.synced = ⟨newest, bytesOf recSize rs⟩ ∧
      disk.durable = if torn = [] then d.durable else bytesOf recSize rs := by
  have hkeys : d.files.keys.max? = some newest := by
    have hmap : d.files.keys = (held newest older rs).map (·.1) := by
      rw [ODict.keys, hfiles, held, List.map_append, List.map_append, List.map_map]
      rfl
    rw [hmap, max?_ascending hasc]
  have hdata : d.data newest = fileBytes rs ++ torn := by
    rw [Disk.data, ODict.get?_of_entries hfiles, Option.getD_some]
  have hbodies : ∀ b ∈ rs.map bodyOf, Framable b := by
    intro b hb
    obtain ⟨r, hr, rfl⟩ := List.mem_map.1 hb
    exact (hst (newest, rs) (by simp [held]) r hr).framable
  have hvalid : validPrefix crc32 (fileBytes rs ++ torn) = bytesOf recSize rs := by
    rw [fileBytes, validPrefix_framesOf htorn hbodies, ← fileBytes_length]
    rfl
  have hsizes : (d.files.mapVals List.length).entries =
      older.map (fun g => (g.1, bytesOf recSize g.2)) ++
        [(newest, (fileBytes rs ++ torn).length)] := by
    simp only [ODict.mapVals, hfiles, List.map_append, List.map_map, List.map_cons, List.map_nil]
    congr 1
    exact List.map_congr_left (fun g _ => by simp)
  have hopen := (Spool.open.eq_1 maxBytes segmentBytes d)
  simp only [hkeys, hdata, hvalid] at hopen
  refine ⟨_, _, hopen, ⟨hasc, hst, ?_, ?_⟩, rfl, rfl, rfl, ?_⟩
  · split
    · rw [ODict.entries_set_last _ hfiles, ← fileBytes_length, List.take_left]
      simp [held]
    · rename_i hle
      have hnil : torn = [] := by
        rw [← List.length_eq_zero_iff]
        simp only [List.length_append, fileBytes_length] at hle
        omega
      rw [hfiles, hnil]
      simp [held]
  · rw [ODict.entries_set_last _ hsizes]
    simp [held]
  · rcases List.eq_nil_or_concat torn with rfl | ⟨ts, t, rfl⟩
    · simp
    · simp

theorem Shape.framable (h : Shape s gone older rs) : ∀ b ∈ rs.map bodyOf, Framable b := by
  intro b hb
  obtain ⟨r, hr, rfl⟩ := List.mem_map.1 hb
  exact (h.holds.stored (s.spool.active, rs) (by simp [held]) r hr).framable

/-- The boundaries up to `synced` outlive the loss of all but the first `j` records of the newest
segment, when these have every boundary that is synced. -/
theorem Shape.synced_kept (h : Shape s gone older rs) {j : Nat}
    (hj : ∀ i ≤ rs.length, bytesOf recSize (rs.take i) ≤ s.disk.durable → i ≤ j) {p : Position}
    (hle : p ≤ s.spool.synced) (hp : Boundary recSize (gone ++ held s.spool.active older rs) p) :
    Boundary recSize (gone ++ held s.spool.active older (rs.take j)) p := by
  obtain ⟨g, hg, i, hi, rfl⟩ := hp
  rw [held, ← List.append_assoc] at hg ⊢
  rcases List.mem_append.1 hg with hg | hg
  · exact ⟨g, List.mem_append_left _ hg, i, hi, rfl⟩
  · obtain rfl := List.mem_singleton.1 hg
    have hend := h.synced_le_end
    rw [h.endPosition] at hend
    have hseg : s.spool.synced.seg = s.spool.active := by
      rcases Position.le_def.1 hle with h1 | ⟨h1, -⟩
      · rcases Position.le_def.1 hend with h2 | ⟨h2, -⟩
        · dsimp only [mark] at h1 h2
          omega
        · exact h2
      · exact h1.symm
    have hoff := h.fsynced hseg
    have hle' : bytesOf recSize (rs.take i) ≤ s.spool.synced.off := by
      rcases Position.le_def.1 hle with h1 | ⟨-, h1⟩
      · dsimp only [mark] at h1
        omega
      · exact h1
    have hi' : i ≤ rs.length := hi
    have hij := hj i hi' (hle'.trans hoff)
    refine ⟨(s.spool.active, rs.take j), by simp, i, by simp; omega, ?_⟩
    simp only [mark, List.take_take, Nat.min_eq_left hij]

/-- **A crash that settles keeps a prefix of the newest segment that has every synced record.** -/
theorem Shape.crash (h : Shape s gone older rs) (maxBytes segmentBytes : Nat) {kept stable : Nat}
    (hd : s.disk.durable ≤ stable) (hs : stable ≤ kept)
    (hk : kept ≤ (s.disk.data s.spool.active).length) (hset : s.Settles (.crash kept stable)) :
    ∃ j spool disk, Spool.open maxBytes segmentBytes (s.disk.crash s.spool.active kept stable) =
        (spool, disk) ∧
      Shape ⟨spool, disk, s.log.filter (fun e => e.stop ≤ spool.endPosition)⟩ gone older
        (rs.take j) ∧
      spool.active = s.spool.active ∧ s.spool.synced ≤ spool.synced ∧
      spool.synced = spool.endPosition ∧
      ∀ p, p ≤ s.spool.synced → Boundary recSize (gone ++ held s.spool.active older rs) p →
        Boundary recSize (gone ++ held spool.active older (rs.take j)) p := by
  obtain ⟨j, torn, htorn, hkeptData, hfiles, hheldAsc, hst, hmax⟩ := h.holds.crash_files kept stable
  have hasc : Ascending (gone ++ held s.spool.active older (rs.take j)) :=
    h.asc.congr (by simp [held])
  obtain ⟨spool, disk, hopen, hholds, hactive, hdirty, hsync, hdur⟩ :=
    open_torn maxBytes segmentBytes hheldAsc hst htorn hfiles
  have hendP : spool.endPosition = ⟨s.spool.active, bytesOf recSize (rs.take j)⟩ := by
    rw [Spool.endPosition, Spool.activeSize, hactive, hholds.size]
    rfl
  -- what is kept is the whole records, or the torn one is cut and the rest synced
  have hdurable : disk.durable = bytesOf recSize (rs.take j) := by
    rw [hdur]
    split
    · rename_i hnil
      have hlen := congrArg List.length hkeptData
      rw [List.length_take, hnil, List.append_nil, fileBytes_length, Nat.min_eq_left hk] at hlen
      rcases hset with hset | hset
      · simp only [Disk.crash]
        omega
      · rw [hkeptData, fileBytes, validPrefix_framesOf htorn (by
          intro b hb
          obtain ⟨r, hr, rfl⟩ := List.mem_map.1 hb
          exact h.framable _ (List.mem_map_of_mem (List.mem_of_mem_take hr)))] at hset
        have : (framesOf crc32 ((rs.take j).map bodyOf)).length = bytesOf recSize (rs.take j) :=
          fileBytes_length _
        omega
    · rfl
  have hbound := fun p hle hp => h.synced_kept (j := j) (p := p)
    (fun i hi hoff => hmax i (by omega) hi) hle hp
  have hlog : s.log.filter (fun e => e.stop ≤ spool.endPosition) =
      placeAll recSize (gone ++ held s.spool.active older (rs.take j)) := by
    have hupto := @placeAll_upto _ recSize (gone ++ older) [] s.spool.active rs recSize_pos
      h.asc' j
    rw [h.log, held, ← List.append_assoc, hendP]
    refine hupto.trans ?_
    rw [held, ← List.append_assoc, placeAll_append]
    simp [placeAll]
  have hsyncLe : s.spool.synced ≤ ⟨s.spool.active, bytesOf recSize (rs.take j)⟩ := by
    have hb := hbound _ (le_refl _) h.synced
    rw [held, ← List.append_assoc] at hb
    exact hb.le_end (h.asc'.congr (by simp))
  refine ⟨j, spool, disk, hopen, ⟨?_, ?_, ?_, ?_, ?_, ?_, ?_⟩, hactive, hsync ▸ hsyncLe,
    hsync.trans hendP.symm, hactive ▸ hbound⟩
  · exact hactive ▸ hasc
  · exact hactive ▸ hlog
  · exact hactive ▸ hholds
  · exact hdurable.le
  · exact fun _ => hdurable
  · rw [hsync, hactive, held, ← List.append_assoc]
    exact boundary_end
  · rw [hsync, hdurable]
    exact fun _ => Nat.le_refl _

/-! ## Every operation -/

/-- What is known of the state after an operation: its segments, of which only a `release` can have
given up some, the boundaries up to `synced` that it keeps, and what became of the log. -/
structure Next (s s' : SpoolSys) (op : SpoolOp) (gone segs : List (Nat × List Rec)) : Prop where
  shape : ∃ gone' older' rs', Shape s' gone' older' rs' ∧
    (∀ g ∈ gone', g ∈ gone ∨ ∃ acked, op = .release acked ∧ g.1 < acked.seg) ∧
    ∀ p, p ≤ s.spool.synced → Boundary recSize segs p →
      Boundary recSize (gone' ++ held s'.spool.active older' rs') p
  spec : s.OpSpec s' op
  synced_le : s.spool.synced ≤ s'.spool.synced

theorem Shape.same (h : Shape s gone older rs) {op : SpoolOp} (hspec : s.OpSpec s op) :
    Next s s op gone (gone ++ held s.spool.active older rs) :=
  ⟨⟨_, _, _, h, fun _ hg => .inl hg, fun _ _ hp => hp⟩, hspec, le_refl _⟩

theorem Shape.write_spec (h : Shape s gone older rs) {r : CallerRec} (hr : Stored r.val) {t : SpoolSys}
    (hunreleased : t.unreleased = s.unreleased) (hlog : t.log = s.log)
    (hend : t.spool.endPosition ≤ s.spool.endPosition) :
    SpoolSys.OpSpec t (s.write r.val) (.append r) := by
  have hw := h.write hr
  have hbytes : bytesOf recSize (rs ++ [r.val]) = bytesOf recSize rs + recSize r.val := by simp
  refine .inr ⟨⟨r.val, s.spool.endPosition, ⟨s.spool.active, s.spool.activeSize + recSize r.val⟩⟩,
    rfl, by rw [hlog]; rfl, ?_, ?_, hend, fun x hx => ?_⟩
  · rw [hunreleased, h.unreleased, hw.unreleased]
    simp only [held]
    rw [show (s.write r.val).spool.active = s.spool.active from rfl, placeAll_snoc, h.endPosition,
      h.activeSize]
  · rw [hw.endPosition, hbytes, h.activeSize]
    rfl
  · exact h.stop_le_end x (hlog ▸ hx)

theorem write_boundary (r : Rec) {p : Position}
    (hp : Boundary recSize (gone ++ held s.spool.active older rs) p) :
    Boundary recSize (gone ++ held (s.write r).spool.active older (rs ++ [r])) p := by
  rw [held, ← List.append_assoc] at hp ⊢
  exact hp.snoc r

theorem rotate_boundary {p : Position}
    (hp : Boundary recSize (gone ++ held s.spool.active older rs) p) :
    Boundary recSize (gone ++ held s.rotate.spool.active (held s.spool.active older rs) []) p := by
  refine hp.mono ?_
  rw [held.eq_def s.rotate.spool.active, ← List.append_assoc]
  exact List.subset_append_left _ _

theorem Shape.rotate_end (h : Shape s gone older rs) :
    s.spool.endPosition ≤ s.rotate.spool.endPosition := by
  rw [h.endPosition, h.rotate.endPosition]
  exact Position.le_def.2 (.inl (Nat.lt_succ_self _))

theorem next_append (h : Shape s gone older rs) (r : CallerRec) {s' : SpoolSys}
    (hstep : s.step maxBytes segmentBytes (.append r) = some s') :
    Next s s' (.append r) gone (gone ++ held s.spool.active older rs) := by
  simp only [SpoolSys.step] at hstep
  split at hstep
  · obtain rfl := Option.some.inj hstep
    exact h.same (.inl rfl)
  · rename_i spool disk happ
    obtain rfl := Option.some.inj hstep
    rcases append_eq happ with heq | ⟨-, heq | heq⟩ <;> cases heq
    exact h.same (.inl rfl)
  · rename_i spool disk happ
    obtain rfl := Option.some.inj hstep
    rcases append_eq happ with heq | ⟨hr, heq | heq⟩ <;> cases heq
    · rw [h.appended hr]
      exact ⟨⟨_, _, _, h.write hr, fun _ hg => .inl hg, fun p _ hp => write_boundary r.val hp⟩,
        h.write_spec hr rfl rfl (le_refl _), le_refl _⟩
    · have hrot := h.rotate
      rw [hrot.appended hr]
      refine ⟨⟨_, _, _, hrot.write hr, fun _ hg => .inl hg, fun p _ hp =>
          write_boundary r.val (rotate_boundary hp)⟩,
        hrot.write_spec hr ?_ rfl h.rotate_end, le_refl _⟩
      rw [h.unreleased, hrot.unreleased]
      exact placeAll_open.symm

theorem Shape.sync (h : Shape s gone older rs) :
    Shape ⟨(s.spool.sync s.disk).1, (s.spool.sync s.disk).2, s.log⟩ gone older rs := by
  have hdur : (s.spool.sync s.disk).2.durable = bytesOf recSize rs := by
    simp only [Spool.sync]
    split
    · rw [h.data, fileBytes_length]
    · rename_i hd
      exact h.clean (by simpa using hd)
  have hfiles : (s.spool.sync s.disk).2.files = s.disk.files := by
    simp only [Spool.sync]
    split <;> rfl
  refine ⟨h.asc, h.log, ⟨h.holds.asc, h.holds.stored, hfiles ▸ h.holds.files, h.holds.sizes⟩,
    hdur.le, fun _ => hdur, ?_, ?_⟩
  · simp only [Spool.sync, h.endPosition, held]
    rw [← List.append_assoc]
    exact boundary_end
  · simp only [hdur]
    simp only [Spool.sync, h.endPosition]
    exact fun _ => Nat.le_refl _

theorem next_sync (h : Shape s gone older rs) {s' : SpoolSys}
    (hstep : s.step maxBytes segmentBytes .sync = some s') :
    Next s s' .sync gone (gone ++ held s.spool.active older rs) := by
  obtain rfl := Option.some.inj hstep
  exact ⟨⟨_, _, _, h.sync, fun _ hg => .inl hg, fun _ _ hp => hp⟩, ⟨rfl, rfl, h.stop_le_end⟩,
    h.synced_le_end⟩

theorem next_release (h : Shape s gone older rs) (acked : Position) {s' : SpoolSys}
    (hstep : s.step maxBytes segmentBytes (.release acked) = some s') :
    Next s s' (.release acked) gone (gone ++ held s.spool.active older rs) := by
  obtain ⟨spool, disk, heq, hshape, hactive, hsynced⟩ := h.release acked
  simp only [SpoolSys.step, heq] at hstep
  obtain rfl := Option.some.inj hstep
  have hsegs : (gone ++ older.takeWhile (before acked)) ++
      held spool.active (older.dropWhile (before acked)) rs =
        gone ++ held s.spool.active older rs := by
    rw [held, held, hactive, List.append_assoc, ← List.append_assoc (older.takeWhile _),
      List.takeWhile_append_dropWhile]
  refine ⟨⟨_, _, _, hshape, fun g hg => ?_, fun p _ hp => hsegs ▸ hp⟩, ⟨rfl, ?_⟩, hsynced.ge⟩
  · rcases List.mem_append.1 hg with hg | hg
    · exact .inl hg
    · exact .inr ⟨acked, rfl, by simpa [before] using List.mem_takeWhile_imp hg⟩
  · rw [hshape.unreleased, ← h.release_unreleased acked]
    exact congrArg (fun a => placeAll recSize (held a _ rs)) hactive

theorem next_crash (h : Shape s gone older rs) (kept stable : Nat) {s' : SpoolSys}
    (hC : s.Settles (.crash kept stable))
    (hstep : s.step maxBytes segmentBytes (.crash kept stable) = some s') :
    Next s s' (.crash kept stable) gone (gone ++ held s.spool.active older rs) ∧
      s'.spool.synced = s'.spool.endPosition := by
  simp only [SpoolSys.step] at hstep
  split at hstep
  · rename_i hk
    obtain ⟨j, spool, disk, heq, hshape, hactive, hsync, hend, hbound⟩ :=
      h.crash maxBytes segmentBytes hk.1 hk.2.1 hk.2.2 hC
    simp only [heq] at hstep
    obtain rfl := Option.some.inj hstep
    have hsplit : ∀ older', placeAll recSize (older' ++ [(s.spool.active, rs)]) =
        placeAll recSize (older' ++ [(s.spool.active, rs.take j)]) ++
          place recSize s.spool.active (mark recSize s.spool.active rs j).off (rs.drop j) := by
      intro older'
      rw [placeAll_split j, placeAll_append]
      simp [placeAll]
    refine ⟨⟨⟨_, _, _, hshape, fun _ hg => .inl hg, hbound⟩, ⟨?_, ?_, fun e he hle => ?_⟩, hsync⟩,
      hend⟩
    · rw [hshape.log, h.log, hactive, held, held, ← List.append_assoc, ← List.append_assoc, hsplit]
      exact List.prefix_append _ _
    · rw [hshape.unreleased, h.unreleased, hactive, held, held, hsplit]
      exact List.prefix_append _ _
    · exact List.mem_filter.2 ⟨he, decide_eq_true (hle.trans (hsync.trans hend.le))⟩
  · cases hstep

/-- **One operation of a settling run.** -/
theorem next_step (h : Shape s gone older rs) {op : SpoolOp} {s' : SpoolSys} (hC : s.Settles op)
    (hstep : s.step maxBytes segmentBytes op = some s') :
    Next s s' op gone (gone ++ held s.spool.active older rs) := by
  cases op with
  | append r => exact next_append h r hstep
  | sync => exact next_sync h hstep
  | release acked => exact next_release h acked hstep
  | crash kept stable => exact (next_crash h kept stable hC hstep).1

/-- Some segments shape the state. -/
def Shaped (s : SpoolSys) : Prop := ∃ gone older rs, Shape s gone older rs

theorem shaped_reach {s : SpoolSys}
    (h : (spoolMachine maxBytes segmentBytes).Reach SpoolSys.Settles s) : Shaped s := by
  refine h.invariant ⟨_, _, _, shape_init _ _⟩ (fun t op t' ht hC hstep => ?_)
  obtain ⟨gone, older, rs, ht⟩ := ht
  obtain ⟨gone', older', rs', ht', -⟩ := (next_step ht hC hstep).shape
  exact ⟨gone', older', rs', ht'⟩

/-! ## Reading a shaped spool -/

theorem Shape.boundary (h : Shape s gone older rs) {p : Position} (hp : s.AtRecord p) :
    Boundary recSize (gone ++ held s.spool.active older rs) p := by
  rcases hp with rfl | rfl | ⟨e, he, hp⟩
  · have hmin : s.spool.sizes.keys.min? = (held s.spool.active older rs).head?.map (·.1) := by
      rw [h.holds.keys, min?_ascending
        ((List.pairwise_map (f := Prod.fst) (R := (· < ·))).2 h.holds.asc), List.head?_map]
    have hne : held s.spool.active older rs ≠ [] := by simp [held]
    obtain ⟨g, gs, hgs⟩ := List.exists_cons_of_ne_nil hne
    rw [Spool.firstPosition, hmin, hgs]
    exact ⟨g, by simp, 0, Nat.zero_le _, rfl⟩
  · rw [h.endPosition, held, ← List.append_assoc]
    exact boundary_end
  · rw [h.log] at he
    rcases hp with rfl | rfl
    · exact (boundary_of_mem he).1
    · exact (boundary_of_mem he).2

/-- **A read from a position between records, up to a limit that the held segments have.** -/
theorem Shape.read (h : Shape s gone older rs) {p limit : Position}
    (hp : Boundary recSize (gone ++ held s.spool.active older rs) p)
    (hlimit : Boundary recSize (held s.spool.active older rs) limit) (n : Nat) :
    s.spool.read s.disk p limit n =
      some ((below limit (s.unreleased.filter (fun e => p ≤ e.start))).take n) := by
  rw [h.unreleased]
  obtain ⟨g, hg, i, hi, rfl⟩ := hp
  rcases List.mem_append.1 hg with hg | hg
  · refine read_gap h.holds hlimit (fun hm => ?_) n
    obtain ⟨g', hg', hseg⟩ := List.mem_map.1 hm
    have hseg' : g'.1 = g.1 := hseg
    have := (List.pairwise_append.1 h.asc).2.2 g hg g' hg'
    omega
  · exact read_boundary h.holds hlimit ⟨g, hg, i, hi, rfl⟩ n

/-- Reading up to the end. -/
theorem Shape.read_end (h : Shape s gone older rs) {p : Position}
    (hp : Boundary recSize (gone ++ held s.spool.active older rs) p) (n : Nat) :
    s.spool.read s.disk p s.spool.endPosition n =
      some ((s.unreleased.filter (fun e => p ≤ e.start)).take n) := by
  have hall : below s.spool.endPosition (s.unreleased.filter (fun e => p ≤ e.start)) =
      s.unreleased.filter (fun e => p ≤ e.start) := by
    refine List.filter_eq_self.2 (fun e he => decide_eq_true (h.stop_le_end e ?_))
    exact List.mem_of_mem_filter (List.mem_of_mem_filter he)
  rw [h.read hp (by rw [h.endPosition]; exact boundary_end) n, hall]

/-- **Reading in batches of any sizes.** -/
theorem Shape.readBatches (h : Shape s gone older rs) {p : Position}
    (hp : Boundary recSize (gone ++ held s.spool.active older rs) p) (ns : List Nat) :
    s.readBatches p ns = some ((s.unreleased.filter (fun e => p ≤ e.start)).take ns.sum) := by
  have hsorted : s.unreleased.Pairwise (fun a b => a.stop ≤ b.start) := h.sorted.filter _
  have hlt : ∀ e ∈ s.unreleased, e.start < e.stop := fun e he =>
    h.start_lt e (List.mem_of_mem_filter he)
  induction ns generalizing p with
  | nil => simp [SpoolSys.readBatches]
  | cons n ns ih =>
    have hres : Boundary recSize (gone ++ held s.spool.active older rs)
        (resume p ((s.unreleased.filter (fun e => p ≤ e.start)).take n)) := by
      unfold resume
      cases hl : ((s.unreleased.filter (fun e => p ≤ e.start)).take n).getLast? with
      | none => exact hp
      | some e =>
        have he := List.mem_of_mem_filter (List.mem_of_mem_filter
          (List.mem_of_mem_take (List.mem_of_getLast? hl)))
        exact h.boundary (.inr (.inr ⟨e, he, .inr rfl⟩))
    rw [SpoolSys.readBatches, h.read_end hp n]
    simp only [ih hres, filter_resume hsorted hlt, Option.map_some, List.sum_cons, List.take_add]

end

/-- **The spool is a faithful durable log**, in every run whose crashes settle: from any position
between two records, reading to the end in batches of any sizes returns the records there whose
segments are held, in order; every operation does to the log what it should; and what is synced
stays synced. -/
theorem spool_faithful_log (maxBytes segmentBytes : Nat) {s : SpoolSys}
    (h : (spoolMachine maxBytes segmentBytes).Reach SpoolSys.Settles s) :
    (∀ p, s.AtRecord p → ∀ ns, s.readBatches p ns =
      some ((s.unreleased.filter (fun e => p ≤ e.start)).take ns.sum)) ∧
    (∀ op s', s.Settles op → s.step maxBytes segmentBytes op = some s' →
      s.OpSpec s' op ∧ s.spool.synced ≤ s'.spool.synced) := by
  obtain ⟨gone, older, rs, hshape⟩ := shaped_reach h
  constructor
  · exact fun p hp ns => hshape.readBatches (hshape.boundary hp) ns
  · intro op s' hC hstep
    have hnext := next_step hshape hC hstep
    exact ⟨hnext.spec, hnext.synced_le⟩

/-- A record without identity, of 50 bytes in a segment. -/
def healthRec : CallerRec := ⟨⟨TOPIC_HEALTH, [115], none, none, -1, 0, [123]⟩, .inl ⟨rfl, rfl⟩⟩

/-- One record synced, a second one torn by a crash: the first is read back. -/
theorem spool_faithful_log_torn : ∃ s : SpoolSys,
    (spoolMachine 1000 1000).Reach SpoolSys.Settles s ∧ s.log.map (·.record) = [healthRec.val] ∧
      s.readBatches s.spool.firstPosition [1, 4] =
        some ((s.unreleased.filter (fun e => s.spool.firstPosition ≤ e.start)).take 5) := by
  have hrun : ((spoolMachine 1000 1000).runMeeting SpoolSys.Settles (.init 1000 1000)
      [.append healthRec, .sync, .append healthRec, .crash 70 60]).any
        (fun s => s.log.map (·.record) = [healthRec.val]) = true := by decide +kernel
  obtain ⟨s, hs, hlog⟩ := (Option.any_eq_true _ _).1 hrun
  have hreach := Machine.reach_of_run _ hs
  exact ⟨s, hreach, by simpa using hlog,
    (spool_faithful_log 1000 1000 hreach).1 _ (.inl rfl) [1, 4]⟩

/-- **`open` takes the bytes it finds for synced.** The process is killed after an append, the
reopened spool calls the record synced without an `fsync`, and a loss of power takes it. -/
theorem spool_loses_synced : ¬ ∀ (maxBytes segmentBytes : Nat) (s : SpoolSys),
    (spoolMachine maxBytes segmentBytes).Reach (fun _ _ => True) s →
      ∀ op s', s.step maxBytes segmentBytes op = some s' →
        s.OpSpec s' op ∧ s.spool.synced ≤ s'.spool.synced := by
  intro hclaim
  have hrun : ((spoolMachine 1000 1000).runMeeting (fun _ _ => True) (.init 1000 1000)
      [.append healthRec, .crash 50 0, .sync]).any (fun s =>
        (s.step 1000 1000 (.crash 0 0)).any (fun s' =>
          s.log.any (fun e => e.stop ≤ s.spool.synced ∧ e ∉ s'.log))) = true := by decide +kernel
  obtain ⟨s, hs, hstep⟩ := (Option.any_eq_true _ _).1 hrun
  obtain ⟨s', hs', hlost⟩ := (Option.any_eq_true _ _).1 hstep
  obtain ⟨e, he, hbad⟩ := List.any_eq_true.1 hlost
  have hkept := (hclaim 1000 1000 s (Machine.reach_of_run _ hs) _ s' hs').1.2.2 e he
  simp only [decide_eq_true_eq] at hbad
  exact hbad.2 (hkept hbad.1)

end OTS.Receiver
