import Mathlib.Data.List.Induction
import Mathlib.Data.List.Perm.Subperm
import Mathlib.Data.List.Sort
import OTSecurity.Lib.Lines
import OTSecurity.Lib.Machine
import OTSecurity.Lib.ODict

/-!
# Archive and retention

Model of `Archiver` of `consumers/sih_consumers/archive.py` as a machine whose steps are single
requests to ClickHouse and to the object store, with inserts of other consumers between any two of
them. A request succeeds, or fails with or without having taken effect.

* `Partition` — the rows of a daily partition as `FINAL` reads them: one a sorting key, the latest.
* `Stage` — what the archiver asks for next about the partition it is at.
* `perform` — the request of a stage, when it succeeds, and what follows.
* `Quiet` — the inserts the retention argument needs: none that changes a partition from the count
  that verifies it on, none that replaces a row between the export and that count.

Partition ids are `YYYYMMDD` and are modelled by the number of the day; timestamps of the manifest
are left out, since nothing reads them.
-/

namespace OTS.Consumers

def TABLES : List String := ["raw_events", "features", "alert_updates", "invalid_events", "sensor_health"]

/-- A row in `JSONEachRow`. -/
abbrev Line := { text : Bytes // NEWLINE ∉ text }

/-- The rows of a partition by sorting key. -/
abbrev Partition := ODict String Line

inductive Status where
  | exported
  | stale
  | verified
  | deletedHot
  deriving DecidableEq, Repr

/-- `{table}/ingest_day={day}/{table}-{day}-{digest}`, with `.jsonl.gz` or `.manifest.json`. -/
structure ObjectKey where
  table : String
  day : Nat
  digest : List Char
  isManifest : Bool
  deriving DecidableEq, Repr

/-- A row of `archive_manifest`, but for its timestamps. -/
structure Manifest where
  objectKey : ObjectKey
  rows : Nat
  sha256 : String
  status : Status
  deriving DecidableEq, Repr

structure Db where
  hot : ODict (String × Nat) Partition
  manifests : ODict (String × Nat) Manifest
  objects : ODict ObjectKey Bytes

/-- The functions the archiver calls: compression, its inverse, the hash, the manifest document. -/
structure Codec where
  gzip : Bytes → Bytes
  gunzip : Bytes → Bytes
  sha256 : Bytes → String
  dumps : Manifest → Bytes

structure Summary where
  exported : Nat
  verified : Nat
  dropped : Nat
  unverified : Nat
  deriving DecidableEq, Repr

/-- The requests of `export`, `verify` and `cycle` about one partition, in the order they come. -/
inductive Stage where
  | load
  | stream
  | put (data : Bytes) (rows : Nat)
  | putManifest (m : Manifest)
  | recordExported (m : Manifest)
  | reloadExported
  | readBack (m : Manifest)
  | hotCount (m : Manifest) (digest : String) (rows : Nat)
  | recordStale (m : Manifest)
  | recordVerified (m : Manifest)
  | reloadVerified
  | drop (m : Manifest)
  | recordDeleted (m : Manifest)

/-- What follows a request: another one, the next partition, or an exception. -/
inductive Next where
  | stage (st : Stage)
  | done
  | raised

namespace Db

def partition (db : Db) (table : String) (pid : Nat) : Partition :=
  (db.hot.get? (table, pid)).getD .empty

/-- Rows are inserted by key; a partition comes to exist with its first row. -/
def insert (db : Db) (table : String) (pid : Nat) (key : String) (text : Line) : Db :=
  { db with hot := db.hot.set (table, pid) ((db.partition table pid).set key text) }

def manifest (db : Db) (table : String) (pid : Nat) : Option Manifest :=
  db.manifests.get? (table, pid)

/-- `_record`. -/
def record (db : Db) (table : String) (pid : Nat) (m : Manifest) : Db :=
  { db with manifests := db.manifests.set (table, pid) m }

def putObject (db : Db) (key : ObjectKey) (data : Bytes) : Db :=
  { db with objects := db.objects.set key data }

def dropPartition (db : Db) (table : String) (pid : Nat) : Db :=
  { db with hot := db.hot.erase (table, pid) }

def closedPartitions (db : Db) (today : Nat) (table : String) : List Nat :=
  ((db.hot.keys.filter (fun k => k.1 = table ∧ k.2 < today)).map (·.2)).insertionSort (· ≤ ·)

end Db

/-- The partition as `SELECT * ... FORMAT JSONEachRow` streams it. -/
def textOf (part : Partition) : Bytes := part.entries.flatMap (fun e => e.2.val ++ [NEWLINE])

/-- `data.count(b"\\n")`. -/
def countLines (data : Bytes) : Nat := data.count NEWLINE

/-- From `m["status"]` on, after `verify` has had its turn. -/
def decideDrop (old : Bool) (summary : Summary) (m : Manifest) : Summary × Next :=
  if m.status ≠ .verified then ({ summary with unverified := summary.unverified + 1 }, .done)
  else (summary, if old then .stage (.drop m) else .done)

/-- `if m["status"] == "exported"` and what follows. -/
def decideVerify (old : Bool) (summary : Summary) (m : Manifest) : Summary × Next :=
  if m.status = .exported then (summary, .stage (.readBack m)) else decideDrop old summary m

/-- The request of a stage when it succeeds, and what follows it. `old` is `pid < cutoff`. -/
def perform (codec : Codec) (table : String) (pid : Nat) (old : Bool) (db : Db)
    (summary : Summary) : Stage → Db × Summary × Next
  | .load =>
    match db.manifest table pid with
    | none => (db, summary, .stage .stream)
    | some m => if m.status = .stale then (db, summary, .stage .stream)
      else (db, decideVerify old summary m)
  | .stream =>
    let text := textOf (db.partition table pid)
    (db, summary, .stage (.put (codec.gzip text) (countLines text)))
  | .put data rows =>
    let digest := codec.sha256 data
    let key : ObjectKey := ⟨table, pid, digest.toList.take 16, false⟩
    (db.putObject key data, summary, .stage (.putManifest ⟨key, rows, digest, .exported⟩))
  | .putManifest m =>
    (db.putObject { m.objectKey with isManifest := true } (codec.dumps m), summary,
      .stage (.recordExported m))
  | .recordExported m =>
    (db.record table pid m, { summary with exported := summary.exported + 1 },
      .stage .reloadExported)
  | .reloadExported =>
    match db.manifest table pid with
    | none => (db, summary, .raised)
    | some m => (db, decideVerify old summary m)
  | .readBack m =>
    match db.objects.get? m.objectKey with
    | none => (db, summary, .raised)
    | some data =>
      (db, summary, .stage (.hotCount m (codec.sha256 data) (countLines (codec.gunzip data))))
  | .hotCount m digest rows =>
    let hot := (db.partition table pid).length
    (db, summary,
      if digest ≠ m.sha256 ∨ rows ≠ m.rows then .stage .reloadVerified
      else if hot ≠ rows then .stage (.recordStale m) else .stage (.recordVerified m))
  | .recordStale m =>
    (db.record table pid { m with status := .stale }, summary, .stage .reloadVerified)
  | .recordVerified m =>
    (db.record table pid { m with status := .verified },
      { summary with verified := summary.verified + 1 }, .stage .reloadVerified)
  | .reloadVerified =>
    match db.manifest table pid with
    | none => (db, summary, .raised)
    | some m => (db, decideDrop old summary m)
  | .drop m => (db.dropPartition table pid, summary, .stage (.recordDeleted m))
  | .recordDeleted m =>
    (db.record table pid { m with status := .deletedHot },
      { summary with dropped := summary.dropped + 1 }, .done)

/-! ## The machine -/

/-- The partition a cycle is at. -/
structure Task where
  table : String
  pid : Nat
  stage : Stage

/-- A run of `cycle`: the day it began, the tables not listed yet, the partitions not visited yet. -/
structure Cycle where
  day : Nat
  tables : List String
  pids : List (String × Nat)
  task : Option Task
  summary : Summary

structure ArchSys where
  today : Nat
  db : Db
  cycle : Option Cycle

/-- How a request ends. -/
inductive Outcome where
  | ok
  | failed (applied : Bool)
  deriving DecidableEq, Repr

inductive ArchOp where
  /-- A consumer, or `restore`, inserts a row. -/
  | insert (table : String) (pid : Nat) (key : String) (text : Line)
  | midnight
  | begin
  | list
  | next
  | request (outcome : Outcome)
  | finish
  | restart

namespace ArchSys

/-- The request of the task at hand. -/
def request (codec : Codec) (hotDays : Nat) (s : ArchSys) (c : Cycle) (t : Task) :
    Outcome → ArchSys
  | .ok =>
    let (db, summary, next) :=
      perform codec t.table t.pid (t.pid + hotDays < c.day) s.db c.summary t.stage
    match next with
    | .stage stage => { s with db, cycle := some { c with summary, task := some { t with stage } } }
    | .done => { s with db, cycle := some { c with summary, task := none } }
    | .raised => { s with db, cycle := some { c with
        summary := { summary with unverified := summary.unverified + 1 }
        task := none } }
  | .failed applied =>
    let (db, _, _) := perform codec t.table t.pid (t.pid + hotDays < c.day) s.db c.summary t.stage
    { s with
      db := if applied then db else s.db
      cycle := some { c with
        summary := { c.summary with unverified := c.summary.unverified + 1 }
        task := none } }

def step (codec : Codec) (hotDays : Nat) (s : ArchSys) : ArchOp → Option ArchSys
  | .insert table pid key text => some { s with db := s.db.insert table pid key text }
  | .midnight => some { s with today := s.today + 1 }
  | .begin =>
    match s.cycle with
    | none => some { s with cycle := some ⟨s.today, TABLES, [], none, ⟨0, 0, 0, 0⟩⟩ }
    | some _ => none
  | .list =>
    match s.cycle with
    | some ⟨day, table :: tables, [], none, summary⟩ =>
      some { s with cycle := some ⟨day, tables,
        (s.db.closedPartitions s.today table).map (fun pid => (table, pid)), none, summary⟩ }
    | _ => none
  | .next =>
    match s.cycle with
    | some ⟨day, tables, (table, pid) :: pids, none, summary⟩ =>
      some { s with cycle := some ⟨day, tables, pids, some ⟨table, pid, .load⟩, summary⟩ }
    | _ => none
  | .request outcome =>
    match s.cycle with
    | some c =>
      match c.task with
      | some t => some (s.request codec hotDays c t outcome)
      | none => none
    | none => none
  | .finish =>
    match s.cycle with
    | some ⟨_, [], [], none, _⟩ => some { s with cycle := none }
    | _ => none
  | .restart => some { s with cycle := none }

/-- The stage the archiver is at, when it is at this partition. -/
def stageOf (s : ArchSys) (table : String) (pid : Nat) : Option Stage :=
  match s.cycle with
  | some c =>
    match c.task with
    | some t => if t.table = table ∧ t.pid = pid then some t.stage else none
    | none => none
  | none => none

/-- The count that verifies the partition has been made, and the drop is not recorded yet. -/
def Counted (s : ArchSys) (table : String) (pid : Nat) : Bool :=
  (s.db.manifest table pid).any (·.status = .verified) ||
    match s.stageOf table pid with
    | some (.recordVerified _) => true
    | _ => false

/-- The partition has been read for an export that is not verified yet. -/
def Streamed (s : ArchSys) (table : String) (pid : Nat) : Bool :=
  (s.db.manifest table pid).any (·.status = .exported) ||
    match s.stageOf table pid with
    | some (.put _ _) | some (.putManifest _) | some (.recordExported _) => true
    | _ => false

/-- No row is added or changed once the partition is counted, and none is replaced between the
export and the count. -/
def Quiet (s : ArchSys) : ArchOp → Prop
  | .insert table pid key text =>
    (s.Counted table pid → (s.db.partition table pid).get? key = some text) ∧
    (s.Streamed table pid → (s.db.partition table pid).get? key = none ∨
      (s.db.partition table pid).get? key = some text)
  | _ => True

instance (s : ArchSys) (op : ArchOp) : Decidable (s.Quiet op) :=
  match op with
  | .insert _ _ _ _ => inferInstanceAs (Decidable (_ ∧ _))
  | .midnight | .begin | .list | .next | .request _ | .finish | .restart =>
    inferInstanceAs (Decidable True)

end ArchSys

def archive (codec : Codec) (hotDays today : Nat) : Machine ArchSys ArchOp :=
  ⟨⟨today, ⟨.empty, .empty, .empty⟩, none⟩, ArchSys.step codec hotDays⟩

/-! ## The invariant -/

variable (codec : Codec)

/-- The rows the archive object of a manifest holds. -/
def archivedRows (db : Db) (m : Manifest) : Option (List Bytes) :=
  (db.objects.get? m.objectKey).map (fun data => (splitLines (codec.gunzip data)).1)

/-- Every row of the partition is in the archive object of the manifest. -/
def Archived (db : Db) (table : String) (pid : Nat) (m : Manifest) : Prop :=
  ∃ rows, archivedRows codec db m = some rows ∧
    ∀ e ∈ (db.partition table pid).entries, e.2.val ∈ rows

/-- `data` is the export of rows that the partition still has, `rows` of them. -/
def Snapshot (db : Db) (table : String) (pid : Nat) (data : Bytes) (rows : Nat) : Prop :=
  ∃ part : Partition, data = codec.gzip (textOf part) ∧ rows = part.length ∧
    part.entries ⊆ (db.partition table pid).entries

def Covers (db : Db) (table : String) (pid : Nat) (m : Manifest) : Prop :=
  ∃ data, db.objects.get? m.objectKey = some data ∧ Snapshot codec db table pid data m.rows

/-- The object of the manifest is one of its own partition. -/
def Own (table : String) (pid : Nat) (m : Manifest) : Prop :=
  m.objectKey.table = table ∧ m.objectKey.day = pid ∧ m.objectKey.isManifest = false

/-- There is nothing yet that a new export could spoil. -/
def Exportable (db : Db) (table : String) (pid : Nat) : Prop :=
  ∀ m, db.manifest table pid = some m → m.status = .stale

structure DbInv (db : Db) : Prop where
  own : ∀ table pid m, db.manifest table pid = some m → Own table pid m
  exported : ∀ table pid m, db.manifest table pid = some m → m.status = .exported →
    Covers codec db table pid m
  verified : ∀ table pid m, db.manifest table pid = some m → m.status = .verified →
    Archived codec db table pid m

/-- What holds when the archiver is at a stage. -/
def StageInv (db : Db) (table : String) (pid : Nat) : Stage → Prop
  | .load | .reloadExported | .reloadVerified => True
  | .stream => Exportable db table pid
  | .put data rows => Exportable db table pid ∧ Snapshot codec db table pid data rows
  | .putManifest m | .recordExported m => Exportable db table pid ∧ Own table pid m ∧
    m.status = .exported ∧ Covers codec db table pid m
  | .readBack m | .hotCount m _ _ | .recordStale m =>
    db.manifest table pid = some m ∧ m.status = .exported
  | .recordVerified m =>
    db.manifest table pid = some m ∧ m.status = .exported ∧ Archived codec db table pid m
  | .drop m | .recordDeleted m => db.manifest table pid = some m ∧ m.status = .verified

structure ArchInv (s : ArchSys) : Prop where
  db : DbInv codec s.db
  stage : ∀ table pid stage, s.stageOf table pid = some stage →
    StageInv codec s.db table pid stage

section

variable {codec} {db : Db} {table : String} {pid : Nat}

theorem splitLines_textOf (part : Partition) :
    (splitLines (textOf part)).1 = part.entries.map (·.2.val) := by
  have h : ∀ es : List (String × Line),
      splitLines (es.flatMap (fun e => e.2.val ++ [NEWLINE])) = (es.map (·.2.val), []) := by
    intro es
    induction es using List.reverseRecOn with
    | nil => rfl
    | append_singleton es e ih =>
      rw [List.flatMap_append, List.flatMap_singleton, ← List.append_assoc,
        splitLines_newline e.2.property, ih]
      simp
  exact congrArg Prod.fst (h part.entries)

theorem countLines_textOf (part : Partition) : countLines (textOf part) = part.length := by
  unfold countLines textOf ODict.length
  induction part.entries with
  | nil => rfl
  | cons e es ih =>
    rw [List.flatMap_cons, List.count_append, ih, List.count_append,
      List.count_eq_zero_of_not_mem e.2.property]
    simp
    omega

/-- **As many rows as the export has, all of them in it.** -/
theorem archived_of_count (hgz : ∀ data, codec.gunzip (codec.gzip data) = data) {m : Manifest}
    (h : Covers codec db table pid m) (hcount : (db.partition table pid).length = m.rows) :
    Archived codec db table pid m := by
  obtain ⟨data, hobj, part, rfl, hrows, hsub⟩ := h
  refine ⟨_, by rw [archivedRows, hobj, Option.map_some, hgz, splitLines_textOf], fun e he => ?_⟩
  have hperm : part.entries.Perm (db.partition table pid).entries :=
    (List.subperm_of_subset part.entries_nodup hsub).perm_of_length_le
      (by rw [hrows] at hcount; exact hcount.le)
  exact List.mem_map_of_mem (hperm.mem_iff.2 he)

/-! ## What the updates leave alone -/

@[simp] theorem manifest_insert (key : String) (text : Line) (t : String) (p : Nat) :
    (db.insert table pid key text).manifest t p = db.manifest t p := rfl

@[simp] theorem manifest_putObject (key : ObjectKey) (data : Bytes) (t : String) (p : Nat) :
    (db.putObject key data).manifest t p = db.manifest t p := rfl

@[simp] theorem partition_putObject (key : ObjectKey) (data : Bytes) (t : String) (p : Nat) :
    (db.putObject key data).partition t p = db.partition t p := rfl

@[simp] theorem partition_record (m : Manifest) (t : String) (p : Nat) :
    (db.record table pid m).partition t p = db.partition t p := rfl

@[simp] theorem objects_record (m : Manifest) : (db.record table pid m).objects = db.objects := rfl

@[simp] theorem manifest_dropPartition (t : String) (p : Nat) :
    (db.dropPartition table pid).manifest t p = db.manifest t p := rfl

theorem manifest_record (m : Manifest) (t : String) (p : Nat) :
    (db.record table pid m).manifest t p =
      if (t, p) = (table, pid) then some m else db.manifest t p :=
  ODict.get?_set _ _ _ _

theorem partition_insert (key : String) (text : Line) (t : String) (p : Nat) :
    (db.insert table pid key text).partition t p =
      if (t, p) = (table, pid) then (db.partition table pid).set key text
      else db.partition t p := by
  simp only [Db.partition, Db.insert, ODict.get?_set]
  split <;> rfl

theorem partition_drop (t : String) (p : Nat) :
    (db.dropPartition table pid).partition t p =
      if (t, p) = (table, pid) then .empty else db.partition t p := by
  simp only [Db.partition, Db.dropPartition, ODict.get?_erase]
  split <;> rfl

/-- A row with a new key, or a row already there, replaces nothing. -/
theorem entries_subset_set {part : Partition} {key : String} {text : Line}
    (h : part.get? key = none ∨ part.get? key = some text) :
    part.entries ⊆ (part.set key text).entries := by
  rintro ⟨k, v⟩ he
  rw [ODict.mem_entries] at he ⊢
  rw [ODict.get?_set]
  split
  · rename_i hk
    subst hk
    rcases h with h | h <;> rw [h] at he
    · cases he
    · exact he
  · exact he

theorem set_subset_entries {part : Partition} {key : String} {text : Line}
    (h : part.get? key = some text) : (part.set key text).entries ⊆ part.entries := by
  rintro ⟨k, v⟩ he
  rw [ODict.mem_entries] at he ⊢
  rw [ODict.get?_set] at he
  split at he
  · rename_i hk
    rw [hk, h, he]
  · exact he

theorem Snapshot.mono {db' : Db} {data : Bytes} {rows : Nat}
    (h : Snapshot codec db table pid data rows)
    (hsub : (db.partition table pid).entries ⊆ (db'.partition table pid).entries) :
    Snapshot codec db' table pid data rows := by
  obtain ⟨part, hdata, hrows, hpart⟩ := h
  exact ⟨part, hdata, hrows, fun e he => hsub (hpart he)⟩

theorem Covers.mono {db' : Db} {m : Manifest} (h : Covers codec db table pid m)
    (hobj : db'.objects.get? m.objectKey = db.objects.get? m.objectKey)
    (hsub : (db.partition table pid).entries ⊆ (db'.partition table pid).entries) :
    Covers codec db' table pid m := by
  obtain ⟨data, hdata, hsnap⟩ := h
  exact ⟨data, hobj.trans hdata, hsnap.mono hsub⟩

theorem Archived.mono {db' : Db} {m : Manifest} (h : Archived codec db table pid m)
    (hobj : db'.objects.get? m.objectKey = db.objects.get? m.objectKey)
    (hsub : (db'.partition table pid).entries ⊆ (db.partition table pid).entries) :
    Archived codec db' table pid m := by
  obtain ⟨rows, hrows, hall⟩ := h
  refine ⟨rows, ?_, fun e he => hall e (hsub he)⟩
  rw [archivedRows, hobj]
  exact hrows

/-! ## Inserts -/

/-- **A quiet insert.** -/
theorem ArchInv.insert {s : ArchSys} (h : ArchInv codec s) {key : String} {text : Line}
    (hquiet : s.Quiet (.insert table pid key text)) :
    ArchInv codec { s with db := s.db.insert table pid key text } := by
  have hgrow : ∀ t p, ((t, p) = (table, pid) → s.Streamed table pid) →
      (s.db.partition t p).entries ⊆ ((s.db.insert table pid key text).partition t p).entries := by
    intro t p hs
    rw [partition_insert]
    split
    · rename_i heq
      cases heq
      exact entries_subset_set (hquiet.2 (hs rfl))
    · exact List.Subset.refl _
  have hkeep : ∀ t p, ((t, p) = (table, pid) → s.Counted table pid) →
      ((s.db.insert table pid key text).partition t p).entries ⊆ (s.db.partition t p).entries := by
    intro t p hs
    rw [partition_insert]
    split
    · rename_i heq
      cases heq
      exact set_subset_entries (hquiet.1 (hs rfl))
    · exact List.Subset.refl _
  refine ⟨⟨h.db.own, fun t p m hm hst => ?_, fun t p m hm hst => ?_⟩, fun t p stage hstage => ?_⟩
  · refine (h.db.exported t p m hm hst).mono rfl (hgrow t p (fun heq => ?_))
    cases heq
    have hm' : s.db.manifest table pid = some m := hm
    simp [ArchSys.Streamed, hm', hst]
  · refine (h.db.verified t p m hm hst).mono rfl (hkeep t p (fun heq => ?_))
    cases heq
    have hm' : s.db.manifest table pid = some m := hm
    simp [ArchSys.Counted, hm', hst]
  · have hstage' : s.stageOf t p = some stage := hstage
    have hinv := h.stage t p stage hstage'
    cases stage with
    | put data rows =>
      refine ⟨hinv.1, hinv.2.mono (hgrow t p (fun heq => ?_))⟩
      cases heq
      simp [ArchSys.Streamed, hstage']
    | putManifest m =>
      refine ⟨hinv.1, hinv.2.1, hinv.2.2.1, hinv.2.2.2.mono rfl (hgrow t p (fun heq => ?_))⟩
      cases heq
      simp [ArchSys.Streamed, hstage']
    | recordExported m =>
      refine ⟨hinv.1, hinv.2.1, hinv.2.2.1, hinv.2.2.2.mono rfl (hgrow t p (fun heq => ?_))⟩
      cases heq
      simp [ArchSys.Streamed, hstage']
    | recordVerified m =>
      refine ⟨hinv.1, hinv.2.1, hinv.2.2.mono rfl (hkeep t p (fun heq => ?_))⟩
      cases heq
      simp [ArchSys.Counted, hstage']
    | load | stream | reloadExported | readBack m | hotCount m _ _ | recordStale m
    | reloadVerified | drop m | recordDeleted m => exact hinv

/-! ## Requests -/

theorem DbInv.record (h : DbInv codec db) {m : Manifest} (hown : Own table pid m)
    (hexp : m.status = .exported → Covers codec db table pid m)
    (hver : m.status = .verified → Archived codec db table pid m) :
    DbInv codec (db.record table pid m) := by
  have hcases : ∀ {t p m'}, (db.record table pid m).manifest t p = some m' →
      (t = table ∧ p = pid ∧ m' = m) ∨ db.manifest t p = some m' := by
    intro t p m' hm
    rw [manifest_record] at hm
    split at hm
    · rename_i heq
      cases heq
      exact .inl ⟨rfl, rfl, (Option.some.inj hm).symm⟩
    · exact .inr hm
  refine ⟨fun t p m' hm => ?_, fun t p m' hm hst => ?_, fun t p m' hm hst => ?_⟩ <;>
    rcases hcases hm with ⟨rfl, rfl, rfl⟩ | hold
  · exact hown
  · exact h.own t p m' hold
  · exact (hexp hst).mono rfl (List.Subset.refl _)
  · exact (h.exported t p m' hold hst).mono rfl (List.Subset.refl _)
  · exact (hver hst).mono rfl (List.Subset.refl _)
  · exact (h.verified t p m' hold hst).mono rfl (List.Subset.refl _)

/-- An object that no exported or verified manifest names. -/
theorem DbInv.putObject (h : DbInv codec db) {key : ObjectKey} {data : Bytes}
    (hkey : ∀ t p m, db.manifest t p = some m → m.status ≠ .stale → m.objectKey ≠ key) :
    DbInv codec (db.putObject key data) := by
  have hget : ∀ t p m, db.manifest t p = some m → m.status ≠ .stale →
      (db.putObject key data).objects.get? m.objectKey = db.objects.get? m.objectKey := by
    intro t p m hm hst
    simp only [Db.putObject, ODict.get?_set, if_neg (hkey t p m hm hst)]
  refine ⟨h.own, fun t p m hm hst => ?_, fun t p m hm hst => ?_⟩
  · exact (h.exported t p m hm hst).mono (hget t p m hm (by simp [hst])) (List.Subset.refl _)
  · exact (h.verified t p m hm hst).mono (hget t p m hm (by simp [hst])) (List.Subset.refl _)

/-- Objects of one partition are named by no other's manifest. -/
theorem DbInv.key_ne (h : DbInv codec db) (hexp : Exportable db table pid) {key : ObjectKey}
    (hkey : key.isManifest = true ∨ key.table = table ∧ key.day = pid) :
    ∀ t p m, db.manifest t p = some m → m.status ≠ .stale → m.objectKey ≠ key := by
  rintro t p m hm hst rfl
  obtain ⟨h1, h2, h3⟩ := h.own t p m hm
  rcases hkey with hkey | ⟨h4, h5⟩
  · rw [h3] at hkey
    cases hkey
  · rw [← h1, h4, ← h2, h5] at hm
    exact hst (hexp m hm)

theorem DbInv.drop (h : DbInv codec db) {m : Manifest} (hm : db.manifest table pid = some m)
    (hst : m.status = .verified) : DbInv codec (db.dropPartition table pid) := by
  have hsub : ∀ t p, ((db.dropPartition table pid).partition t p).entries ⊆
      (db.partition t p).entries := by
    intro t p
    rw [partition_drop]
    split
    · exact List.nil_subset _
    · exact List.Subset.refl _
  refine ⟨h.own, fun t p m' hm' hst' => ?_, fun t p m' hm' hst' => ?_⟩
  · refine (h.exported t p m' hm' hst').mono rfl ?_
    rw [partition_drop, if_neg]
    · exact List.Subset.refl _
    · intro heq
      cases heq
      have hm'' : db.manifest table pid = some m' := hm'
      rw [hm, Option.some.injEq] at hm''
      rw [← hm'', hst] at hst'
      cases hst'
  · exact (h.verified t p m' hm' hst').mono rfl (hsub t p)

theorem decideDrop_stage {old : Bool} {summary : Summary} {m : Manifest} {stage : Stage}
    (h : (decideDrop old summary m).2 = .stage stage) : stage = .drop m ∧ m.status = .verified := by
  unfold decideDrop at h
  split at h
  · cases h
  · rename_i hst
    dsimp only at h
    split at h <;> cases h
    exact ⟨rfl, by simpa using hst⟩

theorem decideVerify_stage {old : Bool} {summary : Summary} {m : Manifest} {stage : Stage}
    (h : (decideVerify old summary m).2 = .stage stage) :
    stage = .readBack m ∧ m.status = .exported ∨ stage = .drop m ∧ m.status = .verified := by
  unfold decideVerify at h
  split at h
  · rename_i hst
    cases h
    exact .inl ⟨rfl, hst⟩
  · exact .inr (decideDrop_stage h)

/-- What a request does: it keeps the invariant and leads to a stage that has its own. -/
def Performs (codec : Codec) (table : String) (pid : Nat) (res : Db × Summary × Next) : Prop :=
  DbInv codec res.1 ∧ ∀ stage, res.2.2 = .stage stage → StageInv codec res.1 table pid stage

theorem performs_stage {db' : Db} {summary : Summary} {stage : Stage} (hdb : DbInv codec db')
    (h : StageInv codec db' table pid stage) :
    Performs codec table pid (db', summary, .stage stage) :=
  ⟨hdb, fun st hst => by cases hst; exact h⟩

theorem performs_verify {old : Bool} {summary : Summary} {m : Manifest} (hdb : DbInv codec db)
    (hm : db.manifest table pid = some m) :
    Performs codec table pid (db, decideVerify old summary m) := by
  refine ⟨hdb, fun stage hst => ?_⟩
  rcases decideVerify_stage hst with ⟨rfl, hs⟩ | ⟨rfl, hs⟩ <;> exact ⟨hm, hs⟩

/-- **Every request keeps the invariant.** -/
theorem perform_inv (hgz : ∀ data, codec.gunzip (codec.gzip data) = data) (hdb : DbInv codec db)
    {stage : Stage} (hst : StageInv codec db table pid stage) (old : Bool) (summary : Summary) :
    Performs codec table pid (perform codec table pid old db summary stage) := by
  cases stage with
  | load =>
    simp only [perform]
    split
    · rename_i hm
      exact performs_stage hdb (fun m hm' => by rw [hm] at hm'; cases hm')
    · rename_i m hm
      split
      · rename_i hstale
        refine performs_stage hdb (fun m' hm' => ?_)
        rw [hm, Option.some.injEq] at hm'
        exact hm' ▸ hstale
      · exact performs_verify hdb hm
  | stream =>
    exact performs_stage hdb
      ⟨hst, db.partition table pid, rfl, countLines_textOf _, List.Subset.refl _⟩
  | put data rows =>
    have hget : ∀ key : ObjectKey, (db.putObject key data).objects.get? key = some data := fun key =>
      ODict.get?_set_self _ _ _
    exact performs_stage (hdb.putObject (hdb.key_ne hst.1 (.inr ⟨rfl, rfl⟩)))
      ⟨hst.1, ⟨rfl, rfl, rfl⟩, rfl, data, hget _, hst.2.mono (List.Subset.refl _)⟩
  | putManifest m =>
    obtain ⟨hexp, hown, hstatus, hcov⟩ := hst
    refine performs_stage (hdb.putObject (hdb.key_ne hexp (.inl rfl)))
      ⟨hexp, hown, hstatus, hcov.mono ?_ (List.Subset.refl _)⟩
    have hne : m.objectKey ≠ { m.objectKey with isManifest := true } := fun he => by
      have := congrArg ObjectKey.isManifest he
      rw [hown.2.2] at this
      cases this
    simp only [Db.putObject, ODict.get?_set, if_neg hne]
  | recordExported m =>
    obtain ⟨-, hown, hstatus, hcov⟩ := hst
    exact performs_stage (hdb.record hown (fun _ => hcov) (fun h => by rw [hstatus] at h; cases h))
      trivial
  | reloadExported =>
    simp only [perform]
    split
    · exact ⟨hdb, fun stage h => by cases h⟩
    · rename_i m hm
      exact performs_verify hdb hm
  | readBack m =>
    simp only [perform]
    split
    · exact ⟨hdb, fun stage h => by cases h⟩
    · exact performs_stage hdb hst
  | hotCount m digest rows =>
    refine ⟨hdb, fun stage h => ?_⟩
    simp only [perform] at h
    split at h
    · cases h
      trivial
    · rename_i hsame
      split at h <;> cases h
      · exact hst
      · rename_i hcount
        refine ⟨hst.1, hst.2, archived_of_count hgz (hdb.exported _ _ m hst.1 hst.2) ?_⟩
        simp only [not_or, Decidable.not_not] at hsame hcount
        exact hcount.trans hsame.2
  | recordStale m =>
    exact performs_stage (hdb.record (hdb.own _ _ m hst.1) (fun h => by cases h)
      (fun h => by cases h)) trivial
  | recordVerified m =>
    exact performs_stage (hdb.record (hdb.own _ _ m hst.1) (fun h => by cases h)
      (fun _ => hst.2.2)) trivial
  | reloadVerified =>
    simp only [perform]
    split
    · exact ⟨hdb, fun stage h => by cases h⟩
    · rename_i m hm
      refine ⟨hdb, fun stage h => ?_⟩
      obtain ⟨rfl, hs⟩ := decideDrop_stage h
      exact ⟨hm, hs⟩
  | drop m => exact performs_stage (hdb.drop hst.1 hst.2) hst
  | recordDeleted m =>
    exact ⟨hdb.record (hdb.own _ _ m hst.1) (fun h => by cases h) (fun h => by cases h),
      fun stage h => by cases h⟩

/-! ## Runs -/

variable {hotDays today : Nat}

theorem stageOf_task {s : ArchSys} {c : Cycle} {t : Task} (hc : s.cycle = some c)
    (ht : c.task = some t) : s.stageOf t.table t.pid = some t.stage := by
  simp [ArchSys.stageOf, hc, ht]

theorem stageOf_some {s : ArchSys} {stage : Stage} (h : s.stageOf table pid = some stage) :
    ∃ c, s.cycle = some c ∧ c.task = some ⟨table, pid, stage⟩ := by
  unfold ArchSys.stageOf at h
  split at h
  · rename_i c hc
    split at h
    · rename_i t ht
      split at h
      · rename_i heq
        obtain ⟨rfl, rfl⟩ := heq
        cases h
        exact ⟨c, hc, ht⟩
      · cases h
    · cases h
  · cases h

/-- A cycle between two partitions. -/
theorem archInv_noTask {s' : ArchSys} (hdb : DbInv codec s'.db)
    (hnone : ∀ c, s'.cycle = some c → c.task = none) : ArchInv codec s' := by
  refine ⟨hdb, fun t p stage hstage => ?_⟩
  obtain ⟨c, hc, ht⟩ := stageOf_some hstage
  rw [hnone c hc] at ht
  cases ht

theorem ArchInv.request (hgz : ∀ data, codec.gunzip (codec.gzip data) = data) {s : ArchSys}
    (h : ArchInv codec s) {c : Cycle} {t : Task} (hc : s.cycle = some c) (ht : c.task = some t)
    (outcome : Outcome) : ArchInv codec (s.request codec hotDays c t outcome) := by
  obtain ⟨hdb, hstage⟩ := perform_inv hgz h.db (h.stage _ _ _ (stageOf_task hc ht))
    (t.pid + hotDays < c.day) c.summary
  cases outcome with
  | ok =>
    simp only [ArchSys.request]
    split
    · rename_i stage hnext
      refine ⟨hdb, fun table pid st hst => ?_⟩
      obtain ⟨c', hc', ht'⟩ := stageOf_some hst
      cases hc'
      cases ht'
      exact hstage stage hnext
    · exact archInv_noTask hdb (fun c' hc' => by cases hc'; rfl)
    · exact archInv_noTask hdb (fun c' hc' => by cases hc'; rfl)
  | failed applied =>
    refine archInv_noTask ?_ (fun c' hc' => by cases hc'; rfl)
    simp only [ArchSys.request]
    split
    · exact hdb
    · exact h.db

/-- **One step of a quiet run.** -/
theorem archInv_step (hgz : ∀ data, codec.gunzip (codec.gzip data) = data) {s s' : ArchSys}
    {op : ArchOp} (h : ArchInv codec s) (hquiet : s.Quiet op)
    (hstep : s.step codec hotDays op = some s') : ArchInv codec s' := by
  cases op with
  | insert table pid key text =>
    cases hstep
    exact h.insert hquiet
  | midnight =>
    cases hstep
    exact ⟨h.db, h.stage⟩
  | begin =>
    simp only [ArchSys.step] at hstep
    split at hstep <;> cases hstep
    exact archInv_noTask h.db (fun c hc => by cases hc; rfl)
  | list =>
    simp only [ArchSys.step] at hstep
    split at hstep <;> cases hstep
    exact archInv_noTask h.db (fun c hc => by cases hc; rfl)
  | next =>
    simp only [ArchSys.step] at hstep
    split at hstep <;> cases hstep
    refine ⟨h.db, fun t p stage hstage => ?_⟩
    obtain ⟨c, hc, ht⟩ := stageOf_some hstage
    cases hc
    cases ht
    trivial
  | request outcome =>
    simp only [ArchSys.step] at hstep
    split at hstep
    · rename_i c hc
      split at hstep <;> cases hstep
      rename_i t ht
      exact h.request hgz hc ht outcome
    · cases hstep
  | finish =>
    simp only [ArchSys.step] at hstep
    split at hstep <;> cases hstep
    exact archInv_noTask h.db (fun c hc => by cases hc)
  | restart =>
    cases hstep
    exact archInv_noTask h.db (fun c hc => by cases hc)

theorem archInv_reach (hgz : ∀ data, codec.gunzip (codec.gzip data) = data) {s : ArchSys}
    (h : (archive codec hotDays today).Reach ArchSys.Quiet s) : ArchInv codec s := by
  refine h.invariant (I := ArchInv codec) ⟨⟨fun t p m hm => ?_, fun t p m hm => ?_,
    fun t p m hm => ?_⟩, fun t p stage hst => ?_⟩ (fun t op t' ht hC hs => archInv_step hgz ht hC hs)
  · cases hm
  · cases hm
  · cases hm
  · cases hst

theorem perform_hot {stage : Stage} (hst : ∀ m, stage ≠ .drop m) (old : Bool)
    (summary : Summary) : (perform codec table pid old db summary stage).1.hot = db.hot := by
  cases stage with
  | drop m => exact absurd rfl (hst m)
  | load | reloadExported | reloadVerified | readBack m =>
    simp only [perform]
    repeat' split
    all_goals rfl
  | stream | put data rows | putManifest m | recordExported m | hotCount m _ _ | recordStale m
  | recordVerified m | recordDeleted m => rfl

theorem mem_hot_insert {t : String} {p : Nat} {key : String} {text : Line}
    (h : (t, p) ∈ db.hot.keys) : (t, p) ∈ (db.insert table pid key text).hot.keys :=
  ODict.mem_keys_set.2 (.inr h)

/-- The database after a request: it holds what it held, or what the request leaves. -/
theorem request_db (codec : Codec) (hotDays : Nat) (s : ArchSys) (c : Cycle) (t : Task)
    (outcome : Outcome) :
    (s.request codec hotDays c t outcome).db = s.db ∨
      (s.request codec hotDays c t outcome).db =
        (perform codec t.table t.pid (t.pid + hotDays < c.day) s.db c.summary t.stage).1 := by
  cases outcome with
  | ok =>
    right
    simp only [ArchSys.request]
    split <;> rfl
  | failed applied =>
    simp only [ArchSys.request]
    split
    · exact .inr rfl
    · exact .inl rfl

/-- **A partition goes in a drop only.** -/
theorem dropped_at {s s' : ArchSys} {op : ArchOp} (hstep : s.step codec hotDays op = some s')
    (hin : (table, pid) ∈ s.db.hot.keys) (hout : (table, pid) ∉ s'.db.hot.keys) :
    ∃ m, s.stageOf table pid = some (.drop m) := by
  cases op with
  | insert t p key text =>
    cases hstep
    exact absurd (mem_hot_insert hin) hout
  | request outcome =>
    simp only [ArchSys.step] at hstep
    split at hstep
    · rename_i c hc
      split at hstep <;> cases hstep
      rename_i t ht
      rcases request_db codec hotDays s c t outcome
        with hdb | hdb <;> rw [hdb] at hout
      · exact absurd hin hout
      · by_cases hdrop : ∃ m, t.stage = .drop m
        · obtain ⟨m, hm⟩ := hdrop
          rw [hm] at hout
          have hkey : (table, pid) = (t.table, t.pid) := by
            by_contra hne
            apply hout
            rw [← ODict.get?_isSome] at hin ⊢
            simpa only [perform, Db.dropPartition, ODict.get?_erase, if_neg hne] using hin
          cases hkey
          exact ⟨m, hm ▸ stageOf_task hc ht⟩
        · rw [perform_hot (fun m hm => hdrop ⟨m, hm⟩)] at hout
          exact absurd hin hout
    · cases hstep
  | midnight =>
    cases hstep
    exact absurd hin hout
  | restart =>
    cases hstep
    exact absurd hin hout
  | begin | list | next | finish =>
    simp only [ArchSys.step] at hstep
    split at hstep <;> cases hstep
    exact absurd hin hout

end

/-- **Retention destroys nothing unarchived**, in every quiet run: a partition is dropped only under
a verified manifest whose object holds every row of it. -/
theorem drop_only_archived (codec : Codec) (hgz : ∀ data, codec.gunzip (codec.gzip data) = data)
    (hotDays today : Nat) {s : ArchSys}
    (h : (archive codec hotDays today).Reach ArchSys.Quiet s) (op : ArchOp) (s' : ArchSys)
    (hstep : s.step codec hotDays op = some s') (table : String) (pid : Nat)
    (hin : (table, pid) ∈ s.db.hot.keys) (hout : (table, pid) ∉ s'.db.hot.keys) :
    ∃ m rows, s.db.manifest table pid = some m ∧ m.status = .verified ∧
      archivedRows codec s.db m = some rows ∧
      ∀ e ∈ (s.db.partition table pid).entries, e.2.val ∈ rows := by
  obtain ⟨m, hm⟩ := dropped_at hstep hin hout
  have hinv := archInv_reach hgz h
  obtain ⟨hman, hst⟩ := hinv.stage table pid _ hm
  obtain ⟨rows, hrows, hall⟩ := hinv.db.verified table pid m hman hst
  exact ⟨m, rows, hman, hst, hrows, hall⟩

/-- A store that compresses nothing. -/
def plainCodec : Codec where
  gzip := id
  gunzip := id
  sha256 := fun _ => "ca978112ca1bbdcafac231b39a23dc4d"
  dumps := fun _ => []

/-- The requests of an export, its verification and, when the partition is old enough, what leads
to its drop. -/
def archiveRun : List ArchOp :=
  [.begin, .list, .next] ++ List.replicate 10 (.request .ok)

theorem drop_only_archived_one : ∃ s s' : ArchSys, ∃ m rows,
    s.step plainCodec 0 (.request .ok) = some s' ∧ ("raw_events", 0) ∉ s'.db.hot.keys ∧
      s.db.manifest "raw_events" 0 = some m ∧ m.status = .verified ∧
      archivedRows plainCodec s.db m = some rows ∧
      ∀ e ∈ (s.db.partition "raw_events" 0).entries, e.2.val ∈ rows := by
  have hrun : ((archive plainCodec 0 0).runMeeting ArchSys.Quiet (archive plainCodec 0 0).init
      (.insert "raw_events" 0 "a" ⟨[97], by decide⟩ :: .midnight :: archiveRun)).any (fun s =>
        ("raw_events", 0) ∈ s.db.hot.keys ∧
          (s.step plainCodec 0 (.request .ok)).any (fun s' => ("raw_events", 0) ∉ s'.db.hot.keys)) =
        true := by decide +kernel
  obtain ⟨s, hs, hend⟩ := (Option.any_eq_true _ _).1 hrun
  simp only [Bool.decide_and, Bool.and_eq_true, decide_eq_true_eq] at hend
  obtain ⟨s', hs', hout⟩ := (Option.any_eq_true _ _).1 hend.2
  have hout' : ("raw_events", 0) ∉ s'.db.hot.keys := by simpa using hout
  obtain ⟨m, rows, hrows⟩ := drop_only_archived plainCodec (fun _ => rfl) 0 0
    (Machine.reach_of_run _ hs) (.request .ok) s' hs' "raw_events" 0 hend.1 hout'
  exact ⟨s, s', m, rows, hs', hout', hrows⟩

/-- **A late row is destroyed.** It is inserted after its day is verified; the cycle that finds the
day old enough drops the partition without another count. -/
theorem drop_loses_late_row : ¬ ∀ (codec : Codec),
    (∀ data, codec.gunzip (codec.gzip data) = data) → ∀ (hotDays today : Nat) (s : ArchSys),
      (archive codec hotDays today).Reach (fun _ _ => True) s → ∀ op s',
        s.step codec hotDays op = some s' → ∀ table pid, (table, pid) ∈ s.db.hot.keys →
          (table, pid) ∉ s'.db.hot.keys → ∃ m rows, s.db.manifest table pid = some m ∧
            m.status = .verified ∧ archivedRows codec s.db m = some rows ∧
            ∀ e ∈ (s.db.partition table pid).entries, e.2.val ∈ rows := by
  intro hclaim
  have hrun : ((archive plainCodec 1 0).runMeeting (fun _ _ => True) (archive plainCodec 1 0).init
      (.insert "raw_events" 0 "a" ⟨[97], by decide⟩ :: .midnight :: archiveRun ++
        [.list, .list, .list, .list, .finish, .insert "raw_events" 0 "b" ⟨[98], by decide⟩, .midnight,
          .begin, .list, .next, .request .ok])).any (fun s =>
        ("raw_events", 0) ∈ s.db.hot.keys ∧
          (s.step plainCodec 1 (.request .ok)).any (fun s' =>
            ("raw_events", 0) ∉ s'.db.hot.keys ∧
            (s.db.manifest "raw_events" 0).any (fun m =>
              (archivedRows plainCodec s.db m).any (fun rows =>
                (s.db.partition "raw_events" 0).entries.any (fun e => e.2.val ∉ rows))))) =
        true := by decide +kernel
  obtain ⟨s, hs, hend⟩ := (Option.any_eq_true _ _).1 hrun
  simp only [Bool.decide_and, Bool.and_eq_true, decide_eq_true_eq] at hend
  obtain ⟨s', hs', hbad⟩ := (Option.any_eq_true _ _).1 hend.2
  simp only [Bool.and_eq_true, decide_eq_true_eq] at hbad
  obtain ⟨m', hm', hrows'⟩ := (Option.any_eq_true _ _).1 hbad.2
  obtain ⟨rows', hr', hlost⟩ := (Option.any_eq_true _ _).1 hrows'
  obtain ⟨m, rows, hm, -, hr, hall⟩ := hclaim plainCodec (fun _ => rfl) 1 0 s
    (Machine.reach_of_run _ hs) _ s' hs' "raw_events" 0 hend.1 hbad.1
  obtain rfl := Option.some.inj (hm'.symm.trans hm)
  obtain rfl := Option.some.inj (hr'.symm.trans hr)
  obtain ⟨e, he, hne⟩ := List.any_eq_true.1 hlost
  exact absurd (hall e he) (by simpa using hne)

end OTS.Consumers
