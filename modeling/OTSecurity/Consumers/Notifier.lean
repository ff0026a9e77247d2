import OTSecurity.Consumers.Base
import OTSecurity.Consumers.Transforms
import OTSecurity.Lib.Machine

/-!
# The notifier

Model of `NotifierSink` of `consumers/sih_consumers/notifier.py` under the retries of `durable_write`.

* `notifyRows` — `transform`: the row of an alert that passes the filter.
* `Store` — the table `notifications` and the export file; `Column` — what SQLite stores of a value.
* `Store.write` — `write`, with the fault that stops it, if any; `Store.killed` — a call that the end of
  the process stops.
* `NotifierSys`, `notifier` — batches go through `durable_write`, which comes to its end or is killed
  anywhere; any batch may come again.

Principal results: `notified_once` — in the runs in which no export fails or is cut off and every column
is a text, each update is in the table once and in the export once, from the first `True` of
`durable_write` for its batch on; `notified_not_exported` — an export that fails after the commit is not
made up for.
-/

namespace OTS.Consumers

/-! ## Transforming an alert -/

/-- `RANK`, by rank. -/
def RANK : List String := ["info", "low", "medium", "high", "critical"]

/-- `RANK.get(severity, -1)`. -/
def rank (severity : Json) : Int := ((RANK.findIdx? severity.eqText).elim (-1) fun i => (i : Int))

/-- What `transform` returns of an alert, and `write` is given. -/
structure Notification where
  updateId : Json
  incidentId : Json
  status : Json
  severity : Json
  threatClass : Json
  entity : PyStr
  message : PyStr
  alertTs : Json

/-- `s.upper()` of an ASCII text. -/
def asciiUpper (s : PyStr) : PyStr := s.map fun c => if 0x61 ≤ c ∧ c < 0x7B then c - 0x20 else c

/-- The body of the `try` of `transform`. -/
def notifyBody (rt : Runtime) (minRank : Nat) (payload : Bytes) : Py (List Notification) := do
  let a ← Json.loadsBytes rt.recursionLimit payload
  let status ← a.get "status"
  if ¬ (status.eqText "new" ∨ status.eqText "escalated") then return []
  let severity ← a.get "severity"
  severity.hashed
  if rank severity < minRank then return []
  let entityType ← (← a.item "entity").item "type"
  let entityKey ← (← a.item "entity").item "key"
  let entity := rt.str entityType ++ pyStr "=" ++ rt.str entityKey
  let threatClass ← a.item "threat_class"
  let subtype ← a.item "subtype"
  let explanation ← a.item "explanation"
  let message := pyStr "[" ++ asciiUpper severity.text ++ pyStr "] " ++ rt.str threatClass ++
    pyStr "/" ++ rt.str subtype ++ pyStr " " ++ entity ++ pyStr ": " ++ rt.str explanation
  let updateId ← a.item "update_id"
  let incidentId ← a.item "incident_id"
  let alertTs ← a.item "timestamp"
  return [⟨updateId, incidentId, status, severity, threatClass, entity, message.take 2000, alertTs⟩]

/-- `NotifierSink.transform`. -/
def notifyRows (rt : Runtime) (minRank : Nat) (payload : Bytes) : Transform (List Notification) :=
  poisonOn [.valueError, .keyError, .typeError] (notifyBody rt minRank payload)

/-! ## The table -/

/-- What a `TEXT` column stores; numbers are stored as their texts. -/
inductive Column where
  | null
  | text (s : PyStr)
  deriving DecidableEq, Repr

/-- `sqlite3.Error` and `OSError`, which are neither a `TypeError` nor a `ValueError`. -/
def storageError (message : String) : Exc := ⟨.other, message⟩

/-- Binding a value to a `TEXT` column.  A lone surrogate is a `UnicodeEncodeError`; `realText` is the
text SQLite makes of a float, or null. -/
def bind (realText : PyFloat → Option PyStr) : Json → Except Exc Column
  | .null => .ok .null
  | .bool b => .ok (.text (pyStr (if b then "1" else "0")))
  | .int n =>
    if -9223372036854775808 ≤ n ∧ n ≤ 9223372036854775807 then .ok (.text (intText n))
    else .error ⟨.other, "Python int too large to convert to SQLite INTEGER"⟩
  | .float x => .ok ((realText x).elim .null .text)
  | .str s => if Encodable s then .ok (.text s) else .error ⟨.valueError, "surrogates not allowed"⟩
  | .arr _ => .error (storageError "type 'list' is not supported")
  | .obj _ => .error (storageError "type 'dict' is not supported")

/-- A row of `notifications`. -/
structure Stored where
  updateId : Column
  row : Notification
  notifiedAt : PyStr

/-- The directory of the notifier: the table and the text of `notifications.jsonl`. -/
structure Store where
  table : List Stored
  exported : PyStr

def Store.init : Store := ⟨[], []⟩

/-- What is bound in a row, but for the last column, `notified_at`. -/
def Notification.fields (r : Notification) : List Json :=
  [r.updateId, r.incidentId, r.status, r.severity, r.threatClass, .str r.entity, .str r.message,
    r.alertTs]

/-- `INSERT OR IGNORE`: the row it inserts, if any.  Every column but the first is `NOT NULL`, and null
is no duplicate of null. -/
def insertRow (realText : PyFloat → Option PyStr) (table : List Stored) (now : PyStr)
    (r : Notification) : Except Exc (Option Stored) := do
  let columns : List Column ← (r.fields ++ [Json.str now]).mapM (bind realText)
  let updateId := columns.headD .null
  return if .null ∈ columns.tail ∨ updateId ≠ .null ∧ updateId ∈ table.map (·.updateId) then none
    else some ⟨updateId, r, now⟩

/-- The transaction: the rows inserted, in order.  `fault` is the number of an `INSERT` that fails, with
its message. -/
def insertAll (realText : PyFloat → Option PyStr) (now : PyStr) :
    List Stored → List Notification → Option (Nat × String) → Except Exc (List Stored)
  | _, [], _ => .ok []
  | _, _ :: _, some (0, message) => .error (storageError message)
  | table, r :: rows, fault =>
    let fault := fault.map fun f => (f.1 - 1, f.2)
    match insertRow realText table now r with
    | .error e => .error e
    | .ok none => insertAll realText now table rows fault
    | .ok (some x) => (insertAll realText now (table ++ [x]) rows fault).map (x :: ·)

/-! ## Writing -/

/-- `{**r, "notified_at": now}`. -/
def Stored.json (x : Stored) : Json := .obj [
  (pyStr "update_id", x.row.updateId),
  (pyStr "incident_id", x.row.incidentId),
  (pyStr "status", x.row.status),
  (pyStr "severity", x.row.severity),
  (pyStr "threat_class", x.row.threatClass),
  (pyStr "entity", .str x.row.entity),
  (pyStr "message", .str x.row.message),
  (pyStr "alert_ts", x.row.alertTs),
  (pyStr "notified_at", .str x.notifiedAt)]

/-- A line of the export, without its newline. -/
def Stored.line (x : Stored) : PyStr := x.json.dumps true

def exportText (xs : List Stored) : PyStr := xs.flatMap fun x => x.line ++ [0x0A]

/-- What stops a call of `write`: a statement fails, or appending does after `n` characters have
reached the file. -/
inductive Fault where
  | begin (message : String)
  | insert (i : Nat) (message : String)
  | commit (message : String)
  | append (n : Nat) (message : String)
  deriving DecidableEq, Repr

def Fault.insert? : Fault → Option (Nat × String)
  | .insert i message => some (i, message)
  | _ => none

/-- Where the end of the process stops a call of `write`. -/
inductive Killed where
  | beforeCommit
  | inAppend (n : Nat)
  | afterAppend
  deriving DecidableEq, Repr

namespace Store

variable (realText : PyFloat → Option PyStr) (st : Store)

/-- What `write` inserts; an error when the clock is outside the calendar or an `INSERT` fails. -/
def inserts (nowUs : Int) (fault : Option Fault) (rows : List Notification) :
    Except Exc (List Stored) :=
  match formatUs nowUs with
  | none => .error ⟨.other, "date value out of range"⟩
  | some now => insertAll realText now st.table rows (fault.bind Fault.insert?)

/-- `NotifierSink.write`: the exception it raises, if any. -/
def write (nowUs : Int) (fault : Option Fault) (rows : List Notification) : Option Exc × Store :=
  match fault, st.inserts realText nowUs fault rows with
  | some (.begin message), _ => (some (storageError message), st)
  | _, .error e => (some e, st)
  | some (.commit message), _ => (some (storageError message), st)
  | some (.append n message), .ok inserted =>
    if inserted = [] then (none, st)
    else (some (storageError message),
      ⟨st.table ++ inserted, st.exported ++ (exportText inserted).take n⟩)
  | _, .ok inserted => (none, ⟨st.table ++ inserted, st.exported ++ exportText inserted⟩)

/-- A call of `write` that does not come to its end. -/
def killed (nowUs : Int) (rows : List Notification) (kill : Killed) : Store :=
  match st.inserts realText nowUs none rows, kill with
  | .error _, _ => st
  | .ok _, .beforeCommit => st
  | .ok inserted, .inAppend n =>
    ⟨st.table ++ inserted, st.exported ++ (exportText inserted).take n⟩
  | .ok inserted, .afterAppend =>
    ⟨st.table ++ inserted, st.exported ++ exportText inserted⟩

end Store

/-! ## Batches -/

/-- What meets a call of `write`: the time and the fault. -/
structure Circumstances where
  nowUs : Int
  fault : Option Fault

/-- What a call leaves of the directory. -/
def afterCall (realText : PyFloat → Option PyStr) (met : Circumstances) (st : Store) :
    Event Notification → Store
  | .write batch _ => (st.write realText met.nowUs met.fault (rowsOf batch)).2
  | _ => st

/-- The directory after the calls of a trace, in the circumstances `met` gives for each. -/
def storeAfter (realText : PyFloat → Option PyStr) (met : Trace Notification → Circumstances) :
    Trace Notification → Store → Trace Notification → Store
  | _, st, [] => st
  | before, st, e :: t =>
    storeAfter realText met (before ++ [e]) (afterCall realText (met before) st e) t

/-- A world whose sink is the notifier. -/
def notifierWorld (realText : PyFloat → Option PyStr) (met : Trace Notification → Circumstances)
    (st : Store) (w : World Notification) : World Notification :=
  { w with write := fun t rows =>
      ((storeAfter realText met [] st t).write realText (met t).nowUs (met t).fault rows).1 }

/-- The items of a batch: one of poison has no rows; `none` when a transform raises. -/
def itemsOf (rt : Runtime) (minRank : Nat) (msgs : List Message) :
    Option (List (Item Notification)) :=
  (msgs.filter (¬ ·.error)).mapM fun m =>
    match notifyRows rt minRank (m.value.getD []) with
    | .ok rows => some (m.item rows)
    | .error .poison => some (m.item [])
    | .error (.raises _) => none

theorem itemsOf_single {rt : Runtime} {minRank : Nat} {m : Message} {rows : List Notification}
    (hm : m.error = false) (h : notifyRows rt minRank (m.value.getD []) = .ok rows) :
    itemsOf rt minRank [m] = some [m.item rows] := by
  simp [itemsOf, hm, h]

/-! ## The notifier as a machine -/

/-- Settings, and what the notifier takes from SQLite. -/
structure NotifierConfig where
  rt : Runtime
  minRank : Nat
  realText : PyFloat → Option PyStr

structure NotifierSys where
  store : Store
  /-- The rows of the batches for which `durable_write` has returned `True`, a ghost. -/
  settled : List Notification

/-- A call of `durable_write`: the batch, the rest of its world, what its calls of `write` meet, and how
many rounds it gets. -/
structure BatchCall where
  msgs : List Message
  world : World Notification
  met : Trace Notification → Circumstances
  fuel : Nat

inductive NotifierOp where
  | batch (call : BatchCall)
  /-- The process ends after `n` calls of `durable_write`, or in the middle of the next one. -/
  | killed (call : BatchCall) (n : Nat) (kill : Killed)

namespace NotifierSys

variable (cfg : NotifierConfig) (s : NotifierSys)

def trace (call : BatchCall) (items : List (Item Notification)) :
    Option Bool × Trace Notification :=
  durableWrite (notifierWorld cfg.realText call.met s.store call.world) call.fuel items []

def step : NotifierOp → Option NotifierSys
  | .batch call =>
    (itemsOf cfg.rt cfg.minRank call.msgs).map fun items =>
      let (returned, t) := s.trace cfg call items
      ⟨storeAfter cfg.realText call.met [] s.store t,
        if returned = some true then s.settled ++ rowsOf items else s.settled⟩
  | .killed call n kill =>
    (itemsOf cfg.rt cfg.minRank call.msgs).map fun items =>
      let t := (s.trace cfg call items).2
      let done := storeAfter cfg.realText call.met [] s.store (t.take n)
      { s with store := match t[n]? with
          | some (.write batch _) =>
            done.killed cfg.realText (call.met (t.take n)).nowUs (rowsOf batch) kill
          | _ => done }

end NotifierSys

/-- The notifier, from an empty directory on. -/
def notifier (cfg : NotifierConfig) : Machine NotifierSys NotifierOp :=
  ⟨⟨.init, []⟩, NotifierSys.step cfg⟩

/-! ## The property -/

/-- The rows of the table for an update. -/
def Store.rowsFor (st : Store) (u : String) : Nat :=
  st.table.countP (·.updateId = .text (pyStr u))

/-- How the line of an update begins. -/
def lineHead (u : PyStr) : PyStr :=
  pyStr "\x7b\"update_id\":" ++ Json.dumpString true u ++ [0x2C]

/-- The complete lines of the export for an update. -/
def Store.linesFor (st : Store) (u : String) : Nat :=
  ((st.exported.splitOn 0x0A).dropLast).countP (lineHead (pyStr u)).isPrefixOf

/-- Each update has at most one row and one line, and exactly one of each once its batch is done. -/
structure NotifierSys.Once (s : NotifierSys) : Prop where
  atMost : ∀ u, s.store.rowsFor u ≤ 1 ∧ s.store.linesFor u ≤ 1
  settled : ∀ r ∈ s.settled, ∃ u, r.updateId = .str (pyStr u) ∧
    s.store.rowsFor u = 1 ∧ s.store.linesFor u = 1

/-- The fields of the row are texts that UTF-8 can hold. -/
def Notification.Texts (r : Notification) : Prop := ∀ v ∈ r.fields, ∃ s : String, v = .str (pyStr s)

/-- No export fails, and every column is a text. -/
structure BatchCall.Clean (cfg : NotifierConfig) (call : BatchCall) : Prop where
  exports : ∀ t n message, (call.met t).fault ≠ some (.append n message)
  texts : ∀ items, itemsOf cfg.rt cfg.minRank call.msgs = some items →
    ∀ i ∈ items, ∀ r ∈ i.rows, r.Texts

/-- No export fails or is cut off, and every column is a text. -/
def Exports (cfg : NotifierConfig) (_ : NotifierSys) : NotifierOp → Prop
  | .batch call => call.Clean cfg
  | .killed call _ kill => call.Clean cfg ∧ ∀ n, kill ≠ .inAppend n

/-! ## Lines -/

/-- A row whose fields are texts, under its own update. -/
structure Stored.Plain (x : Stored) : Prop where
  texts : x.row.Texts
  updateId : ∃ u, x.row.updateId = .str (pyStr u) ∧ x.updateId = .text (pyStr u)

namespace Stored.Plain

variable {x : Stored} (h : x.Plain)
include h

theorem no_newline : 0x0A ∉ x.line := by
  refine Json.dumps_no_newline fun m hm => ?_
  have htext : ∀ v ∈ x.row.fields, ∃ s, v = Json.str s := by
    intro v hv
    obtain ⟨s, hs⟩ := h.texts v hv
    exact ⟨_, hs⟩
  simp only [Notification.fields, List.forall_mem_cons] at htext
  obtain ⟨h1, h2, h3, h4, h5, h6, h7, h8, -⟩ := htext
  simp only [List.mem_cons, List.not_mem_nil, or_false] at hm
  rcases hm with rfl | rfl | rfl | rfl | rfl | rfl | rfl | rfl | rfl
  · exact h1
  · exact h2
  · exact h3
  · exact h4
  · exact h5
  · exact h6
  · exact h7
  · exact h8
  · exact ⟨_, rfl⟩

/-- The line of a row begins as the lines of its update do, and of no other. -/
theorem isPrefixOf_iff (u : String) :
    (lineHead (pyStr u)).isPrefixOf x.line = true ↔ x.updateId = .text (pyStr u) := by
  obtain ⟨v, hrow, hcol⟩ := h.updateId
  have hhead : pyStr "\x7b\"update_id\":" =
      0x7B :: (Json.dumpString true (pyStr "update_id") ++ [0x3A]) := by decide
  obtain ⟨rest, hline⟩ : ∃ rest, x.line = pyStr "\x7b\"update_id\":" ++
      (Json.dumpString true (pyStr v) ++ 0x2C :: rest) := by
    rw [Stored.line, Stored.json, Json.dumps, hrow, Json.dumpMembers, Json.dumps, hhead]
    simp only [List.append_assoc, List.cons_append, List.nil_append]
    exact ⟨_, rfl⟩
  rw [List.isPrefixOf_iff_prefix, hline, hcol, lineHead, List.append_assoc,
    List.prefix_append_right_inj]
  constructor
  · rintro ⟨tail, htail⟩
    rw [List.append_assoc] at htail
    rw [Json.dumpString_inj htail]
  · intro huv
    have hstr := Column.text.inj huv
    rw [hstr]
    exact ⟨rest, by rw [List.append_assoc]; rfl⟩

end Stored.Plain

theorem splitOn_exportText {xs : List Stored} (h : ∀ x ∈ xs, x.Plain) :
    ((exportText xs).splitOn 0x0A).dropLast = xs.map (·.line) := by
  induction xs with
  | nil => rfl
  | cons x xs ih =>
    obtain ⟨hx, hxs⟩ := List.forall_mem_cons.1 h
    have htail := ih hxs
    rw [exportText, List.flatMap_cons, List.append_assoc, List.singleton_append,
      List.splitOn_append_cons_self, List.splitOn_eq_singleton hx.no_newline,
      List.singleton_append, List.dropLast_cons_of_ne_nil (List.splitOn_ne_nil _ _), List.map_cons]
    exact congrArg _ htail

/-- **What is exported of plain rows**: one line for each row, and no others. -/
theorem linesFor_exportText {st : Store} (hplain : ∀ x ∈ st.table, x.Plain)
    (hexport : st.exported = exportText st.table) (u : String) : st.linesFor u = st.rowsFor u := by
  unfold Store.linesFor Store.rowsFor
  rw [hexport, splitOn_exportText hplain, List.countP_map]
  refine List.countP_congr fun x hx => ?_
  rw [Function.comp_apply, (hplain x hx).isPrefixOf_iff, decide_eq_true_eq]

/-! ## The transaction -/

variable {realText : PyFloat → Option PyStr} {now : PyStr} {table : List Stored}

theorem mapM_bind {vs : List Json} (h : ∀ v ∈ vs, ∃ s, v = .str s ∧ Encodable s) :
    vs.mapM (bind realText) = .ok (vs.map fun v => .text v.text) := by
  induction vs with
  | nil => rfl
  | cons v vs ih =>
    obtain ⟨⟨s, rfl, hs⟩, hvs⟩ := List.forall_mem_cons.1 h
    rw [List.mapM_cons, ih hvs, bind, if_pos hs]
    rfl

/-- A row of texts is inserted unless its update has a row. -/
theorem insertRow_texts {r : Notification} {u : String} (hr : r.Texts) (hnow : Encodable now)
    (hu : r.updateId = .str (pyStr u)) : insertRow realText table now r =
      .ok (if .text (pyStr u) ∈ table.map (·.updateId) then none
        else some ⟨.text (pyStr u), r, now⟩) := by
  have hall : ∀ v ∈ r.fields ++ [Json.str now], ∃ s, v = .str s ∧ Encodable s := by
    intro v hv
    rcases List.mem_append.1 hv with hv | hv
    · obtain ⟨s, rfl⟩ := hr v hv
      exact ⟨_, rfl, pyStr_encodable s⟩
    · exact ⟨now, List.mem_singleton.1 hv, hnow⟩
  unfold insertRow
  rw [mapM_bind hall]
  have hhead : ((r.fields ++ [Json.str now]).map fun v => Column.text v.text).headD .null =
      .text (pyStr u) := by
    simp only [Notification.fields, List.cons_append, List.map_cons, List.headD_cons, hu, Json.text]
  have htail : Column.null ∉ ((r.fields ++ [Json.str now]).map fun v => Column.text v.text).tail := by
    intro h
    obtain ⟨v, -, hv⟩ := List.mem_map.1 (List.mem_of_mem_tail h)
    cases hv
  show Except.ok (if _ then none else some (Stored.mk _ r now)) = _
  simp only [hhead, htail, false_or, ne_eq, reduceCtorEq, not_false_eq_true, true_and]

/-- What a transaction that does not fail inserts of `rows`. -/
structure Inserted (table : List Stored) (rows : List Notification) (xs : List Stored) : Prop where
  plain : ∀ x ∈ xs, x.Plain
  nodup : ((table ++ xs).map (·.updateId)).Nodup
  present : ∀ r ∈ rows, ∀ u, r.updateId = .str (pyStr u) →
    .text (pyStr u) ∈ (table ++ xs).map (·.updateId)

theorem insertAll_step {r : Notification} {rows : List Notification} {fault : Option (Nat × String)}
    (hf : ∀ message, fault ≠ some (0, message)) : insertAll realText now table (r :: rows) fault =
      match insertRow realText table now r with
      | .error e => .error e
      | .ok none => insertAll realText now table rows (fault.map fun f => (f.1 - 1, f.2))
      | .ok (some x) => (insertAll realText now (table ++ [x]) rows
          (fault.map fun f => (f.1 - 1, f.2))).map (x :: ·) := by
  rcases fault with _ | ⟨_ | n, message⟩
  · rfl
  · exact absurd rfl (hf message)
  · rfl

theorem insertAll_spec (hnow : Encodable now) : ∀ (rows : List Notification) (table : List Stored)
    (fault : Option (Nat × String)), (∀ r ∈ rows, r.Texts) → (table.map (·.updateId)).Nodup →
      match insertAll realText now table rows fault with
      | .error e => e.kind = .other
      | .ok xs => Inserted table rows xs := by
  intro rows
  induction rows with
  | nil =>
    intro table fault _ hnodup
    rw [insertAll]
    exact ⟨by simp, by simpa using hnodup, by simp⟩
  | cons r rows ih =>
    intro table fault hrows hnodup
    obtain ⟨hr, hrows⟩ := List.forall_mem_cons.1 hrows
    obtain ⟨u, hu⟩ := hr r.updateId (List.mem_cons_self ..)
    have hsame : ∀ v, r.updateId = .str (pyStr v) → Column.text (pyStr v) = .text (pyStr u) :=
      fun v hv => congrArg _ (Json.str.inj (hv.symm.trans hu))
    by_cases hf : ∃ message, fault = some (0, message)
    · obtain ⟨message, rfl⟩ := hf
      rfl
    rw [insertAll_step fun message h => hf ⟨message, h⟩, insertRow_texts hr hnow hu]
    by_cases hold : Column.text (pyStr u) ∈ table.map (·.updateId)
    · -- the update has its row already
      rw [if_pos hold]
      have hrest := ih table (fault.map fun f => (f.1 - 1, f.2)) hrows hnodup
      simp only
      split <;> rename_i heq <;> rw [heq] at hrest
      · exact hrest
      · refine ⟨hrest.plain, hrest.nodup, List.forall_mem_cons.2 ⟨?_, hrest.present⟩⟩
        intro v hv
        rw [hsame v hv, List.map_append]
        exact List.mem_append_left _ hold
    · rw [if_neg hold]
      obtain ⟨x, hx⟩ : ∃ x : Stored, x = ⟨.text (pyStr u), r, now⟩ := ⟨_, rfl⟩
      have hid : x.updateId = .text (pyStr u) := by rw [hx]
      have hplain : x.Plain := by
        rw [hx]
        exact ⟨hr, u, hu, rfl⟩
      have hnodup' : ((table ++ [x]).map (·.updateId)).Nodup := by
        rw [List.map_append, List.map_singleton, hid]
        refine List.nodup_append.2 ⟨hnodup, List.nodup_singleton _, ?_⟩
        rintro a ha b hb rfl
        exact hold (List.mem_singleton.1 hb ▸ ha)
      have hrest := ih (table ++ [x]) (fault.map fun f => (f.1 - 1, f.2)) hrows hnodup'
      rw [← hx]
      simp only
      cases heq : insertAll realText now (table ++ [x]) rows (fault.map fun f => (f.1 - 1, f.2)) with
      | error e =>
        rw [heq] at hrest
        exact hrest
      | ok xs =>
        rw [heq] at hrest
        have happend : table ++ x :: xs = table ++ [x] ++ xs := by simp
        refine ⟨List.forall_mem_cons.2 ⟨hplain, hrest.plain⟩, happend ▸ hrest.nodup,
          List.forall_mem_cons.2 ⟨?_, happend ▸ hrest.present⟩⟩
        intro v hv
        rw [hsame v hv, ← hid]
        simp

/-! ## The directory -/

/-- The export holds one line for each row of the table, in order, and no update has two rows. -/
structure Store.Consistent (st : Store) : Prop where
  plain : ∀ x ∈ st.table, x.Plain
  nodup : (st.table.map (·.updateId)).Nodup
  exported : st.exported = exportText st.table

/-- The update of a row is in the table. -/
def Store.Holds (st : Store) (r : Notification) : Prop :=
  ∀ u, r.updateId = .str (pyStr u) → .text (pyStr u) ∈ st.table.map (·.updateId)

theorem Store.Holds.mono {st st' : Store} {r : Notification} (h : st.Holds r)
    (hsub : st.table ⊆ st'.table) : st'.Holds r :=
  fun u hu => List.map_subset _ hsub (h u hu)

theorem consistent_init : Store.init.Consistent := ⟨by simp [Store.init], by simp [Store.init], rfl⟩

/-- The table after a transaction that did not fail, with its export. -/
theorem Store.Consistent.insert {st : Store} (h : st.Consistent) {rows : List Notification}
    {xs : List Stored} (hxs : Inserted st.table rows xs) :
    Store.Consistent ⟨st.table ++ xs, st.exported ++ exportText xs⟩ where
  plain x hx := (List.mem_append.1 hx).elim (h.plain x) (hxs.plain x)
  nodup := hxs.nodup
  exported := by rw [h.exported, exportText, exportText, exportText, List.flatMap_append]

variable (realText) in
theorem inserts_spec {st : Store} (h : st.Consistent) (nowUs : Int) (fault : Option Fault)
    {rows : List Notification} (hrows : ∀ r ∈ rows, r.Texts) :
    match st.inserts realText nowUs fault rows with
    | .error e => e.kind = .other
    | .ok xs => Inserted st.table rows xs := by
  unfold Store.inserts
  cases hnow : formatUs nowUs with
  | none => rfl
  | some now =>
    exact insertAll_spec (formatUs_text hnow).1 rows st.table _ hrows h.nodup

variable (realText) in
/-- **A call of `write` whose export does not fail** keeps the directory consistent; if it returns, the
updates of its rows are in the table, and if it raises, the exception is not permanent. -/
theorem write_spec {st : Store} (h : st.Consistent) (nowUs : Int) {fault : Option Fault}
    (hfault : ∀ n message, fault ≠ some (.append n message)) {rows : List Notification}
    (hrows : ∀ r ∈ rows, r.Texts) :
    (st.write realText nowUs fault rows).2.Consistent ∧
      st.table ⊆ (st.write realText nowUs fault rows).2.table ∧
      match (st.write realText nowUs fault rows).1 with
      | none => ∀ r ∈ rows, (st.write realText nowUs fault rows).2.Holds r
      | some e => e.kind = .other := by
  have hins := inserts_spec realText h nowUs fault hrows
  unfold Store.write
  split
  · exact ⟨h, List.Subset.refl _, rfl⟩
  · rename_i heq
    rw [heq] at hins
    exact ⟨h, List.Subset.refl _, hins⟩
  · exact ⟨h, List.Subset.refl _, rfl⟩
  · exact absurd rfl (hfault _ _)
  · rename_i heq
    rw [heq] at hins
    exact ⟨h.insert hins, List.subset_append_left _ _, hins.present⟩

variable (realText) in
/-- A call of `write` that is not cut off while it exports. -/
theorem killed_spec {st : Store} (h : st.Consistent) (nowUs : Int) {rows : List Notification}
    (hrows : ∀ r ∈ rows, r.Texts) {kill : Killed} (hkill : ∀ n, kill ≠ .inAppend n) :
    (st.killed realText nowUs rows kill).Consistent ∧
      st.table ⊆ (st.killed realText nowUs rows kill).table := by
  have hins := inserts_spec realText h nowUs none hrows
  unfold Store.killed
  split
  · exact ⟨h, List.Subset.refl _⟩
  · exact ⟨h, List.Subset.refl _⟩
  · exact absurd rfl (hkill _)
  · rename_i heq
    rw [heq] at hins
    exact ⟨h.insert hins, List.subset_append_left _ _⟩

/-! ## A call of `durable_write` -/

section Call

variable {met : Trace Notification → Circumstances} {st : Store} {w : World Notification}
  {items : List (Item Notification)}

theorem storeAfter_append : ∀ (t t' before : Trace Notification) (st : Store),
    storeAfter realText met before st (t ++ t') =
      storeAfter realText met (before ++ t) (storeAfter realText met before st t) t'
  | [], t', before, st => by rw [List.append_nil]; rfl
  | e :: t, t', before, st => by
    rw [List.cons_append, storeAfter, storeAfter_append t t', List.append_assoc]
    rfl

theorem storeAfter_concat (t : Trace Notification) (e : Event Notification) :
    storeAfter realText met [] st (t ++ [e]) =
      afterCall realText (met t) (storeAfter realText met [] st t) e := by
  rw [storeAfter_append]
  rfl

/-- What the calls so far have done: the directory is consistent, what was written is in the table, and
no write has failed for good. -/
structure CallInv (realText : PyFloat → Option PyStr) (met : Trace Notification → Circumstances)
    (st : Store) (t : Trace Notification) : Prop where
  consistent : (storeAfter realText met [] st t).Consistent
  grows : st.table ⊆ (storeAfter realText met [] st t).table
  written : ∀ batch, .write batch none ∈ t → ∀ r ∈ rowsOf batch,
    (storeAfter realText met [] st t).Holds r
  transient : ∀ batch e, .write batch (some e) ∈ t → e.kind = .other

theorem CallInv.concat {t : Trace Notification} (h : CallInv realText met st t)
    (hexports : ∀ t n message, (met t).fault ≠ some (.append n message))
    (hitems : ∀ i ∈ items, ∀ r ∈ i.rows, r.Texts) {e : Event Notification}
    (he : Answered (notifierWorld realText met st w) items t e) :
    CallInv realText met st (t ++ [e]) := by
  have hother : ∀ e : Event Notification, (∀ batch exc, e ≠ .write batch exc) →
      CallInv realText met st (t ++ [e]) := by
    intro e hne
    have hsame : storeAfter realText met [] st (t ++ [e]) = storeAfter realText met [] st t := by
      rw [storeAfter_concat]
      cases e with
      | write batch exc => exact absurd rfl (hne batch exc)
      | _ => rfl
    constructor
    · exact hsame ▸ h.consistent
    · exact hsame ▸ h.grows
    · intro batch hb
      rcases List.mem_append.1 hb with hb | hb
      · exact hsame ▸ h.written batch hb
      · exact absurd (List.mem_singleton.1 hb).symm (hne _ _)
    · intro batch exc hb
      rcases List.mem_append.1 hb with hb | hb
      · exact h.transient batch exc hb
      · exact absurd (List.mem_singleton.1 hb).symm (hne _ _)
  cases e with
  | write batch exc =>
    obtain ⟨hbatch, hexc⟩ := he
    have hrows : ∀ r ∈ rowsOf batch, r.Texts := by
      intro r hr
      obtain ⟨i, hi, hr⟩ := List.mem_flatMap.1 hr
      exact hitems i (hbatch hi) r hr
    obtain ⟨hcons, hgrow, hres⟩ := write_spec realText h.consistent (met t).nowUs
      (hexports t) hrows
    have hafter : storeAfter realText met [] st (t ++ [Event.write batch exc]) =
        ((storeAfter realText met [] st t).write realText (met t).nowUs (met t).fault
          (rowsOf batch)).2 := storeAfter_concat t _
    rw [← show exc = ((storeAfter realText met [] st t).write realText (met t).nowUs (met t).fault
      (rowsOf batch)).1 from hexc] at hres
    constructor
    · exact hafter ▸ hcons
    · exact hafter ▸ List.Subset.trans h.grows hgrow
    · intro b hb r hr
      rw [hafter]
      rcases List.mem_append.1 hb with hb | hb
      · exact (h.written b hb r hr).mono hgrow
      · obtain ⟨rfl, rfl⟩ := Event.write.inj (List.mem_singleton.1 hb)
        exact hres r hr
    · intro b e hb
      rcases List.mem_append.1 hb with hb | hb
      · exact h.transient b e hb
      · obtain ⟨rfl, rfl⟩ := Event.write.inj (List.mem_singleton.1 hb)
        exact hres
  | _ => exact hother _ nofun

theorem callInv (h : st.Consistent)
    (hexports : ∀ t n message, (met t).fault ≠ some (.append n message))
    (hitems : ∀ i ∈ items, ∀ r ∈ i.rows, r.Texts) (t : Trace Notification) :
    Always (Answered (notifierWorld realText met st w) items) t → CallInv realText met st t := by
  induction t using List.reverseRecOn with
  | nil => exact fun _ => ⟨h, List.Subset.refl _, nofun, nofun⟩
  | append_singleton t e ih =>
    intro ht
    obtain ⟨ht, he⟩ := always_concat.1 ht
    exact (ih ht).concat hexports hitems he

/-- **A `True` of `durable_write`**: nothing is quarantined, and every row is in the table. -/
theorem CallInv.settled {fuel : Nat} (hinv : CallInv realText met st
      (durableWrite (notifierWorld realText met st w) fuel items []).2)
    (hreturned : (durableWrite (notifierWorld realText met st w) fuel items []).1 = some true) :
    ∀ r ∈ rowsOf items, (storeAfter realText met [] st
      (durableWrite (notifierWorld realText met st w) fuel items []).2).Holds r := by
  intro r hr
  obtain ⟨i, hi, hr⟩ := List.mem_flatMap.1 hr
  obtain ⟨seg, htrace, hjust, -, hkept⟩ :=
    durableWrite_spec (notifierWorld realText met st w) fuel items []
  rw [List.nil_append] at htrace
  rcases hkept hreturned i hi (List.ne_nil_of_mem hr) with ⟨batch, hb, hib⟩ | ⟨poison, reason, hq, hp⟩
  · exact hinv.written batch (htrace ▸ hb) r (List.mem_flatMap.2 ⟨i, hib, hr⟩)
  · -- quarantine takes a permanent error
    obtain ⟨before, hbefore, hpoison⟩ := hjust.mem hq
    obtain ⟨-, -, e, hperm, hwrite⟩ := hpoison _ hp
    have hkind := hinv.transient _ _ (htrace ▸ hbefore.subset hwrite)
    unfold is_permanent at hperm
    rw [hkind] at hperm
    cases hperm

end Call

/-! ## Every run -/

structure NotifierInv (s : NotifierSys) : Prop where
  consistent : s.store.Consistent
  settled : ∀ r ∈ s.settled, (∃ u, r.updateId = .str (pyStr u)) ∧ s.store.Holds r

namespace NotifierInv

variable {cfg : NotifierConfig} {s s' : NotifierSys}

theorem once (h : NotifierInv s) : s.Once := by
  have hatMost : ∀ u, s.store.rowsFor u ≤ 1 := by
    intro u
    unfold Store.rowsFor
    have hcount := List.nodup_iff_count_le_one.1 h.consistent.nodup (.text (pyStr u))
    rw [List.count_eq_countP, List.countP_map] at hcount
    refine le_of_eq_of_le (List.countP_congr fun x _ => ?_) hcount
    simp only [decide_eq_true_eq, Function.comp_apply, beq_iff_eq]
  have hlines := linesFor_exportText h.consistent.plain h.consistent.exported
  constructor
  · exact fun u => ⟨hatMost u, (hlines u).symm ▸ hatMost u⟩
  · intro r hr
    obtain ⟨⟨u, hu⟩, hholds⟩ := h.settled r hr
    obtain ⟨x, hx, hid⟩ := List.mem_map.1 (hholds u hu)
    have hone : s.store.rowsFor u = 1 := le_antisymm (hatMost u)
      (List.countP_pos_iff.2 ⟨x, hx, decide_eq_true hid⟩)
    exact ⟨u, hu, hone, (hlines u).trans hone⟩

theorem step (h : NotifierInv s) {op : NotifierOp} (hC : Exports cfg s op)
    (hs : s.step cfg op = some s') : NotifierInv s' := by
  cases op with
  | batch call =>
    obtain ⟨items, hitems, rfl⟩ := Option.map_eq_some_iff.1 hs
    obtain ⟨hexports, htexts⟩ := hC
    have hinv := callInv h.consistent hexports (htexts items hitems) _
      (durableWrite_answered (notifierWorld cfg.realText call.met s.store call.world) call.fuel items)
    refine ⟨hinv.consistent, ?_⟩
    have hold : ∀ r ∈ s.settled, (∃ u, r.updateId = .str (pyStr u)) ∧ (storeAfter cfg.realText
        call.met [] s.store (s.trace cfg call items).2).Holds r := by
      intro r hr
      obtain ⟨hu, hholds⟩ := h.settled r hr
      exact ⟨hu, hholds.mono hinv.grows⟩
    intro r hr
    simp only at hr
    split at hr
    · rename_i hreturned
      rcases List.mem_append.1 hr with hr | hr
      · exact hold r hr
      · refine ⟨?_, hinv.settled hreturned r hr⟩
        obtain ⟨i, hi, hr⟩ := List.mem_flatMap.1 hr
        exact htexts items hitems i hi r hr r.updateId (List.mem_cons_self ..)
    · exact hold r hr
  | killed call n kill =>
    obtain ⟨items, hitems, rfl⟩ := Option.map_eq_some_iff.1 hs
    obtain ⟨⟨hexports, htexts⟩, hkill⟩ := hC
    have hanswered := durableWrite_answered
      (notifierWorld cfg.realText call.met s.store call.world) call.fuel items
    have hinv := callInv h.consistent hexports (htexts items hitems) _
      (hanswered.of_prefix (List.take_prefix n _))
    have hkilled : ∀ st : Store, st.Consistent → s.store.table ⊆ st.table →
        NotifierInv { s with store := st } := by
      intro st hst hgrows
      refine ⟨hst, fun r hr => ?_⟩
      obtain ⟨hu, hholds⟩ := h.settled r hr
      exact ⟨hu, hholds.mono hgrows⟩
    simp only
    split
    · rename_i batch exc hnext
      have hrows : ∀ r ∈ rowsOf batch, r.Texts := by
        intro r hr
        obtain ⟨i, hi, hr⟩ := List.mem_flatMap.1 hr
        obtain ⟨_, -, hbatch, -⟩ := hanswered.mem (List.mem_of_getElem? hnext)
        exact htexts items hitems i (hbatch hi) r hr
      obtain ⟨hst, hgrows⟩ := killed_spec cfg.realText hinv.consistent
        (call.met ((s.trace cfg call items).2.take n)).nowUs hrows hkill
      exact hkilled _ hst (List.Subset.trans hinv.grows hgrows)
    · exact hkilled _ hinv.consistent hinv.grows

end NotifierInv

/-! ### A sample alert -/

/-- The fields of an alert that the notifier reads, name and value by turns. -/
def sampleAlert : Bytes :=
  (([["\x7b\"incident_id\":", "\"a68c9b1d-4798-5179-bf94-1c29398ea747\","],
    ["\"update_id\":", "\"a7979427-75d8-54c8-9275-5db2c3c79594\","],
    ["\"status\":", "\"new\","], ["\"severity\":", "\"high\","],
    ["\"timestamp\":", "\"2026-09-01T10:00:30.700000Z\","],
    ["\"entity\":", "\x7b\"type\":", "\"dst_host\",", "\"key\":", "\"10.10.1.40\"\x7d,"],
    ["\"threat_class\":", "\"ddos\","], ["\"subtype\":", "\"syn_flood\","],
    ["\"explanation\":", "\"SYN flood\"\x7d"]] : List (List String)).flatten.flatMap pyStr).map
      UInt8.ofNat

def sampleUpdate : String := "a7979427-75d8-54c8-9275-5db2c3c79594"

/-- The fields of its notification. -/
def sampleFields : List String :=
  [sampleUpdate, "a68c9b1d-4798-5179-bf94-1c29398ea747", "new", "high", "ddos", "dst_host=10.10.1.40",
    "[HIGH] ddos/syn_flood dst_host=10.10.1.40: SYN flood", "2026-09-01T10:00:30.700000Z"]

def sampleNotifier : NotifierConfig := ⟨sampleRuntime, 2, fun _ => none⟩

theorem sample_texts : (notifyRows sampleRuntime 2 sampleAlert).toOption.map
    (fun rows => rows.map fun r => r.fields.map Json.text) = some [sampleFields.map pyStr] := by
  decide +kernel

/-- The alert passes the filter, and its notification holds texts. -/
theorem sample_notifies : ∃ r, notifyRows sampleRuntime 2 sampleAlert = .ok [r] ∧ r.Texts := by
  have h := sample_texts
  cases hrows : notifyRows sampleRuntime 2 sampleAlert with
  | error e => rw [hrows] at h; cases h
  | ok rows =>
    rw [hrows] at h
    obtain ⟨r, rfl, hr⟩ : ∃ r, rows = [r] ∧ r.fields.map Json.text = sampleFields.map pyStr := by
      simpa [Except.toOption, List.map_eq_cons_iff] using h
    refine ⟨r, rfl, fun v hv => ?_⟩
    obtain ⟨s, hs, heq⟩ := List.mem_map.1 (hr ▸ List.mem_map_of_mem (f := Json.text) hv)
    have hne : ∀ s ∈ sampleFields, pyStr s ≠ [] := by decide
    refine ⟨s, ?_⟩
    cases v with
    | str x => exact congrArg _ heq.symm
    | _ => exact absurd heq (hne s hs)

/-- The alert arrives; its writes meet `met`. -/
def sampleCall (met : Trace Notification → Circumstances) : BatchCall where
  msgs := [⟨false, "alerts.v1", 0, 0, some sampleAlert⟩]
  world := ⟨fun _ => false, fun _ _ => none, fun _ _ => none, fun _ => [], fun _ _ => .rows [],
    fun _ => none⟩
  met := met
  fuel := 2

/-- What a run of batches leaves: the settled updates, and the rows and lines of the sample's. -/
def afterBatches (calls : List BatchCall) : Option (List PyStr × Nat × Nat) :=
  ((notifier sampleNotifier).runMeeting (fun _ _ => True) (notifier sampleNotifier).init
    (calls.map .batch)).map fun s =>
      (s.settled.map (·.updateId.text), s.store.rowsFor sampleUpdate, s.store.linesFor sampleUpdate)

def calm : Trace Notification → Circumstances := fun _ => ⟨1788256830000000, none⟩

/-- The disk is full when the first call of `write` appends to the export. -/
def diskFull : Trace Notification → Circumstances := fun t =>
  ⟨1788256830000000, if t.length ≤ 1 then some (.append 0 "No space left on device") else none⟩

/-- **Each notification is recorded exactly once**, in every run in which no export fails or is cut off
after its commit and every column is a text: an update never has two rows or two lines, and from the
first `True` of `durable_write` for its batch on it has one of each. -/
theorem notified_once {cfg : NotifierConfig} {s : NotifierSys}
    (h : (notifier cfg).Reach (Exports cfg) s) : s.Once :=
  (h.invariant (I := NotifierInv) ⟨consistent_init, List.forall_mem_nil _⟩ fun _ _ _ hi hC hs => hi.step hC hs).once

theorem sampleCall_clean (s : NotifierSys) :
    Exports sampleNotifier s (.batch (sampleCall calm)) := by
  refine ⟨nofun, ?_⟩
  obtain ⟨r, hr, htexts⟩ := sample_notifies
  intro items hitems i hi x hx
  have hone := itemsOf_single (m := ⟨false, "alerts.v1", 0, 0, some sampleAlert⟩) rfl hr
  obtain rfl := Option.some.inj (hone.symm.trans hitems)
  obtain rfl := List.mem_singleton.1 hi
  exact List.mem_singleton.1 hx ▸ htexts

/-- An alert that is delivered twice. -/
theorem notified_once_sample : ∃ s : NotifierSys, s.settled.length = 2 ∧ s.Once := by
  have h : afterBatches [sampleCall calm, sampleCall calm] =
      some ([pyStr sampleUpdate, pyStr sampleUpdate], 1, 1) := by decide +kernel
  obtain ⟨s, hs, heq⟩ := Option.map_eq_some_iff.1 h
  have hlength : s.settled.length = 2 := by
    simpa using congrArg List.length (Prod.mk.inj heq).1
  obtain ⟨s₁, h₁, h₂⟩ : ∃ s₁, (notifier sampleNotifier).step (notifier sampleNotifier).init
      (.batch (sampleCall calm)) = some s₁ ∧
      (notifier sampleNotifier).step s₁ (.batch (sampleCall calm)) = some s := by
    simpa [Machine.runMeeting, Option.bind_eq_some_iff] using hs
  exact ⟨s, hlength, notified_once ((Machine.Reach.init.step (sampleCall_clean _) h₁).step
    (sampleCall_clean _) h₂)⟩

/-- **An export that fails after its commit is not made up for**: the retry finds the row in the table,
writes nothing and succeeds. -/
theorem notified_not_exported : ∃ s, (notifier sampleNotifier).Reach (fun _ _ => True) s ∧
    s.settled.map (·.updateId.text) = [pyStr sampleUpdate] ∧ s.store.rowsFor sampleUpdate = 1 ∧
    s.store.linesFor sampleUpdate = 0 ∧ ¬ s.Once := by
  have h : afterBatches [sampleCall diskFull] = some ([pyStr sampleUpdate], 1, 0) := by
    decide +kernel
  obtain ⟨s, hs, heq⟩ := Option.map_eq_some_iff.1 h
  obtain ⟨hsettled, hrest⟩ := Prod.mk.inj heq
  obtain ⟨hrows, hlines⟩ := Prod.mk.inj hrest
  refine ⟨s, Machine.reach_of_run _ hs, hsettled, hrows, hlines, fun honce => ?_⟩
  obtain ⟨r, hr, hu⟩ := List.mem_map.1 (hsettled.symm ▸ List.mem_singleton.2 rfl :
    pyStr sampleUpdate ∈ s.settled.map (·.updateId.text))
  obtain ⟨u, hru, -, hone⟩ := honce.settled r hr
  rw [hru] at hu
  rw [pyStr_inj hu, hlines] at hone
  exact absurd hone (by decide)

end OTS.Consumers
