import Mathlib.Data.List.Infix
import OTSecurity.Consumers.Group
import OTSecurity.Consumers.Transforms
import OTSecurity.Lib.Versioned

/-!
# The OpenSearch sink

Model of `OpenSearchSink` of `consumers/sih_consumers/opensearch_sink.py` in its consumer group.

* `alertRows` — `transform`; `AlertRow.actions`, `quarantineAction` — the actions of a bulk request.
* `Server` — OpenSearch, any function of the requests; `Server.Documented` — what its documentation says of the
  items of a bulk request whose ids are texts and whose versions are counts.
* `bulk`, `ensure`, `searchWrite`, `searchQuarantine` — the calls; a request may be refused or cut off, with any of
  its actions done, or be answered.
* `opensearch` — the sink, for `group`.
* `documentStore` — a server that is as documented.

Principal results, for alerts with text ids that are numbered: `alerts_indexed` — every alert below the committed
offset is in the indices or in quarantine, nothing is made up, and no incident goes back to an older update;
`incidents_converge` — two runs over the same topic end with the same documents.
-/

namespace OTS.Consumers

/-! ## Rows and actions -/

inductive Index where
  | alerts
  | incidents
  | quarantine
  deriving DecidableEq, Repr

/-- `ALERTS`, `INCIDENTS`, `QUARANTINE`. -/
def Index.name : Index → String
  | .alerts => "sih-alerts-v1"
  | .incidents => "sih-incidents-v1"
  | .quarantine => "sih-quarantine-v1"

/-- An alert, with the members that `write` reads. -/
structure AlertRow where
  alert : Json
  updateId : Json
  incidentId : Json
  updateSeq : Json
  timestamp : Json

/-- The body of the `try` of `transform`. -/
def alertBody (rt : Runtime) (payload : Bytes) : Py (List AlertRow) := do
  let a ← Json.loadsBytes rt.recursionLimit payload
  let updateId ← a.item "update_id"
  let incidentId ← a.item "incident_id"
  let updateSeq ← a.item "update_seq"
  let timestamp ← a.item "timestamp"
  return [⟨a, updateId, incidentId, updateSeq, timestamp⟩]

/-- `OpenSearchSink.transform`. -/
def alertRows (rt : Runtime) (payload : Bytes) : Transform (List AlertRow) :=
  poisonOn [.valueError, .keyError, .typeError] (alertBody rt payload)

/-- `{**a, "@timestamp": a["timestamp"]}`. -/
def AlertRow.doc (a : AlertRow) : Json := a.alert.setKey "@timestamp" a.timestamp

/-- An `index` action, with its version under `external_gte`, and its source. -/
structure Action where
  index : Index
  id : Json
  version : Option Json
  source : Json

def AlertRow.actions (a : AlertRow) : List Action :=
  [⟨.alerts, a.updateId, none, a.doc⟩, ⟨.incidents, a.incidentId, some a.updateSeq, a.doc⟩]

/-- `f"{t}-{p}-{o}"`. -/
def quarantineId (topic : String) (partition offset : Int) : PyStr :=
  pyStr topic ++ pyStr "-" ++ intText partition ++ pyStr "-" ++ intText offset

def quarantineAction (e : QuarantineEntry) : Action where
  index := .quarantine
  id := .str (quarantineId e.1 e.2.1 e.2.2.1)
  version := none
  source := .obj [
    (pyStr "topic", .str (pyStr e.1)),
    (pyStr "partition", .int e.2.1),
    (pyStr "offset", .int e.2.2.1),
    (pyStr "reason", .str (pyStr e.2.2.2.1)),
    (pyStr "payload", .str (decodeReplace (e.2.2.2.2.take 65536)))]

/-! ## The server -/

/-- The documents of the indices, each with the version that it was written with, 0 when it was written without. -/
abbrev Documents := Versioned (Index × PyStr) Json

/-- The update that an action asks for, when its id is a text and its version, if it has one, is a count. -/
def Action.update (a : Action) : Option (Update (Index × PyStr) Json) :=
  match a.id, a.version with
  | .str id, none => if Encodable id then some ⟨(a.index, id), 0, a.source⟩ else none
  | .str id, some (.int v) => if Encodable id ∧ 0 ≤ v then some ⟨(a.index, id), v.toNat, a.source⟩ else none
  | _, _ => none

/-- The answer to a bulk request: `errors`, the statuses of its items, and what the server keeps then. -/
structure BulkResult (σ : Type) where
  errors : Bool
  statuses : List Nat
  kept : σ

/-- OpenSearch: what it makes of a bulk request that it answers, and what one leaves that it refuses or that is cut
off.  A `ω` is all else that an answer depends on. -/
structure Server (ω σ : Type) where
  documents : σ → Documents
  bulk : ω → List Action → σ → BulkResult σ
  cutOff : ω → List Action → σ → σ

/-- What the status of an item says. -/
def resultOf (status : Nat) : Versioned.Result :=
  if status = 409 then .refused else if 400 ≤ status then .failed else .done

/-- **What is documented of a bulk request**: its items are worked off in order, and one is stored, unless the document
that is there has a greater version, or the item fails.  `errors` says whether a status is one of an error.  Of a
request that is not answered, any items may have been worked off. -/
structure Server.Documented {ω σ : Type} (sv : Server ω σ) : Prop where
  items : ∀ w actions x, (∀ a ∈ actions, a.update.isSome) →
    Versioned.Performed (sv.documents x) (actions.filterMap Action.update) ((sv.bulk w actions x).statuses.map resultOf)
      (sv.documents (sv.bulk w actions x).kept)
  errors : ∀ w actions x, (sv.bulk w actions x).errors = (sv.bulk w actions x).statuses.any (400 ≤ ·)
  cutOff : ∀ w actions x, (∀ a ∈ actions, a.update.isSome) → ∃ us rs, us.Sublist (actions.filterMap Action.update) ∧
    Versioned.Performed (sv.documents x) us rs (sv.documents (sv.cutOff w actions x))

/-! ## Calls -/

/-- How a request ends: an exception in the client, refused as a whole, or answered. -/
inductive BulkAnswer where
  | raised (e : Exc)
  | refused (status : Nat) (h : 400 ≤ status) (text : String)
  | answered

/-- The answers to `HEAD` and to `PUT`, with the text of the latter. -/
structure IndexAnswer where
  head : Nat
  put : Nat
  text : String

/-- What a call meets; `itemText` is the JSON text of an item of the answer. -/
structure SearchMet (ω : Type) where
  index : Index → Except Exc IndexAnswer
  server : ω
  answer : BulkAnswer
  itemText : Nat → String

structure SearchState (σ : Type) where
  ready : Bool
  kept : σ

/-- `RuntimeError`, which is no permanent one. -/
def runtimeError (message : String) : Exc := ⟨.other, message⟩

def permanentWriteError (message : String) : Exc := ⟨.permanentWriteError, message⟩

section Calls

variable {ω σ : Type} (sv : Server ω σ) (met : SearchMet ω)

/-- The check of an index in `_ensure`. -/
def ensureIndex (ix : Index) : Option Exc :=
  match met.index ix with
  | .error e => some e
  | .ok r =>
    if r.head = 404 ∧ 400 ≤ r.put ∧ ¬ "resource_already_exists".toList <:+: r.text.toList then
      some (runtimeError ("index creation failed: " ++ toString r.put ++ " " ++ brief r.text))
    else none

/-- `_ensure`: the exception it raises, if any. -/
def ensure (ready : Bool) : Option Exc :=
  if ready then none else [Index.alerts, .incidents, .quarantine].findSome? (ensureIndex met)

/-- The loop over the items of an answer. -/
def checkItems : List (Nat × String) → Option Exc
  | [] => none
  | (st, text) :: items =>
    -- An equal or newer incident version is already indexed.
    if st = 409 then checkItems items
    else if 500 ≤ st ∨ st = 429 then some (runtimeError ("opensearch item status " ++ toString st))
    else if 400 ≤ st then some (permanentWriteError ("document rejected: " ++ brief text))
    else checkItems items

/-- `_bulk`. -/
def bulk (actions : List Action) (x : σ) : Option Exc × σ :=
  match met.answer with
  | .raised e => (some e, sv.cutOff met.server actions x)
  | .refused st _ text =>
    (some (if 500 ≤ st ∨ st = 429 then runtimeError ("opensearch unavailable: " ++ toString st)
      else permanentWriteError ("bulk rejected: " ++ toString st ++ " " ++ brief text)),
      sv.cutOff met.server actions x)
  | .answered =>
    let res := sv.bulk met.server actions x
    (if res.errors then checkItems (res.statuses.zipIdx.map fun p => (p.1, met.itemText p.2)) else none, res.kept)

/-- A call that sends the actions. -/
def send (actions : List Action) (st : SearchState σ) : Option Exc × SearchState σ :=
  match ensure met st.ready with
  | some e => (some e, st)
  | none => ((bulk sv met actions st.kept).1, ⟨true, (bulk sv met actions st.kept).2⟩)

/-- `OpenSearchSink.write`. -/
def searchWrite (rows : List AlertRow) (st : SearchState σ) : Option Exc × SearchState σ :=
  send sv met (rows.flatMap AlertRow.actions) st

/-- `OpenSearchSink.quarantine`. -/
def searchQuarantine (items : List QuarantineEntry) (st : SearchState σ) : Option Exc × SearchState σ :=
  send sv met (items.map quarantineAction) st

/-- The kind of an exception that a transform lets through. -/
def excKind : PyExc → ExcKind
  | .valueError => .valueError
  | .typeError => .typeError
  | _ => .other

/-- The sink; `describe` gives the text of the exception that a payload raises. -/
def opensearch (rt : Runtime) (describe : Bytes → String) : Sink AlertRow (SearchState σ) (SearchMet ω) where
  start st := { st with ready := false }
  transform payload :=
    match alertRows rt payload with
    | .ok rows => .rows rows
    | .error .poison => .poison ("unparseable alert: " ++ describe payload)
    | .error (.raises e) => .raises ⟨excKind e, describe payload⟩
  write := searchWrite sv
  quarantine := searchQuarantine sv

end Calls

/-! ## What a request does -/

section Requests

variable {ω σ : Type} {sv : Server ω σ} {offered tried : Update (Index × PyStr) Json → Prop} {actions : List Action}

theorem resultOf_failed {status : Nat} : resultOf status = .failed ↔ 400 ≤ status ∧ status ≠ 409 := by
  unfold resultOf
  split_ifs with hconflict herror
  · exact iff_of_false (by simp) fun h => h.2 hconflict
  · exact iff_of_true rfl ⟨herror, hconflict⟩
  · exact iff_of_false (by simp) fun h => herror h.1

theorem checkItems_none {items : List (Nat × String)} :
    checkItems items = none ↔ ∀ p ∈ items, resultOf p.1 ≠ .failed := by
  induction items with
  | nil => exact iff_of_true rfl fun p hp => absurd hp List.not_mem_nil
  | cons p items ih =>
    obtain ⟨st, text⟩ := p
    rw [List.forall_mem_cons, checkItems, ne_eq, resultOf_failed]
    split
    · rename_i hconflict
      rw [ih, and_iff_right fun h => h.2 hconflict]
    · rename_i hconflict
      split
      · rename_i hserver
        exact iff_of_false (by simp) fun h => h.1 ⟨by omega, hconflict⟩
      · split
        · rename_i herror
          exact iff_of_false (by simp) fun h => h.1 ⟨herror, hconflict⟩
        · rename_i hok
          rw [ih, and_iff_right fun h => hok h.1]

/-- A call that returns has had no item fail. -/
theorem none_failed (hsv : sv.Documented) {w : ω} {x : σ} {text : Nat → String}
    (h : (if (sv.bulk w actions x).errors then
      checkItems ((sv.bulk w actions x).statuses.zipIdx.map fun p => (p.1, text p.2)) else none) = none) :
    .failed ∉ (sv.bulk w actions x).statuses.map resultOf := by
  intro hfailed
  obtain ⟨status, hstatus, hresult⟩ := List.mem_map.1 hfailed
  rw [hsv.errors] at h
  split at h
  · obtain ⟨i, hi⟩ := List.getElem?_of_mem hstatus
    exact checkItems_none.1 h (status, text i)
      (List.mem_map.2 ⟨(status, i), List.mem_zipIdx_iff_getElem?.2 hi, rfl⟩) hresult
  · rename_i hnoErrors
    exact hnoErrors (List.any_eq_true.2 ⟨status, hstatus, decide_eq_true (resultOf_failed.1 hresult).1⟩)

/-- What was tried before, and what a request asks for. -/
abbrev Tried (tried : Update (Index × PyStr) Json → Prop) (actions : List Action)
    (u : Update (Index × PyStr) Json) : Prop := tried u ∨ u ∈ actions.filterMap Action.update

/-- **What a request does**: only what it asks for is stored, and all of it when the call returns. -/
theorem bulk_spec (hsv : sv.Documented) (met : SearchMet ω) {x : σ} (h : (sv.documents x).Accounts offered tried)
    (hnamed : ∀ a ∈ actions, a.update.isSome) (hoffered : ∀ u ∈ actions.filterMap Action.update, offered u) :
    (sv.documents (bulk sv met actions x).2).Accounts offered tried ∧
      ((bulk sv met actions x).1 = none →
        (sv.documents (bulk sv met actions x).2).Accounts offered (Tried tried actions)) := by
  have hcut : (sv.documents (sv.cutOff met.server actions x)).Accounts offered tried := by
    obtain ⟨us, rs, hsub, hperformed⟩ := hsv.cutOff met.server actions x hnamed
    exact (hperformed.accounts h fun u hu => hoffered u (hsub.subset hu)).1
  unfold bulk
  split
  · exact ⟨hcut, fun hnone => by cases hnone⟩
  · exact ⟨hcut, fun hnone => by cases hnone⟩
  · obtain ⟨hkept, hdone⟩ := (hsv.items met.server actions x hnamed).accounts h hoffered
    exact ⟨hkept, fun hnone => hdone (none_failed hsv hnone)⟩

theorem bulk_le (hsv : sv.Documented) (met : SearchMet ω) {x : σ} (hnamed : ∀ a ∈ actions, a.update.isSome)
    {k : Index × PyStr} {v : Nat} (h : (sv.documents x).AtLeast k v) :
    (sv.documents (bulk sv met actions x).2).AtLeast k v := by
  have hcut : (sv.documents (sv.cutOff met.server actions x)).AtLeast k v := by
    obtain ⟨us, rs, -, hperformed⟩ := hsv.cutOff met.server actions x hnamed
    exact hperformed.le h
  unfold bulk
  split
  · exact hcut
  · exact hcut
  · exact (hsv.items met.server actions x hnamed).le h

theorem send_spec (hsv : sv.Documented) (met : SearchMet ω) {st : SearchState σ}
    (h : (sv.documents st.kept).Accounts offered tried) (hnamed : ∀ a ∈ actions, a.update.isSome)
    (hoffered : ∀ u ∈ actions.filterMap Action.update, offered u) :
    (sv.documents (send sv met actions st).2.kept).Accounts offered tried ∧
      ((send sv met actions st).1 = none →
        (sv.documents (send sv met actions st).2.kept).Accounts offered (Tried tried actions)) := by
  unfold send
  split
  · exact ⟨h, fun hnone => by cases hnone⟩
  · exact bulk_spec hsv met h hnamed hoffered

theorem send_le (hsv : sv.Documented) (met : SearchMet ω) {st : SearchState σ}
    (hnamed : ∀ a ∈ actions, a.update.isSome) {k : Index × PyStr} {v : Nat}
    (h : (sv.documents st.kept).AtLeast k v) : (sv.documents (send sv met actions st).2.kept).AtLeast k v := by
  unfold send
  split
  · exact h
  · exact bulk_le hsv met hnamed h

end Requests

/-! ## Every run -/

/-- The ids of an alert are texts, and its number is a count. -/
structure AlertRow.Names (a : AlertRow) (update incident : PyStr) (seq : Nat) : Prop where
  updateId : a.updateId = .str update
  incidentId : a.incidentId = .str incident
  updateSeq : a.updateSeq = .int seq
  encodable : Encodable update ∧ Encodable incident

def AlertRow.Named (a : AlertRow) : Prop := ∃ update incident seq, a.Names update incident seq

/-- An alert is told by a record of the topic. -/
def Told (rt : Runtime) (records : Topic) (a : AlertRow) : Prop :=
  ∃ (p : Int) (o : Nat) (value : Option Bytes), (records p)[o]? = some value ∧
    alertRows rt (value.getD []) = .ok [a]

/-- **The condition on a step**: an alert that is produced has text ids and is numbered. -/
def NamedAlerts {σ φ : Type} (rt : Runtime) (_ : GroupSys AlertRow σ) : GroupOp AlertRow φ → Prop
  | .produce _ value => ∀ a, alertRows rt (value.getD []) = .ok [a] → a.Named
  | .process _ => True

/-- The actions of a call. -/
def actionsOf : Event AlertRow → List Action
  | .write batch _ => (rowsOf batch).flatMap AlertRow.actions
  | .quarantine poison _ => (poison.map quarantineEntry).map quarantineAction
  | _ => []

/-- What a call asks for. -/
def Asked (u : Update (Index × PyStr) Json) (e : Event AlertRow) : Prop :=
  u ∈ (actionsOf e).filterMap Action.update

/-- A call that returned. -/
def Returned : Event AlertRow → Prop
  | .write _ exc => exc = none
  | .quarantine _ exc => exc = none
  | _ => False

section Names

variable {a : AlertRow} {update incident : PyStr} {seq : Nat} {u : Update (Index × PyStr) Json}

theorem AlertRow.Names.updates (h : a.Names update incident seq) : a.actions.map Action.update =
    [some ⟨(.alerts, update), 0, a.doc⟩, some ⟨(.incidents, incident), seq, a.doc⟩] := by
  obtain ⟨hupdate, hincident, hseq, henc, henc'⟩ := h
  unfold AlertRow.actions
  rw [hupdate, hincident, hseq, List.map_cons, List.map_singleton]
  have hfirst : (⟨.alerts, .str update, none, a.doc⟩ : Action).update = some ⟨(.alerts, update), 0, a.doc⟩ :=
    if_pos henc
  have hsecond : (⟨.incidents, .str incident, some (.int seq), a.doc⟩ : Action).update =
      some ⟨(.incidents, incident), seq, a.doc⟩ := if_pos ⟨henc', Int.natCast_nonneg seq⟩
  rw [hfirst, hsecond]

theorem AlertRow.Named.isSome (h : a.Named) : ∀ action ∈ a.actions, action.update.isSome := by
  obtain ⟨update, incident, seq, h⟩ := h
  intro action haction
  have hmem := List.mem_map_of_mem (f := Action.update) haction
  rw [h.updates] at hmem
  rcases List.mem_cons.1 hmem with heq | hmem
  · exact heq ▸ rfl
  · exact List.mem_singleton.1 hmem ▸ rfl

/-- The updates of an alert: that of its own document, and that of its incident. -/
theorem AlertRow.Names.mem_updates (h : a.Names update incident seq) : u ∈ a.actions.filterMap Action.update ↔
    u = ⟨(.alerts, update), 0, a.doc⟩ ∨ u = ⟨(.incidents, incident), seq, a.doc⟩ := by
  rw [List.mem_filterMap, ← List.mem_map, h.updates, List.mem_cons, List.mem_singleton, Option.some_inj,
    Option.some_inj]

theorem quarantineAction_update (e : QuarantineEntry) : (quarantineAction e).update =
    some ⟨(.quarantine, quarantineId e.1 e.2.1 e.2.2.1), 0, (quarantineAction e).source⟩ := by
  refine if_pos ?_
  unfold quarantineId
  simp only [encodable_append, pyStr_encodable, intText_encodable, and_true]

end Names

section Runs

variable {ω σ : Type} {rt : Runtime} {sv : Server ω σ} {describe : Bytes → String} {topic : String} {init : σ}

/-- What the calls so far asked for accounts for the documents. -/
def SearchInv (sv : Server ω σ) (events : Trace AlertRow) (st : SearchState σ) : Prop :=
  (sv.documents st.kept).Accounts (fun u => ∃ e ∈ events, Asked u e) fun u => ∃ e ∈ events, Returned e ∧ Asked u e

theorem SearchInv.quiet {events : Trace AlertRow} {st : SearchState σ} (h : SearchInv sv events st)
    {e : Event AlertRow} (he : ¬ Returned e) : SearchInv sv (events ++ [e]) st := by
  refine ⟨fun k x hx => ?_, fun u hu => ?_⟩
  · obtain ⟨e', he', hu⟩ := h.source k x hx
    exact ⟨e', List.mem_append_left _ he', hu⟩
  · obtain ⟨e', he', hret, hask⟩ := hu
    rcases List.mem_append.1 he' with he' | he'
    · exact h.current u ⟨e', he', hret, hask⟩
    · exact absurd (List.mem_singleton.1 he' ▸ hret) he

theorem SearchInv.send (hsv : sv.Documented) {events : Trace AlertRow} {st : SearchState σ}
    (h : SearchInv sv events st) (met : SearchMet ω) {e : Event AlertRow}
    (hnamed : ∀ a ∈ actionsOf e, a.update.isSome)
    (hreturned : Returned e → (send sv met (actionsOf e) st).1 = none) :
    SearchInv sv (events ++ [e]) (send sv met (actionsOf e) st).2 := by
  have hmore : (sv.documents st.kept).Accounts (fun u => ∃ e' ∈ events ++ [e], Asked u e')
      fun u => ∃ e ∈ events, Returned e ∧ Asked u e := by
    refine ⟨fun k x hx => ?_, h.current⟩
    obtain ⟨e', he', hu⟩ := h.source k x hx
    exact ⟨e', List.mem_append_left _ he', hu⟩
  obtain ⟨hkept, hdone⟩ := send_spec hsv met hmore hnamed fun u hu =>
    ⟨e, List.mem_append_right _ List.mem_cons_self, hu⟩
  refine ⟨hkept.source, fun u hu => ?_⟩
  obtain ⟨e', he', hret, hask⟩ := hu
  rcases List.mem_append.1 he' with he' | he'
  · exact hkept.current u ⟨e', he', hret, hask⟩
  · obtain rfl := List.mem_singleton.1 he'
    exact (hdone (hreturned hret)).current u (.inr hask)

theorem alertRows_single {payload : Bytes} {rows : List AlertRow} (h : alertRows rt payload = .ok rows) :
    ∃ a, rows = [a] := by
  unfold alertRows poisonOn at h
  cases hbody : alertBody rt payload with
  | error e =>
    rw [hbody] at h
    cases h
  | ok rows' =>
    rw [hbody] at h
    cases h
    obtain ⟨v, -, hbody⟩ := Py.bind_eq_ok.1 hbody
    obtain ⟨updateId, -, hbody⟩ := Py.bind_eq_ok.1 hbody
    obtain ⟨incidentId, -, hbody⟩ := Py.bind_eq_ok.1 hbody
    obtain ⟨updateSeq, -, hbody⟩ := Py.bind_eq_ok.1 hbody
    obtain ⟨timestamp, -, hbody⟩ := Py.bind_eq_ok.1 hbody
    exact ⟨_, (Except.ok.inj hbody).symm⟩

theorem transform_rows {payload : Bytes} {rows : List AlertRow}
    (h : (opensearch sv rt describe).transform payload = .rows rows) :
    ∃ a, rows = [a] ∧ alertRows rt payload = .ok [a] := by
  cases hrows : alertRows rt payload with
  | ok rows' =>
    simp only [opensearch, hrows] at h
    cases h
    obtain ⟨a, rfl⟩ := alertRows_single hrows
    exact ⟨a, rfl, rfl⟩
  | error f =>
    simp only [opensearch, hrows] at h
    cases f <;> cases h

/-- What an item of the topic tells. -/
theorem told_of_row {records : Topic} {i : Item AlertRow} {a : AlertRow}
    (h : (opensearch sv rt describe).Of topic records i) (ha : a ∈ i.rows) : Told rt records a := by
  obtain ⟨m, rows, rfl, ⟨p, o, value, hvalue, rfl⟩, hrows⟩ := h
  rcases hrows with rfl | hrows
  · exact absurd ha List.not_mem_nil
  · obtain ⟨b, rfl, hb⟩ := transform_rows hrows
    rw [List.mem_singleton.1 (show a ∈ [b] from ha)]
    exact ⟨p, o, value, hvalue, hb⟩

/-- The rows of a write are alerts of the topic. -/
theorem told_of_write {records : Topic} {batch : List (Item AlertRow)} {exc : Option Exc} {a : AlertRow}
    (h : (opensearch sv rt describe).Sourced topic records (.write batch exc)) (ha : a ∈ rowsOf batch) :
    Told rt records a := by
  obtain ⟨i, hi, ha⟩ := List.mem_flatMap.1 ha
  exact told_of_row (h i hi) ha

/-- When the alerts of the topic have text ids, so have the actions of a call. -/
theorem named_of_sourced {records : Topic} (hnamed : ∀ a, Told rt records a → a.Named) {e : Event AlertRow}
    (h : (opensearch sv rt describe).Sourced topic records e) : ∀ a ∈ actionsOf e, a.update.isSome := by
  intro action haction
  cases e with
  | write batch exc =>
    obtain ⟨a, ha, hmem⟩ := List.mem_flatMap.1 haction
    exact (hnamed a (told_of_write h ha)).isSome action hmem
  | quarantine poison exc =>
    obtain ⟨entry, -, rfl⟩ := List.mem_map.1 haction
    rw [quarantineAction_update]
    rfl
  | _ => exact absurd haction List.not_mem_nil

/-- An alert of the topic after one more record was told before, or is that of the record. -/
theorem told_produce {records : Topic} {p : Int} {value : Option Bytes} {a : AlertRow}
    (h : Told rt (Function.update records p (records p ++ [value])) a) :
    Told rt records a ∨ alertRows rt (value.getD []) = .ok [a] := by
  obtain ⟨q, o, v, hv, ha⟩ := h
  by_cases hq : q = p
  · subst hq
    rw [Function.update_self] at hv
    rcases Nat.lt_or_ge o (records q).length with hlt | hge
    · rw [List.getElem?_append_left hlt] at hv
      exact .inl ⟨q, o, v, hv, ha⟩
    · rw [List.getElem?_append_right hge] at hv
      rw [List.mem_singleton.1 (List.mem_of_getElem? hv)] at ha
      exact .inr ha
  · rw [Function.update_of_ne hq] at hv
    exact .inl ⟨q, o, v, hv, ha⟩

/-- **What holds in every run** over alerts with text ids. -/
theorem searchInv_reach (hsv : sv.Documented) (hinit : ∀ k, sv.documents init k = none)
    {s : GroupSys AlertRow (SearchState σ)}
    (h : (group (opensearch sv rt describe) topic ⟨false, init⟩).Reach (NamedAlerts rt) s) :
    (∀ a, Told rt s.records a → a.Named) ∧ SearchInv sv s.events s.kept := by
  refine sink_invariant (R := fun records => ∀ a, Told rt records a → a.Named) (J := SearchInv sv) ?_ ?_ ?_
    (fun _ _ h => h) ?_ h
  · rintro a ⟨p, o, value, hvalue, -⟩
    cases hvalue
  · intro s p value hproduced hnamed a ha
    rcases told_produce ha with ha | ha
    · exact hnamed a ha
    · exact hproduced a ha
  · refine ⟨fun k x hx => ?_, fun u hu => ?_⟩
    · rw [hinit] at hx
      cases hx
    · obtain ⟨e, he, -⟩ := hu
      exact absurd he List.not_mem_nil
  · intro records es met st e hnamed hsourced hst hanswers
    have hactions := named_of_sourced hnamed hsourced
    cases e with
    | write batch exc => exact hst.send hsv met hactions fun hret => hanswers.symm.trans hret
    | quarantine poison exc => exact hst.send hsv met hactions fun hret => hanswers.symm.trans hret
    | _ => exact hst.quiet id

/-- An alert is in the indices: its own document is there, and that of its incident is no older. -/
def Indexed (x : Documents) (a : AlertRow) : Prop :=
  ∀ u ∈ a.actions.filterMap Action.update, x.AtLeast u.key u.version

/-- The alerts of a write that returned are in the indices. -/
theorem indexed_of_written {s : GroupSys AlertRow (SearchState σ)} (h : SearchInv sv s.events s.kept)
    {batch : List (Item AlertRow)} (hwrite : Event.write batch none ∈ s.events) {a : AlertRow}
    (ha : a ∈ rowsOf batch) : Indexed (sv.documents s.kept.kept) a := by
  intro u hu
  obtain ⟨action, haction, hupdate⟩ := List.mem_filterMap.1 hu
  exact h.current u ⟨_, hwrite, rfl,
    List.mem_filterMap.2 ⟨action, List.mem_flatMap.2 ⟨a, ha, haction⟩, hupdate⟩⟩

/-- What is sent to quarantine by a call that returned is there. -/
theorem quarantined_of {s : GroupSys AlertRow (SearchState σ)} (h : SearchInv sv s.events s.kept)
    {poison : List (Item AlertRow × String)} (hcall : Event.quarantine poison none ∈ s.events)
    {i : Item AlertRow} {reason : String} (hi : (i, reason) ∈ poison) :
    ∃ y, sv.documents s.kept.kept (.quarantine, quarantineId i.topic i.partition i.offset) = some y := by
  obtain ⟨y, hy, -⟩ := h.current _ ⟨_, hcall, rfl, List.mem_filterMap.2
    ⟨_, List.mem_map_of_mem (List.mem_map_of_mem hi), quarantineAction_update _⟩⟩
  exact ⟨y, hy⟩

/-- **Where a settled record is**: its alert is in the indices, or it is in quarantine. -/
theorem settled_search {s : GroupSys AlertRow (SearchState σ)} (h : SearchInv sv s.events s.kept)
    (hg : GroupInv (opensearch sv rt describe) topic s) {p : Int} {o : Nat} {value : Option Bytes}
    (hsettled : Settled s.events (recordOf topic p o value)) :
    (∃ y, sv.documents s.kept.kept (.quarantine, quarantineId topic p o) = some y) ∨
      ∃ a, alertRows rt (value.getD []) = .ok [a] ∧ Indexed (sv.documents s.kept.kept) a := by
  rcases hsettled with ⟨message, poison, -, hcall, hmem⟩ | ⟨rows, htransform, hrows⟩
  · have hthere := quarantined_of h hcall hmem
    exact .inl hthere
  · obtain ⟨a, rfl, ha⟩ := transform_rows (hg.sourced _ htransform).2.symm
    rcases hrows with hnil | ⟨batch, hwrite, hmem⟩ | ⟨poison, reason, hcall, hmem⟩
    · cases hnil
    · exact .inr ⟨a, ha, indexed_of_written h hwrite (List.mem_flatMap.2 ⟨_, hmem, List.mem_cons_self⟩)⟩
    · have hthere := quarantined_of h hcall hmem
      exact .inl hthere

/-- Where a document of an index of alerts is from. -/
theorem document_source {s : GroupSys AlertRow (SearchState σ)} (h : SearchInv sv s.events s.kept)
    (hg : GroupInv (opensearch sv rt describe) topic s) {ix : Index} {id : PyStr} {v : Nat} {doc : Json}
    (hx : sv.documents s.kept.kept (ix, id) = some (v, doc)) (hix : ix ≠ .quarantine) :
    ∃ a, Told rt s.records a ∧ ⟨(ix, id), v, doc⟩ ∈ a.actions.filterMap Action.update := by
  obtain ⟨e, he, hasked⟩ := h.source _ _ hx
  obtain ⟨action, haction, hu⟩ := List.mem_filterMap.1 hasked
  cases e with
  | write batch exc =>
    obtain ⟨a, ha, hmem⟩ := List.mem_flatMap.1 haction
    exact ⟨a, told_of_write (hg.sourced _ he) ha, List.mem_filterMap.2 ⟨action, hmem, hu⟩⟩
  | quarantine poison exc =>
    obtain ⟨entry, -, rfl⟩ := List.mem_map.1 haction
    rw [quarantineAction_update] at hu
    cases hu
    exact absurd rfl hix
  | _ => exact absurd haction List.not_mem_nil

/-- **No alert is lost, and none goes back.**  In every run of the group over alerts with text ids, with any failures
and with processes killed anywhere: the alert of each record below the committed offset is in the indices, unless the
record is in quarantine; each document is that of an alert of the topic, under its own id and version; and no step
takes a document back to an older version. -/
theorem alerts_indexed (rt : Runtime) (hsv : sv.Documented) (describe : Bytes → String) (topic : String)
    (hinit : ∀ k, sv.documents init k = none) {s : GroupSys AlertRow (SearchState σ)}
    (h : (group (opensearch sv rt describe) topic ⟨false, init⟩).Reach (NamedAlerts rt) s) :
    (∀ p o, o < s.committed p → ∃ value, (s.records p)[o]? = some value ∧
      ((∃ y, sv.documents s.kept.kept (.quarantine, quarantineId topic p o) = some y) ∨
        ∃ a update incident seq, alertRows rt (value.getD []) = .ok [a] ∧ a.Names update incident seq ∧
          (∃ y, sv.documents s.kept.kept (.alerts, update) = some y) ∧
          (sv.documents s.kept.kept).AtLeast (.incidents, incident) seq)) ∧
    (∀ id v doc, sv.documents s.kept.kept (.incidents, id) = some (v, doc) →
      ∃ a update, Told rt s.records a ∧ a.Names update id v ∧ doc = a.doc) ∧
    (∀ id v doc, sv.documents s.kept.kept (.alerts, id) = some (v, doc) →
      ∃ a incident seq, Told rt s.records a ∧ a.Names id incident seq ∧ doc = a.doc) ∧
    ∀ op s', s.step (opensearch sv rt describe) topic op = some s' → ∀ k v,
      (sv.documents s.kept.kept).AtLeast k v → (sv.documents s'.kept.kept).AtLeast k v := by
  obtain ⟨hnamed, hinv⟩ := searchInv_reach hsv hinit h
  have hg := groupInv_reach h
  refine ⟨fun p o ho => ?_, fun id v doc hx => ?_, fun id v doc hx => ?_, fun op s' hstep k v hle => ?_⟩
  · obtain ⟨value, hvalue, hsettled⟩ := hg.committed p o ho
    refine ⟨value, hvalue, (settled_search hinv hg hsettled).imp_right ?_⟩
    rintro ⟨a, ha, hindexed⟩
    obtain ⟨update, incident, seq, hnames⟩ := hnamed a ⟨p, o, value, hvalue, ha⟩
    obtain ⟨y, hy, -⟩ := hindexed _ (hnames.mem_updates.2 (.inl rfl))
    exact ⟨a, update, incident, seq, ha, hnames, ⟨y, hy⟩, hindexed _ (hnames.mem_updates.2 (.inr rfl))⟩
  · obtain ⟨a, htold, hu⟩ := document_source hinv hg hx (by decide)
    obtain ⟨update, incident, seq, hnames⟩ := hnamed a htold
    rcases hnames.mem_updates.1 hu with heq | heq
    · cases heq
    · cases heq
      exact ⟨a, update, htold, hnames, rfl⟩
  · obtain ⟨a, htold, hu⟩ := document_source hinv hg hx (by decide)
    obtain ⟨update, incident, seq, hnames⟩ := hnamed a htold
    rcases hnames.mem_updates.1 hu with heq | heq
    · cases heq
      exact ⟨a, incident, seq, htold, hnames, rfl⟩
    · cases heq
  · refine sink_keeps (Q := fun st => (sv.documents st.kept).AtLeast k v) (fun _ h => h) ?_ hstep hle
    intro met st e hsourced hst
    have hactions := named_of_sourced hnamed hsourced
    cases e with
    | write batch exc => exact send_le hsv met hactions hst
    | quarantine poison exc => exact send_le hsv met hactions hst
    | _ => exact hst

end Runs

/-! ## A server of versioned documents -/

/-- The circumstances of a request: which items fail, and how many are worked off of one that is cut off. -/
structure Circumstance where
  fails : Nat → Bool
  done : Nat

/-- One item: its status, and what it leaves. -/
def performOne (fails : Bool) (a : Action) (x : Documents) : Nat × Documents :=
  match fails, a.update with
  | true, _ => (503, x)
  | false, none => (400, x)
  | false, some u => if x.admits u then (200, x.put u) else (409, x)

/-- The items of a request, in order: their statuses, and what they leave. -/
def performAll (fails : Nat → Bool) : Nat → List Action → Documents → List Nat × Documents
  | _, [], x => ([], x)
  | i, a :: actions, x =>
    let item := performOne (fails i) a x
    let rest := performAll fails (i + 1) actions item.2
    (item.1 :: rest.1, rest.2)

def documentStore : Server Circumstance Documents where
  documents := id
  bulk w actions x :=
    ⟨(performAll w.fails 0 actions x).1.any (400 ≤ ·), (performAll w.fails 0 actions x).1,
      (performAll w.fails 0 actions x).2⟩
  cutOff w actions x := (performAll w.fails 0 (actions.take w.done) x).2

theorem performOne_eq {fails : Bool} {a : Action} {u : Update (Index × PyStr) Json} (h : a.update = some u)
    (x : Documents) : performOne fails a x =
      if fails then (503, x) else if x.admits u then (200, x.put u) else (409, x) := by
  unfold performOne
  rw [h]
  cases fails with
  | true => rfl
  | false => rfl

theorem performAll_performed (fails : Nat → Bool) : ∀ (i : Nat) (actions : List Action) (x : Documents),
    (∀ a ∈ actions, a.update.isSome) → Versioned.Performed x (actions.filterMap Action.update)
      ((performAll fails i actions x).1.map resultOf) (performAll fails i actions x).2
  | _, [], x, _ => .nil x
  | i, a :: actions, x, hnamed => by
    obtain ⟨ha, hactions⟩ := List.forall_mem_cons.1 hnamed
    obtain ⟨u, hu⟩ := Option.isSome_iff_exists.1 ha
    have hrest := fun y => performAll_performed fails (i + 1) actions y hactions
    rw [List.filterMap_cons_some hu]
    unfold performAll
    rw [performOne_eq hu]
    split_ifs with hfails hadmits
    · exact .failed (hrest x)
    · exact .done hadmits (hrest (x.put u))
    · exact .refused (Bool.eq_false_iff.2 hadmits) (hrest x)

/-- **The store is as documented.** -/
theorem documentStore_documented : documentStore.Documented where
  items w actions x hnamed := performAll_performed w.fails 0 actions x hnamed
  errors _ _ _ := rfl
  cutOff w actions x hnamed := ⟨_, _, (List.take_sublist w.done actions).filterMap Action.update,
    performAll_performed w.fails 0 _ x fun a ha => hnamed a (List.mem_of_mem_take ha)⟩

/-! ### Sample runs -/

def samplePayload : Bytes :=
  (["\x7b\"update_id\":\"u\",", "\"incident_id\":\"i\",", "\"update_seq\":1,", "\"timestamp\":\"t\"\x7d"].flatMap
    pyStr).map UInt8.ofNat

def sampleSearch : Sink AlertRow (SearchState Documents) (SearchMet Circumstance) :=
  opensearch documentStore sampleRuntime fun _ => ""

/-- A process that polls one record of partition 0, until it has committed.  Its requests are answered; when `cut`
holds, the first one breaks off after one action. -/
def sampleProcess (cut : Bool) : Process AlertRow (SearchMet Circumstance) where
  world := ⟨fun t => t.any fun e => e matches .commit _, fun _ _ => none, fun _ _ => none, fun _ => [],
    fun _ _ => .rows [], fun _ => none⟩
  fetch _ := [.record 0]
  met t := ⟨fun _ => .ok ⟨200, 0, ""⟩, ⟨fun _ => false, 1⟩,
    if cut && !(t.any fun e => e matches .write ..) then .raised ⟨.other, "timed out"⟩ else .answered, fun _ => ""⟩
  applied _ := false
  fuel := 4
  calls := 20

/-- One record, at offset 0 of partition 0. -/
def sampleTopic : Topic := Function.update (fun _ => []) 0 [some samplePayload]

/-- The alert is produced, and a process runs. -/
def sampleGroup (cut : Bool) : GroupSys AlertRow (SearchState Documents) :=
  GroupSys.ran sampleSearch "alerts.v1" ⟨sampleTopic, fun _ => 0, ⟨false, fun _ => none⟩, []⟩
    (sampleProcess cut)

/-- What `write` reads of an alert, when it has it. -/
def namesOf (a : AlertRow) : Option (PyStr × PyStr × Nat) :=
  match a.updateId, a.incidentId, a.updateSeq with
  | .str update, .str incident, .int seq =>
    if Encodable update ∧ Encodable incident ∧ 0 ≤ seq then some (update, incident, seq.toNat) else none
  | _, _, _ => none

theorem named_of_namesOf {a : AlertRow} (h : (namesOf a).isSome) : a.Named := by
  unfold namesOf at h
  split at h
  · rename_i update incident seq hupdate hincident hseq
    split at h
    · rename_i hok
      obtain ⟨henc, henc', hnonneg⟩ := hok
      exact ⟨update, incident, seq.toNat, hupdate, hincident, by rw [hseq, Int.toNat_of_nonneg hnonneg], henc, henc'⟩
    · cases h
  · cases h

theorem samplePayload_named {a : AlertRow} (h : alertRows sampleRuntime samplePayload = .ok [a]) : a.Named := by
  have hall : (alertRows sampleRuntime samplePayload).toOption.all (fun rows => rows.all fun a => (namesOf a).isSome) =
      true := by decide +kernel
  rw [h] at hall
  simp only [Except.toOption, Option.all_some, List.all_cons, List.all_nil, Bool.and_true] at hall
  exact named_of_namesOf hall

theorem sampleGroup_reach (cut : Bool) :
    (group sampleSearch "alerts.v1" ⟨false, fun _ => none⟩).Reach (NamedAlerts sampleRuntime) (sampleGroup cut) :=
  (Machine.Reach.init.step (a := .produce 0 (some samplePayload)) (fun _ h => samplePayload_named h) rfl).step
    (a := .process (sampleProcess cut)) trivial rfl

/-- The request is cut off after its first action, and is repeated. -/
theorem alerts_indexed_sample : (sampleGroup true).committed 0 = 1 ∧
    ∃ value, ((sampleGroup true).records 0)[0]? = some value ∧
      ((∃ y, documentStore.documents (sampleGroup true).kept.kept
          (.quarantine, quarantineId "alerts.v1" 0 (0 : Nat)) = some y) ∨
        ∃ a update incident seq, alertRows sampleRuntime (value.getD []) = .ok [a] ∧ a.Names update incident seq ∧
          (∃ y, documentStore.documents (sampleGroup true).kept.kept (.alerts, update) = some y) ∧
          (documentStore.documents (sampleGroup true).kept.kept).AtLeast (.incidents, incident) seq) := by
  have hcommitted : (sampleGroup true).committed 0 = 1 := by decide +kernel
  have hreach := sampleGroup_reach true
  -- the run is named, so that nothing below computes it
  generalize sampleGroup true = s at hcommitted hreach ⊢
  exact ⟨hcommitted, (alerts_indexed sampleRuntime documentStore_documented (fun _ => "") "alerts.v1" (fun _ => rfl)
    hreach).1 0 0 (hcommitted ▸ Nat.one_pos)⟩

/-! ## Convergence -/

section Convergence

variable {ω σ ω' σ' : Type} {rt : Runtime} {sv : Server ω σ} {sv' : Server ω' σ'} {describe : Bytes → String}
  {topic : String} {init : σ} {init' : σ'}

/-- The updates that the alerts of a topic ask for. -/
def Tells (rt : Runtime) (records : Topic) (u : Update (Index × PyStr) Json) : Prop :=
  ∃ a, Told rt records a ∧ u ∈ a.actions.filterMap Action.update

/-- Once all is committed and nothing is in quarantine, the alerts of the topic account for the indices. -/
theorem accounts_of_committed (hsv : sv.Documented) (hinit : ∀ k, sv.documents init k = none)
    {s : GroupSys AlertRow (SearchState σ)}
    (h : (group (opensearch sv rt describe) topic ⟨false, init⟩).Reach (NamedAlerts rt) s)
    (hall : ∀ p, (s.records p).length ≤ s.committed p)
    (hclean : ∀ id, sv.documents s.kept.kept (.quarantine, id) = none) :
    (sv.documents s.kept.kept).Accounts (Tells rt s.records) (Tells rt s.records) := by
  obtain ⟨-, hinv⟩ := searchInv_reach hsv hinit h
  have hg := groupInv_reach h
  refine ⟨fun k x hx => ?_, fun u hu => ?_⟩
  · refine document_source hinv hg hx fun hix => ?_
    rw [show k = (.quarantine, k.2) from Prod.ext hix rfl, hclean] at hx
    cases hx
  · obtain ⟨a, ⟨p, o, value, hvalue, ha⟩, hu⟩ := hu
    obtain ⟨value', hvalue', hsettled⟩ := hg.committed p o
      (Nat.lt_of_lt_of_le (List.getElem?_eq_some_iff.1 hvalue).1 (hall p))
    obtain rfl : value = value' := Option.some.inj (hvalue.symm.trans hvalue')
    rcases settled_search hinv hg hsettled with ⟨y, hy⟩ | ⟨a', ha', hindexed⟩
    · rw [hclean] at hy
      cases hy
    · obtain rfl : a = a' := List.singleton_inj.1 (Except.ok.inj (ha.symm.trans ha'))
      exact hindexed u hu

/-- Without a call for quarantine nothing is in it. -/
theorem clean_of_events {s : GroupSys AlertRow (SearchState σ)} (h : SearchInv sv s.events s.kept)
    (hg : GroupInv (opensearch sv rt describe) topic s) (hnamed : ∀ a, Told rt s.records a → a.Named)
    (hnone : s.events.all (fun e => !(e matches .quarantine ..)) = true) (id : PyStr) :
    sv.documents s.kept.kept (.quarantine, id) = none := by
  by_contra hne
  obtain ⟨x, hx⟩ := Option.ne_none_iff_exists'.1 hne
  obtain ⟨e, he, hasked⟩ := h.source _ _ hx
  have hcall := List.all_eq_true.1 hnone e he
  obtain ⟨action, haction, hu⟩ := List.mem_filterMap.1 hasked
  cases e with
  | write batch exc =>
    obtain ⟨a, ha, hmem⟩ := List.mem_flatMap.1 haction
    obtain ⟨update, incident, seq, hnames⟩ := hnamed a (told_of_write (hg.sourced _ he) ha)
    rcases hnames.mem_updates.1 (List.mem_filterMap.2 ⟨action, hmem, hu⟩) with heq | heq
    · cases heq
    · cases heq
  | quarantine poison exc => cases hcall
  | _ => exact absurd haction List.not_mem_nil

/-- **Replays and reordering do not matter.**  Two runs over the same records of alerts with text ids, each with
everything committed and nothing in quarantine, end with the same documents, if alerts that ask for the same version
of a document have the same document. -/
theorem incidents_converge (rt : Runtime) (hsv : sv.Documented) (hsv' : sv'.Documented) (describe : Bytes → String)
    (topic : String) (hinit : ∀ k, sv.documents init k = none) (hinit' : ∀ k, sv'.documents init' k = none)
    {s : GroupSys AlertRow (SearchState σ)} {s' : GroupSys AlertRow (SearchState σ')}
    (h : (group (opensearch sv rt describe) topic ⟨false, init⟩).Reach (NamedAlerts rt) s)
    (h' : (group (opensearch sv' rt describe) topic ⟨false, init'⟩).Reach (NamedAlerts rt) s')
    (hrecords : s.records = s'.records) (hall : ∀ p, (s.records p).length ≤ s.committed p)
    (hall' : ∀ p, (s'.records p).length ≤ s'.committed p)
    (hclean : ∀ id, sv.documents s.kept.kept (.quarantine, id) = none)
    (hclean' : ∀ id, sv'.documents s'.kept.kept (.quarantine, id) = none)
    (hsame : ∀ u u', Tells rt s.records u → Tells rt s.records u' → u.key = u'.key →
      u.version = u'.version → u.doc = u'.doc) :
    sv.documents s.kept.kept = sv'.documents s'.kept.kept := by
  have haccounts' := accounts_of_committed hsv' hinit' h' hall' hclean'
  rw [← hrecords] at haccounts'
  exact (accounts_of_committed hsv hinit h hall hclean).unique haccounts' hsame

end Convergence

theorem sampleGroup_records (cut : Bool) : (sampleGroup cut).records = sampleTopic := rfl

theorem sampleTopic_eq (p : Int) : sampleTopic p = if p = 0 then [some samplePayload] else [] := by
  rw [sampleTopic, Function.update_apply]

theorem sample_record {records : Topic} (hrecords : records = sampleTopic) {p : Int} {o : Nat}
    {value : Option Bytes} (h : (records p)[o]? = some value) : value = some samplePayload := by
  rw [hrecords, sampleTopic_eq] at h
  split at h
  · exact List.mem_singleton.1 (List.mem_of_getElem? h)
  · cases h

theorem sample_committed {s : GroupSys AlertRow (SearchState Documents)} (hrecords : s.records = sampleTopic)
    (hcommitted : s.committed 0 = 1) (p : Int) : (s.records p).length ≤ s.committed p := by
  rw [hrecords, sampleTopic_eq]
  split
  · rename_i hp
    rw [hp, hcommitted]
    exact Nat.le_refl _
  · exact Nat.zero_le _

/-- All updates of one record say the same. -/
theorem sample_doc {rt : Runtime} {records : Topic} {u u' : Update (Index × PyStr) Json}
    (hrecords : records = sampleTopic) (hnamed : ∀ a, Told rt records a → a.Named) (hu : Tells rt records u)
    (hu' : Tells rt records u') : u.doc = u'.doc := by
  obtain ⟨a, htold, hu⟩ := hu
  obtain ⟨a', ⟨p', o', value', hvalue', ha'⟩, hu'⟩ := hu'
  have hdoc : ∀ v ∈ a.actions.filterMap Action.update, v.doc = a.doc := by
    obtain ⟨update, incident, seq, hnames⟩ := hnamed a htold
    intro v hv
    rcases hnames.mem_updates.1 hv with rfl | rfl
    · rfl
    · rfl
  obtain ⟨p, o, value, hvalue, ha⟩ := htold
  rw [sample_record hrecords hvalue] at ha
  rw [sample_record hrecords hvalue'] at ha'
  obtain rfl : a = a' := List.singleton_inj.1 (Except.ok.inj (ha.symm.trans ha'))
  rw [hdoc u hu, hdoc u' hu']

/-- A run without failures, and one whose first request is cut off. -/
theorem incidents_converge_sample : documentStore.documents (sampleGroup false).kept.kept =
    documentStore.documents (sampleGroup true).kept.kept := by
  have hreach := sampleGroup_reach false
  have hreach' := sampleGroup_reach true
  have hrecords := sampleGroup_records false
  have hrecords' := sampleGroup_records true
  have hcommitted : (sampleGroup false).committed 0 = 1 := by decide +kernel
  have hcommitted' : (sampleGroup true).committed 0 = 1 := by decide +kernel
  have hnone : (sampleGroup false).events.all (fun e => !(e matches .quarantine ..)) = true := by decide +kernel
  have hnone' : (sampleGroup true).events.all (fun e => !(e matches .quarantine ..)) = true := by decide +kernel
  -- the runs are named, so that nothing below computes them
  generalize sampleGroup false = s at hreach hrecords hcommitted hnone ⊢
  generalize sampleGroup true = s' at hreach' hrecords' hcommitted' hnone' ⊢
  obtain ⟨hnamed, hinv⟩ := searchInv_reach documentStore_documented (fun _ => rfl) hreach
  obtain ⟨hnamed', hinv'⟩ := searchInv_reach documentStore_documented (fun _ => rfl) hreach'
  exact incidents_converge sampleRuntime documentStore_documented documentStore_documented (fun _ => "") "alerts.v1"
    (fun _ => rfl) (fun _ => rfl) hreach hreach' (hrecords.trans hrecords'.symm) (sample_committed hrecords hcommitted)
    (sample_committed hrecords' hcommitted') (clean_of_events hinv (groupInv_reach hreach) hnamed hnone)
    (clean_of_events hinv' (groupInv_reach hreach') hnamed' hnone') fun _ _ hu hu' _ _ => sample_doc hrecords hnamed hu hu'

end OTS.Consumers
