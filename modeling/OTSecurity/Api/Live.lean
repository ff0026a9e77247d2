import OTSecurity.Common.Contracts
import OTSecurity.Lib.Machine

/-!
# The live alert stream

Model of `LiveHub` in `backend/sih_api/live.py` and of the endpoint `/api/stream` in `app.py`: a
thread publishes alert updates into a ring, callbacks of the event loop hand them to the queues of
the clients, and one client connects, reads and disconnects.

* `LiveHub` — the ring and the sequence; `publish`, `backlogAfter`.
* `offer` — what `_fanout` does for the queue of one client, with the sentinel of a slow one.
* `Stream.next` — one step of the generator `events`.
* `LiveSys`, `live` — hub, callbacks, client and connection as a machine.

The texts of event ids are kept as the nonce and the number they denote, and of the connections the
last one only: an earlier one has its own queue, and nothing reads it.
-/

namespace OTS.Api

/-- An update with its sequence number. -/
abbrev Item := Nat × PyStr

structure LiveHub where
  nonce : String
  ringSize : Nat
  clientQueue : Nat
  ring : List Item
  seq : Nat

namespace LiveHub

def init (nonce : String) (ringSize clientQueue : Nat) : LiveHub := ⟨nonce, ringSize, clientQueue, [], 0⟩

/-- The update that `publish` makes of a message; `none` when it returns, or raises, before. -/
def annotate (recursionLimit : Nat) (arrivalUs : Int) (raw : PyStr) : Option PyStr :=
  match Json.loads recursionLimit raw with
  | some (.obj members) =>
    let a := Json.obj members
    let status := a.getStr? "status"
    let timed := ((a.getStr? "evidence_received_at").bind parseUs).isSome
    if (status = some (pyStr "new") ∨ status = some (pyStr "escalated")) ∧ timed = false then none
    else (formatUs arrivalUs).map fun t => (a.setKey "api_received_at" (.str t)).dumps true
  | _ => none

/-- What `publish` does under the lock. -/
def push (hub : LiveHub) (raw : PyStr) : LiveHub × Item :=
  let item := (hub.seq + 1, raw)
  let ring := hub.ring ++ [item]
  ({ hub with seq := hub.seq + 1, ring := ring.drop (ring.length - hub.ringSize) }, item)

/-- What a client sends as `Last-Event-ID`. -/
inductive LastEventId where
  | malformed
  | id (nonce : String) (seq : Int)

/-- `backlog_after`: the items after the given id, and whether the client must resync. -/
def backlogAfter (hub : LiveHub) : Option LastEventId → List Item × Bool
  | none => ([], false)
  | some .malformed => ([], true)
  | some (.id nonce seq) =>
    if nonce ≠ hub.nonce ∨ hub.ring.head?.any (fun first => seq < (first.1 : Int) - 1) then ([], true)
    else (hub.ring.filter (fun i => seq < (i.1 : Int)), false)

end LiveHub

/-! ## The queue of a client -/

/-- `asyncio.Queue`; `none` is the sentinel of a slow client. -/
abbrev Queue := List (Option Item)

/-- `put_nowait`; `none` when the queue is full. -/
def putNowait (maxsize : Nat) (q : Queue) (x : Option Item) : Option Queue :=
  if 0 < maxsize ∧ maxsize ≤ q.length then none else some (q ++ [x])

/-- What `_fanout` does for one client: its queue, and whether it stays subscribed. -/
def offer (maxsize : Nat) (q : Queue) (item : Item) : Queue × Bool :=
  match putNowait maxsize q (some item) with
  | some q => (q, true)
  | none =>
    match q with
    | [] => ([], false)
    | _ :: q => ((putNowait maxsize q none).getD q, false)

/-! ## The endpoint -/

inductive Event where
  | alert (item : Item)
  | resync

/-- A connection: the generator with its queue, and what has been sent and not been read. -/
structure Stream where
  resync : Bool
  backlog : List Item
  queue : Queue
  subscribed : Bool
  closed : Bool
  wire : List Event
  /-- What was removed from the queue to make room for the sentinel, a ghost. -/
  dropped : Option Item

namespace Stream

def opened (backlog : List Item) (resync : Bool) : Stream :=
  ⟨resync, backlog, [], true, false, [], none⟩

/-- The next step of the generator that sends something; `none` when it waits or has ended. -/
def next (st : Stream) : Option (Stream × Event) :=
  if st.closed then none
  else if st.resync then some ({ st with resync := false }, .resync)
  else match st.backlog, st.queue with
    | item :: backlog, _ => some ({ st with backlog }, .alert item)
    | [], some item :: queue => some ({ st with queue }, .alert item)
    | [], none :: queue => some ({ st with queue, subscribed := false, closed := true }, .resync)
    | [], [] => none

/-- `_fanout` for this connection. -/
def fanout (st : Stream) (maxsize : Nat) (item : Item) : Stream :=
  if st.subscribed then
    let (queue, subscribed) := offer maxsize st.queue item
    { st with queue, subscribed, dropped := if subscribed then none else st.queue.head?.join }
  else st

end Stream

/-! ## Hub, callbacks and client -/

/-- Where the hub stood at the first subscription: updates published, and updates fanned out. -/
structure Start where
  published : Nat
  fanned : Nat

structure LiveSys where
  hub : LiveHub
  /-- The update just published, its callback not yet scheduled. -/
  unscheduled : Option Item
  /-- The callbacks scheduled, in order. -/
  scheduled : List Item
  /-- The backlog and the resync flag of a request that has not subscribed yet. -/
  connecting : Option (List Item × Bool)
  stream : Option Stream
  /-- The updates the client has received, oldest first. -/
  received : List Item
  /-- Ghosts: every update published, the first subscription, whether a resync event was sent. -/
  published : List Item
  start : Option Start
  resyncSent : Bool

/-- The consumer thread publishes a message and schedules its callback; the event loop runs the
first callback, or one of the two halves of a request, or the generator; the client reads the next
event or disconnects. -/
inductive LiveOp where
  | publish (arrivalUs : Int) (raw : PyStr)
  | schedule
  | fanout
  | request
  | subscribe
  | send
  | receive
  | disconnect

namespace LiveSys

def init (nonce : String) (ringSize clientQueue : Nat) : LiveSys :=
  ⟨.init nonce ringSize clientQueue, none, [], none, none, [], [], none, false⟩

/-- The updates whose callbacks have not run. -/
def waiting (s : LiveSys) : List Item := s.scheduled ++ s.unscheduled.toList

/-- The sequence of the last update whose callback has run. -/
def fanned (s : LiveSys) : Nat := s.hub.seq - s.waiting.length

/-- The id of the last event that the client has received. -/
def lastEventId (s : LiveSys) : Option LiveHub.LastEventId :=
  s.received.getLast?.map fun item => .id s.hub.nonce item.1

def step (recursionLimit : Nat) (s : LiveSys) : LiveOp → Option LiveSys
  | .publish arrivalUs raw =>
    match s.unscheduled, LiveHub.annotate recursionLimit arrivalUs raw with
    | none, some raw =>
      let (hub, item) := s.hub.push raw
      some { s with hub, unscheduled := some item, published := s.published ++ [item] }
    | none, none => some s
    | some _, _ => none
  | .schedule =>
    s.unscheduled.map fun item => { s with unscheduled := none, scheduled := s.scheduled ++ [item] }
  | .fanout =>
    match s.connecting, s.scheduled with
    | none, item :: scheduled =>
      some { s with scheduled, stream := s.stream.map (·.fanout s.hub.clientQueue item) }
    | _, _ => none
  | .request =>
    match s.connecting, s.stream with
    | none, none => some { s with connecting := some (s.hub.backlogAfter s.lastEventId) }
    | _, _ => none
  | .subscribe =>
    s.connecting.map fun (backlog, resync) =>
      { s with
        connecting := none
        stream := some (.opened backlog resync)
        start := s.start.or (some ⟨s.hub.seq, s.fanned⟩) }
  | .send =>
    match s.connecting, s.stream with
    | none, some st => st.next.map fun (st, event) =>
      { s with
        stream := some { st with wire := st.wire ++ [event] }
        resyncSent := s.resyncSent || event matches .resync }
    | _, _ => none
  | .receive =>
    match s.stream with
    | some st =>
      match st.wire with
      | .alert item :: wire =>
        some { s with stream := some { st with wire }, received := s.received ++ [item] }
      | .resync :: wire => some { s with stream := some { st with wire } }
      | [] => none
    | none => none
  | .disconnect => s.stream.map fun _ => { s with stream := none }

end LiveSys

/-- The live stream of one process, from its start on. -/
def live (recursionLimit : Nat) (nonce : String) (ringSize clientQueue : Nat) : Machine LiveSys LiveOp :=
  ⟨.init nonce ringSize clientQueue, LiveSys.step recursionLimit⟩

end OTS.Api
