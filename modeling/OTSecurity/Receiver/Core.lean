import OTSecurity.Common.Contracts
import OTSecurity.Common.Ids
import OTSecurity.Lib.Sha256
import OTSecurity.Link.Reassembly
import OTSecurity.Receiver.Dedup
import OTSecurity.Receiver.SpoolLog

/-!
# The receiver pipeline

Model of `ReceiverCore` of `ingest/receiver/sih_receiver/core.py`: frame, reassembly, duplicate
suppression, validation, spool.

* `judge` — parsing and `_validate_event`; `rawRecord` — what is spooled of a valid event.
* `ReceiverCore.event`, `health`, `quarantine` — the handlers, with the state they leave when they
  raise; `Fate` is what becomes of an event record.
* `ReceiverCore.handleDatagram`, `housekeeping` — the entry points of the receive thread.
* `restoreDedup`, `ReceiverCore.boot` — a new process on the directory.
* `receiver` — the process with its directory as a machine, with crashes and restarts.

Metrics are left out: the counts by reason are the fates and the reasons returned.
-/

namespace OTS.Receiver

/-! ## Judging a record -/

/-- `_CODE_TO_REASON.get(code, default)`. -/
def reasonOf (code default : String) : String :=
  if code = "schema" then "schema_violation"
  else if code = "unsupported_schema_version" then "unsupported_schema_version"
  else default

/-- What validation says of a record: it raises, rejects, or accepts the event it parsed. -/
inductive Judgement where
  | raises
  | rejected (reason : String) (detail : PyStr)
  | valid (ev : Json)

/-- The messages of the first three errors. -/
def errorDetail (errs : List ContractError) : PyStr := joinWith (pyStr "; ") ((errs.take 3).map (·.2))

/-- A JSON number equals `n`, as Python compares. -/
def Json.eqNat (v : Json) (n : Nat) : Bool :=
  match v with
  | .int m => m = n
  | .float x => x.value? = some (n : Rat)
  | _ => false

/-- The text without surrogates that a string holds. -/
def toText (s : PyStr) : String := String.ofList (s.map Char.ofNat)

def identityMatches (ev : Json) (c : Link.Complete) : Bool :=
  (ev.field "sensor_id").text = pyStr c.sensorId ∧ (ev.field "sensor_boot_id").text = pyStr c.bootId ∧
    Json.eqNat (ev.field "sequence") c.sequence

/-- The checks of a contract-conforming event against the frame it came in. -/
def checkIdentity (ev : Json) (c : Link.Complete) : Judgement :=
  let sha := (ev.field "original_record_sha256").text
  let last : Judgement :=
    if pyStr (eventId c.sensorId c.bootId c.sequence (toText sha)) ≠ (ev.field "event_id").text then
      .rejected "schema_violation"
        (pyStr "event_id is not the deterministic id for sensor/boot/sequence/hash")
    else .valid ev
  if ¬ identityMatches ev c then
    .rejected "schema_violation" (pyStr "envelope identity does not match link frame identity")
  else match ev.field "original_record" with
    | .str orig =>
      match encodeUtf8 orig with
      | none => .raises
      | some bytes =>
        if pyStr (sha256Hex bytes) ≠ sha then
          .rejected "schema_violation"
            (pyStr "original_record_sha256 does not match original_record")
        else last
    | _ => last

/-- The event with the time of receipt; `none` when the clock is outside the calendar. -/
def stamped (ev : Json) (c : Link.Complete) : Option Json :=
  (formatUs c.receivedAtUs).map fun t => ev.setKey "receiver_received_at" (.str t)

/-- `_validate_event`. -/
def validateEvent (rt : Runtime) (ev : Json) (c : Link.Complete) : Judgement :=
  match ev with
  | .obj _ =>
    match stamped ev c with
    | none => .raises
    | some ev =>
      match validate rt eventContract ev with
      | none => .raises
      | some [] => checkIdentity ev c
      | some (e :: errs) =>
        .rejected (reasonOf e.1 "availability_violation") (errorDetail (e :: errs))
  | _ => .rejected "json_parse_error" (pyStr "record is not a JSON object")

/-- The bytes of a record as JSON; `none` when they are not UTF-8 or not JSON. -/
def parseRecord (rt : Runtime) (record : Bytes) : Option Json :=
  (decodeUtf8 record).bind (Json.loads rt.recursionLimit)

def judge (rt : Runtime) (c : Link.Complete) : Judgement :=
  match parseRecord rt c.record with
  | none => .rejected "json_parse_error" (pyStr "record is not valid UTF-8 JSON")
  | some ev => validateEvent rt ev c

/-- `partition_key`; `none` when it raises. -/
def partitionKey (ev : Json) : Option Bytes :=
  let uid := ((ev.field "payload").field "uid").text
  if uid ≠ [] then
    encodeUtf8 (joinWith (pyStr "|") [(ev.field "sensor_id").text, (ev.field "sensor_boot_id").text,
      (ev.field "replay_run_id").text, uid])
  else encodeUtf8 (ev.field "event_id").text

/-- What is spooled of a valid event; `none` when one of the arguments raises. -/
def rawRecord (ev : Json) (c : Link.Complete) : Option Rec :=
  match partitionKey ev, observationMs ev, ev.dumpBytes with
  | some key, some ts, some value =>
    some ⟨TOPIC_RAW, key, some c.sensorId, some c.bootId, c.sequence, ts, value⟩
  | _, _, _ => none

/-! ## Quarantine -/

/-- Readings of the clocks: monotonic, in seconds, and wall time, in microseconds. -/
structure Reading where
  monotonic : Rat
  wallUs : Int

def optStr (s : Option String) : Json := s.elim .null fun t => .str (pyStr t)

/-- The record of `invalid-events.v1`; `none` when the clock is outside the calendar. -/
def invalidRecord (wallUs : Int) (reason : String) (detail : PyStr) (sensorId bootId : Option String)
    (seq : Option Nat) (raw : Option Bytes) : Option (String × Json) :=
  let sha := raw.map sha256Hex
  let id := invalidId "receiver" reason sha sensorId bootId (seq.map fun n => (n : Int))
  let excerpt : Json :=
    match raw with
    | some bytes =>
      if reason = "frame_hmac_invalid" ∨ reason = "frame_malformed" then .null
      else .str ((decodeReplace bytes).take 2048)
    | none => .null
  (formatUs wallUs).map fun detectedAt => (id, .obj [
    (pyStr "invalid_schema_version", .str (pyStr "1.0.0")),
    (pyStr "invalid_id", .str (pyStr id)),
    (pyStr "detected_at", .str detectedAt),
    (pyStr "stage", .str (pyStr "receiver")),
    (pyStr "reason_code", .str (pyStr reason)),
    (pyStr "detail", .str (detail.take 512)),
    (pyStr "sensor_id", optStr (sensorId.map fun s => String.ofList (s.toList.take 63))),
    (pyStr "sensor_boot_id", optStr bootId),
    (pyStr "sequence", seq.elim .null fun n => .int n),
    (pyStr "raw_sha256", optStr sha),
    (pyStr "raw_size_bytes", .int (raw.elim 0 fun bytes => (bytes.length : Int))),
    (pyStr "raw_excerpt", excerpt)])

/-- What `quarantine` spools; `none` when building it raises. -/
def invalidEntry (wallUs : Int) (reason : String) (detail : PyStr) (sensorId bootId : Option String)
    (seq : Option Nat) (raw : Option Bytes) : Option Rec :=
  match invalidRecord wallUs reason detail sensorId bootId seq raw with
  | none => none
  | some (id, rec) =>
    match rec.dumpBytes with
    | none => none
    | some value => some ⟨TOPIC_INVALID, (pyStr id).map UInt8.ofNat, none, none, -1, 0, value⟩

/-! ## The state -/

/-- The identity of an event. -/
structure Identity where
  sensorId : String
  bootId : String
  sequence : Nat
  deriving DecidableEq, Repr

structure ReceiverCore where
  codec : Link.LinkCodec
  reassembler : Link.Reassembler
  dedup : DedupWindow
  sys : SpoolSys
  healthSeen : ODict String Nat
  qRate : Nat
  qTokens : Rat
  qRefill : Rat
  lastSnapshot : Rat
  /-- The event records rejected so far, a ghost. -/
  rejected : List Identity

/-- What becomes of a complete event record. -/
inductive Fate where
  | suppressed (v : Verdict)
  | quarantined (reason : String)
  | spoolFull
  | accepted
  | raised
  deriving DecidableEq, Repr

def identity (c : Link.Complete) : Identity := ⟨c.sensorId, c.bootId, c.sequence⟩

namespace ReceiverCore

variable (core : ReceiverCore)

/-- `spool.append`: whether it was accepted; `none` when it raises. -/
def append (r : Rec) : Option (Bool × ReceiverCore) :=
  match core.sys.spool.append core.sys.disk r with
  | none => none
  | some (false, _, _) => some (false, core)
  | some (true, spool, disk) =>
    some (true, { core with sys := ⟨spool, disk, core.sys.log ++ [SpoolSys.appended spool r]⟩ })

/-- The tokens of the rate limit at a reading of the clock. -/
def refill (now : Reading) : ReceiverCore :=
  { core with
    qTokens := min core.qRate (core.qTokens + (now.monotonic - core.qRefill) * core.qRate)
    qRefill := now.monotonic }

/-- `quarantine`; whether it returns. -/
def quarantine (now : Reading) (reason : String) (detail : PyStr) (sensorId bootId : Option String)
    (seq : Option Nat) (raw : Option Bytes) : ReceiverCore × Bool :=
  let core := core.refill now
  if core.qTokens < 1 then (core, true)
  else
    let core := { core with qTokens := core.qTokens - 1 }
    match invalidEntry now.wallUs reason detail sensorId bootId seq raw with
    | none => (core, false)
    | some r =>
      match core.append r with
      | none => (core, false)
      | some (_, core) => (core, true)

/-- One call of `quarantine` for each entry the reassembler gave up; it stops when one raises. -/
def quarantineAll (clock : Nat → Reading) (detail : String) :
    Nat → ReceiverCore → List Link.Expired → ReceiverCore × Bool
  | _, core, [] => (core, true)
  | i, core, x :: xs =>
    match core.quarantine (clock i) x.reason (pyStr detail) x.sensorId x.bootId x.sequence none with
    | (core, false) => (core, false)
    | (core, true) => quarantineAll clock detail (i + 1) core xs

/-! ## Records -/

def mark (c : Link.Complete) : ReceiverCore :=
  { core with dedup := (core.dedup.mark c.sensorId c.bootId c.sequence).1 }

/-- `_event`. -/
def event (rt : Runtime) (now : Reading) (c : Link.Complete) : ReceiverCore × Fate :=
  match core.dedup.check c.sensorId c.bootId c.sequence with
  | .duplicate => (core.mark c, .suppressed .duplicate)
  | .stale => (core.mark c, .suppressed .stale)
  | _ =>
    match judge rt c with
    | .raises => (core, .raised)
    | .rejected reason detail =>
      let core := { core.mark c with rejected := core.rejected ++ [identity c] }
      match core.quarantine now reason detail c.sensorId c.bootId c.sequence c.record with
      | (core, true) => (core, .quarantined reason)
      | (core, false) => (core, .raised)
    | .valid ev =>
      match rawRecord ev c with
      | none => (core, .raised)
      | some r =>
        match core.append r with
        | none => (core, .raised)
        | some (false, core) => (core, .spoolFull)
        | some (true, core) => (core.mark c, .accepted)

/-- The record of a sensor's health, as `_health` reads and stamps it. -/
def stampedHealth (rt : Runtime) (c : Link.Complete) : Option (Option Json) :=
  match parseRecord rt c.record with
  | none => some none
  | some (.obj ms) =>
    (formatUs c.receivedAtUs).map fun t => some ((Json.obj ms).setKey "received_at" (.str t))
  | some h => some (some h)

/-- `_health`; whether it returns. -/
def health (rt : Runtime) (now : Reading) (c : Link.Complete) : ReceiverCore × Bool :=
  let key := streamKey c.sensorId c.bootId
  if ((core.healthSeen.get? key).elim (-1) fun n => (n : Int)) ≥ c.sequence then (core, true)
  else
    let core := { core with healthSeen := core.healthSeen.set key c.sequence }
    let reject := fun (reason : String) (detail : PyStr) =>
      core.quarantine now reason detail c.sensorId c.bootId c.sequence c.record
    match stampedHealth rt c with
    | none => (core, false)
    | some none => reject "json_parse_error" (pyStr "health record is not valid UTF-8 JSON")
    | some (some h) =>
      match validate rt sensorHealthContract h with
      | none => (core, false)
      | some (e :: errs) => reject (reasonOf e.1 "schema_violation") (errorDetail (e :: errs))
      | some [] =>
        if (h.field "sensor_id").text ≠ pyStr c.sensorId ∨
            (h.field "sensor_boot_id").text ≠ pyStr c.bootId then
          reject "schema_violation" (pyStr "health identity does not match link frame identity")
        else match encodeAscii c.sensorId, h.dumpBytes with
          | some key, some value =>
            match core.append ⟨TOPIC_HEALTH, key, none, none, -1, 0, value⟩ with
            | none => (core, false)
            | some (_, core) => (core, true)
          | _, _ => (core, false)

/-! ## The receive thread -/

/-- `handle_datagram`: whether it returns, and the fate of the event record it completes, if any.
`clock` gives the readings, one for each call of `quarantine`. -/
def handleDatagram (hmac : Link.Hmac) (rt : Runtime) (data : Bytes) (nowUs : Int)
    (clock : Nat → Reading) : ReceiverCore × Bool × Option (Link.Complete × Fate) :=
  match core.codec.decode hmac data with
  | .error e =>
    let (core, ok) := core.quarantine (clock 0) e.reason (pyStr e.message) none none none data
    (core, ok, none)
  | .ok f =>
    match core.reassembler.add f nowUs with
    | none => (core, false, none)
    | some a =>
      let core := { core with reassembler := a.reassembler }
      match quarantineAll clock "reassembly limit reached" 0 core a.expired with
      | (core, false) => (core, false, none)
      | (core, true) =>
        match a.complete with
        | none => (core, true, none)
        | some c =>
          let now := clock a.expired.length
          if c.type = Link.TYPE_HEALTH then
            let (core, ok) := core.health rt now c
            (core, ok, none)
          else
            let (core, fate) := core.event rt now c
            (core, fate ≠ .raised, some (c, fate))

/-- A call that the end of the process stops after `n` calls of `quarantine`: of `handle_datagram`
with its datagram, or of `housekeeping`. -/
structure Stopped where
  data : Option Bytes
  nowUs : Int
  clock : Nat → Reading
  n : Nat

def stop (hmac : Link.Hmac) (call : Stopped) : ReceiverCore :=
  match call.data with
  | none => (quarantineAll call.clock "fragments incomplete" 0 core
      ((core.reassembler.expire call.nowUs).1.take call.n)).1
  | some data =>
    match core.codec.decode hmac data with
    | .error _ => core
    | .ok f =>
      match core.reassembler.add f call.nowUs with
      | none => core
      | some a => (quarantineAll call.clock "reassembly limit reached" 0 core
          (a.expired.take call.n)).1

/-- The file `dedup.json`: a snapshot of the window and the spool position it reflects. -/
structure Snapshot where
  window : DedupWindow
  position : Position

/-- `housekeeping`; the snapshot it writes, if any. -/
def housekeeping (nowUs : Int) (clock : Nat → Reading) (monotonic : Rat) :
    ReceiverCore × Option Snapshot :=
  let (expired, reassembler) := core.reassembler.expire nowUs
  match quarantineAll clock "fragments incomplete" 0 { core with reassembler } expired with
  | (core, false) => (core, none)
  | (core, true) =>
    let (spool, disk) := core.sys.spool.sync core.sys.disk
    let core := { core with sys := { core.sys with spool, disk } }
    if monotonic - core.lastSnapshot ≥ 1 then
      ({ core with lastSnapshot := monotonic }, some ⟨core.dedup, spool.synced⟩)
    else (core, none)

end ReceiverCore

/-! ## Restart -/

/-- What the replay does with a spooled record. -/
def replayEntry (w : DedupWindow) (e : Entry) : DedupWindow :=
  if e.record.topic = TOPIC_RAW then
    match e.record.sensorId with
    | some s => (w.mark s (e.record.bootId.getD "None") e.record.sequence).1
    | none => w
  else w

/-- The loop of `_restore_dedup`, in batches of 5000; `none` when reading raises. -/
def replayLoop (spool : Spool) (disk : Disk) (stop : Position) :
    Nat → Position → DedupWindow → Option DedupWindow
  | 0, _, _ => none
  | fuel + 1, start, w =>
    if start < stop then
      match spool.read disk start stop 5000 with
      | none => none
      | some [] => some w
      | some es => replayLoop spool disk stop fuel (resume start es) (es.foldl replayEntry w)
    else some w

/-- `_restore_dedup`.  Every round but the last reads a record of at least one byte. -/
def restoreDedup (spool : Spool) (disk : Disk) (snapshot : Option ReceiverCore.Snapshot) :
    Option DedupWindow :=
  let first := spool.firstPosition
  let (w, start) := match snapshot with
    | none => (DedupWindow.init, first)
    | some snap => (snap.window, if first < snap.position then snap.position else first)
  replayLoop spool disk spool.endPosition ((disk.files.entries.map (·.2.length)).sum + 1) start w

/-- What a process is started with. -/
structure Config where
  codec : Link.LinkCodec
  maxBytes : Nat
  segmentBytes : Nat
  qRate : Nat

/-- A process that has just restored its window. -/
def ReceiverCore.start (cfg : Config) (sys : SpoolSys) (dedup : DedupWindow) (monotonic : Rat)
    (rejected : List Identity) : ReceiverCore where
  codec := cfg.codec
  reassembler := ⟨4096, 2000000, .empty⟩
  dedup := dedup
  sys := sys
  healthSeen := .empty
  qRate := cfg.qRate
  qTokens := cfg.qRate
  qRefill := monotonic
  lastSnapshot := 0
  rejected := rejected

/-- `ReceiverCore(...)` on a directory as `open` leaves it; `none` when the constructor raises. -/
def ReceiverCore.boot (cfg : Config) (sys : SpoolSys) (snapshot : Option ReceiverCore.Snapshot)
    (monotonic : Rat) (rejected : List Identity) : Option ReceiverCore :=
  (restoreDedup sys.spool sys.disk snapshot).map fun dedup =>
    ReceiverCore.start cfg sys dedup monotonic rejected

/-! ## The receiver as a machine -/

structure ReceiverSys where
  core : ReceiverCore
  snapshot : Option ReceiverCore.Snapshot

/-- A datagram arrives, housekeeping is due, the publisher releases what the broker acknowledged, or
the process ends, between two calls or in the middle of one, and another one is started. -/
inductive ReceiverOp where
  | datagram (data : Bytes) (nowUs : Int) (clock : Nat → Reading)
  | housekeeping (nowUs : Int) (clock : Nat → Reading) (monotonic : Rat)
  | release (acked : Position)
  | crash (call : Option ReceiverCore.Stopped) (kept stable : Nat) (monotonic : Rat)

namespace ReceiverSys

/-- The state that the process ends in. -/
def ended (hmac : Link.Hmac) (s : ReceiverSys) (call : Option ReceiverCore.Stopped) : ReceiverCore :=
  call.elim s.core (s.core.stop hmac)

def init (cfg : Config) : ReceiverSys :=
  ⟨.start cfg (.init cfg.maxBytes cfg.segmentBytes) .init 0 [], none⟩

def step (hmac : Link.Hmac) (rt : Runtime) (cfg : Config) (s : ReceiverSys) :
    ReceiverOp → Option ReceiverSys
  | .datagram data nowUs clock =>
    some { s with core := (s.core.handleDatagram hmac rt data nowUs clock).1 }
  | .housekeeping nowUs clock monotonic =>
    let (core, snapshot) := s.core.housekeeping nowUs clock monotonic
    some ⟨core, snapshot.or s.snapshot⟩
  | .release acked =>
    let (spool, disk) := s.core.sys.spool.release s.core.sys.disk acked
    some { s with core := { s.core with sys := { s.core.sys with spool, disk } } }
  | .crash call kept stable monotonic =>
    let core := s.ended hmac call
    match core.sys.step cfg.maxBytes cfg.segmentBytes (.crash kept stable) with
    | none => none
    | some sys => (ReceiverCore.boot cfg sys s.snapshot monotonic core.rejected).map fun core =>
        ⟨core, s.snapshot⟩

end ReceiverSys

/-- The receiver, from an empty directory on. -/
def receiver (hmac : Link.Hmac) (rt : Runtime) (cfg : Config) : Machine ReceiverSys ReceiverOp :=
  ⟨ReceiverSys.init cfg, ReceiverSys.step hmac rt cfg⟩

/-- The first process starts as `boot` says. -/
theorem boot_init (cfg : Config) :
    ReceiverCore.boot cfg (.init cfg.maxBytes cfg.segmentBytes) none 0 [] =
      some (ReceiverSys.init cfg).core := rfl

end OTS.Receiver
