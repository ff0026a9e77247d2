import Mathlib.Data.Char
import Mathlib.Data.List.Lex
import Mathlib.Data.List.Sort
import OTSecurity.Lib.Bytes
import OTSecurity.Lib.Lines
import OTSecurity.Lib.Machine
import OTSecurity.Lib.ODict

/-!
# The tail-mode sender

Model of `TailMode` of `ingest/sender/sih_sender/tail.py` and of what `SenderState` of `state.py`
persists for it, as a machine whose steps are small enough that the process can be killed, and the
files can grow, between any two of them.

* `Fs` — the files of the input directory; they are created and appended to.
* `Phase` — where `run`, `pass_once`, `_read_lines` and `_handle` stand.
* `Sys.step…` — one step of each phase.
* `tail` — the machine: files grow, the sender steps, stops or is killed and restarted.

The log is a ghost: every line that was given a sequence number, in order.
-/

namespace OTS.Sender

def FINGERPRINT_BYTES : Nat := 256
def MAX_LINES_PER_FILE_PASS : Nat := 500
def MAX_TRACKED_FILES : Nat := 1000
def MAX_LINE_BYTES : Nat := 1048576

/-- `f.read(65536)`. -/
def CHUNK_BYTES : Nat := 65536

/-! ## Files -/

/-- A file of the input directory; `key` is `"{st_dev}:{st_ino}"`. -/
structure LogFile where
  name : String
  key : String
  data : Bytes
  deriving DecidableEq, Repr

abbrev Fs := List LogFile

/-- `(\..+)?\.log` after the log type. -/
def logSuffix (rest : List Char) : Bool :=
  rest = ['.', 'l', 'o', 'g'] ∨
    (6 ≤ rest.length ∧ rest.head? = some '.' ∧ ['.', 'l', 'o', 'g'].isSuffixOf rest ∧
      '\n' ∉ (rest.drop 1).take (rest.length - 5))

/-- `NAME.fullmatch(name).group(1)`. -/
def logType (name : String) : Option String :=
  ["conn", "flow_update", "dns", "ssl", "weird"].find? (fun t =>
    t.toList.isPrefixOf name.toList ∧ logSuffix (name.toList.drop t.toList.length))

/-- The names listed by a pass, sorted. -/
def listing (fs : Fs) : List String :=
  ((fs.map (·.name)).filter (fun n => (logType n).isSome)).insertionSort
    (fun a b => a.toList ≤ b.toList)

def named (fs : Fs) (name : String) : Option LogFile := fs.find? (·.name = name)

/-- The bytes of the open file with this key. -/
def dataOf (fs : Fs) (key : String) : Bytes := ((fs.find? (·.key = key)).map (·.data)).getD []

def appendTo (fs : Fs) (key : String) (more : Bytes) : Fs :=
  fs.map (fun f => if f.key = key then { f with data := f.data ++ more } else f)

/-! ## State -/

/-- `sha256(data).hexdigest()[:32] + f":{n}"`. -/
structure Fingerprint where
  digest : String
  n : Nat
  deriving DecidableEq, Repr

structure Tracked where
  path : String
  offset : Nat
  fingerprint : Fingerprint
  deriving DecidableEq, Repr

/-- Settings and the hash of the first bytes of a file. -/
structure Config where
  persistEvery : Nat
  digest : Bytes → String

/-- The state file.  `betweenPasses` is a ghost: the save was made by `run`, not inside a pass. -/
structure Saved where
  bootId : String
  nextSequence : Nat
  tailFiles : ODict String Tracked
  betweenPasses : Bool

/-- The locals of `pass_once`. -/
structure Pass where
  todo : List String
  seen : List String
  progressed : Bool

/-- The locals of `_read_lines`; `handle` is the file that `open` opened. -/
structure Reading where
  key : String
  handle : String
  pos : Nat
  buf : Bytes
  skipping : Bool
  lines : Nat

inductive Phase where
  | idle
  | listed (pass : Pass)
  | stated (pass : Pass) (name key : String) (size : Nat)
  | prefixed (pass : Pass) (name key : String) (size : Nat) (tf : Option Tracked)
  | opening (pass : Pass) (name key : String)
  | refill (pass : Pass) (r : Reading)
  | split (pass : Pass) (r : Reading)
  | sent (pass : Pass) (r : Reading)
  | passed (progressed : Bool)

/-- The sender process. -/
structure Proc where
  bootId : String
  nextSequence : Nat
  tailFiles : ODict String Tracked
  sinceSave : Nat
  phase : Phase

/-- A line that was given a number. -/
structure Entry where
  bootId : String
  sequence : Nat
  key : String
  start : Nat
  line : Bytes
  deriving DecidableEq, Repr

structure Sys where
  fs : Fs
  saved : Saved
  proc : Proc
  log : List Entry

/-- `SenderState.load`. -/
def Saved.load (d : Saved) : Proc := ⟨d.bootId, d.nextSequence, d.tailFiles, 0, .idle⟩

def Sys.goto (s : Sys) (phase : Phase) : Sys := { s with proc := { s.proc with phase := phase } }

/-- `SenderState.save`, and `_since_save = 0`. -/
def Sys.save (s : Sys) (betweenPasses : Bool) : Sys :=
  { s with
    saved := ⟨s.proc.bootId, s.proc.nextSequence, s.proc.tailFiles, betweenPasses⟩
    proc := { s.proc with sinceSave := 0 } }

/-- `tf["offset"] = pos`. -/
def setOffset (tailFiles : ODict String Tracked) (key : String) (pos : Nat) :
    ODict String Tracked :=
  match tailFiles.get? key with
  | some tf => tailFiles.set key { tf with offset := pos }
  | none => tailFiles

theorem get?_setOffset {tracked : ODict String Tracked} {k : String} {tf : Tracked} (ht : tracked.get? k = some tf) (pos : Nat) :
    ∃ tf', (setOffset tracked k pos).get? k = some tf' ∧ tf'.offset = pos := by
  unfold setOffset
  rw [ht]
  exact ⟨{ tf with offset := pos }, ODict.get?_set_self _ _ _, rfl⟩

def Sys.setOffset (s : Sys) (key : String) (pos : Nat) : Sys :=
  { s with proc := { s.proc with tailFiles := Sender.setOffset s.proc.tailFiles key pos } }

/-! ## `pass_once` -/

/-- `fingerprint(path, n)`. -/
def fingerprint (cfg : Config) (fs : Fs) (name : String) (n : Nat) : Option Fingerprint :=
  match named fs name with
  | none => none
  | some f => if (f.data.take n).length ≠ n then none else some ⟨cfg.digest (f.data.take n), n⟩

def samePrefix (cfg : Config) (fs : Fs) (name : String) (size : Nat) (stored : Fingerprint) : Bool :=
  size ≥ stored.n ∧ fingerprint cfg fs name stored.n = some stored

/-- `stat` of the next file. -/
def Sys.stepListed (s : Sys) (pass : Pass) : Sys :=
  match pass.todo with
  | [] =>
    let kept := s.proc.tailFiles.keepKeys (fun k => k ∈ pass.seen)
    let kept := kept.drop (kept.length - MAX_TRACKED_FILES)
    { s with proc := { s.proc with tailFiles := kept, phase := .passed pass.progressed } }
  | name :: todo =>
    match named s.fs name with
    | none => s.goto (.listed { pass with todo := todo })
    | some f =>
      let pass := { pass with todo := todo, seen := pass.seen ++ [f.key] }
      if f.data.length = 0 then s.goto (.listed pass)
      else s.goto (.stated pass name f.key f.data.length)

/-- The tracked entry, unless the file was replaced or truncated. -/
def Sys.stepStated (cfg : Config) (s : Sys) (pass : Pass) (name key : String) (size : Nat) : Sys :=
  s.goto (.prefixed pass name key size (match s.proc.tailFiles.get? key with
    | none => none
    | some tf => if size < tf.offset ∨ ¬ samePrefix cfg s.fs name size tf.fingerprint then none
      else some tf))

/-- The fingerprint is taken anew and the entry kept up to date. -/
def Sys.stepPrefixed (cfg : Config) (s : Sys) (pass : Pass) (name key : String) (size : Nat)
    (tf : Option Tracked) : Sys :=
  match fingerprint cfg s.fs name (min size FINGERPRINT_BYTES) with
  | none => s.goto (.listed pass)
  | some fp =>
    let offset := (tf.map (·.offset)).getD 0
    { s with proc := { s.proc with
      tailFiles := s.proc.tailFiles.set key ⟨name, offset, fp⟩
      phase := if size > offset then .opening pass name key else .listed pass } }

/-- `open` and `seek`; a file that is gone ends the process, which its restart models. -/
def Sys.stepOpening (s : Sys) (pass : Pass) (name key : String) : Option Sys :=
  match named s.fs name, s.proc.tailFiles.get? key with
  | some f, some tf => some (s.goto (.refill pass ⟨key, f.key, tf.offset, [], false, 0⟩))
  | _, _ => none

/-! ## `_read_lines` and `_handle` -/

/-- The outer loop: one more chunk, or the end of the file or of the budget. -/
def Sys.stepRefill (s : Sys) (pass : Pass) (r : Reading) : Sys :=
  let piece := slice (dataOf s.fs r.handle) (r.pos + r.buf.length) CHUNK_BYTES
  if r.lines ≥ MAX_LINES_PER_FILE_PASS ∨ piece = [] then
    s.goto (.listed { pass with progressed := pass.progressed || 0 < r.lines })
  else s.goto (.split pass { r with buf := r.buf ++ piece })

/-- Lines that are given a number: not empty, not a comment, valid UTF-8. -/
def sendable (raw : Bytes) : Bool :=
  let raw := if raw.getLast? = some 13 then raw.dropLast else raw
  raw ≠ [] ∧ raw.head? ≠ some 35 ∧ (utf8Decode raw).isSome

/-- The inner loop: the next line of the buffer, if it is complete. -/
def Sys.stepSplit (s : Sys) (pass : Pass) (r : Reading) : Sys :=
  if r.lines ≥ MAX_LINES_PER_FILE_PASS then
    (if r.skipping then s.setOffset r.key r.pos else s).goto (.refill pass r)
  else match r.buf.findIdx? (· = NEWLINE) with
    | none =>
      -- an oversized line: what there is of it is discarded, the rest up to its newline follows
      let r' := if r.buf.length > MAX_LINE_BYTES then
        { r with pos := r.pos + r.buf.length, buf := [], skipping := true } else r
      (if r'.skipping then s.setOffset r'.key r'.pos else s).goto (.refill pass r')
    | some nl =>
      let line := r.buf.take nl
      let r' := { r with buf := r.buf.drop (nl + 1), pos := r.pos + nl + 1 }
      if r.skipping then
        (s.setOffset r'.key r'.pos).goto (.split pass { r' with skipping := false })
      else if sendable line then
        { s with
          log := s.log ++ [⟨s.proc.bootId, s.proc.nextSequence, r.handle, r.pos, line⟩]
          proc := { s.proc with
            nextSequence := s.proc.nextSequence + 1
            sinceSave := s.proc.sinceSave + 1
            phase := .sent pass r' } }
      else (s.setOffset r'.key r'.pos).goto (.split pass { r' with lines := r'.lines + 1 })

/-- The end of `_handle` after a line was sent, then `tf["offset"] = pos`. -/
def Sys.stepSent (cfg : Config) (s : Sys) (pass : Pass) (r : Reading) : Sys :=
  ((if s.proc.sinceSave ≥ cfg.persistEvery then s.save false else s).setOffset r.key r.pos).goto
    (.split pass { r with lines := r.lines + 1 })

/-! ## `run` -/

/-- After a pass: a pass without progress saves what is new. -/
def Sys.stepPassed (s : Sys) (progressed : Bool) : Sys :=
  (if ¬ progressed ∧ s.proc.sinceSave ≠ 0 then s.save true else s).goto .idle

/-- One step of the process. -/
def Sys.step (cfg : Config) (s : Sys) : Option Sys :=
  match s.proc.phase with
  | .idle => some (s.goto (.listed ⟨listing s.fs, [], false⟩))
  | .listed pass => some (s.stepListed pass)
  | .stated pass name key size => some (s.stepStated cfg pass name key size)
  | .prefixed pass name key size tf => some (s.stepPrefixed cfg pass name key size tf)
  | .opening pass name key => s.stepOpening pass name key
  | .refill pass r => some (s.stepRefill pass r)
  | .split pass r => some (s.stepSplit pass r)
  | .sent pass r => some (s.stepSent cfg pass r)
  | .passed progressed => some (s.stepPassed progressed)

inductive Act where
  | create (f : LogFile)
  | append (key : String) (more : Bytes)
  | step
  /-- `stop` is seen between two passes: save, end; the process is started again later. -/
  | stop
  /-- The process is killed, and started again from the state file. -/
  | restart
  deriving DecidableEq

def tailStep (cfg : Config) (s : Sys) : Act → Option Sys
  | .create f =>
    if (∀ g ∈ s.fs, g.name ≠ f.name ∧ g.key ≠ f.key) then some { s with fs := s.fs ++ [f] } else none
  | .append key more => some { s with fs := appendTo s.fs key more }
  | .step => s.step cfg
  | .stop =>
    match s.proc.phase with
    | .idle => some { s.save true with proc := (s.save true).saved.load }
    | _ => none
  | .restart => some { s with proc := s.saved.load }

/-- A sender whose state file has just been created, over an empty directory. -/
def tail (cfg : Config) (bootId : String) : Machine Sys Act where
  init :=
    let saved : Saved := ⟨bootId, 0, ODict.empty, true⟩
    ⟨[], saved, saved.load, []⟩
  step := tailStep cfg

end OTS.Sender
