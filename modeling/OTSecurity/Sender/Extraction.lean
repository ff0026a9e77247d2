import OTSecurity.Sender.Tail

/-!
# Line extraction by the tail-mode sender

`_read_lines` of `ingest/sender/sih_sender/tail.py` on one file, call after call, while the file
grows between any two of its reads.

* `LineFile` — the file, the saved offset, the lines given to `_handle` and the counter of oversized
  lines; `LineCall` — the locals of a running call.
* `LineFile.outer`, `LineFile.inner` — one round of each loop.
* `InStep` — no oversized line is handled, and no call ends inside one.
* `Follows` — the machine of the whole sender stands where the file does; `Follows.step` — it reads the file
  as `LineFile` does.

Principal result: `lines_extracted` — every call ends; where `InStep` holds, the lines handled are
the complete lines that are not oversized, each once and in order, up to the saved offset; a round
that breaks `InStep` handles an oversized line or leaves the offset inside one.
-/

namespace OTS.Sender

/-! ## One file -/

/-- The locals of `_read_lines`; `inner` says which loop it is at. -/
structure LineCall where
  pos : Nat
  buf : Bytes
  skipping : Bool
  lines : Nat
  inner : Bool

/-- A followed file.  `before` is a ghost: how many lines were handled before the last call. -/
structure LineFile where
  data : Bytes
  offset : Nat
  handled : List Bytes
  rejectedOversize : Nat
  before : Nat
  call : Option LineCall

namespace LineFile

/-- The start of a call. -/
def start (s : LineFile) : LineFile :=
  { s with before := s.handled.length, call := some ⟨s.offset, [], false, 0, false⟩ }

/-- What the next read of the file returns. -/
def piece (s : LineFile) (c : LineCall) : Bytes :=
  slice s.data (c.pos + c.buf.length) CHUNK_BYTES

/-- The outer loop: one more chunk, or the end of the file or of the budget. -/
def outer (s : LineFile) (c : LineCall) : LineFile :=
  if c.lines ≥ MAX_LINES_PER_FILE_PASS ∨ s.piece c = [] then { s with call := none }
  else { s with call := some { c with buf := c.buf ++ s.piece c, inner := true } }

/-- Back to the outer loop; inside an oversized line the offset follows. -/
def leave (s : LineFile) (c : LineCall) : LineFile :=
  { s with
    offset := if c.skipping then c.pos else s.offset
    call := some { c with inner := false } }

/-- The inner loop: the next line of the buffer, if it is complete. -/
def inner (s : LineFile) (c : LineCall) : LineFile :=
  if c.lines ≥ MAX_LINES_PER_FILE_PASS then s.leave c
  else match c.buf.findIdx? (· = NEWLINE) with
    | none =>
      if c.buf.length > MAX_LINE_BYTES then
        { s with
          rejectedOversize := s.rejectedOversize + if c.skipping then 0 else 1 }.leave
          { c with pos := c.pos + c.buf.length, buf := [], skipping := true }
      else s.leave c
    | some nl =>
      let c' := { c with buf := c.buf.drop (nl + 1), pos := c.pos + nl + 1 }
      if c.skipping then
        { s with offset := c'.pos, call := some { c' with skipping := false } }
      else
        { s with
          handled := s.handled ++ [c.buf.take nl]
          offset := c'.pos
          call := some { c' with lines := c.lines + 1 } }

/-- One round of the loop a call is at. -/
def next (s : LineFile) : LineFile :=
  match s.call with
  | none => s
  | some c => if c.inner then s.inner c else s.outer c

end LineFile

inductive LineAct where
  | grow (more : Bytes)
  | call
  | round

def stepLines (s : LineFile) : LineAct → Option LineFile
  | .grow more => some { s with data := s.data ++ more }
  | .call => if s.call.isNone then some s.start else none
  | .round => if s.call.isSome then some s.next else none

/-- An empty file, followed from its start. -/
def lineFile : Machine LineFile LineAct := ⟨⟨[], 0, [], 0, 0, none⟩, stepLines⟩

/-! ## The sender does the same -/

/-- The locals of a reading. -/
def Reading.call (r : Reading) (inner : Bool) : LineCall :=
  ⟨r.pos, r.buf, r.skipping, r.lines, inner⟩

/-- The call that a phase of the sender is in; a line that is being sent counts as handled. -/
def Phase.call : Phase → Option LineCall
  | .refill _ r => some (r.call false)
  | .split _ r => some (r.call true)
  | .sent _ r => some ({ r with lines := r.lines + 1 }.call true)
  | _ => none

def Phase.reading : Phase → Option Reading
  | .refill _ r | .split _ r | .sent _ r => some r
  | _ => none

/-- The offset, once the line that is being sent is handled. -/
def Phase.offset (tf : Tracked) : Phase → Nat
  | .sent _ r => r.pos
  | _ => tf.offset

/-- The sender stands in the file where `t` does. -/
structure Follows (s : Sys) (t : LineFile) (key handle : String) : Prop where
  file : ∀ r ∈ s.proc.phase.reading, r.key = key ∧ r.handle = handle
  data : t.data = dataOf s.fs handle
  call : t.call = s.proc.phase.call
  offset : (s.proc.tailFiles.get? key).map (s.proc.phase.offset ·) = some t.offset

/-- The lines that `t'` handles beyond those of `t`, those that are given a number. -/
def sentLines (t t' : LineFile) : List Bytes := (t'.handled.drop t.handled.length).filter sendable

section Following

variable {s s' : Sys} {t : LineFile} {key handle : String} {pass : Pass} {r : Reading}

theorem sentLines_same (h : t.handled = t'.handled) : sentLines t t' = [] := by
  rw [sentLines, h, List.drop_length]
  rfl

theorem sentLines_concat {line : Bytes} (h : t'.handled = t.handled ++ [line]) :
    sentLines t t' = if sendable line then [line] else [] := by
  rw [sentLines, h, List.drop_left, List.filter_cons, List.filter_nil]

/-- The offset goes to `pos`, the sender to another place in the same file. -/
theorem Follows.readOn (h : Follows s t key handle) {tf : Tracked} (htf : s.proc.tailFiles.get? key = some tf)
    {phase : Phase} (hphase : ∀ r ∈ phase.reading, r.key = key ∧ r.handle = handle) {t' : LineFile} {pos : Nat}
    (hdata : t'.data = t.data) (hcall : t'.call = phase.call) (hoffset : t'.offset = pos)
    (hplain : ∀ tf, phase.offset tf = tf.offset) : Follows ((s.setOffset key pos).goto phase) t' key handle := by
  obtain ⟨tf', htf', hpos⟩ := get?_setOffset htf pos
  refine ⟨hphase, hdata.trans h.data, hcall, ?_⟩
  show ((setOffset s.proc.tailFiles key pos).get? key).map _ = _
  rw [htf']
  exact congrArg some ((hplain tf').trans (hpos.trans hoffset.symm))

theorem Follows.opening {name : String} {f : LogFile} (h : Follows s t key f.key) (hf : named s.fs name = some f)
    (hphase : s.proc.phase = .opening pass name key) (hs : s.stepOpening pass name key = some s') :
    Follows s' t.start key f.key := by
  have hoffset := h.offset
  rw [hphase] at hoffset
  obtain ⟨tf, htf, hat⟩ := Option.map_eq_some_iff.1 hoffset
  unfold Sys.stepOpening at hs
  rw [hf, htf] at hs
  obtain rfl := Option.some.inj hs
  refine ⟨?_, h.data, ?_, hoffset⟩
  · intro r hr
    obtain rfl := Option.some.inj hr
    exact ⟨rfl, rfl⟩
  · exact congrArg (fun n => some (LineCall.mk n [] false 0 false)) hat.symm

theorem Follows.refill (h : Follows s t key handle) (hphase : s.proc.phase = .refill pass r) :
    Follows (s.stepRefill pass r) t.next key handle := by
  obtain ⟨hfile, hdata, hcall, hoffset⟩ := h
  rw [hphase] at hfile hcall hoffset
  obtain ⟨rfl, rfl⟩ := hfile r rfl
  have hpiece : t.piece (r.call false) = slice (dataOf s.fs r.handle) (r.pos + r.buf.length) CHUNK_BYTES := by
    rw [LineFile.piece, hdata]
    rfl
  have hnext : t.next = t.outer (r.call false) := by
    rw [LineFile.next, hcall]
    rfl
  rw [hnext, LineFile.outer, hpiece, show (r.call false).lines = r.lines from rfl]
  unfold Sys.stepRefill
  by_cases hend : r.lines ≥ MAX_LINES_PER_FILE_PASS ∨
      slice (dataOf s.fs r.handle) (r.pos + r.buf.length) CHUNK_BYTES = []
  · rw [if_pos hend, if_pos hend]
    exact ⟨fun _ hr => (nomatch hr), hdata, rfl, hoffset⟩
  · rw [if_neg hend, if_neg hend]
    refine ⟨fun r' hr' => ?_, hdata, rfl, hoffset⟩
    obtain rfl := Option.some.inj hr'
    exact ⟨rfl, rfl⟩

/-- The inner loop without a complete line. -/
theorem Follows.leave (h : Follows s t key handle) (hphase : s.proc.phase = .split pass r) (r' : Reading)
    (hr' : r'.key = r.key ∧ r'.handle = r.handle) {t' : LineFile} (hdata : t'.data = t.data)
    (hoffset : t'.offset = t.offset) :
    Follows ((if r'.skipping then s.setOffset r'.key r'.pos else s).goto (.refill pass r'))
      (t'.leave (r'.call true)) key handle := by
  have hoff := h.offset
  rw [hphase] at hoff
  obtain ⟨hkey, hhandle⟩ := h.file r (by rw [hphase]; rfl)
  obtain ⟨tf, htf, -⟩ := Option.map_eq_some_iff.1 hoff
  have hfile : ∀ r'' ∈ (Phase.refill pass r').reading, r''.key = key ∧ r''.handle = handle := by
    intro r'' hr''
    obtain rfl := Option.some.inj hr''
    exact ⟨hr'.1.trans hkey, hr'.2.trans hhandle⟩
  cases hskip : r'.skipping with
  | true =>
    rw [if_pos rfl, hr'.1.trans hkey]
    refine h.readOn htf hfile hdata (congrArg some ?_) ?_ fun _ => rfl
    · rfl
    · exact if_pos hskip
  | false =>
    rw [if_neg Bool.false_ne_true]
    refine ⟨hfile, hdata.trans h.data, rfl, hoff.trans (congrArg some ?_)⟩
    exact hoffset.symm.trans (if_neg fun h => Bool.false_ne_true (hskip.symm.trans h)).symm

theorem Follows.split (h : Follows s t key handle) (hphase : s.proc.phase = .split pass r) :
    Follows (s.stepSplit pass r) t.next key handle ∧
      (s.stepSplit pass r).log.map (·.line) = s.log.map (·.line) ++ sentLines t t.next := by
  have hcall := h.call
  have hoff := h.offset
  rw [hphase] at hcall hoff
  obtain ⟨hkey, hhandle⟩ := h.file r (by rw [hphase]; rfl)
  obtain ⟨tf, htf, -⟩ := Option.map_eq_some_iff.1 hoff
  have hnext : t.next = t.inner ⟨r.pos, r.buf, r.skipping, r.lines, true⟩ := by
    rw [LineFile.next, hcall]
    rfl
  have hsilent : ∀ (s' : Sys) (t' : LineFile), s'.log = s.log → t.handled = t'.handled →
      s'.log.map (·.line) = s.log.map (·.line) ++ sentLines t t' := by
    intro s' t' hlog hhandled
    rw [hlog, sentLines_same hhandled, List.append_nil]
  have hfile : ∀ r', r'.key = r.key → r'.handle = r.handle →
      ∀ r'' ∈ (Phase.split pass r').reading, r''.key = key ∧ r''.handle = handle := by
    intro r' hk hh r'' hr''
    obtain rfl := Option.some.inj hr''
    exact ⟨hk.trans hkey, hh.trans hhandle⟩
  rw [hnext]
  obtain ⟨k, file, pos, buf, skipping, lines⟩ := r
  dsimp only at hkey hhandle
  subst hkey hhandle
  unfold Sys.stepSplit LineFile.inner
  dsimp only
  by_cases hfull : lines ≥ MAX_LINES_PER_FILE_PASS
  · rw [if_pos hfull, if_pos hfull]
    refine ⟨h.leave hphase _ ⟨rfl, rfl⟩ rfl rfl, hsilent _ _ ?_ rfl⟩
    cases skipping <;> rfl
  rw [if_neg hfull, if_neg hfull]
  cases buf.findIdx? (· = NEWLINE) with
  | none =>
    dsimp only
    by_cases hlong : buf.length > MAX_LINE_BYTES
    · rw [if_pos hlong, if_pos hlong]
      refine ⟨h.leave hphase ⟨k, file, pos + buf.length, [], true, lines⟩ ⟨rfl, rfl⟩ ?_ ?_, hsilent _ _ rfl rfl⟩
      · rfl
      · rfl
    · rw [if_neg hlong, if_neg hlong]
      refine ⟨h.leave hphase _ ⟨rfl, rfl⟩ rfl rfl, hsilent _ _ ?_ rfl⟩
      cases skipping <;> rfl
  | some nl =>
    dsimp only
    cases skipping with
    | true =>
      rw [if_pos rfl, if_pos rfl]
      refine ⟨h.readOn htf ?_ ?_ ?_ ?_ fun _ => rfl, hsilent _ _ rfl rfl⟩
      · exact hfile _ rfl rfl
      · rfl
      · rfl
      · rfl
    | false =>
      rw [if_neg Bool.false_ne_true, if_neg Bool.false_ne_true]
      by_cases hsendable : sendable (buf.take nl)
      · rw [if_pos hsendable, sentLines_concat rfl, if_pos hsendable]
        refine ⟨⟨hfile _ rfl rfl, h.data, rfl, ?_⟩, List.map_append⟩
        exact congrArg (Option.map _) htf
      · rw [if_neg hsendable, sentLines_concat rfl, if_neg hsendable, List.append_nil]
        refine ⟨h.readOn htf ?_ ?_ ?_ ?_ fun _ => rfl, rfl⟩
        · exact hfile _ rfl rfl
        · rfl
        · rfl
        · rfl

theorem Follows.sent (h : Follows s t key handle) (hphase : s.proc.phase = .sent pass r) (cfg : Config) :
    Follows (s.stepSent cfg pass r) t key handle := by
  have hcall := h.call
  have hoff := h.offset
  rw [hphase] at hcall hoff
  obtain ⟨hkey, hhandle⟩ := h.file r (by rw [hphase]; rfl)
  obtain ⟨tf, htf, hat⟩ := Option.map_eq_some_iff.1 hoff
  unfold Sys.stepSent
  have hsaved : ∀ u : Sys, u.fs = s.fs → u.proc.tailFiles = s.proc.tailFiles →
      Follows ((u.setOffset r.key r.pos).goto (.split pass { r with lines := r.lines + 1 })) t key handle := by
    intro u hfs htails
    obtain ⟨tf', htf', hpos⟩ := get?_setOffset (htails ▸ htf) r.pos
    refine ⟨?_, h.data.trans (congrArg (dataOf · handle) hfs.symm), hcall, ?_⟩
    · intro r' hr'
      obtain rfl := Option.some.inj hr'
      exact ⟨hkey, hhandle⟩
    · show ((setOffset u.proc.tailFiles r.key r.pos).get? key).map _ = _
      rw [hkey, htf']
      exact congrArg some (hpos.trans hat)
  split
  · exact hsaved _ rfl rfl
  · exact hsaved _ rfl rfl

/-- **The sender reads a file as `LineFile` does**: while it is in the file, a step of it is a round of the
loops, or the end of the round in which it sent a line, and what it sends are the lines handled. -/
theorem Follows.step {cfg : Config} (h : Follows s t key handle) (hreading : s.proc.phase.reading.isSome)
    (hs : s.step cfg = some s') : ∃ t', (t' = t.next ∨ t' = t) ∧ Follows s' t' key handle ∧
      s'.log.map (·.line) = s.log.map (·.line) ++ sentLines t t' := by
  unfold Sys.step at hs
  cases hphase : s.proc.phase with
  | refill pass r =>
    rw [hphase] at hs
    obtain rfl := Option.some.inj hs
    refine ⟨t.next, .inl rfl, h.refill hphase, ?_⟩
    have hcall := h.call
    rw [hphase] at hcall
    have hhandled : t.handled = t.next.handled := by
      rw [LineFile.next, hcall]
      show _ = (t.outer (r.call false)).handled
      unfold LineFile.outer
      split <;> rfl
    have hlog : (s.stepRefill pass r).log = s.log := by
      unfold Sys.stepRefill
      dsimp only
      split <;> rfl
    rw [hlog, sentLines_same hhandled, List.append_nil]
  | split pass r =>
    rw [hphase] at hs
    obtain rfl := Option.some.inj hs
    obtain ⟨hfollows, hlog⟩ := h.split hphase
    exact ⟨t.next, .inl rfl, hfollows, hlog⟩
  | sent pass r =>
    rw [hphase] at hs
    obtain rfl := Option.some.inj hs
    refine ⟨t, .inr rfl, h.sent hphase cfg, ?_⟩
    have hlog : (s.stepSent cfg pass r).log = s.log := by
      unfold Sys.stepSent
      split <;> rfl
    rw [hlog, sentLines_same rfl, List.append_nil]
  | idle | listed _ | stated _ _ _ _ | prefixed _ _ _ _ _ | opening _ _ _ | passed _ =>
    rw [hphase] at hreading
    cases hreading

end Following

/-! ## The lines of the file -/

def isShort (line : Bytes) : Bool := line.length ≤ MAX_LINE_BYTES

/-- The complete lines of `bytes` that are not oversized were handled in order, the others and
`more` counted. -/
structure LinesOf (bytes : Bytes) (handled : List Bytes) (rejected more : Nat) : Prop where
  handled : handled = (splitLines bytes).1.filter isShort
  rejected : rejected = (splitLines bytes).1.countP (! isShort ·) + more

namespace LineFile

/-- Between calls: the saved offset starts a line, and all lines before it are accounted for. -/
structure Extracted (s : LineFile) : Prop where
  offset : AtLine s.data s.offset
  lines : LinesOf (s.data.take s.offset) s.handled s.rejectedOversize 0

/-- All complete lines of the file are accounted for. -/
def CaughtUp (s : LineFile) : Prop := LinesOf s.data s.handled s.rejectedOversize 0

/-- Where a running call stands. -/
structure Running (s : LineFile) (c : LineCall) : Prop where
  offset : s.offset = c.pos
  ahead : ∃ rest, s.data.drop c.pos = c.buf ++ rest
  le : c.pos ≤ s.data.length
  line : if c.skipping then MAX_LINE_BYTES < (splitLines (s.data.take c.pos)).2.length
    else (splitLines (s.data.take c.pos)).2 = []
  lines : LinesOf (s.data.take c.pos) s.handled s.rejectedOversize (if c.skipping then 1 else 0)
  counted : s.handled.length = s.before + c.lines
  budget : c.lines ≤ MAX_LINES_PER_FILE_PASS
  searched : c.inner = false → c.lines < MAX_LINES_PER_FILE_PASS → NEWLINE ∉ c.buf

/-- The state of the file in every run. -/
def Inv (s : LineFile) : Prop :=
  match s.call with
  | none => s.Extracted
  | some c => s.Running c

end LineFile

/-- No oversized line is handled, and no call ends inside one. -/
def InStep (s : LineFile) : LineAct → Prop
  | .round => ∀ c ∈ s.call, if c.inner then
      c.lines < MAX_LINES_PER_FILE_PASS → c.skipping = false →
        ∀ nl ∈ c.buf.findIdx? (· = NEWLINE), nl ≤ MAX_LINE_BYTES
      else c.lines ≥ MAX_LINES_PER_FILE_PASS ∨ s.piece c = [] → c.skipping = false
  | .grow _ | .call => True

instance (s : LineFile) (a : LineAct) : Decidable (InStep s a) :=
  match a with
  | .round => inferInstanceAs (Decidable (∀ c ∈ s.call, if c.inner then
      c.lines < MAX_LINES_PER_FILE_PASS → c.skipping = false →
        ∀ nl ∈ c.buf.findIdx? (· = NEWLINE), nl ≤ MAX_LINE_BYTES
      else c.lines ≥ MAX_LINES_PER_FILE_PASS ∨ s.piece c = [] → c.skipping = false))
  | .grow _ | .call => inferInstanceAs (Decidable True)

variable {s : LineFile} {c : LineCall}

theorem LineFile.Inv.grow (h : s.Inv) (bs : Bytes) : { s with data := s.data ++ bs }.Inv := by
  unfold LineFile.Inv at h ⊢
  cases hc : s.call with
  | none =>
    rw [hc] at h
    refine ⟨h.offset.append bs, ?_⟩
    dsimp only
    rw [List.take_append_of_le_length h.offset.1]
    exact h.lines
  | some c =>
    rw [hc] at h
    obtain ⟨rest, hrest⟩ := h.ahead
    have htake : (s.data ++ bs).take c.pos = s.data.take c.pos := List.take_append_of_le_length h.le
    refine ⟨h.offset, ⟨rest ++ bs, ?_⟩, ?_, ?_, ?_, h.counted, h.budget, h.searched⟩
    · rw [List.drop_append_of_le_length h.le, hrest, List.append_assoc]
    · rw [List.length_append]
      exact h.le.trans (Nat.le_add_right _ _)
    · rw [htake]
      exact h.line
    · rw [htake]
      exact h.lines

theorem LineFile.Extracted.start (h : s.Extracted) :
    s.start.Running ⟨s.offset, [], false, 0, false⟩ where
  offset := rfl
  ahead := ⟨s.data.drop s.offset, rfl⟩
  le := h.offset.1
  line := h.offset.2
  lines := h.lines
  counted := rfl
  budget := Nat.zero_le _
  searched := fun _ _ => List.not_mem_nil

/-! ## The outer loop -/

theorem LineFile.piece_eq {rest : Bytes} (hrest : s.data.drop c.pos = c.buf ++ rest) :
    s.piece c = rest.take CHUNK_BYTES := by
  rw [LineFile.piece, slice, ← List.drop_drop, hrest, List.drop_left]

theorem LineFile.Running.outer (h : s.Running c)
    (hstep : c.lines ≥ MAX_LINES_PER_FILE_PASS ∨ s.piece c = [] → c.skipping = false) :
    (s.outer c).Inv := by
  unfold LineFile.outer
  split
  · rename_i hend
    have hskip := hstep hend
    have hline := h.line
    have hlines := h.lines
    rw [hskip] at hline hlines
    rw [if_neg Bool.false_ne_true] at hline hlines
    rw [← h.offset] at hline hlines
    exact ⟨⟨h.offset.le.trans h.le, hline⟩, hlines⟩
  · obtain ⟨rest, hrest⟩ := h.ahead
    refine ⟨h.offset, ⟨rest.drop CHUNK_BYTES, ?_⟩, h.le, h.line, h.lines, h.counted, h.budget,
      fun hi => Bool.noConfusion hi⟩
    rw [LineFile.piece_eq hrest, List.append_assoc, List.take_append_drop]
    exact hrest

/-- A call that ends before its budget has accounted for every complete line. -/
theorem LineFile.Running.caughtUp (h : s.Running c) (hinner : c.inner = false)
    (hskip : c.skipping = false) (hlines : c.lines < MAX_LINES_PER_FILE_PASS)
    (hend : s.piece c = []) : s.CaughtUp := by
  obtain ⟨rest, hrest⟩ := h.ahead
  have hnil : rest = [] := by
    rw [LineFile.piece_eq hrest, List.take_eq_nil_iff] at hend
    rcases hend with hend | hend
    · cases hend
    · exact hend
  have hdata : s.data = s.data.take c.pos ++ c.buf := by
    rw [← List.append_nil c.buf, ← hnil, ← hrest, List.take_append_drop]
  have hsplit := splitLines_append (a := s.data.take c.pos) (h.searched hinner hlines)
  rw [← hdata] at hsplit
  have hall := h.lines
  rw [hskip] at hall
  refine ⟨?_, ?_⟩
  · rw [hsplit]
    exact hall.handled
  · rw [hsplit]
    exact hall.rejected

/-! ## The inner loop -/

theorem LineFile.Running.leave (h : s.Running c)
    (hsearched : c.lines < MAX_LINES_PER_FILE_PASS → NEWLINE ∉ c.buf) : (s.leave c).Inv := by
  refine ⟨?_, h.ahead, h.le, h.line, h.lines, h.counted, h.budget, fun _ => hsearched⟩
  show (if c.skipping then c.pos else s.offset) = c.pos
  rw [h.offset, ite_self]

/-- What there is of an oversized line is discarded. -/
theorem LineFile.Running.oversize (h : s.Running c)
    (hnl : c.buf.findIdx? (· = NEWLINE) = none) (hlong : c.buf.length > MAX_LINE_BYTES) :
    { s with rejectedOversize := s.rejectedOversize + if c.skipping then 0 else 1
             offset := c.pos + c.buf.length }.Running
      { c with pos := c.pos + c.buf.length, buf := [], skipping := true } := by
  obtain ⟨rest, hrest⟩ := h.ahead
  have htake : s.data.take (c.pos + c.buf.length) = s.data.take c.pos ++ c.buf := by
    rw [List.take_add, hrest, List.take_left]
  have hsplit := splitLines_append (a := s.data.take c.pos) (findIdx_none hnl)
  rw [← htake] at hsplit
  have hlen := congrArg List.length hrest
  rw [List.length_drop, List.length_append] at hlen
  have hle := h.le
  refine ⟨rfl, ⟨rest, ?_⟩, ?_, ?_, ⟨?_, ?_⟩, h.counted, h.budget, fun _ _ => List.not_mem_nil⟩
  · rw [← List.drop_drop, hrest, List.drop_left, List.nil_append]
  · dsimp only
    omega
  · rw [if_pos rfl, hsplit, List.length_append]
    exact Nat.lt_of_lt_of_le hlong (Nat.le_add_left _ _)
  · rw [hsplit]
    exact h.lines.handled
  · have hrej := h.lines.rejected
    rw [hsplit, hrej, if_pos rfl]
    cases c.skipping <;> rfl

/-- What the next newline of the buffer completes. -/
theorem LineFile.Running.newline (h : s.Running c) {nl : Nat}
    (hnl : c.buf.findIdx? (· = NEWLINE) = some nl) :
    c.pos + nl + 1 ≤ s.data.length ∧ (c.buf.take nl).length = nl ∧
      (∃ rest, s.data.drop (c.pos + nl + 1) = c.buf.drop (nl + 1) ++ rest) ∧
      splitLines (s.data.take (c.pos + nl + 1)) = ((splitLines (s.data.take c.pos)).1 ++
        [(splitLines (s.data.take c.pos)).2 ++ c.buf.take nl], []) := by
  obtain ⟨rest, hrest⟩ := h.ahead
  obtain ⟨hlt, hnot, hbuf⟩ := findIdx_newline hnl
  have hlen := congrArg List.length hrest
  rw [List.length_drop, List.length_append] at hlen
  have htl : (c.buf.take nl).length = nl := by
    rw [List.length_take]
    omega
  refine ⟨by omega, htl, ⟨rest, ?_⟩, ?_⟩
  · rw [Nat.add_assoc, ← List.drop_drop, hrest, List.drop_append_of_le_length (by omega)]
  · rw [← splitLines_newline hnot]
    congr 1
    rw [Nat.add_assoc, List.take_add, hrest, List.take_append_of_le_length (by omega),
      List.append_assoc]
    congr 1
    have := congrArg (List.take (nl + 1)) hbuf
    rwa [List.take_left' (by rw [List.length_append, htl]; rfl)] at this

theorem LineFile.Running.inner (h : s.Running c) (hinner : c.inner = true)
    (hstep : c.lines < MAX_LINES_PER_FILE_PASS → c.skipping = false →
      ∀ nl ∈ c.buf.findIdx? (· = NEWLINE), nl ≤ MAX_LINE_BYTES) : (s.inner c).Inv := by
  unfold LineFile.inner
  split
  · rename_i hfull
    exact h.leave fun hlt => absurd hfull (Nat.not_le.2 hlt)
  rename_i hroom
  cases hnl : c.buf.findIdx? (· = NEWLINE) with
  | none =>
    simp only
    split
    · rename_i hlong
      have hrun := (h.oversize hnl hlong).leave fun _ => List.not_mem_nil
      exact hrun
    · exact h.leave fun _ => findIdx_none hnl
  | some nl =>
    obtain ⟨hle, hlen, hrest, hsplit⟩ := h.newline hnl
    have hline := h.line
    have hhandled := h.lines.handled
    have hrej := h.lines.rejected
    simp only
    split
    · -- the newline ends an oversized line, which is now counted among the lines
      rename_i hskip
      rw [hskip] at hline hrej
      have hlong : isShort ((splitLines (s.data.take c.pos)).2 ++ c.buf.take nl) = false := by
        simp only [if_true] at hline
        rw [isShort, List.length_append, decide_eq_false_iff_not]
        omega
      refine ⟨rfl, hrest, hle, ?_, ⟨?_, ?_⟩, h.counted, h.budget, fun hi => ?_⟩
      · dsimp only
        rw [if_neg Bool.false_ne_true, hsplit]
      · dsimp only
        rw [hsplit, List.filter_append, hhandled]
        simp [hlong]
      · dsimp only
        rw [hsplit, List.countP_append, hrej]
        simp [hlong]
      · exact absurd (hinner.symm.trans hi) Bool.noConfusion
    · rename_i hskip
      have hskip' : c.skipping = false := Bool.not_eq_true _ ▸ hskip
      rw [hskip'] at hline hrej
      rw [if_neg Bool.false_ne_true] at hline hrej
      have hshort : isShort (c.buf.take nl) = true := by
        rw [isShort, hlen]
        exact decide_eq_true (hstep (Nat.not_le.1 hroom) hskip' nl hnl)
      rw [hline, List.nil_append] at hsplit
      refine ⟨rfl, hrest, hle, ?_, ⟨?_, ?_⟩, ?_, ?_, fun hi => ?_⟩
      · dsimp only
        rw [hskip', if_neg Bool.false_ne_true, hsplit]
      · dsimp only
        rw [hsplit, List.filter_append, hhandled]
        simp [hshort]
      · dsimp only
        rw [hsplit, List.countP_append, hrej, hskip']
        simp [hshort]
      · dsimp only
        rw [List.length_append, h.counted]
        rfl
      · dsimp only
        omega
      · exact absurd (hinner.symm.trans hi) Bool.noConfusion

/-! ## Runs -/

theorem LineFile.Inv.step {s s' : LineFile} {a : LineAct} (h : s.Inv) (hC : InStep s a)
    (hs : stepLines s a = some s') : s'.Inv := by
  cases a with
  | grow more =>
    obtain rfl := Option.some.inj hs
    exact h.grow more
  | call =>
    unfold stepLines at hs
    cases hc : s.call with
    | some c =>
      rw [hc] at hs
      cases hs
    | none =>
      rw [hc] at hs
      obtain rfl := Option.some.inj hs
      unfold LineFile.Inv at h
      rw [hc] at h
      exact h.start
  | round =>
    unfold stepLines at hs
    cases hc : s.call with
    | none =>
      rw [hc] at hs
      cases hs
    | some c =>
      rw [hc] at hs
      obtain rfl := Option.some.inj hs
      unfold LineFile.Inv at h
      rw [hc] at h
      have hstep := hC c hc
      unfold LineFile.next
      rw [hc]
      dsimp only
      cases hi : c.inner with
      | true =>
        rw [hi, if_pos rfl] at hstep
        exact h.inner hi hstep
      | false =>
        rw [hi, if_neg Bool.false_ne_true] at hstep
        exact h.outer hstep

theorem lineFile_inv {s : LineFile} (h : lineFile.Reach InStep s) : s.Inv :=
  h.invariant ⟨AtLine.zero [], rfl, rfl⟩ fun _ _ _ hI hC hs => hI.step hC hs

/-! ## Every call ends -/

/-- What a call has left to do. -/
def LineFile.left (s : LineFile) (c : LineCall) : Nat :=
  4 * (s.data.length - (c.pos + c.buf.length)) + 2 * c.buf.length + if c.inner then 1 else 0

theorem LineFile.outer_left (s : LineFile) {c : LineCall} (hi : c.inner = false) :
    (s.outer c).call = none ∨
      ∃ c', (s.outer c).call = some c' ∧ (s.outer c).data = s.data ∧ s.left c' < s.left c := by
  unfold LineFile.outer
  split
  · exact .inl rfl
  · rename_i hmore
    rw [not_or] at hmore
    refine .inr ⟨_, rfl, rfl, ?_⟩
    have hpos := List.length_pos_iff.2 hmore.2
    have hle : (s.piece c).length ≤ s.data.length - (c.pos + c.buf.length) := by
      rw [LineFile.piece, slice, List.length_take, List.length_drop]
      omega
    unfold LineFile.left
    rw [hi]
    simp only [List.length_append, if_true, Bool.false_eq_true, if_false]
    omega

theorem LineFile.inner_left (s : LineFile) {c : LineCall} (hi : c.inner = true) :
    ∃ c', (s.inner c).call = some c' ∧ (s.inner c).data = s.data ∧ s.left c' < s.left c := by
  have hleave : ∀ t : LineFile, t.data = s.data → ∃ c', (t.leave c).call = some c' ∧
      (t.leave c).data = s.data ∧ s.left c' < s.left c := by
    intro t ht
    refine ⟨_, rfl, ht, ?_⟩
    unfold LineFile.left
    rw [hi]
    simp
  unfold LineFile.inner
  split
  · exact hleave s rfl
  cases hnl : c.buf.findIdx? (· = NEWLINE) with
  | none =>
    simp only
    split
    · refine ⟨_, rfl, rfl, ?_⟩
      unfold LineFile.left
      rw [hi]
      simp only [List.length_nil, Bool.false_eq_true, if_false, if_true]
      omega
    · exact hleave s rfl
  | some nl =>
    obtain ⟨hlt, _, _⟩ := findIdx_newline hnl
    simp only
    split
    · refine ⟨_, rfl, rfl, ?_⟩
      unfold LineFile.left
      simp only [List.length_drop, hi, if_true]
      omega
    · refine ⟨_, rfl, rfl, ?_⟩
      unfold LineFile.left
      simp only [List.length_drop, hi, if_true]
      omega

/-- `n` rounds while the file does not grow. -/
def LineFile.rounds : Nat → LineFile → LineFile
  | 0, s => s
  | n + 1, s => s.next.rounds n

theorem call_ends (s : LineFile) : ∃ n, (s.rounds n).call = none := by
  cases hc : s.call with
  | none => exact ⟨0, hc⟩
  | some c =>
    induction hm : s.left c using Nat.strongRecOn generalizing s c with
    | ind m ih =>
      have hnext : s.next.call = none ∨ ∃ c', s.next.call = some c' ∧ s.next.data = s.data ∧
          s.left c' < s.left c := by
        unfold LineFile.next
        rw [hc]
        dsimp only
        cases hi : c.inner with
        | true => exact .inr (s.inner_left hi)
        | false => exact s.outer_left hi
      rcases hnext with hnone | ⟨c', hc', hdata, hlt⟩
      · exact ⟨1, hnone⟩
      · have hleft : s.next.left c' = s.left c' := by
          unfold LineFile.left
          rw [hdata]
        obtain ⟨n, hn⟩ := ih (s.next.left c') (by omega) s.next c' hc' rfl
        exact ⟨n + 1, hn⟩

/-! ## What a call does to the file's lines -/

theorem next_none {s : LineFile} {c : LineCall} (hc : s.call = some c) (hend : s.next.call = none) :
    c.inner = false ∧ (c.lines ≥ MAX_LINES_PER_FILE_PASS ∨ s.piece c = []) ∧
      s.next = { s with call := none } := by
  unfold LineFile.next at hend ⊢
  rw [hc] at hend ⊢
  dsimp only at hend ⊢
  cases hi : c.inner with
  | true =>
    rw [hi, if_pos rfl] at hend
    obtain ⟨c', hc', _⟩ := s.inner_left hi
    rw [hc'] at hend
    cases hend
  | false =>
    rw [hi, if_neg Bool.false_ne_true] at hend
    unfold LineFile.outer at hend ⊢
    split at hend
    · rename_i hstop
      rw [if_neg Bool.false_ne_true, if_pos hstop]
      exact ⟨rfl, hstop, rfl⟩
    · cases hend

/-- A call that ends has used up its budget or accounted for every complete line. -/
theorem LineFile.Running.ended {s : LineFile} {c : LineCall} (h : s.Running c)
    (hc : s.call = some c) (hC : InStep s .round) (hend : s.next.call = none) :
    s.next.handled.length = s.next.before + MAX_LINES_PER_FILE_PASS ∨ s.next.CaughtUp := by
  obtain ⟨hi, hstop, hnext⟩ := next_none hc hend
  have hskip := hC c hc
  rw [hi, if_neg Bool.false_ne_true] at hskip
  rw [hnext]
  have hcounted := h.counted
  have hbudget := h.budget
  by_cases hfull : c.lines ≥ MAX_LINES_PER_FILE_PASS
  · refine .inl ?_
    dsimp only
    omega
  · have hpiece := hstop.resolve_left hfull
    exact .inr (h.caughtUp hi (hskip hstop) (Nat.not_le.1 hfull) hpiece)

/-- A round out of step handles an oversized line, or ends the call inside one. -/
theorem LineFile.Running.out_of_step {s : LineFile} {c : LineCall} (h : s.Running c)
    (hc : s.call = some c) (hC : ¬ InStep s .round) :
    (∃ line ∈ s.next.handled, MAX_LINE_BYTES < line.length) ∨
      s.next.call = none ∧ ¬ AtLine s.next.data s.next.offset := by
  have hnot : ¬ (if c.inner then
      c.lines < MAX_LINES_PER_FILE_PASS → c.skipping = false →
        ∀ nl ∈ c.buf.findIdx? (· = NEWLINE), nl ≤ MAX_LINE_BYTES
      else c.lines ≥ MAX_LINES_PER_FILE_PASS ∨ s.piece c = [] → c.skipping = false) := by
    intro hstep
    refine hC fun c' hc' => ?_
    obtain rfl := Option.some.inj (hc.symm.trans hc')
    exact hstep
  unfold LineFile.next
  rw [hc]
  dsimp only
  cases hi : c.inner with
  | true =>
    rw [hi, if_pos rfl] at hnot
    simp only [not_forall, Nat.not_le] at hnot
    obtain ⟨hlines, hskip, nl, hnl, hlong⟩ := hnot
    obtain ⟨_, hlen, _⟩ := h.newline hnl
    refine .inl ⟨c.buf.take nl, ?_, by omega⟩
    unfold LineFile.inner
    rw [if_pos rfl, if_neg (Nat.not_le.2 hlines), hnl]
    simp [hskip]
  | false =>
    rw [hi, if_neg Bool.false_ne_true] at hnot
    rw [Classical.not_imp] at hnot
    obtain ⟨hstop, hskip⟩ := hnot
    have hline := h.line
    rw [if_pos (Bool.not_eq_false _ ▸ hskip)] at hline
    refine .inr ?_
    unfold LineFile.outer
    rw [if_neg Bool.false_ne_true, if_pos hstop]
    refine ⟨rfl, fun hat => ?_⟩
    have hnil := hat.2
    dsimp only at hnil
    rw [h.offset] at hnil
    rw [hnil, List.length_nil] at hline
    omega

/-- **Line extraction.**  In every run in step, between calls the lines handled are the complete
lines before the saved offset that are not oversized, each once and in order, the others are
counted once each, and the offset starts a line; a call that ends used up its budget or left no
complete line.  A round out of step handles an oversized line or leaves the offset inside one.
Every call ends. -/
theorem lines_extracted (s : LineFile) :
    (lineFile.Reach InStep s →
      (s.call = none → s.Extracted) ∧
      (∀ c, s.call = some c → InStep s .round → s.next.call = none →
        s.next.handled.length = s.next.before + MAX_LINES_PER_FILE_PASS ∨ s.next.CaughtUp) ∧
      (∀ c, s.call = some c → ¬ InStep s .round →
        (∃ line ∈ s.next.handled, MAX_LINE_BYTES < line.length) ∨
          s.next.call = none ∧ ¬ AtLine s.next.data s.next.offset)) ∧
    ∃ n, (s.rounds n).call = none := by
  refine ⟨fun h => ?_, call_ends s⟩
  have hinv := lineFile_inv h
  unfold LineFile.Inv at hinv
  refine ⟨?_, ?_, ?_⟩
  · intro hc
    rw [hc] at hinv
    exact hinv
  · intro c hc hC hend
    rw [hc] at hinv
    exact hinv.ended hc hC hend
  · intro c hc hC
    rw [hc] at hinv
    exact hinv.out_of_step hc hC

/-- Two calls on a growing file: the line that was incomplete at the first is handled at the
second. -/
theorem lines_extracted_two : ∃ s, lineFile.Reach InStep s ∧ s.handled = [[97], [98, 99]] ∧
    s.offset = 5 ∧ s.Extracted := by
  have hrun : (lineFile.runMeeting InStep lineFile.init
      [.grow [97, 10, 98], .call, .round, .round, .round, .round, .grow [99, 10], .call, .round,
        .round, .round, .round]).any
      (fun s => s.call.isNone ∧ s.handled = [[97], [98, 99]] ∧ s.offset = 5) = true := by
    decide +kernel
  obtain ⟨s, hs, hprop⟩ := (Option.any_eq_true _ _).1 hrun
  obtain ⟨hnone, hhandled, hoff⟩ := of_decide_eq_true hprop
  have hreach := Machine.reach_of_run _ hs
  have hcall : s.call = none := Option.isNone_iff_eq_none.1 hnone
  exact ⟨s, hreach, hhandled, hoff, ((lines_extracted s).1 hreach).1 hcall⟩

/-- Reading a file without a newline, `k` chunks in. -/
def chunksIn (d : Bytes) (k : Nat) : LineFile :=
  ⟨d, 0, [], 0, 0, some ⟨0, d.take (k * CHUNK_BYTES), false, 0, false⟩⟩

theorem chunksIn_outer {d : Bytes} (hlen : d.length = MAX_LINE_BYTES + 1) {k : Nat} (hk : k < 17) :
    (chunksIn d k).next =
      ⟨d, 0, [], 0, 0, some ⟨0, d.take ((k + 1) * CHUNK_BYTES), false, 0, true⟩⟩ := by
  have htake : (d.take (k * CHUNK_BYTES)).length = k * CHUNK_BYTES := by
    rw [List.length_take, hlen]
    unfold CHUNK_BYTES MAX_LINE_BYTES
    omega
  have hpiece : (chunksIn d k).piece ⟨0, d.take (k * CHUNK_BYTES), false, 0, false⟩ =
      (d.drop (k * CHUNK_BYTES)).take CHUNK_BYTES := by
    rw [LineFile.piece, slice]
    dsimp only [chunksIn]
    rw [htake, Nat.zero_add]
  have hne : (d.drop (k * CHUNK_BYTES)).take CHUNK_BYTES ≠ [] := by
    rw [← List.length_pos_iff, List.length_take, List.length_drop, hlen]
    unfold CHUNK_BYTES MAX_LINE_BYTES
    omega
  have hbuf : d.take (k * CHUNK_BYTES) ++ (d.drop (k * CHUNK_BYTES)).take CHUNK_BYTES =
      d.take ((k + 1) * CHUNK_BYTES) := by
    rw [Nat.succ_mul, List.take_add]
  show (chunksIn d k).outer ⟨0, d.take (k * CHUNK_BYTES), false, 0, false⟩ = _
  unfold LineFile.outer
  rw [hpiece, if_neg (by simp [hne, MAX_LINES_PER_FILE_PASS]), hbuf]
  rfl

theorem take_findIdx? {d : Bytes} (hnl : NEWLINE ∉ d) (n : Nat) :
    (d.take n).findIdx? (· = NEWLINE) = none := by
  rw [List.findIdx?_eq_none_iff]
  intro b hb
  exact decide_eq_false fun e => hnl (e ▸ List.mem_of_mem_take hb)

theorem chunksIn_succ {d : Bytes} (hlen : d.length = MAX_LINE_BYTES + 1) (hnl : NEWLINE ∉ d)
    {k : Nat} (hk : k < 16) : (chunksIn d k).next.next = chunksIn d (k + 1) := by
  rw [chunksIn_outer hlen (by omega)]
  show LineFile.inner _ ⟨0, d.take ((k + 1) * CHUNK_BYTES), false, 0, true⟩ = _
  unfold LineFile.inner
  rw [if_neg (by simp [MAX_LINES_PER_FILE_PASS])]
  dsimp only
  rw [take_findIdx? hnl]
  dsimp only
  rw [if_neg]
  · rfl
  · rw [List.length_take, hlen]
    unfold CHUNK_BYTES MAX_LINE_BYTES
    omega

theorem chunksIn_reach {d : Bytes} (hlen : d.length = MAX_LINE_BYTES + 1) (hnl : NEWLINE ∉ d) :
    ∀ k ≤ 16, lineFile.Reach (fun _ _ => True) (chunksIn d k)
  | 0, _ => by
    have h1 : lineFile.Reach (fun _ _ => True) ⟨d, 0, [], 0, 0, none⟩ :=
      Machine.Reach.init.step (a := .grow d) trivial rfl
    exact h1.step (a := .call) trivial rfl
  | k + 1, hk => by
    have h := chunksIn_reach hlen hnl k (by omega)
    have h1 : lineFile.Reach (fun _ _ => True) (chunksIn d k).next :=
      h.step (a := .round) trivial rfl
    refine h1.step (a := .round) trivial ?_
    show stepLines _ .round = _
    rw [← chunksIn_succ hlen hnl (by omega), chunksIn_outer hlen (by omega)]
    rfl

/-- **One byte over the limit and no newline: the offset is left inside the first line.** -/
theorem read_lines_inside : ¬ ∀ s, lineFile.Reach (fun _ _ => True) s → s.call = none →
    s.Extracted := by
  intro hall
  obtain ⟨d, hlen, hnl⟩ : ∃ d : Bytes, d.length = MAX_LINE_BYTES + 1 ∧ NEWLINE ∉ d :=
    ⟨List.replicate _ 97, List.length_replicate, fun h => by cases List.eq_of_mem_replicate h⟩
  have hbuf : d.take (17 * CHUNK_BYTES) = d := by
    apply List.take_of_length_le
    rw [hlen]
    decide
  have hlast : (chunksIn d 16).next = ⟨d, 0, [], 0, 0, some ⟨0, d, false, 0, true⟩⟩ := by
    rw [chunksIn_outer hlen (by omega), hbuf]
  have hdiscard : (chunksIn d 16).next.next =
      ⟨d, d.length, [], 1, 0, some ⟨d.length, [], true, 0, false⟩⟩ := by
    rw [hlast]
    show LineFile.inner _ ⟨0, d, false, 0, true⟩ = _
    unfold LineFile.inner
    have hnone : d.findIdx? (· = NEWLINE) = none := by
      have := take_findIdx? hnl d.length
      rwa [List.take_length] at this
    rw [if_neg (by simp [MAX_LINES_PER_FILE_PASS])]
    dsimp only
    rw [hnone]
    dsimp only
    rw [if_pos (by omega), LineFile.leave, if_neg Bool.false_ne_true, if_pos rfl]
    simp only [Nat.zero_add]
  have hend : (chunksIn d 16).next.next.next = ⟨d, d.length, [], 1, 0, none⟩ := by
    rw [hdiscard]
    show LineFile.outer _ ⟨d.length, [], true, 0, false⟩ = _
    unfold LineFile.outer
    refine if_pos (.inr ?_)
    rw [LineFile.piece, slice, List.length_nil, Nat.add_zero, List.drop_length, List.take_nil]
  have h1 := (chunksIn_reach hlen hnl 16 le_rfl).step (a := .round) trivial rfl
  rw [hlast] at h1 hdiscard hend
  have h2 := h1.step (a := .round) trivial rfl
  rw [hdiscard] at h2 hend
  have h3 := h2.step (a := .round) trivial rfl
  rw [hend] at h3
  have hat := (hall _ h3 rfl).offset.2
  dsimp only at hat
  have hsplit := splitLines_append (a := []) hnl
  rw [List.nil_append] at hsplit
  rw [List.take_length, hsplit] at hat
  have hzero : d = [] := hat
  rw [hzero] at hlen
  cases hlen

end OTS.Sender
