import OTSecurity.Receiver.SpoolLog

/-!
# The publisher

Model of `Publisher` of `ingest/receiver/sih_receiver/publisher.py` over the spool, as a machine
whose steps are small enough that the receiver can append and sync, callbacks can come and the
process can crash between any two of them.

* `Pump` — the local state of `pump`: what is read and not yet produced, what is in flight, which
  positions are acknowledged, the failures reported.
* `PubSys` — the spool, the cursor file, the cursor, a round of `pump` if one is running, and, as
  a ghost, every record the broker has acknowledged without an error.
* `PubInv` — the invariant: what a round has read, sent and acknowledged are adjacent pieces of the
  log, and segments given up lie before the persisted cursor.

Principal results: `publisher_at_least_once`, in every run whose crashes settle no record is passed
over; `publisher_skips`, without that condition one is.
-/

namespace OTS.Receiver

/-- `len(in_flight) < 50000`. -/
def MAX_IN_FLIGHT : Nat := 50000

/-- The batch size of `pump`. -/
def PUMP_BATCH : Nat := 2000

def TOPICS (topic : Nat) : Option String :=
  if topic = TOPIC_RAW then some "raw-events.v1"
  else if topic = TOPIC_INVALID then some "invalid-events.v1"
  else if topic = TOPIC_HEALTH then some "sensor-health.v1"
  else none

/-- The arguments of `produce`. -/
structure Message where
  topic : String
  value : Bytes
  key : Option Bytes
  timestamp : Int
  deriving DecidableEq, Repr

/-- The message of an entry; `none` is the `KeyError` of an unknown topic. -/
def messageOf (e : Entry) : Option Message :=
  (TOPICS e.record.topic).map (fun topic =>
    ⟨topic, e.record.value, if e.record.key = [] then none else some e.record.key,
      if e.record.tsMs > 0 then e.record.tsMs else 0⟩)

/-- Where the loop of `pump` stands. -/
inductive Phase where
  | top
  | sending
  | persisting
  | releasing
  deriving DecidableEq, Repr

/-- The local state of `pump`. `outstanding` is what the producer has not reported yet; `start` and
`sent` are ghosts: the cursor the round began at, and what it has produced. -/
structure Pump where
  readPos : Position
  batch : List Entry
  inFlight : List Position
  acked : List Position
  failures : List String
  phase : Phase
  outstanding : List Entry
  start : Position
  sent : List (Entry × Message)

structure PubSys where
  sys : SpoolSys
  cursorFile : Option Position
  cursor : Position
  round : Option Pump
  acked : List Entry

inductive PubOp where
  | append (r : CallerRec)
  | sync
  /-- `run` makes a producer and enters `pump`. -/
  | start
  | fetch
  | produce
  /-- The producer reports on one of its messages. -/
  | callback (e : Entry) (err : Option String)
  /-- The loop over `in_flight`; `due` is that 0.2 s have passed since the last persist. -/
  | collect (due : Bool)
  | persist
  | release
  /-- `pump` ends: it returns, or anything in it raises. -/
  | leave
  | crash (kept stable : Nat)

/-- `while in_flight and in_flight[0] in acked`: what is left in flight and in the set, the cursor,
and whether it has advanced. -/
def advanceCursor (acked : List Position) (cursor : Position) (advanced : Bool) :
    List Position → List Position × List Position × Position × Bool
  | [] => ([], acked, cursor, advanced)
  | p :: ps =>
    if p ∈ acked then advanceCursor (acked.filter (· ≠ p)) p true ps
    else (p :: ps, acked, cursor, advanced)

namespace Pump

/-- `pump` up to its loop. -/
def begin (cursor : Position) : Pump :=
  { readPos := cursor, batch := [], inFlight := [], acked := [], failures := [], phase := .top,
    outstanding := [], start := cursor, sent := [] }

/-- The head of the loop: failures raise, else a batch is read; `none` when `pump` raises. -/
def fetch (pump : Pump) (sys : SpoolSys) : Option Pump :=
  if pump.failures ≠ [] then none
  else if pump.inFlight.length < MAX_IN_FLIGHT then
    match sys.spool.read sys.disk pump.readPos sys.spool.syncedEnd PUMP_BATCH with
    | none => none
    | some batch => some { pump with batch, phase := .sending }
  else some { pump with batch := [], phase := .sending }

/-- One entry of the batch produced. -/
def produce (pump : Pump) (e : Entry) (batch : List Entry) : Option Pump :=
  match messageOf e with
  | none => none
  | some m => some { pump with
      batch
      inFlight := pump.inFlight ++ [e.stop]
      readPos := e.stop
      outstanding := pump.outstanding ++ [e]
      sent := pump.sent ++ [(e, m)] }

/-- `on_delivery_for(e.end)` called with `err`. -/
def callback (pump : Pump) (e : Entry) (err : Option String) : Pump :=
  match err with
  | some m => { pump with
      outstanding := pump.outstanding.erase e
      failures := pump.failures ++ [m] }
  | none => { pump with
      outstanding := pump.outstanding.erase e
      acked := if e.stop ∈ pump.acked then pump.acked else e.stop :: pump.acked }

end Pump

namespace PubSys

def restartCursor (s : PubSys) : Position := s.cursorFile.getD s.sys.spool.firstPosition

def step (maxBytes segmentBytes : Nat) (s : PubSys) : PubOp → Option PubSys
  | .append r => (s.sys.step maxBytes segmentBytes (.append r)).map ({ s with sys := · })
  | .sync => (s.sys.step maxBytes segmentBytes .sync).map ({ s with sys := · })
  | .start =>
    match s.round with
    | none => some { s with round := some (.begin s.cursor) }
    | some _ => none
  | .fetch =>
    match s.round with
    | some pump => if pump.phase = .top then some { s with round := pump.fetch s.sys } else none
    | none => none
  | .produce =>
    match s.round with
    | some pump =>
      match pump.phase, pump.batch with
      | .sending, e :: batch => some { s with round := pump.produce e batch }
      | _, _ => none
    | none => none
  | .callback e err =>
    match s.round with
    | some pump =>
      if e ∈ pump.outstanding then
        some { s with
          round := some (pump.callback e err)
          acked := if err = none then e :: s.acked else s.acked }
      else none
    | none => none
  | .collect due =>
    match s.round with
    | some pump =>
      if pump.phase = .sending ∧ pump.batch = [] then
        let (inFlight, acked, cursor, advanced) := advanceCursor pump.acked s.cursor false pump.inFlight
        some { s with
          cursor
          round := some { pump with
            inFlight, acked
            phase := if advanced ∧ (due ∨ inFlight = []) then .persisting else .top } }
      else none
    | none => none
  | .persist =>
    match s.round with
    | some pump =>
      if pump.phase = .persisting then
        some { s with
          cursorFile := some s.cursor
          round := some { pump with phase := .releasing } }
      else none
    | none => none
  | .release =>
    match s.round with
    | some pump =>
      if pump.phase = .releasing then
        (s.sys.step maxBytes segmentBytes (.release s.cursor)).map (fun sys =>
          { s with sys, round := some { pump with phase := .top } })
      else none
    | none => none
  | .leave =>
    match s.round with
    | some _ => some { s with round := none }
    | none => none
  | .crash kept stable =>
    (s.sys.step maxBytes segmentBytes (.crash kept stable)).map (fun sys =>
      { s with sys, cursor := s.cursorFile.getD sys.spool.firstPosition, round := none })

/-- What a crash keeps is on stable storage, or its last record is torn. -/
def Settles (s : PubSys) : PubOp → Prop
  | .crash kept stable => s.sys.Settles (.crash kept stable)
  | _ => True

instance (s : PubSys) (op : PubOp) : Decidable (s.Settles op) :=
  match op with
  | .crash kept stable => inferInstanceAs (Decidable (s.sys.Settles (.crash kept stable)))
  | .append _ | .sync | .start | .fetch | .produce | .callback _ _ | .collect _ | .persist
  | .release | .leave => inferInstanceAs (Decidable True)

end PubSys

/-- The receiver's spool and its publisher, on an empty directory without a cursor file. -/
def publisher (maxBytes segmentBytes : Nat) : Machine PubSys PubOp where
  init :=
    let sys := SpoolSys.init maxBytes segmentBytes
    ⟨sys, none, sys.spool.firstPosition, none, []⟩
  step := PubSys.step maxBytes segmentBytes

/-! ## The invariant -/

/-- A round of `pump`: the log is what precedes the round, what it delivered in order, what is in
flight, the batch, and the rest. -/
structure RoundInv (s : PubSys) (segs : List (Nat × List Rec)) (pump : Pump) : Prop where
  pieces : ∃ past done flying rest,
    Cut s.sys.log pump.start past (done ++ (flying ++ (pump.batch ++ rest))) ∧
    Cut s.sys.log s.cursor (past ++ done) (flying ++ (pump.batch ++ rest)) ∧
    Cut s.sys.log pump.readPos (past ++ done ++ flying) (pump.batch ++ rest) ∧
    pump.inFlight = flying.map (·.stop) ∧ pump.sent.map (·.1) = done ++ flying
  readPos : Boundary recSize segs pump.readPos ∧ pump.readPos ≤ s.sys.spool.synced
  start_le : pump.start ≤ s.sys.spool.synced
  cursor_le : s.cursor ≤ pump.readPos
  idle : pump.phase ≠ .sending → pump.batch = []
  batch : ∀ e ∈ pump.batch, e.stop ≤ s.sys.spool.synced
  sent : ∀ x ∈ pump.sent, x.1.stop ≤ s.sys.spool.synced ∧ messageOf x.1 = some x.2
  acked : ∀ p ∈ pump.acked, ∃ e ∈ s.sys.log, e.stop = p ∧ e ∈ s.acked
  outstanding : ∀ e ∈ pump.outstanding, e ∈ s.sys.log
  releasing : pump.phase = .releasing → s.cursorFile = some s.cursor

/-- The publisher over a shaped spool. -/
structure PubInv (s : PubSys) (gone older : List (Nat × List Rec)) (rs : List Rec) : Prop where
  shape : Shape s.sys gone older rs
  cursor : Boundary recSize (gone ++ held s.sys.spool.active older rs) s.cursor ∧
    s.cursor ≤ s.sys.spool.synced
  acked : ∀ e ∈ s.sys.log, e.stop ≤ s.cursor → e ∈ s.acked
  file : ∀ q, s.cursorFile = some q →
    Boundary recSize (gone ++ held s.sys.spool.active older rs) q ∧ q ≤ s.cursor
  released : ∀ g ∈ gone, ∃ q, s.cursorFile = some q ∧ g.1 < q.seg
  round : ∀ pump, s.round = some pump →
    RoundInv s (gone ++ held s.sys.spool.active older rs) pump

section

variable {s : PubSys} {gone older : List (Nat × List Rec)} {rs : List Rec}
  {maxBytes segmentBytes : Nat}

/-- The log is unchanged or has a record more behind everything synced. -/
def Grown (sys sys' : SpoolSys) : Prop :=
  sys'.log = sys.log ∨ ∃ e, sys'.log = sys.log ++ [e] ∧ sys.spool.synced ≤ e.start

theorem Shape.grown {sys sys' : SpoolSys} (h : Shape sys gone older rs) {op : SpoolOp}
    (hspec : sys.OpSpec sys' op) (hop : ∀ kept stable, op ≠ .crash kept stable) :
    Grown sys sys' := by
  cases op with
  | append r =>
    rcases hspec with rfl | ⟨e, -, hlog, -, -, hend, -⟩
    · exact .inl rfl
    · exact .inr ⟨e, hlog, h.synced_le_end.trans hend⟩
  | sync => exact .inl hspec.1
  | release acked => exact .inl hspec.1
  | crash kept stable => exact absurd rfl (hop kept stable)

theorem Grown.mem {sys sys' : SpoolSys} (h : Grown sys sys') {e : Entry} (he : e ∈ sys.log) :
    e ∈ sys'.log := by
  rcases h with h | ⟨x, h, -⟩ <;> rw [h]
  · exact he
  · exact List.mem_append_left _ he

/-- Cuts of the log at synced positions are cuts of the grown log. -/
theorem Grown.cut {sys sys' : SpoolSys} (h : Grown sys sys') :
    ∃ more, ∀ p as bs, p ≤ sys.spool.synced → Cut sys.log p as bs →
      Cut sys'.log p as (bs ++ more) := by
  rcases h with h | ⟨x, h, hx⟩
  · exact ⟨[], fun p as bs _ hcut => by simpa [h] using hcut⟩
  · exact ⟨[x], fun p as bs hp hcut => h ▸ hcut.snoc (hp.trans hx)⟩

/-! ## The spool under a round -/

/-- A round goes on over a spool that has grown. -/
theorem RoundInv.grown {segs segs' : List (Nat × List Rec)} {pump : Pump} {sys' : SpoolSys}
    (h : RoundInv s segs pump) (hg : Grown s.sys sys') (hle : s.sys.spool.synced ≤ sys'.spool.synced)
    (hsegs : ∀ p, p ≤ s.sys.spool.synced → Boundary recSize segs p → Boundary recSize segs' p) :
    RoundInv { s with sys := sys' } segs' pump := by
  obtain ⟨past, done, flying, rest, h1, h2, h3, h4, h5⟩ := h.pieces
  obtain ⟨more, hmore⟩ := hg.cut
  have hcursor := h.cursor_le.trans h.readPos.2
  refine ⟨⟨past, done, flying, rest ++ more, ?_, ?_, ?_, h4, h5⟩,
    ⟨hsegs _ h.readPos.2 h.readPos.1, h.readPos.2.trans hle⟩, h.start_le.trans hle, h.cursor_le, h.idle,
    fun e he => (h.batch e he).trans hle, fun x hx => ⟨(h.sent x hx).1.trans hle, (h.sent x hx).2⟩,
    fun p hp => ?_, fun e he => hg.mem (h.outstanding e he), h.releasing⟩
  · simpa using hmore _ _ _ h.start_le h1
  · simpa using hmore _ _ _ hcursor h2
  · simpa using hmore _ _ _ h.readPos.2 h3
  · obtain ⟨e, he, hstop, hack⟩ := h.acked p hp
    exact ⟨e, hg.mem he, hstop, hack⟩

/-- An operation of the spool that is not a crash. -/
theorem PubInv.spool (h : PubInv s gone older rs) {op : SpoolOp} {sys' : SpoolSys}
    (hnext : Next s.sys sys' op gone (gone ++ held s.sys.spool.active older rs))
    (hop : ∀ kept stable, op ≠ .crash kept stable)
    (hrelease : ∀ acked, op = .release acked → s.cursorFile = some acked) :
    ∃ gone' older' rs', PubInv { s with sys := sys' } gone' older' rs' := by
  obtain ⟨gone', older', rs', hshape, hgone, hsegs⟩ := hnext.shape
  have hg := h.shape.grown hnext.spec hop
  have hle := hnext.synced_le
  refine ⟨gone', older', rs', hshape, ⟨hsegs _ h.cursor.2 h.cursor.1, h.cursor.2.trans hle⟩, ?_,
    fun q hq => ?_, fun g hg' => ?_, fun pump hpump => ?_⟩
  · intro e he hstop
    rcases hg with hlog | ⟨x, hlog, hx⟩
    · exact h.acked e (hlog ▸ he) hstop
    · have hmem : e ∈ s.sys.log ++ [x] := hlog ▸ he
      rcases List.mem_append.1 hmem with hmem | hmem
      · exact h.acked e hmem hstop
      · obtain rfl := List.mem_singleton.1 hmem
        have hlt := hshape.start_lt e he
        exact absurd ((h.cursor.2.trans hx).trans_lt hlt) (not_lt.2 hstop)
  · obtain ⟨hb, hqc⟩ := h.file q hq
    exact ⟨hsegs q (hqc.trans h.cursor.2) hb, hqc⟩
  · rcases hgone g hg' with hold | ⟨acked, heq, hlt⟩
    · exact h.released g hold
    · exact ⟨acked, hrelease acked heq, hlt⟩
  · exact (h.round pump hpump).grown hg hle hsegs

/-! ## The steps of a round -/

theorem Shape.cut {sys : SpoolSys} (h : Shape sys gone older rs) {p : Position}
    (hp : Boundary recSize (gone ++ held sys.spool.active older rs) p) :
    ∃ as bs, Cut sys.log p as bs := by
  rw [h.log]
  exact hp.cut h.asc

/-- The other fields when only the round changes. -/
theorem PubInv.withRound (h : PubInv s gone older rs) {round : Option Pump}
    (hround : ∀ pump, round = some pump →
      RoundInv s (gone ++ held s.sys.spool.active older rs) pump) :
    PubInv { s with round } gone older rs :=
  ⟨h.shape, h.cursor, h.acked, h.file, h.released, fun pump hp =>
    let hr := hround pump hp
    ⟨hr.pieces, hr.readPos, hr.start_le, hr.cursor_le, hr.idle, hr.batch, hr.sent, hr.acked,
      hr.outstanding, hr.releasing⟩⟩

theorem PubInv.begin (h : PubInv s gone older rs) :
    RoundInv s (gone ++ held s.sys.spool.active older rs) (.begin s.cursor) := by
  obtain ⟨past, rest, hcut⟩ := h.shape.cut h.cursor.1
  exact ⟨⟨past, [], [], rest, hcut, by simpa [Pump.begin] using hcut,
    by simpa [Pump.begin] using hcut, rfl, rfl⟩, h.cursor,
    h.cursor.2, le_refl _, fun _ => rfl, by simp [Pump.begin], by simp [Pump.begin],
    by simp [Pump.begin], by simp [Pump.begin], by simp [Pump.begin]⟩

/-- The limit of a round lies in a segment held. -/
theorem PubInv.synced_held (h : PubInv s gone older rs) :
    Boundary recSize (held s.sys.spool.active older rs) s.sys.spool.synced := by
  obtain ⟨g, hg, i, hi, hmark⟩ := h.shape.synced
  rcases List.mem_append.1 hg with hg | hg
  · obtain ⟨q, hq, hlt⟩ := h.released g hg
    have hle := (h.file q hq).2.trans h.cursor.2
    rw [hmark] at hle
    rcases Position.le_def.1 hle with h1 | ⟨h1, -⟩ <;> dsimp only [mark] at h1 <;> omega
  · exact ⟨g, hg, i, hi, hmark⟩

/-- Segments given up lie before everything a round reads. -/
theorem PubInv.filter_unreleased (h : PubInv s gone older rs) {p : Position}
    (hp : ∀ q, s.cursorFile = some q → q ≤ p) :
    s.sys.unreleased.filter (fun e => p ≤ e.start) = s.sys.log.filter (fun e => p ≤ e.start) := by
  rw [h.shape.unreleased, h.shape.log, placeAll_append, List.filter_append]
  have hnone : (placeAll recSize gone).filter (fun e => p ≤ e.start) = [] := by
    rw [List.filter_eq_nil_iff]
    intro e he
    obtain ⟨g, hg, hseg, -⟩ := mem_placeAll_seg he
    obtain ⟨q, hq, hlt⟩ := h.released g hg
    have : e.start < p := (Position.lt_def.2 (.inl (hseg ▸ hlt))).trans_le (hp q hq)
    simpa using this
  rw [hnone, List.nil_append]

/-- **A batch is the next piece of the log, and synced.** -/
theorem PubInv.fetch (h : PubInv s gone older rs) {pump pump' : Pump}
    (hr : RoundInv s (gone ++ held s.sys.spool.active older rs) pump) (htop : pump.phase = .top)
    (hf : pump.fetch s.sys = some pump') :
    RoundInv s (gone ++ held s.sys.spool.active older rs) pump' := by
  obtain ⟨past, done, flying, rest, h1, h2, h3, h4, h5⟩ := hr.pieces
  have hidle : pump.batch = [] := hr.idle (by rw [htop]; decide)
  rw [hidle] at h1 h2 h3
  simp only [Pump.fetch] at hf
  split at hf
  · cases hf
  · split at hf
    · split at hf
      · cases hf
      · rename_i batch hread
        obtain rfl := Option.some.inj hf
        have hlt := h.shape.start_lt
        have hfrom := h.filter_unreleased (p := pump.readPos) (fun q hq =>
          (h.file q hq).2.trans hr.cursor_le)
        rw [Spool.syncedEnd, h.shape.read hr.readPos.1 h.synced_held, hfrom, h3.filter_from hlt,
          List.nil_append, Option.some.injEq] at hread
        have hrest : ∀ e ∈ rest, e ∈ s.sys.log := fun e he =>
          h3.eq ▸ List.mem_append_right _ (by simpa using he)
        have hsorted : rest.Pairwise (fun a b => a.stop ≤ b.start) := by
          have := h.shape.sorted
          rw [h3.eq] at this
          simpa using (List.pairwise_append.1 this).2.1
        obtain ⟨more, hmore⟩ : batch <+: rest := hread ▸ (List.take_prefix _ _).trans
          (filter_stop_initial hsorted (fun e he => hlt e (hrest e he)) _)
        rw [List.nil_append, ← hmore] at h1 h2 h3
        refine ⟨⟨past, done, flying, more, h1, h2, h3, h4, h5⟩, hr.readPos, hr.start_le,
          hr.cursor_le, fun hne => absurd rfl hne, fun e he => ?_, hr.sent, hr.acked,
          hr.outstanding, fun hph => by cases hph⟩
        have hmem := List.mem_of_mem_take (hread ▸ he)
        simpa using (List.mem_filter.1 hmem).2
    · obtain rfl := Option.some.inj hf
      exact ⟨⟨past, done, flying, rest, h1, h2, h3, h4, h5⟩, hr.readPos, hr.start_le, hr.cursor_le,
        fun _ => rfl, by simp, hr.sent, hr.acked, hr.outstanding, fun hph => by cases hph⟩

theorem PubInv.produce (h : PubInv s gone older rs) {pump pump' : Pump} {e : Entry}
    {batch : List Entry} (hr : RoundInv s (gone ++ held s.sys.spool.active older rs) pump)
    (hph : pump.phase = .sending) (hbatch : pump.batch = e :: batch)
    (hp : pump.produce e batch = some pump') :
    RoundInv s (gone ++ held s.sys.spool.active older rs) pump' := by
  obtain ⟨past, done, flying, rest, h1, h2, h3, h4, h5⟩ := hr.pieces
  rw [hbatch, List.cons_append] at h1 h2 h3
  have hmem : e ∈ s.sys.log := by
    rw [h3.eq]
    simp
  have hsync := hr.batch e (by rw [hbatch]; exact List.mem_cons_self)
  simp only [Pump.produce] at hp
  split at hp
  · cases hp
  · rename_i m hm
    obtain rfl := Option.some.inj hp
    have hcut := cut_of_sorted h3.eq h.shape.sorted h.shape.start_lt
    have hb : Boundary recSize (gone ++ held s.sys.spool.active older rs) e.stop :=
      (boundary_of_mem (h.shape.log ▸ hmem)).2
    refine ⟨⟨past, done, flying ++ [e], rest, by simpa using h1, by simpa using h2,
      by simpa using hcut, by simp [h4], by simp [h5]⟩, ⟨hb, hsync⟩, hr.start_le, ?_,
      fun hne => absurd hph hne, fun x hx => hr.batch x (hbatch ▸ List.mem_cons_of_mem _ hx), ?_,
      hr.acked, ?_, fun hrel => by rw [hph] at hrel; cases hrel⟩
    · have := h3.ge e List.mem_cons_self
      exact hr.cursor_le.trans (this.trans (h.shape.start_lt e hmem).le)
    · intro x hx
      rcases List.mem_append.1 hx with hx | hx
      · exact hr.sent x hx
      · rw [List.mem_singleton.1 hx]
        exact ⟨hsync, hm⟩
    · intro x hx
      rcases List.mem_append.1 hx with hx | hx
      · exact hr.outstanding x hx
      · rw [List.mem_singleton.1 hx]
        exact hmem

/-- What the broker has acknowledged only grows. -/
theorem PubInv.ack (h : PubInv s gone older rs) (acked : List Entry) (hsub : s.acked ⊆ acked) :
    PubInv { s with acked } gone older rs :=
  ⟨h.shape, h.cursor, fun e he hle => hsub (h.acked e he hle), h.file, h.released, fun pump hp =>
    let hr := h.round pump hp
    ⟨hr.pieces, hr.readPos, hr.start_le, hr.cursor_le, hr.idle, hr.batch, hr.sent,
      fun p hpa => let ⟨e, he, hstop, hack⟩ := hr.acked p hpa; ⟨e, he, hstop, hsub hack⟩,
      hr.outstanding, hr.releasing⟩⟩

theorem RoundInv.callback {segs : List (Nat × List Rec)} {pump : Pump} (hr : RoundInv s segs pump)
    {e : Entry} (he : e ∈ pump.outstanding) {err : Option String}
    (hack : err = none → e ∈ s.acked) : RoundInv s segs (pump.callback e err) := by
  have hout : ∀ x ∈ pump.outstanding.erase e, x ∈ s.sys.log := fun x hx =>
    hr.outstanding x (List.mem_of_mem_erase hx)
  cases err with
  | some m =>
    exact ⟨hr.pieces, hr.readPos, hr.start_le, hr.cursor_le, hr.idle, hr.batch, hr.sent, hr.acked,
      hout, hr.releasing⟩
  | none =>
    refine ⟨hr.pieces, hr.readPos, hr.start_le, hr.cursor_le, hr.idle, hr.batch, hr.sent, ?_,
      hout, hr.releasing⟩
    intro p hp
    simp only [Pump.callback] at hp
    split at hp
    · exact hr.acked p hp
    · rcases List.mem_cons.1 hp with rfl | hp
      · exact ⟨e, hr.outstanding e he, rfl, hack rfl⟩
      · exact hr.acked p hp

/-- **The cursor moves over the acknowledged records at the head of what is in flight.** -/
theorem advanceCursor_spec (flying : List Entry) (acked : List Position) (cursor : Position)
    (adv : Bool) : ∃ moved left acked' adv', flying = moved ++ left ∧
      advanceCursor acked cursor adv (flying.map (·.stop)) =
        (left.map (·.stop), acked', resume cursor moved, adv') ∧
      acked' ⊆ acked ∧ ∀ e ∈ moved, e.stop ∈ acked := by
  induction flying generalizing acked cursor adv with
  | nil => exact ⟨[], [], acked, adv, rfl, rfl, List.Subset.refl _, by simp⟩
  | cons e flying ih =>
    by_cases he : e.stop ∈ acked
    · obtain ⟨moved, left, acked', adv', rfl, heq, hsub, hmoved⟩ :=
        ih (acked.filter (· ≠ e.stop)) e.stop true
      have hfilter : acked.filter (· ≠ e.stop) ⊆ acked := fun p hp =>
        List.mem_of_mem_filter hp
      refine ⟨e :: moved, left, acked', adv', rfl, ?_, fun p hp => hfilter (hsub hp), ?_⟩
      · rw [List.map_cons, advanceCursor, if_pos he, heq, resume_cons]
      · intro x hx
        rcases List.mem_cons.1 hx with rfl | hx
        · exact he
        · exact hfilter (hmoved x hx)
    · refine ⟨[], e :: flying, acked, adv, rfl, ?_, List.Subset.refl _, by simp⟩
      rw [List.map_cons, advanceCursor, if_neg he]
      rfl

theorem PubInv.collect (h : PubInv s gone older rs) {pump : Pump} (hround : s.round = some pump)
    (hbatch : pump.batch = []) {inFlight acked : List Position} {cursor : Position} {adv : Bool}
    (hadv : advanceCursor pump.acked s.cursor false pump.inFlight = (inFlight, acked, cursor, adv))
    {phase : Phase} (hphase : phase = .persisting ∨ phase = .top) :
    PubInv { s with cursor, round := some { pump with inFlight, acked, phase } } gone older rs := by
  have hr := h.round pump hround
  obtain ⟨past, done, flying, rest, h1, h2, h3, h4, h5⟩ := hr.pieces
  obtain ⟨moved, left, acked', adv', rfl, heq, hsub, hmoved⟩ :=
    advanceCursor_spec flying pump.acked s.cursor false
  rw [h4, heq] at hadv
  cases hadv
  rw [hbatch] at h1 h2 h3
  have hmem : ∀ e ∈ moved, e ∈ s.sys.log := fun e he => by
    rw [h2.eq]
    simp [he]
  have hacked : ∀ e ∈ moved, e ∈ s.acked := by
    intro e he
    obtain ⟨x, hx, hstop, hack⟩ := hr.acked e.stop (hmoved e he)
    rwa [stop_injective h.shape.sorted h.shape.start_lt (hmem e he) hx hstop.symm]
  -- the cursor is behind the last record moved over, or where it was
  have hcut : Cut s.sys.log (resume s.cursor moved) (past ++ (done ++ moved)) (left ++ rest) := by
    rcases List.eq_nil_or_concat moved with rfl | ⟨ms, m, rfl⟩
    · simpa [resume] using h2
    · rw [List.concat_eq_append] at h2 ⊢
      have := @cut_of_sorted _ s.sys.log (past ++ done ++ ms) (left ++ rest) m (by rw [h2.eq]; simp)
        h.shape.sorted h.shape.start_lt
      simpa [resume] using this
  have hbound : Boundary recSize (gone ++ held s.sys.spool.active older rs)
      (resume s.cursor moved) ∧ s.cursor ≤ resume s.cursor moved ∧
        resume s.cursor moved ≤ pump.readPos := by
    rcases List.eq_nil_or_concat moved with rfl | ⟨ms, m, rfl⟩
    · exact ⟨h.cursor.1, le_refl _, hr.cursor_le⟩
    · have hm : m ∈ s.sys.log := hmem m (by simp)
      have hres : resume s.cursor (ms.concat m) = m.stop := by simp [resume]
      rw [hres]
      refine ⟨(boundary_of_mem (h.shape.log ▸ hm)).2, ?_, h3.le m (by simp)⟩
      exact (h2.ge m (by simp)).trans (h.shape.start_lt m hm).le
  refine ⟨h.shape, ⟨hbound.1, hbound.2.2.trans hr.readPos.2⟩, fun e he hle => ?_,
    fun q hq => ⟨(h.file q hq).1, (h.file q hq).2.trans hbound.2.1⟩, h.released, ?_⟩
  · have hin : e ∈ past ++ (done ++ moved) ++ (left ++ rest) := hcut.eq ▸ he
    rcases List.mem_append.1 hin with hin | hin
    · rw [← List.append_assoc] at hin
      rcases List.mem_append.1 hin with hin | hin
      · exact h.acked e he (h2.le e hin)
      · exact hacked e hin
    · have := (hcut.ge e hin).trans_lt (h.shape.start_lt e he)
      exact absurd hle (not_le.2 this)
  · intro p hp
    obtain rfl := Option.some.inj hp
    refine ⟨⟨past, done ++ moved, left, rest, by simpa [hbatch] using h1,
      by simpa [hbatch] using hcut, by simpa [hbatch] using h3, rfl, by simpa using h5⟩, hr.readPos,
      hr.start_le, hbound.2.2, fun _ => hbatch, hr.batch, hr.sent,
      fun p hp => hr.acked p (hsub hp), hr.outstanding, fun hrel => ?_⟩
    rcases hphase with rfl | rfl <;> cases hrel

theorem PubInv.persist (h : PubInv s gone older rs) {pump : Pump} (hround : s.round = some pump)
    (hphase : pump.phase = .persisting) :
    PubInv { s with
      cursorFile := some s.cursor
      round := some { pump with phase := .releasing } } gone older rs := by
  have hr := h.round pump hround
  have hidle := hr.idle (by rw [hphase]; decide)
  refine ⟨h.shape, h.cursor, h.acked, fun q hq => ?_, fun g hg => ?_, fun p hp => ?_⟩
  · obtain rfl := Option.some.inj hq
    exact ⟨h.cursor.1, le_refl _⟩
  · obtain ⟨q, hq, hlt⟩ := h.released g hg
    refine ⟨s.cursor, rfl, ?_⟩
    rcases Position.le_def.1 (h.file q hq).2 with hle | ⟨hle, -⟩ <;> omega
  · obtain rfl := Option.some.inj hp
    exact ⟨hr.pieces, hr.readPos, hr.start_le, hr.cursor_le, fun _ => hidle, hr.batch, hr.sent,
      hr.acked, hr.outstanding, fun _ => rfl⟩

/-- A phase of the loop left for its top. -/
theorem PubInv.toTop (h : PubInv s gone older rs) {pump : Pump} (hround : s.round = some pump)
    (hphase : pump.phase = .releasing) :
    PubInv { s with round := some { pump with phase := .top } } gone older rs := by
  have hr := h.round pump hround
  have hidle := hr.idle (by rw [hphase]; decide)
  refine h.withRound (fun p hp => ?_)
  obtain rfl := Option.some.inj hp
  exact ⟨hr.pieces, hr.readPos, hr.start_le, hr.cursor_le, fun _ => hidle, hr.batch, hr.sent,
    hr.acked, hr.outstanding, fun hrel => by cases hrel⟩

theorem firstPosition_le {sys : SpoolSys} {p : Position}
    (hp : p.seg ∈ sys.spool.sizes.keys) : sys.spool.firstPosition ≤ p := by
  unfold Spool.firstPosition
  cases hmin : sys.spool.sizes.keys.min? with
  | none =>
    rw [List.min?_eq_none_iff] at hmin
    rw [hmin] at hp
    cases hp
  | some k =>
    have hle := (List.min?_eq_some_iff.1 hmin).2 _ hp
    rcases Nat.lt_or_eq_of_le hle with hlt | heq
    · exact Position.le_def.2 (.inl hlt)
    · exact Position.le_def.2 (.inr ⟨heq, Nat.zero_le _⟩)

/-- **A restart begins at the persisted cursor, or at the first record when there is none.** -/
theorem PubInv.crash (h : PubInv s gone older rs) {kept stable : Nat} {sys' : SpoolSys}
    (hC : s.sys.Settles (.crash kept stable))
    (hstep : s.sys.step maxBytes segmentBytes (.crash kept stable) = some sys') :
    ∃ gone' older' rs', PubInv { s with
      sys := sys'
      cursor := s.cursorFile.getD sys'.spool.firstPosition
      round := none } gone' older' rs' := by
  obtain ⟨hnext, hend⟩ := next_crash h.shape kept stable hC hstep
  obtain ⟨gone', older', rs', hshape, hgone, hsegs⟩ := hnext.shape
  have hold : ∀ g ∈ gone', g ∈ gone := fun g hg => by
    rcases hgone g hg with hold | ⟨acked, heq, -⟩
    · exact hold
    · cases heq
  have hle := hnext.synced_le
  have hlog : ∀ e ∈ sys'.log, e ∈ s.sys.log := fun e he => hnext.spec.1.subset he
  have hfile : ∀ q, s.cursorFile = some q → Boundary recSize (gone' ++
      held sys'.spool.active older' rs') q ∧ q ≤ s.sys.spool.synced := fun q hq =>
    have hqs := (h.file q hq).2.trans h.cursor.2
    ⟨hsegs q hqs (h.file q hq).1, hqs⟩
  cases hcf : s.cursorFile with
  | some q =>
    refine ⟨gone', older', rs', hshape, ⟨(hfile q hcf).1, (hfile q hcf).2.trans hle⟩,
      fun e he hstop => ?_, fun q' hq' => ?_, fun g hg => hcf ▸ h.released g (hold g hg),
      fun pump hp => by cases hp⟩
    · exact h.acked e (hlog e he) (hstop.trans (h.file q hcf).2)
    · obtain rfl := Option.some.inj hq'
      exact ⟨(hfile q hcf).1, le_refl _⟩
  | none =>
    have hnone : gone' = [] := List.eq_nil_iff_forall_not_mem.2 (fun g hg => by
      obtain ⟨q, hq, -⟩ := h.released g (hold g hg)
      rw [hcf] at hq
      cases hq)
    have hfirst := firstPosition_le (p := sys'.spool.endPosition) (by
      rw [hshape.holds.keys, hshape.endPosition]
      simp [held])
    refine ⟨gone', older', rs', hshape, ⟨hshape.boundary (.inl rfl), hfirst.trans hend.ge⟩,
      fun e he hstop => ?_, fun q' hq' => ?_, fun g hg => hcf ▸ h.released g (hold g hg),
      fun pump hp => by cases hp⟩
    · have hmem : e ∈ sys'.unreleased := by
        rw [hshape.unreleased]
        simpa [hshape.log, hnone] using he
      have hlive : e.start.seg ∈ sys'.spool.sizes.keys := by
        simpa using (List.mem_filter.1 hmem).2
      have := (firstPosition_le hlive).trans_lt (hshape.start_lt e he)
      exact absurd hstop (not_le.2 this)
    · cases hq'

theorem pubInv_init : PubInv (publisher maxBytes segmentBytes).init [] [] [] where
  shape := shape_init maxBytes segmentBytes
  cursor := ⟨(shape_init maxBytes segmentBytes).boundary (.inl rfl), le_refl _⟩
  acked := fun e he => by cases he
  file := fun q hq => by cases hq
  released := fun g hg => by cases hg
  round := fun pump hp => by cases hp

/-- **One step of a settling run.** -/
theorem pubInv_step (h : PubInv s gone older rs) {op : PubOp} {s' : PubSys} (hC : s.Settles op)
    (hstep : s.step maxBytes segmentBytes op = some s') :
    ∃ gone' older' rs', PubInv s' gone' older' rs' := by
  cases op with
  | append r =>
    simp only [PubSys.step, Option.map_eq_some_iff] at hstep
    obtain ⟨sys', hsys, rfl⟩ := hstep
    exact h.spool (next_append h.shape r hsys) (by simp) (by simp)
  | sync =>
    simp only [PubSys.step, Option.map_eq_some_iff] at hstep
    obtain ⟨sys', hsys, rfl⟩ := hstep
    exact h.spool (next_sync h.shape hsys) (by simp) (by simp)
  | start =>
    simp only [PubSys.step] at hstep
    split at hstep
    · obtain rfl := Option.some.inj hstep
      refine ⟨_, _, _, h.withRound (fun pump hp => ?_)⟩
      obtain rfl := Option.some.inj hp
      exact h.begin
    · cases hstep
  | fetch =>
    simp only [PubSys.step] at hstep
    split at hstep
    · rename_i pump hround
      split at hstep
      · rename_i hph
        obtain rfl := Option.some.inj hstep
        exact ⟨_, _, _, h.withRound (fun pump' hp => h.fetch (h.round pump hround) hph hp)⟩
      · cases hstep
    · cases hstep
  | produce =>
    simp only [PubSys.step] at hstep
    split at hstep
    · rename_i pump hround
      split at hstep
      · rename_i e batch hph hbatch
        obtain rfl := Option.some.inj hstep
        exact ⟨_, _, _, h.withRound (fun pump' hp =>
          h.produce (h.round pump hround) hph hbatch hp)⟩
      · cases hstep
    · cases hstep
  | callback e err =>
    simp only [PubSys.step] at hstep
    split at hstep
    · rename_i pump hround
      split at hstep
      · rename_i he
        obtain rfl := Option.some.inj hstep
        have hack := h.ack (if err = none then e :: s.acked else s.acked) (by
          split
          · exact List.subset_cons_self _ _
          · exact List.Subset.refl _)
        refine ⟨_, _, _, hack.withRound (fun pump' hp => ?_)⟩
        obtain rfl := Option.some.inj hp
        exact (hack.round pump hround).callback he (fun herr => by simp [herr])
      · cases hstep
    · cases hstep
  | collect due =>
    simp only [PubSys.step] at hstep
    split at hstep
    · rename_i pump hround
      split at hstep
      · rename_i hph
        obtain rfl := Option.some.inj hstep
        refine ⟨_, _, _, h.collect hround hph.2 rfl ?_⟩
        split
        · exact .inl rfl
        · exact .inr rfl
      · cases hstep
    · cases hstep
  | persist =>
    simp only [PubSys.step] at hstep
    split at hstep
    · rename_i pump hround
      split at hstep
      · rename_i hph
        obtain rfl := Option.some.inj hstep
        exact ⟨_, _, _, h.persist hround hph⟩
      · cases hstep
    · cases hstep
  | release =>
    simp only [PubSys.step] at hstep
    split at hstep
    · rename_i pump hround
      split at hstep
      · rename_i hph
        obtain ⟨sys', hsys, rfl⟩ := Option.map_eq_some_iff.1 hstep
        have hfile := (h.round pump hround).releasing hph
        exact (h.toTop hround hph).spool (next_release h.shape _ hsys) (by simp)
          (fun acked heq => by cases heq; exact hfile)
      · cases hstep
    · cases hstep
  | leave =>
    simp only [PubSys.step] at hstep
    split at hstep
    · obtain rfl := Option.some.inj hstep
      exact ⟨_, _, _, h.withRound (fun pump hp => by cases hp)⟩
    · cases hstep
  | crash kept stable =>
    simp only [PubSys.step] at hstep
    obtain ⟨sys', hsys, rfl⟩ := Option.map_eq_some_iff.1 hstep
    exact h.crash hC hsys

end

theorem pubInv_reach {maxBytes segmentBytes : Nat} {s : PubSys}
    (h : (publisher maxBytes segmentBytes).Reach PubSys.Settles s) :
    ∃ gone older rs, PubInv s gone older rs := by
  refine h.invariant (I := fun s => ∃ gone older rs, PubInv s gone older rs)
    ⟨_, _, _, pubInv_init⟩ (fun t op t' ht hC hstep => ?_)
  obtain ⟨gone, older, rs, ht⟩ := ht
  exact pubInv_step ht hC hstep

section

variable {s : PubSys} {gone older : List (Nat × List Rec)} {rs : List Rec}

/-- A segment given up has no record at or after the persisted cursor. -/
theorem PubInv.gone_below (h : PubInv s gone older rs) {e : Entry} (he : e ∈ s.sys.log)
    (hgone : e ∉ s.sys.unreleased) : ∃ q, s.cursorFile = some q ∧ e.stop ≤ q := by
  rw [h.shape.log, placeAll_append] at he
  rcases List.mem_append.1 he with he | he
  · obtain ⟨g, hg, -, hseg⟩ := mem_placeAll_seg he
    obtain ⟨q, hq, hlt⟩ := h.released g hg
    exact ⟨q, hq, Position.le_def.2 (.inl (hseg ▸ hlt))⟩
  · exact absurd (h.shape.unreleased ▸ he) hgone

/-- **What is synced and not acknowledged is read from where a restart begins.** -/
theorem PubInv.readable (h : PubInv s gone older rs) {e : Entry} (he : e ∈ s.sys.log)
    (hsync : e.stop ≤ s.sys.spool.synced) (hack : e ∉ s.acked) :
    ∃ es, s.sys.spool.read s.sys.disk s.restartCursor s.sys.spool.synced s.sys.log.length =
      some es ∧ e ∈ es := by
  have hlive : e ∈ s.sys.unreleased := by
    by_contra hu
    obtain ⟨q, hq, hle⟩ := h.gone_below he hu
    exact hack (h.acked e he (hle.trans (h.file q hq).2))
  have hstart : Boundary recSize (gone ++ held s.sys.spool.active older rs) s.restartCursor ∧
      s.restartCursor ≤ e.start := by
    unfold PubSys.restartCursor
    cases hcf : s.cursorFile with
    | some q =>
      obtain ⟨hb, hle⟩ := h.file q hcf
      obtain ⟨as, bs, hcut⟩ := h.shape.cut hb
      refine ⟨hb, ?_⟩
      rcases List.mem_append.1 (hcut.eq ▸ he) with hin | hin
      · exact absurd (h.acked e he ((hcut.le e hin).trans hle)) hack
      · exact hcut.ge e hin
    | none =>
      have hseg := (List.mem_filter.1 hlive).2
      exact ⟨h.shape.boundary (.inl rfl), firstPosition_le (by simpa using hseg)⟩
  refine ⟨_, h.shape.read hstart.1 h.synced_held _, ?_⟩
  rw [List.take_of_length_le]
  · exact List.mem_filter.2 ⟨List.mem_filter.2 ⟨hlive, by simpa using hstart.2⟩,
      by simpa using hsync⟩
  · exact (List.length_filter_le _ _).trans ((List.length_filter_le _ _).trans
      (List.length_filter_le _ _))

/-- A round has produced the records that follow the cursor it began at, in the order of the log. -/
theorem PubInv.sent_in_order (h : PubInv s gone older rs) {pump : Pump}
    (hround : s.round = some pump) :
    pump.sent.map (·.1) <+: s.sys.log.filter (fun e => pump.start ≤ e.start) := by
  obtain ⟨past, done, flying, rest, h1, -, -, -, h5⟩ := (h.round pump hround).pieces
  rw [h1.filter_from h.shape.start_lt, h5, ← List.append_assoc]
  exact List.prefix_append _ _

end

/-- **No record is passed over**, in every run whose crashes settle. Every record before the cursor
is acknowledged; the persisted cursor is not past it; a segment given up has no record at or after
the persisted cursor; a round produces synced records only, those that follow the cursor it began
at, in order; so every synced record is acknowledged or read from where a restart begins, and it is
still there after a crash. -/
theorem publisher_at_least_once (maxBytes segmentBytes : Nat) {s : PubSys}
    (h : (publisher maxBytes segmentBytes).Reach PubSys.Settles s) :
    (∀ e ∈ s.sys.log, e.stop ≤ s.cursor → e ∈ s.acked) ∧
    (∀ q, s.cursorFile = some q → q ≤ s.cursor) ∧
    (∀ e ∈ s.sys.log, e ∉ s.sys.unreleased → ∃ q, s.cursorFile = some q ∧ e.stop ≤ q) ∧
    (∀ pump, s.round = some pump →
      (∀ x ∈ pump.sent, x.1.stop ≤ s.sys.spool.synced ∧ messageOf x.1 = some x.2) ∧
      pump.sent.map (·.1) <+: s.sys.log.filter (fun e => pump.start ≤ e.start)) ∧
    (∀ e ∈ s.sys.log, e.stop ≤ s.sys.spool.synced → e ∈ s.acked ∨
      ∃ es, s.sys.spool.read s.sys.disk s.restartCursor s.sys.spool.synced s.sys.log.length =
        some es ∧ e ∈ es) ∧
    (∀ kept stable s', s.Settles (.crash kept stable) →
      s.step maxBytes segmentBytes (.crash kept stable) = some s' →
        s'.cursor = s'.restartCursor ∧ ∀ e ∈ s.sys.log, e.stop ≤ s.sys.spool.synced →
          e ∈ s'.sys.log ∧ e.stop ≤ s'.sys.spool.synced) := by
  obtain ⟨gone, older, rs, hinv⟩ := pubInv_reach h
  refine ⟨hinv.acked, fun q hq => (hinv.file q hq).2, fun e he hgone => hinv.gone_below he hgone,
    fun pump hp => ⟨(hinv.round pump hp).sent, hinv.sent_in_order hp⟩, fun e he hsync => ?_,
    fun kept stable s' hC hstep => ?_⟩
  · by_cases hack : e ∈ s.acked
    · exact .inl hack
    · exact .inr (hinv.readable he hsync hack)
  · obtain ⟨sys', hsys, rfl⟩ := Option.map_eq_some_iff.1 hstep
    obtain ⟨hnext, -⟩ := next_crash hinv.shape kept stable hC hsys
    exact ⟨rfl, fun e he hle => ⟨hnext.spec.2.2 e he hle, hle.trans hnext.synced_le⟩⟩

/-- A record is published and persisted; another is appended and synced; the process crashes. -/
theorem publisher_at_least_once_restart : ∃ s : PubSys,
    (publisher 1000 1000).Reach PubSys.Settles s ∧ s.cursor = ⟨0, 50⟩ ∧
      s.sys.log.length = 2 ∧ ∀ e ∈ s.sys.log, e.stop ≤ s.cursor → e ∈ s.acked := by
  have hrun : ((publisher 1000 1000).runMeeting PubSys.Settles (publisher 1000 1000).init
      [.append healthRec, .sync, .start, .fetch, .produce,
        .callback ⟨healthRec.val, ⟨0, 0⟩, ⟨0, 50⟩⟩ none, .collect false, .persist, .release,
        .append healthRec, .sync, .crash 100 100]).any
          (fun s => s.cursor = ⟨0, 50⟩ ∧ s.sys.log.length = 2) = true := by decide +kernel
  obtain ⟨s, hs, hend⟩ := (Option.any_eq_true _ _).1 hrun
  have hreach := Machine.reach_of_run _ hs
  simp only [decide_eq_true_eq] at hend
  exact ⟨s, hreach, hend.1, hend.2, (publisher_at_least_once 1000 1000 hreach).1⟩

/-- Another record of the same size. -/
def laterRec : CallerRec := ⟨⟨TOPIC_HEALTH, [115], none, none, -1, 0, [125]⟩, .inl ⟨rfl, rfl⟩⟩

/-- **A record is passed over.** The first record is published from a spool reopened after the
process was killed, and lost with the power; the record appended in its place is synced, lies before
the cursor, and was never produced. -/
theorem publisher_skips : ¬ ∀ (maxBytes segmentBytes : Nat) (s : PubSys),
    (publisher maxBytes segmentBytes).Reach (fun _ _ => True) s →
      ∀ e ∈ s.sys.log, e.stop ≤ s.sys.spool.synced → e.stop ≤ s.cursor → e ∈ s.acked := by
  intro hclaim
  have hrun : ((publisher 1000 1000).runMeeting (fun _ _ => True) (publisher 1000 1000).init
      [.append healthRec, .crash 50 0, .start, .fetch, .produce,
        .callback ⟨healthRec.val, ⟨0, 0⟩, ⟨0, 50⟩⟩ none, .collect false, .persist, .release,
        .crash 0 0, .append laterRec, .sync]).any
          (fun s => s.sys.log.any (fun e => e.stop ≤ s.sys.spool.synced ∧ e.stop ≤ s.cursor ∧
            e ∉ s.acked)) = true := by decide +kernel
  obtain ⟨s, hs, hbad⟩ := (Option.any_eq_true _ _).1 hrun
  obtain ⟨e, he, hbad⟩ := List.any_eq_true.1 hbad
  simp only [decide_eq_true_eq] at hbad
  exact hbad.2.2 (hclaim 1000 1000 s (Machine.reach_of_run _ hs) e he hbad.1 hbad.2.1)

end OTS.Receiver
