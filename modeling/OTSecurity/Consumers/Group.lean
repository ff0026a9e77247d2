import Mathlib.Logic.Function.Basic
import OTSecurity.Consumers.Base
import OTSecurity.Lib.Machine

/-!
# A consumer group over a topic

The processes of a consumer, one after the other, on a topic with partitions: each starts at the committed
offsets, is given the records in order, and ends anywhere.

* `Lawful` — a property that every call of `run_consumer` has, and `runConsumer_always`, the rule.
* `Sink` — a sink with what it keeps; `Topic` — the records of each partition.
* `GroupSys`, `group` — records are produced, and processes run.

Principal results: `groupInv_reach` — a record below the committed offset is settled, in every run;
`sink_invariant` — what the calls of a sink keep holds of what it keeps.
-/

namespace OTS.Consumers

variable {ρ : Type}

/-! ## What a consumer calls -/

/-- The messages that an event brings. -/
def polled : Event ρ → List Message
  | .consume msgs => msgs
  | _ => []

/-- The message of a record has arrived. -/
def Arrived (t : Trace ρ) (m : Message) : Prop := m ∈ t.flatMap polled ∧ m.error = false

/-- The item is of a record that has arrived and been transformed. -/
def Made (t : Trace ρ) (i : Item ρ) : Prop :=
  ∃ m rows, i = m.item rows ∧ Arrived t m ∧ (rows = [] ∨ Event.transform m (.rows rows) ∈ t)

theorem Arrived.mono {t t' : Trace ρ} {m : Message} (h : Arrived t m) (hs : t ⊆ t') : Arrived t' m := by
  obtain ⟨e, he, hm⟩ := List.mem_flatMap.1 h.1
  exact ⟨List.mem_flatMap.2 ⟨e, hs he, hm⟩, h.2⟩

theorem Made.mono {t t' : Trace ρ} {i : Item ρ} (h : Made t i) (hs : t ⊆ t') : Made t' i := by
  obtain ⟨m, rows, hi, hm, hrows⟩ := h
  exact ⟨m, rows, hi, hm.mono hs, hrows.imp_right fun he => hs he⟩

/-- A property of the calls of a consumer, each with the calls before it. -/
structure Lawful (w : World ρ) (P : Trace ρ → Event ρ → Prop) : Prop where
  isSet : ∀ t b, P t (.isSet b)
  wait : ∀ t ms, P t (.wait ms)
  consume : ∀ t, P t (.consume (w.consume t))
  transform : ∀ t m, Arrived t m → P t (.transform m (w.transform t (m.value.getD [])))
  write : ∀ t batch, (∀ i ∈ batch, Made t i) → P t (.write batch (w.write t (rowsOf batch)))
  quarantine : ∀ t poison, (∀ p ∈ poison, Made t p.1) →
    P t (.quarantine poison (w.quarantine t (poison.map quarantineEntry)))
  commit : ∀ t, P t (.commit (w.commit t))

/-- A trace of calls with the property, and one before it. -/
structure Grows (P : Trace ρ → Event ρ → Prop) (t t' : Trace ρ) : Prop where
  always : Always P t'
  subset : t ⊆ t'

/-- What the locals of `durable_write` hold. -/
structure Locals.Made (t : Trace ρ) (s : Locals ρ) : Prop where
  good : ∀ i ∈ s.good, Consumers.Made t i
  poison : ∀ p ∈ s.poison, Consumers.Made t p.1

section Calls

variable {w : World ρ} {P : Trace ρ → Event ρ → Prop} {t : Trace ρ}

theorem Grows.refl (h : Always P t) : Grows P t t := ⟨h, List.Subset.refl _⟩

theorem Grows.trans {t' t'' : Trace ρ} (h : Grows P t t') (h' : Grows P t' t'') : Grows P t t'' :=
  ⟨h'.always, List.Subset.trans h.subset h'.subset⟩

theorem Grows.call {e : Event ρ} (h : Always P t) (he : P t e) : Grows P t (t ++ [e]) :=
  ⟨h.concat he, List.subset_append_left _ _⟩

theorem Locals.Made.mono {t' : Trace ρ} {s : Locals ρ} (h : s.Made t) (hs : t ⊆ t') : s.Made t' :=
  ⟨fun i hi => (h.good i hi).mono hs, fun p hp => (h.poison p hp).mono hs⟩

theorem attempt_grows (hw : Lawful w P) (h : Always P t) {good : List (Item ρ)}
    {poison : List (Item ρ × String)} (hgood : ∀ i ∈ good, Made t i) (hpoison : ∀ p ∈ poison, Made t p.1) :
    Grows P t (attempt w good poison t).2 := by
  have hquarantine : ∀ t', Grows P t t' → Grows P t (if poison = [] then ((none : Option Exc), t') else
      w.doQuarantine poison t').2 := by
    intro t' h'
    split
    · exact h'
    · exact h'.trans (.call h'.always (hw.quarantine t' poison fun p hp => (hpoison p hp).mono h'.subset))
  rw [attempt_eq]
  by_cases hr : rowsOf good = []
  · rw [if_pos hr]
    exact hquarantine t (.refl h)
  · have hwrote := Grows.call h (hw.write t good hgood)
    rw [if_neg hr, World.doWrite_eq]
    cases he : w.write t (rowsOf good) with
    | some e =>
      rw [he] at hwrote
      exact hwrote
    | none =>
      rw [he] at hwrote
      exact hquarantine _ hwrote

theorem isolate_grows (hw : Lawful w P) : ∀ (good still : List (Item ρ)) (poison : List (Item ρ × String))
    (t : Trace ρ), Always P t → (∀ i ∈ good, Made t i) → (∀ i ∈ still, Made t i) →
    (∀ p ∈ poison, Made t p.1) →
      Grows P t (isolate w good still poison t).2.2 ∧
        (∀ i ∈ (isolate w good still poison t).1, Made (isolate w good still poison t).2.2 i) ∧
        ∀ p ∈ (isolate w good still poison t).2.1, Made (isolate w good still poison t).2.2 p.1
  | [], _, _, _, h, _, hstill, hpoison => ⟨.refl h, hstill, hpoison⟩
  | i :: good, still, poison, t, h, hgood, hstill, hpoison => by
    obtain ⟨hi, hgood⟩ := List.forall_mem_cons.1 hgood
    have hwrote := Grows.call h (hw.write t [i] (List.forall_mem_singleton.2 hi))
    have hsub := hwrote.subset
    -- The rest, with one more item still good or of poison.
    have hrest := fun still' poison' (hstill' : ∀ j ∈ still', Made t j) (hpoison' : ∀ p ∈ poison', Made t p.1) =>
      isolate_grows hw good still' poison' _ hwrote.always (fun j hj => (hgood j hj).mono hsub)
        (fun j hj => (hstill' j hj).mono hsub) fun p hp => (hpoison' p hp).mono hsub
    rw [isolate_cons, World.doWrite_eq]
    cases he : w.write t (rowsOf [i]) with
    | none =>
      rw [he] at hrest hwrote
      obtain ⟨hgrows, hmade⟩ := hrest still poison hstill hpoison
      exact ⟨hwrote.trans hgrows, hmade⟩
    | some e =>
      rw [he] at hrest hwrote
      simp only
      split
      · obtain ⟨hgrows, hmade⟩ := hrest (still ++ [i]) poison
          (List.forall_mem_append.2 ⟨hstill, List.forall_mem_singleton.2 hi⟩) hpoison
        exact ⟨hwrote.trans hgrows, hmade⟩
      · obtain ⟨hgrows, hmade⟩ := hrest still (poison ++ [(i, "write_rejected: " ++ brief e.message)]) hstill
          (List.forall_mem_append.2 ⟨hpoison, List.forall_mem_singleton.2 hi⟩)
        exact ⟨hwrote.trans hgrows, hmade⟩

theorem handle_grows (hw : Lawful w P) (h : Always P t) {s : Locals ρ} (hs : s.Made t) (e : Exc) :
    Grows P t (handle w s e t).2 ∧ (handle w s e t).1.Made (handle w s e t).2 := by
  rw [handle_eq]
  split
  · split
    · obtain ⟨hgrows, hgood, hpoison⟩ := isolate_grows hw s.good [] s.poison t h hs.good
        (fun i hi => absurd hi List.not_mem_nil) hs.poison
      exact ⟨hgrows, hgood, hpoison⟩
    · exact ⟨.refl h, hs.good, hs.poison⟩
  · have hgrows := Grows.call h (hw.wait t (min 30000 (500 * 2 ^ min (s.transientAttempts + 1) 6)))
    exact ⟨hgrows, (hs.mono hgrows.subset).good, (hs.mono hgrows.subset).poison⟩

theorem durableLoop_grows (hw : Lawful w P) : ∀ (fuel : Nat) (s : Locals ρ) (t : Trace ρ), Always P t →
    s.Made t → Grows P t (durableLoop w fuel s t).2
  | 0, _, _, h, _ => .refl h
  | fuel + 1, s, t, h, hs => by
    have hset := fun b => Grows.call h (hw.isSet t b)
    rw [durableLoop_succ]
    split
    · exact hset true
    · have hmade := hs.mono (hset false).subset
      have htried := attempt_grows hw (hset false).always hmade.good hmade.poison
      split
      · rename_i heq
        rw [heq] at htried
        exact (hset false).trans htried
      · rename_i e t' heq
        rw [heq] at htried
        obtain ⟨hgrows, hmade'⟩ := handle_grows hw htried.always (hmade.mono htried.subset) e
        exact ((hset false).trans htried).trans
          (hgrows.trans (durableLoop_grows hw fuel _ _ hgrows.always hmade'))

theorem durableWrite_grows (hw : Lawful w P) (fuel : Nat) {items : List (Item ρ)} (h : Always P t)
    (hitems : ∀ i ∈ items, Made t i) : Grows P t (durableWrite w fuel items t).2 :=
  durableLoop_grows hw fuel _ t h
    ⟨fun i hi => hitems i (List.mem_filter.1 hi).1, fun _ hp => absurd hp List.not_mem_nil⟩

theorem gather_grows (hw : Lawful w P) : ∀ (msgs : List Message) (items : List (Item ρ)) (t : Trace ρ),
    Always P t → (∀ m ∈ msgs, m.error = false → Arrived t m) → (∀ i ∈ items, Made t i) →
      Grows P t (gather w msgs items t).2 ∧ ∀ items', (gather w msgs items t).1 = .ok items' →
        ∀ i ∈ items', Made (gather w msgs items t).2 i
  | [], items, t, h, _, hitems => ⟨.refl h, fun items' he => by cases he; exact hitems⟩
  | m :: msgs, items, t, h, hmsgs, hitems => by
    obtain ⟨hm, hmsgs⟩ := List.forall_mem_cons.1 hmsgs
    unfold gather
    by_cases herr : m.error
    · rw [if_pos herr]
      exact gather_grows hw msgs items t h hmsgs hitems
    · rw [if_neg herr]
      have harrived := hm (Bool.eq_false_iff.2 herr)
      have hcall := Grows.call h (hw.transform t m harrived)
      simp only
      rw [show (m.item ([] : List ρ)).payload = m.value.getD [] from rfl]
      cases htr : w.transform t (m.value.getD []) with
      | raises e =>
        rw [htr] at hcall
        exact ⟨hcall, fun items' he => by cases he⟩
      | rows rows =>
        rw [htr] at hcall
        obtain ⟨hgrows, hmade⟩ := gather_grows hw msgs (items ++ [m.item rows]) _ hcall.always
          (fun m' hm' he => (hmsgs m' hm' he).mono hcall.subset)
          (List.forall_mem_append.2 ⟨fun i hi => (hitems i hi).mono hcall.subset, List.forall_mem_singleton.2
            ⟨m, rows, rfl, harrived.mono hcall.subset, .inr (List.mem_append_right _ List.mem_cons_self)⟩⟩)
        exact ⟨hcall.trans hgrows, hmade⟩
      | poison message =>
        rw [htr] at hcall
        have hitem : Made (t ++ [Event.transform m (.poison message)]) (m.item []) :=
          ⟨m, [], rfl, harrived.mono hcall.subset, .inl rfl⟩
        have hquar := hcall.trans (Grows.call hcall.always (hw.quarantine _
          [(m.item [], "transform: " ++ brief message)] (List.forall_mem_singleton.2 hitem)))
        simp only [World.doQuarantine_eq]
        cases hq : w.quarantine (t ++ [Event.transform m (.poison message)])
            ([((m.item [] : Item ρ), "transform: " ++ brief message)].map quarantineEntry) with
        | some e =>
          rw [hq] at hquar
          exact ⟨hquar.trans (.call hquar.always (hw.wait _ 2000)), fun items' he => by cases he⟩
        | none =>
          rw [hq] at hquar
          obtain ⟨hgrows, hmade⟩ := gather_grows hw msgs (items ++ [m.item []]) _ hquar.always
            (fun m' hm' he => (hmsgs m' hm' he).mono hquar.subset)
            (List.forall_mem_append.2 ⟨fun i hi => (hitems i hi).mono hquar.subset,
              List.forall_mem_singleton.2 (hitem.mono (List.subset_append_left _ _))⟩)
          exact ⟨hquar.trans hgrows, hmade⟩

/-- **Every call of a consumer has a lawful property.** -/
theorem runConsumer_always (hw : Lawful w P) : ∀ (fuel : Nat) (t : Trace ρ), Always P t →
    Always P (runConsumer w fuel t).2
  | 0, _, h => h
  | fuel + 1, t, h => by
    have hset := fun b => Grows.call h (hw.isSet t b)
    unfold runConsumer
    split
    · exact (hset true).always
    · have hpoll := Grows.call (hset false).always (hw.consume (t ++ [.isSet false]))
      simp only
      generalize hmsgs : w.consume (t ++ [.isSet false]) = msgs at hpoll ⊢
      have harrived : ∀ m ∈ msgs, m.error = false → Arrived (t ++ [.isSet false] ++ [Event.consume msgs]) m :=
        fun m hm he => ⟨List.mem_flatMap.2 ⟨_, List.mem_append_right _ List.mem_cons_self, hm⟩, he⟩
      obtain ⟨hgrows, hmade⟩ := gather_grows hw msgs [] _ hpoll.always harrived
        fun i hi => absurd hi List.not_mem_nil
      generalize hg : gather w msgs [] (t ++ [.isSet false] ++ [Event.consume msgs]) = g at hgrows hmade ⊢
      obtain ⟨r, t'⟩ := g
      cases r with
      | error e => exact hgrows.always
      | ok items =>
        simp only
        split
        · exact runConsumer_always hw fuel _ hgrows.always
        · have hdurable := durableWrite_grows hw fuel hgrows.always (hmade items rfl)
          generalize hd : durableWrite w fuel items t' = d at hdurable ⊢
          obtain ⟨b, t''⟩ := d
          have hcommit := hdurable.always.concat (hw.commit t'')
          cases b with
          | none => exact hdurable.always
          | some b =>
            cases b with
            | false => exact hdurable.always
            | true =>
              simp only
              cases hc : w.commit t'' with
              | some e =>
                rw [hc] at hcommit
                exact hcommit
              | none =>
                rw [hc] at hcommit
                exact runConsumer_always hw fuel _ hcommit

end Calls

/-! ## The topic -/

/-- The values of the records of each partition. -/
abbrev Topic := Int → List (Option Bytes)

/-- What the broker answers a poll with: the next record of a partition, or an error. -/
inductive Fetch where
  | record (partition : Int)
  | error (m : Message)

/-- The message of a record. -/
def recordOf (topic : String) (partition : Int) (offset : Nat) (value : Option Bytes) : Message :=
  ⟨false, topic, partition, offset, value⟩

/-- The messages of a poll, from the positions of the consumer on. -/
def serve (topic : String) (records : Topic) : (Int → Nat) → List Fetch → List Message
  | _, [] => []
  | pos, .error m :: fetches => { m with error := true } :: serve topic records pos fetches
  | pos, .record p :: fetches =>
    match (records p)[pos p]? with
    | none => serve topic records pos fetches
    | some value =>
      recordOf topic p (pos p) value :: serve topic records (Function.update pos p (pos p + 1)) fetches

/-- How many of the messages are of records of a partition. -/
def taken (msgs : List Message) (p : Int) : Nat := msgs.countP fun m => !m.error && decide (m.partition = p)

/-- The position of a consumer that started at the committed offsets. -/
def position (committed : Int → Nat) (t : Trace ρ) (p : Int) : Nat := committed p + taken (t.flatMap polled) p

/-- The message is that of a record of the topic. -/
def Recorded (topic : String) (records : Topic) (m : Message) : Prop :=
  ∃ p o value, (records p)[o]? = some value ∧ m = recordOf topic p o value

section Serve

variable {topic : String} {records : Topic}

theorem taken_append (msgs msgs' : List Message) (p : Int) :
    taken (msgs ++ msgs') p = taken msgs p + taken msgs' p := List.countP_append

/-- **A poll is answered with the next records**, in order and without gaps. -/
theorem serve_spec : ∀ (fetches : List Fetch) (pos : Int → Nat),
    (∀ m ∈ serve topic records pos fetches, m.error = false → Recorded topic records m) ∧
      ∀ p o, pos p ≤ o → o < pos p + taken (serve topic records pos fetches) p →
        ∃ value, (records p)[o]? = some value ∧ recordOf topic p o value ∈ serve topic records pos fetches
  | [], pos => ⟨fun m hm => absurd hm List.not_mem_nil, fun p o hle hlt => absurd hlt (Nat.not_lt.2 hle)⟩
  | .error m :: fetches, pos => by
    obtain ⟨hrecorded, hnext⟩ := serve_spec fetches pos
    have htaken : ∀ p, taken (serve topic records pos (.error m :: fetches)) p =
        taken (serve topic records pos fetches) p := fun p => List.countP_cons_of_neg (by simp)
    refine ⟨List.forall_mem_cons.2 ⟨fun he => absurd he Bool.noConfusion, hrecorded⟩, fun p o hle hlt => ?_⟩
    rw [htaken] at hlt
    obtain ⟨value, hvalue, hmem⟩ := hnext p o hle hlt
    exact ⟨value, hvalue, List.mem_cons_of_mem _ hmem⟩
  | .record p :: fetches, pos => by
    rw [serve]
    cases hget : (records p)[pos p]? with
    | none => exact serve_spec fetches pos
    | some value =>
      obtain ⟨hrecorded, hnext⟩ := serve_spec fetches (Function.update pos p (pos p + 1))
      refine ⟨List.forall_mem_cons.2 ⟨fun _ => ⟨p, pos p, value, hget, rfl⟩, hrecorded⟩, fun q o hle hlt => ?_⟩
      by_cases hq : q = p
      · subst hq
        rcases Nat.eq_or_lt_of_le hle with rfl | hafter
        · exact ⟨value, hget, List.mem_cons_self⟩
        · have htaken : ∀ msgs, taken (recordOf topic q (pos q) value :: msgs) q = taken msgs q + 1 :=
            fun msgs => List.countP_cons_of_pos (by simp [recordOf])
          rw [htaken] at hlt
          obtain ⟨value', hvalue, hmem⟩ := hnext q o (by rw [Function.update_self]; exact hafter)
            (by rw [Function.update_self]; omega)
          exact ⟨value', hvalue, List.mem_cons_of_mem _ hmem⟩
      · have htaken : ∀ msgs, taken (recordOf topic p (pos p) value :: msgs) q = taken msgs q :=
          fun msgs => List.countP_cons_of_neg (by simp [recordOf, Ne.symm hq])
        rw [htaken] at hlt
        obtain ⟨value', hvalue, hmem⟩ := hnext q o (by rwa [Function.update_of_ne hq])
          (by rwa [Function.update_of_ne hq])
        exact ⟨value', hvalue, List.mem_cons_of_mem _ hmem⟩

end Serve

/-! ## Processes -/

/-- A sink with what it keeps.  What a call meets decides how it ends. -/
structure Sink (ρ σ φ : Type) where
  /-- What a new process starts with. -/
  start : σ → σ
  transform : Bytes → Transformed ρ
  write : φ → List ρ → σ → Option Exc × σ
  quarantine : φ → List QuarantineEntry → σ → Option Exc × σ

/-- The topic, the offsets committed, what the sink keeps, and the calls of all processes, a ghost. -/
structure GroupSys (ρ σ : Type) where
  records : Topic
  committed : Int → Nat
  kept : σ
  events : Trace ρ

/-- A process: the stop event and the answers to its commits, what it is given and what its calls meet, which of
the commits that raised took effect, and after how many calls it is killed. -/
structure Process (ρ φ : Type) where
  world : World ρ
  fetch : Trace ρ → List Fetch
  met : Trace ρ → φ
  applied : Trace ρ → Bool
  fuel : Nat
  calls : Nat

inductive GroupOp (ρ φ : Type) where
  | produce (partition : Int) (value : Option Bytes)
  | process (run : Process ρ φ)

variable {σ φ : Type}

/-- What a call leaves of what the sink keeps. -/
def Sink.call (k : Sink ρ σ φ) (met : φ) (st : σ) : Event ρ → σ
  | .write batch _ => (k.write met (rowsOf batch) st).2
  | .quarantine poison _ => (k.quarantine met (poison.map quarantineEntry) st).2
  | _ => st

/-- What a call leaves of the offsets: a commit is of the positions. -/
def commitCall (applied : Trace ρ → Bool) (start : Int → Nat) (t : Trace ρ) (committed : Int → Nat) :
    Event ρ → Int → Nat
  | .commit exc => if exc.isNone || applied t then position start t else committed
  | _ => committed

namespace GroupSys

variable (k : Sink ρ σ φ) (topic : String) (s : GroupSys ρ σ)

/-- What the sink keeps after some calls of a process. -/
def keptAfter (run : Process ρ φ) (t : Trace ρ) : σ :=
  replay (fun t st e => k.call (run.met t) st e) (k.start s.kept) t

def world (run : Process ρ φ) : World ρ :=
  { run.world with
    consume := fun t => serve topic s.records (position s.committed t) (run.fetch t)
    transform := fun _ payload => k.transform payload
    write := fun t rows => (k.write (run.met t) rows (s.keptAfter k run t)).1
    quarantine := fun t entries => (k.quarantine (run.met t) entries (s.keptAfter k run t)).1 }

/-- The calls of a process. -/
def trace (run : Process ρ φ) : Trace ρ := (runConsumer (s.world k topic run) run.fuel []).2.take run.calls

/-- What a process leaves. -/
def ran (run : Process ρ φ) : GroupSys ρ σ :=
  ⟨s.records, replay (commitCall run.applied s.committed) s.committed (s.trace k topic run),
    s.keptAfter k run (s.trace k topic run), s.events ++ s.trace k topic run⟩

def step : GroupOp ρ φ → Option (GroupSys ρ σ)
  | .produce p value => some { s with records := Function.update s.records p (s.records p ++ [value]) }
  | .process run => some (s.ran k topic run)

end GroupSys

/-- A consumer group, from an empty topic on. -/
def group (k : Sink ρ σ φ) (topic : String) (init : σ) : Machine (GroupSys ρ σ) (GroupOp ρ φ) :=
  ⟨⟨fun _ => [], fun _ => 0, init, []⟩, GroupSys.step k topic⟩

/-! ## The calls of a process -/

section Calls

variable {k : Sink ρ σ φ} {topic : String} {s s' : GroupSys ρ σ}

/-- What the outcome of a call is. -/
def Sink.Answers (k : Sink ρ σ φ) (met : φ) (st : σ) : Event ρ → Prop
  | .write batch exc => exc = (k.write met (rowsOf batch) st).1
  | .quarantine poison exc => exc = (k.quarantine met (poison.map quarantineEntry) st).1
  | _ => True

/-- The item is of a record of the topic. -/
def Sink.Of (k : Sink ρ σ φ) (topic : String) (records : Topic) (i : Item ρ) : Prop :=
  ∃ m rows, i = m.item rows ∧ Recorded topic records m ∧ (rows = [] ∨ k.transform (m.value.getD []) = .rows rows)

/-- What an event has is of the topic. -/
def Sink.Sourced (k : Sink ρ σ φ) (topic : String) (records : Topic) : Event ρ → Prop
  | .write batch _ => ∀ i ∈ batch, k.Of topic records i
  | .quarantine poison _ => ∀ p ∈ poison, k.Of topic records p.1
  | .transform m r => Recorded topic records m ∧ r = k.transform (m.value.getD [])
  | _ => True

/-- A call of a process, with the calls before it. -/
def CallOf (k : Sink ρ σ φ) (topic : String) (s : GroupSys ρ σ) (run : Process ρ φ) (t : Trace ρ) (e : Event ρ) :
    Prop :=
  k.Answers (run.met t) (s.keptAfter k run t) e ∧
    match e with
    | .consume msgs => msgs = serve topic s.records (position s.committed t) (run.fetch t)
    | .transform m r => Arrived t m ∧ r = k.transform (m.value.getD [])
    | .write batch _ => ∀ i ∈ batch, Made t i
    | .quarantine poison _ => ∀ p ∈ poison, Made t p.1
    | _ => True

theorem callOf_lawful (k : Sink ρ σ φ) (topic : String) (s : GroupSys ρ σ) (run : Process ρ φ) :
    Lawful (s.world k topic run) (CallOf k topic s run) where
  isSet _ _ := ⟨trivial, trivial⟩
  wait _ _ := ⟨trivial, trivial⟩
  consume _ := ⟨trivial, rfl⟩
  transform _ _ h := ⟨trivial, h, rfl⟩
  write _ _ h := ⟨rfl, h⟩
  quarantine _ _ h := ⟨rfl, h⟩
  commit _ := ⟨trivial, trivial⟩

/-- The offsets after a call are those before it, or a commit is of the positions. -/
theorem commitCall_lt {applied : Trace ρ → Bool} {start committed : Int → Nat} {t : Trace ρ} {e : Event ρ} {p : Int}
    {o : Nat} (h : o < commitCall applied start t committed e p) :
    o < committed p ∨ (∃ exc, e = .commit exc) ∧ o < position start t p := by
  cases e with
  | commit exc =>
    by_cases hdone : (exc.isNone || applied t) = true
    · rw [show commitCall applied start t committed (.commit exc) = position start t from if_pos hdone] at h
      exact .inr ⟨⟨exc, rfl⟩, h⟩
    · rw [show commitCall applied start t committed (.commit exc) = committed from if_neg hdone] at h
      exact .inl h
  | _ => exact .inl h

theorem trace_calls (k : Sink ρ σ φ) (topic : String) (s : GroupSys ρ σ) (run : Process ρ φ) :
    Always (CallOf k topic s run) (s.trace k topic run) :=
  Always.of_prefix (runConsumer_always (callOf_lawful k topic s run) run.fuel [] always_nil) (List.take_prefix _ _)

theorem trace_commits (k : Sink ρ σ φ) (topic : String) (s : GroupSys ρ σ) (run : Process ρ φ) :
    Always (CommitJustified (s.world k topic run)) (s.trace k topic run) :=
  Always.of_prefix (runConsumer_spec run.fuel [] always_nil fun _ h => absurd h List.not_mem_nil)
    (List.take_prefix _ _)

/-- **What has arrived**: every record from the committed offset to the position, and nothing else. -/
theorem arrived_spec {run : Process ρ φ} {t : Trace ρ} (h : Always (CallOf k topic s run) t) :
    (∀ m, Arrived t m → Recorded topic s.records m) ∧
      ∀ p o, s.committed p ≤ o → o < position s.committed t p →
        ∃ value, (s.records p)[o]? = some value ∧ Arrived t (recordOf topic p o value) := by
  induction t using List.reverseRecOn with
  | nil => exact ⟨fun m hm => absurd hm.1 List.not_mem_nil, fun p o hle hlt => absurd hlt (Nat.not_lt.2 hle)⟩
  | append_singleton t e ih =>
    obtain ⟨ht, -, he⟩ := always_concat.1 h
    obtain ⟨hrecorded, hcovered⟩ := ih ht
    have hflat : (t ++ [e]).flatMap polled = t.flatMap polled ++ polled e := by
      rw [List.flatMap_append, List.flatMap_singleton]
    have hpos : ∀ p, position s.committed (t ++ [e]) p = position s.committed t p + taken (polled e) p := by
      intro p
      unfold position
      rw [hflat, taken_append, Nat.add_assoc]
    have hserved : (∀ m ∈ polled e, m.error = false → Recorded topic s.records m) ∧
        ∀ p o, position s.committed t p ≤ o → o < position s.committed t p + taken (polled e) p →
          ∃ value, (s.records p)[o]? = some value ∧ recordOf topic p o value ∈ polled e := by
      cases e with
      | consume msgs =>
        rw [show polled (Event.consume msgs : Event ρ) = msgs from rfl, he]
        exact serve_spec _ _
      | _ => exact ⟨fun m hm => absurd hm List.not_mem_nil, fun p o hle hlt => absurd hlt (Nat.not_lt.2 hle)⟩
    refine ⟨fun m hm => ?_, fun p o hle hlt => ?_⟩
    · obtain ⟨hm, herr⟩ := hm
      rw [hflat] at hm
      rcases List.mem_append.1 hm with hm | hm
      · exact hrecorded m ⟨hm, herr⟩
      · exact hserved.1 m hm herr
    · rw [hpos] at hlt
      rcases Nat.lt_or_ge o (position s.committed t p) with hbefore | hafter
      · obtain ⟨value, hvalue, harrived⟩ := hcovered p o hle hbefore
        exact ⟨value, hvalue, harrived.mono (List.subset_append_left _ _)⟩
      · obtain ⟨value, hvalue, hmem⟩ := hserved.2 p o hafter hlt
        refine ⟨value, hvalue, ?_, rfl⟩
        rw [hflat]
        exact List.mem_append_right _ hmem

/-- Every call is of records of the topic. -/
theorem sourced_of_calls {run : Process ρ φ} {t : Trace ρ} (h : Always (CallOf k topic s run) t) :
    ∀ e ∈ t, k.Sourced topic s.records e := by
  have hof : ∀ a, a <+: t → ∀ i, Made a i → k.Of topic s.records i := by
    rintro a ha i ⟨m, rows, rfl, harrived, hrows⟩
    have ha' := h.of_prefix ha
    refine ⟨m, rows, rfl, (arrived_spec ha').1 m harrived, hrows.imp_right fun he => ?_⟩
    obtain ⟨a', -, -, -, hr⟩ := ha'.mem he
    exact hr.symm
  intro e he
  obtain ⟨a, ha, -, hcall⟩ := h.mem he
  cases e with
  | write batch exc => exact fun i hi => hof a ha i (hcall i hi)
  | quarantine poison exc => exact fun p hp => hof a ha p.1 (hcall p hp)
  | transform m r => exact ⟨(arrived_spec (h.of_prefix ha)).1 m hcall.1, hcall.2⟩
  | _ => trivial

/-! ## Every run -/

theorem Recorded.produce {records : Topic} {m : Message} (h : Recorded topic records m) (p : Int)
    (value : Option Bytes) : Recorded topic (Function.update records p (records p ++ [value])) m := by
  obtain ⟨q, o, v, hv, rfl⟩ := h
  refine ⟨q, o, v, ?_, rfl⟩
  by_cases hq : q = p
  · subst hq
    rw [Function.update_self, List.getElem?_append_left (List.getElem?_eq_some_iff.1 hv).1]
    exact hv
  · rwa [Function.update_of_ne hq]

/-- What holds of a group: what is committed is settled, and what was called is of the topic. -/
structure GroupInv (k : Sink ρ σ φ) (topic : String) (s : GroupSys ρ σ) : Prop where
  committed : ∀ p o, o < s.committed p →
    ∃ value, (s.records p)[o]? = some value ∧ Settled s.events (recordOf topic p o value)
  sourced : ∀ e ∈ s.events, k.Sourced topic s.records e

theorem Sink.Of.produce {records : Topic} {i : Item ρ} (h : k.Of topic records i) (p : Int)
    (value : Option Bytes) : k.Of topic (Function.update records p (records p ++ [value])) i := by
  obtain ⟨m, rows, hi, hm, hrows⟩ := h
  exact ⟨m, rows, hi, hm.produce p value, hrows⟩

theorem GroupInv.produce (h : GroupInv k topic s) (p : Int) (value : Option Bytes) :
    GroupInv k topic { s with records := Function.update s.records p (s.records p ++ [value]) } where
  committed q o ho := by
    obtain ⟨v, hv, hsettled⟩ := h.committed q o ho
    have hold : Recorded topic s.records (recordOf topic q o v) := ⟨q, o, v, hv, rfl⟩
    obtain ⟨q', o', v', hv', heq⟩ := hold.produce p value
    cases heq
    exact ⟨v, hv', hsettled⟩
  sourced e he := by
    have hold := h.sourced e he
    cases e with
    | write batch exc => exact fun i hi => (hold i hi).produce p value
    | quarantine poison exc => exact fun x hx => (hold x hx).produce p value
    | transform m r => exact ⟨hold.1.produce p value, hold.2⟩
    | _ => trivial

theorem GroupInv.process (h : GroupInv k topic s) (run : Process ρ φ) : GroupInv k topic (s.ran k topic run) where
  committed := by
    have hcalls := trace_calls k topic s run
    have hcommits := trace_commits k topic s run
    unfold GroupSys.ran
    generalize s.trace k topic run = t at hcalls hcommits
    refine replay_invariant (J := fun t (c : Int → Nat) => ∀ p o, o < c p → ∃ value,
      (s.records p)[o]? = some value ∧ Settled (s.events ++ t) (recordOf topic p o value)) ?_
      (P := fun t e => Always (CallOf k topic s run) t ∧ CommitJustified (s.world k topic run) t e) ?_ ?_
    · intro p o ho
      obtain ⟨value, hvalue, hsettled⟩ := h.committed p o ho
      exact ⟨value, hvalue, hsettled.mono (List.subset_append_left _ _)⟩
    · exact fun a e c heq => ⟨hcalls.of_prefix ⟨e :: c, heq.symm⟩, hcommits a e c heq⟩
    · rintro t e hold ⟨hcalls, hcommit⟩ p o ho
      have hmore : s.events ++ t ⊆ s.events ++ (t ++ [e]) := by
        rw [← List.append_assoc]
        exact List.subset_append_left _ _
      rcases commitCall_lt ho with hbefore | ⟨⟨exc, rfl⟩, hpos⟩
      · obtain ⟨value, hvalue, hsettled⟩ := hold p o hbefore
        exact ⟨value, hvalue, hsettled.mono hmore⟩
      · rcases Nat.lt_or_ge o (s.committed p) with hbefore | hafter
        · obtain ⟨value, hvalue, hsettled⟩ := h.committed p o hbefore
          exact ⟨value, hvalue, hsettled.mono (List.subset_append_left _ _)⟩
        · obtain ⟨value, hvalue, harrived, herr⟩ := (arrived_spec hcalls).2 p o hafter hpos
          obtain ⟨e, he, hm⟩ := List.mem_flatMap.1 harrived
          cases e with
          | consume msgs =>
            exact ⟨value, hvalue, (hcommit.2 msgs he _ hm herr).mono
              (List.Subset.trans (List.subset_append_right _ _) hmore)⟩
          | _ => cases hm
  sourced e he := by
    rcases List.mem_append.1 he with he | he
    · exact h.sourced e he
    · exact sourced_of_calls (trace_calls k topic s run) e he

variable {C : GroupSys ρ σ → GroupOp ρ φ → Prop}

/-- **What is committed is settled**, in every run: whatever the broker, the sink and the clock answer, and
wherever processes are killed. -/
theorem groupInv_reach {init : σ} (h : (group k topic init).Reach C s) : GroupInv k topic s := by
  refine h.invariant ⟨fun p o ho => absurd ho (Nat.not_lt_zero o), fun e he => absurd he List.not_mem_nil⟩ ?_
  rintro s op s' hs - hstep
  cases op with
  | produce p value =>
    cases hstep
    exact hs.produce p value
  | process run =>
    cases hstep
    exact hs.process run

/-- The calls of a process, each with what it is of. -/
theorem trace_sourced (k : Sink ρ σ φ) (topic : String) (s : GroupSys ρ σ) (run : Process ρ φ) :
    Always (fun t e => CallOf k topic s run t e ∧ k.Sourced topic s.records e) (s.trace k topic run) := by
  have hcalls := trace_calls k topic s run
  intro a e c heq
  exact ⟨hcalls a e c heq, sourced_of_calls hcalls e (heq ▸ List.mem_append_right a List.mem_cons_self)⟩

/-- **What the calls of a sink keep holds of what it keeps**, in every run.  `R` is a property of the topic. -/
theorem sink_invariant {R : Topic → Prop} {J : Trace ρ → σ → Prop} {init : σ} (hnone : R fun _ => [])
    (hproduce : ∀ s p value, C s (.produce p value) → R s.records →
      R (Function.update s.records p (s.records p ++ [value])))
    (hinit : J [] init) (hstart : ∀ es st, J es st → J es (k.start st))
    (hcall : ∀ records es met st e, R records → k.Sourced topic records e → J es st → k.Answers met st e →
      J (es ++ [e]) (k.call met st e))
    (h : (group k topic init).Reach C s) : R s.records ∧ J s.events s.kept := by
  refine h.invariant (I := fun s => R s.records ∧ J s.events s.kept) ⟨hnone, hinit⟩ ?_
  rintro s op s' ⟨hR, hJ⟩ hC hstep
  cases op with
  | produce p value =>
    cases hstep
    exact ⟨hproduce s p value hC hR, hJ⟩
  | process run =>
    cases hstep
    refine ⟨hR, ?_⟩
    show J (s.events ++ s.trace k topic run) (s.keptAfter k run (s.trace k topic run))
    unfold GroupSys.keptAfter
    refine replay_invariant (J := fun t st => J (s.events ++ t) st) ?_ (trace_sourced k topic s run) ?_
    · rw [List.append_nil]
      exact hstart _ _ hJ
    · rintro t e hold ⟨hanswers, hsourced⟩
      rw [← List.append_assoc]
      exact hcall _ _ _ _ _ hR hsourced hold hanswers.1

/-- What every call of a sink keeps, a step keeps. -/
theorem sink_keeps {Q : σ → Prop} (hstart : ∀ st, Q st → Q (k.start st))
    (hcall : ∀ met st e, k.Sourced topic s.records e → Q st → Q (k.call met st e)) {op : GroupOp ρ φ}
    (hstep : s.step k topic op = some s') (h : Q s.kept) : Q s'.kept := by
  cases op with
  | produce p value =>
    cases hstep
    exact h
  | process run =>
    cases hstep
    exact replay_invariant (J := fun _ st => Q st) (hstart _ h) (trace_sourced k topic s run)
      fun t e hold he => hcall _ _ _ he.2 hold

end Calls

end OTS.Consumers
