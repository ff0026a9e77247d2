import OTSecurity.Lib.Bytes
import OTSecurity.Lib.Trace

/-!
# Durable writes

Model of `consumers/sih_consumers/base.py`: `is_permanent`, `durable_write`, `run_consumer`.

The outside (the sink, the stop event, the broker client) is a `World`: it answers each call by
the whole trace of calls so far, so any pattern of successes and failures is a world.  A function
extends the trace by the calls it makes.  The two unbounded loops take fuel; `none` means that the
fuel ran out.

* `durableWrite` — batch write, three strikes, isolation, quarantine.
* `runConsumer` — consume, transform, durable write, commit.
* `Kept`, `Justified` — what a trace shows about an item.

Principal results: `consumers_lose_nothing`; `durable_write_returns` — the loop ends once the sink
stays available.
-/

namespace OTS.Consumers

/-- What decides whether an exception is permanent. -/
inductive ExcKind where
  | permanentWriteError
  | clickHouseError (permanent : Bool)
  | typeError
  | valueError
  | other
  deriving DecidableEq, Repr

structure Exc where
  kind : ExcKind
  message : String
  deriving DecidableEq, Repr

def is_permanent (e : Exc) : Bool :=
  match e.kind with
  | .permanentWriteError => true
  | .clickHouseError permanent => permanent
  | .typeError | .valueError => true
  | .other => false

structure Message where
  error : Bool
  topic : String
  partition : Int
  offset : Int
  value : Option Bytes
  deriving DecidableEq, Repr

structure Item (ρ : Type) where
  topic : String
  partition : Int
  offset : Int
  payload : Bytes
  rows : List ρ
  deriving DecidableEq, Repr

/-- `sink.transform`: rows, or `Poison`, or another exception. -/
inductive Transformed (ρ : Type) where
  | rows (rows : List ρ)
  | poison (message : String)
  | raises (e : Exc)
  deriving DecidableEq, Repr

/-- A call and its outcome (`none`: it returned normally).  Writes and quarantines keep the items
their arguments were made from. -/
inductive Event (ρ : Type) where
  | isSet (b : Bool)
  | write (batch : List (Item ρ)) (exc : Option Exc)
  | quarantine (poison : List (Item ρ × String)) (exc : Option Exc)
  | wait (ms : Nat)
  | consume (msgs : List Message)
  | transform (m : Message) (result : Transformed ρ)
  | commit (exc : Option Exc)
  deriving DecidableEq, Repr

abbrev Trace (ρ : Type) := List (Event ρ)

/-- `(topic, partition, offset, reason, payload)`. -/
abbrev QuarantineEntry := String × Int × Int × String × Bytes

/-- The answers of the outside, each a function of everything that happened before. -/
structure World (ρ : Type) where
  isSet : Trace ρ → Bool
  write : Trace ρ → List ρ → Option Exc
  quarantine : Trace ρ → List QuarantineEntry → Option Exc
  consume : Trace ρ → List Message
  transform : Trace ρ → Bytes → Transformed ρ
  commit : Trace ρ → Option Exc

variable {ρ : Type}

def rowsOf (batch : List (Item ρ)) : List ρ := batch.flatMap (·.rows)

def quarantineEntry (p : Item ρ × String) : QuarantineEntry :=
  (p.1.topic, p.1.partition, p.1.offset, p.2, p.1.payload)

/-- `str(e)[:300]`. -/
def brief (message : String) : String := String.ofList (message.toList.take 300)

def World.doWrite (w : World ρ) (batch : List (Item ρ)) (t : Trace ρ) : Option Exc × Trace ρ :=
  (w.write t (rowsOf batch), t ++ [.write batch (w.write t (rowsOf batch))])

def World.doQuarantine (w : World ρ) (poison : List (Item ρ × String)) (t : Trace ρ) :
    Option Exc × Trace ρ :=
  (w.quarantine t (poison.map quarantineEntry),
    t ++ [.quarantine poison (w.quarantine t (poison.map quarantineEntry))])

/-- The body of the `try`: `none` when it reaches `return True`. -/
def attempt (w : World ρ) (good : List (Item ρ)) (poison : List (Item ρ × String)) (t : Trace ρ) :
    Option Exc × Trace ρ :=
  let wrote := if rowsOf good = [] then (none, t) else w.doWrite good t
  match wrote with
  | (some e, t) => (some e, t)
  | (none, t) => if poison = [] then (none, t) else w.doQuarantine poison t

/-- The locals of `durable_write`. -/
structure Locals (ρ : Type) where
  good : List (Item ρ)
  poison : List (Item ρ × String)
  permanentAttempts : Nat
  transientAttempts : Nat

/-- Isolation of the rejected records: each item of `good` is written by itself. -/
def isolate (w : World ρ) : List (Item ρ) → List (Item ρ) → List (Item ρ × String) → Trace ρ →
    List (Item ρ) × List (Item ρ × String) × Trace ρ
  | [], stillGood, poison, t => (stillGood, poison, t)
  | i :: good, stillGood, poison, t =>
    match w.doWrite [i] t with
    | (none, t) => isolate w good stillGood poison t
    | (some e, t) =>
      if ¬ is_permanent e then isolate w good (stillGood ++ [i]) poison t
      else isolate w good stillGood (poison ++ [(i, "write_rejected: " ++ brief e.message)]) t

/-- The `except` branch. -/
def handle (w : World ρ) (s : Locals ρ) (e : Exc) (t : Trace ρ) : Locals ρ × Trace ρ :=
  if is_permanent e ∧ s.good ≠ [] then
    if s.permanentAttempts + 1 ≥ 3 then
      let (stillGood, poison, t) := isolate w s.good [] s.poison t
      (⟨stillGood, poison, s.permanentAttempts + 1, s.transientAttempts⟩, t)
    else ({ s with permanentAttempts := s.permanentAttempts + 1 }, t)
  else
    -- `min(30.0, 0.5 * 2 ** min(transient_attempts, 6))` seconds
    ({ s with transientAttempts := s.transientAttempts + 1 },
      t ++ [.wait (min 30000 (500 * 2 ^ min (s.transientAttempts + 1) 6))])

/-- The `while` loop. -/
def durableLoop (w : World ρ) : Nat → Locals ρ → Trace ρ → Option Bool × Trace ρ
  | 0, _, t => (none, t)
  | fuel + 1, s, t =>
    if w.isSet t then (some false, t ++ [.isSet true])
    else match attempt w s.good s.poison (t ++ [.isSet false]) with
      | (none, t) => (some true, t)
      | (some e, t) => durableLoop w fuel (handle w s e t).1 (handle w s e t).2

def durableWrite (w : World ρ) (fuel : Nat) (items : List (Item ρ)) (t : Trace ρ) :
    Option Bool × Trace ρ :=
  durableLoop w fuel ⟨items.filter (fun i => ¬ i.rows.isEmpty), [], 0, 0⟩ t

/-- `Item(m.topic(), m.partition(), m.offset(), m.value() or b"")`. -/
def Message.item (m : Message) (rows : List ρ) : Item ρ :=
  ⟨m.topic, m.partition, m.offset, m.value.getD [], rows⟩

/-- The batch loop: the items, or the exception that ends the consumer. -/
def gather (w : World ρ) : List Message → List (Item ρ) → Trace ρ →
    Except Exc (List (Item ρ)) × Trace ρ
  | [], items, t => (.ok items, t)
  | m :: msgs, items, t =>
    if m.error then gather w msgs items t
    else
      let it : Item ρ := m.item []
      match w.transform t it.payload with
      | .raises e => (.error e, t ++ [.transform m (.raises e)])
      | .rows rows => gather w msgs (items ++ [m.item rows]) (t ++ [.transform m (.rows rows)])
      | .poison message =>
        match w.doQuarantine [(it, "transform: " ++ brief message)]
            (t ++ [.transform m (.poison message)]) with
        | (none, t) => gather w msgs (items ++ [it]) t
        | (some e, t) => (.error e, t ++ [.wait 2000])

/-- How the consumer ended: stopped, or with the exception that propagates. -/
inductive Ended where
  | stopped
  | raised (e : Exc)
  deriving DecidableEq, Repr

def runConsumer (w : World ρ) : Nat → Trace ρ → Option Ended × Trace ρ
  | 0, t => (none, t)
  | fuel + 1, t =>
    if w.isSet t then (some .stopped, t ++ [.isSet true])
    else
      let t := t ++ [.isSet false]
      let msgs := w.consume t
      match gather w msgs [] (t ++ [.consume msgs]) with
      | (.error e, t) => (some (.raised e), t)
      | (.ok items, t) =>
        if items = [] then runConsumer w fuel t
        else match durableWrite w fuel items t with
          | (none, t) => (none, t)
          | (some false, t) => (some .stopped, t)
          | (some true, t) =>
            match w.commit t with
            | some e => (some (.raised e), t ++ [.commit (some e)])
            | none => runConsumer w fuel (t ++ [.commit none])

/-! ## Equations -/

section equations

variable (w : World ρ) (good stillGood : List (Item ρ)) (poison : List (Item ρ × String)) (t : Trace ρ)

theorem World.doWrite_eq (batch : List (Item ρ)) :
    w.doWrite batch t =
      (w.write t (rowsOf batch), t ++ [.write batch (w.write t (rowsOf batch))]) := rfl

theorem World.doQuarantine_eq :
    w.doQuarantine poison t = (w.quarantine t (poison.map quarantineEntry),
      t ++ [.quarantine poison (w.quarantine t (poison.map quarantineEntry))]) := rfl

theorem attempt_eq :
    attempt w good poison t =
      match if rowsOf good = [] then (none, t) else w.doWrite good t with
      | (some e, t) => (some e, t)
      | (none, t) => if poison = [] then (none, t) else w.doQuarantine poison t := rfl

theorem isolate_cons (i : Item ρ) :
    isolate w (i :: good) stillGood poison t =
      match w.doWrite [i] t with
      | (none, t) => isolate w good stillGood poison t
      | (some e, t) =>
        if ¬ is_permanent e then isolate w good (stillGood ++ [i]) poison t
        else isolate w good stillGood
          (poison ++ [(i, "write_rejected: " ++ brief e.message)]) t := rfl

theorem handle_eq (s : Locals ρ) (e : Exc) :
    handle w s e t =
      if is_permanent e ∧ s.good ≠ [] then
        if s.permanentAttempts + 1 ≥ 3 then
          (⟨(isolate w s.good [] s.poison t).1, (isolate w s.good [] s.poison t).2.1,
            s.permanentAttempts + 1, s.transientAttempts⟩, (isolate w s.good [] s.poison t).2.2)
        else ({ s with permanentAttempts := s.permanentAttempts + 1 }, t)
      else
        ({ s with transientAttempts := s.transientAttempts + 1 },
          t ++ [.wait (min 30000 (500 * 2 ^ min (s.transientAttempts + 1) 6))]) := rfl

theorem durableLoop_succ (fuel : Nat) (s : Locals ρ) :
    durableLoop w (fuel + 1) s t =
      if w.isSet t then (some false, t ++ [.isSet true])
      else match attempt w s.good s.poison (t ++ [.isSet false]) with
        | (none, t) => (some true, t)
        | (some e, t) => durableLoop w fuel (handle w s e t).1 (handle w s e t).2 := rfl

end equations

/-! ## What a trace shows -/

/-- An individual write of the item failed permanently. -/
def Rejected (t : Trace ρ) (it : Item ρ) : Prop :=
  ∃ e, is_permanent e = true ∧ Event.write [it] (some e) ∈ t

/-- The item was in a write that returned normally. -/
def Written (t : Trace ρ) (it : Item ρ) : Prop := ∃ batch, Event.write batch none ∈ t ∧ it ∈ batch

/-- The item was in a quarantine that returned normally. -/
def Quarantined (t : Trace ρ) (it : Item ρ) : Prop :=
  ∃ poison reason, Event.quarantine poison none ∈ t ∧ (it, reason) ∈ poison

/-- Only items rejected individually, before, are sent to quarantine. -/
def Justified (items : List (Item ρ)) (before : Trace ρ) : Event ρ → Prop
  | .quarantine poison _ => ∀ p ∈ poison, p.1 ∈ items ∧ p.1.rows ≠ [] ∧ Rejected before p.1
  | _ => True

/-- The item reached the store or the quarantine. -/
def Kept (t : Trace ρ) (it : Item ρ) : Prop := Written t it ∨ Quarantined t it

/-- The calls `durable_write` makes. -/
def DurableCall : Event ρ → Prop
  | .isSet _ | .write .. | .quarantine .. | .wait _ => True
  | .consume _ | .transform .. | .commit _ => False

theorem Rejected.mono {t t' : Trace ρ} {it : Item ρ} (h : Rejected t it) (hs : t ⊆ t') :
    Rejected t' it := by
  obtain ⟨e, he, hm⟩ := h
  exact ⟨e, he, hs hm⟩

theorem Written.mono {t t' : Trace ρ} {it : Item ρ} (h : Written t it) (hs : t ⊆ t') :
    Written t' it := by
  obtain ⟨b, hm, hb⟩ := h
  exact ⟨b, hs hm, hb⟩

theorem Kept.mono {t t' : Trace ρ} {it : Item ρ} (h : Kept t it) (hs : t ⊆ t') : Kept t' it := by
  rcases h with h | ⟨p, r, hm, hp⟩
  · exact .inl (h.mono hs)
  · exact .inr ⟨p, r, hs hm, hp⟩

/-! ## The loop invariant -/

/-- Every item with rows is still good, or written, or among the poison, after the calls `seg`. -/
structure Inv (items : List (Item ρ)) (seg : Trace ρ) (s : Locals ρ) : Prop where
  good : ∀ i ∈ s.good, i ∈ items ∧ i.rows ≠ []
  poison : ∀ p ∈ s.poison, p.1 ∈ items ∧ p.1.rows ≠ [] ∧ Rejected seg p.1
  cover : ∀ i ∈ items, i.rows ≠ [] → i ∈ s.good ∨ Written seg i ∨ ∃ reason, (i, reason) ∈ s.poison
  justified : Always (Justified items) seg
  calls : ∀ e ∈ seg, DurableCall e

theorem Inv.init (items : List (Item ρ)) :
    Inv items [] ⟨items.filter (fun i => ¬ i.rows.isEmpty), [], 0, 0⟩ where
  good i hi := by simpa using hi
  poison p hp := by cases hp
  cover i hi hr := .inl (by simpa using ⟨hi, hr⟩)
  justified := always_nil
  calls e he := by cases he

/-- One more call; a quarantine has to be justified. -/
theorem Inv.call {items : List (Item ρ)} {seg : Trace ρ} {s : Locals ρ} (h : Inv items seg s)
    {e : Event ρ} (hj : Justified items seg e) (hc : DurableCall e) :
    Inv items (seg ++ [e]) s where
  good := h.good
  poison p hp := by
    obtain ⟨h1, h2, h3⟩ := h.poison p hp
    exact ⟨h1, h2, h3.mono (List.subset_append_left _ _)⟩
  cover i hi hr := by
    rcases h.cover i hi hr with hg | hw | hp
    · exact .inl hg
    · exact .inr (.inl (hw.mono (List.subset_append_left _ _)))
    · exact .inr (.inr hp)
  justified := h.justified.concat hj
  calls x hx := by
    rcases List.mem_append.1 hx with hx | hx
    · exact h.calls x hx
    · exact List.mem_singleton.1 hx ▸ hc

/-- The counters play no part. -/
theorem Inv.counters {items : List (Item ρ)} {seg : Trace ρ} {s : Locals ρ} (h : Inv items seg s)
    (p q : Nat) : Inv items seg ⟨s.good, s.poison, p, q⟩ :=
  ⟨h.good, h.poison, h.cover, h.justified, h.calls⟩

/-- Everything good written and all the poison quarantined: everything is kept. -/
theorem Inv.kept {items : List (Item ρ)} {seg : Trace ρ} {s : Locals ρ} (h : Inv items seg s)
    (hgood : ∀ i ∈ s.good, Written seg i) (hpoison : ∀ p ∈ s.poison, Quarantined seg p.1) :
    ∀ i ∈ items, i.rows ≠ [] → Kept seg i := by
  intro i hi hr
  rcases h.cover i hi hr with hg | hw | ⟨reason, hp⟩
  · exact .inl (hgood i hg)
  · exact .inl hw
  · exact .inr (hpoison _ hp)

theorem rowsOf_eq_nil {good : List (Item ρ)} (h : ∀ i ∈ good, i.rows ≠ []) (hn : rowsOf good = []) :
    good = [] := by
  cases good with
  | nil => rfl
  | cons i good =>
    simp only [rowsOf, List.flatMap_cons, List.append_eq_nil_iff] at hn
    exact absurd hn.1 (h i List.mem_cons_self)

/-- The body of the `try` keeps the invariant, and everything is kept when it ends normally. -/
theorem attempt_spec (w : World ρ) {items : List (Item ρ)} (t₀ : Trace ρ) {seg : Trace ρ} {s : Locals ρ}
    (h : Inv items seg s) :
    ∃ seg', (attempt w s.good s.poison (t₀ ++ seg)).2 = t₀ ++ seg' ∧ Inv items seg' s ∧
      ((attempt w s.good s.poison (t₀ ++ seg)).1 = none →
        ∀ i ∈ items, i.rows ≠ [] → Kept seg' i) := by
  -- the batch write, when there is something to write
  obtain ⟨e, seg₁, hwrote, h₁, hw₁⟩ : ∃ e seg₁,
      (if rowsOf s.good = [] then (none, t₀ ++ seg) else w.doWrite s.good (t₀ ++ seg)) =
        (e, t₀ ++ seg₁) ∧ Inv items seg₁ s ∧ (e = none → ∀ i ∈ s.good, Written seg₁ i) := by
    by_cases hr : rowsOf s.good = []
    · refine ⟨none, seg, if_pos hr, h, fun _ i hi => ?_⟩
      rw [rowsOf_eq_nil (fun i hi => (h.good i hi).2) hr] at hi
      cases hi
    · refine ⟨_, seg ++ [Event.write s.good _], by rw [if_neg hr, World.doWrite_eq, List.append_assoc],
        h.call (e := .write s.good _) trivial trivial, fun hnone i hi => ⟨s.good, ?_, hi⟩⟩
      rw [← hnone]
      exact List.mem_append_right _ (List.mem_singleton_self _)
  rw [attempt_eq]
  rw [hwrote]
  cases e with
  | some e => exact ⟨seg₁, rfl, h₁, fun hnone => by cases hnone⟩
  | none =>
    simp only
    by_cases hp : s.poison = []
    · rw [if_pos hp]
      exact ⟨seg₁, rfl, h₁, fun _ => h₁.kept (hw₁ rfl) (fun p hm => by rw [hp] at hm; cases hm)⟩
    · rw [if_neg hp]
      have h₂ : Inv items (seg₁ ++ [Event.quarantine s.poison
          (w.quarantine (t₀ ++ seg₁) (s.poison.map quarantineEntry))]) s :=
        h₁.call (fun p hm => h₁.poison p hm) trivial
      refine ⟨_, by rw [World.doQuarantine_eq, List.append_assoc], h₂, fun hnone => ?_⟩
      refine h₂.kept (fun i hi => (hw₁ rfl i hi).mono (List.subset_append_left _ _))
        (fun p hm => ⟨s.poison, p.2, ?_, hm⟩)
      have hq : w.quarantine (t₀ ++ seg₁) (s.poison.map quarantineEntry) = none := hnone
      rw [hq]
      exact List.mem_append_right _ (List.mem_singleton_self _)

theorem mem_moved {α : Type} {i j : α} {l m : List α} :
    j ∈ l ++ (m ++ [i]) ↔ j ∈ i :: l ++ m := by
  simp only [List.mem_append, List.mem_cons, List.cons_append, List.not_mem_nil, or_false]
  constructor
  · rintro (h | h | h)
    · exact .inr (.inl h)
    · exact .inr (.inr h)
    · exact .inl h
  · rintro (h | h | h)
    · exact .inr (.inr h)
    · exact .inl h
    · exact .inr (.inl h)

/-- Isolation: each item is written, or kept for another attempt, or rejected. -/
theorem isolate_spec {w : World ρ} {items : List (Item ρ)} {t₀ : Trace ρ} {p q : Nat} :
    ∀ (good stillGood : List (Item ρ)) (poison : List (Item ρ × String)) (seg : Trace ρ),
      Inv items seg ⟨good ++ stillGood, poison, p, q⟩ →
      ∃ seg', (isolate w good stillGood poison (t₀ ++ seg)).2.2 = t₀ ++ seg' ∧
        Inv items seg' ⟨(isolate w good stillGood poison (t₀ ++ seg)).1,
          (isolate w good stillGood poison (t₀ ++ seg)).2.1, p, q⟩
  | [], stillGood, poison, seg, h => ⟨seg, rfl, h⟩
  | i :: good, stillGood, poison, seg, h => by
    have hi := h.good i List.mem_cons_self
    have hcall := h.call (e := .write [i] (w.write (t₀ ++ seg) (rowsOf [i]))) trivial trivial
    have hrest : ∀ j ∈ good ++ stillGood, j ∈ items ∧ j.rows ≠ [] :=
      fun j hj => hcall.good j (List.mem_cons_of_mem _ hj)
    have hevent : Event.write [i] (w.write (t₀ ++ seg) (rowsOf [i])) ∈
        seg ++ [Event.write [i] (w.write (t₀ ++ seg) (rowsOf [i]))] :=
      List.mem_append_right _ (List.mem_singleton_self _)
    rw [isolate_cons]
    simp only [World.doWrite_eq, List.append_assoc]
    cases he : w.write (t₀ ++ seg) (rowsOf [i]) with
    | none =>
      rw [he] at hcall hevent
      refine isolate_spec good stillGood poison _ ⟨hrest, hcall.poison, fun j hj hr => ?_,
        hcall.justified, hcall.calls⟩
      rcases hcall.cover j hj hr with hg | hw | hp
      · rcases List.mem_cons.1 hg with rfl | hg
        · exact .inr (.inl ⟨[j], hevent, List.mem_singleton_self _⟩)
        · exact .inl hg
      · exact .inr (.inl hw)
      · exact .inr (.inr hp)
    | some e =>
      rw [he] at hcall hevent
      simp only
      by_cases hperm : is_permanent e
      · rw [if_neg (by simp [hperm])]
        refine isolate_spec good stillGood _ _ ⟨hrest, fun x hx => ?_, fun j hj hr => ?_,
          hcall.justified, hcall.calls⟩
        · rcases List.mem_append.1 hx with hx | hx
          · exact hcall.poison x hx
          · rw [List.mem_singleton.1 hx]
            exact ⟨hi.1, hi.2, e, hperm, hevent⟩
        · rcases hcall.cover j hj hr with hg | hw | ⟨reason, hp⟩
          · rcases List.mem_cons.1 hg with rfl | hg
            · exact .inr (.inr ⟨_, List.mem_append_right _ (List.mem_singleton_self _)⟩)
            · exact .inl hg
          · exact .inr (.inl hw)
          · exact .inr (.inr ⟨reason, List.mem_append_left _ hp⟩)
      · rw [if_pos hperm]
        refine isolate_spec good (stillGood ++ [i]) poison _ ⟨fun j hj => ?_, hcall.poison,
          fun j hj hr => ?_, hcall.justified, hcall.calls⟩
        · exact hcall.good j (mem_moved.1 hj)
        · rcases hcall.cover j hj hr with hg | hw | hp
          · exact .inl (mem_moved.2 hg)
          · exact .inr (.inl hw)
          · exact .inr (.inr hp)

/-- The `except` branch keeps the invariant. -/
theorem handle_spec (w : World ρ) {items : List (Item ρ)} (t₀ : Trace ρ) {seg : Trace ρ} {s : Locals ρ}
    (h : Inv items seg s) (e : Exc) :
    ∃ seg', (handle w s e (t₀ ++ seg)).2 = t₀ ++ seg' ∧
      Inv items seg' (handle w s e (t₀ ++ seg)).1 := by
  rw [handle_eq]
  split
  · split
    · have hstart : Inv items seg ⟨s.good ++ [], s.poison, s.permanentAttempts + 1,
          s.transientAttempts⟩ := by rw [List.append_nil]; exact h.counters _ _
      exact isolate_spec s.good [] s.poison seg hstart
    · exact ⟨seg, rfl, h.counters _ _⟩
  · refine ⟨seg ++ [Event.wait _], by rw [List.append_assoc], ?_⟩
    exact (h.call (e := .wait _) trivial trivial).counters _ _

/-- **The loop**: whatever the outcome, only rejected items were sent to quarantine; on `True`
every item with rows is kept. -/
theorem durableLoop_spec (w : World ρ) {items : List (Item ρ)} (t₀ : Trace ρ) :
    ∀ (fuel : Nat) (s : Locals ρ) (seg : Trace ρ), Inv items seg s →
      ∃ seg', (durableLoop w fuel s (t₀ ++ seg)).2 = t₀ ++ seg' ∧ Always (Justified items) seg' ∧
        (∀ e ∈ seg', DurableCall e) ∧
        ((durableLoop w fuel s (t₀ ++ seg)).1 = some true →
          ∀ i ∈ items, i.rows ≠ [] → Kept seg' i)
  | 0, s, seg, h => ⟨seg, rfl, h.justified, h.calls, fun hr => by cases hr⟩
  | fuel + 1, s, seg, h => by
    rw [durableLoop_succ]
    by_cases hstop : w.isSet (t₀ ++ seg)
    · have h' := h.call (e := .isSet true) trivial trivial
      rw [if_pos hstop]
      exact ⟨seg ++ [Event.isSet true], by rw [List.append_assoc], h'.justified, h'.calls,
        fun hr => by cases hr⟩
    · rw [if_neg hstop, List.append_assoc]
      obtain ⟨seg₁, ht₁, h₁, hkept⟩ := attempt_spec w t₀
        (h.call (e := .isSet false) trivial trivial)
      obtain ⟨r, hr⟩ : ∃ r, attempt w s.good s.poison (t₀ ++ (seg ++ [Event.isSet false])) = r := ⟨_, rfl⟩
      obtain ⟨r, t⟩ := r
      rw [hr] at ht₁ hkept ⊢
      simp only at ht₁
      subst ht₁
      cases r with
      | none => exact ⟨seg₁, rfl, h₁.justified, h₁.calls, fun _ => hkept rfl⟩
      | some e =>
        obtain ⟨seg₂, ht₂, h₂⟩ := handle_spec w t₀ h₁ e
        simp only [ht₂]
        exact durableLoop_spec w t₀ fuel _ seg₂ h₂

theorem durableWrite_spec (w : World ρ) (fuel : Nat) (items : List (Item ρ)) (t : Trace ρ) :
    ∃ seg, (durableWrite w fuel items t).2 = t ++ seg ∧ Always (Justified items) seg ∧
      (∀ e ∈ seg, DurableCall e) ∧
      ((durableWrite w fuel items t).1 = some true → ∀ i ∈ items, i.rows ≠ [] → Kept seg i) := by
  have h := durableLoop_spec w t fuel _ [] (Inv.init items)
  rw [List.append_nil] at h
  exact h

/-! ## What is written -/

/-- A write is of items of the batch, and its outcome is the world's answer at that point. -/
def Answered (w : World ρ) (items : List (Item ρ)) (before : Trace ρ) : Event ρ → Prop
  | .write batch exc => batch ⊆ items ∧ exc = w.write before (rowsOf batch)
  | _ => True

/-- Any other call answers to nothing. -/
theorem answered_call {w : World ρ} {items : List (Item ρ)} {t : Trace ρ} {e : Event ρ}
    (h : Always (Answered w items) t) (he : ∀ batch exc, e ≠ .write batch exc) :
    Always (Answered w items) (t ++ [e]) := by
  refine h.concat ?_
  cases e with
  | write batch exc => exact absurd rfl (he batch exc)
  | _ => trivial

theorem attempt_answered {w : World ρ} {items good : List (Item ρ)} (hgood : good ⊆ items)
    (poison : List (Item ρ × String)) {t : Trace ρ} (h : Always (Answered w items) t) :
    Always (Answered w items) (attempt w good poison t).2 := by
  have hquarantine : ∀ t', Always (Answered w items) t' →
      Always (Answered w items) (if poison = [] then ((none : Option Exc), t') else
        w.doQuarantine poison t').2 := by
    intro t' h'
    split
    · exact h'
    · exact answered_call h' nofun
  rw [attempt_eq]
  by_cases hr : rowsOf good = []
  · rw [if_pos hr]
    exact hquarantine t h
  · have hwrote : Always (Answered w items) (t ++ [Event.write good (w.write t (rowsOf good))]) :=
      h.concat ⟨hgood, rfl⟩
    rw [if_neg hr, World.doWrite_eq]
    cases he : w.write t (rowsOf good) with
    | some e =>
      rw [he] at hwrote
      exact hwrote
    | none =>
      rw [he] at hwrote
      exact hquarantine _ hwrote

theorem isolate_answered {w : World ρ} {items : List (Item ρ)} :
    ∀ (good stillGood : List (Item ρ)) (poison : List (Item ρ × String)) (t : Trace ρ),
      good ⊆ items → stillGood ⊆ items → Always (Answered w items) t →
      (isolate w good stillGood poison t).1 ⊆ items ∧
        Always (Answered w items) (isolate w good stillGood poison t).2.2
  | [], _, _, _, _, hstill, h => ⟨hstill, h⟩
  | i :: good, stillGood, poison, t, hgood, hstill, h => by
    have hi : [i] ⊆ items := List.cons_subset.2 ⟨hgood (List.mem_cons_self ..), List.nil_subset _⟩
    have hrest : good ⊆ items := fun x hx => hgood (List.mem_cons_of_mem _ hx)
    have hwrote : Always (Answered w items) (t ++ [Event.write [i] (w.write t (rowsOf [i]))]) :=
      h.concat ⟨hi, rfl⟩
    rw [isolate_cons, World.doWrite_eq]
    cases he : w.write t (rowsOf [i]) with
    | none => exact isolate_answered good _ _ _ hrest hstill (he ▸ hwrote)
    | some e =>
      simp only
      split
      · exact isolate_answered good _ _ _ hrest (List.append_subset.2 ⟨hstill, hi⟩) (he ▸ hwrote)
      · exact isolate_answered good _ _ _ hrest hstill (he ▸ hwrote)

theorem handle_answered {w : World ρ} {items : List (Item ρ)} {s : Locals ρ} (hgood : s.good ⊆ items)
    (e : Exc) {t : Trace ρ} (h : Always (Answered w items) t) :
    (handle w s e t).1.good ⊆ items ∧ Always (Answered w items) (handle w s e t).2 := by
  rw [handle_eq]
  split
  · split
    · exact isolate_answered s.good [] s.poison t hgood (List.nil_subset _) h
    · exact ⟨hgood, h⟩
  · exact ⟨hgood, answered_call h nofun⟩

theorem durableLoop_answered {w : World ρ} {items : List (Item ρ)} :
    ∀ (fuel : Nat) (s : Locals ρ) (t : Trace ρ), s.good ⊆ items → Always (Answered w items) t →
      Always (Answered w items) (durableLoop w fuel s t).2
  | 0, _, _, _, h => h
  | fuel + 1, s, t, hgood, h => by
    rw [durableLoop_succ]
    split
    · exact answered_call h nofun
    · have htried := attempt_answered hgood s.poison
        (answered_call (e := .isSet false) h nofun)
      split
      · rename_i heq
        rw [heq] at htried
        exact htried
      · rename_i e t' heq
        rw [heq] at htried
        obtain ⟨hgood', h'⟩ := handle_answered hgood e htried
        exact durableLoop_answered fuel _ _ hgood' h'

/-- **What `durable_write` writes** is of its items, and each write has the world's answer. -/
theorem durableWrite_answered (w : World ρ) (fuel : Nat) (items : List (Item ρ)) :
    Always (Answered w items) (durableWrite w fuel items []).2 :=
  durableLoop_answered fuel _ [] (fun _ hi => (List.mem_filter.1 hi).1) always_nil

/-! ## Termination -/

/-- From trace length `n` on, the sink accepts everything. -/
def AvailableFrom (w : World ρ) (n : Nat) : Prop :=
  ∀ t, n ≤ t.length → (∀ rows, w.write t rows = none) ∧ ∀ es, w.quarantine t es = none

theorem attempt_length (w : World ρ) (good : List (Item ρ)) (poison : List (Item ρ × String))
    (t : Trace ρ) : t.length ≤ (attempt w good poison t).2.length := by
  simp only [attempt_eq, World.doWrite_eq, World.doQuarantine_eq]
  by_cases hr : rowsOf good = []
  · rw [if_pos hr]
    simp only
    split <;> simp
  · rw [if_neg hr]
    cases w.write t (rowsOf good) with
    | some e => simp
    | none => simp only; split <;> simp

theorem attempt_available {w : World ρ} {n : Nat} (h : AvailableFrom w n) (good : List (Item ρ))
    (poison : List (Item ρ × String)) {t : Trace ρ} (ht : n ≤ t.length) :
    (attempt w good poison t).1 = none := by
  simp only [attempt_eq, World.doWrite_eq, World.doQuarantine_eq]
  have hq : ∀ t', n ≤ t'.length →
      (if poison = [] then ((none : Option Exc), t') else
        (w.quarantine t' (poison.map quarantineEntry),
          t' ++ [Event.quarantine poison (w.quarantine t' (poison.map quarantineEntry))])).1 = none := by
    intro t' ht'
    split
    · rfl
    · exact (h t' ht').2 _
  by_cases hr : rowsOf good = []
  · rw [if_pos hr]
    exact hq t ht
  · rw [if_neg hr]
    simp only [(h t ht).1]
    exact hq _ (by simp only [List.length_append, List.length_singleton]; omega)

theorem isolate_length (w : World ρ) (good stillGood : List (Item ρ))
    (poison : List (Item ρ × String)) (t : Trace ρ) :
    t.length ≤ (isolate w good stillGood poison t).2.2.length := by
  induction good generalizing stillGood poison t with
  | nil => exact Nat.le_refl _
  | cons i good ih =>
    have hstep : ∀ (still : List (Item ρ)) (p : List (Item ρ × String)) (e : Event ρ),
        t.length ≤ (isolate w good still p (t ++ [e])).2.2.length := by
      intro still p e
      have := ih still p (t ++ [e])
      simp only [List.length_append, List.length_singleton] at this
      omega
    rw [isolate_cons, World.doWrite_eq]
    cases w.write t (rowsOf [i]) with
    | none => exact hstep _ _ _
    | some e => simp only; split <;> exact hstep _ _ _

theorem handle_length (w : World ρ) (s : Locals ρ) (e : Exc) (t : Trace ρ) :
    t.length ≤ (handle w s e t).2.length := by
  rw [handle_eq]
  split
  · split
    · exact isolate_length w _ _ _ t
    · exact Nat.le_refl _
  · simp

theorem durableLoop_returns {w : World ρ} {n : Nat} (h : AvailableFrom w n) :
    ∀ (k : Nat) (s : Locals ρ) (t : Trace ρ), n ≤ t.length + k →
      ∃ b, (durableLoop w (k + 1) s t).1 = some b := by
  intro k
  induction k with
  | zero =>
    intro s t ht
    rw [durableLoop_succ]
    split
    · exact ⟨false, rfl⟩
    · have hok := attempt_available h s.good s.poison (t := t ++ [Event.isSet false])
        (by simp only [List.length_append, List.length_singleton]; omega)
      split
      · exact ⟨true, rfl⟩
      · rename_i heq
        rw [heq] at hok
        cases hok
  | succ k ih =>
    intro s t ht
    rw [durableLoop_succ]
    split
    · exact ⟨false, rfl⟩
    · have hlen := attempt_length w s.good s.poison (t ++ [Event.isSet false])
      split
      · exact ⟨true, rfl⟩
      · rename_i e t' heq
        rw [heq] at hlen
        have hh := handle_length w s e t'
        simp only [List.length_append, List.length_singleton] at hlen
        exact ih _ _ (by omega)

/-- **The retry loop ends once the sink stays available**, whatever happened before. -/
theorem durable_write_returns {w : World ρ} {n : Nat} (h : AvailableFrom w n)
    (items : List (Item ρ)) (t : Trace ρ) :
    ∃ fuel b, (durableWrite w fuel items t).1 = some b :=
  ⟨_, durableLoop_returns h n _ t (Nat.le_add_left _ _)⟩

/-! ## The consumer -/

/-- The record of message `m` is accounted for: it was poison and is quarantined, or has no rows,
or is kept. -/
def Settled (t : Trace ρ) (m : Message) : Prop :=
  (∃ message poison, Event.transform m (.poison message) ∈ t ∧ Event.quarantine poison none ∈ t ∧
    (m.item [], "transform: " ++ brief message) ∈ poison) ∨
  ∃ rows, Event.transform m (.rows rows) ∈ t ∧ (rows = [] ∨ Kept t (m.item rows))

/-- Every record consumed so far is settled. -/
def AllSettled (t : Trace ρ) : Prop :=
  ∀ msgs, Event.consume msgs ∈ t → ∀ m ∈ msgs, m.error = false → Settled t m

/-- Offsets are committed right after a durable write that returned `True`. -/
def CommitJustified (w : World ρ) (before : Trace ρ) : Event ρ → Prop
  | .commit _ => (∃ fuel items t₀, durableWrite w fuel items t₀ = (some true, before)) ∧
      AllSettled before
  | _ => True

theorem Settled.mono {t t' : Trace ρ} {m : Message} (h : Settled t m) (hs : t ⊆ t') :
    Settled t' m := by
  rcases h with ⟨message, poison, h1, h2, h3⟩ | ⟨rows, h1, h2⟩
  · exact .inl ⟨message, poison, hs h1, hs h2, h3⟩
  · refine .inr ⟨rows, hs h1, ?_⟩
    rcases h2 with h2 | h2
    · exact .inl h2
    · exact .inr (h2.mono hs)

/-- Events that are neither `consume` nor `commit`. -/
def Inner : Event ρ → Prop
  | .consume _ | .commit _ => False
  | _ => True

theorem DurableCall.inner {e : Event ρ} (h : DurableCall e) : Inner e := by
  cases e <;> trivial

theorem Inner.commitJustified {w : World ρ} {e : Event ρ} (h : Inner e) (a : Trace ρ) :
    CommitJustified w a e := by
  cases e <;> trivial

theorem AllSettled.inner {t seg : Trace ρ} (h : AllSettled t) (hs : ∀ e ∈ seg, Inner e) :
    AllSettled (t ++ seg) := by
  intro msgs hm m hmm he
  rcases List.mem_append.1 hm with hm | hm
  · exact (h msgs hm m hmm he).mono (List.subset_append_left _ _)
  · exact (hs _ hm).elim

/-- What the batch loop does with one message: an item for each record, poison quarantined. -/
def Gathered (items : List (Item ρ)) (seg : Trace ρ) (m : Message) : Prop :=
  (∃ message poison, Event.transform m (.poison message) ∈ seg ∧
    Event.quarantine poison none ∈ seg ∧ (m.item [], "transform: " ++ brief message) ∈ poison ∧
    m.item [] ∈ items) ∨
  ∃ rows, Event.transform m (.rows rows) ∈ seg ∧ m.item rows ∈ items

theorem Gathered.mono {items items' : List (Item ρ)} {seg seg' : Trace ρ} {m : Message}
    (h : Gathered items seg m) (hi : items ⊆ items') (hs : seg ⊆ seg') :
    Gathered items' seg' m := by
  rcases h with ⟨message, poison, h1, h2, h3, h4⟩ | ⟨rows, h1, h2⟩
  · exact .inl ⟨message, poison, hs h1, hs h2, h3, hi h4⟩
  · exact .inr ⟨rows, hs h1, hi h2⟩

theorem gather_spec (w : World ρ) (t₀ : Trace ρ) :
    ∀ (msgs : List Message) (items : List (Item ρ)) (seg : Trace ρ), (∀ e ∈ seg, Inner e) →
      ∃ seg', (gather w msgs items (t₀ ++ seg)).2 = t₀ ++ seg' ∧ (∀ e ∈ seg', Inner e) ∧
        seg ⊆ seg' ∧ ∀ items', (gather w msgs items (t₀ ++ seg)).1 = .ok items' →
          items ⊆ items' ∧ ∀ m ∈ msgs, m.error = false → Gathered items' seg' m
  | [], items, seg, h => ⟨seg, rfl, h, List.Subset.refl _, fun items' he => by
      cases he; exact ⟨List.Subset.refl _, fun m hm => by cases hm⟩⟩
  | m :: msgs, items, seg, h => by
    have hgrow : ∀ es : Trace ρ, (∀ e ∈ es, Inner e) → ∀ e ∈ seg ++ es, Inner e := by
      intro es hes e he
      rcases List.mem_append.1 he with he | he
      · exact h e he
      · exact hes e he
    have hsub : ∀ es : Trace ρ, seg ⊆ seg ++ es := fun es => List.subset_append_left _ _
    unfold gather
    by_cases herr : m.error
    · rw [if_pos herr]
      obtain ⟨seg', ht, hin, hss, hok⟩ := gather_spec w t₀ msgs items seg h
      refine ⟨seg', ht, hin, hss, fun items' he => ⟨(hok items' he).1, fun x hx hxe => ?_⟩⟩
      rcases List.mem_cons.1 hx with rfl | hx
      · rw [herr] at hxe; cases hxe
      · exact (hok items' he).2 x hx hxe
    · rw [if_neg herr]
      simp only
      cases htr : w.transform (t₀ ++ seg) (m.item ([] : List ρ)).payload with
      | raises e =>
        refine ⟨seg ++ [Event.transform m (.raises e)], by simp only [List.append_assoc], hgrow _ ?_,
          hsub _, fun items' he => by cases he⟩
        intro x hx
        rw [List.mem_singleton.1 hx]
        trivial
      | rows rows =>
        obtain ⟨seg', ht, hin, hss, hok⟩ := gather_spec w t₀ msgs
          (items ++ [m.item rows]) (seg ++ [Event.transform m (.rows rows)])
          (hgrow _ (fun x hx => by rw [List.mem_singleton.1 hx]; trivial))
        simp only [List.append_assoc]
        refine ⟨seg', ht, hin, List.Subset.trans (hsub _) hss, fun items' he => ?_⟩
        obtain ⟨hi, hm⟩ := hok items' he
        refine ⟨List.Subset.trans (List.subset_append_left _ _) hi, fun x hx hxe => ?_⟩
        rcases List.mem_cons.1 hx with rfl | hx
        · exact .inr ⟨rows, hss (List.mem_append_right _ (List.mem_singleton_self _)),
            hi (List.mem_append_right _ (List.mem_singleton_self _))⟩
        · exact hm x hx hxe
      | poison message =>
        obtain ⟨q, hq⟩ : ∃ q, q = w.quarantine (t₀ ++ seg ++ [Event.transform m (.poison message)])
          ([((m.item [] : Item ρ), "transform: " ++ brief message)].map quarantineEntry) := ⟨_, rfl⟩
        have hinner : ∀ es : Trace ρ, (∀ e ∈ es, Inner e) → ∀ e ∈ seg ++ ([.transform m (.poison message),
            .quarantine [(m.item [], "transform: " ++ brief message)] q] ++ es), Inner e := by
          intro es hes
          refine hgrow _ (fun x hx => ?_)
          simp only [List.cons_append, List.nil_append, List.mem_cons] at hx
          rcases hx with rfl | rfl | hx
          · trivial
          · trivial
          · exact hes x hx
        simp only [World.doQuarantine_eq]
        rw [← hq]
        cases q with
        | some e =>
          refine ⟨seg ++ ([.transform m (.poison message),
            .quarantine [(m.item [], "transform: " ++ brief message)] (some e)] ++ [Event.wait 2000]),
            by simp, hinner _ ?_, hsub _, fun items' he => by cases he⟩
          intro x hx
          rw [List.mem_singleton.1 hx]
          trivial
        | none =>
          obtain ⟨seg', ht, hin, hss, hok⟩ := gather_spec w t₀ msgs
            (items ++ [m.item []]) _ (hinner [] (fun x hx => by cases hx))
          simp only [List.append_nil] at ht hss hok
          have hassoc : t₀ ++ seg ++ [Event.transform m (.poison message)] ++
              [.quarantine [(m.item [], "transform: " ++ brief message)] none] =
              t₀ ++ (seg ++ [Event.transform m (.poison message),
                .quarantine [(m.item [], "transform: " ++ brief message)] none]) := by simp
          simp only [hassoc]
          refine ⟨seg', ht, hin, List.Subset.trans (hsub _) hss, fun items' he => ?_⟩
          obtain ⟨hi, hm⟩ := hok items' he
          refine ⟨List.Subset.trans (List.subset_append_left _ _) hi, fun x hx hxe => ?_⟩
          rcases List.mem_cons.1 hx with rfl | hx
          · exact .inl ⟨message, _, hss (by simp), hss (List.mem_append_right _ (by simp)),
              List.mem_singleton_self _, hi (List.mem_append_right _ (List.mem_singleton_self _))⟩
          · exact hm x hx hxe

/-- Records gathered and durably written are settled. -/
theorem settled_of_gathered {t₀ seg seg' : Trace ρ} {items : List (Item ρ)} {m : Message}
    (hg : Gathered items seg m) (hk : ∀ i ∈ items, i.rows ≠ [] → Kept seg' i) :
    Settled (t₀ ++ (seg ++ seg')) m := by
  have hl : seg ⊆ t₀ ++ (seg ++ seg') :=
    List.Subset.trans (List.subset_append_left _ _) (List.subset_append_right _ _)
  have hr : seg' ⊆ t₀ ++ (seg ++ seg') :=
    List.Subset.trans (List.subset_append_right _ _) (List.subset_append_right _ _)
  rcases hg with ⟨message, poison, h1, h2, h3, _⟩ | ⟨rows, h1, h2⟩
  · exact .inl ⟨message, poison, hl h1, hl h2, h3⟩
  · refine .inr ⟨rows, hl h1, ?_⟩
    by_cases hrows : rows = []
    · exact .inl hrows
    · exact .inr ((hk _ h2 hrows).mono hr)

/-- **Every commit of a run is justified.** -/
theorem runConsumer_spec {w : World ρ} :
    ∀ (fuel : Nat) (t : Trace ρ), Always (CommitJustified w) t → AllSettled t →
      Always (CommitJustified w) (runConsumer w fuel t).2
  | 0, t, h, _ => h
  | fuel + 1, t, h, hset => by
    unfold runConsumer
    by_cases hstop : w.isSet t
    · rw [if_pos hstop]
      exact h.concat (Inner.commitJustified (e := .isSet true) trivial t)
    · rw [if_neg hstop]
      have hcons : Always (CommitJustified w)
          (t ++ [Event.isSet false] ++ [Event.consume (w.consume (t ++ [Event.isSet false]))]) :=
        always_concat.2 ⟨h.concat (Inner.commitJustified (e := .isSet false) trivial t), trivial⟩
      obtain ⟨msgs, hmsgs⟩ : ∃ ms, ms = w.consume (t ++ [Event.isSet false]) := ⟨_, rfl⟩
      simp only [← hmsgs] at hcons ⊢
      obtain ⟨t₁, ht₁⟩ : ∃ t₁, t₁ = t ++ [Event.isSet false] ++ [Event.consume msgs] := ⟨_, rfl⟩
      rw [← ht₁] at hcons ⊢
      obtain ⟨seg, ht, hin, _, hok⟩ := gather_spec w t₁ msgs [] []
        (fun e he => by cases he)
      rw [List.append_nil] at ht hok
      obtain ⟨r, hr⟩ : ∃ r, gather w msgs [] t₁ = r := ⟨_, rfl⟩
      obtain ⟨r, t'⟩ := r
      rw [hr] at ht hok ⊢
      simp only at ht
      subst ht
      have hgath : Always (CommitJustified w) (t₁ ++ seg) :=
        hcons.append (fun e he a => (hin e he).commitJustified a)
      -- the events since `consume` settle its messages
      have hall : ∀ seg', (∀ m ∈ msgs, m.error = false → Settled (t₁ ++ seg') m) →
          (∀ e ∈ seg', Inner e) → AllSettled (t₁ ++ seg') := by
        intro seg' hm hi ms hms m hmm he
        rcases List.mem_append.1 hms with hms | hms
        · rw [ht₁] at hms
          simp only [List.mem_append, List.mem_singleton, Event.consume.injEq, reduceCtorEq,
            or_false] at hms
          rcases hms with hms | rfl
          · refine (hset ms hms m hmm he).mono ?_
            rw [ht₁, List.append_assoc, List.append_assoc]
            exact List.subset_append_left _ _
          · exact hm m hmm he
        · exact (hi _ hms).elim
      cases r with
      | error e => exact hgath
      | ok items =>
        obtain ⟨_, hgathered⟩ := hok items rfl
        simp only
        by_cases hnil : items = []
        · rw [if_pos hnil]
          refine runConsumer_spec fuel _ hgath (hall seg (fun m hm he => ?_) hin)
          rcases hgathered m hm he with ⟨_, _, _, _, _, hmem⟩ | ⟨_, _, hmem⟩
          · rw [hnil] at hmem; cases hmem
          · rw [hnil] at hmem; cases hmem
        · rw [if_neg hnil]
          obtain ⟨seg', hd, _, hcalls, hkept⟩ := durableWrite_spec w fuel items (t₁ ++ seg)
          obtain ⟨b, hb⟩ : ∃ b, durableWrite w fuel items (t₁ ++ seg) = b := ⟨_, rfl⟩
          obtain ⟨b, t₂⟩ := b
          rw [hb] at hd hkept ⊢
          simp only at hd
          subst hd
          have hdur : Always (CommitJustified w) (t₁ ++ seg ++ seg') :=
            hgath.append (fun e he a => (hcalls e he).inner.commitJustified a)
          cases b with
          | none => exact hdur
          | some b =>
            cases b with
            | false => exact hdur
            | true =>
              have hsettled : AllSettled (t₁ ++ seg ++ seg') := by
                rw [List.append_assoc]
                refine hall (seg ++ seg') (fun m hm he =>
                  settled_of_gathered (hgathered m hm he) (hkept rfl)) (fun e he => ?_)
                rcases List.mem_append.1 he with he | he
                · exact hin e he
                · exact (hcalls e he).inner
              have hcommit : ∀ e, Always (CommitJustified w) (t₁ ++ seg ++ seg' ++ [Event.commit e]) :=
                fun e => hdur.concat ⟨⟨fuel, items, _, hb⟩, hsettled⟩
              simp only
              cases hc : w.commit (t₁ ++ seg ++ seg') with
              | some e => exact hcommit (some e)
              | none =>
                refine runConsumer_spec fuel _ (hcommit none) (fun ms hms m hmm he => ?_)
                rcases List.mem_append.1 hms with hms | hms
                · exact (hsettled ms hms m hmm he).mono (List.subset_append_left _ _)
                · simp at hms

/-- **Consumers lose nothing.**  Whatever the sink and the stop event do, a durable write that
returns `True` has kept every item with rows, and sends to quarantine only items whose individual
write failed permanently before; and a consumer commits offsets only right after such a `True`,
when every record consumed so far is settled. -/
theorem consumers_lose_nothing (w : World ρ) :
    (∀ fuel items t r t', durableWrite w fuel items t = (r, t') → ∃ seg, t' = t ++ seg ∧
      Always (Justified items) seg ∧
      (r = some true → ∀ i ∈ items, i.rows ≠ [] → Written seg i ∨ Quarantined seg i)) ∧
    ∀ fuel r t, runConsumer w fuel [] = (r, t) → Always (CommitJustified w) t := by
  constructor
  · intro fuel items t r t' h
    obtain ⟨seg, ht, hj, _, hk⟩ := durableWrite_spec w fuel items t
    rw [h] at ht hk
    exact ⟨seg, ht, hj, hk⟩
  · intro fuel r t h
    have hrun := runConsumer_spec (w := w) fuel [] always_nil (fun ms hms => by cases hms)
    rw [h] at hrun
    exact hrun

/-- Two records, a sink that is down twice and then rejects the row 2. -/
def flaky : World Nat where
  isSet _ := false
  write t rows := if (t.filter (fun e => e matches .write ..)).length < 2 then
      some ⟨.other, "down"⟩
    else if 2 ∈ rows then some ⟨.permanentWriteError, "bad row"⟩ else none
  quarantine _ _ := none
  consume t := if t.length < 2 then [⟨false, "t", 0, 0, none⟩, ⟨false, "t", 0, 1, some [0, 0]⟩] else []
  transform _ payload := .rows [payload.length]
  commit _ := none

def batch : List (Item Nat) := [⟨"t", 0, 0, [], [0]⟩, ⟨"t", 0, 1, [0, 0], [2]⟩]

/-- The flaky sink: the batch is kept, the record with row 2 in quarantine, and committed. -/
theorem consumers_lose_nothing_flaky :
    (∃ seg, (durableWrite flaky 7 batch []).2 = [] ++ seg ∧
        ∀ i ∈ batch, i.rows ≠ [] → Written seg i ∨ Quarantined seg i) ∧
      Event.commit none ∈ (runConsumer flaky 7 []).2 ∧
      Always (CommitJustified flaky) (runConsumer flaky 7 []).2 := by
  have hret : (durableWrite flaky 7 batch []).1 = some true := by decide
  obtain ⟨seg, hseg, _, hkept⟩ := (consumers_lose_nothing flaky).1 7 batch [] _ _ rfl
  exact ⟨⟨seg, hseg, hkept hret⟩, by decide, (consumers_lose_nothing flaky).2 7 _ _ rfl⟩

end OTS.Consumers
