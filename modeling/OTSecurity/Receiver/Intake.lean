import Mathlib.Logic.Relation
import OTSecurity.Receiver.Core
import OTSecurity.Receiver.Streams

/-!
# What the receive thread does to the window and the spool

Whatever arrives, the entry points of the receiver change the window and the spool by a few kinds of
steps only.

* `Intake` — the spool, the window and the rejected records.
* `Effect` — one such step: a record without identity is spooled, an old sequence is counted, a new
  one is marked and rejected, a new one is spooled and marked, the spool is synced.
* `Effects` — finitely many, in order.

Principal results: `event_spec` — the effect of an event record for each of its fates;
`handleDatagram_effects`, `housekeeping_effects` — every call is a sequence of effects, and
`stop_effects` — one that does not come to its end; `refused_append` — a refused append changes
nothing.
-/

namespace OTS.Receiver

open Function Relation

/-! ## Identities -/

/-- What a decoded frame names. -/
structure Identity.Legit (i : Identity) : Prop where
  sensorId : i.sensorId ≠ ""
  bootId : IsUuid i.bootId

def Identity.stream (i : Identity) : String × String := (i.sensorId, i.bootId)

def streamName (p : String × String) : String := streamKey p.1 p.2

theorem uuidStr_length {b : Bytes} (hb : b.length = 16) : (uuidStr b).toList.length = 36 := by
  simp [uuidStr, uuidChars, hexText_length, slice, hb]

/-- Streams with distinct names are distinct: the name ends in a UUID. -/
theorem streamKey_inj {s b s' b' : String} (hb : IsUuid b) (hb' : IsUuid b')
    (h : streamKey s b = streamKey s' b') : s = s' ∧ b = b' := by
  obtain ⟨u, hu, rfl⟩ := hb
  obtain ⟨u', hu', rfl⟩ := hb'
  have hl := congrArg String.toList h
  simp only [streamKey, String.toList_append] at hl
  obtain ⟨hs, hb⟩ := List.append_inj' hl (by rw [uuidStr_length hu, uuidStr_length hu'])
  obtain ⟨hs, _⟩ := List.append_inj' hs rfl
  exact ⟨String.toList_inj.1 hs, String.toList_inj.1 hb⟩

theorem slice_length {data : Bytes} {off len : Nat} (h : off + len ≤ data.length) :
    (slice data off len).length = len := by
  rw [slice, List.length_take, List.length_drop]
  omega

theorem decode_legit {hmac : Link.Hmac} {codec : Link.LinkCodec} {data : Bytes} {f : Link.Frame}
    (h : codec.decode hmac data = .ok f) : f.sensorId ≠ "" ∧ IsUuid f.bootId := by
  unfold Link.LinkCodec.decode at h
  simp only at h
  split at h
  · cases h
  split at h
  · cases h
  split at h
  · cases h
  split at h
  · cases h
  split at h
  · cases h
  split at h
  · cases h
  rename_i hsid
  split at h
  · cases h
  split at h
  · cases h
  split at h
  · cases h
  · rw [not_or, not_not, Nat.not_lt] at hsid
    obtain ⟨⟨hpos, _⟩, hlen⟩ := hsid
    obtain rfl := Except.ok.inj h
    constructor
    · intro he
      have hl := congrArg (fun s => s.toList.length) he
      simp only [decodeAscii, String.toList_ofList, List.length_map] at hl
      rw [slice_length (by omega)] at hl
      exact absurd hl (Nat.ne_of_gt hpos)
    · exact ⟨_, slice_length (by unfold Link.MID_SIZE at hlen; omega), rfl⟩

/-- The identity of a spooled event. -/
def entryIdentity (e : Entry) : Option Identity :=
  if e.record.topic = TOPIC_RAW then
    match e.record.sensorId, e.record.bootId with
    | some s, some b => some ⟨s, b, e.record.sequence.toNat⟩
    | _, _ => none
  else none

/-- The identities of the events in a log, in order. -/
def rawIdentities (log : List Entry) : List Identity := log.filterMap entryIdentity

/-! ## Effects -/

structure Intake where
  sys : SpoolSys
  dedup : DedupWindow
  rejected : List Identity

def ReceiverCore.intake (core : ReceiverCore) : Intake := ⟨core.sys, core.dedup, core.rejected⟩

def DedupWindow.verdict (w : DedupWindow) (i : Identity) : Verdict :=
  w.check i.sensorId i.bootId i.sequence

def DedupWindow.note (w : DedupWindow) (i : Identity) : DedupWindow :=
  (w.mark i.sensorId i.bootId i.sequence).1

/-- `check` says that the sequence has been received, or is too old. -/
def DedupWindow.Old (w : DedupWindow) (i : Identity) : Prop :=
  w.verdict i = .duplicate ∨ w.verdict i = .stale

instance (w : DedupWindow) (i : Identity) : Decidable (w.Old i) := inferInstanceAs (Decidable (_ ∨ _))

/-- The record of an event of identity `i`. -/
structure IsRaw (r : Rec) (i : Identity) : Prop where
  topic : r.topic = TOPIC_RAW
  sensorId : r.sensorId = some i.sensorId
  bootId : r.bootId = some i.bootId
  sequence : r.sequence = i.sequence

/-- A record of the other topics. -/
structure IsNote (r : Rec) : Prop where
  topic : r.topic ≠ TOPIC_RAW
  sensorId : r.sensorId = none
  bootId : r.bootId = none

theorem IsRaw.entryIdentity {e : Entry} {i : Identity} (h : IsRaw e.record i) :
    entryIdentity e = some i := by
  unfold Receiver.entryIdentity
  simp only [h.topic, if_true, h.sensorId, h.bootId, h.sequence, Int.toNat_natCast]

theorem IsNote.entryIdentity {e : Entry} (h : IsNote e.record) : entryIdentity e = none := by
  unfold Receiver.entryIdentity
  rw [if_neg h.topic]

/-- The spool after an accepted append. -/
def SpoolSys.Appends (s : SpoolSys) (r : Rec) (s' : SpoolSys) : Prop :=
  ∃ spool disk, s.spool.append s.disk r = some (true, spool, disk) ∧
    s' = ⟨spool, disk, s.log ++ [SpoolSys.appended spool r]⟩

inductive Effect (P : Identity → Prop) : Intake → Intake → Prop
  | note {s : Intake} {r : Rec} {sys : SpoolSys} (hr : IsNote r) (ha : s.sys.Appends r sys) :
    Effect P s { s with sys }
  | suppress {s : Intake} {i : Identity} (hi : P i) (hold : s.dedup.Old i) :
    Effect P s { s with dedup := s.dedup.note i }
  | reject {s : Intake} {i : Identity} (hi : P i) (hnew : ¬ s.dedup.Old i) :
    Effect P s { s with dedup := s.dedup.note i, rejected := s.rejected ++ [i] }
  | accept {s : Intake} {i : Identity} {r : Rec} {sys : SpoolSys} (hi : P i)
    (hnew : ¬ s.dedup.Old i) (hr : IsRaw r i) (ha : s.sys.Appends r sys) :
    Effect P s { s with sys, dedup := s.dedup.note i }
  | sync {s : Intake} : Effect P s
    { s with sys := { s.sys with
      spool := (s.sys.spool.sync s.sys.disk).1, disk := (s.sys.spool.sync s.sys.disk).2 } }

abbrev Effects (P : Identity → Prop) : Intake → Intake → Prop := ReflTransGen (Effect P)

/-- **What every effect keeps, every sequence of effects keeps.** -/
theorem Effects.invariant {P : Identity → Prop} {I : Intake → Prop}
    (hstep : ∀ s s', I s → Effect P s s' → I s') {s s' : Intake} (h : Effects P s s') (hs : I s) :
    I s' := by
  induction h with
  | refl => exact hs
  | tail _ he ih => exact hstep _ _ ih he

/-! ## Appending and quarantine -/

variable {core core' : ReceiverCore} {P : Identity → Prop}

/-- **A refused append changes nothing.** -/
theorem refused_append {r : Rec} (h : core.append r = some (false, core')) : core' = core := by
  unfold ReceiverCore.append at h
  split at h
  · cases h
  · cases h; rfl
  · cases h

theorem append_accepted {r : Rec} (h : core.append r = some (true, core')) :
    ∃ sys, core.sys.Appends r sys ∧ core' = { core with sys } := by
  unfold ReceiverCore.append at h
  split at h
  · cases h
  · cases h
  · rename_i spool disk ha
    cases h
    exact ⟨_, ⟨spool, disk, ha, rfl⟩, rfl⟩

/-- Appending a record without identity is an effect, or nothing. -/
theorem append_note {r : Rec} {b : Bool} (hr : IsNote r) (h : core.append r = some (b, core')) :
    Effects P core.intake core'.intake := by
  cases b with
  | false => rw [refused_append h]
  | true =>
    obtain ⟨sys, ha, rfl⟩ := append_accepted h
    exact .single (.note hr ha)

theorem invalidEntry_note {wallUs : Int} {reason : String} {detail : PyStr}
    {sensorId bootId : Option String} {seq : Option Nat} {raw : Option Bytes} {r : Rec}
    (h : invalidEntry wallUs reason detail sensorId bootId seq raw = some r) : IsNote r := by
  unfold invalidEntry at h
  split at h
  · cases h
  · split at h
    · cases h
    · cases h
      exact ⟨show TOPIC_INVALID ≠ TOPIC_RAW by decide, rfl, rfl⟩

/-- Quarantine spools at most one record and leaves the window alone. -/
theorem quarantine_spec (core : ReceiverCore) (now : Reading) (reason : String) (detail : PyStr)
    (sensorId bootId : Option String) (seq : Option Nat) (raw : Option Bytes) :
    (core.quarantine now reason detail sensorId bootId seq raw).1.dedup = core.dedup ∧
    (core.quarantine now reason detail sensorId bootId seq raw).1.codec = core.codec ∧
    Effects P core.intake (core.quarantine now reason detail sensorId bootId seq raw).1.intake := by
  unfold ReceiverCore.quarantine
  simp only
  split
  · exact ⟨rfl, rfl, .refl⟩
  · split
    · exact ⟨rfl, rfl, .refl⟩
    · rename_i r hr
      split
      · exact ⟨rfl, rfl, .refl⟩
      · rename_i b core' ha
        have heff := append_note (P := P) (invalidEntry_note hr) ha
        cases b with
        | false =>
          rw [refused_append ha]
          exact ⟨rfl, rfl, .refl⟩
        | true =>
          obtain ⟨sys, _, rfl⟩ := append_accepted ha
          exact ⟨rfl, rfl, heff⟩

theorem quarantineAll_spec (clock : Nat → Reading) (detail : String) (xs : List Link.Expired) :
    ∀ (i : Nat) (core : ReceiverCore),
    (ReceiverCore.quarantineAll clock detail i core xs).1.dedup = core.dedup ∧
    (ReceiverCore.quarantineAll clock detail i core xs).1.codec = core.codec ∧
    Effects P core.intake (ReceiverCore.quarantineAll clock detail i core xs).1.intake := by
  induction xs with
  | nil => exact fun i core => ⟨rfl, rfl, .refl⟩
  | cons x xs ih =>
    intro i core
    obtain ⟨hd, hc, he⟩ := quarantine_spec (P := P) core (clock i) x.reason (pyStr detail)
      x.sensorId x.bootId x.sequence none
    unfold ReceiverCore.quarantineAll
    split
    · rename_i core' h
      rw [h] at hd hc he
      exact ⟨hd, hc, he⟩
    · rename_i core' h
      rw [h] at hd hc he
      obtain ⟨hd', hc', he'⟩ := ih (i + 1) core'
      exact ⟨hd'.trans hd, hc'.trans hc, he.trans he'⟩

/-! ## Event records -/

theorem rawRecord_isRaw {ev : Json} {c : Link.Complete} {r : Rec} (h : rawRecord ev c = some r) :
    IsRaw r (identity c) := by
  unfold rawRecord at h
  split at h
  · cases h
    exact ⟨rfl, rfl, rfl, rfl⟩
  · cases h

/-- What an event record does, fate by fate. -/
inductive EventSpec (P : Identity → Prop) (rt : Runtime) (core : ReceiverCore) (c : Link.Complete) :
    ReceiverCore → Fate → Prop
  | suppressed {v : Verdict} (hold : core.dedup.Old (identity c))
    (hv : core.dedup.verdict (identity c) = v) : EventSpec P rt core c (core.mark c) (.suppressed v)
  | raised (hnew : ¬ core.dedup.Old (identity c)) : EventSpec P rt core c core .raised
  | rejected {reason : String} {detail : PyStr} {core' : ReceiverCore} {fate : Fate}
    (hnew : ¬ core.dedup.Old (identity c)) (hj : judge rt c = .rejected reason detail)
    (hfate : fate = .quarantined reason ∨ fate = .raised)
    (hdedup : core'.dedup = core.dedup.note (identity c))
    (heff : Effects P ⟨core.sys, core.dedup.note (identity c), core.rejected ++ [identity c]⟩
      core'.intake) : EventSpec P rt core c core' fate
  | spoolFull (hnew : ¬ core.dedup.Old (identity c)) : EventSpec P rt core c core .spoolFull
  | accepted {ev : Json} {r : Rec} {sys : SpoolSys} (hnew : ¬ core.dedup.Old (identity c))
    (hj : judge rt c = .valid ev) (hr : rawRecord ev c = some r) (ha : core.sys.Appends r sys) :
    EventSpec P rt core c { core.mark c with sys } .accepted

theorem event_spec (P : Identity → Prop) (rt : Runtime) (now : Reading) (core : ReceiverCore)
    (c : Link.Complete) :
    EventSpec P rt core c (core.event rt now c).1 (core.event rt now c).2 := by
  unfold ReceiverCore.event
  split
  · rename_i h
    exact .suppressed (.inl h) h
  · rename_i h
    exact .suppressed (.inr h) h
  · rename_i h1 h2
    have hnew : ¬ core.dedup.Old (identity c) := by
      rintro (h | h)
      · exact h1 h
      · exact h2 h
    split
    · exact .raised hnew
    · rename_i reason detail hj
      obtain ⟨hd, _, he⟩ := quarantine_spec (P := P)
        { core.mark c with rejected := core.rejected ++ [identity c] } now reason detail
        (some c.sensorId) (some c.bootId) (some c.sequence) (some c.record)
      simp only
      split
      · rename_i core' h
        rw [h] at hd he
        exact .rejected hnew hj (.inl rfl) hd he
      · rename_i core' h
        rw [h] at hd he
        exact .rejected hnew hj (.inr rfl) hd he
    · rename_i ev hj
      split
      · exact .raised hnew
      · rename_i r hr
        split
        · exact .raised hnew
        · rename_i core' ha
          rw [refused_append ha]
          exact .spoolFull hnew
        · rename_i core' hacc
          obtain ⟨sys, ha, rfl⟩ := append_accepted hacc
          exact .accepted hnew hj hr ha

/-- An event record is a sequence of effects on its own identity. -/
theorem event_effects {rt : Runtime} {c : Link.Complete} {fate : Fate} (hP : P (identity c))
    (h : EventSpec P rt core c core' fate) : Effects P core.intake core'.intake := by
  cases h with
  | suppressed hold =>
    show Effects P core.intake { core.intake with dedup := core.intake.dedup.note (identity c) }
    exact .single (.suppress hP hold)
  | raised => exact .refl
  | rejected hnew _ _ _ heff =>
    have hrej : Effect P core.intake { core.intake with
        dedup := core.intake.dedup.note (identity c)
        rejected := core.intake.rejected ++ [identity c] } := .reject hP hnew
    exact .trans (.single hrej) heff
  | spoolFull => exact .refl
  | accepted hnew _ hr ha =>
    rename_i sys _
    show Effects P core.intake { core.intake with
      sys, dedup := core.intake.dedup.note (identity c) }
    exact .single (.accept hP hnew (rawRecord_isRaw hr) ha)

theorem health_effects (rt : Runtime) (now : Reading) (c : Link.Complete) :
    Effects P core.intake (core.health rt now c).1.intake := by
  have hq : ∀ reason detail, Effects P core.intake
      (ReceiverCore.quarantine { core with
        healthSeen := core.healthSeen.set (streamKey c.sensorId c.bootId) c.sequence }
        now reason detail (some c.sensorId) (some c.bootId) (some c.sequence)
        (some c.record)).1.intake := by
    intro reason detail
    obtain ⟨_, _, he⟩ := quarantine_spec (P := P)
      { core with healthSeen := core.healthSeen.set (streamKey c.sensorId c.bootId) c.sequence }
      now reason detail (some c.sensorId) (some c.bootId) (some c.sequence) (some c.record)
    exact he
  unfold ReceiverCore.health
  simp only
  split
  · exact .refl
  split
  · exact .refl
  · exact hq ..
  split
  · exact .refl
  · exact hq ..
  split
  · exact hq ..
  split
  · split
    · exact .refl
    · rename_i ha
      have hnote : ∀ key value, IsNote ⟨TOPIC_HEALTH, key, none, none, -1, 0, value⟩ := fun _ _ =>
        ⟨show TOPIC_HEALTH ≠ TOPIC_RAW by decide, rfl, rfl⟩
      have he := append_note (P := P) (hnote _ _) ha
      exact he
  · exact .refl

/-! ## The entry points -/

/-- The streams a datagram names. -/
def Names (hmac : Link.Hmac) (core : ReceiverCore) (P : Identity → Prop) (data : Bytes) : Prop :=
  ∀ f, core.codec.decode hmac data = .ok f → P ⟨f.sensorId, f.bootId, f.sequence⟩

theorem add_complete {r : Link.Reassembler} {f : Link.Frame} {nowUs : Int} {a : Link.Added}
    {c : Link.Complete} (h : r.add f nowUs = some a) (hc : a.complete = some c) :
    identity c = ⟨f.sensorId, f.bootId, f.sequence⟩ := by
  have hstore : ∀ p q, (Link.store p q f nowUs).2 = some c →
      identity c = ⟨f.sensorId, f.bootId, f.sequence⟩ := by
    intro p q hs
    unfold Link.store at hs
    simp only at hs
    split at hs
    · cases hs
    · cases hs; rfl
  unfold Link.Reassembler.add at h
  split at h
  · cases h; cases hc; rfl
  split at h
  · split at h
    · cases h
    · cases h; exact hstore _ _ hc
  · split at h
    · cases h; cases hc
    · cases h; exact hstore _ _ hc

theorem handleDatagram_effects {hmac : Link.Hmac} {rt : Runtime} {data : Bytes} {nowUs : Int}
    {clock : Nat → Reading} (hP : Names hmac core P data) :
    Effects P core.intake (core.handleDatagram hmac rt data nowUs clock).1.intake := by
  unfold ReceiverCore.handleDatagram
  split
  · exact (quarantine_spec (P := P) core _ _ _ _ _ _ _).2.2
  · rename_i f hf
    split
    · exact .refl
    · rename_i a ha
      obtain ⟨_, _, he⟩ := quarantineAll_spec (P := P) clock "reassembly limit reached" a.expired 0
        { core with reassembler := a.reassembler }
      simp only
      split
      · rename_i core' h
        rw [h] at he
        exact he
      · rename_i core' h
        rw [h] at he
        split
        · exact he
        · rename_i c hc
          have hPc : P (identity c) := by rw [add_complete ha hc]; exact hP f hf
          split
          · exact he.trans (health_effects ..)
          · exact he.trans (event_effects hPc (event_spec P ..))

theorem housekeeping_effects {nowUs : Int} {clock : Nat → Reading} {monotonic : Rat} :
    Effects P core.intake (core.housekeeping nowUs clock monotonic).1.intake := by
  unfold ReceiverCore.housekeeping
  simp only
  obtain ⟨_, _, he⟩ := quarantineAll_spec (P := P) clock "fragments incomplete"
    (core.reassembler.expire nowUs).1 0 { core with reassembler := (core.reassembler.expire nowUs).2 }
  split
  · rename_i core' h
    rw [h] at he
    exact he
  · rename_i core' h
    rw [h] at he
    split
    · exact he.tail .sync
    · exact he.tail .sync

theorem stop_effects (hmac : Link.Hmac) (call : ReceiverCore.Stopped) :
    Effects P core.intake (core.stop hmac call).intake := by
  unfold ReceiverCore.stop
  split
  · exact (quarantineAll_spec ..).2.2
  split
  · exact .refl
  split
  · exact .refl
  · exact (quarantineAll_spec ..).2.2

end OTS.Receiver
