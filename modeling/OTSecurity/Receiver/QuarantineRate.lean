import OTSecurity.Lib.TokenBucket
import OTSecurity.Receiver.Verdicts

/-!
# The rate of quarantine

How often `ReceiverCore.quarantine` of `ingest/receiver/sih_receiver/core.py` reaches the spool, with its
two counters.

* `QuarantineCall` — a call, with the receiver that it finds but for the tokens.
* `countedQuarantine` — `quarantine` with the counters `invalid` and `quarantine_suppressed`;
  `countedQuarantine_core` — it leaves the state that `quarantine` leaves.
* `quarantineRun` — calls one after another, whatever happens to the receiver between them.

Principal results: `quarantine_window` — from `a` to `b` at most `rate * (b - a) + rate` calls reach the
spool; `quarantine_rate_iff` — all the calls are accounted for exactly when each that finds a token can be
written.
-/

namespace OTS.Receiver

/-- A call of `quarantine`, and the receiver that it finds, whose tokens are those of the run. -/
structure QuarantineCall where
  rest : ReceiverCore
  now : Reading
  reason : String
  detail : PyStr
  sensorId : Option String
  bootId : Option String
  seq : Option Nat
  raw : Option Bytes

/-- How far a call gets. -/
inductive Reached where
  | suppressed
  /-- Building the record raises. -/
  | raised
  /-- `spool.append` is called. -/
  | append
  deriving DecidableEq, Repr

/-- `receiver_records_invalid_total` by reason, and `receiver_quarantine_suppressed_total`. -/
structure QuarantineCounters where
  invalid : String → Nat
  suppressed : Nat

def QuarantineCounters.zero : QuarantineCounters := ⟨fun _ => 0, 0⟩

/-- `quarantine`, with its counters. -/
def countedQuarantine (m : QuarantineCounters) (core : ReceiverCore) (c : QuarantineCall) :
    QuarantineCounters × Reached × ReceiverCore :=
  let m := { m with
    invalid := fun reason => if reason = c.reason then m.invalid reason + 1 else m.invalid reason }
  let core := core.refill c.now
  if core.qTokens < 1 then ({ m with suppressed := m.suppressed + 1 }, .suppressed, core)
  else
    let core := { core with qTokens := core.qTokens - 1 }
    match invalidEntry c.now.wallUs c.reason c.detail c.sensorId c.bootId c.seq c.raw with
    | none => (m, .raised, core)
    | some r =>
      match core.append r with
      | none => (m, .append, core)
      | some (_, core) => (m, .append, core)

/-- The counters aside, it is `quarantine`. -/
theorem countedQuarantine_core (m : QuarantineCounters) (core : ReceiverCore) (c : QuarantineCall) :
    (countedQuarantine m core c).2.2 =
      (core.quarantine c.now c.reason c.detail c.sensorId c.bootId c.seq c.raw).1 := by
  unfold countedQuarantine ReceiverCore.quarantine
  simp only
  split
  · rfl
  · cases invalidEntry c.now.wallUs c.reason c.detail c.sensorId c.bootId c.seq c.raw with
    | none => rfl
    | some r =>
      simp only
      cases ReceiverCore.append
        { core.refill c.now with qTokens := (core.refill c.now).qTokens - 1 } r <;> rfl

/-! ## The bucket -/

/-- The tokens of the rate limit. -/
def ReceiverCore.bucket (core : ReceiverCore) : TokenBucket Rat := ⟨core.qTokens, core.qRefill⟩

/-- The receiver that a call finds. -/
def QuarantineCall.found (c : QuarantineCall) (core : ReceiverCore) : ReceiverCore :=
  { c.rest with qRate := core.qRate, qTokens := core.qTokens, qRefill := core.qRefill }

@[simp] theorem QuarantineCall.found_bucket (c : QuarantineCall) (core : ReceiverCore) :
    (c.found core).bucket = core.bucket := rfl

@[simp] theorem QuarantineCall.found_qRate (c : QuarantineCall) (core : ReceiverCore) :
    (c.found core).qRate = core.qRate := rfl

theorem take_of_limited {core : ReceiverCore} {now : Reading} (h : Limited core now) :
    core.bucket.take (core.qRate : Rat) now.monotonic = (core.refill now).bucket := if_pos h

theorem take_of_room {core : ReceiverCore} {now : Reading} (h : ¬ Limited core now) :
    core.bucket.take (core.qRate : Rat) now.monotonic =
      ⟨(core.refill now).qTokens - 1, now.monotonic⟩ := if_neg h

/-- The spool is all that appending changes. -/
theorem append_tokens {core core' : ReceiverCore} {r : Rec} {b : Bool}
    (h : core.append r = some (b, core')) : core'.bucket = core.bucket ∧ core'.qRate = core.qRate := by
  unfold ReceiverCore.append at h
  split at h
  · cases h
  · cases h
    exact ⟨rfl, rfl⟩
  · cases h
    exact ⟨rfl, rfl⟩

/-- What a call finds a token and a record for. -/
structure Writable (c : QuarantineCall) : Prop where
  calendar : (formatUs c.now.wallUs).isSome
  detail : Encodable (c.detail.take 512)

/-- What one call does: it is counted; it takes a token if there is one; without one it is suppressed,
and with one it reaches the spool unless its record cannot be built. -/
structure Accounted (m : QuarantineCounters) (core : ReceiverCore) (c : QuarantineCall)
    (r : QuarantineCounters × Reached × ReceiverCore) : Prop where
  bucket : r.2.2.bucket = core.bucket.take (core.qRate : Rat) c.now.monotonic
  qRate : r.2.2.qRate = core.qRate
  invalid : ∀ reason, r.1.invalid reason = m.invalid reason + if c.reason = reason then 1 else 0
  suppressed : r.1.suppressed = m.suppressed + if r.2.1 = .suppressed then 1 else 0
  limited : r.2.1 = .suppressed ↔ Limited core c.now
  append : r.2.1 = .append ↔ ¬ Limited core c.now ∧ Writable c

theorem countedQuarantine_spec (m : QuarantineCounters) (core : ReceiverCore) (c : QuarantineCall) :
    Accounted m core c (countedQuarantine m core c) := by
  have hinvalid : ∀ reason, (if reason = c.reason then m.invalid reason + 1 else m.invalid reason) =
      m.invalid reason + if c.reason = reason then 1 else 0 := by
    intro reason
    by_cases h : reason = c.reason
    · simp [h]
    · simp [h, Ne.symm h]
  have hwritable : Writable c ↔
      (invalidEntry c.now.wallUs c.reason c.detail c.sensorId c.bootId c.seq c.raw).isSome := by
    rw [invalidEntry_isSome]
    exact ⟨fun h => ⟨h.1, h.2⟩, fun h => ⟨h.1, h.2⟩⟩
  unfold countedQuarantine
  simp only
  by_cases hlimited : Limited core c.now
  · rw [if_pos (show (core.refill c.now).qTokens < 1 from hlimited)]
    refine ⟨(take_of_limited hlimited).symm, rfl, hinvalid, rfl, by simpa using hlimited, ?_⟩
    exact iff_of_false (by simp) fun h => h.1 hlimited
  · rw [if_neg (show ¬ (core.refill c.now).qTokens < 1 from hlimited)]
    have hroom := take_of_room hlimited
    cases hentry : invalidEntry c.now.wallUs c.reason c.detail c.sensorId c.bootId c.seq c.raw with
    | none =>
      refine ⟨hroom.symm, rfl, hinvalid, rfl, by simpa using hlimited, ?_⟩
      refine iff_of_false (by simp) fun h => ?_
      simpa [hentry] using hwritable.1 h.2
    | some r =>
      have hw : Writable c := hwritable.2 (by rw [hentry]; rfl)
      simp only
      cases happ : ReceiverCore.append
        { core.refill c.now with qTokens := (core.refill c.now).qTokens - 1 } r with
      | none =>
        exact ⟨hroom.symm, rfl, hinvalid, rfl, by simpa using hlimited, iff_of_true rfl ⟨hlimited, hw⟩⟩
      | some p =>
        obtain ⟨hbucket, hrate⟩ := append_tokens happ
        exact ⟨hbucket.trans hroom.symm, hrate, hinvalid, rfl, by simpa using hlimited,
          iff_of_true rfl ⟨hlimited, hw⟩⟩

/-! ## Runs -/

/-- The receiver and its counters after calls, and the readings of those that reached the spool. -/
structure QuarantineRun where
  core : ReceiverCore
  counters : QuarantineCounters
  appended : List Rat

def QuarantineRun.start (core : ReceiverCore) : QuarantineRun := ⟨core, .zero, []⟩

def QuarantineRun.call (s : QuarantineRun) (c : QuarantineCall) : QuarantineRun :=
  let r := countedQuarantine s.counters (c.found s.core) c
  ⟨r.2.2, r.1, if r.2.1 = .append then s.appended ++ [c.now.monotonic] else s.appended⟩

/-- Calls one after another. -/
def quarantineRun (core : ReceiverCore) (calls : List QuarantineCall) : QuarantineRun :=
  calls.foldl QuarantineRun.call (.start core)

theorem quarantineRun_concat (core : ReceiverCore) (calls : List QuarantineCall) (c : QuarantineCall) :
    quarantineRun core (calls ++ [c]) = (quarantineRun core calls).call c := by
  simp [quarantineRun]

/-- The calls that find a token and whose record can be built reach the spool, and no others. -/
theorem appended_grants (calls : List QuarantineCall) (s : QuarantineRun) :
    (calls.foldl QuarantineRun.call s).core.qRate = s.core.qRate ∧
      ∃ more : List Rat, (calls.foldl QuarantineRun.call s).appended = s.appended ++ more ∧
        more.Sublist (s.core.bucket.grants (s.core.qRate : Rat) (calls.map (·.now.monotonic))) := by
  induction calls generalizing s with
  | nil => exact ⟨rfl, [], (List.append_nil _).symm, List.nil_sublist _⟩
  | cons c calls ih =>
    have hspec := countedQuarantine_spec s.counters (c.found s.core) c
    obtain ⟨hrate, more, hmore, hsub⟩ := ih (s.call c)
    have hrate' : (s.call c).core.qRate = s.core.qRate := hspec.qRate
    have hbucket : (s.call c).core.bucket = s.core.bucket.take (s.core.qRate : Rat) c.now.monotonic :=
      hspec.bucket
    rw [hrate', hbucket] at hsub
    refine ⟨hrate.trans hrate', ?_⟩
    rw [List.foldl_cons, hmore, List.map_cons, TokenBucket.grants]
    by_cases happ : (countedQuarantine s.counters (c.found s.core) c).2.1 = .append
    · have hroom : ¬ Limited (c.found s.core) c.now := (hspec.append.1 happ).1
      refine ⟨c.now.monotonic :: more, ?_, ?_⟩
      · unfold QuarantineRun.call
        simp only [happ, if_true, List.append_assoc, List.singleton_append]
      · rw [if_neg (show ¬ (s.core.bucket.refill (s.core.qRate : Rat) c.now.monotonic).tokens < 1
          from hroom)]
        exact hsub.cons_cons _
    · refine ⟨more, ?_, ?_⟩
      · unfold QuarantineRun.call
        simp only [happ, if_false]
      · split
        · exact hsub
        · exact hsub.cons _

/-- Each call that finds a token finds a record that can be built. -/
def AllWritable (core : ReceiverCore) (calls : List QuarantineCall) : Prop :=
  ∀ earlier c, earlier ++ [c] <+: calls →
    Limited (c.found (quarantineRun core earlier).core) c.now ∨ Writable c

/-- What the counters show after calls. -/
structure Counted (core : ReceiverCore) (calls : List QuarantineCall) : Prop where
  invalid : ∀ reason,
    (quarantineRun core calls).counters.invalid reason = calls.countP (·.reason = reason)
  le : (quarantineRun core calls).counters.suppressed + (quarantineRun core calls).appended.length ≤
    calls.length
  eq_iff : (quarantineRun core calls).counters.suppressed + (quarantineRun core calls).appended.length =
    calls.length ↔ AllWritable core calls

theorem counted (core : ReceiverCore) (calls : List QuarantineCall) : Counted core calls := by
  induction calls using List.reverseRecOn with
  | nil =>
    refine ⟨fun _ => rfl, Nat.le_refl 0, iff_of_true rfl ?_⟩
    intro earlier c hpre
    have := hpre.length_le
    simp at this
  | append_singleton calls c ih =>
    have hspec := countedQuarantine_spec (quarantineRun core calls).counters
      (c.found (quarantineRun core calls).core) c
    have hall : AllWritable core (calls ++ [c]) ↔ AllWritable core calls ∧
        (Limited (c.found (quarantineRun core calls).core) c.now ∨ Writable c) := by
      constructor
      · intro h
        exact ⟨fun earlier d hpre => h earlier d (hpre.trans (List.prefix_append _ _)),
          h calls c (List.prefix_refl _)⟩
      · rintro ⟨h, hlast⟩ earlier d hpre
        rcases List.prefix_concat_iff.1 hpre with heq | hpre
        · obtain ⟨rfl, hd⟩ := List.append_inj' heq rfl
          obtain rfl := List.singleton_inj.1 hd
          exact hlast
        · exact h earlier d hpre
    obtain ⟨hinvalid, hle, heq⟩ := ih
    rw [← heq] at hall
    have hcall : ∀ reason, (quarantineRun core (calls ++ [c])).counters.invalid reason =
        (calls ++ [c]).countP (·.reason = reason) := by
      intro reason
      rw [quarantineRun_concat, List.countP_append, ← hinvalid]
      exact (hspec.invalid reason).trans (by simp)
    have hlength : (calls ++ [c]).length = calls.length + 1 := by simp
    cases hreached : (countedQuarantine (quarantineRun core calls).counters
        (c.found (quarantineRun core calls).core) c).2.1 with
    | suppressed =>
      have hcounters : (quarantineRun core (calls ++ [c])).counters.suppressed =
          (quarantineRun core calls).counters.suppressed + 1 := by
        rw [quarantineRun_concat]
        exact hspec.suppressed.trans (by rw [hreached, if_pos rfl])
      have happended : (quarantineRun core (calls ++ [c])).appended =
          (quarantineRun core calls).appended := by
        rw [quarantineRun_concat]
        exact if_neg (by rw [hreached]; decide)
      refine ⟨hcall, by rw [hcounters, happended]; omega, ?_⟩
      rw [hall, hcounters, happended, and_iff_left (.inl (hspec.limited.1 hreached))]
      omega
    | raised =>
      have hcounters : (quarantineRun core (calls ++ [c])).counters.suppressed =
          (quarantineRun core calls).counters.suppressed := by
        rw [quarantineRun_concat]
        exact hspec.suppressed.trans (by rw [hreached, if_neg (by decide), Nat.add_zero])
      have happended : (quarantineRun core (calls ++ [c])).appended =
          (quarantineRun core calls).appended := by
        rw [quarantineRun_concat]
        exact if_neg (by rw [hreached]; decide)
      have hnot : ¬ (Limited (c.found (quarantineRun core calls).core) c.now ∨ Writable c) := by
        rintro (hlimited | hw)
        · exact absurd (hspec.limited.2 hlimited) (by rw [hreached]; decide)
        · by_cases hlimited : Limited (c.found (quarantineRun core calls).core) c.now
          · exact absurd (hspec.limited.2 hlimited) (by rw [hreached]; decide)
          · exact absurd (hspec.append.2 ⟨hlimited, hw⟩) (by rw [hreached]; decide)
      refine ⟨hcall, by rw [hcounters, happended]; omega, ?_⟩
      rw [hall, hcounters, happended]
      exact iff_of_false (by omega) fun h => hnot h.2
    | append =>
      have hcounters : (quarantineRun core (calls ++ [c])).counters.suppressed =
          (quarantineRun core calls).counters.suppressed := by
        rw [quarantineRun_concat]
        exact hspec.suppressed.trans (by rw [hreached, if_neg (by decide), Nat.add_zero])
      have happended : (quarantineRun core (calls ++ [c])).appended =
          (quarantineRun core calls).appended ++ [c.now.monotonic] := by
        rw [quarantineRun_concat]
        exact if_pos hreached
      refine ⟨hcall, by rw [hcounters, happended, List.length_append, List.length_singleton]; omega, ?_⟩
      rw [hall, hcounters, happended, List.length_append, List.length_singleton,
        and_iff_left (.inr (hspec.append.1 hreached).2)]
      omega

/-! ## The rate -/

/-- In no interval do more calls reach the spool than the rate allows, each is counted, and those that
do not reach the spool are counted as suppressed. -/
structure RateLimited (core : ReceiverCore) (calls : List QuarantineCall) : Prop where
  window : ∀ a b : Rat, a ≤ b →
    (((quarantineRun core calls).appended.filter fun t => a ≤ t ∧ t ≤ b).length : Rat) ≤
      core.qRate * (b - a) + core.qRate
  counted : ∀ reason,
    (quarantineRun core calls).counters.invalid reason = calls.countP (·.reason = reason)
  suppressed : (quarantineRun core calls).counters.suppressed +
    (quarantineRun core calls).appended.length = calls.length

/-- The readings of the clock, from that of the tokens on. -/
structure ClockRises (core : ReceiverCore) (calls : List QuarantineCall) : Prop where
  start : ∀ c ∈ calls, core.qRefill ≤ c.now.monotonic
  sorted : (calls.map (·.now.monotonic)).Pairwise (· ≤ ·)

/-- **From `a` to `b`, at most `rate * (b - a) + rate` calls reach the spool.** -/
theorem quarantine_window {core : ReceiverCore} (hfull : core.bucket.Within (core.qRate : Rat))
    {calls : List QuarantineCall} (hclock : ClockRises core calls) {a b : Rat} (hab : a ≤ b) :
    (((quarantineRun core calls).appended.filter fun t => a ≤ t ∧ t ≤ b).length : Rat) ≤
      core.qRate * (b - a) + core.qRate := by
  obtain ⟨-, more, hmore, hsub⟩ := appended_grants calls (.start core)
  have happended : (quarantineRun core calls).appended = more := hmore
  have hgrants := TokenBucket.grants_window hab (calls.map (·.now.monotonic)) core.bucket hfull
    hclock.sorted fun t ht => by
      obtain ⟨c, hc, rfl⟩ := List.mem_map.1 ht
      exact hclock.start c hc
  rw [happended]
  refine le_trans ?_ hgrants
  exact_mod_cast (hsub.filter _).length_le

/-- **The rate limit is kept, and all calls accounted for, exactly when each call that finds a token can be
written.** -/
theorem quarantine_rate_iff (core : ReceiverCore) (hfull : core.bucket.Within (core.qRate : Rat))
    (calls : List QuarantineCall) (hclock : ClockRises core calls) :
    RateLimited core calls ↔ AllWritable core calls := by
  have hcounted := counted core calls
  constructor
  · exact fun h => hcounted.eq_iff.1 h.suppressed
  · intro h
    exact ⟨fun a b hab => quarantine_window hfull hclock hab, hcounted.invalid, hcounted.eq_iff.2 h⟩

/-- A process starts with all its tokens. -/
theorem start_within (cfg : Config) (sys : SpoolSys) (dedup : DedupWindow) (monotonic : Rat)
    (rejected : List Identity) :
    (ReceiverCore.start cfg sys dedup monotonic rejected).bucket.Within (cfg.qRate : Rat) := by
  constructor
  · exact Nat.cast_nonneg _
  · exact le_refl _

theorem AllWritable.of_writable {core : ReceiverCore} {calls : List QuarantineCall}
    (h : ∀ c ∈ calls, Writable c) : AllWritable core calls := by
  intro earlier c hpre
  exact .inr (h c (hpre.subset (List.mem_append_right _ (List.mem_singleton_self c))))

/-- A call for the record of the first sample event, with a detail of its own. -/
def sampleCall (k : Nat) (detail : PyStr) : QuarantineCall :=
  { rest := (ReceiverSys.init sampleConfig).core
    now := sampleClock k
    reason := "schema_violation"
    detail := detail
    sensorId := some "ot-sensor-01"
    bootId := some sampleBoot
    seq := some k
    raw := some [123, 125] }

/-- Two calls with details that can be written. -/
theorem quarantine_rate_sample :
    RateLimited (ReceiverSys.init sampleConfig).core
      [sampleCall 0 (pyStr "sequence: None is not of type 'integer'"),
        sampleCall 1 (pyStr "sequence: -1 is less than the minimum of 0")] := by
  refine (quarantine_rate_iff _ (start_within ..) _ ⟨by decide +kernel, by decide +kernel⟩).2 ?_
  apply AllWritable.of_writable
  intro c hc
  simp only [List.mem_cons, List.not_mem_nil, or_false] at hc
  rcases hc with rfl | rfl
  · exact ⟨by decide +kernel, (pyStr_encodable _).take _⟩
  · exact ⟨by decide +kernel, (pyStr_encodable _).take _⟩

/-- The path of an error names the field it is at, here `"\ud800"` of `availability`; its record is not
written, and the call is not counted as suppressed. -/
theorem quarantine_unaccounted :
    ¬ ∀ core : ReceiverCore, core.bucket.Within (core.qRate : Rat) → ∀ calls, ClockRises core calls →
      RateLimited core calls := by
  intro hclaim
  have h := hclaim (ReceiverSys.init sampleConfig).core (start_within ..)
    [sampleCall 0 (pyStr "availability/" ++ [0xD800] ++ pyStr ": 5 is not one of ['MISSING']")]
    ⟨by decide +kernel, by decide +kernel⟩
  rcases (counted _ _).eq_iff.1 h.suppressed [] _ (List.prefix_refl _) with hlimited | hw
  · exact absurd hlimited (by unfold Limited; decide +kernel)
  · exact absurd hw.detail (by unfold Encodable; decide +kernel)

end OTS.Receiver
