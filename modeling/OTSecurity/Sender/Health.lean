import OTSecurity.Receiver.Acceptance
import OTSecurity.Sender.State

/-!
# Sensor health over restarts of the sender

Model of `health_record` and `send_health` of `ingest/sender/sih_sender/__main__.py`, with the state
file that the counter comes back from and the receiver that the records reach.

* `healthRecord` — the record, from what `health_record` reads.
* `HealthSys`, `sensorHealth` — sender, state file and receiver as a machine: a record is numbered and
  later sent, the record path runs, the state is saved, the sender is started again, the link delivers.
* `Distinct`, `Heard` — no two records are sent under one number; a delivered record that nothing
  numbered later overtook is processed.

Principal results: `health_survives_restart` — both hold in the runs in which every health record sent
before a restart has its number below the saved counter; `health_seq_reused` — a sender that is killed
before the next save sends two records under one number, and the second is dropped.
-/

namespace OTS.Sender

open Receiver (ReceiverCore streamKey)

/-! ## The record -/

/-- What `health_record` reads of the settings, the context and the link. -/
structure HealthContext where
  mode : String
  spoolMaxBytes : Int
  senderState : String
  lastSequenceSent : Int
  recordsRead : Nat
  framesSent : Nat
  rejectedOversize : Nat
  invalidLocal : Nat
  backlogBytes : Int
  tailLagBytes : Option Int
  filesTracked : Nat
  zeekStatus : String

def natOr (n : Option Nat) : Json := n.elim .null fun n => .int n
def textOr (s : Option String) : Json := s.elim .null fun s => .str (pyStr s)

/-- `health_record` after the number is drawn; `none` when the clock is outside the calendar. -/
def healthRecord (sensorId : String) (st : SenderState) (seq : Nat) (ctx : HealthContext)
    (nowUs : Int) : Option Json :=
  (formatUs nowUs).map fun emittedAt => .obj [
    (pyStr "health_schema_version", .str (pyStr "1.0.0")),
    (pyStr "sensor_id", .str (pyStr sensorId)),
    (pyStr "sensor_boot_id", .str (pyStr st.bootId)),
    (pyStr "health_seq", .int seq),
    (pyStr "emitted_at", .str emittedAt),
    (pyStr "sender_state", .str (pyStr ctx.senderState)),
    (pyStr "mode", .str (pyStr ctx.mode)),
    (pyStr "replay_run_id", textOr (st.currentRun.map (·.runId))),
    (pyStr "last_sequence_sent",
      if ctx.lastSequenceSent ≥ 0 then .int ctx.lastSequenceSent else .null),
    (pyStr "records_read_total", .int ctx.recordsRead),
    (pyStr "frames_sent_total", .int ctx.framesSent),
    (pyStr "records_rejected_oversize_total", .int ctx.rejectedOversize),
    (pyStr "records_invalid_local_total", .int ctx.invalidLocal),
    (pyStr "spool_bytes", .int (max 0 ctx.backlogBytes)),
    (pyStr "spool_max_bytes", .int ctx.spoolMaxBytes),
    (pyStr "tail_lag_bytes", ctx.tailLagBytes.elim .null .int),
    (pyStr "files_tracked", .int ctx.filesTracked),
    (pyStr "zeek_status", .str (pyStr (if ctx.mode = "tail" then "unknown" else ctx.zeekStatus))),
    (pyStr "replay_records_total", natOr (st.currentRun.map (·.total))),
    (pyStr "replay_records_sent", natOr (st.currentRun.map (·.nextIndex)))]

/-! ## Sender, state file and receiver -/

/-- A record under its number; `made` counts the numbers drawn before, a ghost. -/
structure HealthRec where
  made : Nat
  seq : Nat
  record : Bytes
  deriving DecidableEq, Repr

structure HealthSys where
  sender : SenderState
  saved : SenderState
  /-- The numbers drawn so far, over all processes. -/
  made : Nat
  /-- Numbered, and not yet handed to the link. -/
  pending : List HealthRec
  sent : List HealthRec
  core : ReceiverCore
  /-- What the receiver was handed, in order, and what of it was not dropped at once. -/
  delivered : List HealthRec
  processed : List HealthRec

inductive HealthOp where
  /-- `send_health` builds a record. -/
  | tick (ctx : HealthContext) (nowUs : Int)
  /-- It hands the record to the link. -/
  | send (r : HealthRec)
  /-- `link.send` raises, and the record is forgotten. -/
  | fail (r : HealthRec)
  /-- The record path runs: it changes anything but the boot id and the health counter. -/
  | records (st : SenderState)
  | save
  /-- The process ends, and another one loads the state file. -/
  | restart
  /-- The link delivers a health record, for the first time or again. -/
  | deliver (r : HealthRec) (receivedAtUs : Int) (now : Receiver.Reading)
  /-- The receiver completes an event record, or a health record of another stream. -/
  | other (c : Link.Complete) (now : Receiver.Reading)

/-- The record as the receiver completes it. -/
def HealthRec.complete (sensorId bootId : String) (r : HealthRec) (receivedAtUs : Int) :
    Link.Complete :=
  ⟨Link.TYPE_HEALTH, sensorId, bootId, r.seq, r.record, receivedAtUs⟩

/-- `_health` drops the record: the highest number seen is not below its own. -/
def Drops (core : ReceiverCore) (sensorId bootId : String) (seq : Nat) : Prop :=
  ((core.healthSeen.get? (streamKey sensorId bootId)).elim (-1) fun n => (n : Int)) ≥ seq

instance (core : ReceiverCore) (sensorId bootId : String) (seq : Nat) :
    Decidable (Drops core sensorId bootId seq) := inferInstanceAs (Decidable (_ ≥ _))

namespace HealthSys

variable (rt : Runtime) (sensorId bootId : String) (s : HealthSys)

/-- A process that has just loaded the state file. -/
def load (st : SenderState) : HealthSys := { s with sender := st, pending := [] }

def deliver (r : HealthRec) (receivedAtUs : Int) (now : Receiver.Reading) : HealthSys :=
  { s with
    core := (s.core.health rt now (r.complete sensorId bootId receivedAtUs)).1
    delivered := s.delivered ++ [r]
    processed := if Drops s.core sensorId bootId r.seq then s.processed else s.processed ++ [r] }

def step : HealthOp → Option HealthSys
  | .tick ctx nowUs =>
    let (seq, sender) := s.sender.nextHealthSeq
    let pending := match (healthRecord sensorId s.sender seq ctx nowUs).bind Json.dumpBytes with
      | none => s.pending
      | some record => s.pending ++ [⟨s.made, seq, record⟩]
    some { s with sender, made := s.made + 1, pending }
  | .send r =>
    if r ∈ s.pending then
      some { s with pending := s.pending.erase r, sent := s.sent ++ [r] }
    else none
  | .fail r => some { s with pending := s.pending.erase r }
  | .records st =>
    some { s with sender := { st with bootId := s.sender.bootId, healthSeq := s.sender.healthSeq } }
  | .save => some { s with saved := s.sender.persisted }
  | .restart => some (s.load s.saved)
  | .deliver r receivedAtUs now =>
    if r ∈ s.sent then some (s.deliver rt sensorId bootId r receivedAtUs now) else none
  | .other c now =>
    if c.type ≠ Link.TYPE_HEALTH then some { s with core := (s.core.event rt now c).1 }
    else if streamKey c.sensorId c.bootId ≠ streamKey sensorId bootId then
      some { s with core := (s.core.health rt now c).1 }
    else none

end HealthSys

/-- A sensor whose state file has just been created, and a receiver that has just been started. -/
def sensorHealth (rt : Runtime) (sensorId bootId : String) (core : ReceiverCore) :
    Machine HealthSys HealthOp where
  init := ⟨.fresh bootId, .fresh bootId, 0, [], [], { core with healthSeen := .empty }, [], []⟩
  step := HealthSys.step rt sensorId bootId

/-! ## What the receiver remembers -/

section Receiver

variable {rt : Runtime} {core core' : ReceiverCore} {now : Receiver.Reading}

theorem append_healthSeen {r : Receiver.Rec} {b : Bool} (h : core.append r = some (b, core')) :
    core'.healthSeen = core.healthSeen := by
  cases b with
  | false => rw [Receiver.refused_append h]
  | true =>
    obtain ⟨sys, _, rfl⟩ := Receiver.append_accepted h
    rfl

theorem quarantine_healthSeen (core : ReceiverCore) (now : Receiver.Reading) (reason : String)
    (detail : PyStr) (sensorId bootId : Option String) (seq : Option Nat) (raw : Option Bytes) :
    (core.quarantine now reason detail sensorId bootId seq raw).1.healthSeen = core.healthSeen := by
  unfold ReceiverCore.quarantine
  simp only
  split
  · rfl
  · split
    · rfl
    · split
      · rfl
      · rename_i ha
        have h := append_healthSeen ha
        exact h

/-- An event record leaves the health numbers alone. -/
theorem event_healthSeen (c : Link.Complete) :
    (core.event rt now c).1.healthSeen = core.healthSeen := by
  unfold ReceiverCore.event
  split
  · rfl
  · rfl
  · split
    · rfl
    · rename_i reason detail _
      have hq := quarantine_healthSeen { core.mark c with
        rejected := core.rejected ++ [Receiver.identity c] } now reason detail c.sensorId c.bootId
        c.sequence c.record
      simp only
      split
      · rename_i h; rw [h] at hq; exact hq
      · rename_i h; rw [h] at hq; exact hq
    · split
      · rfl
      · split
        · rfl
        · rename_i ha; exact append_healthSeen ha
        · rename_i ha
          have h := append_healthSeen ha
          exact h

theorem health_dropped {c : Link.Complete} (h : Drops core c.sensorId c.bootId c.sequence) :
    core.health rt now c = (core, true) := by
  unfold ReceiverCore.health
  exact if_pos h

/-- The number of a health record that is not dropped becomes the highest of its stream. -/
theorem health_seen {c : Link.Complete} (h : ¬ Drops core c.sensorId c.bootId c.sequence) :
    (core.health rt now c).1.healthSeen =
      core.healthSeen.set (streamKey c.sensorId c.bootId) c.sequence := by
  unfold Drops at h
  unfold ReceiverCore.health
  simp only [if_neg h]
  split
  · rfl
  · apply quarantine_healthSeen
  · split
    · rfl
    · apply quarantine_healthSeen
    · split
      · apply quarantine_healthSeen
      · split
        · split
          · rfl
          · rename_i ha
            have h := append_healthSeen ha
            exact h
        · rfl

end Receiver

/-! ## The property -/

namespace HealthSys

/-- No two records were handed to the link under one number. -/
def Distinct (s : HealthSys) : Prop :=
  ∀ r ∈ s.sent, ∀ r' ∈ s.sent, r.seq = r'.seq → r = r'

/-- A record that was delivered before any that was numbered after it is processed. -/
def Heard (s : HealthSys) : Prop :=
  ∀ pre r post, s.delivered = pre ++ r :: post → (∀ r' ∈ pre, r'.made ≤ r.made) → r ∈ s.processed

end HealthSys

/-- The counter was saved after the last health record that was sent before a restart. -/
def SavedSince (s : HealthSys) : HealthOp → Prop
  | .restart => ∀ r ∈ s.sent, r.seq < s.saved.healthSeq
  | _ => True

instance (s : HealthSys) : ∀ op, Decidable (SavedSince s op)
  | .restart => inferInstanceAs (Decidable (∀ r ∈ s.sent, _))
  | .tick .. | .send .. | .fail .. | .records .. | .save | .deliver .. | .other .. =>
    inferInstanceAs (Decidable True)

/-! ## The invariant -/

/-- Records numbered in the order they were made; the next would get `made` and `seq`. -/
structure Numbered (made seq : Nat) (rs : List HealthRec) : Prop where
  bound : ∀ r ∈ rs, r.made < made ∧ r.seq < seq
  ordered : ∀ r ∈ rs, ∀ r' ∈ rs, r.made < r'.made → r.seq < r'.seq
  unique : ∀ r ∈ rs, ∀ r' ∈ rs, r.made = r'.made → r = r'

namespace Numbered

variable {made seq seq' : Nat} {rs rs' : List HealthRec}

theorem nil (made seq : Nat) : Numbered made seq [] :=
  ⟨by simp, by simp, by simp⟩

theorem subset (h : Numbered made seq rs) (hsub : rs' ⊆ rs) : Numbered made seq rs' where
  bound r hr := h.bound r (hsub hr)
  ordered r hr r' hr' := h.ordered r (hsub hr) r' (hsub hr')
  unique r hr r' hr' := h.unique r (hsub hr) r' (hsub hr')

/-- A number is drawn, and its record lost. -/
theorem skip (h : Numbered made seq rs) : Numbered (made + 1) (seq + 1) rs where
  bound r hr := by
    obtain ⟨hm, hs⟩ := h.bound r hr
    exact ⟨by omega, by omega⟩
  ordered := h.ordered
  unique := h.unique

theorem concat (h : Numbered made seq rs) (record : Bytes) :
    Numbered (made + 1) (seq + 1) (rs ++ [⟨made, seq, record⟩]) := by
  constructor
  · intro r hr
    rcases List.mem_append.1 hr with hr | hr
    · exact h.skip.bound r hr
    · obtain rfl := List.mem_singleton.1 hr
      exact ⟨Nat.lt_succ_self _, Nat.lt_succ_self _⟩
  · intro r hr r' hr' hlt
    rcases List.mem_append.1 hr with hr | hr <;> rcases List.mem_append.1 hr' with hr' | hr'
    · exact h.ordered r hr r' hr' hlt
    · obtain rfl := List.mem_singleton.1 hr'
      exact (h.bound r hr).2
    · obtain rfl := List.mem_singleton.1 hr
      exact absurd (h.bound r' hr').1 (Nat.lt_asymm hlt)
    · rw [List.mem_singleton.1 hr, List.mem_singleton.1 hr'] at hlt
      exact absurd hlt (Nat.lt_irrefl _)
  · intro r hr r' hr' heq
    rcases List.mem_append.1 hr with hr | hr <;> rcases List.mem_append.1 hr' with hr' | hr'
    · exact h.unique r hr r' hr' heq
    · obtain rfl := List.mem_singleton.1 hr'
      exact absurd heq (Nat.ne_of_lt (h.bound r hr).1)
    · obtain rfl := List.mem_singleton.1 hr
      exact absurd heq.symm (Nat.ne_of_lt (h.bound r' hr').1)
    · rw [List.mem_singleton.1 hr, List.mem_singleton.1 hr']

theorem distinct (h : Numbered made seq rs) {r r' : HealthRec} (hr : r ∈ rs) (hr' : r' ∈ rs)
    (heq : r.seq = r'.seq) : r = r' := by
  rcases Nat.lt_trichotomy r.made r'.made with hlt | hm | hlt
  · exact absurd heq (Nat.ne_of_lt (h.ordered r hr r' hr' hlt))
  · exact h.unique r hr r' hr' hm
  · exact absurd heq.symm (Nat.ne_of_lt (h.ordered r' hr' r hr hlt))

end Numbered

/-- Every number drawn by this process is new, and the receiver compares with a number it was
handed. -/
structure HealthInv (sensorId bootId : String) (s : HealthSys) : Prop where
  numbered : Numbered s.made s.sender.healthSeq (s.sent ++ s.pending)
  seen : ∀ n, s.core.healthSeen.get? (streamKey sensorId bootId) = some n →
    ∃ r ∈ s.delivered, r.seq = n
  delivered : s.delivered ⊆ s.sent
  heard : s.Heard

namespace HealthInv

variable {rt : Runtime} {sensorId bootId : String} {s s' : HealthSys}

theorem init (core : ReceiverCore) :
    HealthInv sensorId bootId (sensorHealth rt sensorId bootId core).init where
  numbered := .nil 0 0
  seen := by rintro n ⟨⟩
  delivered := List.nil_subset _
  heard := by
    intro pre r post h
    exact absurd h (by simp [sensorHealth])

/-- A step that leaves the receiver and what reached it alone. -/
theorem sender_side (h : HealthInv sensorId bootId s)
    (hnum : Numbered s'.made s'.sender.healthSeq (s'.sent ++ s'.pending)) (hcore : s'.core = s.core)
    (hdel : s'.delivered = s.delivered) (hproc : s'.processed = s.processed)
    (hsent : s.sent ⊆ s'.sent) : HealthInv sensorId bootId s' where
  numbered := hnum
  seen := by rw [hcore, hdel]; exact h.seen
  delivered := hdel ▸ List.Subset.trans h.delivered hsent
  heard := by
    have := h.heard
    unfold HealthSys.Heard at this ⊢
    rwa [hdel, hproc]

/-- A step of the receiver that leaves the highest number of the sensor alone. -/
theorem receiver_side (h : HealthInv sensorId bootId s) {core : ReceiverCore}
    (hseen : core.healthSeen.get? (streamKey sensorId bootId) =
      s.core.healthSeen.get? (streamKey sensorId bootId)) :
    HealthInv sensorId bootId { s with core } where
  numbered := h.numbered
  seen := hseen ▸ h.seen
  delivered := h.delivered
  heard := h.heard

/-- What was delivered before a record that nothing overtook has a lower number. -/
theorem not_drops (h : HealthInv sensorId bootId s) {r : HealthRec} (hr : r ∈ s.sent)
    (hnew : r ∉ s.delivered) (hlast : ∀ r' ∈ s.delivered, r'.made ≤ r.made) :
    ¬ Drops s.core sensorId bootId r.seq := by
  unfold Drops
  cases hn : s.core.healthSeen.get? (streamKey sensorId bootId) with
  | none => simp only [Option.elim_none]; omega
  | some n =>
    obtain ⟨r', hr', rfl⟩ := h.seen n hn
    have hsent := h.delivered hr'
    have hne : r'.made ≠ r.made := fun he => hnew
      (h.numbered.unique r' (List.mem_append_left _ hsent) r (List.mem_append_left _ hr) he ▸ hr')
    have hlt := h.numbered.ordered r' (List.mem_append_left _ hsent) r (List.mem_append_left _ hr)
      (Nat.lt_of_le_of_ne (hlast r' hr') hne)
    simp only [Option.elim_some]
    omega

theorem deliver (h : HealthInv sensorId bootId s) {r : HealthRec} (hr : r ∈ s.sent)
    (receivedAtUs : Int) (now : Receiver.Reading) :
    HealthInv sensorId bootId (s.deliver rt sensorId bootId r receivedAtUs now) where
  numbered := h.numbered
  seen := by
    intro n hn
    by_cases hd : Drops s.core sensorId bootId r.seq
    · simp only [HealthSys.deliver, health_dropped (c := r.complete _ _ _) hd] at hn
      obtain ⟨r', hr', hs⟩ := h.seen n hn
      exact ⟨r', List.mem_append_left _ hr', hs⟩
    · simp only [HealthSys.deliver, health_seen (c := r.complete _ _ _) hd] at hn
      have hset := ODict.get?_set_self s.core.healthSeen (streamKey sensorId bootId) r.seq
      exact ⟨r, by simp [HealthSys.deliver], Option.some.inj (hset.symm.trans hn)⟩
  delivered := by
    intro r' hr'
    rcases List.mem_append.1 hr' with hr' | hr'
    · exact h.delivered hr'
    · exact List.mem_singleton.1 hr' ▸ hr
  heard := by
    have hkept : s.processed ⊆ (s.deliver rt sensorId bootId r receivedAtUs now).processed := by
      unfold HealthSys.deliver
      simp only
      split
      · exact List.Subset.refl _
      · exact List.subset_append_left _ _
    intro pre x post hsplit hpre
    rcases List.eq_nil_or_concat post with rfl | ⟨post, y, rfl⟩
    · -- the record delivered now
      obtain ⟨rfl, hx⟩ := List.append_inj' hsplit rfl
      obtain rfl : r = x := by simpa using hx
      by_cases hold : r ∈ s.delivered
      · obtain ⟨pre, post, hsplit⟩ := List.append_of_mem hold
        exact hkept (h.heard pre r post hsplit fun r' hr' =>
          hpre r' (hsplit ▸ List.mem_append_left _ hr'))
      · simp [HealthSys.deliver, h.not_drops hr hold hpre]
    · have heq : s.delivered = pre ++ x :: post := by
        have := hsplit
        rw [HealthSys.deliver, List.concat_eq_append, ← List.cons_append, ← List.append_assoc] at this
        exact (List.append_inj' this rfl).1
      exact hkept (h.heard pre x post heq hpre)

theorem step (h : HealthInv sensorId bootId s) {op : HealthOp} (hC : SavedSince s op)
    (hs : s.step rt sensorId bootId op = some s') : HealthInv sensorId bootId s' := by
  cases op with
  | tick ctx nowUs =>
    simp only [HealthSys.step, SenderState.nextHealthSeq, Option.some.injEq] at hs
    subst hs
    refine h.sender_side ?_ rfl rfl rfl (List.Subset.refl _)
    simp only
    split
    · exact h.numbered.skip
    · rw [← List.append_assoc]
      exact h.numbered.concat _
  | send r =>
    simp only [HealthSys.step] at hs
    split at hs
    · rename_i hmem
      cases hs
      refine h.sender_side (h.numbered.subset ?_) rfl rfl rfl (List.subset_append_left _ _)
      intro x hx
      simp only [List.mem_append, List.mem_singleton] at hx ⊢
      rcases hx with (hx | rfl) | hx
      · exact .inl hx
      · exact .inr hmem
      · exact .inr (List.mem_of_mem_erase hx)
    · cases hs
  | fail r =>
    cases hs
    refine h.sender_side (h.numbered.subset ?_) rfl rfl rfl (List.Subset.refl _)
    exact List.append_subset.2 ⟨List.subset_append_left _ _,
      List.Subset.trans (List.erase_subset) (List.subset_append_right _ _)⟩
  | records st =>
    cases hs
    exact h.sender_side h.numbered rfl rfl rfl (List.Subset.refl _)
  | save =>
    cases hs
    exact h.sender_side h.numbered rfl rfl rfl (List.Subset.refl _)
  | restart =>
    cases hs
    have hsent := h.numbered.subset (List.subset_append_left s.sent s.pending)
    refine h.sender_side ⟨?_, ?_, ?_⟩ rfl rfl rfl (List.Subset.refl _)
    · intro r hr
      rw [HealthSys.load, List.append_nil] at hr
      exact ⟨(hsent.bound r hr).1, hC r hr⟩
    · simpa only [HealthSys.load, List.append_nil] using hsent.ordered
    · simpa only [HealthSys.load, List.append_nil] using hsent.unique
  | deliver r receivedAtUs now =>
    simp only [HealthSys.step] at hs
    split at hs
    · rename_i hr
      cases hs
      exact h.deliver hr receivedAtUs now
    · cases hs
  | other c now =>
    simp only [HealthSys.step] at hs
    split at hs
    · cases hs
      exact h.receiver_side (by rw [event_healthSeen])
    · split at hs
      · rename_i hkey
        cases hs
        refine h.receiver_side ?_
        by_cases hd : Drops s.core c.sensorId c.bootId c.sequence
        · rw [health_dropped hd]
        · rw [health_seen hd, ODict.get?_set, if_neg (Ne.symm hkey)]
      · cases hs

end HealthInv

/-! ### Two reports of one sensor -/

/-- A record is built, sent and delivered; no other one is pending. -/
def HealthSys.report (rt : Runtime) (sensorId bootId : String) (s : HealthSys) (record : Bytes) :
    HealthSys :=
  let r : HealthRec := ⟨s.made, s.sender.healthSeq, record⟩
  { s with
    sender := s.sender.nextHealthSeq.2
    made := s.made + 1
    pending := []
    sent := s.sent ++ [r] }.deliver rt sensorId bootId r 1788249610000000 (Receiver.sampleClock 0)

theorem reach_report {rt : Runtime} {sensorId bootId : String} {core : ReceiverCore} {s : HealthSys}
    {C : HealthSys → HealthOp → Prop} (hC : ∀ s op, op ≠ .restart → C s op)
    (h : (sensorHealth rt sensorId bootId core).Reach C s) (hidle : s.pending = [])
    {ctx : HealthContext} {nowUs : Int} {record : Bytes}
    (hrec : (healthRecord sensorId s.sender s.sender.healthSeq ctx nowUs).bind Json.dumpBytes =
      some record) :
    (sensorHealth rt sensorId bootId core).Reach C (s.report rt sensorId bootId record) := by
  have hbuilt := h.step (a := .tick ctx nowUs) (hC _ _ nofun) rfl
  simp only [hrec, hidle, List.nil_append] at hbuilt
  have hsent := hbuilt.step (a := .send ⟨s.made, s.sender.healthSeq, record⟩) (hC _ _ nofun)
    (if_pos (List.mem_singleton.2 rfl))
  rw [List.erase_cons_head] at hsent
  have hheard := hsent.step (hC _ (.deliver ⟨s.made, s.sender.healthSeq, record⟩ 1788249610000000
    (Receiver.sampleClock 0)) nofun) (if_pos (List.mem_append_right _ (List.mem_singleton.2 rfl)))
  exact hheard

/-- After a report the receiver drops what has its number. -/
theorem report_drops (rt : Runtime) (sensorId bootId : String) (s : HealthSys) (record : Bytes) :
    Drops (s.report rt sensorId bootId record).core sensorId bootId s.sender.healthSeq := by
  simp only [HealthSys.report, HealthSys.deliver]
  by_cases h : Drops s.core sensorId bootId s.sender.healthSeq
  · rw [health_dropped (c := HealthRec.complete sensorId bootId ⟨s.made, s.sender.healthSeq, record⟩ _) h]
    exact h
  · have hseen := @health_seen rt _ (Receiver.sampleClock 0)
      (HealthRec.complete sensorId bootId ⟨s.made, s.sender.healthSeq, record⟩ 1788249610000000) h
    unfold Drops
    rw [hseen]
    simp only [HealthRec.complete, ODict.get?_set_self, Option.elim_some, ge_iff_le, le_refl]

theorem report_processed (rt : Runtime) (sensorId bootId : String) (s : HealthSys) (record : Bytes) :
    (s.report rt sensorId bootId record).processed ⊆
      s.processed ++ [⟨s.made, s.sender.healthSeq, record⟩] := by
  unfold HealthSys.report HealthSys.deliver
  simp only
  split
  · exact List.subset_append_left _ _
  · exact List.Subset.refl _

/-- A sender that starts again from the state before its last report reports in vain. -/
theorem report_again (rt : Runtime) (sensorId bootId : String) (s : HealthSys) (record record' : Bytes)
    (hsaved : s.saved.healthSeq = s.sender.healthSeq) :
    (((s.report rt sensorId bootId record).load s.saved).report rt sensorId bootId record').processed =
      (s.report rt sensorId bootId record).processed := by
  have h := report_drops rt sensorId bootId s record
  rw [← hsaved] at h
  exact if_pos h

def sampleContext : HealthContext where
  mode := "replay"
  spoolMaxBytes := 268435456
  senderState := "running"
  lastSequenceSent := 41
  recordsRead := 42
  framesSent := 42
  rejectedOversize := 0
  invalidLocal := 0
  backlogBytes := 0
  tailLagBytes := none
  filesTracked := 0
  zeekStatus := "finished"

/-- The bytes of a report of the sample sensor. -/
def sampleReport (seq : Nat) (nowUs : Int) : Bytes :=
  ((healthRecord "ot-sensor-01" (.fresh Receiver.sampleBoot) seq sampleContext nowUs).bind
    Json.dumpBytes).getD []

theorem sampleReport_built :
    ∀ r ∈ [(0, 1788249605000000), (0, 1788249610000000), (1, 1788249610000000)],
      (healthRecord "ot-sensor-01" (.fresh Receiver.sampleBoot) r.1 sampleContext r.2).bind
        Json.dumpBytes = some (sampleReport r.1 r.2) := by
  decide +kernel

/-- The sample sensor, with a receiver that knows nothing yet. -/
def sampleSensor : Machine HealthSys HealthOp :=
  sensorHealth sampleRuntime "ot-sensor-01" Receiver.sampleBoot
    (Receiver.ReceiverSys.init Receiver.sampleConfig).core

def HealthSys.sampleReport (s : HealthSys) (seq : Nat) (nowUs : Int) : HealthSys :=
  s.report sampleRuntime "ot-sensor-01" Receiver.sampleBoot (Sender.sampleReport seq nowUs)

theorem reach_firstReport {C : HealthSys → HealthOp → Prop} (hC : ∀ s op, op ≠ .restart → C s op) :
    sampleSensor.Reach C (sampleSensor.init.sampleReport 0 1788249605000000) :=
  reach_report hC .init rfl (sampleReport_built _ (List.mem_cons_self ..))

/-- **Sensor health survives a restart of the sender**, however ticks, sends, saves and deliveries
interleave, in the runs in which the counter was saved after the last health record sent before each
restart: no number is used twice, and a delivered record is not dropped unless one numbered after it
came first. -/
theorem health_survives_restart {rt : Runtime} {sensorId bootId : String} {core : ReceiverCore}
    {s : HealthSys} (h : (sensorHealth rt sensorId bootId core).Reach SavedSince s) :
    s.Distinct ∧ s.Heard := by
  have hinv : HealthInv sensorId bootId s :=
    h.invariant (.init core) fun _ _ _ hi hC hs => hi.step hC hs
  refine ⟨?_, hinv.heard⟩
  intro r hr r' hr' heq
  exact hinv.numbered.distinct (List.mem_append_left _ hr) (List.mem_append_left _ hr') heq

/-- The counter is saved between the two reports. -/
theorem health_survives_restart_sample : ∃ s : HealthSys, s.sent.length = 2 ∧ s.Distinct ∧ s.Heard := by
  have hC : ∀ (s : HealthSys) op, op ≠ .restart → SavedSince s op := by
    rintro s (_ | _ | _ | _ | _ | _ | _ | _) h <;> trivial
  have hsaved := (reach_firstReport hC).step (hC _ .save nofun) rfl
  have hbelow : ∀ r ∈ (sampleSensor.init.sampleReport 0 1788249605000000).sent, r.seq < 1 := by
    intro r hr
    obtain rfl := List.mem_singleton.1 hr
    exact Nat.zero_lt_one
  have hrestarted := hsaved.step (a := .restart) (C := SavedSince) hbelow rfl
  have h := reach_report hC hrestarted rfl (sampleReport_built (1, 1788249610000000) (by decide))
  exact ⟨_, rfl, health_survives_restart h⟩

/-- Two reports, and a restart without a save between them. -/
theorem seq_reused {rt : Runtime} {sensorId bootId : String} {core : ReceiverCore}
    {ctx : HealthContext} {nowUs nowUs' : Int} {record record' : Bytes}
    (hrec : (healthRecord sensorId (.fresh bootId) 0 ctx nowUs).bind Json.dumpBytes = some record)
    (hrec' : (healthRecord sensorId (.fresh bootId) 0 ctx nowUs').bind Json.dumpBytes = some record')
    (hne : record ≠ record') :
    ∃ s, (sensorHealth rt sensorId bootId core).Reach (fun _ _ => True) s ∧ ¬ s.Heard ∧
      ∃ r ∈ s.sent, ∃ r' ∈ s.sent, r.seq = r'.seq ∧ r.record ≠ r'.record ∧
        r' ∈ s.delivered ∧ r' ∉ s.processed := by
  have hfirst := @reach_report rt sensorId bootId core _ _ (fun _ _ _ => trivial) .init rfl _ _ _ hrec
  have hrestarted := hfirst.step (a := .restart) trivial rfl
  have hsecond := reach_report (fun _ _ _ => trivial) hrestarted rfl hrec'
  have hagain := report_again rt sensorId bootId (sensorHealth rt sensorId bootId core).init record
    record' rfl
  have hlost : (⟨1, 0, record'⟩ : HealthRec) ∉ ((((sensorHealth rt sensorId bootId core).init.report
      rt sensorId bootId record).load (.fresh bootId)).report rt sensorId bootId record').processed := by
    intro hmem
    have hold := report_processed rt sensorId bootId _ record (hagain ▸ hmem)
    exact absurd (congrArg HealthRec.made (List.mem_singleton.1 hold)) Nat.one_ne_zero
  refine ⟨_, hsecond, ?_, ⟨0, 0, record⟩, .head _, ⟨1, 0, record'⟩, .tail _ (.head _), rfl, hne,
    .tail _ (.head _), hlost⟩
  intro hheard
  refine hlost (hheard [⟨0, 0, record⟩] _ [] rfl ?_)
  intro r hr
  rw [List.mem_singleton.1 hr]
  exact Nat.zero_le 1

/-- **A number is used twice.**  A sender that is killed after a report, and started again, reports
under the number that the state file still holds; the receiver drops that report. -/
theorem health_seq_reused : ∃ s, sampleSensor.Reach (fun _ _ => True) s ∧ ¬ s.Heard ∧
    ∃ r ∈ s.sent, ∃ r' ∈ s.sent, r.seq = r'.seq ∧ r.record ≠ r'.record ∧
      r' ∈ s.delivered ∧ r' ∉ s.processed :=
  seq_reused (sampleReport_built (0, 1788249605000000) (by decide))
    (sampleReport_built (0, 1788249610000000) (by decide)) (by decide +kernel)

end OTS.Sender
