import OTSecurity.Receiver.Acceptance

/-!
# Delivery in any order

Event records of one stream are handed to a fresh receiver with room for all of them.

* `deliver` — the records one after another, with the fate of each.
* `Deliverable` — distinct valid records of one stream that span less than the window.

Principal results: `deliver_fates` — the first record is accepted, and of the others those that do
not precede it; `accepted_iff_lowest_first` — all are accepted exactly when the lowest sequence
comes first; `lowest_last_dropped` — two records delivered in the other order.
-/

namespace OTS.Receiver

open Function

def deliver (rt : Runtime) :
    ReceiverCore → List (Reading × Link.Complete) → ReceiverCore × List Fate
  | core, [] => (core, [])
  | core, d :: ds =>
    let (core, fate) := core.event rt d.1 d.2
    let (core, fates) := deliver rt core ds
    (core, fate :: fates)

/-- The bytes that a record takes in the spool, if it is a valid event. -/
def spoolSize (rt : Runtime) (c : Link.Complete) : Option Nat :=
  match judge rt c with
  | .valid ev => ((rawRecord ev c).bind encodeRec).map List.length
  | _ => none

/-- Valid records of one stream, with distinct sequences less than `WINDOW` apart, for which the
spool has room. -/
structure Deliverable (rt : Runtime) (sensorId bootId : String) (spool : Spool)
    (cs : List Link.Complete) : Prop where
  stream : ∀ c ∈ cs, c.sensorId = sensorId ∧ c.bootId = bootId
  distinct : (cs.map (·.sequence)).Nodup
  span : ∀ c ∈ cs, ∀ d ∈ cs, (c.sequence : ℤ) < d.sequence + WINDOW
  valid : ∀ c ∈ cs, (spoolSize rt c).isSome
  room : spool.total + (cs.map fun c => (spoolSize rt c).getD 0).sum ≤ spool.maxBytes

/-- The fate of a record when the first of the stream had sequence `first`. -/
def fateAfter (first : Nat) (c : Link.Complete) : Fate :=
  if first ≤ c.sequence then .accepted else .suppressed .stale

/-! ## One record -/

variable {rt : Runtime} {core : ReceiverCore} {c : Link.Complete}

/-- A spool with room for a record takes it. -/
theorem append_room {s : Spool} {d : Disk} {r : Rec} {rec : Bytes} (h : encodeRec r = some rec)
    (hroom : s.total + rec.length ≤ s.maxBytes) :
    ∃ spool disk, s.append d r = some (true, spool, disk) ∧ spool.total = s.total + rec.length ∧
      spool.maxBytes = s.maxBytes := by
  unfold Spool.append
  rw [h]
  simp only
  rw [if_neg (by omega)]
  split
  · exact ⟨_, _, rfl, rfl, rfl⟩
  · exact ⟨_, _, rfl, rfl, rfl⟩

/-- **A new valid record is accepted when there is room.** -/
theorem event_accepted {n : Nat} (now : Reading) (hnew : ¬ core.dedup.Old (identity c))
    (hn : spoolSize rt c = some n) (hroom : core.sys.spool.total + n ≤ core.sys.spool.maxBytes) :
    ∃ sys, core.event rt now c = ({ core.mark c with sys }, .accepted) ∧
      rawIdentities sys.log = rawIdentities core.sys.log ++ [identity c] ∧
      sys.spool.total = core.sys.spool.total + n ∧
      sys.spool.maxBytes = core.sys.spool.maxBytes := by
  unfold spoolSize at hn
  split at hn
  · rename_i ev hj
    obtain ⟨rec, hrec, rfl⟩ := Option.map_eq_some_iff.1 hn
    obtain ⟨r, hr, henc⟩ := Option.bind_eq_some_iff.1 hrec
    obtain ⟨spool, disk, happ, htotal, hmax⟩ := append_room (d := core.sys.disk) henc hroom
    have happend : core.append r = some (true, { core with
        sys := ⟨spool, disk, core.sys.log ++ [SpoolSys.appended spool r]⟩ }) := by
      unfold ReceiverCore.append
      rw [happ]
    refine ⟨⟨spool, disk, core.sys.log ++ [SpoolSys.appended spool r]⟩, ?_, ?_, htotal, hmax⟩
    · unfold ReceiverCore.event
      split
      · rename_i hv
        exact absurd (.inl hv) hnew
      · rename_i hv
        exact absurd (.inr hv) hnew
      · rw [hj]
        simp only [hr, happend]
        rfl
    · rw [rawIdentities_append, entryIdentity_raw (rawRecord_isRaw hr)]
      rfl
  · cases hn

theorem event_stale (now : Reading) (h : core.dedup.verdict (identity c) = .stale) :
    core.event rt now c = (core.mark c, .suppressed .stale) := by
  have hv : core.dedup.check c.sensorId c.bootId c.sequence = .stale := h
  unfold ReceiverCore.event
  rw [hv]

/-! ## A stream -/

theorem high_mem (b : ℤ) (S : List ℤ) : high b S ∈ b :: S := by
  unfold high
  induction S generalizing b with
  | nil => exact List.mem_singleton.2 rfl
  | cons x S ih =>
    rcases List.mem_cons.1 (ih (max b x)) with h | h
    · rw [List.foldl_cons, h]
      rcases max_choice b x with hm | hm
      · rw [hm]; exact List.mem_cons_self
      · rw [hm]; exact List.mem_cons_of_mem _ List.mem_cons_self
    · exact List.mem_cons_of_mem _ (List.mem_cons_of_mem _ h)

/-- What precedes the first recorded sequence is stale. -/
theorem classify_before {b q : ℤ} {S : List ℤ} (h : q < b) : classify (b :: S) q = .stale := by
  have hb := le_high b S
  simp only [classify]
  rw [if_neg (by omega), if_pos (.inr h)]

/-- What follows it, is not recorded and lies in the window is new. -/
theorem classify_after {b q : ℤ} {S : List ℤ} (hb : b ≤ q) (hq : q ∉ b :: S)
    (hspan : ∀ x ∈ b :: S, x < q + WINDOW) :
    classify (b :: S) q ≠ .duplicate ∧ classify (b :: S) q ≠ .stale := by
  have hhigh := hspan _ (high_mem b S)
  simp only [classify]
  split
  · exact ⟨by decide, by decide⟩
  · rw [if_neg (by omega)]
    exact ⟨by decide, by decide⟩

theorem Deliverable.tail {sensorId bootId : String} {spool spool' : Spool} {cs : List Link.Complete}
    (h : Deliverable rt sensorId bootId spool (c :: cs))
    (hroom : spool'.total ≤ spool.total + (spoolSize rt c).getD 0)
    (hmax : spool'.maxBytes = spool.maxBytes) : Deliverable rt sensorId bootId spool' cs where
  stream d hd := h.stream d (List.mem_cons_of_mem _ hd)
  distinct := (List.nodup_cons.1 h.distinct).2
  span d hd e he := h.span d (List.mem_cons_of_mem _ hd) e (List.mem_cons_of_mem _ he)
  valid d hd := h.valid d (List.mem_cons_of_mem _ hd)
  room := by
    have hr := h.room
    simp only [List.map_cons, List.sum_cons] at hr
    omega

/-- **The records after the first.**  The stream has recorded `b :: S`, less than `WINDOW` away from
what is to come and without any of it. -/
theorem deliver_after {sensorId bootId : String} {b : Nat} (ds : List (Reading × Link.Complete)) :
    ∀ (core : ReceiverCore) {M : String → List ℤ} {S : List ℤ}, WindowRefines core.dedup M →
    M (streamKey sensorId bootId) = (b : ℤ) :: S →
    Deliverable rt sensorId bootId core.sys.spool (ds.map (·.2)) →
    (∀ d ∈ ds, (d.2.sequence : ℤ) ∉ (b : ℤ) :: S ∧ ∀ x ∈ (b : ℤ) :: S, x < d.2.sequence + WINDOW) →
    (deliver rt core ds).2 = ds.map (fun d => fateAfter b d.2) ∧
    rawIdentities (deliver rt core ds).1.sys.log = rawIdentities core.sys.log ++
      ((ds.map (·.2)).filter (b ≤ ·.sequence)).map identity := by
  induction ds with
  | nil => exact fun _ {_ _} _ _ _ _ => ⟨rfl, (List.append_nil _).symm⟩
  | cons d ds ih =>
    intro core M S R hM hD hfar
    obtain ⟨now, c⟩ := d
    obtain ⟨hs, hb⟩ := hD.stream c List.mem_cons_self
    obtain ⟨hout, hspan⟩ := hfar _ List.mem_cons_self
    have hkey : streamKey c.sensorId c.bootId = streamKey sensorId bootId := by rw [hs, hb]
    have hverdict : core.dedup.verdict (identity c) = classify ((b : ℤ) :: S) c.sequence := by
      rw [← hM, ← hkey]
      exact R.check ..
    obtain ⟨-, M', R', hself, -⟩ := R.mark c.sensorId c.bootId c.sequence
    rw [hkey, hM] at hself
    rw [deliver]
    by_cases hle : b ≤ c.sequence
    · have hclass := classify_after (q := c.sequence) (by omega) hout hspan
      have hnew : ¬ core.dedup.Old (identity c) := by
        rintro (h | h)
        · exact hclass.1 (hverdict ▸ h)
        · exact hclass.2 (hverdict ▸ h)
      obtain ⟨n, hn⟩ := Option.isSome_iff_exists.1 (hD.valid c List.mem_cons_self)
      have hroom := hD.room
      simp only [List.map_cons, List.sum_cons, hn, Option.getD_some] at hroom
      obtain ⟨sys, heq, hlog, htotal, hmax⟩ := event_accepted now hnew hn (by omega)
      rw [record_new hclass] at hself
      have hD' : Deliverable rt sensorId bootId sys.spool (ds.map (·.2)) :=
        hD.tail (by rw [hn, htotal]; exact le_refl _) hmax
      have hdistinct := (List.nodup_cons.1 hD.distinct).1
      have hcases : ∀ {x : ℤ}, x ∈ (b : ℤ) :: S ++ [(c.sequence : ℤ)] →
          x ∈ (b : ℤ) :: S ∨ x = c.sequence := fun hx => by
        simpa only [List.mem_append, List.mem_singleton] using hx
      obtain ⟨hfates, hids⟩ := ih { core.mark c with sys } R' hself hD' (by
        intro e he
        obtain ⟨hout', hspan'⟩ := hfar e (List.mem_cons_of_mem _ he)
        have hmem : e.2 ∈ ds.map (·.2) := List.mem_map_of_mem he
        constructor
        · intro hm
          rcases hcases hm with hm | hm
          · exact hout' hm
          · exact hdistinct (List.mem_map.2 ⟨e.2, hmem, by exact_mod_cast hm⟩)
        · intro x hx
          rcases hcases hx with hx | rfl
          · exact hspan' x hx
          · exact hD.span c List.mem_cons_self e.2 (List.mem_cons_of_mem _ hmem))
      rw [heq]
      constructor
      · simp only [List.map_cons, fateAfter, if_pos hle, hfates]
      · simp only [hids, hlog, List.map_cons, List.filter_cons, decide_eq_true hle, if_true,
          List.append_assoc, List.singleton_append]
    · have hclass : classify ((b : ℤ) :: S) c.sequence = .stale := classify_before (by omega)
      rw [record_old (.inr hclass)] at hself
      obtain ⟨hfates, hids⟩ := ih (core.mark c) R' hself
        (hD.tail (Nat.le_add_right _ _) rfl) (fun e he => hfar e (List.mem_cons_of_mem _ he))
      rw [event_stale now (hverdict.trans hclass)]
      constructor
      · simp only [List.map_cons, fateAfter, if_neg hle, hfates]
      · simp only [hids, List.map_cons, List.filter_cons, decide_eq_false hle]
        rfl

/-! ## A fresh receiver -/

/-- **What becomes of each record**: the first is accepted, and of the others those that do not
precede it; the spooled events are these, in the order of delivery. -/
theorem deliver_fates {sensorId bootId : String} {core : ReceiverCore} (now : Reading)
    {c : Link.Complete} {ds : List (Reading × Link.Complete)} (hfresh : core.dedup = .init)
    (hD : Deliverable rt sensorId bootId core.sys.spool (c :: ds.map (·.2))) :
    (deliver rt core ((now, c) :: ds)).2 =
      .accepted :: ds.map (fun d => fateAfter c.sequence d.2) ∧
    rawIdentities (deliver rt core ((now, c) :: ds)).1.sys.log = rawIdentities core.sys.log ++
      identity c :: ((ds.map (·.2)).filter (c.sequence ≤ ·.sequence)).map identity := by
  have R : WindowRefines core.dedup (fun _ => []) := hfresh ▸ windowRefines_init
  obtain ⟨hs, hb⟩ := hD.stream c List.mem_cons_self
  have hverdict : core.dedup.verdict (identity c) = .new := R.check ..
  have hnew : ¬ core.dedup.Old (identity c) := by
    unfold DedupWindow.Old
    rw [hverdict]
    decide
  obtain ⟨-, M', R', hself, -⟩ := R.mark c.sensorId c.bootId c.sequence
  obtain ⟨n, hn⟩ := Option.isSome_iff_exists.1 (hD.valid c List.mem_cons_self)
  have hroom := hD.room
  simp only [List.map_cons, List.sum_cons, hn, Option.getD_some] at hroom
  obtain ⟨sys, heq, hlog, htotal, hmax⟩ := event_accepted now hnew hn (by omega)
  have hdistinct := (List.nodup_cons.1 hD.distinct).1
  obtain ⟨hfates, hids⟩ := deliver_after ds { core.mark c with sys } R'
    (by rw [← hs, ← hb]; exact hself)
    (hD.tail (by rw [hn, htotal]; exact le_refl _) hmax) (by
      intro e he
      have hmem : e.2 ∈ ds.map (·.2) := List.mem_map_of_mem he
      constructor
      · intro hm
        exact hdistinct (List.mem_map.2 ⟨e.2, hmem, by exact_mod_cast List.mem_singleton.1 hm⟩)
      · intro x hx
        rw [List.mem_singleton.1 hx]
        exact hD.span c List.mem_cons_self e.2 (List.mem_cons_of_mem _ hmem))
  rw [deliver, heq]
  constructor
  · simp only [hfates]
  · simp only [hids, hlog, List.append_assoc, List.singleton_append]

/-- Every record is accepted, and the spool has received the events in the order of delivery. -/
def AllAccepted (rt : Runtime) (core : ReceiverCore) (ds : List (Reading × Link.Complete)) : Prop :=
  (∀ fate ∈ (deliver rt core ds).2, fate = .accepted) ∧
    rawIdentities (deliver rt core ds).1.sys.log =
      rawIdentities core.sys.log ++ ds.map (fun d => identity d.2)

/-- **All records are accepted exactly when the lowest sequence comes first.** -/
theorem accepted_iff_lowest_first {rt : Runtime} {sensorId bootId : String} {core : ReceiverCore}
    {now : Reading} {c : Link.Complete} {ds : List (Reading × Link.Complete)}
    (hfresh : core.dedup = .init)
    (hD : Deliverable rt sensorId bootId core.sys.spool (c :: ds.map (·.2))) :
    AllAccepted rt core ((now, c) :: ds) ↔ ∀ d ∈ ds, c.sequence < d.2.sequence := by
  obtain ⟨hfates, hids⟩ := deliver_fates now hfresh hD
  rw [AllAccepted, hfates, hids]
  constructor
  · rintro ⟨hall, -⟩ d hd
    have hfate := hall _ (List.mem_cons_of_mem _ (List.mem_map_of_mem hd))
    have hle : c.sequence ≤ d.2.sequence := by
      by_contra hlt
      simp [fateAfter, hlt] at hfate
    have hne : c.sequence ≠ d.2.sequence := fun heq =>
      (List.nodup_cons.1 hD.distinct).1
        (List.mem_map.2 ⟨d.2, List.mem_map_of_mem hd, heq.symm⟩)
    omega
  · intro hfirst
    have hle : ∀ d ∈ ds, c.sequence ≤ d.2.sequence := fun d hd => (hfirst d hd).le
    constructor
    · intro fate hmem
      rcases List.mem_cons.1 hmem with rfl | hmem
      · rfl
      · obtain ⟨d, hd, rfl⟩ := List.mem_map.1 hmem
        exact if_pos (hle d hd)
    · have hkeep : ∀ e ∈ ds.map (·.2), decide (c.sequence ≤ e.sequence) = true := by
        intro e he
        obtain ⟨d, hd, rfl⟩ := List.mem_map.1 he
        exact decide_eq_true (hle d hd)
      rw [List.filter_eq_self.2 hkeep, List.map_map]
      rfl

/-- Whether records can be delivered does not depend on their order. -/
theorem Deliverable.perm {rt : Runtime} {sensorId bootId : String} {spool : Spool}
    {cs ds : List Link.Complete} (h : Deliverable rt sensorId bootId spool cs) (hp : cs.Perm ds) :
    Deliverable rt sensorId bootId spool ds where
  stream c hc := h.stream c (hp.mem_iff.2 hc)
  distinct := (hp.map _).nodup_iff.1 h.distinct
  span c hc d hd := h.span c (hp.mem_iff.2 hc) d (hp.mem_iff.2 hd)
  valid c hc := h.valid c (hp.mem_iff.2 hc)
  room := by
    rw [← (hp.map fun c => (spoolSize rt c).getD 0).sum_eq]
    exact h.room

/-! ## Two records -/

theorem spoolSize_of_spooled {r : Rec} (h : spooledRecord rt c = some r) :
    spoolSize rt c = (encodeRec r).map List.length := by
  unfold spooledRecord at h
  unfold spoolSize
  cases hj : judge rt c with
  | valid ev =>
    simp only [hj] at h ⊢
    rw [h]
    rfl
  | raises => simp [hj] at h
  | rejected reason detail => simp [hj] at h

theorem sample_spooled_one : spooledRecord sampleRuntime (sampleComplete 1) = some (sampleRec 1) := by
  decide +kernel

theorem sample_size {k : Nat} (hk : k < 2) :
    spoolSize sampleRuntime (sampleComplete k) = some 1063 := by
  match k, hk with
  | 0, _ =>
    rw [spoolSize_of_spooled sample_spooled]
    decide +kernel
  | 1, _ =>
    rw [spoolSize_of_spooled sample_spooled_one]
    decide +kernel

theorem sample_deliverable : Deliverable sampleRuntime "ot-sensor-01" sampleBoot
    (ReceiverSys.init sampleConfig).core.sys.spool ([0, 1].map sampleComplete) where
  stream c hc := by
    obtain ⟨k, -, rfl⟩ := List.mem_map.1 hc
    exact ⟨rfl, rfl⟩
  distinct := by
    rw [List.map_map]
    decide
  span c hc d hd := by
    obtain ⟨k, hk, rfl⟩ := List.mem_map.1 hc
    obtain ⟨l, hl, rfl⟩ := List.mem_map.1 hd
    have hk' : k < 2 := by simp at hk; omega
    show (k : ℤ) < l + WINDOW
    unfold WINDOW
    omega
  valid c hc := by
    obtain ⟨k, hk, rfl⟩ := List.mem_map.1 hc
    rw [sample_size (by simp at hk; omega)]
    rfl
  room := by
    simp only [List.map_cons, List.map_nil, sample_size (k := 0) (by decide),
      sample_size (k := 1) (by decide)]
    decide

/-- The lower sequence first: both are accepted. -/
theorem accepted_iff_lowest_first_sample : AllAccepted sampleRuntime
    (ReceiverSys.init sampleConfig).core
    [(sampleClock 0, sampleComplete 0), (sampleClock 1, sampleComplete 1)] :=
  (accepted_iff_lowest_first rfl sample_deliverable).2 (by
    intro d hd
    rw [List.mem_singleton.1 hd]
    exact Nat.zero_lt_one)

/-- **The lower sequence last: it is dropped as stale.** -/
theorem lowest_last_dropped : ¬ ∀ (rt : Runtime) (sensorId bootId : String) (core : ReceiverCore)
    (ds : List (Reading × Link.Complete)), core.dedup = .init →
      Deliverable rt sensorId bootId core.sys.spool (ds.map (·.2)) → AllAccepted rt core ds := by
  intro hclaim
  have hall := hclaim sampleRuntime "ot-sensor-01" sampleBoot (ReceiverSys.init sampleConfig).core
    [(sampleClock 0, sampleComplete 1), (sampleClock 1, sampleComplete 0)] rfl
    (sample_deliverable.perm (List.Perm.swap _ _ _))
  have hfates := (@deliver_fates _ _ _ _ (sampleClock 0) (sampleComplete 1)
    [(sampleClock 1, sampleComplete 0)] rfl
    (sample_deliverable.perm (List.Perm.swap _ _ _))).1
  have hlast := hall.1 (.suppressed .stale) (hfates ▸ by
    exact List.mem_cons_of_mem _ (List.mem_singleton.2 rfl))
  cases hlast

end OTS.Receiver
