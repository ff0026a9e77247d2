import OTSecurity.Sender.Normalizer

/-!
# Faithful telemetry

What the normalizer makes of the counters of a connection, and how it accounts for what is not
there.

* `Builder.Consistent` — a field has a state exactly when its value is null, and only fields with a
  state have a reason.
* `observes` — the directions that a coverage observes.

Principal result: `telemetry_faithful` — a counter has the value of the Zeek record when that is an
integer in range and its direction is observed, and is null otherwise; a zero is never made up.
-/

namespace OTS.Sender

/-! ## The steps of a computation that succeeds -/

theorem Attempt.bind_eq_ok {α β : Type} {x : Attempt α} {f : α → Attempt β} {b : β} :
    (x >>= f) = .ok b ↔ ∃ a, x = .ok a ∧ f a = .ok b := by
  cases x with
  | error e =>
    constructor
    · intro h
      cases h
    · rintro ⟨a, h, -⟩
      cases h
  | ok a =>
    constructor
    · intro h
      exact ⟨a, rfl, h⟩
    · rintro ⟨a', h, hf⟩
      cases h
      exact hf

/-! ## Writing fields -/

/-- The value of the field in the payload. -/
def Outcome.json : Outcome → Json
  | .known v => v
  | .unavailable _ _ => .null

theorem Outcome.json_int {o : Outcome} {v : Int} : o.json = .int v ↔ o = .known (.int v) := by
  cases o <;> simp [Outcome.json]

/-- A known value is not null. -/
def Outcome.Proper : Outcome → Prop
  | .known v => v.isNull = false
  | .unavailable _ _ => True

namespace Builder

structure Consistent (b : Builder) : Prop where
  state : ∀ f, (b.availability.get? f).isSome ↔ (b.payload.get? f).any Json.isNull
  reason : ∀ f, (b.reasons.get? f).isSome → (b.availability.get? f).isSome

theorem consistent_empty : empty.Consistent where
  state f := by simp [empty]
  reason f := by simp [empty]

variable {b : Builder} {f g : String} {o : Outcome}

theorem get?_payload_put : (b.put g o).payload.get? f =
    if f = g then some o.json else b.payload.get? f := by
  cases o <;> exact ODict.get?_set _ _ _ _

theorem get?_availability_put_of_ne (h : f ≠ g) :
    (b.put g o).availability.get? f = b.availability.get? f := by
  cases o with
  | known v => rfl
  | unavailable state reason => exact (ODict.get?_set _ _ _ _).trans (if_neg h)

theorem get?_reasons_put_of_ne (h : f ≠ g) :
    (b.put g o).reasons.get? f = b.reasons.get? f := by
  cases o with
  | known v => rfl
  | unavailable state reason =>
    simp only [put]
    split
    · rfl
    · exact (ODict.get?_set _ _ _ _).trans (if_neg h)

/-- A field that is written for the first time keeps the maps consistent. -/
theorem Consistent.put (h : b.Consistent) (hg : b.payload.get? g = none) (ho : o.Proper) :
    (b.put g o).Consistent := by
  have hnone : b.availability.get? g = none := by
    have := h.state g
    rw [hg, Option.any_none] at this
    exact Option.not_isSome_iff_eq_none.1 (by simp [this])
  have hno : b.reasons.get? g = none := by
    have := h.reason g
    rw [hnone] at this
    exact Option.not_isSome_iff_eq_none.1 fun hs => by simpa using this hs
  constructor
  · intro f
    by_cases hf : f = g
    · subst hf
      rw [get?_payload_put, if_pos rfl]
      cases o with
      | known v =>
        rw [show (b.put f (.known v)).availability = b.availability from rfl, hnone]
        have hv : v.isNull = false := ho
        simp [Outcome.json, hv]
      | unavailable state reason =>
        simp [Builder.put, ODict.get?_set_self, Outcome.json, Json.isNull]
    · rw [get?_availability_put_of_ne hf, get?_payload_put, if_neg hf]
      exact h.state f
  · intro f hf
    by_cases hfg : f = g
    · subst hfg
      cases o with
      | known v =>
        rw [show (b.put f (.known v)).reasons = b.reasons from rfl, hno] at hf
        cases hf
      | unavailable state reason => simp [Builder.put, ODict.get?_set_self]
    · rw [get?_reasons_put_of_ne hfg] at hf
      rw [get?_availability_put_of_ne hfg]
      exact h.reason f hf

theorem lookup_eq_none {ws : Writes} (h : f ∉ ws.map (·.1)) : ws.lookup f = none := by
  rw [List.lookup_eq_none_iff]
  intro w hw
  exact bne_iff_ne.2 fun e => h (List.mem_map.2 ⟨w, hw, e.symm⟩)

theorem get?_payload_puts {ws : Writes} (hws : (ws.map (·.1)).Nodup) (b : Builder) :
    (b.puts ws).payload.get? f = ((ws.lookup f).map Outcome.json).or (b.payload.get? f) := by
  induction ws generalizing b with
  | nil => rfl
  | cons w ws ih =>
    obtain ⟨k, o⟩ := w
    obtain ⟨hk, hrest⟩ := List.nodup_cons.1 hws
    show ((b.put k o).puts ws).payload.get? f = _
    rw [ih hrest, get?_payload_put]
    by_cases hf : f = k
    · rw [hf, lookup_eq_none hk, if_pos rfl, List.lookup_cons_self]
      rfl
    · rw [if_neg hf, List.lookup_cons, beq_false_of_ne hf]

/-- Fields that are written for the first time, each once, keep the maps consistent. -/
theorem Consistent.puts {ws : Writes} (h : b.Consistent) (hws : (ws.map (·.1)).Nodup)
    (hfresh : ∀ w ∈ ws, b.payload.get? w.1 = none) (hproper : ∀ w ∈ ws, w.2.Proper) :
    (b.puts ws).Consistent := by
  induction ws generalizing b with
  | nil => exact h
  | cons w ws ih =>
    obtain ⟨hw, hrest⟩ := List.nodup_cons.1 hws
    refine ih (h.put (hfresh w List.mem_cons_self) (hproper w List.mem_cons_self)) hrest ?_
      fun p hp => hproper p (.tail _ hp)
    intro p hp
    have hne : p.1 ≠ w.1 := fun e => hw (List.mem_map.2 ⟨p, hp, e⟩)
    rw [get?_payload_put, if_neg hne]
    exact hfresh p (.tail _ hp)

/-! ### Hiding a direction -/

theorem get?_payload_hide : (b.hide g).payload.get? f =
    if f = g then some .null else b.payload.get? f := get?_payload_put

theorem get?_availability_hide : (b.hide g).availability.get? f =
    if f = g then some "UNKNOWN" else b.availability.get? f := by
  refine (ODict.get?_set _ _ _ _).trans ?_
  by_cases hf : f = g
  · rw [if_pos hf, if_pos hf]
  · rw [if_neg hf, if_neg hf]
    exact (ODict.get?_erase _ _ _).trans (if_neg hf)

theorem get?_reasons_hide : (b.hide g).reasons.get? f =
    if f = g then some "direction_not_observed" else b.reasons.get? f := by
  show ODict.get? (if _ then _ else _) f = _
  rw [if_neg (by decide), ODict.get?_set]
  by_cases hf : f = g
  · rw [if_pos hf, if_pos hf]
  · rw [if_neg hf, if_neg hf]
    exact (ODict.get?_erase _ _ _).trans (if_neg hf)

theorem Consistent.hide (h : b.Consistent) : (b.hide g).Consistent := by
  constructor
  · intro f
    rw [get?_availability_hide, get?_payload_hide]
    by_cases hf : f = g
    · simp [hf, Json.isNull]
    · rw [if_neg hf, if_neg hf]
      exact h.state f
  · intro f
    rw [get?_reasons_hide, get?_availability_hide]
    by_cases hf : f = g
    · simp [hf]
    · rw [if_neg hf, if_neg hf]
      exact h.reason f

theorem Consistent.hides (h : b.Consistent) (fs : List String) :
    (fs.foldl Builder.hide b).Consistent := by
  induction fs generalizing b with
  | nil => exact h
  | cons g fs ih => exact ih h.hide

theorem get?_payload_hides (fs : List String) (b : Builder) :
    (fs.foldl Builder.hide b).payload.get? f = if f ∈ fs then some .null else b.payload.get? f := by
  induction fs generalizing b with
  | nil => simp
  | cons g fs ih =>
    rw [List.foldl_cons, ih, get?_payload_hide]
    by_cases hg : f = g <;> by_cases hfs : f ∈ fs <;> simp [hg, hfs]

theorem get?_availability_hides (fs : List String) (b : Builder) :
    (fs.foldl Builder.hide b).availability.get? f =
      if f ∈ fs then some "UNKNOWN" else b.availability.get? f := by
  induction fs generalizing b with
  | nil => simp
  | cons g fs ih =>
    rw [List.foldl_cons, ih, get?_availability_hide]
    by_cases hg : f = g <;> by_cases hfs : f ∈ fs <;> simp [hg, hfs]

end Builder

/-! ## What is written -/

section Outcomes

variable (rt : Runtime) (n : ZeekRecord) (zeek st reason : String)

@[simp] theorem known_str_proper (s : PyStr) : (Outcome.known (.str s)).Proper := rfl

@[simp] theorem count_proper (maximum : Int) : (count n zeek maximum st reason).Proper := by
  unfold count
  split
  · trivial
  · split <;> trivial
  · trivial

@[simp] theorem seconds_proper : (seconds n zeek st reason).Proper := by
  unfold seconds
  split
  · trivial
  · split
    · split <;> trivial
    · trivial

@[simp] theorem boolean_proper : (boolean n zeek st reason).Proper := by
  unfold boolean
  split <;> trivial

@[simp] theorem text_proper (pattern : PyStr → Bool) (maxLen : Nat) :
    (text n zeek pattern maxLen st reason).Proper := by
  unfold text
  split
  · trivial
  · split <;> trivial
  · trivial

@[simp] theorem service_proper : (service rt n).Proper := by
  have hnamed : ∀ s, (if SERVICE s then Outcome.known (.str s) else .outOfContract).Proper := by
    intro s
    split <;> trivial
  unfold service
  split
  · trivial
  · exact hnamed _
  · exact hnamed _
  · trivial

theorem connState_proper {o : Outcome} (h : connState n = .ok o) : o.Proper := by
  unfold connState at h
  split at h
  · cases h
    trivial
  · cases h
  · cases h
  · cases h
    split <;> trivial
  · cases h
    trivial

/-- A counter has the integer of the record, when that is in range. -/
theorem count_known {maximum v : Int} : count n zeek maximum st reason = .known (.int v) ↔
    n.get zeek = .int v ∧ 0 ≤ v ∧ v ≤ maximum := by
  unfold count
  split
  · rename_i h
    simp [h]
  · rename_i w h
    by_cases hw : 0 ≤ w ∧ w ≤ maximum
    · rw [if_pos hw, h]
      constructor
      · intro e
        cases e
        exact ⟨rfl, hw⟩
      · rintro ⟨e, -⟩
        cases e
        rfl
    · rw [if_neg hw, h]
      constructor
      · intro e
        cases e
      · rintro ⟨e, hv⟩
        cases e
        exact absurd hv hw
  · rename_i h
    constructor
    · intro e
      cases e
    · rintro ⟨e, -⟩
      exact absurd e (h v)

theorem count_json (maximum : Int) : (count n zeek maximum st reason).json = .null ∨
    ∃ v, count n zeek maximum st reason = .known (.int v) := by
  unfold count
  split
  · exact .inl rfl
  · split
    · exact .inr ⟨_, rfl⟩
    · exact .inl rfl
  · exact .inl rfl

end Outcomes

/-- The counters of a `conn`, or of a `flow_update`. -/
def counters (terminal : Bool) : List String :=
  COUNTERS ++ if terminal then ["missed_bytes"] else []

theorem counters_subset {terminal : Bool} {f : String} (hf : f ∈ counters terminal) :
    f ∈ COUNTERS ++ ["missed_bytes"] := by
  cases terminal with
  | true => exact hf
  | false => exact List.mem_append_left _ (by simpa [counters] using hf)

def connFields (terminal : Bool) : List String :=
  ["uid", "src_ip", "src_port", "dst_ip", "dst_port", "proto", "service", "duration_s"] ++
    COUNTERS ++ ["history"] ++
    if terminal then ["missed_bytes", "conn_state", "local_orig", "local_resp"] else []

theorem connFields_nodup (terminal : Bool) : (connFields terminal).Nodup := by
  cases terminal <;> decide

/-- What is written of a connection before a direction is hidden. -/
structure ConnWrites (n : ZeekRecord) (terminal : Bool) (ws : Writes) : Prop where
  names : ws.map (·.1) = connFields terminal
  proper : ∀ w ∈ ws, w.2.Proper
  counter : ∀ f ∈ counters terminal,
    ws.lookup f = some (count n f MAX_SAFE_INT "MISSING" "zeek_field_absent")

theorem connLike_ok {rt : Runtime} {coverage : String} {n : ZeekRecord} {terminal : Bool}
    {uid : PyStr} {b : Builder} (h : connLike rt coverage n terminal = .ok (uid, b)) :
    ∃ ws, ConnWrites n terminal ws ∧
      b = (hidden coverage).foldl Builder.hide (Builder.empty.puts ws) := by
  obtain ⟨⟨uid', ends⟩, hends, h⟩ := Attempt.bind_eq_ok.1 h
  obtain ⟨last, hlast, h⟩ := Attempt.bind_eq_ok.1 h
  obtain ⟨rfl, rfl⟩ := Prod.mk.inj (Except.ok.inj h)
  obtain ⟨u, -, hends⟩ := Attempt.bind_eq_ok.1 hends
  obtain ⟨src, -, hends⟩ := Attempt.bind_eq_ok.1 hends
  obtain ⟨dst, -, hends⟩ := Attempt.bind_eq_ok.1 hends
  obtain ⟨rfl, rfl⟩ := Prod.mk.inj (Except.ok.inj hends)
  refine ⟨_, ?_, rfl⟩
  cases terminal with
  | true =>
    obtain ⟨state, hstate, hlast⟩ := Attempt.bind_eq_ok.1 hlast
    cases hlast
    refine ⟨rfl, ?_, ?_⟩
    · simp [COUNTERS, port, connState_proper n hstate]
    · simp [counters, COUNTERS, List.lookup_cons]
  | false =>
    cases hlast
    refine ⟨rfl, ?_, ?_⟩
    · simp [COUNTERS, port]
    · simp [counters, COUNTERS, List.lookup_cons]

/-! ## Faithful telemetry -/

/-- The coverage observes the direction that a counter is about; `missed_bytes` is about both. -/
def observes (coverage f : String) : Bool :=
  if f ∈ ["orig_bytes", "orig_pkts", "orig_ip_bytes"] then coverage ≠ "responder_only"
  else if f ∈ ["resp_bytes", "resp_pkts", "resp_ip_bytes"] then coverage ≠ "originator_only"
  else true

theorem mem_hidden {coverage f : String} {terminal : Bool} (hf : f ∈ counters terminal) :
    f ∈ hidden coverage ↔ observes coverage f = false := by
  have hall : ∀ g ∈ COUNTERS ++ ["missed_bytes"],
      (g ∈ hidden "originator_only" ↔ observes "originator_only" g = false) ∧
      (g ∈ hidden "responder_only" ↔ observes "responder_only" g = false) := by decide
  have hg := hall f (counters_subset hf)
  by_cases ho : coverage = "originator_only"
  · exact ho ▸ hg.1
  by_cases hr : coverage = "responder_only"
  · exact hr ▸ hg.2
  rw [hidden, if_neg ho, if_neg hr]
  simp [observes, ho, hr]

/-- How the three maps follow from the Zeek record. -/
structure Faithful (coverage : String) (terminal : Bool) (n : ZeekRecord) (b : Builder) : Prop where
  consistent : b.Consistent
  counter : ∀ f ∈ counters terminal, b.payload.get? f = some
    (if f ∈ hidden coverage then .null
      else (count n f MAX_SAFE_INT "MISSING" "zeek_field_absent").json)
  hidden : ∀ f ∈ hidden coverage, b.availability.get? f = some "UNKNOWN"

theorem connLike_payload {rt : Runtime} {coverage : String} {n : ZeekRecord} {terminal : Bool}
    {uid : PyStr} {b : Builder} (h : connLike rt coverage n terminal = .ok (uid, b)) :
    Faithful coverage terminal n b ∧
      ∀ f, f ∉ connFields terminal → f ∉ hidden coverage → b.payload.get? f = none := by
  obtain ⟨ws, hws, rfl⟩ := connLike_ok h
  have hnodup : (ws.map (·.1)).Nodup := hws.names ▸ connFields_nodup terminal
  refine ⟨⟨?_, ?_, ?_⟩, ?_⟩
  · exact (Builder.consistent_empty.puts hnodup (fun _ _ => rfl) hws.proper).hides _
  · intro f hf
    rw [Builder.get?_payload_hides, Builder.get?_payload_puts hnodup, hws.counter f hf]
    split <;> rfl
  · intro f hf
    rw [Builder.get?_availability_hides, if_pos hf]
  · intro f hf hh
    rw [Builder.get?_payload_hides, if_neg hh, Builder.get?_payload_puts hnodup,
      Builder.lookup_eq_none (hws.names ▸ hf)]
    rfl

theorem hidden_counters {coverage f : String} (hf : f ∈ hidden coverage) : f ∈ COUNTERS := by
  unfold hidden at hf
  split at hf
  · revert f
    decide
  · split at hf
    · revert f
      decide
    · cases hf

/-- The fields of a snapshot are written last and are not counters. -/
theorem Faithful.snapshot {coverage : String} {n : ZeekRecord} {b : Builder} {ws : Writes}
    (h : Faithful coverage false n b)
    (hfresh : ∀ f, f ∉ connFields false → f ∉ Sender.hidden coverage → b.payload.get? f = none)
    (hws : Sender.snapshot n = .ok ws) : Faithful coverage false n (b.puts ws) := by
  obtain ⟨seq, -, hws⟩ := Attempt.bind_eq_ok.1 hws
  obtain ⟨interval, -, hws⟩ := Attempt.bind_eq_ok.1 hws
  cases hws
  have hnew : ∀ f ∈ ["snapshot_seq", "snapshot_interval_s"], b.payload.get? f = none := by
    intro f hf
    have hconn : f ∉ connFields false ∧ f ∉ COUNTERS := by
      revert f
      decide
    exact hfresh f hconn.1 fun hh => hconn.2 (hidden_counters hh)
  have hne : ∀ f ∈ COUNTERS, f ∉ ["snapshot_seq", "snapshot_interval_s"] := by decide
  have hnodup : (List.map (·.1) [("snapshot_seq", Outcome.known (.int seq)),
      ("snapshot_interval_s", Outcome.known (.float interval))]).Nodup :=
    show (["snapshot_seq", "snapshot_interval_s"]).Nodup by decide
  constructor
  · refine h.consistent.puts hnodup ?_ ?_
    · simpa using hnew
    · simp [Outcome.Proper, Json.isNull]
  · intro f hf
    rw [Builder.get?_payload_puts hnodup,
      Builder.lookup_eq_none (hne f (by simpa [counters] using hf))]
    exact h.counter f hf
  -- Known values leave the states alone.
  · exact h.hidden

/-- **What a record of a connection is normalized to.** -/
theorem normalize_faithful {rt : Runtime} {coverage logType : String} {line : PyStr}
    {r : Normalized} (hlog : logType = "conn" ∨ logType = "flow_update")
    (h : normalize rt coverage logType line = .ok r) : ∃ n, parse rt line = .ok n ∧
      Faithful coverage (decide (logType = "conn")) n ⟨r.payload, r.availability, r.reasons⟩ := by
  obtain ⟨-, -, h⟩ := Attempt.bind_eq_ok.1 h
  obtain ⟨n, hn, h⟩ := Attempt.bind_eq_ok.1 h
  obtain ⟨ts, -, h⟩ := Attempt.bind_eq_ok.1 h
  obtain ⟨⟨uid, b, emit⟩, hb, h⟩ := Attempt.bind_eq_ok.1 h
  cases h
  refine ⟨n, hn, ?_⟩
  rcases hlog with rfl | rfl
  · rw [payloadOf, if_pos rfl] at hb
    obtain ⟨⟨uid', b'⟩, hconn, hb⟩ := Attempt.bind_eq_ok.1 hb
    obtain ⟨emit', -, hb⟩ := Attempt.bind_eq_ok.1 hb
    cases hb
    exact (connLike_payload hconn).1
  · rw [payloadOf, if_neg (by decide), if_pos rfl] at hb
    obtain ⟨⟨uid', b'⟩, hconn, hb⟩ := Attempt.bind_eq_ok.1 hb
    obtain ⟨ws, hws, hb⟩ := Attempt.bind_eq_ok.1 hb
    cases hb
    obtain ⟨hfaithful, hfresh⟩ := connLike_payload hconn
    exact hfaithful.snapshot hfresh hws

/-- **Faithful telemetry.**  A counter of an accepted `conn` or `flow_update` has a value exactly
when the Zeek field is an integer in range and its direction is observed, and then that value; a field is
null exactly when it has a state, and one; only fields with a state have a reason. -/
theorem telemetry_faithful {rt : Runtime} {coverage logType : String} {line : PyStr}
    {r : Normalized} (hlog : logType = "conn" ∨ logType = "flow_update")
    (h : normalize rt coverage logType line = .ok r) :
    ∃ n, parse rt line = .ok n ∧
      (∀ f ∈ counters (logType = "conn"),
        (r.payload.get? f = some .null ∨ ∃ v, r.payload.get? f = some (.int v)) ∧
        (∀ v, r.payload.get? f = some (.int v) ↔
          n.get f = .int v ∧ 0 ≤ v ∧ v ≤ MAX_SAFE_INT ∧ observes coverage f) ∧
        (observes coverage f = false →
          r.payload.get? f = some .null ∧ r.availability.get? f = some "UNKNOWN")) ∧
      (∀ f, r.availability.keys.count f = if (r.payload.get? f).any Json.isNull then 1 else 0) ∧
      (∀ f, (r.reasons.get? f).isSome → (r.availability.get? f).isSome) := by
  obtain ⟨n, hn, hf⟩ := normalize_faithful hlog h
  refine ⟨n, hn, ?_, ?_, hf.consistent.reason⟩
  · intro f hmem
    have hhidden : f ∈ hidden coverage ↔ _ := mem_hidden hmem
    have hpayload := hf.counter f hmem
    dsimp only at hpayload
    cases hobs : observes coverage f with
    | false =>
      rw [if_pos (hhidden.2 hobs)] at hpayload
      refine ⟨.inl hpayload, ?_, fun _ => ⟨hpayload, hf.hidden f (hhidden.2 hobs)⟩⟩
      intro v
      rw [hpayload]
      simp
    | true =>
      rw [if_neg (by rw [hhidden, hobs]; decide)] at hpayload
      refine ⟨?_, ?_, fun e => nomatch e⟩
      · rw [hpayload]
        rcases count_json n f "MISSING" "zeek_field_absent" MAX_SAFE_INT with hnull | ⟨v, hv⟩
        · exact .inl (by rw [hnull])
        · exact .inr ⟨v, by rw [hv]; rfl⟩
      · intro v
        rw [hpayload, Option.some.injEq, Outcome.json_int, count_known]
        simp
  · intro f
    have hnodup : r.availability.keys.Nodup := r.availability.nodup
    rw [hnodup.count]
    have hstate := hf.consistent.state f
    rw [ODict.get?_isSome] at hstate
    simp only [hstate]

/-- A connection of which only the originator is seen. -/
def oneSided : PyStr := pyStr ("\x7b\"ts\":1.5,\"uid\":\"C1\",\"id.orig_h\":\"10.0.0.1\"," ++
  "\"id.resp_h\":\"10.0.0.2\",\"orig_bytes\":7,\"resp_bytes\":0\x7d")

/-- Its zero is no zero in the payload. -/
theorem telemetry_faithful_hidden :
    ∃ r, normalize sampleRuntime "originator_only" "conn" oneSided = .ok r ∧
      r.payload.get? "resp_bytes" = some .null ∧
      r.availability.get? "resp_bytes" = some "UNKNOWN" := by
  have hok : (normalize sampleRuntime "originator_only" "conn" oneSided).isOk = true := by
    decide +kernel
  cases hr : normalize sampleRuntime "originator_only" "conn" oneSided with
  | error e =>
    rw [hr] at hok
    cases hok
  | ok r =>
    obtain ⟨n, -, hcounter, -⟩ := telemetry_faithful (.inl rfl) hr
    exact ⟨r, rfl, (hcounter "resp_bytes" (by decide)).2.2 (by decide)⟩

end OTS.Sender
