import OTSecurity.Receiver.Delivery

/-!
# A verdict for every record

An event record is suppressed, quarantined, dropped for want of space or accepted, unless its
handler raises.

* `Framed` — what the frames of a record guarantee of it.
* `Received`, `Conforms` — the object that a record holds, and that it passes every check.
* `Answered` — the condition under which the handler returns.

Principal results: `judge_valid_iff` — what is accepted passes every check;
`every_record_answered_iff` — every record is accounted for exactly on old sequences and under
`Answered`; `record_unanswered` — a record whose version is a list is neither marked nor quarantined.
-/

namespace OTS.Receiver

/-! ## What a record holds -/

/-- What the frames of a record guarantee. -/
structure Framed (c : Link.Complete) : Prop where
  sensorId : Link.SensorIdOk c.sensorId
  bootId : IsUuid c.bootId
  sequence : c.sequence < 2 ^ 64
  record : c.record.length ≤ Link.MAX_RECORD_BYTES

/-- The object that a record holds, with the time of receipt. -/
def Received (rt : Runtime) (c : Link.Complete) (ev : Json) : Prop :=
  ∃ ms, parseRecord rt c.record = some (.obj ms) ∧ stamped (.obj ms) c = some ev

/-- `original_record` has the hash that the event names, when it is there. -/
def HashMatches (ev : Json) : Prop :=
  ∀ orig, ev.field "original_record" = .str orig → ∀ bytes, encodeUtf8 orig = some bytes →
    pyStr (sha256Hex bytes) = (ev.field "original_record_sha256").text

def IdMatches (ev : Json) (c : Link.Complete) : Prop :=
  pyStr (eventId c.sensorId c.bootId c.sequence
    (toText (ev.field "original_record_sha256").text)) = (ev.field "event_id").text

/-- The object passes the contract and names the identity of its frames. -/
structure Checked (rt : Runtime) (c : Link.Complete) (ev : Json) : Prop where
  received : Received rt c ev
  valid : validate rt eventContract ev = some []
  identity : identityMatches ev c = true

/-- The object passes every check. -/
structure Conforms (rt : Runtime) (c : Link.Complete) (ev : Json) : Prop extends Checked rt c ev where
  original : Encodable (ev.field "original_record").text
  hash : HashMatches ev
  id : IdMatches ev c

variable {rt : Runtime} {c : Link.Complete} {ev : Json}

theorem Received.unique {ev' : Json} (h : Received rt c ev) (h' : Received rt c ev') : ev = ev' := by
  obtain ⟨ms, hp, hs⟩ := h
  obtain ⟨ms', hp', hs'⟩ := h'
  obtain rfl : ms = ms' := by simpa using hp.symm.trans hp'
  exact Option.some.inj (hs.symm.trans hs')

theorem Received.receipt (h : Received rt c ev) : (formatUs c.receivedAtUs).isSome := by
  obtain ⟨ms, -, hs⟩ := h
  obtain ⟨t, ht, -⟩ := Option.map_eq_some_iff.1 hs
  exact Option.isSome_iff_exists.2 ⟨t, ht⟩

/-- The details of the checks that follow the contract. -/
def identityDetails : List PyStr :=
  [pyStr "envelope identity does not match link frame identity",
    pyStr "original_record_sha256 does not match original_record",
    pyStr "event_id is not the deterministic id for sensor/boot/sequence/hash"]

/-- What the checks after the contract say. -/
inductive CheckSpec (ev : Json) (c : Link.Complete) : Judgement → Prop
  | valid (hi : identityMatches ev c = true) (ho : Encodable (ev.field "original_record").text)
    (hh : HashMatches ev) (hid : IdMatches ev c) : CheckSpec ev c (.valid ev)
  | raises (hi : identityMatches ev c = true)
    (ho : ¬ Encodable (ev.field "original_record").text) : CheckSpec ev c .raises
  | rejected {detail : PyStr} (hd : detail ∈ identityDetails)
    (hno : ¬ (identityMatches ev c = true ∧ HashMatches ev ∧ IdMatches ev c))
    (ho : identityMatches ev c = true → Encodable (ev.field "original_record").text) :
    CheckSpec ev c (.rejected "schema_violation" detail)

theorem checkIdentity_spec (ev : Json) (c : Link.Complete) : CheckSpec ev c (checkIdentity ev c) := by
  have hlast : identityMatches ev c = true → Encodable (ev.field "original_record").text →
      HashMatches ev → CheckSpec ev c
        (if pyStr (eventId c.sensorId c.bootId c.sequence
            (toText (ev.field "original_record_sha256").text)) ≠ (ev.field "event_id").text then
          .rejected "schema_violation"
            (pyStr "event_id is not the deterministic id for sensor/boot/sequence/hash")
        else .valid ev) := by
    intro hi ho hh
    split
    · rename_i hid
      exact .rejected (by simp [identityDetails]) (fun h => hid h.2.2) (fun _ => ho)
    · rename_i hid
      exact .valid hi ho hh (not_not.1 hid)
  unfold checkIdentity
  simp only
  split
  · rename_i hi
    exact .rejected (by simp [identityDetails]) (fun h => hi h.1) (fun h => absurd h hi)
  · rename_i hi
    rw [not_not] at hi
    split
    · rename_i orig horig
      have htext : (ev.field "original_record").text = orig := by rw [horig]; rfl
      split
      · rename_i hnone
        exact .raises hi (htext ▸ encodeUtf8_eq_none.1 hnone)
      · rename_i bytes hbytes
        have ho : Encodable (ev.field "original_record").text :=
          htext ▸ encodeUtf8_isSome.1 (hbytes ▸ rfl)
        split
        · rename_i hsha
          exact .rejected (by simp [identityDetails]) (fun h => hsha (h.2.1 orig horig bytes hbytes))
            (fun _ => ho)
        · rename_i hsha
          refine hlast hi ho ?_
          intro orig' horig' bytes' hbytes'
          obtain rfl : orig = orig' := by simpa using horig.symm.trans horig'
          obtain rfl : bytes = bytes' := Option.some.inj (hbytes.symm.trans hbytes')
          exact not_not.1 hsha
    · rename_i hnotStr
      refine hlast hi ?_ (fun orig horig => absurd horig (hnotStr orig))
      cases hfield : ev.field "original_record" with
      | str s => exact absurd hfield (hnotStr s)
      | _ => exact encodable_nil

/-- What validation says, case by case. -/
inductive JudgeSpec (rt : Runtime) (c : Link.Complete) : Judgement → Prop
  | noObject {detail : PyStr} (hp : ∀ ms, parseRecord rt c.record ≠ some (.obj ms))
    (hd : Encodable detail) : JudgeSpec rt c (.rejected "json_parse_error" detail)
  | noTime {ms : List (PyStr × Json)} (hp : parseRecord rt c.record = some (.obj ms))
    (hs : formatUs c.receivedAtUs = none) : JudgeSpec rt c .raises
  | noVersion {ev : Json} (hr : Received rt c ev) (hv : validate rt eventContract ev = none) :
    JudgeSpec rt c .raises
  | errors {ev : Json} {e : ContractError} {errs : List ContractError} (hr : Received rt c ev)
    (hv : validate rt eventContract ev = some (e :: errs)) :
    JudgeSpec rt c (.rejected (reasonOf e.1 "availability_violation") (errorDetail (e :: errs)))
  | checked {ev : Json} {j : Judgement} (hr : Received rt c ev)
    (hv : validate rt eventContract ev = some []) (hj : CheckSpec ev c j) : JudgeSpec rt c j

theorem judge_spec (rt : Runtime) (c : Link.Complete) : JudgeSpec rt c (judge rt c) := by
  unfold judge
  split
  · rename_i hp
    exact .noObject (fun ms h => nomatch hp.symm.trans h) (pyStr_encodable _)
  · rename_i ev hp
    unfold validateEvent
    split
    · rename_i ms
      split
      · rename_i hs
        exact .noTime hp (by simpa [stamped] using hs)
      · rename_i ev hs
        have hr : Received rt c ev := ⟨ms, hp, hs⟩
        split
        · rename_i hv
          exact .noVersion hr hv
        · rename_i hv
          exact .checked hr hv (checkIdentity_spec ev c)
        · rename_i e errs hv
          exact .errors hr hv
    · rename_i hobj
      exact .noObject (fun ms h => hobj ms (Option.some.inj (hp.symm.trans h))) (pyStr_encodable _)

/-- **A record is accepted by validation exactly when its object passes every check.** -/
theorem judge_valid_iff : judge rt c = .valid ev ↔ Conforms rt c ev := by
  have hspec := judge_spec rt c
  constructor
  · intro h
    rw [h] at hspec
    cases hspec with
    | checked hr hv hj =>
      cases hj with
      | valid hi ho hh hid => exact ⟨⟨hr, hv, hi⟩, ho, hh, hid⟩
  · rintro ⟨⟨hr, hv, hi⟩, ho, hh, hid⟩
    obtain ⟨ms, hp, hs⟩ := hr
    generalize judge rt c = j at hspec
    cases hspec with
    | noObject hno => exact absurd hp (hno ms)
    | noTime _ hnone => simp [stamped, hnone] at hs
    | noVersion hr' hv' =>
      obtain rfl := hr'.unique ⟨ms, hp, hs⟩
      exact nomatch hv'.symm.trans hv
    | errors hr' hv' =>
      obtain rfl := hr'.unique ⟨ms, hp, hs⟩
      exact nomatch hv'.symm.trans hv
    | checked hr' hv' hj =>
      obtain rfl := hr'.unique ⟨ms, hp, hs⟩
      cases hj with
      | valid => rfl
      | raises _ hno => exact absurd ho hno
      | rejected _ hno => exact absurd ⟨hi, hh, hid⟩ hno

/-! ## Quarantine -/

theorem isUuid_length {s : String} (h : IsUuid s) : s.length = 36 := by
  obtain ⟨b, hb, rfl⟩ := h
  rw [← String.length_toList, uuidStr_length hb]

theorem str_encodable {s : PyStr} : Encodable ((Json.str s).dumps false) ↔ Encodable s := by
  rw [Json.dumps]
  exact Json.dumpString_encodable

theorem str_length_le {s : PyStr} {n : Nat} (h : s.length ≤ n) :
    ((Json.str s).dumps false).length ≤ 6 * n + 2 := by
  have := Json.dumpString_length_le s
  rw [Json.dumps]
  omega

theorem int_length_le {n : Nat} (h : n < 10 ^ 20) : ((Json.int n).dumps false).length ≤ 20 := by
  rw [Json.dumps, intText_natCast]
  exact natText_length_le (by decide) h

/-- An excerpt is text of the bytes, or left out. -/
theorem excerpt_cases (reason : String) (raw : Option Bytes) {v : Json} (hv : v = match raw with
    | some bytes =>
      if reason = "frame_hmac_invalid" ∨ reason = "frame_malformed" then Json.null
      else .str ((decodeReplace bytes).take 2048)
    | none => .null) : v = .null ∨ ∃ bytes, v = .str ((decodeReplace bytes).take 2048) := by
  subst hv
  cases raw with
  | none => exact .inl rfl
  | some bytes =>
    simp only
    split
    · exact .inl rfl
    · exact .inr ⟨bytes, rfl⟩

theorem optStr_encodable (s : Option String) : Encodable ((optStr s).dumps false) := by
  cases s with
  | none => exact pyStr_encodable "null"
  | some s => exact str_encodable.2 (pyStr_encodable s)

/-- Of the texts of a record of quarantine, only the detail may be beyond UTF-8. -/
theorem invalidRecord_encodable {wallUs : Int} {reason id : String} {detail : PyStr}
    {sensorId bootId : Option String} {seq : Option Nat} {raw : Option Bytes} {rec : Json}
    (h : invalidRecord wallUs reason detail sensorId bootId seq raw = some (id, rec)) :
    Encodable (rec.dumps false) ↔ Encodable (detail.take 512) := by
  unfold invalidRecord at h
  obtain ⟨t, ht, hrec⟩ := Option.map_eq_some_iff.1 h
  obtain ⟨rfl, rfl⟩ := Prod.mk.inj hrec
  obtain ⟨htext, -⟩ := formatUs_text ht
  have hnull : Encodable (Json.null.dumps false) := pyStr_encodable "null"
  have hint : ∀ n : Int, Encodable ((Json.int n).dumps false) := fun n => by
    rw [Json.dumps]
    exact intText_encodable n
  have hseq : Encodable ((seq.elim Json.null fun n => .int n).dumps false) := by
    cases seq with
    | none => exact hnull
    | some n => exact hint n
  have hexcerpt : ∀ v : Json, v = .null ∨ (∃ bytes, v = .str ((decodeReplace bytes).take 2048)) →
      Encodable (v.dumps false) := by
    rintro v (rfl | ⟨bytes, rfl⟩)
    · exact hnull
    · exact str_encodable.2 ((decodeReplace_encodable _).take _)
  rw [Json.dumps_obj_encodable]
  simp only [List.forall_mem_cons, List.not_mem_nil, false_imp_iff, implies_true, pyStr_encodable,
    str_encodable, htext, hint, hseq, optStr_encodable, true_and, and_true]
  exact and_iff_left (hexcerpt _ (excerpt_cases reason raw rfl))

/-- When a record of quarantine can be built. -/
theorem invalidEntry_isSome {wallUs : Int} {reason : String} {detail : PyStr}
    {sensorId bootId : Option String} {seq : Option Nat} {raw : Option Bytes} :
    (invalidEntry wallUs reason detail sensorId bootId seq raw).isSome ↔
      (formatUs wallUs).isSome ∧ Encodable (detail.take 512) := by
  unfold invalidEntry
  cases hrec : invalidRecord wallUs reason detail sensorId bootId seq raw with
  | none =>
    have ht : formatUs wallUs = none := by simpa [invalidRecord] using hrec
    simp [ht]
  | some p =>
    obtain ⟨id, rec⟩ := p
    have ht : (formatUs wallUs).isSome := by
      unfold invalidRecord at hrec
      obtain ⟨t, ht, -⟩ := Option.map_eq_some_iff.1 hrec
      exact Option.isSome_iff_exists.2 ⟨t, ht⟩
    rw [← invalidRecord_encodable hrec, ← Json.dumpBytes_isSome, and_iff_right ht]
    cases hv : rec.dumpBytes <;> simp [hv]

/-- What quarantine is told of a record: its stream, its number, and its bytes unless they are gone. -/
structure Quoted (bootId : String) (sequence : Nat) (raw : Option Bytes) : Prop where
  bootId : IsUuid bootId
  sequence : sequence < 2 ^ 64
  raw : ∀ bytes ∈ raw, bytes.length ≤ Link.MAX_RECORD_BYTES

theorem Framed.quoted (hc : Framed c) : Quoted c.bootId c.sequence c.record :=
  ⟨hc.bootId, hc.sequence, fun _ hb => Option.some.inj hb ▸ hc.record⟩

section Quarantine

variable {sensorId bootId : String} {seq : Nat} {raw : Option Bytes}

/-- The record of quarantine: which of its texts UTF-8 may not hold, and how long it is. -/
theorem invalidRecord_dumps (hc : Quoted bootId seq raw) {wallUs : Int} {reason id : String}
    {detail : PyStr} {rec : Json} (hreason : reason.length ≤ 64)
    (h : invalidRecord wallUs reason detail sensorId bootId seq raw = some (id, rec)) :
    IsUuid id ∧ (Encodable (rec.dumps false) ↔ Encodable (detail.take 512)) ∧
      (rec.dumps false).length ≤ 100000 := by
  have hdetail := invalidRecord_encodable h
  unfold invalidRecord at h
  simp only [Option.map_some, Option.elim_some] at h
  obtain ⟨t, ht, hrec⟩ := Option.map_eq_some_iff.1 h
  obtain ⟨htext, htlen⟩ := formatUs_text ht
  have hnull : (Json.null.dumps false).length ≤ 6 * 2048 + 2 := by decide
  have hE : ∀ v : Json, v = .null ∨ (∃ bytes, v = .str ((decodeReplace bytes).take 2048)) →
      (v.dumps false).length ≤ 6 * 2048 + 2 := by
    rintro v (rfl | ⟨bytes, rfl⟩)
    · exact hnull
    · exact str_length_le (by rw [List.length_take]; omega)
  have hS : ((optStr (raw.map sha256Hex)).dumps false).length ≤ 6 * 2048 + 2 := by
    cases raw with
    | none => exact hnull
    | some bytes =>
      apply str_length_le
      rw [pyStr_length, sha256Hex, String.length_ofList, hexText_length]
      have := sha256_length bytes
      omega
  obtain ⟨rfl, rfl⟩ := Prod.mk.inj hrec
  have hid := uuid5_isUuid (NAMESPACES .invalid) (joinName ["receiver", reason,
    raw.map sha256Hex, some sensorId, some bootId, some (toString (seq : Int))])
  refine ⟨hid, hdetail, ?_⟩
  refine le_trans (Json.dumps_obj_length_le _) ?_
  have hmember : ∀ (k : String) {v : Json} {n : Nat}, k.length ≤ 25 →
      (v.dumps false).length ≤ n →
      (Json.dumpString false (pyStr k)).length + 2 + (v.dumps false).length ≤ n + 160 := by
    intro k v n hk hv
    have := Json.dumpString_length_le (pyStr k)
    rw [pyStr_length] at this
    omega
  have hsensor : (String.ofList (sensorId.toList.take 63)).length ≤ 63 := by
    rw [String.length_ofList, List.length_take]
    omega
  have hboot := isUuid_length hc.bootId
  have hidlen := isUuid_length hid
  have hsize : (raw.elim 0 fun bytes => (bytes.length : Int)) =
      ((raw.elim 0 List.length : Nat) : Int) ∧ raw.elim 0 List.length ≤ Link.MAX_RECORD_BYTES := by
    cases raw with
    | none => exact ⟨rfl, Nat.zero_le _⟩
    | some bytes => exact ⟨rfl, hc.raw bytes rfl⟩
  have hseq := hc.sequence
  have htexts : ∀ (s : String) {n : Nat}, s.length ≤ n →
      ((Json.str (pyStr s)).dumps false).length ≤ 6 * n + 2 := fun s n hs =>
    str_length_le (by rwa [pyStr_length])
  have m1 := hmember "invalid_schema_version" (by decide) (htexts "1.0.0" (n := 5) (by decide))
  have m2 := hmember "invalid_id" (by decide) (htexts _ hidlen.le)
  have m3 := hmember "detected_at" (by decide) (str_length_le htlen)
  have m4 := hmember "stage" (by decide) (htexts "receiver" (n := 8) (by decide))
  have m5 := hmember "reason_code" (by decide) (htexts reason hreason)
  have m6 := hmember "detail" (by decide)
    (str_length_le (s := detail.take 512) (n := 512) (by rw [List.length_take]; omega))
  have m7 := hmember "sensor_id" (by decide) (htexts _ hsensor)
  have m8 := hmember "sensor_boot_id" (by decide) (htexts _ hboot.le)
  have m9 := hmember "sequence" (by decide) (int_length_le (n := seq) (by omega))
  have m10 := hmember "raw_sha256" (by decide) hS
  have m11 := hmember "raw_size_bytes" (by decide)
    (int_length_le (n := raw.elim 0 List.length) (by unfold Link.MAX_RECORD_BYTES at hsize; omega))
  have m12 := hmember "raw_excerpt" (by decide) (hE _ (excerpt_cases reason raw rfl))
  simp only [List.map_cons, List.map_nil, List.sum_cons, List.sum_nil, hsize.1]
  exact Nat.le_trans (Nat.add_le_add_left (Nat.add_le_add m1 (Nat.add_le_add m2 (Nat.add_le_add m3
    (Nat.add_le_add m4 (Nat.add_le_add m5 (Nat.add_le_add m6 (Nat.add_le_add m7
    (Nat.add_le_add m8 (Nat.add_le_add m9 (Nat.add_le_add m10 (Nat.add_le_add m11
    (Nat.add_le_add m12 (Nat.le_refl 0))))))))))))) 2) (by omega)

/-- When the fields of a record fit the spool's format, its text may take the rest of 4 GiB. -/
theorem encodeRec_isSome {r : Rec} {sid boot : Bytes}
    (hsid : encodeAscii (r.sensorId.getD "") = some sid)
    (hboot : (if r.bootId.getD "" = "" then some ZERO_UUID else uuidParse (r.bootId.getD "")) =
      some boot) (hlen : boot.length = 16)
    (hfits : r.topic < 256 ∧ r.key.length < 65536 ∧ sid.length < 256 ∧ Int64 r.sequence ∧
      Int64 r.tsMs) :
    (encodeRec r).isSome ↔ 40 + r.key.length + sid.length + r.value.length < 2 ^ 32 := by
  obtain ⟨h1, h2, h3, h4, h5⟩ := hfits
  have hbody : (bodyBytes r.topic r.key sid boot r.sequence r.tsMs r.value).length =
      40 + r.key.length + sid.length + r.value.length := by
    simp only [bodyBytes, List.length_append, be_length, beSigned_length, hlen]
    omega
  unfold encodeRec encodeBody
  rw [hsid]
  simp only [hboot]
  by_cases hv : r.value.length < 2 ^ 32
  · rw [if_pos ⟨h1, h2, h3, h4, h5, hv⟩]
    simp only [hbody]
    split
    · exact iff_of_true rfl (by assumption)
    · exact iff_of_false (by simp) (by assumption)
  · rw [if_neg (fun h => hv h.2.2.2.2.2)]
    exact iff_of_false (by simp) (by omega)

/-- A rejected record can be written to quarantine when the clock is within the calendar and the
detail can be encoded. -/
theorem invalidEntry_written (hc : Quoted bootId seq raw) {wallUs : Int} {reason : String}
    {detail : PyStr} (hreason : reason.length ≤ 64) :
    (∃ r, invalidEntry wallUs reason detail sensorId bootId seq raw = some r ∧
      (encodeRec r).isSome) ↔ (formatUs wallUs).isSome ∧ Encodable (detail.take 512) := by
  unfold invalidEntry
  cases hrec : invalidRecord wallUs reason detail sensorId bootId seq raw with
  | none =>
    have ht : formatUs wallUs = none := by simpa [invalidRecord] using hrec
    simp [ht]
  | some p =>
    obtain ⟨id, rec⟩ := p
    have ht : (formatUs wallUs).isSome := by
      unfold invalidRecord at hrec
      obtain ⟨t, ht, -⟩ := Option.map_eq_some_iff.1 hrec
      exact Option.isSome_iff_exists.2 ⟨t, ht⟩
    obtain ⟨hid, henc, hlen⟩ := invalidRecord_dumps hc hreason hrec
    rw [← henc, ← Json.dumpBytes_isSome, and_iff_right ht]
    cases hv : rec.dumpBytes with
    | none => simp [hv]
    | some value =>
      simp only [hv, Option.some.injEq, exists_eq_left', Option.isSome_some, iff_true]
      have hvalue := encodeUtf8_length_le hv
      have hkey : ((pyStr id).map UInt8.ofNat).length = 36 := by
        rw [List.length_map, pyStr_length, isUuid_length hid]
      refine (@encodeRec_isSome _ [] ZERO_UUID rfl rfl rfl ?_).2 ?_
      · exact ⟨show TOPIC_INVALID < 256 by decide, by rw [hkey]; decide, by decide,
          show Int64 (-1) by decide, show Int64 0 by decide⟩
      · simp only [hkey, List.length_nil]
        omega

end Quarantine

/-! ## The spooled event -/

/-- The texts of an event that UTF-8 holds. -/
theorem field_encodable (h : Encodable (ev.dumps false)) (k : String) :
    Encodable ((ev.field k).dumps false) := by
  cases hk : ev.get? k with
  | none =>
    rw [Json.field, hk]
    exact pyStr_encodable "null"
  | some w =>
    rw [Json.field, hk]
    cases ev with
    | obj ms =>
      obtain ⟨m, hm, rfl⟩ := Option.map_eq_some_iff.1 (show Json.dictGet ms (pyStr k) = some w from hk)
      exact (Json.dumps_obj_encodable.1 h m (List.mem_of_find?_eq_some hm)).2
    | _ => cases hk

theorem text_encodable {v : Json} (h : Encodable (v.dumps false)) : Encodable v.text := by
  cases v with
  | str s => exact str_encodable.1 h
  | _ => exact encodable_nil

theorem text_length_le {p : Nat → Bool} {lo hi : Nat} {v : Json}
    (h : Schema.orNull (Defs.text p lo hi) v = true) : v.text.length ≤ hi + 1 := by
  rcases Schema.orNull_iff.1 h with h | rfl
  · cases v with
    | str s =>
      simp only [Defs.text, Schema.all_iff, List.forall_mem_cons] at h
      exact Schema.length_of_search_run h.2.1
    | _ => exact Nat.zero_le _
  · exact Nat.zero_le _

/-- The `uid` of an accepted event is short. -/
theorem uid_length_le (h : eventSchema ev = true) :
    ((ev.field "payload").field "uid").text.length ≤ 33 := by
  obtain ⟨p, hp, -, hpayload⟩ := event_payload h
  have hnull : ∀ {v}, Defs.zeekUid v = true → Schema.orNull Defs.zeekUid v = true := fun hv =>
    Schema.orNull_iff.2 (.inl hv)
  have huid : ∃ w, (ev.field "payload").get? "uid" = some w ∧ Schema.orNull Defs.zeekUid w = true := by
    have hfirst : ∀ {ps s}, Schema.record (("uid", s) :: ps) (ev.field "payload") = true →
        ∃ w, (ev.field "payload").get? "uid" = some w ∧ s w = true := fun hr =>
      Schema.record_property hr List.mem_cons_self
    simp only [payloads, List.mem_cons, List.not_mem_nil, or_false] at hp
    rcases hp with rfl | rfl | rfl | rfl | rfl
    · exact (hfirst hpayload).imp fun _ hw => ⟨hw.1, hnull hw.2⟩
    · exact (hfirst hpayload).imp fun _ hw => ⟨hw.1, hnull hw.2⟩
    · exact (hfirst hpayload).imp fun _ hw => ⟨hw.1, hnull hw.2⟩
    · exact (hfirst hpayload).imp fun _ hw => ⟨hw.1, hnull hw.2⟩
    · exact hfirst hpayload
  obtain ⟨w, hw, hs⟩ := huid
  rw [show (ev.field "payload").field "uid" = w by rw [Json.field, hw]; rfl]
  exact text_length_le hs

/-- The key of an accepted event is short. -/
theorem partitionKey_of_valid (hc : Framed c) (h : Conforms rt c ev)
    (henc : Encodable (ev.dumps false)) : ∃ key, partitionKey ev = some key ∧ key.length < 65536 := by
  have hschema := (validate_nil h.valid).1
  have hi : (ev.field "sensor_id").text = pyStr c.sensorId ∧
      (ev.field "sensor_boot_id").text = pyStr c.bootId := by
    have := h.identity
    simp only [identityMatches, decide_eq_true_eq] at this
    exact ⟨this.1, this.2.1⟩
  have hrun : (ev.field "replay_run_id").text.length ≤ 65 := text_length_le
    (event_property hschema (k := "replay_run_id") (List.mem_of_getElem? (i := 5) rfl))
  have huid := uid_length_le hschema
  have hsome : ∀ s : PyStr, Encodable s → s.length ≤ 500 →
      ∃ key, encodeUtf8 s = some key ∧ key.length < 65536 := by
    intro s hs hlen
    obtain ⟨key, hkey⟩ := Option.isSome_iff_exists.1 (encodeUtf8_isSome.2 hs)
    have := encodeUtf8_length_le hkey
    exact ⟨key, hkey, by omega⟩
  unfold partitionKey
  simp only
  split
  · refine hsome _ ?_ ?_
    · have htext := fun k => text_encodable (field_encodable henc k)
      have hu := text_encodable (field_encodable (field_encodable henc "payload") "uid")
      simp only [joinWith, List.intercalate, List.intersperse, List.flatten_cons, List.flatten_nil,
        encodable_append, htext, hu, pyStr_encodable, encodable_nil, and_self]
    · have hsid := hc.sensorId.le
      rw [String.length_toList] at hsid
      have hboot := isUuid_length hc.bootId
      have hbar : (pyStr "|").length = 1 := by decide
      simp only [joinWith, List.intercalate, List.intersperse, List.flatten_cons, List.flatten_nil,
        List.length_append, hi, pyStr_length, List.length_nil, hboot]
      simp only [pyStr_length] at hbar
      omega
  · refine hsome _ ?_ ?_
    · exact text_encodable (field_encodable henc "event_id")
    · have hid : IsUuid (eventId c.sensorId c.bootId c.sequence
          (toText (ev.field "original_record_sha256").text)) := uuid5_isUuid _ _
      rw [← h.id, pyStr_length, isUuid_length hid]
      decide

/-- The text of the event leaves room for the other fields in the 4 GiB of a spooled record. -/
def Fits (ev : Json) (c : Link.Complete) : Prop :=
  ∀ key text, partitionKey ev = some key → ev.dumpBytes = some text →
    40 + key.length + c.sensorId.length + text.length < 2 ^ 32

/-- What the spool needs of an event that passed every check. -/
structure Spoolable (ev : Json) (c : Link.Complete) : Prop where
  time : (parseUs (ev.field "event_time").text).isSome
  duration : ¬ NanDuration ev
  text : Encodable (ev.dumps false)
  fits : Fits ev c

theorem sensorId_encoded (h : Link.SensorIdOk c.sensorId) : ∃ sid,
    encodeAscii c.sensorId = some sid ∧ sid.length = c.sensorId.length ∧ sid.length < 256 := by
  have hlen := h.le
  rw [String.length_toList] at hlen
  refine ⟨_, Link.encodeAscii_ok h, ?_, ?_⟩
  · rw [List.length_map, String.length_toList]
  · rw [List.length_map, String.length_toList]
    omega

theorem sequence_int64 (h : Conforms rt c ev) : Int64 c.sequence := by
  obtain ⟨n, hn, h0, hmax⟩ := @toInt_of_integer 0 9007199254740991 _
    (by exact_mod_cast event_property (validate_nil h.valid).1 (k := "sequence")
          (s := Defs.integer 0 MAX_SAFE) (List.mem_of_getElem? (i := 4) rfl))
  have hseq : Json.eqNat (ev.field "sequence") c.sequence = true := by
    have := h.identity
    simp only [identityMatches, decide_eq_true_eq] at this
    exact this.2.2
  have heq : n = c.sequence := by
    cases hf : ev.field "sequence" with
    | int m =>
      rw [hf] at hn hseq
      obtain rfl : m = n := Option.some.inj hn
      simpa [Json.eqNat] using hseq
    | float x =>
      rw [hf] at hn hseq
      have hx : x.value? = some (c.sequence : Rat) := by simpa [Json.eqNat] using hseq
      simp only [Json.toInt?, hx, Option.map_some, Option.some.injEq] at hn
      rw [if_pos (by positivity)] at hn
      rw [← hn]
      exact_mod_cast Rat.floor_intCast (c.sequence : Int)
    | _ => rw [hf] at hn; cases hn
  exact ⟨by omega, by omega⟩

/-- **An event that passed every check can be spooled** exactly when its time is one of the calendar,
its duration a number and its texts have no lone surrogate. -/
theorem rawRecord_written (hc : Framed c) (h : Conforms rt c ev) :
    (∃ r, rawRecord ev c = some r ∧ (encodeRec r).isSome) ↔ Spoolable ev c := by
  have hschema := (validate_nil h.valid).1
  have hobs := observationMs_isSome hschema
  obtain ⟨sid, hsid, hsidlen, hsidlt⟩ := sensorId_encoded hc.sensorId
  obtain ⟨boot, hbootlen, hboot⟩ := hc.bootId
  have hbootParse : (if c.bootId = "" then some ZERO_UUID else uuidParse c.bootId) = some boot := by
    rw [if_neg, hboot, uuidParse_uuidStr hbootlen]
    intro he
    have := isUuid_length hc.bootId
    rw [he] at this
    cases this
  have hwritten : ∀ key ts text, key.length < 65536 → observationMs ev = some ts →
      ((encodeRec ⟨TOPIC_RAW, key, some c.sensorId, some c.bootId, c.sequence, ts, text⟩).isSome ↔
        40 + key.length + c.sensorId.length + text.length < 2 ^ 32) := by
    intro key ts text hkey hts
    have := encodeRec_isSome (r := ⟨TOPIC_RAW, key, some c.sensorId, some c.bootId, c.sequence, ts,
      text⟩) hsid hbootParse hbootlen ⟨show TOPIC_RAW < 256 by decide, hkey, hsidlt, sequence_int64 h,
        observationMs_bounds hschema hts⟩
    rwa [hsidlen] at this
  unfold rawRecord
  constructor
  · rintro ⟨r, hr, henc⟩
    split at hr
    · rename_i key ts text hkey hts htext
      obtain rfl := Option.some.inj hr
      obtain ⟨htime, hdur⟩ := hobs.1 (hts ▸ rfl)
      have htexts := (Json.dumpBytes_isSome (v := ev)).1 (by rw [htext]; rfl)
      obtain ⟨key', hkey', hlt⟩ := partitionKey_of_valid hc h htexts
      obtain rfl := Option.some.inj (hkey.symm.trans hkey')
      refine ⟨htime, hdur, htexts, ?_⟩
      intro key' text' hkey' htext'
      obtain rfl := Option.some.inj (hkey.symm.trans hkey')
      obtain rfl := Option.some.inj (htext.symm.trans htext')
      exact (hwritten key ts text hlt hts).1 henc
    · cases hr
  · rintro ⟨htime, hdur, htexts, hfits⟩
    obtain ⟨ts, hts⟩ := Option.isSome_iff_exists.1 (hobs.2 ⟨htime, hdur⟩)
    obtain ⟨text, htext⟩ := Option.isSome_iff_exists.1 (Json.dumpBytes_isSome.2 htexts)
    obtain ⟨key, hkey, hlt⟩ := partitionKey_of_valid hc h htexts
    rw [hkey, hts, htext]
    exact ⟨_, rfl, (hwritten key ts text hlt hts).2 (hfits key text hkey htext)⟩

/-! ## The handler -/

variable {core : ReceiverCore} {now : Reading}

/-- The rate limit leaves no room for a record of quarantine. -/
def Limited (core : ReceiverCore) (now : Reading) : Prop := (core.refill now).qTokens < 1

theorem append_isSome (core : ReceiverCore) {r : Rec} : (core.append r).isSome ↔ (encodeRec r).isSome := by
  unfold ReceiverCore.append Spool.append
  cases encodeRec r with
  | none => simp
  | some rec =>
    simp only [Option.isSome_some, iff_true]
    split_ifs <;> rfl

/-- When quarantine returns. -/
theorem quarantine_returns (core : ReceiverCore) (now : Reading) (reason : String) (detail : PyStr)
    (sensorId bootId : Option String) (seq : Option Nat) (raw : Option Bytes) :
    (core.quarantine now reason detail sensorId bootId seq raw).2 = true ↔
      Limited core now ∨ ∃ r, invalidEntry now.wallUs reason detail sensorId bootId seq raw = some r ∧
        (encodeRec r).isSome := by
  unfold ReceiverCore.quarantine Limited
  simp only
  split
  · exact iff_of_true rfl (.inl (by assumption))
  · rename_i hroom
    rw [or_iff_right hroom]
    split
    · rename_i hnone
      simp [hnone]
    · rename_i r hr
      simp only [hr, Option.some.injEq, exists_eq_left']
      rw [← append_isSome { core.refill now with qTokens := (core.refill now).qTokens - 1 }]
      split
      · rename_i happ
        simp [happ]
      · rename_i happ
        simp [happ]

/-- The condition under which the handler of a new sequence returns. -/
structure Answered (rt : Runtime) (core : ReceiverCore) (now : Reading) (c : Link.Complete) :
    Prop where
  receipt : ∀ ms, parseRecord rt c.record = some (.obj ms) → (formatUs c.receivedAtUs).isSome
  version : ∀ ev, Received rt c ev → ∀ w, ev.get? "event_schema_version" = some w → w.Hashable
  original : ∀ ev, Checked rt c ev → Encodable (ev.field "original_record").text
  reported : (¬ ∃ ev, Conforms rt c ev) → ¬ Limited core now → (formatUs now.wallUs).isSome ∧
    ∀ ev errs, Received rt c ev → validate rt eventContract ev = some errs →
      Encodable ((errorDetail errs).take 512)
  spooled : ∀ ev, Conforms rt c ev → Spoolable ev c

/-- What becomes of a new sequence. -/
theorem event_new (hnew : ¬ core.dedup.Old (identity c)) :
    (core.event rt now c).2 ≠ .raised ↔ match judge rt c with
      | .raises => False
      | .rejected reason detail => Limited core now ∨ ∃ r, invalidEntry now.wallUs reason detail
          c.sensorId c.bootId c.sequence c.record = some r ∧ (encodeRec r).isSome
      | .valid ev => ∃ r, rawRecord ev c = some r ∧ (encodeRec r).isSome := by
  unfold ReceiverCore.event
  split
  · rename_i h
    exact absurd (.inl h) hnew
  · rename_i h
    exact absurd (.inr h) hnew
  · cases judge rt c with
    | raises => simp
    | rejected reason detail =>
      have hq := quarantine_returns { core.mark c with
        rejected := core.rejected ++ [identity c] } now reason detail (some c.sensorId) (some c.bootId)
        (some c.sequence) (some c.record)
      have hl : Limited { core.mark c with rejected := core.rejected ++ [identity c] } now ↔
        Limited core now := Iff.rfl
      simp only
      rw [← hl, ← hq]
      split
      · rename_i h
        simp [h]
      · rename_i h
        simp [h]
    | valid ev =>
      simp only
      cases hr : rawRecord ev c with
      | none => simp
      | some r =>
        simp only [Option.some.injEq, exists_eq_left', ← append_isSome core]
        rcases core.append r with _ | ⟨_ | _, _⟩ <;> simp

theorem reasonOf_length_le (code : String) : (reasonOf code "availability_violation").length ≤ 64 := by
  unfold reasonOf
  split_ifs <;> decide

/-- **When a record gets a verdict.**  The handler returns exactly when the sequence is old, or the
record meets the condition. -/
theorem record_answered_iff (hc : Framed c) :
    (core.event rt now c).2 ≠ .raised ↔ core.dedup.Old (identity c) ∨ Answered rt core now c := by
  by_cases hold : core.dedup.Old (identity c)
  · refine iff_of_true ?_ (.inl hold)
    unfold ReceiverCore.event
    split
    · simp
    · simp
    · rename_i h1 h2
      rcases hold with h | h
      · exact absurd h h1
      · exact absurd h h2
  rw [or_iff_right hold, event_new hold]
  have hspec := judge_spec rt c
  have hvalid : ∀ ev, judge rt c = .valid ev ↔ Conforms rt c ev := fun _ => judge_valid_iff
  generalize judge rt c = j at hspec hvalid ⊢
  have hnone : ∀ {reason detail}, j = .rejected reason detail → ¬ ∃ ev, Conforms rt c ev := by
    rintro reason detail rfl ⟨ev, hev⟩
    exact nomatch (hvalid ev).2 hev
  cases hspec with
  | noObject hp hd =>
    have hno := hnone rfl
    have hreceived : ∀ {ev}, ¬ Received rt c ev := fun ⟨ms, hms, _⟩ => hp ms hms
    simp only
    rw [invalidEntry_written hc.quoted (by decide)]
    constructor
    · intro hq
      refine ⟨fun ms hms => absurd hms (hp ms), fun ev hev => absurd hev hreceived,
        fun ev hev => absurd hev.received hreceived, fun _ hl => ?_, fun ev hev => absurd ⟨ev, hev⟩ hno⟩
      exact ⟨(hq.resolve_left hl).1, fun ev _ hev => absurd hev hreceived⟩
    · intro h
      by_cases hl : Limited core now
      · exact .inl hl
      · exact .inr ⟨(h.reported hno hl).1, hd.take 512⟩
  | noTime hp hs =>
    refine iff_of_false id (fun h => ?_)
    have := h.receipt _ hp
    rw [hs] at this
    cases this
  | noVersion hr hv =>
    refine iff_of_false id (fun h => ?_)
    have := (validate_isSome rt eventContract _).2 (h.version _ hr)
    rw [hv] at this
    cases this
  | errors hr hv =>
    rename_i ev e errs
    have hno := hnone rfl
    have hreceipt := hr.receipt
    simp only
    rw [invalidEntry_written hc.quoted (reasonOf_length_le _)]
    constructor
    · intro hq
      refine ⟨fun _ _ => hreceipt, fun ev' hev => ?_, fun ev' hev => ?_, fun _ hl => ?_,
        fun ev' hev => absurd ⟨ev', hev⟩ hno⟩
      · obtain rfl := hr.unique hev
        exact (validate_isSome rt eventContract _).1 (hv ▸ rfl)
      · obtain rfl := hr.unique hev.received
        exact nomatch hv.symm.trans hev.valid
      · obtain ⟨hwall, hdetail⟩ := hq.resolve_left hl
        refine ⟨hwall, fun ev' errs' hev herrs => ?_⟩
        obtain rfl := hr.unique hev
        obtain rfl := Option.some.inj (hv.symm.trans herrs)
        exact hdetail
    · intro h
      by_cases hl : Limited core now
      · exact .inl hl
      · obtain ⟨hwall, hdetail⟩ := h.reported hno hl
        exact .inr ⟨hwall, hdetail _ _ hr hv⟩
  | checked hr hv hj =>
    rename_i ev
    have hreceipt := hr.receipt
    have hversion : ∀ w, ev.get? "event_schema_version" = some w → w.Hashable :=
      (validate_isSome rt eventContract _).1 (hv ▸ rfl)
    cases hj with
    | valid hi ho hh hid =>
      have hconf : Conforms rt c ev := ⟨⟨hr, hv, hi⟩, ho, hh, hid⟩
      simp only
      rw [rawRecord_written hc hconf]
      constructor
      · intro hs
        refine ⟨fun _ _ => hreceipt, fun ev' hev => ?_, fun ev' hev => ?_,
          fun hno => absurd ⟨ev, hconf⟩ hno, fun ev' hev => ?_⟩
        · exact hr.unique hev ▸ hversion
        · exact hr.unique hev.received ▸ ho
        · exact hr.unique hev.received ▸ hs
      · exact fun h => h.spooled ev hconf
    | raises hi ho => exact iff_of_false id (fun h => ho (h.original ev ⟨hr, hv, hi⟩))
    | rejected hd hno ho =>
      rename_i detail
      have hnone' := hnone rfl
      have hdetail : Encodable detail := by
        simp only [identityDetails, List.mem_cons, List.not_mem_nil, or_false] at hd
        rcases hd with rfl | rfl | rfl <;> exact pyStr_encodable _
      simp only
      rw [invalidEntry_written hc.quoted (by decide)]
      constructor
      · intro hq
        refine ⟨fun _ _ => hreceipt, fun ev' hev => ?_, fun ev' hev => ?_, fun _ hl => ?_,
          fun ev' hev => absurd ⟨ev', hev⟩ hnone'⟩
        · exact hr.unique hev ▸ hversion
        · obtain rfl := hr.unique hev.received
          exact ho hev.identity
        · refine ⟨(hq.resolve_left hl).1, fun ev' errs hev herrs => ?_⟩
          obtain rfl := hr.unique hev
          obtain rfl := Option.some.inj (hv.symm.trans herrs)
          exact encodable_nil
      · intro h
        by_cases hl : Limited core now
        · exact .inl hl
        · exact .inr ⟨(h.reported hnone' hl).1, hdetail.take 512⟩

/-- **When every record gets a verdict.**  The handler returns exactly on old sequences and under the
condition, and does what its verdict says; an accepted event has an observation time exactly when its
time is one of the calendar and its duration a number; validation raises exactly on a version that
cannot be hashed. -/
theorem every_record_answered_iff (rt : Runtime) (core : ReceiverCore) (now : Reading)
    (c : Link.Complete) (hc : Framed c) :
    ((core.event rt now c).2 ≠ .raised ↔ core.dedup.Old (identity c) ∨ Answered rt core now c) ∧
    EventSpec (· = identity c) rt core c (core.event rt now c).1 (core.event rt now c).2 ∧
    (∀ ev, validate rt eventContract ev = some [] → ((observationMs ev).isSome ↔
      (parseUs (ev.field "event_time").text).isSome ∧ ¬ NanDuration ev)) ∧
    ∀ v, (validate rt eventContract v).isSome ↔
      ∀ w, v.get? "event_schema_version" = some w → w.Hashable :=
  ⟨record_answered_iff hc, event_spec _ rt now core c,
    fun _ hev => observationMs_isSome (validate_nil hev).1, validate_isSome rt eventContract⟩

theorem sample_framed : Framed (sampleComplete 0) where
  sensorId :=
    show Link.SensorIdOk "ot-sensor-01" from .of_all (by decide) (by decide) (by decide)
  bootId := ⟨_, rfl, (by decide +kernel :
    sampleBoot = uuidStr [0, 0, 0, 0, 0, 0, 0x40, 0, 0x80, 0, 0, 0, 0, 0, 0, 1])⟩
  sequence := by decide
  record := by decide +kernel

/-- The first sample event meets the condition. -/
theorem every_record_answered_sample :
    Answered sampleRuntime (ReceiverSys.init sampleConfig).core (sampleClock 0) (sampleComplete 0) := by
  have hnew : ¬ (ReceiverSys.init sampleConfig).core.dedup.Old (identity (sampleComplete 0)) := by
    rintro (h | h) <;> cases h
  obtain ⟨sys, heq, -⟩ := @event_accepted sampleRuntime _ _ _ (sampleClock 0) hnew
    (sample_size (k := 0) (by decide)) (by decide)
  have hfate : ((ReceiverSys.init sampleConfig).core.event sampleRuntime (sampleClock 0)
      (sampleComplete 0)).2 ≠ .raised := by
    rw [heq]
    simp
  exact ((every_record_answered_iff sampleRuntime _ (sampleClock 0) (sampleComplete 0)
    sample_framed).1.1 hfate).resolve_left hnew

/-- A record that holds an object of which the version is a list. -/
def listVersion : Link.Complete where
  type := Link.TYPE_EVENT
  sensorId := "ot-sensor-01"
  bootId := sampleBoot
  sequence := 0
  record := (pyStr "\x7b\"event_schema_version\":[]\x7d").map UInt8.ofNat
  receivedAtUs := 1788249610000000

/-- **A version that is a list: the handler raises**, and neither marks nor quarantines the record. -/
theorem record_unanswered : ¬ ∀ (hmac : Link.Hmac) (rt : Runtime) (cfg : Config) (s : ReceiverSys),
    (receiver hmac rt cfg).Reach (fun _ _ => True) s → ∀ data nowUs clock,
      (s.core.handleDatagram hmac rt data nowUs clock).2.1 = true := by
  intro hclaim
  have hraised : ((ReceiverSys.init sampleConfig).core.handleDatagram hmacSha256 sampleRuntime
      (sampleDatagram listVersion) 1788249610000000 sampleClock).2.1 = false := by decide +kernel
  have hok := hclaim hmacSha256 sampleRuntime sampleConfig (ReceiverSys.init sampleConfig) .init
    (sampleDatagram listVersion) 1788249610000000 sampleClock
  exact nomatch hok.symm.trans hraised

end OTS.Receiver
