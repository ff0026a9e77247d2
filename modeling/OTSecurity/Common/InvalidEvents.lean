import OTSecurity.Common.Contracts
import OTSecurity.Common.Ids
import OTSecurity.Common.Timestamps
import OTSecurity.Lib.Conforming
import OTSecurity.Lib.Sha256

/-!
# The contract of quarantined records

The schema `invalid-event.v1` of `lib/sih_common/contracts.py`, and the records that are written under it.

* `invalidEventContract` — the contract; `REASONS` — its reason codes.
* `timestamp_conforms_iff`, `uuid_conforms`, `digest_conforms` — the texts that are made for a record.
* `Quarantined` — the fields of a record; `Quarantined.json` — the record.

* `Sound` — a record that is made, passes its contract and can be written.

Principal results: `Quarantined.valid_iff` — when a record passes its contract;
`Quarantined.dumpBytes_isSome` — when it can be written; `Quarantined.sound_iff` — both.
-/

namespace OTS

open Schema Regex

/-! ## The contract -/

/-- The values of `reason_code`. -/
def REASONS : List String :=
  ["frame_malformed", "frame_hmac_invalid", "fragment_timeout", "fragment_overflow", "oversize",
    "json_parse_error", "schema_violation", "unsupported_schema_version", "availability_violation",
    "timestamp_invalid", "field_bound_violation", "unknown_log_type"]

def invalidEventProperties : List (String × Schema) :=
  [("invalid_schema_version", const "1.0.0"), ("invalid_id", Defs.uuid), ("detected_at", Defs.timestamp),
    ("stage", enum [some "receiver", some "flink"]), ("reason_code", enum (REASONS.map some)),
    ("detail", Defs.shortText 512), ("sensor_id", orNull (Defs.shortText 63)),
    ("sensor_boot_id", orNull (Defs.shortText 36)), ("sequence", Defs.countOrNull),
    ("raw_sha256", orNull (Defs.text hexLower 64 64)), ("raw_size_bytes", Defs.integer 0 1073741824),
    ("raw_excerpt", orNull (Defs.shortText 2048))]

/-- `invalid-event.v1.schema.json`. -/
def invalidEventSchema : Schema := record invalidEventProperties

def invalidEventContract : Contract := ⟨"invalid_schema_version", "1.0.0", invalidEventSchema, fun _ => []⟩

/-! ## Texts that conform -/

theorem hexDigit_lower {c : Char} (h : c ∈ hexDigits) : hexLower c.toNat = true := by
  have hall : hexDigits.all (fun c => hexLower c.toNat) = true := by decide
  exact List.all_eq_true.1 hall c h

/-- A group of hexadecimal digits. -/
theorem hexText_group {bs : Bytes} {n : Nat} (hn : bs.length = n) {rs : List Regex} {s rest : PyStr}
    (h : rest ∈ seq rs s) : rest ∈ seq (run hexLower (2 * n) (2 * n) :: rs)
      ((hexText bs).map Char.toNat ++ s) := by
  have hlen : ((hexText bs).map Char.toNat).length = 2 * n := by
    rw [List.length_map, hexText_length, hn]
  refine mem_seq_run ?_ hlen.ge hlen.le h
  intro c hc
  obtain ⟨ch, hch, rfl⟩ := List.mem_map.1 hc
  exact hexDigit_lower (hexText_mem hch)

/-- The text of a UUID conforms. -/
theorem uuid_conforms {s : String} (h : IsUuid s) : Defs.uuid (.str (pyStr s)) = true := by
  obtain ⟨b, hb, rfl⟩ := h
  have hslice : ∀ off len, off + len ≤ 16 → (slice b off len).length = len := by
    intro off len hle
    unfold slice
    rw [List.length_take, List.length_drop]
    omega
  have htext : pyStr (uuidStr b) = (hexText (slice b 0 4)).map Char.toNat ++ (pyStr "-" ++
      ((hexText (slice b 4 2)).map Char.toNat ++ (pyStr "-" ++ ((hexText (slice b 6 2)).map Char.toNat ++
      (pyStr "-" ++ ((hexText (slice b 8 2)).map Char.toNat ++ (pyStr "-" ++
      ((hexText (slice b 10 6)).map Char.toNat ++ [])))))))) := by
    simp [pyStr, uuidStr, uuidChars]
  apply pattern_text
  rw [htext]
  exact hexText_group (hslice 0 4 (by decide)) (mem_seq_lit (hexText_group (hslice 4 2 (by decide))
    (mem_seq_lit (hexText_group (hslice 6 2 (by decide)) (mem_seq_lit
    (hexText_group (hslice 8 2 (by decide)) (mem_seq_lit
    (hexText_group (hslice 10 6 (by decide)) mem_seq_nil))))))))

theorem digit_of_ascii {c : Nat} (h : isAsciiDigit c = true) : digit c = true := by
  simp only [isAsciiDigit, Bool.and_eq_true, decide_eq_true_eq] at h
  simp only [digit, range, Bool.and_eq_true, decide_eq_true_eq]
  show 48 ≤ c ∧ c ≤ 57
  omega

/-- A number of a fixed width. -/
theorem padded_group {n k : Nat} (hn : 1 ≤ n) (hk : k < 10 ^ n) {rs : List Regex} {s rest : PyStr}
    (h : rest ∈ seq rs s) : rest ∈ seq (run digit n n :: rs) (padded n k ++ s) := by
  obtain ⟨hlen, hdigits, -⟩ := padded_digits hn hk
  exact mem_seq_run (fun c hc => digit_of_ascii (hdigits c hc)) hlen.ge hlen.le h

/-- The first microsecond of the year 1000. -/
def EARLIEST_US : Int := -30610224000000000

/-- From the year 1000 on the text of a time conforms. -/
theorem timestamp_conforms {t : Int} {s : PyStr} (ht : EARLIEST_US ≤ t) (h : formatUs t = some s) :
    Defs.timestamp (.str s) = true := by
  obtain ⟨y, m, d, rest, hf⟩ := formatUs_fields h
  have hyear : (natText y).length = 4 := natText_four (hf.year_ge ht) hf.year.2
  have hmonth := hf.month
  have hday := hf.day
  have hdays := daysInMonth_le y m
  have hrest := hf.rest
  have htext : s = natText y ++ (pyStr "-" ++ (padded 2 m ++ (pyStr "-" ++ (padded 2 d ++ (pyStr "T" ++
      (padded 2 (rest / 1000000 / 3600) ++ (pyStr ":" ++ (padded 2 (rest / 1000000 / 60 % 60) ++ (pyStr ":" ++
      (padded 2 (rest / 1000000 % 60) ++ (pyStr "." ++ (padded 6 (rest % 1000000) ++ (pyStr "Z" ++
      []))))))))))))) := by
    rw [hf.text]
    simp [pyStr]
  obtain ⟨hlen6, hdigits6, -⟩ := padded_digits (show 1 ≤ 6 by decide) (show rest % 1000000 < 10 ^ 6 by omega)
  have hlen : s.length ≤ 32 := by
    have hpad : ∀ {n k : Nat}, 1 ≤ n → k < 10 ^ n → (padded n k).length = n :=
      fun hn hk => (padded_digits hn hk).1
    rw [htext]
    simp only [List.length_append, hyear, pyStr_length, List.length_nil]
    rw [hpad (by decide) (by omega), hpad (by decide) (by omega), hpad (by decide) (by omega),
      hpad (by decide) (by omega), hpad (by decide) (by omega), hlen6]
    decide
  unfold Defs.timestamp
  rw [all_iff, List.forall_mem_cons, List.forall_mem_cons, List.forall_mem_singleton, pattern_str]
  refine ⟨type_string s, maxLength_str hlen, search_of_mem ?_⟩
  rw [htext]
  refine mem_seq_run (fun c hc => digit_of_ascii (natText_digits y c hc)) hyear.ge hyear.le ?_
  refine mem_seq_lit (padded_group (by decide) (by omega) ?_)
  refine mem_seq_lit (padded_group (by decide) (by omega) ?_)
  refine mem_seq_lit (padded_group (by decide) (by omega) ?_)
  refine mem_seq_lit (padded_group (by decide) (by omega) ?_)
  refine mem_seq_lit (padded_group (by decide) (by omega) ?_)
  refine mem_seq_opt (mem_seq_seq ?_ (mem_seq_lit mem_seq_nil))
  refine mem_seq_lit (mem_seq_run (fun c hc => digit_of_ascii (hdigits6 c hc)) ?_ hlen6.le mem_seq_nil)
  rw [hlen6]
  decide

/-- **When the text of a time conforms**: the year is written with four digits. -/
theorem timestamp_conforms_iff {t : Int} {s : PyStr} (h : formatUs t = some s) :
    Defs.timestamp (.str s) = true ↔ EARLIEST_US ≤ t := by
  refine ⟨fun hs => ?_, fun ht => timestamp_conforms ht h⟩
  by_contra hearly
  obtain ⟨y, m, d, rest, hf⟩ := formatUs_fields h
  have hyear : (natText y).length ≤ 3 :=
    natText_length_le (by decide) (Nat.lt_succ_of_le (hf.year_lt (not_le.1 hearly)))
  unfold Defs.timestamp at hs
  rw [all_iff, List.forall_mem_cons, List.forall_mem_cons, List.forall_mem_singleton, pattern_str] at hs
  obtain ⟨left, hleft, -⟩ := List.any_eq_true.1 hs.2.2
  obtain ⟨mid, hmid, -⟩ := mem_seq_cons.1 hleft
  obtain ⟨k, hk, -⟩ := List.mem_map.1 hmid
  obtain ⟨hlt, hk⟩ := List.mem_filter.1 hk
  obtain rfl : k = 4 := by
    have hle := List.mem_range.1 hlt
    have hge := (of_decide_eq_true hk).1
    omega
  -- The separator stands among the four characters that should be digits.
  have hdash : 0x2D ∈ s.take 4 := by
    rw [List.mem_take_iff_getElem]
    refine ⟨(natText y).length, ?_, ?_⟩
    · rw [hf.text]
      simp
      omega
    · simp [hf.text]
  have hdigits := List.all_eq_true.1 (of_decide_eq_true hk).2.2 0x2D hdash
  cases hdigits

/-- The digest of bytes conforms. -/
theorem digest_conforms (m : Bytes) : Defs.text hexLower 64 64 (.str (pyStr (sha256Hex m))) = true := by
  have htext : pyStr (sha256Hex m) = (hexText (sha256 m)).map Char.toNat := by
    rw [pyStr, sha256Hex, String.toList_ofList]
  have hlen : (pyStr (sha256Hex m)).length = 64 := by
    rw [htext, List.length_map, hexText_length, sha256_length]
  refine pattern_text (mem_run ?_ hlen.ge hlen.le)
  intro c hc
  rw [htext] at hc
  obtain ⟨ch, hch, rfl⟩ := List.mem_map.1 hc
  exact hexDigit_lower (hexText_mem hch)

/-! ## Records -/

def strOrNull (s : Option PyStr) : Json := s.elim .null .str

/-- The fields of a quarantined record. -/
structure Quarantined where
  invalidId : String
  detectedAt : PyStr
  stage : String
  reasonCode : String
  detail : PyStr
  sensorId : Option String
  sensorBootId : Option String
  sequence : Option Nat
  rawSha256 : Option String
  rawSizeBytes : Nat
  rawExcerpt : Option PyStr

namespace Quarantined

variable (q : Quarantined)

def values : List Json :=
  [.str (pyStr "1.0.0"), .str (pyStr q.invalidId), .str q.detectedAt, .str (pyStr q.stage),
    .str (pyStr q.reasonCode), .str q.detail, strOrNull (q.sensorId.map pyStr),
    strOrNull (q.sensorBootId.map pyStr), q.sequence.elim .null fun n => .int n,
    strOrNull (q.rawSha256.map pyStr), .int q.rawSizeBytes, strOrNull q.rawExcerpt]

def json : Json := .obj (conforming invalidEventProperties q.values)

/-- What holds of every record, by the way it is made. -/
structure WellFormed : Prop where
  invalidId : IsUuid q.invalidId
  stage : q.stage ∈ ["receiver", "flink"]
  reasonCode : q.reasonCode ∈ REASONS
  detail : q.detail.length ≤ 512
  sensorId : ∀ s ∈ q.sensorId, s.length ≤ 63
  sensorBootId : ∀ b ∈ q.sensorBootId, b.length ≤ 36
  rawSha256 : ∀ sha ∈ q.rawSha256, ∃ m, sha = sha256Hex m
  rawExcerpt : ∀ s ∈ q.rawExcerpt, s.length ≤ 2048

variable {q}

theorem strOrNull_conforms {s : Schema} {t : Option PyStr} (h : ∀ x ∈ t, s (.str x) = true) :
    orNull s (strOrNull t) = true := by
  cases t with
  | none => exact orNull_null s
  | some x => exact orNull_of (h x rfl)

theorem enum_of_mem {names : List String} {s : String} (h : s ∈ names) :
    enum (names.map some) (.str (pyStr s)) = true := by
  refine List.any_eq_true.2 ⟨some s, List.mem_map_of_mem h, ?_⟩
  simp

/-- **When a record passes its contract**: its clock reads a year of four digits, its sequence is one that
JSON holds exactly, and its bytes are no more than 2^30. -/
theorem valid_iff (rt : Runtime) (hq : q.WellFormed) {wallUs : Int}
    (ht : formatUs wallUs = some q.detectedAt) :
    validate rt invalidEventContract q.json = some [] ↔
      EARLIEST_US ≤ wallUs ∧ (∀ n ∈ q.sequence, n ≤ 9007199254740991) ∧ q.rawSizeBytes ≤ 1073741824 := by
  have hnames : (invalidEventProperties.map (·.1)).Nodup := by decide
  have hversion : q.json.get? "invalid_schema_version" = some (.str (pyStr "1.0.0")) :=
    @dictGet_conforming _ q.values hnames _ List.mem_cons_self
  have hsequence : Defs.countOrNull (q.sequence.elim .null fun n => .int n) = true ↔
      ∀ n ∈ q.sequence, n ≤ 9007199254740991 := by
    cases q.sequence with
    | none => exact iff_of_true (orNull_null _) (fun _ h => nomatch h)
    | some n =>
      have hn : Defs.countOrNull (.int n) = true ↔ n ≤ 9007199254740991 := by
        unfold Defs.countOrNull Defs.integer MAX_SAFE
        rw [orNull_iff, integer_iff, or_iff_left (by simp)]
        exact ⟨fun h => by exact_mod_cast h.2, fun h => ⟨by positivity, by exact_mod_cast h⟩⟩
      simpa using hn
  have hsize : Defs.integer 0 1073741824 (.int q.rawSizeBytes) = true ↔ q.rawSizeBytes ≤ 1073741824 := by
    unfold Defs.integer
    rw [integer_iff]
    exact ⟨fun h => by exact_mod_cast h.2, fun h => ⟨by positivity, by exact_mod_cast h⟩⟩
  have hshort : ∀ {n : Nat} {t : Option String}, (∀ s ∈ t, s.length ≤ n) →
      orNull (Defs.shortText n) (strOrNull (t.map pyStr)) = true := by
    intro n t ht
    refine strOrNull_conforms fun x hx => ?_
    obtain ⟨s, hs, rfl⟩ := Option.map_eq_some_iff.1 hx
    exact shortText_str ((pyStr_length s).le.trans (ht s hs))
  have hdigest : orNull (Defs.text hexLower 64 64) (strOrNull (q.rawSha256.map pyStr)) = true := by
    refine strOrNull_conforms fun x hx => ?_
    obtain ⟨sha, hsha, rfl⟩ := Option.map_eq_some_iff.1 hx
    obtain ⟨m, rfl⟩ := hq.rawSha256 sha hsha
    exact digest_conforms m
  have hdetail : Defs.shortText 512 (.str q.detail) = true := shortText_str hq.detail
  have hexcerpt : orNull (Defs.shortText 2048) (strOrNull q.rawExcerpt) = true :=
    strOrNull_conforms fun x hx => shortText_str (hq.rawExcerpt x hx)
  have hstage : enum [some "receiver", some "flink"] (.str (pyStr q.stage)) = true := enum_of_mem hq.stage
  have hone : const "1.0.0" (.str (pyStr "1.0.0")) = true := @enum_of_mem ["1.0.0"] _ List.mem_cons_self
  rw [validate_supported hversion, and_iff_left (show invalidEventContract.rules q.json = [] from rfl),
    ← timestamp_conforms_iff ht, ← hsequence, ← hsize]
  show record invalidEventProperties (.obj (conforming invalidEventProperties q.values)) = true ↔ _
  rw [record_conforming_iff hnames rfl]
  simp only [invalidEventProperties, values, List.zip_cons_cons, List.zip_nil_left, List.forall_mem_cons,
    List.not_mem_nil, false_imp_iff, implies_true, and_true, hone, uuid_conforms hq.invalidId, hstage,
    enum_of_mem hq.reasonCode, hdetail, hshort hq.sensorId, hshort hq.sensorBootId, hdigest, hexcerpt,
    true_and]

/-- **When a record can be written**: its texts from outside hold no lone surrogate. -/
theorem dumpBytes_isSome {wallUs : Int} (ht : formatUs wallUs = some q.detectedAt) :
    q.json.dumpBytes.isSome ↔ Encodable q.detail ∧ ∀ s ∈ q.rawExcerpt, Encodable s := by
  have hnull : Encodable (Json.null.dumps false) := pyStr_encodable "null"
  have hstr : ∀ s, Encodable ((Json.str s).dumps false) ↔ Encodable s := fun s => by
    rw [Json.dumps]
    exact Json.dumpString_encodable
  have hint : ∀ n : Int, Encodable ((Json.int n).dumps false) := fun n => by
    rw [Json.dumps]
    exact intText_encodable n
  have hsequence : Encodable ((q.sequence.elim Json.null fun n => .int n).dumps false) := by
    cases q.sequence with
    | none => exact hnull
    | some n => exact hint n
  have horNull : ∀ t : Option PyStr, Encodable ((strOrNull t).dumps false) ↔ ∀ s ∈ t, Encodable s := by
    intro t
    cases t with
    | none => exact iff_of_true hnull (fun _ h => absurd h (Option.not_mem_none _))
    | some s =>
      rw [strOrNull, Option.elim_some, hstr]
      simp
  have hmade : ∀ t : Option String, Encodable ((strOrNull (t.map pyStr)).dumps false) := by
    intro t
    rw [horNull]
    intro s hs
    obtain ⟨s, -, rfl⟩ := Option.map_eq_some_iff.1 hs
    exact pyStr_encodable s
  have hcalendar : Encodable q.detectedAt := (formatUs_text ht).1
  rw [Json.dumpBytes_isSome, json, Json.dumps_obj_encodable]
  simp only [conforming, invalidEventProperties, values, List.zip_cons_cons, List.zip_nil_left, List.map_cons,
    List.map_nil, List.forall_mem_cons, List.not_mem_nil, false_imp_iff, implies_true, and_true, true_and,
    pyStr_encodable, hstr, hint, hsequence, hmade, horNull q.rawExcerpt, hcalendar]

end Quarantined

/-! ## Records that are sound -/

/-- The record is made, passes its contract and can be written. -/
def Sound (rt : Runtime) (rec : Option Json) : Prop :=
  ∃ v, rec = some v ∧ validate rt invalidEventContract v = some [] ∧ v.dumpBytes.isSome

/-- The clock reads a time of the calendar, in a year of four digits. -/
structure Present (wallUs : Int) : Prop where
  calendar : (formatUs wallUs).isSome
  year : EARLIEST_US ≤ wallUs

/-- What comes from outside is in the ranges of the contract, and UTF-8 holds it. -/
structure Quarantined.Storable (q : Quarantined) : Prop where
  sequence : ∀ n ∈ q.sequence, n ≤ 9007199254740991
  size : q.rawSizeBytes ≤ 1073741824
  detail : Encodable q.detail
  excerpt : ∀ s ∈ q.rawExcerpt, Encodable s

/-- **When a record is sound.** -/
theorem Quarantined.sound_iff (rt : Runtime) {q : Quarantined} (hq : q.WellFormed) (wallUs : Int) :
    Sound rt ((formatUs wallUs).map fun t => { q with detectedAt := t }.json) ↔
      Present wallUs ∧ q.Storable := by
  cases ht : formatUs wallUs with
  | none =>
    refine iff_of_false ?_ ?_
    · rintro ⟨v, hv, -⟩
      cases hv
    · rintro ⟨hpresent, -⟩
      have hsome := hpresent.calendar
      rw [ht] at hsome
      cases hsome
  | some t =>
    have hq' : { q with detectedAt := t }.WellFormed := ⟨hq.1, hq.2, hq.3, hq.4, hq.5, hq.6, hq.7, hq.8⟩
    have hvalid := Quarantined.valid_iff rt hq' ht
    have hwritten := @Quarantined.dumpBytes_isSome { q with detectedAt := t } wallUs ht
    constructor
    · rintro ⟨v, hv, hpass, hdump⟩
      obtain rfl := Option.some.inj hv
      obtain ⟨hyear, hseq, hsize⟩ := hvalid.1 hpass
      obtain ⟨hdetail, hexcerpt⟩ := hwritten.1 hdump
      exact ⟨⟨ht ▸ rfl, hyear⟩, hseq, hsize, hdetail, hexcerpt⟩
    · rintro ⟨hpresent, hstorable⟩
      refine ⟨_, rfl, hvalid.2 ?_, hwritten.2 ?_⟩
      · exact ⟨hpresent.year, hstorable.sequence, hstorable.size⟩
      · exact ⟨hstorable.detail, hstorable.excerpt⟩

end OTS
