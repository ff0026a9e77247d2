import OTSecurity.Common.InvalidEvents
import OTSecurity.Lib.DecimalRead
import OTSecurity.Sender.Payloads

/-!
# Payloads that conform

The normalizer checks the fields of a record with its own ranges and patterns; the contract states them once
more, as a schema and as rules between fields.

* `Outcome.Good` — the value of a field conforms to a schema, its state and reason are ones of the contract,
  and the value is plain: it can be read back.
* `Builder.Good` — the fields of a payload are the properties of a schema, and each is good.

Principal result: `payloadOf_good` — the payload of every record that is normalized conforms to the schema
of its log type, and its states and reasons to the rules of availability.
-/

namespace OTS.Sender

open Json (Readable Unicode unicode_pyStr)
open Schema

/-- The states of the contract. -/
def STATES : List String := ["MISSING", "NOT_APPLICABLE", "UNKNOWN"]

def reasonSchema : Schema := Defs.text (fun c => lower c || digit c || oneOf "_" c) 1 64

/-! ## Texts -/

section Texts

theorem hexPadded_unicode (n v : Nat) : Unicode (hexPadded n v) := by
  intro c hc
  obtain ⟨i, -, rfl⟩ := List.mem_map.1 hc
  have hdigit : ∀ d < 16, Json.hexDigit d < 0x110000 := by decide
  exact hdigit _ (Nat.mod_lt _ (by decide))

theorem reprStr_unicode (rt : Runtime) {s : PyStr} (hs : Unicode s) : Unicode (rt.reprStr s) := by
  have hescape : ∀ (a : Nat) (t : PyStr), a < 0x110000 → Unicode t → Unicode (0x5C :: a :: t) :=
    fun a t ha ht => Json.unicode_cons.2 ⟨by decide, Json.unicode_cons.2 ⟨ha, ht⟩⟩
  have hchar : ∀ quote c, c < 0x110000 → Unicode (rt.reprChar quote c) := by
    intro quote c hc
    unfold Runtime.reprChar
    split
    · exact hescape _ _ hc Json.unicode_nil
    split
    · exact hescape _ _ (by decide) Json.unicode_nil
    split
    · exact hescape _ _ (by decide) Json.unicode_nil
    split
    · exact hescape _ _ (by decide) Json.unicode_nil
    split
    · exact hescape _ _ (by decide) (hexPadded_unicode _ _)
    split
    · exact Json.unicode_cons.2 ⟨hc, Json.unicode_nil⟩
    split
    · exact hescape _ _ (by decide) (hexPadded_unicode _ _)
    split
    · exact hescape _ _ (by decide) (hexPadded_unicode _ _)
    · exact hescape _ _ (by decide) (hexPadded_unicode _ _)
  have hquote : (if 0x27 ∈ s ∧ 0x22 ∉ s then 0x22 else 0x27) < 0x110000 := by
    split <;> decide
  unfold Runtime.reprStr
  refine Json.unicode_cons.2 ⟨hquote, Json.unicode_append.2 ⟨?_, Json.unicode_cons.2 ⟨hquote, Json.unicode_nil⟩⟩⟩
  intro d hd
  obtain ⟨c, hc, hdc⟩ := List.mem_flatMap.1 hd
  exact hchar _ c (hs c hc) d hdc

variable (rt : Runtime)

theorem reprElements_unicode {xs : List DecJson} (h : ∀ x ∈ xs, Unicode (reprDec rt x)) :
    Unicode (reprElements rt xs) := by
  induction xs with
  | nil =>
    rw [reprElements]
    exact Json.unicode_nil
  | cons x xs ih =>
    obtain ⟨hx, hxs⟩ := List.forall_mem_cons.1 h
    cases xs with
    | nil =>
      rw [reprElements]
      exact hx
    | cons y ys =>
      rw [reprElements]
      exact Json.unicode_append.2 ⟨Json.unicode_append.2 ⟨hx, unicode_pyStr _⟩, ih hxs⟩

theorem reprMembers_unicode {ms : List (PyStr × DecJson)} (hk : ∀ m ∈ ms, Unicode m.1)
    (h : ∀ m ∈ ms, Unicode (reprDec rt m.2)) : Unicode (reprMembers rt ms) := by
  induction ms with
  | nil =>
    rw [reprMembers]
    exact Json.unicode_nil
  | cons m ms ih =>
    obtain ⟨k, v⟩ := m
    obtain ⟨hkey, hks⟩ := List.forall_mem_cons.1 hk
    obtain ⟨hm, hms⟩ := List.forall_mem_cons.1 h
    have hfirst : Unicode (rt.reprStr k ++ pyStr ": " ++ reprDec rt v) :=
      Json.unicode_append.2 ⟨Json.unicode_append.2 ⟨reprStr_unicode rt hkey, unicode_pyStr _⟩, hm⟩
    cases ms with
    | nil =>
      rw [reprMembers]
      exact hfirst
    | cons m' ms =>
      rw [reprMembers]
      exact Json.unicode_append.2 ⟨Json.unicode_append.2 ⟨hfirst, unicode_pyStr _⟩, ih hks hms⟩

theorem reprDec_unicode {v : DecJson} (h : v.Unicode) : Unicode (reprDec rt v) := by
  have hbrackets : ∀ (a b : Nat) (s : PyStr), a < 0x110000 → b < 0x110000 → Unicode s →
      Unicode (a :: (s ++ [b])) := fun a b s ha hb hs =>
    Json.unicode_cons.2 ⟨ha, Json.unicode_append.2 ⟨hs, Json.unicode_cons.2 ⟨hb, Json.unicode_nil⟩⟩⟩
  induction h with
  | null =>
    rw [reprDec]
    exact unicode_pyStr _
  | bool b =>
    rw [reprDec]
    exact unicode_pyStr _
  | int n =>
    rw [reprDec]
    exact unicode_pyStr _
  | dec d =>
    rw [reprDec]
    exact Json.unicode_append.2 ⟨Json.unicode_append.2 ⟨unicode_pyStr _, d.text_unicode⟩, unicode_pyStr _⟩
  | float x =>
    cases x with
    | nan =>
      rw [reprDec]
      exact unicode_pyStr _
    | inf neg =>
      rw [reprDec]
      exact unicode_pyStr _
    | finite neg mag =>
      rw [reprDec]
      · exact Json.float_text_unicode _
      · exact fun heq => by cases heq
      · exact fun _ heq => by cases heq
  | str hs =>
    rw [reprDec]
    exact reprStr_unicode rt hs
  | arr h ih =>
    rw [reprDec]
    exact hbrackets _ _ _ (by decide) (by decide) (reprElements_unicode rt ih)
  | obj hk h ih =>
    rw [reprDec]
    exact hbrackets _ _ _ (by decide) (by decide) (reprMembers_unicode rt hk ih)

theorem strDec_unicode {v : DecJson} (h : v.Unicode) : Unicode (strDec rt v) := by
  cases h with
  | str hs => exact hs
  | dec d => exact d.text_unicode
  | null => exact reprDec_unicode rt .null
  | bool b => exact reprDec_unicode rt (.bool b)
  | int n => exact reprDec_unicode rt (.int n)
  | float x => exact reprDec_unicode rt (.float x)
  | arr h => exact reprDec_unicode rt (.arr h)
  | obj hk h => exact reprDec_unicode rt (.obj hk h)

end Texts

/-- Every text of the record is one of Unicode characters. -/
def ZeekRecord.Readable (n : ZeekRecord) : Prop := ∀ m ∈ n, m.2.Unicode

theorem ZeekRecord.Readable.get {n : ZeekRecord} (h : n.Readable) (k : String) : (n.get k).Unicode := by
  unfold ZeekRecord.get
  cases hf : n.find? (·.1 = pyStr k) with
  | none => exact .null
  | some m => exact h m (List.mem_of_find?_eq_some hf)

theorem parse_readable {rt : Runtime} {line : PyStr} {n : ZeekRecord} (hline : Unicode line)
    (h : parse rt line = .ok n) : n.Readable := by
  unfold parse at h
  split at h
  · cases h
  · cases h
  · rename_i ms hload
    cases h
    cases DecJson.loads_unicode hline hload with
    | obj hk h => exact h
  · cases h

/-! ## Fields -/

/-- A value is none, or the state and the reason are ones of the contract. -/
def Outcome.stated : Outcome → Bool
  | .known v => !v.isNull
  | .unavailable state reason =>
    STATES.contains state && (decide (reason = "") || reasonSchema (.str (pyStr reason)))

/-- A value that is read back, and a number unless it is none. -/
def Plain (v : Json) : Prop := Readable 1 v ∧ v ≠ .float .nan

theorem plain_null : Plain .null := ⟨.null, fun h => by cases h⟩

theorem plain_str {s : PyStr} (h : Unicode s) : Plain (.str s) := ⟨.str h, fun h => by cases h⟩

theorem plain_bool (b : Bool) : Plain (.bool b) := ⟨.bool b, fun h => by cases h⟩

/-- What the contract asks of a field of the schema. -/
structure Outcome.Good (s : Schema) (o : Outcome) : Prop where
  conforms : s o.json = true
  stated : o.stated = true
  plain : Plain o.json

theorem Outcome.proper_of_stated {o : Outcome} (h : o.stated = true) : o.Proper := by
  cases o with
  | known v => simpa [Outcome.stated, Outcome.Proper] using h
  | unavailable state reason => trivial

theorem int_readable {d : Nat} {n : Int} (hlo : 0 ≤ n) (hhi : n ≤ MAX_SAFE_INT) : Readable d (.int n) := by
  have hlt : n.natAbs < 10 ^ 16 := by
    unfold MAX_SAFE_INT at hhi
    omega
  exact .int ((natText_length_le (by decide) hlt).trans (by decide))

theorem plain_int {n : Int} (hlo : 0 ≤ n) (hhi : n ≤ MAX_SAFE_INT) : Plain (.int n) :=
  ⟨int_readable hlo hhi, fun h => by cases h⟩

/-! ### Numbers -/

theorem number_finite {lo hi : Rat} {neg : Bool} {mag : Rat} :
    Defs.number lo hi (.float (.finite neg mag)) = true ↔
      lo ≤ (if neg then -mag else mag) ∧ (if neg then -mag else mag) ≤ hi := by
  simp [Defs.number, type, minimum, maximum, onNumber, JsonType.holds, PyFloat.ltInt, PyFloat.gtInt]

theorem exact_natCast {n : Nat} (h : n ≤ 2 ^ 53) : (PyFloat.finite false n).Exact := by
  have hval : (n : Rat) * powInt 2 0 = n := by simp [powInt]
  have hlt : (n : Rat) * powInt 2 0 < powInt 2 1024 := by
    refine lt_of_le_of_lt ?_ (show powInt 2 53 < powInt 2 1024 from (powInt_lt_iff one_lt_two).2 (by decide))
    rw [hval, show (53 : Int) = (53 : Nat) by rfl, powInt_natCast]
    exact_mod_cast h
  have hgrid := PyFloat.ofRat_grid h (by decide) hlt false
  rw [hval] at hgrid
  exact ⟨Nat.cast_nonneg n, hgrid⟩

theorem exact_interval : (PyFloat.finite false MIN_INTERVAL).Exact := by
  have hval : ((3602879701896397 : Nat) : Rat) * powInt 2 (-55) = MIN_INTERVAL := by
    norm_num [powInt, MIN_INTERVAL, show Int.toNat 55 = 55 from rfl]
  have hlt : ((3602879701896397 : Nat) : Rat) * powInt 2 (-55) < powInt 2 1024 := by
    refine lt_trans ?_ (show powInt 2 0 < powInt 2 1024 from (powInt_lt_iff one_lt_two).2 (by decide))
    norm_num [powInt, show Int.toNat 55 = 55 from rfl]
  have hgrid := PyFloat.ofRat_grid (by norm_num) (by decide) hlt false
  rw [hval] at hgrid
  exact ⟨by norm_num [MIN_INTERVAL], hgrid⟩

theorem mag_nonneg (d : PyDecimal) : 0 ≤ d.mag := mul_nonneg (Nat.cast_nonneg _) (powInt_pos (by norm_num) _).le

/-- **The float of a decimal between two floats lies between them.** -/
theorem toFloat_within {d : PyDecimal} {lo hi : Rat} (hlo : (PyFloat.finite false lo).Exact)
    (hhi : (PyFloat.finite false hi).Exact) (hge : lo ≤ d.value) (hle : d.value ≤ hi) :
    ∃ neg v, d.toFloat = .finite neg v ∧ lo ≤ (if neg then -v else v) ∧ (if neg then -v else v) ≤ hi := by
  have hmag := mag_nonneg d
  unfold PyDecimal.value at hge hle
  unfold PyDecimal.toFloat
  cases hneg : d.neg with
  | false =>
    rw [hneg, if_neg Bool.false_ne_true] at hge hle
    obtain ⟨v, hv, -, hvle⟩ := PyFloat.ofRat_le hhi hmag hle false
    exact ⟨false, v, hv, PyFloat.le_ofRat hlo hge hv, hvle⟩
  | true =>
    rw [hneg, if_pos rfl] at hge hle
    have hlo0 : 0 ≤ lo := hlo.1
    have hzero : d.mag = 0 := by linarith
    rw [hzero] at hge hle ⊢
    exact ⟨true, 0, if_pos rfl, hge, hle⟩

theorem toFloat_exact (d : PyDecimal) : d.toFloat.Exact := PyFloat.ofRat_exact (mag_nonneg d) _

/-! ### Texts and addresses -/

theorem text_conforms {p : Nat → Bool} {lo hi : Nat} {s : PyStr} (h : fullmatch p lo hi s = true) :
    Defs.text p lo hi (.str s) = true := by
  obtain ⟨hlo, hhi, hp⟩ := of_decide_eq_true h
  exact pattern_text (Regex.mem_run (List.all_eq_true.1 hp) hlo hhi)

theorem alnum_lt {c : Nat} (h : alnum c = true) : c < 0x110000 := by
  unfold alnum alpha upper lower digit range at h
  simp only [Bool.or_eq_true, Bool.and_eq_true, decide_eq_true_eq] at h
  have hbounds : ('Z'.toNat = 90 ∧ 'z'.toNat = 122) ∧ '9'.toNat = 57 := by decide
  omega

theorem ip_conforms {v : DecJson} {s : PyStr} (h : isIpText v = some s) :
    Defs.ip (.str s) = true ∧ Unicode s := by
  unfold isIpText at h
  split at h
  · rename_i t
    obtain ⟨cs, hcs, h⟩ := Option.bind_eq_some_iff.1 h
    split at h
    · rename_i hip
      obtain rfl : t = s := Option.some.inj h
      obtain ⟨-, hlen, -, hvalid⟩ := of_decide_eq_true hip
      rw [String.toList_ofList] at hvalid
      have hcs' := hcs
      unfold chars? at hcs
      split at hcs
      · rename_i hall
        obtain rfl := Option.some.inj hcs
        have hlen : t.length ≤ 45 := by simpa using hlen
        refine ⟨?_, fun c hc => ?_⟩
        · unfold Defs.ip
          rw [all_iff, List.forall_mem_cons, List.forall_mem_cons, List.forall_mem_singleton, anyOf_iff]
          refine ⟨type_string t, maxLength_str hlen, ?_⟩
          have hformat : ∀ valid : List Char → Bool, valid (t.map Char.ofNat) = true →
              format valid (.str t) = true := by
            intro valid hv
            show (chars? t).any valid = true
            rw [hcs', Option.any_some]
            exact hv
          rcases hvalid with h4 | h6
          · exact ⟨_, List.mem_cons_self, hformat _ h4⟩
          · exact ⟨_, .tail _ List.mem_cons_self, hformat _ h6⟩
        · have hvalid := of_decide_eq_true (List.all_eq_true.1 hall c hc)
          unfold Nat.isValidChar at hvalid
          omega
      · cases hcs
    · cases h
  · cases h

section Outcomes

variable {n : ZeekRecord} {s : Schema} {st reason : String} (zeek : String)

theorem unavailable_good (hnull : s .null = true) (h : (Outcome.unavailable st reason).stated = true) :
    (Outcome.unavailable st reason).Good s := ⟨hnull, h, plain_null⟩

theorem outOfContract_good (hnull : s .null = true) : Outcome.outOfContract.Good s :=
  unavailable_good hnull (by decide)

theorem known_str_good {t : PyStr} (h : s (.str t) = true) (hu : Unicode t) : (Outcome.known (.str t)).Good s :=
  ⟨h, rfl, plain_str hu⟩

theorem count_good {maximum : Int} {hi : Rat} (hsafe : maximum ≤ MAX_SAFE_INT) (hmax : (maximum : Rat) ≤ hi)
    (h : (Outcome.unavailable st reason).stated = true) :
    (count n zeek maximum st reason).Good (orNull (Defs.integer 0 hi)) := by
  unfold count
  split
  · exact unavailable_good (orNull_null _) h
  · rename_i v _
    split
    · rename_i hv
      refine ⟨orNull_of (integer_iff.2 ⟨by exact_mod_cast hv.1, le_trans ?_ hmax⟩), rfl,
        plain_int hv.1 (hv.2.trans hsafe)⟩
      exact_mod_cast hv.2
    · exact outOfContract_good (orNull_null _)
  · exact outOfContract_good (orNull_null _)

theorem port_good : (port n zeek).Good Defs.portOrNull :=
  count_good zeek (by decide) (by norm_num) (by decide)

theorem counter_good (h : (Outcome.unavailable st reason).stated = true) :
    (count n zeek MAX_SAFE_INT st reason).Good Defs.countOrNull :=
  count_good zeek le_rfl (by norm_num [MAX_SAFE_INT, MAX_SAFE]) h

theorem small_good (h : (Outcome.unavailable st reason).stated = true) :
    (count n zeek 65535 st reason).Good Defs.portOrNull :=
  count_good zeek (by decide) (by norm_num) h

theorem seconds_good (h : (Outcome.unavailable st reason).stated = true) :
    (seconds n zeek st reason).Good Defs.durationOrNull := by
  unfold seconds
  split
  · exact unavailable_good (orNull_null _) h
  · split
    · rename_i d _
      split
      · rename_i hd
        have hzero : (PyFloat.finite false 0).Exact := by exact_mod_cast @exact_natCast 0 (by norm_num)
        have hmax : (PyFloat.finite false MAX_SECONDS).Exact := by
          have := @exact_natCast 31536000 (by norm_num)
          unfold MAX_SECONDS
          exact_mod_cast this
        obtain ⟨neg, v, hv, hbounds⟩ := toFloat_within hzero hmax hd.1 hd.2
        have hexact := toFloat_exact d
        rw [hv] at hexact ⊢
        exact ⟨orNull_of (number_finite.2 hbounds), rfl, .float hexact, fun h => by cases h⟩
      · exact outOfContract_good (orNull_null _)
    · exact outOfContract_good (orNull_null _)

theorem boolean_good (h : (Outcome.unavailable st reason).stated = true) :
    (boolean n zeek st reason).Good Defs.boolOrNull := by
  unfold boolean
  split
  · exact unavailable_good rfl h
  · exact ⟨rfl, rfl, plain_bool _⟩
  · exact outOfContract_good rfl

theorem text_good (hn : n.Readable) {p : Nat → Bool} {lo hi : Nat} (maxLen : Nat)
    (h : (Outcome.unavailable st reason).stated = true) :
    (text n zeek (fullmatch p lo hi) maxLen st reason).Good (orNull (Defs.text p lo hi)) := by
  have hu := hn.get zeek
  unfold text
  split
  · exact unavailable_good (orNull_null _) h
  · rename_i v hv
    rw [hv] at hu
    split
    · rename_i hmatch
      exact known_str_good (orNull_of (text_conforms hmatch.2)) hu.of_str
    · exact outOfContract_good (orNull_null _)
  · exact outOfContract_good (orNull_null _)

theorem anyText_good (hn : n.Readable) (maxLen : Nat) (h : (Outcome.unavailable st reason).stated = true) :
    (text n zeek anyText maxLen st reason).Good (orNull (Defs.shortText maxLen)) := by
  have hu := hn.get zeek
  unfold text
  split
  · exact unavailable_good (orNull_null _) h
  · rename_i v hv
    rw [hv] at hu
    split
    · rename_i hlen
      exact known_str_good (orNull_of (shortText_str hlen.1)) hu.of_str
    · exact outOfContract_good (orNull_null _)
  · exact outOfContract_good (orNull_null _)

theorem service_good (rt : Runtime) (n : ZeekRecord) : (service rt n).Good Defs.serviceOrNull := by
  have hnamed : ∀ t, (if SERVICE t then Outcome.known (.str t) else .outOfContract).Good Defs.serviceOrNull := by
    intro t
    split
    · rename_i ht
      refine known_str_good (orNull_of (text_conforms ht)) fun c hc => ?_
      rcases Bool.or_eq_true_iff.1 (List.all_eq_true.1 (of_decide_eq_true ht).2.2 c hc) with h | h
      · exact alnum_lt h
      · exact unicode_pyStr _ c (of_decide_eq_true h)
    · exact outOfContract_good (orNull_null _)
  unfold service
  split
  · exact unavailable_good (orNull_null _) (by decide)
  · exact hnamed _
  · exact hnamed _
  · exact outOfContract_good (orNull_null _)

theorem connState_good {o : Outcome} (h : connState n = .ok o) : o.Good Defs.connStateOrNull := by
  have hnull : Defs.connStateOrNull .null = true := by decide
  unfold connState at h
  split at h
  · cases h
    exact unavailable_good hnull (by decide)
  · cases h
  · cases h
  · rename_i t _
    cases h
    split
    · rename_i ht
      obtain ⟨name, hname, heq⟩ := List.any_eq_true.1 ht
      rw [of_decide_eq_true heq]
      refine known_str_good ?_ (unicode_pyStr name)
      show enum (CONN_STATES.map some ++ [none]) (.str (pyStr name)) = true
      exact List.any_eq_true.2 ⟨some name, List.mem_append_left _ (List.mem_map_of_mem hname), by simp⟩
    · exact outOfContract_good hnull
  · cases h
    exact outOfContract_good hnull

theorem certChainLen_good (n : ZeekRecord) : (certChainLen n).Good (orNull (Defs.integer 0 32)) := by
  unfold certChainLen
  split
  · rename_i fps _
    split
    · rename_i hlen
      refine ⟨orNull_of (integer_iff.2 ⟨by positivity, by exact_mod_cast hlen⟩), rfl, plain_int ?_ ?_⟩
      · omega
      · unfold MAX_SAFE_INT
        omega
    · exact outOfContract_good (orNull_null _)
  · have hstated : ∀ tls13 : Bool, (Outcome.unavailable "UNKNOWN"
        (if tls13 then "tls13_certificates_encrypted" else "no_certificate_observed")).stated = true := by decide
    exact unavailable_good (orNull_null _) (hstated _)

theorem endpoint_good : (endpoint n zeek).Good Defs.ipOrNull := by
  unfold endpoint
  split
  · exact unavailable_good (orNull_null _) (by decide)
  · cases hip : isIpText (n.get zeek) with
    | none => exact outOfContract_good (orNull_null _)
    | some t => exact known_str_good (orNull_of (ip_conforms hip).1) (ip_conforms hip).2

theorem transport_mem (n : ZeekRecord) : transport n ∈ ["tcp", "udp", "icmp", "unknown_transport"] := by
  unfold transport
  split
  · rename_i p _
    cases hf : ["tcp", "udp", "icmp"].find? fun t => decide (p = pyStr t) with
    | none => decide
    | some t => exact List.mem_append_left ["unknown_transport"] (List.mem_of_find?_eq_some hf)
  · decide

end Outcomes

/-! ## Payloads -/

namespace Builder

/-- The fields are the properties of a schema, and what is said of them is as the contract asks. -/
structure Good (ps : List (String × Schema)) (b : Builder) : Prop where
  names : ∀ f, (b.payload.get? f).isSome → f ∈ ps.map (·.1)
  values : ∀ p ∈ ps, ∃ v, b.payload.get? p.1 = some v ∧ p.2 v = true
  consistent : b.Consistent
  states : ∀ f s, b.availability.get? f = some s → s ∈ STATES
  reasons : ∀ f r, b.reasons.get? f = some r → reasonSchema (.str (pyStr r)) = true
  plain : ∀ f v, b.payload.get? f = some v → Plain v

variable {b : Builder} {ps qs : List (String × Schema)} {ws : Writes} {g : String} {o : Outcome}

theorem good_empty : empty.Good [] where
  names f h := by cases h
  values p hp := absurd hp List.not_mem_nil
  consistent := consistent_empty
  states f s h := by cases h
  reasons f r h := by cases h
  plain f v h := by cases h

/-! ### Writing fields -/

theorem states_put (h : ∀ f s, b.availability.get? f = some s → s ∈ STATES) (ho : o.stated = true) :
    ∀ f s, (b.put g o).availability.get? f = some s → s ∈ STATES := by
  intro f s hs
  cases o with
  | known v => exact h f s hs
  | unavailable state reason =>
    rw [put, ODict.get?_set] at hs
    split at hs
    · rw [← Option.some.inj hs]
      have hstate := (Bool.and_eq_true_iff.1 ho).1
      exact List.contains_iff_mem.1 hstate
    · exact h f s hs

theorem reasons_put (h : ∀ f r, b.reasons.get? f = some r → reasonSchema (.str (pyStr r)) = true)
    (ho : o.stated = true) : ∀ f r, (b.put g o).reasons.get? f = some r → reasonSchema (.str (pyStr r)) = true := by
  intro f r hr
  cases o with
  | known v => exact h f r hr
  | unavailable state reason =>
    rw [put] at hr
    simp only at hr
    split at hr
    · exact h f r hr
    · rename_i hne
      rw [ODict.get?_set] at hr
      split at hr
      · rw [← Option.some.inj hr]
        rcases Bool.or_eq_true_iff.1 (Bool.and_eq_true_iff.1 ho).2 with hempty | hreason
        · exact absurd (of_decide_eq_true hempty) hne
        · exact hreason
      · exact h f r hr

theorem plain_put (h : ∀ f v, b.payload.get? f = some v → Plain v) (ho : Plain o.json) :
    ∀ f v, (b.put g o).payload.get? f = some v → Plain v := by
  intro f v hv
  rw [get?_payload_put] at hv
  split at hv
  · rw [← Option.some.inj hv]
    exact ho
  · exact h f v hv

theorem said_puts (hs : ∀ f s, b.availability.get? f = some s → s ∈ STATES)
    (hr : ∀ f r, b.reasons.get? f = some r → reasonSchema (.str (pyStr r)) = true)
    (hv : ∀ f v, b.payload.get? f = some v → Plain v)
    (hws : ∀ w ∈ ws, w.2.stated = true ∧ Plain w.2.json) :
    (∀ f s, (b.puts ws).availability.get? f = some s → s ∈ STATES) ∧
      (∀ f r, (b.puts ws).reasons.get? f = some r → reasonSchema (.str (pyStr r)) = true) ∧
        ∀ f v, (b.puts ws).payload.get? f = some v → Plain v := by
  induction ws generalizing b with
  | nil => exact ⟨hs, hr, hv⟩
  | cons w ws ih =>
    obtain ⟨⟨hstated, hplain⟩, hrest⟩ := List.forall_mem_cons.1 hws
    exact ih (states_put hs hstated) (reasons_put hr hstated) (plain_put hv hplain) hrest

theorem lookup_of_mem (hws : (ws.map (·.1)).Nodup) {w : String × Outcome} (h : w ∈ ws) :
    ws.lookup w.1 = some w.2 := by
  induction ws with
  | nil => cases h
  | cons x xs ih =>
    obtain ⟨hx, hrest⟩ := List.nodup_cons.1 hws
    rcases List.mem_cons.1 h with rfl | h
    · exact List.lookup_cons_self
    · have hne : w.1 ≠ x.1 := fun heq => hx (List.mem_map.2 ⟨w, h, heq⟩)
      rw [List.lookup_cons, beq_false_of_ne hne]
      exact ih hrest h

/-- **The fields of further properties**, each written once. -/
theorem Good.puts (h : b.Good ps) (hws : (ws.map (·.1)).Nodup) (hfresh : ∀ w ∈ ws, w.1 ∉ ps.map (·.1))
    (hnames : ∀ w ∈ ws, w.1 ∈ qs.map (·.1)) (hqs : ∀ q ∈ qs, ∃ o, ws.lookup q.1 = some o ∧ o.Good q.2) :
    (b.puts ws).Good (ps ++ qs) := by
  have hgood : ∀ w ∈ ws, w.2.stated = true ∧ Plain w.2.json := by
    intro w hw
    obtain ⟨q, hq, hqw⟩ := List.mem_map.1 (hnames w hw)
    obtain ⟨o, ho, hgood⟩ := hqs q hq
    rw [hqw, lookup_of_mem hws hw] at ho
    rw [Option.some.inj ho]
    exact ⟨hgood.stated, hgood.plain⟩
  have hnew : ∀ w ∈ ws, b.payload.get? w.1 = none := fun w hw =>
    Option.not_isSome_iff_eq_none.1 fun hsome => hfresh w hw (h.names _ hsome)
  obtain ⟨hstates, hreasons, hplain⟩ := said_puts h.states h.reasons h.plain hgood
  refine ⟨fun f hf => ?_, fun p hp => ?_, ?_, hstates, hreasons, hplain⟩
  · rw [get?_payload_puts hws] at hf
    rw [List.map_append, List.mem_append]
    cases hlookup : ws.lookup f with
    | none =>
      rw [hlookup] at hf
      exact .inl (h.names f hf)
    | some o =>
      refine .inr ?_
      by_contra hno
      have hnone : ws.lookup f = none := lookup_eq_none fun hmem => by
        obtain ⟨w, hw, rfl⟩ := List.mem_map.1 hmem
        exact hno (hnames w hw)
      rw [hlookup] at hnone
      cases hnone
  · rw [get?_payload_puts hws]
    rcases List.mem_append.1 hp with hp | hp
    · have hnone : ws.lookup p.1 = none := lookup_eq_none fun hmem => by
        obtain ⟨w, hw, heq⟩ := List.mem_map.1 hmem
        exact hfresh w hw (heq ▸ List.mem_map_of_mem hp)
      rw [hnone]
      exact h.values p hp
    · obtain ⟨o, ho, hgood⟩ := hqs p hp
      rw [ho]
      exact ⟨o.json, rfl, hgood.conforms⟩
  · exact h.consistent.puts hws hnew fun w hw => Outcome.proper_of_stated (hgood w hw).1

theorem good_puts (hws : (ws.map (·.1)).Nodup) (hnames : ∀ w ∈ ws, w.1 ∈ qs.map (·.1))
    (hqs : ∀ q ∈ qs, ∃ o, ws.lookup q.1 = some o ∧ o.Good q.2) : (empty.puts ws).Good qs :=
  good_empty.puts hws (fun _ _ h => absurd h List.not_mem_nil) hnames hqs

/-- **A counter that is hidden.** -/
theorem Good.hide (h : b.Good ps) (hg : g ∈ ps.map (·.1)) (hnull : ∀ p ∈ ps, p.1 = g → p.2 .null = true) :
    (b.hide g).Good ps := by
  refine ⟨fun f hf => ?_, fun p hp => ?_, h.consistent.hide, fun f s hs => ?_, fun f r hr => ?_,
    fun f v hv => ?_⟩
  · rw [get?_payload_hide] at hf
    split at hf
    · rename_i heq
      exact heq ▸ hg
    · exact h.names f hf
  · rw [get?_payload_hide]
    split
    · rename_i heq
      exact ⟨.null, rfl, hnull p hp heq⟩
    · exact h.values p hp
  · rw [get?_availability_hide] at hs
    split at hs
    · rw [← Option.some.inj hs]
      decide
    · exact h.states f s hs
  · rw [get?_reasons_hide] at hr
    split at hr
    · rw [← Option.some.inj hr]
      decide
    · exact h.reasons f r hr
  · rw [get?_payload_hide] at hv
    split at hv
    · rw [← Option.some.inj hv]
      exact plain_null
    · exact h.plain f v hv

theorem Good.hides {fs : List String} (h : b.Good ps)
    (hfs : ∀ f ∈ fs, f ∈ ps.map (·.1) ∧ ∀ p ∈ ps, p.1 = f → p.2 .null = true) :
    (fs.foldl Builder.hide b).Good ps := by
  induction fs generalizing b with
  | nil => exact h
  | cons f fs ih =>
    obtain ⟨hf, hrest⟩ := List.forall_mem_cons.1 hfs
    exact ih (h.hide hf.1 hf.2) hrest

end Builder

/-! ### The five payloads -/

section Payloads

variable {rt : Runtime} {coverage : String} {n : ZeekRecord} {uid : PyStr} {ends : Writes}

/-- The endpoints of a connection. -/
theorem endpoints_good (h : endpoints n = .ok (uid, ends)) :
    ∃ src dst, ends = [("uid", .known (.str uid)), ("src_ip", .known (.str src)),
        ("src_port", port n "id.orig_p"), ("dst_ip", .known (.str dst)), ("dst_port", port n "id.resp_p")] ∧
      (Outcome.known (.str uid)).Good Defs.zeekUid ∧ (Outcome.known (.str src)).Good Defs.ip ∧
        (Outcome.known (.str dst)).Good Defs.ip := by
  obtain ⟨src, dst, huid, hsrc, hdst, hends⟩ := endpoints_ok h
  refine ⟨src, dst, hends, ⟨text_conforms huid, rfl, plain_str fun c hc => ?_⟩, ⟨(ip_conforms hsrc).1, rfl, ?_⟩,
    ⟨(ip_conforms hdst).1, rfl, ?_⟩⟩
  · exact alnum_lt (List.all_eq_true.1 (of_decide_eq_true huid).2.2 c hc)
  · exact plain_str (ip_conforms hsrc).2
  · exact plain_str (ip_conforms hdst).2

theorem transport_good (n : ZeekRecord) : (Outcome.known (.str (pyStr (transport n)))).Good Defs.transport := by
  refine known_str_good ?_ (unicode_pyStr _)
  have hall : ∀ t ∈ ["tcp", "udp", "icmp", "unknown_transport"], Defs.transport (.str (pyStr t)) = true := by
    decide
  exact hall _ (transport_mem n)

/-- The properties that a `conn` and a `flow_update` share. -/
def sharedProps : List (String × Schema) := Defs.flowFields ++ [("history", Defs.historyOrNull)]

def connProps : List (String × Schema) :=
  Defs.flowFields ++ [("missed_bytes", Defs.countOrNull), ("conn_state", Defs.connStateOrNull),
    ("history", Defs.historyOrNull), ("local_orig", Defs.boolOrNull), ("local_resp", Defs.boolOrNull)]

def snapshotProps : List (String × Schema) :=
  [("snapshot_seq", Defs.integer 1 1000000000), ("snapshot_interval_s", Defs.number (1 / 10) 3600)]

/-- What a connection is written with, whether it is its last record or not. -/
theorem connWrites_shared (rt : Runtime) (hn : n.Readable) (h : endpoints n = .ok (uid, ends)) (last : Writes) :
    ∀ q ∈ sharedProps, ∃ o, (connWrites rt n ends last).lookup q.1 = some o ∧ o.Good q.2 := by
  obtain ⟨src, dst, rfl, huid, hsrc, hdst⟩ := endpoints_good h
  have hcounter : ∀ f, (count n f MAX_SAFE_INT "MISSING" "zeek_field_absent").Good Defs.countOrNull :=
    fun f => counter_good f (by decide)
  simp only [sharedProps, Defs.flowFields, Defs.endpoints, List.forall_mem_append, List.forall_mem_cons,
    List.not_mem_nil, false_imp_iff, implies_true, and_true]
  exact ⟨⟨⟨⟨_, rfl, huid⟩, ⟨_, rfl, hsrc⟩, ⟨_, rfl, port_good _⟩, ⟨_, rfl, hdst⟩, ⟨_, rfl, port_good _⟩⟩,
    ⟨_, rfl, transport_good n⟩, ⟨_, rfl, service_good rt n⟩, ⟨_, rfl, seconds_good _ (by decide)⟩,
    ⟨_, rfl, hcounter _⟩, ⟨_, rfl, hcounter _⟩, ⟨_, rfl, hcounter _⟩, ⟨_, rfl, hcounter _⟩, ⟨_, rfl, hcounter _⟩,
    ⟨_, rfl, hcounter _⟩⟩, ⟨_, rfl, text_good _ hn _ (by decide)⟩⟩

theorem connLike_inv {terminal : Bool} {b : Builder} (h : connLike rt coverage n terminal = .ok (uid, b)) :
    ∃ ends last, endpoints n = .ok (uid, ends) ∧ (if terminal then terminalWrites n else .ok []) = .ok last ∧
      b = (hidden coverage).foldl Builder.hide (Builder.empty.puts (connWrites rt n ends last)) := by
  obtain ⟨⟨u, ends⟩, hends, h⟩ := Attempt.bind_eq_ok.1 h
  obtain ⟨last, hlast, h⟩ := Attempt.bind_eq_ok.1 h
  obtain ⟨rfl, rfl⟩ := Prod.mk.inj (Except.ok.inj h)
  exact ⟨ends, last, hends, hlast, rfl⟩

theorem terminalWrites_inv {last : Writes} (h : terminalWrites n = .ok last) :
    ∃ state, state.Good Defs.connStateOrNull ∧
      last = [("missed_bytes", count n "missed_bytes" MAX_SAFE_INT "MISSING" "zeek_field_absent"),
        ("conn_state", state), ("local_orig", boolean n "local_orig" "UNKNOWN" "site_networks_unconfigured"),
        ("local_resp", boolean n "local_resp" "UNKNOWN" "site_networks_unconfigured")] := by
  obtain ⟨state, hstate, h⟩ := Attempt.bind_eq_ok.1 h
  exact ⟨state, connState_good hstate, (Except.ok.inj h).symm⟩

/-- A direction that is hidden: its counters may be null. -/
theorem hidden_null {ps : List (String × Schema)} (hnames : ∀ f ∈ COUNTERS, f ∈ ps.map (·.1))
    (hnull : ∀ p ∈ ps, p.1 ∈ COUNTERS → p.2 .null = true) :
    ∀ f ∈ hidden coverage, f ∈ ps.map (·.1) ∧ ∀ p ∈ ps, p.1 = f → p.2 .null = true := fun f hf =>
  ⟨hnames f (hidden_counters hf), fun p hp heq => hnull p hp (heq ▸ hidden_counters hf)⟩

/-- **The payload of a connection**: the fields are those of the schema, in any order. -/
theorem connLike_good {terminal : Bool} {b : Builder} {ps : List (String × Schema)} (hn : n.Readable)
    (h : connLike rt coverage n terminal = .ok (uid, b)) (hshared : ∀ p ∈ ps, p ∈ sharedProps ∨
      terminal = true ∧ p ∈ [("missed_bytes", Defs.countOrNull), ("conn_state", Defs.connStateOrNull),
        ("local_orig", Defs.boolOrNull), ("local_resp", Defs.boolOrNull)])
    (hfields : ∀ f ∈ connFields terminal, f ∈ ps.map (·.1))
    (hnull : ∀ p ∈ ps, p.1 ∈ COUNTERS → p.2 .null = true) : b.Good ps := by
  obtain ⟨ends, last, hends, hlast, rfl⟩ := connLike_inv h
  have hcounters : ∀ f ∈ COUNTERS, f ∈ connFields terminal := by cases terminal <;> decide
  have hgood : ∀ {last : Writes}, (connWrites rt n ends last).map (·.1) = connFields terminal →
      (∀ q ∈ ps, ∃ o, (connWrites rt n ends last).lookup q.1 = some o ∧ o.Good q.2) →
        (Builder.empty.puts (connWrites rt n ends last)).Good ps := by
    intro last hnames hqs
    refine Builder.good_puts (hnames ▸ connFields_nodup terminal) (fun w hw => ?_) hqs
    exact hfields _ (hnames ▸ List.mem_map_of_mem hw)
  refine Builder.Good.hides (hgood ?_ fun q hq => ?_) (hidden_null (fun f hf => hfields f (hcounters f hf)) hnull)
  · obtain ⟨src, dst, rfl, -⟩ := endpoints_good hends
    cases terminal with
    | false =>
      cases hlast
      rfl
    | true =>
      obtain ⟨state, -, rfl⟩ := terminalWrites_inv hlast
      rfl
  · rcases hshared q hq with hq | ⟨rfl, hq⟩
    · exact connWrites_shared rt hn hends last q hq
    · obtain ⟨src, dst, rfl, -⟩ := endpoints_good hends
      obtain ⟨state, hstate, rfl⟩ := terminalWrites_inv hlast
      simp only [List.mem_cons, List.not_mem_nil, or_false] at hq
      rcases hq with rfl | rfl | rfl | rfl
      · exact ⟨_, rfl, counter_good _ (by decide)⟩
      · exact ⟨_, rfl, hstate⟩
      · exact ⟨_, rfl, boolean_good _ (by decide)⟩
      · exact ⟨_, rfl, boolean_good _ (by decide)⟩

theorem snapshot_good {ws : Writes} (h : snapshot n = .ok ws) :
    ws.map (·.1) = ["snapshot_seq", "snapshot_interval_s"] ∧
      ∀ q ∈ snapshotProps, ∃ o, ws.lookup q.1 = some o ∧ o.Good q.2 := by
  obtain ⟨seq, hseq, h⟩ := Attempt.bind_eq_ok.1 h
  obtain ⟨interval, hinterval, h⟩ := Attempt.bind_eq_ok.1 h
  cases h
  have hseq' : 1 ≤ seq ∧ seq ≤ 1000000000 := by
    unfold snapshotSeq at hseq
    split at hseq
    · split at hseq
      · cases hseq
        assumption
      · cases hseq
    · cases hseq
  have hinterval' : Defs.number (1 / 10) 3600 (.float interval) = true ∧ interval.Exact ∧ interval ≠ .nan := by
    unfold snapshotInterval at hinterval
    split at hinterval
    · rename_i iv _
      split at hinterval
      · rename_i hrange
        cases hinterval
        have hmax : (PyFloat.finite false 3600).Exact := by
          exact_mod_cast @exact_natCast 3600 (by norm_num)
        obtain ⟨neg, v, hv, hlo, hhi⟩ := toFloat_within exact_interval hmax hrange.1 hrange.2
        have hexact := toFloat_exact iv
        rw [hv] at hexact ⊢
        refine ⟨number_finite.2 ⟨le_trans ?_ hlo, hhi⟩, hexact, fun h => by cases h⟩
        norm_num [MIN_INTERVAL]
      · cases hinterval
    · cases hinterval
  refine ⟨rfl, ?_⟩
  simp only [snapshotProps, List.forall_mem_cons, List.not_mem_nil, false_imp_iff, implies_true, and_true]
  refine ⟨⟨_, rfl, integer_iff.2 ⟨by exact_mod_cast hseq'.1, by exact_mod_cast hseq'.2⟩, rfl, plain_int ?_ ?_⟩,
    ⟨_, rfl, hinterval'.1, rfl, .float hinterval'.2.1, fun h => hinterval'.2.2 (Json.float.inj h)⟩⟩
  · omega
  · unfold MAX_SAFE_INT
    omega

theorem query_good (hn : n.Readable) : ∃ q t, query n = [("query", q), ("query_truncated", t)] ∧
    q.Good (orNull (Defs.shortText 255)) ∧ t.Good Defs.bool := by
  have hu := hn.get "query"
  unfold query
  split
  · rename_i q hq
    rw [hq] at hu
    refine ⟨_, _, rfl, known_str_good (orNull_of (shortText_str (List.length_take_le _ _))) ?_, rfl, rfl, plain_bool _⟩
    exact hu.of_str.sub (List.take_subset _ _)
  · exact ⟨_, _, rfl, unavailable_good (orNull_null _) (by decide), rfl, rfl, plain_bool _⟩

theorem answers_good (rt : Runtime) (hn : n.Readable) (rcode : Outcome) :
    ∃ a t, answers rt n rcode = [("answers", a), ("answers_truncated", t)] ∧
      a.Good (orNull (all [type [.array], maxItems 16, items (Defs.shortText 255)])) ∧ t.Good Defs.bool := by
  have hu := hn.get "answers"
  have harray : ∀ ts : List PyStr, ts.length ≤ 16 → (∀ t ∈ ts, t.length ≤ 255 ∧ Unicode t) →
      (Outcome.known (.arr (ts.map .str))).Good
        (orNull (all [type [.array], maxItems 16, items (Defs.shortText 255)])) := by
    intro ts hlen hts
    refine ⟨orNull_of ?_, rfl, .arr fun x hx => ?_, fun h => by cases h⟩
    · rw [all_iff, List.forall_mem_cons, List.forall_mem_cons, List.forall_mem_singleton]
      refine ⟨rfl, ?_, ?_⟩
      · show decide ((ts.map Json.str).length ≤ 16) = true
        rw [List.length_map]
        exact decide_eq_true hlen
      · show (ts.map Json.str).all (Defs.shortText 255) = true
        rw [List.all_eq_true]
        intro x hx
        obtain ⟨t, ht, rfl⟩ := List.mem_map.1 hx
        exact shortText_str (hts t ht).1
    · obtain ⟨t, ht, rfl⟩ := List.mem_map.1 hx
      exact .str (hts t ht).2
  unfold answers
  split
  · rename_i _ xs hxs
    rw [hxs] at hu
    have htexts := harray (((xs.take 16).map (strDec rt)).map (·.take 255))
      (by simp) (by
        intro t ht
        obtain ⟨t', ht', rfl⟩ := List.mem_map.1 ht
        obtain ⟨x, hx, rfl⟩ := List.mem_map.1 ht'
        have hx' := strDec_unicode rt (hu.of_arr x (List.mem_of_mem_take hx))
        exact ⟨List.length_take_le _ _, hx'.sub (List.take_subset _ _)⟩)
    rw [List.map_map] at htexts
    exact ⟨_, _, rfl, htexts, rfl, rfl, plain_bool _⟩
  · exact ⟨_, _, rfl, harray [] (by decide) (fun _ ht => absurd ht List.not_mem_nil), rfl, rfl, plain_bool _⟩
  · exact ⟨_, _, rfl, unavailable_good (orNull_null _) (by decide), rfl, rfl, plain_bool _⟩

def dnsProps : List (String × Schema) :=
  Defs.endpoints Defs.zeekUid Defs.ip ++ [("proto", enum [some "udp", some "tcp"]), ("trans_id", Defs.portOrNull),
    ("rtt_s", Defs.durationOrNull), ("query", orNull (Defs.shortText 255)), ("query_truncated", Defs.bool),
    ("qclass", Defs.portOrNull), ("qtype", Defs.portOrNull),
    ("qtype_name", orNull (Defs.text (fun c => alnum c || oneOf "_*-" c) 1 16)), ("rcode", Defs.portOrNull),
    ("rcode_name", orNull (Defs.text (fun c => alnum c || oneOf "_-" c) 1 32)), ("aa", Defs.boolOrNull),
    ("tc", Defs.boolOrNull), ("rd", Defs.boolOrNull), ("ra", Defs.boolOrNull),
    ("answers", orNull (all [type [.array], maxItems 16, items (Defs.shortText 255)])),
    ("answers_truncated", Defs.bool), ("rejected", Defs.boolOrNull)]

theorem dns_good {b : Builder} (hn : n.Readable) (h : dns rt n = .ok (uid, b)) : b.Good dnsProps := by
  obtain ⟨⟨u, ends⟩, hends, h⟩ := Attempt.bind_eq_ok.1 h
  obtain ⟨proto, hproto, h⟩ := Attempt.bind_eq_ok.1 h
  obtain ⟨rfl, rfl⟩ := Prod.mk.inj (Except.ok.inj h)
  have hproto' : (Outcome.known (.str (pyStr proto))).Good (enum [some "udp", some "tcp"]) := by
    refine known_str_good ?_ (unicode_pyStr _)
    unfold dnsTransport at hproto
    split at hproto
    · rename_i hmem
      cases hproto
      rcases hmem with hmem | hmem <;> rw [hmem] <;> decide
    · cases hproto
  have hrcode : (count n "rcode" 65535 "MISSING" "no_response_observed").Good Defs.portOrNull :=
    small_good _ (by decide)
  have hnodup : ((dnsWrites rt n ends proto).map (·.1)).Nodup := dnsWrites_nodup hends proto
  obtain ⟨src, dst, hexplicit, huid, hsrc, hdst⟩ := endpoints_good hends
  obtain ⟨q, qt, hquery, hq, hqt⟩ := query_good hn
  obtain ⟨a, at', hanswers, ha, hat⟩ := answers_good rt hn (count n "rcode" 65535 "MISSING" "no_response_observed")
  have hnames : (dnsWrites rt n ends proto).map (·.1) = dnsProps.map (·.1) := by
    simp only [dnsWrites, List.map_append, endpoints_names hends, query_names, answers_names, List.map_cons,
      List.map_nil]
    rfl
  refine Builder.good_puts hnodup (fun w hw => ?_) ?_
  · exact hnames ▸ List.mem_map_of_mem hw
  · simp only [hquery, hanswers, hexplicit]
    simp only [dnsProps, Defs.endpoints, List.forall_mem_append, List.forall_mem_cons, List.not_mem_nil,
      false_imp_iff, implies_true, and_true]
    exact ⟨⟨⟨_, rfl, huid⟩, ⟨_, rfl, hsrc⟩, ⟨_, rfl, port_good _⟩, ⟨_, rfl, hdst⟩, ⟨_, rfl, port_good _⟩⟩,
      ⟨_, rfl, hproto'⟩, ⟨_, rfl, small_good _ (by decide)⟩, ⟨_, rfl, seconds_good _ (by decide)⟩, ⟨_, rfl, hq⟩,
      ⟨_, rfl, hqt⟩, ⟨_, rfl, small_good _ (by decide)⟩, ⟨_, rfl, small_good _ (by decide)⟩,
      ⟨_, rfl, text_good _ hn _ (by decide)⟩, ⟨_, rfl, hrcode⟩, ⟨_, rfl, text_good _ hn _ (by decide)⟩,
      ⟨_, rfl, boolean_good _ (by decide)⟩, ⟨_, rfl, boolean_good _ (by decide)⟩,
      ⟨_, rfl, boolean_good _ (by decide)⟩, ⟨_, rfl, boolean_good _ (by decide)⟩, ⟨_, rfl, ha⟩, ⟨_, rfl, hat⟩,
      ⟨_, rfl, boolean_good _ (by decide)⟩⟩

def sslProps : List (String × Schema) :=
  Defs.endpoints Defs.zeekUid Defs.ip ++
    [("version", orNull (Defs.text (fun c => alnum c || oneOf "._ -" c) 1 16)),
    ("cipher", orNull (Defs.text (fun c => alnum c || oneOf "_-" c) 1 128)),
    ("curve", orNull (Defs.text (fun c => alnum c || oneOf "_-" c) 1 64)),
    ("server_name", orNull (Defs.shortText 255)), ("resumed", Defs.boolOrNull), ("established", Defs.boolOrNull),
    ("next_protocol", Defs.shortTextOrNull), ("ssl_history", orNull (Defs.text alpha 0 64)),
    ("validation_status", orNull (Defs.shortText 128)), ("cert_chain_len", orNull (Defs.integer 0 32)),
    ("sni_matches_cert", Defs.boolOrNull)]

theorem ssl_good {b : Builder} (hn : n.Readable) (h : ssl n = .ok (uid, b)) : b.Good sslProps := by
  obtain ⟨⟨u, ends⟩, hends, h⟩ := Attempt.bind_eq_ok.1 h
  obtain ⟨rfl, rfl⟩ := Prod.mk.inj (Except.ok.inj h)
  have hnodup := sslWrites_nodup hends
  have hnames : (sslWrites n ends).map (·.1) = sslProps.map (·.1) := by
    simp only [sslWrites, List.map_append, endpoints_names hends, List.map_cons, List.map_nil]
    rfl
  obtain ⟨src, dst, hexplicit, huid, hsrc, hdst⟩ := endpoints_good hends
  refine Builder.good_puts hnodup (fun w hw => ?_) ?_
  · exact hnames ▸ List.mem_map_of_mem hw
  · simp only [hexplicit]
    simp only [sslProps, Defs.endpoints, List.forall_mem_append, List.forall_mem_cons, List.not_mem_nil,
      false_imp_iff, implies_true, and_true]
    exact ⟨⟨⟨_, rfl, huid⟩, ⟨_, rfl, hsrc⟩, ⟨_, rfl, port_good _⟩, ⟨_, rfl, hdst⟩, ⟨_, rfl, port_good _⟩⟩,
      ⟨_, rfl, text_good _ hn _ (by decide)⟩, ⟨_, rfl, text_good _ hn _ (by decide)⟩,
      ⟨_, rfl, text_good _ hn _ (by decide)⟩, ⟨_, rfl, anyText_good _ hn _ (by decide)⟩,
      ⟨_, rfl, boolean_good _ (by decide)⟩, ⟨_, rfl, boolean_good _ (by decide)⟩,
      ⟨_, rfl, anyText_good _ hn _ (by decide)⟩, ⟨_, rfl, text_good _ hn _ (by decide)⟩,
      ⟨_, rfl, anyText_good _ hn _ (by decide)⟩, ⟨_, rfl, certChainLen_good n⟩,
      ⟨_, rfl, boolean_good _ (by decide)⟩⟩

def weirdProps : List (String × Schema) :=
  Defs.endpoints (orNull Defs.zeekUid) Defs.ipOrNull ++
    [("name", Defs.text (fun c => alnum c || oneOf "_./:-" c) 1 128), ("addl", orNull (Defs.shortText 256)),
      ("notice", Defs.boolOrNull), ("peer", Defs.shortTextOrNull), ("source", Defs.shortTextOrNull)]

theorem weirdName_good {name : PyStr} (hname : name ≠ []) :
    (Outcome.known (.str ((weirdName name).take 128))).Good
      (Defs.text (fun c => alnum c || oneOf "_./:-" c) 1 128) := by
  have hclass : ∀ c ∈ weirdName name, (alnum c || oneOf "_./:-" c) = true := by
    intro c hc
    obtain ⟨c', -, rfl⟩ := List.mem_map.1 hc
    split
    · assumption
    · decide
  have hlen : 1 ≤ ((weirdName name).take 128).length := by
    cases name with
    | nil => exact absurd rfl hname
    | cons c cs => simp [weirdName]
  refine known_str_good (pattern_text (Regex.mem_run (fun c hc => hclass c (List.mem_of_mem_take hc)) hlen
    (List.length_take_le _ _))) fun c hc => ?_
  rcases Bool.or_eq_true_iff.1 (hclass c (List.mem_of_mem_take hc)) with h | h
  · exact alnum_lt h
  · exact unicode_pyStr _ c (of_decide_eq_true h)

theorem weirdUid_good (n : ZeekRecord) :
    ((weirdUid n).elim (.unavailable "NOT_APPLICABLE" "not_connection_scoped") fun u =>
      Outcome.known (.str u)).Good (orNull Defs.zeekUid) := by
  cases huid : weirdUid n with
  | none => exact unavailable_good (orNull_null _) (by decide)
  | some u =>
    have hmatch : UID u = true := by
      unfold weirdUid at huid
      split at huid
      · split at huid
        · rename_i h
          rw [← Option.some.inj huid]
          exact h
        · cases huid
      · cases huid
    refine known_str_good (orNull_of (text_conforms hmatch)) fun c hc => ?_
    exact alnum_lt (List.all_eq_true.1 (of_decide_eq_true hmatch).2.2 c hc)

theorem addl_good (rt : Runtime) (hn : n.Readable) : (addl rt n).Good (orNull (Defs.shortText 256)) := by
  have hu := strDec_unicode rt (hn.get "addl")
  unfold addl
  split
  · exact unavailable_good (orNull_null _) (by decide)
  · exact known_str_good (orNull_of (shortText_str (List.length_take_le _ _))) (hu.sub (List.take_subset _ _))

theorem weird_good {b : Builder} {uid : Option PyStr} (hn : n.Readable) (h : weird rt n = .ok (uid, b)) :
    b.Good weirdProps := by
  obtain ⟨name, hname, h⟩ := Attempt.bind_eq_ok.1 h
  obtain ⟨rfl, rfl⟩ := Prod.mk.inj (Except.ok.inj h)
  have hne : name ≠ [] := by
    unfold requiredName at hname
    split at hname
    · split at hname
      · cases hname
      · rename_i hne
        cases hname
        exact hne
    · cases hname
  show (Builder.empty.puts (weirdWrites rt n name)).Good weirdProps
  refine Builder.good_puts ?_ (fun w hw => ?_) ?_
  · show (["uid", "src_ip", "dst_ip", "src_port", "dst_port", "name", "addl", "notice", "peer", "source"]).Nodup
    decide
  · have hall : ∀ f ∈ ["uid", "src_ip", "dst_ip", "src_port", "dst_port", "name", "addl", "notice", "peer",
        "source"], f ∈ weirdProps.map (·.1) := by decide
    exact hall w.1 (List.mem_map_of_mem (f := (·.1)) hw)
  · have hcount : ∀ zeek, (count n zeek 65535 "NOT_APPLICABLE" "not_connection_scoped").Good Defs.portOrNull :=
      fun zeek => small_good zeek (by decide)
    simp only [weirdProps, Defs.endpoints, List.forall_mem_append, List.forall_mem_cons, List.not_mem_nil,
      false_imp_iff, implies_true, and_true]
    exact ⟨⟨⟨_, rfl, weirdUid_good n⟩, ⟨_, rfl, endpoint_good _⟩, ⟨_, rfl, hcount _⟩, ⟨_, rfl, endpoint_good _⟩,
      ⟨_, rfl, hcount _⟩⟩, ⟨_, rfl, weirdName_good hne⟩, ⟨_, rfl, addl_good rt hn⟩,
      ⟨_, rfl, boolean_good _ (by decide)⟩, ⟨_, rfl, anyText_good _ hn _ (by decide)⟩,
      ⟨_, rfl, anyText_good _ hn _ (by decide)⟩⟩

/-- The properties of the payloads, by log type. -/
def payloadProps : List (String × List (String × Schema)) :=
  [("conn", connProps), ("flow_update", sharedProps ++ snapshotProps), ("dns", dnsProps), ("ssl", sslProps),
    ("weird", weirdProps)]

theorem payloads_eq : payloads = payloadProps.map fun p => (p.1, record p.2) := rfl

/-- **Every payload conforms.** -/
theorem payloadOf_good {logType : String} {b : Builder} {uid : Option PyStr} {ts emit : Int}
    (hlog : logType ∈ LOG_TYPES) (hn : n.Readable) (h : payloadOf rt coverage logType n ts = .ok (uid, b, emit)) :
    ∃ ps, (logType, ps) ∈ payloadProps ∧ b.Good ps := by
  simp only [LOG_TYPES, List.mem_cons, List.not_mem_nil, or_false] at hlog
  rcases hlog with rfl | rfl | rfl | rfl | rfl
  · obtain ⟨⟨u, b'⟩, hconn, h⟩ := Attempt.bind_eq_ok.1 (show (connLike rt coverage n true >>= _) = _ from h)
    obtain ⟨emit', -, h⟩ := Attempt.bind_eq_ok.1 h
    cases h
    refine ⟨connProps, List.mem_cons_self, connLike_good hn hconn (fun p hp => ?_) (by decide) (by decide +kernel)⟩
    rcases List.mem_append.1 hp with hp | hp
    · exact .inl (List.mem_append_left _ hp)
    · simp only [List.mem_cons, List.not_mem_nil, or_false] at hp
      rcases hp with rfl | rfl | rfl | rfl | rfl
      · exact .inr ⟨rfl, by simp⟩
      · exact .inr ⟨rfl, by simp⟩
      · exact .inl (List.mem_append_right _ (by simp))
      · exact .inr ⟨rfl, by simp⟩
      · exact .inr ⟨rfl, by simp⟩
  · obtain ⟨⟨u, b'⟩, hconn, h⟩ := Attempt.bind_eq_ok.1 (show (connLike rt coverage n false >>= _) = _ from h)
    obtain ⟨ws, hws, h⟩ := Attempt.bind_eq_ok.1 h
    cases h
    have hconn' : b'.Good sharedProps := connLike_good hn hconn (fun p hp => .inl hp) (by decide) (by decide +kernel)
    obtain ⟨hnames, hqs⟩ := snapshot_good hws
    have hmem : ∀ w ∈ ws, w.1 ∈ ["snapshot_seq", "snapshot_interval_s"] :=
      fun w hw => hnames ▸ List.mem_map_of_mem hw
    have hnew : ∀ f ∈ ["snapshot_seq", "snapshot_interval_s"], f ∉ sharedProps.map (·.1) := by decide
    exact ⟨_, .tail _ List.mem_cons_self, hconn'.puts (hnames ▸ by decide) (fun w hw => hnew _ (hmem w hw)) hmem hqs⟩
  · obtain ⟨⟨u, b'⟩, hdns, h⟩ := Attempt.bind_eq_ok.1 (show (dns rt n >>= _) = _ from h)
    cases h
    exact ⟨dnsProps, by simp [payloadProps], dns_good hn hdns⟩
  · obtain ⟨⟨u, b'⟩, hssl, h⟩ := Attempt.bind_eq_ok.1 (show (ssl n >>= _) = _ from h)
    cases h
    exact ⟨sslProps, by simp [payloadProps], ssl_good hn hssl⟩
  · obtain ⟨⟨u, b'⟩, hweird, h⟩ := Attempt.bind_eq_ok.1 (show (weird rt n >>= _) = _ from h)
    cases h
    exact ⟨weirdProps, by simp [payloadProps], weird_good hn hweird⟩

end Payloads

end OTS.Sender
