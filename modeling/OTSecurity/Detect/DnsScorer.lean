import OTSecurity.Detect.DgaFeatures
import OTSecurity.Detect.Alerts

/-!
# Scoring of DNS queries

Model of `DnsScorer` of `flink/sih_detect/dns.py`, with `AssetInventory.domain_allowlisted` and the model that
`DgaModel` has loaded.

* `domainAllowlisted` — the check of the text of a query; `Covered` — what it is for, of a name.
* `DgaModel.score` — a run of the model, which is disabled after errors.
* `observe` — what is said of a query.

Principal results: `observe_unless_skipped` — but for the allow-list, what is said of a query is said of its
normal form; `observe_normalizes_iff` — when queries of one normal form are told apart.
-/

namespace OTS.Detect

/-! ## The allow-list -/

/-- `allow_domains`, from those of the document. -/
def allowDomains (u : Unicode) (doc : List PyStr) : List PyStr :=
  doc.map fun d => rstripDots ((u.lower d).dropWhile (· = DOT))

/-- The name is the domain or below it. -/
def Below (d name : PyStr) : Prop := name = d ∨ DOT :: d <:+ name

instance (d name : PyStr) : Decidable (Below d name) := inferInstanceAs (Decidable (_ ∨ _))

/-- `domain_allowlisted`. -/
def domainAllowlisted (u : Unicode) (domains : List PyStr) (name : PyStr) : Bool :=
  name ≠ [] ∧ ∃ d ∈ domains, Below d (rstripDots (u.lower name))

/-! ## The model -/

/-- The state of `DgaModel`, and what it was loaded with. -/
structure DgaModel where
  active : Bool
  consecutiveErrors : Nat
  disableAfter : Nat
  version : Option String
  threshold : Rat
  bigramTable : List (List Rat)
  /-- Coefficients, means and scales. -/
  explanation : List (Rat × Rat × Rat)
  /-- `_run`; `none` when it raises. -/
  run : List Rat → Option Rat

/-- `score`, without the time that it takes. -/
def DgaModel.score (m : DgaModel) (vec : List Rat) : Option Rat × DgaModel :=
  if !m.active then (none, m)
  else
    match m.run vec with
    | some p => (some p, { m with consecutiveErrors := 0 })
    | none =>
      let errors := m.consecutiveErrors + 1
      (none, { m with
        consecutiveErrors := errors
        active := errors < m.disableAfter })

/-- `contributions`. -/
def DgaModel.contributions (m : DgaModel) (vec : List Rat) : List TopFeature :=
  let items := (FEATURE_NAMES.zip (vec.zip m.explanation)).map fun (name, x, w, mu, sd) =>
    (name, x, w * (x - mu) / sd)
  ((items.mergeSort fun a b => |b.2.2| ≤ |a.2.2|).take 5).map fun (name, x, share) =>
    ⟨name, .float x, .float share, none⟩

/-! ## Queries -/

/-- What `observe` reads of an event. -/
structure DnsEvent where
  src : String
  query : Option PyStr
  rcodeName : Option String
  qtypeName : Option String
  eventId : String
  obsMs : Int
  eventTimeUs : Int
  offsetUs : Int
  receivedUs : Int
  sensorId : String
  run : Option String
  coverage : String

/-- What `observe` says, without the time that the model takes. -/
structure Observation where
  ev : DnsEvent
  nx : Bool
  registrable : Option PyStr := none
  sub : Option PyStr := none
  vec : Option (List Rat) := none
  p : Option Rat := none
  lex : Option Bool := none
  eligible : Bool := false
  reason : Option String := none
  modelVersion : Option String := none
  contrib : Option (List TopFeature) := none

def DnsEvent.observation (ev : DnsEvent) : Observation :=
  { ev := ev, nx := ev.rcodeName = some "NXDOMAIN" }

/-- `fallback_table`. -/
def fallbackTable (M : Maths) : List (List Rat) := fitBigramTable M []

/-- The vector is scored. -/
def Observation.scored (obs : Observation) (model : DgaModel) (vec : List Rat) : Observation × DgaModel :=
  let obs := { obs with vec := some vec, lex := some (lexicalRule vec) }
  if model.active then
    match model.score vec with
    | (some p, model) =>
      ({ obs with
          p := some p
          eligible := true
          modelVersion := model.version
          contrib := if model.threshold ≤ p then some (model.contributions vec) else none }, model)
    | (none, model) => ({ obs with reason := some "model_error" }, model)
  else ({ obs with reason := some "model_unavailable" }, model)

/-- `observe`. -/
def observe (u : Unicode) (M : Maths) (domains : List PyStr) (model : DgaModel) (ev : DnsEvent) :
    Observation × DgaModel :=
  let obs := ev.observation
  match ev.query with
  | none => ({ obs with reason := some "query_unavailable" }, model)
  | some q =>
    if domainAllowlisted u domains q || isIpText (rstripDots q) then
      ({ obs with
          reason := some (if isIpText (rstripDots q) then "not_registrable" else "allowlisted") }, model)
    else
      match normalizeName u q >>= splitRegistrable u with
      | .error reason => ({ obs with reason := some reason }, model)
      | .ok r =>
        let obs := { obs with
          registrable := some r.domain
          sub := if r.sub = [] then none else some (joinDots r.sub) }
        match extract u M q (if model.active then model.bigramTable else fallbackTable M) with
        | .error reason => ({ obs with reason := some reason }, model)
        | .ok vec => obs.scored model vec

/-! ## What is said of a name -/

/-- The reason, the registrable domain, the subdomain and the feature vector. -/
def Observation.outcome (obs : Observation) :
    Option String × Option PyStr × Option PyStr × Option (List Rat) :=
  (obs.reason, obs.registrable, obs.sub, obs.vec)

/-- A vector that is scored. -/
def DgaModel.reason (m : DgaModel) (vec : List Rat) : Option String :=
  if m.active then if (m.run vec).isSome then none else some "model_error" else some "model_unavailable"

/-- What is said of a query by its normal form alone. -/
def nameOutcome (u : Unicode) (M : Maths) (model : DgaModel) (name : Except String PyStr) :
    Option String × Option PyStr × Option PyStr × Option (List Rat) :=
  match name with
  | .error reason => (some reason, none, none, none)
  | .ok name =>
    match splitRegistrable u name with
    | .error reason => (some reason, none, none, none)
    | .ok r =>
      let sub := if r.sub = [] then none else some (joinDots r.sub)
      if r.sld.length < MIN_SLD_LEN then (some "label_too_short", some r.domain, sub, none)
      else
        let vec := features u M name r (if model.active then model.bigramTable else fallbackTable M)
        (model.reason vec, some r.domain, sub, some vec)

/-- The query is let through as allowed. -/
def Skipped (u : Unicode) (domains : List PyStr) (q : PyStr) : Prop :=
  domainAllowlisted u domains q ∧ ¬ isIpText (rstripDots q)

/-- The name has a label that is long enough to be scored. -/
def Scorable (u : Unicode) (name : Except String PyStr) : Prop :=
  ∃ n r, name = .ok n ∧ splitRegistrable u n = .ok r ∧ MIN_SLD_LEN ≤ r.sld.length

section

variable {u : Unicode} {M : Maths} {domains : List PyStr} {model : DgaModel} {ev : DnsEvent} {q : PyStr}

theorem scored_outcome (obs : Observation) (model : DgaModel) (vec : List Rat) (hnone : obs.reason = none) :
    (obs.scored model vec).1.outcome = (model.reason vec, obs.registrable, obs.sub, some vec) := by
  unfold Observation.scored DgaModel.reason
  cases hactive : model.active with
  | false => rfl
  | true =>
    unfold DgaModel.score
    simp only [hactive, if_true, Bool.not_true, Bool.false_eq_true, if_false]
    cases model.run vec with
    | none => rfl
    | some p =>
      show (obs.reason, obs.registrable, obs.sub, some vec) = _
      rw [hnone]
      rfl

theorem observe_skipped (hq : ev.query = some q) (h : Skipped u domains q) :
    (observe u M domains model ev).1.outcome = (some "allowlisted", none, none, none) := by
  obtain ⟨hallowed, hip⟩ := h
  rw [Bool.not_eq_true] at hip
  unfold observe
  simp only [hq, hallowed, hip, Bool.true_or, if_true]
  rfl

theorem nameOutcome_address (h : isIpText (rstripDots q)) :
    nameOutcome u M model (normalizeName u q) = (some "not_registrable", none, none, none) := by
  obtain ⟨name, hname, hsplit⟩ := @address_not_registrable u q h
  unfold nameOutcome
  rw [hname]
  simp only [hsplit]

/-- **What is said of a query is said of its normal form**, unless it is let through as allowed. -/
theorem observe_unless_skipped (hq : ev.query = some q) (h : ¬ Skipped u domains q) :
    (observe u M domains model ev).1.outcome = nameOutcome u M model (normalizeName u q) := by
  cases hip : isIpText (rstripDots q) with
  | true =>
    rw [nameOutcome_address hip]
    unfold observe
    simp only [hq, hip, Bool.or_true, if_true]
    rfl
  | false =>
    have hallowed : domainAllowlisted u domains q = false := by
      cases hall : domainAllowlisted u domains q with
      | false => rfl
      | true => exact absurd ⟨hall, by simp [hip]⟩ h
    unfold observe extract nameOutcome
    simp only [hq, hip, hallowed, Bool.or_self, Bool.false_eq_true, if_false, bind, Except.bind]
    cases hname : normalizeName u q with
    | error reason => rfl
    | ok name =>
      simp only
      cases hsplit : splitRegistrable u name with
      | error reason => rfl
      | ok r =>
        simp only
        by_cases hshort : r.sld.length < MIN_SLD_LEN
        · simp only [if_pos hshort]
          rfl
        · simp only [if_neg hshort]
          exact scored_outcome _ model _ rfl

theorem normalizeName_reason {reason : String} (h : normalizeName u q = .error reason) :
    reason = "query_unavailable" ∨ reason = "query_out_of_range" := by
  unfold normalizeName at h
  split at h
  · cases h
    exact .inl rfl
  · simp only at h
    split at h
    · cases h
      exact .inr rfl
    · cases h

/-- Nothing else is said to be allowed. -/
theorem nameOutcome_not_allowed (q : PyStr) :
    (nameOutcome u M model (normalizeName u q)).1 ≠ some "allowlisted" := by
  unfold nameOutcome
  cases hname : normalizeName u q with
  | error reason =>
    rcases normalizeName_reason hname with rfl | rfl
    · simp
    · simp
  | ok name =>
    simp only
    cases hsplit : splitRegistrable u name with
    | error reason =>
      rw [splitRegistrable_error hsplit]
      simp
    | ok r =>
      simp only
      split
      · simp
      · unfold DgaModel.reason
        split
        · split
          · simp
          · simp
        · simp

/-- The vector is absent unless the name can be scored. -/
theorem nameOutcome_vec (name : Except String PyStr) :
    (nameOutcome u M model name).2.2.2 = none ↔ ¬ Scorable u name := by
  unfold nameOutcome Scorable
  cases name with
  | error reason => simp
  | ok name =>
    simp only
    cases hsplit : splitRegistrable u name with
    | error reason => simp [hsplit]
    | ok r =>
      simp only
      split
      · simp only [true_iff]
        rintro ⟨n, r', hn, hr', hlong⟩
        cases hn
        cases hsplit.symm.trans hr'
        omega
      · simp only [reduceCtorEq, false_iff, not_not]
        exact ⟨name, r, rfl, hsplit, by omega⟩

/-- No query is scored without a vector. -/
theorem observe_p (h : (observe u M domains model ev).1.vec = none) :
    (observe u M domains model ev).1.p = none := by
  have hscored : ∀ (obs : Observation) vec, (obs.scored model vec).1.vec = some vec := by
    intro obs vec
    unfold Observation.scored
    split
    · split <;> rfl
    · rfl
  revert h
  unfold observe
  split
  · exact fun _ => rfl
  · simp only
    split
    · exact fun _ => rfl
    · split
      · exact fun _ => rfl
      · split
        · exact fun _ => rfl
        · rw [hscored]
          intro h
          cases h

/-! ## Queries of one normal form -/

/-- The normal form is an allowed domain or below one, or an address. -/
def Protected (u : Unicode) (domains : List PyStr) (q : PyStr) : Prop :=
  ∃ name, normalizeName u q = .ok name ∧ ((∃ d ∈ domains, Below d name) ∨ isIpText name)

/-- No vector and no score. -/
def Observation.Unscored (obs : Observation) : Prop := obs.vec = none ∧ obs.p = none

/-- Without white space around it, a query is allowed when its normal form is. -/
theorem trimmed_allowlisted {name : PyStr} (htrim : strip q = q) (hname : normalizeName u q = .ok name) :
    domainAllowlisted u domains q ↔ ∃ d ∈ domains, Below d name := by
  unfold normalizeName at hname
  rw [htrim] at hname
  split at hname
  · cases hname
  · rename_i hne
    simp only at hname
    split at hname
    · cases hname
    · cases hname
      unfold domainAllowlisted
      rw [decide_eq_true_eq]
      exact and_iff_right hne

theorem observe_unscored_iff (hq : ev.query = some q) :
    (observe u M domains model ev).1.Unscored ↔
      domainAllowlisted u domains q ∨ ¬ Scorable u (normalizeName u q) := by
  have hvec : (observe u M domains model ev).1.Unscored ↔
      (observe u M domains model ev).1.outcome.2.2.2 = none := and_iff_left_of_imp observe_p
  rw [hvec]
  by_cases h : Skipped u domains q
  · rw [observe_skipped hq h]
    exact iff_of_true rfl (.inl h.1)
  · rw [observe_unless_skipped hq h, nameOutcome_vec]
    refine ⟨.inr, ?_⟩
    rintro (hallowed | hname)
    · -- allowed and not let through: an address
      have hip : isIpText (rstripDots q) = true := by
        by_contra hip
        exact h ⟨hallowed, hip⟩
      rw [← @nameOutcome_vec u M model, nameOutcome_address hip]
    · exact hname

/-- **Queries of one normal form** are told apart exactly when one of them is let through as allowed and the
other is not; and one that is protected is scored exactly when its own text is not allowed although its name
has a label to score. -/
theorem observe_normalizes_iff (u : Unicode) (M : Maths) (domains : List PyStr) (model : DgaModel)
    (ev ev' : DnsEvent) (q q' : PyStr) (hq : ev.query = some q) (hq' : ev'.query = some q')
    (hname : normalizeName u q = normalizeName u q') :
    ((observe u M domains model ev).1.outcome = (observe u M domains model ev').1.outcome ↔
        (Skipped u domains q ↔ Skipped u domains q')) ∧
      ((Protected u domains q → (observe u M domains model ev).1.Unscored) ↔
        (Protected u domains q → domainAllowlisted u domains q ∨ ¬ Scorable u (normalizeName u q))) := by
  refine ⟨?_, by rw [observe_unscored_iff hq]⟩
  have hother : ∀ q'', nameOutcome u M model (normalizeName u q'') ≠ (some "allowlisted", none, none, none) :=
    fun q'' h => nameOutcome_not_allowed q'' (congrArg Prod.fst h)
  by_cases h : Skipped u domains q
  · rw [observe_skipped hq h]
    by_cases h' : Skipped u domains q'
    · rw [observe_skipped hq' h']
      exact iff_of_true rfl (iff_of_true h h')
    · rw [observe_unless_skipped hq' h']
      exact iff_of_false (hother q').symm fun hboth => h' (hboth.1 h)
  · rw [observe_unless_skipped hq h]
    by_cases h' : Skipped u domains q'
    · rw [observe_skipped hq' h']
      exact iff_of_false (hother q) fun hboth => h (hboth.2 h')
    · rw [observe_unless_skipped hq' h', hname]
      exact iff_of_true rfl (iff_of_false h h')

end

/-- No model. -/
def sampleRulesOnly : DgaModel := ⟨false, 0, 20, none, 9 / 10, [], [], fun _ => none⟩

def sampleDnsEvent (query : String) : DnsEvent :=
  ⟨"10.10.1.40", some (pyStr query), none, some "A", "e", 0, 0, 0, 0, "ot-sensor-01", none, "both_directions"⟩

def sampleDomains : List PyStr :=
  allowDomains sampleUnicode [pyStr "plant.local", pyStr "vendor-updates.example.com"]

/-- A model that gives every name the same score. -/
def sampleModel : DgaModel := ⟨true, 0, 20, some "dga-1", 9 / 10, [], [], fun _ => some (95 / 100)⟩

/-- Two spellings of a name that is not allowed: both are scored. -/
theorem observe_normalizes_iff_sample :
    (observe sampleUnicode sampleMaths sampleDomains sampleModel
        (sampleDnsEvent "Update.XKQZJWVB.com. ")).1.outcome =
      (observe sampleUnicode sampleMaths sampleDomains sampleModel
        (sampleDnsEvent "update.xkqzjwvb.com")).1.outcome ∧
    (observe sampleUnicode sampleMaths sampleDomains sampleModel
      (sampleDnsEvent "update.xkqzjwvb.com")).1.p = some (95 / 100) :=
  ⟨(observe_normalizes_iff sampleUnicode sampleMaths sampleDomains sampleModel _ _
    (pyStr "Update.XKQZJWVB.com. ") (pyStr "update.xkqzjwvb.com") rfl rfl (by decide +kernel)).1.2
    (by unfold Skipped; decide +kernel), by decide +kernel⟩

/-- An allowed name with a blank after it is scored. -/
theorem blank_evades_allowlist :
    (¬ ∀ ev ev' : DnsEvent, ∀ q q', ev.query = some q → ev'.query = some q' →
      normalizeName sampleUnicode q = normalizeName sampleUnicode q' →
      (observe sampleUnicode sampleMaths sampleDomains sampleRulesOnly ev).1.outcome =
        (observe sampleUnicode sampleMaths sampleDomains sampleRulesOnly ev').1.outcome) ∧
      ¬ ∀ (ev : DnsEvent) q, ev.query = some q → Protected sampleUnicode sampleDomains q →
        (observe sampleUnicode sampleMaths sampleDomains sampleRulesOnly ev).1.Unscored := by
  constructor
  · intro h
    have hsame := h (sampleDnsEvent "vendor-updates.example.com") (sampleDnsEvent "vendor-updates.example.com ")
      _ _ rfl rfl (by decide +kernel)
    have hreason : ∀ ev : DnsEvent, ∀ reason,
        (observe sampleUnicode sampleMaths sampleDomains sampleRulesOnly ev).1.reason = some reason →
        (observe sampleUnicode sampleMaths sampleDomains sampleRulesOnly ev).1.outcome.1 = some reason :=
      fun _ _ hr => hr
    rw [Prod.ext_iff, hreason _ "allowlisted" (by decide +kernel),
      hreason _ "model_unavailable" (by decide +kernel)] at hsame
    exact absurd hsame.1 (by decide)
  · intro h
    have hunscored := h (sampleDnsEvent "vendor-updates.example.com ") _ rfl
      ⟨pyStr "vendor-updates.example.com", by decide +kernel, .inl (by decide +kernel)⟩
    have hvec : (observe sampleUnicode sampleMaths sampleDomains sampleRulesOnly
        (sampleDnsEvent "vendor-updates.example.com ")).1.vec.isSome := by decide +kernel
    rw [hunscored.1] at hvec
    cases hvec

end OTS.Detect
