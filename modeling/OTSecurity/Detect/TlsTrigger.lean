import Mathlib.Algebra.Order.BigOperators.Group.List
import Mathlib.Algebra.Order.Field.Rat
import Mathlib.Data.Fintype.Option
import Mathlib.Data.Fintype.Prod
import Mathlib.Data.Multiset.Defs
import OTSecurity.Detect.Identity
import OTSecurity.Lib.Carried
import OTSecurity.Lib.Largest

/-!
# What a TLS finding rests on

The trigger of `EncryptedLogic` of `flink/sih_detect/encrypted.py` as a statement about sessions.

* `judged` — the score of a session and how many indicators are positive; `Qualifies` — one session that
  meets both bounds.
* `sessionsOf` — the sessions that the state carries, from the last reset on; `scoredOf` — those scored.
* `TlsState.Sums` — the state sums them up: how many were scored, and the last of the best.

Principal results: `tls_trigger_iff` — the trigger is order-independent and monotone exactly when the last
of the best sessions is one that qualifies, if any does; `tls_findings_recent` — findings rest on sessions
within the horizon if no older session is still carried.
-/

namespace OTS.Detect

variable {cfg : DetectConfig} {inv : Inventory} {key : String}

/-! ## Sessions -/

def TlsEvent.shows (inv : Inventory) (ev : TlsEvent) : List (String × Option Bool) :=
  indicators ev.p ev.a (!inv.isLocal ev.p.dstIp)

/-- The score of a session and the number of positive indicators; `none` when it abstains. -/
def judged (cfg : DetectConfig) (inv : Inventory) (ev : TlsEvent) : Option (Rat × Nat) :=
  (scoreOf cfg (ev.shows inv)).map fun score => (score, (positivesOf (ev.shows inv)).length)

/-- One session that meets both bounds. -/
def Qualifies (cfg : DetectConfig) (j : Rat × Nat) : Prop :=
  cfg.tlsMinScore ≤ j.1 ∧ cfg.tlsMinPositive ≤ j.2

instance (cfg : DetectConfig) (j : Rat × Nat) : Decidable (Qualifies cfg j) :=
  inferInstanceAs (Decidable (_ ∧ _))

/-- There is no state, or its last session is too old: the next one starts a new state. -/
def tlsRestarts (cfg : DetectConfig) : Option TlsState → TlsEvent → Bool
  | none, _ => true
  | some s, ev => s.last.obsMs + cfg.tlsHorizonMs < ev.obsMs

/-- The sessions that the state carries. -/
def sessionsOf (cfg : DetectConfig) (inv : Inventory) (key : String) (calls : List (Call TlsEvent)) :
    List TlsEvent :=
  (encryptedLogic cfg inv key).carried (tlsRestarts cfg) calls

/-- The scored ones of them. -/
def scoredOf (cfg : DetectConfig) (inv : Inventory) (key : String) (calls : List (Call TlsEvent)) :
    List (Rat × Nat) :=
  (sessionsOf cfg inv key calls).filterMap (judged cfg inv)

/-- The condition under which a finding may be raised. -/
def triggered (cfg : DetectConfig) (inv : Inventory) (key : String) (calls : List (Call TlsEvent)) :
    Bool :=
  ((encryptedLogic cfg inv key).valueAfter none calls).any (·.triggers cfg)

/-! ## Scores -/

theorem weight_nonneg (name : String) : 0 ≤ weight name := by
  have hall : ∀ p ∈ WEIGHTS, 0 ≤ p.2 := by decide +kernel
  unfold weight
  cases h : WEIGHTS.lookup name with
  | none => exact le_refl 0
  | some w =>
    have hmem : (name, w) ∈ WEIGHTS := by
      rw [List.lookup_eq_some_iff] at h
      obtain ⟨before, after, heq, -⟩ := h
      rw [heq]
      exact List.mem_append_right _ List.mem_cons_self
    exact hall _ hmem

theorem weights_nonneg (names : List String) : 0 ≤ (names.map weight).sum := by
  apply List.sum_nonneg
  intro w hw
  obtain ⟨name, -, rfl⟩ := List.mem_map.1 hw
  exact weight_nonneg name

theorem judged_nonneg {ev : TlsEvent} {j : Rat × Nat} (h : judged cfg inv ev = some j) : 0 ≤ j.1 := by
  unfold judged scoreOf at h
  split at h
  · cases h
  · cases h
    exact div_nonneg (weights_nonneg _) (weights_nonneg _)

/-! ## The state -/

/-- The state sums up sessions: how many were scored, and the last of the best. -/
structure TlsState.Sums (cfg : DetectConfig) (inv : Inventory) (s : TlsState) (es : List TlsEvent) :
    Prop where
  scored : s.scored = (es.filterMap (judged cfg inv)).length
  best : (s.maxScore, s.maxPos) = latest Prod.fst (0, 0) (es.filterMap (judged cfg inv))

theorem TlsState.Sums.fresh (ev : TlsEvent) : (TlsState.fresh ev).Sums cfg inv [] := ⟨rfl, rfl⟩

/-- One more session. -/
theorem TlsState.Sums.add {s : TlsState} {es : List TlsEvent} (h : s.Sums cfg inv es) (ev : TlsEvent) :
    (s.add cfg ev (ev.shows inv)).Sums cfg inv (es ++ [ev]) := by
  have hjudged : (es ++ [ev]).filterMap (judged cfg inv) =
      es.filterMap (judged cfg inv) ++ (judged cfg inv ev).toList := by
    rw [List.filterMap_append]
    cases hj : judged cfg inv ev <;> simp [hj]
  unfold TlsState.add
  cases hscore : scoreOf cfg (ev.shows inv) with
  | none =>
    have hnone : judged cfg inv ev = none := by rw [judged, hscore]; rfl
    rw [hnone, Option.toList_none, List.append_nil] at hjudged
    exact ⟨hjudged ▸ h.scored, hjudged ▸ h.best⟩
  | some score =>
    have hsome : judged cfg inv ev = some (score, (positivesOf (ev.shows inv)).length) := by
      rw [judged, hscore]
      rfl
    rw [hsome] at hjudged
    have hbest := h.best
    constructor
    · rw [hjudged, List.length_append, ← h.scored]
      simp only
      split <;> rfl
    · rw [hjudged]
      unfold latest at hbest ⊢
      rw [Option.toList_some, List.foldl_append, ← hbest]
      simp only [List.foldl_cons, List.foldl_nil]
      split <;> rfl

theorem encrypted_clears (cfg : DetectConfig) (inv : Inventory) (key : String) :
    (encryptedLogic cfg inv key).Clears := by
  intro now v ts
  show (encryptedOnTimer cfg v ts).value = none ∨ (encryptedOnTimer cfg v ts).value = v
  unfold encryptedOnTimer
  cases v with
  | none => exact .inl rfl
  | some s =>
    simp only
    split
    · exact .inl rfl
    · exact .inr rfl

/-- What an event leaves is what `add` makes of the state, but for what has been raised and shown. -/
theorem encrypted_value (now : Int) (v : Option TlsState) (ev : TlsEvent) :
    ∃ s, ((encryptedLogic cfg inv key).onEvent now v ev).value = some s ∧
      s.scored = ((TlsState.current cfg v ev).add cfg ev (ev.shows inv)).scored ∧
      (s.maxScore, s.maxPos) = (((TlsState.current cfg v ev).add cfg ev (ev.shows inv)).maxScore,
        ((TlsState.current cfg v ev).add cfg ev (ev.shows inv)).maxPos) := by
  refine ⟨_, rfl, ?_⟩
  have hraised : ∀ (s : TlsState) (raise : Bool) (rank : Int),
      (if raise then { s with rank := rank } else s).scored = s.scored ∧
        ((if raise then { s with rank := rank } else s).maxScore,
          (if raise then { s with rank := rank } else s).maxPos) = (s.maxScore, s.maxPos) := by
    intro s raise rank
    cases raise <;> exact ⟨rfl, rfl⟩
  simp only
  split <;> exact hraised ..

theorem encrypted_sums (now : Int) (v : Option TlsState) (ev : TlsEvent) {es : List TlsEvent}
    (h : ((TlsState.current cfg v ev).add cfg ev (ev.shows inv)).Sums cfg inv es) :
    ∃ s, ((encryptedLogic cfg inv key).onEvent now v ev).value = some s ∧ s.Sums cfg inv es := by
  obtain ⟨s, hs, hscored, hbest⟩ := encrypted_value now v ev
  exact ⟨s, hs, hscored.trans h.scored, hbest.trans h.best⟩

/-- A finding is raised when the state after the event triggers. -/
theorem encrypted_raises {now : Int} {v : Option TlsState} {ev : TlsEvent} {f : Finding}
    (h : Emitted.out f ∈ ((encryptedLogic cfg inv key).onEvent now v ev).out) :
    ((encryptedLogic cfg inv key).onEvent now v ev).value.any (·.triggers cfg) = true := by
  obtain ⟨s, hs, hscored, hbest⟩ := @encrypted_value cfg inv key now v ev
  obtain ⟨hscore, hpos⟩ := Prod.mk.inj hbest
  have htriggers : ((TlsState.current cfg v ev).add cfg ev (ev.shows inv)).triggers cfg = true := by
    rcases List.mem_append.1 h with h | h
    · by_contra hquiet
      rw [Bool.not_eq_true] at hquiet
      unfold TlsEvent.shows at hquiet
      rw [hquiet] at h
      cases h
    · -- the others are features
      simp only at h
      split at h
      · cases h
      · rw [List.mem_ite_nil_right] at h
        cases List.mem_singleton.1 h.2
  rw [hs]
  show s.triggers cfg = true
  unfold TlsState.triggers at htriggers ⊢
  rw [hscored, hscore, hpos]
  exact htriggers

/-- **The state sums up the sessions that it carries.** -/
theorem state_sums (cfg : DetectConfig) (inv : Inventory) (key : String) (calls : List (Call TlsEvent)) :
    match (encryptedLogic cfg inv key).valueAfter none calls with
    | none => sessionsOf cfg inv key calls = []
    | some s => sessionsOf cfg inv key calls ≠ [] ∧ s.Sums cfg inv (sessionsOf cfg inv key calls) := by
  apply Logic.carried_invariant (encrypted_clears cfg inv key)
    (P := fun es v => match v with
      | none => es = []
      | some s => es ≠ [] ∧ s.Sums cfg inv es)
  · rfl
  · intro now v e hr
    have hcurrent : TlsState.current cfg v e = .fresh e := by
      unfold TlsState.current
      cases v with
      | none => rfl
      | some s => exact if_pos (of_decide_eq_true hr)
    obtain ⟨s, hs, hsums⟩ := encrypted_sums now v e
      (hcurrent ▸ (TlsState.Sums.fresh e).add e)
    rw [hs]
    exact ⟨List.cons_ne_nil _ _, hsums⟩
  · intro now es v e hr h
    cases v with
    | none => cases hr
    | some s =>
      have hcurrent : TlsState.current cfg (some s) e = s := if_neg (of_decide_eq_false hr)
      obtain ⟨s', hs', hsums⟩ := encrypted_sums now (some s) e
        (hcurrent ▸ TlsState.Sums.add h.2 e)
      rw [hs']
      exact ⟨List.concat_ne_nil _ _, hsums⟩

/-! ## The trigger -/

/-- Enough sessions were scored, and one of them qualifies. -/
def Due (cfg : DetectConfig) (js : Multiset (Rat × Nat)) : Prop :=
  cfg.tlsMinSessions ≤ js.card ∧ ∃ j ∈ js, Qualifies cfg j

instance (cfg : DetectConfig) (js : List (Rat × Nat)) : Decidable (Due cfg js) :=
  inferInstanceAs (Decidable (cfg.tlsMinSessions ≤ js.length ∧ ∃ j ∈ js, Qualifies cfg j))

theorem Due.append {js : List (Rat × Nat)} (h : Due cfg js) (more : List (Rat × Nat)) :
    Due cfg (js ++ more : List (Rat × Nat)) := by
  obtain ⟨hmany, j, hj, hqualifies⟩ := h
  rw [Multiset.coe_card] at hmany
  constructor
  · rw [Multiset.coe_card, List.length_append]
    omega
  · exact ⟨j, List.mem_append_left _ hj, hqualifies⟩

/-- Of the sessions carried, the last of the best is one that qualifies, if any does; and if none of them was
scored, one of the bounds is positive. -/
def BestCounts (cfg : DetectConfig) (inv : Inventory) (key : String) (calls : List (Call TlsEvent)) :
    Prop :=
  (Due cfg (scoredOf cfg inv key calls) →
    ∃ b, IsLatest Prod.fst b (scoredOf cfg inv key calls) ∧ cfg.tlsMinPositive ≤ b.2) ∧
  (sessionsOf cfg inv key calls ≠ [] → scoredOf cfg inv key calls = [] →
    ¬ (cfg.tlsMinSessions = 0 ∧ cfg.tlsMinScore ≤ 0 ∧ cfg.tlsMinPositive = 0))

theorem scores_nonneg (calls : List (Call TlsEvent)) : ∀ j ∈ scoredOf cfg inv key calls, 0 ≤ j.1 := by
  intro j hj
  obtain ⟨ev, -, hev⟩ := List.mem_filterMap.1 hj
  exact judged_nonneg hev

/-- The trigger in terms of the sessions carried: without a scored session all bounds are met by zero, and
otherwise the last of the best of them decides. -/
theorem triggered_cases (calls : List (Call TlsEvent)) :
    (sessionsOf cfg inv key calls = [] ∧ triggered cfg inv key calls = false) ∨
    (sessionsOf cfg inv key calls ≠ [] ∧ scoredOf cfg inv key calls = [] ∧
      (triggered cfg inv key calls = true ↔
        cfg.tlsMinSessions = 0 ∧ cfg.tlsMinScore ≤ 0 ∧ cfg.tlsMinPositive = 0)) ∨
    ∃ b, IsLatest Prod.fst b (scoredOf cfg inv key calls) ∧
      (triggered cfg inv key calls = true ↔
        cfg.tlsMinSessions ≤ (scoredOf cfg inv key calls).length ∧ Qualifies cfg b) := by
  have hstate := state_sums cfg inv key calls
  unfold triggered
  cases hv : (encryptedLogic cfg inv key).valueAfter none calls with
  | none =>
    rw [hv] at hstate
    exact .inl ⟨hstate, rfl⟩
  | some s =>
    rw [hv] at hstate
    obtain ⟨hne, hsums⟩ := hstate
    have htriggers : (some s).any (·.triggers cfg) = true ↔
        cfg.tlsMinSessions ≤ (scoredOf cfg inv key calls).length ∧
          Qualifies cfg (latest Prod.fst (0, 0) (scoredOf cfg inv key calls)) := by
      rw [← show (s.maxScore, s.maxPos) = latest Prod.fst (0, 0) (scoredOf cfg inv key calls) from
        hsums.best, ← show s.scored = (scoredOf cfg inv key calls).length from hsums.scored]
      exact decide_eq_true_iff
    rw [htriggers]
    right
    cases hjs : scoredOf cfg inv key calls with
    | nil =>
      left
      refine ⟨hne, rfl, ?_⟩
      show cfg.tlsMinSessions ≤ 0 ∧ cfg.tlsMinScore ≤ 0 ∧ cfg.tlsMinPositive ≤ 0 ↔ _
      rw [Nat.le_zero, Nat.le_zero]
    | cons j js =>
      right
      refine ⟨_, ?_, Iff.rfl⟩
      have hj : 0 ≤ j.1 := scores_nonneg calls j (by rw [hjs]; exact List.mem_cons_self)
      exact (isLatest_latest (0, 0) (j :: js)).of_cons List.mem_cons_self hj

/-- After a run the trigger is as it should be exactly when the best session counts. -/
theorem triggered_iff_due (calls : List (Call TlsEvent)) :
    (triggered cfg inv key calls = true ↔ Due cfg (scoredOf cfg inv key calls)) ↔
      BestCounts cfg inv key calls := by
  have hnil : scoredOf cfg inv key calls = [] → ¬ Due cfg (scoredOf cfg inv key calls) := by
    rintro hjs ⟨-, j, hj, -⟩
    rw [hjs] at hj
    cases hj
  unfold BestCounts
  rcases triggered_cases calls with ⟨hes, hfalse⟩ | ⟨hes, hjs, htrue⟩ | ⟨b, hb, htrue⟩
  · have hjs : scoredOf cfg inv key calls = [] := by rw [scoredOf, hes, List.filterMap_nil]
    have hdue := hnil hjs
    simp [hfalse, hdue, hes]
  · have hdue := hnil hjs
    rw [htrue]
    tauto
  · -- that session is as good as one that qualifies, and the only one of its kind
    have hbest : Due cfg (scoredOf cfg inv key calls) → cfg.tlsMinScore ≤ b.1 := by
      rintro ⟨-, j, hj, hqualifies⟩
      exact hqualifies.1.trans (hb.le j hj)
    have hne : scoredOf cfg inv key calls ≠ [] := List.ne_nil_of_mem hb.mem
    rw [htrue]
    constructor
    · intro h
      exact ⟨fun hdue => ⟨b, hb, (h.2 hdue).2.2⟩, fun _ hjs => absurd hjs hne⟩
    · rintro ⟨hcounts, -⟩
      constructor
      · exact fun h => ⟨h.1, b, hb.mem, h.2⟩
      · intro hdue
        obtain ⟨b', hb', hpositive⟩ := hcounts hdue
        obtain rfl := hb.unique hb'
        exact ⟨hdue.1, hbest hdue, hpositive⟩

theorem scoredOf_event (calls : List (Call TlsEvent)) (now : Int) (ev : TlsEvent)
    (h : tlsRestarts cfg ((encryptedLogic cfg inv key).valueAfter none calls) ev = false) :
    scoredOf cfg inv key (calls ++ [.event now ev]) =
      scoredOf cfg inv key calls ++ [ev].filterMap (judged cfg inv) := by
  unfold scoredOf sessionsOf
  rw [Logic.carried_event, h, if_neg Bool.false_ne_true, List.filterMap_append]

/-- No further session that continues the state takes the trigger back. -/
def TriggerKept (cfg : DetectConfig) (inv : Inventory) (key : String) (calls : List (Call TlsEvent)) :
    Prop :=
  ∀ past now ev, past ++ [.event now ev] <+: calls →
    tlsRestarts cfg ((encryptedLogic cfg inv key).valueAfter none past) ev = false →
    triggered cfg inv key past = true → triggered cfg inv key (past ++ [.event now ev]) = true

/-- **The TLS trigger**: all through a run it holds exactly when enough of the sessions since the last reset,
in whatever order, were scored and one of them qualifies, and no further session takes it back, if and only
if the last of the best sessions always counts. -/
theorem tls_trigger_iff (cfg : DetectConfig) (inv : Inventory) (key : String)
    (calls : List (Call TlsEvent)) :
    (∀ past, past <+: calls →
        (triggered cfg inv key past = true ↔ Due cfg (scoredOf cfg inv key past))) ∧
      TriggerKept cfg inv key calls ↔
    ∀ past, past <+: calls → BestCounts cfg inv key past := by
  constructor
  · rintro ⟨hdue, -⟩ past hpast
    exact (triggered_iff_due past).1 (hdue past hpast)
  · intro h
    have hdue := fun past hpast => (triggered_iff_due past).2 (h past hpast)
    refine ⟨hdue, ?_⟩
    intro past now ev hnext hcontinues htriggered
    have hpast : past <+: calls := (List.prefix_append _ _).trans hnext
    rw [hdue _ hnext, scoredOf_event past now ev hcontinues]
    exact ((hdue past hpast).1 htriggered).append _

/-- A session `t` seconds after a fixed time that shows three of five indicators. -/
def sampleManySigns (t : Int) : TlsEvent :=
  { sampleTls t with p := ⟨"10.10.1.20", "203.0.113.9", some 443, some "SSLv3", none, none⟩ }

/-- A session that shows two of three, and has the higher score. -/
def sampleFewSigns (t : Int) : TlsEvent := { sampleManySigns t with a := [] }

/-- Three sessions that qualify, and a fourth that does not. -/
def sampleSessions : List (Call TlsEvent) :=
  (List.range 3).map (fun i => .event 0 (sampleManySigns (60 * i))) ++ [.event 0 (sampleFewSigns 180)]

/-- A session with a higher score but fewer positive indicators takes the trigger back. -/
theorem tls_trigger_lost : ¬ ∀ calls : List (Call TlsEvent),
    (∀ past, past <+: calls →
        (triggered { tlsMinPositive := 3 } sampleInventory "10.10.1.20|203.0.113.9|443" past = true ↔
          Due { tlsMinPositive := 3 } (scoredOf { tlsMinPositive := 3 } sampleInventory
            "10.10.1.20|203.0.113.9|443" past))) ∧
      TriggerKept { tlsMinPositive := 3 } sampleInventory "10.10.1.20|203.0.113.9|443" calls := by
  intro hall
  have hkept := (hall sampleSessions).2 _ 0 (sampleFewSigns 180) (List.prefix_refl _)
    (by decide +kernel) (by decide +kernel)
  exact absurd hkept (by decide +kernel)

/-! ### The shipped bounds -/

/-- What `indicators` may return. -/
def shape (old : Option Bool) (sni : Option (Bool × Bool)) (port certificate : Option Bool)
    (external : Bool) : List (String × Option Bool) :=
  [("old_tls_version", old), ("sni_absent", sni.map (·.1)), ("sni_ip_literal", sni.map (·.2)),
    ("nonstandard_port", port), ("certificate_not_validated", certificate),
    ("dst_external", some external)]

theorem indicators_shape (p : SslPayload) (a : List (String × String)) (external : Bool) :
    ∃ old sni certificate, indicators p a external =
      shape old sni (p.dstPort.map (· ∉ STANDARD_TLS_PORTS)) certificate external := by
  unfold indicators
  cases hname : p.serverName with
  | some name => exact ⟨_, some (false, isIp name), _, rfl⟩
  | none =>
    simp only
    generalize (p.version.isSome && a.lookup "server_name" == some "MISSING") = absent
    cases absent with
    | true => exact ⟨_, some (true, false), _, rfl⟩
    | false => exact ⟨_, none, _, rfl⟩

/-- A session with one positive indicator that reaches 0.6 shows an old version and nothing else. -/
theorem shape_single : ∀ old sni port certificate external,
    ∀ score ∈ scoreOf {} (shape old sni port certificate external), 6 / 10 ≤ score →
      2 ≤ (positivesOf (shape old sni port certificate external)).length ∨
        score = 6 / 10 ∧ port = some false ∧ external = false := by
  decide +kernel

/-- On a service like that, more positive indicators make more than 0.6. -/
theorem shape_many : ∀ old sni certificate,
    ∀ score ∈ scoreOf {} (shape old sni (some false) certificate false), 6 / 10 ≤ score →
      2 ≤ (positivesOf (shape old sni (some false) certificate false)).length → 6 / 10 < score := by
  decide +kernel

/-- **Under the shipped bounds the best session of one service counts**: with the same port and destination,
no session with fewer positive indicators scores as high as one that qualifies. -/
theorem best_counts_shipped {calls : List (Call TlsEvent)} (hscore : cfg.tlsMinScore = 6 / 10)
    (hpositive : cfg.tlsMinPositive = 2) (havailable : cfg.tlsMinAvailable = 3) {port : Option Int}
    {external : Bool} (hone : ∀ ev ∈ calls.filterMap Call.element, ev.p.dstPort = port ∧
      (!inv.isLocal ev.p.dstIp) = external) : BestCounts cfg inv key calls := by
  have hscoreOf : scoreOf cfg = scoreOf {} := by
    funext ind
    unfold scoreOf
    rw [havailable]
  have hjudged : ∀ j ∈ scoredOf cfg inv key calls, ∃ old sni certificate,
      j.1 ∈ scoreOf {} (shape old sni (port.map (· ∉ STANDARD_TLS_PORTS)) certificate external) ∧
      j.2 = (positivesOf
        (shape old sni (port.map (· ∉ STANDARD_TLS_PORTS)) certificate external)).length := by
    intro j hj
    obtain ⟨ev, hev, hshows⟩ := List.mem_filterMap.1 hj
    obtain ⟨hport, hexternal⟩ := hone ev ((Logic.carried_suffix calls).mem hev)
    obtain ⟨old, sni, certificate, hshape⟩ := indicators_shape ev.p ev.a (!inv.isLocal ev.p.dstIp)
    rw [hport, hexternal] at hshape
    unfold judged TlsEvent.shows at hshows
    rw [hexternal, hshape, hscoreOf] at hshows
    obtain ⟨score, hmem, rfl⟩ := Option.map_eq_some_iff.1 hshows
    exact ⟨old, sni, certificate, hmem, rfl⟩
  refine ⟨?_, fun _ _ h => absurd h.2.2 (by rw [hpositive]; decide)⟩
  rintro ⟨-, j, hj, hqualifies⟩
  obtain ⟨b, hb⟩ : ∃ b, IsLatest Prod.fst b _ := exists_isLatest (List.ne_nil_of_mem hj)
  refine ⟨b, hb, ?_⟩
  obtain ⟨old, sni, certificate, hscored, hcount⟩ := hjudged b hb.mem
  have hbest := hscore ▸ hqualifies.1.trans (hb.le j hj)
  rw [hpositive, hcount]
  rcases shape_single _ _ _ _ _ _ hscored hbest with hmany | ⟨hsame, hport, rfl⟩
  · exact hmany
  · obtain ⟨old', sni', certificate', hscored', hcount'⟩ := hjudged j hj
    rw [hport] at hscored' hcount'
    have hmany : 2 ≤ (positivesOf (shape old' sni' (some false) certificate' false)).length :=
      hcount' ▸ hpositive ▸ hqualifies.2
    have hmore := shape_many _ _ _ _ hscored' (hscore ▸ hqualifies.1) hmany
    exact absurd ((hb.le j hj).trans_eq hsame) (not_le.2 hmore)

/-! ## Findings -/

/-- The scored sessions of the horizon before `t`. -/
def recentOf (cfg : DetectConfig) (inv : Inventory) (t : Int) (es : List TlsEvent) : List (Rat × Nat) :=
  (es.filter fun e => e.obsMs ≤ t ∧ t ≤ e.obsMs + cfg.tlsHorizonMs).filterMap (judged cfg inv)

/-- When an event is handled, no scored session that the state carries is older than the horizon. -/
def NoneOld (cfg : DetectConfig) (inv : Inventory) (key : String) (calls : List (Call TlsEvent)) : Prop :=
  ∀ past now ev, past ++ [.event now ev] <+: calls →
    ∀ e ∈ sessionsOf cfg inv key (past ++ [.event now ev]), (judged cfg inv e).isSome →
      ev.obsMs ≤ e.obsMs + cfg.tlsHorizonMs

/-- Each event that raises a finding has enough scored sessions in the horizon before it, one of which
qualifies. -/
def FindingsRecent (cfg : DetectConfig) (inv : Inventory) (key : String) (calls : List (Call TlsEvent)) :
    Prop :=
  ∀ past now ev f, past ++ [.event now ev] <+: calls →
    Emitted.out f ∈ ((encryptedLogic cfg inv key).onEvent now
      ((encryptedLogic cfg inv key).valueAfter none past) ev).out →
    Due cfg (recentOf cfg inv ev.obsMs ((past ++ [Call.event now ev]).filterMap Call.element))

theorem Due.sublist {js js' : List (Rat × Nat)} (h : Due cfg js) (hsub : js.Sublist js') :
    Due cfg js' := by
  obtain ⟨hmany, j, hj, hqualifies⟩ := h
  exact ⟨hmany.trans hsub.length_le, j, hsub.mem hj, hqualifies⟩

/-- What is carried and scored is recent, if nothing scored is old. -/
theorem scored_sublist_recent {es all : List TlsEvent} {t : Int} (hsuffix : es <:+ all)
    (hbefore : ∀ e ∈ all, e.obsMs ≤ t)
    (hrecent : ∀ e ∈ es, (judged cfg inv e).isSome → t ≤ e.obsMs + cfg.tlsHorizonMs) :
    (es.filterMap (judged cfg inv)).Sublist (recentOf cfg inv t all) := by
  have hkept : es.filterMap (judged cfg inv) = recentOf cfg inv t es := by
    unfold recentOf
    rw [List.filterMap_filter]
    apply List.filterMap_congr
    intro e he
    cases hj : judged cfg inv e with
    | none => simp
    | some j =>
      have hin : e.obsMs ≤ t ∧ t ≤ e.obsMs + cfg.tlsHorizonMs :=
        ⟨hbefore e (hsuffix.mem he), hrecent e he (by rw [hj]; rfl)⟩
      rw [if_pos (decide_eq_true hin)]
  rw [hkept]
  exact (hsuffix.sublist.filter _).filterMap _

/-- **TLS findings rest on recent sessions** in every run in which no old one is carried: for sessions in
the order of time, each finding has enough scored sessions in the horizon before it, one of which
qualifies. -/
theorem tls_findings_recent (cfg : DetectConfig) (inv : Inventory) (key : String)
    (calls : List (Call TlsEvent))
    (hordered : (calls.filterMap Call.element).Pairwise fun a b => a.obsMs ≤ b.obsMs)
    (hbounds : ¬ (cfg.tlsMinSessions = 0 ∧ cfg.tlsMinScore ≤ 0 ∧ cfg.tlsMinPositive = 0))
    (hrecent : NoneOld cfg inv key calls) : FindingsRecent cfg inv key calls := by
  intro past now ev f hnext hf
  have htriggered : triggered cfg inv key (past ++ [.event now ev]) = true := by
    unfold triggered
    rw [Logic.valueAfter_concat]
    exact encrypted_raises hf
  have hdue : Due cfg (scoredOf cfg inv key (past ++ [.event now ev])) := by
    rcases triggered_cases (past ++ [.event now ev]) with ⟨-, hquiet⟩ | ⟨-, -, hzero⟩ | ⟨b, hb, hbest⟩
    · exact absurd (htriggered.symm.trans hquiet) (by decide)
    · exact absurd (hzero.1 htriggered) hbounds
    · obtain ⟨hmany, hqualifies⟩ := hbest.1 htriggered
      exact ⟨hmany, b, hb.mem, hqualifies⟩
  refine hdue.sublist (scored_sublist_recent (Logic.carried_suffix _) ?_ (hrecent past now ev hnext))
  intro e he
  rw [List.filterMap_append] at he
  have hsofar := (hordered.sublist (hnext.sublist.filterMap _))
  rw [List.filterMap_append, List.pairwise_append] at hsofar
  rcases List.mem_append.1 he with he | he
  · exact hsofar.2.2 e he ev (List.mem_singleton.2 rfl)
  · rw [List.mem_singleton.1 he]

/-- In a run no longer than the horizon nothing is old. -/
theorem noneOld_of_short {calls : List (Call TlsEvent)}
    (hshort : ∀ a ∈ calls.filterMap Call.element, ∀ b ∈ calls.filterMap Call.element,
      b.obsMs ≤ a.obsMs + cfg.tlsHorizonMs) : NoneOld cfg inv key calls := by
  intro past now ev hnext e he _
  have hsub := hnext.sublist.filterMap Call.element
  refine hshort e (hsub.mem ((Logic.carried_suffix _).mem he)) ev (hsub.mem ?_)
  rw [List.filterMap_append]
  exact List.mem_append_right _ (List.mem_singleton.2 rfl)

/-- Three sessions within four minutes. -/
def sampleQuick : List (Call TlsEvent) :=
  [.event 0 (sampleTls 0), .event 0 (sampleTls 60), .event 0 (sampleTls 240)]

theorem tls_findings_recent_sample : FindingsRecent {} sampleInventory "10.10.1.20|203.0.113.9|4444"
    sampleQuick := by
  refine tls_findings_recent {} sampleInventory "10.10.1.20|203.0.113.9|4444" sampleQuick
    (by decide +kernel) (by decide +kernel) ?_
  exact noneOld_of_short (by decide +kernel)

/-- Three sessions, each 25 minutes after the one before. -/
def sampleSlow : List (Call TlsEvent) :=
  [.event 0 (sampleTls 0), .event 0 (sampleTls 1500), .timer 0 1788258660000, .event 0 (sampleTls 3000)]

/-- The finding of the third session counts one of 50 minutes before. -/
theorem tls_finding_of_old_sessions : ¬ ∀ calls : List (Call TlsEvent),
    (calls.filterMap Call.element).Pairwise (fun a b => a.obsMs ≤ b.obsMs) →
    FindingsRecent {} sampleInventory "10.10.1.20|203.0.113.9|4444" calls := by
  intro hall
  have hraised : ((encryptedLogic {} sampleInventory "10.10.1.20|203.0.113.9|4444").onEvent 0
      ((encryptedLogic {} sampleInventory "10.10.1.20|203.0.113.9|4444").valueAfter none
        (sampleSlow.take 3)) (sampleTls 3000)).out.filterMap Emitted.finding ≠ [] := by
    decide +kernel
  obtain ⟨f, hf⟩ := List.exists_mem_of_ne_nil _ hraised
  obtain ⟨e, he, hout⟩ := List.mem_filterMap.1 hf
  cases e with
  | feature r => cases hout
  | out f' =>
    have hdue := hall sampleSlow (by decide +kernel) _ 0 (sampleTls 3000) f' (List.prefix_refl _) he
    exact absurd hdue (by decide +kernel)

end OTS.Detect