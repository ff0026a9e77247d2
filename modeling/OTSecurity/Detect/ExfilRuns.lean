import Mathlib.Algebra.Order.BigOperators.Group.List
import Mathlib.Algebra.Order.Ring.Int
import Mathlib.Tactic.NormNum.Ineq
import Mathlib.Tactic.NormNum.DivMod
import OTSecurity.Detect.Exfil
import OTSecurity.Lib.CappedSet
import OTSecurity.Lib.Harness

/-!
# Uploads over whole runs

What `ExfilLogic` of `flink/sih_detect/exfil.py` has summed up, learned and remembered of one source host
after any deltas and timers.

* `exfilOf` — the logic of one source; `exfilView` — what a delta is judged by; `exfilOnEvent_eq` — an
  event in steps.
* `destinations` — where the deltas since the last expiry went; `inWindow` — the deltas of a window.
* `SumsExactOrFlagged`, `NewMeansFirst`, `FoldsOnce` — what sums, new destinations and the baseline should
  be.

Principal results: `exfil_novelty_iff`, `exfil_sums_iff`, `exfil_baseline_folds_once` — when they are so;
`exfil_first_transfer_again`, `exfil_bound_not_flagged`, `exfil_window_folded_twice` — when not.
-/

namespace OTS.Detect

variable {M : Maths} {cfg : ExfilConfig} {inv : Inventory} {src : String}

/-! ## One source -/

/-- The logic of one source host. -/
def exfilOf (M : Maths) (cfg : ExfilConfig) (inv : Inventory) (src : String) :
    Logic (EligibleDelta inv) ExfilState Emitted := (exfilLogic M cfg inv).single src

theorem exfil_bare : (exfilLogic M cfg inv).Bare := by
  intro s h
  have hboth : (if s.x.isSome then 1 else 0) + s.dsts.length = 0 := h
  obtain ⟨x, dsts⟩ := s
  cases x with
  | some x => exact absurd hboth (by simp)
  | none =>
    obtain ⟨entries, hnodup⟩ := dsts
    have hentries : entries = [] := by
      apply List.eq_nil_of_length_eq_zero
      simpa [ODict.length] using hboth
    subst hentries
    rfl

theorem exfil_clears : (exfilOf M cfg inv src).Clears := by
  apply KeyedLogic.single_clears
  intro now s ts
  show (exfilOnTimer s ts).state = ⟨none, .empty⟩ ∨ (exfilOnTimer s ts).state = s
  unfold exfilOnTimer
  split
  · exact .inr rfl
  · split
    · exact .inl rfl
    · exact .inr rfl

/-- The logic of one source leaves the states that the keyed logic leaves for it. -/
theorem exfilOf_value (calls : List (Call (EligibleDelta inv))) :
    ((exfilOf M cfg inv src).valueAfter none calls).getD ⟨none, .empty⟩ = (exfilLogic M cfg inv).after src calls :=
  KeyedLogic.single_value exfil_bare calls

/-- It emits what the keyed logic emits for it. -/
theorem exfilOf_emitted (calls : List (Call (EligibleDelta inv))) :
    (exfilOf M cfg inv src).emitted none calls = (exfilLogic M cfg inv).emitted src calls :=
  KeyedLogic.single_emitted exfil_bare calls

/-- The state once a delta is recorded, before it is judged. -/
def ExfilState.recorded (cfg : ExfilConfig) (s : ExfilState) (d : Delta) : ExfilInfo :=
  ((s.x.getD (.fresh d)).enter (d.obsMs / cfg.exfilWindowMs)).record cfg d

/-- `new_dst`. -/
def ExfilState.newDst (s : ExfilState) (d : Delta) : Bool := (s.dsts.get? d.dst).isNone

/-- What a delta is judged by. -/
def exfilView (cfg : ExfilConfig) (s : ExfilState) (d : Delta) : ExfilView :=
  (s.recorded cfg d).view cfg (s.newDst d)

/-- What remains of a record when it is judged. -/
structure ExfilInfo.Keeps (x y : ExfilInfo) : Prop where
  recs : y.recs = x.recs
  base : y.base = x.base
  win : y.win = x.win
  winBytes : y.winBytes = x.winBytes
  lastFeatureMs : y.lastFeatureMs = x.lastFeatureMs

theorem remember_keeps (cfg : ExfilConfig) (dsts : ODict String Int) (x : ExfilInfo) (d : Delta) :
    x.Keeps (ExfilState.remember cfg dsts x d).1 ∧
      (ExfilState.remember cfg dsts x d).1.winAnomalous = x.winAnomalous := by
  unfold ExfilState.remember
  split <;> exact ⟨⟨rfl, rfl, rfl, rfl, rfl⟩, rfl⟩

theorem view_of_keeps {x y : ExfilInfo} (h : x.Keeps y) (newDst : Bool) :
    y.view cfg newDst = x.view cfg newDst := by
  unfold ExfilInfo.view
  rw [h.recs, h.base]

/-- The condition is judged: the state it leaves, and what is found. -/
def exfilJudged (M : Maths) (cfg : ExfilConfig) (src : String) (s : ExfilState) (d : Delta) :
    ExfilInfo × List Emitted :=
  let x := (ExfilState.remember cfg s.dsts (s.recorded cfg d) d).1
  if (exfilView cfg s d).triggers cfg then (exfilView cfg s d).report cfg M x src d else (x, [])

/-- Whether a feature record is emitted for a delta, and the time that is left. -/
def exfilLimit (cfg : ExfilConfig) (s : ExfilState) (d : Delta) : Bool × Option Int :=
  if (exfilView cfg s d).thr.value / 4 ≤ (exfilView cfg s d).outSum then
    rateLimited (s.x.bind (·.lastFeatureMs)) d.obsMs cfg.featureMinIntervalMs
  else (false, s.x.bind (·.lastFeatureMs))

theorem exfilJudged_spec (M : Maths) (cfg : ExfilConfig) (src : String) (s : ExfilState) (d : Delta) :
    (s.recorded cfg d).Keeps (exfilJudged M cfg src s d).1 ∧
      (exfilJudged M cfg src s d).1.ndst = (ExfilState.remember cfg s.dsts (s.recorded cfg d) d).1.ndst ∧
      (exfilJudged M cfg src s d).1.winAnomalous =
        ((exfilView cfg s d).triggers cfg || (s.recorded cfg d).winAnomalous) ∧
      ∀ e ∈ (exfilJudged M cfg src s d).2, ∃ x', e = .out ((exfilView cfg s d).finding cfg M x' src d) := by
  obtain ⟨hkeeps, hanomalous⟩ := remember_keeps cfg s.dsts (s.recorded cfg d) d
  unfold exfilJudged
  cases htriggers : (exfilView cfg s d).triggers cfg with
  | false => exact ⟨hkeeps, rfl, hanomalous, fun e he => nomatch he⟩
  | true =>
    simp only [if_true, ExfilView.report]
    split
    · exact ⟨⟨hkeeps.recs, hkeeps.base, hkeeps.win, hkeeps.winBytes, hkeeps.lastFeatureMs⟩, rfl, rfl,
        fun e he => ⟨_, List.mem_singleton.1 he⟩⟩
    · exact ⟨⟨hkeeps.recs, hkeeps.base, hkeeps.win, hkeeps.winBytes, hkeeps.lastFeatureMs⟩, rfl, rfl,
        fun e he => nomatch he⟩

/-- An event in steps: it is recorded, judged and shown. -/
theorem exfilOnEvent_eq (M : Maths) (cfg : ExfilConfig) (nowUs : Int) (src : String) (s : ExfilState)
    (d : Delta) :
    exfilOnEvent M cfg nowUs src s d =
      ⟨⟨some { (exfilJudged M cfg src s d).1 with lastFeatureMs := (exfilLimit cfg s d).2 },
          (ExfilState.remember cfg s.dsts (s.recorded cfg d) d).2⟩,
        [bucketUp ((d.obsMs + 600000 : Int) : Rat) 60000],
        (exfilJudged M cfg src s d).2 ++ if (exfilLimit cfg s d).1 then
          [.feature ((exfilView cfg s d).feature (exfilJudged M cfg src s d).1 nowUs src d)] else []⟩ := by
  obtain ⟨hkeeps, -⟩ := remember_keeps cfg s.dsts (s.recorded cfg d) d
  have hview : (ExfilState.remember cfg s.dsts (s.recorded cfg d) d).1.view cfg (s.newDst d) =
      exfilView cfg s d := view_of_keeps hkeeps _
  have hlast : (exfilJudged M cfg src s d).1.lastFeatureMs = s.x.bind (·.lastFeatureMs) := by
    rw [(exfilJudged_spec M cfg src s d).1.lastFeatureMs]
    unfold ExfilState.recorded ExfilInfo.record ExfilInfo.enter
    simp only
    cases s.x <;> split <;> rfl
  unfold exfilLimit
  rw [← hlast]
  unfold exfilJudged
  rw [← hview]
  rfl

theorem exfilOnEvent_x (M : Maths) (cfg : ExfilConfig) (nowUs : Int) (src : String) (s : ExfilState)
    (d : Delta) :
    (exfilOnEvent M cfg nowUs src s d).state.x =
      some { (exfilJudged M cfg src s d).1 with lastFeatureMs := (exfilLimit cfg s d).2 } := by
  rw [exfilOnEvent_eq]

theorem exfil_event_value (now : Int) (v : Option ExfilState) (d : EligibleDelta inv) :
    ((exfilOf M cfg inv src).onEvent now v d).value =
      some (exfilOnEvent M cfg now src (v.getD ⟨none, .empty⟩) d.val).state := by
  show (exfilLogic M cfg inv).kept (exfilOnEvent M cfg now src (v.getD ⟨none, .empty⟩) d.val).state = _
  unfold KeyedLogic.kept
  rw [if_neg]
  show ¬ ExfilState.entries _ = 0
  unfold ExfilState.entries
  rw [exfilOnEvent_eq]
  simp

/-- What is listed as capped. -/
def Emitted.capped : Emitted → List String
  | .out f => f.capped
  | .feature r => r.capped

/-- Nothing is ever listed as capped. -/
theorem exfil_never_capped {nowUs : Int} {s : ExfilState} {d : Delta} {e : Emitted}
    (h : e ∈ (exfilOnEvent M cfg nowUs src s d).out) : e.capped = [] := by
  rw [exfilOnEvent_eq] at h
  rcases List.mem_append.1 h with h | h
  · obtain ⟨x, rfl⟩ := (exfilJudged_spec M cfg src s d).2.2.2 e h
    rfl
  · rw [List.mem_ite_nil_right] at h
    rw [List.mem_singleton.1 h.2]
    rfl

/-! ## First transfers -/

/-- The destinations since the state was last cleared. -/
def destinations (M : Maths) (cfg : ExfilConfig) (inv : Inventory) (src : String)
    (calls : List (Call (EligibleDelta inv))) : List String :=
  ((exfilOf M cfg inv src).since calls).map (·.val.dst)

/-- The state after calls, empty when there is none. -/
def exfilAfter (M : Maths) (cfg : ExfilConfig) (inv : Inventory) (src : String)
    (calls : List (Call (EligibleDelta inv))) : ExfilState :=
  ((exfilOf M cfg inv src).valueAfter none calls).getD ⟨none, .empty⟩

/-- The destination map holds the first destinations. -/
def ExfilState.Remembers (cfg : ExfilConfig) (s : ExfilState) (seen : List String) : Prop :=
  s.dsts.keys = firsts cfg.exfilDstCap seen ∧
    ∀ d, (s.x.getD (.fresh d)).ndst = (firsts cfg.exfilDstCap seen).length

theorem ExfilState.Remembers.next {s : ExfilState} {seen : List String} (h : s.Remembers cfg seen)
    (now : Int) (d : Delta) :
    (exfilOnEvent M cfg now src s d).state.Remembers cfg (seen ++ [d.dst]) := by
  have hrecorded : (s.recorded cfg d).ndst = (firsts cfg.exfilDstCap seen).length := by
    rw [← h.2 d]
    unfold ExfilState.recorded ExfilInfo.record ExfilInfo.enter
    simp only
    split <;> rfl
  have hnew : (s.dsts.get? d.dst).isNone ↔ d.dst ∉ firsts cfg.exfilDstCap seen := by
    rw [Option.isNone_iff_eq_none, ODict.get?_eq_none, h.1]
  have hdsts : (exfilOnEvent M cfg now src s d).state.dsts =
      (ExfilState.remember cfg s.dsts (s.recorded cfg d) d).2 := by rw [exfilOnEvent_eq]
  have hndst : ∀ d', ((exfilOnEvent M cfg now src s d).state.x.getD (.fresh d')).ndst =
      (ExfilState.remember cfg s.dsts (s.recorded cfg d) d).1.ndst := by
    intro d'
    rw [exfilOnEvent_x, ← (exfilJudged_spec M cfg src s d).2.1, Option.getD_some]
  unfold ExfilState.Remembers
  simp only [hdsts, hndst, firsts_concat]
  unfold ExfilState.remember
  by_cases hroom : d.dst ∉ firsts cfg.exfilDstCap seen ∧ (firsts cfg.exfilDstCap seen).length < cfg.exfilDstCap
  · rw [if_pos hroom, if_pos ⟨hnew.2 hroom.1, hrecorded ▸ hroom.2⟩, List.length_append,
      List.length_singleton, ← h.1]
    constructor
    · exact ODict.keys_set_of_not_mem _ (h.1 ▸ hroom.1)
    · intro _
      rw [h.1]
      exact congrArg (· + 1) hrecorded
  · rw [if_neg hroom, if_neg fun hc => hroom ⟨hnew.1 hc.1, hrecorded ▸ hc.2⟩]
    exact ⟨h.1, fun _ => hrecorded⟩

/-- **The destination map holds the first destinations** since the state was last cleared. -/
theorem exfil_remembers (calls : List (Call (EligibleDelta inv))) :
    (exfilAfter M cfg inv src calls).Remembers cfg (destinations M cfg inv src calls) := by
  unfold exfilAfter destinations
  apply Logic.since_invariant exfil_clears
    (P := fun es v => (v.getD ⟨none, .empty⟩ : ExfilState).Remembers cfg (es.map (·.val.dst)))
  · rw [List.map_nil]
    unfold ExfilState.Remembers
    rw [firsts_nil]
    exact ⟨rfl, fun _ => rfl⟩
  · intro now es v d h
    rw [exfil_event_value, List.map_append]
    exact h.next now d.val

/-- The delta is taken to be the first to its destination. -/
def TakenAsNew (M : Maths) (cfg : ExfilConfig) (inv : Inventory) (src : String)
    (past : List (Call (EligibleDelta inv))) (d : EligibleDelta inv) : Prop :=
  (exfilAfter M cfg inv src past).newDst d.val = true

/-- What is emitted for a delta is listed as limited. -/
def Limited (out : List Emitted) : Prop := out ≠ [] ∧ ∀ e ∈ out, e.capped ≠ []

/-- A delta is taken to be the first to its destination only if it is, or the result says that it is
limited. -/
def NewMeansFirst (M : Maths) (cfg : ExfilConfig) (inv : Inventory) (src : String)
    (calls : List (Call (EligibleDelta inv))) : Prop :=
  ∀ past now d, past ++ [.event now d] <+: calls → TakenAsNew M cfg inv src past d →
    d.val.dst ∉ destinations M cfg inv src past ∨
      Limited (exfilOnEvent M cfg now src (exfilAfter M cfg inv src past) d.val).out

theorem takenAsNew_iff {past : List (Call (EligibleDelta inv))} {d : EligibleDelta inv} :
    TakenAsNew M cfg inv src past d ↔
      d.val.dst ∉ firsts cfg.exfilDstCap (destinations M cfg inv src past) := by
  unfold TakenAsNew ExfilState.newDst
  rw [Option.isNone_iff_eq_none, ODict.get?_eq_none, (exfil_remembers past).1]

/-- **New destinations were never seen, as long as the destinations seen again are among the first**: for any
deltas and timers, a delta is taken to be the first to its destination since the last expiry only if it is,
exactly when each destination that comes again is one of the first `exfil_dst_cap`. -/
theorem exfil_novelty_iff (M : Maths) (cfg : ExfilConfig) (inv : Inventory) (src : String)
    (calls : List (Call (EligibleDelta inv))) :
    NewMeansFirst M cfg inv src calls ↔
      ∀ past now d, past ++ [.event now d] <+: calls → d.val.dst ∈ destinations M cfg inv src past →
        d.val.dst ∈ firsts cfg.exfilDstCap (destinations M cfg inv src past) := by
  constructor
  · intro h past now d hnext hseen
    by_contra hlate
    rcases h past now d hnext (takenAsNew_iff.2 hlate) with hnew | ⟨hne, hlimited⟩
    · exact hnew hseen
    · -- nothing is listed as capped
      obtain ⟨e, he⟩ := List.exists_mem_of_ne_nil _ hne
      exact hlimited e he (exfil_never_capped he)
  · intro h past now d hnext hnew
    exact .inl fun hseen => takenAsNew_iff.1 hnew (h past now d hnext hseen)

/-- A delta of `n` bytes to `dst`, `t` seconds after a fixed time. -/
def sampleUpload (t : Int) (dst : String) (n : Int) : Delta :=
  { sampleDelta t t with
    dst := dst
    d := fun c => if c = .origBytes then some n else some 100 }

/-- Uploads to one host and then twice to another. -/
def sampleUploads : List (Call (EligibleDelta sampleInventory)) :=
  [.event 0 ⟨sampleUpload 0 "203.0.113.8" 1, by decide⟩,
    .event 0 ⟨sampleUpload 1 "203.0.113.9" 10000000, by decide⟩,
    .event 0 ⟨sampleUpload 20 "203.0.113.9" 15000000, by decide⟩]

/-- When the map is full, the second upload to a host is reported as the first one, with a higher severity
and no mark that the map is limited. -/
theorem exfil_first_transfer_again :
    ((exfilOf sampleMaths { exfilDstCap := 1 } sampleInventory "10.10.1.20").emitted none
        sampleUploads).filterMap (fun e => e.finding.map fun f =>
          (f.observed.lookup "new_destination", f.severity, f.capped)) =
        [(some (.bool true), .high, [])] ∧
      ¬ ∀ calls, NewMeansFirst sampleMaths { exfilDstCap := 1 } sampleInventory "10.10.1.20" calls := by
  refine ⟨by decide +kernel, ?_⟩
  intro hall
  rcases hall sampleUploads (sampleUploads.take 2) 0 ⟨sampleUpload 20 "203.0.113.9" 15000000, by decide⟩
    (List.prefix_refl _) (by unfold TakenAsNew; decide +kernel) with hnew | ⟨-, hlimited⟩
  · exact absurd hnew (by decide +kernel)
  · exact absurd hlimited (by decide +kernel)

/-! ## Sums -/

/-- `out_b` and `in_b`. -/
def Delta.outBytes (d : Delta) : Int := (d.d .origBytes).getD 0

def Delta.inBytes (d : Delta) : Option Int :=
  if d.coverage = "both_directions" then d.d .respBytes else none

/-- The deltas of the window that ends with `d`. -/
def inWindow (cfg : ExfilConfig) (d : Delta) (ds : List Delta) : List Delta :=
  ds.filter fun e => d.obsMs - cfg.exfilWindowMs ≤ e.obsMs

def toRecord (d : Delta) : ExfilRecord := ⟨d.obsMs, d.outBytes, d.inBytes, d.dst⟩

theorem lastN_length_le {α : Type} {n : Nat} {xs : List α} (h : xs.length ≤ n) : lastN n xs = xs := by
  unfold lastN
  rw [Nat.sub_eq_zero_of_le h, List.drop_zero]

/-- What is too many is dropped later if what is too old is dropped first. -/
theorem lastN_filter {α : Type} {n : Nat} {p : α → Bool} {xs : List α} (x : α)
    (hsorted : (xs ++ [x]).Pairwise fun a b => p a = true → p b = true) :
    lastN n ((lastN n xs ++ [x]).filter p) = lastN n ((xs ++ [x]).filter p) := by
  by_cases hfew : xs.length ≤ n
  · rw [lastN_length_le hfew]
  · obtain ⟨old, new, hsplit, hnew⟩ : ∃ old new, xs = old ++ new ∧ lastN n xs = new :=
      ⟨_, _, (List.take_append_drop (xs.length - n) xs).symm, rfl⟩
    have hlength : new.length = n := by
      rw [← hnew]
      unfold lastN
      rw [List.length_drop]
      omega
    rw [hnew, hsplit]
    rw [hsplit] at hsorted
    by_cases hold : old.filter p = []
    · rw [List.append_assoc, List.filter_append old, hold, List.nil_append]
    · -- one that is old enough to go is kept, so all that follow are
      obtain ⟨a, ha⟩ := List.exists_mem_of_ne_nil _ hold
      obtain ⟨ha, hpa⟩ := List.mem_filter.1 ha
      rw [List.append_assoc, List.pairwise_append] at hsorted
      have hall : (new ++ [x]).filter p = new ++ [x] :=
        List.filter_eq_self.2 fun b hb => hsorted.2.2 a ha b hb hpa
      rw [List.append_assoc, List.filter_append old, hall]
      unfold lastN
      rw [@List.length_append _ (old.filter p), Nat.add_sub_assoc (by simp; omega),
        List.drop_length_add_append]

/-- The deltas of the window that ends with the last one. -/
def recent (cfg : ExfilConfig) (ds : List Delta) : List Delta :=
  ds.getLast?.elim [] fun d => inWindow cfg d ds

/-- The records are those of the window, the last `MAX_RECORDS` of them. -/
def ExfilState.Records (cfg : ExfilConfig) (s : ExfilState) (ds : List Delta) : Prop :=
  ∀ d, (s.x.getD (.fresh d)).recs = lastN MAX_RECORDS ((recent cfg ds).map toRecord)

/-- The deltas come in the order of time. -/
def InTime (ds : List Delta) : Prop := ds.Pairwise fun a b => a.obsMs ≤ b.obsMs

theorem recent_concat (ds : List Delta) (d : Delta) :
    recent cfg (ds ++ [d]) = inWindow cfg d (ds ++ [d]) := by
  unfold recent
  rw [List.getLast?_concat]
  rfl

theorem recent_sublist (ds : List Delta) : (recent cfg ds).Sublist ds := by
  unfold recent
  cases ds.getLast? with
  | none => exact List.nil_sublist _
  | some d => exact List.filter_sublist

/-- What has left the window before does not come back. -/
theorem inWindow_recent {ds : List Delta} {d : Delta} (h : InTime (ds ++ [d])) :
    inWindow cfg d (recent cfg ds ++ [d]) = inWindow cfg d (ds ++ [d]) := by
  induction ds using List.reverseRecOn with
  | nil => rfl
  | append_singleton ds e =>
    obtain ⟨-, -, hlast⟩ := List.pairwise_append.1 h
    have hle : e.obsMs ≤ d.obsMs :=
      hlast e (List.mem_append_right _ (List.mem_singleton.2 rfl)) d (List.mem_singleton.2 rfl)
    rw [recent_concat]
    unfold inWindow
    rw [List.filter_append, List.filter_append (ds ++ [e]), List.filter_filter]
    congr 1
    apply List.filter_congr
    intro a _
    by_cases ha : d.obsMs - cfg.exfilWindowMs ≤ a.obsMs
    · have ha' : e.obsMs - cfg.exfilWindowMs ≤ a.obsMs := by omega
      simp [ha, ha']
    · simp [ha]

theorem ExfilState.Records.recorded {s : ExfilState} {ds : List Delta} (h : s.Records cfg ds) {d : Delta}
    (hd : InTime (ds ++ [d])) :
    (s.recorded cfg d).recs = lastN MAX_RECORDS ((inWindow cfg d (ds ++ [d])).map toRecord) := by
  have hrecs : (s.recorded cfg d).recs = lastN MAX_RECORDS
      (((s.x.getD (.fresh d)).recs ++ [toRecord d]).filter
        fun r => d.obsMs - cfg.exfilWindowMs ≤ r.obsMs) := by
    unfold ExfilState.recorded ExfilInfo.record ExfilInfo.enter
    simp only
    split <;> rfl
  have hsorted : ((recent cfg ds).map toRecord ++ [toRecord d]).Pairwise fun a b =>
      decide (d.obsMs - cfg.exfilWindowMs ≤ a.obsMs) = true →
        decide (d.obsMs - cfg.exfilWindowMs ≤ b.obsMs) = true := by
    rw [show [toRecord d] = [d].map toRecord from rfl, ← List.map_append, List.pairwise_map]
    refine (List.Pairwise.sublist ((recent_sublist ds).append_right [d]) hd).imp ?_
    intro a b hab ha
    rw [decide_eq_true_eq] at ha ⊢
    exact ha.trans hab
  rw [hrecs, h d, lastN_filter _ hsorted, show [toRecord d] = [d].map toRecord from rfl,
    ← List.map_append, List.filter_map, ← inWindow_recent hd]
  rfl

/-- The deltas of the calls. -/
def uploads (calls : List (Call (EligibleDelta inv))) : List Delta :=
  (calls.filterMap Call.element).map (·.val)

theorem uploads_concat (calls : List (Call (EligibleDelta inv))) (now : Int) (d : EligibleDelta inv) :
    uploads (calls ++ [.event now d]) = uploads calls ++ [d.val] := by
  unfold uploads
  rw [List.filterMap_append, List.map_append]
  rfl

theorem uploads_earlier {calls calls' : List (Call (EligibleDelta inv))} (h : calls <+: calls') :
    (uploads calls).Sublist (uploads calls') :=
  (h.sublist.filterMap _).map _

theorem exfil_recs (now : Int) (s : ExfilState) (d d' : Delta) :
    ((exfilOnEvent M cfg now src s d).state.x.getD (.fresh d')).recs = (s.recorded cfg d).recs := by
  rw [exfilOnEvent_x, ← (exfilJudged_spec M cfg src s d).1.recs, Option.getD_some]

/-- **Without expiry the records are those of the window**, the last `MAX_RECORDS` of them. -/
theorem exfil_records {calls : List (Call (EligibleDelta inv))}
    (hkept : (exfilOf M cfg inv src).Unexpired calls) (horder : InTime (uploads calls)) :
    (exfilAfter M cfg inv src calls).Records cfg (uploads calls) := by
  have hsome : ∀ now v e, ((exfilOf M cfg inv src).onEvent now v e).value.isSome := by
    intro now v e
    rw [exfil_event_value]
    rfl
  have hsince := hkept.since_eq exfil_clears hsome
  unfold exfilAfter uploads at *
  rw [← hsince] at horder ⊢
  revert horder
  apply Logic.since_invariant exfil_clears (P := fun es v => InTime (es.map (·.val)) →
    (v.getD ⟨none, .empty⟩ : ExfilState).Records cfg (es.map (·.val)))
  · intro _ d
    exact (lastN_length_le (Nat.zero_le _)).symm
  · intro now es v d h horder
    rw [List.map_append] at horder
    intro d'
    rw [exfil_event_value, Option.getD_some, exfil_recs, List.map_append, List.map_singleton, recent_concat]
    exact (h (List.pairwise_append.1 horder).1).recorded horder

/-- The sums of a delta are those of its window, and what is emitted says so if records were dropped. -/
structure SumsExact (cfg : ExfilConfig) (v : ExfilView) (window : List Delta) (out : List Emitted) :
    Prop where
  outbound : v.outSum = (window.map Delta.outBytes).sum
  inbound : v.inSum = none ↔ ∃ e ∈ window, e.inBytes = none
  flagged : MAX_RECORDS < window.length → ∀ e ∈ out, "outbound_bytes_window" ∈ e.capped

/-- What is emitted shows the sums of the view. -/
theorem view_shown (v : ExfilView) (x : ExfilInfo) (now : Int) (d : Delta) :
    (v.finding cfg M x src d).observed.lookup "outbound_bytes_window" = some (.int v.outSum) ∧
      (v.finding cfg M x src d).observed.lookup "inbound_bytes_window" = some (v.inSum.elim .null .int) ∧
      (v.feature x now src d).values.lookup "outbound_bytes_window" = some (.int v.outSum) ∧
      (v.feature x now src d).values.lookup "inbound_bytes_window" = some (v.inSum.elim .null .int) := by
  have hshown : observedValue v.inSumShown = v.inSum.elim .null .int ∧
      num v.inSumShown = v.inSum.elim .null .int := by
    unfold ExfilView.inSumShown
    cases v.inSum <;> exact ⟨rfl, rfl⟩
  exact ⟨rfl, congrArg some hshown.1, rfl, congrArg some hshown.2⟩

/-- The sums are exact exactly when no record was dropped. -/
theorem sumsExact_iff {s : ExfilState} {ds : List Delta} (h : s.Records cfg ds) {d : Delta}
    (horder : InTime (ds ++ [d])) (hpos : ∀ e ∈ ds ++ [d], 0 < e.outBytes) (now : Int) :
    SumsExact cfg (exfilView cfg s d) (inWindow cfg d (ds ++ [d])) (exfilOnEvent M cfg now src s d).out ↔
      (inWindow cfg d (ds ++ [d])).length ≤ MAX_RECORDS := by
  have hrecs := h.recorded horder
  have hout : (exfilView cfg s d).outSum = ((s.recorded cfg d).recs.map (·.outBytes)).sum := by
    simp only [exfilView, ExfilInfo.view]
  have hin : (exfilView cfg s d).inSum = none ↔ none ∈ (s.recorded cfg d).recs.map (·.inBytes) := by
    simp only [exfilView, ExfilInfo.view]
    split
    · exact iff_of_true rfl ‹_›
    · exact iff_of_false (fun h => nomatch h) ‹_›
  rw [hrecs] at hout hin
  generalize hw : inWindow cfg d (ds ++ [d]) = window at *
  constructor
  · intro hexact
    by_contra hmany
    have hsum := hout.symm.trans hexact.outbound
    obtain ⟨old, new, rfl, hnew⟩ : ∃ old new, window = old ++ new ∧
        (window.map toRecord).drop ((window.map toRecord).length - MAX_RECORDS) = new.map toRecord :=
      ⟨_, _, (List.take_append_drop (window.length - MAX_RECORDS) window).symm, by
        rw [List.length_map, List.map_drop]⟩
    have hlost : old ≠ [] := by
      rintro rfl
      have hlength := congrArg List.length hnew
      rw [List.nil_append, List.length_drop, List.length_map] at hlength
      rw [List.nil_append] at hmany
      unfold MAX_RECORDS at hlength hmany
      omega
    have hsmaller : 0 < (old.map Delta.outBytes).sum := by
      apply List.sum_pos
      · intro n hn
        obtain ⟨e, he, rfl⟩ := List.mem_map.1 hn
        apply hpos
        have hmem : e ∈ inWindow cfg d (ds ++ [d]) := hw ▸ List.mem_append_left _ he
        exact (List.mem_filter.1 hmem).1
      · exact fun hnil => hlost (List.map_eq_nil_iff.1 hnil)
    have hkept : ((new.map toRecord).map (·.outBytes)) = new.map Delta.outBytes := by
      rw [List.map_map]
      rfl
    rw [lastN, hnew, hkept, List.map_append, List.sum_append] at hsum
    omega
  · intro hfew
    rw [lastN_length_le (by rw [List.length_map]; exact hfew), List.map_map] at hout hin
    refine ⟨hout, hin.trans ?_, fun hmany => absurd hfew (not_le.2 hmany)⟩
    rw [List.mem_map]
    rfl

theorem eligible_outBytes (d : EligibleDelta inv) : 0 < d.val.outBytes := by
  have h : exfilEligible inv d.val = true := d.property
  unfold exfilEligible at h
  rw [Bool.and_eq_true] at h
  exact of_decide_eq_true h.2

/-- The sums of every delta are exact, and what is emitted says so where records were dropped. -/
def SumsExactOrFlagged (M : Maths) (cfg : ExfilConfig) (inv : Inventory) (src : String)
    (calls : List (Call (EligibleDelta inv))) : Prop :=
  ∀ past now d, past ++ [.event now d] <+: calls →
    SumsExact cfg (exfilView cfg (exfilAfter M cfg inv src past) d.val)
      (inWindow cfg d.val (uploads (past ++ [.event now d])))
      (exfilOnEvent M cfg now src (exfilAfter M cfg inv src past) d.val).out

/-- **Exfiltration sums are exact as long as no record is dropped**: for any deltas in the order of time and
no expiry, the sums of each are those of its window, exactly when no window has more than `MAX_RECORDS`
deltas. -/
theorem exfil_sums_iff (M : Maths) (cfg : ExfilConfig) (inv : Inventory) (src : String)
    (calls : List (Call (EligibleDelta inv))) (horder : InTime (uploads calls))
    (hkept : (exfilOf M cfg inv src).Unexpired calls) :
    SumsExactOrFlagged M cfg inv src calls ↔
      ∀ past now d, past ++ [.event now d] <+: calls →
        (inWindow cfg d.val (uploads (past ++ [.event now d]))).length ≤ MAX_RECORDS := by
  have hstep : ∀ past now d, past ++ [.event now d] <+: calls →
      (SumsExact cfg (exfilView cfg (exfilAfter M cfg inv src past) d.val)
        (inWindow cfg d.val (uploads (past ++ [.event now d])))
        (exfilOnEvent M cfg now src (exfilAfter M cfg inv src past) d.val).out ↔
      (inWindow cfg d.val (uploads (past ++ [.event now d]))).length ≤ MAX_RECORDS) := by
    intro past now d hnext
    obtain ⟨more, rfl⟩ := hnext
    have hsofar : InTime (uploads (past ++ [.event now d])) :=
      List.Pairwise.sublist (uploads_earlier (List.prefix_append _ more)) horder
    rw [uploads_concat] at hsofar ⊢
    refine sumsExact_iff (exfil_records hkept.prefix_left.prefix_left
      (List.pairwise_append.1 hsofar).1) hsofar ?_ now
    intro e he
    rw [← uploads_concat past now d] at he
    obtain ⟨d', -, rfl⟩ := List.mem_map.1 he
    exact eligible_outBytes d'
  constructor
  · exact fun h past now d hnext => (hstep past now d hnext).1 (h past now d hnext)
  · exact fun h past now d hnext => (hstep past now d hnext).2 (h past now d hnext)

theorem exfil_sums_sample :
    SumsExactOrFlagged sampleMaths {} sampleInventory "10.10.1.20" sampleUploads := by
  refine (exfil_sums_iff sampleMaths {} sampleInventory "10.10.1.20" sampleUploads
    (by unfold InTime; decide +kernel) (.of_no_timer (by simp [sampleUploads]))).2 ?_
  intro past now d hnext
  exact (List.length_filter_le _ _).trans ((uploads_earlier hnext).length_le.trans (by decide))

/-- A delta of 10 kB, `t` seconds after a fixed time. -/
def sampleChunk (t : Int) : EligibleDelta sampleInventory :=
  ⟨sampleUpload t "203.0.113.9" 10000, rfl⟩

/-- 2048 deltas at one time, all of the window of the next one. -/
def sampleBusy : List (Call (EligibleDelta sampleInventory)) :=
  List.replicate 2048 (.event 0 (sampleChunk 0))

/-- The baseline is new, and nothing was shown but at one time. -/
def ExfilState.Steady (s : ExfilState) (w t : Int) : Prop :=
  ∀ x ∈ s.x, x.base = .new ∧ (∀ v ∈ x.win, v = w) ∧ ∀ u ∈ x.lastFeatureMs, u = t

theorem recorded_base {s : ExfilState} {d : Delta} {t : Int}
    (h : s.Steady (d.obsMs / cfg.exfilWindowMs) t) :
    (s.recorded cfg d).base = .new ∧ (s.recorded cfg d).win = some (d.obsMs / cfg.exfilWindowMs) := by
  unfold ExfilState.recorded ExfilInfo.record ExfilInfo.enter
  cases hx : s.x with
  | none => exact ⟨rfl, rfl⟩
  | some x =>
    obtain ⟨hbase, hwin, -⟩ := h x hx
    have hsame : x.win.any (· ≠ d.obsMs / cfg.exfilWindowMs) = false := by
      cases hw : x.win with
      | none => rfl
      | some v =>
        rw [hwin v hw]
        simp
    simp only [Option.getD_some, hsame]
    exact ⟨hbase, rfl⟩

theorem Steady_next {s : ExfilState} {d : Delta}
    (h : s.Steady (d.obsMs / cfg.exfilWindowMs) d.obsMs) (now : Int) :
    (exfilOnEvent M cfg now src s d).state.Steady (d.obsMs / cfg.exfilWindowMs) d.obsMs := by
  obtain ⟨hbase, hwin⟩ := recorded_base h
  obtain ⟨hkeeps, -⟩ := exfilJudged_spec M cfg src s d
  intro x hx
  rw [exfilOnEvent_x] at hx
  obtain rfl := Option.some.inj hx
  dsimp only
  rw [hkeeps.base, hkeeps.win, hbase, hwin]
  refine ⟨rfl, fun v hv => (Option.some.inj hv).symm, ?_⟩
  intro u hu
  rw [Option.mem_def] at hu
  have hbefore : ∀ u, s.x.bind (·.lastFeatureMs) = some u → u = d.obsMs := by
    intro u hu
    obtain ⟨x, hx, hu⟩ := Option.bind_eq_some_iff.1 hu
    exact (h x hx).2.2 u hu
  unfold exfilLimit rateLimited at hu
  split at hu
  · split at hu
    · split at hu
      · exact hbefore u (‹s.x.bind _ = _› ▸ hu)
      · exact (Option.some.inj hu).symm
    · exact (Option.some.inj hu).symm
  · exact hbefore u hu

theorem steady_replicate (d : EligibleDelta inv) (n : Nat) :
    (exfilAfter M cfg inv src (List.replicate n (.event 0 d))).Steady
      (d.val.obsMs / cfg.exfilWindowMs) d.val.obsMs := by
  induction n with
  | zero =>
    intro x hx
    cases hx
  | succ n ih =>
    unfold exfilAfter at ih ⊢
    rw [List.replicate_succ', Logic.valueAfter_concat]
    show ((Option.getD ((exfilOf M cfg inv src).onEvent 0 _ d).value _).Steady _ _)
    rw [exfil_event_value, Option.getD_some]
    exact Steady_next ih 0

theorem uploads_sampleBusy : uploads sampleBusy = List.replicate 2048 (sampleChunk 0).val := by
  have hdeltas : sampleBusy.filterMap Call.element = List.replicate 2048 (sampleChunk 0) :=
    List.filterMap_replicate_of_some rfl
  unfold uploads
  rw [hdeltas, List.map_replicate]

theorem sampleBusy_order : InTime (uploads (sampleBusy ++ [.event 0 (sampleChunk 5)])) := by
  rw [uploads_concat, uploads_sampleBusy]
  apply List.pairwise_append.2
  refine ⟨List.pairwise_replicate.2 (.inr (le_refl _)), List.pairwise_singleton _ _, ?_⟩
  intro a ha b hb
  rw [List.eq_of_mem_replicate ha, List.mem_singleton.1 hb]
  decide

theorem sampleBusy_kept : (exfilOf sampleMaths {} sampleInventory "10.10.1.20").Unexpired
    (sampleBusy ++ [.event 0 (sampleChunk 5)]) := by
  apply Logic.Unexpired.of_no_timer
  intro now ts hmem
  rcases List.mem_append.1 hmem with hmem | hmem
  · cases List.eq_of_mem_replicate hmem
  · cases List.mem_singleton.1 hmem

theorem sampleBusy_window :
    inWindow {} (sampleChunk 5).val (uploads (sampleBusy ++ [.event 0 (sampleChunk 5)])) =
      List.replicate 2048 (sampleChunk 0).val ++ [(sampleChunk 5).val] := by
  rw [uploads_concat, uploads_sampleBusy]
  unfold inWindow
  apply List.filter_eq_self.2
  intro a ha
  rcases List.mem_append.1 ha with ha | ha
  · rw [List.eq_of_mem_replicate ha]
    decide
  · rw [List.mem_singleton.1 ha]
    decide

/-- One of the deltas at the first time is dropped. -/
theorem sampleBusy_sum :
    (exfilView {} (exfilAfter sampleMaths {} sampleInventory "10.10.1.20" sampleBusy)
      (sampleChunk 5).val).outSum = 20480000 := by
  have hrecords := exfil_records sampleBusy_kept.prefix_left
    (List.Pairwise.sublist (uploads_earlier (List.prefix_append _ _)) sampleBusy_order)
  have horder := sampleBusy_order
  rw [uploads_concat] at horder
  have hrecs := hrecords.recorded horder
  rw [← uploads_concat sampleBusy 0, sampleBusy_window] at hrecs
  have hkept : lastN MAX_RECORDS
      ((List.replicate 2048 (sampleChunk 0).val ++ [(sampleChunk 5).val]).map toRecord) =
      List.replicate 2047 (toRecord (sampleChunk 0).val) ++ [toRecord (sampleChunk 5).val] := by
    unfold lastN MAX_RECORDS
    rw [List.map_append, List.map_replicate, List.length_append, List.length_replicate,
      List.replicate_succ]
    rfl
  simp only [exfilView, ExfilInfo.view, hrecs, hkept]
  rw [List.map_append, List.map_replicate, List.sum_append, List.sum_replicate]
  decide

/-- A record is shown if the sum is over a quarter of the bound, and the last one was at the first time. -/
theorem shown_of_steady {s : ExfilState}
    (hsteady : s.Steady ((sampleChunk 0).val.obsMs / 30000) (sampleChunk 0).val.obsMs)
    (hsum : (exfilView {} s (sampleChunk 5).val).outSum = 20480000) :
    (exfilLimit {} s (sampleChunk 5).val).1 = true := by
  have hwindow : (sampleChunk 0).val.obsMs / 30000 =
      (sampleChunk 5).val.obsMs / ({} : ExfilConfig).exfilWindowMs := by decide
  rw [hwindow] at hsteady
  obtain ⟨hbase, -⟩ := recorded_base hsteady
  have hthr : (exfilView {} s (sampleChunk 5).val).thr.value = 10000000 := by
    simp only [exfilView, ExfilInfo.view, hbase]
    rfl
  unfold exfilLimit
  rw [hthr, hsum, if_pos (by norm_num)]
  unfold rateLimited
  cases hlast : s.x.bind (·.lastFeatureMs) with
  | none => rfl
  | some u =>
    obtain ⟨x, hx, hu⟩ := Option.bind_eq_some_iff.1 hlast
    rw [(hsteady x hx).2.2 u hu]
    decide

/-- **A lower bound that is not flagged**: of 2049 deltas within five seconds the feature record sums up
2048, and lists nothing as capped. -/
theorem exfil_bound_not_flagged :
    (∃ r, Emitted.feature r ∈ (exfilOnEvent sampleMaths {} 0 "10.10.1.20"
        (exfilAfter sampleMaths {} sampleInventory "10.10.1.20" sampleBusy) (sampleChunk 5).val).out ∧
      r.values.lookup "outbound_bytes_window" = some (.int 20480000) ∧ r.capped = []) ∧
    ¬ ∀ calls, InTime (uploads calls) →
      (exfilOf sampleMaths {} sampleInventory "10.10.1.20").Unexpired calls →
      SumsExactOrFlagged sampleMaths {} sampleInventory "10.10.1.20" calls := by
  constructor
  · have hshown := shown_of_steady (steady_replicate (sampleChunk 0) 2048) sampleBusy_sum
    have hvalue := sampleBusy_sum
    generalize exfilAfter sampleMaths {} sampleInventory "10.10.1.20" sampleBusy = s at hshown hvalue ⊢
    refine ⟨(exfilView {} s (sampleChunk 5).val).feature (exfilJudged sampleMaths {} "10.10.1.20" s
      (sampleChunk 5).val).1 0 "10.10.1.20" (sampleChunk 5).val, ?_, ?_, rfl⟩
    · rw [exfilOnEvent_eq]
      exact List.mem_append_right _ (List.mem_ite_nil_right.2 ⟨hshown, List.mem_singleton.2 rfl⟩)
    · show some (num (.int (exfilView {} s (sampleChunk 5).val).outSum)) = _
      rw [hvalue]
      rfl
  · intro hall
    have hexact := (hall _ sampleBusy_order sampleBusy_kept _ 0 _ (List.prefix_refl _)).outbound
    rw [sampleBusy_sum, sampleBusy_window, List.map_append, List.map_replicate, List.sum_append,
      List.sum_replicate] at hexact
    exact absurd hexact (by decide)

/-! ## What the baseline learns -/

/-- The number of the window that a delta is in. -/
def Delta.uploadWindow (cfg : ExfilConfig) (d : Delta) : Int := d.obsMs / cfg.exfilWindowMs

/-- The deltas of a window. -/
def uploadsOf (cfg : ExfilConfig) (ds : List Delta) (w : Int) : List Delta :=
  ds.filter (·.uploadWindow cfg = w)

/-- The number of the window that the state holds. -/
def ExfilState.held (s : ExfilState) : Option Int := s.x.bind (·.win)

/-- The window that a delta puts into the baseline, with its bytes. -/
def ExfilState.folds (cfg : ExfilConfig) (s : ExfilState) (d : Delta) : List (Int × Int) :=
  (s.x.bind fun x => x.win.bind fun w =>
    if w ≠ d.uploadWindow cfg ∧ x.winAnomalous = false then some (w, x.winBytes) else none).toList

/-- What the baseline becomes when it learns windows. -/
def Ewma.learn (e : Ewma) (folded : List (Int × Int)) : Ewma :=
  folded.foldl (fun e p => e.update p.2 (1 / 10)) e

/-- A delta makes the baseline learn what it puts into it. -/
theorem recorded_learns (s : ExfilState) (d : Delta) :
    (s.recorded cfg d).base = (s.x.elim .new (·.base)).learn (s.folds cfg d) := by
  unfold ExfilState.recorded ExfilInfo.record ExfilInfo.enter ExfilState.folds Ewma.learn
  cases hx : s.x with
  | none => rfl
  | some x =>
    simp only [Option.getD_some, Option.elim_some, Option.bind_some]
    cases hw : x.win with
    | none => rfl
    | some w =>
      by_cases hsame : w = d.obsMs / cfg.exfilWindowMs
      · simp [hsame, Delta.uploadWindow]
      · cases hmarked : x.winAnomalous with
        | true => simp [hsame]
        | false => simp [hsame, Delta.uploadWindow]

/-- What is recorded of the window of a delta: it goes on if the state holds it. -/
theorem recorded_window (s : ExfilState) (d : Delta) (hwin : ∀ x ∈ s.x, x.win ≠ none) :
    (s.recorded cfg d).win = some (d.uploadWindow cfg) ∧
      (s.held = some (d.uploadWindow cfg) → ∀ x ∈ s.x,
        (s.recorded cfg d).winBytes = x.winBytes + d.outBytes ∧
          (s.recorded cfg d).winAnomalous = x.winAnomalous) ∧
      (s.held ≠ some (d.uploadWindow cfg) →
        (s.recorded cfg d).winBytes = d.outBytes ∧ (s.recorded cfg d).winAnomalous = false) := by
  unfold ExfilState.recorded ExfilInfo.record ExfilInfo.enter ExfilState.held
  cases hx : s.x with
  | none => exact ⟨rfl, fun _ _ hx => (nomatch hx), fun _ => ⟨Int.zero_add _, rfl⟩⟩
  | some x =>
    cases hw : x.win with
    | none => exact absurd hw (hwin x hx)
    | some w =>
      simp only [Option.getD_some, Option.bind_some, hw]
      by_cases hsame : w = d.obsMs / cfg.exfilWindowMs
      · subst hsame
        refine ⟨by simp [Delta.uploadWindow], ?_, fun h => absurd rfl h⟩
        rintro - y ⟨⟩
        simp [Delta.outBytes]
      · refine ⟨by simp [hsame, Delta.uploadWindow], fun h => absurd (Option.some.inj h) hsame, fun _ => ?_⟩
        simp [hsame, Delta.outBytes]

/-- What a call puts into the baseline. -/
def windowFolds (cfg : ExfilConfig) (v : Option ExfilState) : Call (EligibleDelta inv) → List (Int × Int)
  | .event _ d => (v.getD ⟨none, .empty⟩).folds cfg d.val
  | .timer _ _ => []

/-- The window in which a call finds something. -/
def windowFound (cfg : ExfilConfig) (v : Option ExfilState) : Call (EligibleDelta inv) → List Int
  | .event _ d =>
    if (exfilView cfg (v.getD ⟨none, .empty⟩) d.val).triggers cfg then [d.val.uploadWindow cfg] else []
  | .timer _ _ => []

/-- The windows that were put into the baseline, with their bytes, in order. -/
def foldedWindows (M : Maths) (cfg : ExfilConfig) (inv : Inventory) (src : String)
    (calls : List (Call (EligibleDelta inv))) : List (Int × Int) :=
  (exfilOf M cfg inv src).observe (windowFolds cfg) none calls

/-- The windows in which a finding condition held. -/
def foundWindows (M : Maths) (cfg : ExfilConfig) (inv : Inventory) (src : String)
    (calls : List (Call (EligibleDelta inv))) : List Int :=
  (exfilOf M cfg inv src).observe (windowFound cfg) none calls

/-- The baseline learns each window once, with all its bytes, and none in which a finding condition held;
what it is now it has learned from the last of them. -/
structure FoldsOnce (M : Maths) (cfg : ExfilConfig) (inv : Inventory) (src : String)
    (calls : List (Call (EligibleDelta inv))) : Prop where
  once : ((foldedWindows M cfg inv src calls).map (·.1)).Nodup
  total : ∀ p ∈ foldedWindows M cfg inv src calls,
    p.2 = ((uploadsOf cfg (uploads calls) p.1).map Delta.outBytes).sum
  quiet : ∀ p ∈ foldedWindows M cfg inv src calls, p.1 ∉ foundWindows M cfg inv src calls
  ewma : ∀ x ∈ (exfilAfter M cfg inv src calls).x,
    ∃ learned, learned <:+ foldedWindows M cfg inv src calls ∧ x.base = Ewma.new.learn learned

/-- Each delta is of the window that the state holds, or of one that no delta was of before. -/
def StaysInWindow (M : Maths) (cfg : ExfilConfig) (inv : Inventory) (src : String)
    (calls : List (Call (EligibleDelta inv))) : Prop :=
  ∀ past now d, past ++ [.event now d] <+: calls →
    (exfilAfter M cfg inv src past).held = some (d.val.uploadWindow cfg) ∨
      ∀ e ∈ uploads past, e.uploadWindow cfg ≠ d.val.uploadWindow cfg

/-- The state, the deltas, what was learned and where something was found. -/
structure Folding (cfg : ExfilConfig) (s : ExfilState) (ds : List Delta) (folded : List (Int × Int))
    (found : List Int) : Prop where
  once : (folded.map (·.1)).Nodup
  seen : ∀ p ∈ folded, ∃ e ∈ ds, e.uploadWindow cfg = p.1
  total : ∀ p ∈ folded, p.2 = ((uploadsOf cfg ds p.1).map Delta.outBytes).sum
  quiet : ∀ p ∈ folded, p.1 ∉ found
  left : ∀ p ∈ folded, s.held ≠ some p.1
  foundSeen : ∀ w ∈ found, ∃ e ∈ ds, e.uploadWindow cfg = w
  window : ∀ x ∈ s.x, ∃ w, x.win = some w ∧ (∃ e ∈ ds, e.uploadWindow cfg = w) ∧
    x.winBytes = ((uploadsOf cfg ds w).map Delta.outBytes).sum ∧ (w ∈ found → x.winAnomalous = true)
  ewma : ∀ x ∈ s.x, ∃ learned, learned <:+ folded ∧ x.base = Ewma.new.learn learned

theorem folding_nil : Folding cfg ⟨none, .empty⟩ [] [] [] where
  once := List.nodup_nil
  seen := fun _ h => nomatch h
  total := fun _ h => nomatch h
  quiet := fun _ h => nomatch h
  left := fun _ h => nomatch h
  foundSeen := fun _ h => nomatch h
  window := fun _ h => nomatch h
  ewma := fun _ h => nomatch h

theorem uploadsOf_concat_ne {ds : List Delta} {d : Delta} {w : Int} (h : d.uploadWindow cfg ≠ w) :
    uploadsOf cfg (ds ++ [d]) w = uploadsOf cfg ds w := by
  unfold uploadsOf
  simp [h]

theorem uploadsOf_concat (ds : List Delta) (d : Delta) :
    uploadsOf cfg (ds ++ [d]) (d.uploadWindow cfg) = uploadsOf cfg ds (d.uploadWindow cfg) ++ [d] := by
  unfold uploadsOf
  simp

theorem mem_folds {s : ExfilState} {d : Delta} {p : Int × Int} :
    p ∈ s.folds cfg d ↔ ∃ x ∈ s.x, x.win = some p.1 ∧ p.1 ≠ d.uploadWindow cfg ∧
      x.winAnomalous = false ∧ p.2 = x.winBytes := by
  unfold ExfilState.folds
  rw [Option.mem_toList, Option.bind_eq_some_iff]
  constructor
  · rintro ⟨x, hx, h⟩
    obtain ⟨w, hw, h⟩ := Option.bind_eq_some_iff.1 h
    split at h
    · rename_i hleaves
      cases h
      exact ⟨x, hx, hw, hleaves.1, hleaves.2, rfl⟩
    · cases h
  · rintro ⟨x, hx, hw, hne, hquiet, hbytes⟩
    refine ⟨x, hx, Option.bind_eq_some_iff.2 ⟨p.1, hw, ?_⟩⟩
    rw [if_pos ⟨hne, hquiet⟩, ← hbytes]

theorem folds_length (s : ExfilState) (d : Delta) : (s.folds cfg d).length ≤ 1 :=
  Option.length_toList_le

/-- One delta, of the window that the state holds or of a new one. -/
theorem Folding.next {s : ExfilState} {ds : List Delta} {folded : List (Int × Int)} {found : List Int}
    (h : Folding cfg s ds folded found) (now : Int) {d : Delta}
    (hstays : s.held = some (d.uploadWindow cfg) ∨ ∀ e ∈ ds, e.uploadWindow cfg ≠ d.uploadWindow cfg) :
    Folding cfg (exfilOnEvent M cfg now src s d).state (ds ++ [d]) (folded ++ s.folds cfg d)
      (found ++ if (exfilView cfg s d).triggers cfg then [d.uploadWindow cfg] else []) := by
  have hwin : ∀ x ∈ s.x, x.win ≠ none := by
    intro x hx
    obtain ⟨w, hw, -⟩ := h.window x hx
    rw [hw]
    exact Option.some_ne_none w
  obtain ⟨hnow, hgoes, hstarts⟩ := @recorded_window cfg s d hwin
  obtain ⟨hkeeps, -, hmarked, -⟩ := exfilJudged_spec M cfg src s d
  have hheld : (exfilOnEvent M cfg now src s d).state.held = some (d.uploadWindow cfg) := by
    unfold ExfilState.held
    rw [exfilOnEvent_x, Option.bind_some]
    dsimp only
    rw [hkeeps.win, hnow]
  have hfolds : ∀ p ∈ s.folds cfg d, ∃ x ∈ s.x, x.win = some p.1 ∧ x.winAnomalous = false ∧
      p.2 = x.winBytes ∧ s.held = some p.1 := by
    intro p hp
    obtain ⟨x, hx, hw, -, hquiet, hbytes⟩ := mem_folds.1 hp
    refine ⟨x, hx, hw, hquiet, hbytes, ?_⟩
    unfold ExfilState.held
    rw [hx, Option.bind_some, hw]
  -- no window that was learned, or is now, is that of the delta
  have hother : ∀ p ∈ folded ++ s.folds cfg d, d.uploadWindow cfg ≠ p.1 := by
    intro p hp heq
    rcases List.mem_append.1 hp with hp | hp
    · rcases hstays with hsame | hunseen
      · exact h.left p hp (heq ▸ hsame)
      · obtain ⟨e, he, hwindow⟩ := h.seen p hp
        exact hunseen e he (hwindow.trans heq.symm)
    · obtain ⟨x, -, -, hne, -⟩ := mem_folds.1 hp
      exact hne heq.symm
  have hmem : d ∈ ds ++ [d] := List.mem_append_right _ (List.mem_singleton.2 rfl)
  constructor
  · rw [List.map_append, List.nodup_append]
    refine ⟨h.once, ?_, ?_⟩
    · have hone := @folds_length cfg s d
      match hlist : s.folds cfg d with
      | [] => exact List.nodup_nil
      | [p] => exact List.nodup_singleton _
      | p :: q :: rest => simp [hlist] at hone
    · rintro w hw v hv rfl
      obtain ⟨p, hp, rfl⟩ := List.mem_map.1 hw
      obtain ⟨q, hq, heq⟩ := List.mem_map.1 hv
      obtain ⟨-, -, -, -, -, hholds⟩ := hfolds q hq
      exact h.left p hp (heq ▸ hholds)
  · intro p hp
    rcases List.mem_append.1 hp with hp | hp
    · obtain ⟨e, he, hwindow⟩ := h.seen p hp
      exact ⟨e, List.mem_append_left _ he, hwindow⟩
    · obtain ⟨x, hx, hw, -⟩ := hfolds p hp
      obtain ⟨w, hw', ⟨e, he, hwindow⟩, -⟩ := h.window x hx
      obtain rfl := Option.some.inj (hw.symm.trans hw')
      exact ⟨e, List.mem_append_left _ he, hwindow⟩
  · intro p hp
    rw [uploadsOf_concat_ne (hother p hp)]
    rcases List.mem_append.1 hp with hp | hp
    · exact h.total p hp
    · obtain ⟨x, hx, hw, -, hbytes, -⟩ := hfolds p hp
      obtain ⟨w, hw', -, hsum, -⟩ := h.window x hx
      obtain rfl := Option.some.inj (hw.symm.trans hw')
      exact hbytes.trans hsum
  · intro p hp hfound
    rcases List.mem_append.1 hfound with hfound | hfound
    · rcases List.mem_append.1 hp with hp | hp
      · exact h.quiet p hp hfound
      · obtain ⟨x, hx, hw, hquiet, -⟩ := hfolds p hp
        obtain ⟨w, hw', -, -, hanomalous⟩ := h.window x hx
        obtain rfl := Option.some.inj (hw.symm.trans hw')
        exact Bool.false_ne_true (hquiet.symm.trans (hanomalous hfound))
    · rw [List.mem_ite_nil_right] at hfound
      exact hother p hp (List.mem_singleton.1 hfound.2).symm
  · intro p hp
    rw [hheld]
    exact fun heq => hother p hp (Option.some.inj heq)
  · intro w hw
    rcases List.mem_append.1 hw with hw | hw
    · obtain ⟨e, he, hwindow⟩ := h.foundSeen w hw
      exact ⟨e, List.mem_append_left _ he, hwindow⟩
    · rw [List.mem_ite_nil_right] at hw
      exact ⟨d, hmem, (List.mem_singleton.1 hw.2).symm⟩
  · intro x hx
    rw [exfilOnEvent_x] at hx
    obtain rfl := Option.some.inj hx
    dsimp only
    rw [hkeeps.win, hkeeps.winBytes, hmarked]
    refine ⟨_, hnow, ⟨d, hmem, rfl⟩, ?_⟩
    rw [uploadsOf_concat, List.map_append, List.sum_append]
    by_cases hsame : s.held = some (d.uploadWindow cfg)
    · obtain ⟨y, hy, hw⟩ := Option.bind_eq_some_iff.1 hsame
      obtain ⟨w, hw', -, hsum, hanomalous⟩ := h.window y hy
      obtain rfl := Option.some.inj (hw.symm.trans hw')
      obtain ⟨hbytes, hstill⟩ := hgoes hsame y hy
      rw [hbytes, hstill, hsum]
      refine ⟨by simp, fun hfound => ?_⟩
      rcases List.mem_append.1 hfound with hfound | hfound
      · rw [hanomalous hfound, Bool.or_true]
      · rw [(List.mem_ite_nil_right.1 hfound).1, Bool.true_or]
    · have hunseen := hstays.resolve_left hsame
      have hnone : uploadsOf cfg ds (d.uploadWindow cfg) = [] := by
        apply List.filter_eq_nil_iff.2
        intro e he
        simpa using hunseen e he
      obtain ⟨hbytes, hstill⟩ := hstarts hsame
      rw [hbytes, hnone]
      refine ⟨by simp, fun hfound => ?_⟩
      rcases List.mem_append.1 hfound with hfound | hfound
      · obtain ⟨e, he, hwindow⟩ := h.foundSeen _ hfound
        exact absurd hwindow (hunseen e he)
      · rw [(List.mem_ite_nil_right.1 hfound).1, Bool.true_or]
  · intro x hx
    rw [exfilOnEvent_x] at hx
    obtain rfl := Option.some.inj hx
    dsimp only
    rw [hkeeps.base, recorded_learns]
    cases hy : s.x with
    | none => exact ⟨_, List.suffix_append _ _, rfl⟩
    | some y =>
      obtain ⟨learned, hsuffix, hbase⟩ := h.ewma y hy
      refine ⟨learned ++ s.folds cfg d, (List.suffix_append_inj_of_length_eq rfl).2 ⟨hsuffix, rfl⟩, ?_⟩
      rw [Option.elim_some, hbase]
      unfold Ewma.learn
      rw [List.foldl_append]

/-- The state is cleared. -/
theorem Folding.cleared {s : ExfilState} {ds : List Delta} {folded : List (Int × Int)} {found : List Int}
    (h : Folding cfg s ds folded found) : Folding cfg ⟨none, .empty⟩ ds folded found where
  once := h.once
  seen := h.seen
  total := h.total
  quiet := h.quiet
  left := fun _ _ h => nomatch h
  foundSeen := h.foundSeen
  window := fun _ h => nomatch h
  ewma := fun _ h => nomatch h

/-- What every run has learned whose deltas do not go back to a window. -/
theorem folding_of_stays (calls : List (Call (EligibleDelta inv)))
    (hstays : StaysInWindow M cfg inv src calls) :
    Folding cfg (exfilAfter M cfg inv src calls) (uploads calls) (foldedWindows M cfg inv src calls)
      (foundWindows M cfg inv src calls) := by
  induction calls using List.reverseRecOn with
  | nil => exact folding_nil
  | append_singleton calls c ih =>
    have hbefore := ih fun past now d hpre => hstays past now d (hpre.trans (List.prefix_append _ _))
    unfold foldedWindows foundWindows at hbefore ⊢
    rw [Logic.observe_concat, Logic.observe_concat]
    cases c with
    | event now d =>
      have hnext := @Folding.next M cfg src _ _ _ _ hbefore now d.val (hstays calls now d (List.prefix_refl _))
      have hafter : exfilAfter M cfg inv src (calls ++ [.event now d]) =
          (exfilOnEvent M cfg now src (exfilAfter M cfg inv src calls) d.val).state := by
        unfold exfilAfter
        rw [Logic.valueAfter_concat]
        show (((exfilOf M cfg inv src).onEvent now _ d).value).getD _ = _
        rw [exfil_event_value, Option.getD_some]
      rw [hafter, uploads_concat]
      exact hnext
    | timer now ts =>
      have hsame : uploads (calls ++ [.timer now ts]) = uploads calls := by
        unfold uploads
        rw [List.filterMap_append]
        exact congrArg _ (List.append_nil _)
      rw [hsame, show windowFolds cfg ((exfilOf M cfg inv src).valueAfter none calls) (.timer now ts) = []
        from rfl, show windowFound cfg ((exfilOf M cfg inv src).valueAfter none calls) (.timer now ts) = []
        from rfl, List.append_nil, List.append_nil]
      unfold exfilAfter at hbefore ⊢
      rw [Logic.valueAfter_concat]
      rcases @exfil_clears M cfg inv src now
        ((exfilOf M cfg inv src).valueAfter none calls) ts with hnone | hkept
      · have hcall : ((exfilOf M cfg inv src).call ((exfilOf M cfg inv src).valueAfter none calls)
          (.timer now ts)).value = none := hnone
        rw [hcall]
        exact hbefore.cleared
      · have hcall : ((exfilOf M cfg inv src).call ((exfilOf M cfg inv src).valueAfter none calls)
          (.timer now ts)).value = (exfilOf M cfg inv src).valueAfter none calls := hkept
        rw [hcall]
        exact hbefore

/-- **The exfiltration baseline learns each window once**, with all its bytes and none in which a finding
condition held, in every run whose deltas do not go back to a window that the state no longer holds. -/
theorem exfil_baseline_folds_once (M : Maths) (cfg : ExfilConfig) (inv : Inventory) (src : String)
    (calls : List (Call (EligibleDelta inv))) (hstays : StaysInWindow M cfg inv src calls) :
    FoldsOnce M cfg inv src calls :=
  have h := folding_of_stays calls hstays
  ⟨h.once, h.total, h.quiet, h.ewma⟩

theorem exfil_held {calls : List (Call (EligibleDelta inv))}
    (hkept : (exfilOf M cfg inv src).Unexpired calls) :
    (exfilAfter M cfg inv src calls).held = (uploads calls).getLast?.map (·.uploadWindow cfg) := by
  have hsome : ∀ now v e, ((exfilOf M cfg inv src).onEvent now v e).value.isSome := by
    intro now v e
    rw [exfil_event_value]
    rfl
  unfold exfilAfter uploads
  rw [← hkept.since_eq exfil_clears hsome]
  apply Logic.since_invariant exfil_clears (P := fun es v =>
    (v.getD ⟨none, .empty⟩ : ExfilState).held = (es.map (·.val)).getLast?.map (·.uploadWindow cfg))
  · rfl
  · intro now es v d _
    rw [exfil_event_value, Option.getD_some, List.map_append, List.map_singleton, List.getLast?_concat]
    unfold ExfilState.held
    rw [exfilOnEvent_x, Option.bind_some]
    dsimp only
    rw [(exfilJudged_spec M cfg src _ d.val).1.win]
    unfold ExfilState.recorded ExfilInfo.record ExfilInfo.enter
    simp only
    split <;> rfl

/-- Deltas in the order of time do not go back to a window. -/
theorem stays_of_inTime {calls : List (Call (EligibleDelta inv))} (horder : InTime (uploads calls))
    (hkept : (exfilOf M cfg inv src).Unexpired calls) : StaysInWindow M cfg inv src calls := by
  rintro past now d ⟨more, rfl⟩
  have hsofar := List.Pairwise.sublist (uploads_earlier (List.prefix_append _ more)) horder
  rw [uploads_concat] at hsofar
  obtain ⟨hpast, -, hlast⟩ := List.pairwise_append.1 hsofar
  rw [exfil_held hkept.prefix_left.prefix_left]
  rcases List.eq_nil_or_concat (uploads past) with hnil | ⟨ds, l, hds⟩
  · rw [hnil]
    exact .inr fun e he => nomatch he
  · rw [hds, List.concat_eq_append] at hpast hlast
    rw [hds, List.concat_eq_append, List.getLast?_concat, Option.map_some]
    have hpos := cfg.divisors_pos.1
    have hmono : ∀ {a b : Delta}, a.obsMs ≤ b.obsMs → a.uploadWindow cfg ≤ b.uploadWindow cfg :=
      fun h => Int.ediv_le_ediv hpos h
    have hnext := hmono (hlast l (by simp) d.val (List.mem_singleton.2 rfl))
    rcases eq_or_lt_of_le hnext with heq | hlt
    · exact .inl (congrArg some heq)
    · right
      intro e he
      have hle : e.uploadWindow cfg ≤ l.uploadWindow cfg := by
        rcases List.mem_append.1 he with he | he
        · exact hmono ((List.pairwise_append.1 hpast).2.2 e he l (List.mem_singleton.2 rfl))
        · rw [List.mem_singleton.1 he]
      exact ne_of_lt (lt_of_le_of_lt hle hlt)

/-- Deltas of one window, and then one of the next. -/
def sampleNext : List (Call (EligibleDelta sampleInventory)) :=
  [.event 0 (sampleChunk 0), .event 0 (sampleChunk 29), .event 0 (sampleChunk 30)]

theorem exfil_baseline_folds_once_sample :
    FoldsOnce sampleMaths {} sampleInventory "10.10.1.20" sampleNext :=
  exfil_baseline_folds_once sampleMaths {} sampleInventory "10.10.1.20" sampleNext
    (stays_of_inTime (by unfold InTime; decide +kernel) (.of_no_timer (by simp [sampleNext])))

/-- Deltas around the end of a window, one of them a second late. -/
def sampleAcross : List (Call (EligibleDelta sampleInventory)) :=
  [.event 0 (sampleChunk 29), .event 0 (sampleChunk 30), .event 0 (sampleChunk 29),
    .event 0 (sampleChunk 30)]

/-- A window that a late delta reaches after the next one has begun is learned twice, in parts. -/
theorem exfil_window_folded_twice : ¬ ∀ calls : List (Call (EligibleDelta sampleInventory)),
    (uploads calls).Pairwise (fun a b => a.obsMs ≤ b.obsMs + 2000) →
      FoldsOnce sampleMaths {} sampleInventory "10.10.1.20" calls := by
  intro hall
  have honce := (hall sampleAcross (by decide +kernel)).once
  exact absurd honce (by decide +kernel)

end OTS.Detect
