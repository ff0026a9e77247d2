import OTSecurity.Detect.Alerts
import OTSecurity.Detect.FlowDelta

/-!
# Beaconing

Model of `BeaconLogic` of `flink/sih_detect/beacon.py`, for one key `src|dst|dst_port|proto`.

* `BeaconState` — the last start times of the pair, with sizes and evidence.
* `beaconLogic` — the logic; `horizon` — how long after the last start time state is kept.
* `Bridged` — the timer of a new state is late enough for the horizon that expiry uses.

Principal result: `beacon_state_expires` — state has a timer that clears it, in every run whose
steps are `Bridged`; `beacon_state_leaks` — a run that leaves state without a timer.
-/

namespace OTS.Detect

/-! ## The logic -/

/-- What the detectors ask of `AssetInventory`. -/
structure Inventory where
  isLocal : String → Bool
  periodic : List (String × String × Int × String)
  bulk : List (String × String) := []
  scanners : List String := []

def Inventory.knownPeriodic (inv : Inventory) (src dst : String) (port : Option Int)
    (proto : String) : Bool :=
  (src, dst, port.getD (-1), proto) ∈ inv.periodic

/-- The dictionary of the state `b`. -/
structure BeaconState where
  t : List Int
  s : List (Option Nat)
  ids : List String
  first : Evidence
  last : Evidence
  rank : Int
  emittedN : Nat
  lastFeatureMs : Option Int

/-- `ev_min(d)`. -/
def Delta.evidence (d : Delta) : Evidence :=
  ⟨d.obsMs, d.eventTimeUs, d.offsetUs, d.receivedUs, d.sensorId, d.run⟩

/-- The state before the first event of the pair. -/
def BeaconState.fresh (d : Delta) : BeaconState :=
  ⟨[], [], [], d.evidence, d.evidence, -1, 0, none⟩

/-- `bisect.bisect(ts, x)` on an ascending list. -/
def bisect (ts : List Int) (x : Int) : Nat := (ts.takeWhile (· ≤ x)).length

/-- A list after the insertion at `i`, without its first item when there are too many. -/
def insertCapped {α : Type} (cap : Nat) (xs : List α) (i : Nat) (x : α) : List α :=
  if cap < (xs.insertIdx i x).length then (xs.insertIdx i x).drop 1 else xs.insertIdx i x

/-- The state with the start time of `d`, its size and evidence. -/
def BeaconState.insert (b : BeaconState) (cfg : DetectConfig) (d : Delta) : BeaconState :=
  { b with
    t := insertCapped cfg.beaconMaxEvents b.t (bisect b.t d.startMs) d.startMs
    s := insertCapped cfg.beaconMaxEvents b.s (bisect b.t d.startMs)
      (if d.terminal then d.totalOrigBytes else none)
    ids := appendIds b.ids d.eventId
    last := d.evidence }

/-- The inter-arrival times. -/
def iats (ts : List Int) : List Rat := List.zipWith (fun a b => ((b - a : Int) : Rat)) ts ts.tail

/-- The robust statistics of a window with enough events. -/
structure BeaconStats where
  n : Nat
  mIat : Rat
  cv : Option Rat
  span : Int
  sizeCv : Option Rat

def BeaconState.stats (b : BeaconState) (cfg : DetectConfig) : Option BeaconStats :=
  if b.t.length < cfg.beaconMinEvents then none
  else
    let sizes := (b.s.filterMap id).map fun n : Nat => (n : Rat)
    some
      { n := b.t.length
        mIat := median (iats b.t)
        cv := if cfg.beaconMinIntervalMs ≤ median (iats b.t) then robustCv (iats b.t) else none
        span := b.t.getLastD 0 - b.t.headD 0
        sizeCv := if sizes.length < 4 then none else robustCv sizes }

/-- `values` of the finding and of the feature record. -/
def BeaconStats.values (x : BeaconStats) (cv : Rat) (external known : Bool) :
    List (String × Scalar) :=
  [("connections", .int x.n), ("median_iat_s", .float (x.mIat / 1000)), ("iat_robust_cv", .float cv),
    ("span_s", .float ((x.span : Rat) / 1000)), ("size_robust_cv", Scalar.ofOption x.sizeCv),
    ("dst_external", .int (if external then 1 else 0)),
    ("known_periodic", .int (if known then 1 else 0))]

def BeaconStats.severity (x : BeaconStats) (cv : Rat) (external : Bool) : Severity :=
  if external && cv ≤ 5 / 100 && 16 ≤ x.n then .high else if external then .medium else .low

def portText : Option Int → String
  | none => "None"
  | some p => toString p

def BeaconStats.explanation (x : BeaconStats) (cfg : DetectConfig) (d : Delta) (cv : Rat)
    (external : Bool) : String :=
  d.src ++ " opened " ++ toString x.n ++ " connections to " ++ d.dst ++ ":" ++ portText d.dport ++
    "/" ++ d.proto ++ " about every " ++ fixedText 1 (x.mIat / 1000) ++ "s over " ++
    fixedText 0 ((x.span : Rat) / 1000) ++ "s (robust dispersion " ++ fixedText 3 cv ++
    ", threshold " ++ floatText cfg.beaconMaxCv ++ "). Destination is " ++
    (if external then "outside" else "inside") ++
    " the local networks and not a known periodic pair in the asset inventory."

def beaconFinding (cfg : DetectConfig) (key : String) (d : Delta) (b : BeaconState)
    (x : BeaconStats) (cv : Rat) (external : Bool) : Finding :=
  finding
    { detector := "beacon"
      threatClass := "beaconing"
      subtype := "periodic_beacon"
      entityType := "service_pair"
      entityKey := key
      severity := x.severity cv external
      score := some (6 / 10 * max 0 (1 - cv / cfg.beaconMaxCv) + 4 / 10 * min 1 ((x.n : Rat) / 32))
      method := "statistical"
      detectorVersion := "beacon-1.0.0"
      featureSchemaVersion := "beacon_features-1.0.0"
      first := b.first
      last := b.last
      windowStartMs := b.t.headD 0
      windowEndMs := d.obsMs
      observed := x.values cv external false
      thresholds := [("max_robust_cv", .float cfg.beaconMaxCv),
        ("min_connections", .int cfg.beaconMinEvents),
        ("min_interval_s", .float ((cfg.beaconMinIntervalMs : Rat) / 1000))]
      unavailable := if x.sizeCv.isSome then [] else ["size_robust_cv"]
      coverage := d.coverage
      srcIp := some d.src
      dstIp := some d.dst
      dstPort := d.dport
      protocol := some d.proto
      flowId := some d.flowId
      rawEventIds := b.ids
      evidenceCount := x.n
      topFeatures := [⟨"iat_robust_cv", .float cv, .null, "ratio"⟩,
        ⟨"median_iat_s", .float (x.mIat / 1000), .null, "s"⟩,
        ⟨"connections", .int x.n, .null, "count"⟩,
        ⟨"size_robust_cv", Scalar.ofOption x.sizeCv, .null, "ratio"⟩]
      explanation := x.explanation cfg d cv external }

/-- The window is periodic: what is found and recorded, and the state left. -/
def BeaconState.report (b : BeaconState) (cfg : DetectConfig) (inv : Inventory) (key : String)
    (nowUs : Int) (d : Delta) (x : BeaconStats) (cv : Rat) : BeaconState × List Emitted :=
  let external := !inv.isLocal d.dst
  let known := inv.knownPeriodic d.src d.dst d.dport d.proto
  let rank : Int := (x.severity cv external).rank
  let raise := !known && (b.rank < rank || 2 * b.emittedN ≤ x.n)
  let b' := if raise then { b with rank := max rank b.rank, emittedN := x.n } else b
  let findings := if raise then [Emitted.out (beaconFinding cfg key d b x cv external)] else []
  let limit := rateLimited b'.lastFeatureMs d.obsMs cfg.featureMinIntervalMs
  let features := if limit.1 then
      [Emitted.feature (featureRecord nowUs "beacon" "beacon_features-1.0.0" "service_pair" key
        d.sensorId (b.t.headD 0) d.obsMs (x.values cv external known)
        [("size_robust_cv", "UNKNOWN")] [])]
    else []
  ({ b' with lastFeatureMs := limit.2 }, findings ++ features)

/-- The dispersion of a window that counts as periodic. -/
def BeaconStats.periodic (x : BeaconStats) (cfg : DetectConfig) : Option Rat :=
  x.cv.filter fun cv => cv ≤ cfg.beaconMaxCv ∧ 3 * x.mIat ≤ x.span

/-- How long after the last start time a state is kept. -/
def horizonOf (mIat : Rat) : Rat := max (4 * mIat) 600000

def beaconOnEvent (cfg : DetectConfig) (inv : Inventory) (key : String) (nowUs : Int)
    (v : Option BeaconState) (d : Delta) : Effect BeaconState Emitted :=
  let b₀ := v.getD (.fresh d)
  if !d.newFlow || d.startMs ∈ b₀.t then ⟨v, [], []⟩
  else
    let b := b₀.insert cfg d
    let x := b.stats cfg
    let r : BeaconState × List Emitted :=
      match x, x.bind (·.periodic cfg) with
      | some x, some cv => b.report cfg inv key nowUs d x cv
      | _, _ => (b, [])
    ⟨some r.1, [bucketUp (b.t.getLastD 0 + horizonOf ((x.map (·.mIat)).getD 0)) 60000], r.2⟩

/-- The horizon that expiry uses: the median of all retained inter-arrival times. -/
def horizon (ts : List Int) : Rat := horizonOf (if iats ts = [] then 0 else median (iats ts))

def beaconOnTimer (v : Option BeaconState) (ts : Int) : Effect BeaconState Emitted :=
  match v with
  | none => ⟨none, [], []⟩
  | some b => if b.t.getLastD 0 + horizon b.t ≤ ts then ⟨none, [], []⟩ else ⟨some b, [], []⟩

def beaconLogic (cfg : DetectConfig) (inv : Inventory) (key : String) :
    Logic Delta BeaconState Emitted :=
  ⟨beaconOnEvent cfg inv key, fun _ => beaconOnTimer⟩

/-! ## What a delta does -/

variable {cfg : DetectConfig} {inv : Inventory} {key : String}

theorem lt_bucketUp (q : Rat) {step : Int} (h : 0 < step) : q < bucketUp q step := by
  have hstep : (0 : Rat) < step := by exact_mod_cast h
  have hlt : q / step < ((q / step).floor : Rat) + 1 := by exact_mod_cast Rat.lt_floor_add_one _
  have := mul_lt_mul_of_pos_right hlt hstep
  rw [div_mul_cancel₀ q (ne_of_gt hstep)] at this
  unfold bucketUp
  push_cast
  exact this

theorem bucketUp_mono {q r : Rat} (h : q ≤ r) {step : Int} (hs : 0 < step) :
    bucketUp q step ≤ bucketUp r step := by
  have hstep : (0 : Rat) < step := by exact_mod_cast hs
  have hdiv : q / step ≤ r / step := div_le_div_of_nonneg_right h (le_of_lt hstep)
  have hfloor : (q / step).floor ≤ (r / step).floor :=
    Rat.le_floor_iff.2 ((Rat.floor_le _).trans hdiv)
  exact Int.mul_le_mul_of_nonneg_right (by omega) (le_of_lt hs)

/-- The start times of a state. -/
def startTimes (v : Option BeaconState) : List Int := (v.map (·.t)).getD []

/-- The start times once `x` has been inserted. -/
def withStart (cfg : DetectConfig) (ts : List Int) (x : Int) : List Int :=
  insertCapped cfg.beaconMaxEvents ts (bisect ts x) x

/-- A state is due to expire at `ts`. -/
def ExpiresBy (ts : List Int) (deadline : Int) : Prop := (ts.getLastD 0 : Rat) + horizon ts ≤ deadline

/-- The start times that a delta leaves are enough for the median, or their horizon is bridged by
the timer that is registered without it. -/
def Bridged (cfg : DetectConfig) (s : Operator Delta BeaconState Emitted) (a : Act Delta) : Prop :=
  ∀ now d, a = .event now d → d.startMs ∉ startTimes s.value →
    cfg.beaconMinEvents ≤ (withStart cfg (startTimes s.value) d.startMs).length ∨
    ExpiresBy (withStart cfg (startTimes s.value) d.startMs)
      (bucketUp ((withStart cfg (startTimes s.value) d.startMs).getLastD 0 + 600000) 60000)

instance (ts : List Int) (deadline : Int) : Decidable (ExpiresBy ts deadline) :=
  inferInstanceAs (Decidable (_ ≤ _))

instance (s : Operator Delta BeaconState Emitted) (a : Act Delta) : Decidable (Bridged cfg s a) :=
  match a with
  | .event now d => decidable_of_iff (d.startMs ∉ startTimes s.value →
      cfg.beaconMinEvents ≤ (withStart cfg (startTimes s.value) d.startMs).length ∨
      ExpiresBy (withStart cfg (startTimes s.value) d.startMs)
        (bucketUp ((withStart cfg (startTimes s.value) d.startMs).getLastD 0 + 600000) 60000))
      (by simp [Bridged])
  | .advance _ => isTrue (by simp [Bridged])
  | .fire _ => isTrue (by simp [Bridged])

theorem report_window (b : BeaconState) (nowUs : Int) (d : Delta) (x : BeaconStats) (cv : Rat) :
    (b.report cfg inv key nowUs d x cv).1.t = b.t ∧ (b.report cfg inv key nowUs d x cv).1.s = b.s := by
  unfold BeaconState.report
  simp only
  split <;> exact ⟨rfl, rfl⟩

theorem stats_mIat (b : BeaconState) : ((b.stats cfg).map (·.mIat)).getD 0 =
    if b.t.length < cfg.beaconMinEvents then 0 else median (iats b.t) := by
  unfold BeaconState.stats
  split <;> rfl

/-- The sizes of a state. -/
def startSizes (v : Option BeaconState) : List (Option Nat) := (v.map (·.s)).getD []

/-- The size that is kept of a connection. -/
def Delta.size (d : Delta) : Option Nat := if d.terminal then d.totalOrigBytes else none

/-- What a delta does: nothing, if it is no new flow or its start time is there; or its start time and
its size are inserted and a timer registered, whose horizon knows the median only of enough events. -/
theorem beaconOnEvent_cases (nowUs : Int) (v : Option BeaconState) (d : Delta) :
    (d.newFlow = false ∨ d.startMs ∈ startTimes v) ∧ beaconOnEvent cfg inv key nowUs v d = ⟨v, [], []⟩ ∨
    ∃ b, (beaconOnEvent cfg inv key nowUs v d).value = some b ∧
      d.newFlow = true ∧ d.startMs ∉ startTimes v ∧
      b.t = withStart cfg (startTimes v) d.startMs ∧
      b.s = insertCapped cfg.beaconMaxEvents (startSizes v) (bisect (startTimes v) d.startMs) d.size ∧
      (beaconOnEvent cfg inv key nowUs v d).timers = [bucketUp (b.t.getLastD 0 +
        horizonOf (if b.t.length < cfg.beaconMinEvents then 0 else median (iats b.t))) 60000] := by
  obtain ⟨b₀, hb₀⟩ : ∃ b₀, v.getD (.fresh d) = b₀ := ⟨_, rfl⟩
  have hstart : startTimes v = b₀.t := by rw [← hb₀]; cases v <;> rfl
  have hsizes : startSizes v = b₀.s := by rw [← hb₀]; cases v <;> rfl
  unfold beaconOnEvent
  simp only [hb₀]
  split
  · rename_i h
    rw [hstart]
    simp only [Bool.or_eq_true, Bool.not_eq_true', decide_eq_true_eq] at h
    exact .inl ⟨h, rfl⟩
  · rename_i h
    simp only [Bool.or_eq_true, Bool.not_eq_true', decide_eq_true_eq, not_or, Bool.not_eq_false] at h
    have hwindow : ∀ r : BeaconState × List Emitted, r = (match (b₀.insert cfg d).stats cfg,
        ((b₀.insert cfg d).stats cfg).bind (·.periodic cfg) with
        | some x, some cv => (b₀.insert cfg d).report cfg inv key nowUs d x cv
        | _, _ => (b₀.insert cfg d, [])) →
        r.1.t = withStart cfg (startTimes v) d.startMs ∧
        r.1.s = insertCapped cfg.beaconMaxEvents (startSizes v) (bisect (startTimes v) d.startMs) d.size := by
      rintro r rfl
      rw [hstart, hsizes]
      split
      · exact report_window ..
      · exact ⟨rfl, rfl⟩
    refine .inr ⟨_, rfl, h.1, hstart ▸ h.2, (hwindow _ rfl).1, (hwindow _ rfl).2, ?_⟩
    rw [(hwindow _ rfl).1, stats_mIat, hstart]
    rfl

/-! ## Expiry -/

/-- The timer of a state: it is late enough to clear the state, and no later than the horizon
rounded up. -/
def HasTimer (ts : List Int) (timers : List Int) : Prop :=
  ∃ t ∈ timers, ExpiresBy ts t ∧ t ≤ bucketUp (ts.getLastD 0 + horizon ts) 60000

def Timered (s : Operator Delta BeaconState Emitted) : Prop :=
  ∀ b, s.value = some b → HasTimer b.t s.timers

theorem timer_of_bridged {ts : List Int} (h : cfg.beaconMinEvents ≤ ts.length ∨
    ExpiresBy ts (bucketUp (ts.getLastD 0 + 600000) 60000)) :
    HasTimer ts [bucketUp (ts.getLastD 0 +
      horizonOf (if ts.length < cfg.beaconMinEvents then 0 else median (iats ts))) 60000] := by
  have hsix : horizonOf 0 = 600000 := by decide +kernel
  have hbase : (600000 : Rat) ≤ horizon ts := le_max_right _ _
  by_cases hlt : ts.length < cfg.beaconMinEvents
  · rw [if_pos hlt, hsix]
    rcases h with h | h
    · omega
    · refine ⟨_, List.mem_singleton.2 rfl, h, ?_⟩
      exact bucketUp_mono (add_le_add_right hbase _) (by decide)
  · rw [if_neg hlt]
    have hsame : horizon ts = horizonOf (median (iats ts)) := by
      unfold horizon
      split
      · rename_i hnil
        have hmed : median [] = 0 := by decide +kernel
        rw [hnil, hmed]
      · rfl
    rw [← hsame]
    exact ⟨_, List.mem_singleton.2 rfl, le_of_lt (lt_bucketUp _ (by decide)), le_refl _⟩

theorem Timered.step {s s' : Operator Delta BeaconState Emitted} {a : Act Delta} (h : Timered s)
    (hC : Bridged cfg s a) (hs : s.step (beaconLogic cfg inv key) a = some s') : Timered s' := by
  cases a with
  | event now d =>
    cases hs
    intro b hb
    have hb' : (beaconOnEvent cfg inv key now s.value d).value = some b := hb
    show HasTimer b.t ((beaconOnEvent cfg inv key now s.value d).timers.foldl register s.timers)
    rcases @beaconOnEvent_cases cfg inv key now s.value d with
      ⟨-, hsame⟩ | ⟨b', hval, -, hnew, ht, -, htimers⟩
    · rw [hsame] at hb' ⊢
      exact h b hb'
    · obtain rfl : b' = b := Option.some.inj (hval.symm.trans hb')
      have hbridged := hC now d rfl hnew
      rw [← ht] at hbridged
      obtain ⟨t, hmem, hexp, hle⟩ := timer_of_bridged hbridged
      rw [← htimers] at hmem
      refine ⟨t, ?_, hexp, hle⟩
      rw [htimers] at hmem ⊢
      exact mem_register.2 (.inl (List.mem_singleton.1 hmem))
  | advance w =>
    simp only [Operator.step] at hs
    split at hs
    · cases hs; exact h
    · cases hs
  | fire now =>
    simp only [Operator.step, Option.map_eq_some_iff] at hs
    obtain ⟨⟨ts, u⟩, hd, rfl⟩ := hs
    obtain ⟨hv, _, _, _, htimers, _⟩ := Operator.due_some hd
    intro b hb
    have hb' : (beaconOnTimer u.value ts).value = some b := hb
    rw [hv] at hb'
    cases hval : s.value with
    | none => rw [hval] at hb'; cases hb'
    | some b₀ =>
      rw [hval] at hb'
      unfold beaconOnTimer at hb'
      simp only at hb'
      split at hb'
      · cases hb'
      · rename_i hnot
        cases hb'
        -- the timer that fired is not the one that clears the state
        obtain ⟨t, ht, hexp, hle⟩ := h b hval
        rw [htimers] at ht
        refine ⟨t, subset_foldl_register _ _ ?_, hexp, hle⟩
        rcases List.mem_cons.1 ht with rfl | ht
        · exact absurd hexp hnot
        · exact ht

/-- **Beacon state expires.**  In every run whose deltas are `Bridged`: whenever there is state a
timer is registered that clears it, and no state is left once the watermark has passed the last
start time and its horizon, rounded up to the next minute. -/
theorem beacon_state_expires (cfg : DetectConfig) (inv : Inventory) (key : String)
    {s : Operator Delta BeaconState Emitted}
    (h : (operator (beaconLogic cfg inv key)).Reach (Bridged cfg) s) :
    ∀ b, s.value = some b →
      (∃ t ∈ s.timers, (beaconOnTimer s.value t).value = none) ∧
      (s.due = none → s.watermark < bucketUp (b.t.getLastD 0 + horizon b.t) 60000) := by
  have htimered : Timered s :=
    h.invariant (I := Timered) (by rintro b ⟨⟩) (fun _ _ _ hI hC hs => hI.step hC hs)
  intro b hb
  obtain ⟨t, ht, hexp, hle⟩ := htimered b hb
  constructor
  · refine ⟨t, ht, ?_⟩
    rw [hb]
    unfold beaconOnTimer
    simp only
    rw [if_pos (show (b.t.getLastD 0 : Rat) + horizon b.t ≤ t from hexp)]
  · intro hd
    exact lt_of_lt_of_le (reach_timers h hd t ht) hle

/-- A connection from the OT network that started at `start` and was reported at `obs`, in seconds
after a fixed time. -/
def sampleDelta (start obs : Int) : Delta where
  flowId := "flow"
  sensorId := "ot-sensor-01"
  run := none
  eventId := toString start
  receivedUs := 1788256800000000 + 1000000 * obs
  eventTimeUs := 1788256800000000 + 1000000 * start
  offsetUs := 0
  obsMs := 1788256800000 + 1000 * obs
  startMs := 1788256800000 + 1000 * start
  coverage := "both_directions"
  src := "10.10.1.20"
  dst := "203.0.113.9"
  sport := some 40000
  dport := some 443
  proto := "tcp"
  service := none
  newFlow := true
  terminal := true
  connState := some "SF"
  history := none
  d := fun _ => some 100
  totalOrigBytes := some 100
  totalRespBytes := some 100
  durationS := some (obs - start)

/-- Only one host is local and nothing is known to be periodic. -/
def sampleInventory : Inventory := { isLocal := fun ip => ip = "10.10.1.20", periodic := [] }

def samplePair : String := "10.10.1.20|203.0.113.9|443|tcp"

theorem beacon_state_expires_sample :
    ∃ s, (operator (beaconLogic {} sampleInventory samplePair)).Reach (Bridged {}) s ∧
      (s.value.isSome = true ∧ s.timers.length = 2) ∧
      ∀ b, s.value = some b → ∃ t ∈ s.timers, (beaconOnTimer s.value t).value = none := by
  obtain ⟨s, hs, hprop⟩ := (Option.any_eq_true _ _).1 (show
    ((operator (beaconLogic {} sampleInventory samplePair)).runMeeting (Bridged {})
      (operator (beaconLogic {} sampleInventory samplePair)).init
      [.event 0 (sampleDelta 0 10), .event 0 (sampleDelta 100 110)]).any
        (fun s => s.value.isSome = true ∧ s.timers.length = 2) = true by decide +kernel)
  have hreach := Machine.reach_of_run _ hs
  exact ⟨s, hreach, of_decide_eq_true hprop,
    fun b hb => (beacon_state_expires {} sampleInventory samplePair hreach b hb).1⟩

/-- Two connections that started 50 minutes apart and ended together: the timer fires too early for
the horizon of four medians and is not registered again, so the state stays for good. -/
theorem beacon_state_leaks :
    ∃ s, (operator (beaconLogic {} sampleInventory samplePair)).Reach (fun _ _ => True) s ∧
      s.timers = [] ∧
      ∃ b, s.value = some b ∧ bucketUp (b.t.getLastD 0 + horizon b.t) 60000 ≤ s.watermark := by
  obtain ⟨s, hs, hprop⟩ := (Option.any_eq_true _ _).1 (show
    ((operator (beaconLogic {} sampleInventory samplePair)).runMeeting (fun _ _ => True)
      (operator (beaconLogic {} sampleInventory samplePair)).init
      [.event 0 (sampleDelta 0 3600), .event 0 (sampleDelta 3000 3600),
        .advance 1788343200000, .fire 0, .fire 0]).any
        (fun s => s.timers = [] ∧ s.value.any
          (fun b => bucketUp (b.t.getLastD 0 + horizon b.t) 60000 ≤ s.watermark) = true) = true by
    decide +kernel)
  obtain ⟨htimers, hval⟩ := of_decide_eq_true hprop
  obtain ⟨b, hb, hle⟩ := (Option.any_eq_true _ _).1 hval
  exact ⟨s, Machine.reach_of_run _ hs, htimers, b, hb, of_decide_eq_true hle⟩

end OTS.Detect
