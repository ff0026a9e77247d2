import Mathlib.Data.Finset.Max
import Mathlib.Data.Int.Interval
import OTSecurity.Detect.FloodWindows

/-!
# Floods over whole runs

What late deltas do to the buckets, to the baseline and to what is reported.

* `Recent` — a delta is no more than `KEEP_BUCKETS` seconds behind any second that is held.
* `Unfolded` — a delta is not of a second that the baseline has learned.
* `LearnsOnce` — what the baseline should learn of each second.
* `Reported` — how a quantity should be shown.

Principal results: `flood_buckets_bounded`, `flood_buckets_grow`; `flood_baseline_learns_once`,
`flood_baseline_misses`; `flood_traffic_reported_iff`, `flood_traffic_zero`.
-/

namespace OTS.Detect

variable {M : Maths} {cfg : DdosConfig} {dst : String}

/-! ## The number of buckets -/

/-- The seconds that are held are at most `KEEP_BUCKETS` apart. -/
def DdosState.Spread (s : DdosState) : Prop := ∀ j ∈ s.b.keys, ∀ k ∈ s.b.keys, k ≤ j + KEEP_BUCKETS

/-- A delta is no more than `KEEP_BUCKETS` seconds behind any second that is held. -/
def Recent (v : Option DdosState) (d : Delta) : Prop :=
  ∀ s ∈ v, ∀ k ∈ s.b.keys, k ≤ d.second + KEEP_BUCKETS

instance (v : Option DdosState) (d : Delta) : Decidable (Recent v d) :=
  inferInstanceAs (Decidable (∀ s ∈ v, _))

theorem length_le_of_spread {ks : List Int} (hnodup : ks.Nodup) {n : Nat}
    (hspread : ∀ j ∈ ks, ∀ k ∈ ks, k ≤ j + n) : ks.length ≤ n + 1 := by
  cases hks : ks with
  | nil => exact Nat.zero_le _
  | cons j rest =>
    rw [← hks]
    have hmem : ks.toFinset.Nonempty := ⟨j, by simp [hks]⟩
    have hsub : ks.toFinset ⊆ Finset.Icc (ks.toFinset.min' hmem) (ks.toFinset.min' hmem + n) := by
      intro k hk
      rw [Finset.mem_Icc]
      refine ⟨Finset.min'_le _ _ hk, hspread _ ?_ k (List.mem_toFinset.1 hk)⟩
      exact List.mem_toFinset.1 (Finset.min'_mem _ _)
    have hcard := Finset.card_le_card hsub
    rw [List.toFinset_card_of_nodup hnodup, Int.card_Icc] at hcard
    omega

/-- The seconds held after a delta: its own, and those not too far behind it. -/
theorem ddosOnEvent_keys (nowUs : Int) {st : Option DdosState} {d : Delta} {s : DdosState}
    (hs : (ddosOnEvent M cfg dst nowUs st d).value = some s) {k : Int} (hk : k ∈ s.b.keys) :
    k = d.second ∨ k ∈ (st.getD (.fresh d)).b.keys ∧ d.second ≤ k + KEEP_BUCKETS := by
  obtain ⟨s', hs', -, hget, -⟩ := ddosOnEvent_spec M cfg dst nowUs st d
  obtain rfl := Option.some.inj (hs'.symm.trans hs)
  rw [← ODict.get?_isSome, hget] at hk
  split at hk
  · exact .inl ‹_›
  · right
    rw [closeOld_get?] at hk
    cases hbefore : (st.getD (.fresh d)).b.get? k with
    | none =>
      rw [hbefore] at hk
      cases hk
    | some b =>
      rw [hbefore, Option.bind_some] at hk
      refine ⟨ODict.get?_isSome.1 (by rw [hbefore]; rfl), ?_⟩
      unfold Bucket.close at hk
      split at hk
      · cases hk
      · omega

theorem spread_of_recent (calls : List (Call Delta)) (hrecent : (ddosLogic M cfg dst).Meets Recent calls) :
    ∀ s, (ddosLogic M cfg dst).valueAfter none calls = some s → s.Spread := by
  induction calls using List.reverseRecOn with
  | nil => exact fun _ hs => nomatch hs
  | append_singleton calls c ih =>
    have hbefore := ih hrecent.prefix_left
    intro s hs
    rw [Logic.valueAfter_concat] at hs
    cases c with
    | event now d =>
      have hlate := hrecent.last
      have hold : ∀ k, k ∈ (((ddosLogic M cfg dst).valueAfter none calls).getD (.fresh d)).b.keys →
          k ≤ d.second + KEEP_BUCKETS ∧
          ∀ j ∈ (((ddosLogic M cfg dst).valueAfter none calls).getD (.fresh d)).b.keys,
            k ≤ j + KEEP_BUCKETS := by
        intro k hk
        cases hv : (ddosLogic M cfg dst).valueAfter none calls with
        | none =>
          rw [hv] at hk
          cases hk
        | some s =>
          rw [hv] at hk
          exact ⟨hlate s hv k hk, fun j hj => hbefore s hv j hj k hk⟩
      intro j hj k hk
      rcases ddosOnEvent_keys now hs hj with rfl | ⟨hj, hjd⟩ <;>
        rcases ddosOnEvent_keys now hs hk with rfl | ⟨hk, hkd⟩
      · unfold KEEP_BUCKETS
        omega
      · exact (hold k hk).1
      · exact hjd
      · exact (hold k hk).2 j hj
    | timer now ts =>
      have hclears : (ddosLogic M cfg dst).Clears := ddosLogic_clears
      rcases hclears now ((ddosLogic M cfg dst).valueAfter none calls) ts with hnone | hsame
      · cases hnone.symm.trans hs
      · exact hbefore s (hsame.symm.trans hs)

/-- **Flood buckets are bounded** as long as no delta is too far behind: there are at most
`KEEP_BUCKETS + 1`. -/
theorem flood_buckets_bounded (M : Maths) (cfg : DdosConfig) (dst : String) (calls : List (Call Delta))
    (hrecent : (ddosLogic M cfg dst).Meets Recent calls) :
    ∀ s, (ddosLogic M cfg dst).valueAfter none calls = some s → (s.b.length : Int) ≤ KEEP_BUCKETS + 1 := by
  intro s hs
  have hlength := length_le_of_spread (n := 10) s.b.nodup (spread_of_recent calls hrecent s hs)
  have hkeys : s.b.keys.length = s.b.length := List.length_map _
  unfold KEEP_BUCKETS
  have : s.b.keys.length ≤ 10 + 1 := hlength
  omega

/-- Deltas that come in order, then one that is nine seconds late. -/
def sampleRecent : List (Call Delta) :=
  [.event 0 (sampleDelta 0 10), .event 0 (sampleDelta 0 20), .event 0 (sampleDelta 0 11)]

theorem flood_buckets_bounded_sample :
    ∃ s, (ddosLogic sampleMaths {} "203.0.113.9").valueAfter none sampleRecent = some s ∧
      (s.b.length : Int) ≤ KEEP_BUCKETS + 1 := by
  have hsome : ((ddosLogic sampleMaths {} "203.0.113.9").valueAfter none sampleRecent).isSome := by
    decide +kernel
  obtain ⟨s, hs⟩ := Option.isSome_iff_exists.1 hsome
  exact ⟨s, hs, flood_buckets_bounded sampleMaths {} "203.0.113.9" sampleRecent
    (Logic.meets_of_check (by decide +kernel)) s hs⟩

/-- One delta for each of twelve seconds, the latest first. -/
def sampleDescending : List (Call Delta) :=
  (List.range 12).map fun i => .event 0 (sampleDelta 0 (20 - i))

/-- Deltas that come the latest first close nothing: each second keeps its bucket. -/
theorem flood_buckets_grow : ¬ ∀ calls s,
    (ddosLogic sampleMaths {} "203.0.113.9").valueAfter none calls = some s →
      (s.b.length : Int) ≤ KEEP_BUCKETS + 1 := by
  intro hall
  have hsample : (((ddosLogic sampleMaths {} "203.0.113.9").valueAfter none sampleDescending).any
      fun s => s.b.length = 12) = true := by decide +kernel
  obtain ⟨s, hs, hlength⟩ := (Option.any_eq_true _ _).1 hsample
  have hbound := hall sampleDescending s hs
  rw [of_decide_eq_true hlength] at hbound
  exact absurd hbound (by decide)

/-! ## What the baseline learns -/

/-- What a call makes the baseline learn: seconds with their flows. -/
def learnedBy (v : Option DdosState) : Call Delta → List (Int × Nat)
  | .event _ d => (v.getD (.fresh d)).learned d.second
  | .timer _ _ => []

/-- The second in which a call raises a subtype. -/
def raisedBy (M : Maths) (cfg : DdosConfig) (v : Option DdosState) : Call Delta → List Int
  | .event _ d => if ((floodView M cfg v d).subtype cfg).isSome then [d.second] else []
  | .timer _ _ => []

/-- What the baseline has learned, in order. -/
def foldedIn (M : Maths) (cfg : DdosConfig) (dst : String) (calls : List (Call Delta)) :
    List (Int × Nat) :=
  (ddosLogic M cfg dst).observe learnedBy none calls

/-- The seconds in which a subtype was raised. -/
def raisedIn (M : Maths) (cfg : DdosConfig) (dst : String) (calls : List (Call Delta)) : List Int :=
  (ddosLogic M cfg dst).observe (raisedBy M cfg) none calls

/-- The baseline learns each second once, with all its new flows, and none in which a subtype was
raised. -/
structure LearnsOnce (M : Maths) (cfg : DdosConfig) (dst : String) (calls : List (Call Delta)) : Prop where
  once : ((foldedIn M cfg dst calls).map (·.1)).Nodup
  total : ∀ p ∈ foldedIn M cfg dst calls,
    p.2 = (ofSecond (calls.filterMap Call.element) p.1).countP (·.newFlow)
  quiet : ∀ p ∈ foldedIn M cfg dst calls, p.1 ∉ raisedIn M cfg dst calls
  ewma : ∀ s, (ddosLogic M cfg dst).valueAfter none calls = some s →
    s.flows = ((foldedIn M cfg dst calls).map (·.2)).foldl (fun e n => e.update n) .new ∧
    s.flows.n = (foldedIn M cfg dst calls).length

/-- Each delta is at most two seconds behind the latest. -/
def OnTime (calls : List (Call Delta)) : Prop :=
  (calls.filterMap Call.element).Pairwise fun d e => d.obsMs ≤ e.obsMs + 2000

instance (calls : List (Call Delta)) : Decidable (OnTime calls) :=
  inferInstanceAs (Decidable (List.Pairwise _ _))

/-- A delta is not of a second that the baseline has learned. -/
def Unfolded (v : Option DdosState) (d : Delta) : Prop :=
  ∀ s ∈ v, ∀ b ∈ s.b.get? d.second, b.closed → b.anomalous

instance (v : Option DdosState) (d : Delta) : Decidable (Unfolded v d) :=
  inferInstanceAs (Decidable (∀ s ∈ v, _))

/-- The buckets, the deltas, what was learned and where something was raised. -/
structure Learning (s : DdosState) (ds : List Delta) (folded : List (Int × Nat)) (raised : List Int) :
    Prop where
  once : (folded.map (·.1)).Nodup
  seen : ∀ p ∈ folded, ofSecond ds p.1 ≠ []
  total : ∀ p ∈ folded, p.2 = (ofSecond ds p.1).countP (·.newFlow)
  quiet : ∀ p ∈ folded, p.1 ∉ raised
  closed : ∀ p ∈ folded, ∀ b, s.b.get? p.1 = some b → b.closed = true ∧ b.anomalous = false
  raisedSeen : ∀ k ∈ raised, ofSecond ds k ≠ []
  marked : ∀ k ∈ raised, ∀ b, s.b.get? k = some b → b.anomalous = true
  flows : s.flows = (folded.map (·.2)).foldl (fun e n => e.update n) .new

theorem mem_learned {s : DdosState} {sec : Int} {p : Int × Nat} :
    p ∈ s.learned sec ↔ p.1 < sec ∧ ∃ b, s.b.get? p.1 = some b ∧ b.closed = false ∧ b.anomalous = false ∧
      p.2 = b.flows := by
  unfold DdosState.learned
  rw [List.mem_filterMap]
  constructor
  · rintro ⟨k, hk, hlearns⟩
    unfold DdosState.learns at hlearns
    cases hget : s.b.get? k with
    | none =>
      rw [hget] at hlearns
      cases hlearns
    | some b =>
      rw [hget, Option.bind_some] at hlearns
      split at hlearns
      · cases hlearns
      · rename_i hopen
        cases hlearns
        simp only [Bool.or_eq_true, not_or, Bool.not_eq_true] at hopen
        exact ⟨((mem_closing s sec k).1 hk).2, b, hget, hopen.1, hopen.2, rfl⟩
  · rintro ⟨hlt, b, hget, hclosed, hanomalous, hflows⟩
    refine ⟨p.1, (mem_closing s sec p.1).2 ⟨ODict.get?_isSome.1 (by rw [hget]; rfl), hlt⟩, ?_⟩
    unfold DdosState.learns
    rw [hget, Option.bind_some, hclosed, hanomalous, ← hflows]
    rfl

theorem learned_nodup (s : DdosState) (sec : Int) : ((s.learned sec).map (·.1)).Nodup := by
  have hsub : List.Sublist ((s.learned sec).map (·.1)) (s.closing sec) := by
    unfold DdosState.learned
    induction s.closing sec with
    | nil => exact List.Sublist.slnil
    | cons k ks ih =>
      rw [List.filterMap_cons]
      cases hlearns : s.learns k with
      | none => exact ih.cons k
      | some p =>
        have hp : p.1 = k := by
          unfold DdosState.learns at hlearns
          obtain ⟨b, -, hb⟩ := Option.bind_eq_some_iff.1 hlearns
          split at hb
          · cases hb
          · cases hb
            rfl
        simp only [List.map_cons, hp]
        exact ih.cons_cons k
  exact (closing_nodup s sec).sublist hsub

/-- Nothing is dropped and seen again when no delta is far behind. -/
theorem heldOf_eq_or_nil {ds : List Delta} (h : Disorder KEEP_BUCKETS ds) (k : Int) :
    heldOf ds k = [] ∨ heldOf ds k = ofSecond ds k := by
  induction ds using List.reverseRecOn with
  | nil => exact .inl rfl
  | append_singleton ds d ih =>
    obtain ⟨hds, -, hd⟩ := List.pairwise_append.1 h
    by_cases hk : k = d.second
    · right
      apply heldOf_eq
      intro e he
      rcases List.mem_append.1 he with he | he
      · exact hk ▸ hd e he d (List.mem_singleton.2 rfl)
      · rw [List.mem_singleton.1 he, hk]
        unfold KEEP_BUCKETS
        omega
    · have hsame : ofSecond (ds ++ [d]) k = ofSecond ds k := by
        have hd : ¬ d.second = k := fun h => hk h.symm
        simp [ofSecond, hd]
      rw [heldOf_concat, hsame]
      unfold hold
      rw [if_neg hk]
      split
      · exact .inl rfl
      · exact ih hds

theorem add_anomalous (b : Bucket) (d : Delta) : (b.add M d).anomalous = b.anomalous := by
  unfold Bucket.add
  simp only
  split <;> rfl

/-- A bucket of another second is what it was, or closed. -/
theorem closeOld_bucket {s : DdosState} {sec k : Int} {b' : Bucket}
    (h : (s.closeOld sec).b.get? k = some b') :
    ∃ b, s.b.get? k = some b ∧ b'.anomalous = b.anomalous ∧ (b.closed = true ∨ k < sec → b'.closed = true) := by
  rw [closeOld_get?] at h
  obtain ⟨b, hb, hclose⟩ := Option.bind_eq_some_iff.1 h
  refine ⟨b, hb, ?_⟩
  unfold Bucket.close at hclose
  split at hclose
  · cases hclose
  · split at hclose
    · cases hclose
      exact ⟨rfl, fun _ => rfl⟩
    · rename_i hge
      cases hclose
      exact ⟨rfl, fun h => h.resolve_right hge⟩

/-- One delta that is not of a second that has been learned. -/
theorem Learning.next {s s' : DdosState} {ds : List Delta} {folded : List (Int × Nat)} {raised : List Int}
    {d : Delta} {found : Bool} (h : Learning s ds folded raised) (hholds : s.Holds M (heldOf ds))
    (hdisorder : Disorder KEEP_BUCKETS (ds ++ [d]))
    (hunfolded : ∀ b, s.b.get? d.second = some b → b.closed = true → b.anomalous = true)
    (hflows : s'.flows = (s.closeOld d.second).flows)
    (hget : ∀ k, s'.b.get? k = if k = d.second then
        some (if found then { s.bucketOf M d with anomalous := true } else s.bucketOf M d)
      else (s.closeOld d.second).b.get? k) :
    Learning s' (ds ++ [d]) (folded ++ s.learned d.second)
      (raised ++ if found then [d.second] else []) := by
  obtain ⟨hds, -, hd⟩ := List.pairwise_append.1 hdisorder
  have hopen : ofSecond ds d.second ≠ [] → ∃ b, s.b.get? d.second = some b := by
    intro hne
    cases hb : s.b.get? d.second with
    | some b => exact ⟨b, rfl⟩
    | none =>
      have hheld := heldOf_eq (k := d.second) fun e he => hd e he d (List.mem_singleton.2 rfl)
      exact absurd (hheld ▸ hholds.absent _ hb) hne
  have hother : ∀ k, k ≠ d.second → ofSecond (ds ++ [d]) k = ofSecond ds k := by
    intro k hk
    have hd : ¬ d.second = k := fun h => hk h.symm
    simp [ofSecond, hd]
  have hgrow : ∀ k, ofSecond ds k ≠ [] → ofSecond (ds ++ [d]) k ≠ [] := by
    intro k hne
    unfold ofSecond at hne ⊢
    rw [List.filter_append]
    exact List.append_ne_nil_of_left_ne_nil hne _
  -- no delta is of a second that was learned before, nor of one that is learned now
  have hfolded : ∀ p ∈ folded, p.1 ≠ d.second := by
    intro p hp heq
    obtain ⟨b, hb⟩ := hopen (heq ▸ h.seen p hp)
    obtain ⟨hclosed, hanomalous⟩ := h.closed p hp b (heq ▸ hb)
    exact Bool.false_ne_true (hanomalous.symm.trans (hunfolded b hb hclosed))
  have hlearned : ∀ p ∈ s.learned d.second, p.1 ≠ d.second := fun p hp =>
    ne_of_lt (mem_learned.1 hp).1
  have hfull : ∀ p ∈ s.learned d.second, ofSecond ds p.1 ≠ [] ∧
      p.2 = (ofSecond ds p.1).countP (·.newFlow) := by
    intro p hp
    obtain ⟨-, b, hb, -, -, hn⟩ := mem_learned.1 hp
    obtain ⟨hne, hrecounts⟩ := hholds.present p.1 b hb
    have hall := (heldOf_eq_or_nil hds p.1).resolve_left hne
    rw [hall] at hne hrecounts
    exact ⟨hne, hn.trans hrecounts.flows⟩
  have hquiet : ∀ p ∈ folded ++ s.learned d.second, p.1 ∉ raised := by
    intro p hp hraised
    rcases List.mem_append.1 hp with hp | hp
    · exact h.quiet p hp hraised
    · obtain ⟨-, b, hb, -, hanomalous, -⟩ := mem_learned.1 hp
      exact Bool.false_ne_true (hanomalous.symm.trans (h.marked p.1 hraised b hb))
  have hne : ∀ p ∈ folded ++ s.learned d.second, p.1 ≠ d.second := by
    intro p hp
    rcases List.mem_append.1 hp with hp | hp
    · exact hfolded p hp
    · exact hlearned p hp
  constructor
  · rw [List.map_append, List.nodup_append]
    refine ⟨h.once, learned_nodup s d.second, ?_⟩
    rintro k hk j hj rfl
    obtain ⟨p, hp, rfl⟩ := List.mem_map.1 hk
    obtain ⟨q, hq, heq⟩ := List.mem_map.1 hj
    obtain ⟨-, b, hb, hclosed, -, -⟩ := mem_learned.1 hq
    exact Bool.false_ne_true (hclosed.symm.trans (h.closed p hp b (heq ▸ hb)).1)
  · intro p hp
    rw [hother p.1 (hne p hp)]
    rcases List.mem_append.1 hp with hp | hp
    · exact h.seen p hp
    · exact (hfull p hp).1
  · intro p hp
    rw [hother p.1 (hne p hp)]
    rcases List.mem_append.1 hp with hp | hp
    · exact h.total p hp
    · exact (hfull p hp).2
  · intro p hp hraised
    rcases List.mem_append.1 hraised with hraised | hraised
    · exact hquiet p hp hraised
    · split at hraised
      · exact hne p hp (List.mem_singleton.1 hraised)
      · cases hraised
  · intro p hp b' hb'
    rw [hget, if_neg (hne p hp)] at hb'
    obtain ⟨b, hb, hanomalous, hclosed⟩ := closeOld_bucket hb'
    rcases List.mem_append.1 hp with hp | hp
    · obtain ⟨hold, hquiet⟩ := h.closed p hp b hb
      exact ⟨hclosed (.inl hold), hanomalous.trans hquiet⟩
    · obtain ⟨hlt, c, hc, -, hquiet, -⟩ := mem_learned.1 hp
      obtain rfl := Option.some.inj (hb.symm.trans hc)
      exact ⟨hclosed (.inr hlt), hanomalous.trans hquiet⟩
  · intro k hk
    rcases List.mem_append.1 hk with hk | hk
    · exact hgrow k (h.raisedSeen k hk)
    · split at hk
      · rw [List.mem_singleton.1 hk]
        have hmem : d ∈ ofSecond (ds ++ [d]) d.second :=
          List.mem_filter.2 ⟨List.mem_append_right _ (List.mem_singleton.2 rfl), decide_eq_true rfl⟩
        exact List.ne_nil_of_mem hmem
      · cases hk
  · intro k hk b' hb'
    rw [hget] at hb'
    split at hb'
    · rename_i hsec
      cases hb'
      cases found with
      | true => rfl
      | false =>
        -- it was raised before, so its bucket was marked
        have hraised : k ∈ raised := by simpa using hk
        obtain ⟨b, hb⟩ := hopen (hsec ▸ h.raisedSeen k hraised)
        show (s.bucketOf M d).anomalous = true
        unfold DdosState.bucketOf
        rw [add_anomalous, hb]
        exact h.marked k hraised b (hsec ▸ hb)
    · rename_i hsec
      obtain ⟨b, hb, hanomalous, -⟩ := closeOld_bucket hb'
      have hraised : k ∈ raised := by
        rcases List.mem_append.1 hk with hk | hk
        · exact hk
        · split at hk
          · exact absurd (List.mem_singleton.1 hk) hsec
          · cases hk
      exact hanomalous.trans (h.marked k hraised b hb)
  · rw [hflows, closeOld_flows, h.flows, List.map_append, List.foldl_append]

theorem learning_nil (d : Delta) : Learning (.fresh d) [] [] [] where
  once := List.nodup_nil
  seen := fun _ hp => absurd hp List.not_mem_nil
  total := fun _ hp => absurd hp List.not_mem_nil
  quiet := fun _ hp => absurd hp List.not_mem_nil
  closed := fun _ hp => absurd hp List.not_mem_nil
  raisedSeen := fun _ hk => absurd hk List.not_mem_nil
  marked := fun _ hk => absurd hk List.not_mem_nil
  flows := rfl

theorem disorder_of_onTime {ds : List Delta} (h : ds.Pairwise fun d e => d.obsMs ≤ e.obsMs + 2000) :
    Disorder KEEP_BUCKETS ds := by
  apply h.imp
  intro d e hle
  unfold Delta.second KEEP_BUCKETS
  omega

/-- What every run has learned in which no delta is of a second that was learned. -/
theorem learning_of_unfolded (calls : List (Call Delta)) (hkept : (ddosLogic M cfg dst).Unexpired calls)
    (hontime : OnTime calls) (hunfolded : (ddosLogic M cfg dst).Meets Unfolded calls) (d : Delta) :
    Learning (((ddosLogic M cfg dst).valueAfter none calls).getD (.fresh d))
      (calls.filterMap Call.element) (foldedIn M cfg dst calls) (raisedIn M cfg dst calls) := by
  have hsome : ∀ now v e, ((ddosLogic M cfg dst).onEvent now v e).value.isSome := by
    intro now v e
    obtain ⟨s, hs, -⟩ := ddosOnEvent_spec M cfg dst now v e
    exact Option.isSome_iff_exists.2 ⟨s, hs⟩
  induction calls using List.reverseRecOn generalizing d with
  | nil => exact learning_nil d
  | append_singleton calls c ih =>
    have hontime' := hontime
    unfold OnTime at hontime'
    rw [List.filterMap_append] at hontime'
    have hbefore := ih hkept.prefix_left (List.pairwise_append.1 hontime').1 hunfolded.prefix_left
    unfold foldedIn raisedIn at hbefore ⊢
    rw [Logic.observe_concat, Logic.observe_concat, List.filterMap_append]
    cases c with
    | event now e =>
      obtain ⟨s', hs', hflows, hget, -⟩ :=
        ddosOnEvent_spec M cfg dst now ((ddosLogic M cfg dst).valueAfter none calls) e
      have hafter : (ddosLogic M cfg dst).valueAfter none (calls ++ [Call.event now e]) = some s' := by
        rw [Logic.valueAfter_concat]
        exact hs'
      rw [hafter]
      have hholds := state_holds M cfg dst calls e
      rw [hkept.prefix_left.since_eq ddosLogic_clears hsome] at hholds
      refine (hbefore e).next hholds (disorder_of_onTime hontime') ?_ hflows hget
      intro b hb hclosed
      cases hv : (ddosLogic M cfg dst).valueAfter none calls with
      | none =>
        rw [hv] at hb
        cases hb
      | some s =>
        rw [hv] at hb
        exact hunfolded.last s hv b hb hclosed
    | timer now ts =>
      have hsame := hkept.value_timer ddosLogic_clears
      rw [hsame, show learnedBy ((ddosLogic M cfg dst).valueAfter none calls) (.timer now ts) = [] from rfl,
        show raisedBy M cfg ((ddosLogic M cfg dst).valueAfter none calls) (.timer now ts) = [] from rfl,
        show [Call.timer (ε := Delta) now ts].filterMap Call.element = [] from rfl, List.append_nil,
        List.append_nil, List.append_nil]
      exact hbefore d

theorem foldl_update_n (ns : List Nat) (e : Ewma) :
    (ns.foldl (fun e n => e.update n) e).n = e.n + ns.length := by
  induction ns generalizing e with
  | nil => rfl
  | cons n ns ih =>
    have hone : (e.update n).n = e.n + 1 := by
      unfold Ewma.update
      split
      · rename_i hzero
        rw [hzero]
      · rfl
    rw [List.foldl_cons, ih, hone, List.length_cons]
    omega

/-- **The flood baseline learns each second once**, with all its new flows and none in which a subtype was
raised, as long as no delta is of a second that it has learned already. -/
theorem flood_baseline_learns_once (M : Maths) (cfg : DdosConfig) (dst : String)
    (calls : List (Call Delta)) (hkept : (ddosLogic M cfg dst).Unexpired calls) (hontime : OnTime calls)
    (hunfolded : (ddosLogic M cfg dst).Meets Unfolded calls) : LearnsOnce M cfg dst calls := by
  have hlearning := learning_of_unfolded calls hkept hontime hunfolded
  constructor
  · exact (hlearning (sampleDelta 0 0)).once
  · exact (hlearning (sampleDelta 0 0)).total
  · exact (hlearning (sampleDelta 0 0)).quiet
  · intro s hs
    have hflows := (hlearning (sampleDelta 0 0)).flows
    rw [hs] at hflows
    have hflows : s.flows = _ := hflows
    refine ⟨hflows, ?_⟩
    rw [hflows, foldl_update_n, List.length_map]
    exact Nat.zero_add _

/-- Deltas of two seconds, and one that is late in the second one. -/
def sampleOrderly : List (Call Delta) :=
  [.event 0 (sampleDelta 0 10), .event 0 (sampleDelta 0 11), .event 0 (sampleDelta 3 11)]

theorem flood_baseline_learns_once_sample : LearnsOnce sampleMaths {} "203.0.113.9" sampleOrderly :=
  flood_baseline_learns_once sampleMaths {} "203.0.113.9" sampleOrderly
    (fun earlier now ts hpre _ => absurd (hpre.subset (List.mem_append_right _ List.mem_cons_self))
      (by simp [sampleOrderly])) (by decide +kernel) (Logic.meets_of_check (by decide +kernel))

/-- A delta that is one second late. -/
def sampleStraggler : List (Call Delta) :=
  [.event 0 (sampleDelta 0 10), .event 0 (sampleDelta 0 11), .event 0 (sampleDelta 3 10)]

/-- A second is learned as soon as a later one begins, without the flows that are still to come. -/
theorem flood_baseline_misses : ¬ ∀ calls,
    (ddosLogic sampleMaths {} "203.0.113.9").Unexpired calls → OnTime calls →
      LearnsOnce sampleMaths {} "203.0.113.9" calls := by
  intro hall
  have hlearns := hall sampleStraggler
    (fun earlier now ts hpre _ => absurd (hpre.subset (List.mem_append_right _ List.mem_cons_self))
      (by simp [sampleStraggler])) (by decide +kernel)
  have hfolded : (1788256810, 1) ∈ foldedIn sampleMaths {} "203.0.113.9" sampleStraggler := by
    decide +kernel
  exact absurd (hlearns.total _ hfolded) (by decide +kernel)

/-! ## What is reported -/

/-- A quantity is null when a delta that contributed had its counter unavailable, else the exact sum. -/
def Reported (values : List (String × Scalar)) (name : String) (unknown : Bool) (sum : Int) : Prop :=
  values.lookup name = some (if unknown then .null else .int sum)

/-- A delta of amplification traffic whose counter is unavailable. -/
def Delta.ampUnknown (d : Delta) : Bool := d.amp && (d.d .origBytes).isNone

/-- The three quantities of a second, from the deltas of its bucket. -/
structure TrafficReported (values : List (String × Scalar)) (ds : List Delta) : Prop where
  bytes : Reported values "bytes_per_s" (ds.any (·.unknown .origBytes .respBytes))
    (ds.map (·.both .origBytes .respBytes)).sum
  pkts : Reported values "pkts_per_s" (ds.any (·.unknown .origPkts .respPkts))
    (ds.map (·.both .origPkts .respPkts)).sum
  amp : Reported values "amp_bytes_per_s" (ds.any (·.ampUnknown)) (ds.map (·.ampBytes)).sum

/-- What is unavailable is listed. -/
structure TrafficListed (unavailable : List String) (ds : List Delta) : Prop where
  bytes : ds.any (·.unknown .origBytes .respBytes) → "bytes_per_s" ∈ unavailable
  pkts : ds.any (·.unknown .origPkts .respPkts) → "pkts_per_s" ∈ unavailable
  amp : ds.any (·.ampUnknown) → "amp_bytes_per_s" ∈ unavailable

/-- What is emitted reports the traffic of a second as it should. -/
def Emitted.Reports (ds : List Delta) : Emitted → Prop
  | .out f => TrafficReported f.observed ds ∧ TrafficListed f.unavailable ds
  | .feature r => TrafficReported r.values ds

theorem lookup_values (v : DdosView) (f : Scalar → Scalar) (hnull : f .null = .null)
    (hint : ∀ n, f (.int n) = .int n) (more : List (String × Scalar)) :
    ((v.values ++ more).map fun p => (p.1, f p.2)).lookup "bytes_per_s" = some v.bytesPerS ∧
    ((v.values ++ more).map fun p => (p.1, f p.2)).lookup "pkts_per_s" = some v.pktsPerS ∧
    ((v.values ++ more).map fun p => (p.1, f p.2)).lookup "amp_bytes_per_s" = some (.int v.b.ampBytes) := by
  have hbytes : f v.bytesPerS = v.bytesPerS := by
    unfold DdosView.bytesPerS
    split
    · exact hnull
    · exact hint _
  have hpkts : f v.pktsPerS = v.pktsPerS := by
    unfold DdosView.pktsPerS
    split
    · exact hnull
    · exact hint _
  refine ⟨?_, ?_, ?_⟩
  · exact congrArg some hbytes
  · exact congrArg some hpkts
  · exact congrArg some (hint _)

/-- Shown values report a second as they should when no amplification counter was unavailable. -/
theorem reported_iff {v : DdosView} {ds : List Delta} (h : v.b.Recounts M ds)
    {values : List (String × Scalar)} (hbytes : values.lookup "bytes_per_s" = some v.bytesPerS)
    (hpkts : values.lookup "pkts_per_s" = some v.pktsPerS)
    (hamp : values.lookup "amp_bytes_per_s" = some (.int v.b.ampBytes)) :
    TrafficReported values ds ↔ ds.any (·.ampUnknown) = false := by
  constructor
  · intro hreported
    have hboth := hamp.symm.trans hreported.amp
    cases hunknown : ds.any (·.ampUnknown) with
    | false => rfl
    | true =>
      rw [hunknown] at hboth
      cases hboth
  · intro hknown
    refine ⟨?_, ?_, ?_⟩
    · unfold Reported
      rw [hbytes, DdosView.bytesPerS, h.bytesUnknown, h.bytes]
    · unfold Reported
      rw [hpkts, DdosView.pktsPerS, h.pktsUnknown, h.pkts]
    · unfold Reported
      rw [hamp, h.ampBytes, hknown]
      rfl

/-- What a finding lists as unavailable. -/
theorem finding_lists (M : Maths) (cfg : DdosConfig) (dst : String) (v : DdosView) (s : DdosState) (d : Delta) (subtype : String)
    (severity : Severity) :
    (v.b.bytesUnknown → "bytes_per_s" ∈ (v.finding cfg M s dst d subtype severity).unavailable) ∧
    (v.b.pktsUnknown → "pkts_per_s" ∈ (v.finding cfg M s dst d subtype severity).unavailable) := by
  show (v.b.bytesUnknown → "bytes_per_s" ∈ (sortedSet ((if v.b.bytesUnknown then ["bytes_per_s"] else []) ++
      if v.b.pktsUnknown then ["pkts_per_s"] else [])).take 64) ∧
    (v.b.pktsUnknown → "pkts_per_s" ∈ (sortedSet ((if v.b.bytesUnknown then ["bytes_per_s"] else []) ++
      if v.b.pktsUnknown then ["pkts_per_s"] else [])).take 64)
  generalize v.b.bytesUnknown = bytes
  generalize v.b.pktsUnknown = pkts
  revert bytes pkts
  decide +kernel

theorem finding_reports_iff {v : DdosView} {ds : List Delta} (h : v.b.Recounts M ds) (s : DdosState)
    (d : Delta) (subtype : String) (severity : Severity) :
    Emitted.Reports ds (.out (v.finding cfg M s dst d subtype severity)) ↔
      ds.any (·.ampUnknown) = false := by
  obtain ⟨hbytes, hpkts, hamp⟩ := lookup_values v observedValue rfl (fun _ => rfl) []
  have hreported : TrafficReported (v.finding cfg M s dst d subtype severity).observed ds ↔
      ds.any (·.ampUnknown) = false := reported_iff h hbytes hpkts hamp
  constructor
  · exact fun hreports => hreported.1 hreports.1
  · intro hknown
    obtain ⟨hlistsBytes, hlistsPkts⟩ := finding_lists M cfg dst v s d subtype severity
    refine ⟨hreported.2 hknown, ?_, ?_, fun hunknown => ?_⟩
    · rw [← h.bytesUnknown]
      exact hlistsBytes
    · rw [← h.pktsUnknown]
      exact hlistsPkts
    · rw [hknown] at hunknown
      cases hunknown

theorem feature_reports_iff {v : DdosView} {ds : List Delta} (h : v.b.Recounts M ds) (s : DdosState)
    (nowUs : Int) (d : Delta) :
    Emitted.Reports ds (.feature (v.feature M s nowUs dst d)) ↔ ds.any (·.ampUnknown) = false := by
  obtain ⟨hbytes, hpkts, hamp⟩ := lookup_values v num rfl (fun _ => rfl)
    [("baseline_flows_mean", if v.warm then .float s.flows.mean else .null),
      ("baseline_flows_std", if v.warm then .float (s.flows.std M) else .null)]
  exact reported_iff h hbytes hpkts hamp

/-- **Unavailable traffic is reported as such**, in what is emitted for a delta after any deltas and
timers, exactly when no amplification delta of its second, as far as it is held, had its counter
unavailable. -/
theorem flood_traffic_reported_iff (M : Maths) (cfg : DdosConfig) (dst : String)
    (calls : List (Call Delta)) (nowUs : Int) (d : Delta) :
    let st := (ddosLogic M cfg dst).valueAfter none calls
    let ds := heldOf ((ddosLogic M cfg dst).since calls ++ [d]) d.second
    ∀ e ∈ (ddosOnEvent M cfg dst nowUs st d).out,
      e.Reports ds ↔ ∀ d' ∈ ds, d'.amp → d'.d .origBytes ≠ none := by
  intro st ds e he
  have hrecounts := floodView_recounts M cfg dst calls d
  obtain ⟨-, -, -, -, hout⟩ := ddosOnEvent_spec M cfg dst nowUs st d
  have hknown : ds.any (·.ampUnknown) = false ↔ ∀ d' ∈ ds, d'.amp → d'.d .origBytes ≠ none := by
    rw [List.any_eq_false]
    simp only [Delta.ampUnknown, Bool.and_eq_true, Option.isNone_iff_eq_none, not_and]
  rw [← hknown]
  have hmade := hout e he
  cases e with
  | out f =>
    obtain ⟨s, subtype, severity, -, rfl⟩ := hmade
    exact finding_reports_iff hrecounts s d subtype severity
  | feature r =>
    obtain ⟨s, rfl⟩ := hmade
    exact feature_reports_iff hrecounts s nowUs d

/-- A reply of twenty megabytes from a name server, whose request was not seen. -/
def sampleReply : Delta :=
  { sampleDelta 0 10 with
    proto := "udp"
    sport := some 53
    d := fun c => if c = .respBytes then some 20000000 else none }

theorem flood_traffic_reported_iff_sample :
    ∃ e ∈ (ddosOnEvent sampleMaths {} "203.0.113.9" 0
        ((ddosLogic sampleMaths {} "203.0.113.9").valueAfter none []) sampleReply).out,
      e.Reports (heldOf ((ddosLogic sampleMaths {} "203.0.113.9").since [] ++ [sampleReply])
        sampleReply.second) ↔
      ∀ d' ∈ heldOf ((ddosLogic sampleMaths {} "203.0.113.9").since [] ++ [sampleReply])
        sampleReply.second, d'.amp → d'.d .origBytes ≠ none :=
  let ⟨e, he⟩ := List.exists_mem_of_length_pos (by decide +kernel)
  ⟨e, he, flood_traffic_reported_iff sampleMaths {} "203.0.113.9" [] 0 sampleReply e he⟩

/-- Amplification bytes that are unavailable are reported as zero. -/
theorem flood_traffic_zero : ¬ ∀ (calls : List (Call Delta)) (nowUs : Int) (d : Delta),
    ∀ e ∈ (ddosOnEvent sampleMaths {} "203.0.113.9" nowUs
      ((ddosLogic sampleMaths {} "203.0.113.9").valueAfter none calls) d).out,
      e.Reports (heldOf ((ddosLogic sampleMaths {} "203.0.113.9").since calls ++ [d]) d.second) := by
  intro hall
  have hfound : ∃ f, Emitted.out f ∈ (ddosOnEvent sampleMaths {} "203.0.113.9" 0 none sampleReply).out := by
    have hsome : ((ddosOnEvent sampleMaths {} "203.0.113.9" 0 none sampleReply).out.any
        fun e => e.finding.isSome) = true := by decide +kernel
    obtain ⟨e, he, hfinding⟩ := List.any_eq_true.1 hsome
    cases e with
    | out f => exact ⟨f, he⟩
    | feature r => cases hfinding
  obtain ⟨f, hf⟩ := hfound
  obtain ⟨hreported, -⟩ := hall [] 0 sampleReply (.out f) hf
  have hmade := (ddosOnEvent_spec sampleMaths {} "203.0.113.9" 0 none sampleReply).choose_spec.2.2.2 _ hf
  obtain ⟨s, subtype, severity, -, rfl⟩ := hmade
  have hunknown : (heldOf ([] ++ [sampleReply]) sampleReply.second).any (·.ampUnknown) = true := by
    decide +kernel
  have hnull := hreported.amp
  unfold Reported at hnull
  rw [show (ddosLogic sampleMaths {} "203.0.113.9").since [] = [] from rfl, hunknown] at hnull
  cases hnull

end OTS.Detect
