import Mathlib.Algebra.BigOperators.Group.List.Basic
import Mathlib.Data.List.Count
import OTSecurity.Detect.Ddos

/-!
# Flood windows

The one-second buckets of a destination against a recount of its deltas.

* `hold`, `heldOf` — the deltas of each second that is still held.
* `Bucket.Recounts` — a bucket holds what a recount of its deltas gives.
* `closeOld_get?`, `closeOld_flows` — what closing does: to the buckets, and to the baseline.
* `ddosOnEvent_spec` — what a delta leaves and emits.

Principal result: `flood_windows_exact` — the five-second window of a delta is that of all deltas, when
each is at most six seconds behind the latest.
-/

namespace OTS.Detect

def Delta.second (d : Delta) : Int := d.obsMs / 1000

/-- A delta is held with those of its second; the seconds too far behind it are dropped. -/
def hold (held : Int → List Delta) (d : Delta) (k : Int) : List Delta :=
  if k = d.second then held k ++ [d] else if k < d.second - KEEP_BUCKETS then [] else held k

/-- The deltas of each second that is still held. -/
def heldOf (ds : List Delta) : Int → List Delta := ds.foldl hold fun _ => []

/-- A connection attempt that got no reply. -/
def Delta.synOnly (d : Delta) : Bool := d.proto = "tcp" && d.terminal && d.connState = some "S0"

/-- What a delta adds to the amplification bytes. -/
def Delta.ampBytes (d : Delta) : Int := if d.amp then (d.d .origBytes).getD 0 else 0

/-- A bucket holds what a recount of the deltas gives. -/
structure Bucket.Recounts (M : Maths) (b : Bucket) (ds : List Delta) : Prop where
  flows : b.flows = ds.countP (·.newFlow)
  syn : b.syn = ds.countP fun d => d.newFlow && d.synOnly
  bytes : b.bytes = (ds.map (·.both .origBytes .respBytes)).sum
  pkts : b.pkts = (ds.map (·.both .origPkts .respPkts)).sum
  bytesUnknown : b.bytesUnknown = ds.any (·.unknown .origBytes .respBytes)
  pktsUnknown : b.pktsUnknown = ds.any (·.unknown .origPkts .respPkts)
  ampFlows : b.ampFlows = ds.countP fun d => d.newFlow && d.amp
  ampBytes : b.ampBytes = (ds.map (·.ampBytes)).sum
  srcs : b.srcs.Holds M ((ds.filter (·.newFlow)).map (·.src))
  ampSrcs : b.ampSrcs.Holds M ((ds.filter fun d => d.newFlow && d.amp).map (·.src))

/-- There is a bucket for each second that is held, with its deltas. -/
structure DdosState.Holds (M : Maths) (s : DdosState) (held : Int → List Delta) : Prop where
  absent : ∀ k, s.b.get? k = none → held k = []
  present : ∀ k b, s.b.get? k = some b → held k ≠ [] ∧ b.Recounts M (held k)

variable {M : Maths} {b : Bucket} {s : DdosState} {ds : List Delta} {held : Int → List Delta}

/-! ## Buckets -/

theorem recounts_new : Bucket.new.Recounts M [] where
  flows := rfl
  syn := rfl
  bytes := rfl
  pkts := rfl
  bytesUnknown := rfl
  pktsUnknown := rfl
  ampFlows := rfl
  ampBytes := rfl
  srcs := Cardinality.holds_new
  ampSrcs := Cardinality.holds_new

/-- The marks of a bucket do not count. -/
theorem Bucket.Recounts.mark (h : b.Recounts M ds) (anomalous closed : Bool) :
    { b with anomalous := anomalous, closed := closed }.Recounts M ds :=
  ⟨h.flows, h.syn, h.bytes, h.pkts, h.bytesUnknown, h.pktsUnknown, h.ampFlows, h.ampBytes, h.srcs,
    h.ampSrcs⟩

theorem Bucket.Recounts.add (h : b.Recounts M ds) (d : Delta) : (b.add M d).Recounts M (ds ++ [d]) := by
  have hsum : ∀ (f : Delta → Int) (n : Int), n = (ds.map f).sum → n + f d = ((ds ++ [d]).map f).sum := by
    rintro f n rfl
    simp
  have hany : ∀ (p : Delta → Bool) (u : Bool), u = ds.any p → (u || p d) = (ds ++ [d]).any p := by
    rintro p u rfl
    simp
  have hcount : ∀ (p : Delta → Bool) (n : Nat), n = ds.countP p →
      (if p d then n + 1 else n) = (ds ++ [d]).countP p := by
    rintro p n rfl
    rw [List.countP_append, List.countP_singleton]
    split <;> rfl
  have hholds : ∀ (p : Delta → Bool) (c : Cardinality), c.Holds M ((ds.filter p).map (·.src)) →
      (if p d then c.add M d.src else c).Holds M (((ds ++ [d]).filter p).map (·.src)) := by
    intro p c hc
    rw [List.filter_append, List.map_append]
    split
    · rename_i hp
      simpa [hp] using hc.add d.src
    · rename_i hp
      simpa [hp] using hc
  have hamp : b.ampBytes + d.ampBytes = if d.amp then b.ampBytes + (d.d .origBytes).getD 0 else b.ampBytes := by
    unfold Delta.ampBytes
    split
    · rfl
    · exact add_zero _
  have hflows := hcount (·.newFlow) _ h.flows
  have hsyn := hcount (fun d => d.newFlow && d.synOnly) _ h.syn
  have hampFlows := hcount (fun d => d.newFlow && d.amp) _ h.ampFlows
  have hsrcs := hholds (·.newFlow) _ h.srcs
  have hampSrcs := hholds (fun d => d.newFlow && d.amp) _ h.ampSrcs
  cases hnew : d.newFlow with
  | false =>
    simp only [hnew, Bool.false_and, Bool.false_eq_true, if_false] at hflows hsyn hampFlows hsrcs hampSrcs
    unfold Bucket.add
    simp only [hnew, Bool.false_eq_true, if_false]
    exact ⟨hflows, hsyn, hsum _ _ h.bytes, hsum _ _ h.pkts, hany _ _ h.bytesUnknown,
      hany _ _ h.pktsUnknown, hampFlows, hamp.symm.trans (hsum _ _ h.ampBytes), hsrcs, hampSrcs⟩
  | true =>
    simp only [hnew, Bool.true_and, if_true] at hflows hsyn hampFlows hsrcs hampSrcs
    unfold Bucket.add
    simp only [hnew, if_true]
    exact ⟨hflows, hsyn, hsum _ _ h.bytes, hsum _ _ h.pkts, hany _ _ h.bytesUnknown,
      hany _ _ h.pktsUnknown, hampFlows, hamp.symm.trans (hsum _ _ h.ampBytes), hsrcs, hampSrcs⟩

/-! ## Closing -/

/-- What is left of the bucket of `k` once the seconds before `sec` are closed. -/
def Bucket.close (b : Bucket) (sec k : Int) : Option Bucket :=
  if k < sec - KEEP_BUCKETS then none else if k < sec then some { b with closed := true } else some b

/-- What the baseline learns from the bucket of `k`. -/
def DdosState.learns (s : DdosState) (k : Int) : Option (Int × Nat) :=
  (s.b.get? k).bind fun b => if b.closed || b.anomalous then none else some (k, b.flows)

theorem closeOne_get? (sec : Int) (s : DdosState) {k : Int} (hk : k < sec) (j : Int) :
    (s.closeOne sec k).b.get? j =
      if j = k then (s.b.get? k).bind fun b => b.close sec k else s.b.get? j := by
  unfold DdosState.closeOne
  cases hget : s.b.get? k with
  | none =>
    simp only [Option.bind_none]
    split
    · rename_i hj
      rw [hj, hget]
    · rfl
  | some b =>
    have hclosed : b.closed = true → { b with closed := true } = b := by
      rintro h
      cases b
      simp_all
    simp only [Option.bind_some, Bucket.close, hk, if_true]
    by_cases hj : j = k
    · subst hj
      split <;> split <;> simp_all [ODict.get?_erase, ODict.get?_set]
    · split <;> split <;> simp_all [ODict.get?_erase, ODict.get?_set]

theorem closeOne_flows (sec : Int) (s : DdosState) (k : Int) :
    (s.closeOne sec k).flows = ((s.learns k).map (·.2)).elim s.flows fun n => s.flows.update n := by
  unfold DdosState.closeOne DdosState.learns
  cases hget : s.b.get? k with
  | none => rfl
  | some b =>
    simp only [Option.bind_some]
    cases hclosed : b.closed <;> cases hanom : b.anomalous <;> simp <;> split <;> rfl

theorem closeMany_spec (sec : Int) (ks : List Int) (hnodup : ks.Nodup) (hks : ∀ k ∈ ks, k < sec)
    (s : DdosState) :
    (∀ j, (ks.foldl (DdosState.closeOne sec) s).b.get? j =
      if j ∈ ks then (s.b.get? j).bind fun b => b.close sec j else s.b.get? j) ∧
    (ks.foldl (DdosState.closeOne sec) s).flows =
      ((ks.filterMap s.learns).map (·.2)).foldl (fun e n => e.update n) s.flows := by
  induction ks generalizing s with
  | nil => exact ⟨fun j => by simp, rfl⟩
  | cons k ks ih =>
    obtain ⟨hk, hnodup⟩ := List.nodup_cons.1 hnodup
    obtain ⟨hlt, hks⟩ := List.forall_mem_cons.1 hks
    obtain ⟨hget, hflows⟩ := ih hnodup hks (s.closeOne sec k)
    have hlearns : ks.filterMap (s.closeOne sec k).learns = ks.filterMap s.learns := by
      apply List.filterMap_congr
      intro j hj
      have hne : j ≠ k := fun h => hk (h ▸ hj)
      unfold DdosState.learns
      rw [closeOne_get? sec s hlt, if_neg hne]
    rw [List.foldl_cons]
    constructor
    · intro j
      rw [hget, closeOne_get? sec s hlt]
      by_cases hj : j = k
      · subst hj
        simp [hk]
      · simp [hj]
    · rw [hflows, hlearns, closeOne_flows, List.filterMap_cons]
      cases s.learns k <;> rfl

theorem mem_takeWhile_lt {ks : List Int} (hks : ks.Pairwise (· ≤ ·)) (sec k : Int) :
    k ∈ ks.takeWhile (· < sec) ↔ k ∈ ks ∧ k < sec := by
  induction ks with
  | nil => simp
  | cons j ks ih =>
    obtain ⟨hj, hks⟩ := List.pairwise_cons.1 hks
    rw [List.takeWhile_cons]
    split
    · rename_i hlt
      rw [List.mem_cons, List.mem_cons, ih hks]
      constructor
      · rintro (rfl | ⟨hk, hlt⟩)
        · exact ⟨.inl rfl, of_decide_eq_true hlt⟩
        · exact ⟨.inr hk, hlt⟩
      · rintro ⟨rfl | hk, hlt⟩
        · exact .inl rfl
        · exact .inr ⟨hk, hlt⟩
    · rename_i hge
      have hge : sec ≤ j := Int.not_lt.1 fun h => hge (decide_eq_true h)
      refine ⟨fun h => absurd h List.not_mem_nil, ?_⟩
      rintro ⟨hk, hlt⟩
      rcases List.mem_cons.1 hk with rfl | hk
      · omega
      · have := hj k hk
        omega

/-- The seconds that are closed by a delta of second `sec`, in order. -/
def DdosState.closing (s : DdosState) (sec : Int) : List Int :=
  (s.b.keys.insertionSort (· ≤ ·)).takeWhile (· < sec)

/-- What the baseline learns then. -/
def DdosState.learned (s : DdosState) (sec : Int) : List (Int × Nat) := (s.closing sec).filterMap s.learns

theorem mem_closing (s : DdosState) (sec k : Int) : k ∈ s.closing sec ↔ k ∈ s.b.keys ∧ k < sec := by
  unfold DdosState.closing
  rw [mem_takeWhile_lt (List.pairwise_insertionSort _ _), List.mem_insertionSort]

theorem closing_nodup (s : DdosState) (sec : Int) : (s.closing sec).Nodup :=
  ((List.perm_insertionSort _ _).nodup_iff.2 s.b.nodup).sublist (List.takeWhile_sublist _)

theorem closeOld_get? (s : DdosState) (sec k : Int) :
    (s.closeOld sec).b.get? k = (s.b.get? k).bind fun b => b.close sec k := by
  have hspec := (closeMany_spec sec (s.closing sec) (closing_nodup s sec)
    (fun k hk => ((mem_closing s sec k).1 hk).2) s).1 k
  refine hspec.trans ?_
  split
  · rfl
  · rename_i hout
    cases hget : s.b.get? k with
    | none => rfl
    | some b =>
      have hkey : k ∈ s.b.keys := ODict.get?_isSome.1 (by rw [hget]; rfl)
      have hge : ¬ k < sec := fun hlt => hout ((mem_closing s sec k).2 ⟨hkey, hlt⟩)
      have hkeep : ¬ k < sec - KEEP_BUCKETS := by
        unfold KEEP_BUCKETS
        omega
      simp [Bucket.close, hge, hkeep]

theorem closeOld_flows (s : DdosState) (sec : Int) :
    (s.closeOld sec).flows = ((s.learned sec).map (·.2)).foldl (fun e n => e.update n) s.flows :=
  (closeMany_spec sec (s.closing sec) (closing_nodup s sec)
    (fun k hk => ((mem_closing s sec k).1 hk).2) s).2

/-! ## One delta -/

variable {cfg : DdosConfig} {dst : String}

/-- The bucket of the second of `d`, once `d` is added. -/
def DdosState.bucketOf (M : Maths) (s : DdosState) (d : Delta) : Bucket :=
  ((s.b.get? d.second).getD .new).add M d

/-- What `d` is judged by. -/
def floodView (M : Maths) (cfg : DdosConfig) (st : Option DdosState) (d : Delta) : DdosView :=
  let (s, b) := (st.getD (.fresh d)).add M d
  s.view M cfg b d.second

/-- A finding or a feature record that is made of a view. -/
def Emitted.MadeOf (M : Maths) (cfg : DdosConfig) (dst : String) (nowUs : Int) (d : Delta) (v : DdosView) :
    Emitted → Prop
  | .out f => ∃ s subtype severity, v.subtype cfg = some subtype ∧ f = v.finding cfg M s dst d subtype severity
  | .feature r => ∃ s, r = v.feature M s nowUs dst d

theorem add_spec (M : Maths) (s : DdosState) (d : Delta) :
    (s.add M d).2 = s.bucketOf M d ∧
      (s.add M d).1.b = (s.closeOld d.second).b.set d.second (s.bucketOf M d) ∧
      (s.add M d).1.flows = (s.closeOld d.second).flows := by
  have hopen : (s.closeOld d.second).b.get? d.second = s.b.get? d.second := by
    rw [closeOld_get?]
    cases s.b.get? d.second with
    | none => rfl
    | some b =>
      have hkeep : ¬ d.second < d.second - KEEP_BUCKETS := by
        unfold KEEP_BUCKETS
        omega
      simp [Bucket.close, hkeep]
  have hbucket : (s.add M d).2 = s.bucketOf M d := by
    unfold DdosState.bucketOf
    rw [← hopen]
    rfl
  refine ⟨hbucket, ?_, rfl⟩
  rw [← hbucket]
  rfl

/-- What a delta leaves: its bucket, marked when something is found in it, and the closed ones; and what
it emits is made of its view. -/
theorem ddosOnEvent_spec (M : Maths) (cfg : DdosConfig) (dst : String) (nowUs : Int) (st : Option DdosState) (d : Delta) :
    ∃ s, (ddosOnEvent M cfg dst nowUs st d).value = some s ∧
      s.flows = ((st.getD (.fresh d)).closeOld d.second).flows ∧
      (∀ k, s.b.get? k = if k = d.second then
          some (if ((floodView M cfg st d).subtype cfg).isSome
            then { (st.getD (.fresh d)).bucketOf M d with anomalous := true }
            else (st.getD (.fresh d)).bucketOf M d)
        else ((st.getD (.fresh d)).closeOld d.second).b.get? k) ∧
      ∀ e ∈ (ddosOnEvent M cfg dst nowUs st d).out,
        e.MadeOf M cfg dst nowUs d (floodView M cfg st d) := by
  obtain ⟨hbucket, hb, hflows⟩ := add_spec M (st.getD (.fresh d)) d
  have hview : floodView M cfg st d = ((st.getD (.fresh d)).add M d).1.view M cfg
    ((st.getD (.fresh d)).add M d).2 d.second := rfl
  have hfeature : ∀ (b : Bool) s e,
      e ∈ (if b then [Emitted.feature ((floodView M cfg st d).feature M s nowUs dst d)] else []) →
      e.MadeOf M cfg dst nowUs d (floodView M cfg st d) := by
    intro b s e he
    cases b with
    | false => cases he
    | true =>
      rw [List.mem_singleton.1 he]
      exact ⟨s, rfl⟩
  have hreport : ∀ subtype, (floodView M cfg st d).subtype cfg = some subtype → ∀ s e,
      e ∈ ((floodView M cfg st d).report cfg M s dst d subtype).2 →
      e.MadeOf M cfg dst nowUs d (floodView M cfg st d) := by
    intro subtype hsubtype s e he
    unfold DdosView.report at he
    simp only at he
    generalize (if 10 ≤ (floodView M cfg st d).factor cfg subtype then Severity.critical
      else .high) = severity at he
    split at he
    · rw [List.mem_singleton.1 he]
      exact ⟨s, subtype, severity, hsubtype, rfl⟩
    · cases he
  unfold ddosOnEvent
  simp only
  rw [show d.obsMs / 1000 = d.second from rfl, ← hview]
  cases hsubtype : (floodView M cfg st d).subtype cfg with
  | none =>
    refine ⟨_, rfl, hflows, fun k => ?_, fun e he => ?_⟩
    · simp only [Option.isSome_none, Bool.false_eq_true, if_false]
      rw [hb, ODict.get?_set]
    · exact hfeature _ _ e he
  | some subtype =>
    refine ⟨_, rfl, hflows, fun k => ?_, fun e he => ?_⟩
    · simp only [Option.isSome_some, if_true]
      rw [ODict.get?_set, hb, ODict.get?_set, hbucket]
      split <;> rfl
    · rcases List.mem_append.1 he with he | he
      · exact hreport subtype hsubtype _ e he
      · exact hfeature _ _ e he

/-! ## What is held -/

theorem holds_fresh (d : Delta) : (DdosState.fresh d).Holds M (heldOf []) :=
  ⟨fun _ _ => rfl, fun _ _ hb => nomatch hb⟩

theorem DdosState.Holds.bucketOf (h : s.Holds M held) (d : Delta) :
    (s.bucketOf M d).Recounts M (hold held d d.second) := by
  unfold DdosState.bucketOf hold
  rw [if_pos rfl]
  cases hget : s.b.get? d.second with
  | none =>
    rw [h.absent _ hget]
    exact recounts_new.add d
  | some b => exact (h.present _ _ hget).2.add d

/-- What is held once `d` has closed the seconds before it and has been added. -/
theorem DdosState.Holds.next {s' : DdosState} (h : s.Holds M held) (d : Delta)
    (hget : ∀ k, ∃ b, b.Recounts M (hold held d d.second) ∧
      s'.b.get? k = if k = d.second then some b else (s.closeOld d.second).b.get? k) :
    s'.Holds M (hold held d) := by
  have hold_ne : ∀ k, k ≠ d.second → hold held d k =
      if k < d.second - KEEP_BUCKETS then [] else held k := fun k hk => if_neg hk
  constructor
  · intro k hnone
    obtain ⟨b, -, hb⟩ := hget k
    rw [hb] at hnone
    split at hnone
    · cases hnone
    · rename_i hk
      rw [closeOld_get?] at hnone
      rw [hold_ne k hk]
      split
      · rfl
      · rename_i hkeep
        cases hold : s.b.get? k with
        | none => exact h.absent k hold
        | some b =>
          rw [hold, Option.bind_some] at hnone
          unfold Bucket.close at hnone
          rw [if_neg hkeep] at hnone
          split at hnone <;> cases hnone
  · intro k b' hsome
    obtain ⟨b, hrecounts, hb⟩ := hget k
    rw [hb] at hsome
    split at hsome
    · rename_i hk
      cases hsome
      rw [hk]
      refine ⟨?_, hrecounts⟩
      unfold hold
      rw [if_pos rfl]
      exact List.append_ne_nil_of_right_ne_nil _ (List.cons_ne_nil _ _)
    · rename_i hk
      rw [closeOld_get?] at hsome
      rw [hold_ne k hk]
      cases hold : s.b.get? k with
      | none =>
        rw [hold] at hsome
        cases hsome
      | some b =>
        obtain ⟨hne, hrecounts⟩ := h.present k b hold
        rw [hold, Option.bind_some] at hsome
        unfold Bucket.close at hsome
        split at hsome
        · cases hsome
        · rename_i hkeep
          rw [if_neg hkeep]
          split at hsome <;> cases hsome
          · exact ⟨hne, hrecounts.mark _ _⟩
          · exact ⟨hne, hrecounts⟩

theorem heldOf_concat (ds : List Delta) (d : Delta) : heldOf (ds ++ [d]) = hold (heldOf ds) d := by
  simp [heldOf]

theorem ddosLogic_clears : (ddosLogic M cfg dst).Clears := by
  intro now v ts
  show (ddosOnTimer cfg v ts).value = none ∨ (ddosOnTimer cfg v ts).value = v
  unfold ddosOnTimer
  cases v with
  | none => exact .inl rfl
  | some s =>
    simp only
    split
    · exact .inl rfl
    · exact .inr rfl

/-- **The buckets are a recount**: after any deltas and timers each second that is held has a bucket with
its deltas since the state was last cleared. -/
theorem state_holds (M : Maths) (cfg : DdosConfig) (dst : String) (calls : List (Call Delta)) (d : Delta) :
    (((ddosLogic M cfg dst).valueAfter none calls).getD (.fresh d)).Holds M
      (heldOf ((ddosLogic M cfg dst).since calls)) := by
  refine Logic.since_invariant ddosLogic_clears
    (P := fun es v => ∀ d, (v.getD (.fresh d)).Holds M (heldOf es)) holds_fresh ?_ calls d
  intro now es v e h _
  obtain ⟨s, hs, -, hget, -⟩ := ddosOnEvent_spec M cfg dst now v e
  have hv : ((ddosLogic M cfg dst).onEvent now v e).value = some s := hs
  rw [hv, heldOf_concat]
  refine (h e).next e fun k => ⟨_, ?_, hget k⟩
  split
  · exact ((h e).bucketOf e).mark _ _
  · exact (h e).bucketOf e

/-! ## Windows -/

/-- Each delta is at most `n` seconds behind every earlier one. -/
def Disorder (n : Int) (ds : List Delta) : Prop := ds.Pairwise fun d e => d.second ≤ e.second + n

instance (n : Int) (ds : List Delta) : Decidable (Disorder n ds) :=
  inferInstanceAs (Decidable (ds.Pairwise _))

/-- The deltas of one second. -/
def ofSecond (ds : List Delta) (k : Int) : List Delta := ds.filter (·.second = k)

/-- The deltas of the five seconds up to `sec`. -/
def ofWindow (ds : List Delta) (sec : Int) : List Delta :=
  ds.filter fun d => sec - 4 ≤ d.second ∧ d.second ≤ sec

/-- Nothing of a second is dropped while no delta is too far ahead of it. -/
theorem heldOf_eq {k : Int} (h : ∀ d ∈ ds, d.second ≤ k + KEEP_BUCKETS) :
    heldOf ds k = ofSecond ds k := by
  induction ds using List.reverseRecOn with
  | nil => rfl
  | append_singleton ds d ih =>
    have hd := h d (List.mem_append_right _ (List.mem_singleton.2 rfl))
    have hds := ih fun e he => h e (List.mem_append_left _ he)
    unfold ofSecond at hds ⊢
    rw [heldOf_concat, List.filter_append, ← hds]
    unfold hold
    by_cases hk : k = d.second
    · simp [hk]
    · have hkeep : ¬ k < d.second - KEEP_BUCKETS := by omega
      have hk' : ¬ d.second = k := fun h => hk h.symm
      simp [hk, hk', hkeep]

/-- Counting second by second. -/
theorem sum_countP (ds : List Delta) (p : Delta → Bool) {ks : List Int} (hks : ks.Nodup) :
    (ks.map fun k => (ofSecond ds k).countP p).sum = ds.countP fun d => d.second ∈ ks && p d := by
  induction ks with
  | nil => simp
  | cons k ks ih =>
    obtain ⟨hk, hks⟩ := List.nodup_cons.1 hks
    rw [List.map_cons, List.sum_cons, ih hks]
    unfold ofSecond
    rw [List.countP_filter]
    clear ih
    induction ds with
    | nil => rfl
    | cons d ds ihds =>
      simp only [List.countP_cons]
      by_cases hd : d.second = k
      · subst hd
        simp only [hk, decide_true, decide_false, Bool.and_true, Bool.true_and, List.mem_cons, true_or,
          Bool.false_and, Bool.false_eq_true, if_false] at ihds ⊢
        omega
      · simp only [hd, decide_false, Bool.and_false, List.mem_cons, false_or, Bool.false_eq_true,
          if_false] at ihds ⊢
        omega

/-- The window of a state that holds everything of its seconds. -/
theorem window_spec {sec : Int} (h : s.Holds M held)
    (hall : ∀ k, sec - 4 ≤ k → k ≤ sec → held k = ofSecond ds k) :
    ((s.window sec).map (·.flows)).sum = (ofWindow ds sec).countP (·.newFlow) ∧
      (Cardinality.merge M ((s.window sec).map (·.srcs))).Holds M
        (((ofWindow ds sec).filter (·.newFlow)).map (·.src)) ∧
      (Cardinality.merge M ((s.window sec).map (·.ampSrcs))).Holds M
        (((ofWindow ds sec).filter fun d => d.newFlow && d.amp).map (·.src)) := by
  obtain ⟨es, hes⟩ : ∃ es, es = s.b.entries.filter fun e => sec - 4 ≤ e.1 ∧ e.1 ≤ sec := ⟨_, rfl⟩
  have hwindow : s.window sec = es.map (·.2) := by rw [hes]; rfl
  have hentry : ∀ e ∈ es, sec - 4 ≤ e.1 ∧ e.1 ≤ sec ∧ e.2.Recounts M (ofSecond ds e.1) := by
    intro e he
    rw [hes, List.mem_filter] at he
    obtain ⟨hlow, hhigh⟩ := of_decide_eq_true he.2
    have hrecounts := (h.present e.1 e.2 (ODict.mem_entries.1 he.1)).2
    rw [hall e.1 hlow hhigh] at hrecounts
    exact ⟨hlow, hhigh, hrecounts⟩
  have hkeys : ∀ d ∈ ds, d.second ∈ es.map (·.1) ↔ sec - 4 ≤ d.second ∧ d.second ≤ sec := by
    intro d hd
    constructor
    · intro hmem
      obtain ⟨e, he, heq⟩ := List.mem_map.1 hmem
      exact heq ▸ ⟨(hentry e he).1, (hentry e he).2.1⟩
    · rintro ⟨hlow, hhigh⟩
      cases hget : s.b.get? d.second with
      | none =>
        have hnil := h.absent _ hget
        rw [hall _ hlow hhigh] at hnil
        have hmem : d ∈ ofSecond ds d.second := List.mem_filter.2 ⟨hd, decide_eq_true rfl⟩
        rw [hnil] at hmem
        cases hmem
      | some b =>
        refine List.mem_map.2 ⟨(d.second, b), ?_, rfl⟩
        rw [hes]
        exact List.mem_filter.2 ⟨ODict.mem_entries.2 hget, decide_eq_true ⟨hlow, hhigh⟩⟩
  have hmerge : ∀ (sketchOf : Bucket → Cardinality) (p : Delta → Bool),
      (∀ (b : Bucket) ds, b.Recounts M ds → (sketchOf b).Holds M ((ds.filter p).map (·.src))) →
      (Cardinality.merge M ((s.window sec).map sketchOf)).Holds M
        (((ofWindow ds sec).filter p).map (·.src)) := by
    intro sketchOf p hsketch
    rw [hwindow, List.map_map]
    refine (Cardinality.holds_merge es _ (fun e => ((ofSecond ds e.1).filter p).map (·.src))
      fun e he => hsketch e.2 _ (hentry e he).2.2).congr fun x => ?_
    simp only [List.mem_flatMap, List.mem_map, List.mem_filter, ofSecond, ofWindow, decide_eq_true_eq]
    constructor
    · rintro ⟨e, he, d, ⟨⟨hd, hsec⟩, hp⟩, rfl⟩
      exact ⟨d, ⟨⟨hd, (hkeys d hd).1 (List.mem_map.2 ⟨e, he, hsec.symm⟩)⟩, hp⟩, rfl⟩
    · rintro ⟨d, ⟨⟨hd, hin⟩, hp⟩, rfl⟩
      obtain ⟨e, he, heq⟩ := List.mem_map.1 ((hkeys d hd).2 hin)
      exact ⟨e, he, d, ⟨⟨hd, heq.symm⟩, hp⟩, rfl⟩
  refine ⟨?_, hmerge _ _ fun _ _ h => h.srcs, hmerge _ _ fun _ _ h => h.ampSrcs⟩
  have hnodup : (es.map (·.1)).Nodup := by
    rw [hes]
    exact s.b.nodup.sublist (List.filter_sublist.map _)
  have hflows : (s.window sec).map (·.flows) =
      (es.map (·.1)).map fun k => (ofSecond ds k).countP (·.newFlow) := by
    rw [hwindow, List.map_map, List.map_map]
    exact List.map_congr_left fun e he => (hentry e he).2.2.flows
  rw [hflows, sum_countP ds _ hnodup]
  unfold ofWindow
  rw [List.countP_filter]
  apply List.countP_congr
  intro d hd
  simp only [Bool.and_eq_true, decide_eq_true_eq, hkeys d hd]
  exact and_comm

theorem floodView_b (st : Option DdosState) (d : Delta) :
    (floodView M cfg st d).b = (st.getD (.fresh d)).bucketOf M d := (add_spec M _ d).1

theorem view_window (M : Maths) (cfg : DdosConfig) (s : DdosState) (b : Bucket) (sec : Int) :
    (s.view M cfg b sec).flows = ((s.window sec).map (·.flows)).sum ∧
      (s.view M cfg b sec).srcs = Cardinality.merge M ((s.window sec).map (·.srcs)) ∧
      (s.view M cfg b sec).srcCount = (s.view M cfg b sec).srcs.count M := ⟨rfl, rfl, rfl⟩

/-- What a delta is judged by, when nothing of its window has been dropped. -/
theorem floodView_window (cfg : DdosConfig) (ds : List Delta) {st : Option DdosState} {d : Delta}
    (h : (st.getD (.fresh d)).Holds M held)
    (hall : ∀ k, d.second - 4 ≤ k → k ≤ d.second → hold held d k = ofSecond ds k) :
    (floodView M cfg st d).flows = (ofWindow ds d.second).countP (·.newFlow) ∧
      (floodView M cfg st d).srcs.Holds M
        (((ofWindow ds d.second).filter (·.newFlow)).map (·.src)) ∧
      (floodView M cfg st d).srcCount = (floodView M cfg st d).srcs.count M := by
  obtain ⟨-, hb, -⟩ := add_spec M (st.getD (.fresh d)) d
  have hholds : ((st.getD (.fresh d)).add M d).1.Holds M (hold held d) := by
    refine h.next d fun k => ⟨_, h.bucketOf d, ?_⟩
    rw [hb, ODict.get?_set]
  obtain ⟨hflows, hsrcs, -⟩ := window_spec hholds hall
  have hview : floodView M cfg st d = ((st.getD (.fresh d)).add M d).1.view M cfg
    ((st.getD (.fresh d)).add M d).2 d.second := rfl
  obtain ⟨hvflows, hvsrcs, hvcount⟩ := view_window M cfg
    ((st.getD (.fresh d)).add M d).1 ((st.getD (.fresh d)).add M d).2 d.second
  rw [hview, hvcount, hvflows, hvsrcs]
  exact ⟨hflows, hsrcs, rfl⟩

/-- The bucket that a delta is judged by is a recount of what is held of its second. -/
theorem floodView_recounts (M : Maths) (cfg : DdosConfig) (dst : String) (calls : List (Call Delta)) (d : Delta) :
    (floodView M cfg ((ddosLogic M cfg dst).valueAfter none calls) d).b.Recounts M
      (heldOf ((ddosLogic M cfg dst).since calls ++ [d]) d.second) := by
  rw [floodView_b, heldOf_concat]
  exact (state_holds M cfg dst calls d).bucketOf d

/-- **Flood windows are exact under bounded disorder**: when each delta is at most six seconds behind the
latest and the state has not expired, a delta is judged by the new flows of the five seconds up to its own
and by their sources, and by a recount of its second. -/
theorem flood_windows_exact (M : Maths) (cfg : DdosConfig) (dst : String) (calls : List (Call Delta))
    (hkept : (ddosLogic M cfg dst).Unexpired calls) (nowUs : Int) (d : Delta)
    (hdisorder : Disorder 6 (calls.filterMap Call.element ++ [d])) :
    let st := (ddosLogic M cfg dst).valueAfter none calls
    let ds := calls.filterMap Call.element ++ [d]
    let v := floodView M cfg st d
    let sources := ((ofWindow ds d.second).filter (·.newFlow)).map (·.src)
    v.flows = (ofWindow ds d.second).countP (·.newFlow) ∧
    v.srcs.Holds M sources ∧
    (sources.dedup.length ≤ 64 →
      v.srcs.hll = none ∧ v.srcs.set.Perm sources.dedup ∧ v.srcCount = sources.dedup.length) ∧
    v.b.Recounts M (ofSecond ds d.second) ∧
    ∀ e ∈ (ddosOnEvent M cfg dst nowUs st d).out, e.MadeOf M cfg dst nowUs d v := by
  intro st ds v sources
  have hsome : ∀ now v e, ((ddosLogic M cfg dst).onEvent now v e).value.isSome := by
    intro now v e
    obtain ⟨s, hs, -⟩ := ddosOnEvent_spec M cfg dst now v e
    exact Option.isSome_iff_exists.2 ⟨s, hs⟩
  have hsince : (ddosLogic M cfg dst).since calls = calls.filterMap Call.element :=
    hkept.since_eq ddosLogic_clears hsome
  have hahead : ∀ e ∈ ds, e.second ≤ d.second + 6 := by
    intro e he
    rcases List.mem_append.1 he with he | he
    · exact (List.pairwise_append.1 hdisorder).2.2 e he d (List.mem_singleton.2 rfl)
    · rw [List.mem_singleton.1 he]
      omega
  have hall : ∀ k, d.second - 4 ≤ k → k ≤ d.second → heldOf ds k = ofSecond ds k := by
    intro k hlow _
    apply heldOf_eq
    intro e he
    have := hahead e he
    unfold KEEP_BUCKETS
    omega
  have hbefore := state_holds M cfg dst calls d
  have hrecounts := floodView_recounts M cfg dst calls d
  rw [hsince] at hbefore hrecounts
  rw [hall d.second (by omega) (le_refl _)] at hrecounts
  obtain ⟨hflows, hsrcs, hcount⟩ := floodView_window cfg ds hbefore
    (fun k hlow hhigh => (congrFun (heldOf_concat _ d) k).symm.trans (hall k hlow hhigh))
  obtain ⟨-, -, -, -, hout⟩ := ddosOnEvent_spec M cfg dst nowUs st d
  refine ⟨hflows, hsrcs, fun hfew => ?_, hrecounts, hout⟩
  obtain ⟨hexact, hperm⟩ := hsrcs.exact hfew
  exact ⟨hexact, hperm, hcount.trans (hsrcs.count_eq hfew)⟩

/-- A delta six seconds late. -/
def sampleLate : List (Call Delta) :=
  [.event 0 (sampleDelta 0 10), .event 0 (sampleDelta 0 16), .event 0 (sampleDelta 0 12)]

theorem flood_windows_exact_sample :
    (floodView sampleMaths {} ((ddosLogic sampleMaths {} "203.0.113.9").valueAfter none sampleLate)
      (sampleDelta 0 10)).flows =
    (ofWindow (sampleLate.filterMap Call.element ++ [sampleDelta 0 10])
      (sampleDelta 0 10).second).countP (·.newFlow) :=
  (flood_windows_exact sampleMaths {} "203.0.113.9" sampleLate
    (fun earlier now ts hpre _ => absurd (hpre.subset (List.mem_append_right _ List.mem_cons_self))
      (by simp [sampleLate])) 0 (sampleDelta 0 10) (by decide +kernel)).1

end OTS.Detect
