import OTSecurity.Detect.Beacon
import OTSecurity.Lib.Largest

/-!
# The window of a pair

The start times that `BeaconLogic` retains, whatever order the flows arrive in.

* `newFlows` — the deltas that count; `sizeAt` — the size that belongs to a start time.
* `Window` — the retained times are the largest, and the sizes are theirs.

Principal result: `beacon_window_order_independent`.
-/

namespace OTS.Detect

/-- The new flows among the elements of the calls. -/
def newFlows (calls : List (Call Delta)) : List Delta :=
  (calls.filterMap Call.element).filter (·.newFlow)

/-- The size of the first flow with a start time. -/
def sizeAt (ds : List Delta) (t : Int) : Option Nat := (ds.find? (·.startMs = t)).bind Delta.size

/-- The retained times are the largest, each with the size of its flow. -/
structure Window (cap : Nat) (ds : List Delta) (v : Option BeaconState) : Prop where
  times : startTimes v = largest cap (ds.map (·.startMs))
  sizes : startSizes v = (startTimes v).map (sizeAt ds)

/-! ## One delta -/

variable {cfg : DetectConfig} {inv : Inventory} {key : String} {cap : Nat} {ds : List Delta}

theorem insertCapped_eq (ts : List Int) (x : Int) :
    insertCapped cap ts (bisect ts x) x = capped cap (insertAfter x ts) := rfl

theorem insertCapped_map {α β : Type} (f : α → β) (xs : List α) (i : Nat) (x : α) :
    insertCapped cap (xs.map f) i (f x) = (insertCapped cap xs i x).map f := by
  unfold insertCapped
  rw [← List.map_insertIdx, List.length_map]
  split
  · rw [List.map_drop]
  · rfl

/-- The size of a start time that has been seen stays. -/
theorem sizeAt_concat_of_mem {d : Delta} {t : Int} (ht : t ∈ ds.map (·.startMs)) :
    sizeAt (ds ++ [d]) t = sizeAt ds t := by
  obtain ⟨d', hd', rfl⟩ := List.mem_map.1 ht
  have hfound : (ds.find? (·.startMs = d'.startMs)).isSome := by
    rw [List.find?_isSome]
    exact ⟨d', hd', by simp⟩
  unfold sizeAt
  rw [List.find?_append]
  obtain ⟨e, he⟩ := Option.isSome_iff_exists.1 hfound
  rw [he]
  rfl

theorem sizeAt_concat_self {d : Delta} (hd : d.startMs ∉ ds.map (·.startMs)) :
    sizeAt (ds ++ [d]) d.startMs = d.size := by
  have hnone : ds.find? (·.startMs = d.startMs) = none := by
    rw [List.find?_eq_none]
    intro e he heq
    exact hd (List.mem_map.2 ⟨e, he, of_decide_eq_true heq⟩)
  unfold sizeAt
  rw [List.find?_append, hnone]
  simp

theorem map_sizeAt_concat {d : Delta} {ts : List Int} (hts : ∀ t ∈ ts, t ∈ ds.map (·.startMs)) :
    ts.map (sizeAt (ds ++ [d])) = ts.map (sizeAt ds) :=
  List.map_congr_left fun t ht => sizeAt_concat_of_mem (hts t ht)

/-- A start time that is retained already changes nothing. -/
theorem Window.again {v : Option BeaconState} {d : Delta} (h : Window cap ds v)
    (hd : d.startMs ∈ startTimes v) : Window cap (ds ++ [d]) v := by
  rw [h.times] at hd
  constructor
  · rw [List.map_append, List.map_singleton, largest_concat_of_mem (mem_of_mem_largest hd)]
    exact h.times
  · rw [h.sizes, map_sizeAt_concat]
    intro t ht
    exact mem_of_mem_largest (h.times ▸ ht)

/-- A start time that is not retained is inserted with its size; if it was retained once both go at
once. -/
theorem Window.insert {v v' : Option BeaconState} {d : Delta} (h : Window cap ds v)
    (hd : d.startMs ∉ startTimes v)
    (ht : startTimes v' = insertCapped cap (startTimes v) (bisect (startTimes v) d.startMs) d.startMs)
    (hs : startSizes v' = insertCapped cap (startSizes v) (bisect (startTimes v) d.startMs) d.size) :
    Window cap (ds ++ [d]) v' := by
  have hseen : ∀ t ∈ startTimes v, t ∈ ds.map (·.startMs) :=
    fun t ht => mem_of_mem_largest (h.times ▸ ht)
  constructor
  · rw [ht, insertCapped_eq, List.map_append, List.map_singleton, h.times,
      largest_concat (h.times ▸ hd)]
  · by_cases hold : d.startMs ∈ ds.map (·.startMs)
    · obtain ⟨hfull, hsmall⟩ := lt_of_not_mem_largest hold (h.times ▸ hd)
      rw [← h.times] at hfull hsmall
      have hfirst : bisect (startTimes v) d.startMs = 0 := by
        unfold bisect
        rw [takeWhile_of_lt hsmall]
        rfl
      have hlength : (startSizes v).length = cap := by rw [h.sizes, List.length_map, hfull]
      have htimes : startTimes v' = startTimes v := by
        rw [ht, insertCapped_eq, (capped_of_lt hfull hsmall).2]
      rw [hs, htimes, hfirst, map_sizeAt_concat hseen, ← h.sizes]
      unfold insertCapped
      rw [List.insertIdx_zero, if_pos (by rw [List.length_cons]; omega)]
      rfl
    · rw [hs, ht, h.sizes, ← map_sizeAt_concat (d := d) hseen, ← sizeAt_concat_self hold,
        insertCapped_map]

theorem beaconOnEvent_window (nowUs : Int) {v : Option BeaconState} (d : Delta)
    (h : Window cfg.beaconMaxEvents ds v) :
    Window cfg.beaconMaxEvents (ds ++ [d].filter (·.newFlow))
      (beaconOnEvent cfg inv key nowUs v d).value := by
  rcases @beaconOnEvent_cases cfg inv key nowUs v d with ⟨hd, hsame⟩ | ⟨b, hb, hnew, hd, ht, hs, -⟩
  · rw [hsame]
    cases hnew : d.newFlow with
    | false => simpa [hnew] using h
    | true =>
      rw [hnew] at hd
      simpa [hnew] using h.again (hd.resolve_left nofun)
  · have hone : [d].filter (·.newFlow) = [d] := by simp [hnew]
    rw [hb, hone]
    exact h.insert hd ht hs

/-! ## Every sequence of calls -/

theorem beaconLogic_clears : (beaconLogic cfg inv key).Clears := by
  intro now v ts
  show (beaconOnTimer v ts).value = none ∨ (beaconOnTimer v ts).value = v
  unfold beaconOnTimer
  cases v with
  | none => exact .inl rfl
  | some b =>
    simp only
    split
    · exact .inl rfl
    · exact .inr rfl

theorem window_of_unexpired (calls : List (Call Delta))
    (hkept : (beaconLogic cfg inv key).Unexpired calls) :
    Window cfg.beaconMaxEvents (newFlows calls) ((beaconLogic cfg inv key).valueAfter none calls) := by
  induction calls using List.reverseRecOn with
  | nil => exact ⟨largest_nil.symm, rfl⟩
  | append_singleton calls c ih =>
    have hbefore := ih hkept.prefix_left
    have hnews : newFlows (calls ++ [c]) = newFlows calls ++ newFlows [c] := by
      simp [newFlows]
    rw [hnews]
    cases c with
    | event now d =>
      rw [Logic.valueAfter_concat]
      exact beaconOnEvent_window now d hbefore
    | timer now ts =>
      rw [hkept.value_timer beaconLogic_clears, show newFlows [.timer now ts] = [] from rfl,
        List.append_nil]
      exact hbefore

/-- **The window of a pair does not depend on the order**: after any new flows, with no expiry in
between, the retained start times increase strictly and are the largest distinct ones, so those of any
other flows with the same start times; and the sizes are as many, each of the first flow with its start
time. -/
theorem beacon_window_order_independent (cfg : DetectConfig) (inv : Inventory) (key : String)
    (calls : List (Call Delta)) (hkept : (beaconLogic cfg inv key).Unexpired calls) :
    let v := (beaconLogic cfg inv key).valueAfter none calls
    let starts := (newFlows calls).map (·.startMs)
    (startTimes v).Pairwise (· < ·) ∧
    startTimes v = largest cfg.beaconMaxEvents starts ∧
    (∀ calls', (beaconLogic cfg inv key).Unexpired calls' →
      (∀ t, t ∈ (newFlows calls').map (·.startMs) ↔ t ∈ starts) →
      startTimes ((beaconLogic cfg inv key).valueAfter none calls') = startTimes v) ∧
    (startSizes v).length = (startTimes v).length ∧
    startSizes v = (startTimes v).map (sizeAt (newFlows calls)) := by
  intro v starts
  have h := window_of_unexpired calls hkept
  refine ⟨?_, h.times, fun calls' hkept' hsame => ?_, ?_, h.sizes⟩
  · rw [h.times]
    exact largest_pairwise _ _
  · rw [h.times, (window_of_unexpired calls' hkept').times]
    exact largest_congr _ hsame
  · rw [h.sizes, List.length_map]

/-- Flows that arrive out of order, one of them again after it has gone. -/
def sampleStarts : List (Call Delta) :=
  [.event 0 (sampleDelta 100 101), .event 0 (sampleDelta 300 301), .event 0 (sampleDelta 200 302),
    .event 0 (sampleDelta 100 303)]

theorem beacon_window_order_independent_sample :
    let cfg : DetectConfig := { beaconMaxEvents := 2 }
    startTimes ((beaconLogic cfg sampleInventory samplePair).valueAfter none sampleStarts) =
      largest 2 [1788256900000, 1788257100000, 1788257000000, 1788256900000] :=
  (beacon_window_order_independent { beaconMaxEvents := 2 } sampleInventory samplePair sampleStarts
    (fun earlier now ts hpre _ => absurd (hpre.subset (List.mem_append_right _ List.mem_cons_self))
      (by simp [sampleStarts]))).2.1

end OTS.Detect
