import OTSecurity.Lib.Machine
import OTSecurity.Link.Reassembly

/-!
# What becomes of fragmented records

The reassembler as a machine fed with decoded frames and calls of `expire`, over a growing clock.

* `Ledger` — the reassembler with what it has returned and reported; which records were opened, and
  which were given up, are ghosts.
* `reassembly` — the machine; `Decoded` says what its inputs are.
* `add_outcome` — the four outcomes of `add` for a frame of a fragmented record.
* `Books` — the invariant: every record opened is pending, completed or given up.

Principal results: `reassembly_accounting`, and `redundant_copies_harmless`, with the copy that
reopens a record in `redundant_copy_expires`.
-/

namespace OTS.Link

/-! ## The machine -/

inductive Input where
  | frame (f : Frame) (nowUs : Int)
  | expire (nowUs : Int)

/-- The reassembler, its last clock reading, and its history. -/
structure Ledger where
  reassembler : Reassembler
  clockUs : Int
  /-- The records opened so far, in order; a record may be opened again. -/
  opened : List Key
  /-- The fragmented records returned. -/
  completed : List Complete
  /-- The records that left the table without being returned. -/
  givenUp : List Key
  /-- The entries reported. -/
  reported : List Expired

/-- The keys of `after` that are not in `before`, in order. -/
def newKeys (before after : ODict Key Pending) : List Key := after.keys.filter (· ∉ before.keys)

namespace Ledger

variable (s : Ledger)

/-- `add` of a decoded frame. -/
def frame (f : Frame) (nowUs : Int) : Option Ledger :=
  (s.reassembler.add f nowUs).map fun a =>
    { reassembler := a.reassembler
      clockUs := nowUs
      opened := s.opened ++ newKeys s.reassembler.pending a.reassembler.pending
      completed := s.completed ++ if f.fragCount = 1 then [] else a.complete.toList
      givenUp := s.givenUp ++
        if a.complete.isSome then [] else newKeys a.reassembler.pending s.reassembler.pending
      reported := s.reported ++ a.expired }

def expire (nowUs : Int) : Ledger :=
  { s with
    reassembler := (s.reassembler.expire nowUs).2
    clockUs := nowUs
    givenUp := s.givenUp ++ newKeys (s.reassembler.expire nowUs).2.pending s.reassembler.pending
    reported := s.reported ++ (s.reassembler.expire nowUs).1 }

def step : Input → Option Ledger
  | .frame f nowUs => s.frame f nowUs
  | .expire nowUs => some (s.expire nowUs)

end Ledger

/-- A reassembler as constructed, at the start of the clock. -/
def reassembly (maxPending : Nat) (timeoutUs startUs : Int) : Machine Ledger Input where
  init := ⟨⟨maxPending, timeoutUs, ODict.empty⟩, startUs, [], [], [], []⟩
  step := Ledger.step

/-- The same from any state. -/
def reassemblyFrom (s : Ledger) : Machine Ledger Input := ⟨s, Ledger.step⟩

/-- The clock does not go back, and the decoder has checked the fragment index. -/
def Decoded (s : Ledger) : Input → Prop
  | .frame f nowUs => s.clockUs ≤ nowUs ∧ f.fragIndex < f.fragCount
  | .expire nowUs => s.clockUs ≤ nowUs

instance (s : Ledger) (i : Input) : Decidable (Decoded s i) := by
  cases i <;> unfold Decoded <;> infer_instance

/-! ## Keys that come and go -/

theorem nodup_newKeys (d d' : ODict Key Pending) : (d.keys ++ newKeys d d').Nodup := by
  rw [List.nodup_append]
  refine ⟨d.nodup, d'.nodup.filter _, ?_⟩
  intro a ha b hb heq
  have hnot := of_decide_eq_true (List.mem_filter.1 hb).2
  exact hnot (heq ▸ ha)

/-- What was there and what came is what is there and what went. -/
theorem keys_newKeys (d d' : ODict Key Pending) :
    (d.keys ++ newKeys d d').Perm (d'.keys ++ newKeys d' d) := by
  refine (List.perm_ext_iff_of_nodup (nodup_newKeys d d') (nodup_newKeys d' d)).2 fun k => ?_
  simp only [newKeys, List.mem_append, List.mem_filter, decide_eq_true_eq]
  by_cases h : k ∈ d.keys <;> by_cases h' : k ∈ d'.keys <;> simp [h, h']

theorem newKeys_self (d : ODict Key Pending) : newKeys d d = [] := by
  refine List.filter_eq_nil_iff.2 fun k hk => ?_
  simpa using hk

theorem newKeys_of_subset {d d' : ODict Key Pending} (h : ∀ k ∈ d'.keys, k ∈ d.keys) :
    newKeys d d' = [] := by
  refine List.filter_eq_nil_iff.2 fun k hk => ?_
  simpa using h k hk

theorem mem_keys_erase {d : ODict Key Pending} {k j : Key} :
    j ∈ (d.erase k).keys ↔ j ≠ k ∧ j ∈ d.keys := by
  rw [← ODict.get?_isSome, ODict.get?_erase, ← ODict.get?_isSome]
  by_cases h : j = k <;> simp [h]

/-- A list without repetition in which only `k` is kept. -/
theorem filter_eq_singleton {α : Type} {l : List α} (hl : l.Nodup) {p : α → Bool} {k : α} (hk : k ∈ l)
    (h : ∀ j ∈ l, p j = true ↔ j = k) : l.filter p = [k] := by
  obtain ⟨as, bs, rfl⟩ := List.append_of_mem hk
  rw [List.nodup_append, List.nodup_cons] at hl
  have has : as.filter p = [] := by
    refine List.filter_eq_nil_iff.2 fun j hj hp => ?_
    have hjk := (h j (List.mem_append_left _ hj)).1 hp
    exact hl.2.2 j hj k List.mem_cons_self hjk
  have hbs : bs.filter p = [] := by
    refine List.filter_eq_nil_iff.2 fun j hj hp => ?_
    have hjk := (h j (List.mem_append_right _ (List.mem_cons_of_mem _ hj))).1 hp
    exact hl.2.1.1 (hjk ▸ hj)
  rw [List.filter_append, has, List.filter_cons_of_pos ((h k hk).2 rfl), hbs, List.nil_append]

theorem newKeys_erase {d : ODict Key Pending} {k : Key} (h : k ∈ d.keys) :
    newKeys (d.erase k) d = [k] := by
  refine filter_eq_singleton d.nodup h fun j hj => ?_
  have hmem : j ∈ d.keys := hj
  rw [decide_eq_true_eq, mem_keys_erase]
  simp [hmem]

/-- The oldest entry goes and another one comes. -/
theorem newKeys_replace {d : ODict Key Pending} {e : Key × Pending} {es : List (Key × Pending)} {k : Key}
    {p : Pending} (h : d.entries = e :: es) (hk : k ∉ d.keys) :
    newKeys ((d.drop 1).set k p) d = [e.1] := by
  have hmem : e.1 ∈ d.keys := by
    unfold ODict.keys
    rw [h]
    exact List.mem_cons_self
  refine filter_eq_singleton d.nodup hmem fun j hj => ?_
  have hne : j ≠ k := fun heq => hk (heq ▸ hj)
  have hsome : (d.get? j).isSome := ODict.get?_isSome.2 hj
  rw [decide_eq_true_eq, ODict.mem_keys_set, ← ODict.get?_isSome, ODict.get?_drop_one h]
  by_cases he : j = e.1
  · subst he
    simp [hne]
  · simp [he, hne, hsome]

/-- The oldest entries go. -/
theorem newKeys_drop (d : ODict Key Pending) (n : Nat) : newKeys (d.drop n) d = d.keys.take n := by
  have hkeys : (d.drop n).keys = d.keys.drop n := List.map_drop
  have hnodup := d.nodup
  unfold newKeys
  rw [hkeys]
  have hsplit : d.keys = d.keys.take n ++ d.keys.drop n := (List.take_append_drop n d.keys).symm
  have hdisjoint : ∀ k ∈ d.keys.take n, k ∉ d.keys.drop n := by
    intro k hk hk'
    change d.keys.Nodup at hnodup
    rw [hsplit, List.nodup_append] at hnodup
    exact hnodup.2.2 k hk k hk' rfl
  conv_lhs =>
    rw [hsplit, List.filter_append]
  rw [List.filter_eq_self.2, List.filter_eq_nil_iff.2, List.append_nil]
  · intro k hk
    simpa [← hsplit] using hk
  · intro k hk
    simpa [← hsplit] using hdisjoint k hk

/-! ## The outcomes of `add` -/

/-- An entry of a record of several fragments, some of them held, not all. -/
structure Pending.Partial (p : Pending) : Prop where
  some : 1 ≤ p.received
  notAll : p.received + 1 ≤ p.chunks.length
  counted : p.received = p.chunks.countP Option.isSome

theorem countP_set_none {chunks : List (Option Bytes)} {i : Nat} (h : chunks[i]? = some none)
    (data : Bytes) :
    (chunks.set i (some data)).countP Option.isSome = chunks.countP Option.isSome + 1 := by
  obtain ⟨hi, hget⟩ := List.getElem?_eq_some_iff.1 h
  rw [List.countP_set hi]
  simp [hget]

/-- A chunk is stored and counted, or it was there already. -/
theorem put_counted {p : Pending} (h : p.received = p.chunks.countP Option.isSome) (i : Nat)
    (data : Bytes) :
    (p.put i data).received = (p.put i data).chunks.countP Option.isSome ∧
      (p.put i data).chunks.length = p.chunks.length ∧ (p.put i data).firstSeenUs = p.firstSeenUs ∧
      p.received ≤ (p.put i data).received ∧ (p.put i data).received ≤ p.received + 1 := by
  unfold Pending.put
  split
  · rename_i hget
    refine ⟨?_, List.length_set, rfl, Nat.le_succ _, Nat.le_refl _⟩
    show p.received + 1 = _
    rw [countP_set_none hget, h]
  · exact ⟨h, rfl, rfl, Nat.le_refl _, Nat.le_succ _⟩

/-- The first chunk of a record. -/
theorem put_fresh {n i : Nat} (hi : i < n) (total : Nat) (nowUs : Int) (data : Bytes) :
    ((⟨List.replicate n none, total, nowUs, 0⟩ : Pending).put i data).received = 1 := by
  have hget : (List.replicate n (none : Option Bytes))[i]? = some none := by
    rw [List.getElem?_replicate, if_pos hi]
  unfold Pending.put
  simp only [hget]


/-- The entry of a record that is opened by its first frame. -/
def firstEntry (f : Frame) (nowUs : Int) : Pending :=
  (⟨List.replicate f.fragCount none, f.totalLength, nowUs, 0⟩ : Pending).put f.fragIndex f.chunk

/-- What `add` does to a frame of a fragmented record. -/
inductive Outcome (r : Reassembler) (f : Frame) (nowUs : Int) : Added → Prop where
  | opened (hnone : r.pending.get? f.key = none) (hroom : r.pending.length < r.maxPending) :
    Outcome r f nowUs ⟨{ r with pending := r.pending.set f.key (firstEntry f nowUs) }, [], none⟩
  | evicted {e : Key × Pending} {es : List (Key × Pending)} (hnone : r.pending.get? f.key = none)
      (hentries : r.pending.entries = e :: es) :
    Outcome r f nowUs ⟨{ r with pending := (r.pending.drop 1).set f.key (firstEntry f nowUs) },
      [expired "fragment_overflow" e.1], none⟩
  | malformed {p : Pending} (hp : r.pending.get? f.key = some p) :
    Outcome r f nowUs ⟨{ r with pending := r.pending.erase f.key },
      [expired "frame_malformed" f.key], none⟩
  | stored {p : Pending} (hp : r.pending.get? f.key = some p) (hlength : p.chunks.length = f.fragCount)
      (hmore : (p.put f.fragIndex f.chunk).received < f.fragCount) :
    Outcome r f nowUs ⟨{ r with pending := r.pending.set f.key (p.put f.fragIndex f.chunk) }, [], none⟩
  | completed {p : Pending} (record : Bytes) (hp : r.pending.get? f.key = some p) :
    Outcome r f nowUs ⟨{ r with pending := r.pending.erase f.key }, [],
      some (complete f record nowUs)⟩

theorem popFirst_eq_some {d rest : ODict Key Pending} {e : Key × Pending}
    (h : d.popFirst = some (e, rest)) : ∃ es, d.entries = e :: es ∧ rest = d.drop 1 := by
  unfold ODict.popFirst at h
  cases hentries : d.entries with
  | nil => simp only [hentries] at h; cases h
  | cons x xs =>
    simp only [hentries, Option.some.injEq, Prod.mk.injEq] at h
    obtain ⟨rfl, rfl⟩ := h
    exact ⟨xs, rfl, rfl⟩

theorem add_outcome {r : Reassembler} {f : Frame} {nowUs : Int} {a : Added} (hf : f.fragCount ≠ 1)
    (hi : f.fragIndex < f.fragCount) (h : r.add f nowUs = some a) : Outcome r f nowUs a := by
  have hfirst : (firstEntry f nowUs).received = 1 := put_fresh hi f.totalLength nowUs f.chunk
  have hstore : ∀ d : ODict Key Pending,
      store d ⟨List.replicate f.fragCount none, f.totalLength, nowUs, 0⟩ f nowUs =
        (d.set f.key (firstEntry f nowUs), none) := by
    intro d
    unfold store
    exact if_pos (show (firstEntry f nowUs).received < f.fragCount by omega)
  unfold Reassembler.add at h
  rw [if_neg hf] at h
  cases hp : r.pending.get? f.key with
  | none =>
    simp only [hp, hstore, Reassembler.evict] at h
    by_cases hfull : r.pending.length ≥ r.maxPending
    · simp only [if_pos hfull] at h
      cases hpop : r.pending.popFirst with
      | none => simp only [hpop] at h; cases h
      | some x =>
        obtain ⟨es, hentries, hrest⟩ := @popFirst_eq_some _ x.2 x.1 hpop
        simp only [hpop, Option.some.injEq] at h
        obtain rfl := h
        simp only [hrest]
        exact .evicted hp hentries
    · simp only [if_neg hfull, Option.some.injEq] at h
      obtain rfl := h
      exact .opened hp (Nat.lt_of_not_le hfull)
  | some p =>
    simp only [hp] at h
    split at h
    · obtain rfl := Option.some.inj h
      exact .malformed hp
    · rename_i hsame
      unfold store at h
      obtain rfl := Option.some.inj h
      by_cases hmore : (p.put f.fragIndex f.chunk).received < f.fragCount
      · simp only [if_pos hmore]
        exact .stored hp (by omega) hmore
      · simp only [if_neg hmore]
        exact .completed _ hp

/-! ## The invariant -/

/-- The entry names the record. -/
def Names (k : Key) (x : Expired) : Prop :=
  x.sensorId = k.2.1 ∧ x.bootId = k.2.2.1 ∧ x.sequence = k.2.2.2

theorem names_expired (reason : String) (k : Key) : Names k (expired reason k) := ⟨rfl, rfl, rfl⟩

/-- The entries are ordered by age and not younger than the clock. -/
structure Aged (d : ODict Key Pending) (clockUs : Int) : Prop where
  ordered : (d.entries.map (·.2.firstSeenUs)).Pairwise (· ≤ ·)
  seen : ∀ e ∈ d.entries, e.2.firstSeenUs ≤ clockUs

/-- Every record opened is pending, completed or given up; the table is ordered by age. -/
structure Books (maxPending : Nat) (timeoutUs : Int) (s : Ledger) : Prop where
  maxPending : s.reassembler.maxPending = maxPending
  timeoutUs : s.reassembler.timeoutUs = timeoutUs
  size : s.reassembler.pending.length ≤ s.reassembler.maxPending
  entries : ∀ k p, s.reassembler.pending.get? k = some p → p.Partial
  aged : Aged s.reassembler.pending s.clockUs
  balance : s.opened.Perm (s.reassembler.pending.keys ++ (s.completed.map Complete.key ++ s.givenUp))
  reports : List.Forall₂ Names s.givenUp s.reported

theorem firstEntry_open {f : Frame} (hf : f.fragCount ≠ 1) (hi : f.fragIndex < f.fragCount)
    (nowUs : Int) : (firstEntry f nowUs).Partial := by
  have hzero : (⟨List.replicate f.fragCount none, f.totalLength, nowUs, 0⟩ : Pending).received =
      (List.replicate f.fragCount (none : Option Bytes)).countP Option.isSome := by
    rw [List.countP_replicate]
    rfl
  obtain ⟨hcounted, hlength, -⟩ := put_counted hzero f.fragIndex f.chunk
  have hone : (firstEntry f nowUs).received = 1 := put_fresh hi f.totalLength nowUs f.chunk
  have hlength' : (firstEntry f nowUs).chunks.length = f.fragCount :=
    hlength.trans List.length_replicate
  exact ⟨by omega, by omega, hcounted⟩

theorem firstEntry_firstSeen {f : Frame} (nowUs : Int) : (firstEntry f nowUs).firstSeenUs = nowUs := by
  unfold firstEntry Pending.put
  split <;> rfl

namespace Aged

variable {d : ODict Key Pending} {clockUs nowUs : Int}

theorem sublist {d' : ODict Key Pending} (h : Aged d clockUs) (hnow : clockUs ≤ nowUs)
    (hsub : d'.entries.Sublist d.entries) : Aged d' nowUs :=
  ⟨h.ordered.sublist (hsub.map _), fun e he => Int.le_trans (h.seen e (hsub.subset he)) hnow⟩

theorem erase (h : Aged d clockUs) (hnow : clockUs ≤ nowUs) (k : Key) : Aged (d.erase k) nowUs :=
  h.sublist hnow List.filter_sublist

theorem drop (h : Aged d clockUs) (hnow : clockUs ≤ nowUs) (n : Nat) : Aged (d.drop n) nowUs :=
  h.sublist hnow (List.drop_sublist _ _)

/-- A new entry is the youngest. -/
theorem set_new (h : Aged d nowUs) {k : Key} {p : Pending} (hk : k ∉ d.keys)
    (hp : p.firstSeenUs = nowUs) : Aged (d.set k p) nowUs := by
  have hentries := ODict.entries_set_new p hk
  constructor
  · rw [hentries, List.map_append, List.pairwise_append]
    refine ⟨h.ordered, List.pairwise_singleton _ _, ?_⟩
    intro a ha b hb
    obtain ⟨e, he, rfl⟩ := List.mem_map.1 ha
    rw [List.map_cons, List.map_nil, List.mem_singleton] at hb
    rw [hb, hp]
    exact h.seen e he
  · intro e he
    rw [hentries] at he
    rcases List.mem_append.1 he with he | he
    · exact h.seen e he
    · rw [List.mem_singleton.1 he]
      exact Int.le_of_eq hp

/-- An entry that is changed keeps its place and its age. -/
theorem set_same (h : Aged d clockUs) (hnow : clockUs ≤ nowUs) {k : Key} {p q : Pending}
    (hp : d.get? k = some p) (hq : q.firstSeenUs = p.firstSeenUs) : Aged (d.set k q) nowUs := by
  have hk : k ∈ d.keys := ODict.get?_isSome.1 (hp ▸ rfl)
  have hentries : (d.set k q).entries = d.entries.map fun e => if e.1 = k then (k, q) else e := by
    simp only [ODict.set, hk, dif_pos, ODict.replace]
  have hseen : (d.set k q).entries.map (·.2.firstSeenUs) = d.entries.map (·.2.firstSeenUs) := by
    rw [hentries, List.map_map]
    refine List.map_congr_left fun e he => ?_
    simp only [Function.comp_apply]
    split
    · rename_i hek
      have hget : d.get? k = some e.2 := ODict.mem_entries.1 (hek ▸ he)
      rw [hp, Option.some.injEq] at hget
      rw [hq, hget]
    · rfl
  refine ⟨hseen ▸ h.ordered, fun e he => ?_⟩
  have hmem : e.2.firstSeenUs ∈ (d.set k q).entries.map (·.2.firstSeenUs) := List.mem_map_of_mem he
  rw [hseen] at hmem
  obtain ⟨e', he', heq⟩ := List.mem_map.1 hmem
  exact heq ▸ Int.le_trans (h.seen e' he') hnow

end Aged

namespace Books

variable {n : Nat} {t : Int} {s : Ledger}

/-- A step that turns the table into `d'`, returns `cs`, gives up `gone` and reports `ex`. -/
theorem next (h : Books n t s) {d' : ODict Key Pending} {nowUs : Int} {cs : List Complete} {gone : List Key}
    {ex : List Expired} (hsize : d'.length ≤ s.reassembler.maxPending)
    (hentries : ∀ k p, d'.get? k = some p → p.Partial) (haged : Aged d' nowUs)
    (hleft : newKeys d' s.reassembler.pending = cs.map Complete.key ++ gone)
    (hnames : List.Forall₂ Names gone ex) :
    Books n t ⟨{ s.reassembler with pending := d' }, nowUs,
      s.opened ++ newKeys s.reassembler.pending d', s.completed ++ cs, s.givenUp ++ gone,
      s.reported ++ ex⟩ := by
  refine ⟨h.maxPending, h.timeoutUs, hsize, hentries, haged, ?_, List.rel_append h.reports hnames⟩
  have hkeys := keys_newKeys s.reassembler.pending d'
  have hbalance := h.balance
  rw [hleft] at hkeys
  rw [List.perm_iff_count] at hkeys hbalance ⊢
  intro k
  have hk := hkeys k
  have hb := hbalance k
  simp only [List.count_append, List.map_append] at hk hb ⊢
  omega

theorem entries_erase (h : Books n t s) (k : Key) :
    ∀ j p, (s.reassembler.pending.erase k).get? j = some p → p.Partial := by
  intro j p hp
  rw [ODict.get?_erase] at hp
  split at hp
  · cases hp
  · exact h.entries j p hp

/-- An entry that is set is again one of a record of several fragments. -/
theorem entries_set {d : ODict Key Pending} (h : ∀ j p, d.get? j = some p → p.Partial) (k : Key)
    {q : Pending} (hq : q.Partial) : ∀ j p, (d.set k q).get? j = some p → p.Partial := by
  intro j p hp
  rw [ODict.get?_set] at hp
  split at hp
  · cases hp
    exact hq
  · exact h j p hp

theorem entries_drop (h : Books n t s) (n : Nat) :
    ∀ j p, (s.reassembler.pending.drop n).get? j = some p → p.Partial := by
  intro j p hp
  have hmem := ODict.mem_entries.2 hp
  exact h.entries j p (ODict.mem_entries.1 (List.mem_of_mem_drop hmem))

theorem length_erase_le (d : ODict Key Pending) (k : Key) : (d.erase k).length ≤ d.length :=
  List.length_filter_le _ _

/-- **One frame.** -/
theorem frame (h : Books n t s) {f : Frame} {nowUs : Int} {s' : Ledger} (hi : f.fragIndex < f.fragCount)
    (hclock : s.clockUs ≤ nowUs) (hs : s.frame f nowUs = some s') : Books n t s' := by
  obtain ⟨a, ha, rfl⟩ := Option.map_eq_some_iff.1 hs
  by_cases hone : f.fragCount = 1
  · unfold Reassembler.add at ha
    rw [if_pos hone] at ha
    obtain rfl := Option.some.inj ha
    simp only [hone, if_true, Option.isSome_some]
    exact h.next h.size h.entries (h.aged.sublist hclock (List.Sublist.refl _)) (newKeys_self _) .nil
  · simp only [if_neg hone]
    cases add_outcome hone hi ha with
    | opened hnone hroom =>
      have hnew : f.key ∉ s.reassembler.pending.keys := ODict.get?_eq_none.1 hnone
      have hleft : newKeys (s.reassembler.pending.set f.key (firstEntry f nowUs)) s.reassembler.pending =
          [] := newKeys_of_subset fun k hk => ODict.mem_keys_set.2 (.inr hk)
      simp only [Option.isSome_none, Bool.false_eq_true, if_false, Option.toList_none, hleft]
      refine h.next ?_ (entries_set h.entries f.key (firstEntry_open hone hi nowUs)) ?_ hleft .nil
      · rw [ODict.length_set, if_neg hnew]
        exact hroom
      · exact (h.aged.sublist hclock (List.Sublist.refl _)).set_new hnew (firstEntry_firstSeen nowUs)
    | @evicted e es hnone hentries =>
      have hnew : f.key ∉ s.reassembler.pending.keys := ODict.get?_eq_none.1 hnone
      have hnew' : f.key ∉ (s.reassembler.pending.drop 1).keys := fun hmem =>
        hnew (List.map_subset _ (List.drop_subset 1 _) hmem)
      have hleft : newKeys ((s.reassembler.pending.drop 1).set f.key (firstEntry f nowUs))
          s.reassembler.pending = [e.1] := newKeys_replace hentries hnew
      simp only [Option.isSome_none, Bool.false_eq_true, if_false, Option.toList_none, hleft]
      refine h.next ?_ (entries_set (h.entries_drop 1) f.key (firstEntry_open hone hi nowUs)) ?_ hleft
        (.cons (names_expired _ _) .nil)
      · rw [ODict.length_set, if_neg hnew']
        have hsize := h.size
        simp only [ODict.length, ODict.drop, hentries, List.drop_succ_cons, List.drop_zero,
          List.length_cons] at hsize ⊢
        exact hsize
      · exact (h.aged.drop hclock 1).set_new hnew' (firstEntry_firstSeen nowUs)
    | malformed hp =>
      have hleft := newKeys_erase (ODict.get?_isSome.1 (hp ▸ rfl : (s.reassembler.pending.get? f.key).isSome))
      simp only [Option.isSome_none, Bool.false_eq_true, if_false, Option.toList_none, hleft]
      exact h.next (Nat.le_trans (length_erase_le _ _) h.size) (h.entries_erase f.key)
        (h.aged.erase hclock f.key) hleft (.cons (names_expired _ _) .nil)
    | @stored p hp hlength hmore =>
      have hmem : f.key ∈ s.reassembler.pending.keys := ODict.get?_isSome.1 (hp ▸ rfl)
      have hold := h.entries f.key _ hp
      obtain ⟨hcounted, hlength', hseen, hle, -⟩ := put_counted hold.counted f.fragIndex f.chunk
      have hopen := hold.some
      have hleft : newKeys (s.reassembler.pending.set f.key (p.put f.fragIndex f.chunk))
          s.reassembler.pending = [] := newKeys_of_subset fun k hk => ODict.mem_keys_set.2 (.inr hk)
      simp only [Option.isSome_none, Bool.false_eq_true, if_false, Option.toList_none, hleft]
      refine h.next ?_ (entries_set h.entries f.key ⟨by omega, by omega, hcounted⟩)
        (h.aged.set_same hclock hp hseen) hleft .nil
      rw [ODict.length_set, if_pos hmem]
      exact h.size
    | completed record hp =>
      have hleft := newKeys_erase (ODict.get?_isSome.1 (hp ▸ rfl : (s.reassembler.pending.get? f.key).isSome))
      simp only [Option.isSome_some, if_true, Option.toList_some]
      exact h.next (Nat.le_trans (length_erase_le _ _) h.size) (h.entries_erase f.key)
        (h.aged.erase hclock f.key) hleft .nil

/-- The entries that `expire` takes are the oldest ones. -/
theorem expire (h : Books n t s) {nowUs : Int} (hclock : s.clockUs ≤ nowUs) : Books n t (s.expire nowUs) := by
  obtain ⟨old, hold⟩ : ∃ old, old = s.reassembler.pending.entries.takeWhile
      (fun e => ¬ nowUs - e.2.firstSeenUs < s.reassembler.timeoutUs) := ⟨_, rfl⟩
  have htake : s.reassembler.pending.entries.take old.length = old := by
    rw [hold]
    exact (List.prefix_iff_eq_take.1 (List.takeWhile_prefix _)).symm
  have hleft : newKeys (s.reassembler.pending.drop old.length) s.reassembler.pending =
      old.map (·.1) := by
    rw [newKeys_drop, ODict.keys, ← List.map_take, htake]
  have hnone : newKeys s.reassembler.pending (s.reassembler.pending.drop old.length) = [] :=
    newKeys_of_subset fun k hk => List.map_subset _ (List.drop_subset _ _) hk
  have hnames : List.Forall₂ Names (old.map (·.1)) (old.map fun e => expired "fragment_timeout" e.1) := by
    rw [List.forall₂_map_left_iff, List.forall₂_map_right_iff, List.forall₂_same]
    exact fun e _ => names_expired _ _
  have hsize : (s.reassembler.pending.drop old.length).length ≤ s.reassembler.maxPending := by
    refine Nat.le_trans ?_ h.size
    exact (List.drop_sublist _ _).length_le
  have hnext := @next n t s h (s.reassembler.pending.drop old.length) nowUs [] _ _ hsize
    (h.entries_drop old.length) (h.aged.drop hclock old.length) hleft hnames
  rw [hnone, List.append_nil, List.append_nil] at hnext
  simp only [Ledger.expire, Reassembler.expire, ← hold, hleft]
  exact hnext

theorem step (h : Books n t s) {i : Input} {s' : Ledger} (hi : Decoded s i) (hs : s.step i = some s') :
    Books n t s' := by
  cases i with
  | frame f nowUs => exact h.frame hi.2 hi.1 hs
  | expire nowUs =>
    cases hs
    exact h.expire hi

end Books

theorem Books.init (maxPending : Nat) (timeoutUs startUs : Int) :
    Books maxPending timeoutUs (reassembly maxPending timeoutUs startUs).init := by
  refine ⟨rfl, rfl, Nat.zero_le _, nofun, ⟨List.Pairwise.nil, nofun⟩, List.Perm.nil, .nil⟩

/-- After `expire` no entry has timed out. -/
theorem Aged.expire {r : Reassembler} {clockUs : Int} (h : Aged r.pending clockUs) (nowUs : Int) :
    ∀ e ∈ (r.expire nowUs).2.pending.entries, nowUs - r.timeoutUs < e.2.firstSeenUs := by
  obtain ⟨p, hp⟩ : ∃ p : Key × Pending → Bool,
      p = fun e : Key × Pending => ¬ nowUs - e.2.firstSeenUs < r.timeoutUs := ⟨_, rfl⟩
  have hrest : (r.expire nowUs).2.pending.entries = r.pending.entries.dropWhile p := by
    have hsplit := @List.takeWhile_append_dropWhile _ p r.pending.entries
    simp only [Reassembler.expire, ODict.drop, ← hp]
    have hdrop := @List.drop_left _ (r.pending.entries.takeWhile p) (r.pending.entries.dropWhile p)
    rwa [hsplit] at hdrop
  rw [hrest]
  cases hdrop : r.pending.entries.dropWhile p with
  | nil => exact fun _ he => absurd he List.not_mem_nil
  | cons x xs =>
    -- the first that stays is young enough, and the others are not older
    have hx : p x = false := by
      have hhead := List.head?_dropWhile_not p r.pending.entries
      rw [hdrop] at hhead
      simpa using hhead
    have hyoung : nowUs - x.2.firstSeenUs < r.timeoutUs := by
      rw [hp] at hx
      simpa using hx
    have hordered := h.ordered.sublist ((List.dropWhile_sublist p).map (·.2.firstSeenUs))
    rw [hdrop, List.map_cons, List.pairwise_cons] at hordered
    intro e he
    have hle : x.2.firstSeenUs ≤ e.2.firstSeenUs := by
      rcases List.mem_cons.1 he with rfl | he
      · exact Int.le_refl _
      · exact hordered.1 _ (List.mem_map_of_mem he)
    omega

/-- A reassembler with room for an entry takes every frame. -/
theorem add_isSome {r : Reassembler} (h : 1 ≤ r.maxPending) (f : Frame) (nowUs : Int) :
    (r.add f nowUs).isSome := by
  unfold Reassembler.add
  split
  · rfl
  · split
    · unfold Reassembler.evict
      by_cases hfull : r.pending.length ≥ r.maxPending
      · rw [if_pos hfull, ODict.popFirst]
        cases hentries : r.pending.entries with
        | nil =>
          rw [ODict.length, hentries, List.length_nil] at hfull
          omega
        | cons e es => rfl
      · rw [if_neg hfull]
        rfl
    · split <;> rfl

/-! ## The accounts -/

/-- **Every record opened is accounted for**: at most `max_pending` records are pending, each with
some of its fragments but not all, and counted as held; the records ever opened are those pending,
those returned and those given up, each of which is named by one entry reported; every frame is taken,
and after `expire` no record has timed out. -/
theorem reassembly_accounting {maxPending : Nat} {timeoutUs startUs : Int} {s : Ledger}
    (hmax : 1 ≤ maxPending) (h : (reassembly maxPending timeoutUs startUs).Reach Decoded s) :
    s.reassembler.pending.length ≤ maxPending ∧
    (∀ k p, s.reassembler.pending.get? k = some p → 1 ≤ p.received ∧
      p.received ≤ p.chunks.length - 1 ∧ p.received = p.chunks.countP Option.isSome) ∧
    s.opened.Perm (s.reassembler.pending.keys ++ (s.completed.map Complete.key ++ s.givenUp)) ∧
    List.Forall₂ Names s.givenUp s.reported ∧
    (∀ f nowUs, (s.step (.frame f nowUs)).isSome) ∧
    ∀ nowUs, ∀ e ∈ (s.expire nowUs).reassembler.pending.entries, nowUs - timeoutUs < e.2.firstSeenUs := by
  have hbooks : Books maxPending timeoutUs s :=
    h.invariant (.init maxPending timeoutUs startUs) fun _ _ _ hs hi hstep => hs.step hi hstep
  refine ⟨hbooks.maxPending ▸ hbooks.size, fun k p hp => ?_, hbooks.balance, hbooks.reports, ?_, ?_⟩
  · have hopen := hbooks.entries k p hp
    have hmore := hopen.notAll
    exact ⟨hopen.some, by omega, hopen.counted⟩
  · intro f nowUs
    simp only [Ledger.step, Ledger.frame, Option.isSome_map]
    exact add_isSome (hbooks.maxPending ▸ hmax) f nowUs
  · intro nowUs
    rw [← hbooks.timeoutUs]
    exact hbooks.aged.expire nowUs

/-- A record of two fragments is opened and completed, another one is opened and given up. -/
theorem reassembly_accounting_two :
    let r : Record := ⟨TYPE_EVENT, "s1", uuidStr (List.replicate 16 0), 7, List.replicate 1201 65⟩
    let q : Record := { r with sequence := 8 }
    ∃ s : Ledger, s.opened = [r.key, q.key] ∧ s.completed.map Complete.key = [r.key] ∧
      s.opened.Perm (s.reassembler.pending.keys ++ (s.completed.map Complete.key ++ s.givenUp)) ∧
      List.Forall₂ Names s.givenUp s.reported := by
  intro r q
  have hrun : ((reassembly 1 2000000 0).runMeeting Decoded (reassembly 1 2000000 0).init
      [.frame (r.frame 1) 0, .frame (r.frame 0) 5, .frame (q.frame 0) 5, .expire 2000005]).any
        (fun s => s.opened = [r.key, q.key] ∧ s.completed.map Complete.key = [r.key]) = true := by
    decide +kernel
  obtain ⟨s, hs, hstate⟩ := (Option.any_eq_true _ _).1 hrun
  obtain ⟨hopened, hcompleted⟩ := of_decide_eq_true hstate
  obtain ⟨-, -, hbalance, hreports, -⟩ :=
    reassembly_accounting (Nat.le_refl 1) (Machine.reach_of_run _ hs)
  exact ⟨s, hopened, hcompleted, hbalance, hreports⟩

/-! ## Redundant copies -/

/-- No frame of a fragmented record arrives after the record was returned. -/
def NoCopies (s : Ledger) : Input → Prop
  | .frame f nowUs => Decoded s (.frame f nowUs) ∧
    (f.fragCount ≠ 1 → ∀ c ∈ s.completed, f.key ≠ c.key)
  | .expire nowUs => Decoded s (.expire nowUs)

instance (s : Ledger) (i : Input) : Decidable (NoCopies s i) := by
  cases i <;> unfold NoCopies <;> infer_instance

/-- From `s` to `s'` no entry is reported of a record that was complete in `s`. -/
def Ledger.Spares (s s' : Ledger) : Prop :=
  ∃ more, s'.givenUp = s.givenUp ++ more ∧ ∀ c ∈ s.completed, c.key ∉ more

theorem mem_newKeys {d d' : ODict Key Pending} {k : Key} :
    k ∈ newKeys d d' ↔ k ∈ d'.keys ∧ k ∉ d.keys := by
  unfold newKeys
  rw [List.mem_filter, decide_eq_true_eq]

/-- The keys after `add`: those before, and that of the frame. -/
theorem add_keys {r : Reassembler} {f : Frame} {nowUs : Int} {a : Added} (hi : f.fragIndex < f.fragCount)
    (h : r.add f nowUs = some a) :
    ∀ k ∈ a.reassembler.pending.keys, k ∈ r.pending.keys ∨ f.fragCount ≠ 1 ∧ k = f.key := by
  intro k hk
  by_cases hone : f.fragCount = 1
  · unfold Reassembler.add at h
    rw [if_pos hone] at h
    obtain rfl := Option.some.inj h
    exact .inl hk
  · cases add_outcome hone hi h with
    | opened hnone hroom =>
      rcases ODict.mem_keys_set.1 hk with hk | hk
      · exact .inr ⟨hone, hk⟩
      · exact .inl hk
    | evicted hnone hentries =>
      rcases ODict.mem_keys_set.1 hk with hk | hk
      · exact .inr ⟨hone, hk⟩
      · exact .inl (List.map_subset _ (List.drop_subset 1 _) hk)
    | malformed hp => exact .inl (mem_keys_erase.1 hk).2
    | stored hp hlength hmore =>
      rcases ODict.mem_keys_set.1 hk with hk | hk
      · exact .inr ⟨hone, hk⟩
      · exact .inl hk
    | completed record hp => exact .inl (mem_keys_erase.1 hk).2

/-- A fragmented record that is returned is no longer pending. -/
theorem add_completed {r : Reassembler} {f : Frame} {nowUs : Int} {a : Added} (hf : f.fragCount ≠ 1)
    (hi : f.fragIndex < f.fragCount) (h : r.add f nowUs = some a) :
    ∀ c, a.complete = some c → c.key ∉ a.reassembler.pending.keys := by
  intro c hc hmem
  cases add_outcome hf hi h with
  | opened hnone hroom => cases hc
  | evicted hnone hentries => cases hc
  | malformed hp => cases hc
  | stored hp hlength hmore => cases hc
  | completed record hp =>
    cases hc
    exact (mem_keys_erase.1 hmem).1 rfl

/-- Between `s` and `t`: what was complete in `s` is complete and not pending, and was spared. -/
structure Spared (s t : Ledger) : Prop where
  spares : s.Spares t
  completed : ∀ c ∈ s.completed, c ∈ t.completed
  absent : ∀ c ∈ t.completed, c.key ∉ t.reassembler.pending.keys

/-- A step gives up pending records only. -/
theorem Spared.next {s t u : Ledger} (h : Spared s t) {gone : List Key} {cs : List Complete}
    (hgone : u.givenUp = t.givenUp ++ gone) (hpending : ∀ k ∈ gone, k ∈ t.reassembler.pending.keys)
    (hcompleted : u.completed = t.completed ++ cs)
    (habsent : ∀ c ∈ t.completed ++ cs, c.key ∉ u.reassembler.pending.keys) : Spared s u := by
  obtain ⟨more, hmore, hspared⟩ := h.spares
  refine ⟨⟨more ++ gone, ?_, ?_⟩, ?_, hcompleted ▸ habsent⟩
  · rw [hgone, hmore, List.append_assoc]
  · intro c hc hmem
    rcases List.mem_append.1 hmem with hmem | hmem
    · exact hspared c hc hmem
    · exact h.absent c (h.completed c hc) (hpending _ hmem)
  · intro c hc
    rw [hcompleted]
    exact List.mem_append_left _ (h.completed c hc)

theorem Spared.step {s t u : Ledger} (h : Spared s t) {i : Input} (hC : NoCopies t i)
    (hs : t.step i = some u) : Spared s u := by
  cases i with
  | expire nowUs =>
    cases hs
    refine @Spared.next s t _ h _ [] rfl (fun k hk => (mem_newKeys.1 hk).1) (List.append_nil _).symm ?_
    intro c hc hmem
    rw [List.append_nil] at hc
    exact h.absent c hc (List.map_subset _ (List.drop_subset _ _) hmem)
  | frame f nowUs =>
    obtain ⟨hdecoded, hnew⟩ := hC
    obtain ⟨a, ha, rfl⟩ := Option.map_eq_some_iff.1 hs
    refine h.next rfl ?_ rfl ?_
    · intro k hk
      split at hk
      · cases hk
      · exact (mem_newKeys.1 hk).1
    · intro c hc
      rcases List.mem_append.1 hc with hc | hc
      · -- only a frame of the record itself could open it again
        intro hmem
        rcases add_keys hdecoded.2 ha c.key hmem with hmem | ⟨hone, hkey⟩
        · exact h.absent c hc hmem
        · exact hnew hone c hc hkey.symm
      · split at hc
        · cases hc
        · rename_i hone
          exact add_completed hone hdecoded.2 ha c (Option.mem_toList.1 hc)

/-- The frame of a record that is not pending makes it pending, the youngest of all. -/
theorem frame_reopens {r : Reassembler} {f : Frame} {nowUs : Int} {a : Added} (hf : f.fragCount ≠ 1)
    (hi : f.fragIndex < f.fragCount) (hnone : f.key ∉ r.pending.keys) (h : r.add f nowUs = some a) :
    f.key ∈ a.reassembler.pending.keys := by
  have hget := ODict.get?_eq_none.2 hnone
  cases add_outcome hf hi h with
  | opened _ _ => exact ODict.mem_keys_set.2 (.inl rfl)
  | evicted _ _ => exact ODict.mem_keys_set.2 (.inl rfl)
  | malformed hp => rw [hget] at hp; cases hp
  | stored hp _ _ => rw [hget] at hp; cases hp
  | completed _ hp => rw [hget] at hp; cases hp

/-- When everything has timed out the table is empty. -/
theorem expire_all {r : Reassembler} {clockUs nowUs : Int} (h : Aged r.pending clockUs)
    (hlate : clockUs + r.timeoutUs ≤ nowUs) : (r.expire nowUs).2.pending.keys = [] := by
  have hall := h.expire nowUs
  have hsub : ∀ e ∈ (r.expire nowUs).2.pending.entries, e ∈ r.pending.entries :=
    fun e he => List.mem_of_mem_drop he
  unfold ODict.keys
  rw [List.map_eq_nil_iff, List.eq_nil_iff_forall_not_mem]
  intro e he
  have hyoung := hall e he
  have hseen := h.seen e (hsub e he)
  omega

/-- **Copies of a returned record are harmless as long as none arrives**: in the runs in which no frame
of a fragmented record arrives after the record was returned, no entry is reported of a record from
then on; and a copy that does arrive makes the record pending again, and it is given up unless it is
completed once more within the timeout. -/
theorem redundant_copies_harmless {maxPending : Nat} {timeoutUs startUs : Int} {s : Ledger}
    (hmax : 1 ≤ maxPending) (h : (reassembly maxPending timeoutUs startUs).Reach NoCopies s) :
    (∀ s', (reassemblyFrom s).Reach NoCopies s' → s.Spares s') ∧
    ∀ c ∈ s.completed, ∀ f nowUs, f.key = c.key → f.fragCount ≠ 1 → Decoded s (.frame f nowUs) →
      ∃ s', s.frame f nowUs = some s' ∧
        ∀ laterUs, nowUs + timeoutUs ≤ laterUs →
          ∃ more, (s'.expire laterUs).givenUp = s.givenUp ++ more ∧ c.key ∈ more := by
  have hdecoded : ∀ t i, NoCopies t i → Decoded t i := fun t i hC => by
    cases i with
    | frame f nowUs => exact hC.1
    | expire nowUs => exact hC
  have hbooks : Books maxPending timeoutUs s :=
    h.invariant (.init maxPending timeoutUs startUs) fun _ _ _ hs hi hstep =>
      hs.step (hdecoded _ _ hi) hstep
  have hspared : Spared (reassembly maxPending timeoutUs startUs).init s := by
    refine h.invariant ⟨⟨[], rfl, nofun⟩, nofun, nofun⟩ fun _ _ _ hs hi hstep => hs.step hi hstep
  have hself : Spared s s := ⟨⟨[], (List.append_nil _).symm, fun _ _ => List.not_mem_nil⟩,
    fun _ hc => hc, hspared.absent⟩
  refine ⟨fun s' h' => ?_, fun c hc f nowUs hkey hf hframe => ?_⟩
  · exact (h'.invariant (I := Spared s) hself fun _ _ _ hs hi hstep => hs.step hi hstep).spares
  · have hsome : (s.frame f nowUs).isSome := by
      rw [Ledger.frame, Option.isSome_map]
      exact add_isSome (hbooks.maxPending ▸ hmax) f nowUs
    obtain ⟨s', hs'⟩ := Option.isSome_iff_exists.1 hsome
    have hbooks' : Books maxPending timeoutUs s' := hbooks.frame hframe.2 hframe.1 hs'
    refine ⟨s', hs', fun laterUs hlate => ?_⟩
    obtain ⟨a, ha, rfl⟩ := Option.map_eq_some_iff.1 hs'
    have hopen := frame_reopens hf hframe.2 (hkey ▸ hspared.absent c hc) ha
    have hempty := @expire_all _ _ laterUs hbooks'.aged (hbooks'.timeoutUs ▸ hlate)
    refine ⟨_, List.append_assoc .., List.mem_append_right _ (mem_newKeys.2 ⟨hkey ▸ hopen, ?_⟩)⟩
    intro hmem
    rw [hempty] at hmem
    cases hmem

/-- A record of two fragments is returned, then another one is given up. -/
theorem redundant_copies_harmless_two :
    let r : Record := ⟨TYPE_EVENT, "s1", uuidStr (List.replicate 16 0), 7, List.replicate 1201 65⟩
    let q : Record := { r with sequence := 8 }
    ∃ s s' : Ledger, s.completed.map Complete.key = [r.key] ∧ s'.givenUp = [q.key] ∧ s.Spares s' := by
  intro r q
  have hrun : ((reassembly 1 2000000 0).runMeeting NoCopies (reassembly 1 2000000 0).init
      [.frame (r.frame 1) 0, .frame (r.frame 0) 5]).any
        (fun s => s.completed.map Complete.key = [r.key] ∧
          ((reassemblyFrom s).runMeeting NoCopies s [.frame (q.frame 0) 5, .expire 2000005]).any
            fun s' => s'.givenUp = [q.key]) = true := by
    decide +kernel
  obtain ⟨s, hs, hstate⟩ := (Option.any_eq_true _ _).1 hrun
  obtain ⟨hcompleted, hlater⟩ := of_decide_eq_true hstate
  obtain ⟨s', hs', hgiven⟩ := (Option.any_eq_true _ _).1 hlater
  exact ⟨s, s', hcompleted, of_decide_eq_true hgiven,
    (redundant_copies_harmless (Nat.le_refl 1) (Machine.reach_of_run _ hs)).1 s'
      (Machine.reach_of_run (m := reassemblyFrom s) _ hs')⟩

/-- **A redundant copy is reported as an incomplete record**: the two frames of a record arrive, then
the first again, and time passes. -/
theorem redundant_copy_expires :
    let r : Record := ⟨TYPE_EVENT, "s1", uuidStr (List.replicate 16 0), 7, List.replicate 1201 65⟩
    ∃ s s', (reassembly 4096 2000000 0).Reach Decoded s ∧ (reassemblyFrom s).Reach Decoded s' ∧
      s.completed.map Complete.key = [r.key] ∧ ¬ s.Spares s' ∧
      s'.reported = s.reported ++ [expired "fragment_timeout" r.key] := by
  intro r
  have hrun : ((reassembly 4096 2000000 0).runMeeting Decoded (reassembly 4096 2000000 0).init
      [.frame (r.frame 0) 0, .frame (r.frame 1) 1]).any
        (fun s => s.completed.map Complete.key = [r.key] ∧ s.givenUp = [] ∧ s.reported = [] ∧
          ((reassemblyFrom s).runMeeting Decoded s [.frame (r.frame 0) 2, .expire 2000002]).any
            fun s' => s'.givenUp = [r.key] ∧
              s'.reported = [expired "fragment_timeout" r.key]) = true := by
    decide +kernel
  obtain ⟨s, hs, hstate⟩ := (Option.any_eq_true _ _).1 hrun
  obtain ⟨hcompleted, hnone, hquiet, hlater⟩ := of_decide_eq_true hstate
  obtain ⟨s', hs', hgiven⟩ := (Option.any_eq_true _ _).1 hlater
  obtain ⟨hgone, hreported⟩ := of_decide_eq_true hgiven
  refine ⟨s, s', Machine.reach_of_run _ hs, Machine.reach_of_run (m := reassemblyFrom s) _ hs',
    hcompleted, ?_, by rw [hquiet, hreported, List.nil_append]⟩
  rintro ⟨more, hmore, hspared⟩
  rw [hgone, hnone, List.nil_append] at hmore
  obtain ⟨c, hc, hkey⟩ := List.mem_map.1 (hcompleted ▸ List.mem_singleton.2 rfl)
  exact hspared c hc (hmore ▸ List.mem_singleton.2 hkey)

end OTS.Link
