import Mathlib.Data.List.Nodup
import Mathlib.Data.List.Perm.Subperm
import OTSecurity.Lib.ODict
import OTSecurity.Lib.Tally
import OTSecurity.Link.Frame

/-!
# Reassembly of fragmented records

Model of `Reassembler` of `ingest/receiver/sih_receiver/reassembly.py`, fed with decoded frames.

* `Reassembler.add` — one frame: single-fragment shortcut, eviction of the oldest incomplete
  record, geometry check, chunk stored once, completion.
* `Reassembler.expire` — the completion timeout.
* `Table` — the abstract table: which fragments of each record are held.  `add_spec` is what one
  frame does to it, `evict_spec` and `expire_spec` what is forgotten.

Principal result: `link_transport_exact` — any delivery order, with loss and duplication, of the
frames of a family of records yields only records of the family, and a record whose frames all
arrive once exactly once.
-/

namespace OTS.Link

/-- `(type, sensor_id, boot_id, sequence)`. -/
abbrev Key := Nat × String × String × Nat

structure Complete where
  type : Nat
  sensorId : String
  bootId : String
  sequence : Nat
  record : Bytes
  receivedAtUs : Int
  deriving DecidableEq, Repr

structure Expired where
  reason : String
  sensorId : String
  bootId : String
  sequence : Nat
  deriving DecidableEq, Repr

/-- An incomplete record: `[chunks, total, first_seen_us, received]`. -/
structure Pending where
  chunks : List (Option Bytes)
  total : Nat
  firstSeenUs : Int
  received : Nat
  deriving DecidableEq, Repr

structure Reassembler where
  maxPending : Nat
  timeoutUs : Int
  pending : ODict Key Pending

def Frame.key (f : Frame) : Key := (f.type, f.sensorId, f.bootId, f.sequence)

def Complete.key (c : Complete) : Key := (c.type, c.sensorId, c.bootId, c.sequence)

def expired (reason : String) (k : Key) : Expired := ⟨reason, k.2.1, k.2.2.1, k.2.2.2⟩

def complete (f : Frame) (record : Bytes) (nowUs : Int) : Complete :=
  ⟨f.type, f.sensorId, f.bootId, f.sequence, record, nowUs⟩

/-- `p[0][idx] = chunk; p[3] += 1` unless the chunk is there; the decoder rejects an index past
the chunks. -/
def Pending.put (p : Pending) (idx : Nat) (data : Bytes) : Pending :=
  match p.chunks[idx]? with
  | some none => { p with chunks := p.chunks.set idx (some data), received := p.received + 1 }
  | _ => p

/-- `b"".join(chunks)`. -/
def join (chunks : List (Option Bytes)) : Bytes := (chunks.filterMap id).flatten

/-- Room for one more entry: the oldest is evicted when the table is full (`none`: `popitem` on
an empty table raises `KeyError`). -/
def Reassembler.evict (r : Reassembler) : Option (ODict Key Pending × List Expired) :=
  if r.pending.length ≥ r.maxPending then
    match r.pending.popFirst with
    | none => none
    | some ((k, _), rest) => some (rest, [expired "fragment_overflow" k])
  else some (r.pending, [])

/-- The chunk of `f` put into its entry `p`; the entry is kept or completed. -/
def store (pending : ODict Key Pending) (p : Pending) (f : Frame) (nowUs : Int) :
    ODict Key Pending × Option Complete :=
  let p' := p.put f.fragIndex f.chunk
  if p'.received < f.fragCount then (pending.set f.key p', none)
  else (pending.erase f.key, some (complete f (join p'.chunks) nowUs))

/-- The outcome of `add`: the new table, what was appended to `expired`, the return value. -/
structure Added where
  reassembler : Reassembler
  expired : List Expired
  complete : Option Complete

def Reassembler.add (r : Reassembler) (f : Frame) (nowUs : Int) : Option Added :=
  if f.fragCount = 1 then some ⟨r, [], some (complete f f.chunk nowUs)⟩
  else match r.pending.get? f.key with
    | none =>
      match r.evict with
      | none => none
      | some (pending, ex) =>
        let (pending', c) :=
          store pending ⟨List.replicate f.fragCount none, f.totalLength, nowUs, 0⟩ f nowUs
        some ⟨{ r with pending := pending' }, ex, c⟩
    | some p =>
      if p.chunks.length ≠ f.fragCount ∨ p.total ≠ f.totalLength then
        some ⟨{ r with pending := r.pending.erase f.key }, [expired "frame_malformed" f.key], none⟩
      else
        let (pending', c) := store r.pending p f nowUs
        some ⟨{ r with pending := pending' }, [], c⟩

/-- The oldest entries whose completion timed out are dropped; the rest are younger. -/
def Reassembler.expire (r : Reassembler) (nowUs : Int) : List Expired × Reassembler :=
  let old := r.pending.entries.takeWhile (fun e => ¬ nowUs - e.2.firstSeenUs < r.timeoutUs)
  (old.map (fun e => expired "fragment_timeout" e.1),
    { r with pending := r.pending.drop old.length })

/-! ## Records and deliveries -/

/-- The arguments of one call of `encode`. -/
structure Record where
  type : Nat
  sensorId : String
  bootId : String
  sequence : Nat
  bytes : Bytes
  deriving DecidableEq, Repr

def Record.key (r : Record) : Key := (r.type, r.sensorId, r.bootId, r.sequence)

def Record.count (r : Record) : Nat := fragments r.bytes.length

/-- The fields of fragment `i`. -/
def Record.frame (r : Record) (i : Nat) : Frame :=
  ⟨r.type, i, r.count, r.sensorId, r.bootId, r.sequence, r.bytes.length,
    chunk MAX_CHUNK_BYTES r.bytes i⟩

def Record.Encodable (r : Record) : Prop :=
  Link.Encodable r.type r.sensorId r.bootId r.sequence r.bytes

/-- `c.encode` on the record's fields; no frames when it raises. -/
def Record.frames (hmac : Hmac) (c : LinkCodec) (r : Record) : List Bytes :=
  match c.encode hmac r.type r.sensorId r.bootId r.sequence r.bytes with
  | .ok frames => frames
  | .error _ => []

/-- A finite family of encodable records with distinct keys. -/
structure Family (recs : List Record) : Prop where
  encodable : ∀ r ∈ recs, r.Encodable
  distinct : (recs.map Record.key).Nodup

theorem Family.count_pos {recs : List Record} (h : Family recs) {r : Record} (hr : r ∈ recs) :
    0 < r.count :=
  (fragments_bounds (h.encodable r hr).record_pos (h.encodable r hr).record_le).1

/-- A datagram arrives: frame `frag` of a record; or the receiver looks for timeouts. -/
inductive Step where
  | deliver (r : Record) (frag : Nat) (nowUs : Int)
  | expire (nowUs : Int)

/-- What the receive thread has: the reassembler and all it has returned. -/
structure Receiving where
  reassembler : Reassembler
  completes : List Complete := []
  expired : List Expired := []

/-- Decode, then `add`; a rejected frame changes nothing (`none`: `add` raised). -/
def Receiving.datagram (hmac : Hmac) (c : LinkCodec) (s : Receiving) (data : Bytes)
    (nowUs : Int) : Option Receiving :=
  match c.decode hmac data with
  | .error _ => some s
  | .ok f =>
    match s.reassembler.add f nowUs with
    | none => none
    | some a => some ⟨a.reassembler, s.completes ++ a.complete.toList, s.expired ++ a.expired⟩

def Receiving.step (hmac : Hmac) (c : LinkCodec) (s : Receiving) : Step → Option Receiving
  | .deliver r i now => s.datagram hmac c ((r.frames hmac c).getD i []) now
  | .expire now =>
    some ⟨(s.reassembler.expire now).2, s.completes, s.expired ++ (s.reassembler.expire now).1⟩

def Receiving.run (hmac : Hmac) (c : LinkCodec) (s : Receiving) (steps : List Step) :
    Option Receiving :=
  steps.foldlM (Receiving.step hmac c) s

/-- Every delivery is a frame of a record of the family. -/
def Sent (recs : List Record) (steps : List Step) : Prop :=
  ∀ r i now, Step.deliver r i now ∈ steps → r ∈ recs ∧ i < r.count

/-- The fragments of `r` that have arrived, in order of arrival. -/
def arrived (r : Record) (steps : List Step) : List Nat :=
  steps.filterMap fun
    | .deliver r' i _ => if r' = r then some i else none
    | .expire _ => none

/-- The fragments of `r` that have arrived since it was last complete. -/
def heldAfter (steps : List Step) (r : Record) : List Nat :=
  (collected r.count (arrived r steps)).1

/-- Some fragments of `r` have arrived since it was last complete, but not all. -/
def Incomplete (steps : List Step) (r : Record) : Prop := heldAfter steps r ≠ []

instance (steps : List Step) (r : Record) : Decidable (Incomplete steps r) := by
  unfold Incomplete; infer_instance

/-- At most `max_pending` records are incomplete at a time. -/
def Bounded (recs : List Record) (maxPending : Nat) (steps : List Step) : Prop :=
  ∀ p, p <+: steps → (recs.filter (fun r => Incomplete p r)).length ≤ maxPending

/-- No call of `expire` finds an entry that timed out. -/
def NoExpiry (hmac : Hmac) (c : LinkCodec) (s : Receiving) (steps : List Step) : Prop :=
  ∀ p now, p ++ [.expire now] <+: steps → ∀ t, s.run hmac c p = some t →
    (t.reassembler.expire now).1 = []

theorem Family.key_inj {recs : List Record} (h : Family recs) {r r' : Record} (hr : r ∈ recs)
    (hr' : r' ∈ recs) (hk : r.key = r'.key) : r = r' :=
  List.inj_on_of_nodup_map h.distinct hr hr' hk

/-! ## One entry -/

/-- The entry `p` has exactly the chunks `held` of record `r`. -/
structure Holds (r : Record) (p : Pending) (held : List Nat) : Prop where
  chunks : p.chunks = (List.range r.count).map
    (fun j => if j ∈ held then some (chunk MAX_CHUNK_BYTES r.bytes j) else none)
  total : p.total = r.bytes.length
  received : p.received = held.length

/-- What can be held of an incomplete record of `n` fragments. -/
structure Part (n : Nat) (held : List Nat) : Prop where
  nodup : held.Nodup
  lt : ∀ j ∈ held, j < n
  length : held.length < n

theorem Part.nil {n : Nat} (h : 0 < n) : Part n [] := ⟨List.nodup_nil, by simp, h⟩

theorem Part.hold_lt {n : Nat} {held : List Nat} (h : Part n held) {i : Nat} (hi : i < n) :
    ∀ j ∈ hold held i, j < n := fun j hj => by
  rcases mem_hold.1 hj with rfl | hj
  · exact hi
  · exact h.lt j hj

theorem Holds.fresh (r : Record) (nowUs : Int) :
    Holds r ⟨List.replicate r.count none, r.bytes.length, nowUs, 0⟩ [] := by
  refine ⟨?_, rfl, rfl⟩
  simp [List.map_const']

theorem Holds.put {r : Record} {p : Pending} {held : List Nat} (h : Holds r p held) {i : Nat}
    (hi : i < r.count) : Holds r (p.put i (chunk MAX_CHUNK_BYTES r.bytes i)) (hold held i) := by
  have hget : p.chunks[i]? =
      some (if i ∈ held then some (chunk MAX_CHUNK_BYTES r.bytes i) else none) := by
    rw [h.chunks, List.getElem?_map, List.getElem?_range hi, Option.map_some]
  unfold Pending.put hold
  by_cases hm : i ∈ held
  · rw [hget, if_pos hm, if_pos hm]
    exact h
  · rw [hget, if_neg hm, if_neg hm]
    refine ⟨?_, h.total, by simp [h.received]⟩
    apply List.ext_getElem?
    intro j
    simp only [h.chunks, List.getElem?_set, List.getElem?_map, List.length_map, List.length_range]
    by_cases hj : i = j
    · subst hj
      simp [hi]
    · have hji : j ≠ i := fun e => hj e.symm
      rw [if_neg hj]
      by_cases hr : j < r.count
      · simp [List.getElem?_range hr, hji]
      · have hnone : (List.range r.count)[j]? = none := List.getElem?_eq_none (by simp; omega)
        simp [hnone]

/-- All the fragments held: the chunks joined are the record. -/
theorem Holds.join {r : Record} {p : Pending} {held : List Nat} (h : Holds r p held)
    (hall : ∀ j, j < r.count → j ∈ held) : join p.chunks = r.bytes := by
  have hmap : p.chunks = (List.range r.count).map (fun j => some (chunk MAX_CHUNK_BYTES r.bytes j)) := by
    rw [h.chunks]
    apply List.map_congr_left
    intro j hj
    rw [if_pos (hall j (List.mem_range.1 hj))]
  unfold Link.join
  rw [hmap, List.filterMap_map]
  have : (List.range r.count).filterMap (id ∘ fun j => some (chunk MAX_CHUNK_BYTES r.bytes j)) =
      (List.range r.count).map (chunk MAX_CHUNK_BYTES r.bytes) := by
    simp
  rw [this]
  exact flatten_fragments r.bytes

/-- As many distinct fragments as there are: all of them. -/
theorem mem_of_full {n : Nat} {l : List Nat} (hn : l.Nodup) (hlt : ∀ j ∈ l, j < n)
    (hlen : l.length = n) : ∀ j, j < n → j ∈ l := fun j hj => by
  have hsub : l ⊆ List.range n := fun x hx => List.mem_range.2 (hlt x hx)
  have hperm := (List.subperm_of_subset hn hsub).perm_of_length_le (by simp [hlen])
  exact hperm.mem_iff.2 (List.mem_range.2 hj)

/-! ## The table -/

/-- Fragments held of each record. -/
abbrev Table := Record → List Nat

/-- The dictionary `d` has an entry exactly for each record of which something is held. -/
structure Tab (recs : List Record) (d : ODict Key Pending) (held : Table) : Prop where
  part : ∀ r ∈ recs, Part r.count (held r)
  entry : ∀ k p, d.get? k = some p → ∃ r ∈ recs, r.key = k ∧ held r ≠ [] ∧ Holds r p (held r)
  absent : ∀ r ∈ recs, d.get? r.key = none → held r = []

/-- Fragment `i` of `r` arrives. -/
def deliver (held : Table) (r : Record) (i : Nat) : Table := fun r' =>
  if r' = r then (if (hold (held r) i).length = r.count then [] else hold (held r) i) else held r'

theorem Tab.empty {recs : List Record} (hf : Family recs) : Tab recs ODict.empty (fun _ => []) where
  part r hr := Part.nil (hf.count_pos hr)
  entry k p h := by simp at h
  absent _ _ _ := rfl

theorem Tab.part_deliver {recs : List Record} {d : ODict Key Pending} {held : Table}
    (hf : Family recs) (h : Tab recs d held) {r : Record} (hr : r ∈ recs) {i : Nat}
    (hi : i < r.count) : ∀ r' ∈ recs, Part r'.count (deliver held r i r') := fun r' hr' => by
  unfold deliver
  by_cases he : r' = r
  · subst he
    rw [if_pos rfl]
    by_cases hc : (hold (held r') i).length = r'.count
    · rw [if_pos hc]; exact Part.nil (hf.count_pos hr')
    · rw [if_neg hc]
      have hp := h.part r' hr'
      have hlen := length_hold_le (held r') i
      exact ⟨nodup_hold hp.nodup, hp.hold_lt hi, by have := hp.length; omega⟩
  · rw [if_neg he]; exact h.part r' hr'

theorem hold_ne_nil (held : List Nat) (i : Nat) : hold held i ≠ [] := fun h => by
  have hi : i ∈ hold held i := mem_hold.2 (.inl rfl)
  rw [h] at hi
  cases hi

/-- **What one stored chunk does**: the table takes the fragment, and the record is returned when
it was the last one missing. -/
theorem store_spec {recs : List Record} {d : ODict Key Pending} {held : Table} (hf : Family recs)
    (h : Tab recs d held) {r : Record} (hr : r ∈ recs) {i : Nat} (hi : i < r.count) {p : Pending}
    (hp : Holds r p (held r)) (nowUs : Int) :
    Tab recs (store d p (r.frame i) nowUs).1 (deliver held r i) ∧
      (store d p (r.frame i) nowUs).2 = if (hold (held r) i).length = r.count then
        some (complete (r.frame i) r.bytes nowUs) else none := by
  have hput := hp.put hi
  have hpart := h.part r hr
  have hle := length_hold_le (held r) i
  have hlen := hpart.length
  have hkey : ∀ r' ∈ recs, r'.key = r.key → r' = r := fun r' hr' hk => hf.key_inj hr' hr hk
  have hstore : store d p (r.frame i) nowUs = if (p.put i (chunk MAX_CHUNK_BYTES r.bytes i)).received
      < r.count then (d.set r.key (p.put i (chunk MAX_CHUNK_BYTES r.bytes i)), none)
      else (d.erase r.key, some (complete (r.frame i)
        (join (p.put i (chunk MAX_CHUNK_BYTES r.bytes i)).chunks) nowUs)) := rfl
  rw [hstore, hput.received]
  by_cases hc : (hold (held r) i).length = r.count
  · rw [if_neg (by omega), if_pos hc]
    have hall := mem_of_full (nodup_hold hpart.nodup) (hpart.hold_lt hi) hc
    refine ⟨⟨h.part_deliver hf hr hi, ?_, ?_⟩, by rw [hput.join hall]⟩
    · intro k q hq
      simp only [ODict.get?_erase] at hq
      split at hq
      · cases hq
      · rename_i hk
        obtain ⟨r', hr', rfl, hne, hh⟩ := h.entry k q hq
        have : r' ≠ r := fun e => hk (by rw [e])
        exact ⟨r', hr', rfl, by simpa [deliver, this] using hne, by simpa [deliver, this] using hh⟩
    · intro r' hr' hn
      simp only [ODict.get?_erase] at hn
      by_cases he : r' = r
      · simp [deliver, he, hc]
      · have : r'.key ≠ r.key := fun e => he (hkey r' hr' e)
        simp only [deliver, he, if_false]
        exact h.absent r' hr' (by simpa [this] using hn)
  · rw [if_pos (by omega), if_neg hc]
    refine ⟨⟨h.part_deliver hf hr hi, ?_, ?_⟩, rfl⟩
    · intro k q hq
      simp only [ODict.get?_set] at hq
      split at hq
      · rename_i hk
        cases hq
        refine ⟨r, hr, hk.symm, ?_, ?_⟩
        · simp [deliver, hc, hold_ne_nil]
        · simpa [deliver, hc] using hput
      · rename_i hk
        obtain ⟨r', hr', rfl, hne, hh⟩ := h.entry k q hq
        have : r' ≠ r := fun e => hk (by rw [e])
        exact ⟨r', hr', rfl, by simpa [deliver, this] using hne, by simpa [deliver, this] using hh⟩
    · intro r' hr' hn
      simp only [ODict.get?_set] at hn
      split at hn
      · cases hn
      · rename_i hk
        have : r' ≠ r := fun e => hk (by rw [e])
        simp only [deliver, this, if_false]
        exact h.absent r' hr' hn

/-- The oldest entry is forgotten. -/
theorem Tab.drop_one {recs : List Record} {d : ODict Key Pending} {held : Table} (hf : Family recs)
    (h : Tab recs d held) : ∃ held', Tab recs (d.drop 1) held' := by
  cases he : d.entries with
  | nil =>
    refine ⟨held, ?_⟩
    have : d.drop 1 = d := by
      cases d; simp only [ODict.drop, ODict.mk.injEq]; simp_all
    rw [this]; exact h
  | cons e l =>
    refine ⟨fun r => if r.key = e.1 then [] else held r, ?_, ?_, ?_⟩
    · intro r hr
      split
      · exact Part.nil (hf.count_pos hr)
      · exact h.part r hr
    · intro k p hp
      rw [ODict.get?_drop_one he] at hp
      split at hp
      · cases hp
      · rename_i hk
        obtain ⟨r, hr, rfl, hne, hh⟩ := h.entry k p hp
        exact ⟨r, hr, rfl, by simpa [hk] using hne, by simpa [hk] using hh⟩
    · intro r hr hn
      rw [ODict.get?_drop_one he] at hn
      split
      · rfl
      · rename_i hk
        rw [if_neg hk] at hn
        exact h.absent r hr hn

theorem Tab.drop {recs : List Record} {d : ODict Key Pending} {held : Table} (hf : Family recs)
    (h : Tab recs d held) (n : Nat) : ∃ held', Tab recs (d.drop n) held' := by
  induction n with
  | zero => exact ⟨held, h⟩
  | succ n ih =>
    obtain ⟨held', h'⟩ := ih
    obtain ⟨held'', h''⟩ := h'.drop_one hf
    refine ⟨held'', ?_⟩
    have : d.drop (n + 1) = (d.drop n).drop 1 := by
      simp only [ODict.drop, List.drop_drop]
    rw [this]; exact h''

/-! ## One frame -/

/-- With room for it, a frame is added as the table says. -/
theorem add_spec {recs : List Record} {s : Reassembler} {held : Table} (hf : Family recs)
    (h : Tab recs s.pending held) {r : Record} (hr : r ∈ recs) {i : Nat} (hi : i < r.count)
    (hroom : r.count ≠ 1 → s.pending.get? r.key = none → s.pending.length < s.maxPending)
    (nowUs : Int) :
    ∃ d, Tab recs d (deliver held r i) ∧ s.add (r.frame i) nowUs = some ⟨{ s with pending := d }, [],
      if (hold (held r) i).length = r.count then some (complete (r.frame i) r.bytes nowUs)
      else none⟩ := by
  have hcount : (r.frame i).fragCount = r.count := rfl
  have hfkey : (r.frame i).key = r.key := rfl
  unfold Reassembler.add
  rw [hcount, hfkey]
  by_cases h1 : r.count = 1
  · -- a single fragment never enters the table
    have hnil : held r = [] := List.length_eq_zero_iff.1 (by have := (h.part r hr).length; omega)
    have hi0 : i = 0 := by omega
    have hbytes : chunk MAX_CHUNK_BYTES r.bytes 0 = r.bytes := by
      have hfl := flatten_fragments r.bytes
      have hc1 : fragments r.bytes.length = 1 := h1
      rw [hc1] at hfl
      simpa using hfl
    refine ⟨s.pending, ?_, ?_⟩
    · have hsame : deliver held r i = held := by
        funext r'
        unfold deliver
        split
        · rename_i e; subst e; simp [hnil, hold, h1]
        · rfl
      rw [hsame]; exact h
    · rw [if_pos h1, hnil, if_pos (by simp [hold, h1])]
      have : (r.frame i).chunk = r.bytes := by rw [hi0]; exact hbytes
      rw [this]
  · rw [if_neg h1]
    cases hg : s.pending.get? r.key with
    | none =>
      have hnil := h.absent r hr hg
      have hev : s.evict = some (s.pending, []) := by
        unfold Reassembler.evict
        rw [if_neg (by have := hroom h1 hg; omega)]
      simp only [hev]
      have hfresh : Holds r ⟨List.replicate r.count none, (r.frame i).totalLength, nowUs, 0⟩
          (held r) := by rw [hnil]; exact Holds.fresh r nowUs
      obtain ⟨h', hc⟩ := store_spec hf h hr hi hfresh nowUs
      exact ⟨_, h', by rw [← hc]⟩
    | some p =>
      obtain ⟨r', hr', hk, hne, hh⟩ := h.entry r.key p hg
      obtain rfl := hf.key_inj hr' hr hk
      have hgeo : ¬ (p.chunks.length ≠ r'.count ∨ p.total ≠ (r'.frame i).totalLength) := by
        rw [hh.chunks, hh.total]
        simp [Record.frame]
      simp only
      rw [if_neg hgeo]
      obtain ⟨h', hc⟩ := store_spec hf h hr hi hh nowUs
      exact ⟨_, h', by rw [← hc]⟩

/-- In any state, also with no room, a frame completes nothing but its own record. -/
theorem add_sound {recs : List Record} {s : Reassembler} {held : Table} (hf : Family recs)
    (h : Tab recs s.pending held) {r : Record} (hr : r ∈ recs) {i : Nat} (hi : i < r.count)
    {nowUs : Int} {a : Added} (ha : s.add (r.frame i) nowUs = some a) :
    (∃ held', Tab recs a.reassembler.pending held') ∧
      ∀ x, a.complete = some x → x = complete (r.frame i) r.bytes nowUs := by
  have hval : ∀ {x : Complete} {b : Prop} [Decidable b],
      (if b then some (complete (r.frame i) r.bytes nowUs) else none) = some x →
        x = complete (r.frame i) r.bytes nowUs := by
    intro x b _ hx
    split at hx
    · cases hx; rfl
    · cases hx
  by_cases hroom : r.count ≠ 1 → s.pending.get? r.key = none → s.pending.length < s.maxPending
  · obtain ⟨d, hd, he⟩ := add_spec hf h hr hi hroom nowUs
    rw [he, Option.some.injEq] at ha
    subst ha
    exact ⟨⟨_, hd⟩, fun x hx => hval hx⟩
  · -- the table is full: the oldest entry goes, then the fresh entry is stored
    simp only [not_forall, Nat.not_lt] at hroom
    obtain ⟨h1, hg, hfull⟩ := hroom
    have hcount : (r.frame i).fragCount = r.count := rfl
    have hfkey : (r.frame i).key = r.key := rfl
    unfold Reassembler.add at ha
    rw [hcount, hfkey, if_neg h1, hg] at ha
    simp only [Reassembler.evict, if_pos hfull] at ha
    cases he : s.pending.entries with
    | nil => simp [ODict.popFirst, he] at ha
    | cons e l =>
      simp only [ODict.popFirst, he, Option.some.injEq] at ha
      subst ha
      obtain ⟨held', h'⟩ := h.drop_one hf
      have hgone : (s.pending.drop 1).get? r.key = none := by
        rw [ODict.get?_drop_one he, hg]; split <;> rfl
      have hfresh : Holds r ⟨List.replicate r.count none, (r.frame i).totalLength, nowUs, 0⟩
          (held' r) := by rw [h'.absent r hr hgone]; exact Holds.fresh r nowUs
      obtain ⟨h'', hc⟩ := store_spec hf h' hr hi hfresh nowUs
      exact ⟨⟨_, h''⟩, fun x hx => hval (hc ▸ hx)⟩

/-- The frames of an encodable record: as many as its fragments, each within a datagram and
decoded to the fields of its fragment. -/
theorem frames_spec (hmac : Hmac) (c : LinkCodec) {r : Record} (hr : r.Encodable) :
    c.encode hmac r.type r.sensorId r.bootId r.sequence r.bytes = .ok (r.frames hmac c) ∧
      (r.frames hmac c).length = r.count ∧
      ∀ i (hi : i < (r.frames hmac c).length), (r.frames hmac c)[i].length ≤ MAX_DATAGRAM_BYTES ∧
        c.decode hmac (r.frames hmac c)[i] = .ok (r.frame i) := by
  obtain ⟨sid, boot, hsid, hlen, hboot, hbootId, henc⟩ := encode_ok hmac c hr
  have hframes : r.frames hmac c = (List.range (fragments r.bytes.length)).map
      (frameBytes hmac c r.type sid boot r.sequence r.bytes) := by rw [Record.frames, henc]
  have hr' : Link.Encodable r.type r.sensorId (uuidStr boot) r.sequence r.bytes := hbootId ▸ hr
  refine ⟨by rw [henc, hframes], by rw [hframes]; simp [Record.count], fun i hi => ?_⟩
  have hi' : i < fragments r.bytes.length := by rw [hframes] at hi; simpa using hi
  have hget : (r.frames hmac c)[i] = frameBytes hmac c r.type sid boot r.sequence r.bytes i := by
    simp [hframes]
  rw [hget]
  refine ⟨frame_le_datagram hmac c _ hboot (hlen ▸ hr.sensorId.le) _ hi', ?_⟩
  rw [decode_frame hmac c hr' hsid hboot hi', ← hbootId]
  rfl

/-- The datagram of a delivery reaches `add` as the fields of its fragment. -/
theorem datagram_deliver (hmac : Hmac) (c : LinkCodec) {r : Record} (hr : r.Encodable) {i : Nat}
    (hi : i < r.count) (s : Receiving) (nowUs : Int) :
    s.datagram hmac c ((r.frames hmac c).getD i []) nowUs =
      (s.reassembler.add (r.frame i) nowUs).map
        (fun a => ⟨a.reassembler, s.completes ++ a.complete.toList, s.expired ++ a.expired⟩) := by
  obtain ⟨_, hlen, hall⟩ := frames_spec hmac c hr
  have hi' : i < (r.frames hmac c).length := hlen ▸ hi
  have hget : (r.frames hmac c).getD i [] = (r.frames hmac c)[i] := by
    rw [List.getD_eq_getElem?_getD, List.getElem?_eq_getElem hi', Option.getD_some]
  unfold Receiving.datagram
  rw [hget, (hall i hi').2]
  cases h : s.reassembler.add (r.frame i) nowUs <;> simp [h]

/-! ## Runs -/

/-- Whatever was lost, evicted or timed out, only records of the family have been returned. -/
structure Sound (recs : List Record) (s : Receiving) : Prop where
  table : ∃ held, Tab recs s.reassembler.pending held
  completes : ∀ x ∈ s.completes, ∃ r ∈ recs, x.key = r.key ∧ x.record = r.bytes

theorem Sound.step {hmac : Hmac} {c : LinkCodec} {recs : List Record} (hf : Family recs)
    {s t : Receiving} (h : Sound recs s) {a : Step} (ha : Sent recs [a])
    (hs : s.step hmac c a = some t) : Sound recs t := by
  obtain ⟨held, ht⟩ := h.table
  cases a with
  | deliver r i now =>
    obtain ⟨hr, hi⟩ := ha r i now (List.mem_singleton_self _)
    simp only [Receiving.step, datagram_deliver hmac c (hf.encodable r hr) hi,
      Option.map_eq_some_iff] at hs
    obtain ⟨b, hb, rfl⟩ := hs
    obtain ⟨htab, hcomp⟩ := add_sound hf ht hr hi hb
    refine ⟨htab, fun x hx => ?_⟩
    rcases List.mem_append.1 hx with hx | hx
    · exact h.completes x hx
    · rw [Option.mem_toList] at hx
      rw [hcomp x hx]
      exact ⟨r, hr, rfl, rfl⟩
  | expire now =>
    simp only [Receiving.step, Option.some.injEq] at hs
    subst hs
    exact ⟨ht.drop hf _, h.completes⟩

theorem Sound.run {hmac : Hmac} {c : LinkCodec} {recs : List Record} (hf : Family recs)
    {steps : List Step} {s t : Receiving} (h : Sound recs s) (hsent : Sent recs steps)
    (hs : s.run hmac c steps = some t) : Sound recs t := by
  induction steps generalizing s with
  | nil =>
    simp only [Receiving.run, List.foldlM_nil, Option.pure_def, Option.some.injEq] at hs
    exact hs ▸ h
  | cons a steps ih =>
    simp only [Receiving.run, List.foldlM_cons, Option.bind_eq_bind, Option.bind_eq_some_iff] at hs
    obtain ⟨u, hu, hs⟩ := hs
    have ha : Sent recs [a] := fun r i now hm =>
      hsent r i now (by rw [List.mem_singleton] at hm; simp [hm])
    exact ih (h.step hf ha hu) (fun r i now hm => hsent r i now (List.mem_cons_of_mem _ hm)) hs

/-- The reassembler has followed the table exactly. -/
structure Exact (recs : List Record) (steps : List Step) (s : Receiving) : Prop where
  table : Tab recs s.reassembler.pending (heldAfter steps)
  expired : s.expired = []
  completes : ∀ r ∈ recs, (s.completes.filter (fun x => x.key = r.key)).length =
    (collected r.count (arrived r steps)).2

theorem arrived_append_deliver (r r' : Record) (i : Nat) (now : Int) (steps : List Step) :
    arrived r' (steps ++ [.deliver r i now]) =
      arrived r' steps ++ if r = r' then [i] else [] := by
  unfold arrived
  rw [List.filterMap_append]
  by_cases h : r = r' <;> simp [h]

theorem arrived_append_expire (r : Record) (now : Int) (steps : List Step) :
    arrived r (steps ++ [.expire now]) = arrived r steps := by
  unfold arrived
  rw [List.filterMap_append]
  simp

/-- Collecting the arrivals is delivering to the table. -/
theorem heldAfter_deliver (steps : List Step) (r : Record) (i : Nat) (now : Int) :
    heldAfter (steps ++ [.deliver r i now]) = deliver (heldAfter steps) r i := by
  funext r'
  unfold heldAfter deliver
  rw [arrived_append_deliver]
  by_cases h : r = r'
  · subst h
    rw [if_pos rfl, if_pos rfl, collected_append, collect]
    split <;> rfl
  · have h' : r' ≠ r := fun e => h e.symm
    rw [if_neg h, if_neg h', List.append_nil]

/-- A record with nothing in the dictionary is not among those that are counted there. -/
theorem Tab.length_lt {recs : List Record} {d : ODict Key Pending} {held : Table}
    (h : Tab recs d held) (held' : Table) (hmono : ∀ r ∈ recs, held r ≠ [] → held' r ≠ []) {r : Record}
    (hr : r ∈ recs) (hn : d.get? r.key = none) (hne : held' r ≠ []) :
    d.length < (recs.filter (fun r => held' r ≠ [])).length := by
  have hnodup : (r.key :: d.keys).Nodup := List.nodup_cons.2 ⟨ODict.get?_eq_none.1 hn, d.nodup⟩
  have hsub : r.key :: d.keys ⊆ (recs.filter (fun r => held' r ≠ [])).map Record.key := by
    intro k hk
    rcases List.mem_cons.1 hk with rfl | hk
    · exact List.mem_map_of_mem (List.mem_filter.2 ⟨hr, decide_eq_true hne⟩)
    · obtain ⟨p, hp⟩ := Option.isSome_iff_exists.1 (ODict.get?_isSome.2 hk)
      obtain ⟨r', hr', rfl, hne', _⟩ := h.entry k p hp
      exact List.mem_map_of_mem (List.mem_filter.2 ⟨hr', decide_eq_true (hmono r' hr' hne')⟩)
  have hle := (List.subperm_of_subset hnodup hsub).length_le
  rw [List.length_cons, List.length_map] at hle
  have hkeys : d.keys.length = d.length := List.length_map ..
  omega

/-- What one step preserves. -/
theorem Exact.step (hmac : Hmac) (c : LinkCodec) {recs : List Record} (hf : Family recs)
    {steps : List Step} {s : Receiving} (h : Exact recs steps s) {a : Step} (ha : Sent recs [a])
    (hb : (recs.filter (fun r => Incomplete (steps ++ [a]) r)).length ≤ s.reassembler.maxPending)
    (he : ∀ now, a = .expire now → (s.reassembler.expire now).1 = []) :
    ∃ t, s.step hmac c a = some t ∧ Exact recs (steps ++ [a]) t ∧
      t.reassembler.maxPending = s.reassembler.maxPending := by
  cases a with
  | deliver r i now =>
    obtain ⟨hr, hi⟩ := ha r i now (List.mem_singleton_self _)
    have hheld := heldAfter_deliver steps r i now
    have hpart := h.table.part r hr
    have hcpos := hf.count_pos hr
    -- a record with nothing held that gets a fragment but is not complete becomes incomplete
    have hroom : r.count ≠ 1 → s.reassembler.pending.get? r.key = none →
        s.reassembler.pending.length < s.reassembler.maxPending := by
      intro h1 hn
      have hnil := h.table.absent r hr hn
      have hlen1 : (hold (heldAfter steps r) i).length = 1 := by rw [hnil]; rfl
      have hlt := h.table.length_lt (heldAfter (steps ++ [.deliver r i now])) ?_ hr hn ?_
      · exact Nat.lt_of_lt_of_le hlt hb
      · intro r' _ hne
        rw [hheld]
        by_cases e : r' = r
        · exact absurd (e ▸ hnil) hne
        · simpa [deliver, e] using hne
      · rw [hheld]
        unfold deliver
        rw [if_pos rfl, if_neg (by omega)]
        exact hold_ne_nil _ _
    obtain ⟨d, hd, hadd⟩ := add_spec hf h.table hr hi hroom now
    have hstep : s.step hmac c (.deliver r i now) = some ⟨{ s.reassembler with pending := d },
        s.completes ++ (if (hold (heldAfter steps r) i).length = r.count then
          some (complete (r.frame i) r.bytes now) else none).toList, s.expired ++ []⟩ := by
      rw [Receiving.step, datagram_deliver hmac c (hf.encodable r hr) hi, hadd]
      rfl
    refine ⟨_, hstep, ⟨by rw [hheld]; exact hd, by simp [h.expired], ?_⟩, rfl⟩
    intro r' hr'
    have hprev := h.completes r' hr'
    rw [arrived_append_deliver, List.filter_append, List.length_append, hprev]
    by_cases e : r = r'
    · subst e
      rw [if_pos rfl, collected_append, collect]
      have hh : (collected r.count (arrived r steps)).1 = heldAfter steps r := rfl
      rw [hh]
      by_cases hc : (hold (heldAfter steps r) i).length = r.count
      · have hk : (complete (r.frame i) r.bytes now).key = r.key := rfl
        simp [hc, hk]
      · simp [hc]
    · rw [if_neg e, List.append_nil]
      have hk : (complete (r.frame i) r.bytes now).key = r.key := rfl
      have hne : r.key ≠ r'.key := fun hk => e (hf.key_inj hr hr' hk)
      by_cases hc : (hold (heldAfter steps r) i).length = r.count
      · simp [hc, hk, hne]
      · simp [hc]
  | expire now =>
    have hnone := he now rfl
    have hsame : (s.reassembler.expire now).2 = s.reassembler := by
      unfold Reassembler.expire at hnone ⊢
      simp only [List.map_eq_nil_iff] at hnone
      simp only [hnone, List.length_nil, ODict.drop_zero]
    have hheld : heldAfter (steps ++ [.expire now]) = heldAfter steps := by
      funext r
      rw [heldAfter, arrived_append_expire, heldAfter]
    refine ⟨_, rfl, ⟨by rw [hsame, hheld]; exact h.table, by simp [h.expired, hnone], ?_⟩,
      by rw [hsame]⟩
    intro r hr
    rw [arrived_append_expire]
    exact h.completes r hr

/-- What a whole run preserves. -/
theorem Exact.run (hmac : Hmac) (c : LinkCodec) {recs : List Record} (hf : Family recs)
    {s : Receiving} (h : Exact recs [] s) {steps : List Step} (hsent : Sent recs steps)
    (hb : Bounded recs s.reassembler.maxPending steps) (he : NoExpiry hmac c s steps) :
    ∃ t, s.run hmac c steps = some t ∧ Exact recs steps t ∧
      t.reassembler.maxPending = s.reassembler.maxPending := by
  induction steps using List.reverseRecOn with
  | nil => exact ⟨s, rfl, h, rfl⟩
  | append_singleton steps a ih =>
    obtain ⟨t, ht, hex, hmax⟩ := ih (fun r i now hm => hsent r i now (List.mem_append_left _ hm))
      (fun p hp => hb p (hp.trans (List.prefix_append _ _)))
      (fun p now hp => he p now (hp.trans (List.prefix_append _ _)))
    have ha : Sent recs [a] := fun r i now hm => hsent r i now (List.mem_append_right _ hm)
    have hb' := hb (steps ++ [a]) (List.prefix_refl _)
    rw [← hmax] at hb'
    obtain ⟨u, hu, hex', hmax'⟩ := hex.step hmac c hf ha hb' (fun now e => by
      subst e
      exact he steps now (List.prefix_refl _) t ht)
    refine ⟨u, ?_, hex', hmax'.trans hmax⟩
    rw [Receiving.run, List.foldlM_append, ← Receiving.run, ht]
    simp [hu]

/-! ## Transport -/

/-- A reassembler as constructed. -/
def Receiving.init (maxPending : Nat) (timeoutUs : Int) : Receiving :=
  ⟨⟨maxPending, timeoutUs, ODict.empty⟩, [], []⟩

/-- **The link is exact under any delivery order.**  Every frame of an encodable record fits a
datagram and is decoded to its fields.  Whatever frames of a family of records with distinct keys
arrive, in any order, lost or repeated, and whatever is evicted or times out, each record returned
is one of the family; and when no more records are incomplete at a time than the reassembler
holds and none times out, `add` raises nothing, nothing expires, and a record whose frames all
arrive once is returned exactly once. -/
theorem link_transport_exact (hmac : Hmac) (c : LinkCodec) (recs : List Record)
    (hrecs : Family recs) :
    (∀ r ∈ recs,
      c.encode hmac r.type r.sensorId r.bootId r.sequence r.bytes = .ok (r.frames hmac c) ∧
      (r.frames hmac c).length = r.count ∧
      ∀ i (hi : i < (r.frames hmac c).length), (r.frames hmac c)[i].length ≤ MAX_DATAGRAM_BYTES ∧
        c.decode hmac (r.frames hmac c)[i] = .ok (r.frame i)) ∧
    ∀ maxPending timeoutUs steps, Sent recs steps →
      (∀ s, (Receiving.init maxPending timeoutUs).run hmac c steps = some s →
        ∀ x ∈ s.completes, ∃ r ∈ recs, x.key = r.key ∧ x.record = r.bytes) ∧
      (Bounded recs maxPending steps →
        NoExpiry hmac c (Receiving.init maxPending timeoutUs) steps →
        ∃ s, (Receiving.init maxPending timeoutUs).run hmac c steps = some s ∧ s.expired = [] ∧
          ∀ r ∈ recs, (arrived r steps).Perm (List.range r.count) →
            ∃ x, s.completes.filter (fun x => x.key = r.key) = [x]) := by
  refine ⟨fun r hr => frames_spec hmac c (hrecs.encodable r hr),
    fun maxPending timeoutUs steps hsent => ⟨fun s hs => ?_, fun hb he => ?_⟩⟩
  · have h0 : Sound recs (Receiving.init maxPending timeoutUs) :=
      ⟨⟨_, Tab.empty hrecs⟩, fun x hx => by cases hx⟩
    exact (h0.run hrecs hsent hs).completes
  · have h0 : Exact recs [] (Receiving.init maxPending timeoutUs) :=
      ⟨Tab.empty hrecs, rfl, fun r _ => rfl⟩
    obtain ⟨s, hs, hex, _⟩ := h0.run hmac c hrecs hsent hb he
    refine ⟨s, hs, hex.expired, fun r hr hperm => List.length_eq_one_iff.1 ?_⟩
    rw [hex.completes r hr, collected_once (hperm.nodup_iff.2 List.nodup_range)
      (by rw [hperm.length_eq, List.length_range]) (hrecs.count_pos hr)]

/-- A record of two fragments, the second delivered first, through a reassembler of one entry. -/
theorem link_transport_exact_two :
    let r : Record := ⟨TYPE_EVENT, "s1", uuidStr (List.replicate 16 0), 7, List.replicate 1201 65⟩
    let hmac : Hmac := fun _ _ => Vector.replicate 32 0
    let c : LinkCodec := ⟨List.replicate 16 0, by decide⟩
    ∃ s, (Receiving.init 1 2000000).run hmac c [.deliver r 1 0, .deliver r 0 5] = some s ∧
      s.expired = [] ∧ ∃ x, s.completes.filter (fun x => x.key = r.key) = [x] := by
  intro r hmac c
  have hlen : r.bytes.length = 1201 := List.length_replicate
  have hfam : Family [r] := by
    refine ⟨fun r' hr' => ?_, by simp⟩
    rw [List.mem_singleton] at hr'
    subst hr'
    exact ⟨.inl rfl, .of_all (by decide) (by decide) (by decide), ⟨_, by decide, rfl⟩, by decide,
      by rw [hlen]; decide, by rw [hlen]; decide⟩
  have hcount : r.count = 2 := by rw [Record.count, hlen]; rfl
  have hsent : Sent [r] [.deliver r 1 0, .deliver r 0 5] := by
    intro r' i now hm
    simp only [List.mem_cons, Step.deliver.injEq, List.not_mem_nil, or_false] at hm
    rcases hm with ⟨rfl, rfl, _⟩ | ⟨rfl, rfl, _⟩
    · exact ⟨List.mem_singleton_self _, by omega⟩
    · exact ⟨List.mem_singleton_self _, by omega⟩
  obtain ⟨s, hs, hex, hone⟩ := ((link_transport_exact hmac c [r] hfam).2 1 2000000 _ hsent).2
    (fun p _ => List.length_filter_le _ _)
    (fun p now hp => by
      have : Step.expire now ∈ [Step.deliver r 1 0, .deliver r 0 5] :=
        hp.subset (List.mem_append_right _ (List.mem_singleton_self _))
      simp at this)
  have hperm : (arrived r [.deliver r 1 0, .deliver r 0 5]).Perm (List.range r.count) := by
    rw [hcount]
    simp only [arrived, List.filterMap_cons, List.filterMap_nil, if_true]
    decide
  exact ⟨s, hs, hex, hone r (List.mem_singleton_self _) hperm⟩

end OTS.Link
