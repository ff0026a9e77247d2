import OTSecurity.Link.Parsing
import OTSecurity.Link.Reassembly

/-!
# What is pending

Invariants of the table of incomplete records, for any property of its entries.

* `Reassembler.All` — every entry has the property.
* `Reassembler.All.add`, `Reassembler.All.expire` — one frame, and the completion timeout: what is kept, what
  is given up and what is completed has come from such entries.
* `Fits` — the chunks of an entry are those of one record.

Principal results: `decode_bounds` — what the decoder promises of a frame; `decode_reason` — the reasons it
rejects a datagram with; `Fits.join_length` — a completed record is no longer than the largest one.
-/

namespace OTS.Link

/-- Every incomplete record has the property, under its key. -/
def Reassembler.All (P : Key → Pending → Prop) (r : Reassembler) : Prop := ∀ e ∈ r.pending.entries, P e.1 e.2

namespace Reassembler.All

variable {P : Key → Pending → Prop} {r : Reassembler} {f : Frame} {nowUs : Int}

theorem empty (maxPending : Nat) (timeoutUs : Int) : Reassembler.All P ⟨maxPending, timeoutUs, .empty⟩ :=
  fun _ h => absurd h List.not_mem_nil

theorem get (hr : r.All P) {k : Key} {p : Pending} (h : r.pending.get? k = some p) : P k p :=
  hr (k, p) (ODict.mem_entries.2 h)

/-- What is stored of a frame, and what it completes. -/
theorem store {pending : ODict Key Pending} {p : Pending} (nowUs : Int) (hpending : ∀ e ∈ pending.entries, P e.1 e.2)
    (hput : P f.key (p.put f.fragIndex f.chunk)) :
    (∀ e ∈ (Link.store pending p f nowUs).1.entries, P e.1 e.2) ∧
      ∀ c, (Link.store pending p f nowUs).2 = some c → ∃ q, P f.key q ∧ c = complete f (join q.chunks) nowUs := by
  unfold Link.store
  simp only
  split
  · refine ⟨fun e he => ?_, fun c hc => absurd hc.symm (Option.some_ne_none c)⟩
    rcases ODict.mem_set he with he | rfl
    · exact hpending e he
    · exact hput
  · refine ⟨fun e he => hpending e (List.mem_of_mem_filter he), fun c hc => ⟨_, hput, ?_⟩⟩
    exact (Option.some.inj hc).symm

/-- What is given up under the key of an entry. -/
def GivenUp (P : Key → Pending → Prop) (reasons : List String) (x : Expired) : Prop :=
  ∃ reason ∈ reasons, ∃ k p, P k p ∧ x = expired reason k

/-- What a frame completes: itself, or an entry under its key. -/
def Completed (P : Key → Pending → Prop) (f : Frame) (nowUs : Int) (c : Complete) : Prop :=
  c = complete f f.chunk nowUs ∨ ∃ p, P f.key p ∧ c = complete f (join p.chunks) nowUs

/-- **One frame.** -/
theorem add (hr : r.All P) (hfresh : P f.key (Pending.put ⟨List.replicate f.fragCount none, f.totalLength,
      nowUs, 0⟩ f.fragIndex f.chunk))
    (hput : ∀ p, P f.key p → P f.key (p.put f.fragIndex f.chunk)) {a : Added} (ha : r.add f nowUs = some a) :
    a.reassembler.All P ∧ (∀ x ∈ a.expired, GivenUp P ["fragment_overflow", "frame_malformed"] x) ∧
      ∀ c, a.complete = some c → Completed P f nowUs c := by
  have hnone : ∀ x ∈ ([] : List Expired), GivenUp P ["fragment_overflow", "frame_malformed"] x :=
    fun _ h => absurd h List.not_mem_nil
  unfold Reassembler.add at ha
  split at ha
  · cases ha
    exact ⟨hr, hnone, fun c hc => .inl (Option.some.inj hc).symm⟩
  split at ha
  · split at ha
    · cases ha
    rename_i pending ex hevict
    cases ha
    suffices h : (∀ e ∈ pending.entries, P e.1 e.2) ∧
        ∀ x ∈ ex, GivenUp P ["fragment_overflow", "frame_malformed"] x by
      obtain ⟨hstored, hdone⟩ := store nowUs h.1 hfresh
      exact ⟨hstored, h.2, fun c hc => .inr (hdone c hc)⟩
    unfold Reassembler.evict at hevict
    split at hevict
    · split at hevict
      · cases hevict
      · rename_i k p rest hpop
        cases hevict
        unfold ODict.popFirst at hpop
        split at hpop
        · cases hpop
        · rename_i e es hentries
          cases hpop
          refine ⟨fun e' he' => hr e' (List.mem_of_mem_drop he'), fun x hx => ?_⟩
          rw [List.mem_singleton.1 hx]
          exact ⟨_, List.mem_cons_self, k, p, hr (k, p) (hentries ▸ List.mem_cons_self), rfl⟩
    · cases hevict
      exact ⟨hr, hnone⟩
  · rename_i p hp
    have hold := get hr hp
    split at ha
    · cases ha
      refine ⟨fun e he => hr e (List.mem_of_mem_filter he), fun x hx => ?_,
        fun c hc => absurd hc.symm (Option.some_ne_none c)⟩
      rw [List.mem_singleton.1 hx]
      exact ⟨_, List.mem_cons_of_mem _ List.mem_cons_self, f.key, p, hold, rfl⟩
    · cases ha
      obtain ⟨hstored, hdone⟩ := store nowUs hr (hput p hold)
      exact ⟨hstored, hnone, fun c hc => .inr (hdone c hc)⟩

/-- **The completion timeout.** -/
theorem expire (hr : r.All P) (nowUs : Int) :
    (r.expire nowUs).2.All P ∧ ∀ x ∈ (r.expire nowUs).1, GivenUp P ["fragment_timeout"] x := by
  refine ⟨fun e he => hr e (List.mem_of_mem_drop he), fun x hx => ?_⟩
  obtain ⟨e, he, rfl⟩ := List.mem_map.1 hx
  exact ⟨_, List.mem_cons_self, e.1, e.2, hr e ((List.takeWhile_sublist _).subset he), rfl⟩

end Reassembler.All

/-! ## The chunks of a record -/

/-- The chunks are no more and no longer than those of one record. -/
structure Fits (p : Pending) : Prop where
  count : p.chunks.length ≤ MAX_FRAGMENTS
  chunk : ∀ d, some d ∈ p.chunks → d.length ≤ MAX_CHUNK_BYTES

theorem Fits.fresh {n total : Nat} (hn : n ≤ MAX_FRAGMENTS) (nowUs : Int) :
    Fits ⟨List.replicate n none, total, nowUs, 0⟩ :=
  ⟨Nat.le_trans (Nat.le_of_eq List.length_replicate) hn,
    fun d hd => absurd (List.eq_of_mem_replicate hd) (Option.some_ne_none d)⟩

theorem Fits.put {p : Pending} (h : Fits p) {idx : Nat} {data : Bytes} (hdata : data.length ≤ MAX_CHUNK_BYTES) :
    Fits (p.put idx data) := by
  unfold Pending.put
  split
  · refine ⟨Nat.le_trans (Nat.le_of_eq List.length_set) h.count, fun d hd => ?_⟩
    rcases List.mem_or_eq_of_mem_set hd with hd | hd
    · exact h.chunk d hd
    · obtain rfl := Option.some.inj hd
      exact hdata
  · exact h

/-- **A completed record is no longer than the largest one.** -/
theorem Fits.join_length {p : Pending} (h : Fits p) : (join p.chunks).length ≤ MAX_RECORD_BYTES := by
  have hsum : ∀ chunks : List (Option Bytes), (∀ d, some d ∈ chunks → d.length ≤ MAX_CHUNK_BYTES) →
      (join chunks).length ≤ chunks.length * MAX_CHUNK_BYTES := by
    intro chunks
    induction chunks with
    | nil => exact fun _ => Nat.zero_le _
    | cons x chunks ih =>
      intro hchunks
      have hrest := ih fun d hd => hchunks d (List.mem_cons_of_mem _ hd)
      cases x with
      | none =>
        have hjoin : join (none :: chunks) = join chunks := rfl
        rw [hjoin, List.length_cons, Nat.succ_mul]
        exact Nat.le_add_right_of_le hrest
      | some d =>
        have hd := hchunks d List.mem_cons_self
        have hjoin : join (some d :: chunks) = d ++ join chunks := rfl
        rw [hjoin, List.length_append, List.length_cons, Nat.succ_mul]
        omega
  calc (join p.chunks).length ≤ p.chunks.length * MAX_CHUNK_BYTES := hsum _ h.chunk
    _ ≤ MAX_FRAGMENTS * MAX_CHUNK_BYTES := Nat.mul_le_mul_right _ h.count
    _ = MAX_RECORD_BYTES := rfl

/-! ## What the decoder promises -/

/-- The reasons that the decoder rejects a datagram with. -/
theorem decode_reason {hmac : Hmac} {c : LinkCodec} {data : Bytes} {e : FrameError}
    (h : c.decode hmac data = .error e) : e.reason ∈ ["frame_malformed", "frame_hmac_invalid"] := by
  unfold LinkCodec.decode at h
  simp only at h
  split_ifs at h
  all_goals
    cases h
    simp

/-- What the decoder promises of the identity of a frame. -/
structure Key.Legit (k : Key) : Prop where
  sensorId : SensorIdOk k.2.1
  bootId : IsUuid k.2.2.1
  sequence : k.2.2.2 < 2 ^ 64

/-- **What the decoder promises of a frame.** -/
theorem decode_bounds {hmac : Hmac} {c : LinkCodec} {data : Bytes} {f : Frame}
    (h : c.decode hmac data = .ok f) :
    f.key.Legit ∧ f.fragCount ≤ MAX_FRAGMENTS ∧ f.chunk.length ≤ MAX_CHUNK_BYTES := by
  obtain ⟨sid, boot, hframe⟩ := decode_ok h
  have hcanonical := hframe.1
  refine ⟨⟨hcanonical.sensorId, ⟨boot, hcanonical.bootLength, hcanonical.bootId⟩, hcanonical.sequence⟩, ?_, ?_⟩
  · rw [hcanonical.count]
    exact (fragments_bounds hcanonical.total_pos hcanonical.total_le).2
  · rw [hcanonical.chunk]
    exact expectedLength_le (hcanonical.count ▸ hcanonical.index)

end OTS.Link
