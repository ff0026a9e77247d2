import OTSecurity.Api.Live
import OTSecurity.Lib.GapFree

/-!
# No gap without a resync event

What a client receives that is never told to resynchronise.

* `Gapless` — every update published after the first subscription, up to any received one, has been
  received.
* `Careful` — a request without an event id only as long as nothing has been fanned out since the first
  subscription; of a queue that has overflowed nothing is received behind the update removed.
* `Log` — published updates, ring and callbacks; `Serves` — what a connection still delivers.

Principal results: `live_gapless` — careful runs are gapless; `slow_client_gap` — a slow client
receives an update behind the one its queue has dropped, and reconnects without being told.
-/

namespace OTS.Api

open LiveSys

/-! ## The property -/

def Event.item? : Event → Option Item
  | .alert item => some item
  | .resync => none

/-- **No gap**: every update published after the first subscription, up to a received one, has been
received; and received is what was published and had not been fanned out at that time. -/
def Gapless (s : LiveSys) : Prop :=
  ∀ start, s.start = some start →
    (∀ x ∈ s.published, start.published < x.1 → ∀ y ∈ s.received, x.1 ≤ y.1 → x ∈ s.received) ∧
    ∀ x ∈ s.received, x ∈ s.published ∧ start.fanned < x.1

instance (s : LiveSys) : Decidable (Gapless s) :=
  decidable_of_iff (∀ start ∈ s.start,
    (∀ x ∈ s.published, start.published < x.1 → ∀ y ∈ s.received, x.1 ≤ y.1 → x ∈ s.received) ∧
    ∀ x ∈ s.received, x ∈ s.published ∧ start.fanned < x.1) Iff.rfl

/-- Nothing has been fanned out since the first subscription. -/
def Unheard (s : LiveSys) : Prop := ∀ start ∈ s.start, s.fanned ≤ start.published

/-- The next event on the wire is not behind an update that was removed from the queue and that the
client should have. -/
def Ordered (s : LiveSys) : Prop :=
  ∀ start ∈ s.start, ∀ st ∈ s.stream, ∀ d ∈ st.dropped, ∀ y ∈ st.wire.head?.bind Event.item?,
    d.1 ≤ start.published ∨ d ∈ s.received ∨ y.1 ≤ d.1

def Careful (s : LiveSys) : LiveOp → Prop
  | .request => s.received = [] → Unheard s
  | .receive => Ordered s
  | _ => True

instance (s : LiveSys) (op : LiveOp) : Decidable (Careful s op) :=
  match op with
  | .request => inferInstanceAs (Decidable (s.received = [] → ∀ start ∈ s.start, _))
  | .receive => inferInstanceAs (Decidable (∀ start ∈ s.start, ∀ st ∈ s.stream, ∀ d ∈ st.dropped,
      ∀ y ∈ st.wire.head?.bind Event.item?, _ ∨ _ ∨ _))
  | .publish _ _ => isTrue trivial
  | .schedule => isTrue trivial
  | .fanout => isTrue trivial
  | .subscribe => isTrue trivial
  | .send => isTrue trivial
  | .disconnect => isTrue trivial

/-! ## Published updates -/

/-- `done` are the updates fanned out, of those published; the ring holds the last ones. -/
structure Log (s : LiveSys) (done : List Item) : Prop where
  ids : s.published.map (·.1) = List.range' 1 s.published.length
  seq : s.hub.seq = s.published.length
  ring : s.hub.ring = s.published.drop (s.published.length - s.hub.ringSize)
  split : s.published = done ++ s.waiting

variable {s s' : LiveSys} {done : List Item} {x y : Item}

theorem Log.sorted (h : Log s done) : s.published.Pairwise (fun a b => a.1 < b.1) := by
  have hids : (List.range' 1 s.published.length).Pairwise (· < ·) := List.pairwise_lt_range'
  rw [← h.ids] at hids
  exact List.pairwise_map.1 hids

theorem Log.le_length (h : Log s done) (hx : x ∈ s.published) : x.1 ≤ s.published.length := by
  have hmem : x.1 ∈ List.range' 1 s.published.length := h.ids ▸ List.mem_map_of_mem hx
  have := List.mem_range'_1.1 hmem
  omega

/-- The numbers of the updates fanned out, and of those waiting. -/
theorem Log.numbers (h : Log s done) :
    (∀ x ∈ done, x.1 ≤ done.length) ∧ ∀ x ∈ s.waiting, done.length < x.1 := by
  have hids := h.ids
  rw [h.split, List.map_append, List.length_append, ← List.range'_append_1] at hids
  obtain ⟨hdone, hwaiting⟩ := List.append_inj hids (by simp)
  constructor
  · intro x hx
    have := List.mem_range'_1.1 (hdone ▸ List.mem_map_of_mem hx)
    omega
  · intro x hx
    have := List.mem_range'_1.1 (hwaiting ▸ List.mem_map_of_mem hx)
    omega

theorem Log.fanned (h : Log s done) : s.fanned = done.length := by
  unfold LiveSys.fanned
  rw [h.seq, h.split, List.length_append]
  omega

theorem Log.unique (h : Log s done) (hx : x ∈ s.published) (hy : y ∈ s.published)
    (hxy : x.1 = y.1) : x = y := by
  have hids : (s.published.map (·.1)).Nodup := h.ids ▸ List.nodup_range'
  exact List.inj_on_of_nodup_map hids hx hy hxy

theorem log_init (nonce : String) (ringSize clientQueue : Nat) :
    Log (.init nonce ringSize clientQueue) [] :=
  ⟨rfl, rfl, List.drop_nil.symm, rfl⟩

/-- The item that `publish` adds. -/
theorem Log.publish (h : Log s done) (hidle : s.unscheduled = none) (raw : PyStr) :
    Log { s with
      hub := (s.hub.push raw).1
      unscheduled := some (s.hub.push raw).2
      published := s.published ++ [(s.hub.push raw).2] } done := by
  have hitem : (s.hub.push raw).2.1 = s.published.length + 1 := by
    show s.hub.seq + 1 = _
    rw [h.seq]
  refine ⟨?_, ?_, ?_, ?_⟩
  · rw [List.map_append, h.ids, List.length_append, List.map_singleton, hitem, List.length_singleton,
      List.range'_concat, Nat.one_mul, Nat.add_comm 1]
  · show s.hub.seq + 1 = _
    rw [h.seq, List.length_append, List.length_singleton]
  · show ((s.hub.ring ++ [_]).drop ((s.hub.ring ++ [_]).length - s.hub.ringSize)) = _
    rw [h.ring, ← List.drop_append_of_le_length (Nat.sub_le _ _), List.drop_drop]
    congr 1
    simp only [List.length_drop, List.length_append, List.length_singleton, LiveHub.push]
    omega
  · show s.published ++ [_] = done ++ (s.scheduled ++ [_])
    rw [h.split, ← List.append_assoc]
    simp [LiveSys.waiting, hidle]

theorem Log.schedule (h : Log s done) {item : Item} (hitem : s.unscheduled = some item) :
    Log { s with unscheduled := none, scheduled := s.scheduled ++ [item] } done := by
  refine ⟨h.ids, h.seq, h.ring, ?_⟩
  rw [h.split]
  simp [LiveSys.waiting, hitem]

/-- The next callback runs. -/
theorem Log.fanout (h : Log s done) {item : Item} {scheduled : List Item}
    (hitem : s.scheduled = item :: scheduled) (stream : Option Stream) :
    Log { s with scheduled, stream } (done ++ [item]) := by
  refine ⟨h.ids, h.seq, h.ring, ?_⟩
  rw [h.split]
  simp [LiveSys.waiting, hitem]

/-! ## What a connection delivers -/

/-- The updates that the client of a connection receives if nothing more happens, next first. -/
def Stream.line (st : Stream) : List Item :=
  st.wire.filterMap Event.item? ++ (st.backlog ++ st.queue.filterMap id)

/-- The updates that a client with this first subscription should have. -/
def Due (published : List Item) (start : Start) (x : Item) : Prop :=
  x ∈ published ∧ start.published < x.1

/-- The line has no gap, if what was removed from the queue counts as received; and as long as the
connection is subscribed, it brings everything fanned out. -/
structure Serves (published done received : List Item) (start : Start) (st : Stream) : Prop where
  free : GapFree Prod.fst (Due published start) {x | x ∈ received ∨ st.dropped = some x} st.line
  frontier : st.subscribed = true →
    st.dropped = none ∧ ∀ x ∈ done, start.published < x.1 → x ∈ received ∨ x ∈ st.line
  known : ∀ x ∈ st.line, x ∈ published ∧ start.fanned < x.1

variable {published received : List Item} {start : Start} {st st' : Stream}

/-- A step that leaves line, subscription and removals alone. -/
theorem Serves.congr (h : Serves published done received start st) (hline : st'.line = st.line)
    (hdropped : st'.dropped = st.dropped) (hsub : st'.subscribed = st.subscribed) :
    Serves published done received start st' := by
  refine ⟨?_, ?_, ?_⟩
  · rw [hline, hdropped]
    exact h.free
  · rw [hline, hdropped, hsub]
    exact h.frontier
  · rw [hline]
    exact h.known

/-- A new update is behind everything on the line. -/
theorem Serves.publish (h : Serves published done received start st) {item : Item}
    (hnew : ∀ x ∈ published, x.1 < item.1) :
    Serves (published ++ [item]) done received start st := by
  refine ⟨h.free.mono fun y hy x hx hlt => ⟨?_, hx.2⟩, h.frontier, fun x hx => ?_⟩
  · rcases List.mem_append.1 hx.1 with hmem | hmem
    · exact hmem
    · obtain rfl := List.mem_singleton.1 hmem
      exact absurd hlt (lt_asymm (hnew y (h.known y hy).1))
  · exact ⟨List.mem_append_left _ (h.known x hx).1, (h.known x hx).2⟩

/-- The update is appended, or the first one is removed to make room for the sentinel. -/
theorem offer_cases (maxsize : ℕ) (q : Queue) (item : Item) :
    offer maxsize q item = (q ++ [some item], true) ∨
      ∃ head tail, q = head :: tail ∧ (offer maxsize q item).2 = false ∧
        (offer maxsize q item).1.filterMap id = tail.filterMap id := by
  unfold offer putNowait
  by_cases hfull : 0 < maxsize ∧ maxsize ≤ q.length
  · rw [if_pos hfull]
    cases q with
    | nil => exact absurd hfull.2 (Nat.not_le.2 hfull.1)
    | cons head tail =>
      refine .inr ⟨head, tail, rfl, rfl, ?_⟩
      dsimp only
      split
      · rfl
      · simp
  · rw [if_neg hfull]
    exact .inl rfl

/-- **A callback runs**: the update enters the line, or the queue overflows and its first update is
taken off. -/
theorem Serves.fanout (h : Serves published done received start st) {item : Item} (maxsize : ℕ)
    (hitem : item ∈ published) (hfirst : start.fanned < item.1)
    (hdone : ∀ x ∈ published, x.1 < item.1 → x ∈ done) :
    Serves published (done ++ [item]) received start (st.fanout maxsize item) := by
  by_cases hsub : st.subscribed = true
  swap
  · have hsame : st.fanout maxsize item = st := if_neg hsub
    rw [hsame]
    exact ⟨h.free, fun hs => absurd hs hsub, h.known⟩
  obtain ⟨hnone, hall⟩ := h.frontier hsub
  have hfree := h.free
  have hfan : st.fanout maxsize item = { st with
      queue := (offer maxsize st.queue item).1
      subscribed := (offer maxsize st.queue item).2
      dropped := if (offer maxsize st.queue item).2 then none else st.queue.head?.join } := if_pos hsub
  rcases offer_cases maxsize st.queue item with hput | ⟨head, tail, hq, hoff, hrest⟩
  · rw [hfan, hput]
    have hline : Stream.line { st with
        queue := st.queue ++ [some item], subscribed := true, dropped := none } = st.line ++ [item] := by
      simp [Stream.line]
    refine ⟨?_, fun _ => ⟨rfl, fun x hx hlt => ?_⟩, fun x hx => ?_⟩
    · show GapFree _ _ _ (Stream.line { st with
        queue := st.queue ++ [some item], subscribed := true, dropped := none })
      rw [hline, gapFree_concat]
      rw [hnone] at hfree
      refine ⟨hfree, fun x hx hlt => ?_⟩
      exact (hall x (hdone x hx.1 hlt) hx.2).imp_left .inl
    · show _ ∨ x ∈ Stream.line { st with
        queue := st.queue ++ [some item], subscribed := true, dropped := none }
      rw [hline]
      rcases List.mem_append.1 hx with hx | hx
      · exact (hall x hx hlt).imp_right (List.mem_append_left _)
      · exact .inr (List.mem_append_right _ hx)
    · rcases List.mem_append.1 (hline ▸ hx) with hx | hx
      · exact h.known x hx
      · obtain rfl := List.mem_singleton.1 hx
        exact ⟨hitem, hfirst⟩
  · have hhead : st.queue.head?.join = head := by
      rw [hq]
      rfl
    rw [hfan, hoff, hhead, if_neg Bool.false_ne_true]
    have hline : Stream.line { st with
        queue := (offer maxsize st.queue item).1, subscribed := false, dropped := head } =
        st.wire.filterMap Event.item? ++ (st.backlog ++ tail.filterMap id) := by
      simp only [Stream.line, hrest]
    have hold : st.line =
        st.wire.filterMap Event.item? ++ (st.backlog ++ (head :: tail).filterMap id) := by
      simp only [Stream.line, hq]
    rw [hnone, hold] at hfree
    have hknown := hold ▸ h.known
    refine ⟨?_, fun hs => absurd hs Bool.false_ne_true, ?_⟩
    · rw [hline]
      cases head with
      | none => exact hfree
      | some d =>
        -- the update removed from the line counts as received
        have hmoved : st.wire.filterMap Event.item? ++ (st.backlog ++ (some d :: tail).filterMap id) =
            (st.wire.filterMap Event.item? ++ st.backlog) ++ d :: tail.filterMap id := by
          simp
        rw [hmoved] at hfree
        rw [← List.append_assoc]
        refine hfree.remove.received ?_
        rintro x (rfl | hx | hx)
        · exact .inr rfl
        · exact .inl hx
        · cases hx
    · rw [hline]
      intro x hx
      refine hknown x ?_
      cases head with
      | none => exact hx
      | some d =>
        simp only [List.mem_append, List.filterMap_cons, id_eq, List.mem_cons] at hx ⊢
        exact hx.imp_right fun hx => hx.imp_right .inr

/-- What is received next has no gap before it, unless it is behind an update that was removed. -/
theorem Serves.receive (h : Serves published done received start st) {item : Item}
    {wire : List Event} (hwire : st.wire = .alert item :: wire)
    (hclosed : Closed Prod.fst (Due published start) {x | x ∈ received})
    (hordered : ∀ d, st.dropped = some d → d.1 ≤ start.published ∨ d ∈ received ∨ item.1 ≤ d.1) :
    Closed Prod.fst (Due published start) {x | x ∈ received ++ [item]} ∧
      Serves published done (received ++ [item]) start { st with wire } := by
  have hline : st.line = item :: Stream.line { st with wire } := by
    simp [Stream.line, hwire, Event.item?]
  obtain ⟨hnext, hrest⟩ := hline ▸ h.free
  have hbefore : ∀ x, Due published start x → x.1 < item.1 → x ∈ received := by
    intro x hx hlt
    rcases hnext x hx hlt with hmem | hd
    · exact hmem
    · rcases hordered x hd with hle | hmem | hle
      · exact absurd hx.2 (not_lt.2 hle)
      · exact hmem
      · exact absurd hlt (not_lt.2 hle)
  have hmore : ∀ x, x ∈ received ∨ x ∈ st.line →
      x ∈ received ++ [item] ∨ x ∈ Stream.line { st with wire } := by
    rintro x (hx | hx)
    · exact .inl (List.mem_append_left _ hx)
    · rcases List.mem_cons.1 (hline ▸ hx) with rfl | hx
      · exact .inl (List.mem_append_right _ (List.mem_singleton_self _))
      · exact .inr hx
  refine ⟨?_, ?_, ?_, ?_⟩
  · intro y hy x hx hlt
    refine List.mem_append_left _ ?_
    rcases List.mem_append.1 hy with hy | hy
    · exact hclosed y hy x hx hlt
    · obtain rfl := List.mem_singleton.1 hy
      exact hbefore x hx hlt
  · refine hrest.received ?_
    rintro x (rfl | hx | hx)
    · exact .inl (List.mem_append_right _ (List.mem_singleton_self _))
    · exact .inl (List.mem_append_left _ hx)
    · exact .inr hx
  · intro hsub
    obtain ⟨hnone, hall⟩ := h.frontier hsub
    exact ⟨hnone, fun x hx hlt => hmore x (hall x hx hlt)⟩
  · intro x hx
    exact h.known x (hline ▸ List.mem_cons_of_mem _ hx)

/-! ## A request -/

/-- **What a request is answered with**: without an id nothing, and with the id of a received update
everything behind it, as long as the ring has the next. -/
theorem Log.backlog (h : Log s done) (hring : 0 < s.hub.ringSize) {item : Item}
    (hitem : item ∈ s.published) {backlog : List Item}
    (hb : s.hub.backlogAfter (some (.id s.hub.nonce item.1)) = (backlog, false)) :
    backlog.Pairwise (fun a b => a.1 < b.1) ∧
      ∀ x, x ∈ backlog ↔ x ∈ s.published ∧ item.1 < x.1 := by
  have hsorted : s.hub.ring.Pairwise (fun a b => a.1 < b.1) :=
    h.ring ▸ h.sorted.sublist (List.drop_sublist _ _)
  simp only [LiveHub.backlogAfter] at hb
  split at hb
  · cases hb
  rename_i hhead
  obtain rfl := (Prod.mk.inj hb).1
  refine ⟨hsorted.filter _, fun x => ?_⟩
  rw [List.mem_filter, decide_eq_true_eq, Int.ofNat_lt]
  refine and_congr_left fun hlt => ⟨fun hx => ?_, fun hx => ?_⟩
  · exact List.mem_of_mem_drop (h.ring ▸ hx)
  · have hsplit := List.take_append_drop (s.published.length - s.hub.ringSize) s.published
    rw [← h.ring] at hsplit
    have hlt' := h.sorted
    rw [← hsplit, List.pairwise_append] at hlt'
    cases hr : s.hub.ring with
    | nil =>
      have hlen := congrArg List.length h.ring
      rw [hr, List.length_drop, List.length_nil] at hlen
      have hpos : 0 < s.published.length := List.length_pos_of_mem hitem
      omega
    | cons first rest =>
      rw [hr] at hsplit hlt' hhead
      rcases List.mem_append.1 (hsplit ▸ hx) with htake | hmem
      · have hle : ¬ ((item.1 : Int) < first.1 - 1) := fun hlt =>
          hhead (.inr (by simpa using hlt))
        have := hlt'.2.2 x htake first List.mem_cons_self
        omega
      · exact hmem

/-! ## The invariant -/

/-- The connection of the client, or the one that its request is about to open. -/
def Serving (s : LiveSys) (st : Stream) : Prop :=
  s.stream = some st ∨ ∃ c ∈ s.connecting, st = .opened c.1 c.2

/-- A connection that has still to send the resync event it begins with, or one that serves. -/
def Delivers (s : LiveSys) (done : List Item) (start : Start) (st : Stream) : Prop :=
  st.resync = true ∧ st.wire = [] ∨
    st.resync = false ∧ (∀ e ∈ st.wire, e ≠ .resync) ∧
      Serves s.published done s.received start st

structure After (s : LiveSys) (done : List Item) (start : Start) : Prop where
  closed : Closed Prod.fst (Due s.published start) {x | x ∈ s.received}
  known : ∀ x ∈ s.received, x ∈ s.published ∧ start.fanned < x.1
  fanned : start.fanned ≤ done.length
  serving : ∀ st, Serving s st → Delivers s done start st

structure Before (s : LiveSys) : Prop where
  received : s.received = []
  stream : s.stream = none
  connecting : ∀ c ∈ s.connecting, c = ([], false)

/-- What holds as long as no resync event has been sent. -/
structure Quiet (s : LiveSys) (done : List Item) : Prop where
  before : s.start = none → Before s
  after : ∀ start, s.start = some start → After s done start

theorem After.publish {start : Start} (h : After s done start) {item : Item}
    (hnew : ∀ x ∈ s.published, x.1 < item.1) {hub : LiveHub} {unscheduled : Option Item} :
    After { s with hub, unscheduled, published := s.published ++ [item] } done start := by
  refine ⟨h.closed.mono fun y hy x hx hlt => ⟨?_, hx.2⟩, fun x hx => ?_, h.fanned, fun st hst => ?_⟩
  · rcases List.mem_append.1 hx.1 with hmem | hmem
    · exact hmem
    · obtain rfl := List.mem_singleton.1 hmem
      exact absurd hlt (lt_asymm (hnew y (h.known y hy).1))
  · exact ⟨List.mem_append_left _ (h.known x hx).1, (h.known x hx).2⟩
  · exact (h.serving st hst).imp_right fun ⟨hr, hw, hs⟩ => ⟨hr, hw, hs.publish hnew⟩

theorem fanout_kept (st : Stream) (maxsize : ℕ) (item : Item) :
    (st.fanout maxsize item).resync = st.resync ∧ (st.fanout maxsize item).wire = st.wire := by
  unfold Stream.fanout
  split
  · exact ⟨rfl, rfl⟩
  · exact ⟨rfl, rfl⟩

theorem After.fanout {start : Start} (h : After s done start) (hlog : Log s done) {item : Item}
    {scheduled : List Item} (hidle : s.connecting = none) (hitem : s.scheduled = item :: scheduled) :
    After { s with scheduled, stream := s.stream.map (·.fanout s.hub.clientQueue item) }
      (done ++ [item]) start := by
  have hnext := hlog.fanout hitem (s.stream.map (·.fanout s.hub.clientQueue item))
  have hmem : item ∈ s.published := by
    rw [show s.published = _ from hnext.split]
    exact List.mem_append_left _ (List.mem_append_right _ (List.mem_singleton_self _))
  have hlow : done.length < item.1 := by
    refine hlog.numbers.2 item ?_
    unfold LiveSys.waiting
    rw [hitem]
    exact List.mem_cons_self
  have hhigh : item.1 ≤ (done ++ [item]).length :=
    hnext.numbers.1 item (List.mem_append_right _ (List.mem_singleton_self _))
  have hdone : ∀ x ∈ s.published, x.1 < item.1 → x ∈ done := by
    intro x hx hlt
    rw [show s.published = _ from hnext.split] at hx
    rcases List.mem_append.1 hx with hx | hx
    · rcases List.mem_append.1 hx with hx | hx
      · exact hx
      · obtain rfl := List.mem_singleton.1 hx
        exact absurd hlt (lt_irrefl _)
    · exact absurd (hnext.numbers.2 x hx) (not_lt.2 (hlt.le.trans hhigh))
  refine ⟨h.closed, h.known, ?_, ?_⟩
  · rw [List.length_append]
    exact h.fanned.trans (Nat.le_add_right _ _)
  · rintro st' (hst | ⟨c, hc, -⟩)
    · obtain ⟨st, hst', rfl⟩ := Option.map_eq_some_iff.1 hst
      obtain ⟨hresync, hwire⟩ := fanout_kept st s.hub.clientQueue item
      unfold Delivers
      rw [hresync, hwire]
      refine (h.serving st (.inl hst')).imp_right fun ⟨hr, hw, hs⟩ => ⟨hr, hw, ?_⟩
      exact hs.fanout s.hub.clientQueue hmem (h.fanned.trans_lt hlow) hdone
    · exact absurd (hidle ▸ hc) (Option.not_mem_none c)

/-- A connection that has just been answered with a backlog. -/
theorem opened_line (backlog : List Item) : (Stream.opened backlog false).line = backlog := by
  simp [Stream.line, Stream.opened]

theorem After.answer {start : Start} (h : After s done start) (hlog : Log s done)
    (hring : 0 < s.hub.ringSize) (hcareful : s.received = [] → s.fanned ≤ start.published)
    {backlog : List Item} (hb : s.hub.backlogAfter s.lastEventId = (backlog, false)) :
    Serves s.published done s.received start (.opened backlog false) := by
  unfold LiveSys.lastEventId at hb
  cases hlast : s.received.getLast? with
  | none =>
    rw [hlast] at hb
    obtain rfl := (Prod.mk.inj hb).1
    refine ⟨opened_line [] ▸ gapFree_nil, fun _ => ⟨rfl, fun x hx hlt => ?_⟩, ?_⟩
    · have hle := hcareful (List.getLast?_eq_none_iff.1 hlast)
      rw [hlog.fanned] at hle
      exact absurd (hlog.numbers.1 x hx) (not_le.2 (hle.trans_lt hlt))
    · rw [opened_line]
      rintro x ⟨⟩
  | some item =>
    rw [hlast] at hb
    have hitem := List.mem_of_getLast? hlast
    obtain ⟨hmem, hfirst⟩ := h.known item hitem
    obtain ⟨hsorted, hiff⟩ := hlog.backlog hring hmem hb
    have hall : ∀ x ∈ s.published, start.published < x.1 → x ∈ s.received ∨ x ∈ backlog := by
      intro x hx hlt
      rcases lt_trichotomy x.1 item.1 with hbefore | hsame | hbehind
      · exact .inl (h.closed item hitem x ⟨hx, hlt⟩ hbefore)
      · exact .inl (hlog.unique hx hmem hsame ▸ hitem)
      · exact .inr ((hiff x).2 ⟨hx, hbehind⟩)
    refine ⟨?_, fun _ => ⟨rfl, fun x hx hlt => ?_⟩, fun x hx => ?_⟩
    · rw [opened_line]
      exact gapFree_of_sorted hsorted fun y _ x hx _ => (hall x hx.1 hx.2).imp_left .inl
    · rw [opened_line]
      exact hall x (hlog.split ▸ List.mem_append_left _ hx) hlt
    · rw [opened_line] at hx
      obtain ⟨hx, hlt⟩ := (hiff x).1 hx
      exact ⟨hx, hfirst.trans hlt⟩

theorem After.request {start : Start} (h : After s done start) (hlog : Log s done)
    (hring : 0 < s.hub.ringSize) (hidle : s.stream = none)
    (hcareful : s.received = [] → s.fanned ≤ start.published) :
    After { s with connecting := some (s.hub.backlogAfter s.lastEventId) } done start := by
  refine ⟨h.closed, h.known, h.fanned, ?_⟩
  rintro st (hst | ⟨c, hc, rfl⟩)
  · rw [show s.stream = _ from hst] at hidle
    cases hidle
  obtain rfl := Option.mem_some.1 hc
  cases hanswer : s.hub.backlogAfter s.lastEventId with
  | mk backlog resync =>
    cases resync with
    | true => exact .inl ⟨rfl, rfl⟩
    | false => exact .inr ⟨rfl, by rintro e ⟨⟩, h.answer hlog hring hcareful hanswer⟩

theorem After.subscribe {start : Start} (h : After s done start) {c : List Item × Bool}
    (hc : s.connecting = some c) {start' : Option Start} :
    After { s with connecting := none, stream := some (.opened c.1 c.2), start := start' } done
      start := by
  refine ⟨h.closed, h.known, h.fanned, ?_⟩
  rintro st (hst | ⟨c', hc', -⟩)
  · obtain rfl := Option.some.inj hst
    exact h.serving _ (.inr ⟨c, hc, rfl⟩)
  · cases hc'

/-- **The first subscription.** -/
theorem Before.subscribe (h : Before s) (hlog : Log s done) {c : List Item × Bool}
    (hc : s.connecting = some c) {start' : Option Start} :
    After { s with connecting := none, stream := some (.opened c.1 c.2), start := start' } done
      ⟨s.hub.seq, s.fanned⟩ := by
  obtain rfl := h.connecting c hc
  have hnone : ∀ x ∈ s.published, ¬ s.hub.seq < x.1 := fun x hx =>
    not_lt.2 (hlog.seq ▸ hlog.le_length hx)
  refine ⟨?_, ?_, hlog.fanned.le, ?_⟩
  · intro y hy
    change y ∈ s.received at hy
    rw [h.received] at hy
    cases hy
  · intro x hx
    rw [show s.received = _ from h.received] at hx
    cases hx
  · rintro st (hst | ⟨c', hc', -⟩)
    · obtain rfl := Option.some.inj hst
      refine .inr ⟨rfl, by rintro e ⟨⟩, opened_line [] ▸ gapFree_nil, fun _ => ⟨rfl, ?_⟩, ?_⟩
      · exact fun x hx hlt => absurd hlt (hnone x (hlog.split ▸ List.mem_append_left _ hx))
      · rw [opened_line]
        rintro x ⟨⟩
    · cases hc'

/-- What the generator sends, unless it is a resync event, comes from the line and stays on it. -/
theorem next_alert {event : Event} (h : st.next = some (st', event)) (hevent : event ≠ .resync) :
    st.resync = false ∧ st'.resync = false ∧ st'.dropped = st.dropped ∧
      st'.subscribed = st.subscribed ∧ st'.wire = st.wire ∧
      Stream.line { st' with wire := st'.wire ++ [event] } = st.line := by
  unfold Stream.next at h
  split at h
  · cases h
  split at h
  · obtain ⟨-, rfl⟩ := Prod.mk.inj (Option.some.inj h)
    exact absurd rfl hevent
  rename_i hresync
  have hresync : st.resync = false := by simpa using hresync
  split at h
  · rename_i item backlog queue hb
    obtain ⟨rfl, rfl⟩ := Prod.mk.inj (Option.some.inj h)
    refine ⟨hresync, hresync, rfl, rfl, rfl, ?_⟩
    simp [Stream.line, Event.item?, hb]
  · rename_i item queue hb hq
    obtain ⟨rfl, rfl⟩ := Prod.mk.inj (Option.some.inj h)
    refine ⟨hresync, hresync, rfl, rfl, rfl, ?_⟩
    simp [Stream.line, Event.item?, hb, hq]
  · obtain ⟨-, rfl⟩ := Prod.mk.inj (Option.some.inj h)
    exact absurd rfl hevent
  · cases h

theorem After.send {start : Start} (h : After s done start) (hst : s.stream = some st)
    {event : Event} (hnext : st.next = some (st', event)) (hevent : event ≠ .resync)
    {resyncSent : Bool} :
    After { s with stream := some { st' with wire := st'.wire ++ [event] }, resyncSent } done start := by
  obtain ⟨hr, hr', hdropped, hsub, hwire, hline⟩ := next_alert hnext hevent
  refine ⟨h.closed, h.known, h.fanned, ?_⟩
  rintro st'' (hst'' | hconnecting)
  · obtain rfl := Option.some.inj hst''
    rcases h.serving st (.inl hst) with ⟨hpending, -⟩ | ⟨-, hclean, hserves⟩
    · rw [hr] at hpending
      cases hpending
    refine .inr ⟨hr', ?_, hserves.congr hline hdropped hsub⟩
    intro e he
    rcases List.mem_append.1 he with he | he
    · exact hclean e (hwire ▸ he)
    · exact List.mem_singleton.1 he ▸ hevent
  · exact h.serving st'' (.inr hconnecting)

theorem After.receive {start : Start} (h : After s done start) (hst : s.stream = some st)
    (hidle : s.connecting = none) {item : Item} {wire : List Event}
    (hwire : st.wire = .alert item :: wire)
    (hordered : ∀ d, st.dropped = some d → d.1 ≤ start.published ∨ d ∈ s.received ∨ item.1 ≤ d.1) :
    After { s with stream := some { st with wire }, received := s.received ++ [item] } done start := by
  rcases h.serving st (.inl hst) with ⟨-, hempty⟩ | ⟨hr, hclean, hserves⟩
  · rw [hwire] at hempty
    cases hempty
  obtain ⟨hclosed, hserves'⟩ := hserves.receive hwire h.closed hordered
  refine ⟨hclosed, ?_, h.fanned, ?_⟩
  · intro x hx
    rcases List.mem_append.1 hx with hx | hx
    · exact h.known x hx
    · obtain rfl := List.mem_singleton.1 hx
      refine hserves.known x ?_
      simp [Stream.line, hwire, Event.item?]
  · rintro st'' (hst'' | ⟨c, hc, -⟩)
    · obtain rfl := Option.some.inj hst''
      exact .inr ⟨hr, fun e he => hclean e (hwire ▸ List.mem_cons_of_mem _ he), hserves'⟩
    · exact absurd (hidle ▸ hc) (Option.not_mem_none c)

/-! ## Runs -/

structure Inv (s : LiveSys) (done : List Item) : Prop where
  log : Log s done
  quiet : s.resyncSent = false → Quiet s done
  single : s.stream = none ∨ s.connecting = none
  ring : 0 < s.hub.ringSize

variable {recursionLimit : ℕ}

theorem inv_init (nonce : String) {ringSize : ℕ} (clientQueue : ℕ) (hring : 0 < ringSize) :
    Inv (.init nonce ringSize clientQueue) [] := by
  refine ⟨log_init nonce ringSize clientQueue, fun _ => ⟨fun _ => ⟨rfl, rfl, ?_⟩, ?_⟩, .inl rfl, hring⟩
  · rintro c ⟨⟩
  · rintro start ⟨⟩

theorem Inv.publish (h : Inv s done) {arrivalUs : ℤ} {raw : PyStr}
    (hs : s.step recursionLimit (.publish arrivalUs raw) = some s') : Inv s' done := by
  simp only [LiveSys.step] at hs
  split at hs
  · rename_i raw' hidle _
    obtain rfl := Option.some.inj hs
    have hnew : ∀ x ∈ s.published, x.1 < (s.hub.push raw').2.1 := fun x hx =>
      Nat.lt_succ_of_le (h.log.seq ▸ h.log.le_length hx)
    refine ⟨h.log.publish hidle raw', fun hq => ⟨fun hn => ?_, fun start hstart => ?_⟩, h.single, h.ring⟩
    · have hbefore := (h.quiet hq).before hn
      exact ⟨hbefore.received, hbefore.stream, hbefore.connecting⟩
    · exact ((h.quiet hq).after start hstart).publish hnew
  · obtain rfl := Option.some.inj hs
    exact h
  · cases hs

theorem Inv.schedule (h : Inv s done) (hs : s.step recursionLimit .schedule = some s') :
    Inv s' done := by
  obtain ⟨item, hitem, rfl⟩ := Option.map_eq_some_iff.1 hs
  refine ⟨h.log.schedule hitem, fun hq => ⟨fun hn => ?_, fun start hstart => ?_⟩, h.single, h.ring⟩
  · have hbefore := (h.quiet hq).before hn
    exact ⟨hbefore.received, hbefore.stream, hbefore.connecting⟩
  · have hafter := (h.quiet hq).after start hstart
    exact ⟨hafter.closed, hafter.known, hafter.fanned, hafter.serving⟩

theorem Inv.fanout (h : Inv s done) (hs : s.step recursionLimit .fanout = some s') :
    ∃ done', Inv s' done' := by
  simp only [LiveSys.step] at hs
  split at hs
  · rename_i item scheduled hidle hitem
    obtain rfl := Option.some.inj hs
    refine ⟨done ++ [item], h.log.fanout hitem _, fun hq => ⟨fun hn => ?_, fun start hstart => ?_⟩,
      .inr hidle, h.ring⟩
    · have hbefore := (h.quiet hq).before hn
      refine ⟨hbefore.received, ?_, hbefore.connecting⟩
      rw [hbefore.stream]
      rfl
    · exact ((h.quiet hq).after start hstart).fanout h.log hidle hitem
  · cases hs

theorem Inv.request (h : Inv s done) (hC : Careful s .request)
    (hs : s.step recursionLimit .request = some s') : Inv s' done := by
  simp only [LiveSys.step] at hs
  split at hs
  · rename_i hidle hnone
    obtain rfl := Option.some.inj hs
    refine ⟨⟨h.log.ids, h.log.seq, h.log.ring, h.log.split⟩,
      fun hq => ⟨fun hn => ?_, fun start hstart => ?_⟩, .inl hnone, h.ring⟩
    · have hbefore := (h.quiet hq).before hn
      refine ⟨hbefore.received, hbefore.stream, fun c hc => ?_⟩
      obtain rfl := Option.some.inj hc
      simp [LiveSys.lastEventId, hbefore.received, LiveHub.backlogAfter]
    · exact ((h.quiet hq).after start hstart).request h.log h.ring hnone
        fun hempty => hC hempty start hstart
  · cases hs

theorem Inv.subscribe (h : Inv s done) (hs : s.step recursionLimit .subscribe = some s') :
    Inv s' done := by
  obtain ⟨c, hc, rfl⟩ := Option.map_eq_some_iff.1 hs
  refine ⟨⟨h.log.ids, h.log.seq, h.log.ring, h.log.split⟩,
    fun hq => ⟨fun hn => ?_, fun start hstart => ?_⟩, .inr rfl, h.ring⟩
  · exact absurd (Option.or_eq_none_iff.1 hn).2 (Option.some_ne_none _)
  · change s.start.or (some ⟨s.hub.seq, s.fanned⟩) = some start at hstart
    cases hfirst : s.start with
    | none =>
      rw [hfirst] at hstart
      obtain rfl := Option.some.inj hstart
      exact ((h.quiet hq).before hfirst).subscribe h.log hc
    | some first =>
      rw [hfirst] at hstart
      obtain rfl := Option.some.inj hstart
      exact ((h.quiet hq).after first hfirst).subscribe hc

theorem Inv.send (h : Inv s done) (hs : s.step recursionLimit .send = some s') : Inv s' done := by
  simp only [LiveSys.step] at hs
  split at hs
  · rename_i st hidle hst
    obtain ⟨⟨st', event⟩, hnext, rfl⟩ := Option.map_eq_some_iff.1 hs
    refine ⟨⟨h.log.ids, h.log.seq, h.log.ring, h.log.split⟩,
      fun hq => ⟨fun hn => ?_, fun start hstart => ?_⟩, .inr hidle, h.ring⟩
    · obtain ⟨hq, -⟩ := Bool.or_eq_false_iff.1 hq
      rw [((h.quiet hq).before hn).stream] at hst
      cases hst
    · obtain ⟨hq, hevent⟩ := Bool.or_eq_false_iff.1 hq
      refine ((h.quiet hq).after start hstart).send hst hnext ?_
      rintro rfl
      cases hevent
  · cases hs

theorem Inv.receive (h : Inv s done) (hC : Careful s .receive)
    (hs : s.step recursionLimit .receive = some s') : Inv s' done := by
  simp only [LiveSys.step] at hs
  split at hs
  · rename_i st hst
    have hidle : s.connecting = none :=
      h.single.resolve_left (by rw [hst]; exact Option.some_ne_none _)
    have hstarted : s.resyncSent = false → s.start ≠ none := by
      intro hq hn
      rw [((h.quiet hq).before hn).stream] at hst
      cases hst
    split at hs
    · rename_i item wire hwire
      obtain rfl := Option.some.inj hs
      refine ⟨⟨h.log.ids, h.log.seq, h.log.ring, h.log.split⟩,
        fun hq => ⟨fun hn => absurd hn (hstarted hq), fun start hstart => ?_⟩, .inr hidle, h.ring⟩
      refine ((h.quiet hq).after start hstart).receive hst hidle hwire fun d hd => ?_
      exact hC start hstart st hst d hd item (by rw [hwire]; rfl)
    · rename_i wire hwire
      obtain rfl := Option.some.inj hs
      refine ⟨⟨h.log.ids, h.log.seq, h.log.ring, h.log.split⟩,
        fun hq => ⟨fun hn => absurd hn (hstarted hq), fun start hstart => ?_⟩, .inr hidle, h.ring⟩
      -- no resync event is on the wire
      rcases ((h.quiet hq).after start hstart).serving st (.inl hst) with ⟨-, hempty⟩ | ⟨-, hclean, -⟩
      · rw [hwire] at hempty
        cases hempty
      · exact absurd rfl (hclean .resync (hwire ▸ List.mem_cons_self))
    · cases hs
  · cases hs

theorem Inv.disconnect (h : Inv s done) (hs : s.step recursionLimit .disconnect = some s') :
    Inv s' done := by
  obtain ⟨st, hst, rfl⟩ := Option.map_eq_some_iff.1 hs
  refine ⟨⟨h.log.ids, h.log.seq, h.log.ring, h.log.split⟩,
    fun hq => ⟨fun hn => ?_, fun start hstart => ?_⟩, .inl rfl, h.ring⟩
  · have hbefore := (h.quiet hq).before hn
    exact ⟨hbefore.received, rfl, hbefore.connecting⟩
  · have hafter := (h.quiet hq).after start hstart
    refine ⟨hafter.closed, hafter.known, hafter.fanned, ?_⟩
    rintro st' (hst' | hconnecting)
    · cases hst'
    · exact hafter.serving st' (.inr hconnecting)

/-- **One step of a careful run.** -/
theorem Inv.step (h : Inv s done) {op : LiveOp} (hC : Careful s op)
    (hs : s.step recursionLimit op = some s') : ∃ done', Inv s' done' := by
  cases op with
  | publish arrivalUs raw => exact ⟨done, h.publish hs⟩
  | schedule => exact ⟨done, h.schedule hs⟩
  | fanout => exact h.fanout hs
  | request => exact ⟨done, h.request hC hs⟩
  | subscribe => exact ⟨done, h.subscribe hs⟩
  | send => exact ⟨done, h.send hs⟩
  | receive => exact ⟨done, h.receive hC hs⟩
  | disconnect => exact ⟨done, h.disconnect hs⟩

/-- **A client that is never told to resynchronise misses nothing**, in every careful run of a hub
with a ring. -/
theorem live_gapless (recursionLimit : ℕ) (nonce : String) {ringSize : ℕ} (clientQueue : ℕ)
    (hring : 0 < ringSize) {s : LiveSys}
    (h : (live recursionLimit nonce ringSize clientQueue).Reach Careful s)
    (hquiet : s.resyncSent = false) : Gapless s := by
  obtain ⟨done, hI⟩ := h.invariant (I := fun s => ∃ done, Inv s done)
    ⟨[], inv_init nonce clientQueue hring⟩ fun _ _ _ ⟨_, hI⟩ hC hs => hI.step hC hs
  intro start hstart
  have hafter := (hI.quiet hquiet).after start hstart
  refine ⟨fun x hx hlt y hy hle => ?_, hafter.known⟩
  rcases hle.lt_or_eq with hbefore | hsame
  · exact hafter.closed y hy x ⟨hx, hlt⟩ hbefore
  · exact hI.log.unique hx (hafter.known y hy).1 hsame ▸ hy

/-! ### Sample runs -/

/-- A message is published and fanned out. -/
def fannedOut : List LiveOp := [.publish 1788249610000000 (pyStr "\x7b\x7d"), .schedule, .fanout]

/-- An update is received, another one while the client is away, and that one on return. -/
theorem live_gapless_sample : ∃ s : LiveSys, (live 1000 "n" 5 2).Reach Careful s ∧
    s.resyncSent = false ∧ s.received.map (·.1) = [1, 2] ∧ Gapless s := by
  have hrun : ((live 1000 "n" 5 2).runMeeting Careful (live 1000 "n" 5 2).init
      ([.request, .subscribe] ++ fannedOut ++ [.send, .receive, .disconnect] ++ fannedOut ++
        [.request, .subscribe, .send, .receive])).any
      (fun s => s.resyncSent = false ∧ s.received.map (·.1) = [1, 2]) = true := by decide +kernel
  obtain ⟨s, hs, hreceived⟩ := (Option.any_eq_true _ _).1 hrun
  obtain ⟨hquiet, hids⟩ := of_decide_eq_true hreceived
  have hreach := Machine.reach_of_run _ hs
  exact ⟨s, hreach, hquiet, hids, live_gapless 1000 "n" 2 (by decide) hreach hquiet⟩

/-- The third update overflows the queue of the client, which loses the first; the client receives the
second, disconnects before the sentinel, and goes on from there. -/
theorem slow_client_gap : ¬ ∀ (recursionLimit : ℕ) (nonce : String) (ringSize clientQueue : ℕ)
    (s : LiveSys), 0 < ringSize → (live recursionLimit nonce ringSize clientQueue).Reach
      (fun _ _ => True) s → s.resyncSent = false → Gapless s := by
  intro hclaim
  have hrun : ((live 1000 "n" 5 2).runMeeting (fun _ _ => True) (live 1000 "n" 5 2).init
      ([.request, .subscribe] ++ fannedOut ++ fannedOut ++ fannedOut ++
        [.send, .receive, .disconnect, .request, .subscribe, .send, .receive])).any
      (fun s => s.resyncSent = false ∧ ¬ Gapless s) = true := by decide +kernel
  obtain ⟨s, hs, hgap⟩ := (Option.any_eq_true _ _).1 hrun
  obtain ⟨hquiet, hgap⟩ := of_decide_eq_true hgap
  exact hgap (hclaim _ _ _ _ s (by decide) (Machine.reach_of_run _ hs) hquiet)

-- a client that has lost its first update before it had an id to send asks for nothing
example : ((live 1000 "n" 5 2).runMeeting (fun _ _ => True) (live 1000 "n" 5 2).init
    ([.request, .subscribe] ++ fannedOut ++ [.disconnect, .request, .subscribe] ++ fannedOut ++
      [.send, .receive])).any (fun s => s.resyncSent = false ∧ ¬ Gapless s) = true := by decide +kernel

end OTS.Api
