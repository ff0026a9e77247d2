import OTSecurity.Lib.DecimalRead
import OTSecurity.Sender.Replay
import OTSecurity.Sender.SendRecord

/-!
# Poison in the index of a replay

`index` of `ingest/sender/sih_sender/replay.py` with the exceptions of `emit_time_us`, which `RunDir.index`
leaves out.

* `LogLine` — a line that `index` looks at: none that is empty, no comment.
* `indexLines` — the loop over the lines; it counts the lines that are refused, and other exceptions end it.
* `reached` — the lines that the loop comes to before it has enough records.
* `Poison` — the condition on a line that ends it.

Principal result: `index_exact` — the index is lost exactly when a line that it reaches is poison, and is
`RunDir.index` otherwise, with every line it reaches an entry or counted.
-/

namespace OTS.Sender

/-! ## The loop -/

/-- A line without its end, in which file of the run, and where it starts. -/
structure LogLine where
  type : String
  file : Nat
  start : Nat
  line : Bytes

/-- What a refusal gives that is counted, and no other exception. -/
def Attempt.counted : Attempt Int → Attempt (Option Int)
  | .ok emit => .ok (some emit)
  | .error (.normalization _) => .ok none
  | .error e => .error e

namespace LogLine

variable (rt : Runtime) (l : LogLine)

/-- `line.decode("utf-8")`. -/
def text? : Option PyStr := (utf8Decode l.line).map (·.map Char.toNat)

/-- The time of emission; `none` when the line is counted as invalid. -/
def emit : Attempt (Option Int) :=
  match l.text? with
  | none => .ok none
  | some text => (emitTimeUs rt l.type text).counted

def entry (emit : Int) : Item := ⟨emit, l.file, l.start, l.line.length⟩

end LogLine

/-- The lines of a run that are neither empty nor comments. -/
def RunDir.lines (d : RunDir) : List LogLine :=
  d.logs.zipIdx.flatMap fun f => (fileLines f.1.2).filterMap fun l =>
    let line := stripCr l.2
    if line = [] ∨ line.head? = some 35 then none else some ⟨f.1.1, f.2, l.1, line⟩

/-- The loop of `index`, with the records so far and `invalid_local`. -/
def indexLines (rt : Runtime) (limit : Nat) : List LogLine → List Item → Nat → Attempt (List Item) × Nat
  | [], items, invalid => (.ok items, invalid)
  | l :: ls, items, invalid =>
    match l.emit rt with
    | .error e => (.error e, invalid)
    | .ok none => indexLines rt limit ls items (invalid + 1)
    | .ok (some emit) =>
      let items := items ++ [l.entry emit]
      if limit ≤ items.length then (.ok items, invalid) else indexLines rt limit ls items invalid

/-- `index`, or the exception that ends it, and `invalid_local` after it. -/
def RunDir.indexRaising (rt : Runtime) (limit : Nat) (d : RunDir) (invalid : Nat) : Attempt (List Item) × Nat :=
  let r := indexLines rt limit d.lines [] invalid
  (r.1.map (·.insertionSort fun a b => a.le b), r.2)

/-- The settings of a replay over this normalizer. -/
def ReplayConfig.over (rt : Runtime) (limit persistEvery : Nat) : ReplayConfig where
  maxReplayRecords := limit
  persistEvery := persistEvery
  emitTime type text := (emitTimeUs rt type (text.map Char.toNat)).toOption

/-! ## Poison -/

/-- **The condition on a line that ends the index**: a number in it is one that `Decimal` does not represent, or
the line is an object with a time, and the time does not scale to microseconds, or the line is a `conn` and its
duration is not negative and does not. -/
def Poison (rt : Runtime) (logType : String) (line : PyStr) : Prop :=
  DecJson.loads rt.recursionLimit line = .error .inexact ∨
    ∃ (n : ZeekRecord) (t : PyDecimal), DecJson.loads rt.recursionLimit line = .ok (.obj n) ∧
      num? (n.get "ts") = some t ∧ (¬ Scales t ∨
        logType = "conn" ∧ ∃ d, num? (n.get "duration") = some d ∧ 0 ≤ d.value ∧ ¬ Scales d)

def LogLine.Poison (rt : Runtime) (l : LogLine) : Prop := ∃ text, l.text? = some text ∧ Sender.Poison rt l.type text

section Lines

variable {rt : Runtime} {logType : String} {line : PyStr} {l : LogLine}

theorem parse_ok_iff {n : ZeekRecord} :
    parse rt line = .ok n ↔ DecJson.loads rt.recursionLimit line = .ok (.obj n) := by
  unfold parse
  cases DecJson.loads rt.recursionLimit line with
  | error e => cases e <;> simp
  | ok v => cases v <;> simp

/-- What the time of emission of a record raises. -/
theorem emit_refusal (n : ZeekRecord) (ts : Int) : RaisesOnly Raised.Refusal
    (match num? (n.get "duration") with
      | some d =>
        if logType = "conn" ∧ 0 ≤ d.value then (Attempt.ofOption .arithmetic (zeekTsToUs d)).map (ts + ·)
        else .ok ts
      | none => (.ok ts : Attempt Int)) ↔
      ¬ (logType = "conn" ∧ ∃ d, num? (n.get "duration") = some d ∧ 0 ≤ d.value ∧ ¬ Scales d) := by
  cases num? (n.get "duration") with
  | none =>
    refine iff_of_true (raisesOnly_ok ts) ?_
    rintro ⟨-, d, h, -⟩
    cases h
  | some d =>
    by_cases hcond : logType = "conn" ∧ 0 ≤ d.value
    · simp only [if_pos hcond, raisesOnly_map]
      rw [refusal_iff_isSome arithmetic_not_refusal, zeekTsToUs_isSome]
      constructor
      · rintro h ⟨-, d', hd, -, hlarge⟩
        exact hlarge (Option.some.inj hd ▸ h)
      · intro h
        by_contra hlarge
        exact h ⟨hcond.1, d, rfl, hcond.2, hlarge⟩
    · simp only [if_neg hcond]
      refine iff_of_true (raisesOnly_ok ts) ?_
      rintro ⟨hconn, d', hd, hnonneg, -⟩
      exact hcond ⟨hconn, Option.some.inj hd ▸ hnonneg⟩

/-- **When a line ends the index.** -/
theorem emitTimeUs_refusal : RaisesOnly Raised.Refusal (emitTimeUs rt logType line) ↔ ¬ Poison rt logType line := by
  unfold emitTimeUs
  rw [raisesOnly_bind, parse_refusal]
  constructor
  · rintro ⟨hexact, hfields⟩ (hinexact | ⟨n, t, hn, ht, hlarge⟩)
    · exact hexact hinexact
    · have hrecord := hfields n (parse_ok_iff.2 hn)
      rw [raisesOnly_bind, tsUs_refusal] at hrecord
      rcases hlarge with hlarge | hlarge
      · exact hlarge (hrecord.1 t ht)
      · obtain ⟨ts, hts⟩ := Option.isSome_iff_exists.1 ((zeekTsToUs_isSome t).2 (hrecord.1 t ht))
        have hok : tsUs n = .ok ts := by
          unfold tsUs
          simp only [ht, hts]
          rfl
        exact (emit_refusal n ts).1 (hrecord.2 ts hok) hlarge
  · intro h
    refine ⟨fun hinexact => h (.inl hinexact), fun n hn => ?_⟩
    rw [raisesOnly_bind, tsUs_refusal]
    have hobject := parse_ok_iff.1 hn
    refine ⟨fun t ht => by_contra fun hlarge => h (.inr ⟨n, t, hobject, ht, .inl hlarge⟩), fun ts hts => ?_⟩
    refine (emit_refusal n ts).2 fun hlarge => ?_
    cases ht : num? (n.get "ts") with
    | none =>
      unfold tsUs at hts
      rw [ht] at hts
      cases hts
    | some t => exact h (.inr ⟨n, t, hobject, ht, .inr hlarge⟩)

theorem counted_raises {x : Attempt Int} : (∃ e, x.counted = .error e) ↔ ¬ RaisesOnly Raised.Refusal x := by
  cases x with
  | ok emit =>
    refine iff_of_false ?_ (not_not.2 (raisesOnly_ok emit))
    rintro ⟨e, h⟩
    cases h
  | error e =>
    rw [raisesOnly_error]
    cases e with
    | normalization message =>
      refine iff_of_false ?_ (not_not.2 ⟨message, rfl⟩)
      rintro ⟨e, h⟩
      cases h
    | _ =>
      refine iff_of_true ⟨_, rfl⟩ ?_
      rintro ⟨message, h⟩
      cases h

theorem emit_raises : (∃ e, l.emit rt = .error e) ↔ l.Poison rt := by
  unfold LogLine.emit LogLine.Poison
  cases l.text? with
  | none =>
    refine iff_of_false ?_ ?_
    · rintro ⟨e, h⟩
      cases h
    · rintro ⟨text, h, -⟩
      cases h
  | some text =>
    have htext : (∃ text', some text = some text' ∧ Poison rt l.type text') ↔ Poison rt l.type text := by simp
    rw [htext]
    exact counted_raises.trans ((emitTimeUs_refusal.not).trans not_not)

end Lines

/-! ## The lines that are reached -/

/-- The elements up to the one that fills the room, if those that count take it up. -/
def reached {α : Type} (counts : α → Bool) : Nat → List α → List α
  | _, [] => []
  | 0, _ :: _ => []
  | room + 1, x :: xs => x :: reached counts (if counts x then room else room + 1) xs

section Reached

variable {α β : Type}

theorem reached_zero (counts : α → Bool) (xs : List α) : reached counts 0 xs = [] := by
  cases xs <;> rfl

/-- What counts among the elements that are reached. -/
theorem reached_filterMap (f : α → Option β) (room : Nat) (xs : List α) :
    (reached (fun x => (f x).isSome) room xs).filterMap f = (xs.filterMap f).take room := by
  induction xs generalizing room with
  | nil => cases room <;> rfl
  | cons x xs ih =>
    cases room with
    | zero => rfl
    | succ room =>
      rw [reached, List.filterMap_cons, List.filterMap_cons]
      cases f x with
      | none => exact ih (room + 1)
      | some b => exact congrArg (b :: ·) (ih room)

/-- An element is reached if what comes before it leaves room. -/
theorem mem_reached {f : α → Option β} {room : Nat} {xs : List α} {x : α} :
    x ∈ reached (fun x => (f x).isSome) room xs ↔
      ∃ before after, xs = before ++ x :: after ∧ (before.filterMap f).length < room := by
  induction xs generalizing room with
  | nil => simp [reached]
  | cons y ys ih =>
    cases room with
    | zero => simp [reached_zero]
    | succ room =>
      rw [reached, List.mem_cons, ih]
      constructor
      · rintro (rfl | ⟨before, after, rfl, hlt⟩)
        · exact ⟨[], ys, rfl, Nat.succ_pos _⟩
        · refine ⟨y :: before, after, rfl, ?_⟩
          rw [List.filterMap_cons]
          cases hy : f y with
          | none =>
            rw [hy] at hlt
            exact hlt
          | some b =>
            rw [hy] at hlt
            exact Nat.succ_lt_succ hlt
      · rintro ⟨before, after, heq, hlt⟩
        cases before with
        | nil => exact .inl (List.cons.inj heq).1.symm
        | cons z before =>
          obtain ⟨rfl, rfl⟩ := List.cons.inj heq
          refine .inr ⟨before, after, rfl, ?_⟩
          rw [List.filterMap_cons] at hlt
          cases hy : f y with
          | none =>
            rw [hy] at hlt
            exact hlt
          | some b =>
            rw [hy] at hlt
            exact Nat.lt_of_succ_lt_succ hlt

end Reached

/-! ## The index -/

section Index

variable {rt : Runtime} {limit : Nat} {l : LogLine}

/-- The entry of a line, if it has one. -/
def LogLine.item (rt : Runtime) (l : LogLine) : Option Item := ((l.emit rt).toOption.getD none).map l.entry

/-- The lines of a run that `index` comes to; it takes one record even if it may take none. -/
def RunDir.reached (rt : Runtime) (limit : Nat) (d : RunDir) : List LogLine :=
  Sender.reached (fun l => (l.item rt).isSome) (max 1 limit) d.lines

/-- The lines that are refused. -/
def refused (rt : Runtime) (ls : List LogLine) : Nat := ls.countP fun l => (l.item rt).isNone

theorem refused_cons_none {ls : List LogLine} (h : l.item rt = none) :
    refused rt (l :: ls) = refused rt ls + 1 :=
  List.countP_cons_of_pos (by simp [h])

theorem refused_cons_some {ls : List LogLine} {item : Item} (h : l.item rt = some item) :
    refused rt (l :: ls) = refused rt ls :=
  List.countP_cons_of_neg (by simp [h])

/-- **The loop**, with room for some records yet: it raises if it comes to a line that is poison, and otherwise
takes and counts what it comes to. -/
theorem indexLines_spec (ls : List LogLine) {items : List Item} {room : Nat}
    (hroom : items.length + (room + 1) = max 1 limit) (invalid : Nat) :
    ((∃ e, (indexLines rt limit ls items invalid).1 = .error e) ↔
        ∃ l ∈ Sender.reached (fun l => (l.item rt).isSome) (room + 1) ls, l.Poison rt) ∧
      ((∀ e, (indexLines rt limit ls items invalid).1 ≠ .error e) → indexLines rt limit ls items invalid =
        (.ok (items ++ (ls.filterMap (·.item rt)).take (room + 1)),
          invalid + refused rt (Sender.reached (fun l => (l.item rt).isSome) (room + 1) ls))) := by
  induction ls generalizing items room invalid with
  | nil =>
    refine ⟨iff_of_false ?_ ?_, fun _ => ?_⟩
    · rintro ⟨e, h⟩
      cases h
    · rintro ⟨l, hl, -⟩
      cases hl
    · simp [indexLines, Sender.reached, refused]
  | cons l ls ih =>
    have hpoison := @emit_raises rt l
    rw [Sender.reached, List.filterMap_cons]
    unfold indexLines
    cases hemit : l.emit rt with
    | error e =>
      have hl : l.Poison rt := hpoison.1 ⟨e, hemit⟩
      exact ⟨iff_of_true ⟨e, rfl⟩ ⟨l, List.mem_cons_self, hl⟩, fun h => absurd rfl (h e)⟩
    | ok o =>
      have hsound : ¬ l.Poison rt := fun hl => by
        obtain ⟨e, he⟩ := hpoison.2 hl
        rw [hemit] at he
        cases he
      have hitem : l.item rt = o.map l.entry := by
        rw [LogLine.item, hemit]
        rfl
      cases o with
      | none =>
        obtain ⟨hiff, hok⟩ := ih hroom (invalid + 1)
        rw [hitem]
        refine ⟨hiff.trans ?_, fun h => (hok h).trans ?_⟩
        · simp only [Option.map_none, Option.isSome_none, Bool.false_eq_true, if_false, List.mem_cons,
            exists_eq_or_imp, hsound, false_or]
        · simp only [Option.map_none, Option.isSome_none, Bool.false_eq_true, if_false,
            refused_cons_none (hitem.trans rfl)]
          rw [Nat.add_assoc, Nat.add_comm 1]
      | some emit =>
        rw [hitem]
        simp only [Option.map_some, Option.isSome_some, if_true, List.mem_cons, exists_eq_or_imp, hsound, false_or,
          List.take_succ_cons, refused_cons_some (hitem.trans rfl)]
        have hlength : (items ++ [l.entry emit]).length = items.length + 1 := by simp
        split
        · case isTrue hfull =>
          -- the record takes up the last room
          obtain rfl : room = 0 := by omega
          refine ⟨iff_of_false ?_ ?_, fun _ => ?_⟩
          · rintro ⟨e, h⟩
            cases h
          · rintro ⟨l', hl', -⟩
            rw [reached_zero] at hl'
            cases hl'
          · rw [reached_zero, List.take_zero]
            rfl
        · case isFalse hfull =>
          obtain ⟨room, rfl⟩ : ∃ n, room = n + 1 := ⟨room - 1, by omega⟩
          obtain ⟨hiff, hok⟩ := @ih (items ++ [l.entry emit]) room (by omega) invalid
          refine ⟨hiff, fun h => (hok h).trans ?_⟩
          rw [List.append_assoc]
          rfl

variable (persistEvery : Nat) (d : RunDir)

theorem emit_toOption (l : LogLine) :
    (l.emit rt).toOption.getD none = l.text?.bind fun text => (emitTimeUs rt l.type text).toOption := by
  unfold LogLine.emit
  cases l.text? with
  | none => rfl
  | some text =>
    simp only [Option.bind_some]
    cases emitTimeUs rt l.type text with
    | ok emit => rfl
    | error e => cases e <;> rfl

/-- The entries are those of `index`. -/
theorem lines_items : d.lines.filterMap (·.item rt) = d.logs.zipIdx.flatMap fun f => (fileLines f.1.2).filterMap
    fun l => lineItem (.over rt limit persistEvery) f.1.1 f.2 l.1 l.2 := by
  unfold RunDir.lines
  rw [List.filterMap_flatMap]
  refine List.flatMap_congr fun f _ => ?_
  rw [List.filterMap_filterMap]
  refine List.filterMap_congr fun l _ => ?_
  unfold lineItem
  dsimp only
  split
  · rfl
  · simp only [Option.bind_some, LogLine.item, emit_toOption, LogLine.text?, ReplayConfig.over]
    cases utf8Decode (stripCr l.2) with
    | none => rfl
    | some text =>
      change _ = (emitTimeUs rt f.1.1 (text.map Char.toNat)).toOption.bind _
      simp only [Option.map_some, Option.bind_some]
      cases (emitTimeUs rt f.1.1 (text.map Char.toNat)).toOption <;> rfl

/-- The entries are those of the lines that are reached, in the order of emission. -/
theorem index_perm : (d.index (.over rt limit persistEvery)).Perm ((d.reached rt limit).filterMap (·.item rt)) := by
  unfold RunDir.index RunDir.reached
  rw [reached_filterMap, lines_items persistEvery]
  exact List.perm_insertionSort _ _

/-- Each line that is reached has an entry or is refused. -/
theorem entries_and_refused (ls : List LogLine) : (ls.filterMap (·.item rt)).length + refused rt ls = ls.length := by
  induction ls with
  | nil => rfl
  | cons l ls ih =>
    cases hl : l.item rt with
    | none =>
      rw [List.filterMap_cons_none hl, refused_cons_none hl, List.length_cons, ← Nat.add_assoc]
      exact congrArg (· + 1) ih
    | some item =>
      rw [List.filterMap_cons_some hl, refused_cons_some hl, List.length_cons, List.length_cons,
        Nat.add_right_comm]
      exact congrArg (· + 1) ih

theorem indexRaising_error (invalid : Nat) : (∃ e, (d.indexRaising rt limit invalid).1 = .error e) ↔
    ∃ e, (indexLines rt limit d.lines [] invalid).1 = .error e := by
  unfold RunDir.indexRaising
  obtain ⟨r, invalid⟩ := indexLines rt limit d.lines [] invalid
  cases r with
  | ok items => simp [Except.map]
  | error e => simp [Except.map]

/-- **The index of a replay is lost exactly when a line that it reaches is poison**: the lines before it leave
room for a record, and it holds a number that `Decimal` does not represent, a time that does not scale to
microseconds, or is a `conn` with such a duration. Otherwise each line that is reached has its entry, in the order
of emission, or is counted. Below 10^17 characters a line that holds a number that is not represented has an
exponent of 10^17 or more. -/
theorem index_exact (rt : Runtime) (limit persistEvery invalid : Nat) (d : RunDir) :
    ((∃ e, (d.indexRaising rt limit invalid).1 = .error e) ↔
      ∃ before l after, d.lines = before ++ l :: after ∧
        (before.filterMap (·.item rt)).length < max 1 limit ∧ l.Poison rt) ∧
    ((∀ e, (d.indexRaising rt limit invalid).1 ≠ .error e) →
      d.indexRaising rt limit invalid =
        (.ok (d.index (.over rt limit persistEvery)), invalid + refused rt (d.reached rt limit)) ∧
      (d.index (.over rt limit persistEvery)).Perm ((d.reached rt limit).filterMap (·.item rt)) ∧
      (d.index (.over rt limit persistEvery)).length + refused rt (d.reached rt limit) =
        (d.reached rt limit).length) ∧
    ∀ line : PyStr, line.length < 10 ^ 17 → DecJson.loads rt.recursionLimit line = .error .inexact →
      ∃ t e r, t <:+ line ∧ Json.exponent t = (some e, r) ∧ 10 ^ 17 ≤ |e| := by
  obtain ⟨room, hroom⟩ : ∃ room, room + 1 = max 1 limit := ⟨max 1 limit - 1, by omega⟩
  obtain ⟨hiff, hok⟩ := @indexLines_spec rt limit d.lines [] room (by simpa using hroom) invalid
  have hreached : d.reached rt limit = Sender.reached (fun l => (l.item rt).isSome) (room + 1) d.lines := by
    rw [hroom]
    rfl
  have hperm := @index_perm rt limit persistEvery d
  refine ⟨?_, fun h => ⟨?_, hperm, ?_⟩, fun line hlen h => (DecJson.loads_inexact h).exponent hlen⟩
  · rw [indexRaising_error, hiff, ← hroom]
    constructor
    · rintro ⟨l, hl, hpoison⟩
      obtain ⟨before, after, heq, hlt⟩ := mem_reached.1 hl
      exact ⟨before, l, after, heq, hlt, hpoison⟩
    · rintro ⟨before, l, after, heq, hlt, hpoison⟩
      exact ⟨l, mem_reached.2 ⟨before, after, heq, hlt⟩, hpoison⟩
  · have hloop := hok fun e he => by
      obtain ⟨e', he'⟩ := (indexRaising_error d invalid).2 ⟨e, he⟩
      exact h e' he'
    unfold RunDir.indexRaising RunDir.index
    rw [hloop, hreached, ← lines_items persistEvery, List.nil_append, hroom]
    rfl
  · rw [hperm.length_eq, entries_and_refused]

end Index

def sampleLogs (log : String) : RunDir :=
  ⟨"run1", true, [("weird.log", log.toList.map fun c => UInt8.ofNat c.toNat)]⟩

/-- Two lines that are whole, the later one first, and between them one that is no JSON. -/
def soundLogs : RunDir :=
  sampleLogs "\x7b\"ts\":1788249600.5\x7d\n#close\n\x7b\"ts\"\n\x7b\"ts\":1788249600.25\x7d"

/-- A line that is whole, and one with a time of 10^30 seconds. -/
def poisonLogs : RunDir := sampleLogs "\x7b\"ts\":1788249600.5\x7d\n\x7b\"ts\":1e30\x7d\n"

/-- Two lines have their entries and one is counted; and a line that is poison ends the index. -/
theorem index_exact_sample :
    (soundLogs.indexRaising sampleRuntime 10 0 = (.ok (soundLogs.index (.over sampleRuntime 10 1)), 1) ∧
      (soundLogs.index (.over sampleRuntime 10 1)).length = 2) ∧
    ∃ before l after, poisonLogs.lines = before ++ l :: after ∧ l.Poison sampleRuntime := by
  have hsound : ∃ items, soundLogs.indexRaising sampleRuntime 10 0 = (.ok items, 1) ∧ items.length = 2 :=
    ⟨[⟨1788249600250000, 0, 33, 20⟩, ⟨1788249600500000, 0, 0, 19⟩], by decide +kernel, rfl⟩
  have hpoison : (poisonLogs.indexRaising sampleRuntime 10 0).1 = .error .arithmetic := by decide +kernel
  obtain ⟨items, hitems, hlength⟩ := hsound
  constructor
  · have hindex := ((index_exact sampleRuntime 10 1 0 soundLogs).2.1 fun e h => by
      rw [hitems] at h
      cases h).1
    have heq := congrArg Prod.fst (hitems.symm.trans hindex)
    rw [Except.ok.injEq] at heq
    exact ⟨by rw [hitems, heq], by rw [← heq, hlength]⟩
  · obtain ⟨before, l, after, heq, -, hl⟩ := (index_exact sampleRuntime 10 1 0 poisonLogs).1.1 ⟨_, hpoison⟩
    exact ⟨before, l, after, heq, hl⟩

end OTS.Sender
