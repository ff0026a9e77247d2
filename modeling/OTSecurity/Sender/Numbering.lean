import OTSecurity.Sender.Tail

/-!
# Numbering of lines by the tail-mode sender

Which line a sequence number belongs to.

* `numbered` — the lines that count: sendable and not oversized.
* `Snapshot` — offsets and next sequence agree with a common assignment `A` of numbers to files: of
  each file as many lines are before its offset as `A` has numbers for it.
* `Reads` — where the reader of a file stands; `Reads.lineAt`, `Reads.skipped`, `Reads.oversize` are
  what the inner loop does to it.
* `LogInv` — every entry is the line of its file that its number belongs to; `LogInv.no_alias`.
* `Inv` — the log, the state file and the process follow one assignment.
-/

namespace OTS.Sender

/-- Lines that are given a number when no oversized line is sent whole. -/
def numbered (line : Bytes) : Bool := line.length ≤ MAX_LINE_BYTES ∧ sendable line

/-! ## Growing files -/

/-- Every file is still there, under its name, with its bytes first. -/
def Grows (fs fs' : Fs) : Prop :=
  ∀ f ∈ fs, ∃ f' ∈ fs', f'.key = f.key ∧ f'.name = f.name ∧ ∃ more, f'.data = f.data ++ more

theorem Grows.refl (fs : Fs) : Grows fs fs := fun f hf => ⟨f, hf, rfl, rfl, [], by simp⟩

theorem Grows.append (fs : Fs) (f : LogFile) : Grows fs (fs ++ [f]) :=
  fun g hg => ⟨g, List.mem_append_left _ hg, rfl, rfl, [], by simp⟩

theorem Grows.appendTo (fs : Fs) (key : String) (more : Bytes) : Grows fs (Sender.appendTo fs key more) := by
  intro f hf
  refine ⟨_, List.mem_map_of_mem hf, ?_⟩
  split
  · exact ⟨rfl, rfl, more, rfl⟩
  · exact ⟨rfl, rfl, [], by simp⟩

/-- Names and keys identify files. -/
structure Distinct (fs : Fs) : Prop where
  keys : (fs.map (·.key)).Nodup
  names : (fs.map (·.name)).Nodup

theorem find_of_nodup {β : Type} [DecidableEq β] {g : LogFile → β} {fs : Fs}
    (hn : (fs.map g).Nodup) {f : LogFile} (hf : f ∈ fs) : fs.find? (fun x => g x = g f) = some f := by
  induction fs with
  | nil => cases hf
  | cons x fs ih =>
    rw [List.map_cons, List.nodup_cons] at hn
    rcases List.mem_cons.1 hf with rfl | hf
    · simp
    · have hne : g x ≠ g f := fun e => hn.1 (e ▸ List.mem_map_of_mem hf)
      rw [List.find?_cons_of_neg (by simpa using hne)]
      exact ih hn.2 hf

theorem Distinct.named {fs : Fs} (h : Distinct fs) {f : LogFile} (hf : f ∈ fs) :
    named fs f.name = some f := find_of_nodup h.names hf

theorem Distinct.dataOf {fs : Fs} (h : Distinct fs) {f : LogFile} (hf : f ∈ fs) :
    dataOf fs f.key = f.data := by
  unfold Sender.dataOf
  rw [find_of_nodup h.keys hf]
  rfl

theorem Distinct.key_inj {fs : Fs} (h : Distinct fs) {f g : LogFile} (hf : f ∈ fs) (hg : g ∈ fs)
    (hk : f.key = g.key) : f = g := by
  have hfind := find_of_nodup h.keys hf
  rw [hk, find_of_nodup h.keys hg, Option.some.injEq] at hfind
  exact hfind.symm

theorem Distinct.appendTo {fs : Fs} (h : Distinct fs) (key : String) (more : Bytes) :
    Distinct (Sender.appendTo fs key more) := by
  have hk : (Sender.appendTo fs key more).map (·.key) = fs.map (·.key) := by
    unfold Sender.appendTo
    rw [List.map_map]
    apply List.map_congr_left
    intro f _
    simp only [Function.comp_apply]
    split <;> rfl
  have hn : (Sender.appendTo fs key more).map (·.name) = fs.map (·.name) := by
    unfold Sender.appendTo
    rw [List.map_map]
    apply List.map_congr_left
    intro f _
    simp only [Function.comp_apply]
    split <;> rfl
  exact ⟨hk ▸ h.keys, hn ▸ h.names⟩

theorem Distinct.create {fs : Fs} (h : Distinct fs) {f : LogFile}
    (hnew : ∀ g ∈ fs, g.name ≠ f.name ∧ g.key ≠ f.key) : Distinct (fs ++ [f]) := by
  constructor
  · rw [List.map_append, List.nodup_append]
    refine ⟨h.keys, by simp, ?_⟩
    intro a ha b hb
    obtain ⟨g, hg, rfl⟩ := List.mem_map.1 ha
    simp only [List.map_cons, List.map_nil, List.mem_singleton] at hb
    exact hb ▸ (hnew g hg).2
  · rw [List.map_append, List.nodup_append]
    refine ⟨h.names, by simp, ?_⟩
    intro a ha b hb
    obtain ⟨g, hg, rfl⟩ := List.mem_map.1 ha
    simp only [List.map_cons, List.map_nil, List.mem_singleton] at hb
    exact hb ▸ (hnew g hg).1

/-! ## Positions -/

/-- `off` starts a line of file `k`, before which are as many numbered lines as `A` has numbers
below `next` for the file. -/
def Position (A : List String) (fs : Fs) (next : Nat) (k : String) (off : Nat) : Prop :=
  ∃ f ∈ fs, f.key = k ∧ AtLine f.data off ∧ lineNo numbered f.data off = (A.take next).count k

/-- The file of a tracked entry, and its fingerprint. -/
def Followed (cfg : Config) (fs : Fs) (k : String) (fp : Fingerprint) : Prop :=
  ∃ f ∈ fs, f.key = k ∧ (logType f.name).isSome ∧ fp.n ≤ f.data.length ∧
    fp.digest = cfg.digest (f.data.take fp.n)

theorem Position.grows {A : List String} {fs fs' : Fs} {next : Nat} {k : String} {off : Nat}
    (h : Position A fs next k off) (hg : Grows fs fs') : Position A fs' next k off := by
  obtain ⟨f, hf, rfl, hat, hno⟩ := h
  obtain ⟨f', hf', hk, _, more, hd⟩ := hg f hf
  refine ⟨f', hf', hk, hd ▸ hat.append more, ?_⟩
  rw [hd, lineNo_append _ hat.1, hno]

theorem Followed.grows {cfg : Config} {fs fs' : Fs} {k : String} {fp : Fingerprint}
    (h : Followed cfg fs k fp) (hg : Grows fs fs') : Followed cfg fs' k fp := by
  obtain ⟨f, hf, rfl, ht, hn, hd⟩ := h
  obtain ⟨f', hf', hk, hname, more, hdata⟩ := hg f hf
  refine ⟨f', hf', hk, hname ▸ ht, ?_, ?_⟩
  · rw [hdata, List.length_append]; omega
  · rw [hdata, List.take_append_of_le_length hn]; exact hd

/-- Offsets and next sequence agree with the assignment, but for the offset of `except`. -/
structure Snapshot (cfg : Config) (A : List String) (fs : Fs) (next : Nat)
    (tracked : ODict String Tracked) (except : Option String) : Prop where
  le : next ≤ A.length
  followed : ∀ k tf, tracked.get? k = some tf → Followed cfg fs k tf.fingerprint
  position : ∀ k tf, some k ≠ except → tracked.get? k = some tf → Position A fs next k tf.offset
  untracked : ∀ k, tracked.get? k = none → (A.take next).count k = 0

variable {cfg : Config} {A : List String} {fs fs' : Fs} {next : Nat}
  {tracked : ODict String Tracked} {exc : Option String}

theorem Snapshot.grows (h : Snapshot cfg A fs next tracked exc) (hg : Grows fs fs') :
    Snapshot cfg A fs' next tracked exc where
  le := h.le
  followed k tf ht := (h.followed k tf ht).grows hg
  position k tf he ht := (h.position k tf he ht).grows hg
  untracked := h.untracked

theorem take_append_count {l : List String} (hle : next ≤ A.length) (k : String) :
    ((A ++ l).take next).count k = (A.take next).count k := by
  rw [List.take_append_of_le_length hle]

theorem Position.extend {k : String} {off : Nat} (h : Position A fs next k off)
    (hle : next ≤ A.length) (l : List String) : Position (A ++ l) fs next k off := by
  obtain ⟨f, hf, hk, hat, hno⟩ := h
  exact ⟨f, hf, hk, hat, by rw [take_append_count hle, hno]⟩

theorem Snapshot.extend (h : Snapshot cfg A fs next tracked exc) (l : List String) :
    Snapshot cfg (A ++ l) fs next tracked exc where
  le := by rw [List.length_append]; have := h.le; omega
  followed := h.followed
  position k tf he ht := (h.position k tf he ht).extend h.le l
  untracked k hk := by rw [take_append_count h.le, h.untracked k hk]

/-- The excepted offset may be anything. -/
theorem Snapshot.setExcept {k : String} (h : Snapshot cfg A fs next tracked (some k)) (off : Nat) :
    Snapshot cfg A fs next (Sender.setOffset tracked k off) (some k) := by
  unfold Sender.setOffset
  cases ht : tracked.get? k with
  | none => exact h
  | some tf =>
    refine ⟨h.le, fun j tj hj => ?_, fun j tj he hj => ?_, fun j hj => ?_⟩
    · rw [ODict.get?_set] at hj
      split at hj
      · rename_i e
        cases hj
        exact e ▸ h.followed k tf ht
      · exact h.followed j tj hj
    · rw [ODict.get?_set, if_neg (fun e => he (by rw [e]))] at hj
      exact h.position j tj he hj
    · rw [ODict.get?_set] at hj
      split at hj
      · cases hj
      · exact h.untracked j hj

theorem Snapshot.except (h : Snapshot cfg A fs next tracked none) (k : String) :
    Snapshot cfg A fs next tracked (some k) :=
  ⟨h.le, h.followed, fun j tf _ hj => h.position j tf (by simp) hj, h.untracked⟩

/-- With the right offset for the excepted file nothing is excepted. -/
theorem Snapshot.full {k : String} {tf : Tracked} (h : Snapshot cfg A fs next tracked (some k))
    (ht : tracked.get? k = some tf) (hp : Position A fs next k tf.offset) :
    Snapshot cfg A fs next tracked none := by
  refine ⟨h.le, h.followed, fun j tj _ hj => ?_, h.untracked⟩
  by_cases e : j = k
  · subst e
    rw [ht, Option.some.injEq] at hj
    exact hj ▸ hp
  · exact h.position j tj (fun he => e (Option.some.inj he)) hj

/-! ## Reading -/

/-- Where the reader stands: a prefix of what follows `pos` is in the buffer, and `pos` starts a
line, unless it is inside an oversized one. -/
def Reads (A : List String) (fs : Fs) (next : Nat) (r : Reading) : Prop :=
  r.handle = r.key ∧ ∃ f ∈ fs, f.key = r.key ∧ (∃ rest, f.data.drop r.pos = r.buf ++ rest) ∧
    r.pos ≤ f.data.length ∧ lineNo numbered f.data r.pos = (A.take next).count r.key ∧
    if r.skipping then MAX_LINE_BYTES < (splitLines (f.data.take r.pos)).2.length
    else (splitLines (f.data.take r.pos)).2 = []

theorem Reads.grows {r : Reading} (h : Reads A fs next r) (hg : Grows fs fs') :
    Reads A fs' next r := by
  obtain ⟨hh, f, hf, hk, ⟨rest, hrest⟩, hle, hno, hskip⟩ := h
  obtain ⟨f', hf', hk', _, more, hd⟩ := hg f hf
  refine ⟨hh, f', hf', hk'.trans hk, ⟨rest ++ more, ?_⟩, ?_, ?_, ?_⟩
  · rw [hd, List.drop_append_of_le_length hle, hrest, List.append_assoc]
  · rw [hd, List.length_append]; omega
  · rw [hd, lineNo_append _ hle, hno]
  · rw [hd, List.take_append_of_le_length hle]; exact hskip

theorem Reads.extend {r : Reading} (h : Reads A fs next r) (hle : next ≤ A.length)
    (l : List String) : Reads (A ++ l) fs next r := by
  obtain ⟨hh, f, hf, hk, hrest, hp, hno, hskip⟩ := h
  exact ⟨hh, f, hf, hk, hrest, hp, by rw [take_append_count hle, hno], hskip⟩

/-- Not inside an oversized line: the position is one of the snapshot's. -/
theorem Reads.position {r : Reading} (h : Reads A fs next r) (hskip : r.skipping = false) :
    Position A fs next r.key r.pos := by
  obtain ⟨_, f, hf, hk, _, hp, hno, hs⟩ := h
  rw [hskip] at hs
  exact ⟨f, hf, hk, ⟨hp, by simpa using hs⟩, hno⟩

/-- A chunk of the file goes to the end of the buffer. -/
theorem Reads.refill {r : Reading} (hd : Distinct fs) (h : Reads A fs next r) :
    Reads A fs next { r with
      buf := r.buf ++ slice (dataOf fs r.handle) (r.pos + r.buf.length) CHUNK_BYTES } := by
  obtain ⟨hh, f, hf, hk, ⟨rest, hrest⟩, hp, hno, hs⟩ := h
  refine ⟨hh, f, hf, hk, ⟨rest.drop CHUNK_BYTES, ?_⟩, hp, hno, hs⟩
  have hdrop : f.data.drop (r.pos + r.buf.length) = rest := by
    rw [← List.drop_drop, hrest, List.drop_left]
  simp only [hh, ← hk, hd.dataOf hf, slice, hdrop]
  rw [List.append_assoc, List.take_append_drop, hrest]

/-- An oversized line: the buffer is discarded. -/
theorem Reads.oversize {r : Reading} (h : Reads A fs next r)
    (hnl : r.buf.findIdx? (· = NEWLINE) = none) (hlen : r.buf.length > MAX_LINE_BYTES) :
    Reads A fs next { r with pos := r.pos + r.buf.length, buf := [], skipping := true } := by
  obtain ⟨hh, f, hf, hk, ⟨rest, hrest⟩, hp, hno, hs⟩ := h
  have htake : f.data.take (r.pos + r.buf.length) = f.data.take r.pos ++ r.buf := by
    rw [List.take_add, hrest, List.take_left]
  have hsplit := splitLines_append (a := f.data.take r.pos) (findIdx_none hnl)
  refine ⟨hh, f, hf, hk, ⟨rest, ?_⟩, ?_, ?_, ?_⟩
  · simp only
    rw [← List.drop_drop, hrest, List.drop_left, List.nil_append]
  · have hlen' := congrArg List.length hrest
    rw [List.length_drop, List.length_append] at hlen'
    simp only
    omega
  · unfold lineNo at hno ⊢
    simp only
    rw [htake, hsplit, hno]
  · simp only [if_true]
    rw [htake, hsplit, List.length_append]
    omega

/-- What the next newline of the buffer completes. -/
theorem Reads.newline {r : Reading} (h : Reads A fs next r) {nl : Nat}
    (hnl : r.buf.findIdx? (· = NEWLINE) = some nl) :
    ∃ f ∈ fs, f.key = r.key ∧ r.handle = r.key ∧ r.pos + nl + 1 ≤ f.data.length ∧
      (∃ rest, f.data.drop (r.pos + nl + 1) = r.buf.drop (nl + 1) ++ rest) ∧
      lineNo numbered f.data r.pos = (A.take next).count r.key ∧
      f.data.take (r.pos + nl + 1) = f.data.take r.pos ++ r.buf.take nl ++ [NEWLINE] ∧
      NEWLINE ∉ r.buf.take nl ∧ (r.buf.take nl).length = nl ∧
      if r.skipping then MAX_LINE_BYTES < (splitLines (f.data.take r.pos)).2.length
      else (splitLines (f.data.take r.pos)).2 = [] := by
  obtain ⟨hh, f, hf, hk, ⟨rest, hrest⟩, hp, hno, hs⟩ := h
  obtain ⟨hlt, hnot, hbuf⟩ := findIdx_newline hnl
  have hlen := congrArg List.length hrest
  rw [List.length_drop, List.length_append] at hlen
  have htl : (r.buf.take nl).length = nl := by rw [List.length_take]; omega
  refine ⟨f, hf, hk, hh, by omega, ⟨rest, ?_⟩, hno, ?_, hnot, htl, hs⟩
  · rw [Nat.add_assoc, ← List.drop_drop, hrest, List.drop_append_of_le_length (by omega)]
  · rw [Nat.add_assoc, List.take_add, hrest, List.take_append_of_le_length (by omega),
      List.append_assoc]
    congr 1
    have := congrArg (List.take (nl + 1)) hbuf
    rwa [List.take_left' (by rw [List.length_append, htl]; rfl)] at this

/-- The newline that ends an oversized line. -/
theorem Reads.skipped {r : Reading} (h : Reads A fs next r) (hskip : r.skipping = true) {nl : Nat}
    (hnl : r.buf.findIdx? (· = NEWLINE) = some nl) :
    Reads A fs next { r with buf := r.buf.drop (nl + 1), pos := r.pos + nl + 1,
                             skipping := false } := by
  obtain ⟨f, hf, hk, hh, hle, hrest, hno, hbytes, hnot, _, hs⟩ := h.newline hnl
  rw [if_pos hskip] at hs
  have hsplit := splitLines_newline (a := f.data.take r.pos) hnot
  rw [← hbytes] at hsplit
  refine ⟨hh, f, hf, hk, hrest, hle, ?_, ?_⟩
  · -- the line is too long to be counted
    have hbig : numbered ((splitLines (f.data.take r.pos)).2 ++ r.buf.take nl) = false := by
      have hlen : ¬ ((splitLines (f.data.take r.pos)).2 ++ r.buf.take nl).length ≤
          MAX_LINE_BYTES := by rw [List.length_append]; omega
      simp only [numbered, hlen, false_and, decide_false]
    unfold lineNo at hno ⊢
    simp only
    rw [hsplit, List.countP_append, hno]
    simp [hbig]
  · simp only [Bool.false_eq_true, if_false]
    rw [hsplit]

/-- Outside an oversized line the next newline completes a line that starts at `pos`. -/
theorem Reads.lineAt {r : Reading} (h : Reads A fs next r) (hskip : r.skipping = false) {nl : Nat}
    (hnl : r.buf.findIdx? (· = NEWLINE) = some nl) :
    ∃ f ∈ fs, f.key = r.key ∧ r.handle = r.key ∧ LineAt f.data r.pos (r.buf.take nl) ∧
      (∃ rest, f.data.drop (r.pos + nl + 1) = r.buf.drop (nl + 1) ++ rest) ∧
      lineNo numbered f.data r.pos = (A.take next).count r.key ∧
      AtLine f.data (r.pos + nl + 1) ∧
      lineNo numbered f.data (r.pos + nl + 1) =
        (A.take next).count r.key + if numbered (r.buf.take nl) then 1 else 0 := by
  obtain ⟨f, hf, hk, hh, hle, hrest, hno, hbytes, hnot, hlen, hs⟩ := h.newline hnl
  rw [hskip] at hs
  have hline : LineAt f.data r.pos (r.buf.take nl) :=
    ⟨⟨by omega, by simpa using hs⟩, by rw [hlen]; exact hle, by rw [hlen]; exact hbytes, hnot⟩
  have hnext := hline.next numbered
  rw [hlen] at hnext
  exact ⟨f, hf, hk, hh, hline, hrest, hno, hnext.1, by rw [hnext.2, hno]⟩

/-! ## The log -/

/-- An entry is the line of its file that its number belongs to. -/
structure Logged (bootId : String) (A : List String) (fs : Fs) (e : Entry) : Prop where
  boot : e.bootId = bootId
  file : A[e.sequence]? = some e.key
  line : ∃ f ∈ fs, f.key = e.key ∧ LineAt f.data e.start e.line ∧ numbered e.line = true ∧
    lineNo numbered f.data e.start = (A.take e.sequence).count e.key

/-- Every entry is where the assignment puts it, and every number of the assignment is logged. -/
structure LogInv (bootId : String) (A : List String) (fs : Fs) (log : List Entry) : Prop where
  logged : ∀ e ∈ log, Logged bootId A fs e
  full : ∀ m < A.length, ∃ e ∈ log, e.sequence = m

variable {bootId : String} {log : List Entry}

theorem Logged.grows {e : Entry} (h : Logged bootId A fs e) (hg : Grows fs fs') :
    Logged bootId A fs' e where
  boot := h.boot
  file := h.file
  line := by
    obtain ⟨f, hf, hk, hline, hnum, hno⟩ := h.line
    obtain ⟨f', hf', hk', _, more, hd⟩ := hg f hf
    refine ⟨f', hf', hk'.trans hk, hd ▸ hline.append more, hnum, ?_⟩
    rw [hd, lineNo_append _ hline.start.1, hno]

theorem Logged.extend {e : Entry} (h : Logged bootId A fs e) (l : List String) :
    Logged bootId (A ++ l) fs e where
  boot := h.boot
  file := List.getElem?_append_left (List.getElem?_eq_some_iff.1 h.file).1 ▸ h.file
  line := by
    obtain ⟨f, hf, hk, hline, hnum, hno⟩ := h.line
    have hlt := (List.getElem?_eq_some_iff.1 h.file).1
    exact ⟨f, hf, hk, hline, hnum, by rw [take_append_count (by omega), hno]⟩

theorem LogInv.grows (h : LogInv bootId A fs log) (hg : Grows fs fs') : LogInv bootId A fs' log :=
  ⟨fun e he => (h.logged e he).grows hg, h.full⟩

/-- Two entries with one number are one line. -/
theorem LogInv.no_alias (h : LogInv bootId A fs log) (hd : Distinct fs) {e e' : Entry}
    (he : e ∈ log) (he' : e' ∈ log) (hs : e.sequence = e'.sequence) :
    e.key = e'.key ∧ e.start = e'.start := by
  have h1 := h.logged e he
  have h2 := h.logged e' he'
  have hkey : e.key = e'.key := by
    have hf := h1.file
    rw [hs, h2.file, Option.some.injEq] at hf
    exact hf.symm
  obtain ⟨f, hf, hk, hline, hnum, hno⟩ := h1.line
  obtain ⟨f', hf', hk', hline', hnum', hno'⟩ := h2.line
  have hsame := hd.key_inj hf' hf (by rw [hk', hk, hkey])
  subst hsame
  exact ⟨hkey, lineAt_unique numbered hline hnum hline' hnum' (by rw [hno, hno', hs, hkey])⟩

/-- The next number goes to file `k`: the assignment has it already, or is extended. -/
theorem LogInv.assign (h : LogInv bootId A fs log) {k : String} (hle : next ≤ A.length)
    (hsame : ∀ e ∈ log, e.sequence = next → e.key = k) :
    ∃ l, (A ++ l)[next]? = some k ∧ ∀ m < (A ++ l).length, m < A.length ∨ m = next := by
  rcases Nat.lt_or_eq_of_le hle with hlt | rfl
  · obtain ⟨e, he, hs⟩ := h.full next hlt
    have hfile := (h.logged e he).file
    rw [hs, hsame e he hs] at hfile
    exact ⟨[], by rw [List.append_nil]; exact hfile, fun m hm => .inl (by simpa using hm)⟩
  · refine ⟨[k], by simp, fun m hm => ?_⟩
    rw [List.length_append, List.length_singleton] at hm
    omega

theorem count_take_succ {l : List String} {n : Nat} {k : String} (h : l[n]? = some k) (j : String) :
    (l.take (n + 1)).count j = (l.take n).count j + if k = j then 1 else 0 := by
  rw [List.take_add_one, h, List.count_append]
  simp [List.count_singleton]

/-- The positions of the other files do not move when a number goes to file `k`. -/
theorem Snapshot.assigned {k : String} {tf : Tracked}
    (h : Snapshot cfg A fs next tracked (some k)) (ht : tracked.get? k = some tf)
    (hn : A[next]? = some k) : Snapshot cfg A fs (next + 1) tracked (some k) where
  le := (List.getElem?_eq_some_iff.1 hn).1
  followed := h.followed
  position j tj he hj := by
    obtain ⟨f, hf, hk, hat, hno⟩ := h.position j tj he hj
    refine ⟨f, hf, hk, hat, ?_⟩
    rw [count_take_succ hn, if_neg (fun e => he (by rw [e])), hno, Nat.add_zero]
  untracked j hj := by
    have hne : k ≠ j := fun e => by rw [e] at ht; rw [ht] at hj; cases hj
    rw [count_take_succ hn, if_neg hne, h.untracked j hj]

/-! ## The invariant -/

/-- Every tracked file has been seen by the pass, or is still to be visited. -/
structure Covered (fs : Fs) (tracked : ODict String Tracked) (pass : Pass) : Prop where
  keys : ∀ k, (tracked.get? k).isSome → k ∈ pass.seen ∨ ∃ f ∈ fs, f.key = k ∧ f.name ∈ pass.todo
  names : ∀ n ∈ pass.todo, (logType n).isSome

/-- The file the pass stands at. -/
def Visits (fs : Fs) (pass : Pass) (name key : String) (size : Nat) : Prop :=
  key ∈ pass.seen ∧ (logType name).isSome ∧
    ∃ f ∈ fs, f.name = name ∧ f.key = key ∧ size ≤ f.data.length

/-- What holds of the process in each phase. -/
def PhaseInv (cfg : Config) (A : List String) (fs : Fs) (next : Nat)
    (tracked : ODict String Tracked) : Phase → Prop
  | .idle | .passed _ => Snapshot cfg A fs next tracked none
  | .listed pass => Snapshot cfg A fs next tracked none ∧ Covered fs tracked pass
  | .stated pass name key size => Snapshot cfg A fs next tracked none ∧ Covered fs tracked pass ∧
      Visits fs pass name key size ∧
      ∀ tf, tracked.get? key = some tf → tf.offset ≤ size ∧ tf.fingerprint.n ≤ size
  | .prefixed pass name key size tf => Snapshot cfg A fs next tracked none ∧
      Covered fs tracked pass ∧ Visits fs pass name key size ∧ tf = tracked.get? key
  | .opening pass name key => Snapshot cfg A fs next tracked none ∧ Covered fs tracked pass ∧
      Visits fs pass name key 0
  | .refill pass r | .split pass r => Snapshot cfg A fs next tracked (some r.key) ∧
      Covered fs tracked pass ∧ Reads A fs next r ∧
      ∃ tf, tracked.get? r.key = some tf ∧ tf.offset = r.pos
  | .sent pass r => Snapshot cfg A fs next tracked (some r.key) ∧ Covered fs tracked pass ∧
      Reads A fs next r ∧ r.skipping = false ∧ ∃ tf, tracked.get? r.key = some tf

/-- Log, state file and process follow the assignment `A`. -/
structure InvOf (cfg : Config) (bootId : String) (A : List String) (s : Sys) : Prop where
  distinct : Distinct s.fs
  log : LogInv bootId A s.fs s.log
  bootSaved : s.saved.bootId = bootId
  boot : s.proc.bootId = bootId
  saved : s.saved.betweenPasses = true →
    Snapshot cfg A s.fs s.saved.nextSequence s.saved.tailFiles none
  proc : PhaseInv cfg A s.fs s.proc.nextSequence s.proc.tailFiles s.proc.phase

/-- **The invariant of the sender.** -/
def Inv (cfg : Config) (bootId : String) (s : Sys) : Prop := ∃ A, InvOf cfg bootId A s

theorem Covered.grows {pass : Pass} (h : Covered fs tracked pass) (hg : Grows fs fs') :
    Covered fs' tracked pass where
  keys k hk := by
    rcases h.keys k hk with hs | ⟨f, hf, rfl, hn⟩
    · exact .inl hs
    · obtain ⟨f', hf', hk', hn', _⟩ := hg f hf
      exact .inr ⟨f', hf', hk', hn' ▸ hn⟩
  names := h.names

theorem Visits.grows {pass : Pass} {name key : String} {size : Nat}
    (h : Visits fs pass name key size) (hg : Grows fs fs') : Visits fs' pass name key size := by
  obtain ⟨hseen, htype, f, hf, hn, hk, hle⟩ := h
  obtain ⟨f', hf', hk', hn', more, hd⟩ := hg f hf
  refine ⟨hseen, htype, f', hf', hn'.trans hn, hk'.trans hk, ?_⟩
  rw [hd, List.length_append]
  omega

theorem PhaseInv.grows {phase : Phase} (h : PhaseInv cfg A fs next tracked phase)
    (hg : Grows fs fs') : PhaseInv cfg A fs' next tracked phase := by
  cases phase with
  | idle => exact Snapshot.grows h hg
  | passed _ => exact Snapshot.grows h hg
  | listed pass => exact ⟨h.1.grows hg, h.2.grows hg⟩
  | stated pass name key size => exact ⟨h.1.grows hg, h.2.1.grows hg, h.2.2.1.grows hg, h.2.2.2⟩
  | prefixed pass name key size tf =>
    exact ⟨h.1.grows hg, h.2.1.grows hg, h.2.2.1.grows hg, h.2.2.2⟩
  | opening pass name key => exact ⟨h.1.grows hg, h.2.1.grows hg, h.2.2.grows hg⟩
  | refill pass r => exact ⟨h.1.grows hg, h.2.1.grows hg, h.2.2.1.grows hg, h.2.2.2⟩
  | split pass r => exact ⟨h.1.grows hg, h.2.1.grows hg, h.2.2.1.grows hg, h.2.2.2⟩
  | sent pass r => exact ⟨h.1.grows hg, h.2.1.grows hg, h.2.2.1.grows hg, h.2.2.2⟩

/-- The files grow. -/
theorem InvOf.grows {s : Sys} (h : InvOf cfg bootId A s) (hg : Grows s.fs fs')
    (hd : Distinct fs') : InvOf cfg bootId A { s with fs := fs' } where
  distinct := hd
  log := h.log.grows hg
  bootSaved := h.bootSaved
  boot := h.boot
  saved hb := (h.saved hb).grows hg
  proc := h.proc.grows hg

end OTS.Sender
