import OTSecurity.Sender.Numbering

/-!
# Runs of the tail-mode sender

Over the machine `tail`: every step keeps the invariant `Inv`, under conditions on the step.

* `WholeLines`, `SameFile`, `NoEviction`, `NoSaveInside` — the conditions, each on the state before
  the step.
* `Inv.step` — every step keeps the invariant, under `Aligned`.

Principal results: `tail_restart_idempotent`, `tail_no_alias`, with the runs that break both
properties without their conditions.
-/

namespace OTS.Sender

variable {cfg : Config} {bootId : String} {A : List String} {fs fs' : Fs} {next : Nat}
  {tracked : ODict String Tracked} {exc : Option String} {log : List Entry}

/-! ## Steps -/

/-- The process goes on with the same state. -/
theorem InvOf.goto {s : Sys} (h : InvOf cfg bootId A s) {phase : Phase}
    (hp : PhaseInv cfg A s.fs s.proc.nextSequence s.proc.tailFiles phase) :
    InvOf cfg bootId A (s.goto phase) :=
  ⟨h.distinct, h.log, h.bootSaved, h.boot, h.saved, hp⟩

theorem Covered.listing {s : Sys} (h : Snapshot cfg A s.fs s.proc.nextSequence s.proc.tailFiles none) :
    Covered s.fs s.proc.tailFiles ⟨listing s.fs, [], false⟩ where
  keys k hk := by
    obtain ⟨tf, htf⟩ := Option.isSome_iff_exists.1 hk
    obtain ⟨f, hf, hkey, htype, _⟩ := h.followed k tf htf
    refine .inr ⟨f, hf, hkey, ?_⟩
    unfold Sender.listing
    rw [List.mem_insertionSort]
    exact List.mem_filter.2 ⟨List.mem_map_of_mem hf, htype⟩
  names n hn := by
    unfold Sender.listing at hn
    rw [List.mem_insertionSort] at hn
    exact (List.mem_filter.1 hn).2

theorem InvOf.stepListed {s : Sys} {pass : Pass} (h : InvOf cfg bootId A s)
    (hp : s.proc.phase = .listed pass)
    (hevict : pass.todo = [] → s.proc.tailFiles.length ≤ MAX_TRACKED_FILES) :
    InvOf cfg bootId A (s.stepListed pass) := by
  have hphase := h.proc
  rw [hp] at hphase
  obtain ⟨hsnap, hcov⟩ := hphase
  unfold Sys.stepListed
  cases htodo : pass.todo with
  | nil =>
    -- every tracked file was seen and none has to be evicted
    have hkeep : s.proc.tailFiles.keepKeys (fun k => k ∈ pass.seen) = s.proc.tailFiles := by
      apply ODict.keepKeys_eq
      intro k hk
      rcases hcov.keys k (ODict.get?_isSome.2 hk) with hs | ⟨f, _, _, hn⟩
      · exact decide_eq_true hs
      · rw [htodo] at hn; cases hn
    have hle := hevict htodo
    simp only [hkeep]
    rw [show s.proc.tailFiles.length - MAX_TRACKED_FILES = 0 by omega, ODict.drop_zero]
    exact ⟨h.distinct, h.log, h.bootSaved, h.boot, h.saved, hsnap⟩
  | cons name todo =>
    have htype : (logType name).isSome := hcov.names name (by rw [htodo]; exact List.mem_cons_self)
    have hcov' : ∀ (seen : List String), (∀ k ∈ pass.seen, k ∈ seen) →
        (∀ f ∈ s.fs, f.name = name → f.key ∈ seen) →
        Covered s.fs s.proc.tailFiles ⟨todo, seen, pass.progressed⟩ := by
      intro seen hsub hname
      refine ⟨fun k hk => ?_, fun n hn => hcov.names n (by rw [htodo]; exact List.mem_cons_of_mem _ hn)⟩
      rcases hcov.keys k hk with hs | ⟨f, hf, rfl, hn⟩
      · exact .inl (hsub k hs)
      · rw [htodo] at hn
        rcases List.mem_cons.1 hn with hn | hn
        · exact .inl (hname f hf hn)
        · exact .inr ⟨f, hf, rfl, hn⟩
    cases hnamed : named s.fs name with
    | none =>
      simp only [hnamed]
      apply h.goto
      refine ⟨hsnap, hcov' pass.seen (fun k hk => hk) (fun f hf hn => ?_)⟩
      rw [← hn, h.distinct.named hf] at hnamed
      cases hnamed
    | some f =>
      have hf : f ∈ s.fs := List.mem_of_find?_eq_some hnamed
      have hfn : f.name = name := by simpa using List.find?_some hnamed
      have hcov'' := hcov' (pass.seen ++ [f.key]) (fun k hk => List.mem_append_left _ hk)
        (fun g hg hn => by
          have := h.distinct.named hg
          rw [hn, hnamed, Option.some.injEq] at this
          exact List.mem_append_right _ (by rw [this]; exact List.mem_singleton_self _))
      simp only [hnamed]
      split
      · apply h.goto
        exact ⟨hsnap, hcov''⟩
      · apply h.goto
        refine ⟨hsnap, hcov'', ⟨List.mem_append_right _ (List.mem_singleton_self _), htype,
          f, hf, hfn, rfl, Nat.le_refl _⟩, fun tf htf => ?_⟩
        obtain ⟨g, hg, hk, hat, _⟩ := hsnap.position f.key tf (by simp) htf
        obtain ⟨g', hg', hk', _, hle', _⟩ := hsnap.followed f.key tf htf
        have e1 := h.distinct.key_inj hg hf hk
        have e2 := h.distinct.key_inj hg' hf hk'
        subst e1
        subst e2
        exact ⟨hat.1, hle'⟩

/-- The tracked entry of an append-only file is never given up. -/
theorem samePrefix_of_followed (hd : Distinct fs) {name key : String} {size : Nat}
    {fp : Fingerprint} {pass : Pass} (hf : Followed cfg fs key fp)
    (hv : Visits fs pass name key size) (hle : fp.n ≤ size) :
    samePrefix cfg fs name size fp = true := by
  obtain ⟨_, _, g, hg, hgn, hgk, hsize⟩ := hv
  obtain ⟨f, hf, hk, _, hn, hdig⟩ := hf
  have hsame := hd.key_inj hf hg (hk.trans hgk.symm)
  subst hsame
  have hnamed := hd.named hf
  rw [hgn] at hnamed
  have hlen : (f.data.take fp.n).length = fp.n := by rw [List.length_take]; omega
  have hfp : fingerprint cfg fs name fp.n = some fp := by
    unfold fingerprint
    rw [hnamed]
    simp only
    rw [if_neg (not_not.2 hlen), ← hdig]
  unfold samePrefix
  rw [hfp]
  simpa using hle

theorem InvOf.stepStated {s : Sys} {pass : Pass} {name key : String} {size : Nat}
    (h : InvOf cfg bootId A s) (hp : s.proc.phase = .stated pass name key size) :
    InvOf cfg bootId A (s.stepStated cfg pass name key size) := by
  have hphase := h.proc
  rw [hp] at hphase
  obtain ⟨hsnap, hcov, hv, hsize⟩ := hphase
  unfold Sys.stepStated
  apply h.goto
  refine ⟨hsnap, hcov, hv, ?_⟩
  cases ht : s.proc.tailFiles.get? key with
  | none => rfl
  | some tf =>
    obtain ⟨h1, h2⟩ := hsize tf ht
    have hsame := samePrefix_of_followed h.distinct (hsnap.followed key tf ht) hv h2
    simp only
    rw [if_neg (by rw [hsame]; simpa using h1)]

/-- An entry set anew for the visited file, at the same offset. -/
theorem Snapshot.set {key : String} (path : String) {fp : Fingerprint}
    (h : Snapshot cfg A fs next tracked none) (hf : Followed cfg fs key fp) :
    Snapshot cfg A fs next
      (tracked.set key ⟨path, ((tracked.get? key).map (·.offset)).getD 0, fp⟩) none where
  le := h.le
  followed k tf hk := by
    rw [ODict.get?_set] at hk
    split at hk
    · rename_i e
      cases hk
      exact e ▸ hf
    · exact h.followed k tf hk
  position k tf _ hk := by
    rw [ODict.get?_set] at hk
    split at hk
    · rename_i e
      cases hk
      subst e
      cases ht : tracked.get? k with
      | some t => exact h.position k t (by simp) ht
      | none =>
        obtain ⟨f, hf, hfk, _⟩ := hf
        exact ⟨f, hf, hfk, AtLine.zero _, by rw [h.untracked k ht]; rfl⟩
    · exact h.position k tf (by simp) hk
  untracked k hk := by
    rw [ODict.get?_set] at hk
    split at hk
    · cases hk
    · exact h.untracked k hk

theorem Covered.set {pass : Pass} {key : String} {tf : Tracked} (h : Covered fs tracked pass)
    (hk : key ∈ pass.seen) : Covered fs (tracked.set key tf) pass where
  keys k hks := by
    rw [ODict.get?_set] at hks
    split at hks
    · rename_i e
      exact .inl (e ▸ hk)
    · exact h.keys k hks
  names := h.names

theorem InvOf.stepPrefixed {s : Sys} {pass : Pass} {name key : String} {size : Nat}
    {tf : Option Tracked} (h : InvOf cfg bootId A s)
    (hp : s.proc.phase = .prefixed pass name key size tf) :
    InvOf cfg bootId A (s.stepPrefixed cfg pass name key size tf) := by
  have hphase := h.proc
  rw [hp] at hphase
  obtain ⟨hsnap, hcov, hv, rfl⟩ := hphase
  unfold Sys.stepPrefixed
  cases hfp : fingerprint cfg s.fs name (min size FINGERPRINT_BYTES) with
  | none =>
    apply h.goto
    exact ⟨hsnap, hcov⟩
  | some fp =>
    have hfol : Followed cfg s.fs key fp := by
      obtain ⟨_, htype, f, hf, hfn, hfk, hle⟩ := hv
      unfold fingerprint at hfp
      rw [← hfn, h.distinct.named hf] at hfp
      simp only at hfp
      split at hfp
      · cases hfp
      · cases hfp
        exact ⟨f, hf, hfk, hfn ▸ htype, by simp only; omega, rfl⟩
    have hset := hsnap.set name hfol
    have hcov' : Covered s.fs (s.proc.tailFiles.set key
        ⟨name, ((s.proc.tailFiles.get? key).map (·.offset)).getD 0, fp⟩) pass := hcov.set hv.1
    refine ⟨h.distinct, h.log, h.bootSaved, h.boot, h.saved, ?_⟩
    simp only
    split
    · refine ⟨hset, hcov', hv.1, hv.2.1, ?_⟩
      obtain ⟨f, hf, hfn, hfk, _⟩ := hv.2.2
      exact ⟨f, hf, hfn, hfk, Nat.zero_le _⟩
    · exact ⟨hset, hcov'⟩

theorem InvOf.stepOpening {s t : Sys} {pass : Pass} {name key : String}
    (h : InvOf cfg bootId A s) (hp : s.proc.phase = .opening pass name key)
    (ht : s.stepOpening pass name key = some t) : InvOf cfg bootId A t := by
  have hphase := h.proc
  rw [hp] at hphase
  obtain ⟨hsnap, hcov, hv⟩ := hphase
  unfold Sys.stepOpening at ht
  split at ht
  · rename_i f tf hnamed htf
    simp only [Option.some.injEq] at ht
    subst ht
    obtain ⟨_, _, g, hg, hgn, hgk, _⟩ := hv
    rw [← hgn, h.distinct.named hg, Option.some.injEq] at hnamed
    subst hnamed
    obtain ⟨f, hf, hfk, hat, hno⟩ := hsnap.position key tf (by simp) htf
    apply h.goto
    refine ⟨hsnap.except key, hcov, ⟨hgk, f, hf, hfk, ⟨f.data.drop tf.offset, by simp⟩, hat.1, hno, ?_⟩,
      tf, htf, rfl⟩
    simpa using hat.2
  · cases ht

/-- Reading again from a place where nothing is excepted. -/
theorem InvOf.stepRefill {s : Sys} {pass : Pass} {r : Reading} (h : InvOf cfg bootId A s)
    (hp : s.proc.phase = .refill pass r)
    (hcut : r.lines ≥ MAX_LINES_PER_FILE_PASS ∨
      slice (dataOf s.fs r.handle) (r.pos + r.buf.length) CHUNK_BYTES = [] → r.skipping = false) :
    InvOf cfg bootId A (s.stepRefill pass r) := by
  have hphase := h.proc
  rw [hp] at hphase
  obtain ⟨hsnap, hcov, hreads, tf, htf, hoff⟩ := hphase
  unfold Sys.stepRefill
  simp only
  split
  · rename_i hend
    apply h.goto
    exact ⟨hsnap.full htf (hoff ▸ hreads.position (hcut hend)), ⟨hcov.keys, hcov.names⟩⟩
  · apply h.goto
    exact ⟨hsnap, hcov, hreads.refill h.distinct, tf, htf, hoff⟩

theorem Covered.setOffset {pass : Pass} (h : Covered fs tracked pass) (k : String) (pos : Nat) :
    Covered fs (setOffset tracked k pos) pass := by
  unfold Sender.setOffset
  cases ht : tracked.get? k with
  | none => exact h
  | some tf =>
    refine ⟨fun j hj => ?_, h.names⟩
    rw [ODict.get?_set] at hj
    split at hj
    · rename_i e
      exact h.keys j (by rw [e, ht]; rfl)
    · exact h.keys j hj

/-- The offset goes to `pos`, the process to a reading phase at the same place. -/
theorem InvOf.readOn {s : Sys} {pass : Pass} {k : String} {r : Reading} {tf : Tracked}
    (h : InvOf cfg bootId A s)
    (hsnap : Snapshot cfg A s.fs s.proc.nextSequence s.proc.tailFiles (some k))
    (hcov : Covered s.fs s.proc.tailFiles pass) (hreads : Reads A s.fs s.proc.nextSequence r)
    (hk : r.key = k) (htf : s.proc.tailFiles.get? k = some tf) {phase : Phase}
    (hphase : phase = .refill pass r ∨ phase = .split pass r) :
    InvOf cfg bootId A ((s.setOffset k r.pos).goto phase) := by
  subst hk
  have hall : Snapshot cfg A s.fs s.proc.nextSequence
        (Sender.setOffset s.proc.tailFiles r.key r.pos) (some r.key) ∧
      Covered s.fs (Sender.setOffset s.proc.tailFiles r.key r.pos) pass ∧
      Reads A s.fs s.proc.nextSequence r ∧
      ∃ tf, (Sender.setOffset s.proc.tailFiles r.key r.pos).get? r.key = some tf ∧
        tf.offset = r.pos :=
    ⟨hsnap.setExcept r.pos, hcov.setOffset r.key r.pos, hreads, get?_setOffset htf r.pos⟩
  refine ⟨h.distinct, h.log, h.bootSaved, h.boot, h.saved, ?_⟩
  rcases hphase with rfl | rfl
  · exact hall
  · exact hall

/-- A number is given: to the assignment's file, or to a file the assignment takes in. -/
theorem InvOf.send {s : Sys} {pass : Pass} {r : Reading} {tf : Tracked} {nl : Nat}
    (h : InvOf cfg bootId A s)
    (hsnap : Snapshot cfg A s.fs s.proc.nextSequence s.proc.tailFiles (some r.key))
    (hcov : Covered s.fs s.proc.tailFiles pass) (hreads : Reads A s.fs s.proc.nextSequence r)
    (htf : s.proc.tailFiles.get? r.key = some tf) (hskip : r.skipping = false)
    (hnl : r.buf.findIdx? (· = NEWLINE) = some nl) (hsend : numbered (r.buf.take nl) = true)
    (hsame : ∀ e ∈ s.log, e.sequence = s.proc.nextSequence → e.key = r.handle) :
    Inv cfg bootId { s with
      log := s.log ++ [⟨s.proc.bootId, s.proc.nextSequence, r.handle, r.pos, r.buf.take nl⟩]
      proc := { s.proc with
        nextSequence := s.proc.nextSequence + 1
        sinceSave := s.proc.sinceSave + 1
        phase := .sent pass { r with buf := r.buf.drop (nl + 1), pos := r.pos + nl + 1 } } } := by
  obtain ⟨f, hf, hfk, hh, hline, hrest, hno, hat, hnext⟩ := hreads.lineAt hskip hnl
  rw [hh] at hsame
  obtain ⟨l, hget, hfull⟩ := h.log.assign hsnap.le hsame
  have hsnap' := (hsnap.extend l).assigned htf hget
  have hcount := take_append_count (l := l) hsnap.le r.key
  refine ⟨A ++ l, h.distinct, ⟨fun e he => ?_, fun m hm => ?_⟩, h.bootSaved, h.boot,
    fun hb => (h.saved hb).extend l, hsnap', hcov, ⟨hh, f, hf, hfk, hrest, hat.1, ?_, ?_⟩, hskip,
    tf, htf⟩
  · rcases List.mem_append.1 he with he | he
    · exact (h.log.logged e he).extend l
    · rw [List.mem_singleton] at he
      subst he
      exact ⟨h.boot, by rw [hh]; exact hget, f, hf, by rw [hfk, hh], hline, hsend, by
        simp only
        rw [hh, hcount, hno]⟩
  · rcases hfull m hm with hlt | rfl
    · obtain ⟨e, he, hs⟩ := h.log.full m hlt
      exact ⟨e, List.mem_append_left _ he, hs⟩
    · exact ⟨_, List.mem_append_right _ (List.mem_singleton_self _), rfl⟩
  · simp only
    rw [hnext, if_pos hsend, count_take_succ hget, hcount, if_pos rfl]
  · simp only [hskip, Bool.false_eq_true, if_false]
    exact hat.2

/-! ## Conditions on runs -/

/-- The line that the next step of the inner loop gives a number. -/
def Reading.nextLine (r : Reading) : Option Bytes :=
  if r.lines ≥ MAX_LINES_PER_FILE_PASS ∨ r.skipping then none
  else match r.buf.findIdx? (· = NEWLINE) with
    | none => none
    | some nl => if sendable (r.buf.take nl) then some (r.buf.take nl) else none

/-- No oversized line is given a number, and no pass leaves a file inside one. -/
def WholeLines (s : Sys) : Phase → Prop
  | .split _ r => ∀ line ∈ r.nextLine, line.length ≤ MAX_LINE_BYTES
  | .refill _ r => (r.lines ≥ MAX_LINES_PER_FILE_PASS ∨
      slice (dataOf s.fs r.handle) (r.pos + r.buf.length) CHUNK_BYTES = []) → r.skipping = false
  | _ => True

/-- A number that was given before is given again only to the file it was given to. -/
def SameFile (s : Sys) : Phase → Prop
  | .split _ r => ∀ line ∈ r.nextLine,
      ∀ e ∈ s.log, e.sequence = s.proc.nextSequence → e.key = r.handle
  | _ => True

/-- No tracked file is forgotten for want of room. -/
def NoEviction (s : Sys) : Phase → Prop
  | .listed pass => pass.todo = [] → s.proc.tailFiles.length ≤ MAX_TRACKED_FILES
  | _ => True

/-- No save is due inside a pass. -/
def NoSaveInside (cfg : Config) (s : Sys) : Phase → Prop
  | .sent .. => s.proc.sinceSave < cfg.persistEvery
  | _ => True

instance (s : Sys) : (phase : Phase) → Decidable (WholeLines s phase)
  | .split _ r => inferInstanceAs (Decidable (∀ line ∈ r.nextLine, line.length ≤ MAX_LINE_BYTES))
  | .refill _ r => inferInstanceAs (Decidable ((r.lines ≥ MAX_LINES_PER_FILE_PASS ∨
      slice (dataOf s.fs r.handle) (r.pos + r.buf.length) CHUNK_BYTES = []) → r.skipping = false))
  | .idle | .listed _ | .stated .. | .prefixed .. | .opening .. | .sent .. | .passed _ => .isTrue trivial

instance (s : Sys) : (phase : Phase) → Decidable (SameFile s phase)
  | .split _ r => inferInstanceAs (Decidable (∀ line ∈ r.nextLine,
      ∀ e ∈ s.log, e.sequence = s.proc.nextSequence → e.key = r.handle))
  | .idle | .listed _ | .stated .. | .prefixed .. | .opening .. | .refill .. | .sent .. | .passed _ =>
    .isTrue trivial

instance (s : Sys) : (phase : Phase) → Decidable (NoEviction s phase)
  | .listed pass => inferInstanceAs (Decidable (pass.todo = [] →
      s.proc.tailFiles.length ≤ MAX_TRACKED_FILES))
  | .idle | .stated .. | .prefixed .. | .opening .. | .refill .. | .split .. | .sent .. | .passed _ =>
    .isTrue trivial

instance (cfg : Config) (s : Sys) : (phase : Phase) → Decidable (NoSaveInside cfg s phase)
  | .sent .. => inferInstanceAs (Decidable (s.proc.sinceSave < cfg.persistEvery))
  | .idle | .listed _ | .stated .. | .prefixed .. | .opening .. | .refill .. | .split .. | .passed _ =>
    .isTrue trivial

/-- The condition under which numbers keep their lines. -/
structure Aligned (s : Sys) (a : Act) : Prop where
  oversize : a = .step → WholeLines s s.proc.phase
  file : a = .step → SameFile s s.proc.phase
  tracked : a = .step → NoEviction s s.proc.phase
  restart : a = .restart → s.saved.betweenPasses = true

instance (s : Sys) (a : Act) : Decidable (Aligned s a) :=
  decidable_of_iff ((a = .step → WholeLines s s.proc.phase) ∧ (a = .step → SameFile s s.proc.phase) ∧
      (a = .step → NoEviction s s.proc.phase) ∧ (a = .restart → s.saved.betweenPasses = true))
    ⟨fun h => ⟨h.1, h.2.1, h.2.2.1, h.2.2.2⟩, fun h => ⟨h.1, h.2, h.3, h.4⟩⟩

/-! ## The inner loop, and the end of a pass -/

theorem nextLine_some {r : Reading} {nl : Nat} (hlines : ¬ r.lines ≥ MAX_LINES_PER_FILE_PASS)
    (hskip : r.skipping = false) (hnl : r.buf.findIdx? (· = NEWLINE) = some nl)
    (hsend : sendable (r.buf.take nl) = true) : r.nextLine = some (r.buf.take nl) := by
  unfold Reading.nextLine
  rw [if_neg (by simp [hlines, hskip]), hnl]
  simp only
  rw [if_pos hsend]

theorem InvOf.stepSplit {s : Sys} {pass : Pass} {r : Reading} (h : InvOf cfg bootId A s)
    (hp : s.proc.phase = .split pass r)
    (hwhole : ∀ line, r.nextLine = some line → line.length ≤ MAX_LINE_BYTES)
    (hfile : ∀ line, r.nextLine = some line →
      ∀ e ∈ s.log, e.sequence = s.proc.nextSequence → e.key = r.handle) :
    Inv cfg bootId (s.stepSplit pass r) := by
  have hphase := h.proc
  rw [hp] at hphase
  obtain ⟨hsnap, hcov, hreads, tf, htf, hoff⟩ := hphase
  unfold Sys.stepSplit
  by_cases hlines : r.lines ≥ MAX_LINES_PER_FILE_PASS
  · rw [if_pos hlines]
    refine ⟨A, ?_⟩
    split
    · exact h.readOn hsnap hcov hreads rfl htf (.inl rfl)
    · apply h.goto
      exact ⟨hsnap, hcov, hreads, tf, htf, hoff⟩
  · rw [if_neg hlines]
    cases hnl : r.buf.findIdx? (· = NEWLINE) with
    | none =>
      refine ⟨A, ?_⟩
      simp only
      by_cases hbig : r.buf.length > MAX_LINE_BYTES
      · rw [if_pos hbig]
        simp only [if_true]
        exact h.readOn (r := { r with pos := r.pos + r.buf.length, buf := [], skipping := true })
          hsnap hcov (hreads.oversize hnl hbig) rfl htf (.inl rfl)
      · rw [if_neg hbig]
        split
        · exact h.readOn hsnap hcov hreads rfl htf (.inl rfl)
        · apply h.goto
          exact ⟨hsnap, hcov, hreads, tf, htf, hoff⟩
    | some nl =>
      simp only
      by_cases hskip : r.skipping = true
      · rw [if_pos hskip]
        exact ⟨A, h.readOn (r := { r with buf := r.buf.drop (nl + 1), pos := r.pos + nl + 1,
                                          skipping := false })
          hsnap hcov (hreads.skipped hskip hnl) rfl htf (.inr rfl)⟩
      · have hskip' : r.skipping = false := by simpa using hskip
        rw [if_neg hskip]
        by_cases hsend : sendable (r.buf.take nl) = true
        · rw [if_pos hsend]
          have hnext := nextLine_some hlines hskip' hnl hsend
          have hnum : numbered (r.buf.take nl) = true := by
            simp only [numbered, hwhole _ hnext, hsend, and_self, decide_true]
          exact h.send hsnap hcov hreads htf hskip' hnl hnum (hfile _ hnext)
        · -- the line has no number
          rw [if_neg hsend]
          obtain ⟨f, hf, hfk, hh, _, hrest, _, hat, hnext⟩ := hreads.lineAt hskip' hnl
          have hnot : numbered (r.buf.take nl) = false := by
            simp [numbered, hsend]
          refine ⟨A, h.readOn (r := { r with buf := r.buf.drop (nl + 1), pos := r.pos + nl + 1,
                                             lines := r.lines + 1 })
            hsnap hcov ⟨hh, f, hf, hfk, hrest, hat.1, ?_, ?_⟩ rfl htf (.inr rfl)⟩
          · simp only
            rw [hnext, hnot]
            rfl
          · simp only [hskip', Bool.false_eq_true, if_false]
            exact hat.2

/-- What the state file holds after a save between two passes. -/
theorem InvOf.save {s : Sys} (h : InvOf cfg bootId A s) {b : Bool}
    (hb : b = true → Snapshot cfg A s.fs s.proc.nextSequence s.proc.tailFiles none) :
    InvOf cfg bootId A (s.save b) :=
  ⟨h.distinct, h.log, h.boot, h.boot, hb, h.proc⟩

theorem InvOf.stepSent {s : Sys} {pass : Pass} {r : Reading} (h : InvOf cfg bootId A s)
    (hp : s.proc.phase = .sent pass r) : InvOf cfg bootId A (s.stepSent cfg pass r) := by
  have hphase := h.proc
  rw [hp] at hphase
  obtain ⟨hsnap, hcov, hreads, hskip, tf, htf⟩ := hphase
  unfold Sys.stepSent
  have hreads' : Reads A s.fs s.proc.nextSequence { r with lines := r.lines + 1 } := hreads
  split
  · -- the save inside the pass is not one the invariant speaks of
    have hsave : InvOf cfg bootId A (s.save false) := h.save (fun hb => by cases hb)
    exact hsave.readOn (r := { r with lines := r.lines + 1 }) hsnap hcov hreads' rfl htf (.inr rfl)
  · exact h.readOn (r := { r with lines := r.lines + 1 }) hsnap hcov hreads' rfl htf (.inr rfl)

theorem InvOf.stepPassed {s : Sys} {progressed : Bool} (h : InvOf cfg bootId A s)
    (hp : s.proc.phase = .passed progressed) : InvOf cfg bootId A (s.stepPassed progressed) := by
  have hsnap := h.proc
  rw [hp] at hsnap
  unfold Sys.stepPassed
  split
  · have hsave : InvOf cfg bootId A (s.save true) := h.save (fun _ => hsnap)
    apply hsave.goto
    exact hsnap
  · apply h.goto
    exact hsnap

/-- The process is started from the state file. -/
theorem InvOf.load {s : Sys} (h : InvOf cfg bootId A s) (hb : s.saved.betweenPasses = true) :
    InvOf cfg bootId A { s with proc := s.saved.load } :=
  ⟨h.distinct, h.log, h.bootSaved, h.bootSaved, h.saved, h.saved hb⟩

/-- **What one step preserves.** -/
theorem Inv.step {s t : Sys} {a : Act} (h : Inv cfg bootId s) (ha : Aligned s a)
    (ht : tailStep cfg s a = some t) : Inv cfg bootId t := by
  obtain ⟨A, h⟩ := h
  cases a with
  | create f =>
    simp only [tailStep] at ht
    split at ht
    · rename_i hnew
      cases ht
      exact ⟨A, h.grows (Grows.append s.fs f) (h.distinct.create hnew)⟩
    · cases ht
  | append key more =>
    cases ht
    exact ⟨A, h.grows (Grows.appendTo s.fs key more) (h.distinct.appendTo key more)⟩
  | restart =>
    cases ht
    exact ⟨A, h.load (ha.restart rfl)⟩
  | stop =>
    simp only [tailStep] at ht
    split at ht
    · rename_i hp
      cases ht
      have hsnap := h.proc
      rw [hp] at hsnap
      have hsave : InvOf cfg bootId A (s.save true) := h.save (fun _ => hsnap)
      exact ⟨A, hsave.load rfl⟩
    · cases ht
  | step =>
    have hwhole := ha.oversize rfl
    have hfile := ha.file rfl
    have htracked := ha.tracked rfl
    simp only [tailStep, Sys.step] at ht
    cases hp : s.proc.phase with
    | idle =>
      rw [hp] at ht
      cases ht
      have hsnap := h.proc
      rw [hp] at hsnap
      refine ⟨A, ?_⟩
      apply h.goto
      exact ⟨hsnap, Covered.listing hsnap⟩
    | listed pass =>
      rw [hp] at ht htracked
      cases ht
      exact ⟨A, h.stepListed hp htracked⟩
    | stated pass name key size =>
      rw [hp] at ht
      cases ht
      exact ⟨A, h.stepStated hp⟩
    | prefixed pass name key size tf =>
      rw [hp] at ht
      cases ht
      exact ⟨A, h.stepPrefixed hp⟩
    | opening pass name key =>
      rw [hp] at ht
      exact ⟨A, h.stepOpening hp ht⟩
    | refill pass r =>
      rw [hp] at ht hwhole
      cases ht
      exact ⟨A, h.stepRefill hp hwhole⟩
    | split pass r =>
      rw [hp] at ht hwhole hfile
      cases ht
      exact h.stepSplit hp hwhole hfile
    | sent pass r =>
      rw [hp] at ht
      cases ht
      exact ⟨A, h.stepSent hp⟩
    | passed progressed =>
      rw [hp] at ht
      cases ht
      exact ⟨A, h.stepPassed hp⟩

theorem Inv.init (cfg : Config) (bootId : String) : Inv cfg bootId (tail cfg bootId).init := by
  have hsnap : Snapshot cfg [] [] 0 ODict.empty none :=
    ⟨Nat.le_refl _, fun k tf hk => by simp at hk, fun k tf _ hk => by simp at hk, fun k _ => rfl⟩
  exact ⟨[], ⟨by simp [tail], by simp [tail]⟩, ⟨fun e he => by simp [tail] at he,
    fun m hm => by simp at hm⟩, rfl, rfl, fun _ => hsnap, hsnap⟩

/-! ## Runs -/

/-- A sender that saves every `n` records. -/
def every (n : Nat) : Config := ⟨n, fun _ => "digest"⟩

/-- Two connections in a log. -/
def connLog : LogFile := ⟨"conn.log", "1:1", [97, 10, 98, 10]⟩

/-- One name query in another log, which a pass visits after `conn.log`. -/
def dnsLog : LogFile := ⟨"dns.log", "1:2", [99, 10]⟩

/-- The steps of a pass up to the first line of its first file. -/
def firstLine : List Act := List.replicate 7 .step

/-- A pass over `connLog` that sends its lines, a pass that finds nothing more and saves. -/
def twoPasses : List Act := List.replicate 20 .step

/-! ## No aliasing -/

/-- No two log lines share a boot id and sequence number. -/
def NoAlias (s : Sys) : Prop :=
  ∀ e ∈ s.log, ∀ e' ∈ s.log, e.bootId = e'.bootId → e.sequence = e'.sequence →
    e.key = e'.key ∧ e.start = e'.start

/-- A number given before that goes to another file is an alias. -/
theorem alias_of_not_sameFile {s t : Sys} (h : Inv cfg bootId s) (hfile : ¬ SameFile s s.proc.phase)
    (ht : tailStep cfg s .step = some t) : ¬ NoAlias t := by
  obtain ⟨A, h⟩ := h
  cases hp : s.proc.phase with
  | split pass r =>
    rw [hp] at hfile
    simp only [SameFile, not_forall] at hfile
    obtain ⟨line, hline, e, he, hs, hne⟩ := hfile
    rw [Option.mem_def] at hline
    simp only [tailStep, Sys.step, hp, Option.some.injEq] at ht
    subst ht
    unfold Reading.nextLine at hline
    unfold Sys.stepSplit
    split at hline
    · cases hline
    · rename_i hgo
      rw [not_or] at hgo
      rw [if_neg hgo.1]
      cases hnl : r.buf.findIdx? (· = NEWLINE) with
      | none => simp [hnl] at hline
      | some nl =>
        simp only [hnl] at hline ⊢
        split at hline
        · rename_i hsend
          rw [if_neg hgo.2, if_pos hsend]
          intro hno
          have hnew := hno e (List.mem_append_left _ he) _
            (List.mem_append_right _ (List.mem_singleton_self _))
            ((h.log.logged e he).boot.trans h.boot.symm) hs
          exact hne hnew.1
        · cases hline
  | _ => rw [hp] at hfile; exact absurd trivial hfile

/-- **Numbers are not used twice**, in runs where each restart is from a save between two passes,
a number given before goes to the same file again, oversized lines are discarded whole and no
tracked file is evicted; and the first number that goes to another file is used twice. -/
theorem tail_no_alias (cfg : Config) (bootId : String) (s : Sys)
    (h : (tail cfg bootId).Reach Aligned s) :
    NoAlias s ∧ ∀ t, ¬ SameFile s s.proc.phase → tailStep cfg s .step = some t → ¬ NoAlias t := by
  have hinv := h.invariant (I := Inv cfg bootId) (Inv.init cfg bootId)
    (fun s a t hs ha ht => hs.step ha ht)
  refine ⟨?_, fun t hfile ht => alias_of_not_sameFile hinv hfile ht⟩
  obtain ⟨A, hA⟩ := hinv
  intro e he e' he' _ hs
  exact hA.log.no_alias hA.distinct he he' hs

/-- Each restart is from a save between two passes. -/
def RestartBetween (s : Sys) (a : Act) : Prop := a = .restart → s.saved.betweenPasses = true

instance (s : Sys) (a : Act) : Decidable (RestartBetween s a) := by
  unfold RestartBetween; infer_instance

/-- After a restart a log that is visited earlier has a line too: the number goes to that line. -/
theorem tail_aliases : ¬ ∀ (cfg : Config) (bootId : String) (s : Sys),
    (tail cfg bootId).Reach RestartBetween s → NoAlias s := by
  intro h
  obtain ⟨s, hs⟩ : ∃ s, (tail (every 200) "b").runMeeting RestartBetween (tail (every 200) "b").init
      (.create dnsLog :: firstLine ++ .restart :: .create connLog :: firstLine) = some s := ⟨_, rfl⟩
  have hlog : s.log = [⟨"b", 0, "1:2", 0, [99]⟩, ⟨"b", 0, "1:1", 0, [97]⟩] := by
    cases hs; rfl
  have hfail := h (every 200) "b" s (Machine.reach_of_run _ hs)
  unfold NoAlias at hfail
  rw [hlog] at hfail
  have := (hfail ⟨"b", 0, "1:2", 0, [99]⟩ (by simp) ⟨"b", 0, "1:1", 0, [97]⟩ (by simp) rfl rfl).1
  simp at this

/-- A restart before anything was saved sends the first line of the same log again. -/
theorem tail_no_alias_restart : ∃ s : Sys, s.log.length = 2 ∧ NoAlias s := by
  obtain ⟨s, hs⟩ : ∃ s, (tail (every 200) "b").runMeeting Aligned (tail (every 200) "b").init
      (.create connLog :: firstLine ++ .restart :: firstLine) = some s := ⟨_, rfl⟩
  have hlen : s.log.length = 2 := by cases hs; rfl
  exact ⟨s, hlen, (tail_no_alias (every 200) "b" s (Machine.reach_of_run _ hs)).1⟩

/-! ## Restart of a sender of one file -/

/-- The offset the state file has for a file. -/
def Saved.offset (d : Saved) (key : String) : Nat :=
  ((d.tailFiles.get? key).map (·.offset)).getD 0

/-- A line that is sent again has its number again, and the state file has the number of the
first line that its offset does not cover. -/
def RestartIdempotent (s : Sys) : Prop :=
  (∀ e ∈ s.log, ∀ e' ∈ s.log, e.key = e'.key → e.start = e'.start →
    e.bootId = e'.bootId ∧ e.sequence = e'.sequence) ∧
  ∀ f ∈ s.fs, s.saved.nextSequence = lineNo numbered f.data (s.saved.offset f.key)

/-- There is one file. -/
def OneFile (s : Sys) : Act → Prop
  | .create _ => s.fs = []
  | _ => True

/-- One file, no save inside a pass, oversized lines discarded whole. -/
structure SavedBetween (cfg : Config) (s : Sys) (a : Act) : Prop where
  one : OneFile s a
  oversize : a = .step → WholeLines s s.proc.phase
  inside : a = .step → NoSaveInside cfg s s.proc.phase

instance (s : Sys) : (a : Act) → Decidable (OneFile s a)
  | .create _ => inferInstanceAs (Decidable (s.fs = []))
  | .append .. | .step | .stop | .restart => .isTrue trivial

instance (cfg : Config) (s : Sys) (a : Act) : Decidable (SavedBetween cfg s a) :=
  decidable_of_iff (OneFile s a ∧ (a = .step → WholeLines s s.proc.phase) ∧
      (a = .step → NoSaveInside cfg s s.proc.phase))
    ⟨fun h => ⟨h.1, h.2.1, h.2.2⟩, fun h => ⟨h.1, h.2, h.3⟩⟩

/-- The invariant of a sender of one file that never saves inside a pass. -/
structure OneInv (cfg : Config) (bootId : String) (s : Sys) : Prop where
  inv : Inv cfg bootId s
  one : s.fs.length ≤ 1
  between : s.saved.betweenPasses = true

theorem eq_of_length_le_one {α : Type} {l : List α} (h : l.length ≤ 1) {a b : α} (ha : a ∈ l)
    (hb : b ∈ l) : a = b := by
  match l, h with
  | [x], _ => rw [List.mem_singleton.1 ha, List.mem_singleton.1 hb]

theorem ite_setOffset_saved (s : Sys) (c : Prop) [Decidable c] (k : String) (pos : Nat)
    (phase : Phase) : ((if c then s.setOffset k pos else s).goto phase).saved = s.saved ∧
      ((if c then s.setOffset k pos else s).goto phase).fs = s.fs := by
  split <;> exact ⟨rfl, rfl⟩

/-- The save that a step makes, if any, is one between two passes. -/
theorem stepSaved {s t : Sys} (ht : s.step cfg = some t) (hin : NoSaveInside cfg s s.proc.phase)
    (hb : s.saved.betweenPasses = true) : t.saved.betweenPasses = true ∧ t.fs = s.fs := by
  unfold Sys.step at ht
  cases hp : s.proc.phase with
  | idle => rw [hp] at ht; cases ht; exact ⟨hb, rfl⟩
  | listed pass =>
    rw [hp] at ht
    cases ht
    unfold Sys.stepListed
    split
    · exact ⟨hb, rfl⟩
    · split
      · exact ⟨hb, rfl⟩
      · simp only; split <;> exact ⟨hb, rfl⟩
  | stated pass name key size => rw [hp] at ht; cases ht; exact ⟨hb, rfl⟩
  | prefixed pass name key size tf =>
    rw [hp] at ht
    cases ht
    unfold Sys.stepPrefixed
    split <;> exact ⟨hb, rfl⟩
  | opening pass name key =>
    rw [hp] at ht
    simp only [Sys.stepOpening] at ht
    split at ht
    · cases ht; exact ⟨hb, rfl⟩
    · cases ht
  | refill pass r =>
    rw [hp] at ht
    cases ht
    unfold Sys.stepRefill
    simp only
    split <;> exact ⟨hb, rfl⟩
  | split pass r =>
    rw [hp] at ht
    cases ht
    unfold Sys.stepSplit
    split
    · rw [(ite_setOffset_saved s _ _ _ _).1, (ite_setOffset_saved s _ _ _ _).2]
      exact ⟨hb, rfl⟩
    · split
      · simp only
        rw [(ite_setOffset_saved s _ _ _ _).1, (ite_setOffset_saved s _ _ _ _).2]
        exact ⟨hb, rfl⟩
      · simp only
        split
        · exact ⟨hb, rfl⟩
        · split <;> exact ⟨hb, rfl⟩
  | sent pass r =>
    rw [hp] at ht hin
    cases ht
    unfold Sys.stepSent
    rw [if_neg (by simp only [NoSaveInside] at hin; omega)]
    exact ⟨hb, rfl⟩
  | passed progressed =>
    rw [hp] at ht
    cases ht
    unfold Sys.stepPassed
    split <;> exact ⟨by first | exact hb | rfl, rfl⟩

/-- With one file the conditions of the general case are met. -/
theorem OneInv.aligned {s : Sys} {a : Act} (h : OneInv cfg bootId s)
    (ha : SavedBetween cfg s a) : Aligned s a where
  oversize := ha.oversize
  file _ := by
    obtain ⟨A, hA⟩ := h.inv
    have hproc := hA.proc
    cases hp : s.proc.phase with
    | split pass r =>
      rw [hp] at hproc
      obtain ⟨_, _, ⟨hh, f, hf, hfk, _⟩, _⟩ := hproc
      intro line _ e he _
      obtain ⟨g, hg, hgk, _⟩ := (hA.log.logged e he).line
      rw [hh, ← hfk, ← hgk, eq_of_length_le_one h.one hg hf]
    | _ => trivial
  tracked _ := by
    obtain ⟨A, hA⟩ := h.inv
    have hproc := hA.proc
    cases hp : s.proc.phase with
    | listed pass =>
      rw [hp] at hproc
      intro _
      have hsub : s.proc.tailFiles.keys ⊆ s.fs.map (·.key) := by
        intro k hk
        obtain ⟨tf, htf⟩ := Option.isSome_iff_exists.1 (ODict.get?_isSome.2 hk)
        obtain ⟨f, hf, hfk, _⟩ := hproc.1.followed k tf htf
        exact hfk ▸ List.mem_map_of_mem hf
      have hle := (List.subperm_of_subset s.proc.tailFiles.nodup hsub).length_le
      rw [List.length_map, List.length_map] at hle
      have hone := h.one
      unfold ODict.length MAX_TRACKED_FILES
      omega
    | _ => trivial
  restart _ := h.between

theorem OneInv.step {s t : Sys} {a : Act} (h : OneInv cfg bootId s) (ha : SavedBetween cfg s a)
    (ht : tailStep cfg s a = some t) : OneInv cfg bootId t := by
  refine ⟨h.inv.step (h.aligned ha) ht, ?_, ?_⟩
  · cases a with
    | create f =>
      have hnil : s.fs = [] := ha.one
      simp only [tailStep] at ht
      split at ht
      · cases ht; simp [hnil]
      · cases ht
    | append key more => cases ht; simpa [appendTo] using h.one
    | restart => cases ht; exact h.one
    | stop =>
      simp only [tailStep] at ht
      split at ht
      · cases ht; exact h.one
      · cases ht
    | step => rw [(stepSaved ht (ha.inside rfl) h.between).2]; exact h.one
  · cases a with
    | create f =>
      simp only [tailStep] at ht
      split at ht
      · cases ht; exact h.between
      · cases ht
    | append key more => cases ht; exact h.between
    | restart => cases ht; exact h.between
    | stop =>
      simp only [tailStep] at ht
      split at ht
      · cases ht; rfl
      · cases ht
    | step => exact (stepSaved ht (ha.inside rfl) h.between).1

/-- With one file every number of the assignment is the file's. -/
theorem count_of_one {s : Sys} {A : List String} (h : InvOf cfg bootId A s)
    (hone : s.fs.length ≤ 1) {f : LogFile} (hf : f ∈ s.fs) {n : Nat} (hn : n ≤ A.length) :
    (A.take n).count f.key = n := by
  have hall : ∀ k ∈ A.take n, f.key = k := by
    intro k hk
    obtain ⟨m, hm, hget⟩ := List.getElem_of_mem (List.mem_of_mem_take hk)
    obtain ⟨e, he, hs⟩ := h.log.full m hm
    have hfile := (h.log.logged e he).file
    rw [hs, List.getElem?_eq_getElem hm, hget, Option.some.injEq] at hfile
    obtain ⟨g, hg, hgk, _⟩ := (h.log.logged e he).line
    rw [hfile, ← hgk, eq_of_length_le_one hone hg hf]
  rw [List.count_eq_length.2 hall, List.length_take, Nat.min_eq_left hn]

theorem OneInv.idempotent {s : Sys} (h : OneInv cfg bootId s) : RestartIdempotent s := by
  obtain ⟨A, hA⟩ := h.inv
  constructor
  · intro e he e' he' hk hst
    have h1 := hA.log.logged e he
    have h2 := hA.log.logged e' he'
    refine ⟨h1.boot.trans h2.boot.symm, ?_⟩
    obtain ⟨f, hf, hfk, _, _, hno⟩ := h1.line
    obtain ⟨f', hf', hfk', _, _, hno'⟩ := h2.line
    have hlt := (List.getElem?_eq_some_iff.1 h1.file).1
    have hlt' := (List.getElem?_eq_some_iff.1 h2.file).1
    rw [← hfk, count_of_one hA h.one hf (by omega)] at hno
    rw [← hfk', count_of_one hA h.one hf' (by omega)] at hno'
    rw [eq_of_length_le_one h.one hf' hf, ← hst] at hno'
    omega
  · intro f hf
    have hsnap := hA.saved h.between
    have hcount := count_of_one hA h.one hf hsnap.le
    unfold Saved.offset
    cases ht : s.saved.tailFiles.get? f.key with
    | none =>
      have hzero := hsnap.untracked f.key ht
      simp only [Option.map_none, Option.getD_none, lineNo_zero]
      omega
    | some tf =>
      obtain ⟨g, hg, _, _, hno⟩ := hsnap.position f.key tf (by simp) ht
      rw [eq_of_length_le_one h.one hg hf] at hno
      simp only [Option.map_some, Option.getD_some]
      omega

/-- **A restart resends every line under its number**, in runs over one file in which no save is
due inside a pass and oversized lines are discarded whole. -/
theorem tail_restart_idempotent (cfg : Config) (bootId : String) (s : Sys)
    (h : (tail cfg bootId).Reach (SavedBetween cfg) s) : RestartIdempotent s := by
  have hinit : OneInv cfg bootId (tail cfg bootId).init := ⟨Inv.init cfg bootId, Nat.zero_le _, rfl⟩
  exact (h.invariant (I := OneInv cfg bootId) hinit (fun s a t hs ha ht => hs.step ha ht)).idempotent

/-- With a save after every record, the first line is sent again under the next number. -/
theorem tail_restart_renumbers : ¬ ∀ (cfg : Config) (bootId : String) (s : Sys),
    1 ≤ cfg.persistEvery → (tail cfg bootId).Reach OneFile s → RestartIdempotent s := by
  intro h
  obtain ⟨s, hs⟩ : ∃ s, (tail (every 1) "b").runMeeting OneFile (tail (every 1) "b").init
      (.create connLog :: firstLine ++ .step :: .restart :: firstLine) = some s := ⟨_, rfl⟩
  have hlog : s.log = [⟨"b", 0, "1:1", 0, [97]⟩, ⟨"b", 1, "1:1", 0, [97]⟩] := by
    cases hs; rfl
  have hfail := (h (every 1) "b" s (Nat.le_refl _) (Machine.reach_of_run _ hs)).1
  rw [hlog] at hfail
  have := (hfail ⟨"b", 0, "1:1", 0, [97]⟩ (by simp) ⟨"b", 1, "1:1", 0, [97]⟩ (by simp) rfl rfl).2
  simp at this

/-- Two lines sent and saved between two passes, then a restart. -/
theorem tail_restart_idempotent_saved : ∃ s : Sys, s.log.length = 2 ∧ s.saved.nextSequence = 2 ∧
    RestartIdempotent s := by
  obtain ⟨s, hs⟩ : ∃ s, (tail (every 200) "b").runMeeting (SavedBetween (every 200))
      (tail (every 200) "b").init (.create connLog :: twoPasses ++ [.restart]) = some s := ⟨_, rfl⟩
  have hlen : s.log.length = 2 := by cases hs; rfl
  have hnext : s.saved.nextSequence = 2 := by cases hs; rfl
  exact ⟨s, hlen, hnext, tail_restart_idempotent (every 200) "b" s (Machine.reach_of_run _ hs)⟩

end OTS.Sender
