import Mathlib.Algebra.Order.Ring.Rat
import Mathlib.Data.List.Lex
import Mathlib.Data.List.Nodup
import OTSecurity.Lib.ODict
import OTSecurity.Lib.PyStr

/-!
# Checkpoints of the detection job

Model of `latest_checkpoint` and `prune` of `flink/sih_detect/supervisor.py`, over what the object store lists.

* `chkMatch` — the pattern `CHK`; `Scan` — the two accumulators of the loop over the objects.
* `StoreListing` — what the store promises of a listing.
* `Newest` — the best checkpoint and the times of the jobs, as the loop has them.

Principal result: `pruning_spares_restored` — the checkpoint that is restored is complete and has the greatest
time, and pruning spares the objects of its job.
-/

namespace OTS.Supervisor

/-! ## The listing -/

/-- An object of the bucket: its name, and when it was modified, in seconds since 1970. -/
structure Obj where
  name : PyStr
  lastModified : Option Rat

def CHECKPOINTS : PyStr := pyStr "checkpoints/"

def CHK_DASH : PyStr := pyStr "/chk-"

def METADATA : PyStr := pyStr "/_metadata"

/-- `[0-9a-f]`. -/
def isHexChar (c : Nat) : Bool := (0x30 ≤ c ∧ c ≤ 0x39) ∨ (0x61 ≤ c ∧ c ≤ 0x66)

/-- `\d`. -/
def isDecimal (c : Nat) : Bool := (decimalDigit c).isSome

/-- `s` without `pre` in front. -/
def stripFront (pre s : PyStr) : Option PyStr := if pre <+: s then some (s.drop pre.length) else none

/-- `CHK.match`: the groups.  `$` also matches before a line feed at the end. -/
def chkMatch (name : PyStr) : Option (PyStr × PyStr) :=
  (stripFront CHECKPOINTS name).bind fun rest =>
    let job := rest.take 32
    if job.length = 32 ∧ job.all isHexChar then
      (stripFront CHK_DASH (rest.drop 32)).bind fun rest =>
        let number := rest.takeWhile isDecimal
        let tail := rest.dropWhile isDecimal
        if number ≠ [] ∧ (tail = METADATA ∨ tail = METADATA ++ [0x0A]) then some (job, number) else none
    else none

/-! ## The latest checkpoint -/

/-- `best` and `by_job`. -/
structure Scan where
  best : Option (Rat × PyStr)
  byJob : ODict PyStr Rat

/-- `obj.last_modified.timestamp() if obj.last_modified else 0`. -/
def Obj.stamp (o : Obj) : Rat := o.lastModified.getD 0

/-- The path of a checkpoint. -/
def chkPath (bucket job number : PyStr) : PyStr :=
  pyStr "s3://" ++ bucket ++ [0x2F] ++ CHECKPOINTS ++ job ++ CHK_DASH ++ number

/-- One round of the loop. -/
def Scan.add (bucket : PyStr) (s : Scan) (o : Obj) : Scan :=
  match chkMatch o.name with
  | none => s
  | some (job, number) =>
    { byJob := s.byJob.set job (max ((s.byJob.get? job).getD 0) o.stamp)
      best :=
        match s.best with
        | none => some (o.stamp, chkPath bucket job number)
        | some b => if b.1 < o.stamp then some (o.stamp, chkPath bucket job number) else some b }

/-- `sorted(by_job, key=by_job.get, reverse=True)`. -/
def newestFirst (byJob : ODict PyStr Rat) : List PyStr :=
  byJob.keys.mergeSort fun a b => (byJob.get? b).getD 0 ≤ (byJob.get? a).getD 0

/-- `latest_checkpoint`. -/
def latestCheckpoint (bucket : PyStr) (objs : List Obj) : Option PyStr × List PyStr :=
  let s := objs.foldl (Scan.add bucket) ⟨none, .empty⟩
  (s.best.map (·.2), newestFirst s.byJob)

/-- What precedes the names of a job's objects. -/
def jobPrefix (job : PyStr) : PyStr := CHECKPOINTS ++ job ++ [0x2F]

/-- `prune`: the names that it removes, of what the store then lists. -/
def prune (list : PyStr → List Obj) (jobs : List PyStr) (keep : Nat) : List PyStr :=
  (jobs.drop keep).flatMap fun job => (list (jobPrefix job)).map (·.name)

/-! ## What the store promises -/

/-- A listing of the store: in lexicographic order of the names, none of which ends in a line feed, and with
no time before 1970. -/
structure StoreListing (objs : List Obj) : Prop where
  sorted : objs.Pairwise (·.name ≤ ·.name)
  names : ∀ o ∈ objs, o.name.getLast? ≠ some 0x0A
  times : ∀ o ∈ objs, ∀ t ∈ o.lastModified, 0 ≤ t

/-- The name of the metadata of a checkpoint. -/
def metadataName (job number : PyStr) : PyStr := CHECKPOINTS ++ job ++ CHK_DASH ++ number ++ METADATA

variable {bucket : PyStr} {o : Obj} {objs : List Obj} {job number : PyStr}

/-! ## The pattern -/

theorem stripFront_some {pre s rest : PyStr} : stripFront pre s = some rest ↔ s = pre ++ rest := by
  unfold stripFront
  constructor
  · intro h
    split at h
    · rename_i hpre
      obtain ⟨t, rfl⟩ := hpre
      rw [List.drop_left, Option.some.injEq] at h
      rw [h]
    · cases h
  · rintro rfl
    rw [if_pos (List.prefix_append pre rest), List.drop_left]

/-- What the pattern matches. -/
theorem chkMatch_some {name : PyStr} (h : chkMatch name = some (job, number)) : job.length = 32 ∧
    ∃ tail, name = CHECKPOINTS ++ (job ++ (CHK_DASH ++ (number ++ tail))) ∧
      (tail = METADATA ∨ tail = METADATA ++ [0x0A]) := by
  unfold chkMatch at h
  obtain ⟨rest, hrest, h⟩ := Option.bind_eq_some_iff.1 h
  simp only at h
  split at h
  · rename_i hjob
    obtain ⟨rest', hrest', h⟩ := Option.bind_eq_some_iff.1 h
    split at h
    · rename_i htail
      obtain ⟨rfl, rfl⟩ := Prod.mk.inj (Option.some.inj h)
      rw [stripFront_some] at hrest hrest'
      refine ⟨hjob.1, _, ?_, htail.2⟩
      rw [List.takeWhile_append_dropWhile, ← hrest', List.take_append_drop, hrest]
    · cases h
  · cases h

/-- A name without a line feed at its end is that of the metadata. -/
theorem name_of_chkMatch {name : PyStr} (h : chkMatch name = some (job, number))
    (hend : name.getLast? ≠ some 0x0A) : name = metadataName job number := by
  obtain ⟨-, tail, hname, htail⟩ := chkMatch_some h
  rcases htail with rfl | rfl
  · rw [hname]
    simp only [metadataName, List.append_assoc]
  · rw [hname] at hend
    simp [← List.append_assoc] at hend

/-- Names in order have their jobs in order. -/
theorem job_le {name name' : PyStr} {job' number' : PyStr} (h : chkMatch name = some (job, number))
    (h' : chkMatch name' = some (job', number')) (hle : name ≤ name') : job ≤ job' := by
  obtain ⟨hlen, tail, rfl, -⟩ := chkMatch_some h
  obtain ⟨hlen', tail', rfl, -⟩ := chkMatch_some h'
  refine not_lt.1 fun hlt => not_lt.2 hle ?_
  exact List.append_left_lt (append_lt (hlen'.trans hlen.symm) hlt _ _)

theorem stamp_nonneg (h : ∀ t ∈ o.lastModified, 0 ≤ t) : 0 ≤ o.stamp := by
  unfold Obj.stamp
  cases ht : o.lastModified with
  | none => exact le_refl _
  | some t => exact h t ht

/-! ## The loop -/

/-- Nothing found yet. -/
structure NoneYet (seen : List Obj) (s : Scan) : Prop where
  start : s = ⟨none, .empty⟩
  incomplete : ∀ o ∈ seen, chkMatch o.name = none

/-- The first of the newest checkpoints.  The jobs are found in the order of their names, so no job before its
own has a checkpoint as new. -/
structure Newest (bucket : PyStr) (seen : List Obj) (s : Scan) (o : Obj) (job number : PyStr) : Prop where
  listed : o ∈ seen
  complete : chkMatch o.name = some (job, number)
  best : s.best = some (o.stamp, chkPath bucket job number)
  greatest : ∀ o' ∈ seen, (chkMatch o'.name).isSome → o'.stamp ≤ o.stamp
  sorted : s.byJob.keys.Pairwise (· < ·)
  own : s.byJob.get? job = some o.stamp
  others : ∀ k t, s.byJob.get? k = some t → t ≤ o.stamp ∧ (k < job → t < o.stamp)
  origin : ∀ k ∈ s.byJob.keys, ∃ o' ∈ seen, ∃ n, chkMatch o'.name = some (k, n)

variable {seen : List Obj} {s : Scan} {x : Obj} {job' number' : PyStr}

theorem add_incomplete (h : chkMatch x.name = none) : s.add bucket x = s := by
  unfold Scan.add
  rw [h]

theorem add_complete (hx : chkMatch x.name = some (job', number')) : s.add bucket x =
    { byJob := s.byJob.set job' (max ((s.byJob.get? job').getD 0) x.stamp)
      best :=
        match s.best with
        | none => some (x.stamp, chkPath bucket job' number')
        | some b => if b.1 < x.stamp then some (x.stamp, chkPath bucket job' number') else some b } := by
  unfold Scan.add
  rw [hx]

/-- Jobs that come in order stay in order. -/
theorem sorted_set {d : ODict PyStr Rat} {k : PyStr} (v : Rat) (hs : d.keys.Pairwise (· < ·))
    (hle : ∀ j ∈ d.keys, j ≤ k) : (d.set k v).keys.Pairwise (· < ·) := by
  by_cases hk : k ∈ d.keys
  · rwa [ODict.keys_set_of_mem v hk]
  · rw [ODict.keys_set_of_not_mem v hk, List.pairwise_append]
    refine ⟨hs, List.pairwise_singleton _ _, fun j hj k' hk' => ?_⟩
    rw [List.mem_singleton.1 hk']
    rcases lt_or_eq_of_le (hle j hj) with hlt | rfl
    · exact hlt
    · exact absurd hj hk

theorem NoneYet.add (h : NoneYet seen s) (hx : chkMatch x.name = some (job', number')) (htime : 0 ≤ x.stamp) :
    Newest bucket (seen ++ [x]) (s.add bucket x) x job' number' := by
  obtain ⟨rfl, hnone⟩ := h
  have hmax : max 0 x.stamp = x.stamp := max_eq_right htime
  rw [add_complete hx]
  simp only [ODict.get?_empty, Option.getD_none, hmax]
  refine ⟨by simp, hx, rfl, ?_, ?_, ODict.get?_set_self .., ?_, ?_⟩
  · intro o' ho' hsome
    rcases List.mem_append.1 ho' with ho' | ho'
    · rw [hnone o' ho'] at hsome
      cases hsome
    · rw [List.mem_singleton.1 ho']
  · exact sorted_set _ List.Pairwise.nil fun j hj => (List.not_mem_nil hj).elim
  · intro k t hk
    rw [ODict.get?_set] at hk
    split at hk
    · rename_i hkj
      obtain rfl := Option.some.inj hk
      exact ⟨le_refl _, fun hlt => absurd (hkj ▸ hlt) (List.lt_irrefl _)⟩
    · cases hk
  · intro k hk
    rcases ODict.mem_keys_set.1 hk with rfl | hk
    · exact ⟨x, by simp, number', hx⟩
    · exact (List.not_mem_nil hk).elim

/-- The jobs found so far come before that of a later name. -/
theorem Newest.keys_le (h : Newest bucket seen s o job number) (hx : chkMatch x.name = some (job', number'))
    (hle : ∀ o' ∈ seen, o'.name ≤ x.name) : ∀ k ∈ s.byJob.keys, k ≤ job' := by
  intro k hk
  obtain ⟨o', ho', n, hn⟩ := h.origin k hk
  exact job_le hn hx (hle o' ho')

theorem Newest.origin_add (h : Newest bucket seen s o job number) (hx : chkMatch x.name = some (job', number'))
    (v : Rat) : ∀ k ∈ (s.byJob.set job' v).keys, ∃ o' ∈ seen ++ [x], ∃ n, chkMatch o'.name = some (k, n) := by
  intro k hk
  rcases ODict.mem_keys_set.1 hk with rfl | hk
  · exact ⟨x, by simp, number', hx⟩
  · obtain ⟨o', ho', hn⟩ := h.origin k hk
    exact ⟨o', List.mem_append_left _ ho', hn⟩

/-- The time of a job so far is none that a newer checkpoint does not beat. -/
theorem Newest.held_le (h : Newest bucket seen s o job number) {v : Rat} (ho : o.stamp ≤ v) (hv : 0 ≤ v)
    (k : PyStr) : (s.byJob.get? k).getD 0 ≤ v := by
  cases hk : s.byJob.get? k with
  | none => exact hv
  | some t => exact (h.others k t hk).1.trans ho

/-- A newer checkpoint. -/
theorem Newest.add_newer (h : Newest bucket seen s o job number) (hx : chkMatch x.name = some (job', number'))
    (hle : ∀ o' ∈ seen, o'.name ≤ x.name) (htime : 0 ≤ x.stamp) (hlt : o.stamp < x.stamp) :
    Newest bucket (seen ++ [x]) (s.add bucket x) x job' number' := by
  have hmax : max ((s.byJob.get? job').getD 0) x.stamp = x.stamp := max_eq_right (h.held_le hlt.le htime job')
  rw [add_complete hx, hmax, h.best]
  simp only [if_pos hlt]
  refine ⟨by simp, hx, rfl, ?_, sorted_set _ h.sorted (h.keys_le hx hle), ODict.get?_set_self .., ?_,
    h.origin_add hx _⟩
  · intro o' ho' hsome
    rcases List.mem_append.1 ho' with ho' | ho'
    · exact (h.greatest o' ho' hsome).trans hlt.le
    · rw [List.mem_singleton.1 ho']
  · intro k t hk
    rw [ODict.get?_set] at hk
    split at hk
    · rename_i hkj
      obtain rfl := Option.some.inj hk
      exact ⟨le_refl _, fun hlt => absurd (hkj ▸ hlt) (List.lt_irrefl _)⟩
    · have hold := (h.others k t hk).1
      exact ⟨hold.trans hlt.le, fun _ => hold.trans_lt hlt⟩

/-- A checkpoint that is not newer. -/
theorem Newest.add_older (h : Newest bucket seen s o job number) (hx : chkMatch x.name = some (job', number'))
    (hle : ∀ o' ∈ seen, o'.name ≤ x.name) (htime : 0 ≤ x.stamp) (hge : x.stamp ≤ o.stamp) :
    Newest bucket (seen ++ [x]) (s.add bucket x) o job number := by
  have hkeys := h.keys_le hx hle
  have hjob : job ≤ job' := hkeys job (ODict.get?_isSome.1 (by rw [h.own]; rfl))
  have hheld : max ((s.byJob.get? job').getD 0) x.stamp ≤ o.stamp :=
    max_le (h.held_le (le_refl _) (htime.trans hge) job') hge
  rw [add_complete hx, h.best]
  simp only [if_neg hge.not_gt]
  refine ⟨List.mem_append_left _ h.listed, h.complete, rfl, ?_, sorted_set _ h.sorted hkeys, ?_, ?_,
    h.origin_add hx _⟩
  · intro o' ho' hsome
    rcases List.mem_append.1 ho' with ho' | ho'
    · exact h.greatest o' ho' hsome
    · rw [List.mem_singleton.1 ho']
      exact hge
  · rw [ODict.get?_set]
    split
    · rename_i hsame
      rw [← hsame, h.own, Option.getD_some, max_eq_left hge]
    · exact h.own
  · intro k t hk
    rw [ODict.get?_set] at hk
    split at hk
    · rename_i hkj
      rw [← Option.some.inj hk]
      exact ⟨hheld, fun hlt => absurd (hkj ▸ hlt) hjob.not_gt⟩
    · exact h.others k t hk

/-- **The loop**: it has found nothing, or the first of the newest checkpoints. -/
theorem scan_spec (bucket : PyStr) (hlisting : StoreListing objs) :
    NoneYet objs (objs.foldl (Scan.add bucket) ⟨none, .empty⟩) ∨
      ∃ o job number, Newest bucket objs (objs.foldl (Scan.add bucket) ⟨none, .empty⟩) o job number := by
  suffices hloop : ∀ rest seen s, (seen ++ rest).Pairwise (·.name ≤ ·.name) →
      (∀ o ∈ rest, 0 ≤ o.stamp) → (NoneYet seen s ∨ ∃ o job number, Newest bucket seen s o job number) →
      NoneYet (seen ++ rest) (rest.foldl (Scan.add bucket) s) ∨
        ∃ o job number, Newest bucket (seen ++ rest) (rest.foldl (Scan.add bucket) s) o job number by
    have htimes : ∀ o ∈ objs, 0 ≤ o.stamp := fun o ho => stamp_nonneg (hlisting.times o ho)
    exact hloop objs [] _ hlisting.sorted htimes (.inl ⟨rfl, fun o ho => (List.not_mem_nil ho).elim⟩)
  intro rest
  induction rest with
  | nil =>
    intro seen s _ _ h
    rwa [List.append_nil]
  | cons x rest ih =>
    intro seen s hsorted htimes h
    rw [List.forall_mem_cons] at htimes
    have hsplit : seen ++ x :: rest = seen ++ [x] ++ rest := by simp
    have hle : ∀ o' ∈ seen, o'.name ≤ x.name :=
      fun o' ho' => (List.pairwise_append.1 hsorted).2.2 o' ho' x List.mem_cons_self
    rw [hsplit, List.foldl_cons]
    rw [hsplit] at hsorted
    refine ih (seen ++ [x]) _ hsorted htimes.2 ?_
    cases hx : chkMatch x.name with
    | none =>
      rw [add_incomplete hx]
      rcases h with h | ⟨o, job, number, h⟩
      · refine .inl ⟨h.start, fun o ho => ?_⟩
        rcases List.mem_append.1 ho with ho | ho
        · exact h.incomplete o ho
        · rw [List.mem_singleton.1 ho, hx]
      · refine .inr ⟨o, job, number, ?_⟩
        refine { h with listed := List.mem_append_left _ h.listed, greatest := ?_, origin := ?_ }
        · intro o' ho' hsome
          rcases List.mem_append.1 ho' with ho' | ho'
          · exact h.greatest o' ho' hsome
          · rw [List.mem_singleton.1 ho', hx] at hsome
            cases hsome
        · intro k hk
          obtain ⟨o', ho', hn⟩ := h.origin k hk
          exact ⟨o', List.mem_append_left _ ho', hn⟩
    | some groups =>
      obtain ⟨job', number'⟩ := groups
      rcases h with h | ⟨o, job, number, h⟩
      · exact .inr ⟨x, job', number', h.add hx htimes.1⟩
      · rcases lt_or_ge o.stamp x.stamp with hlt | hge
        · exact .inr ⟨x, job', number', h.add_newer hx hle htimes.1 hlt⟩
        · exact .inr ⟨o, job, number, h.add_older hx hle htimes.1 hge⟩

/-! ## The order of the jobs -/

/-- Two elements of a list in order, one after the other. -/
theorem pair_sublist {ks : List PyStr} (hs : ks.Pairwise (· < ·)) {j k : PyStr} (hj : j ∈ ks) (hk : k ∈ ks)
    (hlt : j < k) : List.Sublist [j, k] ks := by
  obtain ⟨before, behind, rfl⟩ := List.append_of_mem hj
  obtain ⟨-, hbehind, hbefore⟩ := List.pairwise_append.1 hs
  have hmem : k ∈ behind := by
    rcases List.mem_append.1 hk with hk | hk
    · exact absurd (hbefore k hk j List.mem_cons_self) (List.lt_asymm hlt)
    · rcases List.mem_cons.1 hk with rfl | hk
      · exact absurd hlt (List.lt_irrefl _)
      · exact hk
  exact ((List.singleton_sublist.2 hmem).cons_cons j).trans (List.sublist_append_right _ _)

/-- **The job of the newest checkpoint is the first**, the sort being stable. -/
theorem Newest.head (h : Newest bucket seen s o job number) : ∃ rest, newestFirst s.byJob = job :: rest := by
  have hperm : (newestFirst s.byJob).Perm s.byJob.keys := List.mergeSort_perm _ _
  have hjob : job ∈ s.byJob.keys := ODict.get?_isSome.1 (by rw [h.own]; rfl)
  have htrans : ∀ a b c : PyStr, decide ((s.byJob.get? b).getD 0 ≤ (s.byJob.get? a).getD 0) = true →
      decide ((s.byJob.get? c).getD 0 ≤ (s.byJob.get? b).getD 0) = true →
      decide ((s.byJob.get? c).getD 0 ≤ (s.byJob.get? a).getD 0) = true := by
    intro a b c hab hbc
    exact decide_eq_true ((of_decide_eq_true hbc).trans (of_decide_eq_true hab))
  have htotal : ∀ a b : PyStr, (decide ((s.byJob.get? b).getD 0 ≤ (s.byJob.get? a).getD 0) ||
      decide ((s.byJob.get? a).getD 0 ≤ (s.byJob.get? b).getD 0)) = true := by
    intro a b
    simp only [Bool.or_eq_true, decide_eq_true_eq]
    exact le_total _ _
  have hsorted : (newestFirst s.byJob).Pairwise fun a b =>
      decide ((s.byJob.get? b).getD 0 ≤ (s.byJob.get? a).getD 0) = true := List.pairwise_mergeSort htrans htotal _
  cases hjobs : newestFirst s.byJob with
  | nil => exact absurd (hjobs ▸ hperm.symm.subset hjob) List.not_mem_nil
  | cons first rest =>
    have hfirst : first ∈ s.byJob.keys := hperm.subset (hjobs ▸ List.mem_cons_self)
    obtain ⟨t, ht⟩ := Option.isSome_iff_exists.1 (ODict.get?_isSome.2 hfirst)
    by_cases hsame : first = job
    · exact ⟨rest, by rw [hsame]⟩
    exfalso
    have hrest : job ∈ rest := by
      have hmem : job ∈ first :: rest := hjobs ▸ hperm.symm.subset hjob
      exact (List.mem_cons.1 hmem).resolve_left (Ne.symm hsame)
    have hvalue : o.stamp ≤ t := by
      have hle := (List.pairwise_cons.1 (hjobs ▸ hsorted)).1 job hrest
      rw [decide_eq_true_eq, h.own, ht] at hle
      exact hle
    have hlt : job < first := by
      refine lt_of_le_of_ne (not_lt.1 fun hlt => ?_) (Ne.symm hsame)
      exact absurd ((h.others first t ht).2 hlt) hvalue.not_gt
    have hnodup : (first :: rest).Nodup := hjobs ▸ hperm.nodup_iff.2 s.byJob.nodup
    have hstable : List.Sublist [job, first] (first :: rest) := by
      rw [← hjobs]
      refine List.pair_sublist_mergeSort htrans htotal ?_ (pair_sublist h.sorted hjob hfirst hlt)
      rw [decide_eq_true_eq, h.own, ht]
      exact (h.others first t ht).1
    cases hstable with
    | cons _ hin => exact (List.nodup_cons.1 hnodup).1 (hin.subset (by simp))
    | cons_cons _ _ => exact hsame rfl

/-! ## Pruning -/

/-- A complete checkpoint, to the code. -/
def Complete (o : Obj) : Prop := (chkMatch o.name).isSome = true

instance (o : Obj) : Decidable (Complete o) := inferInstanceAs (Decidable (_ = true))

theorem newestFirst_mem {d : ODict PyStr Rat} {k : PyStr} : k ∈ newestFirst d ↔ k ∈ d.keys :=
  (List.mergeSort_perm _ _).mem_iff

/-- Names below the directories of different jobs are different. -/
theorem jobPrefix_inj {name : PyStr} (hlen : job.length = job'.length) (h : jobPrefix job <+: name)
    (h' : jobPrefix job' <+: name) : job = job' := by
  have hsame : (jobPrefix job).length = (jobPrefix job').length := by simp [jobPrefix, hlen]
  have heq := (List.prefix_of_prefix_length_le h h' hsame.le).eq_of_length hsame
  unfold jobPrefix at heq
  exact List.append_cancel_left (List.append_cancel_right heq)

/-- What is pruned when the first job is kept. -/
theorem Newest.spared (h : Newest bucket objs s o job number) {keep : Nat} (hkeep : 1 ≤ keep)
    {list : PyStr → List Obj} (hlist : ∀ pre, ∀ o ∈ list pre, pre <+: o.name) {name : PyStr}
    (hname : name ∈ prune list (newestFirst s.byJob) keep) : ¬ jobPrefix job <+: name := by
  obtain ⟨jid, hjid, hin⟩ := List.mem_flatMap.1 hname
  obtain ⟨o', ho', rfl⟩ := List.mem_map.1 hin
  intro hjob
  obtain ⟨rest, hrest⟩ := h.head
  have hkey := newestFirst_mem.1 (List.mem_of_mem_drop hjid)
  obtain ⟨_, _, n, hn⟩ := h.origin jid hkey
  have hlen : jid.length = job.length := (chkMatch_some hn).1.trans (chkMatch_some h.complete).1.symm
  obtain rfl := jobPrefix_inj hlen (hlist _ o' ho') hjob
  have hnodup : (jid :: rest).Nodup := hrest ▸ (List.mergeSort_perm _ _).nodup_iff.2 s.byJob.nodup
  rw [hrest] at hjid
  obtain ⟨k, rfl⟩ : ∃ k, keep = k + 1 := ⟨keep - 1, by omega⟩
  rw [List.drop_succ_cons] at hjid
  exact (List.nodup_cons.1 hnodup).1 (List.mem_of_mem_drop hjid)

/-- **Pruning spares the checkpoint that is restored**: the path names a checkpoint whose metadata is listed, of
the greatest time among those complete; its job is the first of the jobs; and whatever the store lists later,
pruning that keeps at least one job removes no object of that one. -/
theorem pruning_spares_restored (bucket : PyStr) (objs : List Obj) (hlisting : StoreListing objs) (path : PyStr)
    (jobs : List PyStr) (h : latestCheckpoint bucket objs = (some path, jobs)) :
    ∃ o ∈ objs, ∃ job number, path = chkPath bucket job number ∧ o.name = metadataName job number ∧
      Complete o ∧ (∀ o' ∈ objs, Complete o' → o'.stamp ≤ o.stamp) ∧ jobs.head? = some job ∧
      ∀ keep, 1 ≤ keep → ∀ list : PyStr → List Obj, (∀ pre, ∀ o ∈ list pre, pre <+: o.name) →
        ∀ name ∈ prune list jobs keep, ¬ jobPrefix job <+: name := by
  unfold latestCheckpoint at h
  rcases scan_spec bucket hlisting with hnone | ⟨o, job, number, hnew⟩
  · rw [hnone.start] at h
    cases h
  · obtain ⟨hpath, rfl⟩ := Prod.mk.inj h
    rw [hnew.best, Option.map_some, Option.some.injEq] at hpath
    obtain ⟨rest, hrest⟩ := hnew.head
    refine ⟨o, hnew.listed, job, number, hpath.symm, ?_, by rw [Complete, hnew.complete]; rfl, hnew.greatest, ?_, ?_⟩
    · exact name_of_chkMatch hnew.complete (hlisting.names o hnew.listed)
    · rw [hrest, List.head?_cons]
    · intro keep hkeep list hlist name hname
      exact hnew.spared hkeep hlist hname

/-! ### A sample -/

def sampleJob (c : Char) : PyStr := pyStr (String.ofList (List.replicate 32 c))

/-- Two jobs whose newest checkpoints are of one time, and one without a time. -/
def sampleObjs : List Obj :=
  [⟨metadataName (sampleJob 'a') (pyStr "7"), some 100⟩, ⟨metadataName (sampleJob 'b') (pyStr "12"), none⟩,
    ⟨metadataName (sampleJob 'b') (pyStr "13"), some 100⟩]

theorem sampleObjs_listing : StoreListing sampleObjs where
  sorted := by decide +kernel
  names := by decide +kernel
  times := by decide +kernel

/-- What the store lists later below the directory of a job. -/
def sampleStore (pre : PyStr) : List Obj := [⟨pre ++ pyStr "chk-14/_metadata", none⟩]

/-- The first checkpoint is restored, and pruning to one job spares it. -/
theorem pruning_spares_restored_sample : ∃ o ∈ sampleObjs, ∃ job number,
    chkPath (pyStr "flink-checkpoints") (sampleJob 'a') (pyStr "7") =
      chkPath (pyStr "flink-checkpoints") job number ∧ o.name = metadataName job number ∧
    (latestCheckpoint (pyStr "flink-checkpoints") sampleObjs).2.head? = some job ∧
    ∀ name ∈ prune sampleStore (latestCheckpoint (pyStr "flink-checkpoints") sampleObjs).2 1,
      ¬ jobPrefix job <+: name := by
  have hpath : (latestCheckpoint (pyStr "flink-checkpoints") sampleObjs).1 =
      some (chkPath (pyStr "flink-checkpoints") (sampleJob 'a') (pyStr "7")) := by
    decide +kernel
  have hstore : ∀ pre, ∀ o ∈ sampleStore pre, pre <+: o.name := by
    intro pre o ho
    rw [List.mem_singleton.1 ho]
    exact List.prefix_append pre _
  obtain ⟨o, ho, job, number, hchk, hname, -, -, hhead, hprune⟩ :=
    pruning_spares_restored (pyStr "flink-checkpoints") sampleObjs sampleObjs_listing _ _ (Prod.ext hpath rfl)
  exact ⟨o, ho, job, number, hchk, hname, hhead, hprune 1 (Nat.le_refl 1) sampleStore hstore⟩

end OTS.Supervisor
