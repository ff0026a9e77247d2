import Mathlib.Algebra.Order.Field.Basic
import Mathlib.Tactic.Linarith

/-!
# Token buckets

A bucket fills at `rate` tokens a unit of time and holds at most `rate`; a request takes one token, and is
refused when there is less than one.

* `take` — a request; `grants` — the requests that are granted, by their times.
* `Within` — a bucket is neither overdrawn nor too full; `Within.take` keeps it so.

Principal result: `grants_window` — requests at nondecreasing times are granted at most
`rate * (b - a) + rate` times from `a` to `b`.
-/

namespace OTS

structure TokenBucket (K : Type) where
  tokens : K
  stamp : K

namespace TokenBucket

variable {K : Type} [Field K] [LinearOrder K] (rate : K)

/-- The bucket at a later time. -/
def refill (b : TokenBucket K) (now : K) : TokenBucket K :=
  ⟨min rate (b.tokens + (now - b.stamp) * rate), now⟩

/-- The bucket after a request. -/
def take (b : TokenBucket K) (now : K) : TokenBucket K :=
  if (b.refill rate now).tokens < 1 then b.refill rate now
  else ⟨(b.refill rate now).tokens - 1, now⟩

/-- The times of the requests that are granted. -/
def grants : TokenBucket K → List K → List K
  | _, [] => []
  | b, t :: times =>
    if (b.refill rate t).tokens < 1 then grants (b.take rate t) times
    else t :: grants (b.take rate t) times

/-- Neither overdrawn nor too full. -/
structure Within (b : TokenBucket K) : Prop where
  nonneg : 0 ≤ b.tokens
  le_rate : b.tokens ≤ rate

variable {rate} {b : TokenBucket K} {now : K}

@[simp] theorem refill_stamp : (b.refill rate now).stamp = now := rfl

@[simp] theorem take_stamp : (b.take rate now).stamp = now := by
  unfold take
  split <;> rfl

theorem refill_le : (b.refill rate now).tokens ≤ b.tokens + (now - b.stamp) * rate := min_le_right ..

theorem mem_of_mem_grants {b : TokenBucket K} {times : List K} {t : K} (h : t ∈ b.grants rate times) :
    t ∈ times := by
  induction times generalizing b with
  | nil => exact h
  | cons u times ih =>
    rw [grants] at h
    split at h
    · exact List.mem_cons_of_mem _ (ih h)
    · rcases List.mem_cons.1 h with rfl | h
      · exact List.mem_cons_self
      · exact List.mem_cons_of_mem _ (ih h)

/-- A second look at the same time finds the same. -/
theorem refill_refill : (b.refill rate now).refill rate now = b.refill rate now := by
  unfold TokenBucket.refill
  simp only [sub_self, zero_mul, add_zero, min_self, ← min_assoc]

/-- The first request may as well find the bucket as it is then. -/
theorem grants_refill (b : TokenBucket K) (t : K) (times : List K) :
    (b.refill rate t).grants rate (t :: times) = b.grants rate (t :: times) := by
  have htake : (b.refill rate t).take rate t = b.take rate t := by
    unfold TokenBucket.take
    rw [refill_refill]
  rw [grants, grants, refill_refill, htake]

variable [IsStrictOrderedRing K]

theorem Within.refill (h : b.Within rate) (hnow : b.stamp ≤ now) : (b.refill rate now).Within rate := by
  have hrate : 0 ≤ rate := h.nonneg.trans h.le_rate
  have hgain : 0 ≤ (now - b.stamp) * rate := mul_nonneg (sub_nonneg.2 hnow) hrate
  constructor
  · apply le_min hrate
    linarith [h.nonneg]
  · exact min_le_left ..

theorem Within.take (h : b.Within rate) (hnow : b.stamp ≤ now) : (b.take rate now).Within rate := by
  have hfull := h.refill hnow
  unfold TokenBucket.take
  split
  · exact hfull
  · rename_i henough
    constructor
    · exact sub_nonneg.2 (not_lt.1 henough)
    · exact (sub_le_self _ zero_le_one).trans hfull.le_rate

/-- What is granted by `c` was there, or has come in since. -/
theorem grants_before {c : K} (h : b.Within rate) (hc : b.stamp ≤ c) :
    ∀ times : List K, times.Pairwise (· ≤ ·) → (∀ t ∈ times, b.stamp ≤ t) →
      (((b.grants rate times).filter (· ≤ c)).length : K) ≤ b.tokens + (c - b.stamp) * rate := by
  intro times
  have hrate : 0 ≤ rate := h.nonneg.trans h.le_rate
  induction times generalizing b with
  | nil =>
    intro _ _
    have hgain : 0 ≤ (c - b.stamp) * rate := mul_nonneg (sub_nonneg.2 hc) hrate
    simpa [grants] using add_nonneg h.nonneg hgain
  | cons t times ih =>
    intro hsorted hlater
    obtain ⟨hfirst, hrest⟩ := List.pairwise_cons.1 hsorted
    have ht : b.stamp ≤ t := hlater t List.mem_cons_self
    have hle : (b.refill rate t).tokens ≤ b.tokens + (t - b.stamp) * rate := refill_le
    have hpast : ¬ t ≤ c → ∀ u ∈ t :: times, ¬ u ≤ c := by
      intro htc u hu
      rcases List.mem_cons.1 hu with rfl | hu
      · exact htc
      · exact fun huc => htc ((hfirst u hu).trans huc)
    by_cases htc : t ≤ c
    · have hnext := ih (h.take ht) (by rwa [take_stamp]) hrest (by simpa using hfirst)
      rw [take_stamp] at hnext
      rw [grants]
      split
      · rename_i hnone
        rw [TokenBucket.take, if_pos hnone] at hnext
        rw [TokenBucket.take, if_pos hnone]
        linarith
      · rename_i hsome
        rw [TokenBucket.take, if_neg hsome] at hnext
        rw [TokenBucket.take, if_neg hsome, List.filter_cons_of_pos (by simpa using htc),
          List.length_cons, Nat.cast_add, Nat.cast_one]
        simp only at hnext
        linarith
    · -- nothing more is granted by `c`
      have hnone : (b.grants rate (t :: times)).filter (· ≤ c) = [] := by
        rw [List.filter_eq_nil_iff]
        intro u hu
        simpa using hpast htc u (mem_of_mem_grants hu)
      rw [hnone]
      have hgain : 0 ≤ (c - b.stamp) * rate := mul_nonneg (sub_nonneg.2 hc) hrate
      simpa using add_nonneg h.nonneg hgain

/-- **From `a` to `c`, at most `rate * (c - a) + rate` requests are granted.** -/
theorem grants_window {a c : K} (hac : a ≤ c) :
    ∀ (times : List K) (b : TokenBucket K), b.Within rate → times.Pairwise (· ≤ ·) →
      (∀ t ∈ times, b.stamp ≤ t) →
      (((b.grants rate times).filter fun t => a ≤ t ∧ t ≤ c).length : K) ≤ rate * (c - a) + rate := by
  intro times
  induction times with
  | nil =>
    intro b h _ _
    have hrate : 0 ≤ rate := h.nonneg.trans h.le_rate
    have hgain : 0 ≤ rate * (c - a) := mul_nonneg hrate (sub_nonneg.2 hac)
    simpa [grants] using add_nonneg hgain hrate
  | cons t times ih =>
    intro b h hsorted hlater
    obtain ⟨hfirst, hrest⟩ := List.pairwise_cons.1 hsorted
    have ht : b.stamp ≤ t := hlater t List.mem_cons_self
    have hrate : 0 ≤ rate := h.nonneg.trans h.le_rate
    by_cases hat : a ≤ t
    · -- the window is open: from here on the bucket starts with at most `rate`
      have hopen : ∀ u ∈ b.grants rate (t :: times), a ≤ u := by
        intro u hu
        rcases List.mem_cons.1 (mem_of_mem_grants hu) with rfl | hu
        · exact hat
        · exact hat.trans (hfirst u hu)
      have hfilter : ((b.grants rate (t :: times)).filter fun u => a ≤ u ∧ u ≤ c) =
          (b.grants rate (t :: times)).filter (· ≤ c) := by
        apply List.filter_congr
        intro u hu
        simp [hopen u hu]
      rw [hfilter]
      by_cases htc : t ≤ c
      · have hfull : (b.refill rate t).Within rate := h.refill ht
        have hbound := grants_before hfull (c := c) htc (t :: times) hsorted
          (List.forall_mem_cons.2 ⟨le_rfl, hfirst⟩)
        rw [grants_refill, refill_stamp] at hbound
        have hspan : (c - t) * rate ≤ rate * (c - a) := by
          rw [mul_comm]
          exact mul_le_mul_of_nonneg_left (sub_le_sub_left hat c) hrate
        linarith [hfull.le_rate]
      · have hnone : (b.grants rate (t :: times)).filter (· ≤ c) = [] := by
          rw [List.filter_eq_nil_iff]
          intro u hu
          rcases List.mem_cons.1 (mem_of_mem_grants hu) with rfl | hu
          · simpa using htc
          · simpa using lt_of_lt_of_le (not_le.1 htc) (hfirst u hu)
        rw [hnone]
        have hgain : 0 ≤ rate * (c - a) := mul_nonneg hrate (sub_nonneg.2 hac)
        simpa using add_nonneg hgain hrate
    · have hnext := ih (b.take rate t) (h.take ht) hrest (by simpa using hfirst)
      rw [grants]
      split
      · exact hnext
      · rwa [List.filter_cons_of_neg (by simp [hat])]

end TokenBucket

end OTS
