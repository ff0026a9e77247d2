import Mathlib.Data.List.Forall2
import Mathlib.Data.List.Nodup

/-!
# Numbered lifetimes

A sequence of items is cut into lifetimes: the items of one lifetime carry its identity and are
numbered from 1 on, and only the last one may close it.

* `Lifetime` — one lifetime; `Lifetimes ids us` — the sequence `us` is made of lifetimes with the
  identities `ids`.
* `Running` — the last lifetime is not closed; `Lifetimes.open`, `Running.extend` and
  `Running.close` are the ways a sequence grows.

Principal results: `Lifetimes.nodup_iff` — the items are identified by identity and number exactly
when no two lifetimes share their identity; `Lifetimes.separated` — then the items up to a closing
one and those after it have different identities.
-/

namespace OTS

variable {α ι : Type}

/-- How the items of a sequence are read. -/
structure Reading (α ι : Type) where
  ident : α → ι
  seq : α → Nat
  closes : α → Prop

structure Lifetime (R : Reading α ι) (i : ι) (b : List α) : Prop where
  nonempty : b ≠ []
  ident : ∀ x ∈ b, R.ident x = i
  seq : b.map R.seq = List.range' 1 b.length
  closes : ∀ x ∈ b.dropLast, ¬ R.closes x

/-- The sequence `us` is made of lifetimes with the identities `ids`. -/
def Lifetimes (R : Reading α ι) (ids : List ι) (us : List α) : Prop :=
  ∃ bs, us = bs.flatten ∧ List.Forall₂ (Lifetime R) ids bs

variable {R : Reading α ι} {i : ι} {ids : List ι} {b us : List α} {bs : List (List α)}

/-! ## One lifetime -/

theorem Lifetime.keys_nodup (h : Lifetime R i b) : (b.map fun x => (R.ident x, R.seq x)).Nodup := by
  have hseq : (b.map R.seq).Nodup := by
    rw [h.seq]
    exact List.nodup_range'
  refine List.Nodup.of_map Prod.snd ?_
  rw [List.map_map]
  exact hseq

theorem Lifetime.first (h : Lifetime R i b) : ∃ x ∈ b, R.ident x = i ∧ R.seq x = 1 := by
  cases b with
  | nil => exact absurd rfl h.nonempty
  | cons x b =>
    have hseq := h.seq
    rw [List.map_cons, List.length_cons, List.range'_succ] at hseq
    exact ⟨x, List.mem_cons_self, h.ident x List.mem_cons_self, (List.cons.inj hseq).1⟩

theorem Lifetime.single {x : α} (hi : R.ident x = i) (hs : R.seq x = 1) : Lifetime R i [x] where
  nonempty := List.cons_ne_nil _ _
  ident := by simpa using hi
  seq := by simp [hs]
  closes := by simp

theorem Lifetime.concat {x : α} (h : Lifetime R i b) (hopen : ∀ y ∈ b, ¬ R.closes y)
    (hi : R.ident x = i) (hs : R.seq x = b.length + 1) : Lifetime R i (b ++ [x]) where
  nonempty := by simp
  ident := by
    intro y hy
    rcases List.mem_append.1 hy with hy | hy
    · exact h.ident y hy
    · rw [List.mem_singleton.1 hy]
      exact hi
  seq := by
    rw [List.map_append, h.seq, List.length_append, List.length_singleton, List.range'_concat]
    simp [hs, Nat.add_comm]
  closes := by
    rw [List.dropLast_concat]
    exact hopen

/-! ## Sequences of lifetimes -/

theorem ident_mem (h : List.Forall₂ (Lifetime R) ids bs) {x : α} (hx : x ∈ bs.flatten) :
    R.ident x ∈ ids := by
  induction h with
  | nil => cases hx
  | cons hb _ ih =>
    rcases List.mem_append.1 (List.flatten_cons ▸ hx) with hx | hx
    · exact hb.ident x hx ▸ List.mem_cons_self
    · exact List.mem_cons_of_mem _ (ih hx)

theorem exists_first (h : List.Forall₂ (Lifetime R) ids bs) (hi : i ∈ ids) :
    ∃ x ∈ bs.flatten, R.ident x = i ∧ R.seq x = 1 := by
  induction h with
  | nil => cases hi
  | cons hb _ ih =>
    rcases List.mem_cons.1 hi with rfl | hi
    · obtain ⟨x, hx, hkey⟩ := hb.first
      exact ⟨x, List.mem_append_left _ hx, hkey⟩
    · obtain ⟨x, hx, hkey⟩ := ih hi
      exact ⟨x, List.mem_append_right _ hx, hkey⟩

/-- **Items are identified by identity and number exactly when identities are not reused.** -/
theorem Lifetimes.nodup_iff (h : Lifetimes R ids us) :
    (us.map fun x => (R.ident x, R.seq x)).Nodup ↔ ids.Nodup := by
  obtain ⟨bs, rfl, h⟩ := h
  induction h with
  | nil => simp
  | @cons i b ids bs hb hbs ih =>
    rw [List.flatten_cons, List.map_append, List.nodup_append, List.nodup_cons, ih]
    constructor
    · rintro ⟨_, hn, hdisj⟩
      refine ⟨fun hi => ?_, hn⟩
      -- the first items of the two lifetimes of identity `i` coincide
      obtain ⟨x, hx, hxi, hx1⟩ := hb.first
      obtain ⟨y, hy, hyi, hy1⟩ := exists_first hbs hi
      exact hdisj _ (List.mem_map_of_mem hx) _ (List.mem_map_of_mem hy) (by rw [hxi, hx1, hyi, hy1])
    · rintro ⟨hi, hn⟩
      refine ⟨hb.keys_nodup, hn, ?_⟩
      intro p hp q hq hpq
      obtain ⟨x, hx, rfl⟩ := List.mem_map.1 hp
      obtain ⟨y, hy, rfl⟩ := List.mem_map.1 hq
      have hxy : i = R.ident y := (hb.ident x hx).symm.trans (Prod.mk.inj hpq).1
      exact hi (hxy ▸ ident_mem hbs hy)

/-- A closing item ends a lifetime. -/
theorem cut_at_close (h : ∀ b ∈ bs, ∀ x ∈ b.dropLast, ¬ R.closes x) {a c : List α} {r : α}
    (heq : bs.flatten = a ++ r :: c) (hr : R.closes r) :
    ∃ l m, bs = l ++ m ∧ l.flatten = a ++ [r] ∧ m.flatten = c := by
  induction bs generalizing a with
  | nil => simp at heq
  | cons b bs ih =>
    rw [List.flatten_cons] at heq
    have hrest := fun x hx => h x (List.mem_cons_of_mem _ hx)
    rcases List.append_eq_append_iff.1 heq with ⟨a', rfl, heq'⟩ | ⟨d, rfl, heq'⟩
    · obtain ⟨l, m, rfl, hl, hm⟩ := ih hrest heq'
      exact ⟨b :: l, m, rfl, by rw [List.flatten_cons, hl, List.append_assoc], hm⟩
    · cases d with
      | nil =>
        obtain ⟨l, m, rfl, hl, hm⟩ := ih (a := []) hrest heq'.symm
        exact ⟨(a ++ []) :: l, m, rfl, by rw [List.flatten_cons, hl]; simp, hm⟩
      | cons y d =>
        obtain ⟨rfl, hc⟩ := List.cons.inj heq'
        cases d with
        | nil => exact ⟨[a ++ [r]], bs, rfl, by simp, hc.symm⟩
        | cons z d =>
          refine absurd hr (h _ List.mem_cons_self r ?_)
          rw [List.dropLast_append_of_ne_nil (by simp)]
          simp

theorem closes_last (h : List.Forall₂ (Lifetime R) ids bs) :
    ∀ b ∈ bs, ∀ x ∈ b.dropLast, ¬ R.closes x := by
  induction h with
  | nil => simp
  | cons hb _ ih =>
    intro b' hb'
    rcases List.mem_cons.1 hb' with rfl | hb'
    · exact hb.closes
    · exact ih b' hb'

/-- **Items up to a closing one and items after it belong to lifetimes of different identity.** -/
theorem Lifetimes.separated (h : Lifetimes R ids us) (hn : ids.Nodup) {a c : List α} {r : α}
    (heq : us = a ++ r :: c) (hr : R.closes r) :
    ∀ x ∈ a ++ [r], ∀ y ∈ c, R.ident x ≠ R.ident y := by
  obtain ⟨bs, rfl, h⟩ := h
  obtain ⟨l, m, rfl, hl, hm⟩ := cut_at_close (closes_last h) heq hr
  have hleft := List.forall₂_take_append ids l m h
  have hright := List.forall₂_drop_append ids l m h
  intro x hx y hy hxy
  have hxi : R.ident x ∈ ids.take l.length := ident_mem hleft (hl ▸ hx)
  have hyi : R.ident y ∈ ids.drop l.length := ident_mem hright (hm ▸ hy)
  rw [← List.take_append_drop l.length ids, List.nodup_append] at hn
  exact hn.2.2 _ hxi _ hyi hxy

/-! ## Growth -/

/-- The last lifetime of `us` is that of `i`, with `n` items and none that closes it. -/
def Running (R : Reading α ι) (ids : List ι) (us : List α) (i : ι) (n : Nat) : Prop :=
  ∃ ids' bs b, ids = ids' ++ [i] ∧ us = bs.flatten ++ b ∧ List.Forall₂ (Lifetime R) ids' bs ∧
    Lifetime R i b ∧ b.length = n ∧ ∀ x ∈ b, ¬ R.closes x

variable {n : Nat} {x : α}

theorem Lifetimes.nil : Lifetimes R [] [] := ⟨[], rfl, .nil⟩

theorem Lifetimes.open (h : Lifetimes R ids us) (hs : R.seq x = 1) (hx : ¬ R.closes x) :
    Running R (ids ++ [R.ident x]) (us ++ [x]) (R.ident x) 1 := by
  obtain ⟨bs, rfl, h⟩ := h
  exact ⟨ids, bs, [x], rfl, rfl, h, .single rfl hs, rfl, by simpa using hx⟩

theorem Running.close (h : Running R ids us i n) (hi : R.ident x = i) (hs : R.seq x = n + 1) :
    Lifetimes R ids (us ++ [x]) := by
  obtain ⟨ids', bs, b, rfl, rfl, h, hb, rfl, hopen⟩ := h
  refine ⟨bs ++ [b ++ [x]], by simp, ?_⟩
  exact List.rel_append h (.cons (hb.concat hopen hi hs) .nil)

theorem Running.extend (h : Running R ids us i n) (hi : R.ident x = i) (hs : R.seq x = n + 1)
    (hx : ¬ R.closes x) : Running R ids (us ++ [x]) i (n + 1) := by
  obtain ⟨ids', bs, b, rfl, rfl, h, hb, rfl, hopen⟩ := h
  refine ⟨ids', bs, b ++ [x], rfl, by simp, h, hb.concat hopen hi hs, by simp, ?_⟩
  intro y hy
  rcases List.mem_append.1 hy with hy | hy
  · exact hopen y hy
  · rw [List.mem_singleton.1 hy]
    exact hx

end OTS
