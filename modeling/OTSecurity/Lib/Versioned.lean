import Mathlib.Logic.Function.Basic

/-!
# Versioned documents

Documents under keys, each with a version.  A write is refused when the document that is there has a greater
version.

* `Versioned.put` — a write; nothing changes when it is refused.
* `Versioned.Performed` — writes one after the other, each with its `Result`.
* `Versioned.Accounts` — which updates a store has its documents from, and which have been tried.

Principal results: `put_le` — no version falls; `Performed.accounts` — what a sequence of writes leaves is accounted
for, and all of it when none has failed; `Accounts.unique` — what is stored does not depend on the order of the
updates, nor on repetitions.
-/

namespace OTS

structure Update (κ α : Type) where
  key : κ
  version : Nat
  doc : α

abbrev Versioned (κ α : Type) := κ → Option (Nat × α)

namespace Versioned

variable {κ α : Type}

/-- The document that is there is no newer. -/
def admits (s : Versioned κ α) (u : Update κ α) : Bool := ((s u.key).map (·.1)).all (· ≤ u.version)

/-- The document under a key has at least a version. -/
def AtLeast (s : Versioned κ α) (k : κ) (v : Nat) : Prop := ∃ x, s k = some x ∧ v ≤ x.1

/-- Every document is that of an update that is offered, and none is older than an update that was tried. -/
structure Accounts (offered tried : Update κ α → Prop) (s : Versioned κ α) : Prop where
  source : ∀ k x, s k = some x → offered ⟨k, x.1, x.2⟩
  current : ∀ u, tried u → s.AtLeast u.key u.version

/-! ## Writing -/

section Put

variable [DecidableEq κ]

def put (s : Versioned κ α) (u : Update κ α) : Versioned κ α :=
  if s.admits u then Function.update s u.key (some (u.version, u.doc)) else s

variable {s s' : Versioned κ α} {u : Update κ α} {k : κ} {v : Nat}

theorem put_key (s : Versioned κ α) (u : Update κ α) : (s.put u).AtLeast u.key u.version := by
  unfold put
  split
  · exact ⟨_, Function.update_self .., Nat.le_refl _⟩
  · rename_i hno
    unfold admits at hno
    cases hx : s u.key with
    | none =>
      rw [hx] at hno
      exact absurd rfl hno
    | some x =>
      rw [hx, Option.map_some, Option.all_some, decide_eq_true_eq] at hno
      exact ⟨x, hx, Nat.le_of_not_le hno⟩

/-- **No version falls.** -/
theorem put_le (h : s.AtLeast k v) (u : Update κ α) : (s.put u).AtLeast k v := by
  obtain ⟨x, hx, hv⟩ := h
  unfold put
  split
  · rename_i hyes
    by_cases hk : k = u.key
    · subst hk
      unfold admits at hyes
      rw [hx, Option.map_some, Option.all_some, decide_eq_true_eq] at hyes
      exact ⟨_, Function.update_self .., Nat.le_trans hv hyes⟩
    · exact ⟨x, (Function.update_of_ne hk ..).trans hx, hv⟩
  · exact ⟨x, hx, hv⟩

/-- Where the document under a key is from after a write. -/
theorem put_source {x : Nat × α} (h : s.put u k = some x) : s k = some x ∨ u = ⟨k, x.1, x.2⟩ := by
  unfold put at h
  split at h
  · by_cases hk : k = u.key
    · subst hk
      rw [Function.update_self] at h
      cases h
      exact .inr rfl
    · rw [Function.update_of_ne hk] at h
      exact .inl h
  · exact .inl h

variable {offered tried : Update κ α → Prop}

theorem Accounts.put (h : Accounts offered tried s) (hu : offered u) :
    Accounts offered (fun x => tried x ∨ x = u) (s.put u) where
  source k x hx := by
    rcases put_source hx with hx | rfl
    · exact h.source k x hx
    · exact hu
  current x hx := by
    rcases hx with hx | rfl
    · exact put_le (h.current x hx) u
    · exact put_key s x

/-! ## Several writes -/

/-- What becomes of a write: it is done, it is refused for its version, or it fails in another way. -/
inductive Result where
  | done
  | refused
  | failed
  deriving DecidableEq, Repr

/-- Writes one after the other, each with what becomes of it. -/
inductive Performed : Versioned κ α → List (Update κ α) → List Result → Versioned κ α → Prop
  | nil (s : Versioned κ α) : Performed s [] [] s
  | done {s s' : Versioned κ α} {u : Update κ α} {us : List (Update κ α)} {rs : List Result}
    (h : s.admits u = true) (rest : Performed (s.put u) us rs s') : Performed s (u :: us) (.done :: rs) s'
  | refused {s s' : Versioned κ α} {u : Update κ α} {us : List (Update κ α)} {rs : List Result}
    (h : s.admits u = false) (rest : Performed s us rs s') : Performed s (u :: us) (.refused :: rs) s'
  | failed {s s' : Versioned κ α} {u : Update κ α} {us : List (Update κ α)} {rs : List Result}
    (rest : Performed s us rs s') : Performed s (u :: us) (.failed :: rs) s'

variable {us : List (Update κ α)} {rs : List Result}

theorem Performed.le (h : Performed s us rs s') (hle : s.AtLeast k v) : s'.AtLeast k v := by
  induction h with
  | nil s => exact hle
  | done _ _ ih => exact ih (put_le hle _)
  | refused _ _ ih => exact ih hle
  | failed _ ih => exact ih hle

/-- A write that is refused leaves what `put` leaves. -/
theorem put_eq_of_refused (h : s.admits u = false) : s.put u = s :=
  if_neg (h ▸ Bool.false_ne_true)

/-- **What writes leave is accounted for**, and all of them have been tried when none has failed. -/
theorem Performed.accounts (h : Performed s us rs s') (hs : Accounts offered tried s)
    (hoffered : ∀ u ∈ us, offered u) :
    Accounts offered tried s' ∧ (.failed ∉ rs → Accounts offered (fun u => tried u ∨ u ∈ us) s') := by
  induction h generalizing tried with
  | nil s => exact ⟨hs, fun _ => ⟨hs.source, fun u hu => hs.current u (hu.resolve_right List.not_mem_nil)⟩⟩
  | @done s s' u us rs _ _ ih =>
    obtain ⟨hu, hus⟩ := List.forall_mem_cons.1 hoffered
    obtain ⟨hkept, hall⟩ := ih (hs.put hu) hus
    refine ⟨⟨hkept.source, fun x hx => hkept.current x (.inl hx)⟩, fun hfailed => ?_⟩
    have hrest := hall fun h => hfailed (List.mem_cons_of_mem _ h)
    refine ⟨hrest.source, fun x hx => hrest.current x ?_⟩
    rwa [List.mem_cons, ← or_assoc] at hx
  | @refused s s' u us rs hrefused _ ih =>
    obtain ⟨hu, hus⟩ := List.forall_mem_cons.1 hoffered
    have hput := hs.put hu
    rw [put_eq_of_refused hrefused] at hput
    obtain ⟨hkept, hall⟩ := ih hput hus
    refine ⟨⟨hkept.source, fun x hx => hkept.current x (.inl hx)⟩, fun hfailed => ?_⟩
    have hrest := hall fun h => hfailed (List.mem_cons_of_mem _ h)
    refine ⟨hrest.source, fun x hx => hrest.current x ?_⟩
    rwa [List.mem_cons, ← or_assoc] at hx
  | @failed s s' u us rs _ ih =>
    exact ⟨(ih hs (List.forall_mem_cons.1 hoffered).2).1, fun hfailed => absurd List.mem_cons_self hfailed⟩

end Put

/-! ## Accounting -/

variable {s s' : Versioned κ α} {offered : Update κ α → Prop}

theorem Accounts.init : Accounts offered (fun _ => False) (fun _ => none) where
  source k x h := by cases h
  current u h := h.elim

/-- **The order of the updates does not matter, nor do repetitions**, once all have been tried. -/
theorem Accounts.unique (h : Accounts offered offered s) (h' : Accounts offered offered s')
    (hsame : ∀ u u', offered u → offered u' → u.key = u'.key → u.version = u'.version → u.doc = u'.doc) :
    s = s' := by
  have hle : ∀ {s s' : Versioned κ α} {k : κ} {x : Nat × α}, Accounts offered offered s →
      Accounts offered offered s' → s k = some x → ∃ y, s' k = some y ∧ x.1 ≤ y.1 := fun h h' hx =>
    h'.current _ (h.source _ _ hx)
  funext k
  cases hx : s k with
  | none =>
    cases hy : s' k with
    | none => rfl
    | some y =>
      obtain ⟨x, hx', -⟩ := hle h' h hy
      rw [hx] at hx'
      cases hx'
  | some x =>
    obtain ⟨y, hy, hxy⟩ := hle h h' hx
    obtain ⟨x', hx', hyx⟩ := hle h' h hy
    obtain rfl : x = x' := Option.some.inj (hx.symm.trans hx')
    have hv : x.1 = y.1 := Nat.le_antisymm hxy hyx
    rw [hy, Prod.ext hv (hsame _ _ (h.source k x hx) (h'.source k y hy) rfl hv)]

end Versioned

end OTS
