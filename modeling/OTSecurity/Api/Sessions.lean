import Mathlib.Data.List.Chain
import OTSecurity.Api.Auth

/-!
# Sessions

Model of `AuthStore.login`, `.session` and `.logout` of `backend/sih_api/auth.py`, one call at a time.

* `Limits` — the lifetimes; `Request`, `Call` — what is asked, and when.
* `run` — the store after some calls; `issued`, `evicted` — the tokens that they issue, and the keys of the
  sessions that they evict.
* `Proper` — what the clock, the source of tokens and SHA-256 promise of a run.
* `Valid` — which token has a session, told by the calls.

Principal result: `sessions_exact` — a token is accepted exactly when it is valid, the table is bounded, and a
token that was refused is never accepted again.
-/

namespace OTS.Api

/-! ## The store -/

/-- `idle_s` and `max_age_s`. -/
structure Limits where
  idleS : Rat
  maxAgeS : Rat

inductive Request where
  | login (username password token : String)
  | session (token : Option String)
  | logout (token : Option String)

structure Call where
  now : Rat
  request : Request

/-- A token that is given and not empty. -/
def presented (token : Option String) : Option String := token.filter (· ≠ "")

namespace AuthStore

variable {H : Type}

/-- `login`, with the token that would be issued. -/
def login (acc : Accounts H) (store : AuthStore) (username password token : String) (now : Rat) :
    AuthStore × Option (String × Session) :=
  let (count, locked) := store.entry username
  if locked > now then (store, none)
  else match acc.role username password with
    | some role =>
      (store.succeed acc.maxSessions username role token now, some (token, ⟨username, role, now, now⟩))
    | none => (store.fail username count now, none)

/-- A session that has ended by now. -/
def expired (lim : Limits) (s : Session) (now : Rat) : Bool :=
  now - s.lastSeen > lim.idleS ∨ now - s.created > lim.maxAgeS

/-- `session`. -/
def session (lim : Limits) (store : AuthStore) (token : Option String) (now : Rat) :
    AuthStore × Option Session :=
  match presented token with
  | none => (store, none)
  | some t =>
    match store.sessions.get? (key t) with
    | none => (store, none)
    | some s =>
      if expired lim s now then ({ store with sessions := store.sessions.erase (key t) }, none)
      else
        ({ store with sessions := store.sessions.set (key t) { s with lastSeen := now } },
          some { s with lastSeen := now })

/-- `logout`. -/
def logout (store : AuthStore) (token : Option String) : AuthStore :=
  match presented token with
  | none => store
  | some t => { store with sessions := store.sessions.erase (key t) }

def step (acc : Accounts H) (lim : Limits) (store : AuthStore) (c : Call) : AuthStore :=
  match c.request with
  | .login username password token => (store.login acc username password token c.now).1
  | .session token => (store.session lim token c.now).1
  | .logout token => store.logout token

def run (acc : Accounts H) (lim : Limits) (store : AuthStore) (calls : List Call) : AuthStore :=
  calls.foldl (step acc lim) store

/-! ## What the calls do -/

/-- The token that a call issues. -/
def issue (acc : Accounts H) (store : AuthStore) (c : Call) : Option String :=
  match c.request with
  | .login username password token => (store.login acc username password token c.now).2.map (·.1)
  | _ => none

/-- The key of the session that a call evicts. -/
def evict (acc : Accounts H) (store : AuthStore) (c : Call) : Option String :=
  if (store.issue acc c).isSome ∧ acc.maxSessions ≤ store.sessions.length then oldest store.sessions.entries
  else none

def issued (acc : Accounts H) (lim : Limits) (store : AuthStore) : List Call → List String
  | [] => []
  | c :: calls => (store.issue acc c).toList ++ issued acc lim (store.step acc lim c) calls

def evicted (acc : Accounts H) (lim : Limits) (store : AuthStore) : List Call → List String
  | [] => []
  | c :: calls => (store.evict acc c).toList ++ evicted acc lim (store.step acc lim c) calls

end AuthStore

/-- The token that a call asks about. -/
def Call.uses (c : Call) : Option String :=
  match c.request with
  | .session token => presented token
  | _ => none

/-- The token that a call logs out. -/
def Call.logsOut (c : Call) : Option String :=
  match c.request with
  | .logout token => presented token
  | _ => none

/-- When a token is used. -/
def usesOf (token : String) (calls : List Call) : List Rat :=
  (calls.filter fun c => c.uses = some token).map (·.now)

open AuthStore

/-- What is promised of a run: the clock does not go back, issued tokens are not empty and all different, and
no token of the run has the key of another that was issued. -/
structure Proper {H : Type} (acc : Accounts H) (lim : Limits) (calls : List Call) : Prop where
  clock : calls.Pairwise (·.now ≤ ·.now)
  fresh : (issued acc lim .init calls).Nodup
  nonempty : "" ∉ issued acc lim .init calls
  keys : ∀ a ∈ issued acc lim .init calls, ∀ b,
    (b ∈ issued acc lim .init calls ∨ ∃ c ∈ calls, c.uses = some b ∨ c.logsOut = some b) → key a = key b → a = b

/-- **A valid token**: a login issued it, since then nobody has logged it out and no login has evicted it, the
login is not too old, and no two uses in a row are too far apart, from the login to now. -/
def Valid {H : Type} (acc : Accounts H) (lim : Limits) (calls : List Call) (token : Option String) (now : Rat) :
    Prop :=
  ∃ t before login after, token = some t ∧ calls = before ++ login :: after ∧
    (run acc lim .init before).issue acc login = some t ∧
    (∀ c ∈ after, c.logsOut ≠ some t) ∧
    key t ∉ evicted acc lim (run acc lim .init (before ++ [login])) after ∧
    now - login.now ≤ lim.maxAgeS ∧
    List.IsChain (fun u v => v - u ≤ lim.idleS) (login.now :: (usesOf t after ++ [now]))

/-! ## One call -/

section

variable {H : Type} {acc : Accounts H} {lim : Limits} {store : AuthStore} {c : Call} {k : String} {s : Session}

/-- The session that is evicted is the least recently seen. -/
theorem oldest_cons_cons (m x : String × Session) (l : List (String × Session)) :
    oldest (m :: x :: l) = oldest ((if x.2.lastSeen < m.2.lastSeen then x else m) :: l) := by
  unfold oldest
  rw [List.foldl_cons, List.foldl_cons, List.foldl_cons]
  split_ifs with hlt
  · simp only [if_pos hlt]
  · simp only [if_neg hlt]

theorem oldest_spec {sessions : List (String × Session)} (h : sessions ≠ []) :
    ∃ e ∈ sessions, oldest sessions = some e.1 ∧ ∀ e' ∈ sessions, e.2.lastSeen ≤ e'.2.lastSeen := by
  have hfold : ∀ (l : List (String × Session)) (m : String × Session), ∃ e, (e = m ∨ e ∈ l) ∧
      e.2.lastSeen ≤ m.2.lastSeen ∧ (∀ e' ∈ l, e.2.lastSeen ≤ e'.2.lastSeen) ∧
      oldest (m :: l) = some e.1 := by
    intro l
    induction l with
    | nil => exact fun m => ⟨m, .inl rfl, le_refl _, fun _ he => (List.not_mem_nil he).elim, rfl⟩
    | cons x l ih =>
      intro m
      rw [oldest_cons_cons]
      split
      · rename_i hlt
        obtain ⟨e, hmem, hx, hall, heq⟩ := ih x
        exact ⟨e, .inr (List.mem_cons.2 hmem), hx.trans hlt.le, List.forall_mem_cons.2 ⟨hx, hall⟩, heq⟩
      · rename_i hge
        obtain ⟨e, hmem, hm, hall, heq⟩ := ih m
        exact ⟨e, hmem.imp id (List.mem_cons_of_mem x), hm,
          List.forall_mem_cons.2 ⟨hm.trans (not_lt.1 hge), hall⟩, heq⟩
  cases sessions with
  | nil => exact absurd rfl h
  | cons x l =>
    obtain ⟨e, hmem, hx, hall, heq⟩ := hfold l x
    exact ⟨e, List.mem_cons.2 hmem, heq, List.forall_mem_cons.2 ⟨hx, hall⟩⟩

theorem get?_succeed (store : AuthStore) (maxSessions : Nat) (username role token : String) (now : Rat)
    (k : String) : (store.succeed maxSessions username role token now).sessions.get? k =
      if k = key token then some ⟨username, role, now, now⟩
      else if maxSessions ≤ store.sessions.length ∧ oldest store.sessions.entries = some k then none
      else store.sessions.get? k := by
  unfold succeed
  simp only
  rw [ODict.get?_set]
  by_cases hk : k = key token
  · rw [if_pos hk, if_pos hk]
  · rw [if_neg hk, if_neg hk]
    by_cases hfull : maxSessions ≤ store.sessions.length
    · rw [if_pos hfull]
      cases hold : oldest store.sessions.entries with
      | none => simp
      | some j =>
        simp only [Option.elim_some, ODict.get?_erase, Option.some.injEq, hfull, true_and]
        by_cases hj : k = j
        · rw [if_pos hj, if_pos hj.symm]
        · rw [if_neg hj, if_neg (Ne.symm hj)]
    · rw [if_neg hfull, if_neg fun h => hfull h.1]

theorem evict_of_no_issue (h : store.issue acc c = none) : store.evict acc c = none := by
  unfold evict
  rw [h]
  exact if_neg fun hfull => nomatch hfull.1

/-- A login is refused, fails or succeeds. -/
theorem login_cases (acc : Accounts H) (store : AuthStore) (username password token : String) (now : Rat) :
    ((store.login acc username password token now).2 = none ∧
      (store.login acc username password token now).1.sessions = store.sessions) ∨
    ∃ role, store.login acc username password token now =
      (store.succeed acc.maxSessions username role token now, some (token, ⟨username, role, now, now⟩)) := by
  unfold login
  simp only
  split
  · exact .inl ⟨rfl, rfl⟩
  · split
    · exact .inr ⟨_, rfl⟩
    · exact .inl ⟨rfl, rfl⟩

/-- **What a call does to a session** of a key that it does not issue. -/
theorem get?_step (lim : Limits) (hissue : ∀ t, store.issue acc c = some t → key t ≠ k) :
    (store.step acc lim c).sessions.get? k =
      if c.logsOut.map key = some k ∨ store.evict acc c = some k then none
      else if c.uses.map key = some k then
        (store.sessions.get? k).bind fun s =>
          if expired lim s c.now then none else some { s with lastSeen := c.now }
      else store.sessions.get? k := by
  obtain ⟨now, request⟩ := c
  cases request with
  | login username password token =>
    unfold step
    simp only [Call.logsOut, Call.uses, Option.map_none, reduceCtorEq, false_or, if_false]
    rcases login_cases acc store username password token now with ⟨hnone, hsame⟩ | ⟨role, hlogin⟩
    · have hno : store.issue acc ⟨now, .login username password token⟩ = none := by
        unfold issue
        simp only [hnone, Option.map_none]
      rw [hsame, evict_of_no_issue hno]
      simp
    · have hyes : store.issue acc ⟨now, .login username password token⟩ = some token := by
        unfold issue
        simp only [hlogin, Option.map_some]
      have hevict : store.evict acc ⟨now, .login username password token⟩ =
          if acc.maxSessions ≤ store.sessions.length then oldest store.sessions.entries else none := by
        unfold evict
        rw [hyes]
        simp
      rw [hlogin, get?_succeed, if_neg (Ne.symm (hissue token hyes)), hevict]
      by_cases hfull : acc.maxSessions ≤ store.sessions.length
      · simp [hfull]
      · simp [hfull]
  | session token =>
    have hno : store.issue acc ⟨now, .session token⟩ = none := rfl
    rw [evict_of_no_issue hno]
    unfold step AuthStore.session
    simp only [Call.logsOut, Call.uses, Option.map_none, reduceCtorEq, false_or, if_false]
    cases presented token with
    | none => simp
    | some t =>
      simp only [Option.map_some, Option.some.injEq]
      by_cases hk : key t = k
      · rw [if_pos hk, ← hk]
        cases hget : store.sessions.get? (key t) with
        | none => simp [hget]
        | some s =>
          simp only [Option.bind_some]
          split
          · rw [ODict.get?_erase, if_pos rfl]
          · rw [ODict.get?_set_self]
      · rw [if_neg hk]
        split
        · rfl
        · split
          · rw [ODict.get?_erase, if_neg (Ne.symm hk)]
          · rw [ODict.get?_set, if_neg (Ne.symm hk)]
  | logout token =>
    have hno : store.issue acc ⟨now, .logout token⟩ = none := rfl
    rw [evict_of_no_issue hno]
    unfold step logout
    simp only [Call.logsOut, Call.uses, Option.map_none, reduceCtorEq, or_false, if_false]
    cases presented token with
    | none => simp
    | some t =>
      simp only [Option.map_some, Option.some.injEq, ODict.get?_erase]
      by_cases hk : key t = k
      · rw [if_pos hk, if_pos hk.symm]
      · rw [if_neg hk, if_neg (Ne.symm hk)]

/-- A call that issues a token. -/
theorem get?_issue (lim : Limits) {t : String} (h : store.issue acc c = some t) :
    ∃ s : Session, (store.step acc lim c).sessions.get? (key t) = some s ∧ s.created = c.now ∧ s.lastSeen = c.now := by
  obtain ⟨now, request⟩ := c
  cases request with
  | login username password token =>
    rcases login_cases acc store username password token now with ⟨hnone, -⟩ | ⟨role, hlogin⟩
    · unfold issue at h
      simp only [hnone, Option.map_none, reduceCtorEq] at h
    · unfold issue at h
      simp only [hlogin, Option.map_some, Option.some.injEq] at h
      subst h
      refine ⟨⟨username, role, now, now⟩, ?_, rfl, rfl⟩
      unfold step
      simp only [hlogin]
      rw [get?_succeed, if_pos rfl]
  | session token => cases h
  | logout token => cases h

/-! ## A run -/

variable {calls after : List Call}

@[simp] theorem run_nil : run acc lim store [] = store := rfl

theorem run_cons : run acc lim store (c :: calls) = run acc lim (store.step acc lim c) calls := rfl

theorem run_append : run acc lim store (calls ++ after) = run acc lim (run acc lim store calls) after :=
  List.foldl_append

theorem issued_append : issued acc lim store (calls ++ after) =
    issued acc lim store calls ++ issued acc lim (run acc lim store calls) after := by
  induction calls generalizing store with
  | nil => rfl
  | cons c calls ih => rw [List.cons_append, issued, ih, issued, List.append_assoc, run_cons]

/-- Nothing is issued with the key. -/
def NoIssue (acc : Accounts H) (lim : Limits) (store : AuthStore) (k : String) (calls : List Call) : Prop :=
  ∀ t ∈ issued acc lim store calls, key t ≠ k

theorem NoIssue.cons (h : NoIssue acc lim store k (c :: calls)) :
    (∀ t, store.issue acc c = some t → key t ≠ k) ∧ NoIssue acc lim (store.step acc lim c) k calls := by
  constructor
  · intro t ht
    exact h t (by simp [issued, ht])
  · intro t ht
    exact h t (List.mem_append_right _ ht)

/-- What is not there does not come back. -/
theorem get?_run_none (hissue : NoIssue acc lim store k calls) (h : store.sessions.get? k = none) :
    (run acc lim store calls).sessions.get? k = none := by
  induction calls generalizing store with
  | nil => exact h
  | cons c calls ih =>
    rw [run_cons]
    refine ih hissue.cons.2 ?_
    rw [get?_step lim hissue.cons.1, h]
    simp

/-- When a key is used. -/
def keyUses (k : String) (calls : List Call) : List Rat :=
  (calls.filter fun c => c.uses.map key = some k).map (·.now)

/-- What keeps a session, told by the calls. -/
structure Kept (acc : Accounts H) (lim : Limits) (store : AuthStore) (k : String) (s : Session)
    (calls : List Call) : Prop where
  loggedIn : ∀ c ∈ calls, c.logsOut.map key ≠ some k
  present : k ∉ evicted acc lim store calls
  idle : List.IsChain (fun u v => v - u ≤ lim.idleS) (s.lastSeen :: keyUses k calls)
  age : ∀ u ∈ keyUses k calls, u - s.created ≤ lim.maxAgeS

theorem not_expired {now : Rat} : expired lim s now = false ↔
    now - s.lastSeen ≤ lim.idleS ∧ now - s.created ≤ lim.maxAgeS := by
  unfold expired
  simp

theorem keyUses_cons (k : String) (c : Call) (calls : List Call) :
    keyUses k (c :: calls) = if c.uses.map key = some k then c.now :: keyUses k calls else keyUses k calls := by
  unfold keyUses
  rw [List.filter_cons]
  by_cases h : c.uses.map key = some k
  · rw [if_pos h, if_pos (decide_eq_true h), List.map_cons]
  · rw [if_neg h, if_neg (by simpa using h)]

/-- What keeps a session, call by call. -/
theorem kept_cons : Kept acc lim store k s (c :: calls) ↔
    (c.logsOut.map key ≠ some k ∧ store.evict acc c ≠ some k) ∧
      if c.uses.map key = some k then
        expired lim s c.now = false ∧ Kept acc lim (store.step acc lim c) k { s with lastSeen := c.now } calls
      else Kept acc lim (store.step acc lim c) k s calls := by
  have hevicted : k ∉ evicted acc lim store (c :: calls) ↔
      store.evict acc c ≠ some k ∧ k ∉ evicted acc lim (store.step acc lim c) calls := by
    rw [evicted, List.mem_append, not_or, Option.mem_toList]
  by_cases huse : c.uses.map key = some k
  · rw [if_pos huse, not_expired]
    have huses : keyUses k (c :: calls) = c.now :: keyUses k calls := by rw [keyUses_cons, if_pos huse]
    constructor
    · rintro ⟨hlogged, hpresent, hidle, hage⟩
      rw [huses, List.isChain_cons_cons] at hidle
      rw [huses, List.forall_mem_cons] at hage
      rw [List.forall_mem_cons] at hlogged
      rw [hevicted] at hpresent
      exact ⟨⟨hlogged.1, hpresent.1⟩, ⟨hidle.1, hage.1⟩, hlogged.2, hpresent.2, hidle.2, hage.2⟩
    · rintro ⟨⟨hlogged, hevict⟩, ⟨hidle, hage⟩, h⟩
      refine ⟨List.forall_mem_cons.2 ⟨hlogged, h.loggedIn⟩, hevicted.2 ⟨hevict, h.present⟩, ?_, ?_⟩
      · rw [huses, List.isChain_cons_cons]
        exact ⟨hidle, h.idle⟩
      · rw [huses]
        exact List.forall_mem_cons.2 ⟨hage, h.age⟩
  · rw [if_neg huse]
    have huses : keyUses k (c :: calls) = keyUses k calls := by rw [keyUses_cons, if_neg huse]
    constructor
    · rintro ⟨hlogged, hpresent, hidle, hage⟩
      rw [huses] at hidle hage
      rw [List.forall_mem_cons] at hlogged
      rw [hevicted] at hpresent
      exact ⟨⟨hlogged.1, hpresent.1⟩, hlogged.2, hpresent.2, hidle, hage⟩
    · rintro ⟨⟨hlogged, hevict⟩, h⟩
      refine ⟨List.forall_mem_cons.2 ⟨hlogged, h.loggedIn⟩, hevicted.2 ⟨hevict, h.present⟩, ?_, ?_⟩
      · rw [huses]
        exact h.idle
      · rw [huses]
        exact h.age

/-- **A session after some calls.** -/
theorem get?_run (hissue : NoIssue acc lim store k calls) (h : store.sessions.get? k = some s) (s' : Session) :
    (run acc lim store calls).sessions.get? k = some s' ↔
      Kept acc lim store k s calls ∧ s' = { s with lastSeen := (keyUses k calls).getLastD s.lastSeen } := by
  induction calls generalizing store s with
  | nil =>
    rw [run_nil, h, Option.some.injEq]
    constructor
    · rintro rfl
      exact ⟨⟨fun _ hc => (List.not_mem_nil hc).elim, List.not_mem_nil, List.isChain_singleton _,
        fun _ hu => (List.not_mem_nil hu).elim⟩, rfl⟩
    · rintro ⟨-, rfl⟩
      rfl
  | cons c calls ih =>
    have hstep := get?_step lim hissue.cons.1
    rw [run_cons, kept_cons, keyUses_cons]
    by_cases hlost : c.logsOut.map key = some k ∨ store.evict acc c = some k
    · rw [if_pos hlost] at hstep
      rw [get?_run_none hissue.cons.2 hstep]
      refine iff_of_false nofun fun hkept => ?_
      exact hlost.elim hkept.1.1.1 hkept.1.1.2
    · rw [if_neg hlost, h, Option.bind_some] at hstep
      rw [not_or] at hlost
      by_cases huse : c.uses.map key = some k
      · rw [if_pos huse] at hstep
        rw [if_pos huse, if_pos huse, List.getLastD_cons]
        cases hexpired : expired lim s c.now with
        | true =>
          rw [hexpired, if_pos rfl] at hstep
          rw [get?_run_none hissue.cons.2 hstep]
          exact iff_of_false nofun fun hkept => nomatch hkept.1.2.1
        | false =>
          rw [hexpired, if_neg (by decide)] at hstep
          rw [ih hissue.cons.2 hstep]
          simp only [hlost, ne_eq, not_false_eq_true, and_self, true_and]
      · rw [if_neg huse] at hstep
        rw [if_neg huse, if_neg huse, ih hissue.cons.2 hstep]
        simp only [hlost, ne_eq, not_false_eq_true, and_self, true_and]

/-- **A session was issued.** -/
theorem issued_of_get? (h : (run acc lim store calls).sessions.get? k = some s) :
    (∃ before login after t, calls = before ++ login :: after ∧
        (run acc lim store before).issue acc login = some t ∧ key t = k ∧
        NoIssue acc lim (run acc lim store (before ++ [login])) k after) ∨
      NoIssue acc lim store k calls ∧ (store.sessions.get? k).isSome := by
  induction calls generalizing store with
  | nil => exact .inr ⟨fun _ ht => (List.not_mem_nil ht).elim, by rw [run_nil] at h; rw [h]; rfl⟩
  | cons c calls ih =>
    rw [run_cons] at h
    rcases ih h with ⟨before, login, after, t, rfl, hissue, hkey, hno⟩ | ⟨hno, hsome⟩
    · exact .inl ⟨c :: before, login, after, t, rfl, hissue, hkey, hno⟩
    · by_cases hissue : ∃ t, store.issue acc c = some t ∧ key t = k
      · obtain ⟨t, ht, hkey⟩ := hissue
        exact .inl ⟨[], c, calls, t, rfl, ht, hkey, hno⟩
      · have hother : ∀ t, store.issue acc c = some t → key t ≠ k := fun t ht hkey => hissue ⟨t, ht, hkey⟩
        refine .inr ⟨?_, ?_⟩
        · intro t ht
          rcases List.mem_append.1 ht with ht | ht
          · exact hother t (Option.mem_toList.1 ht)
          · exact hno t ht
        · by_contra hnone
          rw [Option.not_isSome_iff_eq_none] at hnone
          rw [get?_step lim hother, hnone] at hsome
          simp at hsome

/-! ## Valid tokens -/

theorem isChain_concat {R : Rat → Rat → Prop} {a b : Rat} {l : List Rat} :
    List.IsChain R (a :: (l ++ [b])) ↔ List.IsChain R (a :: l) ∧ R (l.getLastD a) b := by
  induction l generalizing a with
  | nil => simp
  | cons c l ih => rw [List.cons_append, List.isChain_cons_cons, List.isChain_cons_cons, ih, List.getLastD_cons, and_assoc]

theorem session_isSome {token : Option String} {now : Rat} : (store.session lim token now).2.isSome ↔
    ∃ t s, presented token = some t ∧ store.sessions.get? (key t) = some s ∧ expired lim s now = false := by
  unfold AuthStore.session
  cases presented token with
  | none => simp
  | some t =>
    cases hget : store.sessions.get? (key t) with
    | none => simp [hget]
    | some s =>
      cases hexpired : expired lim s now with
      | true => simp [hget, hexpired]
      | false => simp [hget, hexpired]

variable {token : Option String} {now : Rat} {t : String} {before : List Call} {login : Call}

/-- The token of a login is of the run. -/
theorem issue_mem (h : (run acc lim .init before).issue acc login = some t) :
    t ∈ issued acc lim .init (before ++ login :: after) := by
  rw [issued_append, issued, h]
  simp

/-- No later login issues the token again. -/
theorem Proper.noIssue {more : List Call} (h : Proper acc lim (calls ++ more)) (ht : t ∈ issued acc lim .init calls) :
    NoIssue acc lim (run acc lim .init calls) (key t) more := by
  intro t' ht' hkey
  have hfresh := h.fresh
  rw [issued_append] at hfresh
  have hmem : ∀ {a}, a ∈ issued acc lim .init calls ∨ a ∈ issued acc lim (run acc lim .init calls) more →
      a ∈ issued acc lim .init (calls ++ more) := by
    intro a ha
    rw [issued_append]
    exact List.mem_append.2 ha
  obtain rfl := h.keys t (hmem (.inl ht)) t' (.inl (hmem (.inr ht'))) hkey.symm
  exact (List.nodup_append.1 hfresh).2.2 t ht t ht' rfl

/-- Calls name an issued token by its key. -/
theorem Proper.named (h : Proper acc lim calls) (ht : t ∈ issued acc lim .init calls) (hc : c ∈ calls) :
    (c.uses.map key = some (key t) ↔ c.uses = some t) ∧ (c.logsOut.map key = some (key t) ↔ c.logsOut = some t) := by
  have hname : ∀ name : Option String, (∀ b, name = some b → c.uses = some b ∨ c.logsOut = some b) →
      (name.map key = some (key t) ↔ name = some t) := by
    intro name hof
    constructor
    · intro hkey
      obtain ⟨b, rfl, hb⟩ := Option.map_eq_some_iff.1 hkey
      rw [h.keys t ht b (.inr ⟨c, hc, hof b rfl⟩) hb.symm]
    · rintro rfl
      rfl
  exact ⟨hname c.uses fun b hb => .inl hb, hname c.logsOut fun b hb => .inr hb⟩

/-- The uses of an issued token. -/
theorem Proper.keyUses_eq (h : Proper acc lim calls) (ht : t ∈ issued acc lim .init calls)
    (hsub : ∀ c ∈ after, c ∈ calls) : keyUses (key t) after = usesOf t after := by
  unfold keyUses usesOf
  congr 1
  refine List.filter_congr fun c hc => ?_
  rw [decide_eq_decide]
  exact (h.named ht (hsub c hc)).1

/-- A token that a login has issued has a session exactly when it is valid since. -/
theorem session_since (hproper : Proper acc lim (before ++ login :: after ++ [⟨now, .session (some t)⟩]))
    (hissue : (run acc lim .init before).issue acc login = some t) :
    (∃ s, (run acc lim .init (before ++ login :: after)).sessions.get? (key t) = some s ∧
        expired lim s now = false) ↔
      (∀ c ∈ after, c.logsOut ≠ some t) ∧
        key t ∉ evicted acc lim (run acc lim .init (before ++ [login])) after ∧ now - login.now ≤ lim.maxAgeS ∧
        List.IsChain (fun u v => v - u ≤ lim.idleS) (login.now :: (usesOf t after ++ [now])) := by
  obtain ⟨s, hs, hcreated, hseen⟩ := get?_issue lim hissue
  have hsplit : before ++ login :: after = before ++ [login] ++ after := by simp
  have hstart : (run acc lim .init (before ++ [login])).sessions.get? (key t) = some s := by
    rw [run_append, run_cons, run_nil]
    exact hs
  have hmem : t ∈ issued acc lim .init (before ++ login :: (after ++ [⟨now, .session (some t)⟩])) :=
    issue_mem hissue
  have hall : before ++ login :: (after ++ [⟨now, .session (some t)⟩]) =
      before ++ login :: after ++ [⟨now, .session (some t)⟩] := by simp
  rw [hall] at hmem
  have hin : ∀ c ∈ after, c ∈ before ++ login :: after ++ [⟨now, .session (some t)⟩] :=
    fun c hc => by simp [hc]
  have hno : NoIssue acc lim (run acc lim .init (before ++ [login])) (key t) after := by
    have hsub : Proper acc lim (before ++ [login] ++ (after ++ [⟨now, .session (some t)⟩])) := by
      rw [← List.append_assoc, ← hsplit]
      exact hproper
    have hlogin : t ∈ issued acc lim .init (before ++ [login]) := issue_mem hissue
    have hlater := hsub.noIssue hlogin
    intro t' ht'
    refine hlater t' ?_
    rw [issued_append]
    exact List.mem_append_left _ ht'
  have huses := hproper.keyUses_eq hmem hin
  have hpast : ∀ u ∈ usesOf t after, u ≤ now := by
    intro u hu
    obtain ⟨c, hc, rfl⟩ := List.mem_map.1 hu
    have hclock := (List.pairwise_append.1 hproper.clock).2.2
    exact hclock c (by simp [(List.mem_filter.1 hc).1]) _ (List.mem_singleton_self _)
  rw [hsplit, run_append]
  simp only [get?_run hno hstart, isChain_concat]
  constructor
  · rintro ⟨s', ⟨hkept, rfl⟩, hlive⟩
    obtain ⟨hidle, hage⟩ := not_expired.1 hlive
    rw [huses, hseen] at hidle
    rw [hcreated] at hage
    have hchain := hkept.idle
    rw [huses, hseen] at hchain
    refine ⟨fun c hc hout => ?_, hkept.present, hage, hchain, hidle⟩
    exact hkept.loggedIn c hc ((hproper.named hmem (hin c hc)).2.2 hout)
  · rintro ⟨hout, hpresent, hage, hchain, hidle⟩
    refine ⟨_, ⟨⟨fun c hc hkey => ?_, hpresent, ?_, ?_⟩, rfl⟩, ?_⟩
    · exact hout c hc ((hproper.named hmem (hin c hc)).2.1 hkey)
    · rw [huses, hseen]
      exact hchain
    · intro u hu
      rw [huses] at hu
      rw [hcreated]
      linarith [hpast u hu]
    · rw [not_expired, huses, hseen, hcreated]
      exact ⟨hidle, hage⟩

/-- **A token is accepted exactly when it is valid.** -/
theorem session_iff_valid (h : Proper acc lim (calls ++ [⟨now, .session token⟩])) :
    ((run acc lim .init calls).session lim token now).2.isSome ↔ Valid acc lim calls token now := by
  rw [session_isSome]
  constructor
  · rintro ⟨t, s, hpresented, hget, hlive⟩
    obtain ⟨rfl, -⟩ := Option.filter_eq_some_iff.1 hpresented
    rcases issued_of_get? hget with ⟨before, login, after, t', rfl, hissue, hkey, -⟩ | ⟨-, hsome⟩
    · have hmem : t' ∈ issued acc lim .init (before ++ login :: after ++ [⟨now, .session (some t)⟩]) := by
        rw [issued_append]
        exact List.mem_append_left _ (issue_mem hissue)
      obtain rfl := h.keys t' hmem t (.inr ⟨_, List.mem_append_right _ (List.mem_singleton_self _), .inl hpresented⟩)
        hkey
      obtain ⟨hout, hpresent, hage, hchain⟩ := (session_since h hissue).1 ⟨s, hget, hlive⟩
      exact ⟨t', before, login, after, rfl, rfl, hissue, hout, hpresent, hage, hchain⟩
    · simp [init] at hsome
  · rintro ⟨t, before, login, after, rfl, rfl, hissue, hout, hpresent, hage, hchain⟩
    have hmem : t ∈ issued acc lim .init (before ++ login :: after ++ [⟨now, .session (some t)⟩]) := by
      rw [issued_append]
      exact List.mem_append_left _ (issue_mem hissue)
    have hne : t ≠ "" := fun hempty => h.nonempty (hempty ▸ hmem)
    obtain ⟨s, hget, hlive⟩ := (session_since h hissue).2 ⟨hout, hpresent, hage, hchain⟩
    exact ⟨t, s, Option.filter_eq_some_iff.2 ⟨rfl, decide_eq_true hne⟩, hget, hlive⟩

/-! ## The table -/

theorem length_succeed (hmax : 1 ≤ acc.maxSessions) (h : store.sessions.length ≤ acc.maxSessions)
    (username role token : String) (now : Rat) :
    (store.succeed acc.maxSessions username role token now).sessions.length ≤ acc.maxSessions := by
  unfold succeed
  simp only
  have hset : ∀ (d : ODict String Session) (s : Session), (d.set (key token) s).length ≤ d.length + 1 := by
    intro d s
    rw [ODict.length_set]
    split <;> omega
  refine Nat.le_trans (hset _ _) ?_
  by_cases hfull : acc.maxSessions ≤ store.sessions.length
  · rw [if_pos hfull]
    have hne : store.sessions.entries ≠ [] := by
      intro hnil
      have hzero : store.sessions.length = 0 := by rw [ODict.length, hnil, List.length_nil]
      omega
    obtain ⟨e, he, hold, -⟩ := oldest_spec hne
    have herase := ODict.length_erase store.sessions (show e.1 ∈ store.sessions.keys from List.mem_map_of_mem he)
    rw [hold, Option.elim_some]
    omega
  · rw [if_neg hfull]
    omega

theorem length_erase_le (d : ODict String Session) (k : String) : (d.erase k).length ≤ d.length :=
  List.length_filter_le _ _

/-- One call keeps the table bounded. -/
theorem length_step (hmax : 1 ≤ acc.maxSessions) (h : store.sessions.length ≤ acc.maxSessions) (c : Call) :
    (store.step acc lim c).sessions.length ≤ acc.maxSessions := by
  obtain ⟨now, request⟩ := c
  cases request with
  | login username password token =>
    unfold step
    rcases login_cases acc store username password token now with ⟨-, hsame⟩ | ⟨role, hlogin⟩
    · rwa [hsame]
    · simp only [hlogin]
      exact length_succeed hmax h username role token now
  | session token =>
    unfold step AuthStore.session
    simp only
    split
    · exact h
    · split
      · exact h
      · rename_i t _ s hget
        split
        · exact Nat.le_trans (length_erase_le _ _) h
        · simp only
          rwa [ODict.length_set, if_pos (ODict.get?_isSome.1 (by rw [hget]; rfl))]
  | logout token =>
    unfold step logout
    simp only
    split
    · exact h
    · exact Nat.le_trans (length_erase_le _ _) h

theorem length_run (hmax : 1 ≤ acc.maxSessions) (calls : List Call) :
    (run acc lim .init calls).sessions.length ≤ acc.maxSessions := by
  induction calls using List.reverseRecOn with
  | nil => exact Nat.zero_le _
  | append_singleton calls c ih =>
    rw [run_append, run_cons, run_nil]
    exact length_step hmax ih c

/-- What is evicted. -/
theorem evict_spec (h : store.evict acc c = some k) : acc.maxSessions ≤ store.sessions.length ∧
    ∃ s, store.sessions.get? k = some s ∧ ∀ k' s', store.sessions.get? k' = some s' → s.lastSeen ≤ s'.lastSeen := by
  unfold evict at h
  split at h
  · rename_i hfull
    by_cases hne : store.sessions.entries = []
    · rw [hne] at h
      cases h
    · obtain ⟨e, he, hold, hall⟩ := oldest_spec hne
      obtain rfl := Option.some.inj (hold.symm.trans h)
      exact ⟨hfull.2, e.2, ODict.mem_entries.1 he, fun k' s' hs' => hall _ (ODict.mem_entries.2 hs')⟩
  · cases h

/-- A refused token has no session afterwards. -/
theorem get?_of_refused (acc : Accounts H) (hrefused : (store.session lim (some t) now).2 = none) (hne : t ≠ "") :
    (store.step acc lim ⟨now, .session (some t)⟩).sessions.get? (key t) = none := by
  have hpresented : presented (some t) = some t := Option.filter_eq_some_iff.2 ⟨rfl, decide_eq_true hne⟩
  have hdead : ¬ (store.session lim (some t) now).2.isSome := by
    rw [hrefused]
    exact nofun
  rw [session_isSome] at hdead
  have hno : store.issue acc ⟨now, .session (some t)⟩ = none := rfl
  rw [get?_step lim (fun t' ht' => nomatch hno ▸ ht')]
  simp only [Call.logsOut, Call.uses, hpresented, Option.map_some, if_true, Option.map_none, reduceCtorEq, false_or]
  split
  · rfl
  · cases hget : store.sessions.get? (key t) with
    | none => rfl
    | some s =>
      cases hexpired : expired lim s now with
      | true => simp [hexpired]
      | false => exact absurd ⟨t, s, hpresented, hget, hexpired⟩ hdead

/-- **Sessions are valid exactly as specified.**  At the end of a run a token is accepted exactly when it is
valid; the table has no more sessions than it may; what is evicted is the least recently seen of a full table;
and an issued token that was refused once is never accepted again. -/
theorem sessions_exact {H : Type} (acc : Accounts H) (lim : Limits) (hmax : 1 ≤ acc.maxSessions) (calls : List Call)
    (token : Option String) (now : Rat) (h : Proper acc lim (calls ++ [⟨now, .session token⟩])) :
    (((run acc lim .init calls).session lim token now).2.isSome ↔ Valid acc lim calls token now) ∧
    (run acc lim .init calls).sessions.length ≤ acc.maxSessions ∧
    (∀ earlier c more, calls = earlier ++ c :: more → ∀ k ∈ (run acc lim .init earlier).evict acc c,
      acc.maxSessions ≤ (run acc lim .init earlier).sessions.length ∧
      ∃ s, (run acc lim .init earlier).sessions.get? k = some s ∧
        ∀ k' s', (run acc lim .init earlier).sessions.get? k' = some s' → s.lastSeen ≤ s'.lastSeen) ∧
    ∀ earlier refusedAt more t, calls = earlier ++ ⟨refusedAt, .session (some t)⟩ :: more → token = some t →
      t ∈ issued acc lim .init earlier → ((run acc lim .init earlier).session lim (some t) refusedAt).2 = none →
      ((run acc lim .init calls).session lim token now).2 = none := by
  refine ⟨session_iff_valid h, length_run hmax calls, fun earlier c more _ k hk => evict_spec hk, ?_⟩
  rintro earlier refusedAt more t rfl rfl hissued hrefused
  have hlater : NoIssue acc lim (run acc lim .init earlier) (key t)
      (⟨refusedAt, .session (some t)⟩ :: (more ++ [⟨now, .session (some t)⟩])) := by
    apply Proper.noIssue (h := ?_) hissued
    rwa [List.append_assoc, List.cons_append] at h
  have hne : t ≠ "" := by
    rintro rfl
    apply h.nonempty
    rw [List.append_assoc, issued_append]
    exact List.mem_append_left _ hissued
  have hnone := get?_of_refused acc hrefused hne
  have hgone : (run acc lim .init (earlier ++ ⟨refusedAt, .session (some t)⟩ :: more)).sessions.get? (key t) =
      none := by
    rw [run_append, run_cons]
    refine get?_run_none (fun t' ht' => hlater.cons.2 t' ?_) hnone
    rw [issued_append]
    exact List.mem_append_left _ ht'
  rw [← Option.not_isSome_iff_eq_none, session_isSome]
  rintro ⟨t', s, hpresented, hget, -⟩
  obtain ⟨hsame, -⟩ := Option.filter_eq_some_iff.1 hpresented
  obtain rfl := Option.some.inj hsame
  rw [hgone] at hget
  cases hget

end

/-! ### A sample run -/

/-- Half an hour and eight hours. -/
def sampleLimits : Limits := ⟨1800, 28800⟩

/-- A login, and a use of its token. -/
def sampleCalls : List Call := [⟨0, .login "admin" "right" "t"⟩, ⟨1700, .session (some "t")⟩]

theorem sampleCalls_issued :
    issued sampleAccounts sampleLimits .init (sampleCalls ++ [⟨3400, .session (some "t")⟩]) = ["t"] := by
  decide +kernel

theorem sampleCalls_proper :
    Proper sampleAccounts sampleLimits (sampleCalls ++ [⟨3400, .session (some "t")⟩]) where
  clock := by
    simp only [sampleCalls, List.cons_append, List.nil_append, List.pairwise_cons, List.mem_cons, List.not_mem_nil,
      or_false, forall_eq_or_imp, forall_eq, List.Pairwise.nil, and_true]
    norm_num
  fresh := by
    rw [sampleCalls_issued]
    decide
  nonempty := by
    rw [sampleCalls_issued]
    decide
  keys := by
    intro a ha b hb _
    rw [sampleCalls_issued] at ha hb
    rw [List.mem_singleton.1 ha]
    rcases hb with hb | ⟨c, hc, hb⟩
    · exact (List.mem_singleton.1 hb).symm
    · have hall : ∀ c ∈ sampleCalls ++ [⟨3400, .session (some "t")⟩],
          (c.uses = none ∨ c.uses = some "t") ∧ c.logsOut = none := by
        decide
      obtain ⟨huses, hout⟩ := hall c hc
      rcases hb with hb | hb
      · rcases huses with huses | huses
        · rw [huses] at hb
          cases hb
        · exact Option.some.inj (huses.symm.trans hb)
      · rw [hout] at hb
        cases hb

/-- Uses that are less than half an hour apart keep a token valid. -/
theorem sessions_exact_sample : Valid sampleAccounts sampleLimits sampleCalls (some "t") 3400 := by
  refine (sessions_exact sampleAccounts sampleLimits (by decide) sampleCalls (some "t") 3400
    sampleCalls_proper).1.1 ?_
  decide +kernel

end OTS.Api
