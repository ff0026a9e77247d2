import Mathlib.Algebra.Order.Ring.Rat
import Mathlib.Data.List.Induction
import Mathlib.Tactic.Linarith
import OTSecurity.Lib.Machine
import OTSecurity.Lib.ODict
import OTSecurity.Lib.Sha256

/-!
# Login attempts

Model of `AuthStore.login` in `backend/sih_api/auth.py`, which the login endpoint runs in a pool of
threads: attempts overlap, and each of them reads the clock, reads the failure entry of its username
under the lock, verifies the password without it, and writes the outcome under the lock again.

* `Accounts` — what does not change: the users, their hashes and the verifier of hashes.
* `AuthStore` — the failures and the sessions; `locks`, `fail`, `succeed` are what the two critical
  sections do.
* `LoginSys`, `logins` — the store, the clock, the attempts and a log of those completed, as a machine.
* `Lockout` — no completed failure is lost, and five of them in a row refuse what starts in the next
  60 seconds; `Orderly` — the steps that keep it.

Principal results: `lockout_orderly` — the lockout holds in runs of orderly steps;
`overlapping_failures_accepted` — not in every run.
-/

namespace OTS.Api

/-! ## The store -/

structure Session where
  user : String
  role : String
  created : Rat
  lastSeen : Rat

/-- `_users`, `_dummy` and the verifier of `_ph`. -/
structure Accounts (H : Type) where
  users : String → Option (String × H)
  dummy : H
  verify : H → String → Bool
  maxSessions : Nat

/-- `_failures` and `_sessions`. -/
structure AuthStore where
  failures : ODict String (Nat × Rat)
  sessions : ODict String Session

/-- The role of a username whose password is right; nobody else's password is, whatever it is
verified against. -/
def Accounts.role {H : Type} (acc : Accounts H) (username password : String) : Option String :=
  let (role, hashed) := match acc.users username with
    | some (role, hashed) => (some role, hashed)
    | none => (none, acc.dummy)
  if acc.verify hashed password then role else none

namespace AuthStore

def init : AuthStore := ⟨.empty, .empty⟩

/-- The failure entry of a username: the count, and until when it is locked. -/
def entry (store : AuthStore) (username : String) : Nat × Rat :=
  (store.failures.get? username).getD (0, 0)

/-- What a failed attempt writes, which read `count` and started at `now`. -/
def fail (store : AuthStore) (username : String) (count : Nat) (now : Rat) : AuthStore :=
  { store with
    failures := store.failures.set username (count + 1, if 5 ≤ count + 1 then now + 60 else 0) }

/-- `_key`. -/
def key (token : String) : String := sha256Hex token.toUTF8.toList

/-- The session that was used least recently. -/
def oldest (sessions : List (String × Session)) : Option String :=
  (sessions.foldl (fun m s => match m with
    | none => some s
    | some t => if s.2.lastSeen < t.2.lastSeen then some s else some t) none).map (·.1)

/-- What a successful attempt writes. -/
def succeed (store : AuthStore) (maxSessions : Nat) (username role token : String) (now : Rat) :
    AuthStore :=
  let sessions :=
    if store.sessions.length ≥ maxSessions then
      (oldest store.sessions.entries).elim store.sessions store.sessions.erase
    else store.sessions
  ⟨store.failures.erase username, sessions.set (key token) ⟨username, role, now, now⟩⟩

end AuthStore

/-! ## Overlapping attempts -/

/-- How far an attempt is: it has read the clock; it has found the entry not locked and is at the
password; or it has ended. -/
inductive Phase where
  | started
  | verifying (entry : Nat × Rat)
  | refused
  | failed
  | accepted
  deriving DecidableEq

/-- An attempt; `after` counts the attempts that had completed when it started. -/
structure Attempt where
  username : String
  password : String
  token : String
  now : Rat
  after : Nat
  phase : Phase

/-- The outcome of an attempt that got to the password, and when it was written. -/
structure Completion where
  username : String
  now : Rat
  done : Rat
  ok : Bool
  deriving DecidableEq

structure LoginSys where
  clock : Rat
  store : AuthStore
  attempts : List Attempt
  log : List Completion

inductive LoginOp where
  | wait (clock : Rat)
  | start (username password token : String)
  | check (i : Nat)
  | finish (i : Nat)

namespace LoginSys

variable {H : Type}

def init : LoginSys := ⟨0, .init, [], []⟩

def put (s : LoginSys) (i : Nat) (a : Attempt) (phase : Phase) : LoginSys :=
  { s with attempts := s.attempts.set i { a with phase } }

/-- The first critical section of an attempt. -/
def checked (s : LoginSys) (i : Nat) (a : Attempt) : LoginSys :=
  if (s.store.entry a.username).2 > a.now then s.put i a .refused
  else s.put i a (.verifying (s.store.entry a.username))

/-- The last critical section of an attempt that has read `count`. -/
def finished (acc : Accounts H) (s : LoginSys) (i : Nat) (a : Attempt) (count : Nat) : LoginSys :=
  match acc.role a.username a.password with
  | some role =>
    { s.put i a .accepted with
      store := s.store.succeed acc.maxSessions a.username role a.token a.now
      log := s.log ++ [⟨a.username, a.now, s.clock, true⟩] }
  | none =>
    { s.put i a .failed with
      store := s.store.fail a.username count a.now
      log := s.log ++ [⟨a.username, a.now, s.clock, false⟩] }

def step (acc : Accounts H) (s : LoginSys) : LoginOp → Option LoginSys
  | .wait clock => if s.clock ≤ clock then some { s with clock } else none
  | .start username password token =>
    some { s with attempts :=
      s.attempts ++ [⟨username, password, token, s.clock, s.log.length, .started⟩] }
  | .check i =>
    match s.attempts[i]? with
    | some a => if a.phase = .started then some (s.checked i a) else none
    | none => none
  | .finish i =>
    match s.attempts[i]? with
    | some a =>
      match a.phase with
      | .verifying entry => some (s.finished acc i a entry.1)
      | _ => none
    | none => none

end LoginSys

/-- The login endpoint, nobody having failed yet. -/
def logins {H : Type} (acc : Accounts H) : Machine LoginSys LoginOp :=
  ⟨LoginSys.init, LoginSys.step acc⟩

/-! ## The lockout -/

/-- The failures of a username since its last success, and the start and the completion of the last
one that was the fifth or later in a row. -/
structure Tally where
  streak : Nat
  lock : Option (Rat × Rat)

def Tally.add (username : String) (t : Tally) (c : Completion) : Tally :=
  if c.username = username then
    if c.ok then { t with streak := 0 }
    else ⟨t.streak + 1, if 5 ≤ t.streak + 1 then some (c.now, c.done) else t.lock⟩
  else t

def tally (username : String) (log : List Completion) : Tally :=
  log.foldl (Tally.add username) ⟨0, none⟩

/-- A failure of the username, at least its fifth with no success in between, completed less than 60
seconds before `now`. -/
def LockDue (username : String) (log : List Completion) (now : Rat) : Prop :=
  ∃ pre c, pre ++ [c] <+: log ∧ c.username = username ∧ c.ok = false ∧
    5 ≤ (tally username (pre ++ [c])).streak ∧ now < c.done + 60

/-- **The lockout of a username**: every completed failure is counted, and every attempt that starts
within 60 seconds of five failures in a row is refused, unless it has still to look. -/
structure Lockout (username : String) (s : LoginSys) : Prop where
  counted : (s.store.entry username).1 = (tally username s.log).streak
  refused : ∀ a ∈ s.attempts, a.username = username → LockDue username (s.log.take a.after) a.now →
    a.phase = .started ∨ a.phase = .refused

/-- No failure overwrites an entry that it has not read; no login succeeds while the entry is locked,
for now or for an attempt that has still to read it; and no attempt starts when the lock has expired,
which runs from the start of the failure, but 60 seconds since its completion have not. -/
def Orderly {H : Type} (acc : Accounts H) (username : String) (s : LoginSys) : LoginOp → Prop
  | .start u _ _ => u = username → ∀ l ∈ (tally username s.log).lock,
      ¬ (l.1 + 60 ≤ s.clock ∧ s.clock < l.2 + 60)
  | .finish i => ∀ a ∈ s.attempts[i]?, a.username = username →
      if (acc.role username a.password).isSome then
        (s.store.entry username).2 ≤ s.clock ∧
        ∀ b ∈ s.attempts, b.username = username → b.phase = .started →
          (s.store.entry username).2 ≤ b.now
      else a.phase = .verifying (s.store.entry username)
  | _ => True

instance {H : Type} (acc : Accounts H) (username : String) (s : LoginSys) (op : LoginOp) :
    Decidable (Orderly acc username s op) :=
  match op with
  | .wait _ => isTrue trivial
  | .start u _ _ => inferInstanceAs (Decidable (u = username → ∀ l ∈ (tally username s.log).lock, _))
  | .check _ => isTrue trivial
  | .finish i => inferInstanceAs (Decidable (∀ a ∈ s.attempts[i]?, a.username = username → ite _ _ _))

/-! ## Orderly runs -/

section Orderly

variable {H : Type} {acc : Accounts H} {u : String} {s s' : LoginSys}

theorem entry_fail (store : AuthStore) (v : String) (count : Nat) (now : Rat) :
    (store.fail v count now).entry u =
      if u = v then (count + 1, if 5 ≤ count + 1 then now + 60 else 0) else store.entry u := by
  unfold AuthStore.entry AuthStore.fail
  rw [ODict.get?_set]
  split <;> rfl

theorem entry_succeed (store : AuthStore) (maxSessions : Nat) (v role token : String) (now : Rat) :
    (store.succeed maxSessions v role token now).entry u =
      if u = v then (0, 0) else store.entry u := by
  unfold AuthStore.entry AuthStore.succeed
  rw [ODict.get?_erase]
  split <;> rfl

theorem tally_concat (log : List Completion) (c : Completion) :
    tally u (log ++ [c]) = (tally u log).add u c := by
  simp [tally]

theorem add_other {t : Tally} {c : Completion} (h : c.username ≠ u) : t.add u c = t := if_neg h

theorem add_ok {t : Tally} {c : Completion} (h : c.username = u) (hok : c.ok = true) :
    t.add u c = ⟨0, t.lock⟩ := by
  simp [Tally.add, h, hok]

theorem add_failed {t : Tally} {c : Completion} (h : c.username = u) (hok : c.ok = false) :
    t.add u c = ⟨t.streak + 1, if 5 ≤ t.streak + 1 then some (c.now, c.done) else t.lock⟩ := by
  simp [Tally.add, h, hok]

/-- The failures that lock complete one after the other, so the last one locks longest. -/
theorem LockDue.lock {log : List Completion} {now : Rat} (h : LockDue u log now)
    (hsorted : log.Pairwise (·.done ≤ ·.done)) : ∃ l, (tally u log).lock = some l ∧ now < l.2 + 60 := by
  obtain ⟨pre, c, hpre, hu, hok, hfive, hnow⟩ := h
  suffices hlast : ∃ l, (tally u log).lock = some l ∧ c.done ≤ l.2 by
    obtain ⟨l, hl, hle⟩ := hlast
    exact ⟨l, hl, by linarith⟩
  rw [tally_concat, add_failed hu hok] at hfive
  induction log using List.reverseRecOn with
  | nil => simp at hpre
  | append_singleton log x ih =>
    rw [tally_concat]
    rcases List.prefix_concat_iff.1 hpre with heq | hpre
    · obtain ⟨rfl, hx⟩ := List.append_inj' heq rfl
      obtain rfl : c = x := by simpa using hx
      rw [add_failed hu hok, if_pos hfive]
      exact ⟨_, rfl, le_refl _⟩
    · obtain ⟨hlog, -, hbefore⟩ := List.pairwise_append.1 hsorted
      obtain ⟨l, hl, hle⟩ := ih hlog hpre
      have hcx : c.done ≤ x.done :=
        hbefore c (hpre.subset (List.mem_append_right _ (List.mem_singleton_self c))) x
          (List.mem_singleton_self x)
      unfold Tally.add
      split
      · split
        · exact ⟨l, hl, hle⟩
        · split
          · exact ⟨_, rfl, hcx⟩
          · exact ⟨l, hl, hle⟩
      · exact ⟨l, hl, hle⟩

/-- What orderly steps keep for a username. -/
structure LoginInv (u : String) (s : LoginSys) : Prop where
  clock : 0 ≤ s.clock
  past : ∀ c ∈ s.log, c.done ≤ s.clock
  sorted : s.log.Pairwise (·.done ≤ ·.done)
  started : ∀ a ∈ s.attempts, 0 ≤ a.now ∧ a.after ≤ s.log.length
  counted : (s.store.entry u).1 = (tally u s.log).streak
  unlocked : (tally u s.log).streak < 5 → (s.store.entry u).2 = 0 ∧
    ∀ l, (tally u s.log).lock = some l → l.1 + 60 ≤ s.clock
  locked : 5 ≤ (tally u s.log).streak → ∃ l, (tally u s.log).lock = some l ∧
    (s.store.entry u).2 = l.1 + 60
  verifying : ∀ a ∈ s.attempts, a.username = u → ∀ e, a.phase = .verifying e → e.2 ≤ a.now
  due : ∀ a ∈ s.attempts, a.username = u → LockDue u (s.log.take a.after) a.now →
    a.phase = .refused ∨ a.phase = .started ∧ a.now < (s.store.entry u).2

theorem LoginInv.lockout (h : LoginInv u s) : Lockout u s where
  counted := h.counted
  refused a ha hu hd := by
    rcases h.due a ha hu hd with hr | ⟨hs, -⟩
    · exact .inr hr
    · exact .inl hs

theorem loginInv_init : LoginInv u LoginSys.init := by
  refine ⟨le_refl _, ?_, List.Pairwise.nil, ?_, rfl, fun _ => ⟨rfl, ?_⟩, fun h => ?_, ?_, ?_⟩
  · rintro c ⟨⟩
  · rintro a ⟨⟩
  · rintro l ⟨⟩
  · exact absurd h (show ¬ 5 ≤ 0 by decide)
  · rintro a ⟨⟩
  · rintro a ⟨⟩

/-- The attempts after one of them has moved on. -/
theorem mem_put {i : Nat} {a b : Attempt} {phase : Phase} (h : b ∈ (s.put i a phase).attempts) :
    b = { a with phase } ∨ b ∈ s.attempts :=
  (List.mem_or_eq_of_mem_set h).symm

theorem LoginInv.wait (h : LoginInv u s) {clock : Rat} (hle : s.clock ≤ clock) : LoginInv u { s with clock } where
  clock := le_trans h.clock hle
  past c hc := le_trans (h.past c hc) hle
  sorted := h.sorted
  started := h.started
  counted := h.counted
  unlocked hlt := ⟨(h.unlocked hlt).1, fun l hl => le_trans ((h.unlocked hlt).2 l hl) hle⟩
  locked := h.locked
  verifying := h.verifying
  due := h.due

/-- An attempt that starts in the 60 seconds finds the entry locked. -/
theorem LoginInv.start_locked (h : LoginInv u s) (hd : LockDue u s.log s.clock)
    (hC : ∀ l ∈ (tally u s.log).lock, ¬ (l.1 + 60 ≤ s.clock ∧ s.clock < l.2 + 60)) :
    s.clock < (s.store.entry u).2 := by
  obtain ⟨l, hl, hlt⟩ := hd.lock h.sorted
  have hstart : s.clock < l.1 + 60 := by
    by_contra hge
    exact hC l hl ⟨not_lt.1 hge, hlt⟩
  rcases Nat.lt_or_ge (tally u s.log).streak 5 with hfew | hfive
  · have := (h.unlocked hfew).2 l hl
    linarith
  · obtain ⟨l', hl', heq⟩ := h.locked hfive
    rw [hl, Option.some.injEq] at hl'
    rw [heq, ← hl']
    exact hstart

theorem LoginInv.start (h : LoginInv u s) {v password token : String}
    (hC : v = u → ∀ l ∈ (tally u s.log).lock, ¬ (l.1 + 60 ≤ s.clock ∧ s.clock < l.2 + 60)) :
    LoginInv u { s with attempts :=
      s.attempts ++ [⟨v, password, token, s.clock, s.log.length, .started⟩] } where
  clock := h.clock
  past := h.past
  sorted := h.sorted
  started a ha := by
    rcases List.mem_append.1 ha with ha | ha
    · exact h.started a ha
    · rw [List.mem_singleton.1 ha]
      exact ⟨h.clock, le_refl _⟩
  counted := h.counted
  unlocked := h.unlocked
  locked := h.locked
  verifying a ha hu e he := by
    rcases List.mem_append.1 ha with ha | ha
    · exact h.verifying a ha hu e he
    · rw [List.mem_singleton.1 ha] at he
      cases he
  due a ha hu hd := by
    rcases List.mem_append.1 ha with ha | ha
    · exact h.due a ha hu hd
    · obtain rfl := List.mem_singleton.1 ha
      rw [List.take_length] at hd
      exact .inr ⟨rfl, h.start_locked hd (hC hu)⟩

theorem LoginInv.check (h : LoginInv u s) {i : Nat} {a : Attempt} (ha : a ∈ s.attempts)
    (hstarted : a.phase = .started) : LoginInv u (s.checked i a) := by
  have hput : ∀ phase, (∀ e, phase = .verifying e → a.username = u → e.2 ≤ a.now) →
      (a.username = u → LockDue u (s.log.take a.after) a.now → phase = .refused) →
      LoginInv u (s.put i a phase) := by
    intro phase hread hdue
    refine ⟨h.clock, h.past, h.sorted, ?_, h.counted, h.unlocked, h.locked, ?_, ?_⟩
    · intro b hb
      rcases mem_put hb with rfl | hb
      · exact h.started a ha
      · exact h.started b hb
    · intro b hb hu e he
      rcases mem_put hb with rfl | hb
      · exact hread e he hu
      · exact h.verifying b hb hu e he
    · intro b hb hu hd
      rcases mem_put hb with rfl | hb
      · exact .inl (hdue hu hd)
      · exact h.due b hb hu hd
  unfold LoginSys.checked
  split
  · rename_i hlocked
    exact hput _ (by rintro e ⟨⟩) (fun _ _ => rfl)
  · rename_i hopen
    refine hput _ ?_ ?_
    · intro e he _
      cases he
      exact not_lt.1 hopen
    · intro hu hd
      rcases h.due a ha hu hd with hr | ⟨-, hlt⟩
      · rw [hstarted] at hr
        cases hr
      · exact absurd (hu ▸ hlt) hopen

/-- The completion of an attempt: what is left to show is about the new entry. -/
theorem LoginInv.complete (h : LoginInv u s) {i : Nat} {a : Attempt} {e : Nat × Rat} (ha : a ∈ s.attempts)
    (he : a.phase = .verifying e) {phase : Phase} (hphase : ∀ e, phase ≠ .verifying e)
    {store : AuthStore} {ok : Bool} {t : Tally}
    (ht : (tally u s.log).add u ⟨a.username, a.now, s.clock, ok⟩ = t)
    (hcounted : (store.entry u).1 = t.streak)
    (hunlocked : t.streak < 5 → (store.entry u).2 = 0 ∧ ∀ l, t.lock = some l → l.1 + 60 ≤ s.clock)
    (hlocked : 5 ≤ t.streak → ∃ l, t.lock = some l ∧ (store.entry u).2 = l.1 + 60)
    (hdue : ∀ b ∈ s.attempts, b.username = u → b.phase = .started → b.now < (s.store.entry u).2 →
      b.now < (store.entry u).2) :
    LoginInv u { s.put i a phase with store, log := s.log ++ [⟨a.username, a.now, s.clock, ok⟩] } := by
  have htally := (tally_concat s.log (⟨a.username, a.now, s.clock, ok⟩ : Completion)).trans ht
  have hafter : ∀ b ∈ s.attempts, ∀ c : Completion,
      (s.log ++ [c]).take b.after = s.log.take b.after :=
    fun b hb c => List.take_append_of_le_length (h.started b hb).2
  refine ⟨h.clock, ?_, ?_, ?_, ?_, ?_, ?_, ?_, ?_⟩
  · intro c hc
    rcases List.mem_append.1 hc with hc | hc
    · exact h.past c hc
    · rw [List.mem_singleton.1 hc]
      exact le_refl _
  · rw [List.pairwise_append]
    refine ⟨h.sorted, List.pairwise_singleton _ _, ?_⟩
    intro c hc d hd
    rw [List.mem_singleton.1 hd]
    exact h.past c hc
  · intro b hb
    have hlen : ∀ b ∈ s.attempts, 0 ≤ b.now ∧
        b.after ≤ (s.log ++ [(⟨a.username, a.now, s.clock, ok⟩ : Completion)]).length := fun b hb => by
      rw [List.length_append]
      exact ⟨(h.started b hb).1, Nat.le_add_right_of_le (h.started b hb).2⟩
    rcases mem_put hb with rfl | hb
    · exact hlen a ha
    · exact hlen b hb
  · rw [htally]
    exact hcounted
  · rw [htally]
    exact hunlocked
  · rw [htally]
    exact hlocked
  · intro b hb hu e' he'
    rcases mem_put hb with rfl | hb
    · exact absurd he' (hphase e')
    · exact h.verifying b hb hu e' he'
  · intro b hb hu hd
    rcases mem_put hb with rfl | hb
    · -- an attempt at the password was not due
      have hd' : LockDue u (s.log.take a.after) a.now := hafter a ha _ ▸ hd
      rcases h.due a ha hu hd' with hr | ⟨hr, -⟩
      · rw [he] at hr
        cases hr
      · rw [he] at hr
        cases hr
    · have hd' : LockDue u (s.log.take b.after) b.now := hafter b hb _ ▸ hd
      rcases h.due b hb hu hd' with hr | ⟨hr, hlt⟩
      · exact .inl hr
      · exact .inr ⟨hr, hdue b hb hu hr hlt⟩

theorem LoginInv.finish (h : LoginInv u s) {i : Nat} {a : Attempt} {e : Nat × Rat} (hi : s.attempts[i]? = some a)
    (he : a.phase = .verifying e) (hC : Orderly acc u s (.finish i)) :
    LoginInv u (s.finished acc i a e.1) := by
  have ha : a ∈ s.attempts := List.mem_of_getElem? hi
  have horderly := hC a hi
  unfold LoginSys.finished
  by_cases hu : a.username = u
  · have hread := h.verifying a ha hu e he
    cases hrole : acc.role a.username a.password with
    | some role =>
      have hopen := horderly hu
      rw [← hu, hrole, if_pos (show (some role).isSome = true from rfl), hu] at hopen
      obtain ⟨hnow, hwaiting⟩ := hopen
      have hentry : (s.store.succeed acc.maxSessions a.username role a.token a.now).entry u = (0, 0) := by
        rw [entry_succeed, if_pos hu.symm]
      refine h.complete ha he (fun _ => Phase.noConfusion) (add_ok hu rfl) ?_ ?_ ?_ ?_
      · rw [hentry]
      · intro _
        rw [hentry]
        refine ⟨rfl, fun l hl => ?_⟩
        rcases Nat.lt_or_ge (tally u s.log).streak 5 with hfew | hfive
        · exact (h.unlocked hfew).2 l hl
        · obtain ⟨l', hl', heq⟩ := h.locked hfive
          obtain rfl : l' = l := Option.some.inj (hl'.symm.trans hl)
          rw [← heq]
          exact hnow
      · exact fun h5 => absurd h5 (show ¬ 5 ≤ 0 by decide)
      · intro b hb hbu hs hlt
        exact absurd hlt (not_lt.2 (hwaiting b hb hbu hs))
    | none =>
      have hfresh := horderly hu
      rw [← hu, hrole, if_neg (by simp), hu, he, Phase.verifying.injEq] at hfresh
      have hentry : (s.store.fail a.username e.1 a.now).entry u =
          (e.1 + 1, if 5 ≤ e.1 + 1 then a.now + 60 else 0) := by
        rw [entry_fail, if_pos hu.symm]
      have hcount : e.1 = (tally u s.log).streak := by rw [hfresh, h.counted]
      refine h.complete ha he (fun _ => Phase.noConfusion) (add_failed hu rfl) ?_ ?_ ?_ ?_
      · rw [hentry, hcount]
      · intro hfew
        rw [hentry, hcount, if_neg (by simp only at hfew; omega)]
        refine ⟨rfl, fun l hl => ?_⟩
        simp only at hl hfew
        rw [if_neg (by omega)] at hl
        exact (h.unlocked (by omega)).2 l hl
      · intro hfive
        simp only at hfive ⊢
        rw [hentry, hcount, if_pos hfive, if_pos hfive]
        exact ⟨_, rfl, rfl⟩
      · -- the attempt that fails found the entry not locked, so it locks it for longer
        intro b hb hbu hs hlt
        have hpos : (0 : Rat) < (s.store.entry u).2 := lt_of_le_of_lt (h.started b hb).1 hlt
        have hfive : 5 ≤ (tally u s.log).streak := by
          by_contra hfew
          rw [(h.unlocked (by omega)).1] at hpos
          exact lt_irrefl _ hpos
        rw [hentry, hcount, if_pos (by omega)]
        rw [hfresh] at hread
        simp only
        linarith
  · have hsame : ∀ ok, (tally u s.log).add u ⟨a.username, a.now, s.clock, ok⟩ = tally u s.log :=
      fun ok => add_other hu
    cases hrole : acc.role a.username a.password with
    | some role =>
      have hentry : (s.store.succeed acc.maxSessions a.username role a.token a.now).entry u =
          s.store.entry u := by
        rw [entry_succeed, if_neg (Ne.symm hu)]
      refine h.complete ha he (fun _ => Phase.noConfusion) (hsame true) ?_ ?_ ?_ ?_
      · rw [hentry]
        exact h.counted
      · rw [hentry]
        exact h.unlocked
      · rw [hentry]
        exact h.locked
      · rw [hentry]
        exact fun _ _ _ _ hlt => hlt
    | none =>
      have hentry : (s.store.fail a.username e.1 a.now).entry u = s.store.entry u := by
        rw [entry_fail, if_neg (Ne.symm hu)]
      refine h.complete ha he (fun _ => Phase.noConfusion) (hsame false) ?_ ?_ ?_ ?_
      · rw [hentry]
        exact h.counted
      · rw [hentry]
        exact h.unlocked
      · rw [hentry]
        exact h.locked
      · rw [hentry]
        exact fun _ _ _ _ hlt => hlt

theorem LoginInv.step (h : LoginInv u s) {op : LoginOp} (hC : Orderly acc u s op)
    (hs : s.step acc op = some s') : LoginInv u s' := by
  cases op with
  | wait clock =>
    simp only [LoginSys.step] at hs
    split at hs
    · cases hs
      exact h.wait (by assumption)
    · cases hs
  | start v password token =>
    cases hs
    exact h.start hC
  | check i =>
    simp only [LoginSys.step] at hs
    split at hs
    · rename_i a ha
      split at hs
      · rename_i hstarted
        cases hs
        exact h.check (List.mem_of_getElem? ha) hstarted
      · cases hs
    · cases hs
  | finish i =>
    simp only [LoginSys.step] at hs
    split at hs
    · rename_i a ha
      split at hs
      · rename_i e he
        cases hs
        exact h.finish ha he hC
      · cases hs
    · cases hs

end Orderly

/-- **The lockout holds in runs of orderly steps.** -/
theorem lockout_orderly {H : Type} (acc : Accounts H) (u : String) {s : LoginSys}
    (h : (logins acc).Reach (Orderly acc u) s) : Lockout u s :=
  (h.invariant (I := LoginInv u) loginInv_init (fun _ _ _ hI hC hs => hI.step hC hs)).lockout

/-! ### Sample runs -/

/-- One user; a hash is verified by comparing it. -/
def sampleAccounts : Accounts String where
  users u := if u = "admin" then some ("admin", "right") else none
  dummy := "dummy"
  verify hashed password := hashed = password
  maxSessions := 1000

/-- An attempt with a password that is wrong, from its start to its end. -/
def fails (i : Nat) : List LoginOp := [.start "admin" "wrong" "t", .check i, .finish i]

/-- Five attempts fail one after the other; the right password is refused 59 seconds later. -/
theorem lockout_orderly_sample : ∃ s : LoginSys,
    (logins sampleAccounts).Reach (Orderly sampleAccounts "admin") s ∧
    s.attempts.map (·.phase) = List.replicate 5 .failed ++ [.refused] ∧ Lockout "admin" s := by
  have hrun : ((logins sampleAccounts).runMeeting (Orderly sampleAccounts "admin") .init
      ((List.range 5).flatMap fails ++ [.wait 59, .start "admin" "right" "t", .check 5])).any
      (fun s => s.attempts.map (·.phase) = List.replicate 5 .failed ++ [.refused]) = true := by
    decide +kernel
  obtain ⟨s, hs, hphases⟩ := (Option.any_eq_true _ _).1 hrun
  have hreach := Machine.reach_of_run _ hs
  exact ⟨s, hreach, of_decide_eq_true hphases, lockout_orderly sampleAccounts "admin" hreach⟩

/-- **Five attempts overlap and fail**, and count as one: the next attempt is accepted at once. -/
theorem overlapping_failures_accepted : ¬ ∀ (H : Type) (acc : Accounts H) (u : String) (s : LoginSys),
    (logins acc).Reach (fun _ _ => True) s → Lockout u s := by
  intro hclaim
  have hrun : ((logins sampleAccounts).runMeeting (fun _ _ => True) .init
      ((List.range 5).map (fun _ => .start "admin" "wrong" "t") ++ (List.range 5).map .check ++
        (List.range 5).map .finish ++ [.start "admin" "right" "t", .check 5, .finish 5])).any
      (fun s => s.log.take 5 = List.replicate 5 ⟨"admin", 0, 0, false⟩ ∧
        ∃ a ∈ s.attempts, a.username = "admin" ∧ a.now = 0 ∧ a.after = 5 ∧ a.phase = .accepted) =
      true := by
    decide +kernel
  obtain ⟨s, hs, hlast⟩ := (Option.any_eq_true _ _).1 hrun
  obtain ⟨hlog, a, ha, hu, hnow, hafter, hphase⟩ := of_decide_eq_true hlast
  have hdue : LockDue "admin" (s.log.take a.after) a.now := by
    rw [hafter, hlog, hnow]
    exact ⟨List.replicate 4 ⟨"admin", 0, 0, false⟩, ⟨"admin", 0, 0, false⟩, List.prefix_rfl, rfl, rfl,
      by decide +kernel, by decide +kernel⟩
  rcases (hclaim _ _ _ s (Machine.reach_of_run _ hs)).refused a ha hu hdue with h | h
  · rw [hphase] at h
    cases h
  · rw [hphase] at h
    cases h

end OTS.Api
