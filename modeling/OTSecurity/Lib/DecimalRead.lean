import OTSecurity.Lib.DecimalJson
import OTSecurity.Lib.JsonRead

/-!
# What the reader with decimals gives

* `DecJson.Unicode` — every text of a value is one of Unicode characters.
* `DecJson.Unrepresented` — a text holds a number that `Decimal` does not represent.

Principal results: `loads_unicode` — what is read from a text of Unicode characters has only such texts;
`loads_inexact`, `Unrepresented.exponent` — a number makes the reader fail, and it has an enormous exponent;
`PyDecimal.text_unicode` — a decimal is written in Unicode characters.
-/

namespace OTS

open Json (Unicode unicode_nil unicode_cons unicode_append unicode_pyStr dictOf_spec)

/-! ## Values -/

namespace DecJson

inductive Unicode : DecJson → Prop
  | null : Unicode .null
  | bool (b : Bool) : Unicode (.bool b)
  | int (n : Int) : Unicode (.int n)
  | dec (d : PyDecimal) : Unicode (.dec d)
  | float (x : PyFloat) : Unicode (.float x)
  | str {s : PyStr} (h : Json.Unicode s) : Unicode (.str s)
  | arr {xs : List DecJson} (h : ∀ x ∈ xs, Unicode x) : Unicode (.arr xs)
  | obj {ms : List (PyStr × DecJson)} (hk : ∀ m ∈ ms, Json.Unicode m.1) (h : ∀ m ∈ ms, Unicode m.2) :
    Unicode (.obj ms)

theorem Unicode.of_str {s : PyStr} (h : Unicode (.str s)) : Json.Unicode s := by
  cases h with
  | str h => exact h

theorem Unicode.of_arr {xs : List DecJson} (h : Unicode (.arr xs)) : ∀ x ∈ xs, Unicode x := by
  cases h with
  | arr h => exact h

/-- The keys and the values of members. -/
def Members (ms : List (PyStr × DecJson)) : Prop := ∀ m ∈ ms, Json.Unicode m.1 ∧ Unicode m.2

theorem Members.dictOf {ps : List (PyStr × DecJson)} (h : Members ps) : Members (dictOf ps) :=
  fun m hm => h m ((dictOf_spec ps).2 m hm)

theorem Members.obj {ms : List (PyStr × DecJson)} (h : Members ms) : Unicode (.obj ms) :=
  .obj (fun m hm => (h m hm).1) fun m hm => (h m hm).2

/-! ## Reading -/

theorem ofOption_ok {α : Type} {e : ReadError} {o : Option α} {a : α} (h : ofOption e o = .ok a) : o = some a := by
  cases o with
  | none => cases h
  | some b =>
    cases h
    rfl

theorem map_ok {α β : Type} {f : α → β} {x : Except ReadError α} {b : β} (h : x.map f = .ok b) :
    ∃ a, x = .ok a ∧ f a = b := by
  cases x with
  | error e => cases h
  | ok a =>
    cases h
    exact ⟨a, rfl, rfl⟩

theorem scanLiteral_spec {s r : PyStr} {v : DecJson} (h : scanLiteral s = some (v, r)) :
    r <:+ s ∧ Unicode v := by
  obtain ⟨l, hl, heq⟩ := List.exists_of_findSome?_eq_some h
  obtain ⟨rest, hrest, hp⟩ := Option.map_eq_some_iff.1 heq
  obtain ⟨rfl, rfl⟩ := Prod.mk.inj hp
  refine ⟨Json.stripPrefix_suffix hrest, ?_⟩
  simp only [literals, List.mem_cons, List.not_mem_nil, or_false] at hl
  rcases hl with rfl | rfl | rfl | rfl | rfl | rfl
  · exact .null
  · exact .bool true
  · exact .bool false
  · exact .float _
  · exact .float _
  · exact .float _

/-- The text without a sign. -/
theorem unsigned_suffix (s : PyStr) : (match s with
    | 0x2D :: r => (true, r)
    | r => (false, r)).2 <:+ s := by
  split
  · exact List.suffix_cons _ _
  · exact List.suffix_refl _

theorem scanNumber_spec {s r : PyStr} {v : DecJson} (h : scanNumber s = .ok (v, r)) :
    r <:+ s ∧ Unicode v := by
  unfold scanNumber at h
  simp only at h
  split at h
  · cases h
  rename_i whole r1 hwhole
  have hr3 : (Json.exponent (Json.fraction r1).2).2 <:+ s :=
    (Json.exponent_suffix _).trans ((Json.fraction_suffix r1).trans
      ((Json.wholePart_spec hwhole).2.2.trans (unsigned_suffix s)))
  split at h
  · rename_i r3 hexp
    rw [hexp] at hr3
    split at h
    · split at h
      · cases h
      · cases h
        exact ⟨hr3, .int _⟩
    · obtain ⟨d, -, heq⟩ := map_ok h
      cases heq
      exact ⟨hr3, .dec d⟩
  · rename_i e r3 hexp
    rw [hexp] at hr3
    obtain ⟨d, -, heq⟩ := map_ok h
    cases heq
    exact ⟨hr3, .dec d⟩

theorem skipWs_tail {c : Nat} {s t : PyStr} (h : Json.skipWs s = c :: t) : t <:+ s :=
  (List.suffix_cons c t).trans (h ▸ Json.skipWs_suffix s)

/-- What the scanners give, by induction on the fuel: a rest of the text, and texts of its characters. -/
theorem scan_spec (fuel : Nat) :
    (∀ {depth s v r}, scanValue fuel depth s = .ok (v, r) → r <:+ s ∧ (Json.Unicode s → Unicode v)) ∧
    (∀ {depth s xs r}, scanElements fuel depth s = .ok (xs, r) →
      r <:+ s ∧ (Json.Unicode s → ∀ x ∈ xs, Unicode x)) ∧
    ∀ {depth s ms r}, scanMembers fuel depth s = .ok (ms, r) → r <:+ s ∧ (Json.Unicode s → Members ms) := by
  induction fuel with
  | zero =>
    refine ⟨fun h => ?_, fun h => ?_, fun h => ?_⟩
    · rw [scanValue] at h
      cases h
    · rw [scanElements] at h
      cases h
    · rw [scanMembers] at h
      cases h
  | succ fuel ih =>
    obtain ⟨hvalue, helements, hmembers⟩ := ih
    refine ⟨fun {depth s v r} h => ?_, fun {depth s xs r} h => ?_, fun {depth s ms r} h => ?_⟩
    · cases s with
      | nil =>
        rw [scanValue] at h
        cases h
      | cons c rest =>
        have hrest : rest <:+ c :: rest := List.suffix_cons _ _
        rw [scanValue] at h
        split at h
        · obtain ⟨⟨t, r'⟩, hscan, heq⟩ := map_ok h
          obtain ⟨rfl, rfl⟩ := Prod.mk.inj heq
          obtain ⟨hsuffix, hu⟩ := Json.scanString_spec (ofOption_ok hscan)
          exact ⟨hsuffix.trans hrest, fun hs => .str (hu (hs.suffix hrest))⟩
        split at h
        · split at h
          · cases h
          split at h
          · rename_i heq
            cases h
            exact ⟨(skipWs_tail heq).trans hrest, fun _ => .arr fun _ hx => absurd hx List.not_mem_nil⟩
          · obtain ⟨⟨xs, r'⟩, hscan, heq⟩ := map_ok h
            obtain ⟨rfl, rfl⟩ := Prod.mk.inj heq
            obtain ⟨hr, hxs⟩ := helements hscan
            have hbody := (Json.skipWs_suffix rest).trans hrest
            exact ⟨hr.trans hbody, fun hs => .arr (hxs (hs.suffix hbody))⟩
        split at h
        · split at h
          · cases h
          split at h
          · rename_i heq
            cases h
            exact ⟨(skipWs_tail heq).trans hrest, fun _ => Members.obj fun _ hm => absurd hm List.not_mem_nil⟩
          · obtain ⟨⟨ms, r'⟩, hscan, heq⟩ := map_ok h
            obtain ⟨rfl, rfl⟩ := Prod.mk.inj heq
            obtain ⟨hr, hms⟩ := hmembers hscan
            have hbody := (Json.skipWs_suffix rest).trans hrest
            exact ⟨hr.trans hbody, fun hs => (hms (hs.suffix hbody)).dictOf.obj⟩
        split at h
        · rename_i hliteral
          cases h
          obtain ⟨hr, hv⟩ := scanLiteral_spec hliteral
          exact ⟨hr, fun _ => hv⟩
        · obtain ⟨hr, hv⟩ := scanNumber_spec h
          exact ⟨hr, fun _ => hv⟩
    · rw [scanElements] at h
      split at h
      · cases h
      rename_i v r1 hscan
      obtain ⟨hr1, hv⟩ := hvalue hscan
      split at h
      · rename_i heq
        cases h
        exact ⟨(skipWs_tail heq).trans hr1, fun hs => by simpa using hv hs⟩
      · rename_i r2 heq
        obtain ⟨⟨xs, r'⟩, hrest, heq'⟩ := map_ok h
        obtain ⟨rfl, rfl⟩ := Prod.mk.inj heq'
        obtain ⟨hr, hxs⟩ := helements hrest
        have hnext := (Json.skipWs_suffix r2).trans ((skipWs_tail heq).trans hr1)
        exact ⟨hr.trans hnext, fun hs => List.forall_mem_cons.2 ⟨hv hs, hxs (hs.suffix hnext)⟩⟩
      · cases h
    · rw [scanMembers.eq_def] at h
      simp only at h
      split at h
      · rename_i r0
        split at h
        · cases h
        rename_i k r1 hstring
        obtain ⟨hsuffix, hu⟩ := Json.scanString_spec hstring
        have hr0 : r0 <:+ 0x22 :: r0 := List.suffix_cons _ _
        split at h
        · rename_i r2 hcolon
          split at h
          · cases h
          rename_i v r3 hscan
          have hr2 := (Json.skipWs_suffix r2).trans ((skipWs_tail hcolon).trans (hsuffix.trans hr0))
          obtain ⟨hr3, hv⟩ := hvalue hscan
          split at h
          · rename_i heq
            cases h
            refine ⟨(skipWs_tail heq).trans (hr3.trans hr2), fun hs m hm => ?_⟩
            rw [List.mem_singleton.1 hm]
            exact ⟨hu (hs.suffix hr0), hv (hs.suffix hr2)⟩
          · rename_i r4 heq
            obtain ⟨⟨ms, r'⟩, hrest, heq'⟩ := map_ok h
            obtain ⟨rfl, rfl⟩ := Prod.mk.inj heq'
            obtain ⟨hr, hms⟩ := hmembers hrest
            have hnext := (Json.skipWs_suffix r4).trans ((skipWs_tail heq).trans (hr3.trans hr2))
            exact ⟨hr.trans hnext, fun hs => List.forall_mem_cons.2
              ⟨⟨hu (hs.suffix hr0), hv (hs.suffix hr2)⟩, hms (hs.suffix hnext)⟩⟩
          · cases h
        · cases h
      · cases h

/-- **What is read from a text of Unicode characters has only such texts.** -/
theorem loads_unicode {depth : Nat} {s : PyStr} {v : DecJson} (hs : Json.Unicode s) (h : loads depth s = .ok v) :
    Unicode v := by
  unfold loads at h
  split at h
  · cases h
  · rename_i v' r hscan
    split at h
    · cases h
      exact ((scan_spec _).1 hscan).2 (hs.suffix (Json.skipWs_suffix s))
    · cases h

/-! ## Numbers that are not represented -/

theorem map_error {α β : Type} {f : α → β} {x : Except ReadError α} {e : ReadError} (h : x.map f = .error e) :
    x = .error e := by
  cases x with
  | error e' =>
    cases h
    rfl
  | ok a => cases h

theorem ofOption_invalid {α : Type} {o : Option α} : ofOption .invalid o ≠ .error .inexact := by
  cases o with
  | none =>
    intro h
    cases h
  | some a =>
    intro h
    cases h

theorem ofOption_none {α : Type} {e : ReadError} {o : Option α} (h : ofOption e o = .error e) : o = none := by
  cases o with
  | none => rfl
  | some a => cases h

/-- A number that `Decimal` does not represent stands somewhere in the text. -/
def Unrepresented (s : PyStr) : Prop := ∃ t, t <:+ s ∧ scanNumber t = .error .inexact

theorem Unrepresented.of_suffix {s t : PyStr} (h : Unrepresented t) (hst : t <:+ s) : Unrepresented s := by
  obtain ⟨u, hu, hscan⟩ := h
  exact ⟨u, hu.trans hst, hscan⟩

/-- Where the scanners fail on such a number, by induction on the fuel. -/
theorem scan_inexact (fuel : Nat) :
    (∀ {depth s}, scanValue fuel depth s = .error .inexact → Unrepresented s) ∧
    (∀ {depth s}, scanElements fuel depth s = .error .inexact → Unrepresented s) ∧
    ∀ {depth s}, scanMembers fuel depth s = .error .inexact → Unrepresented s := by
  induction fuel with
  | zero =>
    refine ⟨fun h => ?_, fun h => ?_, fun h => ?_⟩
    · rw [scanValue] at h
      cases h
    · rw [scanElements] at h
      cases h
    · rw [scanMembers] at h
      cases h
  | succ fuel ih =>
    obtain ⟨hvalue, helements, hmembers⟩ := ih
    refine ⟨fun {depth s} h => ?_, fun {depth s} h => ?_, fun {depth s} h => ?_⟩
    · cases s with
      | nil =>
        rw [scanValue] at h
        cases h
      | cons c rest =>
        have hbody := (Json.skipWs_suffix rest).trans (List.suffix_cons c rest)
        rw [scanValue] at h
        split at h
        · exact absurd (map_error h) ofOption_invalid
        split at h
        · split at h
          · cases h
          split at h
          · cases h
          · exact (helements (map_error h)).of_suffix hbody
        split at h
        · split at h
          · cases h
          split at h
          · cases h
          · exact (hmembers (map_error h)).of_suffix hbody
        split at h
        · cases h
        · exact ⟨c :: rest, List.suffix_refl _, h⟩
    · rw [scanElements] at h
      split at h
      · rename_i e hscan
        cases h
        exact hvalue hscan
      rename_i v r1 hscan
      split at h
      · cases h
      · rename_i r2 heq
        exact (helements (map_error h)).of_suffix
          ((Json.skipWs_suffix r2).trans ((skipWs_tail heq).trans ((scan_spec fuel).1 hscan).1))
      · cases h
    · rw [scanMembers.eq_def] at h
      simp only at h
      split at h
      · rename_i r0
        split at h
        · cases h
        rename_i k r1 hstring
        split at h
        · rename_i r2 hcolon
          have hr2 := (Json.skipWs_suffix r2).trans ((skipWs_tail hcolon).trans
            ((Json.scanString_spec hstring).1.trans (List.suffix_cons 0x22 r0)))
          split at h
          · rename_i e hscan
            cases h
            exact (hvalue hscan).of_suffix hr2
          rename_i v r3 hscan
          split at h
          · cases h
          · rename_i r4 heq
            exact (hmembers (map_error h)).of_suffix ((Json.skipWs_suffix r4).trans
              ((skipWs_tail heq).trans (((scan_spec fuel).1 hscan).1.trans hr2)))
          · cases h
        · cases h
      · cases h

/-- **The reader fails so only on a text with such a number.** -/
theorem loads_inexact {depth : Nat} {s : PyStr} (h : loads depth s = .error .inexact) : Unrepresented s := by
  unfold loads at h
  split at h
  · rename_i e hscan
    cases h
    exact ((scan_inexact _).1 hscan).of_suffix (Json.skipWs_suffix s)
  · split at h
    · cases h
    · cases h

theorem digits_length (s : PyStr) : (Json.digits s).1.length ≤ s.length := by
  unfold Json.digits
  rw [List.span_eq_takeWhile_dropWhile]
  exact (List.takeWhile_prefix _).length_le

theorem wholePart_length {s whole r : PyStr} (h : Json.wholePart s = some (whole, r)) : whole.length ≤ s.length := by
  unfold Json.wholePart at h
  split at h
  · cases h
  · split at h
    · cases h
      exact Nat.succ_le_succ (Nat.zero_le _)
    split at h
    · rename_i c rest _ _
      have hle := digits_length (c :: rest)
      rwa [Option.some.inj h] at hle
    · cases h

theorem fraction_length (s : PyStr) : (Json.fraction s).1.length ≤ s.length := by
  unfold Json.fraction
  split
  · split
    · exact Nat.zero_le _
    · exact (digits_length _).trans (Nat.le_succ _)
  · exact Nat.zero_le _

/-- Digits and an exponent that are not enormous make a decimal. -/
theorem checked_isSome (neg : Bool) {ds : PyStr} (hds : ∀ c ∈ ds, isAsciiDigit c = true) {e : Int}
    (hlen : ds.length < 2 * 10 ^ 17) (hlow : -(3 * 10 ^ 17) ≤ e) (hhigh : e ≤ 10 ^ 17) :
    (PyDecimal.mk neg (ofDigits ds) e).checked.isSome := by
  have htop : (if ofDigits ds = 0 then e else e + PyDecimal.digitCount (ofDigits ds) - 1) ≤ PyDecimal.MAX_EMAX := by
    unfold PyDecimal.MAX_EMAX
    split
    · omega
    · rename_i hne
      have hcount := (PyDecimal.digitCount_le_iff hne).2 (Json.ofDigits_lt_pow hds)
      omega
  unfold PyDecimal.checked
  simp only
  rw [if_pos ⟨by unfold PyDecimal.MIN_ETINY; omega, htop⟩]
  rfl

theorem fraction_digits (s : PyStr) : ∀ c ∈ (Json.fraction s).1, isAsciiDigit c = true := by
  unfold Json.fraction
  split
  · split
    · exact fun c hc => absurd hc List.not_mem_nil
    · exact Json.digits_spec _
  · exact fun c hc => absurd hc List.not_mem_nil

/-- **Such a number has an enormous exponent**, unless the text is enormous itself. -/
theorem Unrepresented.exponent {s : PyStr} (h : Unrepresented s) (hlen : s.length < 10 ^ 17) :
    ∃ t e r, t <:+ s ∧ Json.exponent t = (some e, r) ∧ 10 ^ 17 ≤ |e| := by
  obtain ⟨t, hts, hscan⟩ := h
  unfold scanNumber at hscan
  simp only at hscan
  split at hscan
  · cases hscan
  rename_i whole r1 hwhole
  have hr1 : r1 <:+ s := (Json.wholePart_spec hwhole).2.2.trans ((unsigned_suffix t).trans hts)
  have hwholeLen : whole.length ≤ s.length :=
    (wholePart_length hwhole).trans ((unsigned_suffix t).trans hts).length_le
  have hfracLen : (Json.fraction r1).1.length ≤ s.length := (fraction_length r1).trans hr1.length_le
  have hdigits : ∀ c ∈ whole ++ (Json.fraction r1).1, isAsciiDigit c = true := by
    intro c hc
    rcases List.mem_append.1 hc with hc | hc
    · exact (Json.wholePart_spec hwhole).2.1 c hc
    · exact fraction_digits r1 c hc
  have hboth : (whole ++ (Json.fraction r1).1).length < 2 * 10 ^ 17 := by
    rw [List.length_append]
    omega
  have hsome := fun neg e => @checked_isSome neg _ hdigits e hboth
  split at hscan
  · split at hscan
    · split at hscan <;> cases hscan
    · have hnone := Option.not_isSome_iff_eq_none.2 (ofOption_none (map_error hscan))
      exact (hnone (hsome _ _ (by omega) (by omega))).elim
  · rename_i e r3 hexp
    refine ⟨(Json.fraction r1).2, e, r3, (Json.fraction_suffix r1).trans hr1, hexp, ?_⟩
    by_contra hsmall
    obtain ⟨hlow, hhigh⟩ := abs_lt.1 (not_le.1 hsmall)
    have hnone := Option.not_isSome_iff_eq_none.2 (ofOption_none (map_error hscan))
    exact hnone (hsome _ _ (by omega) (by omega))

end DecJson

/-! ## Decimals -/

theorem PyDecimal.text_unicode (d : PyDecimal) : Json.Unicode d.text := by
  have hnat : ∀ n : Nat, Json.Unicode (natText n) := fun n => unicode_pyStr _
  have hzeros : ∀ k : Nat, Json.Unicode (List.replicate k 0x30) := by
    intro k c hc
    rw [List.eq_of_mem_replicate hc]
    decide
  have hds := hnat d.coeff
  have htake : ∀ (k : Nat) (s : PyStr), Json.Unicode s → Json.Unicode (s.take k) :=
    fun k s hs => hs.sub (List.take_subset k s)
  have hdrop : ∀ (k : Nat) (s : PyStr), Json.Unicode s → Json.Unicode (s.drop k) :=
    fun k s hs => hs.sub (List.drop_subset k s)
  unfold PyDecimal.text
  simp only
  generalize natText d.coeff = ds at *
  generalize d.exp + (ds.length : Int) = left
  generalize (if d.exp ≤ 0 ∧ -6 < left then left else 1) = dot
  refine unicode_append.2 ⟨unicode_append.2 ⟨?_, ?_⟩, ?_⟩
  · split
    · exact unicode_cons.2 ⟨by decide, unicode_nil⟩
    · exact unicode_nil
  · split
    · exact unicode_append.2 ⟨unicode_append.2 ⟨unicode_pyStr _, hzeros _⟩, hds⟩
    split
    · exact unicode_append.2 ⟨hds, hzeros _⟩
    · exact unicode_append.2 ⟨htake _ _ hds, unicode_cons.2 ⟨by decide, hdrop _ _ hds⟩⟩
  · split
    · exact unicode_nil
    · refine unicode_cons.2 ⟨by decide, unicode_cons.2 ⟨?_, hnat _⟩⟩
      split <;> decide

end OTS
