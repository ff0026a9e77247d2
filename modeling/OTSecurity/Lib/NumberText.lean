import OTSecurity.Lib.FloatText
import OTSecurity.Lib.Json

/-!
# Numbers that read back

What `json.dumps` writes of an integer or a float, `json.loads` reads as the same number.

* `Stops` — what may stand after a number.
* `numberOf`, `scanNumber_parts` — a number by its whole part, fraction and exponent.
* `Spelled` — digits and the place of their point, in each of the four shapes that `repr` gives them.

Principal results: `scanNumber_int`, `scanNumber_float` — what is written of a number reads back.
-/

namespace OTS.Json

/-! ## Runs of digits -/

/-- No digit stands in front. -/
def NoDigit (r : PyStr) : Prop := ∀ c ∈ r.head?, isAsciiDigit c = false

/-- Nothing that a number could go on with stands in front. -/
def Stops (r : PyStr) : Prop :=
  ∀ c ∈ r.head?, isAsciiDigit c = false ∧ c ≠ 0x2E ∧ c ≠ 0x65 ∧ c ≠ 0x45

theorem Stops.noDigit {r : PyStr} (h : Stops r) : NoDigit r := fun c hc => (h c hc).1

theorem noDigit_cons {c : Nat} {r : PyStr} (h : isAsciiDigit c = false) : NoDigit (c :: r) := by
  rintro _ ⟨⟩
  exact h

theorem stops_nil : Stops [] := fun _ h => absurd h (Option.not_mem_none _)

theorem stops_comma (r : PyStr) : Stops (0x2C :: r) := by
  rintro _ ⟨⟩
  decide

theorem stops_bracket (r : PyStr) : Stops (0x5D :: r) := by
  rintro _ ⟨⟩
  decide

theorem stops_brace (r : PyStr) : Stops (0x7D :: r) := by
  rintro _ ⟨⟩
  decide

theorem digits_append {ds r : PyStr} (hd : ∀ c ∈ ds, isAsciiDigit c = true) (hr : NoDigit r) :
    digits (ds ++ r) = (ds, r) := by
  unfold digits
  rw [List.span_eq_takeWhile_dropWhile, List.takeWhile_append_of_pos hd, List.dropWhile_append_of_pos hd]
  cases r with
  | nil => simp
  | cons c r =>
    have hc := hr c rfl
    simp [hc]

theorem wholePart_digits {c : Nat} {ds r : PyStr} (hc : c ≠ 0x30) (hd : ∀ d ∈ c :: ds, isAsciiDigit d = true)
    (hr : NoDigit r) : wholePart (c :: ds ++ r) = some (c :: ds, r) := by
  rw [List.cons_append, wholePart, if_neg hc, if_pos (hd c List.mem_cons_self), ← List.cons_append,
    digits_append hd hr]

theorem fraction_stops {r : PyStr} (h : Stops r) : fraction r = ([], r) := by
  unfold fraction
  split
  · exact absurd rfl (h 0x2E rfl).2.1
  · rfl

theorem fraction_digits {c : Nat} {ds r : PyStr} (hd : ∀ d ∈ c :: ds, isAsciiDigit d = true)
    (hr : NoDigit r) : fraction (0x2E :: (c :: ds) ++ r) = (c :: ds, r) := by
  have heq := digits_append hd hr
  rw [List.cons_append] at heq
  simp only [fraction, List.cons_append, heq, List.cons_ne_nil, if_false]

theorem exponent_stops {r : PyStr} (h : Stops r) : exponent r = (none, r) := by
  unfold exponent
  split
  · rfl
  · rename_i e rest
    obtain ⟨-, -, he, hE⟩ := h e rfl
    rw [if_neg (by simp [he, hE])]

theorem exponent_digits {ds r : PyStr} (neg : Bool) (hd : ∀ d ∈ ds, isAsciiDigit d = true) (hne : ds ≠ [])
    (hr : NoDigit r) : exponent (0x65 :: (if neg then 0x2D else 0x2B) :: ds ++ r) =
      (some (if neg then -(ofDigits ds : Int) else ofDigits ds), r) := by
  unfold exponent
  cases neg
  · simp [digits_append hd hr, hne]
  · simp [digits_append hd hr, hne]

/-! ## Numbers -/

theorem intText_eq (n : Int) : intText n = (if n < 0 then [0x2D] else []) ++ natText n.natAbs := by
  cases n with
  | ofNat n => rfl
  | negSucc n =>
    rw [if_pos (Int.negSucc_lt_zero n), intText, pyStr]
    show ("-" ++ Nat.repr (n + 1)).toList.map Char.toNat = _
    rw [String.toList_append, List.map_append]
    rfl

/-- The number that its parts denote; `none` when an integer is too long. -/
def numberOf (neg : Bool) (whole frac : PyStr) (e : Option Int) : Option Json :=
  match e with
  | none =>
    if frac = [] then
      if INT_MAX_STR_DIGITS < whole.length then none
      else some (.int (if neg then -(ofDigits whole : Int) else ofDigits whole))
    else some (.float (.ofRat neg (ofDigits (whole ++ frac) * powInt 10 (-(frac.length : Int)))))
  | some e => some (.float (.ofRat neg (ofDigits (whole ++ frac) * powInt 10 (e - frac.length))))

/-- A number of parts that are known. -/
theorem scanNumber_parts {neg : Bool} {c : Nat} {body whole frac r1 r2 r3 : PyStr} {e : Option Int}
    (hc : c ≠ 0x2D) (hwhole : wholePart (c :: body) = some (whole, r1)) (hfrac : fraction r1 = (frac, r2))
    (hexp : exponent r2 = (e, r3)) : scanNumber ((if neg then [0x2D] else []) ++ c :: body) =
      (numberOf neg whole frac e).map fun v => (v, r3) := by
  have hhead : ∀ r, c :: body = 0x2D :: r → False := fun r h => hc (List.cons.inj h).1
  unfold numberOf
  cases neg
  · simp only [Bool.false_eq_true, if_false, List.nil_append]
    unfold scanNumber
    split
    · rename_i heq
      split at heq
      · rename_i h
        exact (hhead _ h).elim
      · cases heq
        simp only [hwhole, hfrac, hexp]
        cases e with
        | none =>
          simp only [Bool.false_eq_true, if_false]
          split_ifs <;> rfl
        | some e => rfl
  · simp only [scanNumber, if_true, List.singleton_append, hwhole, hfrac, hexp]
    cases e with
    | none =>
      simp only
      split_ifs <;> rfl
    | some e => rfl

theorem scanNumber_int {n : Int} (hn : (natText n.natAbs).length ≤ INT_MAX_STR_DIGITS) {r : PyStr}
    (hr : Stops r) : scanNumber (intText n ++ r) = some (.int n, r) := by
  obtain ⟨c, rest, htext, hc⟩ := natText_head n.natAbs
  have hdigits := natText_digits n.natAbs
  have hnum := ofDigits_natText n.natAbs
  rw [htext] at hn hdigits hnum
  have hminus : c ≠ 0x2D := by
    rintro rfl
    exact absurd (hdigits 0x2D List.mem_cons_self) (by decide)
  have hwhole : wholePart (c :: (rest ++ r)) = some (c :: rest, r) := by
    by_cases hzero : n.natAbs = 0
    · rw [hzero] at htext
      obtain ⟨rfl, rfl⟩ : c = 0x30 ∧ rest = [] := by
        have : natText 0 = [0x30] := rfl
        rw [this] at htext
        exact ⟨(List.cons.inj htext).1.symm, (List.cons.inj htext).2.symm⟩
      rfl
    · exact wholePart_digits (hc hzero) hdigits hr.noDigit
  have hparts := @scanNumber_parts (decide (n < 0)) c _ _ _ _ _ _ _ hminus hwhole (fraction_stops hr)
    (exponent_stops hr)
  simp only [decide_eq_true_eq] at hparts
  rw [intText_eq, htext, List.append_assoc, List.cons_append, hparts]
  simp only [numberOf, if_true, if_neg (not_lt.2 hn), hnum, Option.map_some, decide_eq_true_eq,
    Option.some.injEq, Prod.mk.injEq, Json.int.injEq, and_true]
  split <;> omega

/-! ### The text of a float -/

/-- The text starts with a digit, and its parts denote the float of a magnitude. -/
structure Parts (mag : Rat) (c : Nat) (body r : PyStr) : Prop where
  head : isAsciiDigit c = true
  reads : ∃ whole frac r1 r2 e, wholePart (c :: (body ++ r)) = some (whole, r1) ∧ fraction r1 = (frac, r2) ∧
    exponent r2 = (e, r) ∧ ∀ neg, numberOf neg whole frac e = some (.float (.finite neg mag))

/-- Digits and the place of their point, which denote the float of a magnitude. -/
structure Spelled (mag : Rat) (c : Nat) (ds : PyStr) (point : Int) : Prop where
  head : c ≠ 0x30
  digits : ∀ d ∈ c :: ds, isAsciiDigit d = true
  reads : ∀ sign, PyFloat.ofRat sign (ofDigits (c :: ds) * powInt 10 (point - ((c :: ds).length : Nat))) =
    .finite sign mag

variable {mag : Rat} {c : Nat} {ds r : PyStr} {point : Int}

theorem zeros_digits (n : Nat) : ∀ d ∈ List.replicate n 0x30, isAsciiDigit d = true := by
  intro d hd
  rw [List.eq_of_mem_replicate hd]
  rfl

theorem noDigit_dot (s : PyStr) : NoDigit (0x2E :: s) := noDigit_cons (by decide)

/-- The digits of an exponent, at least two. -/
theorem exponentText_spec (n : Nat) {text : PyStr}
    (h : text = if (natText n).length < 2 then 0x30 :: natText n else natText n) :
    (∀ d ∈ text, isAsciiDigit d = true) ∧ text ≠ [] ∧ ofDigits text = n := by
  subst h
  have hdigits := natText_digits n
  obtain ⟨c, rest, htext, -⟩ := natText_head n
  have hzero : ofDigits (0x30 :: natText n) = ofDigits (natText n) := by
    have := ofDigits_append [0x30] (natText n)
    rwa [show ofDigits [0x30] = 0 from rfl, Nat.zero_mul, Nat.zero_add] at this
  split
  · exact ⟨List.forall_mem_cons.2 ⟨rfl, hdigits⟩, List.cons_ne_nil _ _, hzero.trans (ofDigits_natText n)⟩
  · exact ⟨hdigits, by rw [htext]; exact List.cons_ne_nil _ _, ofDigits_natText n⟩

/-- One digit, the others after a point, and an exponent. -/
theorem Spelled.exponential (h : Spelled mag c ds point) (hr : Stops r) {n : PyStr}
    (hn : n = if (natText (point - 1).natAbs).length < 2 then 0x30 :: natText (point - 1).natAbs
      else natText (point - 1).natAbs) :
    Parts mag c ((if ds.length + 1 ≤ 1 then [] else 0x2E :: ds) ++
      0x65 :: (if point - 1 < 0 then 0x2D else 0x2B) :: n) r := by
  obtain ⟨hdigits, hne, hval⟩ := exponentText_spec _ hn
  have hexp := exponent_digits (decide (point - 1 < 0)) hdigits hne hr.noDigit
  rw [hval] at hexp
  simp only [decide_eq_true_eq] at hexp
  have hpoint : (if point - 1 < 0 then -(((point - 1).natAbs : Nat) : Int) else ((point - 1).natAbs : Nat)) =
      point - 1 := by
    split <;> omega
  rw [hpoint] at hexp
  have hsum : ∀ neg, numberOf neg [c] ds (some (point - 1)) = some (.float (.finite neg mag)) := by
    intro neg
    have hreads := h.reads neg
    rw [List.length_cons, Nat.cast_succ, show point - ((ds.length : Int) + 1) = point - 1 - ds.length by ring]
      at hreads
    exact congrArg (fun x => some (Json.float x)) hreads
  have hnoDigit : ∀ s : PyStr, NoDigit (0x65 :: s) := fun s => noDigit_cons (by decide)
  refine ⟨h.digits c List.mem_cons_self, [c], ds, (if ds.length + 1 ≤ 1 then [] else 0x2E :: ds) ++
    (0x65 :: (if point - 1 < 0 then 0x2D else 0x2B) :: n ++ r), _, some (point - 1), ?_, ?_, hexp, hsum⟩
  · rw [List.append_assoc]
    refine @wholePart_digits c [] _ h.head (fun d hd => h.digits d (by simpa using .inl (by simpa using hd))) ?_
    split
    · exact hnoDigit _
    · exact noDigit_dot _
  · cases ds with
    | nil => rfl
    | cons d ds =>
      rw [if_neg (by simp)]
      exact fraction_digits (fun x hx => h.digits x (.tail _ hx)) (hnoDigit _)

/-- A zero, and after the point zeros and the digits. -/
theorem Spelled.small (h : Spelled mag c ds point) (hr : Stops r) (hpoint : point ≤ 0) :
    Parts mag 0x30 (0x2E :: (List.replicate (-point).toNat 0x30 ++ c :: ds)) r := by
  have hdigits : ∀ d ∈ List.replicate (-point).toNat 0x30 ++ c :: ds, isAsciiDigit d = true := by
    intro d hd
    exact (List.mem_append.1 hd).elim (zeros_digits _ d) (h.digits d)
  have hval : ofDigits (0x30 :: (List.replicate (-point).toNat 0x30 ++ c :: ds)) = ofDigits (c :: ds) := by
    rw [← List.cons_append, ← List.replicate_succ, ofDigits_append, ofDigits_zeros, Nat.zero_mul, Nat.zero_add]
  have hne : List.replicate (-point).toNat 0x30 ++ c :: ds ≠ [] := by simp
  refine ⟨rfl, [0x30], List.replicate (-point).toNat 0x30 ++ c :: ds, _, r, none, rfl, ?_, exponent_stops hr,
    fun neg => ?_⟩
  · generalize List.replicate (-point).toNat 0x30 ++ c :: ds = t at hdigits hne
    cases t with
    | nil => exact absurd rfl hne
    | cons d t => exact fraction_digits hdigits hr.noDigit
  · have hexp : -((List.replicate (-point).toNat 0x30 ++ c :: ds).length : Int) =
        point - ((c :: ds).length : Nat) := by
      rw [List.length_append, List.length_replicate]
      push_cast
      omega
    rw [numberOf, if_neg hne, List.singleton_append, hval, hexp, h.reads]

/-- The digits and zeros before the point, and a zero after it. -/
theorem Spelled.whole (h : Spelled mag c ds point) (hr : Stops r) (hpoint : ((c :: ds).length : Int) ≤ point) :
    Parts mag c (ds ++ List.replicate (point.toNat - (c :: ds).length) 0x30 ++ [0x2E, 0x30]) r := by
  have hdigits : ∀ d ∈ c :: (ds ++ List.replicate (point.toNat - (c :: ds).length) 0x30),
      isAsciiDigit d = true := by
    rw [← List.cons_append]
    intro d hd
    exact (List.mem_append.1 hd).elim (h.digits d) (zeros_digits _ d)
  refine ⟨h.digits c List.mem_cons_self, c :: (ds ++ List.replicate (point.toNat - (c :: ds).length) 0x30),
    [0x30], 0x2E :: 0x30 :: r, r, none, ?_, ?_, exponent_stops hr, fun neg => ?_⟩
  · rw [List.append_assoc, ← List.cons_append]
    exact wholePart_digits h.head hdigits (noDigit_dot _)
  · exact @fraction_digits 0x30 [] r (by decide) hr.noDigit
  · rw [numberOf, if_neg (List.cons_ne_nil _ _), ← h.reads neg]
    have hval : ofDigits (c :: (ds ++ List.replicate (point.toNat - (c :: ds).length) 0x30) ++ [0x30]) =
        ofDigits (c :: ds) * 10 ^ (point.toNat - (c :: ds).length + 1) := by
      rw [← List.cons_append, List.append_assoc, ← List.replicate_succ', ofDigits_append, ofDigits_zeros,
        List.length_replicate, Nat.add_zero]
    have hexp : point - ((c :: ds).length : Nat) =
        ((point.toNat - (c :: ds).length + 1 : Nat) : Int) + -(([0x30] : PyStr).length : Int) := by
      rw [List.length_singleton]
      push_cast
      omega
    rw [hval, hexp, powInt_add (by norm_num), powInt_natCast, ← mul_assoc]
    push_cast
    rfl

/-- The digits with the point among them. -/
theorem Spelled.mixed (h : Spelled mag c ds point) (hr : Stops r) (hpos : 0 < point)
    (hpoint : point < ((c :: ds).length : Nat)) :
    Parts mag c (ds.take (point.toNat - 1) ++ 0x2E :: (c :: ds).drop point.toNat) r := by
  obtain ⟨k, hk⟩ : ∃ k, point.toNat = k + 1 := ⟨point.toNat - 1, by omega⟩
  have hsplit : c :: ds.take k ++ ds.drop k = c :: ds := by
    rw [List.cons_append, List.take_append_drop]
  have hlt : k < ds.length := by
    rw [List.length_cons] at hpoint
    push_cast at hpoint
    omega
  have hne : ds.drop k ≠ [] := fun heq => by
    have := congrArg List.length heq
    rw [List.length_drop, List.length_nil] at this
    omega
  have hdigits := h.digits
  rw [← hsplit] at hdigits
  have hwhole : ∀ d ∈ c :: ds.take k, isAsciiDigit d = true := fun d hd => hdigits d (List.mem_append_left _ hd)
  have hfrac : ∀ d ∈ ds.drop k, isAsciiDigit d = true := fun d hd => hdigits d (List.mem_append_right _ hd)
  rw [hk, Nat.add_sub_cancel, List.drop_succ_cons]
  refine ⟨h.digits c List.mem_cons_self, c :: ds.take k, ds.drop k, 0x2E :: ds.drop k ++ r, r, none, ?_, ?_,
    exponent_stops hr, fun neg => ?_⟩
  · rw [List.append_assoc]
    exact wholePart_digits h.head hwhole (noDigit_dot _)
  · generalize ds.drop k = t at hfrac hne
    cases t with
    | nil => exact absurd rfl hne
    | cons d t => exact fraction_digits hfrac hr.noDigit
  · have hexp : -((ds.drop k).length : Int) = point - ((c :: ds).length : Nat) := by
      rw [List.length_drop, List.length_cons]
      push_cast
      omega
    rw [numberOf, if_neg hne, hsplit, hexp, h.reads]

theorem magText_parts {neg : Bool} (h : (PyFloat.finite neg mag).Exact) (hr : Stops r) :
    ∃ c body, PyFloat.magText mag = c :: body ∧ Parts mag c body r := by
  unfold PyFloat.magText
  rcases h.1.eq_or_lt with rfl | hpos
  · rw [if_pos rfl]
    refine ⟨0x30, [0x2E, 0x30], rfl, rfl, [0x30], [0x30], 0x2E :: 0x30 :: r, r, none, rfl, ?_,
      exponent_stops hr, fun sign => ?_⟩
    · exact @fraction_digits 0x30 [] r (by decide) hr.noDigit
    · have hzero : PyFloat.ofRat sign 0 = .finite sign 0 := if_pos rfl
      simp [numberOf, ofDigits, hzero]
  obtain ⟨c, ds, point, hshort, hc, hdigits, hreads⟩ := PyFloat.shortest_reads h hpos
  have hspelled : Spelled mag c ds point := ⟨hc, hdigits, hreads⟩
  rw [if_neg hpos.ne', hshort]
  simp only
  split
  · exact ⟨c, _, rfl, hspelled.exponential hr rfl⟩
  split
  · exact ⟨0x30, _, rfl, hspelled.small hr (by assumption)⟩
  split
  · exact ⟨c, _, rfl, hspelled.whole hr (by assumption)⟩
  · rename_i hpos' hlen
    refine ⟨c, _, ?_, hspelled.mixed hr (by omega) (not_le.1 hlen)⟩
    obtain ⟨k, hk⟩ : ∃ k, point.toNat = k + 1 := ⟨point.toNat - 1, by omega⟩
    rw [hk]
    rfl

theorem scanNumber_float {neg : Bool} (h : (PyFloat.finite neg mag).Exact) (hr : Stops r) :
    scanNumber ((PyFloat.finite neg mag).text ++ r) = some (.float (.finite neg mag), r) := by
  obtain ⟨c, body, htext, hparts⟩ := magText_parts h hr
  obtain ⟨whole, frac, r1, r2, e, hwhole, hfrac, hexp, hval⟩ := hparts.reads
  have hminus : c ≠ 0x2D := by
    rintro rfl
    exact absurd hparts.head (by decide)
  rw [PyFloat.text, htext, List.append_assoc, List.cons_append, scanNumber_parts hminus hwhole hfrac hexp, hval]
  rfl

end OTS.Json
