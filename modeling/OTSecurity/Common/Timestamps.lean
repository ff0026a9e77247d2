import OTSecurity.Common.Timeutil
import OTSecurity.Lib.Digits

/-!
# Timestamps that read back

`format_us` of `lib/sih_common/timeutil.py` against `parse_us`.

* `toOrdinal_fromOrdinal` — the date of a day number has that day number.
* `padded_digits` — what a padded number consists of.

Principal results: `parseUs_formatUs` — a formatted time that is parsed is the time itself;
`formatUs_parses` — from the year 1000 on it is parsed.
-/

namespace OTS

/-! ## The calendar -/

theorem monthLengths_sum (y : Nat) : (monthLengths y).sum = if isLeap y then 366 else 365 := by
  unfold monthLengths
  cases isLeap y <;> rfl

/-- The month of a day of the year: the months before it have fewer days, those up to it more. -/
theorem monthOf_spec (lengths : List Nat) (m : Nat) {day : Nat} (h : day < lengths.sum) :
    ∃ i < lengths.length, monthOf lengths m day = (m + i, day - (lengths.take i).sum + 1) ∧
      (lengths.take i).sum ≤ day ∧ day < (lengths.take i).sum + lengths.getD i 0 := by
  induction lengths generalizing m day with
  | nil => cases h
  | cons len rest ih =>
    rw [List.sum_cons] at h
    unfold monthOf
    by_cases hday : day < len
    · rw [if_pos hday]
      exact ⟨0, Nat.succ_pos _, rfl, Nat.zero_le _, by simpa using hday⟩
    · have hrest : day - len < rest.sum := by omega
      obtain ⟨i, hi, heq, hlo, hhi⟩ := ih (m + 1) hrest
      rw [if_neg hday, heq]
      refine ⟨i + 1, Nat.succ_lt_succ hi, ?_, ?_, ?_⟩
      · rw [List.take_succ_cons, List.sum_cons]
        congr 1
        · omega
        · omega
      · rw [List.take_succ_cons, List.sum_cons]
        omega
      · rw [List.take_succ_cons, List.sum_cons, List.getD_cons_succ]
        omega

/-- The year of a day number, and the day of that year. -/
theorem yearOf_spec {n : Nat} (hn : 1 ≤ n) :
    daysBeforeYear (yearOf n).1 + (yearOf n).2 + 1 = n ∧ 1 ≤ (yearOf n).1 ∧
      (yearOf n).2 < if isLeap (yearOf n).1 then 366 else 365 := by
  obtain ⟨k, rfl⟩ : ∃ k, n = k + 1 := ⟨n - 1, by omega⟩
  unfold yearOf
  simp only [Nat.add_sub_cancel]
  obtain ⟨a, ha⟩ : ∃ a, a = k / 146097 := ⟨_, rfl⟩
  obtain ⟨b, hb⟩ : ∃ b, b = k % 146097 / 36524 := ⟨_, rfl⟩
  obtain ⟨c, hc⟩ : ∃ c, c = k % 146097 % 36524 / 1461 := ⟨_, rfl⟩
  obtain ⟨d, hd⟩ : ∃ d, d = k % 146097 % 36524 % 1461 / 365 := ⟨_, rfl⟩
  obtain ⟨e, he⟩ : ∃ e, e = k % 146097 % 36524 % 1461 % 365 := ⟨_, rfl⟩
  rw [← ha, ← hb, ← hc, ← hd, ← he]
  have hk : k = 146097 * a + 36524 * b + 1461 * c + 365 * d + e := by omega
  have hcycle : 36524 * b + 1461 * c + 365 * d + e < 146097 := by omega
  have hcentury : 1461 * c + 365 * d + e < 36524 := by omega
  have hfour : 365 * d + e < 1461 := by omega
  have hyear : e < 365 := by omega
  clear ha hb hc hd he
  by_cases hlast : d = 4 ∨ b = 4
  · -- The last day of a leap year that ends a cycle.
    rw [if_pos hlast]
    rcases hlast with rfl | rfl
    · obtain ⟨y, hy⟩ : ∃ y, y = a * 400 + b * 100 + c * 4 + 4 := ⟨_, rfl⟩
      have hquarters : (y - 1) / 4 = a * 100 + b * 25 + c := by omega
      have hcenturies : (y - 1) / 100 = a * 4 + b := by omega
      have hcycles : (y - 1) / 400 = a := by omega
      have hleap : isLeap y = true := by
        have hmod : y % 4 = 0 ∧ y % 100 = c * 4 + 4 := by omega
        simp only [isLeap, decide_eq_true_eq]
        omega
      simp only [← hy, hleap, if_true, daysBeforeYear, hquarters, hcenturies, hcycles]
      omega
    · obtain ⟨rfl, rfl, rfl⟩ : c = 0 ∧ d = 0 ∧ e = 0 := by omega
      obtain ⟨y, hy⟩ : ∃ y, y = a * 400 + 4 * 100 := ⟨_, rfl⟩
      have hquarters : (y - 1) / 4 = a * 100 + 99 := by omega
      have hcenturies : (y - 1) / 100 = a * 4 + 3 := by omega
      have hcycles : (y - 1) / 400 = a := by omega
      have hleap : isLeap y = true := by
        have hmod : y % 4 = 0 ∧ y % 400 = 0 := by omega
        simp only [isLeap, decide_eq_true_eq]
        omega
      simp only [Nat.zero_mul, Nat.add_zero, ← hy, hleap, if_true, daysBeforeYear, hquarters,
        hcenturies, hcycles]
      omega
  · rw [if_neg hlast]
    rw [not_or] at hlast
    obtain ⟨y, hy⟩ : ∃ y, y = a * 400 + b * 100 + c * 4 + d := ⟨_, rfl⟩
    have hquarters : y / 4 = a * 100 + b * 25 + c := by omega
    have hcenturies : y / 100 = a * 4 + b := by omega
    have hcycles : y / 400 = a := by omega
    refine ⟨?_, Nat.succ_pos _, by simp only; split <;> omega⟩
    simp only [daysBeforeYear, Nat.add_sub_cancel, ← hy, hquarters, hcenturies, hcycles]
    omega

/-- **The date of a day number has that number**, and is one of the calendar. -/
theorem toOrdinal_fromOrdinal {n : Nat} (hn : 1 ≤ n) {y m d : Nat} (h : fromOrdinal n = (y, m, d)) :
    toOrdinal y m d = n ∧ 1 ≤ y ∧ (1 ≤ m ∧ m ≤ 12) ∧ 1 ≤ d ∧ d ≤ daysInMonth y m := by
  obtain ⟨hdays, hpos, hlt⟩ := yearOf_spec hn
  unfold fromOrdinal at h
  generalize yearOf n = p at h hdays hpos hlt
  obtain ⟨y', day⟩ := p
  simp only [Prod.mk.injEq] at h hdays hpos hlt
  obtain ⟨rfl, hmonth⟩ := h
  obtain ⟨i, hi, hmd, hlo, hhi⟩ := monthOf_spec (monthLengths y') 1
    (show day < (monthLengths y').sum by rwa [monthLengths_sum])
  rw [hmonth, Prod.mk.injEq] at hmd
  obtain ⟨rfl, rfl⟩ := hmd
  have hlen : (monthLengths y').length = 12 := rfl
  have hmonths : daysBeforeMonth y' (1 + i) = ((monthLengths y').take i).sum := by
    rw [daysBeforeMonth, Nat.add_sub_cancel_left]
  have hinMonth : daysInMonth y' (1 + i) = (monthLengths y').getD i 0 := by
    rw [daysInMonth, Nat.add_sub_cancel_left]
  refine ⟨?_, hpos, by omega, by omega, by omega⟩
  rw [toOrdinal, hmonths]
  omega

/-! ## Numbers of a fixed width -/

theorem decimalDigit_ascii {c : Nat} (hc : isAsciiDigit c = true) : decimalDigit c = some (c - 0x30) := by
  simp only [isAsciiDigit, Bool.and_eq_true, decide_eq_true_eq] at hc
  have hall : ∀ d < 10, decimalDigit (0x30 + d) = some (0x30 + d - 0x30) := by decide
  have := hall (c - 0x30) (by omega)
  rwa [show 0x30 + (c - 0x30) = c by omega] at this

theorem decimalNumber_digits {s : PyStr} (hs : ∀ c ∈ s, isAsciiDigit c = true) :
    decimalNumber s = some (ofDigits s) := by
  have hfold : ∀ (s : PyStr) (n : Nat), (∀ c ∈ s, isAsciiDigit c = true) →
      s.foldlM (fun n c => (decimalDigit c).map (n * 10 + ·)) n =
        some (s.foldl (fun n c => n * 10 + (c - 0x30)) n) := by
    intro s
    induction s with
    | nil => exact fun _ _ => rfl
    | cons c s ih =>
      intro n hs
      rw [List.foldlM_cons, decimalDigit_ascii (hs c List.mem_cons_self)]
      exact ih _ fun d hd => hs d (List.mem_cons_of_mem _ hd)
  exact hfold s 0 hs

theorem ofDigits_lt {s : PyStr} (hs : ∀ c ∈ s, isAsciiDigit c = true) : ofDigits s < 10 ^ s.length :=
  decimalNumber_lt (decimalNumber_digits hs)

/-- A padded number that fits has exactly its width, and spells the number. -/
theorem padded_digits {n k : Nat} (hn : 1 ≤ n) (hk : k < 10 ^ n) : (padded n k).length = n ∧
    (∀ c ∈ padded n k, isAsciiDigit c = true) ∧ ofDigits (padded n k) = k := by
  have hlen := natText_length_le hn hk
  unfold padded
  refine ⟨?_, ?_, ?_⟩
  · rw [List.length_append, List.length_replicate]
    omega
  · intro c hc
    rcases List.mem_append.1 hc with hc | hc
    · rw [List.eq_of_mem_replicate hc]
      rfl
    · exact natText_digits k c hc
  · rw [ofDigits_append, ofDigits_zeros, ofDigits_natText]
    omega

/-- A number of four digits. -/
theorem natText_four {y : Nat} (hlo : 1000 ≤ y) (hhi : y ≤ 9999) : (natText y).length = 4 := by
  have hle : (natText y).length ≤ 4 := natText_length_le (by decide) (by omega)
  have hlt := ofDigits_lt (natText_digits y)
  rw [ofDigits_natText] at hlt
  by_contra hne
  have hshort : 10 ^ (natText y).length ≤ 10 ^ 3 := Nat.pow_le_pow_right (by decide) (by omega)
  omega

theorem two_digits {s : PyStr} (h : s.length = 2) : ∃ a b, s = [a, b] := by
  match s, h with
  | [a, b], _ => exact ⟨a, b, rfl⟩

/-- A field of two digits in its range. -/
theorem dateField_digits {a b v lo hi : Nat} {free : Nat → Bool}
    (hd : ∀ c ∈ [a, b], isAsciiDigit c = true) (hv : ofDigits [a, b] = v) (hlo : lo ≤ v)
    (hhi : v ≤ hi) : dateField a b free lo hi = some v := by
  unfold dateField
  rw [if_pos ⟨hd a List.mem_cons_self, .inl (hd b (.tail _ List.mem_cons_self))⟩,
    decimalNumber_digits hd, hv]
  exact if_pos ⟨hlo, hhi⟩

/-! ## Reading back -/

/-- The fields of a formatted time. -/
structure FormattedAs (x : Int) (s : PyStr) (y m d rest : Nat) : Prop where
  text : s = natText y ++ 0x2D :: padded 2 m ++ 0x2D :: padded 2 d ++
    0x54 :: padded 2 (rest / 1000000 / 3600) ++ 0x3A :: padded 2 (rest / 1000000 / 60 % 60) ++
    0x3A :: padded 2 (rest / 1000000 % 60) ++ 0x2E :: padded 6 (rest % 1000000) ++ [0x5A]
  time : x = ((toOrdinal y m d : Int) - EPOCH_ORDINAL) * DAY_US + rest
  year : 1 ≤ y ∧ y ≤ 9999
  month : 1 ≤ m ∧ m ≤ 12
  day : 1 ≤ d ∧ d ≤ daysInMonth y m
  rest : rest < 86400000000

theorem formatUs_fields {x : Int} {s : PyStr} (h : formatUs x = some s) :
    ∃ y m d rest, FormattedAs x s y m d rest := by
  unfold formatUs at h
  simp only at h
  split at h
  · rename_i hord
    generalize hn : (EPOCH_ORDINAL + x / DAY_US).toNat = n at h
    generalize hdate : fromOrdinal n = date at h
    obtain ⟨y, m, d⟩ := date
    obtain ⟨hordinal, hy, hm, hd⟩ := toOrdinal_fromOrdinal (by omega) hdate
    have hyears : y ≤ 9999 := by
      unfold toOrdinal daysBeforeYear at hordinal
      unfold MAX_ORDINAL at hord
      omega
    refine ⟨y, m, d, (x % DAY_US).toNat, (Option.some.inj h).symm, ?_, ⟨hy, hyears⟩, hm, hd, ?_⟩
    · rw [hordinal]
      unfold DAY_US at *
      omega
    · unfold DAY_US
      omega
  · cases h

theorem FormattedAs.parse {x : Int} {s : PyStr} {y m d rest : Nat} (h : FormattedAs x s y m d rest)
    (hy : (natText y).length = 4) : parseUs s = some x := by
  obtain ⟨rfl, rfl, hpos, hm, hd, hrest⟩ := h
  have hday := daysInMonth_le y m
  obtain ⟨hml, hmd, hmv⟩ := padded_digits (n := 2) (k := m) (by decide) (by omega)
  obtain ⟨hdl, hdd, hdv⟩ := padded_digits (n := 2) (k := d) (by decide) (by omega)
  obtain ⟨hhl, hhd, hhv⟩ := padded_digits (n := 2) (k := rest / 1000000 / 3600) (by decide) (by omega)
  obtain ⟨hil, hid, hiv⟩ := padded_digits (n := 2) (k := rest / 1000000 / 60 % 60) (by decide) (by omega)
  obtain ⟨hsl, hsd, hsv⟩ := padded_digits (n := 2) (k := rest / 1000000 % 60) (by decide) (by omega)
  obtain ⟨hfl, hfd, hfv⟩ := padded_digits (n := 6) (k := rest % 1000000) (by decide) (by omega)
  have hyd := natText_digits y
  have hyv := ofDigits_natText y
  generalize natText y = ytext at hy hyd hyv ⊢
  generalize padded 2 m = mtext at hml hmd hmv ⊢
  generalize padded 2 d = dtext at hdl hdd hdv ⊢
  generalize padded 2 (rest / 1000000 / 3600) = htext at hhl hhd hhv ⊢
  generalize padded 2 (rest / 1000000 / 60 % 60) = itext at hil hid hiv ⊢
  generalize padded 2 (rest / 1000000 % 60) = stext at hsl hsd hsv ⊢
  generalize padded 6 (rest % 1000000) = ftext at hfl hfd hfv ⊢
  obtain ⟨y1, y2, y3, y4, rfl⟩ : ∃ a b c d, ytext = [a, b, c, d] := by
    match ytext, hy with
    | [a, b, c, d], _ => exact ⟨a, b, c, d, rfl⟩
  obtain ⟨f1, f2, f3, f4, f5, f6, rfl⟩ : ∃ a b c d e f, ftext = [a, b, c, d, e, f] := by
    match ftext, hfl with
    | [a, b, c, d, e, f], _ => exact ⟨a, b, c, d, e, f, rfl⟩
  obtain ⟨m1, m2, rfl⟩ := two_digits hml
  obtain ⟨d1, d2, rfl⟩ := two_digits hdl
  obtain ⟨h1, h2, rfl⟩ := two_digits hhl
  obtain ⟨i1, i2, rfl⟩ := two_digits hil
  obtain ⟨s1, s2, rfl⟩ := two_digits hsl
  have hfrac : fractionUs [0x2E, f1, f2, f3, f4, f5, f6, 0x5A] = some (rest % 1000000) := by
    rw [← hfv, ← decimalNumber_digits hfd]
    rfl
  have hhour : rest / 1000000 / 3600 ≤ 23 := by omega
  have hminute : rest / 1000000 / 60 % 60 ≤ 59 := by omega
  have hsecond : rest / 1000000 % 60 ≤ 59 := by omega
  unfold parseUs
  simp only [List.cons_append, List.nil_append, List.getD_cons_succ, List.getD_cons_zero,
    List.take_succ_cons, List.take_zero, List.drop_succ_cons, List.drop_zero]
  rw [if_neg (by simp [separators]), decimalNumber_digits hyd, hyv]
  simp only [Option.bind_eq_bind, Option.bind_some, dateField_digits hmd hmv hm.1 hm.2,
    dateField_digits hdd hdv hd.1 hd.2, dateField_digits hhd hhv (Nat.zero_le _) hhour,
    dateField_digits hid hiv (Nat.zero_le _) hminute, dateField_digits hsd hsv (Nat.zero_le _) hsecond,
    hfrac, if_neg (Nat.ne_of_gt hpos.1), Option.some.injEq]
  omega

/-- Before the year 1000 the date does not start with four digits. -/
theorem FormattedAs.not_parsed {x : Int} {s : PyStr} {y m d rest : Nat}
    (h : FormattedAs x s y m d rest) (hy : (natText y).length ≤ 3) : parseUs s = none := by
  obtain ⟨rfl, -, -, hm, hd, hrest⟩ := h
  have hday := daysInMonth_le y m
  obtain ⟨hml, hmd, -⟩ := padded_digits (n := 2) (k := m) (by decide) (by omega)
  obtain ⟨hdl, hdd, -⟩ := padded_digits (n := 2) (k := d) (by decide) (by omega)
  obtain ⟨c, t, hhead, -⟩ := natText_head y
  generalize natText y = ytext at hy hhead ⊢
  generalize padded 2 m = mtext at hml hmd ⊢
  generalize padded 2 d = dtext at hdl hdd ⊢
  obtain ⟨m1, m2, rfl⟩ := two_digits hml
  obtain ⟨d1, d2, rfl⟩ := two_digits hdl
  have hdash : ∀ {c : Nat}, isAsciiDigit c = true → c ≠ 0x2D := by
    rintro c hc rfl
    cases hc
  have hm1 := hdash (hmd m1 List.mem_cons_self)
  have hm2 := hdash (hmd m2 (.tail _ List.mem_cons_self))
  unfold parseUs
  rw [if_pos]
  right
  match ytext, hy, hhead with
  | [a], _, _ => simp [separators]
  | [a, b], _, _ => simp [separators, hm2]
  | [a, b, c], _, _ => simp [separators, hm1]

/-- **A formatted time that is parsed is the time itself.** -/
theorem parseUs_formatUs {x z : Int} {s : PyStr} (h : formatUs x = some s) (hz : parseUs s = some z) :
    z = x := by
  obtain ⟨y, m, d, rest, hfields⟩ := formatUs_fields h
  by_cases hy : (natText y).length = 4
  · exact Option.some.inj (hz.symm.trans (hfields.parse hy))
  · have hlen : (natText y).length ≤ 4 :=
      natText_length_le (by decide) (Nat.lt_succ_of_le hfields.year.2)
    rw [hfields.not_parsed (by omega)] at hz
    cases hz

/-- The days of a year up to the end of a month. -/
theorem days_of_month_le (y : Nat) {m : Nat} (hm : 1 ≤ m ∧ m ≤ 12) :
    daysBeforeMonth y m + daysInMonth y m ≤ if isLeap y then 366 else 365 := by
  rw [← monthLengths_sum, daysBeforeMonth, daysInMonth]
  have hlen : (monthLengths y).length = 12 := rfl
  have hsplit : ((monthLengths y).take (m - 1)).sum + ((monthLengths y).drop (m - 1)).sum =
      (monthLengths y).sum := by
    rw [← List.sum_append, List.take_append_drop]
  rw [← hsplit, List.drop_eq_getElem_cons (by omega), List.sum_cons,
    List.getD_eq_getElem?_getD, List.getElem?_eq_getElem (by omega), Option.getD_some]
  omega

/-- Times from the year 1000 on. -/
theorem FormattedAs.year_ge {x : Int} {s : PyStr} {y m d rest : Nat} (h : FormattedAs x s y m d rest)
    (hx : -30610224000000000 ≤ x) : 1000 ≤ y := by
  have hmonths := days_of_month_le y h.month
  have hday := h.day.2
  have hordinal : 364878 ≤ toOrdinal y m d := by
    have htime := h.time
    have hrest := h.rest
    unfold EPOCH_ORDINAL DAY_US at htime
    omega
  unfold toOrdinal daysBeforeYear at hordinal
  by_contra hlt
  rcases Nat.lt_or_ge y 999 with hy | hy
  · have hyear366 : (if isLeap y then 366 else 365) ≤ 366 := by split <;> decide
    omega
  · obtain rfl : y = 999 := by omega
    rw [if_neg (by decide)] at hmonths
    omega

theorem FormattedAs.year_lt {x : Int} {s : PyStr} {y m d rest : Nat} (h : FormattedAs x s y m d rest)
    (hx : x < -30610224000000000) : y ≤ 999 := by
  have hordinal : toOrdinal y m d < 364878 := by
    have htime := h.time
    unfold EPOCH_ORDINAL DAY_US at htime
    omega
  have hday := h.day
  unfold toOrdinal daysBeforeYear at hordinal
  by_contra hlt
  obtain rfl | hy : y = 1000 ∨ 1001 ≤ y := by omega
  · omega
  · omega

/-- **From the year 1000 on a formatted time is parsed.** -/
theorem formatUs_parses {x : Int} {s : PyStr} (h : formatUs x = some s)
    (hx : -30610224000000000 ≤ x) : parseUs s = some x := by
  obtain ⟨y, m, d, rest, hfields⟩ := formatUs_fields h
  exact hfields.parse (natText_four (hfields.year_ge hx) hfields.year.2)

end OTS
