import OTSecurity.Common.Timestamps

/-!
# Timestamps that sort

Formatted times of four-digit years as texts: they are ordered as the times are, and a time that is read from
any text is formatted in one way.

* `toOrdinal_lt`, `fromOrdinal_toOrdinal` — the days of the calendar are numbered in order.
* `spell`, `spell_lt` — numbers of fixed widths are ordered by their texts.
* `Reads` — the calendar fields and the fraction of a text that `parse_us` reads.

Principal result: `canonical_timestamps`.
-/

namespace OTS

/-! ## The order of the calendar -/

/-- A date of the calendar. -/
structure IsDate (y m d : Nat) : Prop where
  year : 1 ≤ y
  month : 1 ≤ m ∧ m ≤ 12
  day : 1 ≤ d ∧ d ≤ daysInMonth y m

theorem daysBeforeYear_succ {y : Nat} (hy : 1 ≤ y) :
    daysBeforeYear (y + 1) = daysBeforeYear y + if isLeap y then 366 else 365 := by
  obtain ⟨k, rfl⟩ : ∃ k, y = k + 1 := ⟨y - 1, by omega⟩
  have hdiv : ∀ n, (k + 1) / n = k / n + if n ∣ k + 1 then 1 else 0 := fun n => Nat.succ_div ..
  have hcenturies : k / 100 ≤ k := Nat.div_le_self k 100
  unfold daysBeforeYear isLeap
  simp only [Nat.add_sub_cancel, hdiv, decide_eq_true_eq, Nat.dvd_iff_mod_eq_zero]
  by_cases h4 : (k + 1) % 4 = 0
  · by_cases h100 : (k + 1) % 100 = 0
    · by_cases h400 : (k + 1) % 400 = 0
      · simp only [h4, h100, h400, if_true, true_and, or_true]
        omega
      · simp only [h4, h100, h400, if_true, if_false, ne_eq, not_true, true_and, or_false]
        omega
    · have h400 : (k + 1) % 400 ≠ 0 := by omega
      simp only [h4, h100, h400, if_true, if_false, ne_eq, not_false_eq_true, true_and, true_or]
      omega
  · have h100 : (k + 1) % 100 ≠ 0 := by omega
    have h400 : (k + 1) % 400 ≠ 0 := by omega
    simp only [h4, h100, h400, if_false, false_and]
    omega

theorem daysBeforeYear_mono {y y' : Nat} (hy : 1 ≤ y) (h : y ≤ y') : daysBeforeYear y ≤ daysBeforeYear y' := by
  induction y', h using Nat.le_induction with
  | base => exact Nat.le_refl _
  | succ y' h ih =>
    rw [daysBeforeYear_succ (Nat.le_trans hy h)]
    exact Nat.le_add_right_of_le ih

/-- The days of the months up to `m` are before every later month. -/
theorem daysBeforeMonth_le_of_lt (y : Nat) {m m' : Nat} (hm : 1 ≤ m) (h : m < m') (hm' : m' ≤ 12) :
    daysBeforeMonth y m + daysInMonth y m ≤ daysBeforeMonth y m' := by
  have hlen : (monthLengths y).length = 12 := rfl
  obtain ⟨i, rfl⟩ : ∃ i, m = i + 1 := ⟨m - 1, by omega⟩
  obtain ⟨k, rfl⟩ : ∃ k, m' = i + 1 + (k + 1) := ⟨m' - (i + 2), by omega⟩
  unfold daysBeforeMonth daysInMonth
  rw [Nat.add_sub_cancel, show i + 1 + (k + 1) - 1 = i + 1 + k by omega, List.take_add, List.sum_append,
    List.take_add_one, List.sum_append, List.getD_eq_getElem?_getD, List.getElem?_eq_getElem (by omega)]
  simp

/-- **Later dates have greater numbers.** -/
theorem toOrdinal_lt {y m d y' m' d' : Nat} (h : IsDate y m d) (h' : IsDate y' m' d')
    (hlt : y < y' ∨ y = y' ∧ (m < m' ∨ m = m' ∧ d < d')) : toOrdinal y m d < toOrdinal y' m' d' := by
  have hday := h.day
  have hday' := h'.day
  unfold toOrdinal
  rcases hlt with hy | ⟨rfl, hm | ⟨rfl, hd⟩⟩
  · have hmonth := days_of_month_le y h.month
    have hyear := daysBeforeYear_succ h.year
    have hyears := daysBeforeYear_mono (Nat.le_add_left 1 y) hy
    omega
  · have hmonth := daysBeforeMonth_le_of_lt y h.month.1 hm h'.month.2
    omega
  · omega

theorem date_trichotomy (y m d y' m' d' : Nat) :
    (y < y' ∨ y = y' ∧ (m < m' ∨ m = m' ∧ d < d')) ∨ (y = y' ∧ m = m' ∧ d = d') ∨
      (y' < y ∨ y' = y ∧ (m' < m ∨ m' = m ∧ d' < d)) := by
  omega

/-- The date of the number of a date. -/
theorem fromOrdinal_toOrdinal {y m d : Nat} (h : IsDate y m d) : fromOrdinal (toOrdinal y m d) = (y, m, d) := by
  have hpos : 1 ≤ toOrdinal y m d := by
    have := h.day
    unfold toOrdinal
    omega
  generalize hdate : fromOrdinal (toOrdinal y m d) = date
  obtain ⟨y', m', d'⟩ := date
  obtain ⟨hsame, hyear, hmonth, hday⟩ := toOrdinal_fromOrdinal hpos hdate
  have h' : IsDate y' m' d' := ⟨hyear, hmonth, hday⟩
  rcases date_trichotomy y m d y' m' d' with hlt | ⟨rfl, rfl, rfl⟩ | hlt
  · have := toOrdinal_lt h h' hlt
    omega
  · rfl
  · have := toOrdinal_lt h' h hlt
    omega

/-! ## Numbers of fixed widths -/

/-- Runs of as many digits are ordered as their numbers are. -/
theorem digits_lt {s t : PyStr} (hlen : s.length = t.length) (hs : ∀ c ∈ s, isAsciiDigit c = true)
    (ht : ∀ c ∈ t, isAsciiDigit c = true) (h : ofDigits s < ofDigits t) : s < t := by
  induction s generalizing t with
  | nil =>
    obtain rfl := List.length_eq_zero_iff.1 hlen.symm
    exact absurd h (Nat.lt_irrefl _)
  | cons c s ih =>
    cases t with
    | nil => cases hlen
    | cons d t =>
      have hlen' : s.length = t.length := Nat.succ.inj hlen
      rw [List.forall_mem_cons] at hs ht
      have hlow := ofDigits_lt hs.2
      have hlow' := ofDigits_lt ht.2
      rw [hlen'] at hlow
      rw [← List.singleton_append, ← List.singleton_append (l := t), ofDigits_append, ofDigits_append,
        hlen'] at h
      have hc : ofDigits [c] = c - 0x30 := by simp [ofDigits]
      have hd : ofDigits [d] = d - 0x30 := by simp [ofDigits]
      have hcd := hs.1
      have hdd := ht.1
      simp only [isAsciiDigit, Bool.and_eq_true, decide_eq_true_eq] at hcd hdd
      rw [hc, hd] at h
      rw [List.cons_lt_cons_iff]
      rcases Nat.lt_trichotomy c d with hlt | rfl | hgt
      · exact .inl hlt
      · exact .inr ⟨rfl, ih hlen' hs.2 ht.2 (by omega)⟩
      · exfalso
        have hmul : (d - 0x30 + 1) * 10 ^ t.length ≤ (c - 0x30) * 10 ^ t.length :=
          Nat.mul_le_mul_right _ (by omega)
        rw [Nat.add_mul] at hmul
        omega

/-- Numbers with so many digits, and what follows each of them. -/
def spell (layout : List (Nat × Nat)) (vs : List Nat) : PyStr :=
  (layout.zip vs).flatMap fun p => padded p.1.1 p.2 ++ [p.1.2]

/-- The numbers have no more digits than the layout gives them. -/
def Fits (layout : List (Nat × Nat)) (vs : List Nat) : Prop :=
  List.Forall₂ (fun (w : Nat × Nat) v => 1 ≤ w.1 ∧ v < 10 ^ w.1) layout vs

/-- **Texts of a layout are ordered as the numbers are.** -/
theorem spell_lt {layout : List (Nat × Nat)} {vs ws : List Nat} (hvs : Fits layout vs) (hws : Fits layout ws)
    (h : vs < ws) : spell layout vs < spell layout ws := by
  induction layout generalizing vs ws with
  | nil =>
    cases hvs
    cases hws
    exact absurd h (List.lt_irrefl _)
  | cons w layout ih =>
    cases hvs with
    | cons hv hvs =>
    cases hws with
    | cons hw hws =>
    rename_i v vs w' ws
    obtain ⟨hlen, hdigits, hnum⟩ := padded_digits hv.1 hv.2
    obtain ⟨hlen', hdigits', hnum'⟩ := padded_digits hw.1 hw.2
    unfold spell
    rw [List.zip_cons_cons, List.flatMap_cons, List.zip_cons_cons, List.flatMap_cons, List.append_assoc,
      List.append_assoc]
    rcases List.cons_lt_cons_iff.1 h with hlt | ⟨rfl, hrest⟩
    · exact append_lt (hlen.trans hlen'.symm)
        (digits_lt (hlen.trans hlen'.symm) hdigits hdigits' (by rwa [hnum, hnum'])) _ _
    · exact List.append_left_lt (List.append_left_lt (ih hvs hws hrest))

/-! ## Times of four-digit years -/

/-- The year of a time, in UTC. -/
def utcYear (x : Int) : Nat := (fromOrdinal (EPOCH_ORDINAL + x / DAY_US).toNat).1

/-- `%Y-%m-%dT%H:%M:%S.` and the microseconds, with `Z`. -/
def LAYOUT : List (Nat × Nat) :=
  [(4, 0x2D), (2, 0x2D), (2, 0x54), (2, 0x3A), (2, 0x3A), (2, 0x2E), (6, 0x5A)]

/-- The fields of a time: the date, and the time of the day in microseconds. -/
structure FieldsOf (x : Int) (y m d rest : Nat) : Prop where
  date : IsDate y m d
  time : x = ((toOrdinal y m d : Int) - EPOCH_ORDINAL) * DAY_US + rest
  rest : rest < 86400000000

/-- The numbers of a formatted time. -/
def numbers (y m d rest : Nat) : List Nat :=
  [y, m, d, rest / 1000000 / 3600, rest / 1000000 / 60 % 60, rest / 1000000 % 60, rest % 1000000]

/-- The numbers of a time of the day. -/
theorem numbers_clock {y m d hour minute second frac : Nat} (hm : minute ≤ 59)
    (hs : second ≤ 59) (hf : frac < 10 ^ 6) :
    numbers y m d ((hour * 3600 + minute * 60 + second) * 1000000 + frac) =
      [y, m, d, hour, minute, second, frac] := by
  have hmicro : ∀ a : Nat, (a * 1000000 + frac) / 1000000 = a ∧ (a * 1000000 + frac) % 1000000 = frac := by
    intro a
    omega
  have hhour : (hour * 3600 + minute * 60 + second) / 3600 = hour := by omega
  have hminute : (hour * 3600 + minute * 60 + second) / 60 % 60 = minute := by omega
  have hsecond : (hour * 3600 + minute * 60 + second) % 60 = second := by omega
  unfold numbers
  rw [(hmicro _).1, (hmicro _).2, hhour, hminute, hsecond]

variable {x x' : Int} {y m d rest y' m' d' rest' : Nat} {s t : PyStr}

theorem FormattedAs.fieldsOf (h : FormattedAs x s y m d rest) : FieldsOf x y m d rest :=
  ⟨⟨h.year.1, h.month, h.day⟩, h.time, h.rest⟩

/-- The day number and the time of the day. -/
theorem FieldsOf.split (h : FieldsOf x y m d rest) :
    EPOCH_ORDINAL + x / DAY_US = toOrdinal y m d ∧ x % DAY_US = rest := by
  obtain ⟨-, rfl, hrest⟩ := h
  unfold DAY_US
  omega

theorem FieldsOf.utcYear_eq (h : FieldsOf x y m d rest) : utcYear x = y := by
  unfold utcYear
  rw [h.split.1, Int.toNat_natCast, fromOrdinal_toOrdinal h.date]

/-- The days up to the year 9999. -/
theorem IsDate.ordinal_bounds (h : IsDate y m d) (hy : y ≤ 9999) :
    1 ≤ toOrdinal y m d ∧ toOrdinal y m d ≤ 3652059 := by
  have hday := h.day
  have hmonths := days_of_month_le y h.month
  have hyears := daysBeforeYear_mono (Nat.le_add_left 1 y) (show y + 1 ≤ 10000 by omega)
  have hlast : daysBeforeYear 10000 = 3652059 := by decide
  rw [daysBeforeYear_succ h.year, hlast] at hyears
  unfold toOrdinal
  omega

/-- **How a time is formatted.** -/
theorem FieldsOf.formatted (h : FieldsOf x y m d rest) (hy : 1000 ≤ y ∧ y ≤ 9999) :
    formatUs x = some (spell LAYOUT (numbers y m d rest)) := by
  obtain ⟨hordinal, hrest⟩ := h.split
  have hbounds := h.date.ordinal_bounds hy.2
  have hyear : padded 4 y = natText y := by
    unfold padded
    simp only [natText_four hy.1 hy.2]
    rfl
  unfold formatUs
  simp only
  rw [hordinal, hrest, Int.toNat_natCast, Int.toNat_natCast, fromOrdinal_toOrdinal h.date]
  unfold MAX_ORDINAL
  rw [if_pos ⟨by omega, by omega⟩]
  unfold spell numbers LAYOUT
  simp only [List.zip_cons_cons, List.zip_nil_right, List.flatMap_cons, List.flatMap_nil, hyear,
    List.append_assoc, List.cons_append, List.nil_append, List.append_nil]

/-- The numbers have the digits that the layout gives them. -/
theorem FieldsOf.fits (h : FieldsOf x y m d rest) (hy : y ≤ 9999) : Fits LAYOUT (numbers y m d rest) := by
  have hday := h.date.day
  have hlast := daysInMonth_le y m
  have hmonth := h.date.month
  have hrest := h.rest
  refine .cons ⟨by decide, ?_⟩ (.cons ⟨by decide, ?_⟩ (.cons ⟨by decide, ?_⟩ (.cons ⟨by decide, ?_⟩
    (.cons ⟨by decide, ?_⟩ (.cons ⟨by decide, ?_⟩ (.cons ⟨by decide, ?_⟩ .nil))))))
  all_goals simp only
  all_goals omega

/-- A time of a four-digit year, with its fields. -/
theorem fields_of_year (hx : 1000 ≤ utcYear x ∧ utcYear x ≤ 9999) :
    ∃ y m d rest, FieldsOf x y m d rest ∧ 1000 ≤ y ∧ y ≤ 9999 := by
  have hpos : 1 ≤ (EPOCH_ORDINAL + x / DAY_US).toNat := by
    by_contra hzero
    have hyear : utcYear x = 1 := by
      unfold utcYear
      rw [show (EPOCH_ORDINAL + x / DAY_US).toNat = 0 by omega]
      decide
    omega
  have hyear := hx
  unfold utcYear at hyear
  generalize hdate : fromOrdinal (EPOCH_ORDINAL + x / DAY_US).toNat = date at hyear
  obtain ⟨y, m, d⟩ := date
  obtain ⟨hordinal, hy, hm, hd⟩ := toOrdinal_fromOrdinal hpos hdate
  refine ⟨y, m, d, (x % DAY_US).toNat, ⟨⟨hy, hm, hd⟩, ?_, ?_⟩, hyear⟩
  · rw [hordinal]
    unfold DAY_US at *
    omega
  · unfold DAY_US
    omega

/-- **Later times have greater numbers.** -/
theorem numbers_lt (h : FieldsOf x y m d rest) (h' : FieldsOf x' y' m' d' rest') (hlt : x < x') :
    numbers y m d rest < numbers y' m' d' rest' := by
  have htime := h.time
  have htime' := h'.time
  have hrest := h.rest
  have hrest' := h'.rest
  have hordinals : toOrdinal y m d < toOrdinal y' m' d' ∨
      toOrdinal y m d = toOrdinal y' m' d' ∧ rest < rest' := by
    unfold DAY_US at htime htime'
    omega
  unfold numbers
  simp only [List.cons_lt_cons_iff, List.lt_irrefl, and_false, or_false]
  rcases date_trichotomy y m d y' m' d' with hdate | ⟨rfl, rfl, rfl⟩ | hdate
  · omega
  · omega
  · have := toOrdinal_lt h'.date h.date hdate
    omega

/-- Formatted times are ordered as the times are. -/
theorem formatted_lt (hx : 1000 ≤ utcYear x ∧ utcYear x ≤ 9999) (hx' : 1000 ≤ utcYear x' ∧ utcYear x' ≤ 9999)
    (hs : formatUs x = some s) (ht : formatUs x' = some t) (hlt : x < x') : s < t := by
  obtain ⟨y, m, d, rest, hfields, hy⟩ := fields_of_year hx
  obtain ⟨y', m', d', rest', hfields', hy'⟩ := fields_of_year hx'
  obtain rfl := Option.some.inj ((hfields.formatted hy).symm.trans hs)
  obtain rfl := Option.some.inj ((hfields'.formatted hy').symm.trans ht)
  exact spell_lt (hfields.fits hy.2) (hfields'.fits hy'.2) (numbers_lt hfields hfields' hlt)

/-! ## Reading and formatting -/

/-- What stands in a text, in digits of any script. -/
structure Reads (s : PyStr) (y m d hour minute second frac : Nat) : Prop where
  year : decimalNumber (s.take 4) = some y
  month : decimalNumber ((s.drop 5).take 2) = some m
  day : decimalNumber ((s.drop 8).take 2) = some d
  hour : decimalNumber ((s.drop 11).take 2) = some hour
  minute : decimalNumber ((s.drop 14).take 2) = some minute
  second : decimalNumber ((s.drop 17).take 2) = some second
  fraction : fractionUs (s.drop 19) = some frac

theorem dateField_number {a b : Nat} {free : Nat → Bool} {lo hi v : Nat}
    (h : dateField a b free lo hi = some v) : decimalNumber [a, b] = some v := by
  unfold dateField at h
  split at h
  · split at h
    · rename_i n hn
      split at h
      · rw [hn, Option.some.inj h]
      · cases h
    · cases h
  · cases h

theorem two_at {s : PyStr} {i : Nat} (h : i + 2 ≤ s.length) : (s.drop i).take 2 = [s.getD i 0, s.getD (i + 1) 0] := by
  rw [List.drop_eq_getElem_cons (by omega), List.drop_eq_getElem_cons (by omega), List.getD_eq_getElem?_getD,
    List.getD_eq_getElem?_getD, List.getElem?_eq_getElem (by omega), List.getElem?_eq_getElem (by omega)]
  rfl

/-- **What `parse_us` reads.** -/
theorem parseUs_reads (h : parseUs s = some x) : ∃ y m d hour minute second frac,
    Reads s y m d hour minute second frac ∧
    FieldsOf x y m d ((hour * 3600 + minute * 60 + second) * 1000000 + frac) ∧
    minute ≤ 59 ∧ second ≤ 59 ∧ frac < 10 ^ 6 := by
  unfold parseUs at h
  simp only at h
  split at h
  · cases h
  rename_i hlen
  have hlong : 20 ≤ s.length := by
    by_contra hshort
    exact hlen (.inl (by omega))
  simp only [Option.bind_eq_bind, Option.bind_eq_some_iff] at h
  obtain ⟨y, hy, m, hm, d, hd, hour, hhour, minute, hminute, second, hsecond, frac, hfrac, ht⟩ := h
  split at ht
  · cases ht
  rename_i hyear
  have hreads : Reads s y m d hour minute second frac := by
    refine ⟨hy, ?_, ?_, ?_, ?_, ?_, hfrac⟩
    · rw [two_at (by omega)]
      exact dateField_number hm
    · rw [two_at (by omega)]
      exact dateField_number hd
    · rw [two_at (by omega)]
      exact dateField_number hhour
    · rw [two_at (by omega)]
      exact dateField_number hminute
    · rw [two_at (by omega)]
      exact dateField_number hsecond
  have hh := (dateField_bounds hhour).2
  have hi := (dateField_bounds hminute).2
  have hs := (dateField_bounds hsecond).2
  have hf := fractionUs_lt hfrac
  refine ⟨y, m, d, hour, minute, second, frac, hreads, ⟨⟨by omega, ?_, ?_⟩, ?_, by omega⟩, hi, hs, hf⟩
  · exact dateField_bounds hm
  · exact dateField_bounds hd
  · rw [← Option.some.inj ht]
    push_cast
    omega

/-- **Canonical timestamps round-trip and sort**: a time of a four-digit year is formatted and read back; such
times are ordered as their texts are, character by character; and what is read from a text is formatted as the
same date, time of day and fraction, each in its width. -/
theorem canonical_timestamps :
    (∀ x, 1000 ≤ utcYear x ∧ utcYear x ≤ 9999 → ∃ s, formatUs x = some s ∧ parseUs s = some x) ∧
    (∀ x x' s t, 1000 ≤ utcYear x ∧ utcYear x ≤ 9999 → 1000 ≤ utcYear x' ∧ utcYear x' ≤ 9999 →
      formatUs x = some s → formatUs x' = some t → (x < x' ↔ s < t)) ∧
    ∀ s x, parseUs s = some x → 1000 ≤ utcYear x ∧ utcYear x ≤ 9999 →
      ∃ y m d hour minute second frac, Reads s y m d hour minute second frac ∧
        formatUs x = some (spell LAYOUT [y, m, d, hour, minute, second, frac]) := by
  refine ⟨fun x hx => ?_, fun x x' s t hx hx' hs ht => ⟨formatted_lt hx hx' hs ht, fun hst => ?_⟩,
    fun s x h hx => ?_⟩
  · obtain ⟨y, m, d, rest, hfields, hy⟩ := fields_of_year hx
    have hformat := hfields.formatted hy
    refine ⟨_, hformat, ?_⟩
    obtain ⟨y', m', d', rest', hformatted⟩ := formatUs_fields hformat
    have hyear := hformatted.fieldsOf.utcYear_eq
    exact hformatted.parse (natText_four (hyear ▸ hx.1) (hyear ▸ hx.2))
  · rcases Int.lt_trichotomy x x' with hlt | rfl | hgt
    · exact hlt
    · obtain rfl := Option.some.inj (hs.symm.trans ht)
      exact absurd hst (List.lt_irrefl _)
    · exact absurd (formatted_lt hx' hx ht hs hgt) (List.lt_asymm hst)
  · obtain ⟨y, m, d, hour, minute, second, frac, hreads, hfields, hi, hsec, hf⟩ := parseUs_reads h
    refine ⟨y, m, d, hour, minute, second, frac, hreads, ?_⟩
    rw [hfields.formatted (hfields.utcYear_eq ▸ hx), numbers_clock hi hsec hf]

end OTS
