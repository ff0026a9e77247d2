import OTSecurity.Lib.Decimal
import OTSecurity.Lib.PyStr

/-!
# Canonical timestamps

Model of `format_us`, `parse_us` and `zeek_ts_to_us` of `lib/sih_common/timeutil.py`, over the
proleptic Gregorian calendar of `datetime`.

* `toOrdinal`, `fromOrdinal` — the day number of a date, and the date of a day number.
* `formatUs` — `none` where `datetime` overflows.
* `parseUs` — the pattern of `_TS`, then `strptime` and `datetime` (`none`: `ValueError`).  The
  patterns take decimal digits of every script where they say `\d`.
* `zeekTsToUs` — `none` where the decimal context overflows.
-/

namespace OTS

/-! ## The calendar -/

def isLeap (y : Nat) : Bool := y % 4 = 0 ∧ (y % 100 ≠ 0 ∨ y % 400 = 0)

def monthLengths (y : Nat) : List Nat :=
  [31, if isLeap y then 29 else 28, 31, 30, 31, 30, 31, 31, 30, 31, 30, 31]

def daysInMonth (y m : Nat) : Nat := (monthLengths y).getD (m - 1) 0

def daysBeforeYear (y : Nat) : Nat := (y - 1) * 365 + (y - 1) / 4 - (y - 1) / 100 + (y - 1) / 400

def daysBeforeMonth (y m : Nat) : Nat := ((monthLengths y).take (m - 1)).sum

/-- `date(y, m, d).toordinal()`. -/
def toOrdinal (y m d : Nat) : Nat := daysBeforeYear y + daysBeforeMonth y m + d

/-- The year and the day of the year, from 0, of an ordinal: cycles of 400, 100, 4 and 1 years. -/
def yearOf (ordinal : Nat) : Nat × Nat :=
  let n := ordinal - 1
  let n400 := n / 146097
  let n100 := n % 146097 / 36524
  let n4 := n % 146097 % 36524 / 1461
  let n1 := n % 146097 % 36524 % 1461 / 365
  let y := n400 * 400 + n100 * 100 + n4 * 4 + n1 + 1
  if n1 = 4 ∨ n100 = 4 then (y - 1, 365) else (y, n % 146097 % 36524 % 1461 % 365)

/-- The month and the day of the month of a day of the year, both from 1. -/
def monthOf (lengths : List Nat) (m day : Nat) : Nat × Nat :=
  match lengths with
  | [] => (m, day + 1)
  | len :: rest => if day < len then (m, day + 1) else monthOf rest (m + 1) (day - len)

def fromOrdinal (ordinal : Nat) : Nat × Nat × Nat :=
  let (y, day) := yearOf ordinal
  (y, monthOf (monthLengths y) 1 day)

/-- `date(1970, 1, 1).toordinal()`. -/
def EPOCH_ORDINAL : Int := 719163

/-- `date.max.toordinal()`. -/
def MAX_ORDINAL : Int := 3652059

def DAY_US : Int := 86400000000

example : toOrdinal 1970 1 1 = 719163 ∧ toOrdinal 9999 12 31 = 3652059 ∧
    fromOrdinal 719163 = (1970, 1, 1) ∧ fromOrdinal (toOrdinal 2024 2 29) = (2024, 2, 29) ∧
    fromOrdinal (toOrdinal 2000 12 31) = (2000, 12, 31) := by decide

/-! ## Text -/

/-- A number with at least `n` digits. -/
def padded (n k : Nat) : PyStr :=
  let t := natText k
  List.replicate (n - t.length) 0x30 ++ t

/-- `format_us`.  `strftime` prints the year without leading zeros. -/
def formatUs (epochUs : Int) : Option PyStr :=
  let ordinal := EPOCH_ORDINAL + epochUs / DAY_US
  let rest := (epochUs % DAY_US).toNat
  let secs := rest / 1000000
  if 1 ≤ ordinal ∧ ordinal ≤ MAX_ORDINAL then
    let (y, m, d) := fromOrdinal ordinal.toNat
    some (natText y ++ 0x2D :: padded 2 m ++ 0x2D :: padded 2 d ++ 0x54 :: padded 2 (secs / 3600) ++
      0x3A :: padded 2 (secs / 60 % 60) ++ 0x3A :: padded 2 (secs % 60) ++
      0x2E :: padded 6 (rest % 1000000) ++ [0x5A])
  else none

/-- The number of a run of decimal digits. -/
def decimalNumber (s : PyStr) : Option Nat :=
  s.foldlM (fun n c => (decimalDigit c).map (n * 10 + ·)) 0

/-- A field of two digits in `[lo, hi]`.  The first digit is an ASCII one, and so is the second
unless `free` holds of the first: the alternatives of `strptime` write out what they bound. -/
def dateField (a b : Nat) (free : Nat → Bool) (lo hi : Nat) : Option Nat :=
  if isAsciiDigit a ∧ (isAsciiDigit b ∨ free a) then
    match decimalNumber [a, b] with
    | some v => if lo ≤ v ∧ v ≤ hi then some v else none
    | none => none
  else none

/-- What follows the seconds: up to six digits after a point, in microseconds, and `Z`. -/
def fractionUs (s : PyStr) : Option Nat :=
  match s with
  | [0x5A] => some 0
  | 0x2E :: rest =>
    let ds := rest.dropLast
    if rest.getLast? = some 0x5A ∧ 1 ≤ ds.length ∧ ds.length ≤ 6 then
      decimalNumber (ds ++ List.replicate (6 - ds.length) 0x30)
    else none
  | _ => none

/-- The positions of the separators. -/
def separators : List (Nat × Nat) := [(4, 0x2D), (7, 0x2D), (10, 0x54), (13, 0x3A), (16, 0x3A)]

/-- `parse_us`; `datetime` knows no year 0 and no leap second. -/
def parseUs (text : PyStr) : Option Int :=
  let c : Nat → Nat := fun i => text.getD i 0
  if text.length < 20 ∨ ¬ separators.all (fun p => text[p.1]? = some p.2) then none
  else do
    let y ← decimalNumber (text.take 4)
    let m ← dateField (c 5) (c 6) (fun _ => false) 1 12
    let d ← dateField (c 8) (c 9) (fun a => a = 0x31 ∨ a = 0x32) 1 (daysInMonth y m)
    let hour ← dateField (c 11) (c 12) (fun a => a < 0x32) 0 23
    let minute ← dateField (c 14) (c 15) (fun _ => true) 0 59
    let second ← dateField (c 17) (c 18) (fun _ => true) 0 59
    let frac ← fractionUs (text.drop 19)
    if y = 0 then none
    else some (((toOrdinal y m d : Int) - EPOCH_ORDINAL) * DAY_US +
      ((hour * 3600 + minute * 60 + second : Nat) : Int) * 1000000 + (frac : Int))

/-- `zeek_ts_to_us` of a decimal. -/
def zeekTsToUs (ts : PyDecimal) : Option Int := (ts.mulNat 1000000).bind PyDecimal.roundToInt

theorem yearOf_bounds (ordinal : Nat) : (yearOf ordinal).1 ≤ ordinal + 401 ∧ (yearOf ordinal).2 ≤ 365 := by
  unfold yearOf
  simp only
  split
  · exact ⟨by omega, Nat.le_refl _⟩
  · exact ⟨by omega, by omega⟩

theorem monthOf_bounds (lengths : List Nat) (m day : Nat) :
    (monthOf lengths m day).1 ≤ m + lengths.length ∧ (monthOf lengths m day).2 ≤ day + 1 := by
  induction lengths generalizing m day with
  | nil => exact ⟨Nat.le_refl _, Nat.le_refl _⟩
  | cons len rest ih =>
    unfold monthOf
    split
    · exact ⟨Nat.le_add_right _ _, Nat.le_refl _⟩
    · obtain ⟨h1, h2⟩ := ih (m + 1) (day - len)
      simp only [List.length_cons]
      exact ⟨by omega, by omega⟩

theorem padded_encodable (n k : Nat) : Encodable (padded n k) := by
  unfold padded
  refine encodable_append.2 ⟨?_, natText_encodable k⟩
  intro c hc
  rw [List.eq_of_mem_replicate hc]
  decide

theorem padded_length_le {n k : Nat} (hn : n ≤ 20) (hk : k < 10 ^ 20) : (padded n k).length ≤ 20 := by
  have := natText_length_le (by decide) hk
  simp only [padded, List.length_append, List.length_replicate]
  omega

/-- A formatted time is a short text that UTF-8 holds. -/
theorem formatUs_text {t : Int} {s : PyStr} (h : formatUs t = some s) :
    Encodable s ∧ s.length ≤ 200 := by
  unfold formatUs at h
  simp only at h
  split at h
  · rename_i hord
    generalize hn : (EPOCH_ORDINAL + t / DAY_US).toNat = n at h
    have hnle : n ≤ 3652059 := by unfold MAX_ORDINAL at hord; omega
    obtain ⟨hy, hday⟩ := yearOf_bounds n
    obtain ⟨hm, hd⟩ := monthOf_bounds (monthLengths (yearOf n).1) 1 (yearOf n).2
    have hlen : (monthLengths (yearOf n).1).length = 12 := rfl
    unfold fromOrdinal at h
    simp only at h
    obtain rfl := Option.some.inj h
    have hrest : (t % DAY_US).toNat < 86400000000 := by unfold DAY_US; omega
    generalize (t % DAY_US).toNat = rest at hrest
    have hmarks : isSurrogate 0x2D = false ∧ isSurrogate 0x54 = false ∧ isSurrogate 0x3A = false ∧
      isSurrogate 0x2E = false ∧ isSurrogate 0x5A = false := by decide
    constructor
    · simp only [encodable_append, encodable_cons, natText_encodable, padded_encodable, hmarks,
        encodable_nil, and_self]
    · have h0 := natText_length_le (n := (yearOf n).1) (k := 20) (by decide) (by omega)
      have hp : ∀ {n k : Nat}, n ≤ 20 → k < 10 ^ 20 → (padded n k).length ≤ 20 := padded_length_le
      have h1 := hp (n := 2) (k := (monthOf (monthLengths (yearOf n).1) 1 (yearOf n).2).1) (by decide)
        (by omega)
      have h2 := hp (n := 2) (k := (monthOf (monthLengths (yearOf n).1) 1 (yearOf n).2).2) (by decide)
        (by omega)
      have h3 := hp (n := 2) (k := rest / 1000000 / 3600) (by decide) (by omega)
      have h4 := hp (n := 2) (k := rest / 1000000 / 60 % 60) (by decide) (by omega)
      have h5 := hp (n := 2) (k := rest / 1000000 % 60) (by decide) (by omega)
      have h6 := hp (n := 6) (k := rest % 1000000) (by decide) (by omega)
      simp only [List.length_append, List.length_cons, List.length_nil]
      omega
  · cases h

theorem decimalDigit_lt {c d : Nat} (h : decimalDigit c = some d) : d < 10 := by
  obtain ⟨z, hz, rfl⟩ := Option.map_eq_some_iff.1 h
  have := List.find?_some hz
  simp only [decide_eq_true_eq] at this
  omega

theorem decimalNumber_lt {s : PyStr} {n : Nat} (h : decimalNumber s = some n) :
    n < 10 ^ s.length := by
  have hfold : ∀ (s : PyStr) (acc n : Nat),
      s.foldlM (fun n c => (decimalDigit c).map (n * 10 + ·)) acc = some n →
        n < (acc + 1) * 10 ^ s.length := by
    intro s
    induction s with
    | nil =>
      intro acc n h
      obtain rfl : acc = n := by simpa using h
      simp
    | cons c s ih =>
      intro acc n h
      rw [List.foldlM_cons] at h
      obtain ⟨m, hm, hn⟩ := Option.bind_eq_some_iff.1 h
      obtain ⟨d, hd, rfl⟩ := Option.map_eq_some_iff.1 hm
      have hlt := ih _ _ hn
      have hd' := decimalDigit_lt hd
      calc n < (acc * 10 + d + 1) * 10 ^ s.length := hlt
        _ ≤ ((acc + 1) * 10) * 10 ^ s.length := Nat.mul_le_mul_right _ (by omega)
        _ = (acc + 1) * 10 ^ (c :: s).length := by
          rw [List.length_cons, Nat.pow_succ', Nat.mul_assoc]
  simpa using hfold s 0 n h

theorem dateField_bounds {a b : Nat} {free : Nat → Bool} {lo hi v : Nat}
    (h : dateField a b free lo hi = some v) : lo ≤ v ∧ v ≤ hi := by
  unfold dateField at h
  split at h
  · split at h
    · split at h
      · rename_i hv
        exact Option.some.inj h ▸ hv
      · cases h
    · cases h
  · cases h

theorem fractionUs_lt {s : PyStr} {v : Nat} (h : fractionUs s = some v) : v < 10 ^ 6 := by
  unfold fractionUs at h
  split at h
  · cases h
    decide
  · simp only at h
    split at h
    · rename_i hds
      have hlt := decimalNumber_lt h
      rw [List.length_append, List.length_replicate] at hlt
      rwa [show (List.dropLast _).length + (6 - (List.dropLast _).length) = 6 by omega] at hlt
    · cases h
  · cases h

theorem daysInMonth_le (y m : Nat) : daysInMonth y m ≤ 31 := by
  unfold daysInMonth monthLengths
  rcases h : m - 1 with _ | _ | _ | _ | _ | _ | _ | _ | _ | _ | _ | _ | n <;> simp
  split <;> omega

theorem daysBeforeMonth_le (y m : Nat) : daysBeforeMonth y m ≤ 366 := by
  have hsub : ((monthLengths y).take (m - 1)).sum ≤ (monthLengths y).sum := by
    conv => rhs; rw [← List.take_append_drop (m - 1) (monthLengths y), List.sum_append]
    exact Nat.le_add_right _ _
  refine Nat.le_trans hsub ?_
  unfold monthLengths
  simp only [List.sum_cons, List.sum_nil]
  split <;> omega

/-- A time that is parsed lies in the years 1 to 9999. -/
theorem parseUs_bounds {text : PyStr} {t : Int} (h : parseUs text = some t) :
    -10 ^ 18 < t ∧ t < 10 ^ 18 := by
  unfold parseUs at h
  simp only at h
  split at h
  · cases h
  · simp only [Option.bind_eq_bind, Option.bind_eq_some_iff] at h
    obtain ⟨y, hy, m, hm, d, hd, hour, hhour, minute, hminute, second, hsecond, frac, hfrac, ht⟩ := h
    split at ht
    · cases ht
    · obtain rfl := Option.some.inj ht
      have hy' : y < 10 ^ 4 := Nat.lt_of_lt_of_le (decimalNumber_lt hy)
        (Nat.pow_le_pow_right (by decide) (by rw [List.length_take]; omega))
      have hd' := (dateField_bounds hd).2
      have hdays := daysInMonth_le y m
      have hmonth := daysBeforeMonth_le y m
      have h1 := (dateField_bounds hhour).2
      have h2 := (dateField_bounds hminute).2
      have h3 := (dateField_bounds hsecond).2
      have h4 := fractionUs_lt hfrac
      unfold toOrdinal daysBeforeYear EPOCH_ORDINAL DAY_US
      omega

example : formatUs 1788249610123456 = some (pyStr "2026-09-01T08:00:10.123456Z") ∧
    parseUs (pyStr "2026-09-01T08:00:10.1Z") = some 1788249610100000 := by decide +kernel
example : parseUs (pyStr "2026-02-31T00:00:00Z") = none ∧ parseUs (pyStr "2026-01-01T00:00:60Z") = none ∧
    parseUs (pyStr "2026-01-01T00:00:00Z\n") = none ∧ parseUs (pyStr "0000-01-01T00:00:00Z") = none := by
  decide +kernel
example : zeekTsToUs ⟨false, 17882568001234565, -7⟩ = some 1788256800123457 := by decide +kernel

end OTS
