import Mathlib.Data.List.DropRight
import OTSecurity.Common.Iputil
import OTSecurity.Detect.Encrypted
import OTSecurity.Detect.Sketch
import OTSecurity.Lib.PyStr

/-!
# Lexical features of a name

Model of `lib/sih_common/dga_features.py`: the name of a query in its normal form, the domain that can be
registered, and the features of its label.

* `Unicode` — what the tables of the language say of characters.
* `normalizeName`, `splitRegistrable`, `extract` — with the reason when a query cannot be scored.
* `lexicalRule` — the rule without a model.

Principal result: `address_not_registrable` — no domain is split off the text of an address.
-/

namespace OTS.Detect

/-! ## Text -/

def asciiLower (c : Nat) : Nat := if 0x41 ≤ c ∧ c ≤ 0x5A then c + 32 else c

/-- `str.lower`, `str.isdigit` of a character. -/
structure Unicode where
  lower : PyStr → PyStr
  isDigit : Nat → Bool
  lower_ascii : ∀ s, (∀ c ∈ s, c < 128) → lower s = s.map asciiLower
  isDigit_ascii : ∀ c, isAsciiDigit c = true → isDigit c = true

/-- Lower case of ASCII only. -/
def sampleUnicode : Unicode where
  lower := List.map asciiLower
  isDigit := isAsciiDigit
  lower_ascii := fun _ _ => rfl
  isDigit_ascii := fun _ h => h

def DOT : Nat := 0x2E

def COLON : Nat := 0x3A

/-- `str.isspace` of a character; a surrogate is none. -/
def isBlank (c : Nat) : Bool := isSpace (Char.ofNat c)

/-- `str.strip()`. -/
def strip (s : PyStr) : PyStr := (s.dropWhile isBlank).rdropWhile isBlank

/-- `s.rstrip(".")`. -/
def rstripDots (s : PyStr) : PyStr := s.rdropWhile (· = DOT)

/-- `".".join(labels)`. -/
def joinDots (labels : List PyStr) : PyStr := [DOT].intercalate labels

/-- `is_ip` of a string. -/
def isIpText (s : PyStr) : Bool := (chars? s).any fun cs => isIp (String.ofList cs)

/-! ## Names -/

def MULTI_PART_SUFFIXES : List PyStr :=
  ["co.uk", "org.uk", "ac.uk", "gov.uk", "ltd.uk", "plc.uk", "com.au", "net.au", "org.au", "edu.au",
    "gov.au", "co.in", "net.in", "org.in", "gov.in", "ac.in", "edu.in", "res.in", "nic.in", "co.jp", "ne.jp",
    "or.jp", "com.br", "com.cn", "net.cn", "org.cn", "com.sg", "com.my", "co.nz", "co.za", "com.mx", "com.tr",
    "co.kr", "com.hk", "com.tw", "co.id", "com.ar", "com.sa", "com.eg", "co.th"].map pyStr

def NON_REGISTRABLE : List PyStr :=
  ["local", "localdomain", "lan", "internal", "home", "arpa", "corp", "intranet", "test", "invalid"].map
    pyStr

/-- `normalize_name`. -/
def normalizeName (u : Unicode) (query : PyStr) : Except String PyStr :=
  if query = [] then .error "query_unavailable"
  else
    let name := rstripDots (u.lower (strip query))
    if name = [] ∨ 253 < name.length then .error "query_out_of_range" else .ok name

/-- What `split_registrable` returns. -/
structure Registrable where
  domain : PyStr
  sld : PyStr
  suffix : PyStr
  sub : List PyStr
  deriving DecidableEq

/-- `split_registrable`. -/
def splitRegistrable (u : Unicode) (name : PyStr) : Except String Registrable :=
  let labels := name.splitOn DOT
  if labels.length < 2 ∨ [] ∈ labels then .error "not_registrable"
  else if labels.getLastD [] ∈ NON_REGISTRABLE ∨ ∀ lab ∈ labels, ∀ ch ∈ lab, u.isDigit ch then
    .error "not_registrable"
  else if COLON ∈ name then .error "not_registrable"
  else
    let suffixLen :=
      if 3 ≤ labels.length ∧ MULTI_PART_SUFFIXES.contains (joinDots (labels.drop (labels.length - 2))) then 2 else 1
    if labels.length < suffixLen + 1 then .error "not_registrable"
    else
      let suffix := joinDots (labels.drop (labels.length - suffixLen))
      let sld := labels.getD (labels.length - suffixLen - 1) []
      .ok ⟨sld ++ DOT :: suffix, sld, suffix, labels.take (labels.length - suffixLen - 1)⟩

/-! ## Features -/

def HASH_BUCKETS : Nat := 32

def MIN_SLD_LEN : Nat := 6

def SYMBOLS : PyStr := pyStr "abcdefghijklmnopqrstuvwxyz0123456789-^$?"

def VOWELS : PyStr := pyStr "aeiou"

def CONSONANTS : PyStr := pyStr "bcdfghjklmnpqrstvwxyz"

def HEX : PyStr := pyStr "0123456789abcdef"

def FEATURE_NAMES : List String :=
  ["sld_len", "sld_entropy", "sld_digit_ratio", "sld_vowel_ratio", "sld_consonant_ratio",
    "sld_max_consonant_run", "sld_max_digit_run", "sld_hyphen_count", "sld_unique_char_ratio",
    "sld_hex_ratio", "query_len", "subdomain_depth", "suffix_label_count", "sld_bigram_logprob_mean"] ++
    (List.range HASH_BUCKETS).map fun i => "sld_bigram_hash_" ++ (if i < 10 then "0" else "") ++ toString i

/-- `fnv1a32` of the bytes of a text. -/
def fnv1a32 (bs : List Nat) : Nat := bs.foldl (fun h b => (h ^^^ b) * 0x01000193 % 2 ^ 32) 0x811C9DC5

/-- `entropy`, of a string with surrogates too. -/
def entropyOf (M : Maths) (s : PyStr) : Rat :=
  let share (c : Nat) : Rat := s.count c / s.length
  0 - (s.dedup.map fun c => share c * M.log2 (share c)).sum

/-- `_max_run`. -/
def maxRun (s charset : PyStr) : Nat :=
  (s.foldl (fun r ch =>
    let run := if ch ∈ charset then r.2 + 1 else 0
    (max r.1 run, run)) (0, 0)).1

/-- `_symbol`. -/
def symbol (ch : Nat) : Nat := (SYMBOLS.idxOf? ch).getD (SYMBOLS.idxOf 0x3F)

def bigrams (sld : PyStr) : List (Nat × Nat) :=
  let seq := symbol 0x5E :: sld.map symbol ++ [symbol 0x24]
  seq.zip seq.tail

/-- `fit_bigram_table`. -/
def fitBigramTable (M : Maths) (benignSlds : List PyStr) : List (List Rat) :=
  let grams := benignSlds.flatMap bigrams
  (List.range SYMBOLS.length).map fun a =>
    let row := (List.range SYMBOLS.length).map fun b => 1 + grams.count (a, b)
    row.map fun c => M.log (c / row.sum)

/-- `bigram_table[a][b]`. -/
def logProb (table : List (List Rat)) (gram : Nat × Nat) : Rat := (table.getD gram.1 []).getD gram.2 0

/-- The bucket of a bigram; its symbols are single bytes. -/
def bucketOf (gram : Nat × Nat) : Nat :=
  fnv1a32 [SYMBOLS.getD gram.1 0, SYMBOLS.getD gram.2 0] % HASH_BUCKETS

/-- How many characters of the label are of a kind, in proportion. -/
def ratioOf (sld : PyStr) (kind : Nat → Bool) : Rat := sld.countP kind / sld.length

def features (u : Unicode) (M : Maths) (name : PyStr) (r : Registrable) (table : List (List Rat)) :
    List Rat :=
  let sld := r.sld
  let grams := bigrams sld
  [((min sld.length 63 : Nat) : Rat), entropyOf M sld, ratioOf sld u.isDigit, ratioOf sld (· ∈ VOWELS),
    ratioOf sld (· ∈ CONSONANTS), ((min (maxRun sld CONSONANTS) 63 : Nat) : Rat),
    ((min (maxRun sld (pyStr "0123456789")) 63 : Nat) : Rat), ((min (sld.count 0x2D) 10 : Nat) : Rat),
    (sld.dedup.length : Rat) / sld.length, ratioOf sld (· ∈ HEX), ((min name.length 253 : Nat) : Rat),
    ((min r.sub.length 10 : Nat) : Rat), ((r.suffix.count DOT + 1 : Nat) : Rat),
    (grams.map (logProb table)).sum / grams.length] ++
    (List.range HASH_BUCKETS).map fun i => (grams.countP (bucketOf · = i) : Rat) / grams.length

/-- `extract`. -/
def extract (u : Unicode) (M : Maths) (query : PyStr) (table : List (List Rat)) :
    Except String (List Rat) := do
  let name ← normalizeName u query
  let r ← splitRegistrable u name
  if r.sld.length < MIN_SLD_LEN then .error "label_too_short" else .ok (features u M name r table)

/-- `lexical_rule`. -/
def lexicalRule (vec : List Rat) : Bool :=
  10 ≤ vec.getD 0 0 ∧ 33 / 10 ≤ vec.getD 1 0 ∧ (2 / 10 ≤ vec.getD 2 0 ∨ 4 ≤ vec.getD 5 0)

theorem features_length (u : Unicode) (M : Maths) (name : PyStr) (r : Registrable)
    (table : List (List Rat)) : (features u M name r table).length = FEATURE_NAMES.length := by
  simp [features, FEATURE_NAMES]

example : bigrams (pyStr "a-~") = [(37, 0), (0, 36), (36, 39), (39, 38)] := by decide +kernel

/-! ## Addresses -/

variable {u : Unicode}

theorem splitRegistrable_error {name : PyStr} {reason : String}
    (h : splitRegistrable u name = .error reason) : reason = "not_registrable" := by
  unfold splitRegistrable at h
  simp only at h
  split at h
  · cases h
    rfl
  · split at h
    · cases h
      rfl
    · split at h
      · cases h
        rfl
      · split at h
        · split at h
          · cases h
            rfl
          · cases h
        · split at h
          · cases h
            rfl
          · cases h

theorem mem_label {s lab : PyStr} {sep c : Nat} (hlab : lab ∈ s.splitOn sep) (hc : c ∈ lab) :
    c ∈ s ∧ c ≠ sep := by
  induction s generalizing lab with
  | nil =>
    obtain rfl : lab = [] := by simpa using hlab
    cases hc
  | cons a s ih =>
    obtain ⟨hd, tl, hsplit⟩ := List.exists_cons_of_ne_nil (List.splitOn_ne_nil sep s)
    rw [List.splitOn_cons_eq_if_modifyHead] at hlab
    split at hlab
    · rcases List.mem_cons.1 hlab with rfl | hlab
      · cases hc
      · obtain ⟨hmem, hne⟩ := ih hlab hc
        exact ⟨List.mem_cons_of_mem _ hmem, hne⟩
    · rename_i ha
      rw [hsplit, List.modifyHead_cons] at hlab
      rw [hsplit] at ih
      rcases List.mem_cons.1 hlab with rfl | hlab
      · rcases List.mem_cons.1 hc with rfl | hc
        · exact ⟨List.mem_cons_self, fun h => ha (beq_iff_eq.2 h)⟩
        · obtain ⟨hmem, hne⟩ := ih List.mem_cons_self hc
          exact ⟨List.mem_cons_of_mem _ hmem, hne⟩
      · obtain ⟨hmem, hne⟩ := ih (List.mem_cons_of_mem _ hlab) hc
        exact ⟨List.mem_cons_of_mem _ hmem, hne⟩

/-- The characters of dotted numbers, or a colon. -/
def AddressLike (s : PyStr) : Prop := (∀ c ∈ s, c = DOT ∨ isAsciiDigit c = true) ∨ COLON ∈ s

theorem AddressLike.split {s : PyStr} (h : AddressLike s) :
    splitRegistrable u s = .error "not_registrable" := by
  unfold splitRegistrable
  simp only
  split
  · rfl
  · split
    · rfl
    · rename_i hdigits
      rcases h with h | h
      · refine absurd (Or.inr ?_) hdigits
        intro lab hlab ch hch
        obtain ⟨hmem, hne⟩ := mem_label hlab hch
        exact u.isDigit_ascii ch ((h ch hmem).resolve_left hne)
      · rw [if_pos h]

theorem chars_eq {s : PyStr} {cs : List Char} (h : chars? s = some cs) : s = cs.map Char.toNat := by
  unfold chars? at h
  split at h
  · rename_i hvalid
    obtain rfl := Option.some.inj h
    rw [List.map_map]
    symm
    refine (List.map_congr_left fun c hc => ?_).trans (List.map_id s)
    have hc' : c.isValidChar := of_decide_eq_true (List.all_eq_true.1 hvalid c hc)
    rw [Function.comp_apply, Char.ofNat, dif_pos hc']
    rfl
  · cases h

theorem ipv6Valid_colon {cs : List Char} (h : ipv6Valid cs) : ':' ∈ cs := by
  by_contra hnone
  unfold ipv6Valid ipv6Parts at h
  simp [List.splitOn_eq_singleton hnone] at h

theorem isAsciiDigit_toNat (c : Char) : isAsciiDigit c.toNat = c.isDigit := by
  unfold isAsciiDigit Char.isDigit
  rw [Bool.eq_iff_iff]
  simp only [Bool.and_eq_true, decide_eq_true_eq, ge_iff_le, UInt32.le_iff_toNat_le]
  show 48 ≤ c.toNat ∧ c.toNat < 58 ↔ 48 ≤ c.toNat ∧ c.toNat ≤ 57
  omega

/-- An address character is a digit, a letter, a dot or a colon. -/
theorem addressChar_code {c : Char} (h : addressChar c = true) :
    (0x30 ≤ c.toNat ∧ c.toNat ≤ 0x3A) ∨ (0x41 ≤ c.toNat ∧ c.toNat ≤ 0x46) ∨
      (0x61 ≤ c.toNat ∧ c.toNat ≤ 0x66) ∨ c.toNat = DOT := by
  simp only [addressChar, isHexDigit, Bool.or_eq_true, Bool.and_eq_true, decide_eq_true_eq,
    Char.le_def, UInt32.le_iff_toNat_le, ← isAsciiDigit_toNat, isAsciiDigit] at h
  rcases h with (((hdigit | hsmall) | hcapital) | rfl) | rfl
  · left
    omega
  · right; right; left
    exact hsmall
  · right; left
    exact hcapital
  · right; right; right
    rfl
  · left
    decide

theorem isBlank_of_address {c : Char} (h : addressChar c = true) : isBlank c.toNat = false := by
  have hcode := addressChar_code h
  unfold isBlank isSpace
  rw [Char.ofNat_toNat]
  simp only [Bool.or_eq_false_iff, Bool.and_eq_false_iff, decide_eq_false_iff_not, DOT] at hcode ⊢
  simp only [List.mem_cons, List.not_mem_nil, or_false]
  omega

theorem isIpText_spec {s : PyStr} (h : isIpText s) :
    AddressLike s ∧ 2 ≤ s.length ∧ s.length ≤ 45 ∧ ∀ c ∈ s, c < 128 ∧ isBlank c = false := by
  obtain ⟨cs, hcs, hip⟩ := (Option.any_eq_true _ _).1 h
  have hchars := isIp_chars hip
  simp only [isIp, decide_eq_true_eq, String.toList_ofList, String.length_ofList] at hip hchars
  obtain ⟨hlow, hhigh, -, hvalid⟩ := hip
  rw [chars_eq hcs]
  refine ⟨?_, by rwa [List.length_map], by rwa [List.length_map], ?_⟩
  · rcases hvalid with hv4 | hv6
    · left
      intro c hc
      obtain ⟨ch, hch, rfl⟩ := List.mem_map.1 hc
      by_cases hdot : ch = '.'
      · left
        rw [hdot]
        rfl
      · right
        simp only [ipv4Valid, decide_eq_true_eq] at hv4
        obtain ⟨part, hpart, hmem⟩ := mem_splitOn hch hdot
        rw [isAsciiDigit_toNat]
        exact octetValid_chars (List.all_eq_true.1 hv4.2 part hpart) ch hmem
    · right
      exact List.mem_map.2 ⟨':', ipv6Valid_colon hv6, rfl⟩
  · intro c hc
    obtain ⟨ch, hch, rfl⟩ := List.mem_map.1 hc
    have haddress := hchars ch hch
    refine ⟨?_, isBlank_of_address haddress⟩
    have hcode := addressChar_code haddress
    unfold DOT at hcode
    omega

/-! ## Normal forms -/

theorem asciiLower_eq_dot {c : Nat} : asciiLower c = DOT ↔ c = DOT := by
  unfold asciiLower DOT
  split <;> omega

theorem rstripDots_lower (s : PyStr) : rstripDots (s.map asciiLower) = (rstripDots s).map asciiLower := by
  have hdot : ((fun c => decide (c = DOT)) ∘ asciiLower) = fun c => decide (c = DOT) := by
    funext c
    exact decide_eq_decide.2 asciiLower_eq_dot
  unfold rstripDots List.rdropWhile
  rw [← List.map_reverse, List.dropWhile_map, hdot, List.map_reverse]

theorem AddressLike.lower {s : PyStr} (h : AddressLike s) : AddressLike (s.map asciiLower) := by
  rcases h with h | h
  · left
    intro c hc
    obtain ⟨c, hmem, rfl⟩ := List.mem_map.1 hc
    have hsame : asciiLower c = c := by
      have hcode := h c hmem
      unfold isAsciiDigit DOT at hcode
      simp only [Bool.and_eq_true, decide_eq_true_eq] at hcode
      unfold asciiLower
      rw [if_neg (by omega)]
    rw [hsame]
    exact h c hmem
  · right
    exact List.mem_map.2 ⟨COLON, h, rfl⟩

theorem strip_of_no_blank {s : PyStr} (h : ∀ c ∈ s, isBlank c = false) : strip s = s := by
  have hdrop : s.dropWhile isBlank = s := by
    cases s with
    | nil => rfl
    | cons c s => exact List.dropWhile_cons_of_neg (by rw [h c List.mem_cons_self]; exact Bool.false_ne_true)
  unfold strip
  rw [hdrop, List.rdropWhile_eq_self_iff]
  intro hne
  rw [h _ (List.getLast_mem hne)]
  exact Bool.false_ne_true

theorem mem_rstripDots {s : PyStr} {c : Nat} (hc : c ∈ s) : c ∈ rstripDots s ∨ c = DOT := by
  rw [← @List.rdropWhile_append_rtakeWhile _ (fun c => decide (c = DOT)) s] at hc
  rcases List.mem_append.1 hc with hc | hc
  · exact .inl hc
  · have hdot := @List.mem_rtakeWhile_imp _ (fun c => decide (c = DOT)) s c hc
    exact .inr (of_decide_eq_true hdot)

/-- **No domain is split off an address**: its normal form is an address without a domain. -/
theorem address_not_registrable {query : PyStr} (h : isIpText (rstripDots query)) :
    ∃ name, normalizeName u query = .ok name ∧ splitRegistrable u name = .error "not_registrable" := by
  obtain ⟨haddress, hlow, hhigh, hchars⟩ := isIpText_spec h
  have hall : ∀ c ∈ query, c < 128 ∧ isBlank c = false := by
    intro c hc
    rcases mem_rstripDots hc with hc | rfl
    · exact hchars c hc
    · decide
  have hname : rstripDots (u.lower (strip query)) = (rstripDots query).map asciiLower := by
    rw [strip_of_no_blank fun c hc => (hall c hc).2, u.lower_ascii query fun c hc => (hall c hc).1]
    exact rstripDots_lower query
  have hne : query ≠ [] := by
    rintro rfl
    exact absurd hlow (by decide)
  refine ⟨_, ?_, haddress.lower.split⟩
  unfold normalizeName
  rw [if_neg hne]
  simp only [hname]
  rw [if_neg]
  rw [← List.length_eq_zero_iff, List.length_map]
  omega

end OTS.Detect
