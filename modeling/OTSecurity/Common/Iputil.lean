/-!
# IP literals

Model of `is_ip` of `lib/sih_common/iputil.py`, with the checks of `ipaddress.ip_address`: dotted
IPv4 without leading zeros, and IPv6 with at most one `::` and an optional IPv4 tail.

`isIp_chars` — an address is written in hexadecimal digits, dots and colons.
-/

namespace OTS

def octetValid (cs : List Char) : Bool :=
  cs ≠ [] ∧ cs.all Char.isDigit ∧ cs.length ≤ 3 ∧ (cs = ['0'] ∨ cs.head? ≠ some '0') ∧
    (cs.foldl (fun n c => n * 10 + (c.toNat - '0'.toNat)) 0) ≤ 255

/-- `ipaddress.IPv4Address` accepts the text. -/
def ipv4Valid (cs : List Char) : Bool :=
  (cs.splitOn '.').length = 4 ∧ (cs.splitOn '.').all octetValid

def isHexDigit (c : Char) : Bool :=
  c.isDigit || ('a' ≤ c && c ≤ 'f') || ('A' ≤ c && c ≤ 'F')

def hextetValid (cs : List Char) : Bool := cs ≠ [] ∧ cs.all isHexDigit ∧ cs.length ≤ 4

/-- The parts of an IPv6 text, an IPv4 tail replaced by two hextets. -/
def ipv6Parts (cs : List Char) : Option (List (List Char)) :=
  let parts := cs.splitOn ':'
  if parts.length < 3 then none
  else if '.' ∈ parts.getLastD [] then
    if ipv4Valid (parts.getLastD []) then some (parts.dropLast ++ [['0'], ['0']]) else none
  else some parts

/-- The parts around a `::` at index `skip`; a part that is empty at an end needs it there. -/
def skippedValid (parts : List (List Char)) (skip : Nat) : Bool :=
  let hi := if parts.headD [] = [] then skip - 1 else skip
  let after := parts.length - skip - 1
  let lo := if parts.getLastD [] = [] then after - 1 else after
  (parts.headD [] ≠ [] ∨ hi = 0) ∧ (parts.getLastD [] ≠ [] ∨ lo = 0) ∧ hi + lo < 8 ∧
    (parts.take hi).all hextetValid ∧ (parts.drop (parts.length - lo)).all hextetValid

/-- `ipaddress.IPv6Address` accepts the text and finds no scope. -/
def ipv6Valid (cs : List Char) : Bool :=
  match ipv6Parts cs with
  | none => false
  | some parts =>
    if 9 < parts.length then false
    else
      match (List.range parts.length).filter fun i =>
        0 < i ∧ i + 1 < parts.length ∧ parts.getD i [] = [] with
      | [] => parts.length = 8 ∧ parts.all hextetValid
      | [skip] => skippedValid parts skip
      | _ => false

def isIp (text : String) : Bool :=
  2 ≤ text.length ∧ text.length ≤ 45 ∧ '%' ∉ text.toList ∧
    (ipv4Valid text.toList ∨ ipv6Valid text.toList)

example : isIp "10.10.1.20" ∧ isIp "fe80::1:0" ∧ isIp "::ffff:1.2.3.4" ∧ isIp "::" ∧
    isIp "1:2:3:4:5:6:7::" := by decide +kernel
example : ¬ isIp "10.10.1.020" ∧ ¬ isIp "1::2::3" ∧ ¬ isIp ":1:2:3:4:5:6:7" ∧ ¬ isIp "fe80::1%1" := by
  decide +kernel

/-! ## The characters of an address -/

/-- A hexadecimal digit, a dot or a colon. -/
def addressChar (c : Char) : Bool := isHexDigit c || c = '.' || c = ':'

/-- A character of a text is the separator, or is in a part. -/
theorem mem_splitOn {cs : List Char} {sep c : Char} (hc : c ∈ cs) (hne : c ≠ sep) :
    ∃ part ∈ cs.splitOn sep, c ∈ part := by
  induction cs with
  | nil => cases hc
  | cons a cs ih =>
    obtain ⟨hd, tl, hsplit⟩ := List.exists_cons_of_ne_nil (List.splitOn_ne_nil sep cs)
    rw [List.splitOn_cons_eq_if_modifyHead]
    split
    · rename_i ha
      have hne' : c ≠ a := fun h => hne (h.trans (eq_of_beq ha))
      obtain ⟨part, hpart, hmem⟩ := ih ((List.mem_cons.1 hc).resolve_left hne')
      exact ⟨part, List.mem_cons_of_mem _ hpart, hmem⟩
    · rw [hsplit, List.modifyHead_cons]
      rcases List.mem_cons.1 hc with rfl | hc
      · exact ⟨c :: hd, List.mem_cons_self, List.mem_cons_self⟩
      · obtain ⟨part, hpart, hmem⟩ := ih hc
        rw [hsplit] at hpart
        rcases List.mem_cons.1 hpart with rfl | hpart
        · exact ⟨a :: part, List.mem_cons_self, List.mem_cons_of_mem _ hmem⟩
        · exact ⟨part, List.mem_cons_of_mem _ hpart, hmem⟩

theorem octetValid_chars {cs : List Char} (h : octetValid cs) : ∀ c ∈ cs, c.isDigit = true := by
  simp only [octetValid, decide_eq_true_eq] at h
  exact List.all_eq_true.1 h.2.1

theorem hextetValid_chars {cs : List Char} (h : hextetValid cs) : ∀ c ∈ cs, isHexDigit c = true := by
  simp only [hextetValid, decide_eq_true_eq] at h
  exact List.all_eq_true.1 h.2.1

theorem ipv4Valid_chars {cs : List Char} (h : ipv4Valid cs) : ∀ c ∈ cs, addressChar c = true := by
  intro c hc
  simp only [ipv4Valid, decide_eq_true_eq] at h
  by_cases hdot : c = '.'
  · simp [addressChar, hdot]
  · obtain ⟨part, hpart, hmem⟩ := mem_splitOn hc hdot
    have hdigit := octetValid_chars (List.all_eq_true.1 h.2 part hpart) c hmem
    simp [addressChar, isHexDigit, hdigit]

/-- The part at the `::` is empty, and the others are hextets or empty. -/
theorem skippedValid_parts {parts : List (List Char)} {skip : Nat} (hlow : 0 < skip)
    (hhigh : skip + 1 < parts.length) (hempty : parts.getD skip [] = [])
    (h : skippedValid parts skip) : ∀ part ∈ parts, part = [] ∨ hextetValid part := by
  simp only [skippedValid, decide_eq_true_eq, ne_eq] at h
  obtain ⟨hhead, hlast, -, hfirst, hrest⟩ := h
  rw [List.all_eq_true] at hfirst hrest
  intro part hpart
  obtain ⟨i, hi, rfl⟩ := List.getElem_of_mem hpart
  rcases Nat.lt_trichotomy i skip with hlt | rfl | hgt
  · -- before: one of the first parts, or the empty head
    by_cases hnil : parts.headD [] = []
    · rw [if_pos hnil] at hhead
      have hskip : i = 0 := by
        have := hhead.resolve_left (fun hne => hne hnil)
        omega
      subst hskip
      left
      rw [← hnil]
      cases parts with
      | nil => cases hpart
      | cons p ps => rfl
    · rw [if_neg hnil] at hfirst
      right
      apply hfirst
      rw [List.mem_take_iff_getElem]
      exact ⟨i, by omega, rfl⟩
  · left
    simpa [List.getD_eq_getElem?_getD, List.getElem?_eq_getElem hi] using hempty
  · -- after: one of the last parts, or the empty last one
    by_cases hnil : parts.getLastD [] = []
    · rw [if_pos hnil] at hlast
      have hi' : i = parts.length - 1 := by
        have := hlast.resolve_left (fun hne => hne hnil)
        omega
      subst hi'
      left
      rw [← hnil, List.getLastD_eq_getLast?, List.getLast?_eq_getElem?]
      simp [List.getElem?_eq_getElem hi]
    · rw [if_neg hnil] at hrest
      right
      apply hrest
      rw [List.mem_drop_iff_getElem]
      exact ⟨i - (skip + 1), by omega, by congr 1; omega⟩

theorem ipv6Valid_parts {cs : List Char} {parts : List (List Char)} (hparts : ipv6Parts cs = some parts)
    (h : ipv6Valid cs) : ∀ part ∈ parts, part = [] ∨ hextetValid part := by
  unfold ipv6Valid at h
  rw [hparts] at h
  simp only at h
  split at h
  · cases h
  · split at h
    · simp only [decide_eq_true_eq] at h
      exact fun part hpart => .inr (List.all_eq_true.1 h.2 part hpart)
    · rename_i skip hskip
      have hmem : skip ∈ (List.range parts.length).filter fun i =>
          0 < i ∧ i + 1 < parts.length ∧ parts.getD i [] = [] := by
        rw [hskip]
        exact List.mem_singleton.2 rfl
      obtain ⟨-, hskip⟩ := List.mem_filter.1 hmem
      obtain ⟨hlow, hhigh, hempty⟩ := of_decide_eq_true hskip
      exact skippedValid_parts hlow hhigh hempty h
    · cases h

theorem ipv6Valid_chars {cs : List Char} (h : ipv6Valid cs) : ∀ c ∈ cs, addressChar c = true := by
  intro c hc
  by_cases hcolon : c = ':'
  · simp [addressChar, hcolon]
  obtain ⟨part, hpart, hmem⟩ := mem_splitOn hc hcolon
  cases hparts : ipv6Parts cs with
  | none => simp [ipv6Valid, hparts] at h
  | some parts =>
    have hvalid := ipv6Valid_parts hparts h
    have hhex : ∀ part ∈ parts, c ∈ part → addressChar c = true := by
      intro part hpart hmem
      rcases hvalid part hpart with rfl | hpart
      · cases hmem
      · simp [addressChar, hextetValid_chars hpart c hmem]
    unfold ipv6Parts at hparts
    simp only at hparts
    split at hparts
    · cases hparts
    · split at hparts
      · split at hparts
        · rename_i hv4
          cases hparts
          -- the last part is an IPv4 text, the others are kept
          rw [← List.dropLast_concat_getLast (List.splitOn_ne_nil ':' cs), List.mem_append] at hpart
          rcases hpart with hpart | hpart
          · exact hhex part (List.mem_append_left _ hpart) hmem
          · rw [List.mem_singleton.1 hpart] at hmem
            rw [List.getLastD_eq_getLast?,
              List.getLast?_eq_some_getLast (List.splitOn_ne_nil ':' cs)] at hv4
            exact ipv4Valid_chars hv4 c hmem
        · cases hparts
      · cases hparts
        exact hhex part hpart hmem

theorem isIp_chars {text : String} (h : isIp text) : ∀ c ∈ text.toList, addressChar c = true := by
  simp only [isIp, decide_eq_true_eq] at h
  rcases h.2.2.2 with h | h
  · exact ipv4Valid_chars h
  · exact ipv6Valid_chars h

end OTS
