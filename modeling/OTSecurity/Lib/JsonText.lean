import OTSecurity.Lib.NumberText
import OTSecurity.Lib.PyExc

/-!
# JSON that reads back

What `json.dumps` writes of a value without escapes beyond ASCII, `json.loads` reads as the same value.

* `Readable` — the values for which this holds: keys once, floats exact, texts of Unicode, no integer too long,
  no more nesting than the limit.
* `ReadsBack` — a value is read back from its text, whatever stops it.

Principal results: `Readable.readsBack` — by induction on the value; `loads_dumps` — what is written of a
readable value reads back as the value.
-/

namespace OTS.Json

/-! ## Literals and strings -/

theorem scanLiteral_digit {c : Nat} (h : isAsciiDigit c = true) (rest : PyStr) :
    scanLiteral (c :: rest) = none := by
  have hne : ∀ d, isAsciiDigit d = false → d ≠ c := by
    rintro d hd rfl
    exact absurd (h.symm.trans hd) (by decide)
  have h1 := hne 0x6E rfl
  have h2 := hne 0x74 rfl
  have h3 := hne 0x66 rfl
  have h4 := hne 0x4E rfl
  have h5 := hne 0x49 rfl
  have h6 := hne 0x2D rfl
  simp [scanLiteral, literals, pyStr, stripPrefix, h1, h2, h3, h4, h5, h6]

theorem scanLiteral_minus {c : Nat} (h : isAsciiDigit c = true) (rest : PyStr) :
    scanLiteral (0x2D :: c :: rest) = none := by
  have hne : 0x49 ≠ c := by
    rintro rfl
    exact absurd h (by decide)
  simp [scanLiteral, literals, pyStr, stripPrefix, hne]

/-- One character of a string. -/
theorem scanString_plainChar (c : Nat) (rest : PyStr) :
    scanString 0 (escapeChar false c ++ rest) = (scanString 0 rest).map fun r => (c :: r.1, r.2) := by
  have hlow : ∀ u < 0x20, isHighSurrogate u = false := by decide
  unfold escapeChar
  split
  · subst_vars
    rfl
  split
  · subst_vars
    rfl
  split
  · subst_vars
    rfl
  split
  · subst_vars
    rfl
  split
  · subst_vars
    rfl
  split
  · subst_vars
    rfl
  split
  · subst_vars
    rfl
  split
  · rename_i hc
    exact scanString_unicodeEscape (by omega) (hlow c hc) rest
  · rename_i hquote hback _ _ _ _ _ hc
    rw [if_pos (by rfl), List.singleton_append, scanString.eq_def]
    simp only [hquote, hback, hc, if_false]

theorem scanString_plain (s rest : PyStr) :
    scanString 0 (s.flatMap (escapeChar false) ++ 0x22 :: rest) = some (s, rest) := by
  induction s with
  | nil => rfl
  | cons c s ih => rw [List.flatMap_cons, List.append_assoc, scanString_plainChar, ih, Option.map_some]

theorem dumpString_append (s rest : PyStr) :
    dumpString false s ++ rest = 0x22 :: (s.flatMap (escapeChar false) ++ 0x22 :: rest) := by
  rw [dumpString, List.cons_append, List.append_assoc, List.singleton_append]

/-! ## Values -/

/-- A text of Unicode characters. -/
def Unicode (s : PyStr) : Prop := ∀ c ∈ s, c < 0x110000

/-- The values that reading gives, with the nesting that they need. -/
inductive Readable : Nat → Json → Prop
  | null {d : Nat} : Readable d .null
  | bool {d : Nat} (b : Bool) : Readable d (.bool b)
  | int {d : Nat} {n : Int} (h : (natText n.natAbs).length ≤ INT_MAX_STR_DIGITS) : Readable d (.int n)
  | float {d : Nat} {x : PyFloat} (h : x.Exact) : Readable d (.float x)
  | str {d : Nat} {s : PyStr} (h : Unicode s) : Readable d (.str s)
  | arr {d : Nat} {xs : List Json} (h : ∀ x ∈ xs, Readable d x) : Readable (d + 1) (.arr xs)
  | obj {d : Nat} {ms : List (PyStr × Json)} (hk : (ms.map (·.1)).Nodup) (hu : ∀ m ∈ ms, Unicode m.1)
    (h : ∀ m ∈ ms, Readable d m.2) : Readable (d + 1) (.obj ms)

theorem Readable.mono {d d' : Nat} {v : Json} (h : Readable d v) (hd : d ≤ d') : Readable d' v := by
  induction h generalizing d' with
  | null => exact .null
  | bool b => exact .bool b
  | int h => exact .int h
  | float h => exact .float h
  | str hs => exact .str hs
  | arr h ih =>
    obtain ⟨k, rfl⟩ : ∃ k, d' = k + 1 := ⟨d' - 1, by omega⟩
    exact .arr fun x hx => ih x hx (by omega)
  | obj hk hu h ih =>
    obtain ⟨k, rfl⟩ : ∃ k, d' = k + 1 := ⟨d' - 1, by omega⟩
    exact .obj hk hu fun m hm => ih m hm (by omega)

/-- What a text starts with that the reader takes for a value. -/
def Starts (c : Nat) : Prop := c ≠ 0x5D ∧ c ≠ 0x7D ∧ ¬ (c = 0x20 ∨ c = 0x09 ∨ c = 0x0A ∨ c = 0x0D)

theorem starts_digit {c : Nat} (h : isAsciiDigit c = true) : Starts c := by
  simp only [isAsciiDigit, Bool.and_eq_true, decide_eq_true_eq] at h
  unfold Starts
  omega

theorem Readable.head {d : Nat} {v : Json} (h : Readable d v) :
    ∃ c rest, v.dumps false = c :: rest ∧ Starts c := by
  cases h with
  | null => exact ⟨_, _, rfl, by unfold Starts; decide⟩
  | bool b => cases b <;> exact ⟨_, _, rfl, by unfold Starts; decide⟩
  | int h =>
    rename_i n
    obtain ⟨c, rest, htext, -⟩ := natText_head n.natAbs
    have hc := natText_digits n.natAbs c (by rw [htext]; exact List.mem_cons_self)
    rw [dumps, intText_eq, htext]
    split
    · exact ⟨_, _, rfl, by unfold Starts; decide⟩
    · exact ⟨_, _, rfl, starts_digit hc⟩
  | float h =>
    rename_i x
    rw [dumps]
    cases x with
    | nan => exact ⟨_, _, rfl, by unfold Starts; decide⟩
    | inf neg => cases neg <;> exact ⟨_, _, rfl, by unfold Starts; decide⟩
    | finite neg mag =>
      obtain ⟨c, body, htext, hparts⟩ := magText_parts h stops_nil
      rw [PyFloat.text, htext]
      cases neg
      · exact ⟨_, _, rfl, starts_digit hparts.head⟩
      · exact ⟨_, _, rfl, by unfold Starts; decide⟩
  | str hs => exact ⟨_, _, by rw [dumps]; rfl, by unfold Starts; decide⟩
  | arr h => exact ⟨_, _, by rw [dumps], by unfold Starts; decide⟩
  | obj hk hu h => exact ⟨_, _, by rw [dumps], by unfold Starts; decide⟩

theorem skipWs_cons {c : Nat} (h : Starts c) (rest : PyStr) : skipWs (c :: rest) = c :: rest := by
  unfold skipWs
  rw [List.dropWhile_cons, if_neg (by simpa using h.2.2)]

/-- A text that is no string, array or object. -/
theorem scanValue_other {c : Nat} {rest : PyStr} (h : c ≠ 0x22 ∧ c ≠ 0x5B ∧ c ≠ 0x7B) {fuel : Nat}
    (hfuel : 0 < fuel) (depth : Nat) :
    scanValue fuel depth (c :: rest) = (scanLiteral (c :: rest)).or (scanNumber (c :: rest)) := by
  obtain ⟨f, rfl⟩ : ∃ f, fuel = f + 1 := ⟨fuel - 1, by omega⟩
  rw [scanValue, if_neg h.1, if_neg h.2.1, if_neg h.2.2]
  cases scanLiteral (c :: rest) <;> rfl

theorem digit_other {c : Nat} (h : isAsciiDigit c = true) : c ≠ 0x22 ∧ c ≠ 0x5B ∧ c ≠ 0x7B := by
  simp only [isAsciiDigit, Bool.and_eq_true, decide_eq_true_eq] at h
  omega

/-- A number, as the text of a value. -/
theorem scanValue_number {neg : Bool} {c : Nat} {body r : PyStr} (hc : isAsciiDigit c = true) {v : Json}
    (h : scanNumber ((if neg then [0x2D] else []) ++ c :: body) = some (v, r)) {fuel : Nat}
    (hfuel : 0 < fuel) (depth : Nat) :
    scanValue fuel depth ((if neg then [0x2D] else []) ++ c :: body) = some (v, r) := by
  cases neg
  · simp only [Bool.false_eq_true, if_false, List.nil_append] at h ⊢
    rw [scanValue_other (digit_other hc) hfuel, scanLiteral_digit hc, h]
    rfl
  · simp only [if_true, List.singleton_append] at h ⊢
    rw [scanValue_other (by decide) hfuel, scanLiteral_minus hc, h]
    rfl

/-- A value is read back from its text, whatever stops it. -/
def ReadsBack (depth : Nat) (v : Json) : Prop :=
  ∀ fuel r, (v.dumps false).length ≤ fuel → Stops r → scanValue fuel depth (v.dumps false ++ r) = some (v, r)

theorem dumpElements_head {depth : Nat} {x : Json} (hx : Readable depth x) (xs : List Json) (r : PyStr) :
    ∃ c t, dumpElements false (x :: xs) ++ r = c :: t ∧ Starts c := by
  obtain ⟨c, t, htext, hc⟩ := hx.head
  cases xs with
  | nil => exact ⟨c, t ++ r, by rw [dumpElements, htext]; rfl, hc⟩
  | cons y ys => exact ⟨c, _, by rw [dumpElements, htext, List.append_assoc, List.cons_append], hc⟩

theorem dumpMembers_head (m : PyStr × Json) (ms : List (PyStr × Json)) (r : PyStr) :
    ∃ t, dumpMembers false (m :: ms) ++ r = 0x22 :: t := by
  obtain ⟨k, v⟩ := m
  cases ms with
  | nil => exact ⟨_, by rw [dumpMembers, List.append_assoc, dumpString_append]⟩
  | cons z zs => exact ⟨_, by rw [dumpMembers, List.append_assoc, List.append_assoc, dumpString_append]⟩

theorem starts_quote : Starts 0x22 := by unfold Starts; decide

theorem starts_colon : Starts 0x3A := by unfold Starts; decide

theorem starts_comma : Starts 0x2C := by unfold Starts; decide

theorem scanElements_dump {depth : Nat} {xs : List Json} (hne : xs ≠ []) (hr : ∀ x ∈ xs, Readable depth x)
    (h : ∀ x ∈ xs, ReadsBack depth x) {fuel : Nat} (hfuel : (dumpElements false xs).length < fuel) (r : PyStr) :
    scanElements fuel depth (dumpElements false xs ++ 0x5D :: r) = some (xs, r) := by
  induction xs generalizing fuel with
  | nil => exact absurd rfl hne
  | cons x xs ih =>
    obtain ⟨f, rfl⟩ : ∃ f, fuel = f + 1 := ⟨fuel - 1, by omega⟩
    cases xs with
    | nil =>
      rw [dumpElements] at hfuel ⊢
      rw [scanElements, h x List.mem_cons_self f _ (by omega) (stops_bracket r)]
      rfl
    | cons y ys =>
      rw [dumpElements, List.length_append, List.length_cons] at hfuel
      have hrest := ih (List.cons_ne_nil _ _) (fun z hz => hr z (.tail _ hz)) (fun z hz => h z (.tail _ hz))
        (show (dumpElements false (y :: ys)).length < f by omega)
      obtain ⟨c, t', ht', hc⟩ := dumpElements_head (hr y (.tail _ List.mem_cons_self)) ys (0x5D :: r)
      rw [dumpElements, List.append_assoc, List.cons_append, scanElements,
        h x List.mem_cons_self f _ (by omega) (stops_comma _)]
      simp only [skipWs_cons starts_comma]
      rw [ht', skipWs_cons hc, ← ht', hrest]
      rfl

theorem scanMembers_dump {depth : Nat} {ms : List (PyStr × Json)} (hne : ms ≠ [])
    (hr : ∀ m ∈ ms, Readable depth m.2) (h : ∀ m ∈ ms, ReadsBack depth m.2) {fuel : Nat}
    (hfuel : (dumpMembers false ms).length < fuel) (r : PyStr) :
    scanMembers fuel depth (dumpMembers false ms ++ 0x7D :: r) = some (ms, r) := by
  induction ms generalizing fuel with
  | nil => exact absurd rfl hne
  | cons m ms ih =>
    obtain ⟨k, v⟩ := m
    obtain ⟨f, rfl⟩ : ∃ f, fuel = f + 1 := ⟨fuel - 1, by omega⟩
    obtain ⟨c, t, htext, hc⟩ := (hr _ List.mem_cons_self).head
    simp only at htext
    have hskip : ∀ s, skipWs (v.dumps false ++ s) = v.dumps false ++ s := fun s => by
      rw [htext, List.cons_append, skipWs_cons hc]
    cases ms with
    | nil =>
      rw [dumpMembers, List.length_append, List.length_cons] at hfuel
      rw [dumpMembers, List.append_assoc, dumpString_append, scanMembers]
      rw [List.cons_append, scanString_plain]
      simp only [skipWs_cons starts_colon, hskip]
      rw [h (k, v) List.mem_cons_self f _ (by simp only; omega) (stops_brace r)]
      rfl
    | cons m' ms =>
      rw [dumpMembers] at hfuel
      simp only [List.length_append, List.length_cons] at hfuel
      have hrest := ih (List.cons_ne_nil _ _) (fun z hz => hr z (.tail _ hz)) (fun z hz => h z (.tail _ hz))
        (show (dumpMembers false (m' :: ms)).length < f by omega)
      obtain ⟨t', ht'⟩ := dumpMembers_head m' ms (0x7D :: r)
      rw [dumpMembers]
      simp only [List.append_assoc, List.cons_append]
      rw [dumpString_append, scanMembers, scanString_plain]
      simp only [skipWs_cons starts_colon, hskip]
      rw [h (k, v) List.mem_cons_self f _ (by simp only; omega) (stops_comma _)]
      simp only [skipWs_cons starts_comma]
      rw [ht', skipWs_cons starts_quote, ← ht', hrest]
      rfl

theorem dictSet_new {V : Type} {ms : List (PyStr × V)} {k : PyStr} (v : V) (h : k ∉ ms.map (·.1)) :
    dictSet ms k v = ms ++ [(k, v)] := by
  unfold dictSet
  rw [if_neg]
  intro hany
  obtain ⟨m, hm, hk⟩ := List.any_eq_true.1 hany
  exact h (List.mem_map.2 ⟨m, hm, by simpa using hk⟩)

theorem dictOf_nodup {V : Type} {ms : List (PyStr × V)} (h : (ms.map (·.1)).Nodup) : dictOf ms = ms := by
  have hfold : ∀ (ms acc : List (PyStr × V)), ((acc ++ ms).map (·.1)).Nodup →
      ms.foldl (fun d m => dictSet d m.1 m.2) acc = acc ++ ms := by
    intro ms
    induction ms with
    | nil => intro acc _; rw [List.append_nil]; rfl
    | cons m ms ih =>
      intro acc h
      have hnew : m.1 ∉ acc.map (·.1) := by
        rw [List.map_append, List.map_cons] at h
        intro hm
        exact (List.nodup_append.1 h).2.2 _ hm _ List.mem_cons_self rfl
      rw [List.foldl_cons, dictSet_new m.2 hnew, ih _ (by rwa [List.append_assoc]), List.append_assoc]
      rfl
  exact hfold ms [] h

/-- **The text of a readable value reads back as the value.** -/
theorem Readable.readsBack {depth : Nat} {v : Json} (h : Readable depth v) : ReadsBack depth v := by
  induction h with
  | null =>
    intro fuel r hfuel _
    rw [show (Json.null.dumps false) = pyStr "null" from rfl] at hfuel ⊢
    exact scanValue_other (c := 0x6E) (by decide) (Nat.lt_of_lt_of_le (by decide) hfuel) _
  | bool b =>
    intro fuel r hfuel _
    have hpos : 0 < fuel := Nat.lt_of_lt_of_le (by cases b <;> decide) hfuel
    cases b
    · exact scanValue_other (c := 0x66) (by decide) hpos _
    · exact scanValue_other (c := 0x74) (by decide) hpos _
  | int hn =>
    rename_i n
    intro fuel r hfuel hr
    obtain ⟨c, rest, htext, -⟩ := natText_head n.natAbs
    have hc := natText_digits n.natAbs c (by rw [htext]; exact List.mem_cons_self)
    have hread := scanNumber_int hn hr
    rw [dumps] at hfuel ⊢
    rw [intText_eq, htext] at hread hfuel ⊢
    rw [List.append_assoc, List.cons_append] at hread ⊢
    have hpos : 0 < fuel := by
      rw [List.length_append, List.length_cons] at hfuel
      omega
    have hvalue := @scanValue_number (decide (n < 0)) c (rest ++ r) r hc (.int n) (by simpa using hread) fuel hpos
    simpa using hvalue _
  | float hx =>
    rename_i x
    intro fuel r hfuel hr
    rw [dumps] at hfuel ⊢
    cases x with
    | nan => exact scanValue_other (c := 0x4E) (by decide) (Nat.lt_of_lt_of_le (by decide) hfuel) _
    | inf neg =>
      have hpos : 0 < fuel := Nat.lt_of_lt_of_le (by cases neg <;> decide) hfuel
      cases neg
      · exact scanValue_other (c := 0x49) (by decide) hpos _
      · exact scanValue_other (c := 0x2D) (by decide) hpos _
    | finite neg mag =>
      have hread := scanNumber_float hx hr
      obtain ⟨c, body, htext, hparts⟩ := magText_parts hx hr
      rw [PyFloat.text, htext] at hread hfuel ⊢
      rw [List.append_assoc, List.cons_append] at hread ⊢
      have hpos : 0 < fuel := by
        rw [List.length_append, List.length_cons] at hfuel
        omega
      exact scanValue_number hparts.head hread hpos _
  | str hs =>
    intro fuel r hfuel _
    rw [dumps] at hfuel ⊢
    obtain ⟨f, rfl⟩ : ∃ f, fuel = f + 1 := ⟨fuel - 1, by rw [dumpString, List.length_cons] at hfuel; omega⟩
    rw [dumpString_append, scanValue, if_pos rfl, scanString_plain]
    rfl
  | arr h ih =>
    rename_i d xs
    intro fuel r hfuel _
    rw [dumps] at hfuel ⊢
    rw [List.length_cons, List.length_append, List.length_singleton] at hfuel
    obtain ⟨f, rfl⟩ : ∃ f, fuel = f + 1 := ⟨fuel - 1, by omega⟩
    rw [List.cons_append, List.append_assoc, List.singleton_append, scanValue, if_neg (by decide), if_pos rfl,
      if_neg (Nat.succ_ne_zero d)]
    cases xs with
    | nil => rfl
    | cons x xs =>
      have hread := scanElements_dump (List.cons_ne_nil x xs) h ih
        (show (dumpElements false (x :: xs)).length < f by omega) r
      obtain ⟨c, t, htext, hc⟩ := dumpElements_head (h x List.mem_cons_self) xs (0x5D :: r)
      rw [htext] at hread ⊢
      rw [skipWs_cons hc]
      split
      · rename_i heq
        exact absurd (List.cons.inj heq).1 hc.1
      · rw [Nat.add_sub_cancel, hread]
        rfl
  | obj hk hu h ih =>
    rename_i d ms
    intro fuel r hfuel _
    rw [dumps] at hfuel ⊢
    rw [List.length_cons, List.length_append, List.length_singleton] at hfuel
    obtain ⟨f, rfl⟩ : ∃ f, fuel = f + 1 := ⟨fuel - 1, by omega⟩
    rw [List.cons_append, List.append_assoc, List.singleton_append, scanValue, if_neg (by decide),
      if_neg (by decide), if_pos rfl, if_neg (Nat.succ_ne_zero d)]
    cases ms with
    | nil => rfl
    | cons m ms =>
      have hread := scanMembers_dump (List.cons_ne_nil m ms) h ih
        (show (dumpMembers false (m :: ms)).length < f by omega) r
      obtain ⟨t, htext⟩ := dumpMembers_head m ms (0x7D :: r)
      rw [htext] at hread ⊢
      rw [skipWs_cons starts_quote]
      simp only
      rw [Nat.add_sub_cancel, hread, Option.map_some, dictOf_nodup hk]

/-- **What is written of a readable value reads back as the value.** -/
theorem loads_dumps {depth : Nat} {v : Json} (h : Readable depth v) : loads depth (v.dumps false) = some v := by
  have hread := h.readsBack ((v.dumps false).length + 1) [] (Nat.le_succ _) stops_nil
  obtain ⟨c, t, htext, hc⟩ := h.head
  rw [List.append_nil] at hread
  have hskip : skipWs (v.dumps false) = v.dumps false := by rw [htext, skipWs_cons hc]
  unfold loads
  rw [hskip, hread]
  rfl

end OTS.Json
