import OTSecurity.Lib.JsonText

/-!
# What is read can be written and read again

What `json.loads` gives is a value that `json.dumps` and `json.loads` leave alone.

* `Scanned` — what a scanner gives at the front of a text.
* `scan_spec` — the scanners of values, elements and members, by induction on the fuel.

Principal results: `readable_of_loads` — what is read of a Unicode text is readable; `loads_dumps_loads` —
writing what was read and reading it again changes nothing; `decodeUtf8_dumpBytes` — the bytes of a readable
value hold its text.
-/

namespace OTS.Json

/-! ## What reading gives -/

/-- A text of Unicode characters has only such parts. -/
theorem Unicode.suffix {s t : PyStr} (h : Unicode s) (hst : t <:+ s) : Unicode t := fun c hc => h c (hst.subset hc)

theorem skipWs_suffix (s : PyStr) : skipWs s <:+ s := List.dropWhile_suffix _

theorem digits_suffix (s : PyStr) : (digits s).2 <:+ s := by
  unfold digits
  rw [List.span_eq_takeWhile_dropWhile]
  exact List.dropWhile_suffix _

theorem ofDigits_lt_pow {s : PyStr} (hs : ∀ c ∈ s, isAsciiDigit c = true) : ofDigits s < 10 ^ s.length := by
  induction s using List.reverseRecOn with
  | nil => exact Nat.one_pos
  | append_singleton s c ih =>
    have hrest := ih fun d hd => hs d (List.mem_append_left _ hd)
    have hc := hs c (List.mem_append_right _ List.mem_cons_self)
    simp only [isAsciiDigit, Bool.and_eq_true, decide_eq_true_eq] at hc
    rw [ofDigits_append, List.length_append, List.length_singleton, Nat.pow_succ,
      show ofDigits [c] = c - 0x30 by simp [ofDigits]]
    omega

theorem digits_spec (s : PyStr) : ∀ c ∈ (digits s).1, isAsciiDigit c = true := by
  intro c hc
  unfold digits at hc
  rw [List.span_eq_takeWhile_dropWhile] at hc
  exact List.mem_takeWhile_imp hc

theorem wholePart_spec {s whole r : PyStr} (h : wholePart s = some (whole, r)) :
    whole ≠ [] ∧ (∀ c ∈ whole, isAsciiDigit c = true) ∧ r <:+ s := by
  unfold wholePart at h
  split at h
  · cases h
  · rename_i c rest
    split at h
    · rename_i hzero
      cases h
      exact ⟨List.cons_ne_nil _ _, fun d hd => by rw [List.mem_singleton.1 hd, hzero]; rfl, List.suffix_cons _ _⟩
    · split at h
      · rename_i hc
        have hd := digits_spec (c :: rest)
        have hs := digits_suffix (c :: rest)
        rw [Option.some.inj h] at hd hs
        refine ⟨?_, hd, hs⟩
        rintro rfl
        unfold digits at h
        rw [List.span_eq_takeWhile_dropWhile, List.takeWhile_cons, if_pos hc] at h
        cases h
      · cases h

theorem fraction_suffix (s : PyStr) : (fraction s).2 <:+ s := by
  unfold fraction
  split
  · split
    · exact List.suffix_refl _
    · exact (digits_suffix _).trans (List.suffix_cons _ _)
  · exact List.suffix_refl _

theorem exponent_suffix (s : PyStr) : (exponent s).2 <:+ s := by
  unfold exponent
  split
  · exact List.suffix_refl _
  split
  · have hdigits : ∀ (neg : Bool) (ds rest : PyStr) (e : Nat), ds <:+ rest →
        (if (digits ds).1 = [] then ((none : Option Int), e :: rest)
          else (some (if neg then -(ofDigits (digits ds).1 : Int) else ofDigits (digits ds).1), (digits ds).2)).2 <:+
          e :: rest := by
      intro neg ds rest e hds
      split
      · exact List.suffix_refl _
      · exact (digits_suffix ds).trans (hds.trans (List.suffix_cons _ _))
    simp only
    split
    · exact hdigits true _ _ _ (List.suffix_cons _ _)
    · exact hdigits false _ _ _ (List.suffix_cons _ _)
    · exact hdigits false _ _ _ (List.suffix_refl _)
  · exact List.suffix_refl _

/-- What a scanner gives at the front of a text: a readable value, and what is left of the text. -/
def Scanned (depth : Nat) (s : PyStr) (v : Json) (r : PyStr) : Prop := Readable depth v ∧ r <:+ s

theorem scanNumber_spec {s r : PyStr} {v : Json} {depth : Nat} (h : scanNumber s = some (v, r)) :
    Scanned depth s v r := by
  have hfloat : ∀ (neg : Bool) (n : Nat) (e : Int), (PyFloat.ofRat neg ((n : Rat) * powInt 10 e)).Exact :=
    fun neg n e => PyFloat.ofRat_exact (mul_nonneg (Nat.cast_nonneg n) (powInt_pos (by norm_num) e).le) neg
  unfold scanNumber at h
  simp only at h
  split at h
  · cases h
  · rename_i whole r1 hwhole
    obtain ⟨hne, hdigits, hr1⟩ := wholePart_spec hwhole
    have hr2 : (fraction r1).2 <:+ s := by
      refine (fraction_suffix r1).trans (hr1.trans ?_)
      split
      · exact List.suffix_cons _ _
      · exact List.suffix_refl _
    have hr3 := (exponent_suffix (fraction r1).2).trans hr2
    split at h
    · rename_i r3 hexp
      rw [hexp] at hr3
      split at h
      · split at h
        · cases h
        · rename_i hlen
          cases h
          refine ⟨.int (le_trans (natText_length_le (List.length_pos_iff.2 hne) ?_) (not_lt.1 hlen)), hr3⟩
          have hlt := ofDigits_lt_pow hdigits
          split <;> omega
      · cases h
        exact ⟨.float (hfloat _ _ _), hr3⟩
    · rename_i e r3 hexp
      rw [hexp] at hr3
      cases h
      exact ⟨.float (hfloat _ _ _), hr3⟩

theorem stripPrefix_suffix {p s r : PyStr} (h : stripPrefix p s = some r) : r <:+ s := by
  induction p generalizing s with
  | nil =>
    cases h
    exact List.suffix_refl _
  | cons c p ih =>
    cases s with
    | nil => cases h
    | cons d s =>
      rw [stripPrefix] at h
      split at h
      · exact (ih h).trans (List.suffix_cons _ _)
      · cases h

theorem scanLiteral_spec {s r : PyStr} {v : Json} {depth : Nat} (h : scanLiteral s = some (v, r)) :
    Scanned depth s v r := by
  obtain ⟨l, hl, heq⟩ := List.exists_of_findSome?_eq_some h
  obtain ⟨rest, hrest, hp⟩ := Option.map_eq_some_iff.1 heq
  obtain ⟨rfl, rfl⟩ := Prod.mk.inj hp
  refine ⟨?_, stripPrefix_suffix hrest⟩
  simp only [literals, List.mem_cons, List.not_mem_nil, or_false] at hl
  rcases hl with rfl | rfl | rfl | rfl | rfl | rfl
  · exact .null
  · exact .bool true
  · exact .bool false
  · exact .float trivial
  · exact .float trivial
  · exact .float trivial

theorem mem_dictSet {V : Type} {ms : List (PyStr × V)} {k : PyStr} {v : V} {m : PyStr × V}
    (h : m ∈ dictSet ms k v) : m ∈ ms ∨ m = (k, v) := by
  unfold dictSet at h
  split at h
  · obtain ⟨m', hm', rfl⟩ := List.mem_map.1 h
    split
    · exact .inr rfl
    · exact .inl hm'
  · exact (List.mem_append.1 h).imp_right List.mem_singleton.1

theorem dictSet_nodup {V : Type} {ms : List (PyStr × V)} (h : (ms.map (·.1)).Nodup) (k : PyStr) (v : V) :
    ((dictSet ms k v).map (·.1)).Nodup := by
  unfold dictSet
  split
  · have hkeys : (ms.map fun m => if m.1 = k then (k, v) else m).map (·.1) = ms.map (·.1) := by
      rw [List.map_map]
      refine List.map_congr_left fun m _ => ?_
      rw [Function.comp_apply]
      split
      · rename_i hm
        exact hm.symm
      · rfl
    rwa [hkeys]
  · rename_i hany
    rw [List.map_append, List.map_singleton, List.nodup_append]
    refine ⟨h, List.nodup_singleton _, ?_⟩
    rintro x hx _ hk rfl
    obtain ⟨m, hm, hmk⟩ := List.mem_map.1 hx
    refine hany (List.any_eq_true.2 ⟨m, hm, ?_⟩)
    rw [hmk, List.mem_singleton.1 hk]
    exact decide_eq_true rfl

/-- The keys of a read object are distinct, and its values are read ones. -/
theorem dictOf_spec {V : Type} (ps : List (PyStr × V)) :
    ((dictOf ps).map (·.1)).Nodup ∧ ∀ m ∈ dictOf ps, m ∈ ps := by
  have hfold : ∀ (ps acc : List (PyStr × V)), (acc.map (·.1)).Nodup →
      ((ps.foldl (fun d m => dictSet d m.1 m.2) acc).map (·.1)).Nodup ∧
        ∀ m ∈ ps.foldl (fun d m => dictSet d m.1 m.2) acc, m ∈ acc ∨ m ∈ ps := by
    intro ps
    induction ps with
    | nil => exact fun acc h => ⟨h, fun m hm => .inl hm⟩
    | cons p ps ih =>
      intro acc h
      obtain ⟨hnodup, hmem⟩ := ih (dictSet acc p.1 p.2) (dictSet_nodup h _ _)
      refine ⟨hnodup, fun m hm => ?_⟩
      rcases hmem m hm with hm | hm
      · rcases mem_dictSet hm with hm | rfl
        · exact .inl hm
        · exact .inr List.mem_cons_self
      · exact .inr (.tail _ hm)
  obtain ⟨hnodup, hmem⟩ := hfold ps [] List.nodup_nil
  exact ⟨hnodup, fun m hm => (hmem m hm).resolve_left List.not_mem_nil⟩

theorem escaped_lt {e v : Nat} (h : escaped e = some v) : v < 0x110000 := by
  unfold escaped at h
  split at h
  · cases h
    omega
  iterate 5
    split at h
    · cases h
      decide
  cases h

theorem hex4_lt {a b c d u : Nat} (h : hex4 a b c d = some u) : u < 0x10000 := by
  have hdigit : ∀ {x y : Nat}, hexDigitValue x = some y → y < 16 := by
    intro x y hy
    unfold hexDigitValue at hy
    split at hy
    · cases hy
      omega
    split at hy
    · cases hy
      omega
    split at hy
    · cases hy
      omega
    · cases hy
  unfold hex4 at h
  split at h
  · rename_i hw hx hy hz
    cases h
    have := hdigit hw
    have := hdigit hx
    have := hdigit hy
    have := hdigit hz
    omega
  · cases h

theorem lowEscape_low {s r : PyStr} {l : Nat} (h : lowEscape s = some (l, r)) : isLowSurrogate l = true := by
  unfold lowEscape at h
  split at h
  · split at h
    · split at h
      · cases h
        assumption
      · cases h
    · cases h
  · cases h

theorem joinSurrogates_lt {u l : Nat} (hu : isHighSurrogate u = true) (hl : isLowSurrogate l = true) :
    joinSurrogates u l < 0x110000 := by
  simp only [isHighSurrogate, isLowSurrogate, Bool.and_eq_true, decide_eq_true_eq] at hu hl
  unfold joinSurrogates
  omega

/-- The characters of a string are those of the text, or escaped ones. -/
theorem scanString_spec {n : Nat} {s t r : PyStr} (h : scanString n s = some (t, r)) :
    r <:+ s ∧ (Unicode s → Unicode t) := by
  induction s generalizing n t r with
  | nil =>
    rw [scanString] at h
    cases h
  | cons c rest ih =>
    have hstep : ∀ {k d : Nat}, (Unicode (c :: rest) → d < 0x110000) →
        (scanString k rest).map (fun p => (d :: p.1, p.2)) = some (t, r) →
        r <:+ c :: rest ∧ (Unicode (c :: rest) → Unicode t) := by
      intro k d hd h
      obtain ⟨p, hp, heq⟩ := Option.map_eq_some_iff.1 h
      obtain ⟨rfl, rfl⟩ := Prod.mk.inj heq
      obtain ⟨hsuffix, hu⟩ := ih hp
      refine ⟨hsuffix.trans (List.suffix_cons _ _), fun hs => ?_⟩
      exact List.forall_mem_cons.2 ⟨hd hs, hu (hs.suffix (List.suffix_cons _ _))⟩
    cases n with
    | succ n =>
      rw [scanString] at h
      obtain ⟨hsuffix, hu⟩ := ih h
      exact ⟨hsuffix.trans (List.suffix_cons _ _), fun hs => hu (hs.suffix (List.suffix_cons _ _))⟩
    | zero =>
      rw [scanString.eq_def] at h
      simp only at h
      split at h
      · cases h
        exact ⟨List.suffix_cons _ _, fun _ => fun c hc => absurd hc List.not_mem_nil⟩
      split at h
      · cases h
      split at h
      · split at h
        · split at h
          · cases h
          rename_i u hu
          have hlt := hex4_lt hu
          split at h
          · rename_i l _ hlow
            split at h
            · rename_i hhigh
              exact hstep (fun _ => joinSurrogates_lt hhigh (lowEscape_low hlow)) h
            · exact hstep (fun _ => by omega) h
          · exact hstep (fun _ => by omega) h
        · split at h
          · cases h
          · rename_i v hv
            exact hstep (fun _ => escaped_lt hv) h
        · cases h
      · exact hstep (fun hs => hs c List.mem_cons_self) h

/-- What the scanners give is readable, by induction on the fuel. -/
theorem scan_spec (fuel : Nat) :
    (∀ {depth s v r}, Unicode s → scanValue fuel depth s = some (v, r) → Scanned depth s v r) ∧
    (∀ {depth s xs r}, Unicode s → scanElements fuel depth s = some (xs, r) →
      (∀ x ∈ xs, Readable depth x) ∧ r <:+ s) ∧
    ∀ {depth s ms r}, Unicode s → scanMembers fuel depth s = some (ms, r) →
      (∀ m ∈ ms, Unicode m.1 ∧ Readable depth m.2) ∧ r <:+ s := by
  induction fuel with
  | zero =>
    refine ⟨fun _ h => ?_, fun _ h => ?_, fun _ h => ?_⟩
    · rw [scanValue] at h
      cases h
    · rw [scanElements] at h
      cases h
    · rw [scanMembers] at h
      cases h
  | succ fuel ih =>
    obtain ⟨ihValue, ihElements, ihMembers⟩ := ih
    refine ⟨fun {depth s v r} hs h => ?_, fun {depth s xs r} hs h => ?_, fun {depth s ms r} hs h => ?_⟩
    · cases s with
      | nil =>
        rw [scanValue] at h
        cases h
      | cons c rest =>
        have htail : rest <:+ c :: rest := List.suffix_cons _ _
        have hskip := (skipWs_suffix rest).trans htail
        rw [scanValue] at h
        split at h
        · obtain ⟨p, hp, heq⟩ := Option.map_eq_some_iff.1 h
          obtain ⟨rfl, rfl⟩ := Prod.mk.inj heq
          obtain ⟨hsuffix, hu⟩ := scanString_spec hp
          exact ⟨.str (hu (hs.suffix htail)), hsuffix.trans htail⟩
        split at h
        · split at h
          · cases h
          · rename_i hdepth
            obtain ⟨d, rfl⟩ := Nat.exists_eq_succ_of_ne_zero hdepth
            split at h
            · rename_i hclose
              cases h
              rw [hclose] at hskip
              exact ⟨.arr fun x hx => absurd hx List.not_mem_nil, (List.suffix_cons _ _).trans hskip⟩
            · obtain ⟨p, hscan, heq⟩ := Option.map_eq_some_iff.1 h
              obtain ⟨rfl, rfl⟩ := Prod.mk.inj heq
              obtain ⟨hxs, hsuffix⟩ := ihElements (hs.suffix hskip) hscan
              exact ⟨.arr hxs, hsuffix.trans hskip⟩
        split at h
        · split at h
          · cases h
          · rename_i hdepth
            obtain ⟨d, rfl⟩ := Nat.exists_eq_succ_of_ne_zero hdepth
            split at h
            · rename_i hclose
              cases h
              rw [hclose] at hskip
              exact ⟨.obj List.nodup_nil (fun m hm => absurd hm List.not_mem_nil)
                fun m hm => absurd hm List.not_mem_nil, (List.suffix_cons _ _).trans hskip⟩
            · obtain ⟨p, hscan, heq⟩ := Option.map_eq_some_iff.1 h
              obtain ⟨rfl, rfl⟩ := Prod.mk.inj heq
              obtain ⟨hms, hsuffix⟩ := ihMembers (hs.suffix hskip) hscan
              obtain ⟨hnodup, hmem⟩ := dictOf_spec p.1
              exact ⟨.obj hnodup (fun m hm => (hms m (hmem m hm)).1) fun m hm => (hms m (hmem m hm)).2,
                hsuffix.trans hskip⟩
        split at h
        · rename_i p hlit
          cases h
          exact scanLiteral_spec hlit
        · exact scanNumber_spec h
    · rw [scanElements] at h
      split at h
      · cases h
      · rename_i v r' hv
        obtain ⟨hfirst, hr'⟩ := ihValue hs hv
        have hskip := (skipWs_suffix r').trans hr'
        split at h
        · rename_i hclose
          cases h
          rw [hclose] at hskip
          exact ⟨fun x hx => List.mem_singleton.1 hx ▸ hfirst, (List.suffix_cons _ _).trans hskip⟩
        · rename_i r'' hcomma
          obtain ⟨p, hscan, heq⟩ := Option.map_eq_some_iff.1 h
          obtain ⟨rfl, rfl⟩ := Prod.mk.inj heq
          rw [hcomma] at hskip
          have hnext := (skipWs_suffix r'').trans ((List.suffix_cons _ _).trans hskip)
          obtain ⟨hxs, hsuffix⟩ := ihElements (hs.suffix hnext) hscan
          exact ⟨List.forall_mem_cons.2 ⟨hfirst, hxs⟩, hsuffix.trans hnext⟩
        · cases h
    · rw [scanMembers.eq_def] at h
      simp only at h
      split at h
      · rename_i r0
        have h0 : r0 <:+ 0x22 :: r0 := List.suffix_cons _ _
        split at h
        · cases h
        · rename_i k r1 hkey
          obtain ⟨h1, hk⟩ := scanString_spec hkey
          have hcolon := (skipWs_suffix r1).trans (h1.trans h0)
          split at h
          · rename_i r2 hr2
            rw [hr2] at hcolon
            have hvalue := (skipWs_suffix r2).trans ((List.suffix_cons _ _).trans hcolon)
            split at h
            · cases h
            · rename_i v r3 hv
              obtain ⟨hfirst, h3⟩ := ihValue (hs.suffix hvalue) hv
              have hskip := (skipWs_suffix r3).trans (h3.trans hvalue)
              have hmember : Unicode k ∧ Readable depth v := ⟨hk (hs.suffix h0), hfirst⟩
              split at h
              · rename_i hclose
                cases h
                rw [hclose] at hskip
                exact ⟨fun m hm => List.mem_singleton.1 hm ▸ hmember, (List.suffix_cons _ _).trans hskip⟩
              · rename_i r4 hcomma
                obtain ⟨p, hscan, heq⟩ := Option.map_eq_some_iff.1 h
                obtain ⟨rfl, rfl⟩ := Prod.mk.inj heq
                rw [hcomma] at hskip
                have hnext := (skipWs_suffix r4).trans ((List.suffix_cons _ _).trans hskip)
                obtain ⟨hms, hsuffix⟩ := ihMembers (hs.suffix hnext) hscan
                exact ⟨List.forall_mem_cons.2 ⟨hmember, hms⟩, hsuffix.trans hnext⟩
              · cases h
          · cases h
      · cases h

/-- **What is read of a Unicode text is readable.** -/
theorem readable_of_loads {depth : Nat} {s : PyStr} {v : Json} (hs : Unicode s) (h : loads depth s = some v) :
    Readable depth v := by
  unfold loads at h
  split at h
  · rename_i v' r hscan
    split at h
    · cases h
      exact ((scan_spec _).1 (hs.suffix (skipWs_suffix s)) hscan).1
    · cases h
  · cases h

/-- **Writing what was read and reading it again changes nothing.** -/
theorem loads_dumps_loads {depth : Nat} {s : PyStr} {v : Json} (hs : Unicode s) (h : loads depth s = some v) :
    loads depth (v.dumps false) = some v := loads_dumps (readable_of_loads hs h)

/-- A member of an object is found under its key. -/
theorem dictGet_of_mem {ms : List (PyStr × Json)} (h : (ms.map (·.1)).Nodup) {m : PyStr × Json} (hm : m ∈ ms) :
    dictGet ms m.1 = some m.2 := by
  induction ms with
  | nil => cases hm
  | cons x ms ih =>
    obtain ⟨hx, hrest⟩ := List.nodup_cons.1 h
    unfold dictGet at ih ⊢
    rw [List.find?_cons]
    rcases List.mem_cons.1 hm with rfl | hm
    · simp
    · have hne : x.1 ≠ m.1 := fun heq => hx (List.mem_map.2 ⟨m, hm, heq.symm⟩)
      simp only [hne, decide_false]
      exact ih hrest hm

theorem dictGet_dictSet (ms : List (PyStr × Json)) (k : PyStr) (v : Json) :
    dictGet (dictSet ms k v) k = some v := by
  unfold dictSet
  split
  · rename_i hany
    induction ms with
    | nil => cases hany
    | cons m ms ih =>
      by_cases hm : m.1 = k
      · simp [dictGet, hm]
      · have hrest : ms.any (·.1 = k) = true := by simpa [hm] using hany
        simpa [dictGet, hm] using ih hrest
  · rename_i hany
    have hnone : ms.find? (·.1 = k) = none :=
      List.find?_eq_none.2 fun m hm hk => hany (List.any_eq_true.2 ⟨m, hm, hk⟩)
    simp [dictGet, List.find?_append, hnone]

/-! ## What writing gives -/

theorem unicode_nil : Unicode [] := fun _ h => absurd h List.not_mem_nil

theorem unicode_cons {c : Nat} {s : PyStr} : Unicode (c :: s) ↔ c < 0x110000 ∧ Unicode s := List.forall_mem_cons

theorem unicode_append {s t : PyStr} : Unicode (s ++ t) ↔ Unicode s ∧ Unicode t := List.forall_mem_append

theorem unicode_pyStr (s : String) : Unicode (pyStr s) := by
  intro c hc
  obtain ⟨ch, -, rfl⟩ := List.mem_map.1 hc
  have hvalid : ch.toNat.isValidChar := ch.valid
  unfold Nat.isValidChar at hvalid
  omega

theorem Unicode.sub {s t : PyStr} (h : Unicode s) (hst : t ⊆ s) : Unicode t := fun c hc => h c (hst hc)

theorem magText_unicode (a : Rat) : Unicode (PyFloat.magText a) := by
  have hnat : ∀ n : Nat, Unicode (natText n) := fun n => unicode_pyStr _
  have hds : Unicode (PyFloat.shortest a).1 := by
    have hstrip : ∀ ds : PyStr, Unicode ds → Unicode (ds.reverse.dropWhile (· = 0x30)).reverse := by
      intro ds hds
      refine hds.sub fun c hc => ?_
      have hmem := (List.dropWhile_sublist (· = 0x30)).subset (List.mem_reverse.1 hc)
      exact List.mem_reverse.1 hmem
    exact hstrip _ (hnat _)
  have htake : ∀ n, Unicode ((PyFloat.shortest a).1.take n) := fun n => hds.sub (List.take_subset _ _)
  have hdrop : ∀ n, Unicode ((PyFloat.shortest a).1.drop n) := fun n => hds.sub (List.drop_subset _ _)
  have hzeros : ∀ n, Unicode (List.replicate n 0x30) := by
    intro n c hc
    rw [List.eq_of_mem_replicate hc]
    decide
  unfold PyFloat.magText
  split
  · exact unicode_pyStr _
  simp only
  split
  · have htail : Unicode (if (PyFloat.shortest a).1.length ≤ 1 then []
        else 0x2E :: (PyFloat.shortest a).1.drop 1) := by
      split
      · exact unicode_nil
      · exact unicode_cons.2 ⟨by decide, hdrop 1⟩
    have hexp : Unicode (if (natText ((PyFloat.shortest a).2 - 1).natAbs).length < 2
        then 0x30 :: natText ((PyFloat.shortest a).2 - 1).natAbs
        else natText ((PyFloat.shortest a).2 - 1).natAbs) := by
      split
      · exact unicode_cons.2 ⟨by decide, hnat _⟩
      · exact hnat _
    have hsign : (if (PyFloat.shortest a).2 - 1 < 0 then 0x2D else 0x2B) < 0x110000 := by
      split <;> decide
    exact unicode_append.2 ⟨unicode_append.2 ⟨htake 1, htail⟩,
      unicode_cons.2 ⟨by decide, unicode_cons.2 ⟨hsign, hexp⟩⟩⟩
  split
  · exact unicode_append.2 ⟨unicode_append.2 ⟨unicode_pyStr _, hzeros _⟩, hds⟩
  split
  · exact unicode_append.2 ⟨unicode_append.2 ⟨hds, hzeros _⟩, unicode_pyStr _⟩
  · exact unicode_append.2 ⟨htake _, unicode_cons.2 ⟨by decide, hdrop _⟩⟩

theorem float_text_unicode (x : PyFloat) : Unicode x.text := by
  cases x with
  | nan => exact unicode_pyStr _
  | inf neg => exact unicode_pyStr _
  | finite neg mag =>
    refine unicode_append.2 ⟨?_, magText_unicode mag⟩
    split
    · exact unicode_cons.2 ⟨by decide, unicode_nil⟩
    · exact unicode_nil

theorem dumpString_unicode {s : PyStr} (h : Unicode s) : Unicode (dumpString false s) := by
  have hdigit : ∀ d < 16, hexDigit d < 0x110000 := by decide
  refine unicode_cons.2 ⟨by decide, unicode_append.2 ⟨?_, unicode_cons.2 ⟨by decide, unicode_nil⟩⟩⟩
  intro c hc
  obtain ⟨d, hd, hmem⟩ := List.mem_flatMap.1 hc
  rcases escapeChar_cases d with heq | ⟨hlt, -, -⟩
  · rw [heq] at hmem
    rw [List.mem_singleton.1 hmem]
    exact h d hd
  · have hall : ∀ d < 0x7F, ∀ c ∈ escapeChar false d, c < 0x110000 := by decide
    exact hall d hlt c hmem

theorem dumpElements_unicode {xs : List Json} (h : ∀ x ∈ xs, Unicode (x.dumps false)) :
    Unicode (dumpElements false xs) := by
  induction xs with
  | nil => exact unicode_nil
  | cons x xs ih =>
    obtain ⟨hx, hxs⟩ := List.forall_mem_cons.1 h
    cases xs with
    | nil =>
      rw [dumpElements]
      exact hx
    | cons y ys =>
      rw [dumpElements]
      exact unicode_append.2 ⟨hx, unicode_cons.2 ⟨by decide, ih hxs⟩⟩

theorem dumpMembers_unicode {ms : List (PyStr × Json)} (hu : ∀ m ∈ ms, Unicode m.1)
    (h : ∀ m ∈ ms, Unicode (m.2.dumps false)) : Unicode (dumpMembers false ms) := by
  induction ms with
  | nil => exact unicode_nil
  | cons m ms ih =>
    obtain ⟨k, v⟩ := m
    obtain ⟨hk, hks⟩ := List.forall_mem_cons.1 hu
    obtain ⟨hv, hvs⟩ := List.forall_mem_cons.1 h
    cases ms with
    | nil =>
      rw [dumpMembers]
      exact unicode_append.2 ⟨dumpString_unicode hk, unicode_cons.2 ⟨by decide, hv⟩⟩
    | cons m ms =>
      rw [dumpMembers]
      exact unicode_append.2 ⟨unicode_append.2 ⟨dumpString_unicode hk, unicode_cons.2 ⟨by decide, hv⟩⟩,
        unicode_cons.2 ⟨by decide, ih hks hvs⟩⟩

/-- The text of a readable value is a Unicode text. -/
theorem Readable.unicode {depth : Nat} {v : Json} (h : Readable depth v) : Unicode (v.dumps false) := by
  induction h with
  | null =>
    rw [dumps]
    exact unicode_pyStr "null"
  | bool b =>
    rw [dumps]
    exact unicode_pyStr _
  | int h =>
    rw [dumps]
    exact unicode_pyStr _
  | float h =>
    rw [dumps]
    exact float_text_unicode _
  | str h =>
    rw [dumps]
    exact dumpString_unicode h
  | arr _ ih =>
    rw [dumps]
    exact unicode_cons.2 ⟨by decide, unicode_append.2 ⟨dumpElements_unicode ih,
      unicode_cons.2 ⟨by decide, unicode_nil⟩⟩⟩
  | obj _ hu _ ih =>
    rw [dumps]
    exact unicode_cons.2 ⟨by decide, unicode_append.2 ⟨dumpMembers_unicode hu ih,
      unicode_cons.2 ⟨by decide, unicode_nil⟩⟩⟩

/-- **What is written of a readable value is what its bytes hold.** -/
theorem decodeUtf8_dumpBytes {depth : Nat} {v : Json} {bytes : Bytes} (h : Readable depth v)
    (hv : v.dumpBytes = some bytes) : decodeUtf8 bytes = some (v.dumps false) :=
  decodeUtf8_encodeUtf8 h.unicode hv

theorem decodeUtf8_unicode {bytes : Bytes} {s : PyStr} (h : decodeUtf8 bytes = some s) : Unicode s := by
  obtain ⟨cs, -, rfl⟩ := Option.map_eq_some_iff.1 h
  intro c hc
  obtain ⟨ch, -, rfl⟩ := List.mem_map.1 hc
  have hvalid : ch.toNat.isValidChar := ch.valid
  unfold Nat.isValidChar at hvalid
  omega

/-- A key that is set to a readable value leaves an object readable. -/
theorem Readable.setKey {depth : Nat} {ms : List (PyStr × Json)} (h : Readable depth (.obj ms)) {k : String}
    {v : Json} (hv : ∀ d, Readable d v) : Readable depth ((Json.obj ms).setKey k v) := by
  cases h with
  | obj hk hu h =>
    refine .obj (dictSet_nodup hk _ _) (fun m hm => ?_) fun m hm => ?_
    · rcases mem_dictSet hm with hm | rfl
      · exact hu m hm
      · exact unicode_pyStr k
    · rcases mem_dictSet hm with hm | rfl
      · exact h m hm
      · exact hv _

end OTS.Json
