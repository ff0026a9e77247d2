import OTSecurity.Lib.JsonSchema

/-!
# Values built to a schema

That a text matches a pattern and an object a record, from its parts.

* `mem_seq_run`, `mem_seq_lit`, `mem_seq_opt` — a text that starts as a pattern does.
* `pattern_text`, `shortText_str` — texts that a schema admits.

Principal results: `record_conforming_iff` — when an object with the properties of a record, in their order,
conforms to it; `record_iff` — when any object does.
-/

namespace OTS

namespace Regex

/-- What a sequence leaves is left by its rest of what its first part leaves. -/
theorem mem_seq_cons {r : Regex} {rs : List Regex} {s rest : PyStr} :
    rest ∈ seq (r :: rs) s ↔ ∃ mid ∈ r s, rest ∈ seq rs mid := by
  have hfold : ∀ (rs : List Regex) (starts : List PyStr),
      rest ∈ rs.foldl (fun rests r => rests.flatMap r) starts ↔ ∃ mid ∈ starts, rest ∈ seq rs mid := by
    intro rs
    induction rs with
    | nil =>
      intro starts
      simp [seq]
    | cons r rs ih =>
      intro starts
      rw [List.foldl_cons, ih]
      constructor
      · rintro ⟨mid, hmid, hrest⟩
        obtain ⟨start, hstart, hmem⟩ := List.mem_flatMap.1 hmid
        refine ⟨start, hstart, ?_⟩
        unfold seq
        rw [List.foldl_cons, ih]
        exact ⟨mid, by simpa using hmem, hrest⟩
      · rintro ⟨start, hstart, hrest⟩
        unfold seq at hrest
        rw [List.foldl_cons, ih] at hrest
        obtain ⟨mid, hmid, hrest⟩ := hrest
        exact ⟨mid, List.mem_flatMap.2 ⟨start, hstart, by simpa using hmid⟩, hrest⟩
  show rest ∈ rs.foldl _ ([s].flatMap r) ↔ _
  rw [hfold, List.flatMap_singleton]

theorem mem_seq_nil {s : PyStr} : s ∈ seq [] s := List.mem_singleton.2 rfl

/-- A run of characters of the class in front. -/
theorem mem_seq_run {p : Nat → Bool} {lo hi : Nat} {rs : List Regex} {xs s rest : PyStr}
    (hp : ∀ c ∈ xs, p c = true) (hlo : lo ≤ xs.length) (hhi : xs.length ≤ hi) (h : rest ∈ seq rs s) :
    rest ∈ seq (run p lo hi :: rs) (xs ++ s) := by
  refine mem_seq_cons.2 ⟨s, ?_, h⟩
  refine List.mem_map.2 ⟨xs.length, ?_, List.drop_left⟩
  refine List.mem_filter.2 ⟨List.mem_range.2 (by omega), ?_⟩
  have htake : (xs ++ s).take xs.length = xs := List.take_left
  rw [decide_eq_true_eq, htake, List.length_append, List.all_eq_true]
  exact ⟨hlo, by omega, hp⟩

theorem stripPrefix_append (p s : PyStr) : Json.stripPrefix p (p ++ s) = some s := by
  induction p with
  | nil => rfl
  | cons c p ih =>
    rw [List.cons_append, Json.stripPrefix, if_pos rfl]
    exact ih

theorem mem_seq_lit {text : String} {rs : List Regex} {s rest : PyStr} (h : rest ∈ seq rs s) :
    rest ∈ seq (lit text :: rs) (pyStr text ++ s) := by
  refine mem_seq_cons.2 ⟨s, ?_, h⟩
  unfold lit
  rw [stripPrefix_append]
  exact List.mem_singleton.2 rfl

theorem mem_seq_opt {r : Regex} {rs : List Regex} {s rest : PyStr} (h : rest ∈ seq (r :: rs) s) :
    rest ∈ seq (opt r :: rs) s := by
  obtain ⟨mid, hmid, hrest⟩ := mem_seq_cons.1 h
  exact mem_seq_cons.2 ⟨mid, List.mem_cons_of_mem _ hmid, hrest⟩

/-- A sequence in front of a sequence. -/
theorem mem_seq_seq {parts rs : List Regex} {s mid rest : PyStr} (hmid : mid ∈ seq parts s)
    (h : rest ∈ seq rs mid) : rest ∈ seq (seq parts :: rs) s :=
  mem_seq_cons.2 ⟨mid, hmid, h⟩

theorem search_of_mem {r : Regex} {s : PyStr} (h : [] ∈ r s) : search r s = true :=
  List.any_eq_true.2 ⟨[], h, by simp⟩

/-- A text of characters of the class, as long as a run may be. -/
theorem mem_run {p : Nat → Bool} {lo hi : Nat} {s : PyStr} (hp : ∀ c ∈ s, p c = true)
    (hlo : lo ≤ s.length) (hhi : s.length ≤ hi) : [] ∈ run p lo hi s := by
  have hseq := mem_seq_run hp hlo hhi (@mem_seq_nil [])
  rw [List.append_nil] at hseq
  obtain ⟨mid, hmid, hrest⟩ := mem_seq_cons.1 hseq
  obtain rfl := List.mem_singleton.1 hrest
  exact hmid

end Regex

namespace Schema

theorem type_string (s : PyStr) : type [.string] (.str s) = true := rfl

theorem pattern_str (r : Regex) (s : PyStr) : pattern r (.str s) = r.search s := rfl

theorem maxLength_str {n : Nat} {s : PyStr} (h : s.length ≤ n) : maxLength n (.str s) = true :=
  decide_eq_true h

/-- A text of at most `n` characters. -/
theorem shortText_str {n : Nat} {s : PyStr} (h : s.length ≤ n) :
    all [type [.string], maxLength n] (.str s) = true := by
  rw [all_iff, List.forall_mem_cons, List.forall_mem_singleton]
  exact ⟨type_string s, maxLength_str h⟩

/-- A text that a pattern matches. -/
theorem pattern_text {r : Regex} {s : PyStr} (h : [] ∈ r s) :
    all [type [.string], pattern r] (.str s) = true := by
  rw [all_iff, List.forall_mem_cons, List.forall_mem_singleton, pattern_str]
  exact ⟨type_string s, Regex.search_of_mem h⟩

theorem orNull_null (s : Schema) : orNull s .null = true := orNull_iff.2 (.inr rfl)

theorem orNull_of {s : Schema} {v : Json} (h : s v = true) : orNull s v = true := orNull_iff.2 (.inl h)

/-- An object whose members are those of a record. -/
def conforming (ps : List (String × Schema)) (vs : List Json) : List (PyStr × Json) :=
  (ps.zip vs).map fun m => (pyStr m.1.1, m.2)

/-- A member is found under its name. -/
theorem dictGet_conforming {ps : List (String × Schema)} {vs : List Json} (hnames : (ps.map (·.1)).Nodup)
    {m : (String × Schema) × Json} (hm : m ∈ ps.zip vs) :
    Json.dictGet (conforming ps vs) (pyStr m.1.1) = some m.2 := by
  induction ps generalizing vs with
  | nil => cases hm
  | cons p ps ih =>
    cases vs with
    | nil => cases hm
    | cons v vs =>
      obtain ⟨hnew, hnames⟩ := List.nodup_cons.1 hnames
      unfold conforming Json.dictGet
      rw [List.zip_cons_cons, List.map_cons, List.find?_cons]
      rcases List.mem_cons.1 hm with rfl | hm
      · simp
      · have hne : pyStr p.1 ≠ pyStr m.1.1 := by
          intro heq
          apply hnew
          show p.1 ∈ _
          rw [pyStr_inj heq]
          exact List.mem_map_of_mem (List.of_mem_zip hm).1
        simp only [hne, decide_false]
        exact ih hnames hm

/-- An object with the properties of a record conforms to it. -/
theorem record_of_members {ps : List (String × Schema)} {vs : List Json} (hnames : (ps.map (·.1)).Nodup)
    (hlen : ps.length = vs.length) (h : ∀ m ∈ ps.zip vs, m.1.2 m.2 = true) :
    record ps (.obj (conforming ps vs)) = true := by
  have hmember : ∀ p ∈ ps, ∃ m ∈ ps.zip vs, m.1 = p := by
    intro p hp
    have hfst : (ps.zip vs).map (·.1) = ps := List.map_fst_zip hlen.le
    rw [← hfst] at hp
    exact List.mem_map.1 hp
  unfold record
  rw [all_iff, List.forall_mem_cons, List.forall_mem_cons, List.forall_mem_cons, List.forall_mem_singleton]
  refine ⟨rfl, ?_, ?_, ?_⟩
  · show (conforming ps vs).all _ = true
    rw [List.all_eq_true]
    intro m hm
    obtain ⟨m, hmem, rfl⟩ := List.mem_map.1 hm
    rw [Bool.or_eq_true, List.any_eq_true]
    exact .inl ⟨m.1.1, List.mem_map_of_mem (List.of_mem_zip hmem).1, decide_eq_true rfl⟩
  · rw [required_iff]
    intro k hk
    obtain ⟨p, hp, rfl⟩ := List.mem_map.1 hk
    obtain ⟨m, hm, rfl⟩ := hmember p hp
    rw [dictGet_conforming hnames hm]
    rfl
  · rw [properties_iff]
    intro p hp w hw
    obtain ⟨m, hm, rfl⟩ := hmember p hp
    rw [dictGet_conforming hnames hm] at hw
    cases hw
    exact h m hm

/-- **When an object with the properties of a record conforms to it**: each member does. -/
theorem record_conforming_iff {ps : List (String × Schema)} {vs : List Json}
    (hnames : (ps.map (·.1)).Nodup) (hlen : ps.length = vs.length) :
    record ps (.obj (conforming ps vs)) = true ↔ ∀ m ∈ ps.zip vs, m.1.2 m.2 = true := by
  constructor
  · intro h m hm
    obtain ⟨w, hw, hs⟩ := record_property h (List.of_mem_zip hm).1
    have hget : Json.dictGet (conforming ps vs) (pyStr m.1.1) = some w := hw
    rw [dictGet_conforming hnames hm] at hget
    cases hget
    exact hs
  · exact record_of_members hnames hlen

/-- **When an object conforms to a record**, whatever the order of its members: its keys are names of
properties, and each property is there and conforms. -/
theorem record_iff {ps : List (String × Schema)} {ms : List (PyStr × Json)} :
    record ps (.obj ms) = true ↔ (∀ m ∈ ms, ∃ p ∈ ps, pyStr p.1 = m.1) ∧
      ∀ p ∈ ps, ∃ w, Json.dictGet ms (pyStr p.1) = some w ∧ p.2 w = true := by
  constructor
  · intro h
    refine ⟨fun m hm => ?_, fun p hp => record_property h hp⟩
    unfold record at h
    rw [all_iff, List.forall_mem_cons, List.forall_mem_cons] at h
    have hnames := List.all_eq_true.1 (show ms.all _ = true from h.2.1) m hm
    rw [Bool.or_eq_true, List.any_eq_true] at hnames
    rcases hnames with ⟨k, hk, heq⟩ | hnever
    · obtain ⟨p, hp, rfl⟩ := List.mem_map.1 hk
      exact ⟨p, hp, of_decide_eq_true heq⟩
    · cases hnever
  · rintro ⟨hkeys, hprops⟩
    unfold record
    rw [all_iff, List.forall_mem_cons, List.forall_mem_cons, List.forall_mem_cons, List.forall_mem_singleton]
    refine ⟨rfl, ?_, ?_, ?_⟩
    · show ms.all _ = true
      rw [List.all_eq_true]
      intro m hm
      obtain ⟨p, hp, heq⟩ := hkeys m hm
      rw [Bool.or_eq_true, List.any_eq_true]
      exact .inl ⟨p.1, List.mem_map_of_mem hp, decide_eq_true heq⟩
    · rw [required_iff]
      intro k hk
      obtain ⟨p, hp, rfl⟩ := List.mem_map.1 hk
      obtain ⟨w, hw, -⟩ := hprops p hp
      rw [hw]
      rfl
    · rw [properties_iff]
      intro p hp w hw
      obtain ⟨w', hw', hs⟩ := hprops p hp
      rw [hw] at hw'
      rw [Option.some.inj hw']
      exact hs

/-- An integer within its bounds. -/
theorem integer_iff {lo hi : Rat} {n : Int} :
    all [type [.integer], minimum lo, maximum hi] (.int n) = true ↔ lo ≤ n ∧ n ≤ hi := by
  simp [type, minimum, maximum, onNumber, JsonType.holds]

end Schema

end OTS
