import OTSecurity.Common.Iputil
import OTSecurity.Lib.Json

/-!
# JSON Schema

A schema is the set of the values it accepts.  Each keyword of the 2020-12 draft that is used here
is one constructor of schemas; a schema object is the list of its keywords, all of which must
accept.

* `Regex` — a pattern by the suffixes it can leave; `pattern` is `re.search` of a pattern between
  `^` and `$`, and `$` also stands before a final newline.
* `JsonType.holds` — the types: a float without fraction is an integer, a boolean is not.

One lemma a keyword says what it accepts.
-/

namespace OTS

/-! ## Patterns -/

/-- What a pattern can leave of a text. -/
abbrev Regex := PyStr → List PyStr

namespace Regex

/-- Between `lo` and `hi` characters of a class. -/
def run (p : Nat → Bool) (lo hi : Nat) : Regex := fun s =>
  ((List.range (hi + 1)).filter fun k => lo ≤ k ∧ k ≤ s.length ∧ (s.take k).all p).map s.drop

def lit (text : String) : Regex := fun s => (Json.stripPrefix (pyStr text) s).toList

def seq (rs : List Regex) : Regex := fun s => rs.foldl (fun rests r => rests.flatMap r) [s]

def opt (r : Regex) : Regex := fun s => s :: r s

/-- `re.search` of the pattern between `^` and `$`. -/
def search (r : Regex) (s : PyStr) : Bool := (r s).any fun rest => rest = [] ∨ rest = [0x0A]

end Regex

/-! ### Character classes -/

def range (lo hi : Char) (c : Nat) : Bool := lo.toNat ≤ c && c ≤ hi.toNat

def oneOf (cs : String) (c : Nat) : Bool := c ∈ pyStr cs

def lower (c : Nat) : Bool := range 'a' 'z' c
def upper (c : Nat) : Bool := range 'A' 'Z' c
def digit (c : Nat) : Bool := range '0' '9' c
def alpha (c : Nat) : Bool := upper c || lower c
def alnum (c : Nat) : Bool := alpha c || digit c
def hexLower (c : Nat) : Bool := digit c || range 'a' 'f' c

/-! ## Schemas -/

abbrev Schema := Json → Bool

inductive JsonType where
  | null
  | boolean
  | integer
  | number
  | string
  | array
  | object
  deriving DecidableEq

def JsonType.holds : JsonType → Json → Bool
  | .null, .null => true
  | .boolean, .bool _ => true
  | .integer, .int _ => true
  | .integer, .float x => x.isInteger
  | .number, .int _ => true
  | .number, .float _ => true
  | .string, .str _ => true
  | .array, .arr _ => true
  | .object, .obj _ => true
  | _, _ => false

namespace Schema

/-- A schema object: every keyword accepts. -/
def all (keywords : List Schema) : Schema := fun v => keywords.all fun k => k v

def anyOf (schemas : List Schema) : Schema := fun v => schemas.any fun s => s v

def type (ts : List JsonType) : Schema := fun v => ts.any fun t => t.holds v

/-- `enum` over texts and, for `none`, null. -/
def enum (values : List (Option String)) : Schema := fun v =>
  match v with
  | .null => none ∈ values
  | .str s => values.any fun w => w.any fun t => pyStr t = s
  | _ => false

def const (text : String) : Schema := enum [some text]

/-- The keywords on numbers: `bad` says which numbers they refuse. -/
def onNumber (badInt : Int → Bool) (badFloat : PyFloat → Bool) : Schema := fun v =>
  match v with
  | .int n => !badInt n
  | .float x => !badFloat x
  | _ => true

/-- `minimum`: refused is what is less. -/
def minimum (m : Rat) : Schema := onNumber (fun n => n < m) (·.ltInt m)

/-- `maximum`: refused is what is greater. -/
def maximum (m : Rat) : Schema := onNumber (fun n => m < n) (·.gtInt m)

def onString (p : PyStr → Bool) : Schema := fun v =>
  match v with
  | .str s => p s
  | _ => true

def maxLength (n : Nat) : Schema := onString fun s => s.length ≤ n

def pattern (r : Regex) : Schema := onString r.search

/-- `format` with the checkers of `ipaddress`. -/
def format (valid : List Char → Bool) : Schema := onString fun s => (chars? s).any valid

def onArray (p : List Json → Bool) : Schema := fun v =>
  match v with
  | .arr xs => p xs
  | _ => true

def maxItems (n : Nat) : Schema := onArray fun xs => xs.length ≤ n

def items (s : Schema) : Schema := onArray fun xs => xs.all s

def onObject (p : List (PyStr × Json) → Bool) : Schema := fun v =>
  match v with
  | .obj members => p members
  | _ => true

def maxProperties (n : Nat) : Schema := onObject fun ms => ms.length ≤ n

def propertyNames (s : Schema) : Schema := onObject fun ms => ms.all fun m => s (.str m.1)

def required (names : List String) : Schema := onObject fun ms =>
  names.all fun k => ms.any fun m => m.1 = pyStr k

def properties (ps : List (String × Schema)) : Schema := onObject fun ms =>
  ps.all fun p => (Json.dictGet ms (pyStr p.1)).all p.2

/-- `additionalProperties` next to properties of the given names. -/
def additionalProperties (names : List String) (s : Schema) : Schema := onObject fun ms =>
  ms.all fun m => (names.any fun k => pyStr k = m.1) || s m.2

/-- The schema `false`. -/
def never : Schema := fun _ => false

/-- `if` and `then`. -/
def ifThen (c t : Schema) : Schema := fun v => !c v || t v

/-- An object with these properties, all required, and no others. -/
def record (ps : List (String × Schema)) : Schema :=
  all [type [.object], additionalProperties (ps.map (·.1)) never, required (ps.map (·.1)),
    properties ps]

def orNull (s : Schema) : Schema := anyOf [s, type [.null]]

/-! ## What the keywords accept -/

@[simp] theorem all_iff {ks : List Schema} {v : Json} : all ks v = true ↔ ∀ k ∈ ks, k v = true :=
  List.all_eq_true

@[simp] theorem anyOf_iff {ss : List Schema} {v : Json} :
    anyOf ss v = true ↔ ∃ s ∈ ss, s v = true := List.any_eq_true

@[simp] theorem type_iff {ts : List JsonType} {v : Json} :
    type ts v = true ↔ ∃ t ∈ ts, t.holds v = true := List.any_eq_true

theorem holds_object {v : Json} (h : JsonType.holds .object v = true) : ∃ ms, v = .obj ms := by
  cases v <;> first | exact ⟨_, rfl⟩ | cases h

theorem required_iff {names : List String} {ms : List (PyStr × Json)} :
    required names (.obj ms) = true ↔ ∀ k ∈ names, (Json.dictGet ms (pyStr k)).isSome := by
  simp [required, onObject, Json.dictGet]

theorem properties_iff {ps : List (String × Schema)} {ms : List (PyStr × Json)} :
    properties ps (.obj ms) = true ↔
      ∀ p ∈ ps, ∀ w, Json.dictGet ms (pyStr p.1) = some w → p.2 w = true := by
  simp only [properties, onObject, List.all_eq_true]
  refine forall_congr' fun p => forall_congr' fun _ => ?_
  cases Json.dictGet ms (pyStr p.1) <;> simp

/-- **Every property of a record is there and conforms.** -/
theorem record_property {ps : List (String × Schema)} {v : Json} (h : record ps v = true)
    {k : String} {s : Schema} (hk : (k, s) ∈ ps) : ∃ w, v.get? k = some w ∧ s w = true := by
  simp only [record, all_iff, List.forall_mem_cons] at h
  obtain ⟨htype, -, hreq, hprops, -⟩ := h
  obtain ⟨t, ht, hobj⟩ := type_iff.1 htype
  rw [List.mem_singleton.1 ht] at hobj
  obtain ⟨ms, rfl⟩ := holds_object hobj
  obtain ⟨w, hw⟩ := Option.isSome_iff_exists.1
    (required_iff.1 hreq k (List.mem_map.2 ⟨(k, s), hk, rfl⟩))
  exact ⟨w, hw, properties_iff.1 hprops _ hk w hw⟩

theorem orNull_iff {s : Schema} {v : Json} : orNull s v = true ↔ s v = true ∨ v = .null := by
  have hnull : type [.null] v = true ↔ v = .null := by cases v <;> simp [JsonType.holds]
  simp [orNull, hnull]

/-- A text that a run of characters matches has at most one more, a final newline. -/
theorem length_of_search_run {p : Nat → Bool} {lo hi : Nat} {s : PyStr}
    (h : (Regex.run p lo hi).search s = true) : s.length ≤ hi + 1 := by
  obtain ⟨rest, hrest, hend⟩ := List.any_eq_true.1 h
  obtain ⟨k, hk, rfl⟩ := List.mem_map.1 hrest
  have hk' := List.mem_range.1 (List.mem_filter.1 hk).1
  have hlen : (s.drop k).length ≤ 1 := by
    rcases of_decide_eq_true hend with he | he <;> rw [he] <;> simp
  rw [List.length_drop] at hlen
  omega

end Schema

end OTS
