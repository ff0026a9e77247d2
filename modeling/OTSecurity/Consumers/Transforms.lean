import OTSecurity.Common.Contracts
import OTSecurity.Lib.PyExc

/-!
# Transforms

What the transforms of the consumers have in common: `Poison`, and the text of a value.

* `Failure` — how a transform fails: with `Poison`, or with another exception.
* `poisonOn` — a `try` whose `except` turns some exceptions into `Poison`.
* `Runtime.str` — `str` of a value of `json.loads`.
-/

namespace OTS

/-! ## Texts of values -/

mutual

/-- `repr(v)`. -/
def Runtime.repr (rt : Runtime) : Json → PyStr
  | .null => pyStr "None"
  | .bool b => pyStr (if b then "True" else "False")
  | .int n => intText n
  | .float .nan => pyStr "nan"
  | .float (.inf neg) => pyStr (if neg then "-inf" else "inf")
  | .float x => x.text
  | .str s => rt.reprStr s
  | .arr xs => 0x5B :: (rt.reprElements xs ++ [0x5D])
  | .obj ms => 0x7B :: (rt.reprMembers ms ++ [0x7D])

def Runtime.reprElements (rt : Runtime) : List Json → PyStr
  | [] => []
  | [x] => rt.repr x
  | x :: y :: xs => rt.repr x ++ pyStr ", " ++ rt.reprElements (y :: xs)

def Runtime.reprMembers (rt : Runtime) : List (PyStr × Json) → PyStr
  | [] => []
  | [(k, v)] => rt.reprStr k ++ pyStr ": " ++ rt.repr v
  | (k, v) :: m :: ms =>
    rt.reprStr k ++ pyStr ": " ++ rt.repr v ++ pyStr ", " ++ rt.reprMembers (m :: ms)

end

/-- `str(v)`. -/
def Runtime.str (rt : Runtime) : Json → PyStr
  | .str s => s
  | v => rt.repr v

namespace Consumers

/-! ## Failing -/

inductive Failure where
  | poison
  | raises (e : PyExc)
  deriving DecidableEq, Repr

abbrev Transform := Except Failure

/-- `try: … except kinds: raise Poison`. -/
def poisonOn {α : Type} (kinds : List PyExc) : Py α → Transform α
  | .ok a => .ok a
  | .error e => .error (if e ∈ kinds then .poison else .raises e)

end Consumers

theorem Py.bind_eq_ok {α β : Type} {x : Py α} {f : α → Py β} {b : β} :
    (x >>= f) = .ok b ↔ ∃ a, x = .ok a ∧ f a = .ok b := by
  cases x with
  | error e =>
    refine iff_of_false (fun h => by cases h) ?_
    rintro ⟨a, ha, -⟩
    cases ha
  | ok a =>
    refine ⟨fun h => ⟨a, rfl, h⟩, ?_⟩
    rintro ⟨a', ha, h⟩
    cases ha
    exact h

end OTS
