import OTSecurity.Lib.Decimal
import OTSecurity.Lib.Json

/-!
# JSON with decimal numbers

`json.loads(text, parse_float=Decimal)`: the reader of `Json`, but a number with a fraction or an
exponent becomes a decimal.

* `DecJson` — a value; the names `NaN`, `Infinity` and `-Infinity` are still floats.
* `DecJson.loads` — the reader; it fails on text that is not JSON, nests too deep or has too long an
  integer, and on a decimal that `Decimal` does not represent.
-/

namespace OTS

inductive DecJson where
  | null
  | bool (b : Bool)
  | int (n : Int)
  | dec (d : PyDecimal)
  | float (x : PyFloat)
  | str (s : PyStr)
  | arr (xs : List DecJson)
  | obj (members : List (PyStr × DecJson))

inductive ReadError where
  /-- `ValueError` or `RecursionError`. -/
  | invalid
  /-- `decimal.InvalidOperation`. -/
  | inexact
  deriving DecidableEq, Repr

namespace DecJson

open Json (skipWs scanString wholePart fraction exponent INT_MAX_STR_DIGITS)

/-! ## Reading -/

def ofOption {α : Type} (e : ReadError) : Option α → Except ReadError α
  | some a => .ok a
  | none => .error e

/-- The names that stand for values. -/
def literals : List (String × DecJson) :=
  [("null", .null), ("true", .bool true), ("false", .bool false), ("NaN", .float .nan),
    ("Infinity", .float (.inf false)), ("-Infinity", .float (.inf true))]

def scanLiteral (s : PyStr) : Option (DecJson × PyStr) :=
  literals.findSome? fun l => (Json.stripPrefix (pyStr l.1) s).map fun r => (l.2, r)

/-- A number: an integer, or a decimal if it has a fraction or an exponent. -/
def scanNumber (s : PyStr) : Except ReadError (DecJson × PyStr) :=
  let (neg, body) := match s with
    | 0x2D :: r => (true, r)
    | r => (false, r)
  match wholePart body with
  | none => .error .invalid
  | some (whole, r1) =>
    let (frac, r2) := fraction r1
    match exponent r2 with
    | (none, r3) =>
      if frac = [] then
        if INT_MAX_STR_DIGITS < whole.length then .error .invalid
        else .ok (.int (if neg then -(ofDigits whole : Int) else ofDigits whole), r3)
      else (ofOption .inexact (PyDecimal.mk neg (ofDigits (whole ++ frac)) (-(frac.length : Int))).checked).map
        fun d => (.dec d, r3)
    | (some e, r3) =>
      (ofOption .inexact (PyDecimal.mk neg (ofDigits (whole ++ frac)) (e - frac.length)).checked).map
        fun d => (.dec d, r3)

mutual

/-- A value at the front of the text, as `Json.scanValue`. -/
def scanValue : Nat → Nat → PyStr → Except ReadError (DecJson × PyStr)
  | 0, _, _ => .error .invalid
  | _ + 1, _, [] => .error .invalid
  | fuel + 1, depth, c :: rest =>
    if c = 0x22 then (ofOption .invalid (scanString 0 rest)).map fun r => (.str r.1, r.2)
    else if c = 0x5B then
      if depth = 0 then .error .invalid
      else match skipWs rest with
        | 0x5D :: r => .ok (.arr [], r)
        | r => (scanElements fuel (depth - 1) r).map fun p => (.arr p.1, p.2)
    else if c = 0x7B then
      if depth = 0 then .error .invalid
      else match skipWs rest with
        | 0x7D :: r => .ok (.obj [], r)
        | r => (scanMembers fuel (depth - 1) r).map fun p => (.obj (dictOf p.1), p.2)
    else match scanLiteral (c :: rest) with
      | some r => .ok r
      | none => scanNumber (c :: rest)

/-- The elements of an array up to its end. -/
def scanElements : Nat → Nat → PyStr → Except ReadError (List DecJson × PyStr)
  | 0, _, _ => .error .invalid
  | fuel + 1, depth, s =>
    match scanValue fuel depth s with
    | .error e => .error e
    | .ok (v, r) =>
      match skipWs r with
      | 0x5D :: r' => .ok ([v], r')
      | 0x2C :: r' => (scanElements fuel depth (skipWs r')).map fun p => (v :: p.1, p.2)
      | _ => .error .invalid

/-- The members of an object up to its end. -/
def scanMembers : Nat → Nat → PyStr → Except ReadError (List (PyStr × DecJson) × PyStr)
  | 0, _, _ => .error .invalid
  | fuel + 1, depth, s =>
    match s with
    | 0x22 :: r =>
      match scanString 0 r with
      | none => .error .invalid
      | some (k, r1) =>
        match skipWs r1 with
        | 0x3A :: r2 =>
          match scanValue fuel depth (skipWs r2) with
          | .error e => .error e
          | .ok (v, r3) =>
            match skipWs r3 with
            | 0x7D :: r4 => .ok ([(k, v)], r4)
            | 0x2C :: r4 => (scanMembers fuel depth (skipWs r4)).map fun p => ((k, v) :: p.1, p.2)
            | _ => .error .invalid
        | _ => .error .invalid
    | _ => .error .invalid

end

/-- `json.loads(s, parse_float=Decimal)`. -/
def loads (depth : Nat) (s : PyStr) : Except ReadError DecJson :=
  match scanValue (s.length + 1) depth (skipWs s) with
  | .error e => .error e
  | .ok (v, r) => if skipWs r = [] then .ok v else .error .invalid

end DecJson

end OTS
