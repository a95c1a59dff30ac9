import MiniRedis.Foundation.PyFloat
import MiniRedis.Foundation.Assoc
import MiniRedis.Foundation.Text

/-!
# Texts and JSON values

The text of a file may hold what no request can bring: a JSON escape of half a surrogate
pair is a `str` without an encoding. So what is restored from files is stated for any type
of texts with the operations of `PyStr`, and `String` is the one that requests bring.

`JsonCodec` is the part of Python that turns values into text and back. Which text a value
has is not looked at; what a proof relies on is a hypothesis there.
-/

namespace MiniRedis

/-- The operations of `str` that the persistence layer uses. -/
class PyStr (S : Type) where
  ofString : String → S
  upper : S → S
  chars : S → List S

instance : PyStr String where
  ofString := id
  upper := PyText.upper
  chars text := text.toList.map String.singleton

/-- What `json.loads` returns. The fields of an object are in the order of the text. -/
inductive Json (S : Type) where
  | null
  | bool (b : Bool)
  | int (n : Int)
  | float (x : PyFloat)
  | str (text : S)
  | array (items : List (Json S))
  | object (fields : List (S × Json S))

/-- The exceptions of `json.loads`: a `JSONDecodeError`, or another one. -/
inductive LoadsError where
  | decode
  | other (error : PyError)

/-- `json.loads`, `json.dumps`, `json.dump` with `indent=2` and `sort_keys=True`, `str` of a value
that is no string, `float` of a text, or `none` for a `ValueError`, and `str` of a float. -/
structure JsonCodec (S : Type) where
  loads : String → Except LoadsError (Json S)
  dumps : Json S → String
  dumpIndented : Json S → String
  repr : Json S → S
  parseFloat : S → Option PyFloat
  floatText : PyFloat → S

namespace Json

variable {S : Type} [PyStr S] [DecidableEq S]

/-- `value.get(key, default)`. -/
def get (value : Json S) (key : String) (default : Json S) : Except PyError (Json S) :=
  match value with
  | .object fields => .ok (((Dict.ofList fields).get? (PyStr.ofString key)).getD default)
  | _ => .error .attributeError

/-- `str(value)`. -/
def toStr (codec : JsonCodec S) : Json S → S
  | .str text => text
  | other => codec.repr other

/-- `float(value)`. -/
def toFloat (codec : JsonCodec S) : Json S → Except PyError PyFloat
  | .float x => .ok x
  | .int n => PyFloat.ofInt n
  | .bool b => PyFloat.ofInt (if b then 1 else 0)
  | .str text =>
      match codec.parseFloat text with
      | some x => .ok x
      | none => .error (.valueError "could not convert string to float")
  | _ => .error .typeError

/-- What `for item in value` goes through. -/
def iterate : Json S → Except PyError (List (Json S))
  | .array items => .ok items
  | .str text => .ok ((PyStr.chars text).map .str)
  | .object fields => .ok ((Assoc.keys (Dict.ofList fields).entries).map .str)
  | _ => .error .typeError

end Json

end MiniRedis
