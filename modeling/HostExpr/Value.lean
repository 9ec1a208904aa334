-- SUMMARY: The values that bindings hold, hosts return and evaluations produce.
import HostExpr.Number
import HostExpr.Ty
import HostExpr.EvalError

/-!
# Values

A value is plain data, or a reference to an object of the host. What an object is and holds is the
host's business: here it is only an identity. Three texts exist of a value: its own (`text`), the one
in messages (`describe`), and the name of its type (`type`).
-/

namespace HostExpr

/-- The identity of an object of the host. -/
structure ObjectRef where
  id : Nat
  deriving DecidableEq, Repr

/-- A value. -/
inductive Value where
  | null
  | bool (b : Bool)
  | number (n : Number)
  | string (s : String)
  | enum (v : EnumValue)
  | list (items : List Value)
  | object (ref : ObjectRef)

namespace Value

/-! ## Texts -/

/-- The text of a truth value. -/
def boolText (b : Bool) : String := if b then "true" else "false"

mutual

/-- The text of a value. -/
def text : Value → String
  | null => "null"
  | bool b => boolText b
  | number n => n.text
  | string s => s
  | enum v => v.text
  | list items => "[" ++ ", ".intercalate (texts items) ++ "]"
  | object _ => "<object>"

/-- The texts of several values. -/
def texts : List Value → List String
  | [] => []
  | v :: vs => v.text :: texts vs

end

/-- The value and its shape, for messages. -/
def describe : Value → String
  | null => "null"
  | bool b => boolText b ++ " (bool)"
  | number n => n.text ++ " (" ++ n.kind.keyword ++ ")"
  | string s => "\"" ++ s ++ "\" (string)"
  | enum v => v.text ++ " (enum)"
  | list items => "list of " ++ Decimal.ofInt items.length ++ " element(s)"
  | object _ => "host object"

/-! ## Types -/

/-- The type that a variable is given for the value when none is declared. A list has the type of
its first element; where the value does not tell, the type is that of any object. -/
def type : Value → Ty
  | bool _ => .bool
  | number n => .number n.kind
  | string _ => .string
  | enum v => .enum v.type
  | list (first :: _) => .list first.type
  | list [] => .list (.object "object")
  | null | object _ => .object "object"

/-- The value is the absent one. -/
def isNull : Value → Bool
  | null => true
  | _ => false

/-! ## Views -/

/-- A double brought back as a value of a type: a number of the type's kind, or a value of the
enumeration. For any other type it stays a double. -/
def ofDouble (ty : Ty) (x : Float) : Value :=
  match ty with
  | .number kind => number (Number.ofDouble kind x)
  | .enum type =>
    enum ⟨type, .ofInt (Floating.truncate Int64.minValue.toInt Int64.maxValue.toInt x)⟩
  | _ => number (.double x)

/-- The object that the value refers to. -/
def object? : Value → Option ObjectRef
  | object ref => some ref
  | _ => none

/-- The value as a double: numbers, and values of enumerations by their integers. -/
def toDouble : Value → Except EvalError Float
  | number n => .ok n.toDouble
  | enum v => .ok (Floating.ofInt v.value.toInt)
  | v => .error (.expectedNumber v.describe)

/-- The value as a truth value. -/
def toBool : Value → Except EvalError Bool
  | bool b => .ok b
  | v => .error (.expectedBoolean v.describe)

/-- The value as a text. -/
def toText : Value → Except EvalError String
  | string s => .ok s
  | v => .error (.expectedString v.describe)

/-- The elements of the value. -/
def toList : Value → Except EvalError (List Value)
  | list items => .ok items
  | v => .error (.expectedList v.describe)

/-! ## Equality -/

mutual

/-- Equality of values: by content, with the equality of numbers; objects only by identity. -/
def equal : Value → Value → Bool
  | null, null => true
  | bool a, bool b => a = b
  | number a, number b => a.equal b
  | string a, string b => a = b
  | enum a, enum b => a = b
  | list as, list bs => equals as bs
  | object a, object b => a = b
  | _, _ => false

/-- Equality of lists of values, element by element. -/
def equals : List Value → List Value → Bool
  | [], [] => true
  | a :: as, b :: bs => a.equal b && equals as bs
  | _, _ => false

end

end Value

end HostExpr
