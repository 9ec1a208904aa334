-- SUMMARY: The types of expressions, and enumerations.
import HostExpr.Number.Kind
import HostExpr.Decimal.Integer

/-!
# Types

Every expression has a type, fixed when the expression is compiled. Types are compared by what they
say: two object types are the same if their names are, two enumerations if their definitions are.

An enumeration gives names to 64-bit integers. A value of it need not have a name: any integer is
one, and two names may share an integer.
-/

namespace HostExpr

/-! ## Enumerations -/

/-- An enumeration: its name, and its members with their values in the order of declaration. -/
structure EnumType where
  name : String
  members : List (String × Int64)
  deriving DecidableEq

namespace EnumType

/-- The value of the first member with the given name. -/
def valueOf? (e : EnumType) (member : String) : Option Int64 :=
  (e.members.find? fun (name, _) => name = member).map (·.2)

/-- The name of the first member with the given value. -/
def nameOf? (e : EnumType) (value : Int64) : Option String :=
  (e.members.find? fun (_, v) => v = value).map (·.1)

end EnumType

/-- A value of an enumeration. -/
structure EnumValue where
  type : EnumType
  value : Int64
  deriving DecidableEq

namespace EnumValue

/-- The name of the value, if the enumeration gives it one. -/
def name? (v : EnumValue) : Option String := v.type.nameOf? v.value

/-- The enumeration's name, with the name of the member after a point or else the integer in
parentheses. -/
def text (v : EnumValue) : String :=
  match v.name? with
  | some name => v.type.name ++ "." ++ name
  | none => v.type.name ++ "(" ++ Decimal.ofInt v.value.toInt ++ ")"

end EnumValue

/-! ## Types -/

/-- A type. `generic` is a slot in the signature of a generic method. -/
inductive Ty where
  | void
  | bool
  | string
  | number (kind : NumberKind)
  | enum (type : EnumType)
  | object (name : String)
  | list (element : Ty)
  | generic (name : String)
  deriving DecidableEq

namespace Ty

/-- The type of an integer literal without a suffix. -/
abbrev int : Ty := .number .int

/-- The type of a double. -/
abbrev double : Ty := .number .double

/-- Values of the type take part in arithmetic: numbers, and enumerations by their integers. -/
def isNumeric : Ty → Bool
  | number _ | enum _ => true
  | _ => false

/-- The kind, of a number type. -/
def numberKind? : Ty → Option NumberKind
  | number kind => some kind
  | _ => none

/-- An argument of type `argument` may be passed for a parameter of type `param`: the types are the
same, or both numeric, as numeric arguments are brought to the kind of the parameter. -/
def accepts (param argument : Ty) : Bool :=
  param = argument || (param.isNumeric && argument.isNumeric)

/-- The type argument for a slot: the one at the position of the first parameter of that name. -/
def argumentFor? (params : List String) (args : List Ty) (name : String) : Option Ty :=
  ((params.zip args).find? fun (param, _) => param = name).map (·.2)

/-- Replaces every slot by its type argument, all at once. A slot without one stays. -/
def substitute (params : List String) (args : List Ty) : Ty → Ty
  | generic name => (argumentFor? params args name).getD (generic name)
  | list element => list (element.substitute params args)
  | ty => ty

/-- The name of a type. -/
def text : Ty → String
  | void => "void"
  | bool => "bool"
  | string => "string"
  | number kind => kind.keyword
  | enum type => type.name
  | object name | generic name => name
  | list element => "List<" ++ element.text ++ ">"

/-- The names of types, with commas between them. -/
def texts (types : List Ty) : String := ", ".intercalate (types.map text)

end Ty

end HostExpr
