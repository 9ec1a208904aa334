-- SUMMARY: Converting a value to a type, as casts and bindings on the command line do.
import HostExpr.Value
import HostExpr.Text.Blank
import HostExpr.Decimal.Real

/-!
# Conversion of values

* Any value is one of an object or generic type.
* The absent value is also one of a text or list type, and of no other.
* Numbers convert between kinds (`Number.cast`); values of enumerations and truth values count as
  integers, and text is read as a number.
* Truth values come from numbers, which are true unless zero, and from the words `true` and
  `false` in any case of letters.
* Numbers, truth values and values of enumerations have a text.
* Values of enumerations come from integers, from other enumerations, and from text that names a
  member or is an integer.

Blanks around a text that is read do not matter. A failure is a text that says what is wrong.
-/

namespace HostExpr.Conversion

/-- Reads a number of the kind. An integer kind takes a 64-bit integer as it is; any other text goes
through a double. -/
def number (text : String) (kind : NumberKind) : Except String Number :=
  let text := Text.trim text
  match kind.isFloating, Decimal.int64? text.toList with
  | false, some n => .ok ((Number.ofInt .long n.toInt).cast kind)
  | _, _ =>
    match Decimal.double? text.toList with
    | some x => .ok (Number.ofDouble kind x)
    | none => .error ("'" ++ text ++ "' is not a number")

/-- Reads a truth value. -/
def bool (text : String) : Except String Bool :=
  let word := String.ofList ((Text.trim text).toList.map Char.toLower)
  if word = "true" then .ok true
  else if word = "false" then .ok false
  else .error "not a boolean"

/-- Reads a value of an enumeration: the name of a member, or an integer. -/
def enumValue (text : String) (type : EnumType) : Except String EnumValue :=
  let text := Text.trim text
  match type.valueOf? text <|> Decimal.int64? text.toList with
  | some value => .ok ⟨type, value⟩
  | none => .error ("'" ++ text ++ "' is not a member of " ++ type.name)

/-- A number as a value of an enumeration: its integer part, within 64 bits. -/
def enumOfDouble (type : EnumType) (x : Float) : EnumValue :=
  ⟨type, .ofInt (Floating.truncate Int64.minValue.toInt Int64.maxValue.toInt x)⟩

/-- A number is false if it is zero. -/
def truth (n : Number) : Bool := n.toDouble != 0

/-- The text that a value of an enumeration becomes: its name, or else its integer. -/
def enumText (v : EnumValue) : String := v.name?.getD (Decimal.ofInt v.value.toInt)

end HostExpr.Conversion

namespace HostExpr

/-- The value as one of the target type, or what is wrong with it. -/
def convert (value : Value) (target : Ty) : Except String Value :=
  match target, value with
  | .object _, value | .generic _, value => .ok value
  | .string, .null | .list _, .null => .ok .null
  | _, .null => .error "null has no value"
  | .number kind, .number n => .ok (.number (n.cast kind))
  | .number kind, .enum v => .ok (.number ((Number.ofInt .long v.value.toInt).cast kind))
  | .number kind, .bool b => .ok (.number ((Number.ofInt .int b.toInt).cast kind))
  | .number kind, .string s => .number <$> Conversion.number s kind
  | .bool, .bool b => .ok (.bool b)
  | .bool, .number n => .ok (.bool (Conversion.truth n))
  | .bool, .string s => .bool <$> Conversion.bool s
  | .string, .bool b => .ok (.string (Value.boolText b))
  | .string, .number n => .ok (.string n.text)
  | .string, .string s => .ok (.string s)
  | .string, .enum v => .ok (.string (Conversion.enumText v))
  | .enum type, .enum v =>
    if v.type = type then .ok (.enum v)
    else .ok (.enum (Conversion.enumOfDouble type (Floating.ofInt v.value.toInt)))
  | .enum type, .number n => .ok (.enum (Conversion.enumOfDouble type n.toDouble))
  | .enum type, .string s => .enum <$> Conversion.enumValue s type
  | .list _, .list items => .ok (.list items)
  | _, _ => .error "no conversion exists"

end HostExpr
