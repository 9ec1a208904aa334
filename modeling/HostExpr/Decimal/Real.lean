-- SUMMARY: Reading floating-point numbers from text.
import HostExpr.Decimal.Integer

/-!
# Reading reals

A real is an optional sign, then a word for an infinity or NaN in any case of letters, or digits
with an optional point among or around them and an optional exponent. Reading takes the whole text.
The value is rounded once, to the nearest double or single, ties to the even mantissa; what is too
large is an infinity. Literals and conversions read doubles; singles are read where a host gives its
own values as texts.
-/

namespace HostExpr.Decimal

/-- The exponent after the digits, zero if there is none. -/
def exponent? : List Char → Option Int
  | [] => some 0
  | c :: rest => if c = 'e' ∨ c = 'E' then integer? rest else none

/-- Digits, an optional point with digits after it, and an optional exponent. The number is the
first part of the result times ten to the power of the second. -/
def scientific? (cs : List Char) : Option (Nat × Int) :=
  let whole := cs.takeWhile isDigit
  let (fraction, tail) := match cs.dropWhile isDigit with
    | '.' :: rest => (rest.takeWhile isDigit, rest.dropWhile isDigit)
    | rest => ([], rest)
  if whole = [] ∧ fraction = [] then
    none
  else
    (exponent? tail).map fun e => (ofDigits (whole ++ fraction), e - fraction.length)

/-- The double nearest to `mantissa * 10 ^ exponent`. -/
def nearest (mantissa : Nat) (exponent : Int) : Float := .ofModel (.ofScientific mantissa exponent)

/-- The single nearest to `mantissa * 10 ^ exponent`. -/
def nearestSingle (mantissa : Nat) (exponent : Int) : Float32 :=
  .ofModel (.ofScientific mantissa exponent)

/-- An infinity or NaN, from its word. -/
def special? (cs : List Char) : Option Float.Model.UnpackedFloat :=
  let word := String.ofList (cs.map Char.toLower)
  if word = "inf" ∨ word = "infinity" then some (.infinity .positive)
  else if word = "nan" then some .notANumber
  else none

/-- A double, from the whole of a text. -/
def double? (cs : List Char) : Option Float :=
  let (negative, rest) := splitSign cs
  let magnitude := match special? rest with
    | some x => some (Float.ofModel (.pack x))
    | none => (scientific? rest).map fun (mantissa, exponent) => nearest mantissa exponent
  magnitude.map fun x => if negative then -x else x

/-- A single, from the whole of a text. -/
def single? (cs : List Char) : Option Float32 :=
  let (negative, rest) := splitSign cs
  let magnitude := match special? rest with
    | some x => some (Float32.ofModel (.pack x))
    | none => (scientific? rest).map fun (mantissa, exponent) => nearestSingle mantissa exponent
  magnitude.map fun x => if negative then -x else x

end HostExpr.Decimal
