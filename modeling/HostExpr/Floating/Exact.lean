-- SUMMARY: Exact conversions between doubles, singles and integers.

/-!
# Exact conversions of floating-point numbers

A floating-point number is NaN, an infinity, a zero, or a sign, a mantissa and a power of two. Every
conversion here looks at that content, works in integers, and rounds at most once:

* an integer becomes the nearest double, ties to the even mantissa;
* a double becomes the nearest single (`narrow`), and a single the double of the same value
  (`widen`);
* a double becomes an integer by dropping its fraction and moving a result outside the wanted range
  to the nearer bound (`truncate`); NaN becomes zero.
-/

namespace HostExpr.Floating

open Float.Model (Format UnpackedFloat)
open Float.Model.UnpackedFloat (Sign)

/-! ## Content -/

/-- What a double holds: NaN, an infinity, a zero, or a sign, a mantissa and an exponent. -/
def content (x : Float) : UnpackedFloat := x.toModel.unpack

/-- What a single holds. -/
def content32 (x : Float32) : UnpackedFloat := x.toModel.unpack

/-- The double nearest to `± mantissa * 2 ^ exponent`. -/
def nearest (sign : Sign) (mantissa : Nat) (exponent : Int) : Float :=
  .ofModel (.pack (UnpackedFloat.round Format.binary64 sign mantissa exponent))

/-- The single nearest to `± mantissa * 2 ^ exponent`. -/
def nearest32 (sign : Sign) (mantissa : Nat) (exponent : Int) : Float32 :=
  .ofModel (.pack (UnpackedFloat.round Format.binary32 sign mantissa exponent))

/-! ## Doubles and singles -/

/-- The single nearest to a double; what is too large becomes an infinity. -/
def narrow (x : Float) : Float32 :=
  match content x with
  | .finite sign mantissa exponent _ => nearest32 sign mantissa exponent
  | special => .ofModel (.pack special)

/-- The double with the value of a single. -/
def widen (x : Float32) : Float :=
  match content32 x with
  | .finite sign mantissa exponent _ => nearest sign mantissa exponent
  | special => .ofModel (.pack special)

/-! ## Doubles and integers -/

/-- The double nearest to an integer. -/
def ofInt (n : Int) : Float := .ofModel (.ofInt n)

/-- The integer moved into the range from `least` to `greatest`. -/
def clamp (least greatest n : Int) : Int := max least (min greatest n)

theorem clamp_mem {least greatest : Int} (h : least ≤ greatest) (n : Int) :
    least ≤ clamp least greatest n ∧ clamp least greatest n ≤ greatest := by
  unfold clamp
  omega

/-- The integer part of a double, moved into the range; NaN gives zero. -/
def truncate (least greatest : Int) (x : Float) : Int :=
  clamp least greatest ((content x).toInt least greatest)

/-- A double as a signed word of 32 bits: the fraction is dropped and the bounds saturate. -/
def toWord (x : Float) : Int32 := .ofInt (truncate Int32.minValue.toInt Int32.maxValue.toInt x)

/-- The double with the value of a word. -/
def ofWord (w : Int32) : Float := ofInt w.toInt

/-- A double as a position in a list of the given length, if it is one. -/
def toIndex (x : Float) (length : Nat) : Option Nat :=
  let index := (toWord x).toInt
  if 0 ≤ index ∧ index < length then some index.toNat else none

end HostExpr.Floating
