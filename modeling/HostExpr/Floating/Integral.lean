-- SUMMARY: Rounding a double to an integral double, and the remainder of a division.
import HostExpr.Floating.Exact

/-!
# Integral doubles and remainders

`toIntegral` rounds a double to one without a fraction in one of four directions; the sign stays,
also on a zero. `remainder` is what is left of a division whose quotient is rounded toward zero:
it has the sign of the dividend and is exact.
-/

namespace HostExpr.Floating

/-- Where a value between two integers goes. -/
inductive Direction where
  | down
  | up
  | towardZero
  | toEven
  deriving DecidableEq, Repr

/-- The magnitude that `whole + part / unit` rounds to, for a value that is negative or not. -/
def Direction.round (direction : Direction) (negative : Bool) (whole part unit : Nat) : Nat :=
  match direction with
  | .towardZero => whole
  | .down => if negative && part != 0 then whole + 1 else whole
  | .up => if !negative && part != 0 then whole + 1 else whole
  | .toEven =>
    match compare (2 * part) unit with
    | .lt => whole
    | .eq => whole + whole % 2
    | .gt => whole + 1

/-- The double rounded to one without a fraction. -/
def toIntegral (direction : Direction) (x : Float) : Float :=
  match content x with
  | .finite sign mantissa exponent _ =>
    if 0 ≤ exponent then
      x
    else
      let unit := Nat.pow 2 (-exponent).toNat
      nearest sign
        (direction.round (sign == .negative) (mantissa / unit) (mantissa % unit) unit) 0
  | _ => x

/-- The remainder of `x / y`, with the sign of `x`; NaN if `x` is infinite or `y` is zero. -/
def remainder (x y : Float) : Float :=
  match content x, content y with
  | .notANumber, _ | _, .notANumber | .infinity _, _ | _, .zero _ => .ofModel (.pack .notANumber)
  | .zero _, _ | _, .infinity _ => x
  | .finite sign m₁ e₁ _, .finite _ m₂ e₂ _ =>
    let e := min e₁ e₂
    nearest sign ((m₁ <<< (e₁ - e).toNat) % (m₂ <<< (e₂ - e).toNat)) e

/-- The smaller of two doubles; of a number and NaN, the number. -/
def minimum (x y : Float) : Float := if x.isNaN || y < x then y else x

/-- The larger of two doubles; of a number and NaN, the number. -/
def maximum (x y : Float) : Float := if x.isNaN || x < y then y else x

end HostExpr.Floating
