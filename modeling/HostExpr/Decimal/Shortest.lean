-- SUMMARY: The shortest decimal that reads back as a given floating-point number, and its text.
import HostExpr.Floating.Exact
import HostExpr.Decimal.Integer

/-!
# Shortest decimals

A finite binary number is the nearest one to every real in an interval around it. Its decimal is
the first point that lies in the interval when the grids of multiples of `10 ^ k` are tried from
coarse to fine; on each grid only the two neighbours of the number can be the closest. Of two hits
the nearer is taken, and of two at the same distance the larger. All of it is integer arithmetic.

The text is positional: no exponent, no point without a fraction, zeros as far as needed.
-/

namespace HostExpr.Decimal

/-! ## Digits -/

/-- A binary number in quarters of its last place, with the interval of reals that round to it.
The value is `mid * 2 ^ exponent`. -/
structure Interval where
  low : Nat
  mid : Nat
  high : Nat
  exponent : Int
  /-- The two ends round to the number too. -/
  closed : Bool

/-- The interval of `mantissa * 2 ^ exponent`. Below a least mantissa the numbers lie twice as
dense, so the lower end is at half the distance; the ends belong to it if the mantissa is even. -/
def Interval.ofBinary (leastMantissa mantissa : Nat) (exponent : Int) : Interval where
  low := 4 * mantissa - if mantissa = leastMantissa then 1 else 2
  mid := 4 * mantissa
  high := 4 * mantissa + 2
  exponent := exponent - 2
  closed := mantissa % 2 == 0

/-- The decimal `digits * 10 ^ exponent`. -/
structure Digits where
  digits : Nat
  exponent : Int
  deriving DecidableEq, Repr

/-- The neighbours of the number on the grid of multiples of `10 ^ k`, tested against its
interval. -/
def Interval.onGrid (i : Interval) (k : Int) : Option Digits :=
  -- both sides of each comparison in units of `2 ^ min 0 i.exponent * 10 ^ min 0 k`
  let scale := Nat.pow 2 i.exponent.toNat * Nat.pow 10 (-k).toNat
  let step := Nat.pow 2 (-i.exponent).toNat * Nat.pow 10 k.toNat
  let below := i.mid * scale / step
  let part := i.mid * scale % step
  let belowHits :=
    if i.closed then i.low * scale ≤ below * step else i.low * scale < below * step
  let aboveHits :=
    if i.closed then (below + 1) * step ≤ i.high * scale else (below + 1) * step < i.high * scale
  if belowHits ∧ (¬ aboveHits ∨ 2 * part < step) then
    some ⟨below, k⟩
  else if aboveHits then
    some ⟨below + 1, k⟩
  else
    none

/-- A power of ten above every number below `2 ^ bits`. -/
def gridAbove (bits : Int) : Int := bits * 30103 / 100000 + 2

/-- The first hit from the coarsest grid on. Twenty-five grids reach past the precision of a
double. -/
def Interval.shortest (i : Interval) : Digits :=
  let top := gridAbove (i.mid.log2 + 1 + i.exponent)
  ((List.range 25).findSome? fun (n : Nat) => i.onGrid (top - n)).getD ⟨0, 0⟩

/-! ## Text -/

/-- The decimal written out without an exponent. -/
def Digits.positional (d : Digits) : List Char :=
  let ds := Decimal.digits d.digits
  let places := (-d.exponent).toNat
  if places = 0 then
    ds ++ List.replicate d.exponent.toNat '0'
  else if places < ds.length then
    ds.take (ds.length - places) ++ '.' :: ds.drop (ds.length - places)
  else
    '0' :: '.' :: List.replicate (places - ds.length) '0' ++ ds

/-- The text of a binary number whose mantissas have the given least normal value. -/
def text (leastMantissa : Nat) : Float.Model.UnpackedFloat → String
  | .notANumber => "NaN"
  | .infinity sign => String.ofList (signed (sign == .negative) ['i', 'n', 'f'])
  | .zero sign => String.ofList (signed (sign == .negative) ['0'])
  | .finite sign mantissa exponent _ =>
    let shortest := (Interval.ofBinary leastMantissa mantissa exponent).shortest
    String.ofList (signed (sign == .negative) shortest.positional)

/-- The text of a double. -/
def ofDouble (x : Float) : String := text (Nat.pow 2 52) (Floating.content x)

/-- The text of a single, with the digits that tell singles apart. -/
def ofSingle (x : Float32) : String := text (Nat.pow 2 23) (Floating.content32 x)

end HostExpr.Decimal
