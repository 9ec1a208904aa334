-- SUMMARY: Numbers of an exact kind, and conversions between kinds.
import HostExpr.Number.Kind
import HostExpr.Floating.Exact
import HostExpr.Decimal.Shortest

/-!
# Numbers

A number has an exact kind: an integer of a given width and sign, a single or a double. Expressions
compute with doubles; `toDouble` takes a number into that world and `ofDouble` brings a result back
as a number of a wanted kind. `cast` goes from kind to kind directly: integers wrap around, so no
digit of a 64-bit integer is lost on the way.
-/

namespace HostExpr

/-- A number of an exact kind. An integer is the word that represents it. -/
inductive Number where
  | integer (kind : IntegerKind) (word : BitVec kind.width)
  | float (x : Float32)
  | double (x : Float)
  deriving DecidableEq

/-- The integer that a word of the kind represents. -/
def IntegerKind.toInt (k : IntegerKind) (word : BitVec k.width) : Int :=
  if k.isSigned then word.toInt else word.toNat

namespace Number

/-- The integer of the kind that agrees with `n` in its low bits. -/
def ofInt (k : IntegerKind) (n : Int) : Number := .integer k (BitVec.ofInt k.width n)

/-- The kind of a number. -/
def kind : Number → NumberKind
  | integer k _ => .integer k
  | float _ => .float
  | double _ => .double

/-- The number as a double, rounded if a 64-bit integer needs more digits than a double has. -/
def toDouble : Number → Float
  | integer k word => Floating.ofInt (k.toInt word)
  | float x => Floating.widen x
  | double x => x

/-- A double as a number of the given kind. Integer kinds drop the fraction and saturate at their
bounds, and NaN becomes zero; a single is the nearest one. -/
def ofDouble (kind : NumberKind) (x : Float) : Number :=
  match kind with
  | .integer k => ofInt k (Floating.truncate k.least k.greatest x)
  | .float => .float (Floating.narrow x)
  | .double => .double x

/-- The number in another kind. Between integer kinds the low bits are kept; a floating-point
number, or a floating-point target, goes through a double. -/
def cast (n : Number) (kind : NumberKind) : Number :=
  match n, kind with
  | integer k word, .integer target => ofInt target (k.toInt word)
  | n, kind => ofDouble kind n.toDouble

/-- The text of a number: digits only for an integer, the shortest decimal for another. -/
def text : Number → String
  | integer k word => Decimal.ofInt (k.toInt word)
  | float x => Decimal.ofSingle x
  | double x => Decimal.ofDouble x

/-- Equality of numbers: the same kind and the same value. NaN equals nothing, and the two zeros
are equal. -/
def equal : Number → Number → Bool
  | integer k word, integer k' word' => k = k' && k.toInt word = k'.toInt word'
  | float x, float y => x == y
  | double x, double y => x == y
  | _, _ => false

/-- Materialising a double gives a number of the wanted kind. -/
@[simp] theorem kind_ofDouble (kind : NumberKind) (x : Float) :
    (ofDouble kind x).kind = kind := by
  cases kind <;> rfl

/-- A cast gives a number of the wanted kind. -/
@[simp] theorem kind_cast (n : Number) (kind : NumberKind) : (n.cast kind).kind = kind := by
  unfold cast
  split
  · rfl
  · exact kind_ofDouble _ _

end Number

end HostExpr
