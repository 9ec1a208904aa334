-- SUMMARY: What the operators do on doubles.
import HostExpr.Expr
import HostExpr.Floating.Integral

/-!
# The meaning of the operators

The operators `+ - * / %` are those of doubles. The bitwise operators and the shifts work on signed
words of 32 bits: operands become words (`Floating.toWord`), and the result becomes a double again.
A shift counts modulo 32, and a shift to the right keeps the sign. Comparisons are those of doubles,
so NaN is unequal to everything and in no order.
-/

namespace HostExpr

namespace ArithmeticOp

/-- An operation on words, on doubles. -/
def onWords (f : Int32 → Int32 → Int32) (x y : Float) : Float :=
  Floating.ofWord (f (Floating.toWord x) (Floating.toWord y))

/-- The bits of the word of a double, all inverted. -/
def invert (x : Float) : Float := Floating.ofWord (~~~ Floating.toWord x)

/-- The operation on two operands. -/
def apply (op : ArithmeticOp) (x y : Float) : Float :=
  match op with
  | add => x + y
  | sub => x - y
  | mul => x * y
  | div => x / y
  | mod => Floating.remainder x y
  | bitAnd => onWords (· &&& ·) x y
  | bitOr => onWords (· ||| ·) x y
  | bitXor => onWords (· ^^^ ·) x y
  | shiftLeft => onWords (· <<< ·) x y
  | shiftRight => onWords (· >>> ·) x y
  | complement => invert x

/-- The operation on one operand, of the operators that have one. -/
def applyUnary? : ArithmeticOp → Option (Float → Float)
  | sub => some fun x => -x
  | complement => some invert
  | _ => none

end ArithmeticOp

/-- The truth of a comparison. -/
def ComparisonOp.holds (op : ComparisonOp) (x y : Float) : Bool :=
  match op with
  | equal => x == y
  | notEqual => x != y
  | less => x < y
  | lessEqual => x ≤ y
  | greaterEqual => y ≤ x
  | greater => y < x

end HostExpr
