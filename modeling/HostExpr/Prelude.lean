-- SUMMARY: The functions on doubles that every host can offer.
import HostExpr.Host.Function
import HostExpr.Floating.Integral

/-!
# The prelude

Ten functions on doubles. A body reads its arguments in order and needs each of them; more than it
needs do not matter. The smaller and the larger of a number and NaN is the number. `clamp` applies
its lower bound first, so that the upper one wins where they cross; `round` takes a tie to the even
neighbour.
-/

namespace HostExpr.Prelude

variable {σ : Type}

/-- The argument at a position, as a double. -/
def argument (args : List Value) (i : Nat) : Except String Float :=
  match args[i]? with
  | some v => v.toDouble.mapError EvalError.message
  | none => .error "missing argument"

/-- A function of doubles to a double, which takes the given number of them. -/
def ofDoubles (name : String) (arity : Nat) (f : (Nat → Except String Float) → Except String Float) :
    HostFunction σ where
  name := name
  params := List.replicate arity .double
  returns := .double
  call := fun args => HostM.ofExcept ((f (argument args)).map fun x => .number (.double x))

/-- A function of one double. -/
def unary (name : String) (f : Float → Float) : HostFunction σ :=
  ofDoubles name 1 fun arg => do return f (← arg 0)

/-- A function of two doubles. -/
def binary (name : String) (f : Float → Float → Float) : HostFunction σ :=
  ofDoubles name 2 fun arg => do return f (← arg 0) (← arg 1)

/-- A function of three doubles. -/
def ternary (name : String) (f : Float → Float → Float → Float) : HostFunction σ :=
  ofDoubles name 3 fun arg => do return f (← arg 0) (← arg 1) (← arg 2)

/-- The number moved into a range; the upper bound wins over the lower. -/
def clamp (x low high : Float) : Float := Floating.minimum (Floating.maximum x low) high

/-- The functions of the prelude. -/
def functions : List (HostFunction σ) :=
  [unary "abs" Float.abs,
    unary "sqrt" Float.sqrt,
    unary "floor" (Floating.toIntegral .down),
    unary "ceil" (Floating.toIntegral .up),
    unary "round" (Floating.toIntegral .toEven),
    unary "trunc" (Floating.toIntegral .towardZero),
    binary "min" Floating.minimum,
    binary "max" Floating.maximum,
    binary "pow" Float.pow,
    ternary "clamp" clamp]

end HostExpr.Prelude
