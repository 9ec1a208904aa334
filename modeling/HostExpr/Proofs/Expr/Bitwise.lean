-- SUMMARY: Bitwise operators compute with words of 32 bits, however they are nested.
import HostExpr.Proofs.Expr.Modes
import HostExpr.Proofs.Floating.Integers

/-!
# Bitwise operators

Each bitwise operator takes its operands from doubles to words and its result back to a double. A double
holds every word (`toWord_ofInt`), so between two operators nothing is lost: an expression of nested
operators truncates the numbers at its leaves and computes with words from there on.

The operations on words are stated here with integers: a shift to the left multiplies by a power of two and
keeps the low bits, a shift to the right divides and rounds down, and both count modulo 32.
-/

namespace HostExpr

open Floating

/-! ## Words -/

/-- A word comes back from the double of its integer. -/
theorem Floating.toWord_ofInt (w : BitVec 32) : (toWord (ofInt w.toInt)).toBitVec = w := by
  have hleast : Int32.minValue.toInt ≤ w.toInt := (Int32.ofBitVec w).minValue_le_toInt
  have hgreatest : w.toInt ≤ Int32.maxValue.toInt := (Int32.ofBitVec w).toInt_le
  have hmin : Int32.minValue.toInt = -2147483648 := rfl
  have hmax : Int32.maxValue.toInt = 2147483647 := rfl
  unfold toWord
  rw [truncate_ofInt (by omega) hleast hgreatest]
  exact congrArg Int32.toBitVec (Int32.ofInt_toInt (.ofBitVec w))

/-- The bitwise operators of two operands. -/
inductive BitwiseOp where
  | and
  | or
  | xor
  | shiftLeft
  | shiftRight
  deriving DecidableEq, Repr

namespace BitwiseOp

/-- The operator in an expression. -/
def toArithmetic : BitwiseOp → ArithmeticOp
  | and => .bitAnd
  | or => .bitOr
  | xor => .bitXor
  | shiftLeft => .shiftLeft
  | shiftRight => .shiftRight

/-- How far a shift by the word goes: its integer modulo 32, which is not negative. -/
def distance (y : BitVec 32) : Nat := (y.toInt % 32).toNat

/-- The operation on words. -/
def onWords : BitwiseOp → BitVec 32 → BitVec 32 → BitVec 32
  | and, x, y => x &&& y
  | or, x, y => x ||| y
  | xor, x, y => x ^^^ y
  | shiftLeft, x, y => .ofInt 32 (x.toInt * (Nat.pow 2 (distance y) : Nat))
  | shiftRight, x, y => .ofInt 32 (x.toInt / (Nat.pow 2 (distance y) : Nat))

theorem toNat_smod (y : BitVec 32) : (y.smod 32).toNat = distance y := by
  have hmod : (y.smod 32).toInt = y.toInt % 32 := by
    rw [BitVec.toInt_smod]
    exact Int.fmod_eq_emod_of_nonneg _ (by decide)
  have hlow : 0 ≤ y.toInt % 32 := Int.emod_nonneg _ (by decide)
  rw [BitVec.toInt_eq_toNat_cond] at hmod
  unfold distance
  split at hmod
  · omega
  · omega

theorem shiftLeft_eq (x : BitVec 32) (n : Nat) : x <<< n = .ofInt 32 (x.toInt * (Nat.pow 2 n : Nat)) := by
  have hpow : BitVec.ofNat 32 (Nat.pow 2 n) = BitVec.twoPow 32 n := by
    apply BitVec.eq_of_toNat_eq
    rw [BitVec.toNat_ofNat, BitVec.toNat_twoPow]
    rfl
  rw [BitVec.ofInt_mul, BitVec.ofInt_toInt, BitVec.ofInt_natCast, hpow, BitVec.shiftLeft_eq_mul_twoPow]

theorem sshiftRight_eq (x : BitVec 32) (n : Nat) :
    x.sshiftRight n = .ofInt 32 (x.toInt / (Nat.pow 2 n : Nat)) := by
  unfold BitVec.sshiftRight
  rw [Int.shiftRight_eq_div_pow]
  rfl

/-- An operator works on the words of its operands. -/
theorem apply_toArithmetic (op : BitwiseOp) (x y : Float) :
    op.toArithmetic.apply x y =
      ofInt (op.onWords (toWord x).toBitVec (toWord y).toBitVec).toInt := by
  cases op with
  | and | or | xor => rfl
  | shiftLeft =>
    have hword : (toWord x <<< toWord y).toBitVec =
        onWords .shiftLeft (toWord x).toBitVec (toWord y).toBitVec := by
      rw [Int32.toBitVec_shiftLeft, BitVec.shiftLeft_eq', toNat_smod, shiftLeft_eq]
      rfl
    exact congrArg (fun w : BitVec 32 => ofInt w.toInt) hword
  | shiftRight =>
    have hword : (toWord x >>> toWord y).toBitVec =
        onWords .shiftRight (toWord x).toBitVec (toWord y).toBitVec := by
      rw [Int32.toBitVec_shiftRight, BitVec.sshiftRight_eq', toNat_smod, sshiftRight_eq]
      rfl
    exact congrArg (fun w : BitVec 32 => ofInt w.toInt) hword

end BitwiseOp

/-! ## Nested operators -/

/-- Bitwise operators nested over leaves. Each operator has the type of its expression. -/
inductive Bitwise (α : Type) where
  | leaf (a : α)
  | complement (operand : Bitwise α) (type : Ty)
  | binary (op : BitwiseOp) (left right : Bitwise α) (type : Ty)

namespace Bitwise

variable {σ α β : Type} {m : Type → Type}

/-- There is no operator. -/
def isLeaf : Bitwise α → Bool
  | leaf _ => true
  | complement _ _ | binary _ _ _ _ => false

/-- The leaves evaluated from left to right. -/
def mapM [Monad m] (f : α → m β) : Bitwise α → m (Bitwise β)
  | leaf a => leaf <$> f a
  | complement operand type => do
    return complement (← operand.mapM f) type
  | binary op left right type => do
    let left ← left.mapM f
    let right ← right.mapM f
    return binary op left right type

/-- The expression over the expressions at the leaves. -/
def toExpr : Bitwise (Expr σ) → Expr σ
  | leaf e => e
  | complement operand type => .arithmeticUnary .complement operand.toExpr type
  | binary op left right type => .arithmetic op.toArithmetic left.toExpr right.toExpr type

/-- The word that comes out if the numbers at the leaves are truncated to words and the operators are those
on words. -/
def word : Bitwise Float → BitVec 32
  | leaf x => (toWord x).toBitVec
  | complement operand _ => ~~~operand.word
  | binary op left right _ => op.onWords left.word right.word

/-- The number that comes out if each operator takes doubles and gives a double. -/
def number : Bitwise Float → Float
  | leaf x => x
  | complement operand _ => ArithmeticOp.invert operand.number
  | binary op left right _ => op.toArithmetic.apply left.number right.number

section

variable {operand left right : Bitwise Float} {type : Ty}

/-- The complement of a word comes out if the operand becomes its word. -/
theorem number_complement (h : (toWord operand.number).toBitVec = operand.word) :
    (complement operand type).number = ofInt (complement operand type).word.toInt := by
  show ofInt (~~~(toWord operand.number).toBitVec).toInt = _
  rw [h]
  rfl

/-- An operation on words comes out if the operands become their words. -/
theorem number_binary {op : BitwiseOp} (hleft : (toWord left.number).toBitVec = left.word)
    (hright : (toWord right.number).toBitVec = right.word) :
    (binary op left right type).number = ofInt (binary op left right type).word.toInt := by
  rw [number, op.apply_toArithmetic, hleft, hright]
  rfl

end

/-- The number becomes the word: no operator makes a double of which a word keeps less. -/
theorem toWord_number (t : Bitwise Float) : (toWord t.number).toBitVec = t.word := by
  induction t with
  | leaf x => rfl
  | complement operand type ih => rw [number_complement ih, toWord_ofInt]
  | binary op left right type ihl ihr => rw [number_binary ihl ihr, toWord_ofInt]

/-- If there is an operator, the number is that of the word. -/
theorem number_eq_ofInt {t : Bitwise Float} (h : t.isLeaf = false) : t.number = ofInt t.word.toInt := by
  cases t with
  | leaf x => cases h
  | complement operand type => exact number_complement (toWord_number operand)
  | binary op left right type => exact number_binary (toWord_number left) (toWord_number right)

/-! ## Evaluation -/

variable {bindings : Names Value}

/-- An expression is evaluated by evaluating its leaves. -/
theorem evaluateNumber_toExpr (t : Bitwise (Expr σ)) : t.toExpr.evaluateNumber bindings =
    number <$> t.mapM (Expr.evaluateNumber bindings) := by
  induction t with
  | leaf e =>
    simp only [toExpr, mapM, Functor.map_map]
    exact (id_map _).symm
  | complement operand type ih =>
    rw [toExpr, Expr.evaluateNumber, Expr.answer_arithmeticUnary, ih]
    simp only [mapM, map_eq_pure_bind, bind_assoc, pure_bind]
    rfl
  | binary op left right type ihl ihr =>
    rw [toExpr, Expr.evaluateNumber, Expr.answer_arithmetic, ihl, ihr]
    simp only [mapM, map_eq_pure_bind, bind_assoc, pure_bind]
    rfl

/-- An expression of nested bitwise operators comes to the double of a word: the numbers that its leaves come
to are truncated to words once, and all operators are those on words. It fails only where a leaf fails. -/
theorem evaluateNumber_eq_word {t : Bitwise (Expr σ)} (h : t.isLeaf = false) (bindings : Names Value) :
    t.toExpr.evaluateNumber bindings =
      (fun numbers => ofInt numbers.word.toInt) <$> t.mapM (Expr.evaluateNumber bindings) := by
  rw [evaluateNumber_toExpr]
  cases t with
  | leaf e => cases h
  | complement operand type =>
    simp only [mapM, map_bind, map_pure]
    exact bind_congr fun numbers => congrArg pure (number_eq_ofInt rfl)
  | binary op left right type =>
    simp only [mapM, map_bind, map_pure]
    exact bind_congr fun numbers => bind_congr fun numbers' => congrArg pure (number_eq_ofInt rfl)

/-- The expression `~5.9 >> n`. -/
def shiftedComplement : Bitwise (Expr Unit) :=
  binary .shiftRight (complement (leaf (.number 5.9 .double)) .double) (leaf (.var "n" (.number .int)))
    .double

/-- A shift by -31 is a shift by 1. -/
theorem evaluateNumber_eq_word_shift : shiftedComplement.isLeaf = false ∧
    shiftedComplement.toExpr.evaluateNumber
      (Names.ofList [("n", .number (.ofInt .int (-31)))]) () = (.ok (ofInt (-3)), ()) := by
  have hword : BitwiseOp.shiftRight.onWords (~~~(toWord 5.9).toBitVec) (toWord (ofInt (-31))).toBitVec =
      .ofInt 32 (-3) := by decide +kernel
  refine ⟨rfl, ?_⟩
  rw [evaluateNumber_eq_word rfl]
  exact congrArg (fun w : BitVec 32 => (Except.ok (ofInt w.toInt), ())) hword

end Bitwise

end HostExpr
