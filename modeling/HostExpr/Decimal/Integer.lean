-- SUMMARY: The decimal text of integers, and reading it back.

/-!
# Decimal integers

An integer is written as its digits, with a minus before them if it is negative. Reading is a little
wider: a plus may stand before the digits, and leading zeros are taken. It takes the whole text, with
no blanks and no digits left over.
-/

namespace HostExpr.Decimal

/-! ## Digits -/

/-- A decimal digit. -/
def isDigit (c : Char) : Bool := '0' ≤ c && c ≤ '9'

/-- The value of a digit. -/
def digitValue (c : Char) : Nat := c.toNat - '0'.toNat

/-- The number that a list of digits stands for. -/
def ofDigits (ds : List Char) : Nat := ds.foldl (fun n c => 10 * n + digitValue c) 0

/-- The digits of a natural number, without leading zeros. -/
def digits (n : Nat) : List Char := Nat.toDigits 10 n

/-! ## Writing -/

/-- A minus before the text of a negative number, and nothing before another. -/
def signed (negative : Bool) (text : List Char) : List Char :=
  if negative then '-' :: text else text

/-- The characters of an integer. -/
def integerChars (n : Int) : List Char := signed (n < 0) (digits n.natAbs)

/-- The text of an integer. -/
def ofInt (n : Int) : String := String.ofList (integerChars n)

example : ofInt 120 = "120" ∧ ofInt (-7) = "-7" ∧ ofInt 0 = "0" := by decide +kernel

/-! ## Reading -/

/-- Takes an optional sign off: whether the number is negative, and what is left. -/
def splitSign : List Char → Bool × List Char
  | '-' :: rest => (true, rest)
  | '+' :: rest => (false, rest)
  | rest => (false, rest)

/-- A natural number, from a text of digits. -/
def natural? (cs : List Char) : Option Nat :=
  if cs ≠ [] ∧ cs.all isDigit then some (ofDigits cs) else none

/-- An integer, from an optional sign and digits. -/
def integer? (cs : List Char) : Option Int :=
  let (negative, rest) := splitSign cs
  (natural? rest).map fun n => if negative then -(n : Int) else n

/-- An integer that fits in a signed word of 64 bits. -/
def int64? (cs : List Char) : Option Int64 :=
  (integer? cs).bind fun n =>
    if Int64.minValue.toInt ≤ n ∧ n ≤ Int64.maxValue.toInt then some (.ofInt n) else none

example : integer? "+007".toList = some 7 ∧ integer? "-".toList = none ∧
    int64? "9223372036854775808".toList = none := by decide +kernel

end HostExpr.Decimal
