-- SUMMARY: The kinds of number a value, a literal or a parameter can have.

/-!
# Kinds of number

Eight kinds of integer, told apart by width and sign, and two of floating-point number. A kind is
named by its keyword; a literal selects one of six of them by its suffix.
-/

namespace HostExpr

/-! ## Integer kinds -/

/-- The kinds of integer. -/
inductive IntegerKind where
  | sbyte
  | byte
  | short
  | ushort
  | int
  | uint
  | long
  | ulong
  deriving DecidableEq, Repr

namespace IntegerKind

/-- The number of bits. -/
def width : IntegerKind → Nat
  | sbyte | byte => 8
  | short | ushort => 16
  | int | uint => 32
  | long | ulong => 64

/-- The kind has negative numbers. -/
def isSigned : IntegerKind → Bool
  | sbyte | short | int | long => true
  | byte | ushort | uint | ulong => false

/-- The least number of the kind. -/
def least (k : IntegerKind) : Int := if k.isSigned then -(Nat.pow 2 (k.width - 1) : Nat) else 0

/-- The greatest number of the kind. -/
def greatest (k : IntegerKind) : Int :=
  (Nat.pow 2 (if k.isSigned then k.width - 1 else k.width) : Nat) - 1

/-- The name of the kind. -/
def keyword : IntegerKind → String
  | sbyte => "sbyte"
  | byte => "byte"
  | short => "short"
  | ushort => "ushort"
  | int => "int"
  | uint => "uint"
  | long => "long"
  | ulong => "ulong"

end IntegerKind

/-! ## Number kinds -/

/-- The kinds of number: an integer kind, a single or a double. -/
inductive NumberKind where
  | integer (kind : IntegerKind)
  | float
  | double
  deriving DecidableEq, Repr

namespace NumberKind

/-- The kind of a literal without a suffix. -/
abbrev int : NumberKind := .integer .int

/-- Every kind, integers first and from narrow to wide. -/
def all : List NumberKind :=
  [.integer .sbyte, .integer .byte, .integer .short, .integer .ushort, .integer .int,
    .integer .uint, .integer .long, .integer .ulong, .float, .double]

/-- The name of the kind. -/
def keyword : NumberKind → String
  | integer k => k.keyword
  | float => "float"
  | double => "double"

/-- The kind is a floating-point one. -/
def isFloating : NumberKind → Bool
  | integer _ => false
  | float | double => true

/-- The suffix that a literal of the kind is written with, if literals can have the kind. -/
def literalSuffix : NumberKind → Option String
  | integer .int => some ""
  | integer .uint => some "ui"
  | integer .long => some "l"
  | integer .ulong => some "ul"
  | float => some "f"
  | double => some "d"
  | integer .sbyte | integer .byte | integer .short | integer .ushort => none

/-- The kind that a suffix selects. Letters are matched exactly, and `i` spells the kind that no
suffix selects too. -/
def ofSuffix? (suffix : String) : Option NumberKind :=
  match suffix with
  | "" | "i" => some (integer .int)
  | "ui" => some (integer .uint)
  | "l" => some (integer .long)
  | "ul" => some (integer .ulong)
  | "f" => some float
  | "d" => some double
  | _ => none

/-- A literal written with its kind's suffix has that kind. -/
theorem ofSuffix?_literalSuffix {k : NumberKind} {suffix : String}
    (h : k.literalSuffix = some suffix) : ofSuffix? suffix = some k := by
  unfold literalSuffix at h
  split at h <;> simp_all [ofSuffix?] <;> subst h <;> rfl

end NumberKind

end HostExpr
