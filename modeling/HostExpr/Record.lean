-- SUMMARY: The records that compiling and evaluating leave in the log.

/-!
# Log records

Compiling and evaluating say what they do in records of two levels. A result that comes with its
records is `Logged`: the records are there whether the result is a success or not, in the order in
which they arose.
-/

namespace HostExpr

/-- How detailed a record is. -/
inductive Level where
  | debug
  | trace
  deriving DecidableEq, Repr

/-- The name of a level. -/
def Level.text : Level → String
  | debug => "DEBUG"
  | trace => "TRACE"

/-- A record of the log. -/
structure Record where
  level : Level
  message : String
  deriving DecidableEq, Repr

/-- The line that shows a record. -/
def Record.text (r : Record) : String := "[" ++ r.level.text ++ "] " ++ r.message

/-- A result with the records that arose on the way to it. -/
structure Logged (α : Type) where
  log : List Record
  value : α

end HostExpr
