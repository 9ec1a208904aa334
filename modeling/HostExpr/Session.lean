-- SUMMARY: Sessions: what the names in an expression stand for.
import HostExpr.Catalog
import HostExpr.Names
import HostExpr.Prelude

/-!
# Sessions

A session says what names mean while an expression is compiled: variables and types by name,
functions by name, the members and methods of each type, and the helper types whose extension methods
are looked at, in order. The keyword of every kind of number, `bool` and `string` name types from the
start.

The members and methods come from a catalog of declarations, and values are converted by the one table
of conversions (`convert`). A host with an object model of its own, which would answer by itself what is
declared on a type or how to convert a value, is not modelled.
-/

namespace HostExpr

/-- What the names in an expression stand for. -/
structure Session (σ : Type) where
  vars : Names Ty
  types : Names Ty
  functions : Names (HostFunction σ)
  /-- The types whose extension methods apply, in the order in which they are searched. -/
  helpers : List Ty
  catalog : Catalog σ

namespace Session

variable {σ : Type}

/-- The types that have a name in every session. -/
def keywords : Names Ty :=
  .ofList <| ("bool", .bool) :: ("string", .string) ::
    NumberKind.all.map fun kind => (kind.keyword, .number kind)

/-- The session that knows nothing but keywords and the members and methods of a catalog. -/
def ofCatalog (catalog : Catalog σ) : Session σ where
  vars := ∅
  types := keywords
  functions := ∅
  helpers := []
  catalog := catalog

/-- The session that knows nothing but keywords. -/
def new : Session σ := ofCatalog ∅

instance : Inhabited (Session σ) := ⟨new⟩

/-- Declares a variable. -/
def addVariable (s : Session σ) (name : String) (type : Ty) : Session σ :=
  { s with vars := s.vars.insert name type }

/-- Gives a type a name. -/
def addType (s : Session σ) (name : String) (type : Ty) : Session σ :=
  { s with types := s.types.insert name type }

/-- Makes a function callable by its name. -/
def addFunction (s : Session σ) (f : HostFunction σ) : Session σ :=
  { s with functions := s.functions.insert f.name f }

/-- Adds a helper type, to be searched last. -/
def addHelper (s : Session σ) (type : Ty) : Session σ := { s with helpers := s.helpers ++ [type] }

/-- Makes the functions of the prelude callable. -/
def addPrelude (s : Session σ) : Session σ := Prelude.functions.foldl addFunction s

end Session

end HostExpr
