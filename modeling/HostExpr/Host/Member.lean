-- SUMMARY: Properties and fields of host types.
import HostExpr.Host.Action

/-!
# Members

A member is a readable property or field of a host type. The two are read the same way. A static
member is read without a target, and belongs to the type; any other needs one.
-/

namespace HostExpr

/-- The two sorts of member. -/
inductive MemberKind where
  | property
  | field
  deriving DecidableEq, Repr

/-- The name of a sort, for the log. -/
def MemberKind.text : MemberKind → String
  | property => "Property"
  | field => "Field"

/-- A member: its name and type, and how it is read. -/
structure Member (σ : Type) where
  name : String
  kind : MemberKind
  type : Ty
  isStatic : Bool
  /-- Reads the member of a target, or the static one. -/
  read : Option Value → HostM σ Value

namespace Member

variable {σ τ : Type}

/-- A property of an instance. -/
def property (name : String) (type : Ty) (getter : Value → HostM σ Value) : Member σ where
  name := name
  kind := .property
  type := type
  isStatic := false
  read := HostM.onTarget getter

/-- A field of an instance. -/
def field (name : String) (type : Ty) (getter : Value → HostM σ Value) : Member σ :=
  { property name type getter with kind := .field }

/-- A property of the type itself. -/
def static (name : String) (type : Ty) (getter : HostM σ Value) : Member σ where
  name := name
  kind := .property
  type := type
  isStatic := true
  read := fun _ => getter

/-- A property of the instances of a class. -/
def propertyOf (c : HostClass σ τ) (name : String) (type : Ty) (getter : τ → HostM σ Value) :
    Member σ :=
  property name type fun target => do getter (← HostM.instanceOf c target)

end Member

end HostExpr
