-- SUMMARY: Methods of host types: instance, static, extension and generic ones.
import HostExpr.Host.Action

/-!
# Methods

A method has typed parameters and a body of the host. An instance method receives a target; a static
one does not. An extension method stands on a helper type and takes what it is called on as its first
argument.

A method with generic parameters is a pattern: its types may mention them as slots. `instantiate`
fills the slots, all at once, and keeps the type arguments for the body.
-/

namespace HostExpr

/-- A method: its signature, and the body of the host. -/
structure Method (σ : Type) where
  name : String
  /-- The types of the parameters; the first one of an extension method is what it extends. -/
  params : List Ty
  returns : Ty
  isStatic : Bool
  isExtension : Bool
  /-- The names of the slots in the other types. -/
  genericParams : List String
  /-- What the slots were filled with. -/
  typeArgs : List Ty
  /-- The body, on a target, arguments and type arguments. -/
  body : Option Value → List Value → List Ty → HostM σ Value

namespace Method

variable {σ τ : Type}

/-! ## Declaring methods -/

/-- A method with a given body, for the four sorts below. -/
def ofBody (name : String) (params : List Ty) (returns : Ty)
    (body : Option Value → List Value → List Ty → HostM σ Value) : Method σ where
  name := name
  params := params
  returns := returns
  isStatic := false
  isExtension := false
  genericParams := []
  typeArgs := []
  body := body

/-- A method of instances. -/
def onInstance (name : String) (params : List Ty) (returns : Ty)
    (body : Value → List Value → HostM σ Value) : Method σ :=
  ofBody name params returns fun target args _ => HostM.onTarget (body · args) target

/-- A method of the instances of a class. -/
def onInstanceOf (c : HostClass σ τ) (name : String) (params : List Ty) (returns : Ty)
    (body : τ → List Value → HostM σ Value) : Method σ :=
  onInstance name params returns fun target args => do body (← HostM.instanceOf c target) args

/-- The method without a target. -/
def toStatic (m : Method σ) : Method σ := { m with isStatic := true }

/-- A method of the type itself. -/
def static (name : String) (params : List Ty) (returns : Ty)
    (body : List Value → HostM σ Value) : Method σ :=
  (ofBody name params returns fun _ args _ => body args).toStatic

/-- A method that extends the type of its first parameter. -/
def extension (name : String) (params : List Ty) (returns : Ty)
    (body : List Value → HostM σ Value) : Method σ :=
  { static name params returns body with isExtension := true }

/-- A method with generic parameters. -/
def generic (name : String) (genericParams : List String) (params : List Ty) (returns : Ty)
    (body : Option Value → List Value → List Ty → HostM σ Value) : Method σ :=
  { ofBody name params returns body with genericParams := genericParams }

/-! ## Using methods -/

/-- The method has generic parameters. -/
def isGeneric (m : Method σ) : Bool := !m.genericParams.isEmpty

/-- The method with its slots filled. -/
def instantiate (m : Method σ) (typeArgs : List Ty) : Method σ :=
  { m with
    params := m.params.map (Ty.substitute m.genericParams typeArgs)
    returns := m.returns.substitute m.genericParams typeArgs
    typeArgs := typeArgs }

/-- Runs the body. -/
def invoke (m : Method σ) (target : Option Value) (args : List Value) : HostM σ Value :=
  m.body target args m.typeArgs

/-- Text between angle brackets, if there is any. -/
def bracketed (texts : List String) : String :=
  if texts = [] then "" else "<" ++ ", ".intercalate texts ++ ">"

/-- The name and the types of the parameters, with the type arguments, or else the generic
parameters, between them. -/
def signature (m : Method σ) : String :=
  let slots := if m.typeArgs = [] then m.genericParams else m.typeArgs.map Ty.text
  m.name ++ bracketed slots ++ "(" ++ Ty.texts m.params ++ ")"

end Method

end HostExpr
