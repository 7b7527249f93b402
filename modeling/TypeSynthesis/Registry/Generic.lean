import TypeSynthesis.Registry.Basic

/-!
# Generic interfaces

An interface with type parameters is a definition.  Its instance at type arguments has the
definition's methods with the parameters replaced.

* `Substitution`, `substitutionOf`, `TypeRef.subst`: replacing type parameters;
* `Registry.instantiate`: the instance of a definition, registered on first use;
* `Registry.invoker`: the definition whose one method takes `n` arguments, registered on first
  use.
-/

namespace TypeSynthesis

/-! ### Substitution -/

/-- Concrete types for type parameters. -/
abbrev Substitution := Table TypeId TypeRef

/-- Pair the parameters of a definition with arguments.  Of a repeated parameter the last argument
counts. -/
def substitutionOf (name : String) (params : List TypeId) (args : List TypeRef) :
    Except RegistrationError Substitution :=
  if params.length = args.length then
    .ok ((params.zip args).foldl (fun s p => s.insert p.1 p.2) .empty)
  else
    .error (.argumentCount name params.length args.length)

/-- Replace a type parameter.  The reference keeps its own passing mode. -/
def TypeRef.subst (s : Substitution) (t : TypeRef) : TypeRef :=
  match s.get? t.id with
  | some arg => { t with id := arg.id }
  | none => t

/-- Replace type parameters in a signature, which then belongs to another type. -/
def Signature.instantiate (s : Substitution) (owner : TypeId) (m : Signature) : Signature :=
  { m with
    declaring := owner
    params := m.params.map (·.subst s)
    result := m.result.subst s }

@[simp] theorem TypeRef.passing_subst (s : Substitution) (t : TypeRef) :
    (t.subst s).passing = t.passing := by
  unfold TypeRef.subst; split <;> rfl

namespace Registry

/-! ### Instances -/

/-- The instance of a generic definition at type arguments, not registered. -/
def instanceAt (R : Registry) (definition : InterfaceType) (id : TypeId) (args : List TypeRef)
    (s : Substitution) : InterfaceType :=
  let inst : Instantiation := ⟨id, args⟩
  let owner := TypeId.ofInstance id (args.map (·.id))
  { name := definition.name ++ "<" ++ R.displayAll args ++ ">"
    origin := definition.origin
    methods := definition.methods.map (·.instantiate s owner)
    bases := definition.bases
    instanceOf? := some inst }

/-- The instance of a generic definition at type arguments, registered on first use. -/
def instantiate (R : Registry) (t : TypeId) (args : List TypeRef) :
    Except RegistrationError (TypeId × Registry) :=
  match R.interface? t with
  | none => .error (.unknownType (R.typeName t))
  | some definition =>
    if definition.isGeneric then do
      let s ← substitutionOf definition.name definition.typeParams args
      let id := TypeId.ofInstance t (args.map (·.id))
      if R.contains id then return (id, R)
      else return (id, ← R.register (.interfaceType (R.instanceAt definition t args s)))
    else .error (.notGeneric definition.name)

/-! ### Invokers -/

/-- The common stem of the invoker definitions' names. -/
def invokerStem : String := "sable.lang.Invoker"

/-- The one method of an invoker. -/
def invokeName : String := "invoke"

/-- The name of the invoker definition for `n` arguments. -/
def invokerName (n : Nat) : String := invokerStem ++ "`" ++ toString n

/-- The type parameters for the arguments of an invoker. -/
def invokerParams (n : Nat) : List TypeId :=
  (List.range n).map fun i => TypeId.ofName (invokerName n ++ "::T" ++ toString (i + 1))

/-- The type parameter for the result of an invoker. -/
def invokerResult (n : Nat) : TypeId := TypeId.ofName (invokerName n ++ "::R")

/-- The invoker definition for `n` arguments. -/
def invokerType (n : Nat) : InterfaceType :=
  let start : InterfaceType :=
    { name := invokerName n, typeParams := invokerParams n ++ [invokerResult n] }
  start.withMethod
    { name := invokeName
      declaring := .empty
      params := (invokerParams n).map TypeRef.value
      result := .value (invokerResult n)
      attributes := .interface }

/-- The invoker definition for `n` arguments, registered on first use. -/
def invoker (R : Registry) (n : Nat) : Except RegistrationError (TypeId × Registry) :=
  match R.find? (invokerName n) with
  | some e => .ok (e.id, R)
  | none => do
    let i := invokerType n
    return (i.id, ← R.register (.interfaceType i))

end Registry

end TypeSynthesis
