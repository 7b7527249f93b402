import TypeSynthesis.Registry.Basic

/-!
# Types under construction

A type is drafted as a plain definition, which nobody sees before it is registered.

* `Registry.beginClass`, `Registry.beginInterface`: an empty draft, once its name is free and its
  supertypes are what they must be;
* `ClassType.declare`, `InterfaceType.declare`: one more method of the draft.

A draft becomes visible through `Registry.register`, which then checks the name again.
-/

namespace TypeSynthesis

/-- Declare a method of a class under construction. -/
def ClassType.declare (c : ClassType) (name : String) (attributes : MethodAttributes)
    (result : TypeRef) (params : List TypeRef) : ClassType :=
  c.withMethod { name, declaring := c.id, params, result, attributes }

/-- Declare an abstract method of an interface under construction. -/
def InterfaceType.declare (i : InterfaceType) (name : String) (result : TypeRef)
    (params : List TypeRef) : InterfaceType :=
  i.withMethod { name, declaring := i.id, params, result, attributes := .interface }

namespace Registry

/-- Fails if the name is taken. -/
def checkName (R : Registry) (name : String) : Except RegistrationError Unit :=
  if R.containsName name then .error (.duplicateType name) else .ok ()

/-- Fails unless the type is a registered interface. -/
def checkInterface (R : Registry) (t : TypeId) : Except RegistrationError Unit :=
  match R.get? t with
  | some e => if e.isInterface then .ok () else .error (.notAnInterface e.name)
  | none => .error (.unknownType t.text)

/-- Fails at the first type that is no registered interface. -/
def checkInterfaces (R : Registry) : List TypeId → Except RegistrationError Unit
  | [] => .ok ()
  | t :: ts => do
    R.checkInterface t
    R.checkInterfaces ts

/-- Fails unless the type is a registered class that is not sealed. -/
def checkBase (R : Registry) (base : TypeId) : Except RegistrationError Unit :=
  match R.class? base with
  | some c => if c.isSealed then .error (.sealedBase c.name) else .ok ()
  | none => .error (.unknownType (R.typeName base))

/-- Draft a class over a base class.  Repeated interfaces count once. -/
def beginClass (R : Registry) (name : String) (base : TypeId) (interfaces : List TypeId) :
    Except RegistrationError ClassType := do
  R.checkName name
  R.checkBase base
  R.checkInterfaces interfaces
  let start : ClassType := { name, origin := .synthesized, base? := some base }
  return interfaces.foldl ClassType.withInterface start

/-- Draft an interface over others. -/
def beginInterface (R : Registry) (name : String) (bases : List TypeId) :
    Except RegistrationError InterfaceType := do
  R.checkName name
  R.checkInterfaces bases
  return { name, origin := .synthesized, bases }

end Registry

end TypeSynthesis
