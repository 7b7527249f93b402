import TypeSynthesis.Member

/-!
# Type definitions

What the type system knows about one type.

* `ClassType`, `InterfaceType`, `EnumType`, `PointerType`: the definitions with structure;
* `Entry`: any definition, with its `name`, `id` and `origin`;
* `ClassType.withMethod`, `InterfaceType.withMethod`: a method that the type declares belongs
  to it.

The identity of a definition is computed and never stored: a digest of its name, except for an
instance of a generic interface, whose identity is that of the definition at its arguments.
-/

namespace TypeSynthesis

/-- Where a type comes from. -/
inductive TypeOrigin
  | host
  | synthesized
  deriving DecidableEq, Repr, Inhabited

/-! ### Classes -/

/-- A class. -/
structure ClassType where
  name : String
  origin : TypeOrigin := .host
  base? : Option TypeId := none
  interfaces : List TypeId := []
  fields : List Field := []
  methods : List Signature := []
  isSealed : Bool := false
  deriving DecidableEq, Repr, Inhabited

namespace ClassType

/-- The identity of the class. -/
def id (c : ClassType) : TypeId := TypeId.ofName c.name

/-- The class with one more declared method. -/
def withMethod (c : ClassType) (m : Signature) : ClassType :=
  { c with methods := c.methods ++ [m.declaredBy c.id] }

/-- The class with one more declared field. -/
def withField (c : ClassType) (f : Field) : ClassType := { c with fields := c.fields ++ [f] }

/-- The class with one more interface, unless it has it already. -/
def withInterface (c : ClassType) (i : TypeId) : ClassType :=
  if i ∈ c.interfaces then c else { c with interfaces := c.interfaces ++ [i] }

/-- The first declared method with a name. -/
def findMethod? (c : ClassType) (name : String) : Option Signature :=
  c.methods.find? (·.name == name)

/-- The first declared field with a name. -/
def findField? (c : ClassType) (name : String) : Option Field :=
  c.fields.find? (·.name == name)

/-- The declared methods that belong to values of the class. -/
def instanceMethods (c : ClassType) : List Signature := c.methods.filter (!·.isStatic)

/-- The declared methods that belong to the class itself. -/
def staticMethods (c : ClassType) : List Signature := c.methods.filter (·.isStatic)

@[simp] theorem id_withMethod (c : ClassType) (m : Signature) : (c.withMethod m).id = c.id := rfl

@[simp] theorem id_withField (c : ClassType) (f : Field) : (c.withField f).id = c.id := rfl

@[simp] theorem id_withInterface (c : ClassType) (i : TypeId) :
    (c.withInterface i).id = c.id := by
  unfold withInterface id; split <;> rfl

end ClassType

/-! ### Interfaces -/

/-- The generic definition and the arguments that an interface is an instance of. -/
structure Instantiation where
  definition : TypeId
  args : List TypeRef
  deriving DecidableEq, Repr, Inhabited

/-- An interface.  One with type parameters is a generic definition. -/
structure InterfaceType where
  name : String
  origin : TypeOrigin := .host
  methods : List Signature := []
  bases : List TypeId := []
  typeParams : List TypeId := []
  instanceOf? : Option Instantiation := none
  deriving DecidableEq, Repr, Inhabited

namespace InterfaceType

/-- The identity of the interface. -/
def id (i : InterfaceType) : TypeId :=
  match i.instanceOf? with
  | none => TypeId.ofName i.name
  | some inst => TypeId.ofInstance inst.definition (inst.args.map (·.id))

/-- The interface with one more declared method. -/
def withMethod (i : InterfaceType) (m : Signature) : InterfaceType :=
  { i with methods := i.methods ++ [m.declaredBy i.id] }

/-- Whether the interface is a generic definition. -/
def isGeneric (i : InterfaceType) : Bool := !i.typeParams.isEmpty

/-- Whether the interface is an instance of a generic definition. -/
def isInstance (i : InterfaceType) : Bool := i.instanceOf?.isSome

@[simp] theorem id_withMethod (i : InterfaceType) (m : Signature) :
    (i.withMethod m).id = i.id := rfl

end InterfaceType

/-! ### Enumerations and pointers -/

/-- An enumeration over a primitive. -/
structure EnumType where
  name : String
  underlying : Primitive
  deriving DecidableEq, Repr, Inhabited

/-- The identity of the enumeration. -/
def EnumType.id (e : EnumType) : TypeId := TypeId.ofName e.name

/-- The pointer type over a type. -/
structure PointerType where
  pointeeName : String
  pointee : TypeId
  deriving DecidableEq, Repr, Inhabited

/-- The pointee's name followed by a star. -/
def PointerType.name (p : PointerType) : String := p.pointeeName ++ "*"

/-- The identity of the pointer type. -/
def PointerType.id (p : PointerType) : TypeId := TypeId.ofName p.name

/-! ### Any definition -/

/-- The definition of a type. -/
inductive Entry
  | primitive (p : Primitive)
  | classType (c : ClassType)
  | interfaceType (i : InterfaceType)
  | enumType (e : EnumType)
  | pointerType (p : PointerType)
  deriving DecidableEq, Repr, Inhabited

namespace Entry

/-- The full name of the type. -/
def name : Entry → String
  | primitive p => p.name
  | classType c => c.name
  | interfaceType i => i.name
  | enumType e => e.name
  | pointerType p => p.name

/-- The identity of the type. -/
def id : Entry → TypeId
  | primitive p => p.id
  | classType c => c.id
  | interfaceType i => i.id
  | enumType e => e.id
  | pointerType p => p.id

/-- Where the type comes from.  Only classes and interfaces are ever synthesized. -/
def origin : Entry → TypeOrigin
  | classType c => c.origin
  | interfaceType i => i.origin
  | _ => .host

/-- The class, if the type is one. -/
def asClass? : Entry → Option ClassType
  | classType c => some c
  | _ => none

/-- The interface, if the type is one. -/
def asInterface? : Entry → Option InterfaceType
  | interfaceType i => some i
  | _ => none

/-- Whether the type is an interface. -/
def isInterface (e : Entry) : Bool := e.asInterface?.isSome

/-- Whether values of the type are references to objects. -/
def isReference : Entry → Bool
  | classType _ | interfaceType _ => true
  | _ => false

end Entry

end TypeSynthesis
