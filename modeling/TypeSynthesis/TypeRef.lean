import TypeSynthesis.Primitive

/-!
# Type references

A type together with the way a value of it is passed.

* `Passing`: by value, by reference, or out;
* `TypeRef`: a type identity with its passing mode;
* `TypeRef.object`, `TypeRef.void`: the root type and the empty result, by value;
* `TypeRef.key`: the word that stands for the reference in signatures.
-/

namespace TypeSynthesis

/-- How a value is passed. -/
inductive Passing
  | byValue
  | byRef
  | out
  deriving DecidableEq, Repr, Inhabited

/-- The mark that follows the type's name. -/
def Passing.suffix : Passing → String
  | .byValue => ""
  | .byRef => "&"
  | .out => "&out"

/-- A type with the way a value of it is passed. -/
structure TypeRef where
  id : TypeId
  passing : Passing := .byValue
  deriving DecidableEq, Repr, Inhabited

namespace TypeRef

/-- The type passed by value. -/
def value (t : TypeId) : TypeRef := ⟨t, .byValue⟩

/-- The type passed by reference. -/
def reference (t : TypeId) : TypeRef := ⟨t, .byRef⟩

/-- The root type by value, which stands for any unknown type. -/
def object : TypeRef := value TypeId.object

/-- The empty result. -/
def void : TypeRef := value TypeId.void

/-- Whether the value is passed by reference, inward or out. -/
def isByRef (t : TypeRef) : Bool := t.passing != .byValue

/-- The type that a reference refers to, by value. -/
def element (t : TypeRef) : TypeRef := value t.id

/-- Whether this is the root type by value. -/
def isObject (t : TypeRef) : Bool := t.id == TypeId.object && !t.isByRef

/-- Whether the type is the empty one. -/
def isVoid (t : TypeRef) : Bool := t.id == TypeId.void

/-- The identity followed by the passing mark. -/
def rawText (t : TypeRef) : String := t.id.text ++ t.passing.suffix

/-- The word that stands for the reference in signatures.  Passing by reference changes it, so
that a parameter by reference is another slot than one by value. -/
def key (t : TypeRef) : TypeId :=
  if t.isByRef then ⟨Digest.rotateLeft t.id.bits 17 ^^^ 0x5bd1e995⟩ else t.id

@[simp] theorem id_value (t : TypeId) : (value t).id = t := rfl

@[simp] theorem isByRef_value (t : TypeId) : (value t).isByRef = false := rfl

@[simp] theorem isByRef_reference (t : TypeId) : (reference t).isByRef = true := rfl

@[simp] theorem key_value (t : TypeId) : (value t).key = t := rfl

end TypeRef

end TypeSynthesis
