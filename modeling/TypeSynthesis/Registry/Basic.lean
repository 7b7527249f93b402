import TypeSynthesis.Entry
import TypeSynthesis.Error
import TypeSynthesis.Table

/-!
# The registry of types

Every type of the host and every synthesized type, found by identity or by full name.

* `Registry`: the two indices;
* `Registry.register`: add a type whose name and identity are free;
* `Registry.provide`: add a built-in type unless its name is taken;
* `Registry.get?`, `Registry.find?`, `Registry.class?`, `Registry.interface?`: look-up;
* `Registry.typeName`, `Registry.display`, `Registry.displayAll`: how types are written.
-/

namespace TypeSynthesis

/-- The types known to a compilation. -/
structure Registry where
  types : Table TypeId Entry := {}
  names : Table String TypeId := {}
  deriving DecidableEq, Repr, Inhabited

namespace Registry

/-- The registry without types. -/
def empty : Registry := {}

/-- The definition with an identity. -/
def get? (R : Registry) (t : TypeId) : Option Entry := R.types.get? t

/-- Whether a type with the identity is registered. -/
def contains (R : Registry) (t : TypeId) : Bool := R.types.contains t

/-- Whether a type name is taken. -/
def containsName (R : Registry) (name : String) : Bool := R.names.contains name

/-- The definition with a full name. -/
def find? (R : Registry) (name : String) : Option Entry := (R.names.get? name).bind R.get?

/-- The class with an identity. -/
def class? (R : Registry) (t : TypeId) : Option ClassType := (R.get? t).bind Entry.asClass?

/-- The interface with an identity. -/
def interface? (R : Registry) (t : TypeId) : Option InterfaceType :=
  (R.get? t).bind Entry.asInterface?

/-- Whether the identity is that of a registered interface. -/
def isInterface (R : Registry) (t : TypeId) : Bool := (R.interface? t).isSome

/-- The number of registered types. -/
def size (R : Registry) : Nat := R.types.size

/-- Every definition. -/
def entries (R : Registry) : List Entry := R.types.values

/-! ### Registration -/

/-- Put a definition into both indices. -/
def add (R : Registry) (e : Entry) : Registry :=
  { types := R.types.insert e.id e, names := R.names.insert e.name e.id }

/-- Add a type.  Its name and its identity must be free. -/
def register (R : Registry) (e : Entry) : Except RegistrationError Registry :=
  if R.containsName e.name || R.contains e.id then .error (.duplicateType e.name)
  else .ok (R.add e)

/-- Add a built-in type.  A type that has the name already is kept. -/
def provide (R : Registry) (e : Entry) : Registry :=
  if R.containsName e.name then R else R.add e

/-- Add several built-in types in order. -/
def provideAll (R : Registry) (es : List Entry) : Registry := es.foldl provide R

/-- Add every primitive. -/
def providePrimitives (R : Registry) : Registry :=
  R.provideAll (Primitive.all.map Entry.primitive)

@[simp] theorem get?_add (R : Registry) (e : Entry) (t : TypeId) :
    (R.add e).get? t = if t = e.id then some e else R.get? t :=
  Table.get?_insert R.types e.id t e

theorem register_eq_ok_iff {R S : Registry} {e : Entry} :
    R.register e = .ok S ↔
      R.containsName e.name = false ∧ R.contains e.id = false ∧ S = R.add e := by
  unfold register
  cases R.containsName e.name <;> cases R.contains e.id <;> simp [eq_comm]

/-! ### How types are written -/

/-- The full name of a type, or the digits of an identity that is not registered. -/
def typeName (R : Registry) (t : TypeId) : String :=
  match R.get? t with
  | some e => e.name
  | none => t.text

/-- A type reference as it is written in source. -/
def display (R : Registry) (t : TypeRef) : String := R.typeName t.id ++ t.passing.suffix

/-- Type references separated by commas. -/
def displayAll (R : Registry) (ts : List TypeRef) : String := ", ".intercalate (ts.map R.display)

end Registry

end TypeSynthesis
