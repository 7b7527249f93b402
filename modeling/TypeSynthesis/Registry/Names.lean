import TypeSynthesis.Registry.Basic
import TypeSynthesis.Text.Blank

/-!
# Type names as they are written

A written type name is the full name of a registered type, followed by any number of stars, which
name pointer types, and at most one ampersand, which marks passing by reference.  Blanks around
the parts do not count.

* `Registry.pointerTo`: the pointer type over a type, registered on first use;
* `Registry.resolve`: the type that a written name denotes.
-/

namespace TypeSynthesis.Registry

/-- The pointer type over a type, registered on first use. -/
def pointerTo (R : Registry) (pointee : TypeId) : TypeId × Registry :=
  let p : PointerType := ⟨R.typeName pointee, pointee⟩
  (p.id, R.provide (.pointerType p))

/-- The by-reference form of a resolved type, which must be by value. -/
def referenceTo : Option TypeRef × Registry → Option TypeRef × Registry
  | (some t, R) => if t.isByRef then (none, R) else (some (.reference t.id), R)
  | (none, R) => (none, R)

/-- The pointer form of a resolved type, which must be by value. -/
def starOf : Option TypeRef × Registry → Option TypeRef × Registry
  | (some t, R) =>
    if t.isByRef then (none, R)
    else
      let (p, R) := R.pointerTo t.id
      (some (.value p), R)
  | (none, R) => (none, R)

/-- Resolve a written type name from its characters in reverse order. -/
def resolveReversed (R : Registry) : List Char → Option TypeRef × Registry
  | [] => ((R.names.get? "").map TypeRef.value, R)
  | c :: cs =>
    if Text.isBlank c then R.resolveReversed cs
    else if c = '&' then referenceTo (R.resolveReversed cs)
    else if c = '*' then starOf (R.resolveReversed cs)
    else
      let name := String.ofList (Text.dropBlanks (c :: cs).reverse)
      ((R.names.get? name).map TypeRef.value, R)

/-- The type that a written name denotes, if any.  Pointer types that the name mentions are
registered on first use. -/
def resolve (R : Registry) (text : String) : Option TypeRef × Registry :=
  R.resolveReversed text.toList.reverse

end TypeSynthesis.Registry
