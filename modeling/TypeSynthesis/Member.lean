import TypeSynthesis.Attributes
import TypeSynthesis.TypeRef

/-!
# Fields and method signatures

* `Field`: a declared field;
* `Signature`: a method as the type system reports it, and what overload selection chooses from;
* `Signature.slot`: the identity of name and parameters, shared by a method and its overrides;
* `Signature.memberId`: the identity of this very member, bound to its declaring type.
-/

namespace TypeSynthesis

/-- A declared field. -/
structure Field where
  name : String
  type : TypeRef
  attributes : FieldAttributes
  deriving DecidableEq, Repr, Inhabited

/-- Whether the field may be assigned after construction. -/
def Field.isWritable (f : Field) : Bool := !f.attributes.isInitOnly

/-- Whether every access of the field is volatile. -/
def Field.isVolatile (f : Field) : Bool := f.attributes.isVolatile

/-- A method as the type system reports it. -/
structure Signature where
  name : String
  declaring : TypeId
  params : List TypeRef
  result : TypeRef
  attributes : MethodAttributes
  deriving DecidableEq, Repr, Inhabited

namespace Signature

/-- The number of parameters. -/
def arity (m : Signature) : Nat := m.params.length

/-- The identity of name and parameters.  A method and the methods that override or implement it
fill the same slot. -/
def slot (m : Signature) : TypeId := TypeId.ofSignature m.name (m.params.map TypeRef.key)

/-- The identity of the member, bound to its declaring type. -/
def memberId (m : Signature) : TypeId :=
  TypeId.ofMember m.declaring m.name (m.params.map TypeRef.key)

/-- Whether the method belongs to the type and not to its values. -/
def isStatic (m : Signature) : Bool := m.attributes.isStatic

/-- The same signature under another declaring type. -/
def declaredBy (m : Signature) (owner : TypeId) : Signature := { m with declaring := owner }

@[simp] theorem declaring_declaredBy (m : Signature) (owner : TypeId) :
    (m.declaredBy owner).declaring = owner := rfl

@[simp] theorem params_declaredBy (m : Signature) (owner : TypeId) :
    (m.declaredBy owner).params = m.params := rfl

@[simp] theorem slot_declaredBy (m : Signature) (owner : TypeId) :
    (m.declaredBy owner).slot = m.slot := rfl

end Signature

/-- The list without the signatures whose slot an earlier one fills, or that fill a slot of
`seen`. -/
def firstPerSlot (seen : List TypeId) : List Signature → List Signature
  | [] => []
  | m :: ms =>
    if m.slot ∈ seen then firstPerSlot seen ms else m :: firstPerSlot (m.slot :: seen) ms

@[simp] theorem firstPerSlot_nil (seen : List TypeId) : firstPerSlot seen [] = [] := rfl

theorem firstPerSlot_cons_of_mem {seen : List TypeId} {m : Signature} (h : m.slot ∈ seen)
    (ms : List Signature) : firstPerSlot seen (m :: ms) = firstPerSlot seen ms := by
  simp [firstPerSlot, h]

theorem firstPerSlot_cons_of_not_mem {seen : List TypeId} {m : Signature} (h : m.slot ∉ seen)
    (ms : List Signature) :
    firstPerSlot seen (m :: ms) = m :: firstPerSlot (m.slot :: seen) ms := by
  simp [firstPerSlot, h]

end TypeSynthesis
