import TypeSynthesis.Synthesis.Implement

/-!
# Records

* `Registry.isVolatileCompatible`: whether a field of a type may be volatile;
* `SynthM.synthesizeRecord`: the class of a record definition.
-/

namespace TypeSynthesis

/-- Whether a field of the type may be volatile: pointers, reference types, primitives that are
read atomically, and enumerations over an integer of at most 32 bits. -/
def Registry.isVolatileCompatible (R : Registry) (t : TypeRef) : Bool :=
  !t.isByRef &&
    match R.get? t.id with
    | some (.pointerType _) | some (.classType _) | some (.interfaceType _) => true
    | some (.primitive p) => p.isAtomic
    | some (.enumType e) => e.underlying.isNarrowInteger
    | none => false

/-- The attributes of a record field. -/
def Mutability.attributes : Mutability → FieldAttributes
  | .writeOnce => { isPublic := true, isInitOnly := true }
  | .unsynchronized => { isPublic := true }
  | .volatile => { isPublic := true, isVolatile := true }

/-- The static method of every record that returns its fields' names. -/
def basisName : String := "getBasis"

namespace SynthM

/-- Declare a record field on a draft. -/
def declareField (construct : String) (draft : ClassType) (f : FieldDecl) : SynthM ClassType := do
  let t ← resolveHint construct f.hint?
  let R ← registry
  if f.mutability = .volatile && !R.isVolatileCompatible t then
    throw (.invalidVolatileField f.name (R.display t) f.span)
  else return draft.withField ⟨f.name, t, f.mutability.attributes⟩

/-- The class of a record definition, and its methods with the signatures they implement. -/
def synthesizeRecord (o : Options) (head : RecordHead) (methods : List MethodHead) :
    SynthM (Descriptor × List MethodHead) := do
  let construct := "deftype " ++ head.name
  let interfaces ← head.interfaces.mapM (resolveInterface construct)
  let draft ← consult (·.beginClass (o.qualify head.name) .object interfaces)
  let draft ← head.fields.foldlM (declareField construct) draft
  let candidates := Candidates.collect (← registry) .object interfaces
  let (draft, methods) ← implementAll construct candidates draft methods
  let descriptor ←
    finish (draft.declare basisName { isPublic := true, isStatic := true } .object [])
  return (descriptor, methods)

end SynthM

end TypeSynthesis
