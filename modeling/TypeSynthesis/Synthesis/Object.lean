import TypeSynthesis.Registry.Host
import TypeSynthesis.Synthesis.Implement

/-!
# Anonymous objects and proxies

* `Supertypes`: what an object literal derives from and implements;
* `SynthM.splitSupers`: a proxy's base class and interfaces;
* `SynthM.synthesizeObject`: the class of an object literal.

An anonymous object derives from the root class and implements, besides what it is asked to, the
metadata interface.  A proxy derives from its first supertype if that is a class.
-/

namespace TypeSynthesis

/-- The word that errors use for an object literal, and the stem of its class's name. -/
def ObjectKind.construct : ObjectKind → String
  | .anonymous => "reify"
  | .proxy => "proxy"

/-- What an object literal derives from and implements. -/
structure Supertypes where
  base : TypeId
  requested : List TypeId
  /-- An interface that is not requested and whose methods the class declares by itself. -/
  metadata? : Option TypeId := none
  deriving DecidableEq, Repr, Inhabited

/-- Every interface that the class implements. -/
def Supertypes.interfaces (s : Supertypes) : List TypeId := s.requested ++ s.metadata?.toList

namespace SynthM

/-! ### Supertypes -/

/-- A supertype after the first, which must be an interface. -/
def requireInterface (R : Registry) (construct : String) (s : TypeName × TypeId) :
    Except CompilationError TypeId :=
  if R.isInterface s.2 then .ok s.2
  else .error (.notAnInterface s.1.text construct s.1.span)

/-- The base class and the interfaces among supertypes.  If the first is no interface it is the
base, else the base is the root class.  All others must be interfaces. -/
def splitSupers (R : Registry) (construct : String) (supers : List (TypeName × TypeId)) :
    Except CompilationError (TypeId × List TypeId) :=
  match supers with
  | [] => .ok (.object, [])
  | first :: rest =>
    if R.isInterface first.2 then do
      return (.object, ← supers.mapM (requireInterface R construct))
    else do
      return (first.2, ← rest.mapM (requireInterface R construct))

/-- The supertypes of an anonymous object. -/
def anonymousSupertypes (head : ObjectHead) : SynthM Supertypes := do
  let requested ← head.supers.mapM (resolveInterface head.kind.construct)
  let metadata ← metadataType
  return { base := .object, requested,
           metadata? := if requested.contains metadata then none else some metadata }
where
  /-- The metadata interface, which the host must have. -/
  metadataType : SynthM TypeId := fun s =>
    match s.registry.resolve Registry.metadataName with
    | (some t, R) => .ok t.id { s with registry := R }
    | (none, R) =>
      .error (.internal s!"host type system has no '{Registry.metadataName}'")
        { s with registry := R }

/-- The supertypes of a proxy. -/
def proxySupertypes (head : ObjectHead) : SynthM Supertypes := do
  let supers ← head.supers.mapM fun name => do
    return (name, (← resolveTypeName head.kind.construct name).id)
  let (base, requested) ← ofExcept (splitSupers (← registry) head.kind.construct supers)
  return { base, requested }

/-- The supertypes of an object literal. -/
def supertypes (head : ObjectHead) : SynthM Supertypes :=
  match head.kind with
  | .anonymous => anonymousSupertypes head
  | .proxy => proxySupertypes head

/-! ### Classes -/

/-- Declare the methods of the metadata interface on a draft. -/
def declareMetadata (R : Registry) (metadata? : Option TypeId) (draft : ClassType) : ClassType :=
  match metadata? with
  | some t =>
    (R.interfaceMethods t).foldl
      (fun d m => d.declare m.name .implementation m.result m.params) draft
  | none => draft

/-- The class of an object literal, and its methods with the signatures they implement. -/
def synthesizeObject (o : Options) (head : ObjectHead) (methods : List MethodHead) :
    SynthM (Descriptor × List MethodHead) := do
  let construct := head.kind.construct
  let supers ← supertypes head
  let name ← freshName o construct
  let draft ← consult (·.beginClass name supers.base supers.interfaces)
  let candidates := Candidates.collect (← registry) supers.base supers.requested
  let (draft, methods) ← implementAll construct candidates draft methods
  let descriptor ← finish (declareMetadata (← registry) supers.metadata? draft)
  return (descriptor, methods)

end SynthM

end TypeSynthesis
