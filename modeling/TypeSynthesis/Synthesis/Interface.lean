import TypeSynthesis.Synthesis.Monad

/-!
# Generated interfaces

* `SynthM.synthesizeInterface`: the interface of a declaration, with one abstract method for each
  declared one.  The declared name, with or without its qualifier, denotes the interface itself.
-/

namespace TypeSynthesis.SynthM

/-- The type that a written name denotes inside the interface under construction. -/
def resolveWithin (construct short : String) (draft : InterfaceType) (name : TypeName) :
    SynthM TypeRef :=
  if name.text = short || name.text = draft.name then pure (.value draft.id)
  else resolveTypeName construct name

/-- Declare a method on the interface under construction. -/
def declareMethod (construct short : String) (draft : InterfaceType) (m : MethodDecl) :
    SynthM InterfaceType := do
  let params ← m.params.mapM (resolveWithin construct short draft)
  let result ← resolveWithin construct short draft m.result
  return draft.declare m.name result params

/-- The interface of a declaration. -/
def synthesizeInterface (o : Options) (head : InterfaceHead) : SynthM Descriptor := do
  let construct := "gen-interface " ++ head.name
  let bases ← head.bases.mapM (resolveInterface construct)
  let draft ← consult (·.beginInterface (o.qualify head.name) bases)
  let draft ← head.methods.foldlM (declareMethod construct head.name) draft
  finishInterface draft

end TypeSynthesis.SynthM
