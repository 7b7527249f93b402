import TypeSynthesis.Overload
import TypeSynthesis.Synthesis.Candidates
import TypeSynthesis.Synthesis.Monad

/-!
# Implementing members

Records, anonymous objects and proxies implement the methods supplied to them in one way: the
declared parameter types select a signature among the candidates, and the method takes over the
signature's exact types.

* `SynthM.resolveMethod`: the signature that a supplied method implements;
* `MethodHead.implement`: the method with that signature's types;
* `SynthM.implementAll`: declare all supplied methods on a draft.
-/

namespace TypeSynthesis

/-- Give parameters their types. -/
def annotateParams : List Param → List TypeRef → List Param
  | p :: ps, t :: ts => { p with type? := some t } :: annotateParams ps ts
  | ps, _ => ps

/-- A supplied method with the types of the signature it implements. -/
def MethodHead.implement (m : MethodHead) (self : TypeId) (sig : Signature) : MethodHead :=
  { m with
    self? := m.self?.map fun p => { p with type? := some (.value self) }
    params := annotateParams m.params sig.params
    implements? := some sig }

namespace SynthM

/-- The signature that a supplied method implements. -/
def resolveMethod (construct : String) (candidates : Candidates) (m : MethodHead) :
    SynthM Signature := do
  let name := MemberName.ofText m.name
  let args ← m.params.mapM fun p => resolveHint construct p.hint?
  let R ← registry
  match R.select? (candidates.named R name) args with
  | some sig => return sig
  | none => throw (.unresolvedMember name.member name.owner? (R.displayAll args) m.span)

/-- Declare supplied methods on a draft, each under its member name with its owner, if one was
given. -/
def implementAll (construct : String) (candidates : Candidates) :
    ClassType → List MethodHead → SynthM (ClassType × List MethodHead)
  | draft, [] => pure (draft, [])
  | draft, m :: ms => do
    let sig ← resolveMethod construct candidates m
    let name := MemberName.ofText m.name
    let written := CompilationError.qualifiedMember name.owner? name.member
    let draft := draft.declare written .implementation sig.result sig.params
    let (done, ms) ← implementAll construct candidates draft ms
    return (done, m.implement draft.id sig :: ms)

end SynthM

end TypeSynthesis
