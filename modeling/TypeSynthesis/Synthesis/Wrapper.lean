import TypeSynthesis.Synthesis.Monad

/-!
# Function wrappers

A function value must be callable both where its parameter types are known and where they are not.
For each arity its wrapper implements two invokers: one at the natural types and one at the root
type throughout.

* `SynthM.resolveArity`: an arity with its types, and its invokers;
* `SynthM.synthesizeWrapper`: the class of a function literal.
-/

namespace TypeSynthesis.SynthM

/-- The word that errors use for a function literal. -/
def functionConstruct (name? : Option String) : String :=
  match name? with
  | some name => "fn " ++ name
  | none => "fn"

/-- Add an element at the end of a list that lacks it. -/
def addNew (ts : List TypeId) (t : TypeId) : List TypeId := if t ∈ ts then ts else ts ++ [t]

/-- Give a parameter the type of its hint. -/
def resolveParam (construct : String) (p : Param) : SynthM Param := do
  return { p with type? := some (← resolveHint construct p.hint?) }

/-- The instance of an invoker at types of parameters and result. -/
def invokerAt (definition : TypeId) (types : List TypeRef) : SynthM TypeId :=
  extend (·.instantiate definition types)

/-- Fails for an arity that wrappers do not support. -/
def checkArity (o : Options) (construct : String) (n : Nat) : SynthM Unit :=
  if o.maxArity < n then
    throw (.internal
      s!"{construct} declares an arity of {n}; function wrappers support at most {o.maxArity}")
  else pure ()

/-- An arity with its parameter types, and the invokers of the wrapper extended by its own. -/
def resolveArity (o : Options) (construct : String) (invokers : List TypeId) (a : ArityHead) :
    SynthM (List TypeId × ArityHead) := do
  let n := a.params.length
  checkArity o construct n
  let params ← a.params.mapM (resolveParam construct)
  let result ← resolveHint construct a.hint?
  let definition ← extend (·.invoker n)
  let natural ← invokerAt definition (params.map (·.type?.getD .object) ++ [result])
  let boxed ← invokerAt definition (List.replicate (n + 1) .object)
  return (addNew (addNew invokers natural) boxed, { a with params })

/-- All arities with their parameter types, and the invokers of the wrapper. -/
def resolveArities (o : Options) (construct : String) :
    List TypeId → List ArityHead → SynthM (List TypeId × List ArityHead)
  | invokers, [] => pure (invokers, [])
  | invokers, a :: as => do
    let (invokers, a) ← resolveArity o construct invokers a
    let (invokers, as) ← resolveArities o construct invokers as
    return (invokers, a :: as)

/-- Declare the methods of an invoker on a draft, qualified by the invoker's name. -/
def declareInvoker (draft : ClassType) (t : TypeId) : SynthM ClassType := do
  match (← registry).interface? t with
  | some i =>
    return (i.methods.filter (·.name == Registry.invokeName)).foldl
      (fun d m => d.declare (i.name ++ "." ++ m.name) .implementation m.result m.params) draft
  | none => throw (.internal s!"invoker interface {t.debugText} is not registered")

/-- The class of a function literal, and its arities with their parameter types. -/
def synthesizeWrapper (o : Options) (name? : Option String) (arities : List ArityHead) :
    SynthM (Descriptor × List ArityHead) := do
  let (invokers, arities) ← resolveArities o (functionConstruct name?) [] arities
  let name ← freshName o (name?.getD "fn")
  let draft ← consult (·.beginClass name .object invokers)
  let draft ← invokers.foldlM declareInvoker draft
  return (← finish draft, arities)

end TypeSynthesis.SynthM
