import Mathlib.Logic.Function.Basic
import TypeSynthesis.Proofs.Registry.Growth
import TypeSynthesis.Proofs.Synthesis.Record

/-!
# Lexical typing

What a reader of a resolved tree expects of it: every local has the type of the binder that it
belongs to.  The judgement walks a tree with a map from names to types, which each binder extends
for the forms in its reach, and knows nothing of how the tree was resolved.

* `TypeMap`: the types of the names in view, and how each kind of binder extends them;
* `Run`: what the judgement knows of a compilation, for the classes of the records;
* `Node.LexicallyTyped`: the judgement.
-/

namespace TypeSynthesis

/-! ### Types in view -/

/-- The types of the names in view. -/
abbrev TypeMap := String → Option TypeRef

namespace TypeMap

/-- The map with one more name. -/
def bind (Γ : TypeMap) (name : String) (t : TypeRef) : TypeMap := Function.update Γ name (some t)

/-- The bindings of a `let` in order, each with its annotated type. -/
def bindLets (Γ : TypeMap) : List LetBinding → TypeMap
  | [] => Γ
  | ⟨name, _, some t, _⟩ :: bs => (Γ.bind name t).bindLets bs
  | ⟨_, _, none, _⟩ :: bs => Γ.bindLets bs

/-- Parameters in order, each with its annotated type, or the root type without one. -/
def bindParams (Γ : TypeMap) : List Param → TypeMap
  | [] => Γ
  | q :: ps => (Γ.bind q.name (q.type?.getD .object)).bindParams ps

/-- The name of a function, if it has one, with the type of its wrapper. -/
def bindFunction (Γ : TypeMap) (name? : Option String) (wrapper : Descriptor) : TypeMap :=
  match name? with
  | some name => Γ.bind name wrapper.type
  | none => Γ

/-- A declared field, if the class has it, with the type that it has there. -/
def bindField (Γ : TypeMap) (c? : Option ClassType) (f : FieldDecl) : TypeMap :=
  match c?.bind (·.findField? f.name) with
  | some field => Γ.bind f.name field.type
  | none => Γ

/-- The declared fields of a record in order. -/
def bindFields (Γ : TypeMap) (c? : Option ClassType) : List FieldDecl → TypeMap
  | [] => Γ
  | f :: fs => (Γ.bindField c? f).bindFields c? fs

end TypeMap

/-- The types of the bindings in view. -/
def Scope.types (s : Scope) : TypeMap := fun name => s.typeOf? name

/-! ### The classes of records -/

/-- A compilation as the judgement sees it. -/
structure Run where
  /-- The registry that it starts with. -/
  first : Registry
  /-- The registry that it ends with. -/
  last : Registry
  /-- The descriptors that records have from the start. -/
  preset : List Descriptor

/-- The class that a descriptor stands for at some point of the run: for a record that had its
descriptor from the start whatever is registered there, and for any other the synthesized class
with the declared fields. -/
def Run.Defines (run : Run) (head : RecordHead) (d : Descriptor) (c? : Option ClassType) : Prop :=
  ∃ R : Registry, run.first.Grows R ∧ R.Grows run.last ∧ R.class? d.id = c? ∧
    (d ∈ run.preset ∨ ∃ c, c? = some c ∧ c.IsRecord d.name (head.fields.map FieldDecl.name))

namespace Node

mutual

/-- The descriptors that records in the form have. -/
def presets : Node → List Descriptor
  | .const .. => []
  | .localRef _ _ _ _ init? => presetsOfOption init?
  | .block _ forms => presetsOfList forms
  | .cond _ test thenForm elseForm? =>
    presets test ++ presets thenForm ++ presetsOfOption elseForm?
  | .invoke _ callee args => presets callee ++ presetsOfList args
  | .staticCall _ _ _ args _ => presetsOfList args
  | .memberCall _ target _ args _ => presets target ++ presetsOfList args
  | .throw _ value => presets value
  | .letIn _ _ bindings body => presetsOfBindings bindings ++ presets body
  | .fn _ _ arities => presetsOfArities arities
  | .guarded _ _ body clauses final? =>
    presets body ++ presetsOfClauses clauses ++ presetsOfOption final?
  | .record _ head methods => head.descriptor?.toList ++ presetsOfMethods methods
  | .object _ _ methods => presetsOfMethods methods
  | .superCall _ _ _ args => presetsOfList args
  | .baseCall _ _ _ target args => presets target ++ presetsOfList args
  | .interface .. => []

def presetsOfList : List Node → List Descriptor
  | [] => []
  | n :: ns => presets n ++ presetsOfList ns

def presetsOfOption : Option Node → List Descriptor
  | none => []
  | some n => presets n

def presetsOfBindings : List LetBinding → List Descriptor
  | [] => []
  | ⟨_, init, _, _⟩ :: bs => presets init ++ presetsOfBindings bs

def presetsOfArities : List Arity → List Descriptor
  | [] => []
  | ⟨_, body⟩ :: as => presets body ++ presetsOfArities as

def presetsOfClauses : List CatchClause → List Descriptor
  | [] => []
  | ⟨_, body⟩ :: cs => presets body ++ presetsOfClauses cs

def presetsOfMethods : List Method → List Descriptor
  | [] => []
  | ⟨_, body⟩ :: ms => presets body ++ presetsOfMethods ms

end

/-! ### The judgement -/

/-- A local has the type of its name.  A parameter that is not bound, or that has an initializer,
need not. -/
def LocalTyped (Γ : TypeMap) (name : String) (role : Role) (type? : Option TypeRef)
    (init? : Option Node) : Prop :=
  if role = .parameter then init?.isNone → ∀ t, Γ name = some t → type? = some t
  else ∃ t, Γ name = some t ∧ type? = some t

mutual

/-- Every local in the form has the type that the names in view give it.  The initializers of
locals are walked for the roles that `opens` names. -/
def LexicallyTyped (run : Run) (opens : Role → Prop) (Γ : TypeMap) : Node → Prop
  | .const .. => True
  | .localRef _ name role type? init? =>
    LocalTyped Γ name role type? init? ∧ (opens role → OptionTyped run opens Γ init?)
  | .block _ forms => ListTyped run opens Γ forms
  | .cond _ test thenForm elseForm? =>
    LexicallyTyped run opens Γ test ∧ LexicallyTyped run opens Γ thenForm ∧
      OptionTyped run opens Γ elseForm?
  | .invoke _ callee args => LexicallyTyped run opens Γ callee ∧ ListTyped run opens Γ args
  | .staticCall _ _ _ args _ => ListTyped run opens Γ args
  | .memberCall _ target _ args _ => LexicallyTyped run opens Γ target ∧ ListTyped run opens Γ args
  | .throw _ value => LexicallyTyped run opens Γ value
  | .letIn _ _ bindings body =>
    BindingsTyped run opens Γ bindings ∧ LexicallyTyped run opens (Γ.bindLets bindings) body
  | .fn _ head arities =>
    ∃ w, head.wrapper? = some w ∧ AritiesTyped run opens (Γ.bindFunction head.name? w) arities
  | .guarded _ _ body clauses final? =>
    LexicallyTyped run opens Γ body ∧ ClausesTyped run opens Γ clauses ∧
      OptionTyped run opens Γ final?
  | .record _ head methods =>
    ∃ d c?, head.descriptor? = some d ∧ run.Defines head d c? ∧
      MethodsTyped run opens ((Γ.bind head.selfName d.type).bindFields c? head.fields) methods
  | .object _ head methods =>
    ∃ d, head.descriptor? = some d ∧
      MethodsTyped run opens (Γ.bind head.selfName d.type) methods
  | .superCall _ _ _ args => ListTyped run opens Γ args
  | .baseCall _ _ _ target args => LexicallyTyped run opens Γ target ∧ ListTyped run opens Γ args
  | .interface .. => True

def ListTyped (run : Run) (opens : Role → Prop) (Γ : TypeMap) : List Node → Prop
  | [] => True
  | n :: ns => LexicallyTyped run opens Γ n ∧ ListTyped run opens Γ ns

def OptionTyped (run : Run) (opens : Role → Prop) (Γ : TypeMap) : Option Node → Prop
  | none => True
  | some n => LexicallyTyped run opens Γ n

/-- Each initializer sees the bindings before it, and gives its binding the type. -/
def BindingsTyped (run : Run) (opens : Role → Prop) (Γ : TypeMap) : List LetBinding → Prop
  | [] => True
  | ⟨name, init, type?, _⟩ :: bs =>
    LexicallyTyped run opens Γ init ∧ type? = some init.argumentType ∧
      BindingsTyped run opens (Γ.bind name init.argumentType) bs

def AritiesTyped (run : Run) (opens : Role → Prop) (Γ : TypeMap) : List Arity → Prop
  | [] => True
  | ⟨head, body⟩ :: as =>
    LexicallyTyped run opens (Γ.bindParams head.params) body ∧ AritiesTyped run opens Γ as

def ClausesTyped (run : Run) (opens : Role → Prop) (Γ : TypeMap) : List CatchClause → Prop
  | [] => True
  | ⟨head, body⟩ :: cs =>
    (∃ t, head.type? = some t ∧ LexicallyTyped run opens (Γ.bind head.name t) body) ∧
      ClausesTyped run opens Γ cs

def MethodsTyped (run : Run) (opens : Role → Prop) (Γ : TypeMap) : List Method → Prop
  | [] => True
  | ⟨head, body⟩ :: ms =>
    LexicallyTyped run opens (Γ.bindParams (head.self?.toList ++ head.params)) body ∧
      MethodsTyped run opens Γ ms

end

end Node

end TypeSynthesis
