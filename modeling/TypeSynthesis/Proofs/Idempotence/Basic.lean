import TypeSynthesis.Proofs.LexicalTyping.Yields
import TypeSynthesis.Proofs.Registry.Naming

/-!
# Resolved trees that are resolved again

What a form has become is resolved again where the first run has ended, in the scope of the first.

* `Node.visited`: the forms that resolution visits within a form;
* `Node.isOpenCall`, `Node.recordType?`: a host call that is bound to no member, and the type that
  a record has from the start;
* `Rerun`: the end of a run, over which it is repeated;
* `Rerun.Again y a here there`: the computation `y` gives `a` there, and changes nothing but the
  scope `here` to `there`;
* `Local x`: the computation `x` reads and changes the scope alone, so that it can be repeated over
  any session.
-/

namespace TypeSynthesis

open ResolveM SynthM Registry

/-! ### Forms -/

namespace Node

mutual

/-- The forms that resolution visits within a form, the form itself first.  Of the initializers of
locals these are the ones of parameters. -/
def visited (n : Node) : List Node :=
  n :: match n with
    | .const .. => []
    | .localRef _ _ role _ init? => if role = .parameter then visitedOfOption init? else []
    | .block _ forms => visitedOfList forms
    | .cond _ test thenForm elseForm? =>
      visited test ++ (visited thenForm ++ visitedOfOption elseForm?)
    | .invoke _ callee args => visited callee ++ visitedOfList args
    | .staticCall _ _ _ args _ => visitedOfList args
    | .memberCall _ target _ args _ => visited target ++ visitedOfList args
    | .throw _ value => visited value
    | .letIn _ _ bindings body => visitedOfBindings bindings ++ visited body
    | .fn _ _ arities => visitedOfArities arities
    | .guarded _ _ body clauses final? =>
      visited body ++ (visitedOfClauses clauses ++ visitedOfOption final?)
    | .record _ _ methods => visitedOfMethods methods
    | .object _ _ methods => visitedOfMethods methods
    | .superCall _ _ _ args => visitedOfList args
    | .baseCall _ _ _ target args => visited target ++ visitedOfList args
    | .interface .. => []

def visitedOfList : List Node → List Node
  | [] => []
  | n :: ns => visited n ++ visitedOfList ns

def visitedOfOption : Option Node → List Node
  | none => []
  | some n => visited n

def visitedOfBindings : List LetBinding → List Node
  | [] => []
  | ⟨_, init, _, _⟩ :: bs => visited init ++ visitedOfBindings bs

def visitedOfArities : List Arity → List Node
  | [] => []
  | ⟨_, body⟩ :: as => visited body ++ visitedOfArities as

def visitedOfClauses : List CatchClause → List Node
  | [] => []
  | ⟨_, body⟩ :: cs => visited body ++ visitedOfClauses cs

def visitedOfMethods : List Method → List Node
  | [] => []
  | ⟨_, body⟩ :: ms => visited body ++ visitedOfMethods ms

end

/-- Whether the form is a host call that is bound to no member. -/
def isOpenCall : Node → Bool
  | .staticCall _ _ _ _ none | .memberCall _ _ _ _ none => true
  | _ => false

/-- No form in the list is a host call that is bound to no member. -/
abbrev Closed (ns : List Node) : Prop := ∀ m ∈ ns, m.isOpenCall = false

/-- The type that a record has from the start. -/
def recordType? : Node → Option Descriptor
  | .record _ head _ => head.descriptor?
  | _ => none

end Node

/-! ### Names of types -/

/-- Where every type was well named, so it is afterwards. -/
def Session.KeepsNames (s t : Session) : Prop := s.registry.WellNamed → t.registry.WellNamed

instance : IsPreorder Session Session.KeepsNames where
  refl _ := id
  trans _ _ _ h h' := h' ∘ h

/-- Synthesis names its types well. -/
theorem Session.keepsNames_respected : Session.Respected Session.KeepsNames where
  pointer _ _ named := named.of_provides (provides_provide _ rfl)
  invoker h named := by
    rcases register_of_invoker h with same | registers
    · exact same ▸ named
    · exact named.of_register (.inl rfl) registers
  instantiate _ h named := by
    obtain ⟨i, -, -, same | ⟨sub, registers⟩⟩ := instantiate_eq_ok h
    · exact same ▸ named
    · exact named.of_register (wellNamed_instanceAt ..) registers
  draw _ := id
  define fromName registers named := named.of_register (.inl fromName) registers

/-! ### A run that is repeated -/

/-- A run from a registry to a session, in whose registry no type has displaced another and every
type is found by its name. -/
structure Rerun where
  first : Registry
  last : Session
  sound : first.Sound
  distinct : last.registry.Distinct
  wellNamed : last.registry.WellNamed

namespace Rerun

/-- The two sessions lie within the run. -/
structure Covers (run : Rerun) (s t : Session) : Prop where
  before : run.first.Grows s.registry
  after : t.Grows run.last

variable {run : Rerun} {s t u : Session} {α β : Type}

theorem Covers.left (h : run.Covers s u) (grows : t.Grows u) : run.Covers s t :=
  ⟨h.before, Registry.Grows.trans grows h.after⟩

theorem Covers.right (h : run.Covers s u) (grows : s.Grows t) : run.Covers t u :=
  ⟨Registry.Grows.trans h.before grows, h.after⟩

/-- The run adds no type in whose place one of the records has been from the start. -/
abbrev Spares (run : Rerun) (ns : List Node) : Prop :=
  ∀ m ∈ ns, ∀ d ∈ m.recordType?, run.last.registry.contains d.id = true →
    run.first.contains d.id = true

/-- The computation gives the result in the last session, and changes nothing but the scope. -/
def Again (run : Rerun) (y : ResolveM α) (a : α) (here there : Scope) : Prop :=
  y { session := run.last, scope := here } = .ok a { session := run.last, scope := there }

namespace Again

variable {here there away : Scope}

theorem pure (a : α) : run.Again (Pure.pure a) a here here := rfl

theorem bind {y : ResolveM α} {f : α → ResolveM β} {a : α} {b : β}
    (hy : run.Again y a here there) (hf : run.Again (f a) b there away) :
    run.Again (y >>= f) b here away :=
  bind_eq_ok_iff.2 ⟨a, _, hy, hf⟩

theorem of_scope {scope : Scope} (h : run.Again ResolveM.scope scope here there) :
    scope = here ∧ there = here := by
  obtain ⟨scope, state⟩ := EStateM.Result.ok.inj h
  exact ⟨scope.symm, (congrArg ResolveState.scope state).symm⟩

theorem registry : run.Again ResolveM.registry run.last.registry here here := rfl

theorem inScope {y : ResolveM α} {a : α} (hy : run.Again y a here.push there) :
    run.Again (ResolveM.inScope y) a here there.pop := by
  unfold Again at hy ⊢
  unfold ResolveM.inScope
  dsimp only
  rw [hy]

/-- A form all of whose calls are bound is left as it is. -/
theorem finish (o : Options) {n : Node} (closed : n.isOpenCall = false) :
    run.Again (ResolveM.finish { options := o } n) n here here := by
  refine finish_default_eq_ok_iff.2 ⟨?_, rfl⟩
  unfold Lowering.hostCalls
  dsimp only
  split
  · cases closed
  · cases closed
  · rfl

/-- A type name that was resolved within the run denotes the same type again. -/
theorem typeName {construct : String} {name : TypeName} {type : TypeRef}
    (h : resolveTypeName construct name s = .ok type t) (covers : run.Covers s t) :
    run.Again (synthesize (resolveTypeName construct name)) type here here := by
  have resolved : s.registry.resolve name.text = (some type, t.registry) := by
    unfold resolveTypeName at h
    split at h
    · rename_i hr
      cases h
      exact hr
    · cases h
  have again := resolve_again (run.sound.of_grows covers.before) resolved covers.after run.distinct
    run.wellNamed
  unfold Again synthesize resolveTypeName
  dsimp only
  rw [again]

end Again

end Rerun

/-! ### Computations over the scope -/

/-- A computation over the scope alone, as one over a session as well. -/
def onScope {α : Type} (y : EStateM CompilationError Scope α) : ResolveM α := fun s =>
  match y s.scope with
  | .ok a scope => .ok a { s with scope }
  | .error e scope => .error e { s with scope }

/-- The computation reads and changes the scope alone. -/
def Local {α : Type} (x : ResolveM α) : Prop := ∃ y, x = onScope y

namespace Local

variable {α β : Type}

theorem pure (a : α) : Local (Pure.pure a) := ⟨Pure.pure a, rfl⟩

theorem bind {x : ResolveM α} {f : α → ResolveM β} (hx : Local x) (hf : ∀ a, Local (f a)) :
    Local (x >>= f) := by
  obtain ⟨y, rfl⟩ := hx
  obtain ⟨g, hg⟩ := Classical.skolem.1 hf
  refine ⟨y >>= g, funext fun s => ?_⟩
  show EStateM.bind (onScope y) f s = onScope (EStateM.bind y g) s
  unfold EStateM.bind onScope
  dsimp only
  cases hy : y s.scope with
  | ok a scope => simp only [hg, onScope]
  | error e scope => rfl

theorem scope : Local ResolveM.scope := ⟨fun scope => .ok scope scope, rfl⟩

theorem ofExcept (x : Except CompilationError α) : Local (ofExcept x) := by
  cases x with
  | ok a => exact pure a
  | error e => exact ⟨throw e, rfl⟩

theorem bindName (name : String) (type : TypeRef) (role : Role) (span : Span) :
    Local (ResolveM.bindName name type role span) :=
  ⟨fun scope => .ok () (scope.bind name ⟨type, role, span⟩), rfl⟩

theorem bindParams (ps : List Param) : Local (ResolveM.bindParams ps) := by
  induction ps with
  | nil => exact pure ()
  | cons q ps ih => exact (bindName ..).bind fun _ => ih

theorem bindFunction (name? : Option String) (wrapper : Descriptor) (span : Span) :
    Local (ResolveM.bindFunction name? wrapper span) := by
  cases name? with
  | none => exact pure ()
  | some name => exact bindName ..

theorem bindSelf (name : String) (d : Descriptor) : Local (ResolveM.bindSelf name d) :=
  bindName ..

theorem bindFields (c? : Option ClassType) (fs : List FieldDecl) :
    Local (ResolveM.bindFields c? fs) := by
  induction fs with
  | nil => exact pure ()
  | cons f fs ih =>
    refine bind ?_ fun _ => ih
    unfold bindField
    cases c?.bind (·.findField? f.name) with
    | some field => exact bindName ..
    | none => exact pure ()

theorem rebind (bs : List LetBinding) : Local (ResolveM.rebind bs) := by
  induction bs with
  | nil => exact pure ()
  | cons b bs ih =>
    refine bind ?_ fun _ => ih
    unfold rebindName
    split
    · refine scope.bind fun here => ?_
      split
      · exact pure ()
      · exact bindName ..
    · exact pure ()

/-- With the types of bindings left as they are, refining them reads no registry. -/
theorem refineBindings (o : Options) (bs : List LetBinding) :
    Local (ResolveM.refineBindings { options := o } bs) := by
  obtain ⟨y, hy⟩ := (rebind bs).bind fun _ => pure bs
  exact ⟨y, hy ▸ rfl⟩

theorem requireBinding (name : String) (span : Span) : Local (ResolveM.requireBinding name span) :=
  scope.bind fun _ => ofExcept _

theorem resolveCaptures (c : CaptureSet) : Local (ResolveM.resolveCaptures c) :=
  scope.bind fun _ => pure _

variable {x : ResolveM α} (h : Local x)
include h

theorem moves {r : Session → Session → Prop} [IsPreorder Session r] :
    Moves (ResolveState.Along r) x where
  run s := by
    obtain ⟨y, rfl⟩ := h
    unfold onScope
    cases y s.scope <;> exact refl_of r s.session

/-- Over the last session it does to the scope what it did before. -/
theorem again {run : Rerun} {s t : ResolveState} {a : α} (hx : x s = .ok a t) :
    run.Again x a s.scope t.scope := by
  obtain ⟨y, rfl⟩ := h
  unfold Rerun.Again
  unfold onScope at hx ⊢
  dsimp only
  cases hy : y s.scope with
  | ok b scope => rw [hy] at hx; cases hx; rfl
  | error e scope => rw [hy] at hx; cases hx

end Local

end TypeSynthesis
