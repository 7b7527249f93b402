import TypeSynthesis.Proofs.Synthesis.Drafts
import TypeSynthesis.Resolve.Node

/-!
# The steps of resolution

Resolution opens and closes scopes, binds names, and lets synthesis change the session.  Three
relations that fit these steps therefore hold across the resolution of every form, also where it
fails half way.

* `Session.Kept r`: the preorder `r` holds across every synthesis that resolution asks for;
* `Discipline grow inner outer`: `grow` relates sessions, `inner` the states within one scope, and
  `outer` the states around a form, and they fit the steps;
* `Discipline.resolve`: the resolution of a form goes along `outer`;
* `Discipline.each`, `Discipline.bindings`, `Discipline.methods` and their kin: the same for the
  lists that forms are made of;
* `Session.Kept.discipline`, `Session.Respected.discipline`: a relation on sessions alone, whatever
  the scopes.
-/

namespace TypeSynthesis

open ResolveM

/-- A preorder on sessions that holds across every synthesis that resolution asks for. -/
structure Session.Kept (r : Session → Session → Prop) [IsPreorder Session r] : Prop where
  typeName (construct : String) (name : TypeName) : Moves r (SynthM.resolveTypeName construct name)
  wrapper (o : Options) (name? : Option String) (as : List ArityHead) :
    Moves r (SynthM.synthesizeWrapper o name? as)
  record (o : Options) (head : RecordHead) (ms : List MethodHead) :
    Moves r (SynthM.synthesizeRecord o head ms)
  object (o : Options) (head : ObjectHead) (ms : List MethodHead) :
    Moves r (SynthM.synthesizeObject o head ms)
  interface (o : Options) (head : InterfaceHead) : Moves r (SynthM.synthesizeInterface o head)

/-- What the steps of synthesis respect holds across every synthesis. -/
theorem Session.Respected.kept {r : Session → Session → Prop} [IsPreorder Session r]
    (hr : Session.Respected r) : Session.Kept r where
  typeName := hr.typeName
  wrapper := hr.wrapper
  record := hr.record
  object := hr.object
  interface := hr.interface

/-- Relations that fit the steps of resolution. -/
structure Discipline (grow : Session → Session → Prop) [IsPreorder Session grow]
    (inner outer : ResolveState → ResolveState → Prop) [IsPreorder ResolveState inner]
    [IsPreorder ResolveState outer] : Prop where
  grow_kept : Session.Kept grow
  inner_of_outer {s t : ResolveState} : outer s t → inner s t
  outer_of_grow {s : ResolveState} {t : Session} :
    grow s.session t → outer s { s with session := t }
  inner_bind (s : ResolveState) (name : String) (b : Binding) :
    inner s { s with scope := s.scope.bind name b }
  outer_close {s t : ResolveState} :
    inner { s with scope := s.scope.push } t → outer s { t with scope := t.scope.pop }

/-! ### Steps that only read the state -/

namespace ResolveM

variable {r : ResolveState → ResolveState → Prop} [IsPreorder ResolveState r]

theorem moves_registry : Moves r registry := .of_id fun _ => rfl

theorem moves_scope : Moves r scope := .of_id fun _ => rfl

theorem moves_finish (p : Pipeline) (n : Node) : Moves r (finish p n) :=
  moves_registry.bind fun _ => .ofExcept _

theorem moves_parameterType (name : String) (type? : Option TypeRef) (init? : Option Node) :
    Moves r (parameterType name type? init?) := by
  unfold parameterType
  cases init? with
  | none => exact moves_scope.bind fun _ => .pure _
  | some init => exact .pure _

theorem moves_requireBinding (name : String) (span : Span) :
    Moves r (requireBinding name span) :=
  moves_scope.bind fun _ => .ofExcept _

theorem moves_resolveCaptures (c : CaptureSet) : Moves r (resolveCaptures c) :=
  moves_scope.bind fun _ => .pure _

theorem moves_resolveCaptures? (c? : Option CaptureSet) : Moves r (resolveCaptures? c?) :=
  moves_scope.bind fun _ => .pure _

end ResolveM

namespace Discipline

variable {grow : Session → Session → Prop} {inner outer : ResolveState → ResolveState → Prop}
  [IsPreorder Session grow] [IsPreorder ResolveState inner] [IsPreorder ResolveState outer]

section Steps

variable (D : Discipline grow inner outer)
include D

/-! ### Steps that change the session or the scope -/

theorem toInner {α : Type} {x : ResolveM α} (h : Moves outer x) : Moves inner x :=
  h.mono fun _ _ => D.inner_of_outer

theorem synthesize {α : Type} {x : SynthM α} (h : Moves grow x) :
    Moves outer (ResolveM.synthesize x) where
  run s := by
    have h := h.run s.session
    unfold ResolveM.synthesize
    revert h
    cases x s.session <;> exact D.outer_of_grow

theorem inScope {α : Type} {x : ResolveM α} (h : Moves inner x) :
    Moves outer (ResolveM.inScope x) where
  run s := by
    have h := h.run { s with scope := s.scope.push }
    unfold ResolveM.inScope
    revert h
    cases x { s with scope := s.scope.push } <;> exact D.outer_close

theorem wrapperOf (p : Pipeline) (head : FnHead) (as : List ArityHead) :
    Moves outer (ResolveM.wrapperOf p head as) := by
  unfold ResolveM.wrapperOf
  split
  · exact .pure _
  · exact D.synthesize (D.grow_kept.wrapper ..)

theorem recordOf (p : Pipeline) (head : RecordHead) (ms : List MethodHead) :
    Moves outer (ResolveM.recordOf p head ms) := by
  unfold ResolveM.recordOf
  split
  · exact .pure _
  · exact D.synthesize (D.grow_kept.record ..)

theorem objectOf (p : Pipeline) (head : ObjectHead) (ms : List MethodHead) :
    Moves outer (ResolveM.objectOf p head ms) := by
  unfold ResolveM.objectOf
  split
  · exact .pure _
  · exact D.synthesize (D.grow_kept.object ..)

theorem interfaceOf (p : Pipeline) (head : InterfaceHead) :
    Moves outer (ResolveM.interfaceOf p head) := by
  unfold ResolveM.interfaceOf
  split
  · exact .pure _
  · exact D.synthesize (D.grow_kept.interface ..)

theorem bindName (name : String) (type : TypeRef) (role : Role) (span : Span) :
    Moves inner (ResolveM.bindName name type role span) :=
  ⟨fun s => D.inner_bind s name _⟩

theorem bindParams (ps : List Param) : Moves inner (ResolveM.bindParams ps) := by
  induction ps with
  | nil => exact .pure _
  | cons q ps ih => exact (D.bindName ..).bind fun _ => ih

theorem bindFunction (name? : Option String) (wrapper : Descriptor) (span : Span) :
    Moves inner (ResolveM.bindFunction name? wrapper span) := by
  cases name? with
  | none => exact .pure _
  | some name => exact D.bindName ..

theorem bindField (c? : Option ClassType) (f : FieldDecl) :
    Moves inner (ResolveM.bindField c? f) := by
  unfold ResolveM.bindField
  split
  · exact D.bindName ..
  · exact .pure _

theorem bindFields (c? : Option ClassType) (fs : List FieldDecl) :
    Moves inner (ResolveM.bindFields c? fs) := by
  induction fs with
  | nil => exact .pure _
  | cons f fs ih => exact (D.bindField c? f).bind fun _ => ih

theorem rebindName (b : LetBinding) : Moves inner (ResolveM.rebindName b) := by
  unfold ResolveM.rebindName
  split
  · refine moves_scope.bind fun _ => ?_
    split
    · exact .pure _
    · exact D.bindName ..
  · exact .pure _

theorem rebind (bs : List LetBinding) : Moves inner (ResolveM.rebind bs) := by
  induction bs with
  | nil => exact .pure _
  | cons b bs ih => exact (D.rebindName b).bind fun _ => ih

theorem refineBindings (p : Pipeline) (bs : List LetBinding) :
    Moves inner (ResolveM.refineBindings p bs) :=
  moves_registry.bind fun _ => (D.rebind _).bind fun _ => .pure _

end Steps

/-! ### Forms

The induction is over the input tree, one case for each kind of form.  Between opening and
closing a scope a case goes along the inner relation, and `inScope` brings it back to the outer
one. -/

mutual

/-- The resolution of a form goes along the outer relation. -/
theorem resolve (D : Discipline grow inner outer) (p : Pipeline) :
    ∀ n : Node, Moves outer (n.resolve p)
  | .const span value => by
    unfold Node.resolve
    exact moves_finish ..
  | .localRef span name role type? init? => by
    unfold Node.resolve
    split
    · refine (D.optional p init?).bind fun _ => ?_
      exact (moves_parameterType ..).bind fun _ => moves_finish ..
    · exact (moves_requireBinding ..).bind fun _ => moves_finish ..
  | .block span forms => by
    unfold Node.resolve
    exact (D.each p forms).bind fun _ => moves_finish ..
  | .cond span test thenForm elseForm? => by
    unfold Node.resolve
    refine (D.resolve p test).bind fun _ => ?_
    refine (D.resolve p thenForm).bind fun _ => ?_
    exact (D.optional p elseForm?).bind fun _ => moves_finish ..
  | .invoke span callee args => by
    unfold Node.resolve
    refine (D.resolve p callee).bind fun _ => ?_
    exact (D.each p args).bind fun _ => moves_finish ..
  | .staticCall span owner member args resolved? => by
    unfold Node.resolve
    exact (D.each p args).bind fun _ => moves_finish ..
  | .memberCall span target member args resolved? => by
    unfold Node.resolve
    refine (D.resolve p target).bind fun _ => ?_
    exact (D.each p args).bind fun _ => moves_finish ..
  | .throw span value => by
    unfold Node.resolve
    exact (D.resolve p value).bind fun _ => moves_finish ..
  | .letIn span isLoop bindings body => by
    unfold Node.resolve
    refine (D.inScope ?_).bind fun _ => moves_finish ..
    refine (D.bindings p bindings).bind fun _ => ?_
    refine (D.refineBindings ..).bind fun _ => ?_
    exact (D.toInner (D.resolve p body)).bind fun _ => .pure _
  | .fn span head as => by
    unfold Node.resolve
    refine (moves_resolveCaptures? _).bind fun _ => ?_
    refine (D.wrapperOf ..).bind fun _ => ?_
    exact (D.arities p (D.bindFunction ..) _ as).bind fun _ => moves_finish ..
  | .guarded span captures? body cs final? => by
    unfold Node.resolve
    refine (moves_resolveCaptures? _).bind fun _ => ?_
    refine (D.inScope (D.toInner (D.resolve p body))).bind fun _ => ?_
    refine (D.clauses p cs).bind fun _ => ?_
    exact (D.inScope (D.toInner (D.optional p final?))).bind fun _ => moves_finish ..
  | .record span head ms => by
    unfold Node.resolve
    refine (D.recordOf ..).bind fun _ => moves_registry.bind fun _ => ?_
    refine (D.inScope ?_).bind fun _ => moves_finish ..
    refine (D.bindName ..).bind fun _ => (D.bindFields ..).bind fun _ => ?_
    exact D.toInner (D.methods p _ ms)
  | .object span head ms => by
    unfold Node.resolve
    refine (D.objectOf ..).bind fun _ => (D.inScope ?_).bind fun _ => ?_
    · exact (D.bindName ..).bind fun _ => D.toInner (D.methods p _ ms)
    · exact (moves_resolveCaptures _).bind fun _ => moves_finish ..
  | .superCall span method selfName args => by
    unfold Node.resolve
    refine (D.each p args).bind fun _ => moves_registry.bind fun _ => moves_scope.bind fun _ => ?_
    exact (Moves.ofExcept _).bind fun _ => moves_finish ..
  | .baseCall span base method target args => by
    unfold Node.resolve
    refine (D.resolve p target).bind fun _ => ?_
    exact (D.each p args).bind fun _ => moves_finish ..
  | .interface span head => by
    unfold Node.resolve
    exact (D.interfaceOf ..).bind fun _ => moves_finish ..

theorem each (D : Discipline grow inner outer) (p : Pipeline) :
    ∀ ns : List Node, Moves outer (resolveEach p ns)
  | [] => .pure _
  | n :: ns => by
    unfold resolveEach
    exact (D.resolve p n).bind fun _ => (D.each p ns).bind fun _ => .pure _

theorem optional (D : Discipline grow inner outer) (p : Pipeline) :
    ∀ n? : Option Node, Moves outer (resolveOptional p n?)
  | none => .pure _
  | some n => by
    unfold resolveOptional
    exact (D.resolve p n).bind fun _ => .pure _

/-- Bindings stay in the scope that is open, so they go along the inner relation only. -/
theorem bindings (D : Discipline grow inner outer) (p : Pipeline) :
    ∀ bs : List LetBinding, Moves inner (resolveBindings p bs)
  | [] => .pure _
  | ⟨name, init, _, span⟩ :: bs => by
    unfold resolveBindings
    refine (D.toInner (D.resolve p init)).bind fun _ => ?_
    refine (D.bindName ..).bind fun _ => ?_
    exact (D.bindings p bs).bind fun _ => .pure _

theorem arities (D : Discipline grow inner outer) (p : Pipeline) {bindSelf : ResolveM Unit}
    (h : Moves inner bindSelf) : ∀ (heads : List ArityHead) (as : List Arity),
      Moves outer (resolveArities p bindSelf heads as)
  | head :: heads, ⟨_, body⟩ :: as => by
    unfold resolveArities
    refine (D.inScope ?_).bind fun _ => (D.arities p h heads as).bind fun _ => .pure _
    exact h.bind fun _ => (D.bindParams _).bind fun _ => D.toInner (D.resolve p body)
  | [], _ | _ :: _, [] => by
    unfold resolveArities
    exact .pure _

theorem clauses (D : Discipline grow inner outer) (p : Pipeline) :
    ∀ cs : List CatchClause, Moves outer (resolveClauses p cs)
  | [] => .pure _
  | ⟨head, body⟩ :: cs => by
    unfold resolveClauses
    refine (D.synthesize (D.grow_kept.typeName ..)).bind fun _ => ?_
    refine (D.inScope ?_).bind fun _ => (D.clauses p cs).bind fun _ => .pure _
    exact (D.bindName ..).bind fun _ => D.toInner (D.resolve p body)

theorem methods (D : Discipline grow inner outer) (p : Pipeline) :
    ∀ (heads : List MethodHead) (ms : List Method), Moves outer (resolveMethods p heads ms)
  | head :: heads, ⟨_, body⟩ :: ms => by
    unfold resolveMethods
    refine (moves_resolveCaptures _).bind fun _ => ?_
    refine (D.inScope ?_).bind fun _ => (D.methods p heads ms).bind fun _ => .pure _
    exact (D.bindParams _).bind fun _ => D.toInner (D.resolve p body)
  | [], _ | _ :: _, [] => by
    unfold resolveMethods
    exact .pure _

end

end Discipline

/-! ### Sessions alone -/

/-- The sessions of the states are related, and the scopes are whatever they are. -/
def ResolveState.Along (r : Session → Session → Prop) (s t : ResolveState) : Prop :=
  r s.session t.session

section Along

variable {r : Session → Session → Prop} [IsPreorder Session r]

instance : IsPreorder ResolveState (ResolveState.Along r) where
  refl s := refl_of r s.session
  trans _ _ _ h h' := trans_of r h h'

/-- What holds across every synthesis holds across resolution. -/
theorem Session.Kept.discipline (hr : Session.Kept r) :
    Discipline r (ResolveState.Along r) (ResolveState.Along r) where
  grow_kept := hr
  inner_of_outer := id
  outer_of_grow := id
  inner_bind s _ _ := refl_of r s.session
  outer_close := id

/-- What the steps of synthesis respect holds across resolution. -/
theorem Session.Respected.discipline (hr : Session.Respected r) :
    Discipline r (ResolveState.Along r) (ResolveState.Along r) :=
  hr.kept.discipline

end Along

end TypeSynthesis
