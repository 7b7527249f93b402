import TypeSynthesis.Proofs.Definitions.Resolve
import TypeSynthesis.Proofs.Synthesis.Implement

/-!
# Complete trees

What a reader of a resolved tree need not ask for again: each form says which types it stands for,
and no super call is left.

* `Node.All`: a form and the forms in it satisfy a predicate;
* `Node.Complete`: what a form says of itself is complete;
* `Gives last P x`: every success of `x` that leads to the registry `last` has a result with `P`,
  and `Gives.bind` passes what one step gives on to the next;
* `gives_wrapperOf`, `gives_recordOf`, `gives_objectOf`, `gives_interfaceOf`: what synthesis
  gives to a form that has no type.
-/

namespace TypeSynthesis

open ResolveM SynthM

/-! ### Complete forms -/

/-- The name of the descriptor leads to its identity, and a type is registered there. -/
structure Descriptor.Registered (R : Registry) (d : Descriptor) : Prop where
  named : R.names.get? d.name = some d.id
  contained : R.contains d.id = true

/-- The parameter has a type. -/
def Param.Typed (q : Param) : Prop := q.type?.isSome = true

/-- The method says which signature it implements, and all its parameters have types. -/
structure MethodHead.Complete (m : MethodHead) : Prop where
  implements : m.implements?.isSome = true
  typed : ∀ q ∈ m.self?.toList ++ m.params, q.Typed

namespace Node

/-- What the form says of itself, apart from the forms in it, is complete: a definition has a
registered type, bindings, parameters, clauses and locals have types, and supplied methods have
signatures.  The type of a parameter reference may be unknown.  No super call is complete. -/
def Complete (R : Registry) : Node → Prop
  | .localRef _ _ role type? _ => role ≠ .parameter → type?.isSome = true
  | .letIn _ _ bindings _ => ∀ b ∈ bindings, b.type?.isSome = true
  | .fn _ head arities =>
    (∃ d, head.wrapper? = some d ∧ d.Registered R) ∧ ∀ a ∈ arities, ∀ q ∈ a.head.params, q.Typed
  | .guarded _ _ _ clauses _ => ∀ c ∈ clauses, c.head.type?.isSome = true
  | .record _ head methods =>
    (∃ d, head.descriptor? = some d ∧ d.Registered R) ∧ ∀ m ∈ methods, m.head.Complete
  | .object _ head methods =>
    (∃ d, head.descriptor? = some d ∧ d.Registered R) ∧ ∀ m ∈ methods, m.head.Complete
  | .interface _ head => ∃ d, head.descriptor? = some d ∧ d.Registered R
  | .superCall .. => False
  | _ => True

mutual

/-- The form and every form in it satisfy `P`.  The initializers of locals are walked for the roles
that `opens` tells. -/
def All (opens : Role → Bool) (P : Node → Prop) (n : Node) : Prop :=
  P n ∧ match n with
    | .const .. => True
    | .localRef _ _ role _ init? => opens role = true → AllInOption opens P init?
    | .block _ forms => AllInList opens P forms
    | .cond _ test thenForm elseForm? =>
      All opens P test ∧ All opens P thenForm ∧ AllInOption opens P elseForm?
    | .invoke _ callee args => All opens P callee ∧ AllInList opens P args
    | .staticCall _ _ _ args _ => AllInList opens P args
    | .memberCall _ target _ args _ => All opens P target ∧ AllInList opens P args
    | .throw _ value => All opens P value
    | .letIn _ _ bindings body => AllInBindings opens P bindings ∧ All opens P body
    | .fn _ _ arities => AllInArities opens P arities
    | .guarded _ _ body clauses final? =>
      All opens P body ∧ AllInClauses opens P clauses ∧ AllInOption opens P final?
    | .record _ _ methods => AllInMethods opens P methods
    | .object _ _ methods => AllInMethods opens P methods
    | .superCall _ _ _ args => AllInList opens P args
    | .baseCall _ _ _ target args => All opens P target ∧ AllInList opens P args
    | .interface .. => True

def AllInList (opens : Role → Bool) (P : Node → Prop) : List Node → Prop
  | [] => True
  | n :: ns => All opens P n ∧ AllInList opens P ns

def AllInOption (opens : Role → Bool) (P : Node → Prop) : Option Node → Prop
  | none => True
  | some n => All opens P n

def AllInBindings (opens : Role → Bool) (P : Node → Prop) : List LetBinding → Prop
  | [] => True
  | ⟨_, init, _, _⟩ :: bs => All opens P init ∧ AllInBindings opens P bs

def AllInArities (opens : Role → Bool) (P : Node → Prop) : List Arity → Prop
  | [] => True
  | ⟨_, body⟩ :: as => All opens P body ∧ AllInArities opens P as

def AllInClauses (opens : Role → Bool) (P : Node → Prop) : List CatchClause → Prop
  | [] => True
  | ⟨_, body⟩ :: cs => All opens P body ∧ AllInClauses opens P cs

def AllInMethods (opens : Role → Bool) (P : Node → Prop) : List Method → Prop
  | [] => True
  | ⟨_, body⟩ :: ms => All opens P body ∧ AllInMethods opens P ms

end

end Node

/-! ### What computations give -/

/-- In every success of `x` that leads to the registry `last`, the result satisfies `P`. -/
structure Gives {α : Type} (last : Registry) (P : α → Prop) (x : ResolveM α) : Prop where
  moves : Moves ResolveState.Grows x
  result {s t : ResolveState} {a : α} (h : x s = .ok a t) (hl : t.session.registry.Grows last) :
    P a

namespace Gives

variable {α β : Type} {last : Registry} {P : α → Prop} {Q : β → Prop}

theorem imp {P' : α → Prop} {x : ResolveM α} (hx : Gives last P x) (h : ∀ a, P a → P' a) :
    Gives last P' x :=
  ⟨hx.moves, fun hs hl => h _ (hx.result hs hl)⟩

theorem pure {a : α} (h : P a) : Gives last P (Pure.pure a) where
  moves := .pure a
  result hs _ := by
    obtain ⟨rfl, -⟩ := pure_eq_ok_iff.1 hs
    exact h

/-- What the first step gives is known to the second. -/
theorem bind {x : ResolveM α} {f : α → ResolveM β} (hx : Gives last P x)
    (hf : ∀ a, Gives last (fun b => P a → Q b) (f a)) : Gives last Q (x >>= f) where
  moves := hx.moves.bind fun a => (hf a).moves
  result hs hl := by
    obtain ⟨a, u, h₁, h₂⟩ := bind_eq_ok_iff.1 hs
    have rest : u.session.registry.Grows _ := (hf a).moves.of_ok h₂
    exact (hf a).result h₂ hl (hx.result h₁ (rest.trans hl))

/-- A step that says nothing about its result. -/
theorem andThen {x : ResolveM α} {f : α → ResolveM β} (hx : Moves ResolveState.Grows x)
    (hf : ∀ a, Gives last Q (f a)) : Gives last Q (x >>= f) :=
  bind (P := fun _ => True) ⟨hx, fun _ _ => trivial⟩ fun a => (hf a).imp fun _ hb _ => hb

theorem inScope {x : ResolveM α} (hx : Gives last P x) : Gives last P (ResolveM.inScope x) where
  moves := growth.inScope hx.moves
  result hs hl := by
    obtain ⟨u, hu, rfl⟩ := inScope_eq_ok hs
    exact hx.result hu hl

end Gives

variable {last : Registry}

/-- The default lowerings only say which members are called. -/
theorem gives_finish (o : Options) {opens : Role → Bool} (n : Node) :
    Gives last (fun n' => n.All opens (Node.Complete last) → n'.All opens (Node.Complete last))
      (finish { options := o } n) where
  moves := moves_finish ..
  result hs _ := by
    intro hn
    have lowered := (finish_default_eq_ok_iff.1 hs).1
    unfold Lowering.hostCalls at lowered
    dsimp only at lowered
    split at lowered <;> cases lowered
    · exact hn
    · exact hn
    · exact hn

/-- With the types of bindings left as they are, refining changes no binding. -/
theorem gives_refineBindings (o : Options) (bs : List LetBinding) :
    Gives last (fun bs' => bs' = bs) (refineBindings { options := o } bs) :=
  ⟨growth.refineBindings .., fun hs _ => (refineBindings_eq_ok hs).1⟩

/-- What a super call is bound to is a call on a local that has a type. -/
theorem gives_bindSuperCall (opens : Role → Bool) (R : Registry) (here : Scope) (span : Span)
    (method selfName : String) (args : List Node) :
    Gives last
      (fun n => Node.AllInList opens (Node.Complete last) args →
        n.All opens (Node.Complete last))
      (ofExcept (bindSuperCall R here span method selfName args)) where
  moves := .ofExcept _
  result hs _ := by
    intro hargs
    obtain ⟨self, base, m, -, -, -, rfl⟩ := bindSuperCall_eq_ok_iff.1 (ofExcept_eq_ok_iff.1 hs).1
    exact ⟨trivial, ⟨fun _ => rfl, fun _ => trivial⟩, hargs⟩

/-! ### Synthesis -/

theorem Descriptor.Registered.mono {R S : Registry} {d : Descriptor} (h : d.Registered R)
    (grows : R.Grows S) : d.Registered S :=
  ⟨Registry.names_get?_of_grows grows h.named, Registry.contains_of_grows grows h.contained⟩

/-- What is registered is found under the name and the identity that it has. -/
theorem registered_of_register {R S : Registry} {e : Entry} (h : R.register e = .ok S) :
    Descriptor.Registered S ⟨e.name, e.id⟩ := by
  obtain ⟨-, -, rfl⟩ := Registry.register_eq_ok_iff.1 h
  constructor
  · rw [Registry.names_get?_add, if_pos rfl]
  · exact Registry.contains_eq_true_iff.2 ⟨e, by rw [Registry.get?_add, if_pos rfl]⟩

/-- A class that is finished after its draft is registered in the end. -/
theorem gives_synthesize {β : Type} {draft : SynthM (ClassType × β)} {P : β → Prop}
    (moves : Moves Session.Grows draft)
    (hP : ∀ {s x t}, draft s = .ok x t → P x.2) :
    Gives last (fun r => r.1.Registered last ∧ P r.2)
      (synthesize (draft >>= fun x => do return (← SynthM.finish x.1, x.2))) where
  moves := growth.synthesize (moves.bind fun _ =>
    (Session.grows_respected.finish _).bind fun _ => .pure _)
  result hs hl := by
    obtain ⟨h, -⟩ := synthesize_eq_ok hs
    obtain ⟨⟨c, b⟩, u, hc, h⟩ := bind_eq_ok_iff.1 h
    obtain ⟨d, v, hd, h⟩ := bind_eq_ok_iff.1 h
    obtain ⟨rfl, rfl⟩ := pure_eq_ok_iff.1 h
    obtain ⟨registers, rfl⟩ := register_of_finish hd
    exact ⟨(registered_of_register registers).mono hl, hP hc⟩

theorem typed_resolveParam {construct : String} {q q' : Param} {s t : Session}
    (h : resolveParam construct q s = .ok q' t) : q'.Typed := by
  obtain ⟨type, u, -, h⟩ := bind_eq_ok_iff.1 h
  obtain ⟨rfl, -⟩ := pure_eq_ok_iff.1 h
  rfl

theorem typed_resolveArity {o : Options} {construct : String} {invokers : List TypeId}
    {a : ArityHead} {r : List TypeId × ArityHead} {s t : Session}
    (h : resolveArity o construct invokers a s = .ok r t) : ∀ q ∈ r.2.params, q.Typed := by
  obtain ⟨⟨⟩, _, -, h⟩ := bind_eq_ok_iff.1 h
  obtain ⟨params, _, hparams, h⟩ := bind_eq_ok_iff.1 h
  obtain ⟨result, _, -, h⟩ := bind_eq_ok_iff.1 h
  obtain ⟨definition, _, -, h⟩ := bind_eq_ok_iff.1 h
  obtain ⟨natural, _, -, h⟩ := bind_eq_ok_iff.1 h
  obtain ⟨boxed, _, -, h⟩ := bind_eq_ok_iff.1 h
  obtain ⟨rfl, -⟩ := pure_eq_ok_iff.1 h
  exact forall_mem_of_mapM typed_resolveParam hparams

theorem typed_resolveArities {o : Options} {construct : String} {invokers : List TypeId}
    {as : List ArityHead} {r : List TypeId × List ArityHead} {s t : Session}
    (h : SynthM.resolveArities o construct invokers as s = .ok r t) :
    ∀ a ∈ r.2, ∀ q ∈ a.params, q.Typed := by
  induction as generalizing invokers r s t with
  | nil =>
    obtain ⟨rfl, -⟩ := pure_eq_ok_iff.1 h
    exact nofun
  | cons a as ih =>
    obtain ⟨⟨invokers', a'⟩, u, ha, h⟩ := bind_eq_ok_iff.1 h
    obtain ⟨⟨invokers'', as'⟩, v, has, h⟩ := bind_eq_ok_iff.1 h
    obtain ⟨rfl, -⟩ := pure_eq_ok_iff.1 h
    exact List.forall_mem_cons.2 ⟨typed_resolveArity ha, ih has⟩

theorem gives_wrapperOf (o : Options) {head : FnHead} (as : List ArityHead)
    (fresh : head.wrapper? = none) :
    Gives last (fun r => r.1.Registered last ∧ ∀ a ∈ r.2, ∀ q ∈ a.params, q.Typed)
      (wrapperOf { options := o } head as) := by
  unfold wrapperOf
  rw [fresh, synthesizeWrapper_eq]
  dsimp only
  refine gives_synthesize (P := fun as => ∀ a ∈ as, ∀ q ∈ a.params, q.Typed)
    (Session.grows_respected.draftWrapper ..) fun h => ?_
  obtain ⟨⟨invokers, as'⟩, _, has, h⟩ := bind_eq_ok_iff.1 h
  obtain ⟨name, _, -, h⟩ := bind_eq_ok_iff.1 h
  obtain ⟨draft, _, -, h⟩ := bind_eq_ok_iff.1 h
  obtain ⟨draft', _, -, h⟩ := bind_eq_ok_iff.1 h
  obtain ⟨rfl, -⟩ := pure_eq_ok_iff.1 h
  exact typed_resolveArities has

theorem MethodHead.Annotated.complete {new : TypeId} {given done : MethodHead} {sig : Signature}
    (h : Annotated new given done sig) : done.Complete where
  implements := by rw [h.implements]; rfl
  typed q hq := by
    rcases List.mem_append.1 hq with hq | hq
    · rw [h.receiver] at hq
      obtain ⟨p, -, rfl⟩ := Option.map_eq_some_iff.1 (Option.mem_toList.1 hq)
      rfl
    · have typed : q.type? ∈ sig.params.map some := by
        rw [← h.types]
        exact List.mem_map_of_mem hq
      obtain ⟨type, -, htype⟩ := List.mem_map.1 typed
      show q.type?.isSome = true
      rw [← htype]
      rfl

theorem complete_implementAll {construct : String} {candidates : Candidates}
    {draft draft' : ClassType} {ms ms' : List MethodHead} {s t : Session}
    (h : implementAll construct candidates draft ms s = .ok (draft', ms') t) :
    ∀ m ∈ ms', m.Complete := by
  induction ms generalizing draft ms' s with
  | nil =>
    obtain ⟨h, -⟩ := pure_eq_ok_iff.1 h
    cases h
    exact List.forall_mem_nil _
  | cons m ms ih =>
    obtain ⟨sig, u, hsig, h⟩ := bind_eq_ok_iff.1 h
    obtain ⟨⟨done, ms₁⟩, v, hms, h⟩ := bind_eq_ok_iff.1 h
    obtain ⟨h, rfl⟩ := pure_eq_ok_iff.1 h
    cases h
    have arity := (selects_resolveMethod hsig).arity
    exact List.forall_mem_cons.2 ⟨(MethodHead.annotated_implement _ arity).complete, ih hms⟩

theorem gives_recordOf (o : Options) {head : RecordHead} (ms : List MethodHead)
    (fresh : head.descriptor? = none) :
    Gives last (fun r => r.1.Registered last ∧ ∀ m ∈ r.2, m.Complete)
      (recordOf { options := o } head ms) := by
  unfold recordOf
  rw [fresh, synthesizeRecord_eq]
  dsimp only
  refine gives_synthesize (P := fun ms => ∀ m ∈ ms, m.Complete)
    (Session.grows_respected.draftRecord ..) fun h => ?_
  obtain ⟨interfaces, _, -, h⟩ := bind_eq_ok_iff.1 h
  obtain ⟨draft, _, -, h⟩ := bind_eq_ok_iff.1 h
  obtain ⟨draft', _, -, h⟩ := bind_eq_ok_iff.1 h
  obtain ⟨R, _, -, h⟩ := bind_eq_ok_iff.1 h
  obtain ⟨⟨done, heads⟩, _, hmethods, h⟩ := bind_eq_ok_iff.1 h
  obtain ⟨rfl, -⟩ := pure_eq_ok_iff.1 h
  exact complete_implementAll hmethods

theorem gives_objectOf (o : Options) {head : ObjectHead} (ms : List MethodHead)
    (fresh : head.descriptor? = none) :
    Gives last (fun r => r.1.Registered last ∧ ∀ m ∈ r.2, m.Complete)
      (objectOf { options := o } head ms) := by
  unfold objectOf
  rw [fresh, synthesizeObject_eq]
  dsimp only
  refine gives_synthesize (P := fun ms => ∀ m ∈ ms, m.Complete)
    (Session.grows_respected.draftObject ..) fun h => ?_
  obtain ⟨supers, _, -, h⟩ := bind_eq_ok_iff.1 h
  obtain ⟨name, _, -, h⟩ := bind_eq_ok_iff.1 h
  obtain ⟨draft, _, -, h⟩ := bind_eq_ok_iff.1 h
  obtain ⟨R, _, -, h⟩ := bind_eq_ok_iff.1 h
  obtain ⟨⟨done, heads⟩, _, hmethods, h⟩ := bind_eq_ok_iff.1 h
  obtain ⟨R', _, -, h⟩ := bind_eq_ok_iff.1 h
  obtain ⟨rfl, -⟩ := pure_eq_ok_iff.1 h
  exact complete_implementAll hmethods

theorem gives_interfaceOf (o : Options) {head : InterfaceHead} (fresh : head.descriptor? = none) :
    Gives last (fun d => d.Registered last) (interfaceOf { options := o } head) where
  moves := growth.interfaceOf ..
  result hs hl := by
    unfold interfaceOf at hs
    rw [fresh] at hs
    obtain ⟨h, -⟩ := synthesize_eq_ok hs
    rw [synthesizeInterface_eq] at h
    obtain ⟨i, u, -, hd⟩ := bind_eq_ok_iff.1 h
    obtain ⟨registers, rfl⟩ := register_of_finishInterface hd
    exact (registered_of_register registers).mono hl

end TypeSynthesis
