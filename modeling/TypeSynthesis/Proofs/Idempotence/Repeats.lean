import TypeSynthesis.Proofs.Idempotence.Basic
import TypeSynthesis.Proofs.Resolve.Heads

/-!
# What the steps of resolution repeat

That a resolved form is resolved again to itself is put together from what the steps of its
resolution do when they are repeated.

* `Repeats run P x`: every success of `x` within the run has a result that stands to the states
  around it as `P` says, and `Repeats.bind` passes what is known of one step on to the next;
* `Repeats.of_local`: what is done to the scope alone can be done again;
* `Settles run C y x`: the results of `x` that satisfy `C` are given again by `y`;
* `repeats_wrapperOf`, `repeats_recordOf`, `repeats_objectOf`, `repeats_interfaceOf`: the scope
  is kept while types are synthesized;
* `again_localRef`: a reference to a name in view has the type of its binding.
-/

namespace TypeSynthesis

open ResolveM SynthM Node Registry

/-- Every success within the run has a result that stands to the states before and after it as `P`
says. -/
structure Repeats {α : Type} (run : Rerun) (P : α → ResolveState → ResolveState → Prop)
    (x : ResolveM α) : Prop where
  moves : Moves ResolveState.Grows x
  result {s t : ResolveState} {a : α} (h : x s = .ok a t)
    (covers : run.Covers s.session t.session) : P a s t

namespace Repeats

variable {α β : Type} {run : Rerun} {P : α → ResolveState → ResolveState → Prop}
  {Q : β → ResolveState → ResolveState → Prop}

theorem imp {P' : α → ResolveState → ResolveState → Prop} {x : ResolveM α} (hx : Repeats run P x)
    (h : ∀ a s t, P a s t → P' a s t) : Repeats run P' x :=
  ⟨hx.moves, fun hs covers => h _ _ _ (hx.result hs covers)⟩

theorem pure {a : α} (h : ∀ s, P a s s) : Repeats run P (Pure.pure a) where
  moves := .pure a
  result hs _ := by
    obtain ⟨rfl, rfl⟩ := pure_eq_ok_iff.1 hs
    exact h _

/-- What is known of the first step is known to the second. -/
theorem bind {x : ResolveM α} {f : α → ResolveM β} (hx : Repeats run P x)
    (hf : ∀ a, Repeats run (fun b t u => ∀ s, P a s t → Q b s u) (f a)) :
    Repeats run Q (x >>= f) where
  moves := hx.moves.bind fun a => (hf a).moves
  result hs covers := by
    obtain ⟨a, u, h₁, h₂⟩ := bind_eq_ok_iff.1 hs
    have grows := hx.moves.of_ok h₁
    have grows' := (hf a).moves.of_ok h₂
    exact (hf a).result h₂ (covers.right grows) _ (hx.result h₁ (covers.left grows'))

/-- What holds of every success is known as well. -/
theorem with_of {C : α → ResolveState → ResolveState → Prop} {x : ResolveM α}
    (hx : Repeats run P x) (hC : ∀ {s t a}, x s = .ok a t → C a s t) :
    Repeats run (fun a s t => C a s t ∧ P a s t) x :=
  ⟨hx.moves, fun hs covers => ⟨hC hs, hx.result hs covers⟩⟩

/-- What is done to the scope alone can be done again. -/
theorem of_local {x : ResolveM α} (h : Local x) :
    Repeats run (fun a s t => run.Again x a s.scope t.scope) x :=
  ⟨h.moves, fun hs _ => h.again hs⟩

end Repeats

/-- The default lowerings only say which members are called. -/
theorem repeats_finish {run : Rerun} (o : Options) (n : Node) :
    Repeats run (fun n' s t => s = t ∧ ∃ R, Lowering.hostCalls.run R n = .ok n')
      (finish { options := o } n) where
  moves := moves_finish ..
  result h _ := by
    obtain ⟨h, same⟩ := finish_default_eq_ok_iff.1 h
    exact ⟨same, _, h⟩

/-- A form is finished when all its parts are resolved. -/
theorem Repeats.finish {α : Type} {run : Rerun} {P : α → ResolveState → ResolveState → Prop}
    {Q : Node → ResolveState → ResolveState → Prop} {x : ResolveM α} (hx : Repeats run P x)
    (o : Options) (form : α → Node)
    (h : ∀ a n R s t, Lowering.hostCalls.run R (form a) = .ok n → P a s t → Q n s t) :
    Repeats run Q (x >>= fun a => ResolveM.finish { options := o } (form a)) :=
  hx.bind fun a => (repeats_finish o (form a)).imp fun n t u hn s hP => by
    obtain ⟨rfl, R, hn⟩ := hn
    exact h a n R s t hn hP

theorem hostCalls_staticCall {R : Registry} {span : Span} {owner : TypeName} {member : String}
    {args : List Node} {resolved? : Option Signature} {n : Node}
    (h : Lowering.hostCalls.run R (.staticCall span owner member args resolved?) = .ok n) :
    ∃ found?, n = .staticCall span owner member args found? := by
  cases resolved? <;> cases h <;> exact ⟨_, rfl⟩

theorem hostCalls_memberCall {R : Registry} {span : Span} {target : Node} {member : String}
    {args : List Node} {resolved? : Option Signature} {n : Node}
    (h : Lowering.hostCalls.run R (.memberCall span target member args resolved?) = .ok n) :
    ∃ found?, n = .memberCall span target member args found? := by
  cases resolved? <;> cases h <;> exact ⟨_, rfl⟩

/-! ### Results that are given again -/

/-- Every result `a` of `x` within the run that satisfies `C` is given again by `y a`. -/
abbrev Settles {α : Type} (run : Rerun) (C : α → Prop) (y : α → ResolveM α) (x : ResolveM α) :
    Prop :=
  Repeats run (fun a s t => C a → run.Again (y a) a s.scope t.scope) x

namespace Settles

variable {α : Type} {run : Rerun} {C : α → Prop} {x : ResolveM α} {y : α → ResolveM α}

/-- The names that were bound before are bound before once more. -/
theorem after {b : ResolveM Unit} (hb : Local b) (hx : Settles run C y x) :
    Settles run C (fun a => b >>= fun _ => y a) (b >>= fun _ => x) :=
  (Repeats.of_local hb).bind fun _ => hx.imp fun _ _ _ h _ hb closed => hb.bind (h closed)

theorem inScope (hx : Settles run C y x) :
    Settles run C (fun a => ResolveM.inScope (y a)) (ResolveM.inScope x) where
  moves := growth.inScope hx.moves
  result hs covers := by
    obtain ⟨u, hu, rfl⟩ := inScope_eq_ok hs
    exact fun closed => (hx.result hu covers closed).inScope

end Settles

/-- With the types of bindings left as they are, refining them once more changes nothing. -/
theorem settles_letIn {run : Rerun} (o : Options) {x : ResolveM (List LetBinding)}
    {y : ResolveM Node} {C : List LetBinding → Prop} {D : Node → Prop}
    {x' : List LetBinding → ResolveM (List LetBinding)} {y' : Node → ResolveM Node}
    (hx : Settles run C x' x) (hy : Settles run D y' y) :
    Settles run (fun r => C r.1 ∧ D r.2)
      (fun r => do
        let bs ← x' r.1
        let bs ← refineBindings { options := o } bs
        let body ← y' r.2
        return (bs, body))
      (do
        let bs ← x
        let bs ← refineBindings { options := o } bs
        let body ← y
        return (bs, body)) := by
  refine hx.bind fun bs => ?_
  have same : Repeats run
      (fun bs' s t => bs' = bs ∧
        run.Again (refineBindings { options := o } bs) bs' s.scope t.scope)
      (refineBindings { options := o } bs) :=
    (Repeats.of_local (.refineBindings o bs)).with_of (C := fun bs' _ _ => bs' = bs)
      fun h => (refineBindings_eq_ok h).1
  refine same.bind fun bs' => hy.bind fun body => .pure fun v u hbody t h s hbs closed => ?_
  obtain ⟨rfl, hrefine⟩ := h
  exact (hbs closed.1).bind (hrefine.bind ((hbody closed.2).bind (.pure _)))

/-! ### Steps that are no forms -/

variable {run : Rerun}

theorem repeats_typeName (construct : String) (name : TypeName) :
    Repeats run
      (fun type s t => run.Again (synthesize (resolveTypeName construct name)) type s.scope t.scope)
      (synthesize (resolveTypeName construct name)) where
  moves := growth.synthesize (Session.grows_respected.typeName ..)
  result h covers := by
    obtain ⟨h, scope⟩ := synthesize_eq_ok h
    rw [scope]
    exact .typeName h covers

theorem CaptureSet.resolveIn_resolveIn (c : CaptureSet) (scope : Scope) :
    (c.resolveIn scope).resolveIn scope = c.resolveIn scope := by
  refine CaptureSet.ext ?_
  unfold resolveIn update
  dsimp only
  rw [List.map_map]
  refine List.map_congr_left fun d _ => ?_
  dsimp only [Function.comp_apply]
  cases scope.get? d.name <;> rfl

/-- Captures that are typed are typed alike in the same scope. -/
theorem repeats_resolveCaptures (c : CaptureSet) :
    Repeats run (fun c' s t => run.Again (resolveCaptures c') c' s.scope t.scope)
      (resolveCaptures c) where
  moves := moves_resolveCaptures c
  result h _ := by
    cases h
    exact congrArg (EStateM.Result.ok · _) (CaptureSet.resolveIn_resolveIn ..)

theorem repeats_resolveCaptures? (c? : Option CaptureSet) :
    Repeats run (fun c' s t => run.Again (resolveCaptures? c') c' s.scope t.scope)
      (resolveCaptures? c?) where
  moves := moves_resolveCaptures? c?
  result h _ := by
    cases h
    refine congrArg (EStateM.Result.ok · _) ?_
    cases c? with
    | none => rfl
    | some c => exact congrArg some (CaptureSet.resolveIn_resolveIn ..)

/-- The type of a parameter is what its initializer, the scope or itself says, and says so again. -/
theorem repeats_parameterType (name : String) (type? : Option TypeRef) (init? : Option Node) :
    Repeats run
      (fun type? s t => run.Again (parameterType name type? init?) type? s.scope t.scope)
      (parameterType name type? init?) where
  moves := moves_parameterType name type? init?
  result {s t type'} h _ := by
    cases init? with
    | some init =>
      cases h
      refine congrArg (EStateM.Result.ok · _) ?_
      cases init.staticType? <;> rfl
    | none =>
      cases h
      refine congrArg (EStateM.Result.ok · _) ?_
      dsimp only
      cases s.scope.typeOf? name <;> rfl

theorem repeats_registry :
    Repeats run (fun R s t => s = t ∧ R = t.session.registry) ResolveM.registry where
  moves := moves_registry
  result h _ := by cases h; exact ⟨rfl, rfl⟩

/-- A reference to a name in view has the type of its binding. -/
theorem again_localRef {o : Options} {here : Scope} {span : Span} {name : String} {role : Role}
    {b : Binding} (hrole : role ≠ .parameter) (h : here.require name span = .ok b)
    (init? : Option Node) :
    run.Again (Node.resolve { options := o } (.localRef span name role (some b.type) init?))
      (.localRef span name role (some b.type) init?) here here := by
  unfold Node.resolve
  rw [if_neg hrole]
  have bound : run.Again (requireBinding name span) b here here :=
    .bind (a := here) rfl (ofExcept_eq_ok_iff.2 ⟨h, rfl⟩)
  exact bound.bind (.finish o rfl)

/-! ### Synthesis -/

theorem repeats_wrapperOf (o : Options) (head : FnHead) (as : List ArityHead) :
    Repeats run (fun r s t => s.scope = t.scope ∧ r.2.length = as.length)
      (wrapperOf { options := o } head as) where
  moves := growth.wrapperOf ..
  result h _ := ⟨(scopeDiscipline.wrapperOf ..).of_ok h, length_wrapperOf h⟩

theorem repeats_objectOf (o : Options) (head : ObjectHead) (ms : List MethodHead) :
    Repeats run (fun r s t => s.scope = t.scope ∧ r.2.length = ms.length)
      (objectOf { options := o } head ms) where
  moves := growth.objectOf ..
  result h _ := ⟨(scopeDiscipline.objectOf ..).of_ok h, length_objectOf h⟩

theorem repeats_interfaceOf (o : Options) (head : InterfaceHead) :
    Repeats run (fun _ s t => s.scope = t.scope) (interfaceOf { options := o } head) where
  moves := growth.interfaceOf ..
  result h _ := (scopeDiscipline.interfaceOf ..).of_ok h

/-- The class of a record stays the same, unless the run adds the type that it had from the
start. -/
theorem repeats_recordOf (o : Options) (head : RecordHead) (ms : List MethodHead)
    (spares : ∀ d ∈ head.descriptor?, run.last.registry.contains d.id = true →
      run.first.contains d.id = true) :
    Repeats run
      (fun r s t => s.scope = t.scope ∧ r.2.length = ms.length ∧
        t.session.registry.class? r.1.id = run.last.registry.class? r.1.id)
      (recordOf { options := o } head ms) where
  moves := growth.recordOf ..
  result {s t r} h covers := by
    refine ⟨(scopeDiscipline.recordOf ..).of_ok h, length_recordOf h, ?_⟩
    have covers := covers.right ((growth.recordOf ..).of_ok h)
    have known : run.last.registry.contains r.1.id = true →
        t.session.registry.contains r.1.id = true := by
      intro taken
      rcases class?_recordOf h with preset | ⟨c, hc⟩
      · exact contains_of_grows covers.before (spares _ preset taken)
      · obtain ⟨e, he, -⟩ := Option.bind_eq_some_iff.1 hc
        exact contains_eq_true_iff.2 ⟨e, he⟩
    unfold Registry.class?
    rw [get?_eq_of_grows (run.sound.of_grows covers.before) covers.after run.distinct known]

end TypeSynthesis
