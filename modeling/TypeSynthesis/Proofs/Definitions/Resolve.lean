import TypeSynthesis.Proofs.Definitions.Basic
import TypeSynthesis.Proofs.LexicalTyping.Yields
import TypeSynthesis.Proofs.Resolve.Heads

/-!
# One synthesis for each definition

Resolution synthesizes a type for each type-defining form that has none, and no other.

* `Session.Prepares`: what goes before a definition adds auxiliary types only;
* `Logs x before P`: every success of `x` adds types that account for the definitions `before`;
* `logs_resolve`: so it is with the resolution of a form, by induction over the form;
* `synthesizes_resolve`: the types that a run adds are in bijection with the open definitions.
-/

namespace TypeSynthesis

open ResolveM SynthM Node Registry

/-! ### Before a definition -/

/-- The second session has auxiliary types besides those of the first.  That nothing was displaced
on the way follows from identities that are distinct in the end. -/
structure Session.Prepares (s t : Session) : Prop where
  grows : s.Grows t
  adds (sound : s.registry.Sound) (genuine : s.registry.Genuine)
    (distinct : t.registry.Distinct) :
    ∃ es, s.registry.Adds es t.registry ∧ ∀ e ∈ es, e.Auxiliary

theorem Session.Prepares.refl (s : Session) : s.Prepares s :=
  ⟨.refl, fun _ _ _ => ⟨[], .refl, nofun⟩⟩

theorem Session.Prepares.trans {s t u : Session} (h : s.Prepares t) (h' : t.Prepares u) :
    s.Prepares u where
  grows := Registry.Grows.trans h.grows h'.grows
  adds sound genuine distinct := by
    obtain ⟨es, adds, aux⟩ := h.adds sound genuine (distinct.of_grows h'.grows)
    have genuine' := genuine.of_adds adds fun e he => (aux e he).tame
    obtain ⟨es', adds', aux'⟩ := h'.adds (sound.of_grows h.grows) genuine' distinct
    refine ⟨es ++ es', adds.trans adds', fun e he => ?_⟩
    exact (List.mem_append.1 he).elim (aux e) (aux' e)

instance : IsPreorder Session Session.Prepares where
  refl := Session.Prepares.refl
  trans _ _ _ := Session.Prepares.trans

/-- A session with one more auxiliary type, which was registered. -/
theorem Session.Prepares.of_register {s : Session} {e : Entry} {R : Registry}
    (h : s.registry.register e = .ok R) (aux : e.Auxiliary) : s.Prepares (s.withRegistry R) where
  grows := grows_register h
  adds _ _ _ := ⟨[e], adds_of_register h, fun _ he => List.mem_singleton.1 he ▸ aux⟩

/-- What is instantiated under an invoker's name is an invoker definition. -/
theorem genuine_of_find? {R : Registry} (sound : R.Sound) (genuine : R.Genuine) {n : Nat}
    {e : Entry} {i : InterfaceType} (known : R.find? (invokerName n) = some e)
    (hi : R.interface? e.id = some i) (generic : i.isGeneric = true) :
    ∃ m, i = invokerType m ∧ e.id = (invokerType m).id := by
  obtain ⟨t, ht, he⟩ := find?_eq_some_iff.1 known
  have filed := sound.filed he
  obtain ⟨e', he', hi⟩ := Option.bind_eq_some_iff.1 hi
  rw [filed, he] at he'
  cases he'
  cases e with
  | interfaceType i' =>
    cases hi
    obtain ⟨m, rfl⟩ := genuine n i known generic
    exact ⟨m, rfl, rfl⟩
  | _ => cases hi

theorem Session.prepares_prepared : Session.Prepared Session.Prepares where
  pointer s p := by
    refine ⟨s.registry.grows_provide _, fun sound _ distinct => ?_⟩
    obtain ⟨es, adds, only⟩ := sound.exists_adds_provide distinct
    exact ⟨es, adds, fun e he => only e he ▸ .pointer p⟩
  invoker {s n t R} h := by
    rcases register_of_invoker h with same | h
    · exact same ▸ .refl s
    · exact .of_register h (.invoker n)
  instantiate {s n e args u R} known h := by
    obtain ⟨i, hi, generic, same | ⟨sub, h⟩⟩ := instantiate_eq_ok h
    · exact same ▸ .refl s
    · refine ⟨grows_register h, fun sound genuine distinct => ?_⟩
      obtain ⟨m, rfl, id⟩ := genuine_of_find? sound genuine known hi generic
      rw [id] at h
      exact (Session.Prepares.of_register h (.instanceOf _ m args sub)).adds sound genuine distinct
  draw _ := ⟨.refl, fun _ _ _ => ⟨[], .refl, nofun⟩⟩

/-! ### Accounts of computations -/

/-- Every success adds types that account for the definitions `before`, and what has become of them
stands to the result as `P` says. -/
structure Logs {α : Type} (x : ResolveM α) (before : List Definition)
    (P : α → List Definition → Prop) : Prop where
  moves : Moves ResolveState.Grows x
  result {s t : ResolveState} {a : α} (h : x s = .ok a t) (sound : s.session.registry.Sound)
    (genuine : s.session.registry.Genuine) (distinct : t.session.registry.Distinct) :
    ∃ es after, s.session.registry.Adds es t.session.registry ∧ Accounts before after es ∧
      P a after

namespace Logs

variable {α β : Type} {before before' : List Definition} {P : α → List Definition → Prop}
  {Q : β → List Definition → Prop}

theorem imp {P' : α → List Definition → Prop} {x : ResolveM α} (hx : Logs x before P)
    (h : ∀ a A, P a A → P' a A) : Logs x before P' where
  moves := hx.moves
  result hs sound genuine distinct := by
    obtain ⟨es, after, adds, accounts, hP⟩ := hx.result hs sound genuine distinct
    exact ⟨es, after, adds, accounts, h _ _ hP⟩

/-- The first step accounts for some definitions and the second for the rest.  What every result of
the first satisfies is known to the second. -/
theorem bind_of {x : ResolveM α} {f : α → ResolveM β} {C : α → Prop} (hx : Logs x before P)
    (hC : ∀ {a s t}, x s = .ok a t → C a)
    (hf : ∀ a, C a → Logs (f a) before' fun b B => ∀ A, P a A → Q b (A ++ B)) :
    Logs (x >>= f) (before ++ before') Q where
  moves := hx.moves.bind_of hC fun a ha => (hf a ha).moves
  result hs sound genuine distinct := by
    obtain ⟨a, u, h₁, h₂⟩ := bind_eq_ok_iff.1 hs
    have rest := hf a (hC h₁)
    have grows := hx.moves.of_ok h₁
    have grows' := rest.moves.of_ok h₂
    obtain ⟨es, A, adds, accounts, hP⟩ := hx.result h₁ sound genuine (distinct.of_grows grows')
    have genuine' := genuine.of_adds adds accounts.tame
    obtain ⟨es', B, adds', accounts', hQ⟩ :=
      rest.result h₂ (sound.of_grows grows) genuine' distinct
    exact ⟨es ++ es', A ++ B, adds.trans adds', accounts.append accounts', hQ A hP⟩

theorem bind {x : ResolveM α} {f : α → ResolveM β} (hx : Logs x before P)
    (hf : ∀ a, Logs (f a) before' fun b B => ∀ A, P a A → Q b (A ++ B)) :
    Logs (x >>= f) (before ++ before') Q :=
  hx.bind_of (C := fun _ => True) (fun _ => trivial) fun a _ => hf a

/-- A step that leaves the session as it is accounts for nothing. -/
theorem of_still {x : ResolveM α} (h : ∀ s, (endState (x s)).session = s.session)
    (hP : ∀ {s a t}, x s = .ok a t → P a []) : Logs x [] P where
  moves := ⟨fun s => by
    show s.session.Grows (endState (x s)).session
    rw [h s]
    exact .refl⟩
  result {s t a} hs _ _ _ := by
    have still := h s
    rw [hs] at still
    exact ⟨[], [], by rw [show t.session = s.session from still]; exact .refl, .nil, hP hs⟩

theorem pure {a : α} (h : P a []) : Logs (Pure.pure a) [] P :=
  of_still (fun _ => rfl) fun hs => (pure_eq_ok_iff.1 hs).1 ▸ h

/-- A definition that has a type is accounted for by itself. -/
theorem kept {a : α} (k : Bool) (d : Descriptor) (h : P a [⟨k, some d⟩]) :
    Logs (Pure.pure a) [⟨k, some d⟩] P where
  moves := .pure a
  result hs _ _ _ := by
    obtain ⟨rfl, rfl⟩ := pure_eq_ok_iff.1 hs
    exact ⟨[], [⟨k, some d⟩], .refl, .kept k d .nil, h⟩

/-- What comes last and leaves the session as it is adds nothing to the account. -/
theorem andThen {x : ResolveM α} {f : α → ResolveM β} (hx : Logs x before P)
    (hf : ∀ a, Logs (f a) [] fun b B => B = [] ∧ ∀ A, P a A → Q b A) :
    Logs (x >>= f) before Q := by
  have h : Logs (x >>= f) (before ++ []) Q := hx.bind fun a => (hf a).imp fun b B h A hA => by
    rw [h.1, List.append_nil]
    exact h.2 A hA
  rwa [List.append_nil] at h

/-- What comes first and accounts for nothing leaves the account to the rest. -/
theorem after {x : ResolveM α} {f : α → ResolveM β} (hx : Logs x [] fun _ A => A = [])
    (hf : ∀ a, Logs (f a) before Q) : Logs (x >>= f) before Q :=
  hx.bind fun a => (hf a).imp fun _ _ hB A hA => by rwa [hA]

theorem inScope {x : ResolveM α} (hx : Logs x before P) : Logs (ResolveM.inScope x) before P where
  moves := ⟨fun s => by
    have := hx.moves.run { s with scope := s.scope.push }
    unfold ResolveM.inScope
    revert this
    cases x { s with scope := s.scope.push } <;> exact id⟩
  result hs sound genuine distinct := by
    obtain ⟨u, hx', rfl⟩ := inScope_eq_ok hs
    obtain ⟨es, after, adds, h⟩ := hx.result hx' sound genuine distinct
    exact ⟨es, after, adds, h⟩

end Logs

/-! ### Steps that leave the session as it is -/

/-- The states have the same session. -/
def SameSession (s t : ResolveState) : Prop := s.session = t.session

instance : IsPreorder ResolveState SameSession where
  refl _ := rfl
  trans _ _ _ h h' := h.trans h'

theorem logs_of_same {α : Type} {x : ResolveM α} (h : Moves SameSession x) :
    Logs x [] fun _ A => A = [] :=
  .of_still (fun s => (h.run s).symm) fun _ => rfl

theorem definitions_hostCalls {opens : Role → Bool} {R : Registry} {n n' : Node}
    (h : Lowering.hostCalls.run R n = .ok n') : n'.definitions opens = n.definitions opens := by
  unfold Lowering.hostCalls at h
  dsimp only at h
  split at h <;> cases h <;> rfl

/-- Only the initializers of parameters count. -/
theorem definitions_localRef {span : Span} {name : String} {role : Role} {type? : Option TypeRef}
    {init? : Option Node} (h : role ≠ .parameter) :
    (Node.localRef span name role type? init?).definitions Role.isParameter = [] := by
  unfold definitions
  rw [show role.isParameter = false from beq_false_of_ne h]
  rfl

theorem logs_finish (o : Options) (n : Node) :
    Logs (finish { options := o } n) [] fun n' A =>
      A = [] ∧ n'.definitions Role.isParameter = n.definitions Role.isParameter :=
  .of_still (fun s => ((moves_finish (r := SameSession) ..).run s).symm)
    fun hs => ⟨rfl, definitions_hostCalls (finish_default_eq_ok_iff.1 hs).1⟩

/-- A form is finished when all its parts are accounted for. -/
theorem Logs.finish {α : Type} {x : ResolveM α} {before : List Definition}
    {P : α → List Definition → Prop} {Q : Node → List Definition → Prop} (hx : Logs x before P)
    (o : Options) (form : α → Node)
    (h : ∀ a A n, P a A → n.definitions Role.isParameter = (form a).definitions Role.isParameter →
      Q n A) : Logs (x >>= fun a => ResolveM.finish { options := o } (form a)) before Q :=
  hx.andThen fun a => (logs_finish o (form a)).imp fun n _ hn => ⟨hn.1, fun A hA => h a A n hA hn.2⟩

theorem still_binds {f : TypeMap → TypeMap} {x : ResolveM Unit} (h : Binds f x) :
    Moves SameSession x where
  run s := by
    obtain ⟨scope, hs, -⟩ := h.run s
    rw [hs]
    rfl

theorem logs_binds {f : TypeMap → TypeMap} {x : ResolveM Unit} (h : Binds f x) :
    Logs x [] fun _ A => A = [] :=
  logs_of_same (still_binds h)

/-- With the types of bindings left as they are, refining changes no binding. -/
theorem logs_refineBindings (o : Options) (bs : List LetBinding) :
    Logs (refineBindings { options := o } bs) [] fun bs' A => A = [] ∧ bs' = bs := by
  have still : Moves SameSession (refineBindings { options := o } bs) :=
    moves_registry.bind fun _ => (still_binds (binds_rebind bs)).bind fun _ => .pure _
  exact .of_still (fun s => (still.run s).symm) fun hs => ⟨rfl, (refineBindings_eq_ok hs).1⟩

theorem logs_ofExcept {α : Type} (x : Except CompilationError α) :
    Logs (ofExcept x) [] fun a A => A = [] ∧ x = .ok a :=
  .of_still (fun s => ((Moves.ofExcept (r := SameSession) x).run s).symm)
    fun hs => ⟨rfl, (ofExcept_eq_ok_iff.1 hs).1⟩

theorem definitions_bindSuperCall {R : Registry} {here : Scope} {span : Span}
    {method selfName : String} {args : List Node} {n : Node}
    (h : bindSuperCall R here span method selfName args = .ok n) :
    n.definitions Role.isParameter = definitionsOfList Role.isParameter args := by
  obtain ⟨self, base, m, -, -, -, rfl⟩ := bindSuperCall_eq_ok_iff.1 h
  rfl

/-! ### Synthesis -/

theorem register_of_finish {draft : ClassType} {d : Descriptor} {s t : Session}
    (h : SynthM.finish draft s = .ok d t) :
    s.registry.register (.classType draft) = .ok t.registry ∧ d = ⟨draft.name, draft.id⟩ := by
  obtain ⟨R, hR, h⟩ := except_bind_eq_ok_iff.1 (extend_eq_ok h)
  cases h
  exact ⟨hR, rfl⟩

theorem register_of_finishInterface {draft : InterfaceType} {d : Descriptor} {s t : Session}
    (h : finishInterface draft s = .ok d t) :
    s.registry.register (.interfaceType draft) = .ok t.registry ∧
      d = ⟨draft.name, draft.id⟩ := by
  obtain ⟨R, hR, h⟩ := except_bind_eq_ok_iff.1 (extend_eq_ok h)
  cases h
  exact ⟨hR, rfl⟩

/-- A type that is registered after all that goes before accounts for one open definition. -/
theorem accounts_define {s u : Session} {R : Registry} {e : Entry} {k : Bool}
    (before : s.Prepares u) (new : e.Defines k) (h : u.registry.register e = .ok R)
    (sound : s.registry.Sound) (genuine : s.registry.Genuine) (distinct : R.Distinct) :
    ∃ es, s.registry.Adds es R ∧ Accounts [⟨k, none⟩] [⟨k, some ⟨e.name, e.id⟩⟩] es := by
  obtain ⟨es, adds, aux⟩ := before.adds sound genuine (distinct.of_grows (grows_register h))
  exact ⟨es ++ [e], adds.trans (adds_of_register h),
    (Accounts.of_auxiliary aux).append (.made new .nil)⟩

/-- The synthesis of a class accounts for one open definition. -/
theorem logs_class {β : Type} {draft : SynthM (ClassType × β)}
    (hdraft : Moves Session.Prepares draft)
    (new : ∀ {s x t}, draft s = .ok x t → x.1.origin = .synthesized) :
    Logs (synthesize (draft >>= fun x => do return (← SynthM.finish x.1, x.2))) [⟨false, none⟩]
      fun r A => A = [⟨false, some r.1⟩] where
  moves := growth.synthesize ((hdraft.mono fun _ _ => Session.Prepares.grows).bind fun _ =>
    (Session.grows_respected.finish _).bind fun _ => .pure _)
  result {s t r} h sound genuine distinct := by
    obtain ⟨h, -⟩ := synthesize_eq_ok h
    obtain ⟨⟨c, b⟩, u, hc, h⟩ := bind_eq_ok_iff.1 h
    obtain ⟨d, v, hd, h⟩ := bind_eq_ok_iff.1 h
    obtain ⟨rfl, rfl⟩ := pure_eq_ok_iff.1 h
    obtain ⟨registers, rfl⟩ := register_of_finish hd
    obtain ⟨es, adds, accounts⟩ := accounts_define (hdraft.of_ok hc) (.ofClass c (new hc))
      registers sound genuine distinct
    exact ⟨es, _, adds, accounts, rfl⟩

theorem logs_wrapperOf (o : Options) (head : FnHead) (as : List ArityHead) :
    Logs (wrapperOf { options := o } head as) [⟨false, head.wrapper?⟩]
      fun r A => A = [⟨false, some r.1⟩] := by
  unfold wrapperOf
  cases head.wrapper? with
  | some d => exact .kept false d rfl
  | none =>
    dsimp only
    rw [synthesizeWrapper_eq]
    refine logs_class (Session.prepares_prepared.draftWrapper ..) fun h => ?_
    obtain ⟨name, record⟩ := isRecord_draftWrapper h
    exact record.origin

theorem logs_recordOf (o : Options) (head : RecordHead) (ms : List MethodHead) :
    Logs (recordOf { options := o } head ms) [⟨false, head.descriptor?⟩]
      fun r A => A = [⟨false, some r.1⟩] := by
  unfold recordOf
  cases head.descriptor? with
  | some d => exact .kept false d rfl
  | none =>
    dsimp only
    rw [synthesizeRecord_eq]
    exact logs_class (Session.prepares_prepared.draftRecord ..) fun h =>
      (isRecord_draftRecord h).origin

theorem logs_objectOf (o : Options) (head : ObjectHead) (ms : List MethodHead) :
    Logs (objectOf { options := o } head ms) [⟨false, head.descriptor?⟩]
      fun r A => A = [⟨false, some r.1⟩] := by
  unfold objectOf
  cases head.descriptor? with
  | some d => exact .kept false d rfl
  | none =>
    dsimp only
    rw [synthesizeObject_eq]
    refine logs_class (Session.prepares_prepared.draftObject ..) fun h => ?_
    obtain ⟨name, record⟩ := isRecord_draftObject h
    exact record.origin

theorem logs_interfaceOf (o : Options) (head : InterfaceHead) :
    Logs (interfaceOf { options := o } head) [⟨true, head.descriptor?⟩]
      fun d A => A = [⟨true, some d⟩] := by
  unfold interfaceOf
  cases head.descriptor? with
  | some d => exact .kept true d rfl
  | none =>
    refine ⟨growth.synthesize (Session.grows_respected.interface o head),
      fun {s t d} h sound genuine distinct => ?_⟩
    obtain ⟨h, -⟩ := synthesize_eq_ok h
    rw [synthesizeInterface_eq] at h
    obtain ⟨i, u, hi, hd⟩ := bind_eq_ok_iff.1 h
    obtain ⟨registers, rfl⟩ := register_of_finishInterface hd
    obtain ⟨es, adds, accounts⟩ :=
      accounts_define ((Session.prepares_prepared.draftInterface o head).of_ok hi)
        (.ofInterface i (plain_draftInterface hi)) registers sound genuine distinct
    exact ⟨es, _, adds, accounts, rfl⟩

/-- What a catch clause or the like looks up is no definition. -/
theorem logs_typeName (construct : String) (name : TypeName) :
    Logs (synthesize (resolveTypeName construct name)) [] fun _ A => A = [] where
  moves := growth.synthesize (Session.grows_respected.typeName ..)
  result h sound genuine distinct := by
    obtain ⟨h, -⟩ := synthesize_eq_ok h
    obtain ⟨es, adds, aux⟩ :=
      ((Session.prepares_prepared.typeName construct name).of_ok h).adds sound genuine distinct
    exact ⟨es, [], adds, .of_auxiliary aux, rfl⟩

/-! ### Forms

The induction is over the input form.  Each case puts the accounts of its parts together. -/

mutual

/-- The resolution of a form accounts for its definitions. -/
theorem logs_resolve (o : Options) : ∀ n : Node,
    Logs (n.resolve { options := o }) (n.definitions Role.isParameter)
      fun m A => m.definitions Role.isParameter = A
  | .const span value => by
    unfold Node.resolve
    exact (logs_finish o _).imp fun m A h => h.2.trans h.1.symm
  | .localRef span name role type? init? => by
    unfold Node.resolve
    by_cases hrole : role = .parameter
    · subst hrole
      show Logs _ (definitionsOfOption Role.isParameter init?) _
      rw [if_pos rfl]
      refine (logs_optional o init?).andThen fun init? => ?_
      refine (logs_of_same (moves_parameterType name type? init?)).after fun type? => ?_
      exact (logs_finish o _).imp fun m B h => ⟨h.1, fun A hA => h.2.trans hA⟩
    · rw [if_neg hrole, definitions_localRef hrole]
      refine (logs_of_same (moves_requireBinding name span)).after fun b => ?_
      refine (logs_finish o _).imp fun m B h => ?_
      rw [h.1, h.2, definitions_localRef hrole]
  | .block span forms => by
    unfold Node.resolve
    exact (logs_each o forms).finish o _ fun forms A m hA hm => hm.trans hA
  | .cond span test thenForm elseForm? => by
    unfold Node.resolve
    refine (logs_resolve o test).bind fun test => ?_
    refine (logs_resolve o thenForm).bind fun thenForm => ?_
    refine (logs_optional o elseForm?).finish o _ fun elseForm? C m hC hm B hB A hA => ?_
    rw [hm, ← hA, ← hB, ← hC]
    rfl
  | .invoke span callee args => by
    unfold Node.resolve
    refine (logs_resolve o callee).bind fun callee => ?_
    refine (logs_each o args).finish o _ fun args B m hB hm A hA => ?_
    rw [hm, ← hA, ← hB]
    rfl
  | .staticCall span owner member args resolved? => by
    unfold Node.resolve
    exact (logs_each o args).finish o _ fun args A m hA hm => hm.trans hA
  | .memberCall span target member args resolved? => by
    unfold Node.resolve
    refine (logs_resolve o target).bind fun target => ?_
    refine (logs_each o args).finish o _ fun args B m hB hm A hA => ?_
    rw [hm, ← hA, ← hB]
    rfl
  | .throw span value => by
    unfold Node.resolve
    exact (logs_resolve o value).finish o _ fun value A m hA hm => hm.trans hA
  | .letIn span isLoop bindings body => by
    unfold Node.resolve
    have parts : Logs (do
        let bindings ← resolveBindings { options := o } bindings
        let bindings ← refineBindings { options := o } bindings
        let body ← body.resolve { options := o }
        return (bindings, body))
        (definitionsOfBindings Role.isParameter bindings ++ body.definitions Role.isParameter)
        fun r A => definitionsOfBindings Role.isParameter r.1 ++
          r.2.definitions Role.isParameter = A := by
      refine (logs_bindings o bindings).bind fun bs => (logs_refineBindings o bs).bind fun bs' => ?_
      refine (logs_resolve o body).andThen fun body => .pure ⟨rfl, fun C hC B hB A hA => ?_⟩
      rw [hB.1, hB.2, ← hA, ← hC]
      rfl
    exact parts.inScope.finish o (fun r => .letIn span isLoop r.1 r.2)
      fun r A m hA hm => hm.trans hA
  | .fn span head as => by
    unfold Node.resolve
    refine (logs_of_same (moves_resolveCaptures? _)).after fun captures? => ?_
    refine (logs_wrapperOf o head _).bind_of length_wrapperOf fun r length => ?_
    rw [List.length_map] at length
    refine (logs_arities o (binds_bindFunction ..) r.2 as length).finish o _
      fun as B m hB hm A hA => ?_
    rw [hm, hA, ← hB]
    rfl
  | .guarded span captures? body cs final? => by
    unfold Node.resolve
    refine (logs_of_same (moves_resolveCaptures? _)).after fun captures? => ?_
    refine (logs_resolve o body).inScope.bind fun body => ?_
    refine (logs_clauses o cs).bind fun cs => ?_
    refine (logs_optional o final?).inScope.finish o _ fun final? C m hC hm B hB A hA => ?_
    rw [hm, ← hA, ← hB, ← hC]
    rfl
  | .record span head ms => by
    unfold Node.resolve
    refine (logs_recordOf o head _).bind_of length_recordOf fun r length => ?_
    rw [List.length_map] at length
    refine (logs_of_same moves_registry).after fun R => ?_
    refine ((logs_binds (binds_bindSelf ..)).after fun _ => (logs_binds (binds_bindFields ..)).after
      fun _ => logs_methods o r.2 ms length).inScope.finish o _ fun ms B m hB hm A hA => ?_
    rw [hm, hA, ← hB]
    rfl
  | .object span head ms => by
    unfold Node.resolve
    refine (logs_objectOf o head _).bind_of length_objectOf fun r length => ?_
    rw [List.length_map] at length
    refine ((logs_binds (binds_bindSelf ..)).after
      fun _ => logs_methods o r.2 ms length).inScope.andThen fun ms => ?_
    refine (logs_of_same (moves_resolveCaptures _)).after fun captures => ?_
    refine (logs_finish o _).imp fun m C h => ⟨h.1, fun B hB A hA => ?_⟩
    rw [h.2, hA, ← hB]
    rfl
  | .superCall span method selfName args => by
    unfold Node.resolve
    refine (logs_each o args).andThen fun args => ?_
    refine (logs_of_same moves_registry).after fun R => ?_
    refine (logs_of_same moves_scope).after fun here => ?_
    refine (logs_ofExcept _).finish o _ fun bound B m hB hm => ⟨hB.1, fun A hA => ?_⟩
    rw [hm, definitions_bindSuperCall hB.2, hA]
  | .baseCall span base method target args => by
    unfold Node.resolve
    refine (logs_resolve o target).bind fun target => ?_
    refine (logs_each o args).finish o _ fun args B m hB hm A hA => ?_
    rw [hm, ← hA, ← hB]
    rfl
  | .interface span head => by
    unfold Node.resolve
    refine (logs_interfaceOf o head).finish o _ fun d A m hA hm => ?_
    rw [hm, hA]
    rfl

theorem logs_each (o : Options) : ∀ ns : List Node,
    Logs (resolveEach { options := o } ns) (definitionsOfList Role.isParameter ns)
      fun ms A => definitionsOfList Role.isParameter ms = A
  | [] => .pure rfl
  | n :: ns => by
    unfold resolveEach
    refine (logs_resolve o n).bind fun n => (logs_each o ns).andThen fun ns => ?_
    refine .pure ⟨rfl, fun B hB A hA => ?_⟩
    rw [← hA, ← hB]
    rfl

theorem logs_optional (o : Options) : ∀ n? : Option Node,
    Logs (resolveOptional { options := o } n?) (definitionsOfOption Role.isParameter n?)
      fun m? A => definitionsOfOption Role.isParameter m? = A
  | none => .pure rfl
  | some n => by
    unfold resolveOptional
    exact (logs_resolve o n).andThen fun n => .pure ⟨rfl, fun A hA => hA⟩

theorem logs_bindings (o : Options) : ∀ bs : List LetBinding,
    Logs (resolveBindings { options := o } bs) (definitionsOfBindings Role.isParameter bs)
      fun cs A => definitionsOfBindings Role.isParameter cs = A
  | [] => .pure rfl
  | ⟨name, init, _, span⟩ :: bs => by
    unfold resolveBindings
    refine (logs_resolve o init).bind fun init => ?_
    refine (logs_binds (binds_bindName ..)).after fun _ => ?_
    refine (logs_bindings o bs).andThen fun bs => .pure ⟨rfl, fun B hB A hA => ?_⟩
    rw [← hA, ← hB]
    rfl

theorem logs_arities (o : Options) {f : TypeMap → TypeMap} {bindSelf : ResolveM Unit}
    (hb : Binds f bindSelf) : ∀ (heads : List ArityHead) (as : List Arity),
      heads.length = as.length →
      Logs (resolveArities { options := o } bindSelf heads as)
        (definitionsOfArities Role.isParameter as)
        fun as' A => definitionsOfArities Role.isParameter as' = A
  | [], [], _ => by
    unfold resolveArities
    exact .pure rfl
  | head :: heads, ⟨_, body⟩ :: as, length => by
    unfold resolveArities
    refine ((logs_binds hb).after fun _ => (logs_binds (binds_bindParams _)).after fun _ =>
      logs_resolve o body).inScope.bind fun body => ?_
    refine (logs_arities o hb heads as (Nat.succ.inj length)).andThen fun as => ?_
    refine .pure ⟨rfl, fun B hB A hA => ?_⟩
    rw [← hA, ← hB]
    rfl
  | [], _ :: _, length => nomatch length
  | _ :: _, [], length => nomatch length

theorem logs_clauses (o : Options) : ∀ cs : List CatchClause,
    Logs (resolveClauses { options := o } cs) (definitionsOfClauses Role.isParameter cs)
      fun cs' A => definitionsOfClauses Role.isParameter cs' = A
  | [] => .pure rfl
  | ⟨head, body⟩ :: cs => by
    unfold resolveClauses
    refine (logs_typeName ..).after fun t => ?_
    refine ((logs_binds (binds_bindName ..)).after fun _ => logs_resolve o body).inScope.bind
      fun body => ?_
    refine (logs_clauses o cs).andThen fun cs => .pure ⟨rfl, fun B hB A hA => ?_⟩
    rw [← hA, ← hB]
    rfl

theorem logs_methods (o : Options) : ∀ (heads : List MethodHead) (ms : List Method),
    heads.length = ms.length →
    Logs (resolveMethods { options := o } heads ms) (definitionsOfMethods Role.isParameter ms)
      fun ms' A => definitionsOfMethods Role.isParameter ms' = A
  | [], [], _ => by
    unfold resolveMethods
    exact .pure rfl
  | head :: heads, ⟨_, body⟩ :: ms, length => by
    unfold resolveMethods
    refine (logs_of_same (moves_resolveCaptures _)).after fun captures => ?_
    refine ((logs_binds (binds_bindParams _)).after fun _ => logs_resolve o body).inScope.bind
      fun body => ?_
    refine (logs_methods o heads ms (Nat.succ.inj length)).andThen fun ms => ?_
    refine .pure ⟨rfl, fun B hB A hA => ?_⟩
    rw [← hA, ← hB]
    rfl
  | [], _ :: _, length => nomatch length
  | _ :: _, [], length => nomatch length

end

/-- Resolution under the default lowerings, with the types of bindings left as they are, synthesizes
one type for each definition that is open, and adds nothing else but pointer types and invokers. -/
theorem synthesizes_resolve (o : Options) {n n' : Node} {s t : ResolveState}
    (built : s.session.registry.Built)
    (invokers : ∀ k e, s.session.registry.find? (invokerName k) = some e →
      e = .interfaceType (invokerType k))
    (distinct : t.session.registry.Distinct)
    (h : n.resolve { options := o } s = .ok n' t) :
    Synthesizes s.session.registry t.session.registry (n.definitions Role.isParameter)
      (n'.definitions Role.isParameter) := by
  have genuine : s.session.registry.Genuine := fun k i hi _ =>
    ⟨k, Entry.interfaceType.inj (invokers k _ hi)⟩
  obtain ⟨es, A, adds, accounts, rfl⟩ := (logs_resolve o n).result h built.sound genuine distinct
  exact accounts.synthesizes adds

/-! ### A tree with nested definitions, and one with a stray definition -/

theorem find?_invokerName {R : Registry}
    (others : ∀ name ∈ R.names.keys, ¬ invokerStem.toList <+: name.toList) (k : Nat) :
    R.find? (invokerName k) = none := by
  refine Option.bind_eq_none_iff.2 fun t ht => ?_
  refine absurd ?_ (others (invokerName k) (List.mem_map_of_mem (mem_of_names_get? ht)))
  unfold invokerName
  rw [String.toList_append, String.toList_append, List.append_assoc]
  exact List.prefix_append ..

theorem find?_invokerName_host (k : Nat) : host.find? (invokerName k) = none :=
  find?_invokerName (by decide +kernel) k

namespace Node

/-- A function whose body is an anonymous object, with an open record in its method. -/
def nested : Node :=
  .fn .unknown { name? := some "f" }
    [⟨{ params := [{ name := "x", hint? := some ⟨"int*", .unknown⟩ }] },
      .object .unknown { kind := .anonymous, selfName := "this", captures := .empty }
        [⟨{ name := "ToString", captures := .empty },
          .record .unknown { name := "Point", selfName := "self" } []⟩]⟩]

/-- A bound local that carries a function as its initializer, as only parameters are meant to. -/
def strayFunction : Node :=
  .letIn .unknown false [⟨"x", .const .unknown (.int 1), none, .unknown⟩]
    (.localRef .unknown "x" .letBound none
      (some (.fn .unknown {} [⟨{ params := [] }, .const .unknown .nil⟩])))

/-- The local is typed and the function in its initializer is not. -/
def strayFunctionResolved : Node :=
  let long := some (.value Primitive.long.id)
  .letIn .unknown false [⟨"x", .const .unknown (.int 1), long, .unknown⟩]
    (.localRef .unknown "x" .letBound long
      (some (.fn .unknown {} [⟨{ params := [] }, .const .unknown .nil⟩])))

end Node

theorem synthesizes_nested :
    ∃ n' t, nested.resolve { options := {} } { session := { registry := .host } } = .ok n' t ∧
      Synthesizes .host t.session.registry (nested.definitions Role.isParameter)
        (n'.definitions Role.isParameter) := by
  have h : accepted (fun _ t => decide t.session.registry.names.values.Nodup)
      (nested.resolve { options := {} } { session := { registry := .host } }) = true := by
    decide +kernel
  obtain ⟨n', t, h, nodup⟩ := exists_of_accepted h
  refine ⟨n', t, h, synthesizes_resolve {} ?_ ?_ (distinct_of_nodup (of_decide_eq_true nodup)) h⟩
  · exact built_of_mem_starts (by simp)
  · intro k e he
    rw [find?_invokerName_host] at he
    cases he

/-- Where a local that is no parameter carries a definition in its initializer, this stays open. -/
theorem not_synthesizes_initializers :
    ¬ ∀ (o : Options) (n n' : Node) (s t : ResolveState), s.session.registry.Built →
      (∀ k e, s.session.registry.find? (invokerName k) = some e →
        e = .interfaceType (invokerType k)) →
      t.session.registry.Distinct → n.resolve { options := o } s = .ok n' t →
      Synthesizes s.session.registry t.session.registry (n.definitions fun _ => true)
        (n'.definitions fun _ => true) := by
  intro h
  have hr : strayFunction.resolve { options := {} } { session := { registry := .host } } =
    .ok strayFunctionResolved { session := { registry := .host } } := rfl
  have nodup : host.names.values.Nodup := by decide +kernel
  have synthesizes := h {} strayFunction _ _ _ (built_of_mem_starts (by simp)) (fun k e he => by
    rw [find?_invokerName_host] at he
    cases he) (distinct_of_nodup nodup) hr
  obtain ⟨d, e, hd, -⟩ := synthesizes.made 0 false rfl
  cases hd

end TypeSynthesis
