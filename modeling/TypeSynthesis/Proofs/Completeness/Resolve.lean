import TypeSynthesis.Proofs.Completeness.Basic
import TypeSynthesis.Proofs.LexicalTyping.Resolve

/-!
# Resolution leaves nothing open

Under the default lowerings, and with the types of bindings left as they are, resolution completes
every form of a tree that has no types from the start.

* `gives_resolve`: the resolution of a form gives a complete one, by induction over the form;
* `complete_resolve`: the same for a run as a whole.
-/

namespace TypeSynthesis

open ResolveM Node

variable {last : Registry}

/-- No definition in the list has a type. -/
abbrev Open (ds : List Definition) : Prop := ∀ d ∈ ds, d.descriptor? = none

/-! ### Forms

The induction is over the input form.  Each case completes the form itself from what its steps
give, and has the forms in it from the induction. -/

mutual

/-- The resolution of a form gives a complete one. -/
theorem gives_resolve (o : Options) : ∀ n : Node, Open (n.definitions Role.isParameter) →
    Gives last (All Role.isParameter (Complete last)) (n.resolve { options := o })
  | .const span value, _ => by
    unfold Node.resolve
    exact (gives_finish o _).imp fun n h => h ⟨trivial, trivial⟩
  | .localRef span name role type? init?, fresh => by
    unfold Node.resolve
    by_cases hrole : role = .parameter
    · subst hrole
      rw [if_pos rfl]
      refine (gives_optional o init? fresh).bind fun init? => ?_
      refine .andThen (moves_parameterType ..) fun type? => ?_
      exact (gives_finish o _).imp fun n h hinit => h ⟨fun h => absurd rfl h, fun _ => hinit⟩
    · rw [if_neg hrole]
      refine .andThen (moves_requireBinding ..) fun b => ?_
      have closed : role.isParameter = false := beq_false_of_ne hrole
      refine (gives_finish o _).imp fun n h => h ⟨fun _ => rfl, fun opens => ?_⟩
      rw [closed] at opens
      cases opens
  | .block span forms, fresh => by
    unfold Node.resolve
    refine (gives_each o forms fresh).bind fun forms => ?_
    exact (gives_finish o _).imp fun n h hforms => h ⟨trivial, hforms⟩
  | .cond span test thenForm elseForm?, fresh => by
    obtain ⟨freshTest, fresh⟩ := List.forall_mem_append.1 fresh
    obtain ⟨freshThen, freshElse⟩ := List.forall_mem_append.1 fresh
    unfold Node.resolve
    refine (gives_resolve o test freshTest).bind fun test => ?_
    refine (gives_resolve o thenForm freshThen).bind fun thenForm => ?_
    refine (gives_optional o elseForm? freshElse).bind fun elseForm? => ?_
    exact (gives_finish o _).imp fun n h helse hthen htest =>
      h ⟨trivial, htest, hthen, helse⟩
  | .invoke span callee args, fresh => by
    obtain ⟨freshCallee, freshArgs⟩ := List.forall_mem_append.1 fresh
    unfold Node.resolve
    refine (gives_resolve o callee freshCallee).bind fun callee => ?_
    refine (gives_each o args freshArgs).bind fun args => ?_
    exact (gives_finish o _).imp fun n h hargs hcallee => h ⟨trivial, hcallee, hargs⟩
  | .staticCall span owner member args resolved?, fresh => by
    unfold Node.resolve
    refine (gives_each o args fresh).bind fun args => ?_
    exact (gives_finish o _).imp fun n h hargs => h ⟨trivial, hargs⟩
  | .memberCall span target member args resolved?, fresh => by
    obtain ⟨freshTarget, freshArgs⟩ := List.forall_mem_append.1 fresh
    unfold Node.resolve
    refine (gives_resolve o target freshTarget).bind fun target => ?_
    refine (gives_each o args freshArgs).bind fun args => ?_
    exact (gives_finish o _).imp fun n h hargs htarget => h ⟨trivial, htarget, hargs⟩
  | .throw span value, fresh => by
    unfold Node.resolve
    refine (gives_resolve o value fresh).bind fun value => ?_
    exact (gives_finish o _).imp fun n h hvalue => h ⟨trivial, hvalue⟩
  | .letIn span isLoop bindings body, fresh => by
    obtain ⟨freshBindings, freshBody⟩ := List.forall_mem_append.1 fresh
    unfold Node.resolve
    have parts : Gives last (fun r : List LetBinding × Node =>
        (∀ b ∈ r.1, b.type?.isSome = true) ∧
          AllInBindings Role.isParameter (Complete last) r.1 ∧
            All Role.isParameter (Complete last) r.2) (do
        let bindings ← resolveBindings { options := o } bindings
        let bindings ← refineBindings { options := o } bindings
        let body ← body.resolve { options := o }
        return (bindings, body)) := by
      refine (gives_bindings o bindings freshBindings).bind fun bs => ?_
      refine (gives_refineBindings o bs).bind fun bs' => ?_
      refine (gives_resolve o body freshBody).bind fun body => .pure ?_
      rintro hbody rfl ⟨typed, hbs⟩
      exact ⟨typed, hbs, hbody⟩
    refine parts.inScope.bind fun r => ?_
    exact (gives_finish o _).imp fun n h hr => h hr
  | .fn span head as, fresh => by
    obtain ⟨freshHead, freshBodies⟩ := List.forall_mem_cons.1 fresh
    unfold Node.resolve
    refine .andThen (moves_resolveCaptures? _) fun captures? => ?_
    refine (gives_wrapperOf o _ freshHead).bind fun r => ?_
    refine (gives_arities o (growth.bindFunction ..) r.2 as freshBodies).bind fun as => ?_
    refine (gives_finish o _).imp fun n h has hr => h ?_
    obtain ⟨typed, bodies⟩ := has hr.2
    exact ⟨⟨⟨r.1, rfl, hr.1⟩, typed⟩, bodies⟩
  | .guarded span captures? body cs final?, fresh => by
    obtain ⟨freshBody, fresh⟩ := List.forall_mem_append.1 fresh
    obtain ⟨freshClauses, freshFinal⟩ := List.forall_mem_append.1 fresh
    unfold Node.resolve
    refine .andThen (moves_resolveCaptures? _) fun captures? => ?_
    refine (gives_resolve o body freshBody).inScope.bind fun body => ?_
    refine (gives_clauses o cs freshClauses).bind fun cs => ?_
    refine (gives_optional o final? freshFinal).inScope.bind fun final? => ?_
    exact (gives_finish o _).imp fun n h hfinal hcs hbody => h ⟨hcs.1, hbody, hcs.2, hfinal⟩
  | .record span head ms, fresh => by
    obtain ⟨freshHead, freshBodies⟩ := List.forall_mem_cons.1 fresh
    unfold Node.resolve
    refine (gives_recordOf o _ freshHead).bind fun r => .andThen moves_registry fun R => ?_
    have methods := gives_methods o r.2 ms freshBodies
    refine (Gives.andThen (growth.bindName ..) fun _ =>
      .andThen (growth.bindFields ..) fun _ => methods).inScope.bind fun ms => ?_
    refine (gives_finish o _).imp fun n h hms hr => h ?_
    obtain ⟨complete, bodies⟩ := hms hr.2
    exact ⟨⟨⟨r.1, rfl, hr.1⟩, complete⟩, bodies⟩
  | .object span head ms, fresh => by
    obtain ⟨freshHead, freshBodies⟩ := List.forall_mem_cons.1 fresh
    unfold Node.resolve
    refine (gives_objectOf o _ freshHead).bind fun r => ?_
    have methods := gives_methods o r.2 ms freshBodies
    refine (Gives.andThen (growth.bindName ..) fun _ => methods).inScope.bind fun ms => ?_
    refine .andThen (moves_resolveCaptures _) fun captures => ?_
    refine (gives_finish o _).imp fun n h hms hr => h ?_
    obtain ⟨complete, bodies⟩ := hms hr.2
    exact ⟨⟨⟨r.1, rfl, hr.1⟩, complete⟩, bodies⟩
  | .superCall span method selfName args, fresh => by
    unfold Node.resolve
    refine (gives_each o args fresh).bind fun args => ?_
    refine .andThen moves_registry fun R => .andThen moves_scope fun here => ?_
    refine (gives_bindSuperCall Role.isParameter R here span method selfName args).bind
      fun bound => ?_
    exact (gives_finish o _).imp fun n h hbound hargs => h (hbound hargs)
  | .baseCall span base method target args, fresh => by
    obtain ⟨freshTarget, freshArgs⟩ := List.forall_mem_append.1 fresh
    unfold Node.resolve
    refine (gives_resolve o target freshTarget).bind fun target => ?_
    refine (gives_each o args freshArgs).bind fun args => ?_
    exact (gives_finish o _).imp fun n h hargs htarget => h ⟨trivial, htarget, hargs⟩
  | .interface span head, fresh => by
    unfold Node.resolve
    refine (gives_interfaceOf o (fresh _ List.mem_cons_self)).bind fun d => ?_
    exact (gives_finish o _).imp fun n h hd => h ⟨⟨d, rfl, hd⟩, trivial⟩

theorem gives_each (o : Options) : ∀ ns : List Node,
    Open (definitionsOfList Role.isParameter ns) →
      Gives last (AllInList Role.isParameter (Complete last)) (resolveEach { options := o } ns)
  | [], _ => .pure trivial
  | n :: ns, fresh => by
    obtain ⟨freshFirst, freshRest⟩ := List.forall_mem_append.1 fresh
    unfold resolveEach
    refine (gives_resolve o n freshFirst).bind fun n => ?_
    exact (gives_each o ns freshRest).bind fun ns => .pure fun hns hn => ⟨hn, hns⟩

theorem gives_optional (o : Options) : ∀ n? : Option Node,
    Open (definitionsOfOption Role.isParameter n?) →
      Gives last (AllInOption Role.isParameter (Complete last))
        (resolveOptional { options := o } n?)
  | none, _ => .pure trivial
  | some n, fresh => by
    unfold resolveOptional
    exact (gives_resolve o n fresh).bind fun n => .pure fun hn => hn

theorem gives_bindings (o : Options) : ∀ bs : List LetBinding,
    Open (definitionsOfBindings Role.isParameter bs) →
      Gives last (fun bs' => (∀ b ∈ bs', b.type?.isSome = true) ∧
        AllInBindings Role.isParameter (Complete last) bs') (resolveBindings { options := o } bs)
  | [], _ => .pure ⟨nofun, trivial⟩
  | ⟨name, init, _, span⟩ :: bs, fresh => by
    obtain ⟨freshInit, freshRest⟩ := List.forall_mem_append.1 fresh
    unfold resolveBindings
    refine (gives_resolve o init freshInit).bind fun init => ?_
    refine .andThen (growth.bindName ..) fun _ => ?_
    refine (gives_bindings o bs freshRest).bind fun bs => .pure fun hbs hinit => ?_
    exact ⟨List.forall_mem_cons.2 ⟨rfl, hbs.1⟩, hinit, hbs.2⟩

theorem gives_arities (o : Options) {bindSelf : ResolveM Unit}
    (hb : Moves ResolveState.Grows bindSelf) : ∀ (heads : List ArityHead) (as : List Arity),
      Open (definitionsOfArities Role.isParameter as) →
      Gives last (fun as' => (∀ a ∈ heads, ∀ q ∈ a.params, q.Typed) →
          (∀ a ∈ as', ∀ q ∈ a.head.params, q.Typed) ∧
            AllInArities Role.isParameter (Complete last) as')
        (resolveArities { options := o } bindSelf heads as)
  | head :: heads, ⟨_, body⟩ :: as, fresh => by
    obtain ⟨freshBody, freshRest⟩ := List.forall_mem_append.1 fresh
    unfold resolveArities
    refine (Gives.andThen hb fun _ => .andThen (growth.bindParams _) fun _ =>
      gives_resolve o body freshBody).inScope.bind fun body => ?_
    refine (gives_arities o hb heads as freshRest).bind fun as => .pure fun has hbody typed => ?_
    obtain ⟨first, rest⟩ := List.forall_mem_cons.1 typed
    exact ⟨List.forall_mem_cons.2 ⟨first, (has rest).1⟩, hbody, (has rest).2⟩
  | [], _, _ | _ :: _, [], _ => by
    unfold resolveArities
    exact .pure fun _ => ⟨nofun, trivial⟩

theorem gives_clauses (o : Options) : ∀ cs : List CatchClause,
    Open (definitionsOfClauses Role.isParameter cs) →
      Gives last (fun cs' => (∀ c ∈ cs', c.head.type?.isSome = true) ∧
        AllInClauses Role.isParameter (Complete last) cs') (resolveClauses { options := o } cs)
  | [], _ => .pure ⟨nofun, trivial⟩
  | ⟨head, body⟩ :: cs, fresh => by
    obtain ⟨freshBody, freshRest⟩ := List.forall_mem_append.1 fresh
    unfold resolveClauses
    refine .andThen (growth.synthesize (Session.grows_respected.typeName ..)) fun type => ?_
    refine (Gives.andThen (growth.bindName ..) fun _ =>
      gives_resolve o body freshBody).inScope.bind fun body => ?_
    refine (gives_clauses o cs freshRest).bind fun cs => .pure fun hcs hbody => ?_
    exact ⟨List.forall_mem_cons.2 ⟨rfl, hcs.1⟩, hbody, hcs.2⟩

theorem gives_methods (o : Options) : ∀ (heads : List MethodHead) (ms : List Method),
    Open (definitionsOfMethods Role.isParameter ms) →
      Gives last (fun ms' => (∀ m ∈ heads, m.Complete) →
          (∀ m ∈ ms', m.head.Complete) ∧ AllInMethods Role.isParameter (Complete last) ms')
        (resolveMethods { options := o } heads ms)
  | head :: heads, ⟨_, body⟩ :: ms, fresh => by
    obtain ⟨freshBody, freshRest⟩ := List.forall_mem_append.1 fresh
    unfold resolveMethods
    refine .andThen (moves_resolveCaptures _) fun captures => ?_
    refine (Gives.andThen (growth.bindParams _) fun _ =>
      gives_resolve o body freshBody).inScope.bind fun body => ?_
    refine (gives_methods o heads ms freshRest).bind fun ms => .pure fun hms hbody complete => ?_
    obtain ⟨first, rest⟩ := List.forall_mem_cons.1 complete
    -- captures are no part of what makes a method complete
    have same : MethodHead.Complete { head with captures } := ⟨first.implements, first.typed⟩
    exact ⟨List.forall_mem_cons.2 ⟨same, (hms rest).1⟩, hbody, (hms rest).2⟩
  | [], _, _ | _ :: _, [], _ => by
    unfold resolveMethods
    exact .pure fun _ => ⟨nofun, trivial⟩

end

/-- Resolution under the default lowerings, with the types of bindings left as they are, completes
every form of a tree in which no definition has a type. -/
theorem complete_resolve (o : Options) {n n' : Node} {s t : ResolveState}
    (fresh : Open (n.definitions Role.isParameter))
    (h : n.resolve { options := o } s = .ok n' t) :
    n'.All Role.isParameter (Complete t.session.registry) :=
  (gives_resolve o n fresh).result h .refl

/-- A function whose parameter has an initializer, around a proxy that calls its base. -/
def Node.openProxy : Node :=
  .fn .unknown { name? := some "describe" }
    [⟨{ params := [{ name := "x", hint? := some ⟨"int*", .unknown⟩ }] },
      .letIn .unknown false
        [⟨"y", .localRef .unknown "x" .parameter none (some (.const .unknown (.int 1))), none,
          .unknown⟩]
        (.guarded .unknown none
          (.object .unknown
            { kind := .proxy, supers := [⟨"Exception", .unknown⟩], selfName := "this",
              captures := .empty }
            [⟨{ name := "get_Message", self? := some { name := "this" }, captures := .empty },
              .superCall .unknown "get_Message" "this" []⟩])
          [⟨{ caught := ⟨"Exception", .unknown⟩, name := "e" },
            .localRef .unknown "y" .letBound none none⟩]
          (some (.interface .unknown { name := "Named" })))⟩]

theorem complete_resolve_openProxy :
    ∃ n' t, openProxy.resolve { options := {} } { session := { registry := .host } } = .ok n' t ∧
      n'.All Role.isParameter (Complete t.session.registry) := by
  have h : accepted (fun _ _ => true)
      (openProxy.resolve { options := {} } { session := { registry := .host } }) = true := by
    decide +kernel
  obtain ⟨n', t, h, -⟩ := exists_of_accepted h
  have fresh : Open (openProxy.definitions Role.isParameter) := by decide
  exact ⟨n', t, h, complete_resolve {} fresh h⟩

/-- Where a local that is no parameter carries an initializer, what is in it stays without types. -/
theorem not_complete_initializers :
    (strayInitializer.definitions fun _ => true) = [] ∧
      strayInitializer.resolve { options := {} } { session := { registry := .host } } =
        .ok strayInitializerResolved { session := { registry := .host } } ∧
      ¬ strayInitializerResolved.All (fun _ => true) (Complete .host) := by
  refine ⟨rfl, rfl, fun h => ?_⟩
  obtain ⟨-, -, -, hinit⟩ := h
  obtain ⟨complete, -⟩ := hinit rfl
  have typed : (none : Option TypeRef).isSome = true := complete nofun
  cases typed

end TypeSynthesis
