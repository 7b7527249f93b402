import TypeSynthesis.Proofs.Idempotence.Repeats

/-!
# Resolution is idempotent

Resolving once more what has been resolved changes neither the form nor the session.  By then super
calls are bound calls, types and captures are what the scope says of them, and descriptors are
kept; catch types and records are looked up again and found as they were.

* `settles_resolve`: what a form has become is resolved to itself again, by induction over the form;
* `idempotent_resolve`: the same for a compilation as a whole;
* `not_idempotent_resolve`: neither of its two conditions on the types of the run can be dropped.
-/

namespace TypeSynthesis

open ResolveM SynthM Node Registry

variable {run : Rerun}

/-! ### Forms

The induction is over the input form.  Each case puts together what the parts of the resolved form
do when they are resolved again, in the scopes that the first run has met. -/

mutual

/-- What a form has become is resolved to itself again. -/
theorem settles_resolve (o : Options) : ∀ n : Node, run.Spares n.visited →
    Settles run (fun m => Closed m.visited) (Node.resolve { options := o })
      (n.resolve { options := o })
  | .const span value, _ => by
    unfold Node.resolve
    refine (repeats_finish o _).imp fun m s t h closed => ?_
    obtain ⟨rfl, R, hm⟩ := h
    cases hm
    unfold Node.resolve
    exact .finish o rfl
  | .localRef span name role type? init?, spares => by
    unfold Node.resolve
    by_cases hrole : role = .parameter
    · subst hrole
      obtain ⟨-, spares⟩ := List.forall_mem_cons.1 spares
      rw [if_pos rfl]
      refine (settles_optional o init? spares).bind fun init? => ?_
      refine (repeats_parameterType name type? init?).finish o _ ?_
      intro type? m R t u hm htype s hinit closed
      cases hm
      obtain ⟨-, closed⟩ := List.forall_mem_cons.1 closed
      unfold Node.resolve
      rw [if_pos rfl]
      exact (hinit closed).bind (htype.bind (.finish o rfl))
    · rw [if_neg hrole]
      refine (Repeats.of_local (.requireBinding name span)).finish o _ ?_
      intro b m R s t hm hb closed
      cases hm
      unfold Node.resolve
      rw [if_neg hrole]
      exact hb.bind (.finish o rfl)
  | .block span forms, spares => by
    obtain ⟨-, spares⟩ := List.forall_mem_cons.1 spares
    unfold Node.resolve
    refine (settles_each o forms spares).finish o _ ?_
    intro forms m R s t hm hforms closed
    cases hm
    obtain ⟨-, closed⟩ := List.forall_mem_cons.1 closed
    unfold Node.resolve
    exact (hforms closed).bind (.finish o rfl)
  | .cond span test thenForm elseForm?, spares => by
    obtain ⟨-, spares⟩ := List.forall_mem_cons.1 spares
    obtain ⟨sparesTest, spares⟩ := List.forall_mem_append.1 spares
    obtain ⟨sparesThen, sparesElse⟩ := List.forall_mem_append.1 spares
    unfold Node.resolve
    refine (settles_resolve o test sparesTest).bind fun test => ?_
    refine (settles_resolve o thenForm sparesThen).bind fun thenForm => ?_
    refine (settles_optional o elseForm? sparesElse).finish o _ ?_
    intro elseForm? m R u v hm helse t hthen s htest closed
    cases hm
    obtain ⟨-, closed⟩ := List.forall_mem_cons.1 closed
    obtain ⟨closedTest, closed⟩ := List.forall_mem_append.1 closed
    obtain ⟨closedThen, closedElse⟩ := List.forall_mem_append.1 closed
    unfold Node.resolve
    refine (htest closedTest).bind ((hthen closedThen).bind ?_)
    exact (helse closedElse).bind (.finish o rfl)
  | .invoke span callee args, spares => by
    obtain ⟨-, spares⟩ := List.forall_mem_cons.1 spares
    obtain ⟨sparesCallee, sparesArgs⟩ := List.forall_mem_append.1 spares
    unfold Node.resolve
    refine (settles_resolve o callee sparesCallee).bind fun callee => ?_
    refine (settles_each o args sparesArgs).finish o _ ?_
    intro args m R t u hm hargs s hcallee closed
    cases hm
    obtain ⟨-, closed⟩ := List.forall_mem_cons.1 closed
    obtain ⟨closedCallee, closedArgs⟩ := List.forall_mem_append.1 closed
    unfold Node.resolve
    exact (hcallee closedCallee).bind ((hargs closedArgs).bind (.finish o rfl))
  | .staticCall span owner member args resolved?, spares => by
    obtain ⟨-, spares⟩ := List.forall_mem_cons.1 spares
    unfold Node.resolve
    refine (settles_each o args spares).finish o _ ?_
    intro args m R s t hm hargs closed
    obtain ⟨found?, rfl⟩ := hostCalls_staticCall hm
    obtain ⟨bound, closed⟩ := List.forall_mem_cons.1 closed
    unfold Node.resolve
    exact (hargs closed).bind (.finish o bound)
  | .memberCall span target member args resolved?, spares => by
    obtain ⟨-, spares⟩ := List.forall_mem_cons.1 spares
    obtain ⟨sparesTarget, sparesArgs⟩ := List.forall_mem_append.1 spares
    unfold Node.resolve
    refine (settles_resolve o target sparesTarget).bind fun target => ?_
    refine (settles_each o args sparesArgs).finish o _ ?_
    intro args m R t u hm hargs s htarget closed
    obtain ⟨found?, rfl⟩ := hostCalls_memberCall hm
    obtain ⟨bound, closed⟩ := List.forall_mem_cons.1 closed
    obtain ⟨closedTarget, closedArgs⟩ := List.forall_mem_append.1 closed
    unfold Node.resolve
    exact (htarget closedTarget).bind ((hargs closedArgs).bind (.finish o bound))
  | .throw span value, spares => by
    obtain ⟨-, spares⟩ := List.forall_mem_cons.1 spares
    unfold Node.resolve
    refine (settles_resolve o value spares).finish o _ ?_
    intro value m R s t hm hvalue closed
    cases hm
    obtain ⟨-, closed⟩ := List.forall_mem_cons.1 closed
    unfold Node.resolve
    exact (hvalue closed).bind (.finish o rfl)
  | .letIn span isLoop bindings body, spares => by
    obtain ⟨-, spares⟩ := List.forall_mem_cons.1 spares
    obtain ⟨sparesBindings, sparesBody⟩ := List.forall_mem_append.1 spares
    unfold Node.resolve
    refine (Settles.inScope (settles_letIn o (settles_bindings o bindings sparesBindings)
      (settles_resolve o body sparesBody))).finish o (fun r => .letIn span isLoop r.1 r.2) ?_
    intro r m R s t hm hr closed
    cases hm
    obtain ⟨-, closed⟩ := List.forall_mem_cons.1 closed
    unfold Node.resolve
    exact (hr (List.forall_mem_append.1 closed)).bind (.finish o rfl)
  | .fn span head as, spares => by
    obtain ⟨-, spares⟩ := List.forall_mem_cons.1 spares
    unfold Node.resolve
    refine (repeats_resolveCaptures? head.captures?).bind fun captures? => ?_
    refine (repeats_wrapperOf o head _).bind fun r => ?_
    refine (settles_arities o (.bindFunction head.name? r.1 span) r.2 as spares).finish o _ ?_
    intro as' m R u v hm has t hr s hcaptures closed
    cases hm
    obtain ⟨-, closed⟩ := List.forall_mem_cons.1 closed
    obtain ⟨scope, length⟩ := hr
    rw [List.length_map] at length
    rw [← scope] at has
    unfold Node.resolve
    -- the form has its type by now, so that nothing is synthesized
    refine hcaptures.bind (.bind (.pure (r.1, _)) ?_)
    exact (has ⟨length, closed⟩).bind (.finish o rfl)
  | .guarded span captures? body cs final?, spares => by
    obtain ⟨-, spares⟩ := List.forall_mem_cons.1 spares
    obtain ⟨sparesBody, spares⟩ := List.forall_mem_append.1 spares
    obtain ⟨sparesClauses, sparesFinal⟩ := List.forall_mem_append.1 spares
    unfold Node.resolve
    refine (repeats_resolveCaptures? captures?).bind fun captures? => ?_
    refine (Settles.inScope (settles_resolve o body sparesBody)).bind fun body => ?_
    refine (settles_clauses o cs sparesClauses).bind fun cs => ?_
    refine (Settles.inScope (settles_optional o final? sparesFinal)).finish o _ ?_
    intro final? m R v w hm hfinal u hcs t hbody s hcaptures closed
    cases hm
    obtain ⟨-, closed⟩ := List.forall_mem_cons.1 closed
    obtain ⟨closedBody, closed⟩ := List.forall_mem_append.1 closed
    obtain ⟨closedClauses, closedFinal⟩ := List.forall_mem_append.1 closed
    unfold Node.resolve
    refine hcaptures.bind ((hbody closedBody).bind ((hcs closedClauses).bind ?_))
    exact (hfinal closedFinal).bind (.finish o rfl)
  | .record span head ms, spares => by
    obtain ⟨sparesHead, spares⟩ := List.forall_mem_cons.1 spares
    unfold Node.resolve
    refine (repeats_recordOf o head _ sparesHead).bind fun r => ?_
    refine repeats_registry.bind fun R => ?_
    have methods := settles_methods o r.2 ms spares
    refine (Settles.inScope ((methods.after (.bindFields (R.class? r.1.id) head.fields)).after
      (.bindSelf head.selfName r.1))).finish o _ ?_
    intro ms' m R' v w hm hms u hR s hr closed
    cases hm
    obtain ⟨-, closed⟩ := List.forall_mem_cons.1 closed
    obtain ⟨rfl, rfl⟩ := hR
    obtain ⟨scope, length, kept⟩ := hr
    rw [List.length_map] at length
    rw [← scope, kept] at hms
    unfold Node.resolve
    refine .bind (.pure (r.1, _)) (.bind .registry ?_)
    exact (hms ⟨length, closed⟩).bind (.finish o rfl)
  | .object span head ms, spares => by
    obtain ⟨-, spares⟩ := List.forall_mem_cons.1 spares
    unfold Node.resolve
    refine (repeats_objectOf o head _).bind fun r => ?_
    have methods := settles_methods o r.2 ms spares
    refine (Settles.inScope (methods.after (.bindSelf head.selfName r.1))).bind fun ms' => ?_
    refine (Repeats.of_local (.resolveCaptures _)).finish o _ ?_
    intro captures m R u v hm hcaptures t hms s hr closed
    cases hm
    obtain ⟨-, closed⟩ := List.forall_mem_cons.1 closed
    obtain ⟨scope, length⟩ := hr
    rw [List.length_map] at length
    rw [← scope] at hms
    unfold Node.resolve
    refine .bind (.pure (r.1, _)) ((hms ⟨length, closed⟩).bind ?_)
    exact hcaptures.bind (.finish o rfl)
  | .superCall span method selfName args, spares => by
    obtain ⟨-, spares⟩ := List.forall_mem_cons.1 spares
    unfold Node.resolve
    refine ((settles_each o args spares).with_of (scopeDiscipline.each _ args).of_ok).bind
      fun args => ?_
    refine repeats_registry.bind fun R => (Repeats.of_local .scope).bind fun here => ?_
    refine (Repeats.of_local (.ofExcept _)).finish o _ ?_
    intro bound m R' v w hm hbound u hhere t hR s hargs closed
    obtain ⟨hbound, same⟩ := ofExcept_eq_ok_iff.1 hbound
    obtain ⟨self, base, found, hself, -, -, rfl⟩ := bindSuperCall_eq_ok_iff.1 hbound
    cases hm
    obtain ⟨rfl, scope⟩ := hhere.of_scope
    obtain ⟨rfl, -⟩ := hR
    obtain ⟨surroundings, hargs⟩ := hargs
    obtain ⟨-, closed⟩ := List.forall_mem_cons.1 closed
    obtain ⟨-, closed⟩ := List.forall_mem_append.1 closed
    -- the call is bound in the scope after its arguments, which is the one before them
    rw [← congrArg ResolveState.scope same, scope]
    rw [← show s.scope = t.scope from surroundings] at hself hargs ⊢
    unfold Node.resolve
    have hrole : Role.objectSelf ≠ .parameter := nofun
    exact (again_localRef hrole (Scope.require_eq_ok_iff.2 hself) none).bind
      ((hargs closed).bind (.finish o rfl))
  | .baseCall span base method target args, spares => by
    obtain ⟨-, spares⟩ := List.forall_mem_cons.1 spares
    obtain ⟨sparesTarget, sparesArgs⟩ := List.forall_mem_append.1 spares
    unfold Node.resolve
    refine (settles_resolve o target sparesTarget).bind fun target => ?_
    refine (settles_each o args sparesArgs).finish o _ ?_
    intro args m R t u hm hargs s htarget closed
    cases hm
    obtain ⟨-, closed⟩ := List.forall_mem_cons.1 closed
    obtain ⟨closedTarget, closedArgs⟩ := List.forall_mem_append.1 closed
    unfold Node.resolve
    exact (htarget closedTarget).bind ((hargs closedArgs).bind (.finish o rfl))
  | .interface span head, _ => by
    unfold Node.resolve
    refine (repeats_interfaceOf o head).finish o _ ?_
    intro d m R s t hm scope closed
    cases hm
    unfold Node.resolve
    rw [← scope]
    exact .bind (.pure d) (.finish o rfl)

theorem settles_each (o : Options) : ∀ ns : List Node, run.Spares (visitedOfList ns) →
    Settles run (fun ms => Closed (visitedOfList ms)) (resolveEach { options := o })
      (resolveEach { options := o } ns)
  | [], _ => .pure fun _ _ => rfl
  | n :: ns, spares => by
    obtain ⟨sparesFirst, sparesRest⟩ := List.forall_mem_append.1 spares
    unfold resolveEach
    refine (settles_resolve o n sparesFirst).bind fun n => ?_
    refine (settles_each o ns sparesRest).bind fun ns => .pure ?_
    intro u t hns s hn closed
    obtain ⟨closedFirst, closedRest⟩ := List.forall_mem_append.1 closed
    exact (hn closedFirst).bind ((hns closedRest).bind (.pure _))

theorem settles_optional (o : Options) : ∀ n? : Option Node, run.Spares (visitedOfOption n?) →
    Settles run (fun m? => Closed (visitedOfOption m?)) (resolveOptional { options := o })
      (resolveOptional { options := o } n?)
  | none, _ => .pure fun _ _ => rfl
  | some n, spares => by
    unfold resolveOptional
    refine (settles_resolve o n spares).bind fun n => .pure ?_
    intro t s hn closed
    exact (hn closed).bind (.pure _)

theorem settles_bindings (o : Options) : ∀ bs : List LetBinding,
    run.Spares (visitedOfBindings bs) →
    Settles run (fun bs' => Closed (visitedOfBindings bs')) (resolveBindings { options := o })
      (resolveBindings { options := o } bs)
  | [], _ => .pure fun _ _ => rfl
  | ⟨name, init, _, span⟩ :: bs, spares => by
    obtain ⟨sparesFirst, sparesRest⟩ := List.forall_mem_append.1 spares
    unfold resolveBindings
    refine (settles_resolve o init sparesFirst).bind fun init => ?_
    refine (Repeats.of_local (.bindName name init.argumentType .letBound span)).bind fun _ => ?_
    refine (settles_bindings o bs sparesRest).bind fun bs => .pure ?_
    intro v u hbs t hname s hinit closed
    obtain ⟨closedFirst, closedRest⟩ := List.forall_mem_append.1 closed
    exact (hinit closedFirst).bind (hname.bind ((hbs closedRest).bind (.pure _)))

theorem settles_arities (o : Options) {bindSelf : ResolveM Unit} (hb : Local bindSelf) :
    ∀ (heads : List ArityHead) (as : List Arity), run.Spares (visitedOfArities as) →
    Settles run (fun as' => heads.length = as.length ∧ Closed (visitedOfArities as'))
      (fun as' => resolveArities { options := o } bindSelf (as'.map Arity.head) as')
      (resolveArities { options := o } bindSelf heads as)
  | head :: heads, ⟨_, body⟩ :: as, spares => by
    obtain ⟨sparesFirst, sparesRest⟩ := List.forall_mem_append.1 spares
    unfold resolveArities
    refine (Settles.inScope (((settles_resolve o body sparesFirst).after
      (.bindParams head.params)).after hb)).bind fun body => ?_
    refine (settles_arities o hb heads as sparesRest).bind fun as' => .pure ?_
    intro u t has s hbody h
    obtain ⟨length, closed⟩ := h
    obtain ⟨closedFirst, closedRest⟩ := List.forall_mem_append.1 closed
    exact (hbody closedFirst).bind ((has ⟨Nat.succ.inj length, closedRest⟩).bind (.pure _))
  | [], as, _ => by
    unfold resolveArities
    exact .pure fun _ _ => rfl
  | _ :: _, [], _ => by
    unfold resolveArities
    exact .pure fun _ _ => rfl

theorem settles_clauses (o : Options) : ∀ cs : List CatchClause,
    run.Spares (visitedOfClauses cs) →
    Settles run (fun cs' => Closed (visitedOfClauses cs')) (resolveClauses { options := o })
      (resolveClauses { options := o } cs)
  | [], _ => .pure fun _ _ => rfl
  | ⟨head, body⟩ :: cs, spares => by
    obtain ⟨sparesFirst, sparesRest⟩ := List.forall_mem_append.1 spares
    unfold resolveClauses
    refine (repeats_typeName "catch" head.caught).bind fun type => ?_
    refine (Settles.inScope ((settles_resolve o body sparesFirst).after
      (.bindName head.name type .caught head.span))).bind fun body => ?_
    refine (settles_clauses o cs sparesRest).bind fun cs => .pure ?_
    intro v u hcs t hbody s htype closed
    obtain ⟨closedFirst, closedRest⟩ := List.forall_mem_append.1 closed
    exact htype.bind ((hbody closedFirst).bind ((hcs closedRest).bind (.pure _)))

theorem settles_methods (o : Options) :
    ∀ (heads : List MethodHead) (ms : List Method), run.Spares (visitedOfMethods ms) →
    Settles run (fun ms' => heads.length = ms.length ∧ Closed (visitedOfMethods ms'))
      (fun ms' => resolveMethods { options := o } (ms'.map Method.head) ms')
      (resolveMethods { options := o } heads ms)
  | head :: heads, ⟨_, body⟩ :: ms, spares => by
    obtain ⟨sparesFirst, sparesRest⟩ := List.forall_mem_append.1 spares
    unfold resolveMethods
    refine (repeats_resolveCaptures head.captures).bind fun captures => ?_
    refine (Settles.inScope ((settles_resolve o body sparesFirst).after
      (.bindParams (head.self?.toList ++ head.params)))).bind fun body => ?_
    refine (settles_methods o heads ms sparesRest).bind fun ms' => .pure ?_
    intro v u hms t hbody s hcaptures h
    obtain ⟨length, closed⟩ := h
    obtain ⟨closedFirst, closedRest⟩ := List.forall_mem_append.1 closed
    refine hcaptures.bind ((hbody closedFirst).bind ?_)
    exact (hms ⟨Nat.succ.inj length, closedRest⟩).bind (.pure _)
  | [], ms, _ => by
    unfold resolveMethods
    exact .pure fun _ _ => rfl
  | _ :: _, [], _ => by
    unfold resolveMethods
    exact .pure fun _ _ => rfl

end

/-- Under the default lowerings, and with the types of bindings left as they are, what a form has
become is resolved to itself again, in the same scope and where the first run has ended.  The
session stays as it is.  No host call may be left open, no two names may share an identity, and the
run may not add the type that a record had from the start. -/
theorem idempotent_resolve (o : Options) {n n' : Node} {s t : ResolveState}
    (built : s.session.registry.Built) (distinct : t.session.registry.Distinct)
    (records : ∀ m ∈ n.visited, ∀ d ∈ m.recordType?, t.session.registry.contains d.id = true →
      s.session.registry.contains d.id = true)
    (closed : Closed n'.visited) (h : n.resolve { options := o } s = .ok n' t) :
    n'.resolve { options := o } { session := t.session, scope := s.scope } =
      .ok n' { session := t.session, scope := s.scope } := by
  have wellNamed : t.session.registry.WellNamed :=
    (Session.keepsNames_respected.discipline.resolve { options := o } n).of_ok h built.wellNamed
  let run : Rerun := ⟨s.session.registry, t.session, built.sound, distinct, wellNamed⟩
  have settles : Settles run (fun m => Closed m.visited) (Node.resolve { options := o })
      (n.resolve { options := o }) := settles_resolve o n records
  have again := settles.result h ⟨.refl, .refl⟩ closed
  rwa [← show s.scope = t.scope from (scopeDiscipline.resolve _ n).of_ok h] at again

/-! ### A tree that is resolved twice, and two that are resolved differently -/

namespace Node

/-- A proxy that calls its base, a clause that catches a pointer type, and a record whose class is
known from the start. -/
def guardedProxy : Node :=
  .guarded .unknown none
    (.object .unknown
      { kind := .proxy, supers := [⟨"Exception", .unknown⟩], selfName := "this",
        captures := .empty }
      [⟨{ name := "get_Message", captures := .empty },
        .superCall .unknown "get_Message" "this" []⟩])
    [⟨{ caught := ⟨"Exception*", .unknown⟩, name := "e" },
      .localRef .unknown "e" .caught none none⟩]
    (some (.record .unknown
      { name := "Exception", selfName := "self",
        descriptor? := some ⟨"Exception", .ofName "Exception"⟩ } []))

/-- A record with a field `x`, whose class is only added by the form after it.  Its method refers to
a binding `x` around it. -/
def lateRecord : Node :=
  .letIn .unknown false [⟨"x", .const .unknown (.str "outer"), none, .unknown⟩]
    (.block .unknown
      [.record .unknown
        { name := "Point", fields := [{ name := "x" }], selfName := "self",
          descriptor? := some ⟨"sable.gen.Point", .ofName "sable.gen.Point"⟩ }
        [⟨{ name := "ToString", captures := .empty },
          .localRef .unknown "x" .letBound none none⟩],
       .record .unknown
        { name := "Point", fields := [{ name := "x", hint? := some ⟨"int", .unknown⟩ }],
          selfName := "self" } []])

/-- Two clauses that catch pointer types.  The second pointer type takes the place of the class that
the first one points to. -/
def collidingClauses : Node :=
  .guarded .unknown none (.const .unknown .nil)
    [⟨{ caught := ⟨"Catalog.EntryKey*", .unknown⟩, name := "e" }, .const .unknown .nil⟩,
     ⟨{ caught := ⟨"QlunqgbaYVbLoin*", .unknown⟩, name := "e" }, .const .unknown .nil⟩] none

end Node

/-- Two classes.  The name of the first has the same digest as that of the pointer type over the
second. -/
def collidingClasses : List Operation :=
  [.register (.classType { name := "Catalog.EntryKey" }),
   .register (.classType { name := "QlunqgbaYVbLoin" })]

/-- The session that starts with these classes besides the built-in ones. -/
def collidingSession : Session := { registry := collidingClasses.foldl Operation.after .host }

theorem idempotent_resolve_guardedProxy :
    ∃ n' t, guardedProxy.resolve { options := {} } { session := { registry := .host } } = .ok n' t ∧
      n'.resolve { options := {} } { session := t.session } = .ok n' { session := t.session } := by
  have h : accepted (fun n' t =>
        decide (t.session.registry.names.values.Nodup ∧ Closed n'.visited ∧
          ∀ m ∈ guardedProxy.visited, ∀ d ∈ m.recordType?,
            t.session.registry.contains d.id = true → host.contains d.id = true))
      (guardedProxy.resolve { options := {} } { session := { registry := .host } }) = true := by
    decide +kernel
  obtain ⟨n', t, h, conditions⟩ := exists_of_accepted h
  obtain ⟨nodup, closed, records⟩ := of_decide_eq_true conditions
  exact ⟨n', t, h, idempotent_resolve {} (built_of_mem_starts (by simp)) (distinct_of_nodup nodup)
    records closed h⟩

/-- Where the run adds the type that a record had from the start, the second run may find fields
that the first has not found.  Where two names share an identity, it may find another type. -/
theorem not_idempotent_resolve :
    (¬ ∀ (o : Options) (n n' : Node) (s t : ResolveState), s.session.registry.Built →
      t.session.registry.Distinct → Closed n'.visited → n.resolve { options := o } s = .ok n' t →
      n'.resolve { options := o } { session := t.session, scope := s.scope } =
        .ok n' { session := t.session, scope := s.scope }) ∧
    (¬ ∀ (o : Options) (n n' : Node) (s t : ResolveState), s.session.registry.Built →
      (∀ m ∈ n.visited, m.recordType? = none) → Closed n'.visited →
      n.resolve { options := o } s = .ok n' t →
      n'.resolve { options := o } { session := t.session, scope := s.scope } =
        .ok n' { session := t.session, scope := s.scope }) := by
  constructor
  · intro h
    have differs : accepted (fun n' t =>
          decide (t.session.registry.names.values.Nodup ∧ Closed n'.visited) &&
          accepted (fun n'' _ => n''.visited.map staticType? != n'.visited.map staticType?)
            (n'.resolve { options := {} } { session := t.session }))
        (lateRecord.resolve { options := {} } { session := { registry := .host } }) = true := by
      decide +kernel
    obtain ⟨n', t, run, differs⟩ := exists_of_accepted differs
    obtain ⟨conditions, differs⟩ := Bool.and_eq_true_iff.1 differs
    obtain ⟨nodup, closed⟩ := of_decide_eq_true conditions
    have again := h {} _ _ _ _ (built_of_mem_starts (by simp)) (distinct_of_nodup nodup) closed run
    rw [again] at differs
    exact absurd rfl (bne_iff_ne.1 differs)
  · intro h
    have differs : accepted (fun n' t => decide (Closed n'.visited) &&
          accepted (fun _ u => u.session.registry.size != t.session.registry.size)
            (n'.resolve { options := {} } { session := t.session }))
        (collidingClauses.resolve { options := {} } { session := collidingSession }) = true := by
      decide +kernel
    obtain ⟨n', t, run, differs⟩ := exists_of_accepted differs
    obtain ⟨closed, differs⟩ := Bool.and_eq_true_iff.1 differs
    have built : collidingSession.registry.Built :=
      ⟨.host, by simp, collidingClasses, by decide, rfl⟩
    have again := h {} _ _ _ _ built (by decide) (of_decide_eq_true closed) run
    rw [again] at differs
    exact absurd rfl (bne_iff_ne.1 differs)

end TypeSynthesis
