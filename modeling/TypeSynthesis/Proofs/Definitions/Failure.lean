import TypeSynthesis.Compile
import TypeSynthesis.Proofs.Definitions.Completion

/-!
# What a failing form leaves behind

Every construct registers its type by itself, before the forms within are resolved, and what is
registered stays.  So a form that fails leaves the types of the constructs that it has completed,
and nothing else that is synthesized.

* `completes_resolve`: the resolution of a form completes its constructs in order, by induction over
  the form;
* `resolve_eq_error`: a construct whose own synthesis fails goes no further;
* `gains_resolveForms`: what forms side by side complete;
* `Leaves o first last form`: what a form that fails has left behind;
* `leaves_resolveForm`: so it is with every form that fails after others.
-/

namespace TypeSynthesis

open ResolveM SynthM Node Registry

/-! ### Constructs -/

/-- A form that has a type completes nothing by itself, and one that has none is given its type by
synthesis. -/
theorem kept_or_completes {α : Type} {o : Options} {d? : Option Descriptor}
    {keep : Descriptor → α} {x : SynthM α} {g : α → Descriptor} {c : Construct}
    (hc : c.synthesize o = do return g (← x)) :
    Completes o (match d? with
      | some d => pure (keep d)
      | none => synthesize x) (if d?.isSome then none else some c).toList := by
  cases d? with
  | some d => exact .pure _
  | none => exact completes_synthesize hc

theorem completes_wrapperOf (p : Pipeline) (span : Span) (head : FnHead) (as : List Arity) :
    Completes p.options (wrapperOf p head (as.map Arity.head))
      (Node.fn span head as).construct?.toList :=
  kept_or_completes rfl

theorem completes_recordOf (p : Pipeline) (span : Span) (head : RecordHead) (ms : List Method) :
    Completes p.options (recordOf p head (ms.map Method.head))
      (Node.record span head ms).construct?.toList :=
  kept_or_completes rfl

theorem completes_objectOf (p : Pipeline) (span : Span) (head : ObjectHead) (ms : List Method) :
    Completes p.options (objectOf p head (ms.map Method.head))
      (Node.object span head ms).construct?.toList :=
  kept_or_completes rfl

theorem completes_interfaceOf (p : Pipeline) (span : Span) (head : InterfaceHead) :
    Completes p.options (interfaceOf p head) (Node.interface span head).construct?.toList :=
  kept_or_completes (g := id) (bind_pure _).symm

/-! ### Forms

The induction is over the input form.  Each case puts the constructs of its parts together. -/

mutual

/-- The resolution of a form completes its constructs in order. -/
theorem completes_resolve (p : Pipeline) : ∀ n : Node,
    Completes p.options (n.resolve p) n.constructs
  | .const span value => by
    unfold Node.resolve
    exact completes_finish p _
  | .localRef span name role type? init? => by
    unfold Node.resolve
    show Completes _ _ (constructsIn (if role = .parameter then visitedOfOption init? else []))
    by_cases hrole : role = .parameter
    · rw [if_pos hrole, if_pos hrole]
      refine (completes_optional p init?).andThen fun init? => ?_
      exact (Completes.of_readies (moves_parameterType ..)).after fun _ => completes_finish p _
    · rw [if_neg hrole, if_neg hrole]
      exact (Completes.of_readies (moves_requireBinding ..)).after fun _ => completes_finish p _
  | .block span forms => by
    unfold Node.resolve
    exact (completes_each p forms).finish p _
  | .cond span test thenForm elseForm? => by
    unfold Node.resolve
    show Completes _ _ (constructsIn
      (test.visited ++ (thenForm.visited ++ visitedOfOption elseForm?)))
    rw [constructsIn_append, constructsIn_append]
    refine (completes_resolve p test).bind fun test => ?_
    refine (completes_resolve p thenForm).bind fun thenForm => ?_
    exact (completes_optional p elseForm?).finish p _
  | .invoke span callee args => by
    unfold Node.resolve
    show Completes _ _ (constructsIn (callee.visited ++ visitedOfList args))
    rw [constructsIn_append]
    exact (completes_resolve p callee).bind fun callee => (completes_each p args).finish p _
  | .staticCall span owner member args resolved? => by
    unfold Node.resolve
    exact (completes_each p args).finish p _
  | .memberCall span target member args resolved? => by
    unfold Node.resolve
    show Completes _ _ (constructsIn (target.visited ++ visitedOfList args))
    rw [constructsIn_append]
    exact (completes_resolve p target).bind fun target => (completes_each p args).finish p _
  | .throw span value => by
    unfold Node.resolve
    exact (completes_resolve p value).finish p _
  | .letIn span isLoop bindings body => by
    unfold Node.resolve
    show Completes _ _ (constructsIn (visitedOfBindings bindings ++ body.visited))
    rw [constructsIn_append]
    refine (Completes.inScope ?_).finish p
      fun r : List LetBinding × Node => .letIn span isLoop r.1 r.2
    refine (completes_bindings p bindings).bind fun bs => ?_
    refine (completes_refineBindings p bs).after fun bs => ?_
    exact (completes_resolve p body).andThen fun body => .pure _
  | .fn span head as => by
    unfold Node.resolve
    show Completes _ _ (constructsIn (.fn span head as :: visitedOfArities as))
    rw [constructsIn_cons]
    refine (Completes.of_readies (moves_resolveCaptures? _)).after fun captures? => ?_
    refine (completes_wrapperOf p span head as).bind_of length_wrapperOf fun r length => ?_
    rw [List.length_map] at length
    exact (completes_arities p (binds_bindFunction ..) r.2 as length).finish p _
  | .guarded span captures? body cs final? => by
    unfold Node.resolve
    show Completes _ _ (constructsIn
      (body.visited ++ (visitedOfClauses cs ++ visitedOfOption final?)))
    rw [constructsIn_append, constructsIn_append]
    refine (Completes.of_readies (moves_resolveCaptures? _)).after fun captures? => ?_
    refine (completes_resolve p body).inScope.bind fun body => ?_
    refine (completes_clauses p cs).bind fun cs => ?_
    exact (completes_optional p final?).inScope.finish p _
  | .record span head ms => by
    unfold Node.resolve
    show Completes _ _ (constructsIn (.record span head ms :: visitedOfMethods ms))
    rw [constructsIn_cons]
    refine (completes_recordOf p span head ms).bind_of length_recordOf fun r length => ?_
    rw [List.length_map] at length
    refine (Completes.of_readies moves_registry).after fun R => ?_
    refine (Completes.inScope ?_).finish p _
    refine (completes_binds (binds_bindSelf ..)).after fun _ => ?_
    refine (completes_binds (binds_bindFields ..)).after fun _ => ?_
    exact completes_methods p r.2 ms length
  | .object span head ms => by
    unfold Node.resolve
    show Completes _ _ (constructsIn (.object span head ms :: visitedOfMethods ms))
    rw [constructsIn_cons]
    refine (completes_objectOf p span head ms).bind_of length_objectOf fun r length => ?_
    rw [List.length_map] at length
    refine Completes.andThen (.inScope ?_) fun ms => ?_
    · refine (completes_binds (binds_bindSelf ..)).after fun _ => ?_
      exact completes_methods p r.2 ms length
    · exact (Completes.of_readies (moves_resolveCaptures _)).after fun _ => completes_finish p _
  | .superCall span method selfName args => by
    unfold Node.resolve
    refine (completes_each p args).andThen fun args => ?_
    refine (Completes.of_readies moves_registry).after fun R => ?_
    refine (Completes.of_readies moves_scope).after fun here => ?_
    exact (Completes.of_readies (.ofExcept _)).after fun _ => completes_finish p _
  | .baseCall span base method target args => by
    unfold Node.resolve
    show Completes _ _ (constructsIn (target.visited ++ visitedOfList args))
    rw [constructsIn_append]
    exact (completes_resolve p target).bind fun target => (completes_each p args).finish p _
  | .interface span head => by
    unfold Node.resolve
    show Completes _ _ (constructsIn [.interface span head])
    rw [constructsIn_cons]
    exact (completes_interfaceOf p span head).bind fun d => completes_finish p _

theorem completes_each (p : Pipeline) : ∀ ns : List Node,
    Completes p.options (resolveEach p ns) (constructsIn (visitedOfList ns))
  | [] => .pure _
  | n :: ns => by
    unfold resolveEach visitedOfList
    rw [constructsIn_append]
    exact (completes_resolve p n).bind fun n => (completes_each p ns).andThen fun ns => .pure _

theorem completes_optional (p : Pipeline) : ∀ n? : Option Node,
    Completes p.options (resolveOptional p n?) (constructsIn (visitedOfOption n?))
  | none => .pure _
  | some n => by
    unfold resolveOptional
    exact (completes_resolve p n).andThen fun n => .pure _

theorem completes_bindings (p : Pipeline) : ∀ bs : List LetBinding,
    Completes p.options (resolveBindings p bs) (constructsIn (visitedOfBindings bs))
  | [] => .pure _
  | ⟨name, init, _, span⟩ :: bs => by
    unfold resolveBindings visitedOfBindings
    rw [constructsIn_append]
    refine (completes_resolve p init).bind fun init => ?_
    refine (completes_binds (binds_bindName ..)).after fun _ => ?_
    exact (completes_bindings p bs).andThen fun bs => .pure _

theorem completes_arities (p : Pipeline) {f : TypeMap → TypeMap} {bindSelf : ResolveM Unit}
    (hb : Binds f bindSelf) : ∀ (heads : List ArityHead) (as : List Arity),
      heads.length = as.length →
      Completes p.options (resolveArities p bindSelf heads as)
        (constructsIn (visitedOfArities as))
  | [], [], _ => by
    unfold resolveArities
    exact .pure _
  | head :: heads, ⟨_, body⟩ :: as, length => by
    unfold resolveArities visitedOfArities
    rw [constructsIn_append]
    refine Completes.bind (.inScope ?_) fun body => ?_
    · refine (completes_binds hb).after fun _ => (completes_binds (binds_bindParams _)).after ?_
      exact fun _ => completes_resolve p body
    · exact (completes_arities p hb heads as (Nat.succ.inj length)).andThen fun as => .pure _
  | [], _ :: _, length => nomatch length
  | _ :: _, [], length => nomatch length

theorem completes_clauses (p : Pipeline) : ∀ cs : List CatchClause,
    Completes p.options (resolveClauses p cs) (constructsIn (visitedOfClauses cs))
  | [] => .pure _
  | ⟨head, body⟩ :: cs => by
    unfold resolveClauses visitedOfClauses
    rw [constructsIn_append]
    refine (completes_typeName ..).after fun t => Completes.bind (.inScope ?_) fun body => ?_
    · exact (completes_binds (binds_bindName ..)).after fun _ => completes_resolve p body
    · exact (completes_clauses p cs).andThen fun cs => .pure _

theorem completes_methods (p : Pipeline) : ∀ (heads : List MethodHead) (ms : List Method),
    heads.length = ms.length →
    Completes p.options (resolveMethods p heads ms) (constructsIn (visitedOfMethods ms))
  | [], [], _ => by
    unfold resolveMethods
    exact .pure _
  | head :: heads, ⟨_, body⟩ :: ms, length => by
    unfold resolveMethods visitedOfMethods
    rw [constructsIn_append]
    refine (Completes.of_readies (moves_resolveCaptures _)).after fun captures => ?_
    refine Completes.bind (.inScope ?_) fun body => ?_
    · exact (completes_binds (binds_bindParams _)).after fun _ => completes_resolve p body
    · exact (completes_methods p heads ms (Nat.succ.inj length)).andThen fun ms => .pure _
  | [], _ :: _, length => nomatch length
  | _ :: _, [], length => nomatch length

end

/-! ### A construct whose own synthesis fails -/

/-- A form that has no type fails where its synthesis fails. -/
theorem synthesized_eq_error {α : Type} {d? : Option Descriptor} {keep : Descriptor → α}
    {x : SynthM α} {s : ResolveState} {u : Session} {e : CompilationError}
    (h : x s.session = .error e u) :
    d? = none → (match d? with
      | some d => pure (keep d)
      | none => synthesize x : ResolveM α) s = .error e { s with session := u } := by
  rintro rfl
  show synthesize x s = _
  unfold synthesize
  rw [h]

theorem fresh_of_construct {d? : Option Descriptor} {c c' : Construct}
    (h : (if d?.isSome then none else some c') = some c) : d? = none ∧ c' = c := by
  cases d? with
  | none => exact ⟨rfl, Option.some.inj h⟩
  | some d => cases h

/-- Where the own synthesis of a construct fails, the construct fails with it, before any form
within is resolved. -/
theorem resolve_eq_error {p : Pipeline} {n : Node} {c : Construct} {s : ResolveState} {u : Session}
    {e : CompilationError} (hc : n.construct? = some c)
    (h : c.synthesize p.options s.session = .error e u) :
    n.resolve p s = .error e { s with session := u } := by
  cases n with
  | fn span head as =>
    obtain ⟨fresh, rfl⟩ := fresh_of_construct hc
    have captured : resolveCaptures? head.captures? s =
        .ok (head.captures?.map (·.resolveIn s.scope)) s := rfl
    unfold Node.resolve
    rw [bind_run_ok captured]
    exact bind_run_error (synthesized_eq_error (eq_error_of_map h) fresh)
  | record span head ms =>
    obtain ⟨fresh, rfl⟩ := fresh_of_construct hc
    unfold Node.resolve
    exact bind_run_error (synthesized_eq_error (eq_error_of_map h) fresh)
  | object span head ms =>
    obtain ⟨fresh, rfl⟩ := fresh_of_construct hc
    unfold Node.resolve
    exact bind_run_error (synthesized_eq_error (eq_error_of_map h) fresh)
  | interface span head =>
    obtain ⟨fresh, rfl⟩ := fresh_of_construct hc
    unfold Node.resolve
    exact bind_run_error (synthesized_eq_error h fresh)
  | _ => cases hc

/-! ### Top-level forms -/

theorem session_resolveForm (p : Pipeline) (s : Session) (form : Node) :
    (p.resolveForm s form).2 = (endState (form.resolve p { session := s })).session := by
  unfold Pipeline.resolveForm
  cases form.resolve p { session := s } <;> rfl

theorem grows_resolveForm (p : Pipeline) (s : Session) (form : Node) :
    s.registry.Grows (p.resolveForm s form).2.registry := by
  rw [session_resolveForm]
  exact (growth.resolve p form).run { session := s }

theorem grows_resolveForms (p : Pipeline) (s : Session) (forms : List Node) :
    s.registry.Grows (p.resolveForms s forms).2.registry := by
  induction forms generalizing s with
  | nil => exact .refl
  | cons form forms ih => exact (grows_resolveForm p s form).trans (ih _)

section Forms

variable {p : Pipeline} {s t : Session}

/-- A form completes the first few of its constructs. -/
theorem gains_resolveForm (form : Node) (sound : s.registry.Sound)
    (hosted : s.registry.HostInvokers)
    (distinct : (p.resolveForm s form).2.registry.Distinct) :
    ∃ done, done <+: form.constructs ∧
      s.registry.Gains p.options (p.resolveForm s form).2.registry done := by
  rw [session_resolveForm] at distinct ⊢
  obtain ⟨made, through, initial, -⟩ := (completes_resolve p form).run { session := s }
  exact ⟨made.map Prod.fst, initial, through.gains sound hosted distinct⟩

/-- Forms in order complete some of their constructs in order. -/
theorem gains_resolveForms (forms : List Node) (sound : s.registry.Sound)
    (hosted : s.registry.HostInvokers)
    (distinct : (p.resolveForms s forms).2.registry.Distinct) :
    ∃ done, done.Sublist (forms.flatMap Node.constructs) ∧
      s.registry.Gains p.options (p.resolveForms s forms).2.registry done := by
  induction forms generalizing s with
  | nil => exact ⟨[], .slnil, .refl _⟩
  | cons form forms ih =>
    obtain ⟨done, initial, gains⟩ := gains_resolveForm form sound hosted
      (distinct.of_grows (grows_resolveForms p (p.resolveForm s form).2 forms))
    obtain ⟨done', sub, gains'⟩ :=
      ih (sound.of_grows gains.grows) (gains.hostInvokers hosted) distinct
    exact ⟨done ++ done', initial.sublist.append sub, gains.trans gains'⟩

/-- What a form that fails has left behind.

The synthesized types that it adds are those of the first few of its constructs, one for each, and
each was registered by a synthesis that succeeded.  If the form is a construct and its own synthesis
fails, it leaves no synthesized type at all. -/
structure Leaves (o : Options) (first last : Session) (form : Node) : Prop where
  completed : ∃ done es, done <+: form.constructs ∧
    List.Forall₂ (Construct.Makes o first.registry last.registry) done es ∧ es.Nodup ∧
    (∀ e ∈ es, e ∉ first.registry.synthesized) ∧
    last.registry.synthesized = first.registry.synthesized ∪ {e | e ∈ es}
  unmade {c : Construct} {u : Session} {e : CompilationError} (hc : form.construct? = some c)
    (h : c.synthesize o first = .error e u) :
    last.registry.synthesized = first.registry.synthesized

end Forms

/-! ### Forms that fail after their types are registered -/

/-- Whether a form has failed in a session that passes a test. -/
def failedWith (q : Session → Bool) : Except CompilationError Node × Session → Bool
  | (.error _, t) => q t
  | (.ok _, _) => false

theorem exists_of_failedWith {q : Session → Bool} {r : Except CompilationError Node × Session}
    (h : failedWith q r = true) : ∃ e t, r = (.error e, t) ∧ q t = true := by
  obtain ⟨_ | e, t⟩ := r
  · exact ⟨_, t, rfl, h⟩
  · cases h

/-- Whether a synthesized type of the first registry, found there under the name, is not in the
second one. -/
def Registry.losesAt (R S : Registry) (name : String) : Bool :=
  (R.find? name).any fun e => e.isSynthesized && decide (S.get? e.id ≠ some e)

theorem Registry.exists_of_losesAt {R S : Registry} {name : String} (sound : S.Sound)
    (h : R.losesAt S name = true) : ∃ e ∈ R.synthesized, e ∉ S.synthesized := by
  obtain ⟨e, he, h⟩ := (Option.any_eq_true _ _).1 h
  obtain ⟨origin, lost⟩ := Bool.and_eq_true_iff.1 h
  obtain ⟨t, -, found⟩ := find?_eq_some_iff.1 he
  refine ⟨e, ⟨t, found, beq_iff_eq.1 origin⟩, fun kept => ?_⟩
  exact of_decide_eq_true lost ((mem_synthesized_iff sound).1 kept).1

theorem hostInvokers_of_names {R : Registry}
    (others : ∀ name ∈ R.names.keys, ¬ invokerStem.toList <+: name.toList) : R.HostInvokers := by
  intro n i hi
  rw [find?_invokerName others] at hi
  cases hi

theorem hostInvokers_host : host.HostInvokers := hostInvokers_of_names (by decide +kernel)

namespace Node

/-- A record whose method refers to a local that nothing binds. -/
def brokenPoint : Node :=
  .record .unknown { name := "Point", selfName := "self" }
    [⟨{ name := "ToString", captures := .empty }, .localRef .unknown "x" .letBound none none⟩]

/-- A record of its own. -/
def cell : Node := .record .unknown { name := "Cell", selfName := "self" } []

/-- A record whose class has, under a qualifier, the digest of a pointer type. -/
def entryKey : Node := .record .unknown { name := "EntryKey", selfName := "self" } []

/-- A clause that catches this pointer type and refers to a local that nothing binds. -/
def brokenClause : Node :=
  .guarded .unknown none (.const .unknown .nil)
    [⟨{ caught := ⟨"QlunqgbaYVbLoin*", .unknown⟩, name := "e" },
      .localRef .unknown "x" .letBound none none⟩] none

/-- The arity without parameters, and one with too many. -/
def wideArities : List Arity :=
  [⟨{ params := [] }, .const .unknown .nil⟩,
   ⟨{ params := List.replicate 21 { name := "x" } }, .const .unknown .nil⟩]

end Node

/-- The session that starts with the built-in types and those that an operation adds. -/
def sessionAfter (o : Operation) : Session := { registry := Operation.after .host o }

theorem built_sessionAfter {o : Operation} (plain : o.isPlain = true) :
    (sessionAfter o).registry.Built :=
  ⟨host, by simp, [o], by simpa using plain, rfl⟩

/-- The registration of the class that the pointer type is over. -/
def registerPointee : Operation := .register (.classType { name := "QlunqgbaYVbLoin" })

/-- The registration of a generic interface under the name of an invoker definition, which counts as
synthesized. -/
def registerStrayInvoker : Operation :=
  .register (.interfaceType
    { name := invokerName 0, typeParams := [.ofName "T"], origin := .synthesized })

/-- The pipeline under whose qualifier the name of a record is that of the pointer's digest. -/
def catalog : Pipeline := { options := { qualifier := "Catalog" } }

/-- The record has its type when its method fails. -/
theorem synthesized_brokenPoint :
    ∃ e t, Pipeline.resolveForm {} { registry := .host } brokenPoint = (.error e, t) ∧
      t.registry.Distinct ∧ t.registry.synthesized ≠ host.synthesized := by
  have h : failedWith (fun t => decide t.registry.names.values.Nodup &&
        t.registry.losesAt host "sable.gen.Point")
      (Pipeline.resolveForm {} { registry := .host } brokenPoint) = true := by
    decide +kernel
  obtain ⟨e, t, failed, conditions⟩ := exists_of_failedWith h
  obtain ⟨nodup, new⟩ := Bool.and_eq_true_iff.1 conditions
  obtain ⟨c, hc, new⟩ := exists_of_losesAt (built_of_mem_starts (by simp)).sound new
  refine ⟨e, t, failed, distinct_of_nodup (of_decide_eq_true nodup), fun same => ?_⟩
  rw [same] at hc
  exact new hc

/-- The pointer type that the clause catches takes the place of the record's class. -/
theorem displaced_brokenClause :
    ∃ e t, catalog.resolveForm (catalog.resolveForms (sessionAfter registerPointee) [entryKey]).2
        brokenClause = (.error e, t) ∧
      ¬ Leaves catalog.options (catalog.resolveForms (sessionAfter registerPointee) [entryKey]).2 t
        brokenClause := by
  have h : failedWith
      (fun t => (catalog.resolveForms (sessionAfter registerPointee)
        [entryKey]).2.registry.losesAt t.registry "Catalog.EntryKey")
      (catalog.resolveForm (catalog.resolveForms (sessionAfter registerPointee) [entryKey]).2
        brokenClause) = true := by
    decide +kernel
  obtain ⟨e, t, failed, lost⟩ := exists_of_failedWith h
  refine ⟨e, t, failed, fun leaves => ?_⟩
  have grows := (grows_resolveForms catalog (sessionAfter registerPointee) [entryKey]).trans
    (grows_resolveForm catalog _ brokenClause)
  rw [failed] at grows
  have sound : t.registry.Sound := (built_sessionAfter rfl).sound.of_grows grows
  obtain ⟨done, es, -, -, -, -, all⟩ := leaves.completed
  obtain ⟨c, hc, lost⟩ := exists_of_losesAt sound lost
  exact lost (all ▸ .inl hc)

/-- The instance for the first arity stays, and the function is not completed. -/
theorem instance_wideArities :
    ∃ e t, Pipeline.resolveForm {} (sessionAfter registerStrayInvoker)
        (.fn .unknown {} wideArities) = (.error e, t) ∧ t.registry.Distinct ∧
      ¬ Leaves {} (sessionAfter registerStrayInvoker) t (.fn .unknown {} wideArities) := by
  have h : failedWith (fun t => decide t.registry.names.values.Nodup &&
        t.registry.losesAt (sessionAfter registerStrayInvoker).registry
          "sable.lang.Invoker`0<object>")
      (Pipeline.resolveForm {} (sessionAfter registerStrayInvoker)
        (.fn .unknown {} wideArities)) = true := by
    decide +kernel
  have unmade : accepted (fun _ _ => true) ((Construct.fn none
      (wideArities.map Arity.head)).synthesize {} (sessionAfter registerStrayInvoker)) = false := by
    decide +kernel
  obtain ⟨e, t, failed, conditions⟩ := exists_of_failedWith h
  obtain ⟨nodup, new⟩ := Bool.and_eq_true_iff.1 conditions
  obtain ⟨c, hc, new⟩ := exists_of_losesAt (built_sessionAfter rfl).sound new
  refine ⟨e, t, failed, distinct_of_nodup (of_decide_eq_true nodup), fun leaves => ?_⟩
  cases hs : (Construct.fn none (wideArities.map Arity.head)).synthesize {}
      (sessionAfter registerStrayInvoker) with
  | ok d u =>
    rw [hs] at unmade
    cases unmade
  | error e' u =>
    rw [leaves.unmade rfl hs] at hc
    exact new hc

end TypeSynthesis
