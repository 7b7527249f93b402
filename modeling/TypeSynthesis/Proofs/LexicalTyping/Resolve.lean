import TypeSynthesis.Proofs.LexicalTyping.Yields

/-!
# Resolution types lexically

Under the default lowerings, and with the types of bindings left as they are, resolution gives
every local the type of its binder.

* `yields_resolve`: the resolution of a form yields a lexically typed one, by induction over the
  form;
* `lexicallyTyped_resolve`: the same for a compilation as a whole.
-/

namespace TypeSynthesis

open ResolveM Node

variable {run : Run}

/-! ### Forms

The induction is over the input form.  Each case puts what its parts yield together, and the
lowerings keep it. -/

mutual

/-- The resolution of a form yields a lexically typed one. -/
theorem yields_resolve (o : Options) : ∀ n : Node, n.presets ⊆ run.preset →
    Yields run (LexicallyTyped run (· = .parameter)) (n.resolve { options := o })
  | .const span value, _ => by
    unfold Node.resolve
    exact (yields_finish o _).imp fun Γ n h => h trivial
  | .localRef span name role type? init?, hp => by
    unfold Node.resolve
    by_cases hrole : role = .parameter
    · rw [if_pos hrole]
      refine (yields_optional o init? hp).bind fun init? => ?_
      refine (yields_parameterType name type? init?).bind fun type? => ?_
      refine (yields_finish o _).imp fun Γ n h htype hinit => h ⟨?_, fun _ => hinit⟩
      rw [hrole]
      exact htype
    · rw [if_neg hrole]
      refine (yields_requireBinding name span).bind fun b => ?_
      refine (yields_finish o _).imp fun Γ n h hb => h ⟨?_, fun h => absurd h hrole⟩
      unfold LocalTyped
      rw [if_neg hrole]
      exact ⟨b.type, hb, rfl⟩
  | .block span forms, hp => by
    unfold Node.resolve
    refine (yields_each o forms hp).bind fun forms => ?_
    exact (yields_finish o _).imp fun Γ n h hforms => h hforms
  | .cond span test thenForm elseForm?, hp => by
    unfold presets at hp
    obtain ⟨hp, hpelse⟩ := List.append_subset.1 hp
    obtain ⟨hptest, hpthen⟩ := List.append_subset.1 hp
    unfold Node.resolve
    refine (yields_resolve o test hptest).bind fun test => ?_
    refine (yields_resolve o thenForm hpthen).bind fun thenForm => ?_
    refine (yields_optional o elseForm? hpelse).bind fun elseForm? => ?_
    exact (yields_finish o _).imp fun Γ n h helse hthen htest => h ⟨htest, hthen, helse⟩
  | .invoke span callee args, hp => by
    unfold presets at hp
    obtain ⟨hpcallee, hpargs⟩ := List.append_subset.1 hp
    unfold Node.resolve
    refine (yields_resolve o callee hpcallee).bind fun callee => ?_
    refine (yields_each o args hpargs).bind fun args => ?_
    exact (yields_finish o _).imp fun Γ n h hargs hcallee => h ⟨hcallee, hargs⟩
  | .staticCall span owner member args resolved?, hp => by
    unfold Node.resolve
    refine (yields_each o args hp).bind fun args => ?_
    exact (yields_finish o _).imp fun Γ n h hargs => h hargs
  | .memberCall span target member args resolved?, hp => by
    unfold presets at hp
    obtain ⟨hptarget, hpargs⟩ := List.append_subset.1 hp
    unfold Node.resolve
    refine (yields_resolve o target hptarget).bind fun target => ?_
    refine (yields_each o args hpargs).bind fun args => ?_
    exact (yields_finish o _).imp fun Γ n h hargs htarget => h ⟨htarget, hargs⟩
  | .throw span value, hp => by
    unfold Node.resolve
    refine (yields_resolve o value hp).bind fun value => ?_
    exact (yields_finish o _).imp fun Γ n h hvalue => h hvalue
  | .letIn span isLoop bindings body, hp => by
    obtain ⟨hpbs, hpbody⟩ := List.append_subset.1 hp
    unfold Node.resolve
    have parts := (yields_bindings o bindings hpbs).letIn o (yields_resolve o body hpbody)
    refine parts.inScope.bind fun r => ?_
    exact (yields_finish o _).imp fun Γ n h hr => h hr
  | .fn span head as, hp => by
    unfold Node.resolve
    refine (yields_of_moves (moves_resolveCaptures? _)).bind fun captures? => ?_
    refine (yields_of_moves (around.wrapperOf ..)).bind fun r => ?_
    refine (yields_arities o (binds_bindFunction ..) r.2 as hp).bind fun as => ?_
    exact (yields_finish o _).imp fun Γ n h has _ _ => h ⟨r.1, rfl, has⟩
  | .guarded span captures? body cs final?, hp => by
    unfold presets at hp
    obtain ⟨hp, hpfinal⟩ := List.append_subset.1 hp
    obtain ⟨hpbody, hpcs⟩ := List.append_subset.1 hp
    unfold Node.resolve
    refine (yields_of_moves (moves_resolveCaptures? _)).bind fun captures? => ?_
    refine (yields_resolve o body hpbody).within.inScope.bind fun body => ?_
    refine (yields_clauses o cs hpcs).bind fun cs => ?_
    refine (yields_optional o final? hpfinal).within.inScope.bind fun final? => ?_
    exact (yields_finish o _).imp fun Γ n h hfinal hcs hbody _ => h ⟨hbody, hcs, hfinal⟩
  | .record span head ms, hp => by
    refine ⟨around.resolve _ _, fun {s t n} hs hc => ?_⟩
    obtain ⟨hphead, hpms⟩ := List.append_subset.1 hp
    unfold Node.resolve at hs
    obtain ⟨⟨d, heads⟩, u, h₁, hs⟩ := bind_eq_ok_iff.1 hs
    obtain ⟨R, _, hR, hs⟩ := bind_eq_ok_iff.1 hs
    cases hR
    -- what is bound for the methods depends on the class that the registry now has
    have rest := (((yields_methods o heads ms hpms).within.after
      (binds_bindFields (u.session.registry.class? d.id) head.fields)).after
      (binds_bindSelf head.selfName d)).inScope.bind fun ms =>
        (yields_finish o (.record span { head with descriptor? := some d } ms)).imp
          fun Γ n h (hms : _) (hd : run.Defines head d _) => h ⟨d, _, rfl, hd, hms⟩
    have m₁ := (around.recordOf ..).of_ok h₁
    have m₂ := rest.moves.of_ok hs
    have hn := rest.result hs (hc.right m₁.grows)
      (defines_recordOf h₁ (hc.left m₂.grows) hphead)
    rwa [m₁.types_eq] at hn
  | .object span head ms, hp => by
    unfold Node.resolve
    refine (yields_of_moves (around.objectOf ..)).bind fun r => ?_
    refine ((yields_methods o r.2 ms hp).within.after (binds_bindSelf ..)).inScope.bind
      fun ms => ?_
    refine (yields_of_moves (moves_resolveCaptures _)).bind fun captures => ?_
    exact (yields_finish o _).imp fun Γ n h _ hms _ => h ⟨r.1, rfl, hms⟩
  | .superCall span method selfName args, hp => by
    unfold Node.resolve
    refine (yields_each o args hp).bind fun args => ?_
    refine (yields_of_moves moves_registry).bind fun R => yields_scope.bind fun here => ?_
    refine (yields_ofExcept _).bind fun bound => ?_
    refine (yields_finish o _).imp fun Γ n h hbound hhere _ hargs => h ?_
    rw [← hhere] at hargs ⊢
    exact bindSuperCall_typed hbound hargs
  | .baseCall span base method target args, hp => by
    unfold presets at hp
    obtain ⟨hptarget, hpargs⟩ := List.append_subset.1 hp
    unfold Node.resolve
    refine (yields_resolve o target hptarget).bind fun target => ?_
    refine (yields_each o args hpargs).bind fun args => ?_
    exact (yields_finish o _).imp fun Γ n h hargs htarget => h ⟨htarget, hargs⟩
  | .interface span head, _ => by
    unfold Node.resolve
    refine (yields_of_moves (around.interfaceOf ..)).bind fun d => ?_
    exact (yields_finish o _).imp fun Γ n h _ => h trivial

theorem yields_each (o : Options) : ∀ ns : List Node, presetsOfList ns ⊆ run.preset →
    Yields run (ListTyped run (· = .parameter)) (resolveEach { options := o } ns)
  | [], _ => .pure fun _ => trivial
  | n :: ns, hp => by
    obtain ⟨hpn, hpns⟩ := List.append_subset.1 hp
    unfold resolveEach
    refine (yields_resolve o n hpn).bind fun n => ?_
    exact (yields_each o ns hpns).bind fun ns => .pure fun Γ hns hn => ⟨hn, hns⟩

theorem yields_optional (o : Options) : ∀ n? : Option Node, presetsOfOption n? ⊆ run.preset →
    Yields run (OptionTyped run (· = .parameter)) (resolveOptional { options := o } n?)
  | none, _ => .pure fun _ => trivial
  | some n, hp => by
    unfold resolveOptional
    exact (yields_resolve o n hp).bind fun n => .pure fun Γ hn => hn

theorem yields_bindings (o : Options) : ∀ bs : List LetBinding,
    presetsOfBindings bs ⊆ run.preset →
      YieldsBindings run (resolveBindings { options := o } bs)
  | [], _ => .nil
  | ⟨name, init, type?, span⟩ :: bs, hp => by
    obtain ⟨hpinit, hpbs⟩ := List.append_subset.1 hp
    unfold resolveBindings
    exact (yields_bindings o bs hpbs).cons name span (yields_resolve o init hpinit)

theorem yields_arities (o : Options) {f : TypeMap → TypeMap} {bindSelf : ResolveM Unit}
    (hb : Binds f bindSelf) : ∀ (heads : List ArityHead) (as : List Arity),
      presetsOfArities as ⊆ run.preset →
      Yields run (fun Γ => AritiesTyped run (· = .parameter) (f Γ))
        (resolveArities { options := o } bindSelf heads as)
  | head :: heads, ⟨_, body⟩ :: as, hp => by
    obtain ⟨hpbody, hpas⟩ := List.append_subset.1 hp
    unfold resolveArities
    refine (YieldsWithin.after hb (.after (binds_bindParams _)
      (yields_resolve o body hpbody).within)).inScope.bind fun body => ?_
    exact (yields_arities o hb heads as hpas).bind fun as => .pure fun Γ has hbody => ⟨hbody, has⟩
  | [], _, _ | _ :: _, [], _ => by
    unfold resolveArities
    exact .pure fun _ => trivial

theorem yields_clauses (o : Options) : ∀ cs : List CatchClause,
    presetsOfClauses cs ⊆ run.preset →
      Yields run (ClausesTyped run (· = .parameter)) (resolveClauses { options := o } cs)
  | [], _ => .pure fun _ => trivial
  | ⟨head, body⟩ :: cs, hp => by
    obtain ⟨hpbody, hpcs⟩ := List.append_subset.1 hp
    unfold resolveClauses
    refine (yields_of_moves
      (around.synthesize (Session.grows_respected.typeName ..))).bind fun type => ?_
    refine (YieldsWithin.after (binds_bindName ..)
      (yields_resolve o body hpbody).within).inScope.bind fun body => ?_
    refine (yields_clauses o cs hpcs).bind fun cs => .pure fun Γ hcs hbody _ => ?_
    exact ⟨⟨type, rfl, hbody⟩, hcs⟩

theorem yields_methods (o : Options) : ∀ (heads : List MethodHead) (ms : List Method),
    presetsOfMethods ms ⊆ run.preset →
      Yields run (MethodsTyped run (· = .parameter)) (resolveMethods { options := o } heads ms)
  | head :: heads, ⟨_, body⟩ :: ms, hp => by
    obtain ⟨hpbody, hpms⟩ := List.append_subset.1 hp
    unfold resolveMethods
    refine (yields_of_moves (moves_resolveCaptures _)).bind fun captures => ?_
    refine (YieldsWithin.after (binds_bindParams _)
      (yields_resolve o body hpbody).within).inScope.bind fun body => ?_
    refine (yields_methods o heads ms hpms).bind fun ms => .pure fun Γ hms hbody _ => ?_
    exact ⟨hbody, hms⟩
  | [], _, _ | _ :: _, [], _ => by
    unfold resolveMethods
    exact .pure fun _ => trivial

end

/-! ### A tree with shadowing, and one with a stray initializer -/

namespace Node

/-- Two bindings and a function named `f`, whose parameter has the name of the first. -/
def shadowing : Node :=
  .letIn .unknown false
    [⟨"x", .const .unknown (.int 1), none, .unknown⟩,
     ⟨"y", .localRef .unknown "x" .letBound none none, none, .unknown⟩]
    (.fn .unknown { name? := some "f", wrapper? := some ⟨"W", .ofName "W"⟩ }
      [⟨{ params := [{ name := "x", type? := some (.value .string) }] },
        .block .unknown
          [.localRef .unknown "x" .parameter none none,
           .localRef .unknown "y" .letBound none none,
           .localRef .unknown "f" .functionSelf none none]⟩])

/-- The same with types: the integer for `y`, the parameter's type for `x`, the wrapper for `f`. -/
def shadowingResolved : Node :=
  let long := some (.value Primitive.long.id)
  .letIn .unknown false
    [⟨"x", .const .unknown (.int 1), long, .unknown⟩,
     ⟨"y", .localRef .unknown "x" .letBound long none, long, .unknown⟩]
    (.fn .unknown { name? := some "f", wrapper? := some ⟨"W", .ofName "W"⟩ }
      [⟨{ params := [{ name := "x", type? := some (.value .string) }] },
        .block .unknown
          [.localRef .unknown "x" .parameter (some (.value .string)) none,
           .localRef .unknown "y" .letBound long none,
           .localRef .unknown "f" .functionSelf (some (.value (.ofName "W"))) none]⟩])

/-- A bound local that carries an initializer, as only parameters are meant to. -/
def strayInitializer : Node :=
  .letIn .unknown false [⟨"x", .const .unknown (.int 1), none, .unknown⟩]
    (.localRef .unknown "x" .letBound none
      (some (.localRef .unknown "x" .letBound none none)))

/-- The local is typed and its initializer is not. -/
def strayInitializerResolved : Node :=
  let long := some (.value Primitive.long.id)
  .letIn .unknown false [⟨"x", .const .unknown (.int 1), long, .unknown⟩]
    (.localRef .unknown "x" .letBound long
      (some (.localRef .unknown "x" .letBound none none)))

end Node

/-- Resolution under the default lowerings, with the types of bindings left as they are, gives every
local in the result the type of its name, and every binding the type of its initializer. -/
theorem lexicallyTyped_resolve (o : Options) (n n' : Node) (s t : ResolveState)
    (h : n.resolve { options := o } s = .ok n' t) :
    n'.LexicallyTyped ⟨s.session.registry, t.session.registry, n.presets⟩ (· = .parameter)
      s.scope.types :=
  (yields_resolve o n (List.Subset.refl _)).result h ⟨.refl, .refl⟩

theorem lexicallyTyped_shadowing :
    shadowing.resolve { options := {} } { session := { registry := .host } } =
        .ok shadowingResolved { session := { registry := .host } } ∧
      shadowingResolved.LexicallyTyped ⟨.host, .host, shadowing.presets⟩ (· = .parameter)
        Scope.empty.types :=
  ⟨rfl, lexicallyTyped_resolve {} shadowing shadowingResolved { session := { registry := .host } }
    { session := { registry := .host } } rfl⟩

/-- Where a local that is no parameter carries an initializer, what is in it stays untyped. -/
theorem not_lexicallyTyped_initializers :
    ¬ ∀ (o : Options) (n n' : Node) (s t : ResolveState),
      n.resolve { options := o } s = .ok n' t →
        n'.LexicallyTyped ⟨s.session.registry, t.session.registry, n.presets⟩ (fun _ => True)
          s.scope.types := by
  intro h
  have hr : strayInitializer.resolve { options := {} } { session := { registry := .host } } =
    .ok strayInitializerResolved { session := { registry := .host } } := rfl
  obtain ⟨-, -, hinit⟩ := h _ _ _ _ _ hr
  obtain ⟨⟨t, -, ht⟩, -⟩ := hinit trivial
  cases ht

end TypeSynthesis
