import TypeSynthesis.Proofs.LexicalTyping.Binders
import TypeSynthesis.Proofs.Resolve.Heads

/-!
# What the steps of resolution yield

The typing of a resolved form is put together from what the steps of its resolution yield in the
scope that it is resolved in.

* `Run.Covers`: a part of a compilation;
* `Yields run P x`: every success of `x` within the run keeps the scope and has a result with `P`,
  and `Yields.bind` passes what one step yields on to the next;
* `YieldsWithin run P x`: the same in a scope of its own, with `YieldsWithin.after` for the names
  that are bound first;
* `YieldsBindings run x`: the same for the bindings of a `let`, which stay in view;
* `yields_finish`, `yields_requireBinding`, `yields_parameterType`: the steps that are no forms,
  under the default lowerings.
-/

namespace TypeSynthesis

open ResolveM Node

/-! ### Parts of a run -/

/-- The registries of the two sessions lie between those that the run starts and ends with. -/
structure Run.Covers (run : Run) (s t : Session) : Prop where
  first : run.first.Grows s.registry
  last : t.registry.Grows run.last

theorem Run.Covers.left {run : Run} {s t u : Session} (h : run.Covers s u) (htu : t.Grows u) :
    run.Covers s t :=
  ⟨h.first, Registry.Grows.trans htu h.last⟩

theorem Run.Covers.right {run : Run} {s t u : Session} (h : run.Covers s u) (hst : s.Grows t) :
    run.Covers t u :=
  ⟨Registry.Grows.trans h.first hst, h.last⟩

/-! ### Results -/

/-- Every success within the run keeps the scope, and its result satisfies `P` in it. -/
structure Yields {α : Type} (run : Run) (P : TypeMap → α → Prop) (x : ResolveM α) : Prop where
  moves : Moves ResolveState.Around x
  result {s t : ResolveState} {a : α} (h : x s = .ok a t) (hc : run.Covers s.session t.session) :
    P s.scope.types a

/-- The same in a scope that is closed afterwards. -/
structure YieldsWithin {α : Type} (run : Run) (P : TypeMap → α → Prop) (x : ResolveM α) :
    Prop where
  moves : Moves ResolveState.Within x
  result {s t : ResolveState} {a : α} (h : x s = .ok a t) (hc : run.Covers s.session t.session) :
    P s.scope.types a

namespace Yields

variable {α β : Type} {run : Run} {P : TypeMap → α → Prop} {Q : TypeMap → β → Prop}

theorem imp {P' : TypeMap → α → Prop} {x : ResolveM α} (hx : Yields run P x)
    (h : ∀ Γ a, P Γ a → P' Γ a) : Yields run P' x :=
  ⟨hx.moves, fun hs hc => h _ _ (hx.result hs hc)⟩

theorem pure {a : α} (h : ∀ Γ, P Γ a) : Yields run P (Pure.pure a) where
  moves := .pure a
  result hs _ := by
    obtain ⟨rfl, -⟩ := pure_eq_ok_iff.1 hs
    exact h _

/-- What the first step yields is known to the second. -/
theorem bind {x : ResolveM α} {f : α → ResolveM β} (hx : Yields run P x)
    (hf : ∀ a, Yields run (fun Γ b => P Γ a → Q Γ b) (f a)) : Yields run Q (x >>= f) where
  moves := hx.moves.bind fun a => (hf a).moves
  result hs hc := by
    obtain ⟨a, u, h₁, h₂⟩ := bind_eq_ok_iff.1 hs
    have m₁ := hx.moves.of_ok h₁
    have m₂ := (hf a).moves.of_ok h₂
    -- the second step starts in the scope that the first has kept
    have hb := (hf a).result h₂ (hc.right m₁.grows)
    rw [m₁.types_eq] at hb
    exact hb (hx.result h₁ (hc.left m₂.grows))

theorem within {x : ResolveM α} (hx : Yields run P x) : YieldsWithin run P x :=
  ⟨around.toInner hx.moves, hx.result⟩

end Yields

namespace YieldsWithin

variable {α : Type} {run : Run} {P : TypeMap → α → Prop}

/-- After a step that binds names, more is in view. -/
theorem after {f : TypeMap → TypeMap} {b : ResolveM Unit} (hb : Binds f b) {x : ResolveM α}
    (hx : YieldsWithin run P x) : YieldsWithin run (fun Γ => P (f Γ)) (b >>= fun _ => x) where
  moves := hb.moves.bind fun _ => hx.moves
  result hs hc := by
    obtain ⟨⟨⟩, u, h₁, h₂⟩ := bind_eq_ok_iff.1 hs
    obtain ⟨hsession, htypes⟩ := hb.of_ok h₁
    rw [← hsession] at hc
    rw [← htypes]
    exact hx.result h₂ hc

theorem inScope {x : ResolveM α} (hx : YieldsWithin run P x) :
    Yields run P (ResolveM.inScope x) where
  moves := around.inScope hx.moves
  result {s t a} hs hc := by
    unfold ResolveM.inScope at hs
    split at hs
    · rename_i u hu
      have h := hx.result hu
      cases hs
      exact h hc
    · cases hs

end YieldsWithin

variable {run : Run} {opens : Role → Prop}

/-! ### Steps that are no forms -/

/-- A step that says nothing about its result. -/
theorem yields_of_moves {α : Type} {x : ResolveM α} (h : Moves ResolveState.Around x) :
    Yields run (fun _ _ => True) x :=
  ⟨h, fun _ _ => trivial⟩

theorem hostCalls_typed {R : Registry} {n n' : Node} {Γ : TypeMap}
    (h : Lowering.hostCalls.run R n = .ok n') (hn : n.LexicallyTyped run opens Γ) :
    n'.LexicallyTyped run opens Γ := by
  unfold Lowering.hostCalls at h
  dsimp only at h
  split at h <;> cases h <;> exact hn

/-- The default lowerings only say which members are called. -/
theorem yields_finish (o : Options) (n : Node) :
    Yields run (fun Γ n' => n.LexicallyTyped run opens Γ → n'.LexicallyTyped run opens Γ)
      (finish { options := o } n) where
  moves := moves_finish ..
  result hs _ := by
    intro hn
    obtain ⟨R, _, -, h⟩ := bind_eq_ok_iff.1 hs
    obtain ⟨h, -⟩ := ofExcept_eq_ok_iff.1 h
    obtain ⟨n₁, h₁, h⟩ := except_bind_eq_ok_iff.1 h
    obtain ⟨n₂, h₂, h₃⟩ := except_bind_eq_ok_iff.1 h
    cases h₂
    cases h₃
    exact hostCalls_typed h₁ hn

theorem yields_scope : Yields run (fun Γ here => here.types = Γ) scope where
  moves := moves_scope
  result h _ := by cases h; rfl

theorem yields_ofExcept {α : Type} (x : Except CompilationError α) :
    Yields run (fun _ a => x = .ok a) (ofExcept x) where
  moves := .ofExcept x
  result h _ := (ofExcept_eq_ok_iff.1 h).1

theorem types_of_get? {here : Scope} {name : String} {b : Binding} (h : here.get? name = some b) :
    here.types name = some b.type := by
  unfold Scope.types Scope.typeOf?
  rw [h]
  rfl

theorem yields_requireBinding (name : String) (span : Span) :
    Yields run (fun Γ b => Γ name = some b.type) (requireBinding name span) := by
  refine yields_scope.bind fun here => (yields_ofExcept _).imp fun Γ b h hhere => ?_
  rw [← hhere]
  exact types_of_get? (Scope.require_eq_ok_iff.1 h)

theorem yields_parameterType (name : String) (type? : Option TypeRef) (init? : Option Node) :
    Yields run (fun Γ type? => LocalTyped Γ name .parameter type? init?)
      (parameterType name type? init?) := by
  cases init? with
  | some init => exact .pure fun Γ h => absurd h Bool.false_ne_true
  | none =>
    refine yields_scope.bind fun here => .pure fun Γ hhere _ t ht => ?_
    rw [← hhere] at ht
    show (here.typeOf? name <|> type?) = some t
    rw [show here.typeOf? name = some t from ht]
    rfl

/-- The receiver of a bound super call is the object that the name in view refers to. -/
theorem bindSuperCall_typed {R : Registry} {here : Scope} {span : Span} {method selfName : String}
    {args : List Node} {n : Node} (h : bindSuperCall R here span method selfName args = .ok n)
    (hargs : ListTyped run opens here.types args) : n.LexicallyTyped run opens here.types := by
  obtain ⟨self, base, m, hself, -, -, rfl⟩ := bindSuperCall_eq_ok_iff.1 h
  have receiver : LocalTyped here.types selfName .objectSelf (some self.type) none :=
    ⟨self.type, types_of_get? hself, rfl⟩
  exact ⟨⟨receiver, fun _ => trivial⟩, hargs⟩

/-- With the types of bindings left as they are, they are in view as they are. -/
theorem refineBindings_eq_ok {o : Options} {bs bs' : List LetBinding} {s t : ResolveState}
    (h : refineBindings { options := o } bs s = .ok bs' t) :
    bs' = bs ∧ t.session = s.session ∧ t.scope.types = s.scope.types.bindLets bs := by
  obtain ⟨R, _, hR, h⟩ := bind_eq_ok_iff.1 h
  cases hR
  obtain ⟨⟨⟩, u, hu, h⟩ := bind_eq_ok_iff.1 h
  obtain ⟨rfl, rfl⟩ := pure_eq_ok_iff.1 h
  exact ⟨rfl, (binds_rebind bs).of_ok hu⟩

/-- A record's class is the one that its descriptor stands for. -/
theorem defines_recordOf {o : Options} {head : RecordHead} {ms heads : List MethodHead}
    {d : Descriptor} {s t : ResolveState}
    (h : recordOf { options := o } head ms s = .ok (d, heads) t)
    (hc : run.Covers s.session t.session) (hpreset : head.descriptor?.toList ⊆ run.preset) :
    run.Defines head d (t.session.registry.class? d.id) := by
  have grows := ((around.recordOf { options := o } head ms).of_ok h).grows
  refine ⟨_, (hc.right grows).first, hc.last, rfl, ?_⟩
  unfold recordOf at h
  cases hd : head.descriptor? with
  | some d' =>
    rw [hd] at h hpreset
    obtain ⟨h, -⟩ := pure_eq_ok_iff.1 h
    cases h
    exact .inl (hpreset List.mem_cons_self)
  | none =>
    rw [hd] at h
    obtain ⟨h, -⟩ := synthesize_eq_ok h
    exact .inr (SynthM.isRecord_synthesizeRecord h)

/-! ### Bindings of a `let` -/

/-- Every success within the run binds what it results in: each binding has the type of its
initializer, which is resolved in view of those before it. -/
structure YieldsBindings (run : Run) (x : ResolveM (List LetBinding)) : Prop where
  moves : Moves ResolveState.Within x
  result {s t : ResolveState} {bs : List LetBinding} (h : x s = .ok bs t)
    (hc : run.Covers s.session t.session) :
    BindingsTyped run (· = .parameter) s.scope.types bs ∧
      t.scope.types = s.scope.types.bindLets bs

namespace YieldsBindings

theorem nil : YieldsBindings run (Pure.pure []) where
  moves := .pure []
  result h _ := by
    obtain ⟨rfl, rfl⟩ := pure_eq_ok_iff.1 h
    exact ⟨trivial, rfl⟩

theorem cons (name : String) (span : Span) {x : ResolveM Node} {y : ResolveM (List LetBinding)}
    (hy : YieldsBindings run y) (hx : Yields run (LexicallyTyped run (· = .parameter)) x) :
    YieldsBindings run (do
      let init ← x
      bindName name init.argumentType .letBound span
      let bs ← y
      return ⟨name, init, some init.argumentType, span⟩ :: bs) where
  moves := (around.toInner hx.moves).bind fun _ => (around.bindName ..).bind fun _ =>
    hy.moves.bind fun _ => .pure _
  result {s t r} h hc := by
    obtain ⟨init, u, h₁, h⟩ := bind_eq_ok_iff.1 h
    obtain ⟨⟨⟩, v, h₂, h⟩ := bind_eq_ok_iff.1 h
    obtain ⟨bs, w, h₃, h⟩ := bind_eq_ok_iff.1 h
    obtain ⟨rfl, rfl⟩ := pure_eq_ok_iff.1 h
    obtain ⟨hsession, htypes⟩ := (binds_bindName ..).of_ok h₂
    have m₁ := hx.moves.of_ok h₁
    have grows : u.session.Grows w.session := hsession ▸ (hy.moves.of_ok h₃).grows
    have hinit := hx.result h₁ (hc.left grows)
    obtain ⟨hbs, hview⟩ := hy.result h₃ (hsession ▸ hc.right m₁.grows)
    rw [htypes, m₁.types_eq] at hbs hview
    exact ⟨⟨hinit, rfl, hbs⟩, hview⟩

/-- With the types of bindings left as they are, the body sees them as they are. -/
theorem letIn (o : Options) {x : ResolveM (List LetBinding)} {y : ResolveM Node}
    (hx : YieldsBindings run x) (hy : Yields run (LexicallyTyped run (· = .parameter)) y) :
    YieldsWithin run
      (fun Γ r => BindingsTyped run (· = .parameter) Γ r.1 ∧
        LexicallyTyped run (· = .parameter) (Γ.bindLets r.1) r.2)
      (do
        let bs ← x
        let bs ← refineBindings { options := o } bs
        let body ← y
        return (bs, body)) where
  moves := hx.moves.bind fun _ => (around.refineBindings ..).bind fun _ =>
    (around.toInner hy.moves).bind fun _ => .pure _
  result {s t r} h hc := by
    obtain ⟨bs, u, h₁, h⟩ := bind_eq_ok_iff.1 h
    obtain ⟨bs', v, h₂, h⟩ := bind_eq_ok_iff.1 h
    obtain ⟨body, w, h₃, h⟩ := bind_eq_ok_iff.1 h
    obtain ⟨rfl, rfl⟩ := pure_eq_ok_iff.1 h
    obtain ⟨rfl, hsession, htypes⟩ := refineBindings_eq_ok h₂
    have m₁ := hx.moves.of_ok h₁
    have grows : u.session.Grows w.session := hsession ▸ (hy.moves.of_ok h₃).grows
    obtain ⟨hbs, hview⟩ := hx.result h₁ (hc.left grows)
    have hbody := hy.result h₃ (hsession ▸ hc.right m₁.grows)
    -- the bindings are in view already, and refining binds them once more
    rw [htypes, hview, TypeMap.bindLets_bindLets] at hbody
    exact ⟨hbs, hbody⟩

end YieldsBindings

end TypeSynthesis
