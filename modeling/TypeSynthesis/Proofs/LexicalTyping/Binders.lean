import TypeSynthesis.Proofs.LexicalTyping.Basic

/-!
# The types in view during resolution

Each step of resolution that binds names does to the types in view what the binder of that kind
does to the types that a reader keeps.

* `Binds f x`: the step `x` only binds names, and changes the types in view by `f`;
* `binds_bindParams`, `binds_bindFunction`, `binds_bindFields`: the binders of parameters, of
  functions and of record fields;
* `binds_rebind`: rebinding the bindings of a `let` binds them as they are;
* `bindLets_bindLets`: the bindings of a `let` that are in view already can be bound again.
-/

namespace TypeSynthesis

open ResolveM

namespace TypeMap

/-! ### Bindings of a `let` -/

/-- The bindings of a `let` replace the types of their names and keep all others. -/
theorem bindLets_eq_or (bs : List LetBinding) :
    ∃ Δ : TypeMap, ∀ Γ : TypeMap, Γ.bindLets bs = fun name => (Δ name).or (Γ name) := by
  induction bs with
  | nil => exact ⟨fun _ => none, fun Γ => rfl⟩
  | cons b bs ih =>
    obtain ⟨Δ, hΔ⟩ := ih
    rcases b with ⟨name, init, _ | t, span⟩
    · exact ⟨Δ, hΔ⟩
    · refine ⟨fun x => (Δ x).or (if x = name then some t else none), fun Γ => ?_⟩
      show (Γ.bind name t).bindLets bs = _
      rw [hΔ]
      funext x
      rw [Option.or_assoc]
      by_cases hx : x = name
      · rw [if_pos hx, hx, TypeMap.bind, Function.update_self]
        rfl
      · rw [if_neg hx, TypeMap.bind, Function.update_of_ne hx]
        rfl

theorem bindLets_bindLets (Γ : TypeMap) (bs : List LetBinding) :
    (Γ.bindLets bs).bindLets bs = Γ.bindLets bs := by
  obtain ⟨Δ, hΔ⟩ := bindLets_eq_or bs
  rw [hΔ, hΔ]
  funext name
  rw [← Option.or_assoc, Option.or_self]

theorem bind_eq_self {Γ : TypeMap} {name : String} {t : TypeRef} (h : Γ name = some t) :
    Γ.bind name t = Γ := by
  unfold TypeMap.bind
  rw [← h]
  exact Function.update_eq_self name Γ

end TypeMap

/-! ### Scopes -/

theorem Scope.types_bind (s : Scope) (name : String) (b : Binding) :
    (s.bind name b).types = s.types.bind name b.type := by
  funext x
  show ((s.bind name b).get? x).map Binding.type = Function.update s.types name (some b.type) x
  rw [Scope.get?_bind]
  by_cases hx : x = name
  · rw [if_pos hx, hx, Function.update_self]
    rfl
  · rw [if_neg hx, Function.update_of_ne hx]
    rfl

theorem ResolveState.Around.types_eq {s t : ResolveState} (h : Around s t) :
    t.scope.types = s.scope.types :=
  congrArg Scope.types (Eq.symm h.scope)

/-- The step succeeds, binds names in the innermost scope, and changes the types in view. -/
structure Binds (f : TypeMap → TypeMap) (x : ResolveM Unit) : Prop where
  run (s : ResolveState) : ∃ scope : Scope, x s = .ok () { s with scope } ∧
    scope.pop = s.scope.pop ∧ scope.types = f s.scope.types

namespace Binds

theorem moves {f : TypeMap → TypeMap} {x : ResolveM Unit} (h : Binds f x) :
    Moves ResolveState.Within x where
  run s := by
    obtain ⟨scope, hx, hpop, -⟩ := h.run s
    rw [hx]
    exact ⟨hpop.symm, .refl⟩

theorem of_ok {f : TypeMap → TypeMap} {x : ResolveM Unit} (h : Binds f x) {s t : ResolveState}
    (hx : x s = .ok () t) : t.session = s.session ∧ t.scope.types = f s.scope.types := by
  obtain ⟨scope, hs, -, hf⟩ := h.run s
  rw [hs] at hx
  cases hx
  exact ⟨rfl, hf⟩

theorem pure : Binds id (Pure.pure ()) where
  run s := ⟨s.scope, rfl, rfl, rfl⟩

theorem bind {f g : TypeMap → TypeMap} {x y : ResolveM Unit} (hx : Binds f x) (hy : Binds g y) :
    Binds (g ∘ f) (x >>= fun _ => y) where
  run s := by
    obtain ⟨here, h₁, hpop₁, hf⟩ := hx.run s
    obtain ⟨scope, h₂, hpop₂, hg⟩ := hy.run { s with scope := here }
    refine ⟨scope, bind_eq_ok_iff.2 ⟨(), _, h₁, h₂⟩, hpop₂.trans hpop₁, ?_⟩
    rw [hg, Function.comp_apply, ← hf]

end Binds

/-! ### Steps that bind names -/

theorem binds_bindName (name : String) (type : TypeRef) (role : Role) (span : Span) :
    Binds (·.bind name type) (bindName name type role span) where
  run _ := ⟨_, rfl, Scope.pop_bind .., Scope.types_bind ..⟩

theorem binds_bindParams (ps : List Param) : Binds (·.bindParams ps) (bindParams ps) := by
  induction ps with
  | nil => exact .pure
  | cons q ps ih => exact (binds_bindName ..).bind ih

theorem binds_bindFunction (name? : Option String) (wrapper : Descriptor) (span : Span) :
    Binds (·.bindFunction name? wrapper) (bindFunction name? wrapper span) := by
  cases name? with
  | none => exact .pure
  | some name => exact binds_bindName ..

theorem binds_bindSelf (name : String) (d : Descriptor) :
    Binds (·.bind name d.type) (bindSelf name d) :=
  binds_bindName ..

theorem binds_bindField (c? : Option ClassType) (f : FieldDecl) :
    Binds (·.bindField c? f) (bindField c? f) := by
  unfold bindField TypeMap.bindField
  cases c?.bind (·.findField? f.name) with
  | some field => exact binds_bindName ..
  | none => exact .pure

theorem binds_bindFields (c? : Option ClassType) (fs : List FieldDecl) :
    Binds (·.bindFields c? fs) (bindFields c? fs) := by
  induction fs with
  | nil => exact .pure
  | cons f fs ih => exact (binds_bindField c? f).bind ih

/-- A name whose type is in view already is not bound again, which makes no difference. -/
theorem binds_rebindName (name : String) (init : Node) (t : TypeRef) (span : Span) :
    Binds (·.bind name t) (rebindName ⟨name, init, some t, span⟩) where
  run s := by
    by_cases ht : s.scope.typeOf? name = some t
    · refine ⟨s.scope, bind_eq_ok_iff.2 ⟨s.scope, s, rfl, ?_⟩, rfl, ?_⟩
      · rw [if_pos ht]
        rfl
      · exact (TypeMap.bind_eq_self ht).symm
    · obtain ⟨scope, h, hpop, hf⟩ := (binds_bindName name t .letBound span).run s
      refine ⟨scope, bind_eq_ok_iff.2 ⟨s.scope, s, rfl, ?_⟩, hpop, hf⟩
      rw [if_neg ht]
      exact h

theorem binds_rebind (bs : List LetBinding) : Binds (·.bindLets bs) (rebind bs) := by
  induction bs with
  | nil => exact .pure
  | cons b bs ih =>
    rcases b with ⟨name, init, _ | t, span⟩
    · exact Binds.pure.bind ih
    · exact (binds_rebindName ..).bind ih

end TypeSynthesis
