import TypeSynthesis.Proofs.Registry.Index
import TypeSynthesis.Proofs.Resolve.Scope

/-!
# Growth of the registry

Synthesis and resolution only ever add types to the registry, each under a name that is free.

* `Session.Grows`, `Session.grows_respected`: each step of synthesis lets the registry grow;
* `growth`: so does each step of resolution;
* `around`: the resolution of a form keeps the scope and lets the registry grow, and so does each
  of its steps.
-/

namespace TypeSynthesis

/-- The registry of the second session extends that of the first. -/
def Session.Grows (s t : Session) : Prop := s.registry.Grows t.registry

instance : IsPreorder Session Session.Grows where
  refl _ := .refl
  trans _ _ _ h h' := Registry.Grows.trans h h'

theorem Session.grows_respected : Session.Respected Session.Grows where
  pointer s p := s.registry.grows_provide (.pointerType p)
  invoker h := Registry.grows_of_invoker h
  instantiate _ h := Registry.grows_of_instantiate h
  draw _ := .refl
  define _ h := Registry.grows_register h

/-- The registry of the second state extends that of the first. -/
abbrev ResolveState.Grows : ResolveState → ResolveState → Prop := ResolveState.Along Session.Grows

/-- Resolution lets the registry grow. -/
theorem growth : Discipline Session.Grows ResolveState.Grows ResolveState.Grows :=
  Session.grows_respected.discipline

/-- What resolving a form does to the state: the scope is kept and the registry grows. -/
structure ResolveState.Around (s t : ResolveState) : Prop where
  scope : SameScope s t
  grows : s.session.Grows t.session

/-- What happens within a scope: the surroundings are kept and the registry grows. -/
structure ResolveState.Within (s t : ResolveState) : Prop where
  surroundings : SameSurroundings s t
  grows : s.session.Grows t.session

instance : IsPreorder ResolveState ResolveState.Around where
  refl s := ⟨refl_of SameScope s, refl_of Session.Grows s.session⟩
  trans _ _ _ h h' := ⟨trans_of SameScope h.1 h'.1, trans_of Session.Grows h.2 h'.2⟩

instance : IsPreorder ResolveState ResolveState.Within where
  refl s := ⟨refl_of SameSurroundings s, refl_of Session.Grows s.session⟩
  trans _ _ _ h h' := ⟨trans_of SameSurroundings h.1 h'.1, trans_of Session.Grows h.2 h'.2⟩

/-- Resolution keeps the scope and lets the registry grow. -/
theorem around : Discipline Session.Grows ResolveState.Within ResolveState.Around where
  grow_kept := Session.grows_respected.kept
  inner_of_outer h := ⟨scopeDiscipline.inner_of_outer h.scope, h.grows⟩
  outer_of_grow h := ⟨rfl, h⟩
  inner_bind s name b := ⟨scopeDiscipline.inner_bind s name b, .refl⟩
  outer_close h := ⟨scopeDiscipline.outer_close h.surroundings, h.grows⟩

end TypeSynthesis
