import TypeSynthesis.Proofs.Completeness.Resolve
import TypeSynthesis.Proofs.Definitions.Failure
import TypeSynthesis.Proofs.Mentions.Synthesis

/-!
# Types that are mentioned are registered

Whatever forms are resolved from the types of the host, and whether they succeed or fail, the types
that a definition refers to are registered, and so are those in its signatures, unless an invoker
definition has lent them.

* `grounded_resolveForms`: resolution keeps a registry grounded;
* `mentions_resolveForms`: what that says of each type;
* `not_mentions_resolveForms`: an invoker definition can be implemented as it is, and its type
  parameters, which are not registered, then stand in the signature of a synthesized class.
-/

namespace TypeSynthesis

open Node Registry

/-- Forms that are resolved in order keep a registry grounded, also where they fail. -/
theorem grounded_resolveForms {first : Registry} (p : Pipeline) {s : Session} (forms : List Node)
    (h : first.Grounded s.registry) : first.Grounded (p.resolveForms s forms).2.registry := by
  induction forms generalizing s with
  | nil => exact h
  | cons form forms ih =>
    refine ih (s := (p.resolveForm s form).2) ?_
    rw [session_resolveForm]
    exact (kept_grounded.discipline.resolve p form).run { session := s } h

/-- From the types of the host, forms lead to a registry in which every definition refers to
registered types only: its supertypes, the types of its fields and the owners of its methods.  The
types in its signatures are registered too, unless an invoker definition, at or above the type, has
lent its type parameters. -/
theorem mentions_resolveForms (p : Pipeline) (forms : List Node) {R : Registry}
    (hR : (p.resolveForms { registry := .host } forms).2.registry = R) {t : TypeId} {e : Entry}
    (he : R.get? t = some e) :
    (∀ u ∈ e.references, R.contains u = true) ∧
      ∀ u ∈ e.signatureTypes, R.contains u = true ∨ Borrows .host R e u := by
  have grounded : Registry.host.Grounded R := hR ▸ grounded_resolveForms p forms grounded_host
  exact ⟨grounded.references he, grounded.signatures he⟩

/-! ### An invoker definition that is implemented as it is -/

namespace Node

/-- A function of one parameter, whose wrapper asks for the invoker definition. -/
def constantFunction : Node :=
  .fn .unknown {} [⟨{ params := [{ name := "x" }] }, .const .unknown .nil⟩]

/-- An anonymous object that implements the invoker definition itself. -/
def genericCallable : Node :=
  .object .unknown
    { kind := .anonymous, supers := [⟨"sable.lang.Invoker`1", .unknown⟩], selfName := "this",
      captures := .empty }
    [⟨{ name := "invoke", self? := some { name := "this" }, params := [{ name := "x" }],
        captures := .empty }, .const .unknown .nil⟩]

end Node

/-- Whether the signatures of a synthesized type of the registry mention one that is not. -/
def Registry.danglesAt (R : Registry) (e : Entry) : Bool :=
  decide (R.get? e.id = some e) && e.isSynthesized && e.signatureTypes.any (!R.contains ·)

/-- The function and the object, in this order. -/
def callableForms : List Node := [constantFunction, genericCallable]

/-- The registry that they leave. -/
def callables : Registry :=
  (({} : Pipeline).resolveForms { registry := .host } callableForms).2.registry

theorem dangles_callables : ∃ e, callables.get? e.id = some e ∧ e.origin = .synthesized ∧
    ∃ u ∈ e.signatureTypes, callables.contains u = false := by
  have found : callables.entries.any callables.danglesAt = true := by decide +kernel
  obtain ⟨e, -, dangles⟩ := List.any_eq_true.1 found
  simp only [danglesAt, Bool.and_eq_true, decide_eq_true_eq, List.any_eq_true] at dangles
  obtain ⟨⟨he, origin⟩, u, hu, missing⟩ := dangles
  exact ⟨e, he, beq_iff_eq.1 origin, u, hu, by simpa using missing⟩

theorem mentions_callables : ∃ e, callables.get? e.id = some e ∧
    (∃ u ∈ e.signatureTypes, callables.contains u = false) ∧
    (∀ u ∈ e.references, callables.contains u = true) ∧
      ∀ u ∈ e.signatureTypes, callables.contains u = true ∨ Borrows .host callables e u := by
  obtain ⟨e, he, -, dangling⟩ := dangles_callables
  exact ⟨e, he, dangling,
    mentions_resolveForms {} callableForms (R := callables) rfl he⟩

/-- A synthesized type may mention a type that is not registered. -/
theorem not_mentions_resolveForms :
    ¬ ∀ (p : Pipeline) (forms : List Node) (R : Registry),
      (∀ n ∈ forms, Open (n.definitions fun _ => true)) →
      (p.resolveForms { registry := .host } forms).2.registry = R →
      ∀ t e, R.get? t = some e → e.origin = .synthesized →
        ∀ u ∈ e.mentions, R.contains u = true := by
  intro h
  obtain ⟨e, he, origin, u, hu, missing⟩ := dangles_callables
  have known := h {} callableForms callables (by decide) rfl e.id e he origin u
    (List.mem_append_right _ hu)
  rw [missing] at known
  cases known

end TypeSynthesis
