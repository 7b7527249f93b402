import TypeSynthesis.Proofs.Definitions.Completion

/-!
# What a failing synthesis leaves behind

A synthesis prepares the draft of a type aside from the registry and registers it in its last step.
So wherever it fails, nothing of the new type is to be seen.  What stays are the types that were
registered on the way because the draft mentions them.

* `Registry.Conceals R S`: besides the types of `R` there are auxiliary types only in `S`;
* `Construct.conceals_of_error`: so it is with every synthesis that fails.
-/

namespace TypeSynthesis

open SynthM Registry

/-- Besides the types of the first registry, which are all in their places, the second one has
pointer types, invoker definitions and instances of these, and no synthesized type. -/
structure Registry.Conceals (R S : Registry) : Prop where
  kept {t : TypeId} {e : Entry} (h : R.get? t = some e) : S.get? t = some e
  named {name : String} {e : Entry} (h : R.find? name = some e) : S.find? name = some e
  added {t : TypeId} {e : Entry} (h : S.get? t = some e) :
    R.get? t = some e ∨ R.get? t = none ∧ e.Auxiliary
  synthesized : S.synthesized = R.synthesized

/-- Strict additions of auxiliary types expose nothing. -/
theorem Registry.conceals_of_adds {R S : Registry} {es : List Entry} (adds : R.Adds es S)
    (aux : ∀ e ∈ es, e.Auxiliary) : R.Conceals S where
  kept := adds.get?
  named h := by
    obtain ⟨t, listed, found⟩ := find?_eq_some_iff.1 h
    exact find?_eq_some_iff.2 ⟨t, names_get?_of_grows adds.grows listed, adds.get? found⟩
  added h := by
    rcases adds.get?_eq_some_iff.1 h with old | ⟨new, rfl⟩
    · exact .inl old
    · exact .inr ⟨contains_eq_false_iff.1 (adds.nodup.2 _ new), aux _ new⟩
  synthesized := by
    refine Set.ext fun e => ⟨?_, fun ⟨t, ht, origin⟩ => ⟨t, adds.get? ht, origin⟩⟩
    rintro ⟨t, ht, origin⟩
    rcases adds.get?_eq_some_iff.1 ht with old | ⟨new, -⟩
    · exact ⟨t, old, origin⟩
    · rw [(aux e new).origin] at origin
      cases origin

/-- A synthesis that fails, at whichever step, exposes nothing of its type: the types that were
registered are as they were, and those that have come are pointer types and invokers.  Generic
definitions under invokers' names are assumed to be invokers' definitions, and names to have
different identities.  Every registry that was built is sound. -/
theorem Construct.conceals_of_error {o : Options} {c : Construct} {s t : Session}
    {e : CompilationError} (sound : s.registry.Sound) (genuine : s.registry.Genuine)
    (distinct : t.registry.Distinct) (h : c.synthesize o s = .error e t) :
    s.registry.Conceals t.registry := by
  have prepares : s.Prepares t := Session.prepares_prepared.of_error h
  obtain ⟨es, adds, aux⟩ := prepares.adds sound genuine distinct
  exact conceals_of_adds adds aux

/-! ### A record and a function that fail late -/

/-- A record with a field over a pointer type, and a volatile one over a type that is not read
atomically. -/
def tornCell : Construct :=
  .record
    { name := "Cell", selfName := "self"
      fields := [{ name := "at", hint? := some ⟨"int*", .unknown⟩ },
        { name := "value", hint? := some ⟨"long", .unknown⟩, mutability := .volatile }] } []

/-- A function with an arity over a pointer type, and one with more parameters than any invoker
has. -/
def overwide : Construct :=
  .fn none [{ params := [{ name := "x", hint? := some ⟨"int*", .unknown⟩ }] },
    { params := List.replicate 21 { name := "x" } }]

theorem genuine_host : host.Genuine := by
  intro n i hi
  rw [find?_invokerName_host] at hi
  cases hi

/-- The synthesis of the construct over the host fails after it has registered types on the way, and
exposes nothing. -/
def Construct.FailsLate (c : Construct) : Prop :=
  ∃ e t, c.synthesize {} { registry := .host } = .error e t ∧
    host.size < t.registry.size ∧ host.Conceals t.registry

theorem failsLate_tornCell_overwide : tornCell.FailsLate ∧ overwide.FailsLate := by
  have fails : ∀ c ∈ [tornCell, overwide], rejected
      (fun t => decide (t.registry.names.values.Nodup ∧ host.size < t.registry.size))
      (c.synthesize {} { registry := .host }) = true := by
    decide +kernel
  have late : ∀ c ∈ [tornCell, overwide], c.FailsLate := by
    intro c hc
    obtain ⟨e, t, failed, conditions⟩ := exists_of_rejected (fails c hc)
    obtain ⟨nodup, larger⟩ := of_decide_eq_true conditions
    exact ⟨e, t, failed, larger, Construct.conceals_of_error
      (built_of_mem_starts (by simp)).sound genuine_host (distinct_of_nodup nodup) failed⟩
  exact ⟨late tornCell (by simp), late overwide (by simp)⟩

end TypeSynthesis
