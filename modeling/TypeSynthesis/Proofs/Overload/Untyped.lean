import TypeSynthesis.Proofs.Overload.Exact

/-!
# Untyped arguments

Arguments of unknown type have the root type by value.

* `TypeRef.takesUntyped`: the parameters that they are passed for, whatever is registered;
* `Registry.select?_filter_arity`: candidates with another number of parameters do not count;
* `Registry.select?_untyped`: where one candidate has as many parameters as there are arguments, it
  is selected if it takes them.

References match only references, and so a parameter that is passed by reference takes no argument
of unknown type.
-/

namespace TypeSynthesis

/-- Whether an argument of unknown type is passed for the parameter. -/
def TypeRef.takesUntyped (p : TypeRef) : Bool := !p.isByRef && !p.isVoid

namespace Registry

variable {R : Registry} {candidates : List Signature} {m : Signature} {args : List TypeRef}

/-- An argument of unknown type converts to the values of each type but `void`. -/
theorem isSome_conversion?_object (R : Registry) (p : TypeRef) :
    (R.conversion? .object p).isSome = p.takesUntyped := by
  unfold conversion? TypeRef.takesUntyped TypeRef.isVoid
  rw [show TypeRef.object.isByRef = false from rfl, Bool.false_or, Bool.false_and, Bool.false_and,
    if_neg Bool.false_ne_true]
  cases p.isByRef with
  | true => rfl
  | false =>
    rw [if_neg Bool.false_ne_true, show TypeRef.object.id = TypeId.object from rfl,
      show Primitive.ofId? TypeId.object = none by decide +kernel]
    by_cases root : TypeId.object = p.id
    · rw [if_pos root, ← root]
      decide +kernel
    · rw [if_neg root, if_neg (Ne.symm root), if_pos rfl]
      by_cases void : p.id = TypeId.void
      · rw [if_pos void, void]
        rfl
      · rw [if_neg void, beq_false_of_ne void]
        rfl

theorem isSome_conversions?_cons (R : Registry) (a p : TypeRef) (args params : List TypeRef) :
    (R.conversions? (a :: args) (p :: params)).isSome =
      ((R.conversion? a p).isSome && (R.conversions? args params).isSome) := by
  rw [conversions?]
  cases R.conversion? a p with
  | none => rfl
  | some c => cases R.conversions? args params <;> rfl

theorem isSome_conversions?_object (R : Registry) (params : List TypeRef) :
    (R.conversions? (List.replicate params.length .object) params).isSome =
      params.all TypeRef.takesUntyped := by
  induction params with
  | nil => rfl
  | cons p params ih =>
    rw [List.length_cons, List.replicate_succ, isSome_conversions?_cons, isSome_conversion?_object,
      ih, List.all_cons]

/-- Candidates with another number of parameters than there are arguments do not count. -/
theorem select?_filter_arity (R : Registry) (candidates : List Signature) (args : List TypeRef) :
    R.select? (candidates.filter (·.arity == args.length)) args = R.select? candidates args := by
  have applicable : R.applicable (candidates.filter (·.arity == args.length)) args =
      R.applicable candidates args := by
    unfold Registry.applicable
    rw [List.filterMap_filter]
    refine List.filterMap_congr fun n _ => ?_
    split
    · rfl
    · rename_i differ
      cases h : R.match? args n with
      | none => rfl
      | some w =>
        obtain ⟨cs, hcs, -⟩ := Option.map_eq_some_iff.1 h
        exact absurd (beq_iff_eq.2 (length_of_conversions? hcs)) differ
  unfold select?
  rw [applicable]

/-- A candidate that is alone is selected wherever the arguments convert to its parameters. -/
theorem select?_singleton (R : Registry) (m : Signature) (args : List TypeRef) :
    R.select? [m] args = if (R.conversions? args m.params).isSome then some m else none := by
  unfold select? applicable
  cases h : R.conversions? args m.params with
  | none =>
    have none : R.match? args m = none := Option.map_eq_none_iff.2 h
    rw [List.filterMap_cons_none none]
    rfl
  | some cs =>
    have found : R.match? args m = some ⟨m, cs, Conversion.totalCost cs⟩ :=
      Option.map_eq_some_iff.2 ⟨cs, h, rfl⟩
    rw [List.filterMap_cons_some found, List.filterMap_nil, bestMatches_of_better (by simp)]
    rfl

/-- Where a single candidate has as many parameters as there are arguments of unknown type, it is
selected if all its parameters are values, and not `void`, whatever their types are.  Otherwise none
is. -/
theorem select?_untyped {n : Nat} (alone : candidates.filter (·.arity == n) = [m]) :
    R.select? candidates (List.replicate n .object) =
      if m.params.all TypeRef.takesUntyped then some m else none := by
  have arity : m.params.length = n := by
    have mem : m ∈ candidates.filter (·.arity == n) := alone ▸ List.mem_cons_self
    exact beq_iff_eq.1 (List.mem_filter.1 mem).2
  have counted := R.select?_filter_arity candidates (List.replicate n .object)
  rw [List.length_replicate, alone] at counted
  rw [← counted, select?_singleton, ← arity, isSome_conversions?_object]

/-- To mix a number, a text and a type that is not registered. -/
def mixAll : Signature :=
  { name := "mix", declaring := .ofName "Palette",
    params := [.value Primitive.int.id, .value .string, .value (.ofName "Ink")], result := .void,
    attributes := .overridable }

/-- To mix a number that is passed by reference. -/
def mixInto : Signature :=
  { name := "mix", declaring := .ofName "Palette", params := [.reference Primitive.int.id],
    result := .void, attributes := .overridable }

/-- Three arguments of unknown type select the one, but one argument does not select the other. -/
theorem select?_untyped_mix :
    host.select? [mixInto, mixAll] (List.replicate 3 .object) = some mixAll ∧
      host.select? [mixInto, mixAll] (List.replicate 1 .object) = none := by
  have three : [mixInto, mixAll].filter (·.arity == 3) = [mixAll] := by decide +kernel
  have one : [mixInto, mixAll].filter (·.arity == 1) = [mixInto] := by decide +kernel
  rw [select?_untyped three, select?_untyped one]
  decide +kernel

/-- A single candidate that takes a reference is not selected. -/
theorem not_select?_untyped :
    ¬ ∀ (R : Registry) (candidates : List Signature) (m : Signature) (n : Nat),
      candidates.filter (·.arity == n) = [m] → (∀ p ∈ m.params, p.isVoid = false) →
      R.select? candidates (List.replicate n .object) = some m := by
  intro h
  have selected := h host [mixInto] mixInto 1 (by decide +kernel) (by decide +kernel)
  have none : host.select? [mixInto] (List.replicate 1 .object) = none := by decide +kernel
  rw [none] at selected
  cases selected

end Registry

end TypeSynthesis
