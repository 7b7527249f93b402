import TypeSynthesis.Proofs.Synthesis.Steps

/-!
# The class of a record

A record definition that is accepted is a class of the registry from then on, with the fields that
the definition declares.

* `ClassType.IsRecord`: a synthesized class with the name and the declared fields of a record;
* `isRecord_beginClass`, `isRecord_declareFields`, `isRecord_implementAll`: the steps that make it;
* `class?_finish`: a finished draft is the class that its descriptor names.
-/

namespace TypeSynthesis

/-- The class is synthesized, and has this name and fields of these names in order. -/
structure ClassType.IsRecord (c : ClassType) (name : String) (fields : List String) : Prop where
  origin : c.origin = .synthesized
  name_eq : c.name = name
  fields_eq : c.fields.map Field.name = fields

namespace ClassType.IsRecord

variable {c : ClassType} {name : String} {fields : List String} (h : c.IsRecord name fields)
include h

theorem withInterfaces (is : List TypeId) :
    (is.foldl ClassType.withInterface c).IsRecord name fields := by
  induction is generalizing c with
  | nil => exact h
  | cons i is ih =>
    refine ih ?_
    unfold ClassType.withInterface
    split
    · exact h
    · exact ⟨h.origin, h.name_eq, h.fields_eq⟩

theorem declare (m : String) (attributes : MethodAttributes) (result : TypeRef)
    (params : List TypeRef) : (c.declare m attributes result params).IsRecord name fields :=
  ⟨h.origin, h.name_eq, h.fields_eq⟩

/-- The class with the methods of another type declared under other names. -/
theorem declareAll (rename : Signature → String) (attributes : MethodAttributes)
    (ms : List Signature) :
    (ms.foldl (fun d m => d.declare (rename m) attributes m.result m.params) c).IsRecord name
      fields := by
  induction ms generalizing c with
  | nil => exact h
  | cons m ms ih => exact ih (h.declare ..)

theorem withField (f : Field) : (c.withField f).IsRecord name (fields ++ [f.name]) where
  origin := h.origin
  name_eq := h.name_eq
  fields_eq := by
    change (c.fields ++ [f]).map Field.name = _
    rw [List.map_append, h.fields_eq]
    rfl

end ClassType.IsRecord

namespace SynthM

/-! ### The steps of the synthesis -/

/-- A class that is begun has its base and interfaces, and nothing else. -/
theorem eq_of_beginClass {R : Registry} {name : String} {base : TypeId} {is : List TypeId}
    {draft : ClassType} (h : R.beginClass name base is = .ok draft) :
    draft = is.foldl ClassType.withInterface
      { name, origin := .synthesized, base? := some base } := by
  obtain ⟨-, -, h⟩ := except_bind_eq_ok_iff.1 h
  obtain ⟨-, -, h⟩ := except_bind_eq_ok_iff.1 h
  obtain ⟨-, -, h⟩ := except_bind_eq_ok_iff.1 h
  cases h
  rfl

theorem isRecord_beginClass {R : Registry} {name : String} {base : TypeId} {is : List TypeId}
    {draft : ClassType} (h : R.beginClass name base is = .ok draft) : draft.IsRecord name [] := by
  rw [eq_of_beginClass h]
  exact ClassType.IsRecord.withInterfaces ⟨rfl, rfl, rfl⟩ is

theorem isRecord_declareField {construct name : String} {draft draft' : ClassType}
    {f : FieldDecl} {fields : List String} {s t : Session} (hd : draft.IsRecord name fields)
    (h : declareField construct draft f s = .ok draft' t) :
    draft'.IsRecord name (fields ++ [f.name]) := by
  obtain ⟨type, u, -, h⟩ := bind_eq_ok_iff.1 h
  obtain ⟨R, v, -, h⟩ := bind_eq_ok_iff.1 h
  split at h
  · exact absurd h throw_ne_ok
  · obtain ⟨rfl, -⟩ := pure_eq_ok_iff.1 h
    exact hd.withField _

/-- Fields are declared in order. -/
theorem isRecord_declareFields {construct name : String} {fs : List FieldDecl}
    {draft draft' : ClassType} {fields : List String} {s t : Session}
    (hd : draft.IsRecord name fields)
    (h : fs.foldlM (declareField construct) draft s = .ok draft' t) :
    draft'.IsRecord name (fields ++ fs.map FieldDecl.name) := by
  induction fs generalizing draft fields s with
  | nil =>
    obtain ⟨rfl, -⟩ := pure_eq_ok_iff.1 h
    rwa [List.map_nil, List.append_nil]
  | cons f fs ih =>
    rw [List.foldlM_cons] at h
    obtain ⟨draft₁, u, h₁, h⟩ := bind_eq_ok_iff.1 h
    have := ih (isRecord_declareField hd h₁) h
    rwa [List.append_assoc] at this

theorem isRecord_implementAll {construct name : String} {candidates : Candidates}
    {ms ms' : List MethodHead} {draft draft' : ClassType} {fields : List String} {s t : Session}
    (hd : draft.IsRecord name fields)
    (h : implementAll construct candidates draft ms s = .ok (draft', ms') t) :
    draft'.IsRecord name fields := by
  induction ms generalizing draft ms' s t with
  | nil =>
    obtain ⟨h, -⟩ := pure_eq_ok_iff.1 h
    cases h
    exact hd
  | cons m ms ih =>
    obtain ⟨sig, u, -, h⟩ := bind_eq_ok_iff.1 h
    obtain ⟨⟨done, ms''⟩, v, h₁, h⟩ := bind_eq_ok_iff.1 h
    obtain ⟨h, -⟩ := pure_eq_ok_iff.1 h
    cases h
    exact ih (hd.declare ..) h₁

/-- A finished draft is the class that its descriptor names. -/
theorem class?_finish {draft : ClassType} {d : Descriptor} {s t : Session}
    (h : finish draft s = .ok d t) :
    d = ⟨draft.name, draft.id⟩ ∧ t.registry.class? d.id = some draft := by
  obtain ⟨R, hR, h⟩ := except_bind_eq_ok_iff.1 (extend_eq_ok h)
  obtain ⟨-, -, hR⟩ := Registry.register_eq_ok_iff.1 hR
  cases h
  refine ⟨rfl, ?_⟩
  unfold Registry.class?
  rw [hR, Registry.get?_add]
  exact congrArg (Option.bind · Entry.asClass?) (if_pos rfl)

end SynthM

end TypeSynthesis
