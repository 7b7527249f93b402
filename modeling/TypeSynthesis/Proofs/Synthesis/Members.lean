import TypeSynthesis.Proofs.Overload.Exact
import TypeSynthesis.Proofs.Synthesis.Wrapper

/-!
# The methods of a draft

The draft of a class has one method for each supplied one, and after them those that the construct
declares by itself.

* `Signature.shape`, `MethodHead.shape`: what tells two methods of a class apart;
* `shapes_draftRecord`, `shapes_draftObject`, `shapes_draftWrapper`: the shapes of the methods of
  each kind of draft;
* `nodup_shape_interfaceMethods`, `nodup_invocations_iff`: among the methods that a construct
  declares by itself, only those of one invoker can have the same shape.
-/

namespace TypeSynthesis

open SynthM Registry

/-! ### Names and parameter types -/

/-- The name of a method and the types of its parameters. -/
def Signature.shape (m : Signature) : String × List TypeRef := (m.name, m.params)

theorem Signature.slot_eq_of_shape {m n : Signature} (h : m.shape = n.shape) :
    m.slot = n.slot := by
  obtain ⟨name, params⟩ := Prod.mk.inj h
  unfold slot
  rw [name, params]

/-- The name of a resolved method and the types that its parameters have been given. -/
def MethodHead.shape (m : MethodHead) : String × List TypeRef :=
  (m.name, m.params.filterMap Param.type?)

/-- A method that implements a signature has the types of its parameters. -/
theorem MethodHead.Annotated.shape_eq {new : TypeId} {given done : MethodHead} {sig : Signature}
    (h : Annotated new given done sig) : done.shape = (given.name, sig.params) := by
  have types : done.params.filterMap Param.type? = sig.params :=
    calc done.params.filterMap Param.type?
      _ = (done.params.map Param.type?).filterMap id :=
        (List.filterMap_map (f := Param.type?) (g := id)).symm
      _ = sig.params := by rw [h.types, List.filterMap_map]; exact List.filterMap_some
  unfold shape
  rw [h.name, types]

/-- The methods of an interface differ in name or parameter types, also from those that it takes
over. -/
theorem nodup_shape_interfaceMethods (R : Registry) (t : TypeId) :
    ((R.interfaceMethods t).map Signature.shape).Nodup :=
  List.pairwise_map.2 ((pairwise_firstPerSlot [] _).imp fun slot same =>
    slot (Signature.slot_eq_of_shape same))

/-! ### Methods of invokers -/

/-- The methods of an interface that a call of a function may use. -/
def InterfaceType.invokes (i : InterfaceType) : List Signature :=
  i.methods.filter (·.name == invokeName)

/-- The name under which a function declares the method of an invoker, and the method's parameter
types. -/
def InterfaceType.invocation (i : InterfaceType) (m : Signature) : String × List TypeRef :=
  (i.name ++ "." ++ m.name, m.params)

/-- The shapes of the methods by which a function implements an invoker. -/
def Registry.invocations (R : Registry) (u : TypeId) : List (String × List TypeRef) :=
  (R.interface? u).toList.flatMap fun i => i.invokes.map i.invocation

theorem InterfaceType.name_eq_of_invokes {i : InterfaceType} {m : Signature}
    (h : m ∈ i.invokes) : m.name = invokeName := beq_iff_eq.1 (List.mem_filter.1 h).2

theorem Registry.invocations_eq {R : Registry} {u : TypeId} {i : InterfaceType}
    (h : R.interface? u = some i) : R.invocations u = i.invokes.map i.invocation := by
  unfold invocations
  rw [h]
  exact List.append_nil _

theorem Registry.mem_invocations_iff {R : Registry} {u : TypeId} {x : String × List TypeRef} :
    x ∈ R.invocations u ↔ ∃ i, R.interface? u = some i ∧ ∃ m ∈ i.invokes,
      (i.name ++ "." ++ invokeName, m.params) = x := by
  unfold invocations
  rw [List.mem_flatMap]
  constructor
  · rintro ⟨i, hi, hx⟩
    obtain ⟨m, hm, rfl⟩ := List.mem_map.1 hx
    refine ⟨i, Option.mem_toList.1 hi, m, hm, ?_⟩
    unfold InterfaceType.invocation
    rw [InterfaceType.name_eq_of_invokes hm]
  · rintro ⟨i, hi, m, hm, rfl⟩
    refine ⟨i, Option.mem_toList.2 hi, List.mem_map.2 ⟨m, hm, ?_⟩⟩
    unfold InterfaceType.invocation
    rw [InterfaceType.name_eq_of_invokes hm]

/-- The methods of one invoker are told apart by their parameter types alone. -/
theorem InterfaceType.nodup_invocation_iff (i : InterfaceType) :
    (i.invokes.map i.invocation).Nodup ↔ i.invokes.Pairwise (·.params ≠ ·.params) := by
  refine List.pairwise_map.trans (List.Pairwise.iff_of_mem fun {m n} hm hn => not_congr ?_)
  unfold invocation
  rw [name_eq_of_invokes hm, name_eq_of_invokes hn, Prod.mk.injEq]
  exact and_iff_right rfl

/-- The methods of different invokers have different names, since the invokers have. -/
theorem Registry.Sound.disjoint_invocations {R : Registry} (sound : R.Sound) {u v : TypeId}
    (h : u ≠ v) : List.Disjoint (R.invocations u) (R.invocations v) := by
  intro x hu hv
  obtain ⟨i, hi, m, -, rfl⟩ := mem_invocations_iff.1 hu
  obtain ⟨j, hj, n, -, same⟩ := mem_invocations_iff.1 hv
  -- the names end alike, so that the invokers before the dots have the same name
  have letters := congrArg String.toList (Prod.mk.inj same).1
  simp only [String.toList_append] at letters
  have names : j.name = i.name :=
    String.toList_injective (List.append_cancel_right (List.append_cancel_right letters))
  have listed := sound.listed (get?_of_interface? hi)
  have listed' := sound.listed (get?_of_interface? hj)
  change R.names.get? i.name = some u at listed
  change R.names.get? j.name = some v at listed'
  rw [names, listed] at listed'
  exact h (Option.some.inj listed')

/-- The methods of invokers have different shapes if those of each single one have. -/
theorem nodup_invocations_iff {R : Registry} (sound : R.Sound) {us : List TypeId}
    (nodup : us.Nodup) : (us.flatMap R.invocations).Nodup ↔
      ∀ u ∈ us, ∀ i, R.interface? u = some i → i.invokes.Pairwise (·.params ≠ ·.params) := by
  have apart : us.Pairwise (Function.onFun List.Disjoint R.invocations) :=
    nodup.imp sound.disjoint_invocations
  rw [List.nodup_flatMap, and_iff_left apart]
  refine forall₂_congr fun u _ => ?_
  cases h : R.interface? u with
  | none => simp [invocations, h]
  | some i =>
    rw [invocations_eq h, i.nodup_invocation_iff]
    simp

namespace SynthM

variable {o : Options} {construct : String} {s t : Session}

/-! ### Drafts -/

/-- Methods that are declared in a row come after those that the draft has. -/
theorem shapes_declareAll (name : Signature → String) (attributes : MethodAttributes)
    (ms : List Signature) (c : ClassType) :
    (ms.foldl (fun d m => d.declare (name m) attributes m.result m.params) c).methods.map
        Signature.shape =
      c.methods.map Signature.shape ++ ms.map fun m => (name m, m.params) := by
  induction ms generalizing c with
  | nil => exact (List.append_nil _).symm
  | cons m ms ih =>
    have first : (c.declare (name m) attributes m.result m.params).methods.map Signature.shape =
        c.methods.map Signature.shape ++ [(name m, m.params)] := List.map_append
    rw [List.foldl_cons, ih, first, List.append_assoc]
    rfl

theorem interfaces_declareAll (name : Signature → String) (attributes : MethodAttributes)
    (ms : List Signature) (c : ClassType) :
    (ms.foldl (fun d m => d.declare (name m) attributes m.result m.params) c).interfaces =
      c.interfaces := by
  induction ms generalizing c with
  | nil => rfl
  | cons m ms ih => exact ih (c.declare (name m) attributes m.result m.params)

/-- A draft is given one method for each supplied one, with the shape of the resolved method. -/
theorem shapes_implementAll {candidates : Candidates} {draft draft' : ClassType}
    {ms ms' : List MethodHead}
    (h : implementAll construct candidates draft ms s = .ok (draft', ms') t) :
    draft'.methods.map Signature.shape =
      draft.methods.map Signature.shape ++ ms'.map MethodHead.shape := by
  obtain ⟨-, sigs, selects, rfl, methods⟩ := implementAll_eq_ok h
  rw [methods, List.map_append]
  refine congrArg (_ ++ ·) ?_
  clear methods h
  -- a supplied method and the signature that it selects have one method of the draft
  induction selects with
  | nil => rfl
  | cons first _ ih =>
    have shape := (MethodHead.annotated_implement draft.id first.arity).shape_eq
    rw [List.zipWith_cons_cons, List.zipWith_cons_cons, List.map_cons, List.map_cons, ih, shape]
    rfl

/-- The class of a record has the supplied methods and then the basis. -/
theorem shapes_draftRecord {head : RecordHead} {ms ms' : List MethodHead} {c : ClassType}
    (h : draftRecord o head ms s = .ok (c, ms') t) :
    c.methods.map Signature.shape = ms'.map MethodHead.shape ++ [(basisName, [])] := by
  obtain ⟨is, _, -, h⟩ := bind_eq_ok_iff.1 h
  obtain ⟨draft, _, hdraft, h⟩ := bind_eq_ok_iff.1 h
  obtain ⟨draft₁, _, hfields, h⟩ := bind_eq_ok_iff.1 h
  obtain ⟨R, _, -, h⟩ := bind_eq_ok_iff.1 h
  obtain ⟨⟨draft₂, heads⟩, _, hmethods, h⟩ := bind_eq_ok_iff.1 h
  obtain ⟨h, rfl⟩ := pure_eq_ok_iff.1 h
  cases h
  have empty : draft₁.methods = [] :=
    foldlM_invariant (I := fun c : ClassType => c.methods = []) methods_declareField
      (methods_beginClass (consult_eq_ok_iff.1 hdraft).1) hfields
  have shapes := shapes_implementAll hmethods
  rw [empty, List.map_nil, List.nil_append] at shapes
  rw [← shapes]
  exact List.map_append

/-- The methods of the metadata interface, if a class with the supertypes declares them by
itself. -/
def metadataMethods (R : Registry) (supers : Supertypes) : List Signature :=
  supers.metadata?.toList.flatMap R.interfaceMethods

theorem nodup_shape_metadataMethods (R : Registry) (supers : Supertypes) :
    ((metadataMethods R supers).map Signature.shape).Nodup := by
  unfold metadataMethods
  cases supers.metadata? with
  | none => exact List.nodup_nil
  | some u =>
    rw [Option.toList_some, List.flatMap_singleton]
    exact nodup_shape_interfaceMethods R u

/-- A class has the metadata interface besides the requested ones exactly if it is that of an
anonymous object that does not request it. -/
theorem metadata?_eq_some_iff {head : ObjectHead} {supers : Supertypes} {R : Registry} {u : TypeId}
    (h : supertypes head s = .ok supers t) (grows : t.registry.Grows R) :
    supers.metadata? = some u ↔ head.kind = .anonymous ∧
      R.names.get? metadataName = some u ∧ u ∉ supers.requested := by
  unfold supertypes at h
  cases hk : head.kind with
  | proxy =>
    simp only [hk] at h
    obtain ⟨_, _, -, h⟩ := bind_eq_ok_iff.1 h
    obtain ⟨_, _, -, h⟩ := bind_eq_ok_iff.1 h
    obtain ⟨⟨base, requested⟩, _, -, h⟩ := bind_eq_ok_iff.1 h
    obtain ⟨rfl, -⟩ := pure_eq_ok_iff.1 h
    exact ⟨nofun, nofun⟩
  | anonymous =>
    simp only [hk] at h
    obtain ⟨is, v, -, h⟩ := bind_eq_ok_iff.1 h
    obtain ⟨metadata, w, hmetadata, h⟩ := bind_eq_ok_iff.1 h
    obtain ⟨rfl, rfl⟩ := pure_eq_ok_iff.1 h
    -- the name is a plain one, which is looked up as it is
    have plain : v.registry.resolve metadataName =
      ((v.registry.names.get? metadataName).map TypeRef.value, v.registry) := rfl
    have named : R.names.get? metadataName = some metadata := by
      refine names_get?_of_grows grows ?_
      unfold anonymousSupertypes.metadataType at hmetadata
      rw [plain] at hmetadata
      cases found : v.registry.names.get? metadataName <;> rw [found] at hmetadata <;>
        cases hmetadata
      exact found
    rw [named]
    dsimp only
    by_cases mem : metadata ∈ is
    · rw [if_pos (List.contains_iff_mem.2 mem)]
      refine ⟨nofun, ?_⟩
      rintro ⟨-, same, new⟩
      cases same
      exact absurd mem new
    · rw [if_neg (mt List.contains_iff_mem.1 mem)]
      refine ⟨fun same => ?_, fun h => h.2.1⟩
      cases same
      exact ⟨rfl, rfl, mem⟩

theorem mem_metadataMethods_iff {head : ObjectHead} {supers : Supertypes} {R : Registry}
    {m : Signature} (h : supertypes head s = .ok supers t) (grows : t.registry.Grows R) :
    m ∈ metadataMethods R supers ↔ head.kind = .anonymous ∧ ∃ u,
      R.names.get? metadataName = some u ∧ u ∉ supers.requested ∧ m ∈ R.interfaceMethods u := by
  unfold metadataMethods
  simp only [List.mem_flatMap, Option.mem_toList, metadata?_eq_some_iff h grows]
  constructor
  · rintro ⟨u, ⟨anonymous, named, new⟩, hm⟩
    exact ⟨anonymous, u, named, new, hm⟩
  · rintro ⟨anonymous, u, named, new, hm⟩
    exact ⟨u, ⟨anonymous, named, new⟩, hm⟩

/-- The class of an object literal has the supplied methods and then those of the metadata
interface, if it declares them by itself. -/
theorem shapes_draftObject {head : ObjectHead} {ms ms' : List MethodHead} {c : ClassType}
    (h : draftObject o head ms s = .ok (c, ms') t) :
    ∃ supers u, supertypes head s = .ok supers u ∧ u.registry.Grows t.registry ∧
      c.methods.map Signature.shape = ms'.map MethodHead.shape ++
        (metadataMethods t.registry supers).map Signature.shape := by
  obtain ⟨supers, s₁, hsupers, h⟩ := bind_eq_ok_iff.1 h
  obtain ⟨name, s₂, hname, h⟩ := bind_eq_ok_iff.1 h
  obtain ⟨draft, s₃, hdraft, h⟩ := bind_eq_ok_iff.1 h
  obtain ⟨R, s₄, hR, h⟩ := bind_eq_ok_iff.1 h
  obtain ⟨⟨draft₁, heads⟩, s₅, hmethods, h⟩ := bind_eq_ok_iff.1 h
  obtain ⟨R', s₆, hR', h⟩ := bind_eq_ok_iff.1 h
  obtain ⟨h, rfl⟩ := pure_eq_ok_iff.1 h
  cases h
  cases hR
  cases hR'
  obtain ⟨begun, rfl⟩ := consult_eq_ok_iff.1 hdraft
  have grows := Session.grows_respected
  have g₂ : s₁.registry.Grows s₂.registry := (grows.freshName ..).of_ok hname
  have g₅ : s₂.registry.Grows s₅.registry := (grows.methods ..).of_ok hmethods
  refine ⟨supers, s₁, hsupers, g₂.trans g₅, ?_⟩
  have shapes := shapes_implementAll hmethods
  rw [methods_beginClass begun, List.map_nil, List.nil_append] at shapes
  rw [← shapes]
  unfold declareMetadata metadataMethods
  cases supers.metadata? with
  | none => exact (List.append_nil _).symm
  | some v =>
    rw [Option.toList_some, List.flatMap_singleton]
    exact shapes_declareAll Signature.name .implementation _ draft₁

/-! ### The draft of a wrapper -/

theorem nodup_resolveArities {invokers invokers' : List TypeId} {as as' : List ArityHead}
    (h : resolveArities o construct invokers as s = .ok (invokers', as') t)
    (nodup : invokers.Nodup) : invokers'.Nodup := by
  induction as generalizing invokers as' s with
  | nil =>
    obtain ⟨h, -⟩ := pure_eq_ok_iff.1 h
    cases h
    exact nodup
  | cons a as ih =>
    obtain ⟨⟨invokers₁, a₁⟩, s₁, first, h⟩ := bind_eq_ok_iff.1 h
    obtain ⟨⟨invokers₂, as₁⟩, s₂, rest, h⟩ := bind_eq_ok_iff.1 h
    obtain ⟨h, rfl⟩ := pure_eq_ok_iff.1 h
    cases h
    refine ih rest ?_
    obtain ⟨_, _, -, first⟩ := bind_eq_ok_iff.1 first
    obtain ⟨params, _, -, first⟩ := bind_eq_ok_iff.1 first
    obtain ⟨result, _, -, first⟩ := bind_eq_ok_iff.1 first
    obtain ⟨definition, _, -, first⟩ := bind_eq_ok_iff.1 first
    obtain ⟨natural, _, -, first⟩ := bind_eq_ok_iff.1 first
    obtain ⟨boxed, _, -, first⟩ := bind_eq_ok_iff.1 first
    obtain ⟨first, -⟩ := pure_eq_ok_iff.1 first
    cases first
    exact nodup_addNew (nodup_addNew nodup natural) boxed

theorem shapes_declareInvoker {c c' : ClassType} {u : TypeId}
    (h : declareInvoker c u s = .ok c' t) :
    s = t ∧ c'.interfaces = c.interfaces ∧
      c'.methods.map Signature.shape =
        c.methods.map Signature.shape ++ s.registry.invocations u := by
  obtain ⟨R, s₁, hR, h⟩ := bind_eq_ok_iff.1 h
  cases hR
  cases hi : s.registry.interface? u with
  | none =>
    simp only [hi] at h
    exact absurd h throw_ne_ok
  | some i =>
    simp only [hi] at h
    obtain ⟨rfl, rfl⟩ := pure_eq_ok_iff.1 h
    rw [invocations_eq hi]
    exact ⟨rfl, interfaces_declareAll _ _ _ c, shapes_declareAll _ _ _ c⟩

theorem shapes_declareInvokers {us : List TypeId} {c c' : ClassType}
    (h : us.foldlM declareInvoker c s = .ok c' t) :
    s = t ∧ c'.interfaces = c.interfaces ∧
      c'.methods.map Signature.shape =
        c.methods.map Signature.shape ++ us.flatMap s.registry.invocations := by
  induction us generalizing c s with
  | nil =>
    obtain ⟨rfl, rfl⟩ := pure_eq_ok_iff.1 h
    exact ⟨rfl, rfl, (List.append_nil _).symm⟩
  | cons u us ih =>
    rw [List.foldlM_cons] at h
    obtain ⟨c₁, s₁, first, rest⟩ := bind_eq_ok_iff.1 h
    obtain ⟨rfl, interfaces₁, shapes₁⟩ := shapes_declareInvoker first
    obtain ⟨rfl, interfaces₂, shapes₂⟩ := ih rest
    refine ⟨rfl, interfaces₂.trans interfaces₁, ?_⟩
    rw [shapes₂, shapes₁, List.append_assoc]
    rfl

/-- The class of a function has the methods of its invokers, each of which it implements once. -/
theorem shapes_draftWrapper {name? : Option String} {as as' : List ArityHead} {c : ClassType}
    (h : draftWrapper o name? as s = .ok (c, as') t) :
    c.interfaces.Nodup ∧
      c.methods.map Signature.shape = c.interfaces.flatMap t.registry.invocations := by
  obtain ⟨⟨invokers, as₁⟩, _, has, h⟩ := bind_eq_ok_iff.1 h
  obtain ⟨name, _, -, h⟩ := bind_eq_ok_iff.1 h
  obtain ⟨draft, _, hdraft, h⟩ := bind_eq_ok_iff.1 h
  obtain ⟨draft', _, hdeclare, h⟩ := bind_eq_ok_iff.1 h
  obtain ⟨h, rfl⟩ := pure_eq_ok_iff.1 h
  cases h
  have begun := (consult_eq_ok_iff.1 hdraft).1
  have nodup := nodup_resolveArities has List.nodup_nil
  obtain ⟨rfl, interfaces, shapes⟩ := shapes_declareInvokers hdeclare
  rw [interfaces_beginClass begun nodup] at interfaces
  rw [methods_beginClass begun, List.map_nil, List.nil_append] at shapes
  rw [interfaces]
  exact ⟨nodup, shapes⟩

end SynthM

end TypeSynthesis
