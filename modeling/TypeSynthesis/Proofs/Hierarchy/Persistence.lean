import TypeSynthesis.Proofs.Hierarchy.Order
import TypeSynthesis.Proofs.Overload.Selection
import TypeSynthesis.Registry.Methods

/-!
# Later types change no answer about earlier ones

A type names only what was registered before it, so no search that starts at a registered type
leaves the registry as it was when that type came.

* `Registry.Persists`: every type of one registry is in another as it was;
* `ancestors_of_persists`, `allInterfaces_of_persists`: the searches find the same there;
* `Registry.Agrees`: two registries give the same answers about the types of the first;
* `agrees_history`: so does every registry that operations make of one.
-/

namespace TypeSynthesis

namespace Registry

variable {R S : Registry} {t u : TypeId}

/-- Every type of the first registry is in the second as it was. -/
structure Persists (R S : Registry) : Prop where
  get? {t : TypeId} {e : Entry} (h : R.get? t = some e) : S.get? t = some e
  size : R.size ≤ S.size

theorem Adds.persists {es : List Entry} (h : R.Adds es S) : R.Persists S where
  get? := h.get?
  size := by
    induction h with
    | refl => exact Nat.le_refl _
    | @add es S e _ _ _ ih => exact ih.trans (S.types.size_le_insert e.id e)

section Answers

variable (h : Layered R) (persists : R.Persists S)

include persists in
theorem get?_of_persists (ht : R.contains t = true) : S.get? t = R.get? t := by
  obtain ⟨e, he⟩ := contains_eq_true_iff.1 ht
  rw [he, persists.get? he]

include persists in
theorem class?_of_persists (ht : R.contains t = true) : S.class? t = R.class? t := by
  rw [class?, class?, get?_of_persists persists ht]

include persists in
theorem interface?_of_persists (ht : R.contains t = true) : S.interface? t = R.interface? t := by
  rw [interface?, interface?, get?_of_persists persists ht]

include h persists

/-! ### Base classes -/

theorem baseClass?_of_persists (ht : R.contains t = true) : S.baseClass? t = R.baseClass? t := by
  unfold baseClass?
  rw [class?_of_persists persists ht]
  cases hb : (R.class? t).bind ClassType.base? with
  | none => rfl
  | some b =>
    obtain ⟨c, hc, hb⟩ := Option.bind_eq_some_iff.1 hb
    have known : R.contains b = true := h.closed (above_base (get?_of_class? hc) hb)
    simp only [class?_of_persists persists known]

theorem ancestorsUpTo_of_persists (n : Nat) (ht : R.contains t = true) :
    S.ancestorsUpTo n t = R.ancestorsUpTo n t := by
  induction n generalizing t with
  | zero => rfl
  | succ n ih =>
    unfold ancestorsUpTo
    rw [baseClass?_of_persists h persists ht]
    cases hb : R.baseClass? t with
    | none => rfl
    | some b => exact congrArg (b :: ·) (ih (contains_of_derives hb).2)

/-- The larger bound of the larger registry makes no difference to a walk that ends. -/
theorem ancestors_of_persists (ht : R.contains t = true) : S.ancestors t = R.ancestors t :=
  calc S.ancestorsUpTo S.size t
    _ = R.ancestorsUpTo S.size t := ancestorsUpTo_of_persists h persists S.size ht
    _ = R.ancestors t := ancestorsUpTo_eq_ancestors h.acyclic persists.size t

omit persists in
theorem Layered.contains_of_above (htu : Relation.TransGen R.Above t u) :
    R.contains u = true := by
  obtain ⟨s, -, hsu⟩ := Relation.TransGen.tail'_iff.1 htu
  exact h.closed hsu

theorem lineage_of_persists (ht : R.contains t = true) : S.lineage t = R.lineage t := by
  unfold lineage
  rw [ancestors_of_persists h persists ht]
  refine List.filterMap_congr fun u hu => class?_of_persists persists ?_
  rcases List.mem_cons.1 hu with rfl | hu
  · exact ht
  · exact h.contains_of_above (above_of_mem_ancestors hu)

/-! ### Interfaces -/

theorem visit_of_persists (n : Nat) (found : List TypeId) (ht : R.contains t = true) :
    S.visit n found t = R.visit n found t := by
  induction n generalizing found t with
  | zero => rfl
  | succ n ih =>
    have bases : S.baseInterfaces t = R.baseInterfaces t := by
      rw [baseInterfaces, baseInterfaces, interface?_of_persists persists ht]
    unfold visit
    rw [bases]
    split
    · rfl
    · refine List.foldl_ext _ _ _ fun found' i hi => ih found' ?_
      exact h.closed (above_of_extends hi)

theorem namedInterfaces_of_persists (ht : R.contains t = true) :
    S.namedInterfaces t = R.namedInterfaces t := by
  unfold namedInterfaces
  rw [get?_of_persists persists ht, lineage_of_persists h persists ht]

theorem allInterfaces_of_persists (ht : R.contains t = true) :
    S.allInterfaces t = R.allInterfaces t := by
  unfold allInterfaces
  rw [namedInterfaces_of_persists h persists ht]
  refine List.foldl_ext _ _ _ fun found i hi => ?_
  have known : R.contains i = true := h.contains_of_above (above_of_mem_namedInterfaces hi)
  have small : R.unfound found ≤ R.size := R.unfound_le_size found
  have size : R.size ≤ S.size := persists.size
  calc S.visit (S.size + 1) found i
    _ = R.visit (S.size + 1) found i := visit_of_persists h persists _ _ known
    _ = R.visit (R.size + 1) found i := visit_stable (by omega) (by omega)

/-! ### Subtypes and methods -/

theorem isSubtype_of_persists (ht : R.contains t = true) (u : TypeId) :
    S.isSubtype t u = R.isSubtype t u := by
  unfold isSubtype
  rw [get?_of_persists persists ht, ancestors_of_persists h persists ht,
    allInterfaces_of_persists h persists ht]

theorem methodsOf_of_persists (ht : R.contains t = true) : S.methodsOf t = R.methodsOf t := by
  unfold methodsOf
  rw [get?_of_persists persists ht, lineage_of_persists h persists ht]

theorem interfaceMethods_of_persists (ht : R.contains t = true) :
    S.interfaceMethods t = R.interfaceMethods t := by
  have same : (t :: R.allInterfaces t).filterMap S.interface? =
      (t :: R.allInterfaces t).filterMap R.interface? := by
    refine List.filterMap_congr fun u hu => interface?_of_persists persists ?_
    rcases List.mem_cons.1 hu with rfl | hu
    · exact ht
    · exact h.contains_of_above (above_of_mem_allInterfaces hu)
  unfold interfaceMethods
  rw [allInterfaces_of_persists h persists ht, same]

/-! ### Conversions -/

/-- Only the argument is looked up. -/
theorem conversion?_of_persists {arg : TypeRef} (ha : R.contains arg.id = true)
    (param : TypeRef) : S.conversion? arg param = R.conversion? arg param := by
  have root : S.rootConversion? arg.id = R.rootConversion? arg.id := by
    rw [rootConversion?, rootConversion?, get?_of_persists persists ha]
  unfold conversion?
  rw [root, isSubtype_of_persists h persists ha]

theorem conversions?_of_persists {args : List TypeRef}
    (ha : ∀ a ∈ args, R.contains a.id = true) (params : List TypeRef) :
    S.conversions? args params = R.conversions? args params := by
  induction args generalizing params with
  | nil => cases params <;> rfl
  | cons a args ih =>
    cases params with
    | nil => rfl
    | cons p params =>
      obtain ⟨first, rest⟩ := List.forall_mem_cons.1 ha
      unfold conversions?
      rw [conversion?_of_persists h persists first, ih rest]

/-! ### Selection -/

theorem applicable_of_persists (candidates : List Signature) {args : List TypeRef}
    (ha : ∀ a ∈ args, R.contains a.id = true) :
    S.applicable candidates args = R.applicable candidates args := by
  refine List.filterMap_congr fun m _ => ?_
  rw [match?, match?, conversions?_of_persists h persists ha]

/-- Only the parameters of the more specific signature are looked up. -/
theorem atLeastAsSpecific_of_persists {m : Signature}
    (hm : ∀ p ∈ m.params, R.contains p.id = true) (n : Signature) :
    S.atLeastAsSpecific m n = R.atLeastAsSpecific m n := by
  have each : ∀ p ∈ m.params.zip n.params, S.atMost p.1 p.2 = R.atMost p.1 p.2 := by
    intro p hp
    have known : R.contains p.1.id = true := hm p.1 (List.of_mem_zip hp).1
    rw [atMost, atMost, isSubtype_of_persists h persists known]
  unfold atLeastAsSpecific
  rw [Bool.eq_iff_iff, List.all_eq_true, List.all_eq_true]
  exact forall₂_congr fun p hp => by rw [each p hp]

theorem mostSpecific?_of_persists {tied : List (Match Signature)}
    (ht : ∀ w ∈ tied, ∀ p ∈ w.candidate.params, R.contains p.id = true) :
    S.mostSpecific? tied = R.mostSpecific? tied := by
  have most : ∀ p ∈ tied.zipIdx,
      S.isMostSpecific tied p.2 p.1 = R.isMostSpecific tied p.2 p.1 := by
    intro p hp
    have known := ht p.1 (List.fst_mem_of_mem_zipIdx hp)
    simp only [isMostSpecific, atLeastAsSpecific_of_persists h persists known]
  unfold mostSpecific?
  rw [List.filter_congr most]

theorem select?_of_persists {candidates : List Signature} {args : List TypeRef}
    (hc : ∀ m ∈ candidates, ∀ p ∈ m.params, R.contains p.id = true)
    (ha : ∀ a ∈ args, R.contains a.id = true) :
    S.select? candidates args = R.select? candidates args := by
  have best : ∀ w ∈ bestMatches (R.applicable candidates args),
      ∀ p ∈ w.candidate.params, R.contains p.id = true := by
    intro w hw
    have applies := (mem_bestMatches_iff.1 hw).1
    exact hc _ (mem_applicable_iff.1 applies).1
  unfold select?
  rw [applicable_of_persists h persists candidates ha]
  split
  · rfl
  · rfl
  · rw [mostSpecific?_of_persists h persists best]

end Answers

/-! ### Agreement -/

/-- Two registries give the same answers about the types of the first: about what they are subtypes
of and convert to, which interfaces and methods they have, and which of several methods that take
them is selected. -/
structure Agrees (R S : Registry) : Prop where
  isSubtype {t : TypeId} (ht : R.contains t = true) (u : TypeId) :
    S.isSubtype t u = R.isSubtype t u
  allInterfaces {t : TypeId} (ht : R.contains t = true) : S.allInterfaces t = R.allInterfaces t
  methodsOf {t : TypeId} (ht : R.contains t = true) : S.methodsOf t = R.methodsOf t
  interfaceMethods {t : TypeId} (ht : R.contains t = true) :
    S.interfaceMethods t = R.interfaceMethods t
  conversion? {arg : TypeRef} (ha : R.contains arg.id = true) (param : TypeRef) :
    S.conversion? arg param = R.conversion? arg param
  select? {candidates : List Signature} {args : List TypeRef}
    (hc : ∀ m ∈ candidates, ∀ p ∈ m.params, R.contains p.id = true)
    (ha : ∀ a ∈ args, R.contains a.id = true) :
    S.select? candidates args = R.select? candidates args

theorem Layered.agrees (h : Layered R) (persists : R.Persists S) : R.Agrees S where
  isSubtype := isSubtype_of_persists h persists
  allInterfaces := allInterfaces_of_persists h persists
  methodsOf := methodsOf_of_persists h persists
  interfaceMethods := interfaceMethods_of_persists h persists
  conversion? := conversion?_of_persists h persists
  select? := select?_of_persists h persists

theorem Grown.sound (h : Grown R) : R.Sound := by
  induction h with
  | host => exact sound_empty.of_grows provides_host.grows
  | register _ _ hr ih => exact ih.of_grows (grows_register hr)
  | pointer _ p ih => exact ih.of_grows (grows_provide _ _)

/-- Whichever operations are applied to a registry in which every type came after its supertypes,
every registry on the way agrees with it on the types that it has.  The only assumption is that
different names, and different definitions at arguments, among those in use have different
identities. -/
theorem agrees_history (h : Grown R) (os : List Operation) (apart : Apart (R.history os)) :
    ∀ S ∈ R.history os, R.Agrees S := by
  intro S hS
  obtain ⟨es, adds⟩ := h.sound.exists_adds apart hS
  exact (layered_of_grown h).agrees adds.persists

/-- A class below the squares, a pointer type over them, an invoker definition and its instance at
them. -/
def pixels : List Operation :=
  [.register (.classType { name := "Pixel", base? := some (.ofName "Square") }),
   .resolve "Square*", .invoker 0,
   .instantiate (.ofName (invokerName 0)) [.value (.ofName "Square")]]

theorem agrees_history_pixels :
    Grown shapes ∧ Apart (shapes.history pixels) ∧
      ∀ S ∈ shapes.history pixels, shapes.Agrees S := by
  have apart : Apart (shapes.history pixels) := by decide +kernel
  exact ⟨grown_shapes, apart, agrees_history grown_shapes pixels apart⟩

end Registry

end TypeSynthesis
