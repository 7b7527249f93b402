import Mathlib.Algebra.Order.BigOperators.Group.List
import Mathlib.Algebra.Order.Group.Nat
import TypeSynthesis.Proofs.Hierarchy.Above
import TypeSynthesis.Proofs.Registry.Index
import TypeSynthesis.Registry.Host
import TypeSynthesis.Registry.Names

/-!
# Registries without cycles

A registry that grows from that of the host, each new type above nothing but registered ones, has
no cycles: whatever stands above a type has a lower rank.

* `Registry.Grown`: such registries;
* `Registry.Layered`: their invariant, with `layered_of_grown`;
* `isSubtype_antisymm`: no two types are subtypes of each other;
* `isSubtype_object`: the root type is a proper subtype of nothing.
-/

namespace TypeSynthesis.Registry

open Relation

/-- The registries that grow from that of the host, where the supertypes of every new type are
registered before it.  Pointer types are provided on first use. -/
inductive Grown : Registry → Prop
  | host : Grown host
  | register {R S : Registry} {e : Entry} (h : Grown R)
      (known : ∀ t ∈ e.supertypes, R.contains t = true) (hr : R.register e = .ok S) : Grown S
  | pointer {R : Registry} (h : Grown R) (p : PointerType) : Grown (R.provide (.pointerType p))

/-- The primitives and the root type are in their places, whatever stands above a type is
registered, and ranks descend along the steps above. -/
structure Layered (R : Registry) : Prop where
  primitive (p : Primitive) : ∃ e, R.get? p.id = some e ∧ e.isReference = false
  root : ∃ e, R.get? .object = some e ∧ e.supertypes = []
  closed {t u : TypeId} (h : R.Above t u) : R.contains u = true
  ranked : ∃ rank : TypeId → Nat, ∀ t u, R.Above t u → rank u < rank t

/-! ### The host -/

theorem get?_provideAll {R : Registry} {es : List Entry} {t : TypeId} {e : Entry}
    (h : (R.provideAll es).get? t = some e) : R.get? t = some e ∨ e ∈ es := by
  induction es generalizing R with
  | nil => exact .inl h
  | cons e' es ih =>
    rcases ih h with h | h
    · unfold provide at h
      split at h
      · exact .inl h
      · rw [get?_add] at h
        split at h
        · cases h
          exact .inr List.mem_cons_self
        · exact .inl h
    · exact .inr (List.mem_cons_of_mem _ h)

/-- The types of the host stand below the root type, if below any. -/
theorem supertypes_of_host {t : TypeId} {e : Entry} (h : host.get? t = some e) :
    e.supertypes ⊆ [.object] := by
  rcases get?_provideAll h with h | h
  · rcases get?_provideAll h with h | h
    · cases h
    · obtain ⟨p, -, rfl⟩ := List.mem_map.1 h
      exact List.nil_subset _
  · simp only [List.mem_cons, List.not_mem_nil, or_false] at h
    obtain rfl | rfl | rfl | rfl := h
    · exact List.nil_subset _
    · exact List.Subset.refl _
    · exact List.Subset.refl _
    · exact List.nil_subset _

theorem get?_object_host : host.get? .object = some (.classType objectClass) := by
  decide +kernel

theorem get?_primitive_host : ∀ p ∈ Primitive.all, host.get? p.id = some (.primitive p) := by
  decide +kernel

theorem above_host {t u : TypeId} (h : host.Above t u) : t ≠ .object ∧ u = .object := by
  obtain ⟨e, he, hu⟩ := h
  refine ⟨?_, List.mem_singleton.1 (supertypes_of_host he hu)⟩
  rintro rfl
  rw [get?_object_host] at he
  cases he
  cases hu

theorem layered_host : Layered host where
  primitive p := ⟨_, get?_primitive_host p p.mem_all, rfl⟩
  root := ⟨_, get?_object_host, rfl⟩
  closed h := by
    rw [(above_host h).2]
    exact congrArg Option.isSome get?_object_host
  ranked := by
    refine ⟨fun t => if t = .object then 0 else 1, fun t u h => ?_⟩
    obtain ⟨ht, rfl⟩ := above_host h
    show (if TypeId.object = .object then 0 else 1) < if t = .object then 0 else 1
    rw [if_pos rfl, if_neg ht]
    exact Nat.zero_lt_one

/-! ### Growth -/

section Growth

variable {R : Registry} {e : Entry} {t u : TypeId}

/-- What is above a type after one more is added: for the new type what it names, and for any
other what was above it. -/
theorem above_add (h : (R.add e).Above t u) :
    (t = e.id ∧ u ∈ e.supertypes) ∨ (t ≠ e.id ∧ R.Above t u) := by
  obtain ⟨e', he', hu⟩ := h
  rw [get?_add] at he'
  by_cases ht : t = e.id
  · rw [if_pos ht] at he'
    cases he'
    exact .inl ⟨ht, hu⟩
  · rw [if_neg ht] at he'
    exact .inr ⟨ht, e', he', hu⟩

/-- A new type under a free identity, above which all is registered.  Its rank exceeds those of
the types above it, and no other rank changes. -/
theorem Layered.add (h : Layered R) (known : ∀ t ∈ e.supertypes, R.contains t = true)
    (free : R.contains e.id = false) : Layered (R.add e) where
  primitive p := by
    obtain ⟨e', he', hp⟩ := h.primitive p
    rw [get?_add_of_contains free (contains_eq_true_iff.2 ⟨e', he'⟩)]
    exact ⟨e', he', hp⟩
  root := by
    obtain ⟨e', he', hroot⟩ := h.root
    rw [get?_add_of_contains free (contains_eq_true_iff.2 ⟨e', he'⟩)]
    exact ⟨e', he', hroot⟩
  closed {t u} htu := by
    have hu : R.contains u = true := by
      rcases above_add htu with ⟨-, hu⟩ | ⟨-, htu⟩
      · exact known u hu
      · exact h.closed htu
    rw [contains_eq_true_iff, get?_add_of_contains free hu]
    exact contains_eq_true_iff.1 hu
  ranked := by
    obtain ⟨rank, hrank⟩ := h.ranked
    -- any number above the ranks of the supertypes will do
    let top := (e.supertypes.map rank).sum + 1
    refine ⟨fun t => if t = e.id then top else rank t, fun t u htu => ?_⟩
    rcases above_add htu with ⟨rfl, hu⟩ | ⟨ht, htu⟩
    · have hle := List.le_sum_of_mem (List.mem_map_of_mem (f := rank) hu)
      simp only [if_neg (ne_id_of_contains free (known u hu)), if_pos]
      omega
    · simp only [if_neg (ne_id_of_contains free (h.closed htu)), if_neg ht]
      exact hrank t u htu

theorem exists_get?_add {P : Entry → Prop} (hP : P e) (h : ∃ e', R.get? t = some e' ∧ P e') :
    ∃ e', (R.add e).get? t = some e' ∧ P e' := by
  rw [get?_add]
  by_cases ht : t = e.id
  · rw [if_pos ht]
    exact ⟨e, rfl, hP⟩
  · rw [if_neg ht]
    exact h

/-- A pointer type names nothing above it and is neither class nor interface.  It does no harm even
under an identity that is taken. -/
theorem Layered.add_pointer (h : Layered R) (p : PointerType) :
    Layered (R.add (.pointerType p)) := by
  have above {t u : TypeId} (htu : (R.add (.pointerType p)).Above t u) : R.Above t u := by
    rcases above_add htu with ⟨-, hu⟩ | ⟨-, htu⟩
    · cases hu
    · exact htu
  refine ⟨fun q => exists_get?_add rfl (h.primitive q), exists_get?_add rfl h.root,
    fun htu => ?_, ?_⟩
  · obtain ⟨e, he⟩ := contains_eq_true_iff.1 (h.closed (above htu))
    obtain ⟨e', he', -⟩ := exists_get?_add (P := fun _ => True) trivial ⟨e, he, trivial⟩
    exact contains_eq_true_iff.2 ⟨e', he'⟩
  · obtain ⟨rank, hrank⟩ := h.ranked
    exact ⟨rank, fun t u htu => hrank t u (above htu)⟩

end Growth

theorem layered_of_grown {R : Registry} (h : Grown R) : Layered R := by
  induction h with
  | host => exact layered_host
  | register _ known hr ih =>
    obtain ⟨-, free, rfl⟩ := register_eq_ok_iff.1 hr
    exact ih.add known free
  | @pointer R _ p ih =>
    unfold provide
    split
    · exact ih
    · exact ih.add_pointer p

/-! ### The subtype relation -/

namespace Layered

variable {R : Registry} (h : Layered R)
include h

/-- Only the root type itself is above the root type. -/
theorem isSubtype_object {t : TypeId} (ht : R.isSubtype .object t = true) : t = .object := by
  by_cases hne : t = .object
  · exact hne
  · refine (eq_of_subtype_of_top ht (fun u hu => ?_) hne).symm
    obtain ⟨e, he, hroot⟩ := h.root
    obtain ⟨e', he', hu⟩ := hu
    rw [he] at he'
    cases he'
    rw [hroot] at hu
    cases hu

theorem isSubtype_antisymm {t u : TypeId} (htu : R.isSubtype t u = true)
    (hut : R.isSubtype u t = true) : t = u := by
  by_cases hne : t = u
  · exact hne
  · rcases (subtype_cases htu hne).2 with rfl | above
    · exact h.isSubtype_object hut
    · rcases (subtype_cases hut (Ne.symm hne)).2 with rfl | below
      · exact (h.isSubtype_object htu).symm
      · obtain ⟨rank, hrank⟩ := h.ranked
        have descends {t u : TypeId} (h : TransGen R.Above t u) : rank u < rank t :=
          TransGen.trans_induction_on h (fun h => hrank _ _ h) fun _ _ h₁ h₂ => h₂.trans h₁
        exact absurd (descends above) (Nat.lt_asymm (descends below))

end Layered

/-! ### A registry that grew -/

/-- An interface for shapes, one below it for polygons, and a class of squares. -/
def shapes : Registry :=
  host
    |>.add (.interfaceType { name := "Shape" })
    |>.add (.interfaceType { name := "Polygon", bases := [.ofName "Shape"] })
    |>.add (.classType
      { name := "Square", base? := some .object, interfaces := [.ofName "Polygon"] })

theorem Grown.add {R : Registry} (h : Grown R) {e : Entry}
    (known : (e.supertypes.all R.contains) = true)
    (free : (R.containsName e.name || R.contains e.id) = false) : Grown (R.add e) := by
  rw [Bool.or_eq_false_iff] at free
  exact h.register (List.all_eq_true.1 known) (register_eq_ok_iff.2 ⟨free.1, free.2, rfl⟩)

/-- The registry with further types, one after the other. -/
def addAll (R : Registry) : List Entry → Registry
  | [] => R
  | e :: es => (R.add e).addAll es

/-- Whether each of the types comes after all that it stands above, under a free name. -/
def admits (R : Registry) : List Entry → Bool
  | [] => true
  | e :: es =>
    e.supertypes.all R.contains && !(R.containsName e.name || R.contains e.id) &&
      (R.add e).admits es

theorem Grown.addAll {R : Registry} (h : Grown R) {es : List Entry}
    (admitted : R.admits es = true) : Grown (R.addAll es) := by
  induction es generalizing R with
  | nil => exact h
  | cons e es ih =>
    obtain ⟨first, rest⟩ := Bool.and_eq_true_iff.1 admitted
    obtain ⟨known, free⟩ := Bool.and_eq_true_iff.1 first
    exact ih (h.add known (Bool.eq_false_of_not_eq_true' free)) rest

theorem grown_shapes : Grown shapes := by
  refine Grown.add (Grown.add (Grown.add .host ?_ ?_) ?_ ?_) ?_ ?_ <;> decide +kernel

end TypeSynthesis.Registry
