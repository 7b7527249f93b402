import Mathlib.Logic.Relation
import TypeSynthesis.Registry.Hierarchy

/-!
# What stands above a type

A definition names the types directly above it: a class its base and its interfaces, an interface
those that it extends.  Every answer of the hierarchy is a path of such steps.

* `Entry.supertypes`, `Registry.Above`: the steps;
* `Registry.Derives`, `Registry.Extends`: those from a class to its base, and from an interface to
  those that it extends;
* `above_of_mem_ancestors`, `above_of_mem_allInterfaces`: what the searches find lies above;
* `subtype_cases`: the ways in which one type can be a subtype of another.
-/

namespace TypeSynthesis

open Relation

/-- The types that a definition names as directly above it. -/
def Entry.supertypes : Entry → List TypeId
  | .classType c => c.base?.toList ++ c.interfaces
  | .interfaceType i => i.bases
  | _ => []

namespace Registry

/-- The definition of the first type names the second as directly above it. -/
def Above (R : Registry) (t u : TypeId) : Prop := ∃ e, R.get? t = some e ∧ u ∈ e.supertypes

/-- The second type is the registered base class of the first. -/
def Derives (R : Registry) (t b : TypeId) : Prop := R.baseClass? t = some b

/-- The first type is an interface that names the second as one it extends. -/
def Extends (R : Registry) (t i : TypeId) : Prop := i ∈ R.baseInterfaces t

variable {R : Registry}

/-! ### Steps -/

theorem get?_of_class? {t : TypeId} {c : ClassType} (h : R.class? t = some c) :
    R.get? t = some (.classType c) := by
  unfold class? at h
  cases he : R.get? t with
  | none => rw [he] at h; cases h
  | some e => rw [he] at h; cases e <;> cases h; rfl

theorem get?_of_interface? {t : TypeId} {i : InterfaceType} (h : R.interface? t = some i) :
    R.get? t = some (.interfaceType i) := by
  unfold interface? at h
  cases he : R.get? t with
  | none => rw [he] at h; cases h
  | some e => rw [he] at h; cases e <;> cases h; rfl

theorem above_base {t b : TypeId} {c : ClassType} (h : R.get? t = some (.classType c))
    (hb : c.base? = some b) : R.Above t b := by
  refine ⟨_, h, List.mem_append_left _ ?_⟩
  rw [hb]
  exact List.mem_singleton_self b

theorem above_interface {t i : TypeId} {c : ClassType} (h : R.get? t = some (.classType c))
    (hi : i ∈ c.interfaces) : R.Above t i :=
  ⟨_, h, List.mem_append_right _ hi⟩

/-- A step goes from a class to the class that it names as its base. -/
theorem derives_iff {t b : TypeId} : R.Derives t b ↔
    ∃ c d, R.class? t = some c ∧ c.base? = some b ∧ R.class? b = some d := by
  unfold Derives baseClass?
  constructor
  · intro h
    split at h
    · rename_i b' hb
      obtain ⟨c, hc, hb⟩ := Option.bind_eq_some_iff.1 hb
      split at h
      · rename_i registered
        cases h
        obtain ⟨d, hd⟩ := Option.isSome_iff_exists.1 registered
        exact ⟨c, d, hc, hb, hd⟩
      · cases h
    · cases h
  · rintro ⟨c, d, hc, hb, hd⟩
    simp [hc, hb, hd]

theorem above_of_derives {t b : TypeId} (h : R.Derives t b) : R.Above t b := by
  obtain ⟨c, -, hc, hb, -⟩ := derives_iff.1 h
  exact above_base (get?_of_class? hc) hb

theorem above_of_extends {t i : TypeId} (h : R.Extends t i) : R.Above t i := by
  unfold Extends baseInterfaces at h
  split at h
  · rename_i j hj
    exact ⟨_, get?_of_interface? hj, h⟩
  · cases h

/-! ### Searches -/

theorem above_of_mem_ancestorsUpTo {n : Nat} {t u : TypeId} (h : u ∈ R.ancestorsUpTo n t) :
    TransGen R.Above t u := by
  induction n generalizing t with
  | zero => cases h
  | succ n ih =>
    unfold ancestorsUpTo at h
    split at h
    · rename_i b hb
      have step := above_of_derives hb
      rcases List.mem_cons.1 h with rfl | h
      · exact .single step
      · exact .head step (ih h)
    · cases h

theorem above_of_mem_ancestors {t u : TypeId} (h : u ∈ R.ancestors t) : TransGen R.Above t u :=
  above_of_mem_ancestorsUpTo h

/-- What a fold of searches finds, one of the searches finds. -/
theorem mem_foldl_search {P : TypeId → TypeId → Prop} {f : List TypeId → TypeId → List TypeId}
    (hf : ∀ found t u, u ∈ f found t → u ∈ found ∨ P t u) {is found : List TypeId} {u : TypeId}
    (h : u ∈ is.foldl f found) : u ∈ found ∨ ∃ i ∈ is, P i u := by
  induction is generalizing found with
  | nil => exact .inl h
  | cons i is ih =>
    rcases ih h with h | ⟨j, hj, h⟩
    · rcases hf _ _ _ h with h | h
      · exact .inl h
      · exact .inr ⟨i, List.mem_cons_self, h⟩
    · exact .inr ⟨j, List.mem_cons_of_mem _ hj, h⟩

/-- A visit finds, besides what was found before, only the interface itself and those that it
extends. -/
theorem mem_visit {n : Nat} {found : List TypeId} {t u : TypeId} (h : u ∈ R.visit n found t) :
    u ∈ found ∨ ReflTransGen R.Extends t u := by
  induction n generalizing found t u with
  | zero => exact .inl h
  | succ n ih =>
    unfold visit at h
    split at h
    · exact .inl h
    · -- found below one of the direct bases, or before these were visited
      rcases mem_foldl_search (P := ReflTransGen R.Extends) (fun _ _ _ => ih) h with
        h | ⟨i, hi, h⟩
      · rcases List.mem_append.1 h with h | h
        · exact .inl h
        · rw [List.mem_singleton.1 h]
          exact .inr .refl
      · exact .inr (.head hi h)

theorem above_of_mem_namedInterfaces {t i : TypeId} (h : i ∈ R.namedInterfaces t) :
    TransGen R.Above t i := by
  unfold namedInterfaces at h
  split at h
  · rename_i c hc
    obtain ⟨d, hd, hi⟩ := List.mem_flatMap.1 h
    obtain ⟨u, hu, hd⟩ := List.mem_filterMap.1 hd
    have step := above_interface (get?_of_class? hd) hi
    rcases List.mem_cons.1 hu with rfl | hu
    · exact .single step
    · exact .tail (above_of_mem_ancestors hu) step
  · rename_i j hj
    exact .single ⟨_, hj, h⟩
  · cases h

/-- Every interface that is found is one that the type names, or one that such an interface
extends. -/
theorem extends_of_mem_allInterfaces {t u : TypeId} (h : u ∈ R.allInterfaces t) :
    ∃ i ∈ R.namedInterfaces t, ReflTransGen R.Extends i u := by
  unfold allInterfaces at h
  rcases mem_foldl_search (P := ReflTransGen R.Extends) (fun _ _ _ => mem_visit) h with h | h
  · cases h
  · exact h

theorem above_of_mem_allInterfaces {t u : TypeId} (h : u ∈ R.allInterfaces t) :
    TransGen R.Above t u := by
  obtain ⟨i, hi, h⟩ := extends_of_mem_allInterfaces h
  exact (above_of_mem_namedInterfaces hi).trans_left
    (ReflTransGen.mono (fun _ _ => above_of_extends) _ _ h)

/-! ### Subtypes -/

/-- A proper subtype is a class or an interface, and what it is a subtype of is the root type or
lies above it. -/
theorem subtype_cases {t u : TypeId} (h : R.isSubtype t u = true) (hne : t ≠ u) :
    (∃ e, R.get? t = some e ∧ e.isReference = true) ∧
      (u = TypeId.object ∨ TransGen R.Above t u) := by
  unfold isSubtype at h
  rw [beq_false_of_ne hne, Bool.false_or] at h
  split at h
  · cases h
  · rename_i e he
    split at h
    · rename_i hu
      exact ⟨⟨e, he, h⟩, .inl hu⟩
    · split at h
      · rename_i c
        refine ⟨⟨_, he, rfl⟩, .inr ?_⟩
        simp only [Bool.or_eq_true, beq_iff_eq, List.contains_iff_mem] at h
        obtain (hb | ha) | hi := h
        · exact .single (above_base he hb)
        · exact above_of_mem_ancestors ha
        · exact above_of_mem_allInterfaces hi
      · refine ⟨⟨_, he, rfl⟩, .inr ?_⟩
        exact above_of_mem_allInterfaces (List.contains_iff_mem.1 h)
      · cases h

/-- Nothing but itself is above a type whose definition names no other. -/
theorem eq_of_subtype_of_top {t u : TypeId} (h : R.isSubtype t u = true)
    (htop : ∀ v, ¬ R.Above t v) (hu : u ≠ TypeId.object) : t = u := by
  by_cases hne : t = u
  · exact hne
  · rcases (subtype_cases h hne).2 with h | h
    · exact absurd h hu
    · obtain ⟨v, hv, -⟩ := TransGen.head'_iff.1 h
      exact absurd hv (htop v)

end Registry

end TypeSynthesis
