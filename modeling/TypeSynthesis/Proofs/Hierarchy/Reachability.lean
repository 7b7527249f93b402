import TypeSynthesis.Proofs.Hierarchy.Grown
import TypeSynthesis.Proofs.Hierarchy.Preorder

/-!
# The interfaces of a type are those within reach

Interfaces may extend one another in circles, be reached in several ways, and not be registered at
all.  The search for them ends nevertheless, with each of them once.

* `Registry.rootsAlong`: what the classes of a chain name, or what an interface extends, from which
  the search starts;
* `Registry.Calls`, `wellFounded_calls`: a visit calls for others, and for finitely many in all, as
  each finds one more registered type;
* `visit_eq`: the bounded visit is the recursion without a bound;
* `allInterfaces_reachable`: the interfaces of a type are those that can be reached from the roots,
  each once, in depth-first preorder.
-/

namespace TypeSynthesis.Registry

open Relation

variable {R : Registry} {n : Nat} {t u : TypeId} {found found' ts : List TypeId}

/-! ### Roots -/

/-- What a class and the classes of the chain above it name, class by class, or what an interface
extends. -/
def rootsAlong (R : Registry) (t : TypeId) (chain : List TypeId) : List TypeId :=
  ((t :: chain).filterMap R.class?).flatMap ClassType.interfaces ++ R.baseInterfaces t

theorem lineage_of_not_class (h : R.class? t = none) : R.lineage t = [] := by
  have top : R.baseClass? t = none := by simp [baseClass?, h]
  simp [lineage, ancestors, ancestorsUpTo_of_top top, h]

/-- Along its ancestors, a type has the interfaces that it names. -/
theorem rootsAlong_ancestors (R : Registry) (t : TypeId) :
    R.rootsAlong t (R.ancestors t) = R.namedInterfaces t := by
  show (R.lineage t).flatMap ClassType.interfaces ++ R.baseInterfaces t = _
  cases hc : R.class? t with
  | some c =>
    have ht := get?_of_class? hc
    simp [namedInterfaces, baseInterfaces, interface?, ht, Entry.asInterface?]
  | none =>
    rw [lineage_of_not_class hc]
    cases ht : R.get? t with
    | none => simp [namedInterfaces, baseInterfaces, interface?, ht]
    | some e =>
      cases e with
      | classType c => simp [class?, ht, Entry.asClass?] at hc
      | _ => simp [namedInterfaces, baseInterfaces, interface?, ht, Entry.asInterface?]

/-! ### Visits end -/

/-- While the interface `outer.2` is visited after `outer.1` was found, the visit of `inner.2` is
called for, after `inner.1`. -/
def Calls (R : Registry) (inner outer : List TypeId × TypeId) : Prop :=
  outer.2 ∉ outer.1 ∧ R.Extends outer.2 inner.2 ∧ outer.1 ++ [outer.2] ⊆ inner.1

/-- No visit calls for others without end: each time, fewer registered types are left. -/
theorem wellFounded_calls (R : Registry) : WellFounded R.Calls := by
  refine Subrelation.wf (fun {inner outer} h => ?_)
    (measure fun call : List TypeId × TypeId => R.unfound call.1).wf
  obtain ⟨new, extends_, more⟩ := h
  calc R.unfound inner.1
    _ ≤ R.unfound (outer.1 ++ [outer.2]) := unfound_le_of_subset more
    _ < R.unfound outer.1 := unfound_append_lt (contains_of_extends extends_) new

/-- Under a bound that exceeds what is left to be found, a visit is the recursion without one. -/
theorem visit_eq (fuel : R.unfound found < n) :
    R.visit n found t =
      if t ∈ found then found else (R.baseInterfaces t).foldl (R.visit n) (found ++ [t]) := by
  rw [visit_stable fuel (Nat.lt_succ_of_lt fuel)]
  rfl

/-! ### Each interface once -/

theorem Preorder.nodup (h : R.Preorder found ts found') (nodup : found.Nodup) : found'.Nodup := by
  induction h with
  | done => exact nodup
  | skip _ _ ih => exact ih nodup
  | @enter found _ _ t new _ ih =>
    refine ih (List.nodup_append.2 ⟨nodup, List.nodup_singleton t, ?_⟩)
    rintro a ha b hb rfl
    exact new (List.mem_singleton.1 hb ▸ ha)

/-- Where no class is above itself, the walk from a class to the root ends, with the ancestors.  The
interfaces of a type are then those that can be reached from what the class and its ancestors name,
or from what an interface extends.  Each of them comes once, in depth-first preorder, and the visits
that find them end without a bound, whatever the interfaces extend. -/
theorem allInterfaces_reachable (acyclic : R.Acyclic) (t : TypeId) :
    R.BaseChain t (R.ancestors t) ∧
    WellFounded R.Calls ∧
    (∀ found i, R.visit (R.size + 1) found i =
      if i ∈ found then found
      else (R.baseInterfaces i).foldl (R.visit (R.size + 1)) (found ++ [i])) ∧
    R.allInterfaces t = (R.rootsAlong t (R.ancestors t)).foldl (R.visit (R.size + 1)) [] ∧
    (R.allInterfaces t).Nodup ∧
    (∀ u, u ∈ R.allInterfaces t ↔
      ∃ i ∈ R.rootsAlong t (R.ancestors t), ReflTransGen R.Extends i u) ∧
    ∀ l, R.Preorder [] (R.rootsAlong t (R.ancestors t)) l ↔ l = R.allInterfaces t := by
  have walk := R.preorder_allInterfaces t
  rw [rootsAlong_ancestors]
  exact ⟨baseChain_ancestors acyclic t, R.wellFounded_calls,
    fun found i => visit_eq (Nat.lt_succ_of_le (R.unfound_le_size found)), rfl,
    walk.nodup List.nodup_nil, fun u => mem_allInterfaces_iff,
    fun l => ⟨fun h => h.unique walk, fun h => h ▸ walk⟩⟩

/-! ### Vessels that move and float -/

/-- Vessels move and what moves is a vessel, both float, and what moves extends an interface that
nobody registers.  A ferry is a vessel and a boat, which floats by itself. -/
def vessels : Registry := host.addAll
  [.interfaceType { name := "IFloats" },
    .interfaceType { name := "IVessel", bases := [.ofName "IMoves", .ofName "IFloats"] },
    .interfaceType
      { name := "IMoves", bases := [.ofName "IVessel", .ofName "IFloats", .ofName "IDrifts"] },
    .classType { name := "Boat", base? := some .object, interfaces := [.ofName "IFloats"] },
    .classType { name := "Ferry", base? := some (.ofName "Boat"),
                 interfaces := [.ofName "IVessel"] }]

/-- Floating is reached in three ways, and the unregistered interface past a circle. -/
theorem allInterfaces_reachable_ferry :
    vessels.Acyclic ∧
    vessels.BaseChain (.ofName "Ferry") [.ofName "Boat", .object] ∧
    vessels.Preorder [] [.ofName "IVessel", .ofName "IFloats"]
      [.ofName "IVessel", .ofName "IMoves", .ofName "IFloats", .ofName "IDrifts"] ∧
    (vessels.allInterfaces (.ofName "Ferry")).Nodup ∧
    ∃ i ∈ [TypeId.ofName "IVessel", .ofName "IFloats"],
      ReflTransGen vessels.Extends i (.ofName "IDrifts") := by
  have acyclic : vessels.Acyclic := acyclic_of_ordered (by decide +kernel)
  have ancestors : vessels.ancestors (.ofName "Ferry") = [.ofName "Boat", .object] := by
    decide +kernel
  have roots : vessels.rootsAlong (.ofName "Ferry") [.ofName "Boat", .object] =
      [.ofName "IVessel", .ofName "IFloats"] := by
    decide +kernel
  have found : vessels.allInterfaces (.ofName "Ferry") =
      [.ofName "IVessel", .ofName "IMoves", .ofName "IFloats", .ofName "IDrifts"] := by
    decide +kernel
  obtain ⟨chain, -, -, -, nodup, reached, preorder⟩ :=
    allInterfaces_reachable acyclic (.ofName "Ferry")
  rw [ancestors, roots] at reached preorder
  rw [ancestors] at chain
  have drifts : TypeId.ofName "IDrifts" ∈ vessels.allInterfaces (.ofName "Ferry") := by
    rw [found]
    simp
  exact ⟨acyclic, chain, (preorder _).2 found.symm, nodup, (reached _).1 drifts⟩

end TypeSynthesis.Registry
