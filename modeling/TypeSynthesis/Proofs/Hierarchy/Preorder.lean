import TypeSynthesis.Proofs.Hierarchy.Search

/-!
# The order in which interfaces are found

Depth-first preorder, as a walk that keeps the interfaces still to be entered.

* `Registry.Preorder`: an interface that was found before is skipped, and another one is entered
  before what else is to be entered;
* `preorder_visit`: a visit takes such a walk through an interface and all it extends;
* `preorder_allInterfaces`: the interfaces of a type are in depth-first preorder from those that it
  names;
* `preorder_cons_allInterfaces`: with an interface that does not extend itself, however far, before
  them, they are in depth-first preorder from it.
-/

namespace TypeSynthesis.Registry

variable {R : Registry} {n : Nat} {t : TypeId} {found found' ts : List TypeId}

/-- In depth-first preorder from the interfaces `ts`, after those that were found before, the
interfaces are `found'`. -/
inductive Preorder (R : Registry) : List TypeId → List TypeId → List TypeId → Prop
  | done {found : List TypeId} : Preorder R found [] found
  | skip {found ts found' : List TypeId} {t : TypeId} (old : t ∈ found)
      (rest : Preorder R found ts found') : Preorder R found (t :: ts) found'
  | enter {found ts found' : List TypeId} {t : TypeId} (new : t ∉ found)
      (rest : Preorder R (found ++ [t]) (R.baseInterfaces t ++ ts) found') :
      Preorder R found (t :: ts) found'

namespace Preorder

theorem subset (h : R.Preorder found ts found') : found ⊆ found' := by
  induction h with
  | done => exact List.Subset.refl _
  | skip _ _ ih => exact ih
  | enter _ _ ih => exact List.Subset.trans (List.subset_append_left _ _) ih

/-- There is one depth-first preorder. -/
theorem unique {found'' : List TypeId} (h : R.Preorder found ts found')
    (h' : R.Preorder found ts found'') : found' = found'' := by
  induction h with
  | done => cases h'; rfl
  | skip old _ ih =>
    cases h' with
    | skip _ rest => exact ih rest
    | enter new _ => exact absurd old new
  | enter new _ ih =>
    cases h' with
    | skip old _ => exact absurd old new
    | enter _ rest => exact ih rest

/-- An interface that is never met may as well have been found before. -/
theorem cons (h : R.Preorder found ts found') (unmet : t ∉ found') :
    R.Preorder (t :: found) ts (t :: found') := by
  induction h with
  | done => exact .done
  | skip old _ ih => exact .skip (List.mem_cons_of_mem t old) (ih unmet)
  | @enter found ts found' u new rest ih =>
    have other : u ≠ t := by
      rintro rfl
      exact unmet (rest.subset (by simp))
    exact .enter (by simp [other, new]) (ih unmet)

end Preorder

/-- A visit whose bound exceeds what is left to be found takes the walk through an interface and all
it extends, and leaves the rest of the walk as it is.  The induction is on the bound, as for
`closes_visit`. -/
theorem preorder_visit (fuel : R.unfound found < n)
    (rest : R.Preorder (R.visit n found t) ts found') : R.Preorder found (t :: ts) found' := by
  induction n generalizing found t ts with
  | zero => exact absurd fuel (Nat.not_lt_zero _)
  | succ n ih =>
    unfold visit at rest
    split at rest
    · rename_i old
      exact .skip old rest
    · rename_i new
      refine .enter new ?_
      have visits {is before : List TypeId} (h : ∀ i ∈ is, R.Extends t i)
          (more : found ++ [t] ⊆ before)
          (rest : R.Preorder (is.foldl (R.visit n) before) ts found') :
          R.Preorder before (is ++ ts) found' := by
        induction is generalizing before with
        | nil => exact rest
        | cons i is ihs =>
          have less := unfound_append_lt (contains_of_extends (h i List.mem_cons_self)) new
          have bound := unfound_le_of_subset (R := R) more
          refine ih (by omega) (ihs (fun j hj => h j (List.mem_cons_of_mem i hj)) ?_ rest)
          exact List.Subset.trans more (R.subset_visit n before i)
      exact visits (fun _ hi => hi) (List.Subset.refl _) rest

/-- The interfaces of a type are in depth-first preorder from those that it names. -/
theorem preorder_allInterfaces (R : Registry) (t : TypeId) :
    R.Preorder [] (R.namedInterfaces t) (R.allInterfaces t) := by
  have visits (is found : List TypeId) :
      R.Preorder found is (is.foldl (R.visit (R.size + 1)) found) := by
    induction is generalizing found with
    | nil => exact .done
    | cons i is ih =>
      exact preorder_visit (Nat.lt_succ_of_le (R.unfound_le_size found)) (ih _)
  exact visits _ _

theorem namedInterfaces_of_isInterface (h : R.isInterface t = true) :
    R.namedInterfaces t = R.baseInterfaces t := by
  obtain ⟨i, hi⟩ := Option.isSome_iff_exists.1 h
  unfold namedInterfaces baseInterfaces
  rw [get?_of_interface? hi, hi]

/-- An interface that does not extend itself, and all that it extends, are in depth-first preorder
from it. -/
theorem preorder_cons_allInterfaces (h : R.isInterface t = true) (acyclic : t ∉ R.allInterfaces t) :
    R.Preorder [] [t] (t :: R.allInterfaces t) := by
  have walk := (R.preorder_allInterfaces t).cons acyclic
  rw [namedInterfaces_of_isInterface h, ← List.append_nil (R.baseInterfaces t)] at walk
  exact .enter List.not_mem_nil walk

end TypeSynthesis.Registry
