import TypeSynthesis.Proofs.Registry.Naming

/-!
# Growth by pointer types

Reading type names registers pointer types and nothing else.

* `Registry.Points R S`: further pointer types lead from the registry `R` to the registry `S`;
* `Registry.Points.containsName_eq`: they take no name that does not end in a star;
* `Registry.Points.isInterface_eq`: they make no type an interface, and displace none where
  identities are distinct;
* `Session.points_pointing`: the parts of a synthesis that read type names take a session along
  `Session.Points`.
-/

namespace TypeSynthesis

namespace Registry

/-- A registry and those that further pointer types make of it, each added under a free name. -/
inductive Points (R : Registry) : Registry → Prop
  | refl : Points R R
  | add {S : Registry} {p : PointerType} (h : Points R S) (free : S.containsName p.name = false) :
      Points R (S.add (.pointerType p))

variable {R S T : Registry} {name : String} {t : TypeId}

theorem Points.trans (h : R.Points S) (h' : S.Points T) : R.Points T := by
  induction h' with
  | refl => exact h
  | add _ free ih => exact ih.add free

theorem Points.grows (h : R.Points S) : R.Grows S := by
  induction h with
  | refl => exact .refl
  | add _ free ih => exact ih.add free

theorem points_provide (R : Registry) (p : PointerType) :
    R.Points (R.provide (.pointerType p)) := by
  unfold provide
  split
  · exact .refl
  · rename_i free
    exact Points.refl.add (Bool.eq_false_iff.2 free)

/-- A name that does not end in a star is free afterwards exactly if it was before. -/
theorem Points.containsName_eq (h : R.Points S) (starless : name.toList.getLast? ≠ some '*') :
    S.containsName name = R.containsName name := by
  induction h with
  | refl => rfl
  | @add S p _ _ ih =>
    have other : name ≠ (Entry.pointerType p).name := by
      rintro rfl
      exact starless (getLast?_pointerName p)
    rw [containsName_add, beq_false_of_ne other, Bool.false_or, ih]

/-- The interfaces are the same afterwards, where no pointer type has displaced one. -/
theorem Points.isInterface_eq (h : R.Points S) (sound : R.Sound) (distinct : S.Distinct) :
    S.isInterface t = R.isInterface t := by
  induction h with
  | refl => rfl
  | @add S p h free ih =>
    rw [← ih (distinct.of_grows (Grows.refl.add free))]
    have unknown : S.get? p.id = none :=
      contains_eq_false_iff.1
        ((sound.of_grows h.grows).free_of_distinct (e := .pointerType p) free distinct)
    unfold isInterface interface?
    rw [get?_add]
    split
    · rename_i same
      rw [show t = p.id from same, unknown]
      rfl
    · rfl

end Registry

/-- The second session has pointer types besides what the first has. -/
def Session.Points (s t : Session) : Prop := s.registry.Points t.registry

instance : IsPreorder Session Session.Points where
  refl _ := .refl
  trans _ _ _ h h' := Registry.Points.trans h h'

theorem Session.points_pointing : Session.Pointing Session.Points where
  pointer s p := s.registry.points_provide p

end TypeSynthesis
