import TypeSynthesis.Proofs.Registry.Operations

/-!
# Names that are resolved again

A written name that has denoted a type keeps denoting it, and the pointer types that it mentions
are not registered twice.

* `Registry.pointerTo_again`: a pointer type that is registered is found by its name;
* `Registry.resolve_again`: a name resolves to the same type again, and leaves the registry as it
  is.

A pointer type is found by the name of its pointee with a star.  That name stays the same because
identities are distinct, since otherwise another type could have taken the pointee's place.
-/

namespace TypeSynthesis.Registry

variable {R S last : Registry} {t : TypeRef} {u : TypeId}

theorem typeName_of_grows (sound : R.Sound) (grows : R.Grows S) (distinct : S.Distinct)
    (known : R.contains u = true) : S.typeName u = R.typeName u := by
  unfold typeName
  rw [get?_eq_of_grows sound grows distinct fun _ => known]

theorem WellNamed.of_grows (sound : R.Sound) (grows : R.Grows S) (distinct : S.Distinct)
    (h : S.WellNamed) : R.WellNamed := by
  obtain ⟨es, adds⟩ := exists_adds_of_grows sound grows distinct
  exact fun t e he => h (adds.get? he)

/-! ### Pointer types -/

/-- A type that is provided takes its own name and no other. -/
theorem containsName_provide_iff {e : Entry} {name : String} :
    (R.provide e).containsName name = true ↔ R.containsName name = true ∨ e.name = name := by
  unfold provide
  split
  · rename_i taken
    exact (or_iff_left_of_imp fun same => same ▸ taken).symm
  · rw [containsName_add, Bool.or_eq_true, beq_iff_eq, or_comm, @eq_comm _ name]

theorem containsName_provide (R : Registry) (e : Entry) :
    (R.provide e).containsName e.name = true := containsName_provide_iff.2 (.inr rfl)

/-- The name of a pointer type ends in a star, and not in a bracket. -/
theorem getLast?_pointerName (p : PointerType) : p.name.toList.getLast? = some '*' := by
  show (p.pointeeName ++ "*").toList.getLast? = some '*'
  rw [String.toList_append]
  exact List.getLast?_concat ..

/-- A name with a star is the name of a type whose identity comes from this name. -/
theorem names_get?_provide_pointer {p : PointerType} (sound : R.Sound)
    (distinct : (R.provide (.pointerType p)).Distinct)
    (named : (R.provide (.pointerType p)).WellNamed) :
    (R.provide (.pointerType p)).names.get? p.name = some p.id := by
  have sound' := sound.of_grows (R.grows_provide (.pointerType p))
  obtain ⟨t, ht⟩ := containsName_eq_true_iff.1 (R.containsName_provide (.pointerType p))
  obtain ⟨e, he, name⟩ := ((sound'.indexed distinct).inverse _ t).1 ht
  rcases named he with fromName | bracket
  · rw [← sound'.filed he, fromName, name] at ht
    exact ht
  · have bracket : p.name.toList.getLast? = some '>' := by rwa [name] at bracket
    rw [getLast?_pointerName] at bracket
    cases bracket

theorem contains_provide_pointer {p : PointerType} (sound : R.Sound)
    (distinct : (R.provide (.pointerType p)).Distinct)
    (named : (R.provide (.pointerType p)).WellNamed) :
    (R.provide (.pointerType p)).contains p.id = true :=
  (sound.of_grows (R.grows_provide _)).known (names_get?_provide_pointer sound distinct named)

/-- A pointer type that is registered is found by its name. -/
theorem pointerTo_again (sound : R.Sound) (known : R.contains u = true)
    (grows : (R.pointerTo u).2.Grows last) (distinct : last.Distinct) :
    last.pointerTo u = ((R.pointerTo u).1, last) := by
  have whole : R.Grows last := (R.grows_provide _).trans grows
  have taken := containsName_of_grows grows (R.containsName_provide _)
  unfold pointerTo
  rw [typeName_of_grows sound whole distinct known]
  dsimp only
  unfold provide
  rw [if_pos taken]

/-! ### Written names -/

theorem referenceTo_eq_some {x : Option TypeRef × Registry} (h : referenceTo x = (some t, S)) :
    ∃ u, x = (some u, S) ∧ u.isByRef = false ∧ t = .reference u.id := by
  rcases x with ⟨_ | u, R⟩
  · cases h
  · unfold referenceTo at h
    dsimp only at h
    split at h
    · cases h
    · rename_i byValue
      cases h
      exact ⟨u, rfl, Bool.eq_false_iff.2 byValue, rfl⟩

theorem starOf_eq_some {x : Option TypeRef × Registry} (h : starOf x = (some t, S)) :
    ∃ u R, x = (some u, R) ∧ u.isByRef = false ∧ t = .value (R.pointerTo u.id).1 ∧
      S = (R.pointerTo u.id).2 := by
  rcases x with ⟨_ | u, R⟩
  · cases h
  · unfold starOf at h
    dsimp only at h
    split at h
    · cases h
    · rename_i byValue
      cases h
      exact ⟨u, R, rfl, Bool.eq_false_iff.2 byValue, rfl, rfl⟩

/-- A name that is listed denotes the same type again, which is registered. -/
theorem names_get?_again {name : String} (sound : R.Sound) (grows : R.Grows last)
    (h : (R.names.get? name).map TypeRef.value = some t) :
    (last.names.get? name).map TypeRef.value = some t ∧ R.contains t.id = true := by
  obtain ⟨u, hu, rfl⟩ := Option.map_eq_some_iff.1 h
  rw [names_get?_of_grows grows hu]
  exact ⟨rfl, sound.known hu⟩

/-- Characters that denoted a type denote it again, with every pointer type in its place.  The type
is registered where it was first denoted, which is what the next star asks for. -/
theorem resolveReversed_again {cs : List Char} (sound : R.Sound)
    (h : R.resolveReversed cs = (some t, S)) (grows : S.Grows last) (distinct : last.Distinct)
    (named : last.WellNamed) :
    last.resolveReversed cs = (some t, last) ∧ S.contains t.id = true := by
  induction cs generalizing t S with
  | nil =>
    obtain ⟨listed, rfl⟩ := Prod.mk.inj h
    obtain ⟨again, known⟩ := names_get?_again sound grows listed
    exact ⟨congrArg (·, last) again, known⟩
  | cons c cs ih =>
    unfold resolveReversed at h ⊢
    split at h
    · rename_i blank
      rw [if_pos blank]
      exact ih h grows
    rename_i blank
    rw [if_neg blank]
    split at h
    · rename_i ampersand
      rw [if_pos ampersand]
      obtain ⟨u, inner, byValue, rfl⟩ := referenceTo_eq_some h
      obtain ⟨again, known⟩ := ih inner grows
      rw [again]
      exact ⟨if_neg (Bool.eq_false_iff.1 byValue), known⟩
    rename_i ampersand
    rw [if_neg ampersand]
    split at h
    · rename_i star
      rw [if_pos star]
      obtain ⟨u, R₁, inner, byValue, rfl, rfl⟩ := starOf_eq_some h
      have grown := (provides_resolveReversed R cs).grows
      rw [inner] at grown
      have step : R₁.Grows (R₁.pointerTo u.id).2 := R₁.grows_provide _
      obtain ⟨again, known⟩ := ih inner (step.trans grows)
      have sound₁ := sound.of_grows grown
      have sound₂ := sound₁.of_grows step
      refine ⟨?_, contains_provide_pointer sound₁ (distinct.of_grows grows)
        (named.of_grows sound₂ grows distinct)⟩
      rw [again]
      unfold starOf
      dsimp only
      rw [if_neg (Bool.eq_false_iff.1 byValue), pointerTo_again sound₁ known grows distinct]
    · rename_i star
      rw [if_neg star]
      obtain ⟨listed, rfl⟩ := Prod.mk.inj h
      obtain ⟨again, known⟩ := names_get?_again sound grows listed
      exact ⟨congrArg (·, last) again, known⟩

/-- A written name denotes the same type again. -/
theorem resolve_again {text : String} (sound : R.Sound) (h : R.resolve text = (some t, S))
    (grows : S.Grows last) (distinct : last.Distinct) (named : last.WellNamed) :
    last.resolve text = (some t, last) :=
  (resolveReversed_again sound h grows distinct named).1

end TypeSynthesis.Registry
