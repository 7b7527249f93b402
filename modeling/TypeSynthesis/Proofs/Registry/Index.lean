import Mathlib.Data.List.Nodup
import TypeSynthesis.Registry.Basic

/-!
# The two indices of the registry

A type is found by its identity and by its name, and the two ways must agree.  Types are only ever
added, each under a name that is free.

* `Registry.Grows R S`: further types lead from the registry `R` to the registry `S`;
* `Registry.Sound`: what holds of the indices whatever is registered;
* `Registry.Distinct`: no two names share an identity;
* `Registry.Indexed`: the indices are inverse to each other;
* `Registry.Adds R es S`: the types `es` lead from `R` to `S`, each added under a name and an
  identity that are free.

Growth alone keeps a registry sound.  Where it also ends in distinct identities, no type has
displaced another on the way, so that growth was by additions in the strict sense
(`exists_adds_of_grows`).
-/

namespace TypeSynthesis

theorem Table.mem_of_lookup_eq_some {κ ν : Type} [DecidableEq κ] {l : List (κ × ν)} {k : κ} {v : ν}
    (h : l.lookup k = some v) : (k, v) ∈ l := by
  induction l with
  | nil => cases h
  | cons p l ih =>
    by_cases hk : k = p.1
    · rw [hk, List.lookup_cons_self] at h
      cases h
      rw [hk]
      exact List.mem_cons_self
    · rw [lookup_cons_of_ne hk] at h
      exact List.mem_cons_of_mem _ (ih h)

namespace Registry

variable {R S T : Registry} {e : Entry} {es : List Entry} {t : TypeId} {name : String}

theorem mem_entries (h : R.get? t = some e) : e ∈ R.entries :=
  List.mem_map_of_mem (f := (·.2)) (Table.mem_of_lookup_eq_some h)

/-! ### Growth -/

/-- A registry and those that further types make of it, each added under a free name. -/
inductive Grows (R : Registry) : Registry → Prop
  | refl : Grows R R
  | add {S : Registry} {e : Entry} (h : Grows R S) (free : S.containsName e.name = false) :
      Grows R (S.add e)

theorem Grows.trans {R S T : Registry} (h : R.Grows S) (h' : S.Grows T) : R.Grows T := by
  induction h' with
  | refl => exact h
  | add _ free ih => exact ih.add free

theorem grows_provide (R : Registry) (e : Entry) : R.Grows (R.provide e) := by
  unfold provide
  split
  · exact .refl
  · rename_i free
    exact Grows.refl.add (by simpa using free)

theorem grows_register {R S : Registry} {e : Entry} (h : R.register e = .ok S) : R.Grows S := by
  obtain ⟨free, -, rfl⟩ := register_eq_ok_iff.1 h
  exact Grows.refl.add free

theorem containsName_add (R : Registry) (e : Entry) (name : String) :
    (R.add e).containsName name = (name == e.name || R.containsName name) := by
  change ((R.names.insert e.name e.id).get? name).isSome = _
  rw [Table.get?_insert]
  by_cases h : name = e.name
  · simp [h]
  · simp [h, containsName, Table.contains]

/-- A name that is taken stays taken. -/
theorem containsName_of_grows {R S : Registry} (h : R.Grows S) {name : String}
    (hn : R.containsName name = true) : S.containsName name = true := by
  induction h with
  | refl => exact hn
  | add _ _ ih => rw [containsName_add, ih, Bool.or_true]

/-! ### One more type -/

theorem names_get?_add (R : Registry) (e : Entry) (name : String) :
    (R.add e).names.get? name = if name = e.name then some e.id else R.names.get? name :=
  Table.get?_insert R.names e.name name e.id

theorem contains_eq_true_iff : R.contains t = true ↔ ∃ e, R.get? t = some e :=
  Option.isSome_iff_exists

theorem contains_eq_false_iff : R.contains t = false ↔ R.get? t = none := by
  unfold contains Table.contains get?
  exact Option.isSome_eq_false_iff.trans Option.isNone_iff_eq_none

theorem containsName_eq_false_iff : R.containsName name = false ↔ R.names.get? name = none := by
  unfold containsName Table.contains
  exact Option.isSome_eq_false_iff.trans Option.isNone_iff_eq_none

theorem containsName_eq_true_iff :
    R.containsName name = true ↔ ∃ t, R.names.get? name = some t :=
  Option.isSome_iff_exists

/-- An identity that is taken stays taken. -/
theorem contains_of_grows (h : R.Grows S) (ht : R.contains t = true) : S.contains t = true := by
  induction h with
  | refl => exact ht
  | @add S e _ _ ih =>
    obtain ⟨e', he'⟩ := contains_eq_true_iff.1 ih
    by_cases same : t = e.id
    · exact contains_eq_true_iff.2 ⟨e, by rw [get?_add, if_pos same]⟩
    · exact contains_eq_true_iff.2 ⟨e', by rw [get?_add, if_neg same, he']⟩

/-- A name that is free was free before. -/
theorem containsName_eq_false_of_grows (h : R.Grows S) (free : S.containsName name = false) :
    R.containsName name = false := by
  refine Bool.eq_false_iff.2 fun taken => ?_
  rw [containsName_of_grows h taken] at free
  cases free

/-- An identity that is free was free before. -/
theorem contains_eq_false_of_grows (h : R.Grows S) (free : S.contains t = false) :
    R.contains t = false := by
  refine Bool.eq_false_iff.2 fun taken => ?_
  rw [contains_of_grows h taken] at free
  cases free

theorem ne_id_of_contains (free : R.contains e.id = false) (ht : R.contains t = true) :
    t ≠ e.id := by
  rintro rfl
  rw [free] at ht
  cases ht

theorem get?_add_of_contains (free : R.contains e.id = false) (ht : R.contains t = true) :
    (R.add e).get? t = R.get? t := by
  rw [get?_add, if_neg (ne_id_of_contains free ht)]

/-- A type that is added under a free identity leaves the others in place. -/
theorem get?_add_of_free (free : R.contains e.id = false) {e' : Entry} (h : R.get? t = some e') :
    (R.add e).get? t = some e' := by
  rw [get?_add_of_contains free (contains_eq_true_iff.2 ⟨e', h⟩), h]

/-- A name that is taken keeps its identity. -/
theorem names_get?_of_grows (h : R.Grows S) (hn : R.names.get? name = some t) :
    S.names.get? name = some t := by
  induction h with
  | refl => exact hn
  | @add S e _ free ih =>
    rw [names_get?_add, if_neg]
    · exact ih
    · rintro rfl
      rw [containsName_eq_false_iff.1 free] at ih
      cases ih

/-! ### What always holds -/

/-- A type is filed under its own identity and listed under its own name, and every listed
identity is that of some type. -/
structure Sound (R : Registry) : Prop where
  filed {t : TypeId} {e : Entry} (h : R.get? t = some e) : e.id = t
  listed {t : TypeId} {e : Entry} (h : R.get? t = some e) : R.names.get? e.name = some t
  known {name : String} {t : TypeId} (h : R.names.get? name = some t) : R.contains t = true

theorem sound_empty : empty.Sound where
  filed h := nomatch h
  listed h := nomatch h
  known h := nomatch h

theorem Sound.add (h : R.Sound) (free : R.containsName e.name = false) : (R.add e).Sound where
  filed {t e'} he := by
    rw [get?_add] at he
    split at he
    · rename_i same
      cases he
      exact same.symm
    · exact h.filed he
  listed {t e'} he := by
    rw [names_get?_add]
    rw [get?_add] at he
    split at he
    · rename_i same
      cases he
      rw [if_pos rfl, same]
    · have listed := h.listed he
      rw [if_neg]
      · exact listed
      · intro same
        rw [same, containsName_eq_false_iff.1 free] at listed
        cases listed
  known {name t} hn := by
    rw [names_get?_add] at hn
    by_cases same : t = e.id
    · exact contains_eq_true_iff.2 ⟨e, by rw [get?_add, if_pos same]⟩
    · split at hn
      · exact absurd (Option.some.inj hn).symm same
      · obtain ⟨e', he'⟩ := contains_eq_true_iff.1 (h.known hn)
        exact contains_eq_true_iff.2 ⟨e', by rw [get?_add, if_neg same, he']⟩

/-- Whatever is added under free names, the registry stays sound. -/
theorem Sound.of_grows (h : R.Sound) (grows : R.Grows S) : S.Sound := by
  induction grows with
  | refl => exact h
  | add _ free ih => exact ih.add free

/-! ### Inverse indices -/

/-- No two names share an identity. -/
def Distinct (R : Registry) : Prop :=
  ∀ ⦃m n : String⦄ ⦃t : TypeId⦄, R.names.get? m = some t → R.names.get? n = some t → m = n

theorem mem_of_names_get? (h : R.names.get? name = some t) : (name, t) ∈ R.names.toList :=
  Table.mem_of_lookup_eq_some h

/-- Distinct identities can be told from the list of them. -/
theorem distinct_of_nodup (h : R.names.values.Nodup) : R.Distinct := by
  intro m n t hm hn
  have same := List.inj_on_of_nodup_map h (mem_of_names_get? hm) (mem_of_names_get? hn) rfl
  exact congrArg Prod.fst same

/-- The indices are inverse to each other: a name leads to the identity of the one type that has
this name, and the type has this identity. -/
structure Indexed (R : Registry) : Prop where
  filed (t : TypeId) (e : Entry) : R.get? t = some e → e.id = t
  inverse (name : String) (t : TypeId) :
    R.names.get? name = some t ↔ ∃ e, R.get? t = some e ∧ e.name = name

/-- Indices are inverse where the registry is sound and its identities are distinct. -/
theorem Sound.indexed (h : R.Sound) (distinct : R.Distinct) : R.Indexed where
  filed _ _ he := h.filed he
  inverse name t := by
    constructor
    · intro hn
      obtain ⟨e, he⟩ := contains_eq_true_iff.1 (h.known hn)
      exact ⟨e, he, distinct (h.listed he) hn⟩
    · rintro ⟨e, he, rfl⟩
      exact h.listed he

theorem Indexed.sound (h : R.Indexed) : R.Sound where
  filed he := h.filed _ _ he
  listed he := (h.inverse _ _).2 ⟨_, he, rfl⟩
  known hn := by
    obtain ⟨e, he, -⟩ := (h.inverse _ _).1 hn
    exact contains_eq_true_iff.2 ⟨e, he⟩

theorem Indexed.distinct (h : R.Indexed) : R.Distinct := by
  intro m n t hm hn
  obtain ⟨e, he, rfl⟩ := (h.inverse m t).1 hm
  obtain ⟨e', he', rfl⟩ := (h.inverse n t).1 hn
  rw [he] at he'
  cases he'
  rfl

theorem indexed_empty : empty.Indexed := sound_empty.indexed fun _ _ _ h => nomatch h

/-- Identities that are distinct in the end were distinct before. -/
theorem Distinct.of_grows (h : S.Distinct) (grows : R.Grows S) : R.Distinct :=
  fun _ _ _ hm hn => h (names_get?_of_grows grows hm) (names_get?_of_grows grows hn)

/-! ### Strict additions -/

/-- The types `es` lead from a registry to another, each added under a name and an identity that
are free at its turn. -/
inductive Adds (R : Registry) : List Entry → Registry → Prop
  | refl : Adds R [] R
  | add {es : List Entry} {S : Registry} {e : Entry} (h : Adds R es S)
      (name : S.containsName e.name = false) (id : S.contains e.id = false) :
      Adds R (es ++ [e]) (S.add e)

theorem Adds.trans {es' : List Entry} (h : R.Adds es S) (h' : S.Adds es' T) :
    R.Adds (es ++ es') T := by
  induction h' with
  | refl => rw [List.append_nil]; exact h
  | add _ name id ih => rw [← List.append_assoc]; exact ih.add name id

theorem Adds.grows (h : R.Adds es S) : R.Grows S := by
  induction h with
  | refl => exact .refl
  | add _ name _ ih => exact ih.add name

/-- A registered type stays as it is. -/
theorem Adds.get? (h : R.Adds es S) (he : R.get? t = some e) : S.get? t = some e := by
  induction h with
  | refl => exact he
  | add _ _ id ih => exact get?_add_of_free id ih

/-- The types of the larger registry are those of the smaller one and the added ones. -/
theorem Adds.get?_eq_some_iff (h : R.Adds es S) :
    S.get? t = some e ↔ R.get? t = some e ∨ e ∈ es ∧ e.id = t := by
  induction h with
  | refl => simp
  | @add es S e' _ _ id ih =>
    rw [get?_add]
    by_cases same : t = e'.id
    · have free : S.get? t = none := by rw [same]; exact contains_eq_false_iff.1 id
      have none : ¬ (R.get? t = some e ∨ e ∈ es ∧ e.id = t) := by
        rw [← ih, free]
        exact nofun
      rw [if_pos same, List.mem_append, List.mem_singleton]
      grind
    · rw [if_neg same, ih, List.mem_append, List.mem_singleton]
      grind

/-- Added types have different identities, which were all free. -/
theorem Adds.nodup (h : R.Adds es S) :
    (es.map Entry.id).Nodup ∧ ∀ e ∈ es, R.contains e.id = false := by
  induction h with
  | refl => exact ⟨List.nodup_nil, nofun⟩
  | @add es S e adds name id ih =>
    have free (e' : Entry) (he' : e' ∈ es) : e'.id ≠ e.id := by
      intro same
      have found := adds.get?_eq_some_iff.2 (.inr ⟨he', same⟩)
      rw [contains_eq_false_iff.1 id] at found
      cases found
    constructor
    · rw [List.map_append, List.nodup_append]
      refine ⟨ih.1, List.nodup_cons.2 ⟨List.not_mem_nil, List.nodup_nil⟩, fun t ht u hu => ?_⟩
      obtain ⟨e', he', rfl⟩ := List.mem_map.1 ht
      rw [List.mem_singleton.1 hu]
      exact free e' he'
    · intro e' he'
      rcases List.mem_append.1 he' with he' | he'
      · exact ih.2 e' he'
      · rw [List.mem_singleton.1 he']
        refine contains_eq_false_iff.2 (Option.eq_none_iff_forall_ne_some.2 fun e'' he'' => ?_)
        have kept := adds.get? he''
        rw [contains_eq_false_iff.1 id] at kept
        cases kept

theorem Indexed.add (h : R.Indexed) (hn : R.containsName e.name = false)
    (hi : R.contains e.id = false) : (R.add e).Indexed := by
  refine (h.sound.add hn).indexed ?_
  -- the identity of the new name is none of the listed ones, all of which are known
  have unlisted : ∀ m, R.names.get? m ≠ some e.id := by
    intro m hm
    rw [h.sound.known hm] at hi
    cases hi
  intro m n t hm hn
  rw [names_get?_add] at hm hn
  split at hm <;> split at hn
  · subst m n; rfl
  · cases hm; exact absurd hn (unlisted n)
  · cases hn; exact absurd hm (unlisted m)
  · exact h.distinct hm hn

theorem Indexed.of_adds (h : R.Indexed) (adds : R.Adds es S) : S.Indexed := by
  induction adds with
  | refl => exact h
  | add _ name id ih => exact ih.add name id

/-- A free name leads to a free identity where identities are distinct afterwards. -/
theorem Sound.free_of_distinct (h : R.Sound) (free : R.containsName e.name = false)
    (distinct : (R.add e).Distinct) : R.contains e.id = false := by
  refine Bool.eq_false_iff.2 fun taken => ?_
  obtain ⟨e', he'⟩ := contains_eq_true_iff.1 taken
  have listed := h.listed he'
  -- the name of the type in its place would lead to the same identity as the new name
  have same : e'.name = e.name :=
    distinct (names_get?_of_grows (Grows.refl.add free) listed)
      (by rw [names_get?_add, if_pos rfl])
  rw [same, containsName_eq_false_iff.1 free] at listed
  cases listed

theorem adds_of_register (h : R.register e = .ok S) : R.Adds [e] S := by
  obtain ⟨name, id, rfl⟩ := register_eq_ok_iff.1 h
  exact Adds.refl.add name id

/-- A type that is provided is added, unless its name is taken. -/
theorem Sound.exists_adds_provide (h : R.Sound) (distinct : (R.provide e).Distinct) :
    ∃ es, R.Adds es (R.provide e) ∧ ∀ e' ∈ es, e' = e := by
  unfold provide at *
  split
  · exact ⟨[], .refl, nofun⟩
  · rename_i taken
    rw [if_neg taken] at distinct
    have free := Bool.eq_false_iff.2 taken
    have id := h.free_of_distinct free distinct
    exact ⟨[e], Adds.refl.add free id, fun e' he' => List.mem_singleton.1 he'⟩

/-- Growth that ends in distinct identities has displaced nothing. -/
theorem exists_adds_of_grows (sound : R.Sound) (grows : R.Grows S) (distinct : S.Distinct) :
    ∃ es, R.Adds es S := by
  induction grows with
  | refl => exact ⟨[], .refl⟩
  | @add S e grows free ih =>
    obtain ⟨es, adds⟩ := ih (distinct.of_grows (Grows.refl.add free))
    exact ⟨es ++ [e], adds.add free ((sound.of_grows grows).free_of_distinct free distinct)⟩

/-- An identity that is free in the end, or was not free before, still has the type that it had. -/
theorem get?_eq_of_grows (sound : R.Sound) (grows : R.Grows S) (distinct : S.Distinct)
    (known : S.contains t = true → R.contains t = true) : S.get? t = R.get? t := by
  obtain ⟨es, adds⟩ := exists_adds_of_grows sound grows distinct
  cases h : R.contains t with
  | true =>
    obtain ⟨e, he⟩ := contains_eq_true_iff.1 h
    rw [he, adds.get? he]
  | false =>
    have free : S.contains t = false := Bool.eq_false_iff.2 fun hS => by
      rw [known hS] at h
      cases h
    rw [contains_eq_false_iff.1 free, contains_eq_false_iff.1 h]

end Registry

end TypeSynthesis
