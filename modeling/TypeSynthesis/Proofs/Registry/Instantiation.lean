import TypeSynthesis.Proofs.Registry.Operations

/-!
# Instances of generic interfaces

An instance is what its definition and its arguments make of it, whatever has been instantiated
before.

* `TypeRef.Replaces`, `Signature.Instantiates`: type parameters replaced by types, all at once;
* `InterfaceType.Instantiates`: an interface is the instance of a definition at types;
* `Registry.Maintained`: what each step of a plain operation keeps holds of every registry that
  operations build (`Registry.Maintained.of_built`);
* `Registry.Faithful`: every registered instance has its methods from its definition, and so it is
  with every registry that operations build;
* `Registry.instantiates_of_instantiate`: instantiation gives the instance that was asked for, and
  gives it again without a change.

The identity of an instance says at which types the definition is taken, not how they are passed,
for a parameter keeps its own passing mode wherever it is replaced.  So the recorded arguments are
those of the first instantiation at these types.  Another type may still stand in the place of the
instance, if its name or its arguments lead to the same identity
(`Registry.not_instantiates_of_instantiate`).
-/

namespace TypeSynthesis

/-! ### Simultaneous replacement -/

/-- The reference `u` is `t` with the type parameters `params` replaced by the types `args`, all at
once.  The reference keeps its passing mode. -/
structure TypeRef.Replaces (params args : List TypeId) (t u : TypeRef) : Prop where
  passing : u.passing = t.passing
  param : ∀ p ∈ params.zip args, t.id = p.1 → u.id = p.2
  other : t.id ∉ params → u.id = t.id

/-- The method `m'` of `owner` is `m` with the type parameters replaced. -/
structure Signature.Instantiates (params args : List TypeId) (owner : TypeId)
    (m m' : Signature) : Prop where
  name : m'.name = m.name
  attributes : m'.attributes = m.attributes
  declaring : m'.declaring = owner
  result : TypeRef.Replaces params args m.result m'.result
  params : List.Forall₂ (TypeRef.Replaces params args) m.params m'.params

/-- The interface `j`, which has the identity `u`, is the instance of the definition `i`, which has
the identity `t`, at the types of `args`. -/
structure InterfaceType.Instantiates (i : InterfaceType) (t : TypeId) (args : List TypeRef)
    (u : TypeId) (j : InterfaceType) : Prop where
  recorded : ∃ args', j.instanceOf? = some ⟨t, args'⟩ ∧ args'.map (·.id) = args.map (·.id)
  methods : List.Forall₂ (Signature.Instantiates i.typeParams (args.map (·.id)) u) i.methods
    j.methods

namespace Table

variable {κ ν : Type} [DecidableEq κ] {s : Table κ ν} {l : List (κ × ν)} {k : κ} {v : ν}

theorem get?_foldl_insert_of_not_mem (h : k ∉ l.map (·.1)) :
    (l.foldl (fun s p => s.insert p.1 p.2) s).get? k = s.get? k := by
  induction l generalizing s with
  | nil => rfl
  | cons p l ih =>
    rw [List.map_cons, List.mem_cons, not_or] at h
    rw [List.foldl_cons, ih h.2, get?_insert_of_ne s _ h.1]

/-- Of pairs with different keys each one is found. -/
theorem get?_foldl_insert_of_mem (h : (k, v) ∈ l) (nodup : (l.map (·.1)).Nodup) :
    (l.foldl (fun s p => s.insert p.1 p.2) s).get? k = some v := by
  induction l generalizing s with
  | nil => cases h
  | cons p l ih =>
    rw [List.map_cons, List.nodup_cons] at nodup
    rw [List.foldl_cons]
    rcases List.mem_cons.1 h with rfl | h
    · rw [get?_foldl_insert_of_not_mem nodup.1, get?_insert_self]
    · exact ih h nodup.2

/-- A key of the pairs is found with a value that is paired with it, if the keys repeat or not. -/
theorem exists_get?_foldl_insert (h : k ∈ l.map (·.1)) :
    ∃ v, (l.foldl (fun s p => s.insert p.1 p.2) s).get? k = some v ∧ (k, v) ∈ l := by
  induction l generalizing s with
  | nil => cases h
  | cons p l ih =>
    rw [List.foldl_cons]
    by_cases later : k ∈ l.map (·.1)
    · obtain ⟨v, found, mem⟩ := ih (s := s.insert p.1 p.2) later
      exact ⟨v, found, List.mem_cons_of_mem _ mem⟩
    · obtain rfl : k = p.1 := (List.mem_cons.1 h).resolve_right later
      refine ⟨p.2, ?_, List.mem_cons_self⟩
      rw [get?_foldl_insert_of_not_mem later, get?_insert_self]

end Table

theorem substitutionOf_eq_ok_iff {name : String} {params : List TypeId} {args : List TypeRef}
    {s : Substitution} : substitutionOf name params args = .ok s ↔
      params.length = args.length ∧
        s = (params.zip args).foldl (fun s p => s.insert p.1 p.2) .empty := by
  unfold substitutionOf
  split
  · rename_i same
    exact ⟨fun h => ⟨same, (Except.ok.inj h).symm⟩, fun h => congrArg _ h.2.symm⟩
  · rename_i differ
    exact ⟨nofun, fun h => absurd h.1 differ⟩

section Substitution

variable {name : String} {params : List TypeId} {args : List TypeRef} {s : Substitution}

/-- Substitution replaces different type parameters all at once. -/
theorem TypeRef.replaces_subst (h : substitutionOf name params args = .ok s)
    (distinct : params.Nodup) (t : TypeRef) :
    TypeRef.Replaces params (args.map (·.id)) t (t.subst s) := by
  obtain ⟨same, rfl⟩ := substitutionOf_eq_ok_iff.1 h
  have keys : (params.zip args).map (·.1) = params := List.map_fst_zip (Nat.le_of_eq same)
  refine ⟨TypeRef.passing_subst .., fun p hp ht => ?_, fun ht => ?_⟩
  · rw [List.zip_map_right] at hp
    obtain ⟨⟨k, arg⟩, mem, rfl⟩ := List.mem_map.1 hp
    have found := Table.get?_foldl_insert_of_mem (s := .empty) mem (keys.symm ▸ distinct)
    have ht : t.id = k := ht
    unfold TypeRef.subst
    rw [ht, found]
    rfl
  · have absent := Table.get?_foldl_insert_of_not_mem (s := .empty) (keys.symm ▸ ht)
    unfold TypeRef.subst
    rw [absent, Table.get?_empty]

/-- A type parameter is replaced by one of the arguments. -/
theorem TypeRef.exists_id_subst (h : substitutionOf name params args = .ok s) {t : TypeRef}
    (ht : t.id ∈ params) : ∃ arg ∈ args, (t.subst s).id = arg.id := by
  obtain ⟨same, rfl⟩ := substitutionOf_eq_ok_iff.1 h
  rw [← List.map_fst_zip (Nat.le_of_eq same)] at ht
  obtain ⟨arg, found, paired⟩ := Table.exists_get?_foldl_insert (s := .empty) ht
  refine ⟨arg, (List.of_mem_zip paired).2, ?_⟩
  unfold TypeRef.subst
  rw [found]

theorem Signature.instantiates_instantiate (h : substitutionOf name params args = .ok s)
    (distinct : params.Nodup) (owner : TypeId) (m : Signature) :
    Signature.Instantiates params (args.map (·.id)) owner m (m.instantiate s owner) where
  name := rfl
  attributes := rfl
  declaring := rfl
  result := TypeRef.replaces_subst h distinct m.result
  params := by
    show List.Forall₂ _ m.params (m.params.map (·.subst s))
    rw [List.forall₂_map_right_iff, List.forall₂_same]
    exact fun t _ => TypeRef.replaces_subst h distinct t

end Substitution

namespace Registry

variable {R S : Registry} {e : Entry} {t u : TypeId} {args : List TypeRef}

/-! ### Steps of plain operations -/

/-- A property of registries that each step of a plain operation keeps.  Built-in types that are
provided are primitives and pointer types. -/
structure Maintained (P : Registry → Prop) : Prop where
  register {R S : Registry} {e : Entry} : P R → (Operation.register e).isPlain = true →
    R.register e = .ok S → P S
  provide {R : Registry} {e : Entry} : P R → e.asInterface? = none → P (R.provide e)
  instantiate {R S : Registry} {t u : TypeId} {args : List TypeRef} : P R →
    R.instantiate t args = .ok (u, S) → P S

namespace Maintained

variable {P : Registry → Prop} (hP : Maintained P)
include hP

theorem provideAll {es : List Entry} (h : P R) (plain : ∀ e ∈ es, e.asInterface? = none) :
    P (R.provideAll es) := by
  induction es generalizing R with
  | nil => exact h
  | cons e es ih =>
    exact ih (hP.provide h (plain e List.mem_cons_self))
      fun e' he' => plain e' (List.mem_cons_of_mem _ he')

theorem resolveReversed (h : P R) (cs : List Char) : P (R.resolveReversed cs).2 := by
  induction cs with
  | nil => exact h
  | cons c cs ih =>
    unfold Registry.resolveReversed
    split
    · exact ih
    split
    · rw [snd_referenceTo]
      exact ih
    split
    · rcases snd_starOf (R.resolveReversed cs) with same | ⟨p, provided⟩
      · rw [same]; exact ih
      · rw [provided]; exact hP.provide ih rfl
    · exact h

theorem invoker {n : Nat} (h : P R) (asked : R.invoker n = .ok (t, S)) : P S := by
  rcases register_of_invoker asked with same | registers
  · exact same ▸ h
  · exact hP.register h rfl registers

/-- One case for each operation. -/
theorem after (h : P R) {o : Operation} (plain : o.isPlain = true) : P (o.after R) := by
  unfold Operation.after
  split
  · rename_i S run
    cases o with
    | register e => exact hP.register h plain run
    | providePrimitives =>
      refine Except.ok.inj run ▸ hP.provideAll h fun e he => ?_
      obtain ⟨p, -, rfl⟩ := List.mem_map.1 he
      rfl
    | resolve text => exact Except.ok.inj run ▸ hP.resolveReversed h _
    | pointerTo pointee => exact Except.ok.inj run ▸ hP.provide h rfl
    | invoker arity =>
      obtain ⟨_, asked, run⟩ := except_bind_eq_ok_iff.1 run
      cases run
      exact hP.invoker h asked
    | instantiate definition args =>
      obtain ⟨_, made, run⟩ := except_bind_eq_ok_iff.1 run
      cases run
      exact hP.instantiate h made
    | beginClass name base interfaces =>
      obtain ⟨_, -, run⟩ := except_bind_eq_ok_iff.1 run
      cases run
      exact h
    | beginInterface name bases =>
      obtain ⟨_, -, run⟩ := except_bind_eq_ok_iff.1 run
      cases run
      exact h
    | finishClass draft => exact hP.register (e := .classType draft) h rfl run
    | finishInterface draft => exact hP.register (e := .interfaceType draft) h plain run
  · exact h

/-- What each step keeps, and what holds to begin with, holds of every registry that operations
build. -/
theorem of_built (starts : ∀ start ∈ [empty, primitives, host], P start) (built : R.Built) :
    P R := by
  obtain ⟨start, hs, os, plain, rfl⟩ := built
  have first := starts start hs
  clear hs
  induction os generalizing start with
  | nil => exact first
  | cons o os ih =>
    exact ih _ (fun o' ho' => plain o' (List.mem_cons_of_mem _ ho'))
      (hP.after first (plain o List.mem_cons_self))

end Maintained

/-! ### Faithful instances -/

/-- Every registered instance has the methods that its definition has at its arguments. -/
def Faithful (R : Registry) : Prop :=
  ∀ ⦃u : TypeId⦄ ⦃j : InterfaceType⦄ ⦃inst : Instantiation⦄, R.interface? u = some j →
    j.instanceOf? = some inst → R.contains inst.definition = true ∧
      ∀ i, R.interface? inst.definition = some i →
        ∃ s, substitutionOf i.name i.typeParams inst.args = .ok s ∧
          j.methods = i.methods.map (·.instantiate s u)

theorem interface?_add (R : Registry) (e : Entry) (t : TypeId) :
    (R.add e).interface? t = if t = e.id then e.asInterface? else R.interface? t := by
  unfold interface?
  rw [get?_add]
  split <;> rfl

theorem contains_of_interface? {i : InterfaceType} (h : R.interface? t = some i) :
    R.contains t = true := by
  obtain ⟨e, he, -⟩ := Option.bind_eq_some_iff.1 h
  exact contains_eq_true_iff.2 ⟨e, he⟩

theorem asInterface?_eq_some_iff {i : InterfaceType} :
    e.asInterface? = some i ↔ e = .interfaceType i := by
  cases e <;> simp [Entry.asInterface?]

/-- One more type, which is no interface unless its identity is free, and which is made from its
definition if it is an instance. -/
theorem Faithful.add (h : R.Faithful) (keeps : ∀ i, e = .interfaceType i → R.contains e.id = false)
    (made : ∀ j inst, e = .interfaceType j → j.instanceOf? = some inst →
      ∃ i s, R.interface? inst.definition = some i ∧
        substitutionOf i.name i.typeParams inst.args = .ok s ∧
        j.methods = i.methods.map (·.instantiate s e.id)) :
    (R.add e).Faithful := by
  -- an interface found in the larger registry at an identity in use was there before
  have old {t : TypeId} {i : InterfaceType} (known : R.contains t = true)
      (found : (R.add e).interface? t = some i) : R.interface? t = some i := by
    rw [interface?_add] at found
    split at found
    · rename_i same
      have free := keeps i (asInterface?_eq_some_iff.1 found)
      rw [same, free] at known
      cases known
    · exact found
  have grown {t : TypeId} (known : R.contains t = true) : (R.add e).contains t = true := by
    obtain ⟨e', he'⟩ := contains_eq_true_iff.1 known
    refine contains_eq_true_iff.2 ?_
    rw [get?_add]
    split
    · exact ⟨e, rfl⟩
    · exact ⟨e', he'⟩
  intro u j inst hj hinst
  rw [interface?_add] at hj
  split at hj
  · rename_i same
    obtain ⟨i, s, hi, hs, methods⟩ := made j inst (asInterface?_eq_some_iff.1 hj) hinst
    have known := contains_of_interface? hi
    refine ⟨grown known, fun i' hi' => ⟨s, ?_⟩⟩
    rw [old known hi'] at hi
    cases hi
    exact ⟨hs, same ▸ methods⟩
  · obtain ⟨known, from_⟩ := h hj hinst
    exact ⟨grown known, fun i hi => from_ i (old known hi)⟩

/-- All that an instantiation does: it finds the instance's identity in use, or it registers the
instance. -/
theorem instantiate_cases (h : R.instantiate t args = .ok (u, S)) :
    u = .ofInstance t (args.map (·.id)) ∧
      ∃ i s, R.interface? t = some i ∧ i.isGeneric = true ∧
        substitutionOf i.name i.typeParams args = .ok s ∧
        (R.contains u = true ∧ S = R ∨
          R.register (.interfaceType (R.instanceAt i t args s)) = .ok S) := by
  unfold instantiate at h
  split at h
  · cases h
  rename_i i hi
  split at h
  · rename_i generic
    obtain ⟨s, hs, h⟩ := except_bind_eq_ok_iff.1 h
    dsimp only at h
    split at h
    · rename_i taken
      cases h
      exact ⟨rfl, i, s, hi, generic, hs, .inl ⟨taken, rfl⟩⟩
    · obtain ⟨S', registers, h⟩ := except_bind_eq_ok_iff.1 h
      cases h
      exact ⟨rfl, i, s, hi, generic, hs, .inr registers⟩
  · cases h

theorem maintained_faithful : Maintained Faithful where
  register {R S e} h plain registers := by
    obtain ⟨-, free, rfl⟩ := register_eq_ok_iff.1 registers
    refine h.add (fun _ _ => free) fun j inst isInterface hinst => ?_
    subst isInterface
    simp [Operation.isPlain, InterfaceType.isInstance, hinst] at plain
  provide {R e} h other := by
    have noInterface (i : InterfaceType) : e ≠ .interfaceType i := by
      rintro rfl
      cases other
    unfold Registry.provide
    split
    · exact h
    · exact h.add (fun i hi => absurd hi (noInterface i)) fun j _ hj _ => absurd hj (noInterface j)
  instantiate {R S t u args} h made := by
    obtain ⟨-, i, s, hi, -, hs, ⟨-, rfl⟩ | registers⟩ := instantiate_cases made
    · exact h
    · obtain ⟨-, free, rfl⟩ := register_eq_ok_iff.1 registers
      refine h.add (fun _ _ => free) fun j inst isInstance hinst => ?_
      cases isInstance
      cases hinst
      exact ⟨i, s, hi, hs, rfl⟩

/-- Provided types are no instances. -/
theorem Provides.instanceOf?_eq_none (h : empty.Provides R) {j : InterfaceType}
    (hj : R.interface? u = some j) : j.instanceOf? = none := by
  have named : ∀ {t e}, R.get? t = some e → e.source = .named e.name := by
    clear hj
    induction h with
    | refl => exact nofun
    | @add S e _ _ named ih =>
      intro t e' he'
      rw [get?_add] at he'
      split at he'
      · exact Option.some.inj he' ▸ named
      · exact ih he'
  obtain ⟨e, he, isInterface⟩ := Option.bind_eq_some_iff.1 hj
  rw [asInterface?_eq_some_iff.1 isInterface] at he
  have fromName := named he
  unfold Entry.source at fromName
  dsimp only at fromName
  split at fromName
  · assumption
  · cases fromName

theorem Provides.faithful (h : empty.Provides R) : R.Faithful := by
  intro u j inst hj hinst
  rw [h.instanceOf?_eq_none hj] at hinst
  cases hinst

theorem Built.faithful (h : R.Built) : R.Faithful :=
  maintained_faithful.of_built (fun _ hs => (provides_of_mem_starts hs).faithful) h

/-! ### Instantiation -/

/-- Among the sources in use, the identity of `s` is that of no other. -/
def IsApart (R : Registry) (s : Source) : Prop := ∀ s' ∈ R.sources, s'.id = s.id → s' = s

instance (R : Registry) (s : Source) : Decidable (R.IsApart s) :=
  inferInstanceAs (Decidable (∀ s' ∈ _, _ → _))

/-- What is found at the identity of a source that is apart comes from this source. -/
theorem IsApart.source_eq {s : Source} (apart : R.IsApart s) (sound : R.Sound)
    (h : R.get? s.id = some e) : e.source = s :=
  apart e.source (source_mem_sources h) (e.id_source.trans (sound.filed h))

theorem instance_of_source {e : Entry} {ts : List TypeId} (h : e.source = .applied t ts) :
    ∃ j args, e = .interfaceType j ∧ j.instanceOf? = some ⟨t, args⟩ ∧ args.map (·.id) = ts := by
  cases e with
  | interfaceType j =>
    unfold Entry.source at h
    dsimp only at h
    split at h
    · cases h
    · rename_i inst hinst
      cases h
      exact ⟨j, inst.args, rfl, hinst, rfl⟩
  | _ => cases h

/-- Methods made from those of a definition have its type parameters replaced. -/
theorem instantiates_map {i : InterfaceType} {s : Substitution}
    (h : substitutionOf i.name i.typeParams args = .ok s) (distinct : i.typeParams.Nodup)
    (u : TypeId) :
    List.Forall₂ (Signature.Instantiates i.typeParams (args.map (·.id)) u) i.methods
      (i.methods.map (·.instantiate s u)) := by
  rw [List.forall₂_map_right_iff, List.forall₂_same]
  exact fun m _ => Signature.instantiates_instantiate h distinct u m

theorem interface?_add_of_contains {i : InterfaceType} (free : R.contains e.id = false)
    (h : R.interface? t = some i) : (R.add e).interface? t = some i := by
  rw [interface?_add, if_neg (ne_id_of_contains free (contains_of_interface? h)), h]

/-- Instantiation keeps the definition and puts an instance in place. -/
theorem interface?_of_instantiate {i : InterfaceType} (definition : R.interface? t = some i)
    (h : R.instantiate t args = .ok (u, S)) :
    S.interface? t = some i ∧ S.contains u = true := by
  obtain ⟨rfl, i', s, hi', -, -, ⟨taken, rfl⟩ | registers⟩ := instantiate_cases h
  · exact ⟨definition, taken⟩
  · obtain ⟨-, free, rfl⟩ := register_eq_ok_iff.1 registers
    refine ⟨interface?_add_of_contains free definition,
      contains_eq_true_iff.2 ⟨.interfaceType (R.instanceAt i' t args s), ?_⟩⟩
    rw [get?_add]
    exact if_pos rfl

/-- An instantiation that is repeated finds the instance in place. -/
theorem instantiate_again (h : R.instantiate t args = .ok (u, S)) :
    S.instantiate t args = .ok (u, S) := by
  obtain ⟨hu, i, s, hi, generic, hs, -⟩ := instantiate_cases h
  obtain ⟨definition, taken⟩ := interface?_of_instantiate hi h
  subst hu
  unfold instantiate
  rw [definition]
  dsimp only
  rw [if_pos generic, hs]
  exact if_pos taken

/-- In a registry of faithful instances, what instantiation gives is the instance that was asked
for, whether it was there or not, unless another type has its identity. -/
theorem Faithful.exists_instance {i : InterfaceType} (faithful : R.Faithful)
    (definition : R.interface? t = some i) (distinct : i.typeParams.Nodup)
    (own : ∀ e, R.get? (.ofInstance t (args.map (·.id))) = some e →
      e.source = .applied t (args.map (·.id)))
    (h : R.instantiate t args = .ok (u, S)) :
    ∃ j, S.interface? u = some j ∧ i.Instantiates t args u j ∧
      (R.contains u = false → j.instanceOf? = some ⟨t, args⟩) := by
  obtain ⟨rfl, i', s, hi', -, hs, ⟨taken, rfl⟩ | registers⟩ := instantiate_cases h
  · obtain ⟨e, he⟩ := contains_eq_true_iff.1 taken
    obtain ⟨j, args', rfl, hinst, same⟩ := instance_of_source (own e he)
    have hj : S.interface? (.ofInstance t (args.map (·.id))) = some j :=
      Option.bind_eq_some_iff.2 ⟨_, he, rfl⟩
    obtain ⟨-, made⟩ := faithful hj hinst
    obtain ⟨s', hs', methods⟩ := made i definition
    refine ⟨j, hj, ⟨⟨args', hinst, same⟩, ?_⟩, fun free => ?_⟩
    · rw [methods, ← same]
      exact instantiates_map hs' distinct _
    · rw [taken] at free
      cases free
  · obtain ⟨-, -, rfl⟩ := register_eq_ok_iff.1 registers
    rw [definition] at hi'
    cases hi'
    refine ⟨R.instanceAt i t args s, ?_, ⟨⟨args, rfl, rfl⟩, instantiates_map hs distinct _⟩,
      fun _ => rfl⟩
    rw [interface?_add]
    exact if_pos rfl

/-- Whatever has been instantiated before, an instantiation that succeeds gives the instance of the
definition at the types of the arguments.  Its methods are those of the definition with all
parameters replaced at once, and they belong to the instance.  The recorded arguments are those of
the first instantiation at these types.  The same instantiation succeeds again and changes nothing.
The only assumption is that no other source in use has the identity of the instance. -/
theorem instantiates_of_instantiate {i : InterfaceType} (built : R.Built)
    (definition : R.interface? t = some i) (distinct : i.typeParams.Nodup)
    (apart : R.IsApart (.applied t (args.map (·.id)))) (h : R.instantiate t args = .ok (u, S)) :
    (∃ j, S.interface? u = some j ∧ i.Instantiates t args u j ∧
      (R.contains u = false → j.instanceOf? = some ⟨t, args⟩)) ∧
    S.instantiate t args = .ok (u, S) :=
  ⟨built.faithful.exists_instance definition distinct (fun _ => apart.source_eq built.sound) h,
    instantiate_again h⟩

/-- The type parameters of pairs. -/
def pairParams : List TypeId := [.ofName "Pair::A", .ofName "Pair::B"]

/-- Pairs, which can be exchanged. -/
def pairType : InterfaceType :=
  let start : InterfaceType := { name := "Pair", typeParams := pairParams }
  start.withMethod
    { name := "exchange"
      declaring := .empty
      params := [.value (.ofName "Pair::B"), .reference (.ofName "Pair::A")]
      result := .value (.ofName "Pair::A")
      attributes := .interface }

/-- Pairs, and their instance at the exchanged parameters, one of them by reference. -/
def exchangedPairs : Registry :=
  [.register (.interfaceType pairType),
   .instantiate (.ofName "Pair") [.reference (.ofName "Pair::B"), .value (.ofName "Pair::A")]].foldl
    Operation.after empty

theorem exists_eq_ok_of_isOk {ε α : Type} {x : Except ε α} (h : x.isOk = true) :
    ∃ a, x = .ok a := by
  cases x with
  | ok a => exact ⟨a, rfl⟩
  | error e => cases h

theorem instantiates_of_instantiate_pairs :
    ∃ u S, exchangedPairs.instantiate (.ofName "Pair") (pairParams.reverse.map .value) =
        .ok (u, S) ∧
      (∃ j, S.interface? u = some j ∧
        pairType.Instantiates (.ofName "Pair") (pairParams.reverse.map .value) u j ∧
        (exchangedPairs.contains u = false →
          j.instanceOf? = some ⟨.ofName "Pair", pairParams.reverse.map .value⟩)) ∧
      S.instantiate (.ofName "Pair") (pairParams.reverse.map .value) = .ok (u, S) := by
  obtain ⟨⟨u, S⟩, h⟩ := exists_eq_ok_of_isOk (x := exchangedPairs.instantiate (.ofName "Pair")
    (pairParams.reverse.map .value)) (by decide +kernel)
  exact ⟨u, S, h, instantiates_of_instantiate ⟨empty, by simp, _, by decide, rfl⟩
    (by decide +kernel) (by decide +kernel) (by decide +kernel) h⟩

/-- A class whose identity makes two instances of an invoker collide. -/
def collidingName : String := "Catalog.Adqpaebbhdkxngcx"

/-- The invoker from one argument, and its instance from a number to a text. -/
def numberToText : Registry :=
  [.register (.classType { name := collidingName }), .invoker 1,
   .instantiate (.ofName (invokerName 1)) [.value Primitive.int.id, .value .string]].foldl
    Operation.after host

theorem built_numberToText : numberToText.Built := ⟨host, by simp, _, by decide, rfl⟩

/-- What the interface that an instantiation gives is recorded to be an instance of. -/
def made? (R : Registry) (t : TypeId) (args : List TypeRef) : Option Instantiation :=
  (R.instantiate t args).toOption.bind fun r => (r.2.interface? r.1).bind (·.instanceOf?)

theorem made?_eq {j : InterfaceType} (h : R.instantiate t args = .ok (u, S))
    (hj : S.interface? u = some j) : R.made? t args = j.instanceOf? := by
  unfold made?
  rw [h]
  show (S.interface? u).bind (·.instanceOf?) = _
  rw [hj]
  rfl

/-- The recorded arguments are those of the first instantiation, which may differ in how they are
passed.  Without the assumption on identities, another instance may stand in the place of the one
that was asked for. -/
theorem not_instantiates_of_instantiate :
    (¬ ∀ (R S : Registry) (t u : TypeId) (args : List TypeRef) (i : InterfaceType), R.Built →
      R.interface? t = some i → i.typeParams.Nodup →
      R.IsApart (.applied t (args.map (·.id))) → R.instantiate t args = .ok (u, S) →
      ∃ j, S.interface? u = some j ∧ j.instanceOf? = some ⟨t, args⟩) ∧
    (¬ ∀ (R S : Registry) (t u : TypeId) (args : List TypeRef) (i : InterfaceType), R.Built →
      R.interface? t = some i → i.typeParams.Nodup → R.instantiate t args = .ok (u, S) →
      ∃ j, S.interface? u = some j ∧ i.Instantiates t args u j) := by
  have definition : numberToText.interface? (.ofName (invokerName 1)) = some (invokerType 1) := by
    decide +kernel
  have distinct : (invokerType 1).typeParams.Nodup := by decide +kernel
  constructor
  · intro h
    have differs : numberToText.made? (.ofName (invokerName 1))
        [.reference Primitive.int.id, .value .string] ≠
          some ⟨.ofName (invokerName 1), [.reference Primitive.int.id, .value .string]⟩ := by
      decide +kernel
    obtain ⟨⟨u, S⟩, made⟩ := exists_eq_ok_of_isOk (x := numberToText.instantiate
      (.ofName (invokerName 1)) [.reference Primitive.int.id, .value .string]) (by decide +kernel)
    obtain ⟨j, hj, recorded⟩ :=
      h _ _ _ _ _ _ built_numberToText definition distinct (by decide +kernel) made
    rw [made?_eq made hj, recorded] at differs
    exact differs rfl
  · intro h
    have found : numberToText.made? (.ofName (invokerName 1))
        [.value Primitive.long.id, .value (.ofName collidingName)] =
          some ⟨.ofName (invokerName 1), [.value Primitive.int.id, .value .string]⟩ := by
      decide +kernel
    obtain ⟨⟨u, S⟩, made⟩ := exists_eq_ok_of_isOk (x := numberToText.instantiate
      (.ofName (invokerName 1)) [.value Primitive.long.id, .value (.ofName collidingName)])
      (by decide +kernel)
    obtain ⟨j, hj, instantiates⟩ := h _ _ _ _ _ _ built_numberToText definition distinct made
    obtain ⟨args', recorded, same⟩ := instantiates.recorded
    rw [made?_eq made hj, recorded] at found
    cases found
    revert same
    decide +kernel

end Registry

end TypeSynthesis
