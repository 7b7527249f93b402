import TypeSynthesis.Proofs.Definitions.Resolve
import TypeSynthesis.Proofs.Registry.Instantiation

/-!
# Invokers in a run

What synthesis asks for under the name of an invoker is the invoker's definition, and an instance of
it has the one method that calls a function.

* `Registry.Invocable`: under invokers' names stand invokers' definitions, and instances are
  faithful;
* `Session.KeepsInvokers`: what goes before a definition keeps it so;
* `Registry.IsInvoker`: an interface is the invoker at given types;
* `SynthM.isInvoker_of_invokerAt`: so is the interface that synthesis is given;
* `InterfaceType.Instantiates.invoke`: its method takes and gives these types, all by value.

No other type that goes before a definition has an invoker's name, for such names end in a digit,
where those of pointer types end in a star and those of instances in a bracket.
-/

namespace TypeSynthesis

open Registry

/-! ### Names of invokers -/

theorem toList_toString (n : Nat) : (toString n).toList = Nat.toDigits 10 n := Nat.toList_repr

theorem invokerName_inj {m n : Nat} (h : invokerName m = invokerName n) : m = n := by
  have digits := congrArg String.toList ((String.append_right_inj _).1 h)
  rw [toList_toString, toList_toString] at digits
  have numbers := congrArg (Nat.ofDigitChars 10 · 0) digits
  simpa only [Nat.ofDigitChars_ten_toDigits] using numbers

theorem isDigit_of_getLast?_invokerName {n : Nat} {c : Char}
    (h : (invokerName n).toList.getLast? = some c) : c.isDigit = true := by
  unfold invokerName at h
  rw [String.toList_append, toList_toString,
    List.getLast?_append_of_ne_nil _ Nat.toDigits_ne_nil] at h
  exact Nat.isDigit_of_mem_toDigits (by decide) (by decide) (List.mem_of_getLast? h)

/-- An auxiliary type with the name of an invoker definition is this definition. -/
theorem Entry.Auxiliary.eq_invokerType {e : Entry} {n : Nat} (aux : e.Auxiliary)
    (h : e.name = invokerName n) : e = .interfaceType (invokerType n) := by
  cases aux with
  | pointer p =>
    have star : (invokerName n).toList.getLast? = some '*' := by
      rw [← h]
      show (p.pointeeName ++ "*").toList.getLast? = some '*'
      rw [String.toList_append]
      exact List.getLast?_concat ..
    exact absurd (isDigit_of_getLast?_invokerName star) (by decide)
  | invoker m =>
    rw [invokerName_inj h]
  | instanceOf R m args s =>
    have bracket : (invokerName n).toList.getLast? = some '>' := by
      rw [← h]
      show ((invokerType m).name ++ "<" ++ R.displayAll args ++ ">").toList.getLast? = some '>'
      rw [String.toList_append]
      exact List.getLast?_concat ..
    exact absurd (isDigit_of_getLast?_invokerName bracket) (by decide)

/-- Under invokers' names stand invokers' definitions, if no other name may be that of an invoker
but those in a list. -/
theorem definition_of_names {R : Registry} (known : List Nat)
    (names : ∀ name ∈ R.names.keys, ¬ invokerStem.toList <+: name.toList ∨
      name.toList.getLast? = some '>' ∨
      ∃ k ∈ known, name = invokerName k ∧ R.find? name = some (.interfaceType (invokerType k)))
    (n : Nat) (e : Entry) (he : R.find? (invokerName n) = some e) :
    e = .interfaceType (invokerType n) := by
  obtain ⟨t, ht, -⟩ := find?_eq_some_iff.1 he
  have listed : invokerName n ∈ R.names.keys :=
    List.mem_map_of_mem (f := (·.1)) (mem_of_names_get? ht)
  rcases names _ listed with other | bracket | ⟨k, -, same, found⟩
  · refine absurd ?_ other
    unfold invokerName
    rw [String.toList_append, String.toList_append, List.append_assoc]
    exact List.prefix_append ..
  · exact absurd (isDigit_of_getLast?_invokerName bracket) (by decide)
  · rw [he] at found
    rw [Option.some.inj found, invokerName_inj same]

/-! ### Registries in which invokers can be asked for -/

/-- What stands under the name of an invoker definition is this definition, and every instance has
its methods from its definition. -/
structure Registry.Invocable (R : Registry) : Prop where
  sound : R.Sound
  faithful : R.Faithful
  definition : ∀ n e, R.find? (invokerName n) = some e → e = .interfaceType (invokerType n)

/-- The second session has auxiliary types besides those of the first, and instances are as faithful
as before. -/
structure Session.KeepsInvokers (s t : Session) : Prop where
  prepares : s.Prepares t
  faithful : s.registry.Faithful → t.registry.Faithful

instance : IsPreorder Session Session.KeepsInvokers where
  refl s := ⟨.refl s, id⟩
  trans _ _ _ h h' := ⟨h.prepares.trans h'.prepares, h'.faithful ∘ h.faithful⟩

theorem Session.keepsInvokers_prepared : Session.Prepared Session.KeepsInvokers where
  pointer s p := ⟨prepares_prepared.pointer s p, fun h => maintained_faithful.provide h rfl⟩
  invoker h := ⟨prepares_prepared.invoker h, fun hs => maintained_faithful.invoker hs h⟩
  instantiate known h :=
    ⟨prepares_prepared.instantiate known h, fun hs => maintained_faithful.instantiate hs h⟩
  draw h := ⟨prepares_prepared.draw h, id⟩

namespace Registry

variable {R S : Registry} {t u : TypeId} {n : Nat}

theorem Invocable.genuine (h : R.Invocable) : R.Genuine := fun n _ hi _ =>
  ⟨n, Entry.interfaceType.inj (h.definition n _ hi)⟩

/-- What goes before a definition adds no other type under an invoker's name. -/
theorem Invocable.of_keeps {s t : Session} (h : s.registry.Invocable) (keeps : s.KeepsInvokers t)
    (distinct : t.registry.Distinct) : t.registry.Invocable where
  sound := h.sound.of_grows keeps.prepares.grows
  faithful := keeps.faithful h.faithful
  definition n e he := by
    obtain ⟨es, adds, aux⟩ := keeps.prepares.adds h.sound h.genuine distinct
    rcases adds.find? he with old | new
    · exact h.definition n e old
    · obtain ⟨t, ht, he⟩ := find?_eq_some_iff.1 he
      have listed := (h.sound.of_grows keeps.prepares.grows).listed he
      exact (aux e new).eq_invokerType (distinct listed ht)

/-- A definition that is found by the invoker's name is found by its identity. -/
theorem Invocable.interface? (h : R.Invocable) {e : Entry} (he : R.find? (invokerName n) = some e) :
    R.interface? (invokerType n).id = some (invokerType n) := by
  obtain ⟨t, -, found⟩ := find?_eq_some_iff.1 he
  have filed := h.sound.filed found
  rw [h.definition n e he] at found filed
  subst filed
  exact Option.bind_eq_some_iff.2 ⟨_, found, rfl⟩

/-- An interface is the same in a later registry where no type has displaced another. -/
theorem interface?_of_grows {i : InterfaceType} (sound : R.Sound) (grows : R.Grows S)
    (distinct : S.Distinct) (h : R.interface? t = some i) : S.interface? t = some i := by
  have known := contains_of_interface? h
  unfold Registry.interface? at h ⊢
  rw [get?_eq_of_grows sound grows distinct fun _ => known, h]

end Registry

/-! ### Instances of invokers -/

/-- What the identity of the invoker for `n` arguments at types is computed from. -/
def Source.invoker (n : Nat) (types : List TypeRef) : Source :=
  .applied (invokerType n).id (types.map (·.id))

/-- The interface with the identity `u` is the invoker for `n` arguments at types. -/
def Registry.IsInvoker (R : Registry) (n : Nat) (types : List TypeRef) (u : TypeId) : Prop :=
  ∃ j, R.interface? u = some j ∧ (invokerType n).Instantiates (invokerType n).id types u j

theorem Registry.IsInvoker.of_grows {R S : Registry} {n : Nat} {types : List TypeRef} {u : TypeId}
    (h : R.IsInvoker n types u) (sound : R.Sound) (grows : R.Grows S) (distinct : S.Distinct) :
    S.IsInvoker n types u := by
  obtain ⟨j, hj, instantiates⟩ := h
  exact ⟨j, interface?_of_grows sound grows distinct hj, instantiates⟩

/-- A type parameter by value is replaced by the type that it is paired with, by value. -/
theorem TypeRef.Replaces.eq_value {params args : List TypeId} {p q : TypeId} {u : TypeRef}
    (h : TypeRef.Replaces params args (.value p) u) (pair : (p, q) ∈ params.zip args) :
    u = .value q := by
  obtain ⟨id, passing⟩ := u
  have replaced : id = q := h.param _ pair rfl
  have kept : passing = .byValue := h.passing
  rw [replaced, kept]
  rfl

theorem eq_of_forall₂_replaces {params args ps qs : List TypeId} {us : List TypeRef}
    (h : List.Forall₂ (TypeRef.Replaces params args) (ps.map TypeRef.value) us)
    (length : ps.length = qs.length) (pairs : ∀ p ∈ ps.zip qs, p ∈ params.zip args) :
    us = qs.map TypeRef.value := by
  induction ps generalizing qs us with
  | nil =>
    cases h
    rw [List.length_eq_zero_iff.1 length.symm]
    rfl
  | cons p ps ih =>
    obtain ⟨q, qs, rfl⟩ := List.exists_cons_of_length_eq_add_one length.symm
    rw [List.zip_cons_cons, List.forall_mem_cons] at pairs
    cases h with
    | @cons _ u _ us replaces rest =>
      rw [List.map_cons, ← ih rest (Nat.succ.inj length) pairs.2, replaces.eq_value pairs.1]

/-- An invoker at types has one method, which takes and gives these types by value. -/
theorem InterfaceType.Instantiates.invoke {params : List TypeRef} {result : TypeRef} {u : TypeId}
    {j : InterfaceType}
    (h : (invokerType params.length).Instantiates (invokerType params.length).id
      (params ++ [result]) u j) :
    ∃ m, j.methods = [m] ∧ m.name = invokeName ∧ m.params = params.map TypeRef.element ∧
      m.result = result.element := by
  obtain ⟨m, _, invoke, none, methods⟩ := List.forall₂_cons_left_iff.1 h.methods
  rw [List.forall₂_nil_left_iff.1 none] at methods
  have length : (invokerParams params.length).length = (params.map (·.id)).length := by
    unfold invokerParams
    simp
  -- the parameters for the arguments are paired with the first types, and that for the result
  -- with the last
  have pairs : (invokerType params.length).typeParams.zip ((params ++ [result]).map (·.id)) =
      (invokerParams params.length).zip (params.map (·.id)) ++
        [(invokerResult params.length, result.id)] := by
    rw [List.map_append]
    exact List.zip_append length
  refine ⟨m, methods, invoke.name, ?_, ?_⟩
  · have replaced := eq_of_forall₂_replaces invoke.params length
      (fun p hp => by rw [pairs]; exact List.mem_append_left _ hp)
    rw [replaced, List.map_map]
    rfl
  · refine invoke.result.eq_value (p := invokerResult params.length) ?_
    rw [pairs]
    exact List.mem_append_right _ (List.mem_singleton_self _)

namespace SynthM

variable {s t : Session} {n : Nat} {u : TypeId} {types : List TypeRef}

theorem keepsInvokers_of_invoker (h : extend (·.invoker n) s = .ok u t) : s.KeepsInvokers t := by
  have runs : s.KeepsInvokers (endState (extend (·.invoker n) s)) :=
    runs_extend fun _ _ h => Session.keepsInvokers_prepared.invoker h
  rwa [h] at runs

theorem keepsInvokers_of_invokerAt {e : Entry}
    (known : s.registry.find? (invokerName n) = some e) (h : invokerAt e.id types s = .ok u t) :
    s.KeepsInvokers t ∧ t.registry.find? (invokerName n) = some e := by
  constructor
  · have runs : s.KeepsInvokers (endState (invokerAt e.id types s)) :=
      runs_extend fun _ _ h => Session.keepsInvokers_prepared.instantiate known h
    rwa [h] at runs
  · rcases register_of_instantiate (extend_eq_ok h) with same | ⟨e', registers⟩
    · exact same ▸ known
    · exact find?_of_register registers known

/-- The instance of an invoker that synthesis is given is the invoker at the types asked for. -/
theorem isInvoker_of_invokerAt {last : Registry} {e : Entry}
    (known : s.registry.find? (invokerName n) = some e) (h : invokerAt e.id types s = .ok u t)
    (invocable : s.registry.Invocable) (grows : t.registry.Grows last) (distinct : last.Distinct)
    (params : (invokerType n).typeParams.Nodup) (apart : last.IsApart (.invoker n types)) :
    u = (Source.invoker n types).id ∧ last.IsInvoker n types u := by
  have step := (keepsInvokers_of_invokerAt known h).1.prepares.grows
  have made := extend_eq_ok h
  rw [show e.id = (invokerType n).id by rw [invocable.definition n e known]; rfl] at made
  have whole := Registry.Grows.trans step grows
  have own (e : Entry) (he : s.registry.get? (Source.invoker n types).id = some e) :
      e.source = .invoker n types := by
    obtain ⟨es, adds⟩ := exists_adds_of_grows invocable.sound whole distinct
    exact apart.source_eq (invocable.sound.of_grows whole) (adds.get? he)
  obtain ⟨j, hj, instantiates, -⟩ :=
    invocable.faithful.exists_instance (invocable.interface? known) params own made
  refine ⟨(instantiate_cases made).1, ?_⟩
  exact IsInvoker.of_grows ⟨j, hj, instantiates⟩ (invocable.sound.of_grows step) grows distinct

end SynthM

end TypeSynthesis
