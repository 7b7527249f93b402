import TypeSynthesis.Proofs.Synthesis.Steps
import TypeSynthesis.Registry.Host

/-!
# Sequences of registry operations

What the registry keeps to, whichever of its operations are applied and in whichever order, also
where some of them are refused.

* `Operation`: the operations that may extend a registry, `Operation.after` their effect;
* `Registry.history`: the registries that a sequence of operations passes through;
* `Source`: what the identity of a type is computed from, a name or a generic definition at
  arguments;
* `Apart`: different sources have different identities;
* `indexed_history`: if so, the indices stay inverse to each other and no type is ever changed,
  replaced or removed;
* `Registry.Built`: the registries that operations build, with `Registry.Built.sound`;
* `Registry.WellNamed`: identities come from names, except for those of instances, and so it is with
  every registry that operations build.

Two kinds of steps extend a registry.  `Registry.register` checks the name and the identity, so
that an addition is strict by itself.  `Registry.provide` checks the name alone: there, that the
identity is free as well follows from the free name and from sources that are apart.
-/

namespace TypeSynthesis

open Registry

/-! ### Operations -/

/-- The operations of a registry that may extend it, with their arguments. -/
inductive Operation
  | register (e : Entry)
  | providePrimitives
  | resolve (text : String)
  | pointerTo (pointee : TypeId)
  | invoker (arity : Nat)
  | instantiate (definition : TypeId) (args : List TypeRef)
  | beginClass (name : String) (base : TypeId) (interfaces : List TypeId)
  | beginInterface (name : String) (bases : List TypeId)
  | finishClass (draft : ClassType)
  | finishInterface (draft : InterfaceType)
  deriving DecidableEq, Repr, Inhabited

/-- Whether the types that an operation registers are as their constructors make them: instances of
generic definitions come from instantiation alone. -/
def Operation.isPlain : Operation → Bool
  | register (.interfaceType i) | finishInterface i => !i.isInstance
  | _ => true

/-- The registry that an operation makes, unless it is refused.  A draft is nowhere before it is
finished. -/
def Operation.run (R : Registry) : Operation → Except RegistrationError Registry
  | register e => R.register e
  | providePrimitives => .ok R.providePrimitives
  | resolve text => .ok (R.resolve text).2
  | pointerTo pointee => .ok (R.pointerTo pointee).2
  | invoker arity => do return (← R.invoker arity).2
  | instantiate definition args => do return (← R.instantiate definition args).2
  | beginClass name base interfaces => do
    let _ ← R.beginClass name base interfaces
    return R
  | beginInterface name bases => do
    let _ ← R.beginInterface name bases
    return R
  | finishClass draft => R.register (.classType draft)
  | finishInterface draft => R.register (.interfaceType draft)

/-- The registry after an operation.  One that is refused leaves it as it is. -/
def Operation.after (R : Registry) (o : Operation) : Registry :=
  match o.run R with
  | .ok S => S
  | .error _ => R

/-- The registries that a sequence of operations passes through, from the first to the last. -/
def Registry.history (R : Registry) : List Operation → List Registry
  | [] => [R]
  | o :: os => R :: history (o.after R) os

theorem mem_history_self (R : Registry) (os : List Operation) : R ∈ R.history os := by
  cases os <;> simp [history]

/-! ### What identities are computed from -/

/-- What the identity of a type is computed from: its name or, for an instance of a generic
definition, the definition at its arguments. -/
inductive Source
  | named (name : String)
  | applied (definition : TypeId) (args : List TypeId)
  deriving DecidableEq, Repr, Inhabited

/-- The identity that a source leads to. -/
def Source.id : Source → TypeId
  | named name => TypeId.ofName name
  | applied definition args => TypeId.ofInstance definition args

/-- What the identity of a type is computed from. -/
def Entry.source : Entry → Source
  | interfaceType i =>
    match i.instanceOf? with
    | none => .named i.name
    | some inst => .applied inst.definition (inst.args.map (·.id))
  | e => .named e.name

theorem Entry.id_source (e : Entry) : e.source.id = e.id := by
  cases e with
  | interfaceType i =>
    unfold Entry.source Entry.id InterfaceType.id
    dsimp only
    cases i.instanceOf? <;> rfl
  | _ => rfl

/-- A type whose identity comes from a name has this name. -/
theorem Entry.name_eq_of_source {e : Entry} {name : String} (h : e.source = .named name) :
    e.name = name := by
  cases e with
  | interfaceType i =>
    unfold Entry.source at h
    dsimp only at h
    split at h
    · exact Source.named.inj h
    · cases h
  | _ => exact Source.named.inj h

/-- The identity of the type comes from its name, or its name ends in a bracket, as the names of
instances do. -/
def Entry.WellNamed (e : Entry) : Prop :=
  e.id = .ofName e.name ∨ e.name.toList.getLast? = some '>'

theorem Entry.wellNamed_of_source {e : Entry} (h : e.source = .named e.name) : e.WellNamed := by
  refine .inl ?_
  rw [← e.id_source, h]
  rfl

/-- What is registered as its constructor makes it is well named. -/
theorem Entry.wellNamed_of_plain {e : Entry} (plain : (Operation.register e).isPlain = true) :
    e.WellNamed := by
  refine Entry.wellNamed_of_source ?_
  cases e with
  | interfaceType i =>
    have noInstance : i.instanceOf? = none := by
      simpa [Operation.isPlain, InterfaceType.isInstance] using plain
    unfold Entry.source
    dsimp only
    rw [noInstance]
    rfl
  | _ => rfl

theorem wellNamed_instanceAt (R : Registry) (i : InterfaceType) (t : TypeId)
    (args : List TypeRef) (s : Substitution) :
    (Entry.interfaceType (R.instanceAt i t args s)).WellNamed := by
  refine .inr ?_
  show (i.name ++ "<" ++ R.displayAll args ++ ">").toList.getLast? = some '>'
  rw [String.toList_append]
  exact List.getLast?_concat ..

/-- The sources that a registry has used: the names that are taken and the sources of its
types. -/
def Registry.sources (R : Registry) : List Source :=
  R.names.keys.map .named ++ R.entries.map Entry.source

/-- Different sources among those that several registries have used have different identities. -/
def Apart (Rs : List Registry) : Prop :=
  ∀ s ∈ Rs.flatMap sources, ∀ s' ∈ Rs.flatMap sources, s.id = s'.id → s = s'

instance (Rs : List Registry) : Decidable (Apart Rs) :=
  inferInstanceAs (Decidable (∀ s ∈ _, ∀ s' ∈ _, _ → _))

theorem Apart.mono {Rs Ss : List Registry} (h : Apart Ss) (sub : Rs ⊆ Ss) : Apart Rs := by
  have mem {s : Source} (hs : s ∈ Rs.flatMap sources) : s ∈ Ss.flatMap sources := by
    obtain ⟨R, hR, hs⟩ := List.mem_flatMap.1 hs
    exact List.mem_flatMap.2 ⟨R, sub hR, hs⟩
  exact fun s hs s' hs' => h s (mem hs) s' (mem hs')

theorem named_mem_sources {R : Registry} {name : String} (h : R.containsName name = true) :
    .named name ∈ R.sources := by
  obtain ⟨t, ht⟩ := containsName_eq_true_iff.1 h
  refine List.mem_append_left _ (List.mem_map_of_mem ?_)
  exact List.mem_map_of_mem (f := (·.1)) (mem_of_names_get? ht)

theorem source_mem_sources {R : Registry} {t : TypeId} {e : Entry} (h : R.get? t = some e) :
    e.source ∈ R.sources := by
  exact List.mem_append_right _ (List.mem_map_of_mem (mem_entries h))

/-! ### Provided types -/

/-- A registry and those that further types with identities by name make of it, each added under
a free name. -/
inductive Registry.Provides (R : Registry) : Registry → Prop
  | refl : Provides R R
  | add {S : Registry} {e : Entry} (h : Provides R S) (free : S.containsName e.name = false)
      (named : e.source = .named e.name) : Provides R (S.add e)

namespace Registry

variable {R S T : Registry} {e : Entry} {t : TypeId}

theorem Provides.grows (h : R.Provides S) : R.Grows S := by
  induction h with
  | refl => exact .refl
  | add _ free _ ih => exact ih.add free

theorem Provides.trans (h : R.Provides S) (h' : S.Provides T) : R.Provides T := by
  induction h' with
  | refl => exact h
  | add _ free named ih => exact ih.add free named

theorem provides_provide (R : Registry) (named : e.source = .named e.name) :
    R.Provides (R.provide e) := by
  unfold provide
  split
  · exact .refl
  · rename_i free
    exact Provides.refl.add (Bool.eq_false_iff.2 free) named

theorem provides_provideAll (R : Registry) {es : List Entry}
    (named : ∀ e ∈ es, e.source = .named e.name) : R.Provides (R.provideAll es) := by
  induction es generalizing R with
  | nil => exact .refl
  | cons e es ih =>
    have first := R.provides_provide (named e List.mem_cons_self)
    exact first.trans (ih _ fun e' he' => named e' (List.mem_cons_of_mem _ he'))

theorem provides_providePrimitives (R : Registry) : R.Provides R.providePrimitives := by
  refine R.provides_provideAll fun e he => ?_
  obtain ⟨p, -, rfl⟩ := List.mem_map.1 he
  rfl

theorem provides_resolveReversed (R : Registry) (cs : List Char) :
    R.Provides (R.resolveReversed cs).2 := by
  induction cs with
  | nil => exact .refl
  | cons c cs ih =>
    unfold resolveReversed
    split
    · exact ih
    split
    · rw [snd_referenceTo]
      exact ih
    split
    · rcases snd_starOf (R.resolveReversed cs) with h | ⟨p, h⟩
      · rw [h]; exact ih
      · rw [h]; exact ih.trans (provides_provide _ rfl)
    · exact .refl

theorem provides_host : empty.Provides host := by
  refine (provides_providePrimitives empty).trans (provides_provideAll _ fun e he => ?_)
  simp only [List.mem_cons, List.not_mem_nil, or_false] at he
  obtain rfl | rfl | rfl | rfl := he <;> rfl

theorem provides_of_mem_starts (hR : R ∈ [empty, primitives, host]) : empty.Provides R := by
  simp only [List.mem_cons, List.not_mem_nil, or_false] at hR
  rcases hR with rfl | rfl | rfl
  · exact .refl
  · exact provides_providePrimitives empty
  · exact provides_host

/-- What is found after types were provided has been there before, or its name is taken. -/
theorem Provides.source_mem (h : R.Provides S) (grows : S.Grows T) (he : S.get? t = some e) :
    e.source ∈ R.sources ∨ e.source ∈ T.sources := by
  induction h with
  | refl => exact .inl (source_mem_sources he)
  | @add S e' _ free named ih =>
    rw [get?_add] at he
    split at he
    · have taken : (S.add e').containsName e'.name = true := by
        rw [containsName_add, beq_self_eq_true, Bool.true_or]
      rw [← Option.some.inj he, named]
      exact .inr (named_mem_sources (containsName_of_grows grows taken))
    · exact ih ((Grows.refl.add free).trans grows) he

/-- Where sources are apart, a type that is provided under a free name has a free identity. -/
theorem Provides.exists_adds (h : R.Provides T) (sound : R.Sound) (apart : Apart [R, T]) :
    ∃ es, R.Adds es T := by
  -- `T` stays the end of the run while the induction shortens the way to it
  suffices ∀ {S}, R.Provides S → S.Grows T → ∃ es, R.Adds es S from this h .refl
  intro S hS grows
  induction hS with
  | refl => exact ⟨[], .refl⟩
  | @add S e hS free named ih =>
    have later : S.Grows T := (Grows.refl.add free).trans grows
    obtain ⟨es, adds⟩ := ih later
    refine ⟨es ++ [e], adds.add free (Bool.eq_false_iff.2 fun taken => ?_)⟩
    obtain ⟨e', he'⟩ := contains_eq_true_iff.1 taken
    have filed := (sound.of_grows hS.grows).filed he'
    have new : e.source ∈ T.sources := by
      rw [named]
      refine named_mem_sources (containsName_of_grows grows ?_)
      rw [containsName_add, beq_self_eq_true, Bool.true_or]
    have same : e'.source = e.source := by
      refine apart _ ?_ _ ?_ (by rw [Entry.id_source, Entry.id_source, filed])
      · simpa using hS.source_mem later he'
      · simp [new]
    have names : e'.name = e.name := Entry.name_eq_of_source (same.trans named)
    -- so the name of the new type would be taken by the type in its place
    have listed := (sound.of_grows hS.grows).listed he'
    rw [names, containsName_eq_false_iff.1 free] at listed
    cases listed

end Registry

/-! ### One operation -/

/-- An operation registers at most one type, which is well named if the operation is plain, or it
provides types. -/
theorem Operation.after_cases (R : Registry) (o : Operation) :
    (∃ e, R.register e = .ok (o.after R) ∧ (o.isPlain = true → e.WellNamed)) ∨
      R.Provides (o.after R) := by
  unfold Operation.after
  cases h : o.run R with
  | error e => exact .inr .refl
  | ok S =>
    cases o with
    | register e => exact .inl ⟨e, h, Entry.wellNamed_of_plain⟩
    | providePrimitives => exact .inr (Except.ok.inj h ▸ provides_providePrimitives R)
    | resolve text => exact .inr (Except.ok.inj h ▸ provides_resolveReversed R _)
    | pointerTo pointee => exact .inr (Except.ok.inj h ▸ provides_provide R rfl)
    | invoker arity =>
      obtain ⟨⟨t, S'⟩, h', h⟩ := except_bind_eq_ok_iff.1 h
      cases h
      rcases register_of_invoker h' with same | registers
      · rw [same]; exact .inr .refl
      · exact .inl ⟨_, registers, fun _ => .inl rfl⟩
    | instantiate definition args =>
      obtain ⟨⟨t, S'⟩, h', h⟩ := except_bind_eq_ok_iff.1 h
      cases h
      obtain ⟨i, -, -, same | ⟨s, registers⟩⟩ := instantiate_eq_ok h'
      · rw [same]; exact .inr .refl
      · exact .inl ⟨_, registers, fun _ => wellNamed_instanceAt ..⟩
    | beginClass name base interfaces =>
      obtain ⟨c, -, h⟩ := except_bind_eq_ok_iff.1 h
      cases h
      exact .inr .refl
    | beginInterface name bases =>
      obtain ⟨i, -, h⟩ := except_bind_eq_ok_iff.1 h
      cases h
      exact .inr .refl
    | finishClass draft => exact .inl ⟨_, h, fun _ => .inl rfl⟩
    | finishInterface draft =>
      exact .inl ⟨_, h, Entry.wellNamed_of_plain (e := .interfaceType draft)⟩

/-- An operation lets the registry grow. -/
theorem Operation.grows_after (R : Registry) (o : Operation) : R.Grows (o.after R) := by
  rcases o.after_cases R with ⟨e, h, -⟩ | h
  · exact grows_register h
  · exact h.grows

/-- Where sources are apart, an operation only ever makes strict additions. -/
theorem Operation.exists_adds_after {R : Registry} (h : R.Sound) (o : Operation)
    (apart : Apart [R, o.after R]) : ∃ es, R.Adds es (o.after R) := by
  rcases o.after_cases R with ⟨e, registers, -⟩ | provides
  · exact ⟨[e], adds_of_register registers⟩
  · exact provides.exists_adds h apart

/-! ### Sequences of operations -/

/-- Every registry that a sequence of operations passes through comes from the first one by strict
additions, where sources are apart. -/
theorem Registry.Sound.exists_adds {R S : Registry} {os : List Operation} (h : R.Sound)
    (apart : Apart (R.history os)) (hS : S ∈ R.history os) : ∃ es, R.Adds es S := by
  induction os generalizing R with
  | nil =>
    rw [history, List.mem_singleton] at hS
    rw [hS]
    exact ⟨[], .refl⟩
  | cons o os ih =>
    rw [history, List.mem_cons] at hS
    rcases hS with rfl | hS
    · exact ⟨[], .refl⟩
    have rest : Apart ((o.after R).history os) := apart.mono (List.subset_cons_self ..)
    have first : Apart [R, o.after R] := by
      refine apart.mono (List.cons_subset.2 ⟨List.mem_cons_self, ?_⟩)
      exact List.cons_subset.2
        ⟨List.mem_cons_of_mem _ (mem_history_self _ os), List.nil_subset _⟩
    obtain ⟨es, adds⟩ := o.exists_adds_after h first
    obtain ⟨es', adds'⟩ := ih (h.of_grows (o.grows_after R)) rest hS
    exact ⟨es ++ es', adds.trans adds'⟩

theorem exists_adds_of_mem_history {R S : Registry} {os : List Operation} (h : R.Indexed)
    (apart : Apart (R.history os)) (hS : S ∈ R.history os) : ∃ es, R.Adds es S :=
  h.sound.exists_adds apart hS

/-- Each of the registries that a compilation may start from has inverse indices, where its
sources are apart. -/
theorem indexed_of_mem_starts {R : Registry} (hR : R ∈ [empty, primitives, host])
    (apart : Apart [R]) : R.Indexed := by
  have provides := provides_of_mem_starts hR
  -- the registry without types has no sources
  have apart' : Apart [empty, R] := apart
  obtain ⟨es, adds⟩ := provides.exists_adds sound_empty apart'
  exact indexed_empty.of_adds adds

/-- Whichever operations are applied to a registry that a compilation may start from, whether
accepted or refused, the indices of every registry on the way are inverse to each other, and a
type that one of them has is the same in every later one.  The only assumption is that different
names, and different definitions at arguments, among those in use have different identities. -/
theorem indexed_history {start : Registry} (hs : start ∈ [empty, primitives, host])
    (os : List Operation) (apart : Apart (start.history os)) :
    (∀ R ∈ start.history os, R.Indexed) ∧
    (start.history os).Pairwise
      (fun R S => ∀ t e, R.get? t = some e → S.get? t = some e) := by
  have first : start.Indexed :=
    indexed_of_mem_starts hs
      (apart.mono (List.cons_subset.2 ⟨mem_history_self _ _, List.nil_subset _⟩))
  clear hs
  constructor
  · intro R hR
    obtain ⟨es, adds⟩ := exists_adds_of_mem_history first apart hR
    exact first.of_adds adds
  · induction os generalizing start with
    | nil => exact List.pairwise_singleton _ _
    | cons o os ih =>
      have rest : Apart ((o.after start).history os) := apart.mono (List.subset_cons_self ..)
      have second : o.after start ∈ start.history (o :: os) :=
        List.mem_cons_of_mem _ (mem_history_self _ os)
      obtain ⟨es, adds⟩ := exists_adds_of_mem_history first apart second
      refine List.pairwise_cons.2 ⟨fun S hS t e he => ?_, ih rest (first.of_adds adds)⟩
      obtain ⟨es', adds'⟩ :=
        exists_adds_of_mem_history first apart (List.mem_cons_of_mem _ hS)
      exact adds'.get? he

/-- A class, the pointer types over it, a second class of the same name, which is refused, an
invoker definition, and its instance at the class. -/
def pointersAndInvoker : List Operation :=
  [.finishClass { name := "A" }, .resolve "A**", .register (.classType { name := "A" }),
   .invoker 0, .instantiate (.ofName (invokerName 0)) [.value (.ofName "A")]]

theorem indexed_history_pointersAndInvoker :
    (∀ R ∈ empty.history pointersAndInvoker, R.Indexed) ∧
    (empty.history pointersAndInvoker).Pairwise
      (fun R S => ∀ t e, R.get? t = some e → S.get? t = some e) :=
  indexed_history List.mem_cons_self pointersAndInvoker (by decide +kernel)

/-! ### Built registries -/

namespace Registry

variable {R S : Registry} {e : Entry}

/-- Every type is well named. -/
def WellNamed (R : Registry) : Prop := ∀ ⦃t : TypeId⦄ ⦃e : Entry⦄, R.get? t = some e → e.WellNamed

theorem wellNamed_empty : empty.WellNamed := fun _ _ h => nomatch h

theorem WellNamed.add (h : R.WellNamed) (he : e.WellNamed) : (R.add e).WellNamed := by
  intro t e' he'
  rw [get?_add] at he'
  split at he'
  · exact Option.some.inj he' ▸ he
  · exact h he'

theorem WellNamed.of_register (h : R.WellNamed) (he : e.WellNamed) (hS : R.register e = .ok S) :
    S.WellNamed := by
  obtain ⟨-, -, rfl⟩ := register_eq_ok_iff.1 hS
  exact h.add he

theorem WellNamed.of_provides (h : R.WellNamed) (provides : R.Provides S) : S.WellNamed := by
  induction provides with
  | refl => exact h
  | add _ _ named ih => exact ih.add (Entry.wellNamed_of_source named)

/-- The registries that operations build from one that a compilation may start from. -/
def Built (R : Registry) : Prop :=
  ∃ start ∈ [empty, primitives, host], ∃ os : List Operation,
    (∀ o ∈ os, o.isPlain = true) ∧ os.foldl Operation.after start = R

theorem grows_foldl_after (R : Registry) (os : List Operation) :
    R.Grows (os.foldl Operation.after R) := by
  induction os generalizing R with
  | nil => exact .refl
  | cons o os ih => exact (o.grows_after R).trans (ih _)

/-- Operations keep a registry sound, whatever the identities. -/
theorem Built.sound {R : Registry} (h : R.Built) : R.Sound := by
  obtain ⟨start, hs, os, -, rfl⟩ := h
  exact sound_empty.of_grows ((provides_of_mem_starts hs).grows.trans (grows_foldl_after start os))

/-- Every type that plain operations have built is well named. -/
theorem Built.wellNamed {R : Registry} (h : R.Built) : R.WellNamed := by
  obtain ⟨start, hs, os, plain, rfl⟩ := h
  have first : start.WellNamed := wellNamed_empty.of_provides (provides_of_mem_starts hs)
  clear hs
  induction os generalizing start with
  | nil => exact first
  | cons o os ih =>
    have rest : ∀ o' ∈ os, o'.isPlain = true := fun o' ho' => plain o' (List.mem_cons_of_mem _ ho')
    refine ih _ rest ?_
    rcases o.after_cases start with ⟨e, registers, named⟩ | provides
    · exact first.of_register (named (plain o List.mem_cons_self)) registers
    · exact first.of_provides provides

theorem built_of_mem_starts {start : Registry} (hs : start ∈ [empty, primitives, host]) :
    start.Built :=
  ⟨start, hs, [], nofun, rfl⟩

end Registry

end TypeSynthesis
