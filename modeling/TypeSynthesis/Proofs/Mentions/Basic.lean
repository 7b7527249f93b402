import TypeSynthesis.Proofs.Definitions.Basic
import TypeSynthesis.Proofs.Hierarchy.Order
import TypeSynthesis.Proofs.Registry.Instantiation
import TypeSynthesis.Proofs.Registry.Naming
import TypeSynthesis.Proofs.Synthesis.Implement

/-!
# The types that definitions mention

A class or an interface mentions its supertypes, the types of its fields, the owners of its methods,
and the types in their signatures.  What synthesis registers mentions registered types, with one
exception: the signatures of a type that stands under an invoker definition may have the type
parameters of the definition in them, which are not registered.

* `Entry.references`, `Entry.signatureTypes`, `Entry.mentions`: the mentioned types;
* `Registry.Under`, `Registry.Borrows`: one type stands directly under another at some point of a
  run, and a type is a parameter of an invoker definition at or above a type;
* `Registry.Grounded first R`: what the types of `R` mention is registered there, or borrowed since
  the registry `first`;
* `Grounded.resolveReversed`, `Grounded.invoker`, `Grounded.instantiate`, `Grounded.register`: the
  operations of synthesis keep a registry grounded;
* `grounded_host`: the registry of the host is grounded.
-/

namespace TypeSynthesis

open Relation Registry

/-! ### Mentioned types -/

/-- The types of the result and of the parameters. -/
def Signature.types (m : Signature) : List TypeId := m.result.id :: m.params.map (·.id)

namespace Entry

/-- The fields that a definition lists. -/
def fields : Entry → List Field
  | .classType c => c.fields
  | _ => []

/-- The types that a class or an interface refers to outside of signatures: those directly above it,
the types of its fields and the owners of its methods. -/
def references (e : Entry) : List TypeId :=
  e.supertypes ++ (e.fields.map (·.type.id) ++ e.methods.map Signature.declaring)

/-- The types in the signatures of the methods. -/
def signatureTypes (e : Entry) : List TypeId := e.methods.flatMap Signature.types

/-- Every type that a class or an interface mentions. -/
def mentions (e : Entry) : List TypeId := e.references ++ e.signatureTypes

end Entry

/-! ### Borrowed type parameters -/

namespace Registry

/-- At some point of a run the second type is registered where the first names a supertype.  Where
identities collide, another type may take its place later. -/
def Under (first last : Registry) (e e' : Entry) : Prop :=
  ∃ S i, Between first S last ∧ i ∈ e.supertypes ∧ S.get? i = some e'

/-- The identity is a type parameter of an invoker definition at or above the type. -/
def Borrows (first last : Registry) (e : Entry) (u : TypeId) : Prop :=
  ∃ n, ReflTransGen (Under first last) e (.interfaceType (invokerType n)) ∧
    u ∈ (invokerType n).typeParams

/-- The identity is a type parameter of an invoker definition at or above one of the supertypes. -/
def Lends (first last : Registry) (supers : List TypeId) (u : TypeId) : Prop :=
  ∃ S i e, Between first S last ∧ i ∈ supers ∧ S.get? i = some e ∧ Borrows first last e u

variable {first R S : Registry} {e e' : Entry} {t u : TypeId} {supers : List TypeId}

theorem Under.mono (h : Under first R e e') (grows : R.Grows S) : Under first S e e' := by
  obtain ⟨T, i, between, above, found⟩ := h
  exact ⟨T, i, between.mono .refl grows, above, found⟩

theorem Borrows.mono (h : Borrows first R e u) (grows : R.Grows S) : Borrows first S e u := by
  obtain ⟨n, under, param⟩ := h
  exact ⟨n, ReflTransGen.mono (fun _ _ step => step.mono grows) _ _ under, param⟩

theorem Lends.mono (h : Lends first R supers u) (grows : R.Grows S) : Lends first S supers u := by
  obtain ⟨T, i, e, between, above, found, borrows⟩ := h
  exact ⟨T, i, e, between.mono .refl grows, above, found, borrows.mono grows⟩

/-- What the supertypes of a type lend, the type borrows. -/
theorem Lends.borrows (h : Lends first R e.supertypes u) : Borrows first R e u := by
  obtain ⟨T, i, e', between, above, found, n, under, param⟩ := h
  exact ⟨n, .head ⟨T, i, between, above, found⟩ under, param⟩

/-- The steps upwards in a registry are steps at this point of the run. -/
theorem exists_under_of_above (grows : first.Grows R) (above : ReflTransGen R.Above t u)
    (found : R.get? u = some e) :
    ∃ e', R.get? t = some e' ∧ ReflTransGen (Under first R) e' e := by
  induction above using ReflTransGen.head_induction_on with
  | refl => exact ⟨e, found, .refl⟩
  | head step _ ih =>
    obtain ⟨e₁, found₁, names⟩ := step
    obtain ⟨e₂, found₂, under⟩ := ih
    exact ⟨e₁, found₁, .head ⟨R, _, ⟨grows, .refl⟩, names, found₂⟩ under⟩

/-! ### Grounded registries -/

/-- The definition may join the registry: it has a proper name, and what it mentions is registered,
or is itself, or is borrowed. -/
structure Ready (first R : Registry) (e : Entry) : Prop where
  named : e.WellNamed
  tame : e.Tame
  references : ∀ u ∈ e.references, R.contains u = true ∨ u = e.id
  signatures : ∀ u ∈ e.signatureTypes, R.contains u = true ∨ u = e.id ∨ Borrows first R e u

/-- All that the types of the registry mention is registered, apart from type parameters that are
borrowed from invoker definitions. -/
structure Grounded (first R : Registry) : Prop where
  grows : first.Grows R
  sound : R.Sound
  root : R.contains .object = true
  listed {name : String} {t : TypeId} (h : R.names.get? name = some t) :
    t = .ofName name ∨ name.toList.getLast? = some '>'
  tame {t : TypeId} {e : Entry} (h : R.get? t = some e) : e.Tame
  references {t : TypeId} {e : Entry} (h : R.get? t = some e) :
    ∀ u ∈ e.references, R.contains u = true
  signatures {t : TypeId} {e : Entry} (h : R.get? t = some e) :
    ∀ u ∈ e.signatureTypes, R.contains u = true ∨ Borrows first R e u

/-- A definition that is ready joins the registry under a free name. -/
theorem Grounded.add (h : Grounded first R) (ready : Ready first R e)
    (free : R.containsName e.name = false) : Grounded first (R.add e) := by
  have step : R.Grows (R.add e) := Grows.refl.add free
  have kept {v : TypeId} (hv : R.contains v = true) : (R.add e).contains v = true :=
    contains_of_grows step hv
  have itself : (R.add e).contains e.id = true :=
    contains_eq_true_iff.2 ⟨e, by rw [get?_add, if_pos rfl]⟩
  have cases_get? {t : TypeId} {e' : Entry} (he' : (R.add e).get? t = some e') :
      e' = e ∨ R.get? t = some e' := by
    rw [get?_add] at he'
    split at he'
    · exact .inl (Option.some.inj he').symm
    · exact .inr he'
  refine
    { grows := h.grows.trans step, sound := h.sound.add free, root := kept h.root,
      listed := ?listed, tame := ?tame, references := ?references, signatures := ?signatures }
  case listed =>
    intro name t hn
    rw [names_get?_add] at hn
    split at hn
    · rename_i same
      cases hn
      rw [same]
      exact ready.named
    · exact h.listed hn
  case tame =>
    intro t e' he'
    rcases cases_get? he' with rfl | old
    · exact ready.tame
    · exact h.tame old
  case references =>
    intro t e' he' v hv
    rcases cases_get? he' with rfl | old
    · rcases ready.references v hv with known | rfl
      · exact kept known
      · exact itself
    · exact kept (h.references old v hv)
  case signatures =>
    intro t e' he' v hv
    rcases cases_get? he' with rfl | old
    · rcases ready.signatures v hv with known | rfl | borrows
      · exact .inl (kept known)
      · exact .inl itself
      · exact .inr (borrows.mono step)
    · exact (h.signatures old v hv).imp kept fun borrows => borrows.mono step

theorem Grounded.register (h : Grounded first R) (ready : Ready first R e)
    (registers : R.register e = .ok S) : Grounded first S := by
  obtain ⟨free, -, rfl⟩ := register_eq_ok_iff.1 registers
  exact h.add ready free

/-! ### Written names -/

theorem ready_pointer (p : PointerType) : Ready first R (.pointerType p) where
  named := .inl rfl
  tame := nofun
  references := nofun
  signatures := nofun

theorem Grounded.provide_pointer (h : Grounded first R) (p : PointerType) :
    Grounded first (R.provide (.pointerType p)) := by
  unfold provide
  split
  · exact h
  · rename_i free
    exact h.add (ready_pointer p) (Bool.eq_false_iff.2 free)

/-- A pointer type is registered under the identity of its name, also if the name was taken. -/
theorem Grounded.contains_pointer (h : Grounded first R) (p : PointerType) :
    (R.provide (.pointerType p)).contains p.id = true := by
  have provided := h.provide_pointer p
  obtain ⟨t, ht⟩ := containsName_eq_true_iff.1 (R.containsName_provide (.pointerType p))
  rcases provided.listed ht with rfl | bracket
  · exact provided.sound.known ht
  · have bracket : p.name.toList.getLast? = some '>' := bracket
    rw [getLast?_pointerName] at bracket
    cases bracket

theorem Grounded.resolveReversed (h : Grounded first R) (cs : List Char) :
    Grounded first (R.resolveReversed cs).2 := by
  induction cs with
  | nil => exact h
  | cons c cs ih =>
    unfold Registry.resolveReversed
    split
    · exact ih
    split
    · rw [snd_referenceTo]
      exact ih
    split
    · rcases snd_starOf (R.resolveReversed cs) with same | ⟨p, provided⟩
      · rw [same]; exact ih
      · rw [provided]; exact ih.provide_pointer p
    · exact h

/-- What a written name denotes is registered. -/
theorem Grounded.contains_of_resolveReversed (h : Grounded first R) {cs : List Char} {v : TypeRef}
    (denotes : R.resolveReversed cs = (some v, S)) : S.contains v.id = true := by
  induction cs generalizing v S with
  | nil =>
    obtain ⟨listed, rfl⟩ := Prod.mk.inj denotes
    exact (names_get?_again h.sound .refl listed).2
  | cons c cs ih =>
    unfold Registry.resolveReversed at denotes
    split at denotes
    · exact ih denotes
    split at denotes
    · obtain ⟨w, hw, -, rfl⟩ := referenceTo_eq_some denotes
      have known : S.contains w.id = true := ih hw
      exact known
    split at denotes
    · obtain ⟨w, T, hw, -, rfl, rfl⟩ := starOf_eq_some denotes
      have grounded := h.resolveReversed cs
      rw [hw] at grounded
      exact grounded.contains_pointer _
    · obtain ⟨listed, rfl⟩ := Prod.mk.inj denotes
      exact (names_get?_again h.sound .refl listed).2

/-! ### Invokers -/

/-- The signature of an invoker definition has the type parameters of the definition in it. -/
theorem ready_invokerType (n : Nat) : Ready first R (.interfaceType (invokerType n)) where
  named := .inl rfl
  tame := (Entry.Auxiliary.invoker n).tame
  references u hu := .inr (List.mem_singleton.1 hu)
  signatures u hu := by
    refine .inr (.inr ⟨n, .refl, ?_⟩)
    have hu : u ∈ invokerResult n :: ((invokerParams n).map TypeRef.value).map (·.id) ++ [] := hu
    rw [List.append_nil, List.map_map] at hu
    rcases List.mem_cons.1 hu with rfl | hu
    · exact List.mem_append_right _ (List.mem_singleton_self _)
    · obtain ⟨v, hv, rfl⟩ := List.mem_map.1 hu
      exact List.mem_append_left _ hv

theorem Grounded.invoker {n : Nat} (h : Grounded first R) (asked : R.invoker n = .ok (t, S)) :
    Grounded first S := by
  rcases register_of_invoker asked with same | registers
  · exact same ▸ h
  · exact h.register (ready_invokerType n) registers

/-- An instance of an invoker definition mentions no type but the arguments. -/
theorem ready_instanceAt {n : Nat} {args : List TypeRef} {s : Substitution}
    (hs : substitutionOf (invokerType n).name (invokerType n).typeParams args = .ok s)
    (known : ∀ a ∈ args, R.contains a.id = true) :
    Ready first R (.interfaceType (R.instanceAt (invokerType n) t args s)) where
  named := wellNamed_instanceAt ..
  tame := by
    rintro i same generic
    cases same
    cases generic
  references u hu := .inr (List.mem_singleton.1 hu)
  signatures u hu := by
    have replaced {v : TypeRef} (hv : v.id ∈ (invokerType n).typeParams) :
        R.contains (v.subst s).id = true := by
      obtain ⟨a, ha, same⟩ := TypeRef.exists_id_subst hs hv
      exact same ▸ known a ha
    have hu : u ∈ ((TypeRef.value (invokerResult n)).subst s).id ::
        (((invokerParams n).map TypeRef.value).map (·.subst s)).map (·.id) ++ [] := hu
    rw [List.append_nil, List.map_map, List.map_map] at hu
    refine .inl ?_
    rcases List.mem_cons.1 hu with rfl | hu
    · exact replaced (List.mem_append_right _ (List.mem_singleton_self _))
    · obtain ⟨v, hv, rfl⟩ := List.mem_map.1 hu
      exact replaced (v := .value v) (List.mem_append_left _ hv)

/-- The signatures of an instance at registered types are free of parameters. -/
theorem Grounded.instantiate {args : List TypeRef} (h : Grounded first R)
    (known : ∀ a ∈ args, R.contains a.id = true) (made : R.instantiate t args = .ok (u, S)) :
    Grounded first S := by
  obtain ⟨-, i, s, hi, generic, hs, ⟨-, rfl⟩ | registers⟩ := instantiate_cases made
  · exact h
  · -- no other definition is generic
    obtain ⟨n, rfl⟩ := h.tame (get?_of_interface? hi) i rfl generic
    exact h.register (ready_instanceAt hs known) registers

/-! ### The host -/

/-- The host has no generic definition, and what its types mention is registered. -/
theorem mentions_host : ∀ e ∈ host.entries, (∀ i ∈ e.asInterface?, i.isGeneric = false) ∧
    ∀ u ∈ e.mentions, host.contains u = true := by
  decide +kernel

theorem listed_host : ∀ p ∈ host.names.toList, p.2 = .ofName p.1 := by
  decide +kernel

theorem grounded_host : Grounded host host := by
  have known {t : TypeId} {e : Entry} (h : host.get? t = some e) :
      ∀ u ∈ e.mentions, host.contains u = true := (mentions_host e (mem_entries h)).2
  refine
    { grows := .refl, sound := (built_of_mem_starts (by simp)).sound,
      root := contains_eq_true_iff.2 ⟨_, get?_object_host⟩, listed := ?listed, tame := ?tame,
      references := ?references, signatures := ?signatures }
  case listed =>
    intro name t h
    exact .inl (listed_host _ (Table.mem_of_lookup_eq_some h))
  case tame =>
    rintro t e h i rfl generic
    have plain := (mentions_host _ (mem_entries h)).1 i rfl
    rw [plain] at generic
    cases generic
  case references =>
    intro t e h u hu
    exact known h u (List.mem_append_left _ hu)
  case signatures =>
    intro t e h u hu
    exact .inl (known h u (List.mem_append_right _ hu))

end Registry

end TypeSynthesis
