import TypeSynthesis.Proofs.Hierarchy.Grown
import TypeSynthesis.Proofs.Hierarchy.Search
import TypeSynthesis.Proofs.Registry.Operations

/-!
# The hierarchy is a partial order

Where every class derives from a registered class and implements registered interfaces, the subtype
relation is what the definitions say: a type is below what it names, below what that names, and so
on, and a class or interface is below the root type besides.

* `Registry.Supports`: what a definition names as its supertypes is what it must be;
* `Registry.Formed`: so it is with every definition of the registry, which also has no cycles;
* `Formed.isSubtype_iff`: the subtype relation is the closure of the steps above;
* `Registry.IsHierarchy`: walks to the base classes end, and the subtype relation is a partial
  order;
* `Operation.Founded`, `Founded`: operations that register supported definitions, and drafts that
  were begun before;
* `hierarchy_history`: every registry on the way of such operations has a hierarchy.
-/

namespace TypeSynthesis

open Relation

namespace Registry

variable {R S : Registry} {e : Entry} {t u : TypeId}

/-! ### Supported definitions -/

/-- The base that a class names is a registered class, and the interfaces that a class or an
interface names are registered interfaces. -/
def Supports (R : Registry) : Entry → Prop
  | .classType c =>
    (∀ b ∈ c.base?, (R.class? b).isSome = true) ∧ ∀ i ∈ c.interfaces, R.isInterface i = true
  | .interfaceType i => ∀ j ∈ i.bases, R.isInterface j = true
  | _ => True

instance (R : Registry) (e : Entry) : Decidable (R.Supports e) :=
  match e with
  | .classType c => inferInstanceAs <| Decidable
      ((∀ b ∈ c.base?, (R.class? b).isSome = true) ∧ ∀ i ∈ c.interfaces, R.isInterface i = true)
  | .interfaceType i => inferInstanceAs (Decidable (∀ j ∈ i.bases, R.isInterface j = true))
  | .primitive _ | .enumType _ | .pointerType _ => inferInstanceAs (Decidable True)

theorem class?_eq_some_iff {c : ClassType} :
    R.class? t = some c ↔ R.get? t = some (.classType c) := by
  refine ⟨get?_of_class?, fun h => ?_⟩
  simp [class?, h, Entry.asClass?]

theorem isInterface_iff : R.isInterface t = true ↔ ∃ i, R.get? t = some (.interfaceType i) := by
  unfold isInterface
  constructor
  · intro h
    obtain ⟨i, hi⟩ := Option.isSome_iff_exists.1 h
    exact ⟨i, get?_of_interface? hi⟩
  · rintro ⟨i, hi⟩
    simp [interface?, hi, Entry.asInterface?]

/-- What was supported stays so when types are only added. -/
theorem Supports.mono (keeps : ∀ t e, R.get? t = some e → S.get? t = some e)
    (h : R.Supports e) : S.Supports e := by
  have interfaces {i : TypeId} (hi : R.isInterface i = true) : S.isInterface i = true := by
    obtain ⟨j, hj⟩ := isInterface_iff.1 hi
    exact isInterface_iff.2 ⟨j, keeps _ _ hj⟩
  cases e with
  | classType c =>
    refine ⟨fun b hb => ?_, fun i hi => interfaces (h.2 i hi)⟩
    obtain ⟨d, hd⟩ := Option.isSome_iff_exists.1 (h.1 b hb)
    simp [class?_eq_some_iff.2 (keeps _ _ (class?_eq_some_iff.1 hd))]
  | interfaceType i => exact fun j hj => interfaces (h j hj)
  | _ => trivial

/-- The supertypes of a supported definition are registered. -/
theorem Supports.known (h : R.Supports e) : ∀ t ∈ e.supertypes, R.contains t = true := by
  have interfaces {i : TypeId} (hi : R.isInterface i = true) : R.contains i = true := by
    obtain ⟨j, hj⟩ := isInterface_iff.1 hi
    exact contains_eq_true_iff.2 ⟨_, hj⟩
  intro t ht
  cases e with
  | classType c =>
    rcases List.mem_append.1 ht with hb | hi
    · obtain ⟨d, hd⟩ := Option.isSome_iff_exists.1 (h.1 t (by simpa using hb))
      exact contains_eq_true_iff.2 ⟨_, get?_of_class? hd⟩
    · exact interfaces (h.2 t hi)
  | interfaceType i => exact interfaces (h t ht)
  | _ => cases ht

/-- Every definition is supported, and the registry has no cycles. -/
structure Formed (R : Registry) : Prop extends Layered R where
  supported {t : TypeId} {e : Entry} (h : R.get? t = some e) : R.Supports e

theorem supports_host : ∀ e ∈ host.entries, host.Supports e := by
  decide +kernel

theorem formed_host : Formed host where
  toLayered := layered_host
  supported h := supports_host _ (mem_entries h)

theorem Formed.add (h : Formed R) (supports : R.Supports e) (free : R.contains e.id = false) :
    Formed (R.add e) where
  toLayered := h.toLayered.add supports.known free
  supported {t e'} he' := by
    have keeps (u : TypeId) (d : Entry) (hd : R.get? u = some d) : (R.add e).get? u = some d :=
      get?_add_of_free free hd
    rw [get?_add] at he'
    by_cases same : t = e.id
    · rw [if_pos same] at he'
      cases he'
      exact supports.mono keeps
    · rw [if_neg same] at he'
      exact (h.supported he').mono keeps

theorem Formed.of_adds {es : List Entry} (h : Formed R) (adds : R.Adds es S)
    (supports : ∀ e ∈ es, R.Supports e) : Formed S := by
  induction adds with
  | refl => exact h
  | @add es S e adds _ id ih =>
    have before := ih fun e' he' => supports e' (List.mem_append_left _ he')
    have now : R.Supports e := supports e (by simp)
    exact before.add (now.mono fun t e' he' => adds.get? he') id

/-! ### What is above a type -/

theorem Layered.acyclic (h : Layered R) : R.Acyclic := by
  obtain ⟨rank, hrank⟩ := h.ranked
  exact acyclic_of_rank fun t b derives => hrank t b (above_of_derives derives)

theorem lineage_of_top {c : ClassType} (hc : R.class? t = some c) (top : R.baseClass? t = none) :
    R.lineage t = [c] := by
  unfold lineage ancestors
  rw [ancestorsUpTo_of_top top, List.filterMap_cons_some hc, List.filterMap_nil]

theorem lineage_of_derives (acyclic : R.Acyclic) {c : ClassType} (hc : R.class? t = some c)
    (htu : R.Derives t u) : R.lineage t = c :: R.lineage u := by
  simp [lineage, ancestors_of_derives acyclic htu, hc]

namespace Formed

variable (h : Formed R)
include h

/-- Above an interface there are only the interfaces that it extends. -/
theorem extends_of_above (ht : R.isInterface t = true) (htu : R.Above t u) :
    R.Extends t u ∧ R.isInterface u = true := by
  obtain ⟨i, hi⟩ := isInterface_iff.1 ht
  obtain ⟨e, he, hu⟩ := htu
  rw [hi] at he
  cases he
  have hu : u ∈ i.bases := hu
  refine ⟨?_, h.supported hi u hu⟩
  simpa [Extends, baseInterfaces, interface?, hi, Entry.asInterface?] using hu

theorem extends_of_reflTransGen (ht : R.isInterface t = true) (htu : ReflTransGen R.Above t u) :
    ReflTransGen R.Extends t u := by
  induction htu using ReflTransGen.head_induction_on with
  | refl => exact .refl
  | head step _ ih =>
    obtain ⟨extends_, hi⟩ := h.extends_of_above ht step
    exact .head extends_ (ih hi)

/-- What is directly above a class is its base, or an interface that it names. -/
theorem above_class {c : ClassType} (hc : R.class? t = some c) (htu : R.Above t u) :
    (R.Derives t u ∧ ∃ d, R.class? u = some d) ∨
      (u ∈ R.namedInterfaces t ∧ R.isInterface u = true) := by
  have ht := class?_eq_some_iff.1 hc
  obtain ⟨e, he, hu⟩ := htu
  rw [ht] at he
  cases he
  obtain ⟨hbase, hinterfaces⟩ := h.supported ht
  rcases List.mem_append.1 hu with hu | hu
  · have hu : c.base? = some u := by simpa using hu
    have registered := hbase u hu
    obtain ⟨d, hd⟩ := Option.isSome_iff_exists.1 registered
    exact .inl ⟨Registry.derives_iff.2 ⟨c, d, hc, hu, hd⟩, d, hd⟩
  · refine .inr ⟨?_, hinterfaces u hu⟩
    simp [namedInterfaces, ht, lineage, hc, hu]

/-- What is above a class is one of its ancestors, or an interface that one of them names, or one
that such an interface extends. -/
theorem above_class_cases {c : ClassType} (hc : R.class? t = some c)
    (htu : TransGen R.Above t u) :
    u ∈ R.ancestors t ∨ ∃ i ∈ R.namedInterfaces t, ReflTransGen R.Extends i u := by
  have acyclic := h.toLayered.acyclic
  induction htu using TransGen.head_induction_on generalizing c with
  | single step =>
    rcases h.above_class hc step with ⟨derives, -⟩ | ⟨named, -⟩
    · simp [ancestors_of_derives acyclic derives]
    · exact .inr ⟨u, named, .refl⟩
  | @head t s step rest ih =>
    rcases h.above_class hc step with ⟨derives, d, hd⟩ | ⟨named, hs⟩
    · -- the ancestors of the base, and the interfaces named there, are those of the class too
      rcases ih hd with hu | ⟨i, hi, hiu⟩
      · simp [ancestors_of_derives acyclic derives, hu]
      · refine .inr ⟨i, ?_, hiu⟩
        have ht := class?_eq_some_iff.1 hc
        have hs := class?_eq_some_iff.1 hd
        simp only [namedInterfaces, hs] at hi
        simp only [namedInterfaces, ht, lineage_of_derives acyclic hc derives,
          List.flatMap_cons]
        exact List.mem_append_right _ hi
    · exact .inr ⟨s, named, h.extends_of_reflTransGen hs rest.to_reflTransGen⟩

/-! ### The subtype relation -/

theorem isSubtype_of_above (htu : TransGen R.Above t u) : R.isSubtype t u = true := by
  obtain ⟨s, ⟨e, he, hs⟩, -⟩ := TransGen.head'_iff.1 htu
  unfold isSubtype
  cases e with
  | classType c =>
    have found := h.above_class_cases (class?_eq_some_iff.2 he) htu
    rw [← mem_allInterfaces_iff] at found
    rcases found with hu | hu <;> simp [he, hu, Entry.isReference]
  | interfaceType i =>
    have ht := isInterface_iff.2 ⟨i, he⟩
    have found : u ∈ R.allInterfaces t := by
      obtain ⟨j, hj, hju⟩ := TransGen.head'_iff.1 htu
      obtain ⟨extends_, interface⟩ := h.extends_of_above ht hj
      refine mem_allInterfaces_iff.2 ⟨j, ?_, h.extends_of_reflTransGen interface hju⟩
      simpa [Extends, baseInterfaces, namedInterfaces, interface?, he, Entry.asInterface?]
        using extends_
    simp [he, found, Entry.isReference]
  | _ => cases hs

/-- A type is a subtype of itself, of the root type if it is a class or an interface, and of what
lies above it. -/
theorem isSubtype_iff : R.isSubtype t u = true ↔
    t = u ∨ (u = .object ∧ ∃ e, R.get? t = some e ∧ e.isReference = true) ∨
      TransGen R.Above t u := by
  constructor
  · intro htu
    by_cases same : t = u
    · exact .inl same
    · obtain ⟨reference, root | above⟩ := subtype_cases htu same
      · exact .inr (.inl ⟨root, reference⟩)
      · exact .inr (.inr above)
  · rintro (rfl | ⟨rfl, e, he, reference⟩ | above)
    · simp [isSubtype]
    · simp [isSubtype, he, reference]
    · exact h.isSubtype_of_above above

theorem isSubtype_trans {v : TypeId} (htu : R.isSubtype t u = true)
    (huv : R.isSubtype u v = true) : R.isSubtype t v = true := by
  by_cases same : t = u
  · rwa [same]
  by_cases same' : u = v
  · rwa [← same']
  obtain ⟨reference, above⟩ := subtype_cases htu same
  obtain ⟨-, above'⟩ := subtype_cases huv same'
  rw [h.isSubtype_iff]
  rcases above' with rfl | above'
  · exact .inr (.inl ⟨rfl, reference⟩)
  · rcases above with rfl | above
    · -- nothing is above the root type
      exact absurd (h.toLayered.isSubtype_object huv).symm same'
    · exact .inr (.inr (above.trans above'))

end Formed

/-! ### The hierarchy of a registry -/

/-- The first type is a class that names the second as its base. -/
def HasBase (R : Registry) (t b : TypeId) : Prop := ∃ c, R.class? t = some c ∧ c.base? = some b

/-- The walk from any type to its base classes ends.  From a class it meets each class above it
once, and never the class itself, and it ends at a class without a base.  The subtype relation is a
partial order on all identities. -/
structure IsHierarchy (R : Registry) : Prop where
  ends (t : TypeId) : R.BaseChain t (R.ancestors t)
  ancestors {t : TypeId} {c : ClassType} (hc : R.class? t = some c) (u : TypeId) :
    u ∈ R.ancestors t ↔ TransGen R.HasBase t u
  once {t : TypeId} {c : ClassType} (hc : R.class? t = some c) : (t :: R.ancestors t).Nodup
  top {t : TypeId} {c : ClassType} (hc : R.class? t = some c) :
    ∃ u d, (t :: R.ancestors t).getLast? = some u ∧ R.class? u = some d ∧ d.base? = none
  order : IsPartialOrder TypeId fun t u => R.isSubtype t u = true

/-- A walk from a class ends at a class from which it does not go on. -/
theorem BaseChain.top {l : List TypeId} (h : R.BaseChain t l) {c : ClassType}
    (hc : R.class? t = some c) :
    ∃ u d, (t :: l).getLast? = some u ∧ R.class? u = some d ∧ R.baseClass? u = none := by
  induction h generalizing c with
  | @stop t h => exact ⟨t, c, rfl, hc, h⟩
  | @step t b l derives rest ih =>
    obtain ⟨-, d, -, -, hd⟩ := derives_iff.1 derives
    obtain ⟨u, d', last, hu, stop⟩ := ih hd
    exact ⟨u, d', by rw [List.getLast?_cons_cons]; exact last, hu, stop⟩

theorem Formed.derives_iff (h : Formed R) : R.Derives t u ↔ R.HasBase t u := by
  rw [Registry.derives_iff]
  constructor
  · rintro ⟨c, -, hc, hb, -⟩
    exact ⟨c, hc, hb⟩
  · rintro ⟨c, hc, hb⟩
    have registered := (h.supported (class?_eq_some_iff.1 hc)).1 u hb
    obtain ⟨d, hd⟩ := Option.isSome_iff_exists.1 registered
    exact ⟨c, d, hc, hb, hd⟩

/-- A registry of supported definitions has a hierarchy. -/
theorem Formed.isHierarchy (h : Formed R) : R.IsHierarchy where
  ends := baseChain_ancestors h.toLayered.acyclic
  ancestors _ u := by
    have same : R.HasBase = R.Derives := by
      funext t u
      exact propext h.derives_iff.symm
    rw [same]
    exact mem_ancestors_iff h.toLayered.acyclic
  once _ := nodup_ancestors h.toLayered.acyclic _
  top {t c} hc := by
    obtain ⟨u, d, last, hd, stop⟩ := (baseChain_ancestors h.toLayered.acyclic t).top hc
    refine ⟨u, d, last, hd, Option.eq_none_iff_forall_ne_some.2 fun b hb => ?_⟩
    have derives : R.Derives u b := h.derives_iff.2 ⟨d, hd, hb⟩
    rw [show R.baseClass? u = some b from derives] at stop
    cases stop
  order :=
    { refl := fun t => h.isSubtype_iff.2 (.inl rfl)
      trans := fun _ _ _ => h.isSubtype_trans
      antisymm := fun _ _ => h.toLayered.isSubtype_antisymm }

/-! ### Drafts -/

theorem isInterface_of_checkInterface (h : R.checkInterface t = .ok ()) :
    R.isInterface t = true := by
  unfold checkInterface at h
  split at h
  · rename_i e he
    split at h
    · rename_i interface
      cases e <;> first | exact isInterface_iff.2 ⟨_, he⟩ | cases interface
    · cases h
  · cases h

theorem isInterface_of_checkInterfaces {is : List TypeId} (h : R.checkInterfaces is = .ok ()) :
    ∀ i ∈ is, R.isInterface i = true := by
  induction is with
  | nil => exact nofun
  | cons i is ih =>
    obtain ⟨⟨⟩, first, rest⟩ := except_bind_eq_ok_iff.1 h
    exact List.forall_mem_cons.2 ⟨isInterface_of_checkInterface first, ih rest⟩

theorem withInterfaces_subset (c : ClassType) (is : List TypeId) :
    (is.foldl ClassType.withInterface c).interfaces ⊆ c.interfaces ++ is ∧
      (is.foldl ClassType.withInterface c).base? = c.base? := by
  induction is generalizing c with
  | nil => simp
  | cons i is ih =>
    obtain ⟨subset, base⟩ := ih (c.withInterface i)
    have one : (c.withInterface i).interfaces ⊆ c.interfaces ++ [i] ∧
        (c.withInterface i).base? = c.base? := by
      unfold ClassType.withInterface
      split <;> simp
    refine ⟨fun j hj => ?_, base.trans one.2⟩
    rcases List.mem_append.1 (subset hj) with hj | hj
    · have := one.1 hj
      simp at this ⊢
      tauto
    · simp [hj]

/-- A draft that is begun names a class as its base, and interfaces. -/
theorem supports_of_beginClass {name : String} {base : TypeId} {is : List TypeId} {c : ClassType}
    (h : R.beginClass name base is = .ok c) : R.Supports (.classType c) := by
  obtain ⟨⟨⟩, -, h⟩ := except_bind_eq_ok_iff.1 h
  obtain ⟨⟨⟩, hbase, h⟩ := except_bind_eq_ok_iff.1 h
  obtain ⟨⟨⟩, hinterfaces, h⟩ := except_bind_eq_ok_iff.1 h
  cases h
  obtain ⟨subset, same⟩ :=
    withInterfaces_subset { name, origin := .synthesized, base? := some base } is
  refine ⟨fun b hb => ?_, fun i hi => ?_⟩
  · rw [same] at hb
    cases hb
    unfold checkBase at hbase
    split at hbase
    · simp [*]
    · cases hbase
  · exact isInterface_of_checkInterfaces hinterfaces i (by simpa using subset hi)

theorem supports_of_beginInterface {name : String} {bases : List TypeId} {i : InterfaceType}
    (h : R.beginInterface name bases = .ok i) : R.Supports (.interfaceType i) := by
  obtain ⟨⟨⟩, -, h⟩ := except_bind_eq_ok_iff.1 h
  obtain ⟨⟨⟩, hbases, h⟩ := except_bind_eq_ok_iff.1 h
  cases h
  exact isInterface_of_checkInterfaces hbases

end Registry

open Registry

/-! ### Operations -/

/-- An operation on the registry `R` that registers only what is supported: a definition whose
supertypes are registered classes and interfaces, or a draft that was begun there or in one of the
registries `past`, with its members declared since.  All other operations qualify. -/
def Operation.Founded (R : Registry) (past : List Registry) : Operation → Prop
  | register e => R.Supports e
  | finishClass c => ∃ P ∈ R :: past, ∃ base interfaces start,
      P.beginClass c.name base interfaces = .ok start ∧
        c = { start with fields := c.fields, methods := c.methods }
  | finishInterface i => ∃ P ∈ R :: past, ∃ bases start,
      P.beginInterface i.name bases = .ok start ∧ i = { start with methods := i.methods }
  | _ => True

/-- A sequence of founded operations, which has passed through the registries `past`. -/
def Founded (R : Registry) (past : List Registry) : List Operation → Prop
  | [] => True
  | o :: os => o.Founded R past ∧ Founded (o.after R) (R :: past) os

section Steps

variable {R : Registry} {past : List Registry} {t : TypeId} {e : Entry}

/-- A written name registers pointer types only. -/
theorem pointer_of_resolveReversed {cs : List Char} (new : R.get? t = none)
    (he : (R.resolveReversed cs).2.get? t = some e) : ∃ p, e = .pointerType p := by
  induction cs with
  | nil =>
    have he : R.get? t = some e := he
    rw [new] at he
    cases he
  | cons c cs ih =>
    unfold resolveReversed at he
    split at he
    · exact ih he
    split at he
    · rw [snd_referenceTo] at he
      exact ih he
    split at he
    · rcases snd_starOf (R.resolveReversed cs) with same | ⟨p, same⟩
      · rw [same] at he
        exact ih he
      · rw [same] at he
        have he : ((R.resolveReversed cs).2.provideAll [.pointerType p]).get? t = some e := he
        rcases get?_provideAll he with old | pointer
        · exact ih old
        · exact ⟨p, List.mem_singleton.1 pointer⟩
    · rw [show R.get? t = some e from he] at new
      cases new

theorem eq_of_register {S : Registry} {d : Entry} (new : R.get? t = none)
    (h : R.register d = .ok S) (he : S.get? t = some e) : e = d := by
  obtain ⟨-, -, rfl⟩ := register_eq_ok_iff.1 h
  rw [get?_add] at he
  split at he
  · exact (Option.some.inj he).symm
  · rw [new] at he
    cases he

/-- What a founded operation registers is supported where it is registered.  A draft is so because
what was there when it was begun is still there. -/
theorem Operation.Founded.supports {o : Operation} (founded : o.Founded R past)
    (formed : Formed R) (hpast : ∀ P ∈ past, ∀ t e, P.get? t = some e → R.get? t = some e)
    (new : R.get? t = none) (he : (o.after R).get? t = some e) : R.Supports e := by
  have kept : ∀ P ∈ R :: past, ∀ t e, P.get? t = some e → R.get? t = some e :=
    List.forall_mem_cons.2 ⟨fun _ _ => id, hpast⟩
  unfold Operation.after at he
  cases h : o.run R with
  | error err =>
    rw [h] at he
    rw [show R.get? t = some e from he] at new
    cases new
  | ok S =>
    rw [h] at he
    have he : S.get? t = some e := he
    cases o with
    | register d =>
      rw [eq_of_register new h he]
      exact founded
    | providePrimitives =>
      obtain rfl : R.providePrimitives = S := Except.ok.inj h
      rcases get?_provideAll he with old | primitive
      · rw [new] at old
        cases old
      · obtain ⟨p, -, rfl⟩ := List.mem_map.1 primitive
        trivial
    | resolve text =>
      obtain rfl : (R.resolve text).2 = S := Except.ok.inj h
      obtain ⟨p, rfl⟩ := pointer_of_resolveReversed new he
      trivial
    | pointerTo pointee =>
      obtain rfl : (R.pointerTo pointee).2 = S := Except.ok.inj h
      have he : (R.provideAll [.pointerType ⟨R.typeName pointee, pointee⟩]).get? t = some e := he
      rcases get?_provideAll he with old | pointer
      · rw [new] at old
        cases old
      · rw [List.mem_singleton.1 pointer]
        trivial
    | invoker arity =>
      obtain ⟨⟨u, S'⟩, h', h⟩ := except_bind_eq_ok_iff.1 h
      cases h
      rcases register_of_invoker h' with same | registers
      · rw [same, new] at he
        cases he
      · rw [eq_of_register new registers he]
        exact nofun
    | instantiate definition args =>
      obtain ⟨⟨u, S'⟩, h', h⟩ := except_bind_eq_ok_iff.1 h
      cases h
      obtain ⟨i, hi, -, same | ⟨s, registers⟩⟩ := instantiate_eq_ok h'
      · rw [same, new] at he
        cases he
      · -- an instance extends what its definition extends
        rw [eq_of_register new registers he]
        have hbases : ∀ j ∈ i.bases, R.isInterface j = true :=
          formed.supported (get?_of_interface? hi)
        exact hbases
    | beginClass name base interfaces =>
      obtain ⟨c, -, h⟩ := except_bind_eq_ok_iff.1 h
      cases h
      rw [new] at he
      cases he
    | beginInterface name bases =>
      obtain ⟨i, -, h⟩ := except_bind_eq_ok_iff.1 h
      cases h
      rw [new] at he
      cases he
    | finishClass c =>
      rw [eq_of_register new h he]
      obtain ⟨P, hP, base, interfaces, start, begun, same⟩ := founded
      obtain ⟨hbase, hinterfaces⟩ := (supports_of_beginClass begun).mono (kept P hP)
      have hb : c.base? = start.base? := by rw [same]
      have hi : c.interfaces = start.interfaces := by rw [same]
      exact ⟨hb ▸ hbase, hi ▸ hinterfaces⟩
    | finishInterface i =>
      rw [eq_of_register new h he]
      obtain ⟨P, hP, bases, start, begun, same⟩ := founded
      have hbases : ∀ j ∈ start.bases, R.isInterface j = true :=
        (supports_of_beginInterface begun).mono (kept P hP)
      have hb : i.bases = start.bases := by rw [same]
      rw [← hb] at hbases
      exact hbases

theorem Operation.Founded.formed {o : Operation} (founded : o.Founded R past) (formed : Formed R)
    (hpast : ∀ P ∈ past, ∀ t e, P.get? t = some e → R.get? t = some e) {es : List Entry}
    (adds : R.Adds es (o.after R)) : Formed (o.after R) := by
  refine formed.of_adds adds fun e he => ?_
  have new : R.get? e.id = none := contains_eq_false_iff.1 (adds.nodup.2 e he)
  exact founded.supports formed hpast new (adds.get?_eq_some_iff.2 (.inr ⟨he, rfl⟩))

/-- Founded operations keep all definitions supported. -/
theorem formed_of_mem_history {os : List Operation} {S : Registry} (founded : Founded R past os)
    (formed : Formed R) (indexed : R.Indexed)
    (hpast : ∀ P ∈ past, ∀ t e, P.get? t = some e → R.get? t = some e)
    (apart : Apart (R.history os)) (hS : S ∈ R.history os) : Formed S := by
  induction os generalizing R past with
  | nil =>
    rw [history, List.mem_singleton] at hS
    rwa [hS]
  | cons o os ih =>
    rw [history, List.mem_cons] at hS
    rcases hS with rfl | hS
    · exact formed
    obtain ⟨first, rest⟩ := founded
    have after : o.after R ∈ R.history (o :: os) :=
      List.mem_cons_of_mem _ (mem_history_self _ os)
    obtain ⟨es, adds⟩ := exists_adds_of_mem_history indexed apart after
    refine ih rest (first.formed formed hpast adds) (indexed.of_adds adds) ?_
      (apart.mono (List.subset_cons_self ..)) hS
    intro P hP t e he
    rcases List.mem_cons.1 hP with rfl | hP
    · exact adds.get? he
    · exact adds.get? (hpast P hP t e he)

end Steps

/-- Whichever founded operations are applied to the registry of the host, accepted or refused, every
registry on the way has a hierarchy: walks to the base classes end, and the subtype relation is a
partial order.  The only assumption is that different names, and different definitions at
arguments, among those in use have different identities. -/
theorem hierarchy_history (os : List Operation) (founded : Founded host [] os)
    (apart : Apart (host.history os)) : ∀ R ∈ host.history os, R.IsHierarchy := by
  have start : Apart [host] :=
    apart.mono (List.cons_subset.2 ⟨mem_history_self _ _, List.nil_subset _⟩)
  intro R hR
  have indexed : host.Indexed := indexed_of_mem_starts (by simp) start
  exact (formed_of_mem_history founded formed_host indexed nofun apart hR).isHierarchy

/-- A class whose draft is begun before, and finished after, a pointer type over an interface is
registered, and a class that derives from it. -/
def derivedClasses : List Operation :=
  [.register (.interfaceType { name := "Shape" }),
   .beginClass "Square" .object [.ofName "Shape"],
   .resolve "Shape*",
   .finishClass
     { name := "Square", origin := .synthesized, base? := some .object,
       interfaces := [.ofName "Shape"], fields := [⟨"side", .object, { isPublic := true }⟩] },
   .register (.classType { name := "Pixel", base? := some (.ofName "Square") })]

theorem hierarchy_history_derivedClasses :
    Founded host [] derivedClasses ∧ Apart (host.history derivedClasses) ∧
      ∀ R ∈ host.history derivedClasses, R.IsHierarchy := by
  have apart : Apart (host.history derivedClasses) := by decide +kernel
  have founded : Founded host [] derivedClasses := by
    have shape : host.Supports (.interfaceType { name := "Shape" }) := by decide +kernel
    refine ⟨shape, trivial, trivial, ?_, ?_, trivial⟩
    · refine ⟨_, List.mem_cons_of_mem _ (List.mem_cons_of_mem _ List.mem_cons_self),
        .object, [.ofName "Shape"], ?_⟩
      exact ⟨_, by rfl, by rfl⟩
    · unfold Operation.Founded
      decide +kernel
  exact ⟨founded, apart, hierarchy_history derivedClasses founded apart⟩

end TypeSynthesis
