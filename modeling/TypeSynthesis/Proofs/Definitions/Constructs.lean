import TypeSynthesis.Proofs.Definitions.Resolve
import TypeSynthesis.Proofs.Hierarchy.Above
import TypeSynthesis.Proofs.Idempotence.Basic

/-!
# What is completed before an error

Resolution registers the type of a form before it goes on to the forms within, and takes nothing
back.  So a run that fails has completed the first few of the type-defining forms in its way, and
the types of these stay.

* `Construct`, `Node.constructs`: the type-defining forms without a type, in the order in which
  resolution comes to them;
* `Construct.Makes`: the synthesis of a construct registers a type;
* `Registry.Gains o R S done`: the synthesized types that `S` has besides those of `R` are the types
  of the constructs `done`;
* `Session.Idle`: what goes before a definition adds no synthesized type;
* `gains_define`: the definition itself then adds one.
-/

namespace TypeSynthesis

open ResolveM SynthM Node Registry

/-! ### Constructs -/

/-- A type-defining form without a type, as its synthesis sees it: apart from the bodies of its
arities or methods. -/
inductive Construct
  | fn (name? : Option String) (arities : List ArityHead)
  | record (head : RecordHead) (methods : List MethodHead)
  | object (head : ObjectHead) (methods : List MethodHead)
  | interface (head : InterfaceHead)
  deriving DecidableEq, Repr

namespace Construct

/-- Whether the construct defines an interface, and not a class. -/
def isInterface : Construct → Bool
  | interface _ => true
  | _ => false

/-- The synthesis of the construct's type. -/
def synthesize (o : Options) : Construct → SynthM Descriptor
  | fn name? arities => do return (← synthesizeWrapper o name? arities).1
  | record head methods => do return (← synthesizeRecord o head methods).1
  | object head methods => do return (← synthesizeObject o head methods).1
  | interface head => synthesizeInterface o head

/-- At some point of a run, the synthesis of the construct succeeds and registers the type, which is
one of the kind that the construct asks for. -/
structure Makes (o : Options) (first last : Registry) (c : Construct) (e : Entry) : Prop where
  defines : e.Defines c.isInterface
  registers : ∃ s t : Session, first.Grows s.registry ∧ t.registry.Grows last ∧
    s.registry.get? e.id = none ∧ c.synthesize o s = .ok ⟨e.name, e.id⟩ t ∧
    t.registry.get? e.id = some e

theorem Makes.mono {o : Options} {first first' last last' : Registry} {c : Construct} {e : Entry}
    (h : c.Makes o first last e) (before : first'.Grows first) (after : last.Grows last') :
    c.Makes o first' last' e := by
  obtain ⟨s, t, hs, ht, registers⟩ := h.registers
  exact ⟨h.defines, s, t, before.trans hs, ht.trans after, registers⟩

end Construct

/-- The construct that a form is, if it is a type-defining form without a type. -/
def Node.construct? : Node → Option Construct
  | .fn _ head arities =>
    if head.wrapper?.isSome then none else some (.fn head.name? (arities.map Arity.head))
  | .record _ head methods =>
    if head.descriptor?.isSome then none else some (.record head (methods.map Method.head))
  | .object _ head methods =>
    if head.descriptor?.isSome then none else some (.object head (methods.map Method.head))
  | .interface _ head => if head.descriptor?.isSome then none else some (.interface head)
  | _ => none

/-- The constructs among forms. -/
def constructsIn (ns : List Node) : List Construct := ns.filterMap construct?

/-- The constructs in a form, in the order in which resolution comes to them. -/
def Node.constructs (n : Node) : List Construct := constructsIn n.visited

theorem constructsIn_append (ns ms : List Node) :
    constructsIn (ns ++ ms) = constructsIn ns ++ constructsIn ms :=
  List.filterMap_append

theorem constructsIn_cons (n : Node) (ns : List Node) :
    constructsIn (n :: ns) = n.construct?.toList ++ constructsIn ns := by
  unfold constructsIn
  rw [List.filterMap_cons]
  cases n.construct? <;> rfl

/-! ### Synthesized types -/

/-- The synthesized types of a registry. -/
def Registry.synthesized (R : Registry) : Set Entry :=
  {e | ∃ t, R.get? t = some e ∧ e.origin = .synthesized}

theorem Registry.mem_synthesized_iff {R : Registry} (sound : R.Sound) {e : Entry} :
    e ∈ R.synthesized ↔ R.get? e.id = some e ∧ e.origin = .synthesized := by
  constructor
  · rintro ⟨t, ht, origin⟩
    rw [sound.filed ht]
    exact ⟨ht, origin⟩
  · rintro ⟨found, origin⟩
    exact ⟨e.id, found, origin⟩

/-- Whether a type is a synthesized one. -/
def Entry.isSynthesized (e : Entry) : Bool := e.origin == .synthesized

/-- Generic definitions under invokers' names are from the host. -/
def Registry.HostInvokers (R : Registry) : Prop :=
  ∀ n i, R.find? (invokerName n) = some (.interfaceType i) → i.isGeneric = true →
    i.origin = .host

/-- The second registry has, besides the types of the first, the types of the constructs `done` in
their order, and types of the host. -/
def Registry.Gains (o : Options) (R S : Registry) (done : List Construct) : Prop :=
  ∃ es, R.Adds es S ∧ List.Forall₂ (Construct.Makes o R S) done (es.filter Entry.isSynthesized)

namespace Registry

variable {o : Options} {R S T : Registry} {done done' : List Construct}

theorem Gains.refl (R : Registry) : R.Gains o R [] := ⟨[], .refl, .nil⟩

theorem Gains.grows (h : R.Gains o S done) : R.Grows S := by
  obtain ⟨es, adds, -⟩ := h
  exact adds.grows

theorem Gains.trans (h : R.Gains o S done) (h' : S.Gains o T done') :
    R.Gains o T (done ++ done') := by
  obtain ⟨es, adds, made⟩ := h
  obtain ⟨es', adds', made'⟩ := h'
  refine ⟨es ++ es', adds.trans adds', ?_⟩
  rw [List.filter_append]
  exact List.rel_append (made.imp fun _ _ m => m.mono .refl adds'.grows)
    (made'.imp fun _ _ m => m.mono adds.grows .refl)

/-- Constructs are no generic definitions. -/
theorem Gains.hostInvokers (h : R.Gains o S done) (hosted : R.HostInvokers) :
    S.HostInvokers := by
  obtain ⟨es, adds, made⟩ := h
  intro n i hi generic
  rcases adds.find? hi with old | new
  · exact hosted n i old generic
  · cases horigin : i.origin with
    | host => rfl
    | synthesized =>
      have tame : ∀ e ∈ es.filter Entry.isSynthesized, e.Tame :=
        ((List.forall₂_and_left _ _).1 (made.flip.imp fun _ _ m => ⟨m.defines.tame, m⟩)).1
      have mem : .interfaceType i ∈ es.filter Entry.isSynthesized :=
        List.mem_filter.2 ⟨new, by simp [Entry.isSynthesized, Entry.origin, horigin]⟩
      obtain ⟨m, rfl⟩ := tame _ mem i rfl generic
      cases horigin

theorem filter_isSynthesized_of_host {es : List Entry} (host : ∀ e ∈ es, e.origin = .host) :
    es.filter Entry.isSynthesized = [] := by
  refine List.filter_eq_nil_iff.2 fun e he => ?_
  unfold Entry.isSynthesized
  rw [host e he]
  exact Bool.false_ne_true

theorem gains_of_host {es : List Entry} (adds : R.Adds es S) (host : ∀ e ∈ es, e.origin = .host) :
    R.Gains o S [] := by
  refine ⟨es, adds, ?_⟩
  rw [filter_isSynthesized_of_host host]
  exact .nil

/-- What a registry has gained is one new type for each construct, and all its new synthesized types
are of this kind. -/
theorem Gains.synthesized (h : R.Gains o S done) (sound : R.Sound) :
    ∃ es, List.Forall₂ (Construct.Makes o R S) done es ∧ es.Nodup ∧
      (∀ e ∈ es, e ∉ R.synthesized) ∧ S.synthesized = R.synthesized ∪ {e | e ∈ es} := by
  obtain ⟨es, adds, made⟩ := h
  obtain ⟨nodup, free⟩ := adds.nodup
  refine ⟨_, made, nodup.of_map.filter _, fun e he old => ?_, Set.ext fun e => ?_⟩
  · obtain ⟨taken, -⟩ := (mem_synthesized_iff sound).1 old
    rw [contains_eq_false_iff.1 (free e (List.mem_filter.1 he).1)] at taken
    cases taken
  · constructor
    · rintro ⟨t, ht, origin⟩
      rcases adds.get?_eq_some_iff.1 ht with old | ⟨new, -⟩
      · exact .inl ⟨t, old, origin⟩
      · exact .inr (List.mem_filter.2 ⟨new, beq_iff_eq.2 origin⟩)
    · rintro (⟨t, ht, origin⟩ | new)
      · exact ⟨t, adds.get? ht, origin⟩
      · obtain ⟨new, origin⟩ := List.mem_filter.1 new
        exact ⟨e.id, adds.get?_eq_some_iff.2 (.inr ⟨new, rfl⟩), beq_iff_eq.1 origin⟩

end Registry

/-! ### Before a definition -/

/-- The second session has types of the host besides those of the first.  That nothing was displaced
on the way follows from identities that are distinct in the end. -/
structure Session.Idle (s t : Session) : Prop where
  grows : s.Grows t
  adds (sound : s.registry.Sound) (hosted : s.registry.HostInvokers)
    (distinct : t.registry.Distinct) :
    ∃ es, s.registry.Adds es t.registry ∧ ∀ e ∈ es, e.origin = .host

theorem Session.Idle.refl (s : Session) : s.Idle s := ⟨.refl, fun _ _ _ => ⟨[], .refl, nofun⟩⟩

theorem Session.Idle.gains {s t : Session} (h : s.Idle t) (o : Options)
    (sound : s.registry.Sound) (hosted : s.registry.HostInvokers)
    (distinct : t.registry.Distinct) : s.registry.Gains o t.registry [] := by
  obtain ⟨es, adds, host⟩ := h.adds sound hosted distinct
  exact gains_of_host adds host

theorem Session.Idle.trans {s t u : Session} (h : s.Idle t) (h' : t.Idle u) : s.Idle u where
  grows := Registry.Grows.trans h.grows h'.grows
  adds sound hosted distinct := by
    have distinct' : t.registry.Distinct := distinct.of_grows h'.grows
    have hosted' := (h.gains {} sound hosted distinct').hostInvokers hosted
    obtain ⟨es, adds, host⟩ := h.adds sound hosted distinct'
    obtain ⟨es', adds', host'⟩ := h'.adds (sound.of_grows h.grows) hosted' distinct
    refine ⟨es ++ es', adds.trans adds', fun e he => ?_⟩
    exact (List.mem_append.1 he).elim (host e) (host' e)

instance : IsPreorder Session Session.Idle where
  refl := Session.Idle.refl
  trans _ _ _ := Session.Idle.trans

/-- A session with one more type of the host, which was registered. -/
theorem Session.Idle.of_register {s : Session} {e : Entry} {R : Registry}
    (h : s.registry.register e = .ok R) (host : e.origin = .host) : s.Idle (s.withRegistry R) where
  grows := grows_register h
  adds _ _ _ := ⟨[e], adds_of_register h, fun _ he => List.mem_singleton.1 he ▸ host⟩

/-- What is instantiated under a name is what is found under it. -/
theorem eq_of_find? {R : Registry} (sound : R.Sound) {name : String} {e : Entry}
    {i : InterfaceType} (known : R.find? name = some e) (hi : R.interface? e.id = some i) :
    e = .interfaceType i := by
  obtain ⟨t, -, he⟩ := find?_eq_some_iff.1 known
  have found := get?_of_interface? hi
  rw [sound.filed he, he] at found
  exact Option.some.inj found

theorem Session.idle_prepared : Session.Prepared Session.Idle where
  pointer s p := by
    refine ⟨s.registry.grows_provide _, fun sound _ distinct => ?_⟩
    obtain ⟨es, adds, only⟩ := sound.exists_adds_provide distinct
    exact ⟨es, adds, fun e he => only e he ▸ rfl⟩
  invoker {s n t R} h := by
    rcases register_of_invoker h with same | h
    · exact same ▸ .refl s
    · exact .of_register h rfl
  instantiate {s n e args u R} known h := by
    obtain ⟨i, hi, generic, same | ⟨sub, h⟩⟩ := instantiate_eq_ok h
    · exact same ▸ .refl s
    · refine ⟨grows_register h, fun sound hosted distinct => ?_⟩
      -- an instance is from where its definition is
      have origin : i.origin = .host := hosted n i (eq_of_find? sound known hi ▸ known) generic
      exact (Session.Idle.of_register h origin).adds sound hosted distinct
  draw _ := ⟨.refl, fun _ _ _ => ⟨[], .refl, nofun⟩⟩

/-- A synthesis that prepares a type and then registers it has gained the type of its construct. -/
theorem gains_define {o : Options} {c : Construct} {s u t : Session} {e : Entry}
    (before : s.Idle u) (defines : e.Defines c.isInterface)
    (registers : u.registry.register e = .ok t.registry)
    (made : c.synthesize o s = .ok ⟨e.name, e.id⟩ t) (sound : s.registry.Sound)
    (hosted : s.registry.HostInvokers) (distinct : t.registry.Distinct) :
    s.registry.Gains o t.registry [c] := by
  obtain ⟨es, adds, host⟩ := before.adds sound hosted (distinct.of_grows (grows_register registers))
  have adds : s.registry.Adds (es ++ [e]) t.registry := adds.trans (adds_of_register registers)
  have free : s.registry.get? e.id = none :=
    contains_eq_false_iff.1 (adds.nodup.2 e (List.mem_append_right _ List.mem_cons_self))
  have found : t.registry.get? e.id = some e :=
    adds.get?_eq_some_iff.2 (.inr ⟨List.mem_append_right _ List.mem_cons_self, rfl⟩)
  have synthesized : e.isSynthesized = true := beq_iff_eq.2 defines.origin
  refine ⟨es ++ [e], adds, ?_⟩
  rw [List.filter_append, filter_isSynthesized_of_host host, List.nil_append,
    List.filter_cons_of_pos synthesized, List.filter_nil]
  exact .cons ⟨defines, s, t, .refl, .refl, free, made, found⟩ .nil

end TypeSynthesis
