import TypeSynthesis.Proofs.Synthesis.Implement

/-!
# Supplied methods after resolution

A record, an anonymous object or a proxy that is resolved comes with a class, and each method
supplied to it with the signature that it implements.

* `Node.suppliedHeads`, `Node.descriptor?`: what a form says of its methods and of its type;
* `Node.Derives`: the base class and the interfaces that a form asks for;
* `realized_resolve`: the class of the resolved form realizes the supplied methods, one by one and
  in their order.
-/

namespace TypeSynthesis

open ResolveM SynthM

/-- Whether methods are supplied to the form: it is a record or an object literal. -/
def Node.takesMethods : Node → Bool
  | .record .. | .object .. => true
  | _ => false

/-- The methods supplied to a form, apart from their bodies. -/
def Node.suppliedHeads : Node → List MethodHead
  | .record _ _ ms | .object _ _ ms => ms.map Method.head
  | _ => []

/-- The synthesized type that a type-defining form comes with. -/
def Node.descriptor? : Node → Option Descriptor
  | .fn _ head _ => head.wrapper?
  | .record _ head _ => head.descriptor?
  | .object _ head _ => head.descriptor?
  | .interface _ head => head.descriptor?
  | _ => none

/-- The base class of a form and the interfaces that it requests by name.  A record derives from
the root class. -/
def Node.Derives (first last : Registry) (base : TypeId) (requested : List TypeId) : Node → Prop
  | .record _ head _ =>
    base = .object ∧ List.Forall₂ (Denoted first last) head.interfaces requested
  | .object _ head _ => head.Derives first last base requested
  | _ => False

/-- Resolving the bodies of methods keeps the heads that it is given, but for the captures. -/
theorem heads_resolveMethods {p : Pipeline} {heads : List MethodHead} {ms ms' : List Method}
    {s t : ResolveState} (length : heads.length = ms.length)
    (h : resolveMethods p heads ms s = .ok ms' t) :
    List.Forall₂ (fun m m' => ∃ captures, m' = { m with captures }) heads
      (ms'.map Method.head) := by
  induction heads generalizing ms ms' s t with
  | nil =>
    unfold resolveMethods at h
    obtain ⟨rfl, -⟩ := pure_eq_ok_iff.1 h
    exact .nil
  | cons head heads ih =>
    cases ms with
    | nil => cases length
    | cons m ms =>
      obtain ⟨_, body⟩ := m
      unfold resolveMethods at h
      obtain ⟨captures, u, -, h⟩ := bind_eq_ok_iff.1 h
      obtain ⟨body, v, -, h⟩ := bind_eq_ok_iff.1 h
      obtain ⟨rest, w, hrest, h⟩ := bind_eq_ok_iff.1 h
      obtain ⟨rfl, -⟩ := pure_eq_ok_iff.1 h
      exact .cons ⟨captures, rfl⟩ (ih (Nat.succ.inj length) hrest)

/-- A class that was registered under an identity is still there where later growth displaced
nothing. -/
theorem class?_of_grows {R S : Registry} {t : TypeId} {c : ClassType} (sound : R.Sound)
    (grows : R.Grows S) (distinct : S.Distinct) (h : R.class? t = some c) :
    S.class? t = some c := by
  obtain ⟨es, adds⟩ := Registry.exists_adds_of_grows sound grows distinct
  obtain ⟨e, he, hc⟩ := Option.bind_eq_some_iff.1 h
  exact Option.bind_eq_some_iff.2 ⟨e, adds.get? he, hc⟩

/-- The form `n` has become `m`, with the descriptor `d` of the class `c`.

The class was registered at the point `S` of the run, and it is still registered in the end unless
identities collide.  At the point `R` before, the candidates were collected: the overridable methods
of the base class and the methods of the requested interfaces.  The class realizes the supplied
methods. -/
structure Node.Realized (n m : Node) (first last : Registry) (d : Descriptor) (c : ClassType)
    (R S : Registry) (base : TypeId) (requested : List TypeId) : Prop where
  descriptor : m.descriptor? = some d
  names : d = ⟨c.name, c.id⟩
  registration : Registry.Between first S last
  registered : S.class? d.id = some c
  kept : first.Sound → last.Distinct → last.class? d.id = some c
  collection : Registry.Between first R S
  derives : n.Derives first R base requested
  realizes : c.Realizes R S (R.overridableMethodsOf base ++ requested.flatMap R.interfaceMethods)
    n.suppliedHeads m.suppliedHeads

/-- What synthesis has returned stays as it is while the bodies of the methods are resolved. -/
theorem Node.realized_of_heads {n m : Node} {first S last : Registry} {d : Descriptor}
    {c : ClassType} {R : Registry} {base : TypeId} {requested : List TypeId}
    {heads : List MethodHead} (descriptor : m.descriptor? = some d) (names : d = ⟨c.name, c.id⟩)
    (registered : S.class? d.id = some c) (rest : S.Grows last)
    (collection : Registry.Between first R S) (derives : n.Derives first R base requested)
    (realizes : c.Realizes R S
      (R.overridableMethodsOf base ++ requested.flatMap R.interfaceMethods) n.suppliedHeads heads)
    (same : List.Forall₂ (fun m m' => ∃ captures, m' = { m with captures }) heads
      m.suppliedHeads) :
    n.Realized m first last d c R S base requested where
  descriptor := descriptor
  names := names
  registration := ⟨collection.before.trans collection.after, rest⟩
  registered := registered
  kept sound distinct :=
    class?_of_grows (sound.of_grows (collection.before.trans collection.after)) rest distinct
      registered
  collection := collection
  derives := derives
  realizes := realizes.withCaptures same

/-- Every method that is supplied to a record, an anonymous object or a proxy without a descriptor
of its own implements a method of the base class or of a requested interface: it selects a candidate
of its member name, owner and arity, takes over its parameter types, and is declared by the new
class at its position under its own name.  So it is with the resolved form `m` that the lowerings
are given, and those of the default chain leave it as it is. -/
theorem realized_resolve {p : Pipeline} {n n' : Node} {s t : ResolveState}
    (takes : n.takesMethods = true) (fresh : n.descriptor? = none)
    (h : n.resolve p s = .ok n' t) :
    ∃ m, p.lowerings.run t.session.registry m = .ok n' ∧ (p.lowerings = {} → n' = m) ∧
      ∃ d c R S base requested,
        n.Realized m s.session.registry t.session.registry d c R S base requested := by
  cases n with
  | record span head ms =>
    unfold Node.resolve at h
    obtain ⟨⟨d, heads⟩, u, hd, h⟩ := bind_eq_ok_iff.1 h
    obtain ⟨R₀, u', hR₀, h⟩ := bind_eq_ok_iff.1 h
    obtain ⟨ms', v, hms, h⟩ := bind_eq_ok_iff.1 h
    obtain ⟨run, rfl⟩ := finish_eq_ok_iff.1 h
    cases hR₀
    refine ⟨_, run, fun default => ?_, d, ?_⟩
    · rw [default] at run
      exact (Except.ok.inj run).symm
    have rest : u.session.registry.Grows v.session.registry :=
      (around.inScope ((around.bindName ..).bind fun _ => (around.bindFields ..).bind fun _ =>
        around.toInner (around.methods p heads ms))).of_ok hms |>.grows
    obtain ⟨w, hms, -⟩ := inScope_eq_ok hms
    obtain ⟨_, _, -, hms⟩ := bind_eq_ok_iff.1 hms
    obtain ⟨_, _, -, hms⟩ := bind_eq_ok_iff.1 hms
    unfold recordOf at hd
    rw [show head.descriptor? = none from fresh] at hd
    have hd := (synthesize_eq_ok hd).1
    obtain ⟨c, R, requested, names, hc, between, denoted, realizes⟩ :=
      realizes_synthesizeRecord hd
    have length : heads.length = ms.length := by rw [realizes.length, List.length_map]
    exact ⟨c, R, _, .object, requested, Node.realized_of_heads rfl names hc rest between
      ⟨rfl, denoted⟩ realizes (heads_resolveMethods length hms)⟩
  | object span head ms =>
    unfold Node.resolve at h
    obtain ⟨⟨d, heads⟩, u, hd, h⟩ := bind_eq_ok_iff.1 h
    obtain ⟨ms', v, hms, h⟩ := bind_eq_ok_iff.1 h
    obtain ⟨captures, v', hcaptures, h⟩ := bind_eq_ok_iff.1 h
    obtain ⟨run, rfl⟩ := finish_eq_ok_iff.1 h
    cases hcaptures
    refine ⟨_, run, fun default => ?_, d, ?_⟩
    · rw [default] at run
      exact (Except.ok.inj run).symm
    have rest : u.session.registry.Grows v.session.registry :=
      (around.inScope ((around.bindName ..).bind fun _ =>
        around.toInner (around.methods p heads ms))).of_ok hms |>.grows
    obtain ⟨w, hms, -⟩ := inScope_eq_ok hms
    obtain ⟨_, _, -, hms⟩ := bind_eq_ok_iff.1 hms
    unfold objectOf at hd
    rw [show head.descriptor? = none from fresh] at hd
    have hd := (synthesize_eq_ok hd).1
    obtain ⟨c, R, base, requested, names, hc, between, derives, realizes⟩ :=
      realizes_synthesizeObject hd
    have length : heads.length = ms.length := by rw [realizes.length, List.length_map]
    exact ⟨c, R, _, base, requested, Node.realized_of_heads rfl names hc rest between derives
      realizes (heads_resolveMethods length hms)⟩
  | _ => cases takes

/-- A proxy of an exception that also has the methods of the metadata interface.  One method name is
qualified by its owner. -/
def Node.tracedException : Node :=
  .object .unknown
    { kind := .proxy, supers := [⟨"Exception", .unknown⟩, ⟨"sable.lang.IObj", .unknown⟩],
      selfName := "this", captures := .empty }
    [⟨{ name := "Exception.get_Message", self? := some { name := "this" }, captures := .empty },
        .const .unknown (.str "traced")⟩,
     ⟨{ name := "withMeta", params := [{ name := "m" }], captures := .empty },
        .const .unknown .nil⟩]

theorem realized_resolve_tracedException :
    ∃ n' t, Node.tracedException.resolve {} { session := { registry := .host } } = .ok n' t ∧
      ∃ d c R S base requested,
        Node.tracedException.Realized n' .host t.session.registry d c R S base requested := by
  have h : accepted (fun _ _ => true)
      (Node.tracedException.resolve {} { session := { registry := .host } }) = true := by
    decide +kernel
  obtain ⟨n', t, h, -⟩ := exists_of_accepted h
  obtain ⟨m, -, same, d, c, R, S, base, requested, realized⟩ := realized_resolve rfl rfl h
  rw [← same rfl] at realized
  exact ⟨n', t, h, d, c, R, S, base, requested, realized⟩

end TypeSynthesis
