import TypeSynthesis.Proofs.Definitions.Resolve
import TypeSynthesis.Proofs.Resolve.Implement
import TypeSynthesis.Proofs.Synthesis.Members
import TypeSynthesis.Proofs.Synthesis.Owners

/-!
# Methods of one class that coincide

Nothing compares the methods that a class is given: those supplied to a form are resolved one by
one, and the construct declares its own after them.

* `ClassType.MethodsDiffer`: no two methods of the class have the same name and the same parameter
  types;
* `Node.Separates`: the methods that a resolved form brings to its class differ;
* `resolve_fn_eq_ok`, `resolve_record_eq_ok`, `resolve_object_eq_ok`: what the resolution of a form
  without a type comes down to;
* `methodsDiffer_resolve`: the methods of the class differ exactly if those of the form do.

The methods that a construct declares by itself differ from each other, but for invokers that list
the same method twice.  They need not differ from the supplied ones.  Each way for two methods to
coincide occurs (`not_methodsDiffer_resolve`).
-/

namespace TypeSynthesis

open ResolveM SynthM Registry

/-! ### Classes without duplicates -/

/-- No two methods of the class have both the same name and the same parameter types. -/
def ClassType.MethodsDiffer (c : ClassType) : Prop :=
  c.methods.Pairwise fun m n => m.name = n.name → m.params ≠ n.params

instance (c : ClassType) : Decidable c.MethodsDiffer :=
  inferInstanceAs (Decidable (c.methods.Pairwise fun m n => m.name = n.name → m.params ≠ n.params))

theorem ClassType.methodsDiffer_iff {c : ClassType} :
    c.MethodsDiffer ↔ (c.methods.map Signature.shape).Nodup := by
  refine (List.Pairwise.iff fun {m n} => ?_).trans List.pairwise_map.symm
  rw [Signature.shape, Signature.shape, ne_eq, ne_eq, Prod.mk.injEq, not_and]

/-- Whether a class is synthesized for the form: it is a function, a record or an object literal. -/
def Node.definesClass : Node → Bool
  | .fn .. | .record .. | .object .. => true
  | _ => false

/-- The shapes of the methods supplied to a form. -/
def Node.suppliedShapes (n : Node) : List (String × List TypeRef) :=
  n.suppliedHeads.map MethodHead.shape

/-- The methods that a resolved form brings to its class `c` differ in name or parameter types, at
the point `R` of the run where the class is registered.  The supplied methods differ from each
other.  None of them coincides with the basis of a record, nor with a method of the metadata
interface for an anonymous object that does not have this interface among those that it requests.
The methods of each invoker of a function differ. -/
def Node.Separates (R : Registry) (c : ClassType) (requested : List TypeId) (n : Node) : Prop :=
  n.suppliedShapes.Nodup ∧
    match n with
    | .fn .. => ∀ u ∈ c.interfaces, ∀ i, R.interface? u = some i →
        i.invokes.Pairwise (·.params ≠ ·.params)
    | .record .. => (basisName, []) ∉ n.suppliedShapes
    | .object _ head _ => head.kind = .anonymous → ∀ u, R.names.get? metadataName = some u →
        u ∉ requested → ∀ m ∈ R.interfaceMethods u, m.shape ∉ n.suppliedShapes
    | _ => True

/-- The form `n` has become `m`, with the class `c` that is registered at the point `R` of the run,
and is still registered in the end unless identities collide.  An object literal requests the
interfaces `requested` by name. -/
structure Node.Classed (n m : Node) (first last : Registry) (c : ClassType) (R : Registry)
    (requested : List TypeId) : Prop where
  descriptor : m.descriptor? = some ⟨c.name, c.id⟩
  before : first.Grows R
  registered : ∃ S, R.register (.classType c) = .ok S ∧ S.Grows last
  kept : last.Distinct → last.class? c.id = some c
  requests {span : Span} {head : ObjectHead} {ms : List Method} (h : n = .object span head ms) :
    ∃ base, head.Derives first last base requested

/-! ### The resolution of forms without a type -/

section Forms

variable {p : Pipeline} {span : Span} {n' : Node} {s t : ResolveState}

/-- A class is registered after its draft has been prepared. -/
theorem exists_draft {α : Type} {draft : SynthM (ClassType × α)} {d : Descriptor} {a : α}
    {s t : Session}
    (h : (draft >>= fun x => do return (← SynthM.finish x.1, x.2)) s = .ok (d, a) t) :
    ∃ c u, draft s = .ok (c, a) u ∧ u.registry.register (.classType c) = .ok t.registry ∧
      d = ⟨c.name, c.id⟩ := by
  obtain ⟨⟨c, a'⟩, u, hc, h⟩ := bind_eq_ok_iff.1 h
  obtain ⟨d', v, hd, h⟩ := bind_eq_ok_iff.1 h
  obtain ⟨h, rfl⟩ := pure_eq_ok_iff.1 h
  cases h
  obtain ⟨registers, rfl⟩ := register_of_finish hd
  exact ⟨c, u, hc, registers, rfl⟩

theorem resolve_fn_eq_ok {head : FnHead} {as : List Arity} (fresh : head.wrapper? = none)
    (h : (Node.fn span head as).resolve p s = .ok n' t) :
    ∃ d heads u captures? as',
      synthesizeWrapper p.options head.name? (as.map Arity.head) s.session = .ok (d, heads) u ∧
      u.registry.Grows t.session.registry ∧
      p.lowerings.run t.session.registry
        (.fn span { head with captures?, wrapper? := some d } as') = .ok n' := by
  unfold Node.resolve at h
  obtain ⟨captures?, _, hcaptures, h⟩ := bind_eq_ok_iff.1 h
  obtain ⟨⟨d, heads⟩, u, hd, h⟩ := bind_eq_ok_iff.1 h
  obtain ⟨as', v, has, h⟩ := bind_eq_ok_iff.1 h
  obtain ⟨run, rfl⟩ := finish_eq_ok_iff.1 h
  cases hcaptures
  unfold wrapperOf at hd
  rw [fresh] at hd
  exact ⟨d, heads, _, _, as', (synthesize_eq_ok hd).1,
    ((around.arities p (around.bindFunction ..) heads as).of_ok has).grows, run⟩

theorem resolve_record_eq_ok {head : RecordHead} {ms : List Method}
    (fresh : head.descriptor? = none)
    (h : (Node.record span head ms).resolve p s = .ok n' t) :
    ∃ d heads u ms',
      synthesizeRecord p.options head (ms.map Method.head) s.session = .ok (d, heads) u ∧
      u.registry.Grows t.session.registry ∧
      List.Forall₂ (fun m m' => ∃ captures, m' = { m with captures }) heads
        (ms'.map Method.head) ∧
      p.lowerings.run t.session.registry
        (.record span { head with descriptor? := some d } ms') = .ok n' := by
  unfold Node.resolve at h
  obtain ⟨⟨d, heads⟩, u, hd, h⟩ := bind_eq_ok_iff.1 h
  obtain ⟨R, _, hR, h⟩ := bind_eq_ok_iff.1 h
  obtain ⟨ms', v, hms, h⟩ := bind_eq_ok_iff.1 h
  obtain ⟨run, rfl⟩ := finish_eq_ok_iff.1 h
  cases hR
  have rest := (around.inScope ((around.bindName ..).bind fun _ => (around.bindFields ..).bind
    fun _ => around.toInner (around.methods p heads ms))).of_ok hms |>.grows
  have length := (length_recordOf hd).trans (List.length_map _)
  obtain ⟨w, hms, -⟩ := inScope_eq_ok hms
  obtain ⟨_, _, -, hms⟩ := bind_eq_ok_iff.1 hms
  obtain ⟨_, _, -, hms⟩ := bind_eq_ok_iff.1 hms
  unfold recordOf at hd
  rw [fresh] at hd
  exact ⟨d, heads, _, ms', (synthesize_eq_ok hd).1, rest, heads_resolveMethods length hms, run⟩

theorem resolve_object_eq_ok {head : ObjectHead} {ms : List Method}
    (fresh : head.descriptor? = none)
    (h : (Node.object span head ms).resolve p s = .ok n' t) :
    ∃ d heads u captures ms',
      synthesizeObject p.options head (ms.map Method.head) s.session = .ok (d, heads) u ∧
      u.registry.Grows t.session.registry ∧
      List.Forall₂ (fun m m' => ∃ captures, m' = { m with captures }) heads
        (ms'.map Method.head) ∧
      p.lowerings.run t.session.registry
        (.object span { head with captures, descriptor? := some d } ms') = .ok n' := by
  unfold Node.resolve at h
  obtain ⟨⟨d, heads⟩, u, hd, h⟩ := bind_eq_ok_iff.1 h
  obtain ⟨ms', v, hms, h⟩ := bind_eq_ok_iff.1 h
  obtain ⟨captures, _, hcaptures, h⟩ := bind_eq_ok_iff.1 h
  obtain ⟨run, rfl⟩ := finish_eq_ok_iff.1 h
  cases hcaptures
  have rest := (around.inScope ((around.bindName ..).bind fun _ =>
    around.toInner (around.methods p heads ms))).of_ok hms |>.grows
  have length := (length_objectOf hd).trans (List.length_map _)
  obtain ⟨w, hms, -⟩ := inScope_eq_ok hms
  obtain ⟨_, _, -, hms⟩ := bind_eq_ok_iff.1 hms
  unfold objectOf at hd
  rw [fresh] at hd
  exact ⟨d, heads, _, _, ms', (synthesize_eq_ok hd).1, rest, heads_resolveMethods length hms, run⟩

end Forms

/-- Captures are no part of what methods are told apart by. -/
theorem shapes_of_captures {ms ms' : List MethodHead}
    (h : List.Forall₂ (fun m m' => ∃ captures, m' = { m with captures }) ms ms') :
    ms'.map MethodHead.shape = ms.map MethodHead.shape := by
  induction h with
  | nil => rfl
  | cons first _ ih =>
    obtain ⟨captures, rfl⟩ := first
    rw [List.map_cons, List.map_cons, ih]
    rfl

/-! ### The class of a form -/

/-- The supplied methods of a class and its own ones are told apart if the supplied ones are, and
none of them has the shape of an own one. -/
theorem ClassType.methodsDiffer_iff_of_shapes {c : ClassType}
    {supplied own : List (String × List TypeRef)}
    (shapes : c.methods.map Signature.shape = supplied ++ own) (nodup : own.Nodup) :
    c.MethodsDiffer ↔ supplied.Nodup ∧ ∀ x ∈ own, x ∉ supplied := by
  rw [methodsDiffer_iff, shapes, List.nodup_append']
  constructor
  · rintro ⟨each, -, disjoint⟩
    exact ⟨each, fun x own supplied => disjoint supplied own⟩
  · rintro ⟨each, apart⟩
    exact ⟨each, nodup, fun x supplied own => apart x own supplied⟩

/-- The default lowerings leave forms with a class as they are. -/
theorem eq_of_default {p : Pipeline} {R : Registry} {m n' : Node} (defines : m.definesClass = true)
    (run : p.lowerings.run R m = .ok n') (default : p.lowerings = {}) : n' = m := by
  rw [default] at run
  cases m with
  | fn | record | object => exact (Except.ok.inj run).symm
  | _ => cases defines

/-- A form is given the class that is registered for it. -/
theorem Node.Classed.of_register {n m : Node} {first R S last : Registry} {c : ClassType}
    {requested : List TypeId} (sound : first.Sound) (before : first.Grows R)
    (registers : R.register (.classType c) = .ok S) (rest : S.Grows last)
    (descriptor : m.descriptor? = some ⟨c.name, c.id⟩)
    (requests : ∀ {span head ms}, n = .object span head ms →
      ∃ base, head.Derives first last base requested) : n.Classed m first last c R requested where
  descriptor := descriptor
  before := before
  registered := ⟨S, registers, rest⟩
  kept distinct := by
    have known : S.class? c.id = some c := by
      obtain ⟨-, -, rfl⟩ := register_eq_ok_iff.1 registers
      have found : (R.add (.classType c)).get? c.id = some (.classType c) :=
        (get?_add ..).trans (if_pos rfl)
      exact congrArg (·.bind Entry.asClass?) found
    have grows : first.Grows S := before.trans (grows_register registers)
    exact class?_of_grows (sound.of_grows grows) rest distinct known
  requests := requests

/-- Two methods of the class that is synthesized for a form have the same name and the same
parameter types only where the methods of the form have, or where one of them coincides with one
that the construct declares by itself. -/
theorem methodsDiffer_resolve {p : Pipeline} {n n' : Node} {s t : ResolveState}
    (built : s.session.registry.Built) (defines : n.definesClass = true)
    (fresh : n.descriptor? = none) (h : n.resolve p s = .ok n' t) :
    ∃ m, p.lowerings.run t.session.registry m = .ok n' ∧ (p.lowerings = {} → n' = m) ∧
      ∃ c R requested, n.Classed m s.session.registry t.session.registry c R requested ∧
        (c.MethodsDiffer ↔ m.Separates R c requested) := by
  have prepared := Session.grows_respected.toPrepared
  have sound := built.sound
  cases n with
  | fn span head as =>
    obtain ⟨d, heads, u, captures?, as', hd, rest, run⟩ := resolve_fn_eq_ok fresh h
    rw [synthesizeWrapper_eq] at hd
    obtain ⟨c, v, hc, registers, rfl⟩ := exists_draft hd
    have before : s.session.registry.Grows v.registry := (prepared.draftWrapper ..).of_ok hc
    obtain ⟨nodup, shapes⟩ := shapes_draftWrapper hc
    refine ⟨_, run, eq_of_default rfl run, c, v.registry, [],
      .of_register sound before registers rest rfl nofun, ?_⟩
    rw [ClassType.methodsDiffer_iff, shapes, nodup_invocations_iff (sound.of_grows before) nodup]
    -- no methods are supplied to a function
    exact (and_iff_right List.nodup_nil).symm
  | record span head ms =>
    obtain ⟨d, heads, u, ms', hd, rest, same, run⟩ := resolve_record_eq_ok fresh h
    rw [synthesizeRecord_eq] at hd
    obtain ⟨c, v, hc, registers, rfl⟩ := exists_draft hd
    have before : s.session.registry.Grows v.registry := (prepared.draftRecord ..).of_ok hc
    refine ⟨_, run, eq_of_default rfl run, c, v.registry, [],
      .of_register sound before registers rest rfl nofun, ?_⟩
    have shapes := shapes_draftRecord hc
    rw [← shapes_of_captures same] at shapes
    rw [ClassType.methodsDiffer_iff_of_shapes shapes (List.nodup_singleton _)]
    exact and_congr_right fun _ => List.forall_mem_singleton
  | object span head ms =>
    obtain ⟨d, heads, u, captures, ms', hd, rest, same, run⟩ := resolve_object_eq_ok fresh h
    rw [synthesizeObject_eq] at hd
    obtain ⟨c, v, hc, registers, rfl⟩ := exists_draft hd
    have before : s.session.registry.Grows v.registry := (prepared.draftObject ..).of_ok hc
    obtain ⟨supers, w, hsupers, after, shapes⟩ := shapes_draftObject hc
    have derives : head.Derives s.session.registry t.session.registry supers.base
        supers.requested :=
      (derives_supertypes hsupers).mono (after.trans ((grows_register registers).trans rest))
    refine ⟨_, run, eq_of_default rfl run, c, v.registry, supers.requested,
      .of_register sound before registers rest rfl ?_, ?_⟩
    · rintro _ _ _ ⟨⟩
      exact ⟨_, derives⟩
    rw [← shapes_of_captures same] at shapes
    rw [ClassType.methodsDiffer_iff_of_shapes shapes (nodup_shape_metadataMethods ..)]
    -- what the class declares by itself is there for anonymous objects alone
    refine and_congr_right fun _ => List.forall_mem_map.trans ?_
    simp only [mem_metadataMethods_iff hsupers after]
    constructor
    · intro apart anonymous u named new m hm
      exact apart m ⟨anonymous, u, named, new, hm⟩
    · rintro apart m ⟨anonymous, u, named, new, hm⟩
      exact apart anonymous u named new m hm
  | _ => cases defines

/-! ### Overloads, and methods that coincide -/

/-- An interface with two methods of the same name. -/
def runInterface : Entry :=
  .interfaceType
    { name := "IRun"
      methods := [unaryMethod "IRun" "run" Primitive.int.id, unaryMethod "IRun" "run" .string] }

/-- A supplied method that returns nothing, with a parameter for each hint. -/
def Method.empty (name : String) (hints : List String) : Method :=
  ⟨{ name, params := hints.map fun hint => { name := "x", hint? := some ⟨hint, .unknown⟩ },
     captures := .empty }, .const .unknown .nil⟩

namespace Node

/-- An object literal with supertypes and methods. -/
def objectLiteral (kind : ObjectKind) (supers : List String) (ms : List Method) : Node :=
  .object .unknown
    { kind, supers := supers.map (⟨·, .unknown⟩), selfName := "this", captures := .empty } ms

/-- A proxy with two methods of the same name. -/
def overloaded : Node :=
  objectLiteral .proxy ["IRun"] [.empty "run" ["int"], .empty "run" ["string"]]

/-- A proxy to which a method is supplied twice. -/
def twiceSupplied : Node := objectLiteral .proxy [] [.empty "ToString" [], .empty "ToString" []]

/-- A record that implements a method named as its basis. -/
def ownBasis : Node :=
  .record .unknown { name := "Cell", interfaces := [⟨"IBasis", .unknown⟩], selfName := "self" }
    [.empty basisName []]

/-- An anonymous object with a method of the metadata interface. -/
def ownMetadata : Node := objectLiteral .anonymous ["INoted"] [.empty "meta" []]

/-- A function without parameters. -/
def thunk : Node := .fn .unknown {} [⟨{ params := [] }, .const .unknown .nil⟩]

end Node

open Node

theorem methodsDiffer_overloaded :
    ∃ n' t c R requested,
      overloaded.resolve {} { session := { registry := hostWith [runInterface] } } = .ok n' t ∧
        overloaded.Classed n' (hostWith [runInterface]) t.session.registry c R requested ∧
        c.MethodsDiffer := by
  have h : accepted (fun n' _ => match n' with
      | .object _ head _ => decide (head.kind = .proxy ∧ n'.suppliedShapes.Nodup)
      | _ => false)
      (overloaded.resolve {} { session := { registry := hostWith [runInterface] } }) = true := by
    decide +kernel
  obtain ⟨n', t, h, separate⟩ := exists_of_accepted h
  obtain ⟨m, -, same, c, R, requested, classed, iff⟩ :=
    methodsDiffer_resolve (built_hostWith (by decide)) rfl rfl h
  obtain rfl := same rfl
  refine ⟨n', t, c, R, requested, h, classed, iff.2 ?_⟩
  cases n' with
  | object span head ms =>
    obtain ⟨proxy, nodup⟩ := of_decide_eq_true separate
    exact ⟨nodup, fun anonymous => by rw [proxy] at anonymous; cases anonymous⟩
  | _ => cases separate

/-- No form that resolves to one that passes the test is given a class in which two methods have the
same name and the same parameter types. -/
def MethodsAlwaysDiffer (q : Node → Bool) : Prop :=
  ∀ (p : Pipeline) (n n' : Node) (s t : ResolveState) (d : Descriptor) (c : ClassType),
    s.session.registry.Built → n.definesClass = true → n.descriptor? = none →
    n.resolve p s = .ok n' t → q n' = true → n'.descriptor? = some d →
    t.session.registry.class? d.id = some c → c.MethodsDiffer

/-- Whether a form resolves to one that passes the test, and two methods of its class have the same
name and the same parameter types. -/
def hasMethodTwice (q : Node → Bool)
    (r : EStateM.Result CompilationError ResolveState Node) : Bool :=
  accepted (fun n' t => q n' && n'.descriptor?.any fun d =>
    (t.session.registry.class? d.id).any fun c => !decide c.MethodsDiffer) r

theorem not_methodsAlwaysDiffer {q : Node → Bool} (es : List Entry) (n : Node)
    (plain : ∀ e ∈ es, (Operation.register e).isPlain = true) (defines : n.definesClass = true)
    (fresh : n.descriptor? = none)
    (h : hasMethodTwice q (n.resolve {} { session := { registry := hostWith es } }) = true) :
    ¬ MethodsAlwaysDiffer q := by
  intro never
  obtain ⟨n', t, h, passes⟩ := exists_of_accepted h
  obtain ⟨hq, passes⟩ := Bool.and_eq_true_iff.1 passes
  obtain ⟨d, hd, passes⟩ := (Option.any_eq_true _ _).1 passes
  obtain ⟨c, hc, twice⟩ := (Option.any_eq_true _ _).1 passes
  have := never {} n n' _ t d c (built_hostWith plain) defines fresh h hq hd hc
  rw [decide_eq_true this] at twice
  cases twice

/-- An interface whose method is named as the basis of a record. -/
def basisInterface : Entry :=
  .interfaceType { name := "IBasis", methods := [hostMethod basisName [] .object .interface] }

/-- An interface over the metadata interface. -/
def notedInterface : Entry :=
  .interfaceType { name := "INoted", bases := [.ofName metadataName] }

/-- A generic interface under the name of an invoker definition that lists its method twice. -/
def twofoldInvoker : Entry :=
  .interfaceType
    { name := invokerName 0, typeParams := [.ofName "T"]
      methods := List.replicate 2 (hostMethod invokeName [] .object .interface) }

/-- A method may be supplied twice.  And where the supplied methods differ, one of a record may be
its basis, one of an anonymous object may be of the metadata interface, which it requests through
another, and a function may implement an invoker that lists its method twice. -/
theorem not_methodsDiffer_resolve :
    (¬ MethodsAlwaysDiffer fun _ => true) ∧
    (¬ MethodsAlwaysDiffer fun
      | .record _ _ ms => decide (ms.map (·.head.shape)).Nodup
      | _ => false) ∧
    (¬ MethodsAlwaysDiffer fun
      | .object _ head ms =>
        decide (head.kind = .anonymous) && decide (ms.map (·.head.shape)).Nodup
      | _ => false) ∧
    ¬ MethodsAlwaysDiffer fun
      | .fn .. => true
      | _ => false :=
  ⟨not_methodsAlwaysDiffer [] twiceSupplied (by decide) rfl rfl (by decide +kernel),
    not_methodsAlwaysDiffer [basisInterface] ownBasis (by decide) rfl rfl (by decide +kernel),
    not_methodsAlwaysDiffer [notedInterface] ownMetadata (by decide) rfl rfl (by decide +kernel),
    not_methodsAlwaysDiffer [twofoldInvoker] thunk (by decide) rfl rfl (by decide +kernel)⟩

end TypeSynthesis
