import TypeSynthesis.Proofs.SuperCall.Bodies

/-!
# Repeated signatures

Arguments of exactly an overload's parameter types lead to this overload.

* `Registry.ReachesEach`: each signature of a list is selected there by its own parameter types;
* `Registry.reachesEach_named`, `Registry.reachesEach_shown`: so are the candidates of a name, and
  what a class shows under a name;
* `MethodHead.Repeats`: a supplied method repeats a candidate;
* `reaches_exact`: it implements this candidate then, and a super call with arguments of exactly a
  method's parameter types calls this method.

Where one signature is kept for each slot, all that are kept under a name differ in the key of a
parameter, and only what has a parameter's key is passed for it at no cost.

Arguments are compared with the parameters of all overloads, by walks to their base classes.  The
result is about registries in which no class is above itself, so that these walks end.  An interface
that a class is registered over shows all that it lists, and may list one signature twice
(`not_reaches_exact`).
-/

namespace TypeSynthesis

namespace Registry

variable {R : Registry} {ms : List Signature}

/-- Each signature of the list is selected there by arguments of exactly its parameter types. -/
def ReachesEach (R : Registry) (ms : List Signature) : Prop :=
  ∀ m ∈ ms, R.select? ms m.params = some m

theorem reachesEach_of_pairwise {name : String} (named : ∀ m ∈ ms, m.name = name)
    (distinct : ms.Pairwise (·.slot ≠ ·.slot)) : R.ReachesEach ms := by
  intro m hm
  exact select?_exact hm (fun n hn => (named n hn).trans (named m hm).symm) distinct

theorem reachesEach_named (R : Registry) (candidates : Candidates) (name : MemberName) :
    R.ReachesEach (candidates.named R name) :=
  reachesEach_of_pairwise (fun _ hm => (Candidates.mem_of_mem_named hm).2.1)
    (pairwise_firstPerSlot _ _)

theorem isInterface_of_class? {t : TypeId} {c : ClassType} (h : R.class? t = some c) :
    R.isInterface t = false := by
  refine Bool.eq_false_iff.2 fun interface => ?_
  obtain ⟨i, hi⟩ := isInterface_iff.1 interface
  rw [get?_of_class? h] at hi
  cases hi

theorem reachesEach_shown {base : TypeId} {c : ClassType} (h : R.class? base = some c)
    (name : String) : R.ReachesEach ((R.methodsOf base).filter (·.name == name)) :=
  reachesEach_of_pairwise (fun _ hm => beq_iff_eq.1 (List.mem_filter.1 hm).2)
    ((pairwise_methodsOf (isInterface_of_class? h)).filter _)

end Registry

/-- The supplied method `given` repeats the candidate `m`: it has the name and the owner that it is
looked up by, and its hints denote exactly the parameter types. -/
structure MethodHead.Repeats (given : MethodHead) (construct : String) (candidates : Candidates)
    (m : Signature) (s t : Session) : Prop where
  hints : given.params.mapM (fun p => SynthM.resolveHint construct p.hint?) s = .ok m.params t
  candidate : m ∈ candidates.named t.registry (.ofText given.name)

/-- Where no class is above itself, all walks to base classes end, and overloads never stand in the
way of one another.  Each candidate of a name, and each method that a class shows, is selected by
arguments of exactly its parameter types.  So a supplied method whose hints are resolved there
implements the signature that it repeats, and a super call over a class calls the method whose
parameter types the arguments have. -/
theorem reaches_exact {R : Registry} (acyclic : R.Acyclic) :
    R.WalksEnd ∧
    (∀ (candidates : Candidates) (name : MemberName), R.ReachesEach (candidates.named R name)) ∧
    (∀ (base : TypeId) (c : ClassType), R.class? base = some c →
      ∀ name, R.ReachesEach ((R.methodsOf base).filter (·.name == name))) ∧
    (∀ (given : MethodHead) (construct : String) (candidates : Candidates) (m : Signature)
      (s t : Session), t.registry = R → given.Repeats construct candidates m s t →
      SynthM.resolveMethod construct candidates given s = .ok m t) ∧
    ∀ (here : Scope) (span : Span) (selfName : String) (proxy : Binding) (base : TypeId)
      (c : ClassType) (m : Signature) (args : List Node),
      here.get? selfName = some proxy → R.HasBase proxy.type.id base → R.class? base = some c →
      m ∈ R.methodsOf base → args.map Node.argumentType = m.params →
      bindSuperCall R here span m.name selfName args =
        .ok (.baseCall span m.declaring m
          (.localRef span selfName .objectSelf (some proxy.type) none) args) := by
  refine ⟨Registry.acyclic_iff_walksEnd.1 acyclic, R.reachesEach_named,
    fun _ _ => Registry.reachesEach_shown, ?_, ?_⟩
  · rintro given construct candidates m s t rfl ⟨hints, candidate⟩
    have selected := t.registry.reachesEach_named candidates (.ofText given.name) m candidate
    exact SynthM.resolveMethod_eq_ok_iff.2 ⟨m.params, hints, selected⟩
  · intro here span selfName proxy base c m args hself hbase hc shown types
    exact bindSuperCall_shown hself hbase
      (Registry.pairwise_methodsOf (Registry.isInterface_of_class? hc)) shown types

/-! ### Brushes -/

/-- The parameter types of a brush: a number, a reference to one, the root type, nothing, and a type
that is not registered. -/
def brushParams : List TypeRef :=
  [.value Primitive.int.id, .reference Primitive.int.id, .object, .void, .value (.ofName "Ink")]

/-- To paint with one of them, as the brush declares it. -/
def paintWith (p : TypeRef) : Signature :=
  ⟨"paint", .ofName "Brush", [p], .void, .overridable⟩

/-- A class that paints with each of them. -/
def brush : ClassType :=
  { name := "Brush", base? := some .object, methods := brushParams.map paintWith }

/-- A brush, and a proxy over it. -/
def brushes : Registry := Registry.host.addAll
  [.classType brush, .classType { name := "BrushProxy", base? := some (.ofName "Brush") }]

/-- The brush shows five overloads of one name, a super call reaches each of them, and a method that
takes a reference to a number implements that one. -/
theorem reaches_exact_brushes :
    (brushes.methodsOf (.ofName "Brush")).filter (·.name == "paint") = brushParams.map paintWith ∧
      brushes.ReachesEach (brushParams.map paintWith) ∧
      (∃ t, SynthM.resolveMethod "" (.collect brushes (.ofName "Brush") [])
        (SynthM.unarySupplied "paint" "int&") { registry := brushes } =
          .ok (paintWith (.reference Primitive.int.id)) t) ∧
      ∀ p ∈ brushParams, bindSuperCall brushes (selfOf "BrushProxy") .unknown "paint" "this"
        (argumentsOf [p]) = .ok (callOn "BrushProxy" (paintWith p) (argumentsOf [p])) := by
  have acyclic : brushes.Acyclic := SynthM.acyclic_of_basesFirst (by decide +kernel)
  obtain ⟨-, -, reached, -, called⟩ := reaches_exact acyclic
  have registered : brushes.class? (.ofName "Brush") = some brush := by decide +kernel
  have base : brushes.HasBase (.ofName "BrushProxy") (.ofName "Brush") :=
    Option.bind_eq_some_iff.1 (by decide +kernel)
  have shown : (brushes.methodsOf (.ofName "Brush")).filter (·.name == "paint") =
      brushParams.map paintWith := by
    decide +kernel
  have each := reached _ _ registered "paint"
  rw [shown] at each
  refine ⟨shown, each, ?_, fun p hp => ?_⟩
  · let reference := paintWith (.reference Primitive.int.id)
    let candidates := Candidates.collect brushes (.ofName "Brush") []
    have run : accepted (fun args t => decide (args = reference.params ∧
        reference ∈ candidates.named t.registry (.ofText "paint") ∧
          SynthM.basesFirst t.registry = true))
        ((SynthM.unarySupplied "paint" "int&").params.mapM
          (fun p => SynthM.resolveHint "" p.hint?) { registry := brushes }) = true := by
      decide +kernel
    obtain ⟨args, t, hints, h⟩ := exists_of_accepted run
    obtain ⟨rfl, candidate, ordered⟩ := of_decide_eq_true h
    obtain ⟨-, -, -, implemented, -⟩ := reaches_exact (SynthM.acyclic_of_basesFirst ordered)
    exact ⟨t, implemented _ "" candidates reference _ t rfl ⟨hints, candidate⟩⟩
  · have listed : paintWith p ∈ brushes.methodsOf (.ofName "Brush") := by
      have mem := List.mem_map_of_mem (f := paintWith) hp
      rw [← shown] at mem
      exact (List.mem_filter.1 mem).1
    let proxy : Binding := ⟨.value (.ofName "BrushProxy"), ⟨.objectSelf, .unknown⟩⟩
    have inView : (selfOf "BrushProxy").get? "this" = some proxy := by decide +kernel
    exact called _ .unknown "this" proxy _ brush (paintWith p) _ inView base registered listed
      (argumentType_argumentsOf [p])

/-! ### A base that is no class, and a circle of classes -/

/-- To run for a number, as the interface `Machine` declares it. -/
def runFor : Signature := SynthM.unaryMethod "Machine" "run" Primitive.long.id

/-- A class that is registered over an interface which lists a method twice. -/
def machines : Registry := Registry.host.addAll
  [.interfaceType { name := "Machine", methods := [runFor, runFor] },
    .classType { name := "Robot", base? := some (.ofName "Machine") }]

theorem grown_machines : Registry.Grown machines := Registry.Grown.host.addAll (by decide +kernel)

/-- A super call with arguments of exactly the parameter types is refused over an interface that
lists the method twice.  Where overloads take a class of a circle and another class, the walk that
compares the two has no end. -/
theorem not_reaches_exact :
    (¬ ∀ (R : Registry) (here : Scope) (span : Span) (selfName : String) (proxy : Binding)
      (base : TypeId) (m : Signature) (args : List Node), Registry.Grown R → R.Owned →
      here.get? selfName = some proxy → R.HasBase proxy.type.id base → m ∈ R.methodsOf base →
      args.map Node.argumentType = m.params →
      bindSuperCall R here span m.name selfName args =
        .ok (.baseCall span m.declaring m
          (.localRef span selfName .objectSelf (some proxy.type) none) args)) ∧
    ¬ ∀ (R : Registry) (candidates : Candidates) (name : MemberName) (t u : TypeId)
      (m n : Signature), R.Built → m ∈ candidates.named R name → n ∈ candidates.named R name →
      m.params = [.value t] → n.params = [.value u] → t ≠ u → ∃ chain, R.BaseChain t chain := by
  constructor
  · intro h
    let proxy : Binding := ⟨.value (.ofName "Robot"), ⟨.objectSelf, .unknown⟩⟩
    have inView : (selfOf "Robot").get? "this" = some proxy := by decide +kernel
    have owned : machines.Owned := grown_machines.sound.owned (by decide +kernel)
    have base : machines.HasBase (.ofName "Robot") (.ofName "Machine") :=
      Option.bind_eq_some_iff.1 (by decide +kernel)
    have bound := h machines (selfOf "Robot") .unknown "this" proxy _ runFor
      (argumentsOf runFor.params) grown_machines owned inView base (by decide +kernel)
      (argumentType_argumentsOf _)
    obtain ⟨found, base', m, hfound, hbase, selected, -⟩ := bindSuperCall_eq_ok_iff.1 bound
    obtain rfl : found = proxy := Option.some.inj (hfound.symm.trans inView)
    obtain rfl : base' = .ofName "Machine" :=
      Registry.HasBase.unique (Option.bind_eq_some_iff.1 hbase) base
    have none : machines.select? ((machines.methodsOf (.ofName "Machine")).filter
        (·.name == runFor.name)) ((argumentsOf runFor.params).map Node.argumentType) = none := by
      decide +kernel
    cases none.symm.trans selected
  · intro h
    let market := SynthM.hostWith SynthM.circling
    let candidates := Candidates.collect market .object [.ofName "IMarket"]
    have built : market.Built := SynthM.built_hostWith (by decide +kernel)
    have circle : SynthM.circles market = true := by decide +kernel
    have listed : SynthM.unaryMethod "IMarket" "sell" (.ofName "Hen") ∈
          candidates.named market (.ofText "sell") ∧
        SynthM.unaryMethod "IMarket" "sell" (.ofName "Coin") ∈
          candidates.named market (.ofText "sell") := by
      decide +kernel
    have walk := h market candidates (.ofText "sell") (.ofName "Hen") (.ofName "Coin") _ _ built
      listed.1 listed.2 rfl rfl (by decide +kernel)
    exact SynthM.not_baseChain_of_circles circle walk

end TypeSynthesis
