import TypeSynthesis.Proofs.SuperCall.Nearest

/-!
# Super calls and abstract methods

A super call is bound by the name and the arguments alone, and so perhaps to a method without a
body.

* `Registry.Bodied R t name`: the methods of the name that the type `t` shows have bodies;
* `bindSuperCall_shown`: some super call is bound to each method that a base shows;
* `Registry.CallsBodies`, `callsBodies_iff_bodied`: super calls of a name only ever call bodies if
  the base shows nothing else under this name.
-/

namespace TypeSynthesis

open Registry

/-! ### Types that show bodies -/

namespace Registry

variable {R : Registry} {t : TypeId}

/-- All methods of the name that the type shows have bodies. -/
def Bodied (R : Registry) (t : TypeId) (name : String) : Prop :=
  ∀ m ∈ R.methodsOf t, m.name = name → m.attributes.isAbstract = false

instance (R : Registry) (t : TypeId) (name : String) : Decidable (R.Bodied t name) :=
  inferInstanceAs
    (Decidable (∀ m ∈ R.methodsOf t, m.name = name → m.attributes.isAbstract = false))

/-- What is no interface shows each slot once. -/
theorem pairwise_methodsOf (h : R.isInterface t = false) :
    (R.methodsOf t).Pairwise (·.slot ≠ ·.slot) := by
  unfold methodsOf
  split
  · exact pairwise_firstPerSlot _ _
  · rename_i i hi
    rw [isInterface_iff.2 ⟨i, hi⟩] at h
    cases h
  · exact .nil

end Registry

/-! ### What super calls call -/

/-- Where a base shows each slot once, any of its methods is called with arguments of exactly its
parameter types. -/
theorem bindSuperCall_shown {R : Registry} {here : Scope} {span : Span} {selfName : String}
    {args : List Node} {proxy : Binding} {base : TypeId} {m : Signature}
    (hself : here.get? selfName = some proxy) (hbase : R.HasBase proxy.type.id base)
    (distinct : (R.methodsOf base).Pairwise (·.slot ≠ ·.slot)) (shown : m ∈ R.methodsOf base)
    (types : args.map Node.argumentType = m.params) :
    bindSuperCall R here span m.name selfName args =
      .ok (.baseCall span m.declaring m
        (.localRef span selfName .objectSelf (some proxy.type) none) args) := by
  have selected : R.select? ((R.methodsOf base).filter (·.name == m.name))
      (args.map Node.argumentType) = some m := by
    rw [types]
    refine select?_exact (List.mem_filter.2 ⟨shown, beq_self_eq_true m.name⟩) ?_ ?_
    · intro n hn
      exact beq_iff_eq.1 (List.mem_filter.1 hn).2
    · exact distinct.filter _
  exact bindSuperCall_eq_ok_iff.2
    ⟨proxy, base, m, hself, Option.bind_eq_some_iff.2 hbase, selected, rfl⟩

/-- Whenever a super call of the name on an object of the type `t` is bound, the method that it
calls has a body. -/
def Registry.CallsBodies (R : Registry) (t : TypeId) (name : String) : Prop :=
  ∀ (here : Scope) (span : Span) (selfName : String) (args : List Node) (proxy : Binding)
    (n : Node), here.get? selfName = some proxy → proxy.type.id = t →
    bindSuperCall R here span name selfName args = .ok n →
    ∃ m target, n = .baseCall span m.declaring m target args ∧ m.attributes.isAbstract = false

/-- Arguments of any given types. -/
def argumentsOf (types : List TypeRef) : List Node :=
  types.map fun t => .localRef .unknown "argument" .parameter (some t) none

theorem argumentType_argumentsOf (types : List TypeRef) :
    (argumentsOf types).map Node.argumentType = types := by
  unfold argumentsOf
  rw [List.map_map]
  exact List.map_id types

/-- If the base of a class shows bodies only under a name, super calls of this name over the class
call nothing else, whichever overloads there are.  The condition is needed where the walks to the
base classes end, unless the base is an interface, where methods of one slot may stand in the way of
each other. -/
theorem callsBodies_iff_bodied {R : Registry} {t base : TypeId} (hbase : R.HasBase t base)
    (name : String) :
    (R.Bodied base name → R.CallsBodies t name) ∧
    (R.Acyclic → R.isInterface base = false → R.CallsBodies t name → R.Bodied base name) := by
  constructor
  · intro bodied here span selfName args proxy n hself same bound
    obtain ⟨found, base', m, hfound, hbase', selected, rfl⟩ := bindSuperCall_eq_ok_iff.1 bound
    obtain rfl : found = proxy := Option.some.inj (hfound.symm.trans hself)
    subst same
    obtain rfl : base' = base := HasBase.unique (Option.bind_eq_some_iff.1 hbase') hbase
    obtain ⟨shown, named⟩ := List.mem_filter.1 (mem_of_select? selected).1
    exact ⟨m, _, rfl, bodied m shown (beq_iff_eq.1 named)⟩
  · rintro - noInterface calls m shown rfl
    let proxy : Binding := ⟨.value t, ⟨.objectSelf, .unknown⟩⟩
    let here : Scope := Scope.empty.bind "this" proxy
    have inView : here.get? "this" = some proxy := rfl
    have types := argumentType_argumentsOf m.params
    have bound : bindSuperCall R here .unknown m.name "this" (argumentsOf m.params) = .ok _ :=
      bindSuperCall_shown inView hbase (pairwise_methodsOf noInterface) shown types
    obtain ⟨m', target, same, body⟩ := calls _ _ _ _ proxy _ inView rfl bound
    obtain rfl : m = m' := (Node.baseCall.inj same).2.2.1
    exact body

/-! ### Shapes -/

namespace Registry

/-- A shape, which can be scaled and whose area is not known, a square, whose area is, and a proxy
over each. -/
def figures : Registry := host.addAll
  [.classType (ClassType.declare
      (ClassType.declare { name := "Shape", base? := some .object }
        "Area" .interface (.value Primitive.long.id) [])
      "Scale" .overridable .void [.value Primitive.long.id]),
    .classType (ClassType.declare { name := "Square", base? := some (.ofName "Shape") }
      "Area" .overridable (.value Primitive.long.id) []),
    .classType { name := "ShapeProxy", base? := some (.ofName "Shape") },
    .classType { name := "SquareProxy", base? := some (.ofName "Square") }]

theorem grown_figures : Grown figures := Grown.host.addAll (by decide +kernel)

end Registry

/-- The area of the square has a body, and so has the scaling of the shape, but its area has
none. -/
theorem callsBodies_figures : figures.CallsBodies (.ofName "SquareProxy") "Area" ∧
    figures.CallsBodies (.ofName "ShapeProxy") "Scale" ∧
    ¬ figures.CallsBodies (.ofName "ShapeProxy") "Area" := by
  have square : figures.HasBase (.ofName "SquareProxy") (.ofName "Square") :=
    Option.bind_eq_some_iff.1 (by decide +kernel)
  have shape : figures.HasBase (.ofName "ShapeProxy") (.ofName "Shape") :=
    Option.bind_eq_some_iff.1 (by decide +kernel)
  have shown : figures.Bodied (.ofName "Square") "Area" ∧
      figures.Bodied (.ofName "Shape") "Scale" ∧
      ¬ figures.Bodied (.ofName "Shape") "Area" ∧
      figures.isInterface (.ofName "Shape") = false := by
    decide +kernel
  obtain ⟨area, scale, bodiless, noInterface⟩ := shown
  refine ⟨(callsBodies_iff_bodied square "Area").1 area,
    (callsBodies_iff_bodied shape "Scale").1 scale, fun calls => ?_⟩
  have acyclic := (layered_of_grown grown_figures).acyclic
  exact bodiless ((callsBodies_iff_bodied shape "Area").2 acyclic noInterface calls)

/-- A super call over the shape is bound to the area that has no body. -/
theorem not_callsBodies :
    ¬ ∀ (R : Registry) (here : Scope) (span : Span) (method selfName : String) (args : List Node)
        (n : Node), Grown R → R.Owned →
        bindSuperCall R here span method selfName args = .ok n →
        ∃ m target, n = .baseCall span m.declaring m target args ∧
          m.attributes.isAbstract = false := by
  intro h
  let area : Signature :=
    ⟨"Area", .ofName "Shape", [], .value Primitive.long.id, .interface⟩
  have owned : figures.Owned := grown_figures.sound.owned (by decide +kernel)
  have base : (figures.class? (.ofName "ShapeProxy")).bind ClassType.base? =
      some (.ofName "Shape") := by
    decide +kernel
  have bound : bindSuperCall figures (selfOf "ShapeProxy") .unknown "Area" "this" [] =
      .ok (callOn "ShapeProxy" area []) :=
    bindSuperCall_selfOf base (by decide +kernel)
  obtain ⟨m, target, same, body⟩ := h _ _ _ _ _ _ _ grown_figures owned bound
  obtain rfl : area = m := (Node.baseCall.inj same).2.2.1
  cases body

end TypeSynthesis
