import TypeSynthesis.Proofs.SuperCall.Nearest

/-!
# The most derived method of a slot

A class shows each slot once, with the declaration that stands nearest on the way from the class to
the root.

* `Registry.MostDerived R k m t`: from the class `t` upwards, `m` is what the nearest class with an
  instance method in the slot `k` declares there first;
* `filter_firstPerSlot`: where each slot counts once, the first signature of a slot is what is left
  of it;
* `Registry.findSome?_lineage_iff`: the search along the lineage of a class finds the most derived
  method;
* `Registry.methodsOf_mostDerived`: a class shows the most derived method of each slot, and lets it
  be replaced if it is overridable itself.

Static methods are passed over: they neither are shown nor hide anything.
-/

namespace TypeSynthesis

open Relation

/-! ### Slots of lists and of classes -/

theorem filter_firstPerSlot_seen (seen : List TypeId) (ms : List Signature) (k : TypeId) :
    (firstPerSlot seen ms).filter (·.slot == k) =
      if k ∈ seen then [] else (ms.find? (·.slot == k)).toList := by
  induction ms generalizing seen with
  | nil => simp
  | cons m ms ih =>
    by_cases same : (m.slot == k) = true
    · obtain rfl := beq_iff_eq.1 same
      by_cases hm : m.slot ∈ seen
      · rw [firstPerSlot_cons_of_mem hm, ih, if_pos hm, if_pos hm]
      · rw [firstPerSlot_cons_of_not_mem hm, List.filter_cons_of_pos (by exact same), ih,
          if_pos List.mem_cons_self, if_neg hm, List.find?_cons_of_pos (by exact same),
          Option.toList_some]
    · rw [List.find?_cons_of_neg (by exact same)]
      by_cases hm : m.slot ∈ seen
      · rw [firstPerSlot_cons_of_mem hm, ih]
      · have other : k ≠ m.slot := fun h => same (beq_iff_eq.2 h.symm)
        rw [firstPerSlot_cons_of_not_mem hm, List.filter_cons_of_neg (by exact same), ih]
        simp only [List.mem_cons, other, false_or]

/-- Where each slot counts once, the first signature of a slot is what is left of it. -/
theorem filter_firstPerSlot (ms : List Signature) (k : TypeId) :
    (firstPerSlot [] ms).filter (·.slot == k) = (ms.find? (·.slot == k)).toList := by
  rw [filter_firstPerSlot_seen, if_neg List.not_mem_nil]

/-- The first instance method that the class declares in the slot. -/
def ClassType.inSlot? (c : ClassType) (k : TypeId) : Option Signature :=
  c.methods.find? fun m => !m.isStatic && m.slot == k

theorem ClassType.find?_instanceMethods (c : ClassType) (k : TypeId) :
    c.instanceMethods.find? (·.slot == k) = c.inSlot? k := by
  simp only [instanceMethods, inSlot?, List.find?_filter, Bool.decide_and, Bool.decide_eq_true]

theorem ClassType.isSome_inSlot?_iff {c : ClassType} {k : TypeId} :
    (c.inSlot? k).isSome = true ↔ ∃ m ∈ c.methods, m.isStatic = false ∧ m.slot = k := by
  simp [inSlot?]

namespace Registry

variable {R : Registry} {t u b k : TypeId} {c d : ClassType} {m : Signature}

/-! ### The nearest declaration -/

/-- The type is a class that declares an instance method in the slot. -/
def Declares (R : Registry) (t k : TypeId) : Prop :=
  ∃ c, R.class? t = some c ∧ ∃ m ∈ c.methods, m.isStatic = false ∧ m.slot = k

/-- From the class `t` upwards, `m` is the first instance method in the slot `k` that the nearest
class with any declares. -/
inductive MostDerived (R : Registry) (k : TypeId) (m : Signature) : TypeId → Prop
  | own {t : TypeId} {c : ClassType} (hc : R.class? t = some c) (first : c.inSlot? k = some m) :
      MostDerived R k m t
  | inherited {t b : TypeId} {c : ClassType} (hc : R.class? t = some c)
      (nothing : c.inSlot? k = none) (derives : R.Derives t b) (above : MostDerived R k m b) :
      MostDerived R k m t

theorem MostDerived.of_class (hc : R.class? t = some c) (h : R.MostDerived k m t) :
    c.inSlot? k = some m ∨ c.inSlot? k = none ∧ ∃ b, R.Derives t b ∧ R.MostDerived k m b := by
  cases h with
  | own hc' first =>
    cases hc.symm.trans hc'
    exact .inl first
  | inherited hc' nothing derives above =>
    cases hc.symm.trans hc'
    exact .inr ⟨nothing, _, derives, above⟩

theorem MostDerived.exists_class (h : R.MostDerived k m t) : ∃ c, R.class? t = some c := by
  cases h with
  | own hc _ => exact ⟨_, hc⟩
  | inherited hc _ _ _ => exact ⟨_, hc⟩

/-- The lineage of a class consists of the classes that its walk to the root meets. -/
theorem mem_lineage_iff (acyclic : R.Acyclic) :
    d ∈ R.lineage t ↔ ∃ u, ReflTransGen R.Derives t u ∧ R.class? u = some d := by
  simp only [lineage, List.mem_filterMap, List.mem_cons, mem_ancestors_iff acyclic,
    reflTransGen_iff_eq_or_transGen]

/-- The search along the lineage finds the most derived method.  The induction is on the walk to
the root. -/
theorem findSome?_lineage_iff (acyclic : R.Acyclic) (hc : R.class? t = some c) :
    (R.lineage t).findSome? (·.inSlot? k) = some m ↔ R.MostDerived k m t := by
  obtain ⟨l, walk⟩ : ∃ l, R.BaseChain t l := ⟨_, baseChain_ancestors acyclic t⟩
  induction walk generalizing c with
  | @stop t top =>
    rw [lineage_of_top hc top, List.findSome?_singleton]
    refine ⟨.own hc, fun h => ?_⟩
    rcases h.of_class hc with first | ⟨-, b, derives, -⟩
    · exact first
    · cases top.symm.trans derives
  | @step t b l derives _ ih =>
    obtain ⟨-, d, hd⟩ := hasBase_of_derives derives
    rw [lineage_of_derives acyclic hc derives, List.findSome?_cons]
    constructor
    · intro found
      cases own : c.inSlot? k with
      | some n =>
        rw [own] at found
        exact .own hc (own.trans found)
      | none =>
        rw [own] at found
        exact .inherited hc own derives ((ih hd).1 found)
    · intro h
      rcases h.of_class hc with first | ⟨nothing, b', derives', above⟩
      · rw [first]
      · cases derives.symm.trans derives'
        rw [nothing]
        exact (ih hd).2 above

/-! ### The methods that a class shows -/

/-- A class shows at most one method of a slot, the one that the search along its lineage finds. -/
theorem filter_methodsOf (hc : R.class? t = some c) (k : TypeId) :
    (R.methodsOf t).filter (·.slot == k) = ((R.lineage t).findSome? (·.inSlot? k)).toList := by
  unfold methodsOf
  rw [get?_of_class? hc]
  simp only [filter_firstPerSlot, List.find?_flatMap, ClassType.find?_instanceMethods]

/-- A slot has a most derived method where the class or one above it declares the slot. -/
theorem exists_mostDerived_iff (acyclic : R.Acyclic) (hc : R.class? t = some c) :
    (∃ m, R.MostDerived k m t) ↔ ∃ u, ReflTransGen R.Derives t u ∧ R.Declares u k := by
  calc (∃ m, R.MostDerived k m t)
    _ ↔ ∃ m, (R.lineage t).findSome? (·.inSlot? k) = some m :=
        exists_congr fun m => (findSome?_lineage_iff acyclic hc).symm
    _ ↔ ∃ d ∈ R.lineage t, (d.inSlot? k).isSome = true := by
        rw [← Option.isSome_iff_exists, List.findSome?_isSome_iff]
    _ ↔ ∃ u, ReflTransGen R.Derives t u ∧ R.Declares u k := by
        simp only [mem_lineage_iff acyclic, Declares, ClassType.isSome_inSlot?_iff]
        constructor
        · rintro ⟨d, ⟨u, htu, hd⟩, declares⟩
          exact ⟨u, htu, d, hd, declares⟩
        · rintro ⟨u, htu, d, hd, declares⟩
          exact ⟨d, ⟨u, htu, hd⟩, declares⟩

/-- The most derived method of a slot is the only one that the class shows in it. -/
theorem MostDerived.filter_methodsOf (acyclic : R.Acyclic) (h : R.MostDerived k m t) :
    (R.methodsOf t).filter (·.slot == k) = [m] := by
  obtain ⟨c, hc⟩ := h.exists_class
  rw [Registry.filter_methodsOf hc, (findSome?_lineage_iff acyclic hc).2 h, Option.toList_some]

/-- A slot may be filled anew below a class if its most derived method is overridable. -/
theorem MostDerived.mem_overridable_iff (acyclic : R.Acyclic) (h : R.MostDerived k m t) :
    k ∈ (R.overridableMethodsOf t).map Signature.slot ↔ m.attributes.isOverridable = true := by
  have only (n : Signature) : n ∈ R.methodsOf t ∧ n.slot = k ↔ n = m :=
    calc n ∈ R.methodsOf t ∧ n.slot = k
      _ ↔ n ∈ (R.methodsOf t).filter (·.slot == k) := by rw [List.mem_filter, beq_iff_eq]
      _ ↔ n = m := by rw [h.filter_methodsOf acyclic, List.mem_singleton]
  constructor
  · intro filled
    obtain ⟨n, hn, slot⟩ := List.mem_map.1 filled
    obtain ⟨shown, overridable⟩ := List.mem_filter.1 hn
    rwa [(only n).1 ⟨shown, slot⟩] at overridable
  · intro overridable
    obtain ⟨shown, slot⟩ := (only m).2 rfl
    exact List.mem_map.2 ⟨m, List.mem_filter.2 ⟨shown, overridable⟩, slot⟩

/-- Where no class is above itself, a class shows one method of each slot that it or a class above
it declares, the most derived one, and no other.  A subclass may replace it if it is overridable
itself: one that is final or not virtual hides what is overridable further up. -/
theorem methodsOf_mostDerived (acyclic : R.Acyclic) (hc : R.class? t = some c) (k : TypeId) :
    ((∃ u, ReflTransGen R.Derives t u ∧ R.Declares u k) → ∃ m, R.MostDerived k m t) ∧
    (∀ m, R.MostDerived k m t →
      (R.methodsOf t).filter (·.slot == k) = [m] ∧
      (k ∈ (R.overridableMethodsOf t).map Signature.slot ↔ m.attributes.isOverridable = true) ∧
      (m.attributes.isFinal = true ∨ m.attributes.isVirtual = false →
        ∀ n ∈ R.overridableMethodsOf t, n.slot ≠ k)) ∧
    ((¬ ∃ u, ReflTransGen R.Derives t u ∧ R.Declares u k) → ∀ m ∈ R.methodsOf t, m.slot ≠ k) := by
  have declared := exists_mostDerived_iff (k := k) acyclic hc
  refine ⟨declared.2, fun m derived => ?_, fun undeclared n shown slot => ?_⟩
  · have replaceable := derived.mem_overridable_iff acyclic
    refine ⟨derived.filter_methodsOf acyclic, replaceable, fun hides n hn slot => ?_⟩
    have overridable := replaceable.1 (List.mem_map.2 ⟨n, hn, slot⟩)
    unfold MethodAttributes.isOverridable at overridable
    rcases hides with final | direct
    · simp [final] at overridable
    · simp [direct] at overridable
  · have nothing : (R.lineage t).findSome? (·.inSlot? k) = none :=
      Option.eq_none_iff_forall_ne_some.2 fun m found =>
        undeclared (declared.1 ⟨m, (findSome?_lineage_iff acyclic hc).1 found⟩)
    have none_shown := filter_methodsOf hc k
    rw [nothing, Option.toList_none] at none_shown
    exact List.filter_eq_nil_iff.1 none_shown n shown (beq_iff_eq.2 slot)

/-! ### A frame is a panel is a widget -/

/-- A widget is painted and closed. -/
def widget : ClassType :=
  ClassType.declare
    (ClassType.declare { name := "Widget", base? := some .object } "Paint" .overridable .void [])
    "Close" .overridable .void []

/-- A panel closes for good, and has a static method in the slot of painting. -/
def panel : ClassType :=
  ClassType.declare
    (ClassType.declare { name := "Panel", base? := some widget.id }
      "Paint" { isPublic := true, isStatic := true } .void [])
    "Close" .implementation .void []

/-- A frame adds nothing to a panel. -/
def frame : ClassType := { name := "Frame", base? := some panel.id }

def widgets : Registry :=
  host.addAll [.classType widget, .classType panel, .classType frame]

theorem grown_widgets : Grown widgets := Grown.host.addAll (by decide +kernel)

/-- A method of a class without parameters. -/
def command (c : ClassType) (name : String) (attributes : MethodAttributes) : Signature :=
  ⟨name, c.id, [], .void, attributes⟩

/-- A frame is painted as a widget, past the static method of the panel, and may be painted anew.
It is closed as a panel, for good. -/
theorem methodsOf_mostDerived_frame :
    (widgets.methodsOf frame.id).filter (·.slot == (command widget "Paint" .overridable).slot) =
      [command widget "Paint" .overridable] ∧
    (command widget "Paint" .overridable).slot ∈
      (widgets.overridableMethodsOf frame.id).map Signature.slot ∧
    (widgets.methodsOf frame.id).filter (·.slot == (command panel "Close" .implementation).slot) =
      [command panel "Close" .implementation] ∧
    ∀ m ∈ widgets.overridableMethodsOf frame.id,
      m.slot ≠ (command panel "Close" .implementation).slot := by
  have acyclic : widgets.Acyclic := (layered_of_grown grown_widgets).acyclic
  have atFrame : widgets.class? frame.id = some frame := by decide +kernel
  have atPanel : widgets.class? panel.id = some panel := by decide +kernel
  have atWidget : widgets.class? widget.id = some widget := by decide +kernel
  have framePanel : widgets.baseClass? frame.id = some panel.id := by decide +kernel
  have panelWidget : widgets.baseClass? panel.id = some widget.id := by decide +kernel
  let paint := command widget "Paint" .overridable
  let close := command panel "Close" .implementation
  have painted : widgets.MostDerived paint.slot paint frame.id :=
    .inherited atFrame (by decide +kernel) framePanel
      (.inherited atPanel (by decide +kernel) panelWidget (.own atWidget (by decide +kernel)))
  have closed : widgets.MostDerived close.slot close frame.id :=
    .inherited atFrame (by decide +kernel) framePanel (.own atPanel (by decide +kernel))
  obtain ⟨-, paints, -⟩ := methodsOf_mostDerived acyclic atFrame paint.slot
  obtain ⟨-, closes, -⟩ := methodsOf_mostDerived acyclic atFrame close.slot
  obtain ⟨shown, replaceable, -⟩ := paints paint painted
  obtain ⟨hidden, -, final⟩ := closes close closed
  exact ⟨shown, replaceable.2 rfl, hidden, final (.inl rfl)⟩

end Registry

end TypeSynthesis
