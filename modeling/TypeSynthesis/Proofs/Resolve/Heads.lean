import TypeSynthesis.Proofs.Resolve.Scope

/-!
# The heads that synthesis returns

A type-defining form that has no type is given one by synthesis, which also returns the heads of its
arities or methods.

* `kept_or_synthesized`: a form keeps the type that it has, or is given one;
* `length_wrapperOf`, `length_recordOf`, `length_objectOf`: there is one head for each arity or
  method, whether the form had its type from the start or not;
* `class?_recordOf`: a record that is given a type has its class from then on;
* `bindSuperCall_eq_ok_iff`: when a super call is bound, and to what.
-/

namespace TypeSynthesis

namespace ResolveM

open SynthM

variable {p : Pipeline} {s t : ResolveState}

/-- A form keeps the type that it has, or is given one by synthesis. -/
theorem kept_or_synthesized {α : Type} {d? : Option Descriptor} {keep : Descriptor → α}
    {x : SynthM α} {a : α}
    (h : (match d? with
      | some d => pure (keep d)
      | none => synthesize x : ResolveM α) s = .ok a t) :
    (∃ d, d? = some d ∧ a = keep d) ∨ x s.session = .ok a t.session := by
  cases d? with
  | some d => exact .inl ⟨d, rfl, (pure_eq_ok_iff.1 h).1.symm⟩
  | none => exact .inr (synthesize_eq_ok h).1

theorem length_wrapperOf {head : FnHead} {as : List ArityHead} {r : Descriptor × List ArityHead}
    (h : wrapperOf p head as s = .ok r t) : r.2.length = as.length := by
  rcases kept_or_synthesized h with ⟨d, -, rfl⟩ | h
  · rfl
  · exact length_synthesizeWrapper h

theorem length_recordOf {head : RecordHead} {ms : List MethodHead}
    {r : Descriptor × List MethodHead} (h : recordOf p head ms s = .ok r t) :
    r.2.length = ms.length := by
  rcases kept_or_synthesized h with ⟨d, -, rfl⟩ | h
  · rfl
  · exact length_synthesizeRecord h

theorem length_objectOf {head : ObjectHead} {ms : List MethodHead}
    {r : Descriptor × List MethodHead} (h : objectOf p head ms s = .ok r t) :
    r.2.length = ms.length := by
  rcases kept_or_synthesized h with ⟨d, -, rfl⟩ | h
  · rfl
  · exact length_synthesizeObject h

/-- A record has the type that it had from the start, or its class is registered. -/
theorem class?_recordOf {head : RecordHead} {ms : List MethodHead}
    {r : Descriptor × List MethodHead} (h : recordOf p head ms s = .ok r t) :
    head.descriptor? = some r.1 ∨ ∃ c, t.session.registry.class? r.1.id = some c := by
  rcases kept_or_synthesized h with ⟨d, hd, rfl⟩ | h
  · exact .inl hd
  · obtain ⟨c, hc, -⟩ := isRecord_synthesizeRecord h
    exact .inr ⟨c, hc⟩

end ResolveM

/-! ### Super calls -/

theorem Scope.require_eq_ok_iff {s : Scope} {name : String} {span : Span} {b : Binding} :
    s.require name span = .ok b ↔ s.get? name = some b := by
  unfold Scope.require
  cases s.get? name <;> simp

theorem superBase_eq_ok_iff {R : Registry} {selfName : String} {type : TypeRef} {base : TypeId} :
    superBase R selfName type = .ok base ↔
      (R.class? type.id).bind ClassType.base? = some base := by
  unfold superBase
  cases (R.class? type.id).bind ClassType.base? <;> simp

theorem superMethod_eq_ok_iff {R : Registry} {base : TypeId} {method : String}
    {args : List TypeRef} {span : Span} {m : Signature} :
    superMethod R base method args span = .ok m ↔
      R.select? ((R.methodsOf base).filter (·.name == method)) args = some m := by
  unfold superMethod
  cases R.select? ((R.methodsOf base).filter (·.name == method)) args <;> simp

/-- A super call is bound if the self-reference is in view, its class has a base, and the arguments
select a method of the name among those that the base shows. -/
theorem bindSuperCall_eq_ok_iff {R : Registry} {here : Scope} {span : Span}
    {method selfName : String} {args : List Node} {n : Node} :
    bindSuperCall R here span method selfName args = .ok n ↔
      ∃ self base m, here.get? selfName = some self ∧
        (R.class? self.type.id).bind ClassType.base? = some base ∧
        R.select? ((R.methodsOf base).filter (·.name == method)) (args.map Node.argumentType) =
          some m ∧
        n = .baseCall span m.declaring m (.localRef span selfName .objectSelf (some self.type) none)
          args := by
  unfold bindSuperCall
  simp only [except_bind_eq_ok_iff, Scope.require_eq_ok_iff, superBase_eq_ok_iff,
    superMethod_eq_ok_iff]
  constructor
  · rintro ⟨self, hself, base, hbase, m, hm, h⟩
    cases h
    exact ⟨self, base, m, hself, hbase, hm, rfl⟩
  · rintro ⟨self, base, m, hself, hbase, hm, rfl⟩
    exact ⟨self, hself, base, hbase, m, hm, rfl⟩

end TypeSynthesis
