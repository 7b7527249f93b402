import TypeSynthesis.Tree.StaticType

/-!
# Value positions

The value of a form is produced by one of the forms at its value positions: the last form of a
sequence, the branches of a conditional, the body of a `let` or a `loop`, the body of a guarded form
and the bodies of its catch clauses.

* `Node.tails`: the forms at the value positions;
* `staticType?_eq_some_iff`: a form has a static type just if each form at its value positions has
  it, catch clauses apart;
* `Node.catchesAgree`: no catch clause produces a value of another type than the body it guards;
* `staticType?_sound`: if so, every value that the form may produce has its static type.

The static type of a guarded form is that of its body, whatever its clauses produce, so that the
last statement needs its condition (`not_staticType?_sound`).
-/

namespace TypeSynthesis.Node

/-- Whether the form raises an exception. -/
def isThrow : Node → Bool
  | .throw .. => true
  | _ => false

mutual

/-- The forms at the value positions of a form.  The bodies of catch clauses count if `catches` is
set.  A sequence of no forms and a conditional of one branch also produce a value themselves. -/
def tails (catches : Bool) : Node → List Node
  | .block span forms => lastTails catches (.block span forms) forms
  | .cond span test thenForm elseForm? =>
    tails catches thenForm ++
      branchTails catches (.cond span test thenForm elseForm?) elseForm?
  | .letIn _ _ _ body => tails catches body
  | .guarded _ _ body clauses _ =>
    tails catches body ++ if catches then clauseTails catches clauses else []
  | n => [n]

/-- Those of the last form in a sequence, or the sequence itself if it is empty. -/
def lastTails (catches : Bool) (whole : Node) : List Node → List Node
  | [] => [whole]
  | [n] => tails catches n
  | _ :: n :: ns => lastTails catches whole (n :: ns)

/-- Those of a branch, or the conditional itself if the branch is absent. -/
def branchTails (catches : Bool) (whole : Node) : Option Node → List Node
  | none => [whole]
  | some n => tails catches n

/-- Those of the bodies of catch clauses. -/
def clauseTails (catches : Bool) : List CatchClause → List Node
  | [] => []
  | ⟨_, body⟩ :: clauses => tails catches body ++ clauseTails catches clauses

end

/-! ### Without exceptions -/

theorem staticType?_cond_eq_some_iff {T : TypeRef} {span : Span} {test thenForm : Node}
    {elseForm? : Option Node} :
    (cond span test thenForm elseForm?).staticType? = some T ↔
      thenForm.staticType? = some T ∧ branchType? elseForm? = some T := by
  simp only [staticType?]
  cases thenForm.staticType? <;> cases branchType? elseForm? <;> grind

mutual

/-- The static type of a form is that of each form at its value positions, catch clauses apart. -/
theorem staticType?_eq_some_iff {T : TypeRef} : (n : Node) →
    (n.staticType? = some T ↔ ∀ m ∈ n.tails false, m.staticType? = some T)
  | .block span forms => by
    refine lastType?_eq_some_iff forms ?_
    rintro rfl
    rfl
  | .cond span test thenForm elseForm? => by
    have first := staticType?_eq_some_iff (T := T) thenForm
    have second := @branchType?_eq_some_iff T (.cond span test thenForm elseForm?) elseForm?
      (by rintro rfl; rw [staticType?, branchType?]; split <;> trivial)
    rw [staticType?_cond_eq_some_iff, tails, List.forall_mem_append, first, second]
  | .letIn _ _ _ body => by
    simp only [staticType?, tails]
    exact staticType?_eq_some_iff body
  | .guarded _ _ body _ _ => by
    simp only [staticType?, tails, Bool.false_eq_true, if_false, List.append_nil]
    exact staticType?_eq_some_iff body
  | .const .. | .localRef .. | .invoke .. | .staticCall .. | .memberCall .. | .throw .. | .fn ..
  | .record .. | .object .. | .superCall .. | .baseCall .. | .interface .. => by
    simp only [tails, List.forall_mem_singleton]

theorem lastType?_eq_some_iff {T : TypeRef} {whole : Node} : (ns : List Node) →
    (ns = [] → whole.staticType? = none) →
    (lastType? ns = some T ↔ ∀ m ∈ lastTails false whole ns, m.staticType? = some T)
  | [], empty => by
    rw [lastType?, lastTails, List.forall_mem_singleton, empty rfl]
  | [n], _ => by
    rw [lastType?, lastTails]
    exact staticType?_eq_some_iff n
  | _ :: n :: ns, _ => by
    rw [lastType?, lastTails]
    exact lastType?_eq_some_iff (n :: ns) nofun

theorem branchType?_eq_some_iff {T : TypeRef} {whole : Node} : (n? : Option Node) →
    (n? = none → whole.staticType? = none) →
    (branchType? n? = some T ↔ ∀ m ∈ branchTails false whole n?, m.staticType? = some T)
  | none, absent => by
    rw [branchType?, branchTails, List.forall_mem_singleton, absent rfl]
  | some n, _ => by
    rw [branchType?, branchTails]
    exact staticType?_eq_some_iff n

end

/-! ### With exceptions -/

mutual

/-- At the value positions, every catch clause of a guarded form agrees with the body: the clause
has the static type of the body, or it only raises. -/
def catchesAgree : Node → Bool
  | .block _ forms => lastCatchesAgree forms
  | .cond _ _ thenForm elseForm? => catchesAgree thenForm && branchCatchesAgree elseForm?
  | .letIn _ _ _ body => catchesAgree body
  | .guarded _ _ body clauses _ => catchesAgree body && clausesAgree body.staticType? clauses
  | _ => true

/-- The last form is one whose clauses agree. -/
def lastCatchesAgree : List Node → Bool
  | [] => true
  | [n] => catchesAgree n
  | _ :: n :: ns => lastCatchesAgree (n :: ns)

/-- The branch, if present, is one whose clauses agree. -/
def branchCatchesAgree : Option Node → Bool
  | none => true
  | some n => catchesAgree n

/-- Each clause has the static type `type?` or only raises, and so do the clauses within it. -/
def clausesAgree (type? : Option TypeRef) : List CatchClause → Bool
  | [] => true
  | ⟨_, body⟩ :: clauses =>
    (body.staticType? == type? || (body.tails true).all isThrow) && catchesAgree body &&
      clausesAgree type? clauses

end

mutual

/-- Where the clauses agree, the static type is also that of the values which clauses produce. -/
theorem staticType?_of_mem_tails {T : TypeRef} : (n : Node) → n.catchesAgree = true →
    n.staticType? = some T → ∀ m ∈ n.tails true, m.isThrow = false → m.staticType? = some T
  | .block span forms, agree, typed => by
    rw [catchesAgree] at agree
    refine staticType?_of_mem_lastTails forms ?_ agree typed
    rintro rfl
    exact typed
  | .cond span test thenForm elseForm?, agree, typed => by
    rw [catchesAgree, Bool.and_eq_true] at agree
    obtain ⟨first, second⟩ := staticType?_cond_eq_some_iff.1 typed
    rw [tails, List.forall_mem_append]
    exact ⟨staticType?_of_mem_tails thenForm agree.1 first,
      staticType?_of_mem_branchTails elseForm? agree.2 second⟩
  | .letIn _ _ _ body, agree, typed => by
    rw [catchesAgree] at agree
    rw [tails]
    exact staticType?_of_mem_tails body agree typed
  | .guarded _ _ body clauses _, agree, typed => by
    rw [catchesAgree, Bool.and_eq_true] at agree
    have guardedType : body.staticType? = some T := typed
    rw [guardedType] at agree
    rw [tails, if_pos rfl, List.forall_mem_append]
    exact ⟨staticType?_of_mem_tails body agree.1 guardedType,
      staticType?_of_mem_clauseTails clauses agree.2⟩
  | .const .., _, typed | .localRef .., _, typed | .invoke .., _, typed | .staticCall .., _, typed
  | .memberCall .., _, typed | .throw .., _, typed | .fn .., _, typed | .record .., _, typed
  | .object .., _, typed | .superCall .., _, typed | .baseCall .., _, typed
  | .interface .., _, typed => by
    simp only [tails, List.forall_mem_singleton]
    exact fun _ => typed

theorem staticType?_of_mem_lastTails {T : TypeRef} {whole : Node} : (ns : List Node) →
    (ns = [] → whole.staticType? = some T) → lastCatchesAgree ns = true → lastType? ns = some T →
    ∀ m ∈ lastTails true whole ns, m.isThrow = false → m.staticType? = some T
  | [], empty, _, _ => by
    rw [lastTails, List.forall_mem_singleton]
    exact fun _ => empty rfl
  | [n], _, agree, typed => by
    rw [lastCatchesAgree] at agree
    rw [lastTails]
    exact staticType?_of_mem_tails n agree typed
  | _ :: n :: ns, _, agree, typed => by
    rw [lastCatchesAgree] at agree
    rw [lastTails]
    exact staticType?_of_mem_lastTails (n :: ns) nofun agree typed

theorem staticType?_of_mem_branchTails {T : TypeRef} {whole : Node} : (n? : Option Node) →
    branchCatchesAgree n? = true → branchType? n? = some T →
    ∀ m ∈ branchTails true whole n?, m.isThrow = false → m.staticType? = some T
  | some n, agree, typed => by
    rw [branchCatchesAgree] at agree
    rw [branchTails]
    exact staticType?_of_mem_tails n agree typed

theorem staticType?_of_mem_clauseTails {T : TypeRef} : (clauses : List CatchClause) →
    clausesAgree (some T) clauses = true →
    ∀ m ∈ clauseTails true clauses, m.isThrow = false → m.staticType? = some T
  | [], _ => by
    rw [clauseTails]
    exact nofun
  | ⟨_, body⟩ :: clauses, agree => by
    rw [clausesAgree, Bool.and_eq_true, Bool.and_eq_true, Bool.or_eq_true] at agree
    obtain ⟨⟨typedOrRaises, within⟩, rest⟩ := agree
    rw [clauseTails, List.forall_mem_append]
    refine ⟨?_, staticType?_of_mem_clauseTails clauses rest⟩
    rcases typedOrRaises with typed | raises
    · exact staticType?_of_mem_tails body within (eq_of_beq typed)
    · intro m mem returns
      exact absurd (List.all_eq_true.1 raises m mem) (Bool.eq_false_iff.1 returns)

end

/-- A form with a static type produces values of that type.  Each form at its value positions has
the type, and where the catch clauses agree with what they guard, so does each form in a clause that
does not raise. -/
theorem staticType?_sound {n : Node} {T : TypeRef} (typed : n.staticType? = some T) :
    (∀ m ∈ n.tails false, m.staticType? = some T) ∧
      (n.catchesAgree = true →
        ∀ m ∈ n.tails true, m.isThrow = false → m.staticType? = some T) :=
  ⟨(staticType?_eq_some_iff n).1 typed, fun agree => staticType?_of_mem_tails n agree typed⟩

/-- The first of two numbers, guarded by a clause that gives another one and a clause that only
raises. -/
def fallback : Node :=
  .guarded .unknown none
    (.cond .unknown (.const .unknown (.bool true)) (.const .unknown (.int 1))
      (some (.const .unknown (.int 2))))
    [⟨⟨⟨"Catalog.KeyException", .unknown⟩, "e", none, .unknown⟩, .const .unknown (.int 3)⟩,
      ⟨⟨⟨"Exception", .unknown⟩, "e", none, .unknown⟩,
        .block .unknown [.throw .unknown (.localRef .unknown "e" .caught none none)]⟩]
    none

theorem staticType?_sound_fallback :
    fallback.staticType? = some (.value Primitive.long.id) ∧
      (fallback.tails true).map isThrow = [false, false, false, true] ∧
      ∀ m ∈ fallback.tails true, m.isThrow = false →
        m.staticType? = some (.value Primitive.long.id) :=
  ⟨rfl, rfl, (staticType?_sound (n := fallback) rfl).2 rfl⟩

/-- A number, guarded by a clause that gives a text. -/
def mixedFallback : Node :=
  .guarded .unknown none (.const .unknown (.int 1))
    [⟨⟨⟨"Exception", .unknown⟩, "e", none, .unknown⟩, .const .unknown (.str "x")⟩] none

/-- Without the condition on catch clauses, a form may produce a value of another type than its
static type. -/
theorem not_staticType?_sound :
    ¬ ∀ (n : Node) (T : TypeRef), n.staticType? = some T →
      ∀ m ∈ n.tails true, m.isThrow = false → m.staticType? = some T := by
  intro sound
  have typed : mixedFallback.staticType? = some (.value Primitive.long.id) := rfl
  have text : Node.const .unknown (.str "x") ∈ mixedFallback.tails true :=
    List.mem_cons_of_mem _ (List.mem_cons_self ..)
  have claimed := sound mixedFallback _ typed _ text rfl
  revert claimed
  decide

end TypeSynthesis.Node
