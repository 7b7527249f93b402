import TypeSynthesis.Proofs.Resolve.Steps

/-!
# Scope discipline

The resolution of a form leaves the scope exactly as it was, also where it fails.  It therefore
only changes the session, and forms that stand side by side are each resolved in the scope that
the first of them found.

* `SameScope`, `SameSurroundings`: the relations that resolution keeps around a form and within a
  scope;
* `scope_resolve`: the scope after a form;
* `Node.resolveIn`: the resolution of a form in a given scope, as a computation over the session;
* `resolve_siblings`: blocks and calls resolve their parts one by one in the scope of the whole.
-/

namespace TypeSynthesis

open ResolveM

/-! ### The scope after a form -/

/-- Both states have the same scope. -/
def SameScope (s t : ResolveState) : Prop := s.scope = t.scope

/-- Both states have the same scope once the innermost scope is closed. -/
def SameSurroundings (s t : ResolveState) : Prop := s.scope.pop = t.scope.pop

instance : IsPreorder ResolveState SameScope where
  refl _ := rfl
  trans _ _ _ h h' := h.trans h'

instance : IsPreorder ResolveState SameSurroundings where
  refl _ := rfl
  trans _ _ _ h h' := h.trans h'

/-- Sessions may change freely. -/
def AnySession (_ _ : Session) : Prop := True

instance : IsPreorder Session AnySession where
  refl _ := trivial
  trans _ _ _ _ _ := trivial

theorem scopeDiscipline : Discipline AnySession SameSurroundings SameScope where
  grow_kept :=
    { typeName := fun _ _ => ⟨fun _ => trivial⟩
      wrapper := fun _ _ _ => ⟨fun _ => trivial⟩
      record := fun _ _ _ => ⟨fun _ => trivial⟩
      object := fun _ _ _ => ⟨fun _ => trivial⟩
      interface := fun _ _ => ⟨fun _ => trivial⟩ }
  inner_of_outer h := congrArg Scope.pop h
  outer_of_grow _ := rfl
  inner_bind s name b := (Scope.pop_bind s.scope name b).symm
  outer_close {s t} h := by
    have h : s.scope.push.pop = t.scope.pop := h
    rwa [Scope.pop_push] at h

theorem scope_resolve (p : Pipeline) (n : Node) (s : ResolveState) :
    (endState (n.resolve p s)).scope = s.scope :=
  ((scopeDiscipline.resolve p n).run s).symm

/-! ### Forms side by side -/

/-- The resolution of a form in a scope, as a computation over the session alone. -/
def Node.resolveIn (p : Pipeline) (scope : Scope) (n : Node) : SynthM Node := fun session =>
  match n.resolve p { session, scope } with
  | .ok n t => .ok n t.session
  | .error e t => .error e t.session

/-- Resolving a form changes nothing but the session. -/
theorem resolve_eq_synthesize (p : Pipeline) (n : Node) (s : ResolveState) :
    n.resolve p s = synthesize (n.resolveIn p s.scope) s := by
  have h := scope_resolve p n s
  unfold synthesize Node.resolveIn
  revert h
  rcases n.resolve p s with ⟨n', t⟩ | ⟨e, t⟩
  · rintro (h : t.scope = s.scope)
    rw [← h]
  · rintro (h : t.scope = s.scope)
    rw [← h]

theorem synthesize_bind {α β : Type} (x : SynthM α) (f : α → SynthM β) (s : ResolveState) :
    synthesize (x >>= f) s = (synthesize x >>= fun a => synthesize (f a)) s := by
  change synthesize (EStateM.bind x f) s = EStateM.bind (synthesize x) _ s
  unfold synthesize EStateM.bind
  dsimp only
  cases x s.session <;> rfl

theorem synthesize_eq_ok {α : Type} {x : SynthM α} {a : α} {s t : ResolveState}
    (h : synthesize x s = .ok a t) : x s.session = .ok a t.session ∧ t.scope = s.scope := by
  unfold synthesize at h
  split at h
  · rename_i hx
    cases h
    exact ⟨hx, rfl⟩
  · cases h

theorem inScope_eq_ok {α : Type} {x : ResolveM α} {a : α} {s t : ResolveState}
    (h : inScope x s = .ok a t) :
    ∃ u, x { s with scope := s.scope.push } = .ok a u ∧ t = { u with scope := u.scope.pop } := by
  unfold inScope at h
  split at h
  · rename_i u hx
    cases h
    exact ⟨u, hx, rfl⟩
  · cases h

theorem finish_eq_ok_iff {p : Pipeline} {n n' : Node} {s t : ResolveState} :
    finish p n s = .ok n' t ↔ p.lowerings.run s.session.registry n = .ok n' ∧ s = t := by
  unfold finish
  rw [bind_eq_ok_iff]
  constructor
  · rintro ⟨R, u, hR, h⟩
    cases hR
    exact ofExcept_eq_ok_iff.1 h
  · rintro ⟨h, rfl⟩
    exact ⟨_, _, rfl, ofExcept_eq_ok_iff.2 ⟨h, rfl⟩⟩

/-- The default lowerings only bind host calls. -/
theorem finish_default_eq_ok_iff {o : Options} {n n' : Node} {s t : ResolveState} :
    finish { options := o } n s = .ok n' t ↔
      Lowering.hostCalls.run s.session.registry n = .ok n' ∧ s = t := by
  rw [finish_eq_ok_iff]
  refine and_congr_left fun _ => ?_
  constructor
  · intro h
    obtain ⟨n₁, h₁, h⟩ := except_bind_eq_ok_iff.1 h
    obtain ⟨n₂, h₂, h₃⟩ := except_bind_eq_ok_iff.1 h
    cases h₂
    cases h₃
    exact h₁
  · intro h
    exact except_bind_eq_ok_iff.2 ⟨n', h, rfl⟩

/-- Forms in a list are resolved one by one in the scope that the list is resolved in. -/
theorem resolveEach_eq_synthesize (p : Pipeline) (ns : List Node) (s : ResolveState) :
    resolveEach p ns s = synthesize (ns.mapM (Node.resolveIn p s.scope)) s := by
  induction ns generalizing s with
  | nil => rfl
  | cons n ns ih =>
    rw [List.mapM_cons, synthesize_bind]
    unfold resolveEach
    -- the rest starts in the scope that the first form leaves, which is that of the whole
    refine bind_congr_run (resolve_eq_synthesize p n s) fun n' t h => ?_
    rw [synthesize_bind, ← (synthesize_eq_ok h).2]
    exact bind_congr_run (ih t) fun ns' u _ => rfl

/-- A form that is resolved first leaves the rest to be resolved in the same scope. -/
theorem resolve_bind {β : Type} (p : Pipeline) (n : Node) (s : ResolveState)
    {f g : Node → ResolveM β} (hfg : ∀ n t, t.scope = s.scope → f n t = g n t) :
    (n.resolve p >>= f) s = (synthesize (n.resolveIn p s.scope) >>= g) s :=
  bind_congr_run (resolve_eq_synthesize p n s) fun n' t h => hfg n' t (synthesize_eq_ok h).2

theorem resolveEach_bind {β : Type} (p : Pipeline) (ns : List Node) (s : ResolveState)
    (f : List Node → ResolveM β) :
    (resolveEach p ns >>= f) s =
      (synthesize (ns.mapM (Node.resolveIn p s.scope)) >>= f) s :=
  bind_congr_run (resolveEach_eq_synthesize p ns s) fun _ _ _ => rfl

/-- Resolution leaves the scope as it was, also where it fails, so that every list of forms is
resolved one by one in the scope of the whole: each form as it would be alone, and only the
session carried from one to the next. -/
theorem resolve_siblings (p : Pipeline) (s : ResolveState) :
    (∀ n : Node, (endState (n.resolve p s)).scope = s.scope) ∧
    (∀ ns : List Node, resolveEach p ns s = synthesize (ns.mapM (Node.resolveIn p s.scope)) s) ∧
    (∀ span forms, (Node.block span forms).resolve p s =
      (do
        let forms ← synthesize (forms.mapM (Node.resolveIn p s.scope))
        finish p (.block span forms) : ResolveM Node) s) ∧
    (∀ span callee args, (Node.invoke span callee args).resolve p s =
      (do
        let callee ← synthesize (callee.resolveIn p s.scope)
        let args ← synthesize (args.mapM (Node.resolveIn p s.scope))
        finish p (.invoke span callee args) : ResolveM Node) s) ∧
    (∀ span owner member args m?, (Node.staticCall span owner member args m?).resolve p s =
      (do
        let args ← synthesize (args.mapM (Node.resolveIn p s.scope))
        finish p (.staticCall span owner member args m?) : ResolveM Node) s) ∧
    (∀ span target member args m?, (Node.memberCall span target member args m?).resolve p s =
      (do
        let target ← synthesize (target.resolveIn p s.scope)
        let args ← synthesize (args.mapM (Node.resolveIn p s.scope))
        finish p (.memberCall span target member args m?) : ResolveM Node) s) ∧
    (∀ span method self args, (Node.superCall span method self args).resolve p s =
      (do
        let args ← synthesize (args.mapM (Node.resolveIn p s.scope))
        let bound ← ofExcept (bindSuperCall (← registry) s.scope span method self args)
        finish p bound : ResolveM Node) s) ∧
    (∀ span base method target args, (Node.baseCall span base method target args).resolve p s =
      (do
        let target ← synthesize (target.resolveIn p s.scope)
        let args ← synthesize (args.mapM (Node.resolveIn p s.scope))
        finish p (.baseCall span base method target args) : ResolveM Node) s) := by
  refine ⟨fun n => scope_resolve p n s, fun ns => resolveEach_eq_synthesize p ns s,
    fun span forms => ?_, fun span callee args => ?_, fun span owner member args m? => ?_,
    fun span target member args m? => ?_, fun span method self args => ?_,
    fun span base method target args => ?_⟩ <;> unfold Node.resolve
  · exact resolveEach_bind p forms s _
  · refine resolve_bind p callee s fun callee t h => ?_
    rw [← h]
    exact resolveEach_bind p args t _
  · exact resolveEach_bind p args s _
  · refine resolve_bind p target s fun target t h => ?_
    rw [← h]
    exact resolveEach_bind p args t _
  · refine bind_congr_run (resolveEach_eq_synthesize p args s) fun args t h => ?_
    rw [← (synthesize_eq_ok h).2]
    rfl
  · refine resolve_bind p target s fun target t h => ?_
    rw [← h]
    exact resolveEach_bind p args t _

end TypeSynthesis
