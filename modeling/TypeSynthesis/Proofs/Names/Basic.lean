import TypeSynthesis.Proofs.Resolve.Heads

/-!
# The names that matter to a form

Computations that ask the scope for certain names only have the same outcome in all scopes that
agree on these, whatever else is in view.

* `Mention`: a name of which a form reads the type, or which it captures;
* `Node.mentions`, `Node.names`: the names that a form mentions: the locals it refers to, the names
  in its capture sets and the objects of its super calls;
* `Scope.AgreeOn X here there`: the scopes agree on all that is mentioned in `X`;
* `SameOutcome`: two runs end alike, but for the scopes;
* `Reads X Y x`: from scopes that agree on `X` the computation `x` has the same outcome, and it
  leads to scopes that agree on `Y`;
* `Reads.bind`, `Reads.inScope`, `Reads.bindName` and their kin: the steps of resolution.

Only capture sets record where a name was bound.
-/

namespace TypeSynthesis

open ResolveM

/-! ### Mentioned names -/

/-- How a form mentions a name: it reads the type of the binding, or it captures all of it. -/
inductive Mention
  | typeOf (name : String)
  | capture (name : String)
  deriving DecidableEq, Repr, Inhabited

/-- The mentioned name. -/
def Mention.name : Mention → String
  | .typeOf name | .capture name => name

/-- The names in a capture set. -/
def CaptureSet.mentions (s : CaptureSet) : List Mention := s.toList.map fun c => .capture c.name

/-- The names that bindings introduce. -/
def LetBinding.mentions (bs : List LetBinding) : List Mention := bs.map fun b => .capture b.name

namespace Node

/-- The names in the capture set of a form that may have none. -/
def mentionsOfCaptures (s? : Option CaptureSet) : List Mention := s?.elim [] CaptureSet.mentions

mutual

/-- The locals that a form refers to, the captures it records and the objects whose base
implementations it calls. -/
def mentions : Node → List Mention
  | .const .. => []
  | .localRef _ name _ _ init? => .typeOf name :: mentionsOfOption init?
  | .block _ forms => mentionsOfList forms
  | .cond _ test thenForm elseForm? =>
    mentions test ++ (mentions thenForm ++ mentionsOfOption elseForm?)
  | .invoke _ callee args => mentions callee ++ mentionsOfList args
  | .staticCall _ _ _ args _ => mentionsOfList args
  | .memberCall _ target _ args _ => mentions target ++ mentionsOfList args
  | .throw _ value => mentions value
  | .letIn _ _ bindings body => mentionsOfBindings bindings ++ mentions body
  | .fn _ head arities => mentionsOfCaptures head.captures? ++ mentionsOfArities arities
  | .guarded _ captures? body clauses final? =>
    mentionsOfCaptures captures? ++
      (mentions body ++ (mentionsOfClauses clauses ++ mentionsOfOption final?))
  | .record _ _ methods => mentionsOfMethods methods
  | .object _ head methods => head.captures.mentions ++ mentionsOfMethods methods
  | .superCall _ _ selfName args => .typeOf selfName :: mentionsOfList args
  | .baseCall _ _ _ target args => mentions target ++ mentionsOfList args
  | .interface .. => []

def mentionsOfList : List Node → List Mention
  | [] => []
  | n :: ns => mentions n ++ mentionsOfList ns

def mentionsOfOption : Option Node → List Mention
  | none => []
  | some n => mentions n

def mentionsOfBindings : List LetBinding → List Mention
  | [] => []
  | ⟨_, init, _, _⟩ :: bs => mentions init ++ mentionsOfBindings bs

def mentionsOfArities : List Arity → List Mention
  | [] => []
  | ⟨_, body⟩ :: as => mentions body ++ mentionsOfArities as

def mentionsOfClauses : List CatchClause → List Mention
  | [] => []
  | ⟨_, body⟩ :: cs => mentions body ++ mentionsOfClauses cs

def mentionsOfMethods : List Method → List Mention
  | [] => []
  | ⟨head, body⟩ :: ms => head.captures.mentions ++ (mentions body ++ mentionsOfMethods ms)

end

/-- The names that a form mentions in one way or the other. -/
def names (n : Node) : List String := n.mentions.map Mention.name

end Node

/-! ### Scopes that agree -/

/-- Both scopes have what is mentioned: the same type of the name or the same binding, or neither
has any. -/
def Mention.Agrees (here there : Scope) : Mention → Prop
  | .typeOf name => here.typeOf? name = there.typeOf? name
  | .capture name => here.get? name = there.get? name

theorem Mention.agrees_of_get? {here there : Scope} :
    ∀ {m : Mention}, here.get? m.name = there.get? m.name → m.Agrees here there
  | .typeOf _, h => congrArg (Option.map Binding.type) h
  | .capture _, h => h

/-- Both scopes have the same of all that is mentioned. -/
def Scope.AgreeOn (X : List Mention) (here there : Scope) : Prop :=
  ∀ m ∈ X, m.Agrees here there

namespace Scope.AgreeOn

variable {X Y : List Mention} {here there : Scope}

theorem mono (h : AgreeOn Y here there) (sub : X ⊆ Y) : AgreeOn X here there :=
  fun m mem => h m (sub mem)

theorem bind (h : AgreeOn X here there) (name : String) (b : Binding) :
    AgreeOn (.capture name :: X) (here.bind name b) (there.bind name b) := by
  intro m mem
  by_cases same : m.name = name
  · apply Mention.agrees_of_get?
    rw [get?_bind, get?_bind, if_pos same, if_pos same]
  · have agrees := h m ((List.mem_cons.1 mem).resolve_left fun eq => same (eq ▸ rfl))
    cases m with
    | typeOf x =>
      have differ : x ≠ name := same
      show ((here.bind name b).get? x).map _ = ((there.bind name b).get? x).map _
      rw [get?_bind, get?_bind, if_neg differ, if_neg differ]
      exact agrees
    | capture x =>
      have differ : x ≠ name := same
      show (here.bind name b).get? x = (there.bind name b).get? x
      rw [get?_bind, get?_bind, if_neg differ, if_neg differ]
      exact agrees

theorem typeOf?_of_capture (h : AgreeOn X here there) {name : String}
    (mem : .capture name ∈ X) : here.typeOf? name = there.typeOf? name :=
  congrArg (Option.map Binding.type) (h _ mem)

/-- The scopes bind a name to the same type, or both do not bind it. -/
theorem cases_typeOf (h : AgreeOn X here there) {name : String} (mem : .typeOf name ∈ X) :
    (here.get? name = none ∧ there.get? name = none) ∨
      ∃ b b' : Binding, here.get? name = some b ∧ there.get? name = some b' ∧
        b.type = b'.type := by
  have agrees : (here.get? name).map Binding.type = (there.get? name).map Binding.type := h _ mem
  cases hb : here.get? name with
  | none =>
    rw [hb] at agrees
    exact .inl ⟨rfl, Option.map_eq_none_iff.1 agrees.symm⟩
  | some b =>
    rw [hb] at agrees
    obtain ⟨b', hb', type⟩ := Option.map_eq_some_iff.1 agrees.symm
    exact .inr ⟨b, b', rfl, hb', type.symm⟩

theorem resolveIn (h : AgreeOn X here there) {s : CaptureSet} (mem : s.mentions ⊆ X) :
    s.resolveIn here = s.resolveIn there := by
  refine CaptureSet.ext (List.map_congr_left fun c hc => ?_)
  have same : here.get? c.name = there.get? c.name := h _ (mem (List.mem_map_of_mem hc))
  dsimp only
  rw [same]

theorem resolveIn? (h : AgreeOn X here there) {s? : Option CaptureSet}
    (mem : Node.mentionsOfCaptures s? ⊆ X) :
    s?.map (·.resolveIn here) = s?.map (·.resolveIn there) := by
  cases s? with
  | none => rfl
  | some s => exact congrArg some (h.resolveIn mem)

/-- What is done with the type of a required binding is done in both scopes. -/
theorem require_bind (h : AgreeOn X here there) {name : String} (mem : .typeOf name ∈ X)
    (span : Span) {β : Type} {f : Binding → Except CompilationError β}
    (same : ∀ {b b' : Binding}, b.type = b'.type → f b = f b') :
    here.require name span >>= f = there.require name span >>= f := by
  unfold Scope.require
  rcases h.cases_typeOf mem with ⟨hb, hb'⟩ | ⟨b, b', hb, hb', type⟩
  · rw [hb, hb']
  · rw [hb, hb']
    exact same type

theorem bindSuperCall (h : AgreeOn X here there) {selfName : String}
    (mem : .typeOf selfName ∈ X) (R : Registry) (span : Span) (method : String)
    (args : List Node) :
    bindSuperCall R here span method selfName args =
      bindSuperCall R there span method selfName args :=
  h.require_bind mem span fun type => by rw [type]

end Scope.AgreeOn

/-! ### Computations that read certain names -/

/-- Two runs end alike: in the same result and session and in scopes that agree, or in the same
error and session. -/
inductive SameOutcome {α : Type} (Y : List Mention) :
    EStateM.Result CompilationError ResolveState α →
      EStateM.Result CompilationError ResolveState α → Prop
  | ok {a : α} {session : Session} {here there : Scope} (agree : here.AgreeOn Y there) :
    SameOutcome Y (.ok a ⟨session, here⟩) (.ok a ⟨session, there⟩)
  | error {e : CompilationError} {session : Session} {here there : Scope} :
    SameOutcome Y (.error e ⟨session, here⟩) (.error e ⟨session, there⟩)

/-- From scopes that agree on `X` a computation has the same outcome, and it leads to scopes that
agree on `Y`.  It leaves the surroundings of the innermost scope alone. -/
structure Reads {α : Type} (X Y : List Mention) (x : ResolveM α) : Prop where
  moves : Moves SameSurroundings x
  run (session : Session) {here there : Scope} (agree : here.AgreeOn X there) :
    SameOutcome Y (x ⟨session, here⟩) (x ⟨session, there⟩)

namespace Reads

variable {α β : Type} {X Y Z : List Mention}

/-! ### Building up computations -/

theorem pure (a : α) : Reads X X (Pure.pure a : ResolveM α) where
  moves := .pure a
  run _ _ _ agree := .ok agree

theorem ofExcept (x : Except CompilationError α) : Reads X X (ofExcept x : ResolveM α) where
  moves := .ofExcept x
  run _ _ _ agree := by
    cases x with
    | ok a => exact .ok agree
    | error e => exact .error

theorem mono {X' Y' : List Mention} {x : ResolveM α} (h : Reads X Y x) (pre : X ⊆ X')
    (post : Y' ⊆ Y) : Reads X' Y' x where
  moves := h.moves
  run session here there agree := by
    have same := h.run session (agree.mono pre)
    revert same
    generalize x ⟨session, here⟩ = r, x ⟨session, there⟩ = r'
    rintro (agree | -)
    · exact .ok (agree.mono post)
    · exact .error

/-- What every result of the first step satisfies is known to the rest. -/
theorem bind_of {x : ResolveM α} {f : α → ResolveM β} {P : α → Prop} (hx : Reads X Y x)
    (hP : ∀ {a s t}, x s = .ok a t → P a) (hf : ∀ a, P a → Reads Y Z (f a)) :
    Reads X Z (x >>= f) where
  moves := hx.moves.bind_of hP fun a h => (hf a h).moves
  run session here there agree := by
    have same := hx.run session agree
    generalize hr : x ⟨session, here⟩ = r, hr' : x ⟨session, there⟩ = r' at same
    cases same with
    | ok agree =>
      rw [bind_run_ok hr, bind_run_ok hr']
      exact (hf _ (hP hr)).run _ agree
    | error =>
      rw [bind_run_error hr, bind_run_error hr']
      exact .error

theorem bind {x : ResolveM α} {f : α → ResolveM β} (hx : Reads X Y x)
    (hf : ∀ a, Reads Y Z (f a)) : Reads X Z (x >>= f) :=
  hx.bind_of (P := fun _ => True) (fun _ => trivial) fun a _ => hf a

/-- Scopes that agree on the names are alike to what only asks them for these. -/
theorem scope_bind {f : Scope → ResolveM β}
    (same : ∀ {here there : Scope}, here.AgreeOn X there → f here = f there)
    (hf : ∀ here, Reads X Y (f here)) : Reads X Y (scope >>= f) where
  moves := moves_scope.bind fun here => (hf here).moves
  run session here there agree := by
    show SameOutcome Y (f here ⟨session, here⟩) (f there ⟨session, there⟩)
    rw [← same agree]
    exact (hf here).run session agree

theorem synthesize (x : SynthM α) : Reads X X (ResolveM.synthesize x) where
  moves := ⟨fun s => by unfold ResolveM.synthesize; cases x s.session <;> rfl⟩
  run session here there agree := by
    unfold ResolveM.synthesize
    dsimp only
    cases x session with
    | ok a session' => exact .ok agree
    | error e session' => exact .error

/-- Closing a scope leads back to the scopes in which it was opened, whatever the names that the
computation in it has bound. -/
theorem inScope {x : ResolveM α} (h : Reads X Y x) : Reads X X (ResolveM.inScope x) where
  moves := scopeDiscipline.toInner (scopeDiscipline.inScope h.moves)
  run session here there agree := by
    have closed (s : Scope) : s = (endState (x ⟨session, s.push⟩)).scope.pop :=
      h.moves.run ⟨session, s.push⟩
    have same : SameOutcome Y (x ⟨session, here.push⟩) (x ⟨session, there.push⟩) :=
      h.run session agree
    have back := closed here
    have back' := closed there
    unfold ResolveM.inScope
    dsimp only
    revert same back back'
    generalize x ⟨session, here.push⟩ = r, x ⟨session, there.push⟩ = r'
    rintro (- | -) back back'
    · exact .ok (back ▸ back' ▸ agree)
    · exact .error

/-! ### Steps -/

theorem registry : Reads X X registry where
  moves := moves_registry
  run _ _ _ agree := .ok agree

theorem finish (p : Pipeline) (n : Node) : Reads X X (ResolveM.finish p n) :=
  registry.bind fun _ => ofExcept _

/-- The scopes agree on a name after it has been bound in both. -/
theorem bindName (name : String) (type : TypeRef) (role : Role) (span : Span) :
    Reads X (.capture name :: X) (ResolveM.bindName name type role span) where
  moves := scopeDiscipline.bindName ..
  run _ _ _ agree := .ok (agree.bind name _)

theorem bindName_of_subset (sub : X ⊆ Y) (name : String) (type : TypeRef) (role : Role)
    (span : Span) : Reads Y X (ResolveM.bindName name type role span) :=
  (bindName name type role span).mono (List.Subset.refl Y)
    (List.Subset.trans sub (List.subset_cons_self _ Y))

theorem bindParams (ps : List Param) : Reads X X (ResolveM.bindParams ps) := by
  induction ps with
  | nil => exact pure ()
  | cons q ps ih => exact (bindName_of_subset (List.Subset.refl X) ..).bind fun _ => ih

theorem bindFunction (name? : Option String) (wrapper : Descriptor) (span : Span) :
    Reads X X (ResolveM.bindFunction name? wrapper span) := by
  cases name? with
  | none => exact pure ()
  | some name => exact bindName_of_subset (List.Subset.refl X) ..

theorem bindField (c? : Option ClassType) (f : FieldDecl) :
    Reads X X (ResolveM.bindField c? f) := by
  unfold ResolveM.bindField
  split
  · exact bindName_of_subset (List.Subset.refl X) ..
  · exact pure ()

theorem bindFields (c? : Option ClassType) (fs : List FieldDecl) :
    Reads X X (ResolveM.bindFields c? fs) := by
  induction fs with
  | nil => exact pure ()
  | cons f fs ih => exact (bindField c? f).bind fun _ => ih

theorem parameterType {name : String} (mem : .typeOf name ∈ X) (type? : Option TypeRef)
    (init? : Option Node) : Reads X X (ResolveM.parameterType name type? init?) := by
  unfold ResolveM.parameterType
  cases init? with
  | none =>
    refine scope_bind (fun {here there} agree => ?_) fun _ => pure _
    have type : here.typeOf? name = there.typeOf? name := agree _ mem
    rw [type]
  | some init => exact pure _

/-- The rest may use the type of a required binding. -/
theorem requireBinding_bind {name : String} (mem : .typeOf name ∈ X) (span : Span)
    {f : Binding → ResolveM β} (same : ∀ {b b' : Binding}, b.type = b'.type → f b = f b')
    (hf : ∀ b, Reads X Y (f b)) : Reads X Y (ResolveM.requireBinding name span >>= f) := by
  unfold ResolveM.requireBinding
  rw [bind_assoc]
  refine scope_bind (fun {here there} agree => ?_) fun _ => (ofExcept _).bind hf
  unfold Scope.require
  rcases agree.cases_typeOf mem with ⟨hb, hb'⟩ | ⟨b, b', hb, hb', type⟩
  · rw [hb, hb']
  · rw [hb, hb']
    exact same type

theorem resolveCaptures {s : CaptureSet} (mem : s.mentions ⊆ X) :
    Reads X X (ResolveM.resolveCaptures s) := by
  refine scope_bind (fun agree => ?_) fun _ => pure _
  rw [agree.resolveIn mem]

theorem resolveCaptures? {s? : Option CaptureSet} (mem : Node.mentionsOfCaptures s? ⊆ X) :
    Reads X X (ResolveM.resolveCaptures? s?) := by
  refine scope_bind (fun agree => ?_) fun _ => pure _
  rw [agree.resolveIn? mem]

theorem rebindName {b : LetBinding} (mem : .capture b.name ∈ X) :
    Reads X X (ResolveM.rebindName b) := by
  unfold ResolveM.rebindName
  split
  · rename_i t ht
    refine scope_bind (fun agree => ?_) fun here => ?_
    · rw [agree.typeOf?_of_capture mem]
    · split
      · exact pure ()
      · exact bindName_of_subset (List.Subset.refl X) ..
  · exact pure ()

theorem rebind {bs : List LetBinding} (mem : LetBinding.mentions bs ⊆ X) :
    Reads X X (ResolveM.rebind bs) := by
  induction bs with
  | nil => exact pure ()
  | cons b bs ih =>
    obtain ⟨here, rest⟩ := List.cons_subset.1 mem
    exact (rebindName here).bind fun _ => ih rest

/-- Rebinding looks at the names that have just been bound. -/
theorem refineBindings {p : Pipeline} (hp : p.refine = Refinement.identity)
    {bs : List LetBinding} (mem : LetBinding.mentions bs ⊆ X) :
    Reads X X (ResolveM.refineBindings p bs) := by
  unfold ResolveM.refineBindings
  rw [hp]
  exact registry.bind fun _ => (rebind mem).bind fun _ => pure _

theorem wrapperOf (p : Pipeline) (head : FnHead) (as : List ArityHead) :
    Reads X X (ResolveM.wrapperOf p head as) := by
  unfold ResolveM.wrapperOf
  split
  · exact pure _
  · exact synthesize _

theorem recordOf (p : Pipeline) (head : RecordHead) (ms : List MethodHead) :
    Reads X X (ResolveM.recordOf p head ms) := by
  unfold ResolveM.recordOf
  split
  · exact pure _
  · exact synthesize _

theorem objectOf (p : Pipeline) (head : ObjectHead) (ms : List MethodHead) :
    Reads X X (ResolveM.objectOf p head ms) := by
  unfold ResolveM.objectOf
  split
  · exact pure _
  · exact synthesize _

theorem interfaceOf (p : Pipeline) (head : InterfaceHead) :
    Reads X X (ResolveM.interfaceOf p head) := by
  unfold ResolveM.interfaceOf
  split
  · exact pure _
  · exact synthesize _

end Reads

end TypeSynthesis
