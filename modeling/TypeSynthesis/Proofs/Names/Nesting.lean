import TypeSynthesis.Proofs.Names.Rebinding
import TypeSynthesis.Proofs.Names.Resolve

/-!
# A `let` and the nesting of its bindings

A `let` of several bindings is resolved like the nesting of forms with one binding each, but for one
thing: when all bindings are made, the `let` makes those again whose type is not the one in view,
and a name that is bound several times may then be left with an earlier binding of its last type.

* `Node.nest`, `Node.flatten`: the nesting of bindings, and the form that has them at once;
* `ResolveM.runIn`: a computation in a scope, as one over the session that also returns the scope;
* `resolveBindingsIn`: the bindings resolved in order, over the session alone;
* `resolveIn_letIn`, `resolveIn_nest`: what resolving the two forms comes to;
* `resolveIn_letIn_eq_nest`: they agree where the last binding of each name that the body captures
  stays in view;
* `resolveIn_letIn_ne_nest`: they do not agree on every `let`.
-/

namespace TypeSynthesis

open ResolveM

/-! ### Nesting -/

namespace Node

/-- Nested forms with one binding each, the first binding outermost. -/
def nest (span : Span) (isLoop : Bool) : List LetBinding → Node → Node
  | [], body => body
  | b :: bs, body => .letIn span isLoop [b] (nest span isLoop bs body)

/-- The bindings of nested forms with one binding each, and what the innermost encloses. -/
def unnest : Nat → Node → List LetBinding × Node
  | depth + 1, .letIn _ _ [b] body => ((b :: (unnest depth body).1), (unnest depth body).2)
  | _, body => ([], body)

/-- One form with all bindings of nested forms. -/
def flatten (span : Span) (isLoop : Bool) (depth : Nat) (n : Node) : Node :=
  .letIn span isLoop (n.unnest depth).1 (n.unnest depth).2

end Node

/-! ### Computations in a scope -/

namespace ResolveM

variable {α β : Type}

/-- A computation that starts in a scope, as one over the session that also returns the scope in
which it ends. -/
def runIn (scope : Scope) (x : ResolveM α) : SynthM (α × Scope) := fun session =>
  match x { session, scope } with
  | .ok a t => .ok (a, t.scope) t.session
  | .error e t => .error e t.session

theorem runIn_pure (scope : Scope) (a : α) :
    runIn scope (pure a : ResolveM α) = pure (a, scope) := rfl

theorem runIn_bind (scope : Scope) (x : ResolveM α) (f : α → ResolveM β) :
    runIn scope (x >>= f) = runIn scope x >>= fun r => runIn r.2 (f r.1) := by
  funext session
  show runIn scope (EStateM.bind x f) session = EStateM.bind (runIn scope x) _ session
  unfold runIn EStateM.bind
  dsimp only
  cases x { session, scope } <;> rfl

theorem runIn_bindName (here : Scope) (name : String) (type : TypeRef) (role : Role)
    (span : Span) :
    runIn here (bindName name type role span) = pure ((), here.bind name ⟨type, role, span⟩) :=
  rfl

/-- A form leaves the scope as it was. -/
theorem runIn_resolve (p : Pipeline) (here : Scope) (n : Node) :
    runIn here (n.resolve p) = n.resolveIn p here >>= fun n => pure (n, here) := by
  funext session
  show _ = EStateM.bind (n.resolveIn p here) _ session
  have same := scope_resolve p n ⟨session, here⟩
  unfold runIn EStateM.bind Node.resolveIn
  revert same
  rcases n.resolve p ⟨session, here⟩ with ⟨n', t⟩ | ⟨e, t⟩
  · rintro (same : t.scope = here)
    exact congrArg (fun scope => EStateM.Result.ok (n', scope) t.session) same
  · exact fun _ => rfl

/-- A scope that is opened for a computation is closed after it. -/
theorem runIn_inScope (here : Scope) {x : ResolveM α} (h : Moves SameSurroundings x) :
    runIn here (inScope x) = runIn here.push x >>= fun r => pure (r.1, here) := by
  funext session
  show _ = EStateM.bind (runIn here.push x) _ session
  have same := h.run ⟨session, here.push⟩
  unfold runIn inScope EStateM.bind
  dsimp only
  revert same
  rcases x ⟨session, here.push⟩ with ⟨a, t⟩ | ⟨e, t⟩
  · rintro (same : here = t.scope.pop)
    exact congrArg (fun scope => EStateM.Result.ok (a, scope) t.session) same.symm
  · exact fun _ => rfl

theorem eq_ok_of_runIn {here there : Scope} {x : ResolveM α} {a : α} {s t : Session}
    (h : runIn here x s = .ok (a, there) t) : x ⟨s, here⟩ = .ok a ⟨t, there⟩ := by
  unfold runIn at h
  split at h
  · rename_i run
    cases h
    exact run
  · cases h

theorem resolveIn_eq_runIn (p : Pipeline) (here : Scope) (n : Node) :
    n.resolveIn p here = runIn here (n.resolve p) >>= fun r => pure r.1 := by
  rw [runIn_resolve, bind_assoc]
  simp only [pure_bind, bind_pure]

/-- The default lowerings leave a `let` as it is. -/
theorem finish_letIn (o : Options) (span : Span) (isLoop : Bool) (bs : List LetBinding)
    (body : Node) :
    finish { options := o } (.letIn span isLoop bs body) = pure (.letIn span isLoop bs body) :=
  rfl

end ResolveM

/-! ### What resolving bindings comes to -/

/-- Bindings resolved in order in a scope, each in view of those before it. -/
def resolveBindingsIn (p : Pipeline) (here : Scope) : List LetBinding → SynthM (List LetBinding)
  | [] => pure []
  | ⟨name, init, _, span⟩ :: bs => do
    let init ← init.resolveIn p here
    let b : LetBinding := ⟨name, init, some init.argumentType, span⟩
    let bs ← resolveBindingsIn p (here.bind name b.binding) bs
    return b :: bs

section Runs

variable {p : Pipeline} {here there : Scope}

theorem runIn_resolveBindings (p : Pipeline) (here : Scope) (bs : List LetBinding) :
    runIn here (resolveBindings p bs) =
      resolveBindingsIn p here bs >>= fun bs => pure (bs, here.bindEach bs) := by
  induction bs generalizing here with
  | nil => rfl
  | cons b bs ih =>
    obtain ⟨name, init, type?, span⟩ := b
    unfold resolveBindings resolveBindingsIn
    simp only [runIn_bind, runIn_resolve, runIn_bindName, runIn_pure, ih, bind_assoc, pure_bind]
    rfl

theorem runIn_rebindName {b : LetBinding} (typed : b.type?.isSome = true) :
    runIn here (rebindName b) = pure ((), here.rebind b) := by
  obtain ⟨name, init, _ | t, span⟩ := b
  · cases typed
  · show runIn here (if here.typeOf? name = some t then _ else _) =
      pure ((), if here.typeOf? name = some t then _ else _)
    split <;> rfl

theorem runIn_rebind {bs : List LetBinding} (typed : LetBinding.Typed bs) :
    runIn here (rebind bs) = pure ((), here.rebindEach bs) := by
  induction bs generalizing here with
  | nil => rfl
  | cons b bs ih =>
    obtain ⟨first, rest⟩ := List.forall_mem_cons.1 typed
    unfold rebind
    rw [runIn_bind, runIn_rebindName first, pure_bind, ih rest]
    rfl

theorem typed_resolveBindingsIn {bs typed : List LetBinding} {s t : Session}
    (h : resolveBindingsIn p here bs s = .ok typed t) : LetBinding.Typed typed := by
  induction bs generalizing here typed s t with
  | nil =>
    obtain ⟨rfl, -⟩ := pure_eq_ok_iff.1 h
    exact nofun
  | cons b bs ih =>
    obtain ⟨name, init, type?, span⟩ := b
    obtain ⟨init', u, -, h⟩ := bind_eq_ok_iff.1 h
    obtain ⟨rest, v, hrest, h⟩ := bind_eq_ok_iff.1 h
    obtain ⟨rfl, -⟩ := pure_eq_ok_iff.1 h
    exact List.forall_mem_cons.2 ⟨rfl, ih hrest⟩

end Runs

/-! ### Scopes that show the same -/

/-- Both scopes hold the same binding of every name. -/
def Scope.Alike (here there : Scope) : Prop := ∀ name, here.get? name = there.get? name

section Alike

variable {p : Pipeline} {here there : Scope}

theorem Scope.Alike.bind (h : here.Alike there) (name : String) (b : Binding) :
    (here.bind name b).Alike (there.bind name b) := by
  intro x
  rw [get?_bind, get?_bind, h x]

theorem Scope.Alike.bindEach (h : here.Alike there) (bs : List LetBinding) :
    (here.bindEach bs).Alike (there.bindEach bs) := by
  intro x
  rw [get?_bindEach, get?_bindEach, h x]

theorem Scope.Alike.resolveIn (h : here.Alike there) (hp : p.refine = Refinement.identity)
    (n : Node) : n.resolveIn p here = n.resolveIn p there :=
  resolveIn_of_agreeOn hp fun m _ => Mention.agrees_of_get? (h m.name)

theorem Scope.Alike.resolveBindingsIn (h : here.Alike there)
    (hp : p.refine = Refinement.identity) (bs : List LetBinding) :
    resolveBindingsIn p here bs = resolveBindingsIn p there bs := by
  induction bs generalizing here there with
  | nil => rfl
  | cons b bs ih =>
    obtain ⟨name, init, type?, span⟩ := b
    unfold TypeSynthesis.resolveBindingsIn
    rw [h.resolveIn hp init]
    refine congrArg _ (funext fun init => ?_)
    dsimp only
    rw [ih (h.bind name _)]

end Alike

/-! ### One `let` and nested ones -/

section Let

variable (o : Options) (here : Scope) (span : Span) (isLoop : Bool)

/-- The body of a `let` is resolved after its bindings are made, and made again. -/
theorem resolveIn_letIn (bs : List LetBinding) (body : Node) :
    (Node.letIn span isLoop bs body).resolveIn { options := o } here =
      (do
        let bs ← resolveBindingsIn { options := o } here bs
        let body ← body.resolveIn { options := o } ((here.push.bindEach bs).rebindEach bs)
        return .letIn span isLoop bs body : SynthM Node) := by
  have within : Moves SameSurroundings
      (do
        let bs ← resolveBindings { options := o } bs
        let bs ← refineBindings { options := o } bs
        let body ← body.resolve { options := o }
        return (bs, body) : ResolveM (List LetBinding × Node)) :=
    (scopeDiscipline.bindings _ bs).bind fun bs =>
      (scopeDiscipline.refineBindings _ bs).bind fun _ =>
        (scopeDiscipline.toInner (scopeDiscipline.resolve _ body)).bind fun _ => .pure _
  rw [resolveIn_eq_runIn]
  unfold Node.resolve
  simp only [runIn_bind, runIn_inScope here within, runIn_resolveBindings, finish_letIn,
    runIn_pure, runIn_resolve, bind_assoc, pure_bind]
  have alike : here.push.Alike here := fun _ => rfl
  rw [alike.resolveBindingsIn rfl bs]
  funext session
  refine bind_congr_run rfl fun typed t h => ?_
  have again : runIn (here.push.bindEach typed) (refineBindings { options := o } typed) =
      pure (typed, (here.push.bindEach typed).rebindEach typed) := by
    show runIn (here.push.bindEach typed) (rebind typed >>= fun _ => pure typed) = _
    rw [runIn_bind, runIn_rebind (typed_resolveBindingsIn h)]
    rfl
  rw [again]
  rfl

/-- A single binding is not made again. -/
theorem rebindEach_singleton (here : Scope) (b : LetBinding) :
    (here.bindEach [b]).rebindEach [b] = here.bindEach [b] := by
  have shown : (here.bind b.name b.binding).typeOf? b.name = some b.binding.type := by
    unfold Scope.typeOf?
    rw [Scope.get?_bind, if_pos rfl]
    rfl
  exact if_pos shown

theorem resolveIn_nest_cons (name : String) (init : Node) (type? : Option TypeRef) (at' : Span)
    (bs : List LetBinding) (body : Node) :
    (Node.nest span isLoop (⟨name, init, type?, at'⟩ :: bs) body).resolveIn { options := o } here =
      (do
        let init ← init.resolveIn { options := o } here
        let b : LetBinding := ⟨name, init, some init.argumentType, at'⟩
        let n ← (Node.nest span isLoop bs body).resolveIn { options := o }
          (here.bind name b.binding)
        return .letIn span isLoop [b] n : SynthM Node) := by
  show (Node.letIn span isLoop [_] (Node.nest span isLoop bs body)).resolveIn _ here = _
  rw [resolveIn_letIn]
  unfold resolveBindingsIn resolveBindingsIn
  simp only [rebindEach_singleton, bind_assoc, pure_bind]
  refine congrArg _ (funext fun init => ?_)
  have alike : here.push.Alike here := fun _ => rfl
  have opened := alike.bindEach [⟨name, init, some init.argumentType, at'⟩]
  rw [opened.resolveIn rfl]
  rfl

/-- What nested forms bind and enclose is resolved in order, each in view of what is before it. -/
theorem resolveIn_nest (bs : List LetBinding) (body : Node) :
    ((Node.nest span isLoop bs body).resolveIn { options := o } here >>= fun n =>
        pure (n.unnest bs.length)) =
      (do
        let bs ← resolveBindingsIn { options := o } here bs
        let body ← body.resolveIn { options := o } (here.bindEach bs)
        return (bs, body) : SynthM (List LetBinding × Node)) := by
  induction bs generalizing here with
  | nil => rfl
  | cons b bs ih =>
    obtain ⟨name, init, type?, at'⟩ := b
    rw [resolveIn_nest_cons]
    unfold resolveBindingsIn
    simp only [bind_assoc, pure_bind]
    refine congrArg _ (funext fun init => ?_)
    -- the binding in front is that of the outermost form
    let b : LetBinding := ⟨name, init, some init.argumentType, at'⟩
    have inner := congrArg (· >>= fun r => pure (b :: r.1, r.2)) (ih (here.bind name b.binding))
    simp only [bind_assoc, pure_bind] at inner
    exact inner

end Let

/-- A `let` is resolved like the nesting of its bindings, provided that the last binding of each
name that the body captures stays in view: the typed bindings are the same, and the body with the
types, roles and origins in its capture sets, and the session; or the error is the same. -/
theorem resolveIn_letIn_eq_nest (o : Options) (span : Span) (isLoop : Bool) (bs : List LetBinding)
    (body : Node) (here : Scope) (session : Session)
    (keeps : ∀ typed t,
      resolveBindings { options := o } bs { session, scope := here.push } = .ok typed t →
        ∀ name, .capture name ∈ body.mentions → KeepsLast name typed) :
    (Node.letIn span isLoop bs body).resolveIn { options := o } here session =
      (do
        let n ← (Node.nest span isLoop bs body).resolveIn { options := o } here
        return n.flatten span isLoop bs.length : SynthM Node) session := by
  have nested := congrArg (· >>= fun r => pure (Node.letIn span isLoop r.1 r.2))
    (resolveIn_nest o here span isLoop bs body)
  simp only [bind_assoc, pure_bind] at nested
  show _ = ((Node.nest span isLoop bs body).resolveIn _ here >>= fun n =>
    pure (Node.letIn span isLoop (n.unnest bs.length).1 (n.unnest bs.length).2)) session
  rw [nested, resolveIn_letIn]
  refine bind_congr_run rfl fun typed t h => ?_
  have alike : here.push.Alike here := fun _ => rfl
  have run := congrFun (runIn_resolveBindings { options := o } here.push bs) session
  rw [alike.resolveBindingsIn rfl, bind_run_ok h] at run
  have agree : ((here.push.bindEach typed).rebindEach typed).AgreeOn body.mentions
      (here.bindEach typed)
    | .typeOf name, _ => by
      show Scope.typeOf? _ name = Scope.typeOf? _ name
      rw [typeOf?_rebindEach]
      exact congrArg (Option.map Binding.type) (alike.bindEach typed name)
    | .capture name, mem => by
      show Scope.get? _ name = Scope.get? _ name
      rw [get?_rebindEach_of_keepsLast (typed_resolveBindingsIn h)
        (keeps typed _ (eq_ok_of_runIn run) name mem)]
      exact alike.bindEach typed name
  rw [resolveIn_of_agreeOn rfl agree]

/-! ### Bindings of one name -/

/-- A literal bound to the name `x` on a line. -/
def LetBinding.bound (line : Nat) (value : Literal) : LetBinding :=
  ⟨"x", .const .unknown value, none, ⟨line, 1⟩⟩

namespace Node

/-- A function without arities that captures `x`. -/
def capturer : Node :=
  .fn .unknown { captures? := some (.ofList [{ name := "x", role := .letBound }]) } []

/-- Where the captures of the function in the body of a `let` were bound. -/
def capturedSites : Node → List (Option Site)
  | .letIn _ _ _ (.fn _ head _) => (head.captures?.elim [] CaptureSet.toList).map Capture.site?
  | _ => []

end Node

/-- One text and then two numbers bound to a name: a `let` of all three lets a function in its body
capture the first number, and the nesting of the three lets it capture the second. -/
theorem resolveIn_letIn_ne_nest :
    ¬∀ (o : Options) (span : Span) (isLoop : Bool) (bs : List LetBinding) (body : Node)
        (here : Scope) (session : Session),
      (Node.letIn span isLoop bs body).resolveIn { options := o } here session =
        (do
          let n ← (Node.nest span isLoop bs body).resolveIn { options := o } here
          return n.flatten span isLoop bs.length : SynthM Node) session := by
  intro same
  have same := congrArg
    (accepted fun n _ => n.capturedSites == [some ⟨.letBound, ⟨3, 1⟩⟩])
    (same {} .unknown false [.bound 1 (.str "a"), .bound 2 (.int 1), .bound 3 (.int 2)] .capturer
      .empty { registry := .host })
  revert same
  decide +kernel

/-- With the text in the middle the last binding stays in view. -/
theorem resolveIn_letIn_eq_nest_capturer :
    let bs : List LetBinding := [.bound 1 (.int 1), .bound 2 (.str "a"), .bound 3 (.int 2)]
    (∀ typed t, resolveBindings {} bs { session := { registry := .host }, scope := .push {} } =
        .ok typed t → ∀ name, .capture name ∈ Node.capturer.mentions → KeepsLast name typed) ∧
      (Node.letIn .unknown false bs .capturer).resolveIn {} {} { registry := .host } =
        (do
          let n ← (Node.nest .unknown false bs .capturer).resolveIn {} {}
          return n.flatten .unknown false bs.length : SynthM Node) { registry := .host } := by
  have keeps : ∀ typed t,
      resolveBindings {} [.bound 1 (.int 1), .bound 2 (.str "a"), .bound 3 (.int 2)]
        { session := { registry := .host }, scope := .push {} } = .ok typed t →
      ∀ name, .capture name ∈ Node.capturer.mentions → KeepsLast name typed := by
    rintro typed t run name mem
    have own : name = "x" := by
      have mem : Mention.capture name ∈ [Mention.capture "x"] := mem
      simpa using mem
    cases run
    subst own
    exact keepsLast_of_ne [_] rfl (by decide +kernel)
  exact ⟨keeps, resolveIn_letIn_eq_nest {} .unknown false _ .capturer {} _ keeps⟩

end TypeSynthesis
