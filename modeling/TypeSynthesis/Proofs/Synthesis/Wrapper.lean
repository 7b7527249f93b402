import TypeSynthesis.Proofs.Idempotence.Basic
import TypeSynthesis.Proofs.Synthesis.Implement
import TypeSynthesis.Proofs.Synthesis.Invokers

/-!
# The class of a function literal

A function value can be called at the types that its arities name and at the root type throughout.

* `ArityHead.Annotates`: an arity with the types that its hints denote;
* `ArityHead.natural`, `ArityHead.boxed`: the types at which an arity can be called;
* `ClassType.Wraps`: the class implements the invokers of all arities and no other interface, with
  one method for each of them;
* `wraps_synthesizeWrapper`: so does the class that synthesis gives to a function literal.

A parameter that is passed by reference has a type that says so, but the invoker's method takes the
parameter by value, as its definition does.  What is called is found at the right types because the
invokers' identities are told apart from all others in use; and what stands under their names are
their definitions.  Each of this is needed (`not_wraps_synthesizeWrapper`).
-/

namespace TypeSynthesis

open Registry SynthM

/-! ### Arities and their invokers -/

/-- The type that a hint denotes, if any.  Without a hint it is the root type. -/
def Registry.hinted? (R : Registry) : Option TypeName → Option TypeRef
  | none => some .object
  | some name => (R.resolve name.text).1

namespace ArityHead

/-- The arity `a'` is `a` with the types of its parameters, where each hint denotes a type. -/
structure Annotates (R : Registry) (a a' : ArityHead) : Prop where
  hint : a'.hint? = a.hint?
  result : (R.hinted? a.hint?).isSome = true
  params : List.Forall₂ (fun p p' => (R.hinted? p.hint?).isSome = true ∧
    p' = { p with type? := R.hinted? p.hint? }) a.params a'.params

/-- The types of the parameters. -/
def paramTypes (a : ArityHead) : List TypeRef := a.params.map (·.type?.getD .object)

/-- The type of the result. -/
def resultType (R : Registry) (a : ArityHead) : TypeRef := (R.hinted? a.hint?).getD .object

/-- The arity's own types, of the parameters and of the result. -/
def natural (R : Registry) (a : ArityHead) : List TypeRef := a.paramTypes ++ [a.resultType R]

/-- The root type throughout. -/
def boxed (a : ArityHead) : List TypeRef := List.replicate (a.params.length + 1) .object

/-- What the identity of the arity's invoker at types is computed from. -/
def invoker (a : ArityHead) (types : List TypeRef) : Source := .invoker a.params.length types

/-- The identities of the arity's invokers are apart from all others in use, and those of the type
parameters from each other. -/
structure Apart (R : Registry) (a : ArityHead) : Prop where
  params : (invokerType a.params.length).typeParams.Nodup
  natural : R.IsApart (a.invoker (a.natural R))
  boxed : R.IsApart (a.invoker a.boxed)

/-- Both invokers of the arity are registered. -/
structure Invoked (R : Registry) (a : ArityHead) : Prop where
  natural : R.IsInvoker a.params.length (a.natural R) (a.invoker (a.natural R)).id
  boxed : R.IsInvoker a.params.length a.boxed (a.invoker a.boxed).id

end ArityHead

/-- The method of `owner` implements the one method of the interface with the identity `u`. -/
def Registry.Implements (R : Registry) (owner u : TypeId) (m : Signature) : Prop :=
  ∃ i invoke, R.interface? u = some i ∧ i.methods = [invoke] ∧ invoke.name = invokeName ∧
    m = { name := i.name ++ "." ++ invokeName
          declaring := owner
          params := invoke.params
          result := invoke.result
          attributes := .implementation }

/-- The class implements the two invokers of each arity and no other interface, and declares one
method for each of them.  An arity can be called at its own types, all passed by value, and at the
root type throughout. -/
structure ClassType.Wraps (R : Registry) (c : ClassType) (arities : List ArityHead) : Prop where
  nodup : c.interfaces.Nodup
  interfaces (u : TypeId) : u ∈ c.interfaces ↔
    ∃ a ∈ arities, u = (a.invoker (a.natural R)).id ∨ u = (a.invoker a.boxed).id
  invoked : ∀ a ∈ arities, a.Invoked R
  methods : List.Forall₂ (R.Implements c.id) c.interfaces c.methods
  natural : ∀ a ∈ arities, ∃ m ∈ c.methods,
    m.params = a.paramTypes.map TypeRef.element ∧ m.result = (a.resultType R).element
  boxed : ∀ a ∈ arities, ∃ m ∈ c.methods,
    m.params = List.replicate a.params.length .object ∧ m.result = .object

namespace SynthM

variable {o : Options} {construct : String} {s t : Session} {last : Registry}

/-! ### Hints -/

/-- The type of a hint is the one that the hint denotes later. -/
theorem hinted?_of_resolveHint {hint? : Option TypeName} {type : TypeRef}
    (h : resolveHint construct hint? s = .ok type t) (sound : s.registry.Sound)
    (grows : t.registry.Grows last) (distinct : last.Distinct) (named : last.WellNamed) :
    last.hinted? hint? = some type := by
  cases hint? with
  | none =>
    obtain ⟨rfl, -⟩ := pure_eq_ok_iff.1 h
    rfl
  | some name =>
    have again := resolve_again sound (resolve_of_resolveTypeName h) grows distinct named
    exact congrArg Prod.fst again

/-- Each parameter has the type that its hint denotes. -/
theorem params_of_mapM {ps ps' : List Param}
    (h : ps.mapM (resolveParam construct) s = .ok ps' t) (sound : s.registry.Sound)
    (grows : t.registry.Grows last) (distinct : last.Distinct) (named : last.WellNamed) :
    List.Forall₂ (fun p p' => (last.hinted? p.hint?).isSome = true ∧
      p' = { p with type? := last.hinted? p.hint? }) ps ps' := by
  have moves (p : Param) : Moves Session.Grows (resolveParam construct p) :=
    (Session.grows_respected.hint ..).bind fun _ => .pure _
  refine (Moves.forall₂_mapM moves h).imp ?_
  rintro p p' ⟨u, v, before, hp, after⟩
  obtain ⟨type, w, htype, hp⟩ := bind_eq_ok_iff.1 hp
  obtain ⟨rfl, rfl⟩ := pure_eq_ok_iff.1 hp
  have denotes := hinted?_of_resolveHint htype (sound.of_grows before)
    (Registry.Grows.trans after grows) distinct named
  rw [denotes]
  exact ⟨rfl, rfl⟩

/-! ### Arities -/

theorem checkArity_eq_ok {n : Nat} (h : checkArity o construct n s = .ok () t) : s = t := by
  unfold checkArity at h
  split at h
  · exact absurd h throw_ne_ok
  · exact (pure_eq_ok_iff.1 h).2

section Invoker

variable {n : Nat} {definition u v : TypeId} {types types' : List TypeRef} {s₁ s₂ : Session}
  (asked : extend (·.invoker n) s = .ok definition s₁)
  (first : invokerAt definition types s₁ = .ok u s₂)
  (second : invokerAt definition types' s₂ = .ok v t)
include asked first second

theorem keepsInvokers_of_extend :
    s.KeepsInvokers s₁ ∧ s₁.KeepsInvokers s₂ ∧ s₂.KeepsInvokers t := by
  obtain ⟨e, known, rfl⟩ := find?_of_invoker (extend_eq_ok asked)
  obtain ⟨keeps₁, known₁⟩ := keepsInvokers_of_invokerAt known first
  obtain ⟨keeps₂, -⟩ := keepsInvokers_of_invokerAt known₁ second
  exact ⟨keepsInvokers_of_invoker asked, keeps₁, keeps₂⟩

/-- An invoker that is asked for and taken at two lists of types is the invoker at these types. -/
theorem isInvoker_of_extend (invocable : s.registry.Invocable) (grows : t.registry.Grows last)
    (distinct : last.Distinct) (params : (invokerType n).typeParams.Nodup)
    (apart : last.IsApart (.invoker n types)) (apart' : last.IsApart (.invoker n types')) :
    (u = (Source.invoker n types).id ∧ last.IsInvoker n types u) ∧
      (v = (Source.invoker n types').id ∧ last.IsInvoker n types' v) ∧ t.registry.Invocable := by
  obtain ⟨keeps, keeps₁, keeps₂⟩ := keepsInvokers_of_extend asked first second
  obtain ⟨e, known, rfl⟩ := find?_of_invoker (extend_eq_ok asked)
  obtain ⟨-, known₁⟩ := keepsInvokers_of_invokerAt known first
  have grows₂ : s₂.registry.Grows last := Registry.Grows.trans keeps₂.prepares.grows grows
  have grows₁ : s₁.registry.Grows last := Registry.Grows.trans keeps₁.prepares.grows grows₂
  have invocable₁ := invocable.of_keeps keeps (distinct.of_grows grows₁)
  have invocable₂ := invocable₁.of_keeps keeps₁ (distinct.of_grows grows₂)
  exact ⟨isInvoker_of_invokerAt known first invocable₁ grows₂ distinct params apart,
    isInvoker_of_invokerAt known₁ second invocable₂ grows distinct params apart',
    invocable₂.of_keeps keeps₂ (distinct.of_grows grows)⟩

end Invoker

/-- An arity is annotated with the types of its hints, and the wrapper's invokers are extended by
its own, which are registered. -/
theorem resolveArity_eq_ok {invokers invokers' : List TypeId} {a a' : ArityHead}
    (h : resolveArity o construct invokers a s = .ok (invokers', a') t)
    (invocable : s.registry.Invocable) (grows : t.registry.Grows last) (distinct : last.Distinct)
    (named : last.WellNamed) (apart : a'.Apart last) :
    a.Annotates last a' ∧ a'.Invoked last ∧ t.registry.Invocable ∧
      invokers' = addNew (addNew invokers (a'.invoker (a'.natural last)).id)
        (a'.invoker a'.boxed).id := by
  obtain ⟨⟨⟩, s₀, hcheck, h⟩ := bind_eq_ok_iff.1 h
  obtain ⟨params, s₁, hparams, h⟩ := bind_eq_ok_iff.1 h
  obtain ⟨result, s₂, hresult, h⟩ := bind_eq_ok_iff.1 h
  obtain ⟨definition, s₃, hdefinition, h⟩ := bind_eq_ok_iff.1 h
  obtain ⟨natural, s₄, hnatural, h⟩ := bind_eq_ok_iff.1 h
  obtain ⟨boxed, s₅, hboxed, h⟩ := bind_eq_ok_iff.1 h
  obtain ⟨h, rfl⟩ := pure_eq_ok_iff.1 h
  cases h
  obtain rfl := checkArity_eq_ok hcheck
  -- the sessions on the way grow to the last registry, and the invoker can be asked for in them
  have keeps := Session.keepsInvokers_prepared
  have k₁ : s.KeepsInvokers s₁ := (Moves.mapM (fun p : Param =>
    (keeps.hint construct p.hint?).bind fun _ => .pure _) a.params).of_ok hparams
  have k₂ : s₁.KeepsInvokers s₂ := (keeps.hint ..).of_ok hresult
  obtain ⟨k₃, k₄, k₅⟩ := keepsInvokers_of_extend hdefinition hnatural hboxed
  have g₂ : s₂.registry.Grows last := Registry.Grows.trans
    (k₃.prepares.grows.trans (k₄.prepares.grows.trans k₅.prepares.grows)) grows
  have g₁ : s₁.registry.Grows last := Registry.Grows.trans k₂.prepares.grows g₂
  have i₁ := invocable.of_keeps k₁ (distinct.of_grows g₁)
  have i₂ := i₁.of_keeps k₂ (distinct.of_grows g₂)
  have annotated := params_of_mapM hparams invocable.sound g₁ distinct named
  have denotes := hinted?_of_resolveHint hresult i₁.sound g₂ distinct named
  have length : a.params.length = params.length := annotated.length_eq
  have types : params.map (·.type?.getD .object) ++ [result] =
      ({ a with params } : ArityHead).natural last := by
    unfold ArityHead.natural ArityHead.resultType
    rw [denotes]
    rfl
  rw [types] at hnatural
  rw [length] at hdefinition hboxed
  obtain ⟨⟨rfl, natural⟩, ⟨rfl, boxed⟩, i₅⟩ := isInvoker_of_extend hdefinition hnatural hboxed i₂
    grows distinct apart.params apart.natural apart.boxed
  exact ⟨⟨rfl, by rw [denotes]; rfl, annotated⟩, ⟨natural, boxed⟩, i₅, rfl⟩

theorem mem_addNew {ts : List TypeId} {u v : TypeId} : u ∈ addNew ts v ↔ u ∈ ts ∨ u = v := by
  unfold addNew
  split
  · rename_i known
    exact ⟨.inl, fun h => h.elim id fun same => same ▸ known⟩
  · rw [List.mem_append, List.mem_singleton]

theorem nodup_addNew {ts : List TypeId} (h : ts.Nodup) (v : TypeId) : (addNew ts v).Nodup := by
  unfold addNew
  split
  · exact h
  · rename_i new
    exact List.nodup_append.2 ⟨h, List.nodup_singleton v, fun u hu w hw same =>
      new (List.mem_singleton.1 hw ▸ same ▸ hu)⟩

/-- All arities are annotated, and the wrapper's invokers are theirs, each once. -/
theorem resolveArities_eq_ok {invokers invokers' : List TypeId} {as as' : List ArityHead}
    (h : resolveArities o construct invokers as s = .ok (invokers', as') t)
    (invocable : s.registry.Invocable) (grows : t.registry.Grows last) (distinct : last.Distinct)
    (named : last.WellNamed) (apart : ∀ a ∈ as', a.Apart last) (nodup : invokers.Nodup) :
    List.Forall₂ (ArityHead.Annotates last) as as' ∧ (∀ a ∈ as', a.Invoked last) ∧
      t.registry.Invocable ∧ invokers'.Nodup ∧
      ∀ u, u ∈ invokers' ↔ u ∈ invokers ∨
        ∃ a ∈ as', u = (a.invoker (a.natural last)).id ∨ u = (a.invoker a.boxed).id := by
  induction as generalizing invokers as' s with
  | nil =>
    obtain ⟨h, rfl⟩ := pure_eq_ok_iff.1 h
    cases h
    exact ⟨.nil, nofun, invocable, nodup, fun u => by simp⟩
  | cons a as ih =>
    obtain ⟨⟨invokers₁, a₁⟩, s₁, first, h⟩ := bind_eq_ok_iff.1 h
    obtain ⟨⟨invokers₂, as₁⟩, s₂, rest, h⟩ := bind_eq_ok_iff.1 h
    obtain ⟨h, rfl⟩ := pure_eq_ok_iff.1 h
    cases h
    rw [List.forall_mem_cons] at apart
    have growth : s₁.registry.Grows s₂.registry :=
      (Session.grows_respected.arities ..).of_ok rest
    obtain ⟨annotates, invoked, invocable₁, rfl⟩ := resolveArity_eq_ok first invocable
      (Registry.Grows.trans growth grows) distinct named apart.1
    obtain ⟨annotated, all, invocable₂, nodup₂, mem⟩ :=
      ih rest invocable₁ apart.2 (nodup_addNew (nodup_addNew nodup _) _)
    refine ⟨.cons annotates annotated, List.forall_mem_cons.2 ⟨invoked, all⟩, invocable₂, nodup₂,
      fun u => ?_⟩
    rw [mem, mem_addNew, mem_addNew, List.exists_mem_cons_iff]
    simp only [or_assoc]

/-! ### The methods of the class -/

theorem interfaces_withInterfaces {c : ClassType} {is : List TypeId}
    (nodup : (c.interfaces ++ is).Nodup) :
    (is.foldl ClassType.withInterface c).interfaces = c.interfaces ++ is := by
  induction is generalizing c with
  | nil => exact (List.append_nil _).symm
  | cons i is ih =>
    have new : i ∉ c.interfaces := fun known =>
      (List.nodup_append.1 nodup).2.2 i known i List.mem_cons_self rfl
    have one : (c.withInterface i).interfaces = c.interfaces ++ [i] := by
      unfold ClassType.withInterface
      rw [if_neg new]
    have split : (c.withInterface i).interfaces ++ is = c.interfaces ++ i :: is := by
      rw [one, List.append_assoc]
      rfl
    rw [List.foldl_cons, ih (split ▸ nodup), split]

theorem interfaces_beginClass {R : Registry} {name : String} {base : TypeId} {is : List TypeId}
    {draft : ClassType} (h : R.beginClass name base is = .ok draft) (nodup : is.Nodup) :
    draft.interfaces = is := by
  rw [eq_of_beginClass h]
  exact interfaces_withInterfaces nodup

/-- An interface of one method, which is an invoker's, is implemented by one more method. -/
theorem declareInvoker_eq_ok {c c' : ClassType} {u : TypeId} {i : InterfaceType}
    {invoke : Signature} (h : declareInvoker c u s = .ok c' t)
    (kept : ∀ i', s.registry.interface? u = some i' → last.interface? u = some i')
    (hi : last.interface? u = some i) (methods : i.methods = [invoke])
    (name : invoke.name = invokeName) :
    s = t ∧ c'.interfaces = c.interfaces ∧ c'.id = c.id ∧
      ∃ m, c'.methods = c.methods ++ [m] ∧ last.Implements c.id u m := by
  obtain ⟨R, s₁, hR, h⟩ := bind_eq_ok_iff.1 h
  cases hR
  cases hi' : s.registry.interface? u with
  | none =>
    simp only [hi'] at h
    exact absurd h throw_ne_ok
  | some i' =>
    simp only [hi'] at h
    have same := kept i' hi'
    rw [hi] at same
    cases same
    obtain ⟨rfl, rfl⟩ := pure_eq_ok_iff.1 h
    have only : i.methods.filter (·.name == invokeName) = [invoke] := by
      rw [methods, List.filter_cons, if_pos (beq_iff_eq.2 name), List.filter_nil]
    rw [only]
    refine ⟨rfl, rfl, rfl, _, rfl, i, invoke, hi, methods, name, ?_⟩
    rw [← name]
    rfl

/-- The interfaces of a list are implemented by one method each, in their order. -/
theorem declareInvokers_eq_ok {us : List TypeId} {c c' : ClassType}
    (h : us.foldlM declareInvoker c s = .ok c' t)
    (kept : ∀ u i, s.registry.interface? u = some i → last.interface? u = some i)
    (invoke : ∀ u ∈ us, ∃ i m, last.interface? u = some i ∧ i.methods = [m] ∧
      m.name = invokeName) :
    s = t ∧ c'.interfaces = c.interfaces ∧ c'.id = c.id ∧
      ∃ ms, c'.methods = c.methods ++ ms ∧ List.Forall₂ (last.Implements c.id) us ms := by
  induction us generalizing c s with
  | nil =>
    obtain ⟨rfl, rfl⟩ := pure_eq_ok_iff.1 h
    exact ⟨rfl, rfl, rfl, [], (List.append_nil _).symm, .nil⟩
  | cons u us ih =>
    rw [List.foldlM_cons] at h
    obtain ⟨c₁, s₁, first, rest⟩ := bind_eq_ok_iff.1 h
    obtain ⟨⟨i, m, hi, methods, name⟩, others⟩ := List.forall_mem_cons.1 invoke
    obtain ⟨rfl, interfaces₁, id₁, m₁, methods₁, implements⟩ :=
      declareInvoker_eq_ok first (kept u) hi methods name
    obtain ⟨rfl, interfaces₂, id₂, ms, methods₂, all⟩ := ih rest kept others
    rw [id₁] at all id₂
    refine ⟨rfl, interfaces₂.trans interfaces₁, id₂, m₁ :: ms, ?_, .cons implements all⟩
    rw [methods₂, methods₁, List.append_assoc]
    rfl

end SynthM

/-! ### The class -/

theorem exists_mem_of_forall₂ {α β : Type} {r : α → β → Prop} {as : List α} {bs : List β} {a : α}
    (h : List.Forall₂ r as bs) (ha : a ∈ as) : ∃ b ∈ bs, r a b := by
  induction h with
  | nil => cases ha
  | cons first _ ih =>
    rcases List.mem_cons.1 ha with rfl | ha
    · exact ⟨_, List.mem_cons_self, first⟩
    · obtain ⟨b, hb, related⟩ := ih ha
      exact ⟨b, List.mem_cons_of_mem _ hb, related⟩

/-- A class with one method for each invoker can be called as each of them can. -/
theorem ClassType.exists_method {R : Registry} {c : ClassType} {params : List TypeRef}
    {result : TypeRef} {u : TypeId}
    (methods : List.Forall₂ (R.Implements c.id) c.interfaces c.methods)
    (h : R.IsInvoker params.length (params ++ [result]) u) (mem : u ∈ c.interfaces) :
    ∃ m ∈ c.methods, m.params = params.map TypeRef.element ∧ m.result = result.element := by
  obtain ⟨m, hm, i, invoke, hi, only, -, rfl⟩ := exists_mem_of_forall₂ methods mem
  obtain ⟨j, hj, instantiates⟩ := h
  rw [hi] at hj
  cases hj
  obtain ⟨invoke', only', -, hparams, hresult⟩ := instantiates.invoke
  rw [only] at only'
  cases only'
  exact ⟨_, hm, hparams, hresult⟩

namespace ArityHead

variable {R : Registry} {a : ArityHead} {u : TypeId}

theorem isInvoker_natural (h : R.IsInvoker a.params.length (a.natural R) u) :
    R.IsInvoker a.paramTypes.length (a.paramTypes ++ [a.resultType R]) u := by
  have length : a.paramTypes.length = a.params.length := List.length_map _
  rw [length]
  exact h

theorem isInvoker_boxed (h : R.IsInvoker a.params.length a.boxed u) :
    R.IsInvoker (List.replicate a.params.length TypeRef.object).length
      (List.replicate a.params.length .object ++ [.object]) u := by
  rw [List.length_replicate, ← List.replicate_succ']
  exact h

/-- Every invoker of an arity has one method for calling it. -/
theorem Invoked.invoke (h : a.Invoked R)
    (hu : u = (a.invoker (a.natural R)).id ∨ u = (a.invoker a.boxed).id) :
    ∃ i m, R.interface? u = some i ∧ i.methods = [m] ∧ m.name = invokeName := by
  rcases hu with rfl | rfl
  · obtain ⟨i, hi, instantiates⟩ := isInvoker_natural h.natural
    obtain ⟨m, only, name, -, -⟩ := instantiates.invoke
    exact ⟨i, m, hi, only, name⟩
  · obtain ⟨i, hi, instantiates⟩ := isInvoker_boxed h.boxed
    obtain ⟨m, only, name, -, -⟩ := instantiates.invoke
    exact ⟨i, m, hi, only, name⟩

end ArityHead

/-- A class that implements the invokers of all arities by one method each wraps the arities. -/
theorem ClassType.wraps {R : Registry} {c : ClassType} {arities : List ArityHead}
    (nodup : c.interfaces.Nodup)
    (interfaces : ∀ u, u ∈ c.interfaces ↔
      ∃ a ∈ arities, u = (a.invoker (a.natural R)).id ∨ u = (a.invoker a.boxed).id)
    (invoked : ∀ a ∈ arities, a.Invoked R)
    (methods : List.Forall₂ (R.Implements c.id) c.interfaces c.methods) : c.Wraps R arities where
  nodup := nodup
  interfaces := interfaces
  invoked := invoked
  methods := methods
  natural a ha := c.exists_method methods (ArityHead.isInvoker_natural (invoked a ha).natural)
    ((interfaces _).2 ⟨a, ha, .inl rfl⟩)
  boxed a ha := by
    obtain ⟨m, hm, params, result⟩ := c.exists_method methods
      (ArityHead.isInvoker_boxed (invoked a ha).boxed) ((interfaces _).2 ⟨a, ha, .inr rfl⟩)
    rw [List.map_replicate] at params
    exact ⟨m, hm, params, result⟩

/-- The class that synthesis gives to a function literal wraps its arities, each annotated with the
types of its hints.  It is assumed that nothing but the invokers' definitions stands under their
names, and that different names, and what the invokers are instantiated at, have different
identities. -/
theorem wraps_synthesizeWrapper {o : Options} {name? : Option String} {as as' : List ArityHead}
    {d : Descriptor} {s t : Session} (built : s.registry.Built)
    (definitions : ∀ n e, s.registry.find? (invokerName n) = some e →
      e = .interfaceType (invokerType n))
    (distinct : t.registry.Distinct) (apart : ∀ a ∈ as', a.Apart t.registry)
    (h : synthesizeWrapper o name? as s = .ok (d, as') t) :
    List.Forall₂ (ArityHead.Annotates t.registry) as as' ∧
      ∃ c, t.registry.class? d.id = some c ∧ c.Wraps t.registry as' := by
  have named : t.registry.WellNamed :=
    (Session.keepsNames_respected.wrapper o name? as).of_ok h built.wellNamed
  have invocable : s.registry.Invocable := ⟨built.sound, built.faithful, definitions⟩
  obtain ⟨⟨invokers, as'⟩, s₁, has, h⟩ := bind_eq_ok_iff.1 h
  obtain ⟨name, s₂, hname, h⟩ := bind_eq_ok_iff.1 h
  obtain ⟨draft, s₃, hdraft, h⟩ := bind_eq_ok_iff.1 h
  obtain ⟨draft', s₄, hdeclare, h⟩ := bind_eq_ok_iff.1 h
  obtain ⟨d', s₅, hfinish, h⟩ := bind_eq_ok_iff.1 h
  obtain ⟨h, rfl⟩ := pure_eq_ok_iff.1 h
  cases h
  obtain ⟨begun, rfl⟩ := consult_eq_ok_iff.1 hdraft
  have grows := Session.grows_respected
  have g₂ : s₁.registry.Grows s₂.registry := (grows.freshName ..).of_ok hname
  have g₄ : s₂.Grows s₄ :=
    (Moves.foldlM Session.Prepared.declareInvoker invokers draft).of_ok hdeclare
  have g₅ : s₄.registry.Grows s₅.registry := (grows.finish _).of_ok hfinish
  obtain ⟨annotated, invoked, invocable₁, nodup, mem⟩ := resolveArities_eq_ok has invocable
    (Registry.Grows.trans (Registry.Grows.trans g₂ g₄) g₅) distinct named apart List.nodup_nil
  have interfaces (u : TypeId) : u ∈ invokers ↔
      ∃ a ∈ as', u = (a.invoker (a.natural s₅.registry)).id ∨ u = (a.invoker a.boxed).id := by
    rw [mem]
    exact or_iff_right List.not_mem_nil
  obtain ⟨-, same, id, ms, methods, implements⟩ := declareInvokers_eq_ok hdeclare
    (fun u i => interface?_of_grows (invocable₁.sound.of_grows g₂)
      (Registry.Grows.trans g₄ g₅) distinct)
    (fun u hu => by
      obtain ⟨a, ha, hu⟩ := (interfaces u).1 hu
      exact (invoked a ha).invoke hu)
  rw [methods_beginClass begun, List.nil_append] at methods
  rw [interfaces_beginClass begun nodup] at same
  rw [← id, ← methods, ← same] at implements
  rw [← same] at nodup interfaces
  obtain ⟨rfl, registered⟩ := class?_finish hfinish
  exact ⟨annotated, draft', registered, ClassType.wraps nodup interfaces invoked implements⟩

/-! ### Functions with one and with several arities -/

instance (R : Registry) (a : ArityHead) : Decidable (a.Apart R) :=
  decidable_of_iff ((invokerType a.params.length).typeParams.Nodup ∧
    R.IsApart (a.invoker (a.natural R)) ∧ R.IsApart (a.invoker a.boxed))
    ⟨fun h => ⟨h.1, h.2.1, h.2.2⟩, fun h => ⟨h.params, h.natural, h.boxed⟩⟩

/-- A function with an arity from a number to a text, one with a parameter by reference, and one
without parameters. -/
def severalArities : List ArityHead :=
  [{ params := [{ name := "x", hint? := some ⟨"int", .unknown⟩ }],
     hint? := some ⟨"string", .unknown⟩ },
   { params := [{ name := "x", hint? := some ⟨"int*&", .unknown⟩ }, { name := "y" }] },
   { params := [] }]

theorem wraps_severalArities :
    ∃ d as' t, synthesizeWrapper {} (some "f") severalArities { registry := .host } =
        .ok (d, as') t ∧
      List.Forall₂ (ArityHead.Annotates t.registry) severalArities as' ∧
      ∃ c, t.registry.class? d.id = some c ∧ c.Wraps t.registry as' := by
  have h : accepted (fun x t => decide (t.registry.names.values.Nodup ∧
        ∀ a ∈ x.2, a.Apart t.registry))
      (synthesizeWrapper {} (some "f") severalArities { registry := .host }) = true := by
    decide +kernel
  obtain ⟨⟨d, as'⟩, t, h, conditions⟩ := exists_of_accepted h
  obtain ⟨nodup, apart⟩ := of_decide_eq_true conditions
  refine ⟨d, as', t, h, wraps_synthesizeWrapper (built_of_mem_starts (by simp)) ?_
    (distinct_of_nodup nodup) apart h⟩
  intro n e he
  rw [find?_invokerName_host] at he
  cases he

/-- Whether a synthesis gives a class and arities that pass a test. -/
def givesWrapper (q : Registry → ClassType → List ArityHead → Bool)
    (r : EStateM.Result CompilationError Session (Descriptor × List ArityHead)) : Bool :=
  accepted (fun x t => (t.registry.class? x.1.id).any fun c => q t.registry c x.2) r

theorem exists_of_givesWrapper {q : Registry → ClassType → List ArityHead → Bool}
    {r : EStateM.Result CompilationError Session (Descriptor × List ArityHead)}
    (h : givesWrapper q r = true) :
    ∃ d as t c, r = .ok (d, as) t ∧ t.registry.class? d.id = some c ∧
      q t.registry c as = true := by
  obtain ⟨⟨d, as⟩, t, hr, h⟩ := exists_of_accepted h
  obtain ⟨c, hc, h⟩ := (Option.any_eq_true _ _).1 h
  exact ⟨d, as, t, c, hr, hc, h⟩

/-- A parameter that is passed by reference. -/
def referenceArity : ArityHead :=
  { params := [{ name := "x", hint? := some ⟨"int&", .unknown⟩ }] }

/-- The registration of a generic interface without methods under the name of an invoker
definition. -/
def registerIdleInvoker : Operation :=
  .register (.interfaceType { name := invokerName 0, typeParams := [.ofName "T"] })

/-- An arity whose own invoker has the identity of the one from a number to a text. -/
def collidingArity : ArityHead :=
  { params := [{ name := "x", hint? := some ⟨"long", .unknown⟩ }],
    hint? := some ⟨collidingName, .unknown⟩ }

/-- A parameter that is passed by reference is taken by value.  Where another interface stands under
the name of an invoker definition, or another instance in the place of an invoker, the class need
not wrap the arities. -/
theorem not_wraps_synthesizeWrapper :
    (¬ ∀ (o : Options) (name? : Option String) (as as' : List ArityHead) (d : Descriptor)
      (s t : Session), s.registry.Built →
      (∀ n e, s.registry.find? (invokerName n) = some e → e = .interfaceType (invokerType n)) →
      t.registry.Distinct → (∀ a ∈ as', a.Apart t.registry) →
      synthesizeWrapper o name? as s = .ok (d, as') t →
      ∃ c, t.registry.class? d.id = some c ∧
        ∀ a ∈ as', ∃ m ∈ c.methods, m.params = a.paramTypes) ∧
    (¬ ∀ (o : Options) (name? : Option String) (as as' : List ArityHead) (d : Descriptor)
      (s t : Session), s.registry.Built → t.registry.Distinct →
      (∀ a ∈ as', a.Apart t.registry) → synthesizeWrapper o name? as s = .ok (d, as') t →
      ∃ c, t.registry.class? d.id = some c ∧ c.Wraps t.registry as') ∧
    (¬ ∀ (o : Options) (name? : Option String) (as as' : List ArityHead) (d : Descriptor)
      (s t : Session), s.registry.Built →
      (∀ n e, s.registry.find? (invokerName n) = some e → e = .interfaceType (invokerType n)) →
      t.registry.Distinct → synthesizeWrapper o name? as s = .ok (d, as') t →
      ∃ c, t.registry.class? d.id = some c ∧ c.Wraps t.registry as') := by
  refine ⟨fun h => ?_, fun h => ?_, fun h => ?_⟩
  · have byValue : givesWrapper (fun R c as => decide (R.names.values.Nodup ∧
          (∀ a ∈ as, a.Apart R) ∧ ∃ a ∈ as, ∀ m ∈ c.methods, m.params ≠ a.paramTypes))
        (synthesizeWrapper {} none [referenceArity] { registry := .host }) = true := by
      decide +kernel
    obtain ⟨d, as, t, c, run, hc, conditions⟩ := exists_of_givesWrapper byValue
    obtain ⟨nodup, apart, a, ha, differs⟩ := of_decide_eq_true conditions
    obtain ⟨c', hc', takes⟩ := h _ _ _ _ _ _ _ (built_of_mem_starts (by simp))
      (fun n e he => by rw [find?_invokerName_host] at he; cases he) (distinct_of_nodup nodup)
      apart run
    rw [hc] at hc'
    cases hc'
    obtain ⟨m, hm, same⟩ := takes a ha
    exact differs m hm same
  · have idle : givesWrapper (fun R c as => decide (R.names.values.Nodup ∧
          (∀ a ∈ as, a.Apart R) ∧ c.interfaces.length ≠ c.methods.length))
        (synthesizeWrapper {} none [{ params := [] }]
          { registry := registerIdleInvoker.after host }) = true := by
      decide +kernel
    obtain ⟨d, as, t, c, run, hc, conditions⟩ := exists_of_givesWrapper idle
    obtain ⟨nodup, apart, differs⟩ := of_decide_eq_true conditions
    obtain ⟨c', hc', wraps⟩ := h _ _ _ _ _ _ _ ⟨host, by simp, [registerIdleInvoker],
      by decide, rfl⟩ (distinct_of_nodup nodup) apart run
    rw [hc] at hc'
    cases hc'
    exact differs wraps.methods.length_eq
  · have displaced : givesWrapper (fun R c as => decide (R.names.values.Nodup ∧
          ∃ a ∈ as, ∀ m ∈ c.methods, m.params ≠ a.paramTypes.map TypeRef.element))
        (synthesizeWrapper {} none [collidingArity] { registry := numberToText }) = true := by
      decide +kernel
    obtain ⟨d, as, t, c, run, hc, conditions⟩ := exists_of_givesWrapper displaced
    obtain ⟨nodup, a, ha, differs⟩ := of_decide_eq_true conditions
    obtain ⟨c', hc', wraps⟩ := h _ _ _ _ _ _ _ built_numberToText
      (definition_of_names [1] (by decide +kernel)) (distinct_of_nodup nodup) run
    rw [hc] at hc'
    cases hc'
    obtain ⟨m, hm, same, -⟩ := wraps.natural a ha
    exact differs m hm same

end TypeSynthesis
