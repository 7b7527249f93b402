import TypeSynthesis.Proofs.Overload.Selection
import TypeSynthesis.Proofs.Registry.Growth
import TypeSynthesis.Proofs.Synthesis.Record

/-!
# What supplied methods implement

A method that is supplied to a record, an anonymous object or a proxy takes over the signature that
its declared parameter types select among the candidates.

* `Registry.Between R S T`: the growth from `R` to `T` leads through `S`;
* `MethodHead.Selects`, `MethodHead.Annotated`: how a supplied method, the signature that it selects
  and its resolved form fit together;
* `ClassType.Realizes`: the class declares one method for each supplied one, in their order;
* `implementAll_eq_ok`: what implementing the supplied methods adds to a draft;
* `Denoted`, `ObjectHead.Derives`, `realizes_synthesizeRecord`, `realizes_synthesizeObject`: the
  candidates of the three constructs.
-/

namespace TypeSynthesis

/-! ### Points of a run -/

/-- The growth from one registry to another leads through a third. -/
structure Registry.Between (first S last : Registry) : Prop where
  before : first.Grows S
  after : S.Grows last

namespace Registry.Between

variable {first first' last last' S : Registry}

theorem mono (h : Between first S last) (before : first'.Grows first) (after : last.Grows last') :
    Between first' S last' :=
  ⟨before.trans h.before, h.after.trans after⟩

end Registry.Between

/-! ### Member names -/

namespace MemberName

/-- The parts of a member name make up the whole. -/
theorem qualifiedMember_ofText (text : String) :
    CompilationError.qualifiedMember (ofText text).owner? (ofText text).member = text := by
  have whole := List.takeWhile_append_dropWhile (p := (· ≠ '.')) (l := text.toList.reverse)
  unfold ofText
  dsimp only
  split
  · rename_i dot c owner rest
    rw [rest] at whole
    have isDot : dot = '.' := by
      have head := List.head?_dropWhile_not (· ≠ '.') text.toList.reverse
      rw [rest] at head
      simpa using head
    split
    · rfl
    · show String.ofList (c :: owner).reverse ++ "." ++ String.ofList _ = text
      have letters := congrArg List.reverse whole
      rw [List.reverse_reverse, isDot] at letters
      refine String.toList_injective (Eq.trans ?_ letters)
      simp
  · rfl

end MemberName

/-! ### Candidates -/

/-- The methods that a definition lists. -/
def Entry.methods : Entry → List Signature
  | classType c => c.methods
  | interfaceType i => i.methods
  | _ => []

theorem mem_of_mem_firstPerSlot {seen : List TypeId} {ms : List Signature} {m : Signature}
    (h : m ∈ firstPerSlot seen ms) : m ∈ ms := by
  induction ms generalizing seen with
  | nil => cases h
  | cons m' ms ih =>
    by_cases hm : m'.slot ∈ seen
    · rw [firstPerSlot_cons_of_mem hm] at h
      exact List.mem_cons_of_mem _ (ih h)
    · rw [firstPerSlot_cons_of_not_mem hm] at h
      rcases List.mem_cons.1 h with rfl | h
      · exact List.mem_cons_self
      · exact List.mem_cons_of_mem _ (ih h)

theorem Candidates.mem_of_mem_named {c : Candidates} {R : Registry} {name : MemberName}
    {m : Signature} (h : m ∈ c.named R name) :
    m ∈ c.signatures ∧ m.name = name.member ∧ ∀ o ∈ name.owner?, R.typeName m.declaring = o := by
  obtain ⟨hm, hfits⟩ := List.mem_filter.1 (mem_of_mem_firstPerSlot h)
  simp only [fits, Bool.and_eq_true, beq_iff_eq, Option.all_eq_true] at hfits
  exact ⟨hm, hfits.1, fun o ho => hfits.2 o ho⟩

/-- A selected signature is a candidate with as many parameters as there are arguments. -/
theorem Registry.mem_of_select? {R : Registry} {candidates : List Signature}
    {args : List TypeRef} {m : Signature} (h : R.select? candidates args = some m) :
    m ∈ candidates ∧ m.arity = args.length := by
  obtain ⟨w, hw, rfl, -⟩ := select?_eq_some_iff.1 h
  have hbest := (mem_bestMatches_iff.1 (of_winners_eq hw).1).1
  exact ⟨(mem_applicable_iff.1 hbest).1, arity_of_mem_applicable hbest⟩

/-! ### One method -/

/-- The method that a class declares for a supplied one. -/
def MethodHead.implementation (m : MethodHead) (new : TypeId) (sig : Signature) : Signature :=
  { name := m.name, declaring := new, params := sig.params, result := sig.result,
    attributes := .implementation }

/-- The supplied method `given` selects the signature `sig` at some point of a run: a candidate of
its member name and, if the name is qualified, of that owner, with as many parameters. -/
structure MethodHead.Selects (first last : Registry) (candidates : List Signature)
    (given : MethodHead) (sig : Signature) : Prop where
  candidate : sig ∈ candidates
  member : sig.name = (MemberName.ofText given.name).member
  written :
    CompilationError.qualifiedMember (MemberName.ofText given.name).owner? sig.name = given.name
  owner : ∀ o ∈ (MemberName.ofText given.name).owner?,
    ∃ R, Registry.Between first R last ∧ R.typeName sig.declaring = o
  arity : given.params.length = sig.params.length

/-- The method `done` is the supplied method `given` with the exact types of the signature `sig`
and with the type `new` for the object itself. -/
structure MethodHead.Annotated (new : TypeId) (given done : MethodHead) (sig : Signature) :
    Prop where
  implements : done.implements? = some sig
  name : done.name = given.name
  types : done.params.map Param.type? = sig.params.map some
  params : done.params.map (fun p => { p with type? := none }) =
    given.params.map (fun p => { p with type? := none })
  receiver : done.self? = given.self?.map fun p => { p with type? := some (.value new) }

theorem types_annotateParams {ps : List Param} {ts : List TypeRef} (h : ps.length = ts.length) :
    (annotateParams ps ts).map Param.type? = ts.map some := by
  induction ps generalizing ts with
  | nil =>
    cases ts with
    | nil => rfl
    | cons t ts => cases h
  | cons p ps ih =>
    cases ts with
    | nil => cases h
    | cons t ts =>
      rw [annotateParams, List.map_cons, List.map_cons, ih (Nat.succ.inj h)]

/-- Apart from their types, parameters are kept. -/
theorem untyped_annotateParams (ps : List Param) (ts : List TypeRef) :
    (annotateParams ps ts).map (fun p => { p with type? := none }) =
      ps.map (fun p => { p with type? := none }) := by
  induction ps generalizing ts with
  | nil => unfold annotateParams; rfl
  | cons p ps ih =>
    cases ts with
    | nil => unfold annotateParams; rfl
    | cons t ts => rw [annotateParams, List.map_cons, List.map_cons, ih]

theorem MethodHead.annotated_implement {given : MethodHead} {sig : Signature} (new : TypeId)
    (arity : given.params.length = sig.params.length) :
    Annotated new given (given.implement new sig) sig where
  implements := rfl
  name := rfl
  types := types_annotateParams arity
  params := untyped_annotateParams given.params sig.params
  receiver := rfl

/-- Captures are no part of what a method implements. -/
theorem MethodHead.Annotated.withCaptures {new : TypeId} {given done : MethodHead}
    {sig : Signature} (h : Annotated new given done sig) (captures : CaptureSet) :
    Annotated new given { done with captures } sig :=
  ⟨h.implements, h.name, h.types, h.params, h.receiver⟩

namespace SynthM

variable {construct : String} {candidates : Candidates} {s t : Session}

/-- A supplied method resolves to what its hints select among the candidates of its name. -/
theorem resolveMethod_eq_ok_iff {m : MethodHead} {sig : Signature} :
    resolveMethod construct candidates m s = .ok sig t ↔
      ∃ args, m.params.mapM (fun p => resolveHint construct p.hint?) s = .ok args t ∧
        t.registry.select? (candidates.named t.registry (MemberName.ofText m.name)) args =
          some sig := by
  constructor
  · intro h
    obtain ⟨args, u, hargs, h⟩ := bind_eq_ok_iff.1 h
    obtain ⟨R, v, hR, h⟩ := bind_eq_ok_iff.1 h
    cases hR
    cases selected :
        u.registry.select? (candidates.named u.registry (MemberName.ofText m.name)) args with
    | none =>
      simp only [selected] at h
      exact absurd h throw_ne_ok
    | some sig' =>
      simp only [selected] at h
      obtain ⟨rfl, rfl⟩ := pure_eq_ok_iff.1 h
      exact ⟨args, hargs, selected⟩
  · rintro ⟨args, hargs, selected⟩
    refine bind_eq_ok_iff.2 ⟨args, t, hargs, bind_eq_ok_iff.2 ⟨t.registry, t, rfl, ?_⟩⟩
    rw [selected]
    rfl

theorem selects_resolveMethod {m : MethodHead} {sig : Signature}
    (h : resolveMethod construct candidates m s = .ok sig t) :
    m.Selects s.registry t.registry candidates.signatures sig := by
  have grows := (Session.grows_respected.method construct candidates m).of_ok h
  obtain ⟨args, hargs, selected⟩ := resolveMethod_eq_ok_iff.1 h
  have length := (Moves.forall₂_mapM
    (fun p : Param => Session.grows_respected.hint construct p.hint?) hargs).length_eq
  obtain ⟨mem, arity⟩ := Registry.mem_of_select? selected
  obtain ⟨mem, member, owner⟩ := Candidates.mem_of_mem_named mem
  have written := MemberName.qualifiedMember_ofText m.name
  rw [← member] at written
  exact ⟨mem, member, written, fun o ho => ⟨_, ⟨grows, .refl⟩, owner o ho⟩,
    length.trans arity.symm⟩

end SynthM

theorem MethodHead.Selects.mono {first last first' last' : Registry} {candidates : List Signature}
    {given : MethodHead} {sig : Signature} (h : Selects first last candidates given sig)
    (before : first'.Grows first) (after : last.Grows last') :
    Selects first' last' candidates given sig where
  candidate := h.candidate
  member := h.member
  written := h.written
  owner o ho := by
    obtain ⟨R, between, name⟩ := h.owner o ho
    exact ⟨R, between.mono before after, name⟩
  arity := h.arity

/-! ### All supplied methods -/

/-- The class `c` declares one method for each supplied one, in their order, and `done` are the
supplied methods with the signatures that they implement. -/
structure ClassType.Realizes (c : ClassType) (first last : Registry) (candidates : List Signature)
    (given done : List MethodHead) : Prop where
  length : done.length = given.length
  each {i : Nat} {m : MethodHead} (h : given[i]? = some m) : ∃ m' sig, done[i]? = some m' ∧
    m.Selects first last candidates sig ∧ m.Annotated c.id m' sig ∧
    c.methods[i]? = some (m.implementation c.id sig)

namespace SynthM

variable {construct : String} {candidates : Candidates} {s t : Session}

/-- Each supplied method selects its signature, and the draft is given the methods that declare
them after those that it has. -/
theorem implementAll_eq_ok {draft draft' : ClassType} {ms ms' : List MethodHead}
    (h : implementAll construct candidates draft ms s = .ok (draft', ms') t) :
    draft'.id = draft.id ∧ ∃ sigs,
      List.Forall₂ (MethodHead.Selects s.registry t.registry candidates.signatures) ms sigs ∧
      ms' = ms.zipWith (·.implement draft.id ·) sigs ∧
      draft'.methods = draft.methods ++ ms.zipWith (·.implementation draft.id ·) sigs := by
  induction ms generalizing draft ms' s with
  | nil =>
    obtain ⟨h, rfl⟩ := pure_eq_ok_iff.1 h
    cases h
    exact ⟨rfl, [], .nil, rfl, (List.append_nil _).symm⟩
  | cons m ms ih =>
    obtain ⟨sig, u, hsig, h⟩ := bind_eq_ok_iff.1 h
    obtain ⟨⟨done, ms₁⟩, v, hms, h⟩ := bind_eq_ok_iff.1 h
    obtain ⟨h, rfl⟩ := pure_eq_ok_iff.1 h
    cases h
    rw [MemberName.qualifiedMember_ofText] at hms
    have first : s.registry.Grows u.registry :=
      (Session.grows_respected.method construct candidates m).of_ok hsig
    have rest : u.registry.Grows v.registry :=
      (Session.grows_respected.methods construct candidates _ ms).of_ok hms
    obtain ⟨hid, sigs, selects, rfl, methods⟩ := ih hms
    refine ⟨hid, sig :: sigs, .cons ((selects_resolveMethod hsig).mono .refl rest) ?_, rfl, ?_⟩
    · exact selects.imp fun _ _ h => h.mono first .refl
    · rw [methods]
      exact List.append_assoc ..

end SynthM

theorem ClassType.Realizes.mono {c : ClassType} {first last first' last' : Registry}
    {candidates : List Signature} {given done : List MethodHead}
    (h : c.Realizes first last candidates given done) (before : first'.Grows first)
    (after : last.Grows last') : c.Realizes first' last' candidates given done where
  length := h.length
  each hm := by
    obtain ⟨m', sig, hm', selects, annotated, declared⟩ := h.each hm
    exact ⟨m', sig, hm', selects.mono before after, annotated, declared⟩

theorem ClassType.Realizes.withCaptures {c : ClassType} {first last : Registry}
    {candidates : List Signature} {given done done' : List MethodHead}
    (h : c.Realizes first last candidates given done)
    (same : List.Forall₂ (fun m m' => ∃ captures, m' = { m with captures }) done done') :
    c.Realizes first last candidates given done' where
  length := same.length_eq.symm.trans h.length
  each {i m} hm := by
    obtain ⟨m₁, sig, hm₁, selects, annotated, declared⟩ := h.each hm
    obtain ⟨hi, rfl⟩ := List.getElem?_eq_some_iff.1 hm₁
    have hi' : i < done'.length := same.length_eq ▸ hi
    obtain ⟨captures, hm'⟩ := (List.forall₂_iff_get.1 same).2 i hi hi'
    refine ⟨_, sig, List.getElem?_eq_getElem hi', selects, ?_, declared⟩
    rw [List.get_eq_getElem] at hm'
    rw [hm']
    exact annotated.withCaptures captures

/-- A class whose methods begin with those that the selected signatures declare. -/
theorem ClassType.realizes_of_prefix {c : ClassType} {first last : Registry}
    {candidates : List Signature} {given : List MethodHead} {sigs more : List Signature}
    (selects : List.Forall₂ (MethodHead.Selects first last candidates) given sigs)
    (methods : c.methods = given.zipWith (·.implementation c.id ·) sigs ++ more) :
    c.Realizes first last candidates given (given.zipWith (·.implement c.id ·) sigs) where
  length := by rw [List.length_zipWith, ← selects.length_eq, Nat.min_self]
  each {i m} hm := by
    obtain ⟨hi, rfl⟩ := List.getElem?_eq_some_iff.1 hm
    have hi' : i < sigs.length := selects.length_eq ▸ hi
    have selected := (List.forall₂_iff_get.1 selects).2 i hi hi'
    have hsig : sigs[i]? = some sigs[i] := List.getElem?_eq_getElem hi'
    refine ⟨_, sigs[i], ?_, selected, MethodHead.annotated_implement c.id selected.arity, ?_⟩
    · rw [List.getElem?_zipWith, hm, hsig]
    · rw [methods, List.getElem?_append_left, List.getElem?_zipWith, hm, hsig]
      rw [List.length_zipWith]
      omega

/-! ### The candidates of records -/

/-- A written name denotes a type at some point of a run. -/
def Denoted (first last : Registry) (name : TypeName) (t : TypeId) : Prop :=
  ∃ R u, Registry.Between first R last ∧ (R.resolve name.text).1 = some u ∧ u.id = t

theorem Denoted.mono {first last first' last' : Registry} {name : TypeName} {t : TypeId}
    (h : Denoted first last name t) (before : first'.Grows first) (after : last.Grows last') :
    Denoted first' last' name t := by
  obtain ⟨R, u, between, denotes, id⟩ := h
  exact ⟨R, u, between.mono before after, denotes, id⟩

namespace SynthM

variable {construct : String} {o : Options} {s t : Session}

theorem resolve_of_resolveTypeName {name : TypeName} {type : TypeRef}
    (h : resolveTypeName construct name s = .ok type t) :
    s.registry.resolve name.text = (some type, t.registry) := by
  unfold resolveTypeName at h
  split at h
  · rename_i hr
    cases h
    exact hr
  · cases h

theorem denoted_resolveTypeName {name : TypeName} {u : TypeRef}
    (h : resolveTypeName construct name s = .ok u t) :
    Denoted s.registry t.registry name u.id := by
  have grows := (Session.grows_respected.typeName construct name).of_ok h
  exact ⟨s.registry, u, ⟨.refl, grows⟩, by rw [resolve_of_resolveTypeName h], rfl⟩

theorem denoted_resolveInterface {name : TypeName} {i : TypeId}
    (h : resolveInterface construct name s = .ok i t) :
    Denoted s.registry t.registry name i := by
  obtain ⟨u, v, hu, h⟩ := bind_eq_ok_iff.1 h
  obtain ⟨R, w, hR, h⟩ := bind_eq_ok_iff.1 h
  cases hR
  split at h
  · exact absurd h throw_ne_ok
  · obtain ⟨rfl, rfl⟩ := pure_eq_ok_iff.1 h
    exact denoted_resolveTypeName hu

theorem denoted_mapM {f : TypeName → SynthM TypeId} (hf : ∀ name, Moves Session.Grows (f name))
    (denoted : ∀ {name s i t}, f name s = .ok i t → Denoted s.registry t.registry name i)
    {names : List TypeName} {is : List TypeId} (h : names.mapM f s = .ok is t) :
    List.Forall₂ (Denoted s.registry t.registry) names is := by
  refine (Moves.forall₂_mapM hf h).imp ?_
  rintro name i ⟨u, v, before, hi, after⟩
  exact (denoted hi).mono before after

theorem methods_withInterfaces (c : ClassType) (is : List TypeId) :
    (is.foldl ClassType.withInterface c).methods = c.methods := by
  induction is generalizing c with
  | nil => rfl
  | cons i is ih =>
    rw [List.foldl_cons, ih]
    unfold ClassType.withInterface
    split <;> rfl

theorem methods_beginClass {R : Registry} {name : String} {base : TypeId} {is : List TypeId}
    {draft : ClassType} (h : R.beginClass name base is = .ok draft) : draft.methods = [] := by
  rw [eq_of_beginClass h]
  exact methods_withInterfaces _ is

theorem methods_declareField {draft draft' : ClassType} {f : FieldDecl}
    (hd : draft.methods = []) (h : declareField construct draft f s = .ok draft' t) :
    draft'.methods = [] := by
  obtain ⟨type, u, -, h⟩ := bind_eq_ok_iff.1 h
  obtain ⟨R, v, -, h⟩ := bind_eq_ok_iff.1 h
  split at h
  · exact absurd h throw_ne_ok
  · obtain ⟨rfl, -⟩ := pure_eq_ok_iff.1 h
    exact hd

/-- A finished class that was given methods for all supplied ones realizes them. -/
theorem realizes_finish {candidates : Candidates} {draft draft' c : ClassType}
    {ms ms' : List MethodHead} {d : Descriptor} {u v : Session} {more : List Signature}
    (empty : draft.methods = [])
    (implement : implementAll construct candidates draft ms s = .ok (draft', ms') u)
    (hfinish : finish c u = .ok d v) (id : c.id = draft'.id)
    (methods : c.methods = draft'.methods ++ more) :
    d = ⟨c.name, c.id⟩ ∧ v.registry.class? d.id = some c ∧
      c.Realizes s.registry u.registry candidates.signatures ms ms' := by
  obtain ⟨hd, hc⟩ := class?_finish hfinish
  obtain ⟨hid, sigs, selects, rfl, hmethods⟩ := implementAll_eq_ok implement
  rw [empty, List.nil_append, ← hid, ← id] at hmethods
  refine ⟨hd, hc, ?_⟩
  rw [← hid, ← id]
  exact ClassType.realizes_of_prefix selects (by rw [methods, hmethods])

/-- The class of a record realizes the supplied methods, which implement methods of the root class
or of the interfaces that the record names. -/
theorem realizes_synthesizeRecord {head : RecordHead} {ms ms' : List MethodHead}
    {d : Descriptor} (h : synthesizeRecord o head ms s = .ok (d, ms') t) :
    ∃ c R requested, d = ⟨c.name, c.id⟩ ∧ t.registry.class? d.id = some c ∧
      Registry.Between s.registry R t.registry ∧
      List.Forall₂ (Denoted s.registry R) head.interfaces requested ∧
      c.Realizes R t.registry
        (R.overridableMethodsOf .object ++ requested.flatMap R.interfaceMethods) ms ms' := by
  obtain ⟨is, s₁, his, h⟩ := bind_eq_ok_iff.1 h
  obtain ⟨draft, s₂, hdraft, h⟩ := bind_eq_ok_iff.1 h
  obtain ⟨draft₁, s₃, hfields, h⟩ := bind_eq_ok_iff.1 h
  obtain ⟨R, s₄, hR, h⟩ := bind_eq_ok_iff.1 h
  obtain ⟨⟨draft₂, heads⟩, s₅, hmethods, h⟩ := bind_eq_ok_iff.1 h
  obtain ⟨d', s₆, hd, h⟩ := bind_eq_ok_iff.1 h
  obtain ⟨h, rfl⟩ := pure_eq_ok_iff.1 h
  cases h
  cases hR
  obtain ⟨begun, rfl⟩ := consult_eq_ok_iff.1 hdraft
  have grows := Session.grows_respected
  have g₁ : s.registry.Grows s₁.registry :=
    (Moves.mapM (grows.interfaceName _) _).of_ok his
  have g₃ : s₁.registry.Grows s₃.registry :=
    (Moves.foldlM (grows.field _) _ draft).of_ok hfields
  have g₅ : s₃.registry.Grows s₅.registry := (grows.methods ..).of_ok hmethods
  have g₆ : s₅.registry.Grows s₆.registry := (grows.finish _).of_ok hd
  have empty : draft₁.methods = [] :=
    foldlM_invariant (I := fun c : ClassType => c.methods = []) methods_declareField
      (methods_beginClass begun) hfields
  obtain ⟨hid, hc, realizes⟩ := realizes_finish empty hmethods hd rfl rfl
  refine ⟨_, s₃.registry, is, hid, hc, ⟨g₁.trans g₃, g₅.trans g₆⟩, ?_, ?_⟩
  · exact (denoted_mapM (grows.interfaceName _) denoted_resolveInterface his).imp
      fun _ _ h => h.mono .refl g₃
  · exact realizes.mono .refl g₆

end SynthM

/-! ### The candidates of object literals -/

/-- The base class and the interfaces among supertypes: the first is the base unless it is an
interface. -/
def Registry.baseAndInterfaces (R : Registry) : List TypeId → TypeId × List TypeId
  | [] => (.object, [])
  | t :: ts => if R.isInterface t then (.object, t :: ts) else (t, ts)

/-- The base class and the requested interfaces of an object literal, whose supertypes are denoted
at points of a run. -/
def ObjectHead.Derives (head : ObjectHead) (first last : Registry) (base : TypeId)
    (requested : List TypeId) : Prop :=
  ∃ supers, List.Forall₂ (Denoted first last) head.supers supers ∧
    match head.kind with
    | .anonymous => base = .object ∧ requested = supers
    | .proxy => ∃ R, Registry.Between first R last ∧ R.baseAndInterfaces supers = (base, requested)

theorem ObjectHead.Derives.mono {head : ObjectHead} {first last last' : Registry} {base : TypeId}
    {requested : List TypeId} (h : head.Derives first last base requested)
    (after : last.Grows last') : head.Derives first last' base requested := by
  obtain ⟨supers, denoted, kind⟩ := h
  refine ⟨supers, denoted.imp fun _ _ h => h.mono .refl after, ?_⟩
  cases hk : head.kind with
  | anonymous => simpa only [hk] using kind
  | proxy =>
    simp only [hk] at kind
    obtain ⟨R, between, split⟩ := kind
    exact ⟨R, between.mono .refl after, split⟩

namespace SynthM

variable {construct : String} {o : Options} {s t : Session}

theorem mapM_requireInterface {R : Registry} {supers : List (TypeName × TypeId)}
    {is : List TypeId} (h : supers.mapM (requireInterface R construct) = .ok is) :
    is = supers.map (·.2) := by
  induction supers generalizing is with
  | nil => cases h; rfl
  | cons x supers ih =>
    rw [List.mapM_cons] at h
    obtain ⟨i, hi, h⟩ := except_bind_eq_ok_iff.1 h
    obtain ⟨is', his, h⟩ := except_bind_eq_ok_iff.1 h
    cases h
    rw [ih his, List.map_cons]
    unfold requireInterface at hi
    split at hi
    · cases hi; rfl
    · cases hi

theorem splitSupers_eq_ok {R : Registry} {supers : List (TypeName × TypeId)}
    {x : TypeId × List TypeId} (h : splitSupers R construct supers = .ok x) :
    R.baseAndInterfaces (supers.map (·.2)) = x := by
  cases supers with
  | nil => cases h; rfl
  | cons first rest =>
    unfold splitSupers at h
    dsimp only at h
    rw [List.map_cons, Registry.baseAndInterfaces]
    split at h <;> rename_i isInterface
    · obtain ⟨is, his, h⟩ := except_bind_eq_ok_iff.1 h
      cases h
      rw [if_pos isInterface, mapM_requireInterface his]
      rfl
    · obtain ⟨is, his, h⟩ := except_bind_eq_ok_iff.1 h
      cases h
      rw [if_neg isInterface, mapM_requireInterface his]

theorem derives_supertypes {head : ObjectHead} {supers : Supertypes}
    (h : supertypes head s = .ok supers t) :
    head.Derives s.registry t.registry supers.base supers.requested := by
  have grows := Session.grows_respected
  unfold supertypes at h
  unfold ObjectHead.Derives
  cases hk : head.kind with
  | anonymous =>
    simp only [hk] at h
    obtain ⟨is, u, his, h⟩ := bind_eq_ok_iff.1 h
    obtain ⟨metadata, v, hmetadata, h⟩ := bind_eq_ok_iff.1 h
    obtain ⟨rfl, rfl⟩ := pure_eq_ok_iff.1 h
    have g : u.registry.Grows v.registry := grows.metadataType.of_ok hmetadata
    exact ⟨is, (denoted_mapM (grows.interfaceName _) denoted_resolveInterface his).imp
      fun _ _ h => h.mono .refl g, rfl, rfl⟩
  | proxy =>
    simp only [hk] at h
    obtain ⟨named, u, hnamed, h⟩ := bind_eq_ok_iff.1 h
    obtain ⟨R, v, hR, h⟩ := bind_eq_ok_iff.1 h
    obtain ⟨⟨base, requested⟩, w, hsplit, h⟩ := bind_eq_ok_iff.1 h
    obtain ⟨rfl, rfl⟩ := pure_eq_ok_iff.1 h
    obtain ⟨split, rfl⟩ := ofExcept_eq_ok_iff.1 hsplit
    cases hR
    have moves (name : TypeName) : Moves Session.Grows (do
        return (name, (← resolveTypeName head.kind.construct name).id) :
          SynthM (TypeName × TypeId)) :=
      (grows.typeName _ name).bind fun _ => .pure _
    have g : s.registry.Grows u.registry := (Moves.mapM moves _).of_ok hnamed
    refine ⟨named.map (·.2), ?_, u.registry, ⟨g, .refl⟩, splitSupers_eq_ok split⟩
    rw [List.forall₂_map_right_iff]
    refine (Moves.forall₂_mapM moves hnamed).imp ?_
    rintro name ⟨name', i⟩ ⟨u', v', before, hi, after⟩
    obtain ⟨type, w, htype, hi⟩ := bind_eq_ok_iff.1 hi
    obtain ⟨hi, rfl⟩ := pure_eq_ok_iff.1 hi
    cases hi
    exact (denoted_resolveTypeName htype).mono before after

/-- The methods of the metadata interface come after those that the draft has. -/
theorem declareMetadata_eq (R : Registry) (metadata? : Option TypeId) (draft : ClassType) :
    (declareMetadata R metadata? draft).id = draft.id ∧
      ∃ more, (declareMetadata R metadata? draft).methods = draft.methods ++ more := by
  unfold declareMetadata
  cases metadata? with
  | none => exact ⟨rfl, [], (List.append_nil _).symm⟩
  | some t =>
    dsimp only
    generalize R.interfaceMethods t = ms
    induction ms generalizing draft with
    | nil => exact ⟨rfl, [], (List.append_nil _).symm⟩
    | cons m ms ih =>
      obtain ⟨id, more, methods⟩ := ih (draft.declare m.name .implementation m.result m.params)
      exact ⟨id, _ :: more, methods.trans (List.append_assoc ..)⟩

/-- The class of an object literal realizes the supplied methods, which implement methods of its
base class or of the interfaces that the literal requests. -/
theorem realizes_synthesizeObject {head : ObjectHead} {ms ms' : List MethodHead}
    {d : Descriptor} (h : synthesizeObject o head ms s = .ok (d, ms') t) :
    ∃ c R base requested, d = ⟨c.name, c.id⟩ ∧ t.registry.class? d.id = some c ∧
      Registry.Between s.registry R t.registry ∧ head.Derives s.registry R base requested ∧
      c.Realizes R t.registry
        (R.overridableMethodsOf base ++ requested.flatMap R.interfaceMethods) ms ms' := by
  obtain ⟨supers, s₁, hsupers, h⟩ := bind_eq_ok_iff.1 h
  obtain ⟨name, s₂, hname, h⟩ := bind_eq_ok_iff.1 h
  obtain ⟨draft, s₃, hdraft, h⟩ := bind_eq_ok_iff.1 h
  obtain ⟨R, s₄, hR, h⟩ := bind_eq_ok_iff.1 h
  obtain ⟨⟨draft₁, heads⟩, s₅, hmethods, h⟩ := bind_eq_ok_iff.1 h
  obtain ⟨R', s₆, hR', h⟩ := bind_eq_ok_iff.1 h
  obtain ⟨d', s₇, hd, h⟩ := bind_eq_ok_iff.1 h
  obtain ⟨h, rfl⟩ := pure_eq_ok_iff.1 h
  cases h
  cases hR
  cases hR'
  obtain ⟨begun, rfl⟩ := consult_eq_ok_iff.1 hdraft
  have grows := Session.grows_respected
  have g₁ : s.registry.Grows s₁.registry := (grows.supertypes head).of_ok hsupers
  have g₂ : s₁.registry.Grows s₂.registry := (grows.freshName ..).of_ok hname
  have g₅ : s₂.registry.Grows s₅.registry := (grows.methods ..).of_ok hmethods
  have g₇ : s₅.registry.Grows s₇.registry := (grows.finish _).of_ok hd
  obtain ⟨id, more, methods⟩ := declareMetadata_eq s₅.registry supers.metadata? draft₁
  obtain ⟨hid, hc, realizes⟩ :=
    realizes_finish (methods_beginClass begun) hmethods hd id methods
  exact ⟨_, s₂.registry, _, _, hid, hc, ⟨g₁.trans g₂, g₅.trans g₇⟩,
    (derives_supertypes hsupers).mono g₂, realizes.mono .refl g₇⟩

end SynthM

end TypeSynthesis
