import TypeSynthesis.Proofs.Synthesis.Record

/-!
# Drafts and their definition

A synthesis prepares a draft and then defines it, which is the one step in which the new type is
registered.

* `SynthM.draftWrapper`, `SynthM.draftRecord`, `SynthM.draftObject`, `SynthM.draftInterface`: the
  preparation of each kind of draft, with `synthesizeWrapper_eq` and its kin;
* `Session.Respected r`: the preorder `r` holds across each step, the definition included;
* `Session.Respected.wrapper`, `Session.Respected.record`, `Session.Respected.object`,
  `Session.Respected.interface`: so it does across every synthesis.
-/

namespace TypeSynthesis

/-- A preorder on sessions that each step of synthesis respects.  A new type has its identity from
its name. -/
structure Session.Respected (r : Session → Session → Prop) [IsPreorder Session r] : Prop
    extends Session.Prepared r where
  define {s : Session} {e : Entry} {R : Registry} (named : e.id = .ofName e.name)
    (h : s.registry.register e = .ok R) : r s (s.withRegistry R)

/-- The interface is synthesized, and it is neither a generic definition nor an instance. -/
structure InterfaceType.IsPlain (i : InterfaceType) : Prop where
  origin : i.origin = .synthesized
  noInstance : i.instanceOf? = none
  noParams : i.typeParams = []

theorem InterfaceType.IsPlain.id_eq {i : InterfaceType} (h : i.IsPlain) :
    i.id = .ofName i.name := by
  unfold InterfaceType.id
  rw [h.noInstance]

namespace SynthM

/-! ### Drafts -/

/-- The draft of a function wrapper, and the arities with their parameter types. -/
def draftWrapper (o : Options) (name? : Option String) (arities : List ArityHead) :
    SynthM (ClassType × List ArityHead) := do
  let (invokers, arities) ← resolveArities o (functionConstruct name?) [] arities
  let name ← freshName o (name?.getD "fn")
  let draft ← consult (·.beginClass name .object invokers)
  return (← invokers.foldlM declareInvoker draft, arities)

theorem synthesizeWrapper_eq (o : Options) (name? : Option String) (as : List ArityHead) :
    synthesizeWrapper o name? as =
      draftWrapper o name? as >>= fun x => do return (← finish x.1, x.2) := by
  simp only [synthesizeWrapper, draftWrapper, bind_assoc, pure_bind]

/-- The draft of a record, and the methods with the signatures they implement. -/
def draftRecord (o : Options) (head : RecordHead) (methods : List MethodHead) :
    SynthM (ClassType × List MethodHead) := do
  let construct := "deftype " ++ head.name
  let interfaces ← head.interfaces.mapM (resolveInterface construct)
  let draft ← consult (·.beginClass (o.qualify head.name) .object interfaces)
  let draft ← head.fields.foldlM (declareField construct) draft
  let candidates := Candidates.collect (← registry) .object interfaces
  let (draft, methods) ← implementAll construct candidates draft methods
  return (draft.declare basisName { isPublic := true, isStatic := true } .object [], methods)

theorem synthesizeRecord_eq (o : Options) (head : RecordHead) (ms : List MethodHead) :
    synthesizeRecord o head ms =
      draftRecord o head ms >>= fun x => do return (← finish x.1, x.2) := by
  simp only [synthesizeRecord, draftRecord, bind_assoc, pure_bind]

/-- The draft of an object literal, and the methods with the signatures they implement. -/
def draftObject (o : Options) (head : ObjectHead) (methods : List MethodHead) :
    SynthM (ClassType × List MethodHead) := do
  let construct := head.kind.construct
  let supers ← supertypes head
  let name ← freshName o construct
  let draft ← consult (·.beginClass name supers.base supers.interfaces)
  let candidates := Candidates.collect (← registry) supers.base supers.requested
  let (draft, methods) ← implementAll construct candidates draft methods
  return (declareMetadata (← registry) supers.metadata? draft, methods)

theorem synthesizeObject_eq (o : Options) (head : ObjectHead) (ms : List MethodHead) :
    synthesizeObject o head ms =
      draftObject o head ms >>= fun x => do return (← finish x.1, x.2) := by
  simp only [synthesizeObject, draftObject, bind_assoc, pure_bind]

/-- The draft of a generated interface. -/
def draftInterface (o : Options) (head : InterfaceHead) : SynthM InterfaceType := do
  let construct := "gen-interface " ++ head.name
  let bases ← head.bases.mapM (resolveInterface construct)
  let draft ← consult (·.beginInterface (o.qualify head.name) bases)
  head.methods.foldlM (declareMethod construct head.name) draft

theorem synthesizeInterface_eq (o : Options) (head : InterfaceHead) :
    synthesizeInterface o head = draftInterface o head >>= finishInterface := by
  simp only [synthesizeInterface, draftInterface, bind_assoc]

/-! ### Definitions -/

/-- A class whose name and identity are free is registered. -/
theorem finish_eq_ok {draft : ClassType} {t : Session}
    (name : t.registry.containsName draft.name = false)
    (id : t.registry.contains draft.id = false) :
    finish draft t =
      .ok ⟨draft.name, draft.id⟩ (t.withRegistry (t.registry.add (.classType draft))) := by
  have registers : t.registry.register (.classType draft) =
      .ok (t.registry.add (.classType draft)) :=
    Registry.register_eq_ok_iff.2 ⟨name, id, rfl⟩
  unfold finish extend
  dsimp only
  rw [registers]
  rfl

/-- An interface whose name and identity are free is registered. -/
theorem finishInterface_eq_ok {draft : InterfaceType} {t : Session}
    (name : t.registry.containsName draft.name = false)
    (id : t.registry.contains draft.id = false) :
    finishInterface draft t =
      .ok ⟨draft.name, draft.id⟩ (t.withRegistry (t.registry.add (.interfaceType draft))) := by
  have registers : t.registry.register (.interfaceType draft) =
      .ok (t.registry.add (.interfaceType draft)) :=
    Registry.register_eq_ok_iff.2 ⟨name, id, rfl⟩
  unfold finishInterface extend
  dsimp only
  rw [registers]
  rfl

/-! ### What drafts are -/

variable {o : Options} {s t : Session}

theorem isRecord_declareInvoker {c c' : ClassType} {name : String} {fields : List String}
    {i : TypeId} (hc : c.IsRecord name fields) (h : declareInvoker c i s = .ok c' t) :
    c'.IsRecord name fields := by
  obtain ⟨R, u, hR, h⟩ := bind_eq_ok_iff.1 h
  cases hR
  cases hi : s.registry.interface? i with
  | none =>
    simp only [hi] at h
    exact absurd h throw_ne_ok
  | some invoker =>
    simp only [hi] at h
    obtain ⟨rfl, -⟩ := pure_eq_ok_iff.1 h
    exact hc.declareAll (fun m => invoker.name ++ "." ++ m.name) .implementation _

theorem isRecord_draftWrapper {name? : Option String} {as as' : List ArityHead} {c : ClassType}
    (h : draftWrapper o name? as s = .ok (c, as') t) : ∃ name, c.IsRecord name [] := by
  obtain ⟨⟨invokers, as₁⟩, u, -, h⟩ := bind_eq_ok_iff.1 h
  obtain ⟨name, v, -, h⟩ := bind_eq_ok_iff.1 h
  obtain ⟨c₁, w, hc, h⟩ := bind_eq_ok_iff.1 h
  obtain ⟨c₂, w', hdeclare, h⟩ := bind_eq_ok_iff.1 h
  obtain ⟨h, rfl⟩ := pure_eq_ok_iff.1 h
  cases h
  exact ⟨name, foldlM_invariant (I := fun c : ClassType => c.IsRecord name [])
    isRecord_declareInvoker (isRecord_beginClass (consult_eq_ok_iff.1 hc).1) hdeclare⟩

theorem isRecord_draftRecord {head : RecordHead} {ms ms' : List MethodHead} {c : ClassType}
    (h : draftRecord o head ms s = .ok (c, ms') t) :
    c.IsRecord (o.qualify head.name) (head.fields.map FieldDecl.name) := by
  obtain ⟨is, _, -, h⟩ := bind_eq_ok_iff.1 h
  obtain ⟨c₁, _, hc, h⟩ := bind_eq_ok_iff.1 h
  obtain ⟨c₂, _, hfields, h⟩ := bind_eq_ok_iff.1 h
  obtain ⟨R, _, -, h⟩ := bind_eq_ok_iff.1 h
  obtain ⟨⟨c₃, heads⟩, _, hmethods, h⟩ := bind_eq_ok_iff.1 h
  obtain ⟨h, rfl⟩ := pure_eq_ok_iff.1 h
  cases h
  have start := isRecord_beginClass (consult_eq_ok_iff.1 hc).1
  exact (isRecord_implementAll (isRecord_declareFields start hfields) hmethods).declare ..

/-- The synthesis of a record registers a class with the declared fields. -/
theorem isRecord_synthesizeRecord {head : RecordHead} {ms ms' : List MethodHead} {d : Descriptor}
    (h : synthesizeRecord o head ms s = .ok (d, ms') t) :
    ∃ c, t.registry.class? d.id = some c ∧ c.IsRecord d.name (head.fields.map FieldDecl.name) := by
  rw [synthesizeRecord_eq] at h
  obtain ⟨⟨c, heads⟩, u, hc, h⟩ := bind_eq_ok_iff.1 h
  obtain ⟨d', v, hd, h⟩ := bind_eq_ok_iff.1 h
  obtain ⟨h, rfl⟩ := pure_eq_ok_iff.1 h
  cases h
  obtain ⟨rfl, registered⟩ := class?_finish hd
  have hc := isRecord_draftRecord hc
  exact ⟨c, registered, hc.origin, rfl, hc.fields_eq⟩

theorem isRecord_declareMetadata {R : Registry} {metadata? : Option TypeId} {c : ClassType}
    {name : String} {fields : List String} (hc : c.IsRecord name fields) :
    (declareMetadata R metadata? c).IsRecord name fields := by
  unfold declareMetadata
  split
  · exact hc.declareAll Signature.name .implementation _
  · exact hc

theorem isRecord_draftObject {head : ObjectHead} {ms ms' : List MethodHead} {c : ClassType}
    (h : draftObject o head ms s = .ok (c, ms') t) : ∃ name, c.IsRecord name [] := by
  obtain ⟨supers, _, -, h⟩ := bind_eq_ok_iff.1 h
  obtain ⟨name, _, -, h⟩ := bind_eq_ok_iff.1 h
  obtain ⟨c₁, _, hc, h⟩ := bind_eq_ok_iff.1 h
  obtain ⟨R, _, -, h⟩ := bind_eq_ok_iff.1 h
  obtain ⟨⟨c₂, heads⟩, _, hmethods, h⟩ := bind_eq_ok_iff.1 h
  obtain ⟨R', _, -, h⟩ := bind_eq_ok_iff.1 h
  obtain ⟨h, rfl⟩ := pure_eq_ok_iff.1 h
  cases h
  have methods := isRecord_implementAll (isRecord_beginClass (consult_eq_ok_iff.1 hc).1) hmethods
  exact ⟨name, isRecord_declareMetadata methods⟩

theorem plain_draftInterface {head : InterfaceHead} {i : InterfaceType}
    (h : draftInterface o head s = .ok i t) : i.IsPlain := by
  obtain ⟨bases, _, -, h⟩ := bind_eq_ok_iff.1 h
  obtain ⟨start, _, hstart, h⟩ := bind_eq_ok_iff.1 h
  refine foldlM_invariant (I := InterfaceType.IsPlain) ?_ ?_ h
  · intro draft m u draft' v hdraft h
    obtain ⟨params, _, -, h⟩ := bind_eq_ok_iff.1 h
    obtain ⟨result, _, -, h⟩ := bind_eq_ok_iff.1 h
    obtain ⟨rfl, -⟩ := pure_eq_ok_iff.1 h
    exact ⟨hdraft.origin, hdraft.noInstance, hdraft.noParams⟩
  · obtain ⟨-, -, h⟩ := except_bind_eq_ok_iff.1 (consult_eq_ok_iff.1 hstart).1
    obtain ⟨-, -, h⟩ := except_bind_eq_ok_iff.1 h
    cases h
    exact ⟨rfl, rfl, rfl⟩

/-! ### What comes with drafts -/

theorem length_resolveArities {construct : String} {invokers invokers' : List TypeId}
    {as as' : List ArityHead}
    (h : resolveArities o construct invokers as s = .ok (invokers', as') t) :
    as'.length = as.length := by
  induction as generalizing invokers invokers' as' s t with
  | nil =>
    obtain ⟨h, -⟩ := pure_eq_ok_iff.1 h
    cases h
    rfl
  | cons a as ih =>
    obtain ⟨⟨invokers₁, a₁⟩, u, -, h⟩ := bind_eq_ok_iff.1 h
    obtain ⟨⟨invokers₂, as₁⟩, v, has, h⟩ := bind_eq_ok_iff.1 h
    obtain ⟨h, -⟩ := pure_eq_ok_iff.1 h
    cases h
    exact congrArg Nat.succ (ih has)

theorem length_implementAll {construct : String} {candidates : Candidates} {c c' : ClassType}
    {ms ms' : List MethodHead} (h : implementAll construct candidates c ms s = .ok (c', ms') t) :
    ms'.length = ms.length := by
  induction ms generalizing c ms' s t with
  | nil =>
    obtain ⟨h, -⟩ := pure_eq_ok_iff.1 h
    cases h
    rfl
  | cons m ms ih =>
    obtain ⟨sig, u, -, h⟩ := bind_eq_ok_iff.1 h
    obtain ⟨⟨done, ms₁⟩, v, hms, h⟩ := bind_eq_ok_iff.1 h
    obtain ⟨h, -⟩ := pure_eq_ok_iff.1 h
    cases h
    exact congrArg Nat.succ (ih hms)

theorem length_synthesizeWrapper {name? : Option String} {as as' : List ArityHead}
    {d : Descriptor} (h : synthesizeWrapper o name? as s = .ok (d, as') t) :
    as'.length = as.length := by
  obtain ⟨⟨invokers, as₁⟩, _, has, h⟩ := bind_eq_ok_iff.1 h
  obtain ⟨name, _, -, h⟩ := bind_eq_ok_iff.1 h
  obtain ⟨c₁, _, -, h⟩ := bind_eq_ok_iff.1 h
  obtain ⟨c₂, _, -, h⟩ := bind_eq_ok_iff.1 h
  obtain ⟨d', _, -, h⟩ := bind_eq_ok_iff.1 h
  obtain ⟨h, -⟩ := pure_eq_ok_iff.1 h
  cases h
  exact length_resolveArities has

theorem length_synthesizeRecord {head : RecordHead} {ms ms' : List MethodHead} {d : Descriptor}
    (h : synthesizeRecord o head ms s = .ok (d, ms') t) : ms'.length = ms.length := by
  obtain ⟨is, _, -, h⟩ := bind_eq_ok_iff.1 h
  obtain ⟨c₁, _, -, h⟩ := bind_eq_ok_iff.1 h
  obtain ⟨c₂, _, -, h⟩ := bind_eq_ok_iff.1 h
  obtain ⟨R, _, -, h⟩ := bind_eq_ok_iff.1 h
  obtain ⟨⟨c₃, heads⟩, _, hmethods, h⟩ := bind_eq_ok_iff.1 h
  obtain ⟨d', _, -, h⟩ := bind_eq_ok_iff.1 h
  obtain ⟨h, -⟩ := pure_eq_ok_iff.1 h
  cases h
  exact length_implementAll hmethods

theorem length_synthesizeObject {head : ObjectHead} {ms ms' : List MethodHead} {d : Descriptor}
    (h : synthesizeObject o head ms s = .ok (d, ms') t) : ms'.length = ms.length := by
  obtain ⟨supers, _, -, h⟩ := bind_eq_ok_iff.1 h
  obtain ⟨name, _, -, h⟩ := bind_eq_ok_iff.1 h
  obtain ⟨c₁, _, -, h⟩ := bind_eq_ok_iff.1 h
  obtain ⟨R, _, -, h⟩ := bind_eq_ok_iff.1 h
  obtain ⟨⟨c₂, heads⟩, _, hmethods, h⟩ := bind_eq_ok_iff.1 h
  obtain ⟨R', _, -, h⟩ := bind_eq_ok_iff.1 h
  obtain ⟨d', _, -, h⟩ := bind_eq_ok_iff.1 h
  obtain ⟨h, -⟩ := pure_eq_ok_iff.1 h
  cases h
  exact length_implementAll hmethods

/-! ### Drafts and definitions as steps -/

end SynthM

namespace Session.Prepared

open SynthM

variable {r : Session → Session → Prop} [IsPreorder Session r] (hr : Session.Prepared r)
include hr

theorem draftWrapper (o : Options) (name? : Option String) (as : List ArityHead) :
    Moves r (SynthM.draftWrapper o name? as) := by
  refine (hr.arities ..).bind fun x => ?_
  refine (hr.freshName ..).bind fun _ => ?_
  refine (moves_consult _).bind fun draft => ?_
  exact (Moves.foldlM declareInvoker x.1 draft).bind fun _ => .pure _

theorem draftRecord (o : Options) (head : RecordHead) (ms : List MethodHead) :
    Moves r (SynthM.draftRecord o head ms) := by
  refine (Moves.mapM (hr.interfaceName _) _).bind fun _ => ?_
  refine (moves_consult _).bind fun draft => ?_
  refine (Moves.foldlM (hr.field _) _ draft).bind fun _ => ?_
  refine moves_registry.bind fun _ => ?_
  exact (hr.methods ..).bind fun _ => .pure _

theorem draftObject (o : Options) (head : ObjectHead) (ms : List MethodHead) :
    Moves r (SynthM.draftObject o head ms) := by
  refine (hr.supertypes head).bind fun _ => ?_
  refine (hr.freshName ..).bind fun _ => ?_
  refine (moves_consult _).bind fun _ => ?_
  refine moves_registry.bind fun _ => ?_
  refine (hr.methods ..).bind fun _ => ?_
  exact moves_registry.bind fun _ => .pure _

theorem draftInterface (o : Options) (head : InterfaceHead) :
    Moves r (SynthM.draftInterface o head) := by
  refine (Moves.mapM (hr.interfaceName _) _).bind fun _ => ?_
  exact (moves_consult _).bind fun draft => Moves.foldlM (hr.declaredMethod _ _) _ draft

end Session.Prepared

namespace Session.Respected

open SynthM

variable {r : Session → Session → Prop} [IsPreorder Session r] (hr : Session.Respected r)
include hr

theorem finish (draft : ClassType) : Moves r (SynthM.finish draft) := by
  refine ⟨fun s => runs_extend fun d R h => ?_⟩
  obtain ⟨S, hS, h⟩ := except_bind_eq_ok_iff.1 h
  cases h
  exact hr.define rfl hS

theorem finishInterface {draft : InterfaceType} (plain : draft.IsPlain) :
    Moves r (SynthM.finishInterface draft) := by
  refine ⟨fun s => runs_extend fun d R h => ?_⟩
  obtain ⟨S, hS, h⟩ := except_bind_eq_ok_iff.1 h
  cases h
  have named : (Entry.interfaceType draft).id = .ofName (Entry.interfaceType draft).name :=
    plain.id_eq
  exact hr.define named hS

theorem wrapper (o : Options) (name? : Option String) (as : List ArityHead) :
    Moves r (synthesizeWrapper o name? as) := by
  rw [synthesizeWrapper_eq]
  exact (hr.draftWrapper ..).bind fun _ => (hr.finish _).bind fun _ => .pure _

theorem record (o : Options) (head : RecordHead) (ms : List MethodHead) :
    Moves r (synthesizeRecord o head ms) := by
  rw [synthesizeRecord_eq]
  exact (hr.draftRecord ..).bind fun _ => (hr.finish _).bind fun _ => .pure _

theorem object (o : Options) (head : ObjectHead) (ms : List MethodHead) :
    Moves r (synthesizeObject o head ms) := by
  rw [synthesizeObject_eq]
  exact (hr.draftObject ..).bind fun _ => (hr.finish _).bind fun _ => .pure _

theorem interface (o : Options) (head : InterfaceHead) :
    Moves r (synthesizeInterface o head) := by
  rw [synthesizeInterface_eq]
  exact (hr.draftInterface ..).bind_of plain_draftInterface fun _ => hr.finishInterface

end Session.Respected

end TypeSynthesis
