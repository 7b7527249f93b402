import TypeSynthesis.Proofs.Idempotence.Basic
import TypeSynthesis.Proofs.Registry.Readings
import TypeSynthesis.Proofs.Synthesis.Supertypes

/-!
# The outcome of a generated interface

The methods of a generated interface may mention the interface itself, by its short name or by its
full name.  It is registered once all of them have been declared.

* `Text.Mentions`: the written names that mention the interface;
* `MethodDecl.Declares`: a declared method has the written name and the types that its names denote;
* `declareMethods_eq_ok`, `exists_declareMethods`: the methods are declared in order, each of their
  names being resolved where the ones before it have led;
* `synthesizeInterface_declares`: where the finished interface makes type names of all written
  names, it is registered with what these names denote then.

While the interface is under construction, a name is compared with the two names of the interface as
it is written.  A mention with blanks or marks is therefore left to the registry, which does not
know the interface yet.
-/

namespace TypeSynthesis

open Registry

/-! ### Written names -/

/-- The text, or its base, is the short or the full name of an interface. -/
def Text.Mentions (short full text : String) : Prop :=
  text = short ∨ text = full ∨ base text = short ∨ base text = full

instance (short full text : String) : Decidable (Text.Mentions short full text) :=
  inferInstanceAs (Decidable (_ ∨ _ ∨ _ ∨ _))

/-- The type names of a declared method. -/
def MethodDecl.written (d : MethodDecl) : List TypeName := d.result :: d.params

/-- The type names that the methods of an interface are written with. -/
def InterfaceHead.written (head : InterfaceHead) : List TypeName :=
  head.methods.flatMap MethodDecl.written

/-- What a written name denotes where the name `short` stands for the name `full`. -/
def Registry.Reads (R : Registry) (short full : String) (name : TypeName) (t : TypeRef) : Prop :=
  (R.resolve (Text.expand short full name.text)).1 = some t

/-- The abstract method of a declaration, with what its type names denote. -/
structure MethodDecl.Declares (denotes : TypeName → TypeRef → Prop) (d : MethodDecl)
    (m : Signature) : Prop where
  name : m.name = d.name
  params : List.Forall₂ denotes d.params m.params
  result : denotes d.result m.result
  attributes : m.attributes = .interface

theorem MethodDecl.Declares.imp {P Q : TypeName → TypeRef → Prop} {d : MethodDecl} {m : Signature}
    (h : d.Declares P m) (imp : ∀ n ∈ d.written, ∀ t, P n t → Q n t) : d.Declares Q m where
  name := h.name
  params := by
    have here : ∀ n ∈ d.params, n ∈ d.written := fun n => List.mem_cons_of_mem d.result
    exact ((List.forall₂_and_left _ _).2 ⟨here, h.params⟩).imp fun n t hn => imp n hn.1 t hn.2
  result := imp d.result List.mem_cons_self _ h.result
  attributes := h.attributes

/-- The interface is the one of a declaration over the types `bases`, where the written names are
read in the registry `R`. -/
structure InterfaceType.IsDeclaredBy (i : InterfaceType) (R : Registry) (head : InterfaceHead)
    (full : String) (bases : List TypeId) : Prop where
  name : i.name = full
  origin : i.origin = .synthesized
  bases : i.bases = bases
  methods : List.Forall₂ (MethodDecl.Declares (R.Reads head.name full)) head.methods i.methods

/-! ### Declared methods -/

namespace SynthM

variable {construct short : String} {draft draft' : InterfaceType} {s t : Session}

/-- A name denotes a type of the interface under construction at some point of a run. -/
def Within (construct short : String) (draft : InterfaceType) (s t : Session) (name : TypeName)
    (type : TypeRef) : Prop :=
  ∃ u v, s.registry.Grows u.registry ∧ resolveWithin construct short draft name u = .ok type v ∧
    v.registry.Grows t.registry

theorem Within.mono {s' t' : Session} {name : TypeName} {type : TypeRef}
    (h : Within construct short draft s t name type) (before : s'.registry.Grows s.registry)
    (after : t.registry.Grows t'.registry) : Within construct short draft s' t' name type := by
  obtain ⟨u, v, hu, denotes, hv⟩ := h
  exact ⟨u, v, before.trans hu, denotes, hv.trans after⟩

/-- One method is declared after those that the draft has. -/
theorem declareMethod_eq_ok {d : MethodDecl}
    (h : declareMethod construct short draft d s = .ok draft' t) :
    ∃ m : Signature, draft' = { draft with methods := draft.methods ++ [m] } ∧
      d.Declares (Within construct short draft s t) m := by
  have grows := Session.grows_respected
  obtain ⟨params, u, hparams, h⟩ := bind_eq_ok_iff.1 h
  obtain ⟨result, v, hresult, h⟩ := bind_eq_ok_iff.1 h
  obtain ⟨rfl, rfl⟩ := pure_eq_ok_iff.1 h
  have toResult : s.registry.Grows u.registry :=
    (Moves.mapM (grows.within construct short draft) _).of_ok hparams
  have onwards : u.registry.Grows v.registry := (grows.within ..).of_ok hresult
  refine ⟨_, rfl, rfl, ?_, ⟨u, v, toResult, hresult, .refl⟩, rfl⟩
  refine (Moves.forall₂_mapM (grows.within construct short draft) hparams).imp ?_
  rintro n type ⟨u', v', before, denotes, after⟩
  exact ⟨u', v', before, denotes, after.trans onwards⟩

/-- The methods are declared in order. -/
theorem declareMethods_eq_ok {ds : List MethodDecl}
    (h : ds.foldlM (declareMethod construct short) draft s = .ok draft' t) :
    ∃ ms, draft' = { draft with methods := draft.methods ++ ms } ∧
      List.Forall₂ (MethodDecl.Declares (Within construct short draft s t)) ds ms := by
  induction ds generalizing draft s with
  | nil =>
    obtain ⟨rfl, rfl⟩ := pure_eq_ok_iff.1 h
    exact ⟨[], by rw [List.append_nil], .nil⟩
  | cons d ds ih =>
    have grows := Session.grows_respected
    rw [List.foldlM_cons] at h
    obtain ⟨draft₁, u, here, h⟩ := bind_eq_ok_iff.1 h
    have toRest : s.registry.Grows u.registry := (grows.declaredMethod ..).of_ok here
    have onwards : u.registry.Grows t.registry :=
      (Moves.foldlM (grows.declaredMethod construct short) ds draft₁).of_ok h
    obtain ⟨m, rfl, first⟩ := declareMethod_eq_ok here
    obtain ⟨ms, rfl, rest⟩ := ih h
    refine ⟨m :: ms, by rw [List.append_assoc, List.singleton_append], .cons ?_ ?_⟩
    · exact first.imp fun n _ type hn => hn.mono .refl onwards
    · exact rest.imp fun d m hd => hd.imp fun n _ type hn => hn.mono toRest .refl

/-- Where each of their names denotes a type from now on, all methods are declared. -/
theorem exists_declareMethods {ds : List MethodDecl}
    (total : ∀ d ∈ ds, ∀ n ∈ d.written, ∀ u : Session, s.registry.Grows u.registry →
      ∃ type v, resolveWithin construct short draft n u = .ok type v) :
    ∃ draft' t, ds.foldlM (declareMethod construct short) draft s = .ok draft' t := by
  induction ds generalizing draft s with
  | nil => exact ⟨draft, s, rfl⟩
  | cons d ds ih =>
    have grows := Session.grows_respected
    obtain ⟨here, later⟩ := List.forall_mem_cons.1 total
    obtain ⟨result, params⟩ := List.forall_mem_cons.1 here
    obtain ⟨types, u, hparams⟩ :=
      Moves.exists_mapM_eq_ok (grows.within construct short draft) params
    have toResult : s.registry.Grows u.registry :=
      (Moves.mapM (grows.within construct short draft) _).of_ok hparams
    obtain ⟨type, v, hresult⟩ := result u toResult
    have declared : declareMethod construct short draft d s =
        .ok (draft.declare d.name type types) v := by
      unfold declareMethod
      rw [bind_run_ok hparams, bind_run_ok hresult]
      rfl
    have toRest : s.registry.Grows v.registry := (grows.declaredMethod ..).of_ok declared
    rw [List.foldlM_cons, bind_run_ok declared]
    exact ih fun d hd n hn w hw => later d hd n hn w (toRest.trans hw)

/-! ### Mentions of the interface -/

section Mentions

variable {full : String} {name : TypeName} {type : TypeRef} {u v : Session} {R last : Registry}

/-- Where mentions of the interface are bare, no other name has one of its names as a base. -/
theorem base_ne_of_not_mentioned {text : String}
    (exact : Text.Mentions short full text → Spelling.Bare text)
    (other : ¬ (text = short ∨ text = full)) : Text.base text ≠ short ∧ Text.base text ≠ full := by
  have bare (h : Text.Mentions short full text) : Text.base text = text :=
    Text.base_of_bare (exact h)
  constructor
  · intro same
    exact other (.inl ((bare (.inr (.inr (.inl same)))).symm.trans same))
  · intro same
    exact other (.inr ((bare (.inr (.inr (.inr same)))).symm.trans same))

/-- What is a type name once the interface is registered denotes a type while it is under
construction. -/
theorem exists_resolveWithin {e : Entry} (new : e.name = draft.name)
    (exact : Text.Mentions short draft.name name.text → Spelling.Bare name.text)
    (found : ((R.add e).resolve (Text.expand short draft.name name.text)).1.isSome = true)
    (grows : R.Grows u.registry) :
    ∃ type v, resolveWithin construct short draft name u = .ok type v := by
  unfold resolveWithin
  by_cases own : name.text = short ∨ name.text = draft.name
  · rw [if_pos (by simpa using own)]
    exact ⟨_, u, rfl⟩
  · obtain ⟨notShort, notFull⟩ := base_ne_of_not_mentioned exact own
    rw [if_neg (by simpa using own)]
    rw [Text.expand_of_base_ne notShort] at found
    have denotes : (u.registry.resolve name.text).1.isSome = true := by
      refine isSome_resolve_of_base (fun listed => containsName_of_grows grows ?_) found
      rwa [containsName_add, new, beq_false_of_ne notFull, Bool.false_or] at listed
    obtain ⟨type, denotes⟩ := Option.isSome_iff_exists.1 denotes
    have resolved : u.registry.resolve name.text = (some type, (u.registry.resolve name.text).2) :=
      Prod.ext denotes rfl
    refine ⟨type, u.withRegistry (u.registry.resolve name.text).2, ?_⟩
    unfold resolveTypeName
    rw [resolved]
    rfl

/-- What a name denotes while the interface is under construction, it denotes in the end. -/
theorem reads_of_resolveWithin (sound : u.registry.Sound)
    (h : resolveWithin construct short draft name u = .ok type v) (grows : v.registry.Grows last)
    (distinct : last.Distinct) (named : last.WellNamed)
    (listed : last.names.get? draft.name = some draft.id)
    (exact : Text.Mentions short draft.name name.text →
      Spelling.Bare name.text ∧ Spelling.Bare draft.name) :
    last.Reads short draft.name name type := by
  unfold resolveWithin at h
  unfold Registry.Reads
  by_cases own : name.text = short ∨ name.text = draft.name
  · have mentioned : Text.Mentions short draft.name name.text := own.imp id Or.inl
    obtain ⟨bare, bareName⟩ := exact mentioned
    rw [if_pos (by simpa using own)] at h
    obtain ⟨rfl, -⟩ := pure_eq_ok_iff.1 h
    rw [Text.expand_of_bare bare own, last.resolve_bare bareName, listed]
    rfl
  · obtain ⟨notShort, -⟩ := base_ne_of_not_mentioned (fun h => (exact h).1) own
    rw [if_neg (by simpa using own)] at h
    rw [Text.expand_of_base_ne notShort,
      resolve_again sound (resolve_of_resolveTypeName h) grows distinct named]

end Mentions

/-! ### The outcome -/

theorem beginInterface_eq_ok {R : Registry} {name : String} {is : List TypeId}
    (free : R.containsName name = false) (his : ∀ i ∈ is, R.isInterface i = true) :
    R.beginInterface name is = .ok { name, origin := .synthesized, bases := is } := by
  have hname : R.checkName name = .ok () := by
    unfold checkName
    rw [free]
    rfl
  unfold beginInterface
  rw [hname, checkInterfaces_eq_ok his]
  rfl

variable {o : Options} {head : InterfaceHead} {bases : List TypeId}

/-- A generated interface whose name is free and whose bases are interfaces declares what is
written: where every written name is a type name once the interface is registered, the short name
standing for the full one, it is registered with the declared methods in order, each with the types
that its names denote then.  It is assumed that the interface is mentioned without blanks and marks,
that its full name does not end in a star, and that no two names share an identity in the end. -/
theorem synthesizeInterface_declares (built : s.registry.Built)
    (free : s.registry.containsName (o.qualify head.name) = false)
    (starless : (o.qualify head.name).toList.getLast? ≠ some '*')
    (extended : head.bases.mapM (resolveInterface ("gen-interface " ++ head.name)) s = .ok bases t)
    (exact : ∀ n ∈ head.written, Text.Mentions head.name (o.qualify head.name) n.text →
      Spelling.Bare n.text ∧ Spelling.Bare (o.qualify head.name))
    (found : ∀ n ∈ head.written, ((s.registry.add (.interfaceType { name := o.qualify head.name })
      ).resolve (Text.expand head.name (o.qualify head.name) n.text)).1.isSome = true)
    (apart : ((endState (draftInterface o head s)).registry.add
      (.interfaceType { name := o.qualify head.name })).Distinct) :
    ∃ i u, synthesizeInterface o head s =
        .ok ⟨o.qualify head.name, .ofName (o.qualify head.name)⟩ u ∧
      u.registry.find? (o.qualify head.name) = some (.interfaceType i) ∧
      i.IsDeclaredBy u.registry head (o.qualify head.name) bases := by
  generalize hname : o.qualify head.name = name at *
  let start : InterfaceType := { name, origin := .synthesized, bases }
  have points := Session.points_pointing
  have toBases : s.registry.Points t.registry :=
    (Moves.mapM (points.interfaceName _) _).of_ok extended
  have onwards : t.registry.Points (endState (draftInterface o head s)).registry := by
    unfold draftInterface
    rw [bind_run_ok extended]
    refine Moves.run (r := Session.Points) ((moves_consult _).bind fun draft => ?_) t
    exact Moves.foldlM (points.declaredMethod _ _) _ draft
  have freeLast : (endState (draftInterface o head s)).registry.containsName name = false :=
    ((toBases.trans onwards).containsName_eq starless).trans free
  have distinct := apart.of_grows (Grows.refl.add freeLast)
  have begun : t.registry.beginInterface name bases = .ok start := by
    refine beginInterface_eq_ok ((toBases.containsName_eq starless).trans free) ?_
    exact isInterface_of_mapM built.sound extended (distinct.of_grows onwards.grows)
  obtain ⟨draft, u, declared⟩ : ∃ draft u, head.methods.foldlM
      (declareMethod ("gen-interface " ++ head.name) head.name) start t = .ok draft u := by
    refine exists_declareMethods fun d hd n hn v hv => ?_
    have mem : n ∈ head.written := List.mem_flatMap.2 ⟨d, hd, hn⟩
    exact exists_resolveWithin (e := .interfaceType { name }) rfl (fun h => (exact n mem h).1)
      (found n mem) (toBases.grows.trans hv)
  have drafted : draftInterface o head s = .ok draft u := by
    unfold draftInterface
    rw [bind_run_ok extended, hname, bind_run_ok (consult_eq_ok_iff.2 ⟨begun, rfl⟩)]
    exact declared
  rw [drafted] at apart freeLast onwards
  obtain ⟨ms, rfl, methods⟩ := declareMethods_eq_ok declared
  have sound : t.registry.Sound := built.sound.of_grows toBases.grows
  have soundLast : u.registry.Sound := sound.of_grows onwards.grows
  have idFree : u.registry.contains (.ofName name) = false :=
    soundLast.free_of_distinct (e := .interfaceType { name }) freeLast apart
  let i : InterfaceType := { start with methods := start.methods ++ ms }
  let last : Registry := u.registry.add (.interfaceType i)
  have finished : finishInterface i u = .ok ⟨name, .ofName name⟩ (u.withRegistry last) :=
    finishInterface_eq_ok freeLast idFree
  refine ⟨i, u.withRegistry last, ?_, ?_, rfl, rfl, rfl, ?_⟩
  · rw [synthesizeInterface_eq, bind_run_ok drafted]
    exact finished
  · refine find?_eq_some_iff.2 ⟨.ofName name, ?_, ?_⟩
    · exact (names_get?_add ..).trans (if_pos rfl)
    · exact (get?_add ..).trans (if_pos rfl)
  · have lastGrows : u.registry.Grows last := Grows.refl.add freeLast
    -- whether identities are distinct is seen from the names alone
    have lastDistinct : last.Distinct := fun _ _ _ hm hn => apart hm hn
    have registers : u.registry.register (.interfaceType i) = .ok last :=
      register_eq_ok_iff.2 ⟨freeLast, idFree, rfl⟩
    have lastNamed : last.WellNamed :=
      ((Session.keepsNames_respected.draftInterface o head).of_ok drafted
        built.wellNamed).of_register (.inl rfl) registers
    have listed : last.names.get? start.name = some start.id :=
      (names_get?_add ..).trans (if_pos rfl)
    refine ((List.forall₂_and_left _ _).2 ⟨fun d hd => hd, methods⟩).imp ?_
    rintro d m ⟨hd, hm⟩
    refine hm.imp fun n hn type denotes => ?_
    have mem : n ∈ head.written := List.mem_flatMap.2 ⟨d, hd, hn⟩
    obtain ⟨v, w, before, resolved, after⟩ := denotes
    show last.Reads head.name start.name n type
    exact reads_of_resolveWithin (sound.of_grows before) resolved (after.trans lastGrows)
      lastDistinct lastNamed listed (exact n mem)

/-- A chain of counts, with a method that takes a type written as `other`. -/
def chainHead (other : String) : InterfaceHead :=
  { name := "Chain", bases := [⟨"sable.lang.IObj", .unknown⟩]
    methods :=
      [{ name := "append", params := [⟨"int*", .unknown⟩, ⟨other, .unknown⟩],
         result := ⟨"Chain", .unknown⟩ },
       { name := "next", params := [], result := ⟨"sable.gen.Chain", .unknown⟩ }] }

theorem qualify_chainHead (other : String) :
    ({} : Options).qualify (chainHead other).name = "sable.gen.Chain" := by
  unfold Options.qualify
  exact if_neg (by decide)

/-- The bases of the chain are resolved on the registry of the host. -/
theorem exists_bases_chainHead (other : String) : ∃ bases, (chainHead other).bases.mapM
    (resolveInterface ("gen-interface " ++ (chainHead other).name)) { registry := .host } =
      .ok bases { registry := .host } ∧ bases = [.ofName "sable.lang.IObj"] := by
  have run : accepted (fun bases t =>
      decide (bases = [.ofName "sable.lang.IObj"] ∧ t = { registry := .host }))
      ([(⟨"sable.lang.IObj", .unknown⟩ : TypeName)].mapM
        (resolveInterface ("gen-interface " ++ "Chain")) { registry := .host }) = true := by
    decide +kernel
  obtain ⟨bases, t, run, same⟩ := exists_of_accepted run
  obtain ⟨rfl, rfl⟩ := of_decide_eq_true same
  exact ⟨_, run, rfl⟩

theorem synthesizeInterface_declares_chain :
    ∃ i u, synthesizeInterface {} (chainHead "sable.gen.Chain") { registry := .host } =
        .ok ⟨"sable.gen.Chain", .ofName "sable.gen.Chain"⟩ u ∧
      u.registry.find? "sable.gen.Chain" = some (.interfaceType i) ∧
      i.IsDeclaredBy u.registry (chainHead "sable.gen.Chain") "sable.gen.Chain"
        [.ofName "sable.lang.IObj"] := by
  have built : host.Built := built_of_mem_starts (by simp)
  obtain ⟨bases, extended, rfl⟩ := exists_bases_chainHead "sable.gen.Chain"
  have declares := synthesizeInterface_declares (o := {}) built (by decide +kernel)
    (by decide +kernel) extended (by decide +kernel) (by decide +kernel)
    (distinct_of_nodup (by decide +kernel))
  rwa [qualify_chainHead] at declares

/-- A method may take its own interface by reference only once the interface is registered. -/
theorem not_synthesizeInterface_declares :
    ¬ ∀ (o : Options) (head : InterfaceHead) (s t : Session) (bases : List TypeId),
      s.registry.Built → s.registry.containsName (o.qualify head.name) = false →
      (o.qualify head.name).toList.getLast? ≠ some '*' →
      head.bases.mapM (resolveInterface ("gen-interface " ++ head.name)) s = .ok bases t →
      (∀ n ∈ head.written, ((s.registry.add (.interfaceType { name := o.qualify head.name })
        ).resolve (Text.expand head.name (o.qualify head.name) n.text)).1.isSome = true) →
      ((endState (draftInterface o head s)).registry.add
        (.interfaceType { name := o.qualify head.name })).Distinct →
      ∃ d u, synthesizeInterface o head s = .ok d u := by
  intro h
  have built : host.Built := built_of_mem_starts (by simp)
  obtain ⟨bases, extended, -⟩ := exists_bases_chainHead "Chain&"
  obtain ⟨d, u, made⟩ := h {} (chainHead "Chain&") { registry := .host } _ bases built
    (by decide +kernel) (by decide +kernel) extended (by decide +kernel)
    (distinct_of_nodup (by decide +kernel))
  have refused : accepted (fun _ _ => true)
      (synthesizeInterface {} (chainHead "Chain&") { registry := .host }) = false := by
    decide +kernel
  rw [made] at refused
  cases refused

end SynthM

end TypeSynthesis
