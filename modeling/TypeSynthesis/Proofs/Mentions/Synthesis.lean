import TypeSynthesis.Proofs.Mentions.Basic
import TypeSynthesis.Proofs.Registry.Growth

/-!
# Synthesis keeps registries grounded

A draft mentions what written names denote, which is registered, and takes over signatures from the
types above it, which are grounded.  So every synthesis adds definitions that are ready.

* `Signature.Known`: a signature that a type under some supertypes may take over;
* `Entry.Drafted`: a definition under construction, with nothing in it that is not registered but
  itself and what its supertypes lend;
* `Secures first s x Q`: from the session `s` the computation `x` lets the registry grow, keeps it
  grounded, and gives results that satisfy `Q` at the registry where it ends;
* `kept_grounded`: every synthesis that resolution asks for keeps a registry grounded.
-/

namespace TypeSynthesis

open Relation Registry SynthM

variable {first R S : Registry} {t u : TypeId} {supers : List TypeId} {m : Signature}

/-! ### Signatures from above -/

/-- The types in the signature are registered, or lent by one of the supertypes. -/
def Signature.Known (first R : Registry) (supers : List TypeId) (m : Signature) : Prop :=
  ∀ u ∈ m.types, R.contains u = true ∨ Lends first R supers u

theorem Signature.Known.mono (h : m.Known first R supers) (grows : R.Grows S) :
    m.Known first S supers :=
  fun u hu => (h u hu).imp (contains_of_grows grows) fun lends => lends.mono grows

namespace Registry.Grounded

variable (h : Grounded first R)
include h

/-- The methods of a type at or above one of the supertypes. -/
theorem known_of_above {e : Entry} (ht : t ∈ supers) (above : ReflTransGen R.Above t u)
    (he : R.get? u = some e) (hm : m ∈ e.methods) : m.Known first R supers := by
  intro v hv
  refine (h.signatures he v (List.mem_flatMap.2 ⟨m, hm, hv⟩)).imp_right ?_
  rintro ⟨n, under, param⟩
  -- the path from the supertype to the type goes on to the invoker definition
  obtain ⟨e', he', below⟩ := exists_under_of_above h.grows above he
  exact ⟨R, t, e', ⟨h.grows, .refl⟩, ht, he', n, below.trans under, param⟩

theorem known_of_mem_methodsOf (ht : t ∈ supers) (hm : m ∈ R.methodsOf t) :
    m.Known first R supers := by
  unfold methodsOf at hm
  split at hm
  · obtain ⟨c, hc, hm⟩ := List.mem_flatMap.1 (mem_of_mem_firstPerSlot hm)
    obtain ⟨u, hu, hc⟩ := List.mem_filterMap.1 hc
    have above : ReflTransGen R.Above t u := by
      rcases List.mem_cons.1 hu with rfl | hu
      · exact .refl
      · exact (above_of_mem_ancestors hu).to_reflTransGen
    exact h.known_of_above ht above (get?_of_class? hc) (List.mem_filter.1 hm).1
  · rename_i i hi
    exact h.known_of_above (e := .interfaceType i) ht .refl hi hm
  · cases hm

theorem known_of_mem_interfaceMethods (ht : t ∈ supers) (hm : m ∈ R.interfaceMethods t) :
    m.Known first R supers := by
  obtain ⟨i, hi, hm⟩ := List.mem_flatMap.1 (mem_of_mem_firstPerSlot hm)
  obtain ⟨u, hu, hi⟩ := List.mem_filterMap.1 hi
  have above : ReflTransGen R.Above t u := by
    rcases List.mem_cons.1 hu with rfl | hu
    · exact .refl
    · exact (above_of_mem_allInterfaces hu).to_reflTransGen
  exact h.known_of_above ht above (get?_of_interface? hi) hm

/-- What a new type may implement, it may take over. -/
theorem known_of_mem_collect {base : TypeId} {interfaces : List TypeId}
    (within : base :: interfaces ⊆ supers)
    (hm : m ∈ (Candidates.collect R base interfaces).signatures) : m.Known first R supers := by
  rcases List.mem_append.1 hm with hm | hm
  · exact h.known_of_mem_methodsOf (within List.mem_cons_self) (List.mem_filter.1 hm).1
  · obtain ⟨i, hi, hm⟩ := List.mem_flatMap.1 hm
    exact h.known_of_mem_interfaceMethods (within (List.mem_cons_of_mem _ hi)) hm

end Registry.Grounded

/-! ### Drafts -/

/-- A definition under construction.  It mentions registered types, itself, and in its signatures
what its supertypes lend. -/
structure Entry.Drafted (first R : Registry) (supers : List TypeId) (e : Entry) : Prop where
  above : e.supertypes = supers
  references : ∀ u ∈ e.references, R.contains u = true ∨ u = e.id
  signatures : ∀ u ∈ e.signatureTypes, R.contains u = true ∨ u = e.id ∨ Lends first R supers u

namespace Entry.Drafted

variable {e : Entry} {c : ClassType}

theorem mono (h : e.Drafted first R supers) (grows : R.Grows S) : e.Drafted first S supers where
  above := h.above
  references u hu := (h.references u hu).imp_left (contains_of_grows grows)
  signatures u hu :=
    (h.signatures u hu).imp (contains_of_grows grows) (.imp_right fun lends => lends.mono grows)

/-- A draft that is begun mentions its supertypes only. -/
theorem of_supports (supports : R.Supports e) (fields : e.fields = []) (methods : e.methods = []) :
    e.Drafted first R e.supertypes where
  above := rfl
  references u hu := by
    rw [Entry.references, fields, methods, List.mem_append] at hu
    exact .inl (supports.known u (hu.resolve_right nofun))
  signatures u hu := by
    rw [Entry.signatureTypes, methods] at hu
    cases hu

/-- One more method of a draft, which belongs to it. -/
theorem method {e' : Entry} (h : e.Drafted first R supers) (id : e'.id = e.id)
    (above : e'.supertypes = e.supertypes) (fields : e'.fields = e.fields)
    (methods : e'.methods = e.methods ++ [m.declaredBy e.id])
    (known : ∀ u ∈ m.types, R.contains u = true ∨ u = e.id ∨ Lends first R supers u) :
    e'.Drafted first R supers where
  above := above.trans h.above
  references u hu := by
    rw [id]
    rw [Entry.references, above, fields, methods, List.map_append, ← List.append_assoc,
      ← List.append_assoc, List.append_assoc e.supertypes] at hu
    rcases List.mem_append.1 hu with hu | hu
    · exact h.references u hu
    · exact .inr (List.mem_singleton.1 hu)
  signatures u hu := by
    rw [id]
    rw [Entry.signatureTypes, methods, List.flatMap_append, List.mem_append,
      List.flatMap_singleton] at hu
    exact hu.elim (h.signatures u) (known u)

theorem declare (h : (Entry.classType c).Drafted first R supers) {result : TypeRef}
    {params : List TypeRef}
    (known : ∀ t ∈ result :: params, R.contains t.id = true ∨ Lends first R supers t.id)
    (name : String) (attributes : MethodAttributes) :
    (Entry.classType (c.declare name attributes result params)).Drafted first R supers := by
  refine h.method rfl rfl rfl rfl fun u hu => ?_
  have hu : u ∈ (result :: params).map (·.id) := hu
  obtain ⟨t, ht, rfl⟩ := List.mem_map.1 hu
  exact (known t ht).imp_right .inr

/-- The methods of another type, declared under other names. -/
theorem declareAll (h : (Entry.classType c).Drafted first R supers) {ms : List Signature}
    (known : ∀ m ∈ ms, m.Known first R supers) (rename : Signature → String)
    (attributes : MethodAttributes) :
    (Entry.classType (ms.foldl (fun d m => d.declare (rename m) attributes m.result m.params)
      c)).Drafted first R supers := by
  induction ms generalizing c with
  | nil => exact h
  | cons m ms ih =>
    refine ih (h.declare (fun t ht => ?_) _ _) fun m' hm' => known m' (List.mem_cons_of_mem _ hm')
    exact known m List.mem_cons_self t.id (List.mem_map_of_mem (f := (·.id)) ht)

theorem withField (h : (Entry.classType c).Drafted first R supers) {f : Field}
    (known : R.contains f.type.id = true) :
    (Entry.classType (c.withField f)).Drafted first R supers where
  above := h.above
  references u hu := by
    have hu : u ∈ (Entry.classType c).supertypes ++
        ((c.fields ++ [f]).map (·.type.id) ++ c.methods.map Signature.declaring) := hu
    rw [List.map_append, List.append_assoc, List.mem_append, List.mem_append, List.mem_append] at hu
    rcases hu with hu | hu | hu | hu
    · exact h.references u (List.mem_append_left _ hu)
    · exact h.references u (List.mem_append_right _ (List.mem_append_left _ hu))
    · rw [List.mem_singleton.1 hu]
      exact .inl known
    · exact h.references u (List.mem_append_right _ (List.mem_append_right _ hu))
  signatures := h.signatures

theorem ready (h : e.Drafted first R supers) (named : e.WellNamed) (tame : e.Tame) :
    Ready first R e where
  named := named
  tame := tame
  references := h.references
  signatures u hu :=
    (h.signatures u hu).imp_right (.imp_right fun lends => (h.above ▸ lends).borrows)

end Entry.Drafted

theorem subset_withInterfaces (c : ClassType) (is : List TypeId) :
    c.interfaces ++ is ⊆ (is.foldl ClassType.withInterface c).interfaces := by
  induction is generalizing c with
  | nil => rw [List.append_nil]; exact List.Subset.refl _
  | cons i is ih =>
    intro t ht
    refine ih (c.withInterface i) ?_
    rw [List.mem_append, List.mem_cons] at ht
    rw [List.mem_append]
    unfold ClassType.withInterface
    split
    · rename_i known
      rcases ht with ht | rfl | ht
      exacts [.inl ht, .inl known, .inr ht]
    · rcases ht with ht | rfl | ht
      exacts [.inl (List.mem_append_left _ ht), .inl (by simp), .inr ht]

/-- A class that is begun has the base and the interfaces above it, and nothing in it yet. -/
theorem drafted_of_beginClass {name : String} {base : TypeId} {is : List TypeId} {c : ClassType}
    (h : R.beginClass name base is = .ok c) :
    (Entry.classType c).Drafted first R (Entry.classType c).supertypes ∧
      base :: is ⊆ (Entry.classType c).supertypes := by
  have noFields : c.fields = [] := List.map_eq_nil_iff.1 (isRecord_beginClass h).fields_eq
  refine ⟨.of_supports (supports_of_beginClass h) noFields (methods_beginClass h), ?_⟩
  rw [eq_of_beginClass h]
  let start : ClassType := { name, origin := .synthesized, base? := some base }
  refine List.cons_subset.2 ⟨List.mem_append_left _ ?_, fun i hi => List.mem_append_right _ ?_⟩
  · rw [(withInterfaces_subset start is).2]
    exact List.mem_singleton_self base
  · exact subset_withInterfaces start is hi

theorem drafted_of_beginInterface {name : String} {bases : List TypeId} {i : InterfaceType}
    (h : R.beginInterface name bases = .ok i) :
    (Entry.interfaceType i).Drafted first R bases := by
  have supports := supports_of_beginInterface h
  obtain ⟨-, -, h⟩ := except_bind_eq_ok_iff.1 h
  obtain ⟨-, -, h⟩ := except_bind_eq_ok_iff.1 h
  cases h
  exact .of_supports supports rfl rfl

/-! ### Computations on grounded registries -/

/-- The registry has grown since the first session, and it is grounded. -/
structure Session.Follows (first : Registry) (s t : Session) : Prop where
  grows : s.registry.Grows t.registry
  grounded : first.Grounded t.registry

theorem Session.Follows.trans {s t u : Session} (h : s.Follows first t) (h' : t.Follows first u) :
    s.Follows first u :=
  ⟨h.grows.trans h'.grows, h'.grounded⟩

/-- Whatever becomes of the computation, the registry has grown and is grounded, and a result
satisfies `Q` at the registry where it is obtained. -/
structure Secures {α : Type} (first : Registry) (s : Session) (x : SynthM α)
    (Q : α → Registry → Prop) : Prop where
  follows : s.Follows first (endState (x s))
  result {a : α} {t : Session} (ok : x s = .ok a t) : Q a t.registry

namespace Secures

variable {α β : Type} {s : Session} {P : α → Registry → Prop} {Q : β → Registry → Prop}

theorem of_ok {x : SynthM α} (h : Secures first s x P) {a : α} {t : Session} (ok : x s = .ok a t) :
    s.Follows first t := by
  have := h.follows
  rwa [ok] at this

theorem imp {T : α → Registry → Prop} {x : SynthM α} (h : Secures first s x P)
    (imp : ∀ {a t}, x s = .ok a t → s.Follows first t → P a t.registry → T a t.registry) :
    Secures first s x T where
  follows := h.follows
  result ok := imp ok (h.of_ok ok) (h.result ok)

theorem pure (grounded : first.Grounded s.registry) {a : α} (h : P a s.registry) :
    Secures first s (Pure.pure a) P where
  follows := ⟨.refl, grounded⟩
  result ok := by
    obtain ⟨rfl, rfl⟩ := pure_eq_ok_iff.1 ok
    exact h

theorem throw (grounded : first.Grounded s.registry) (e : CompilationError) :
    Secures first s (throw e) P where
  follows := ⟨.refl, grounded⟩
  result ok := absurd ok throw_ne_ok

theorem ofExcept (grounded : first.Grounded s.registry) {x : Except CompilationError α}
    (h : ∀ a, x = .ok a → P a s.registry) : Secures first s (ofExcept x) P := by
  cases x with
  | ok a => exact pure grounded (h a rfl)
  | error e => exact throw grounded e

theorem registry (grounded : first.Grounded s.registry) :
    Secures first s registry fun R S => R = S where
  follows := ⟨.refl, grounded⟩
  result ok := by cases ok; rfl

/-- A question is answered at the registry as it is. -/
theorem consult (grounded : first.Grounded s.registry)
    (f : Registry → Except RegistrationError α) :
    Secures first s (consult f) fun a R => f R = .ok a where
  follows := by
    unfold SynthM.consult
    split <;> exact ⟨.refl, grounded⟩
  result ok := by
    obtain ⟨answer, rfl⟩ := consult_eq_ok_iff.1 ok
    exact answer

theorem extend (grounded : first.Grounded s.registry)
    {f : Registry → Except RegistrationError (α × Registry)}
    (h : ∀ {a R}, f s.registry = .ok (a, R) →
      s.registry.Grows R ∧ first.Grounded R ∧ P a R) : Secures first s (extend f) P where
  follows := by
    unfold SynthM.extend
    split
    · obtain ⟨grows, grounded, -⟩ := h ‹_›
      exact ⟨grows, grounded⟩
    · exact ⟨.refl, grounded⟩
  result ok := (h (extend_eq_ok ok)).2.2

/-- The rest starts from what the first step secures. -/
theorem bind {x : SynthM α} {f : α → SynthM β} (hx : Secures first s x P)
    (hf : ∀ {a t}, s.Follows first t → P a t.registry → Secures first t (f a) Q) :
    Secures first s (x >>= f) Q where
  follows := by
    cases hs : x s with
    | ok a t =>
      rw [bind_run_ok hs]
      exact (hx.of_ok hs).trans (hf (hx.of_ok hs) (hx.result hs)).follows
    | error e t =>
      -- the rest is not run
      rw [bind_run_error hs]
      have := hx.follows
      rwa [hs] at this
  result ok := by
    obtain ⟨a, t, hs, ok⟩ := bind_eq_ok_iff.1 ok
    exact (hf (hx.of_ok hs) (hx.result hs)).result ok

/-- What one result satisfies, and keeps satisfying as the registry grows, all results of a loop
satisfy. -/
theorem mapM (grounded : first.Grounded s.registry) {f : α → SynthM β}
    (mono : ∀ {b R S}, R.Grows S → Q b R → Q b S)
    (hf : ∀ a {t}, s.Follows first t → Secures first t (f a) Q) (l : List α) :
    Secures first s (l.mapM f) fun bs R => ∀ b ∈ bs, Q b R := by
  induction l generalizing s with
  | nil =>
    rw [List.mapM_nil]
    exact pure grounded nofun
  | cons a l ih =>
    rw [List.mapM_cons]
    refine (hf a ⟨.refl, grounded⟩).bind fun {b t} now hb => ?_
    refine (ih now.grounded fun a _ later => hf a (now.trans later)).bind
      fun {bs u} rest hbs => ?_
    exact pure rest.grounded (List.forall_mem_cons.2 ⟨mono rest.grows hb, hbs⟩)

/-- What every step of a loop keeps holds in the end. -/
theorem foldlM (grounded : first.Grounded s.registry) {f : β → α → SynthM β} {l : List α} {b : β}
    (start : Q b s.registry)
    (step : ∀ {b a t}, a ∈ l → s.Follows first t → Q b t.registry → Secures first t (f b a) Q) :
    Secures first s (l.foldlM f b) Q := by
  induction l generalizing b s with
  | nil => exact pure grounded start
  | cons a l ih =>
    rw [List.foldlM_cons]
    refine (step List.mem_cons_self ⟨.refl, grounded⟩ start).bind fun {b t} now hb => ?_
    exact ih now.grounded hb fun ha later => step (List.mem_cons_of_mem _ ha)
      (now.trans later)

end Secures

namespace Registry.Grounded

variable {s : Session} (h : first.Grounded s.registry)
include h

/-! ### Names -/

theorem follows_resolve (text : String) :
    s.Follows first (s.withRegistry (s.registry.resolve text).2) where
  grows := Session.grows_respected.resolveReversed text.toList.reverse s
  grounded := h.resolveReversed text.toList.reverse

/-- What a written name denotes is registered. -/
theorem typeName (construct : String) (name : TypeName) :
    Secures first s (resolveTypeName construct name) fun t R => R.contains t.id = true where
  follows := by
    have follows := h.follows_resolve name.text
    unfold resolveTypeName
    revert follows
    rcases s.registry.resolve name.text with ⟨_ | t, R⟩ <;> exact id
  result ok := h.contains_of_resolveReversed (resolve_of_resolveTypeName ok)

theorem hint (construct : String) (hint? : Option TypeName) :
    Secures first s (resolveHint construct hint?) fun t R => R.contains t.id = true := by
  cases hint? with
  | some name => exact h.typeName construct name
  | none => exact .pure h h.root

theorem interfaceNames (construct : String) (names : List TypeName) :
    Secures first s (names.mapM (resolveInterface construct)) fun _ _ => True := by
  have one (name : TypeName) {t : Session} (g : s.Follows first t) :
      Secures first t (resolveInterface construct name) fun _ _ => True := by
    refine (g.grounded.typeName construct name).bind fun g₁ _ => ?_
    refine (Secures.registry g₁.grounded).bind fun g₂ _ => ?_
    split
    · exact .throw g₂.grounded _
    · exact .pure g₂.grounded trivial
  exact (Secures.mapM h (fun _ => id) one names).imp fun _ _ _ => trivial

theorem freshName (o : Options) (stem : String) :
    Secures first s (SynthM.freshName o stem) fun _ _ => True where
  follows := by
    unfold SynthM.freshName
    split <;> exact ⟨.refl, h⟩
  result _ := trivial

/-! ### Function wrappers -/

theorem askInvoker (n : Nat) : Secures first s (SynthM.extend (·.invoker n)) fun _ _ => True :=
  .extend h fun asked => ⟨grows_of_invoker asked, h.invoker asked, trivial⟩

theorem invokerAt {types : List TypeRef} (known : ∀ t ∈ types, s.registry.contains t.id = true)
    (definition : TypeId) :
    Secures first s (SynthM.invokerAt definition types) fun _ _ => True :=
  .extend h fun made => ⟨grows_of_instantiate made, h.instantiate known made, trivial⟩

theorem arity (o : Options) (construct : String) (invokers : List TypeId) (a : ArityHead) :
    Secures first s (resolveArity o construct invokers a) fun _ _ => True := by
  have check : Secures first s (checkArity o construct a.params.length) fun _ _ => True := by
    unfold checkArity
    split
    · exact .throw h _
    · exact .pure h trivial
  refine check.bind fun {_ s₁} g₁ _ => ?_
  have params : Secures first s₁ (a.params.mapM (resolveParam construct))
      fun ps R => ∀ p ∈ ps, ∀ t, p.type? = some t → R.contains t.id = true := by
    refine .mapM g₁.grounded
      (fun grows hp t ht => contains_of_grows grows (hp t ht)) (fun p t g => ?_) _
    refine (g.grounded.hint ..).bind fun {t u} g' ht => .pure g'.grounded ?_
    rintro _ ⟨⟩
    exact ht
  refine params.bind fun {ps s₂} g₂ hps => ?_
  refine (g₂.grounded.hint ..).bind fun {result s₃} g₃ hresult => ?_
  refine (g₃.grounded.askInvoker _).bind fun {definition s₄} g₄ _ => ?_
  refine (g₄.grounded.invokerAt ?_ definition).bind fun {natural s₅} g₅ _ => ?_
  · -- the natural types are those of the parameters, then that of the result
    intro t ht
    rcases List.mem_append.1 ht with ht | ht
    · obtain ⟨p, hp, rfl⟩ := List.mem_map.1 ht
      cases htype : p.type? with
      | none => exact g₄.grounded.root
      | some type => exact contains_of_grows (g₃.grows.trans g₄.grows) (hps p hp type htype)
    · rw [List.mem_singleton.1 ht]
      exact contains_of_grows g₄.grows hresult
  refine (g₅.grounded.invokerAt ?_ definition).bind fun g₆ _ => .pure g₆.grounded trivial
  intro t ht
  rw [List.eq_of_mem_replicate ht]
  exact g₅.grounded.root

theorem arities (o : Options) (construct : String) (invokers : List TypeId)
    (as : List ArityHead) :
    Secures first s (SynthM.resolveArities o construct invokers as) fun _ _ => True := by
  induction as generalizing invokers s with
  | nil => exact .pure h trivial
  | cons a as ih =>
    refine (h.arity o construct invokers a).bind fun {r t} g _ => ?_
    exact (ih g.grounded r.1).bind fun g' _ => .pure g'.grounded trivial

/-- A wrapper takes over signatures of the invokers that it implements. -/
theorem declareInvoker {c : ClassType} {t : TypeId} (ht : t ∈ supers)
    (drafted : (Entry.classType c).Drafted first s.registry supers) :
    Secures first s (SynthM.declareInvoker c t)
      fun c R => (Entry.classType c).Drafted first R supers := by
  refine (Secures.registry h).bind fun {R u} g same => ?_
  subst same
  split
  · rename_i i hi
    refine .pure g.grounded ((drafted.mono g.grows).declareAll (fun m hm => ?_) _ _)
    exact g.grounded.known_of_above ht .refl (get?_of_interface? hi) (List.mem_filter.1 hm).1
  · exact .throw g.grounded _

theorem draftWrapper (o : Options) (name? : Option String) (as : List ArityHead) :
    Secures first s (SynthM.draftWrapper o name? as)
      fun r R => ∃ supers, (Entry.classType r.1).Drafted first R supers := by
  refine (h.arities ..).bind fun {r s₁} g₁ _ => ?_
  refine (g₁.grounded.freshName ..).bind fun {name s₂} g₂ _ => ?_
  refine (Secures.consult g₂.grounded _).bind fun {draft s₃} g₃ begun => ?_
  obtain ⟨drafted, within⟩ := drafted_of_beginClass begun
  have declared := Secures.foldlM
    (Q := fun c R => (Entry.classType c).Drafted first R (Entry.classType draft).supertypes)
    g₃.grounded drafted fun hi g hc =>
      g.grounded.declareInvoker (within (List.mem_cons_of_mem _ hi)) hc
  exact declared.bind fun g₄ hc => .pure g₄.grounded ⟨_, hc⟩

/-! ### Classes that implement methods -/

theorem method (construct : String) (candidates : Candidates) (m : MethodHead) :
    Secures first s (resolveMethod construct candidates m)
      fun sig _ => sig ∈ candidates.signatures := by
  have args : Secures first s (m.params.mapM fun p => resolveHint construct p.hint?)
      fun _ _ => True :=
    (Secures.mapM (Q := fun t R => R.contains t.id = true) h contains_of_grows
      (fun p t g => g.grounded.hint construct p.hint?) _).imp fun _ _ _ => trivial
  refine args.bind fun {ts s₁} g₁ _ => ?_
  refine (Secures.registry g₁.grounded).bind fun {R s₂} g₂ _ => ?_
  split
  · rename_i sig selected
    exact .pure g₂.grounded (Candidates.mem_of_mem_named (mem_of_select? selected).1).1
  · exact .throw g₂.grounded _

/-- Supplied methods have the signatures of candidates. -/
theorem methods {candidates : Candidates} {c : ClassType}
    (known : ∀ m ∈ candidates.signatures, m.Known first s.registry supers)
    (drafted : (Entry.classType c).Drafted first s.registry supers) (construct : String)
    (ms : List MethodHead) :
    Secures first s (implementAll construct candidates c ms)
      fun r R => (Entry.classType r.1).Drafted first R supers := by
  induction ms generalizing c s with
  | nil => exact .pure h drafted
  | cons m ms ih =>
    refine (h.method construct candidates m).bind fun {sig t} g hsig => ?_
    -- the candidates were collected before, and the registry may have grown since
    have known' (m) (hm : m ∈ candidates.signatures) : m.Known first t.registry supers :=
      (known m hm).mono g.grows
    have one (name : String) :
        (Entry.classType (c.declare name .implementation sig.result sig.params)).Drafted first
          t.registry supers :=
      (drafted.mono g.grows).declare
        (fun u hu => known' sig hsig u.id (List.mem_map_of_mem (f := (·.id)) hu)) _ _
    exact (ih g.grounded known' (one _)).bind fun g' hr => .pure g'.grounded hr

theorem field {c : ClassType} (drafted : (Entry.classType c).Drafted first s.registry supers)
    (construct : String) (f : FieldDecl) : Secures first s (declareField construct c f)
      fun c R => (Entry.classType c).Drafted first R supers := by
  refine (h.hint ..).bind fun {t s₁} g₁ known => ?_
  refine (Secures.registry g₁.grounded).bind fun {R s₂} g₂ _ => ?_
  split
  · exact .throw g₂.grounded _
  · refine .pure g₂.grounded ?_
    exact (drafted.mono (g₁.trans g₂).grows).withField (contains_of_grows g₂.grows known)

theorem draftRecord (o : Options) (head : RecordHead) (ms : List MethodHead) :
    Secures first s (SynthM.draftRecord o head ms)
      fun r R => ∃ supers, (Entry.classType r.1).Drafted first R supers := by
  refine (h.interfaceNames ..).bind fun {is s₁} g₁ _ => ?_
  refine (Secures.consult g₁.grounded _).bind fun {draft s₂} g₂ begun => ?_
  obtain ⟨drafted, within⟩ := drafted_of_beginClass begun
  refine (Secures.foldlM g₂.grounded drafted fun {c f t} _ g hc =>
    g.grounded.field hc _ f).bind fun {c s₃} g₃ hc => ?_
  refine (Secures.registry g₃.grounded).bind fun {R s₄} g₄ same => ?_
  subst same
  refine (g₄.grounded.methods (fun m hm => g₄.grounded.known_of_mem_collect within hm)
    (hc.mono g₄.grows) _ ms).bind fun {r s₅} g₅ hr => .pure g₅.grounded ⟨_, hr.declare ?_ _ _⟩
  intro t ht
  rw [List.mem_singleton.1 ht]
  exact .inl g₅.grounded.root

theorem metadataType :
    Secures first s anonymousSupertypes.metadataType fun _ _ => True where
  follows := by
    have follows := h.follows_resolve metadataName
    unfold anonymousSupertypes.metadataType
    revert follows
    rcases s.registry.resolve metadataName with ⟨_ | t, R⟩ <;> exact id
  result _ := trivial

theorem supertypes (head : ObjectHead) :
    Secures first s (SynthM.supertypes head) fun _ _ => True := by
  unfold SynthM.supertypes
  cases head.kind with
  | anonymous =>
    refine (h.interfaceNames ..).bind fun g₁ _ => ?_
    exact g₁.grounded.metadataType.bind fun g₂ _ => .pure g₂.grounded trivial
  | proxy =>
    refine (Secures.mapM (Q := fun _ _ => True) h (fun _ => id) (fun name t g => ?_) _).bind
      fun g₁ _ => ?_
    · exact (g.grounded.typeName ..).bind fun g' _ => .pure g'.grounded trivial
    · refine (Secures.registry g₁.grounded).bind fun g₂ _ => ?_
      exact (Secures.ofExcept (P := fun _ _ => True) g₂.grounded fun _ _ => trivial).bind
        fun g₃ _ => .pure g₃.grounded trivial

theorem draftObject (o : Options) (head : ObjectHead) (ms : List MethodHead) :
    Secures first s (SynthM.draftObject o head ms)
      fun r R => ∃ supers, (Entry.classType r.1).Drafted first R supers := by
  refine (h.supertypes head).bind fun {given s₁} g₁ _ => ?_
  refine (g₁.grounded.freshName ..).bind fun {name s₂} g₂ _ => ?_
  refine (Secures.consult g₂.grounded _).bind fun {draft s₃} g₃ begun => ?_
  obtain ⟨drafted, within⟩ := drafted_of_beginClass begun
  obtain ⟨base, interfaces⟩ := List.cons_subset.1 within
  have requested : given.base :: given.requested ⊆ (Entry.classType draft).supertypes :=
    List.cons_subset.2 ⟨base, fun i hi => interfaces (List.mem_append_left _ hi)⟩
  refine (Secures.registry g₃.grounded).bind fun {R s₄} g₄ same => ?_
  subst same
  refine (g₄.grounded.methods (fun m hm => g₄.grounded.known_of_mem_collect requested hm)
    (drafted.mono g₄.grows) _ ms).bind fun {r s₅} g₅ hr => ?_
  refine (Secures.registry g₅.grounded).bind fun {R s₆} g₆ same => ?_
  subst same
  refine .pure g₆.grounded ⟨(Entry.classType draft).supertypes, ?_⟩
  unfold declareMetadata
  split
  · rename_i t metadata
    refine (hr.mono g₆.grows).declareAll (fun m hm => ?_) Signature.name .implementation
    -- the metadata interface is implemented although it is not requested
    refine g₆.grounded.known_of_mem_interfaceMethods (interfaces ?_) hm
    exact List.mem_append_right _ (by rw [metadata]; exact List.mem_singleton_self t)
  · exact hr.mono g₆.grows

/-! ### Generated interfaces -/

theorem within (construct short : String) (i : InterfaceType) (name : TypeName) :
    Secures first s (resolveWithin construct short i name)
      fun t R => R.contains t.id = true ∨ t.id = i.id := by
  unfold resolveWithin
  split
  · exact .pure h (.inr rfl)
  · exact (h.typeName construct name).imp fun _ _ => .inl

theorem declaredMethod {i : InterfaceType}
    (drafted : (Entry.interfaceType i).Drafted first s.registry supers)
    (construct short : String) (m : MethodDecl) :
    Secures first s (declareMethod construct short i m)
      fun i R => (Entry.interfaceType i).Drafted first R supers := by
  refine (Secures.mapM h (fun grows => .imp_left (contains_of_grows grows))
    (fun name t g => g.grounded.within construct short i name) _).bind fun {ps s₁} g₁ hps => ?_
  refine (g₁.grounded.within construct short i m.result).bind fun {t s₂} g₂ ht => ?_
  refine .pure g₂.grounded ((drafted.mono (g₁.trans g₂).grows).method rfl rfl rfl rfl ?_)
  intro u hu
  have hu : u ∈ t.id :: ps.map (·.id) := hu
  rcases List.mem_cons.1 hu with rfl | hu
  · exact ht.imp_right .inl
  · obtain ⟨p, hp, rfl⟩ := List.mem_map.1 hu
    exact (hps p hp).imp (contains_of_grows g₂.grows) .inl

theorem draftInterface (o : Options) (head : InterfaceHead) :
    Secures first s (SynthM.draftInterface o head)
      fun i R => ∃ supers, (Entry.interfaceType i).Drafted first R supers := by
  refine (h.interfaceNames ..).bind fun {bases s₁} g₁ _ => ?_
  refine (Secures.consult g₁.grounded _).bind fun {draft s₂} g₂ begun => ?_
  refine (Secures.foldlM g₂.grounded (drafted_of_beginInterface begun) fun {i m t} _ g hi =>
    g.grounded.declaredMethod hi _ _ m).imp fun _ _ hi => ⟨_, hi⟩

/-! ### Definitions -/

/-- A draft is registered. -/
theorem finish {c : ClassType} (drafted : (Entry.classType c).Drafted first s.registry supers) :
    Secures first s (SynthM.finish c) fun _ _ => True := by
  refine .extend h fun {d R} finished => ?_
  obtain ⟨R', registers, same⟩ := except_bind_eq_ok_iff.1 finished
  cases same
  exact ⟨grows_register registers, h.register (drafted.ready (.inl rfl) nofun) registers, trivial⟩

theorem finishInterface {i : InterfaceType} (plain : i.IsPlain)
    (drafted : (Entry.interfaceType i).Drafted first s.registry supers) :
    Secures first s (SynthM.finishInterface i) fun _ _ => True := by
  refine .extend h fun {d R} finished => ?_
  obtain ⟨R', registers, same⟩ := except_bind_eq_ok_iff.1 finished
  cases same
  have ready := drafted.ready (.inl plain.id_eq) (Entry.Defines.ofInterface i plain).tame
  exact ⟨grows_register registers, h.register ready registers, trivial⟩

end Registry.Grounded

/-! ### Every synthesis -/

/-- A class that is drafted is defined. -/
theorem Secures.define {α : Type} {s : Session} {x : SynthM (ClassType × α)}
    (drafted : Secures first s x
      fun r R => ∃ supers, (Entry.classType r.1).Drafted first R supers) :
    Secures first s (x >>= fun r => do return (← SynthM.finish r.1, r.2)) fun _ _ => True :=
  drafted.bind fun g ⟨_, hr⟩ =>
    (g.grounded.finish hr).bind fun g' _ => .pure g'.grounded trivial

/-- A grounded registry leads to a grounded one. -/
def Session.KeepsGrounded (first : Registry) (s t : Session) : Prop :=
  first.Grounded s.registry → first.Grounded t.registry

instance (first : Registry) : IsPreorder Session (Session.KeepsGrounded first) where
  refl _ := id
  trans _ _ _ h h' grounded := h' (h grounded)

theorem moves_of_secures {α : Type} {x : SynthM α} {Q : α → Registry → Prop}
    (h : ∀ s : Session, first.Grounded s.registry → Secures first s x Q) :
    Moves (Session.KeepsGrounded first) x where
  run s grounded := (h s grounded).follows.grounded

/-- Every synthesis that resolution asks for keeps a registry grounded. -/
theorem kept_grounded : Session.Kept (Session.KeepsGrounded first) where
  typeName construct name := moves_of_secures fun s h => h.typeName construct name
  wrapper o name? as := by
    rw [synthesizeWrapper_eq]
    exact moves_of_secures fun s h => (h.draftWrapper o name? as).define
  record o head ms := by
    rw [synthesizeRecord_eq]
    exact moves_of_secures fun s h => (h.draftRecord o head ms).define
  object o head ms := by
    rw [synthesizeObject_eq]
    exact moves_of_secures fun s h => (h.draftObject o head ms).define
  interface o head := by
    rw [synthesizeInterface_eq]
    refine moves_of_secures (Q := fun _ _ => True) fun s h => ?_
    have drafted := (h.draftInterface o head).imp (T := fun i R =>
      i.IsPlain ∧ ∃ supers, (Entry.interfaceType i).Drafted first R supers)
      fun ok _ hi => ⟨plain_draftInterface ok, hi⟩
    exact drafted.bind fun g ⟨plain, _, hi⟩ => g.grounded.finishInterface plain hi

end TypeSynthesis
