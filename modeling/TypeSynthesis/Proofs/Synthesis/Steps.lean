import TypeSynthesis.Proofs.Computation
import TypeSynthesis.Proofs.Registry.Index
import TypeSynthesis.Synthesis.Interface
import TypeSynthesis.Synthesis.Object
import TypeSynthesis.Synthesis.Record
import TypeSynthesis.Synthesis.Wrapper

/-!
# The steps of synthesis

Before synthesis defines a type it does four kinds of things to a session: it provides a pointer
type, asks for an invoker, instantiates one, or draws a name.  A preorder on sessions that each of
these steps respects is therefore respected by all that goes before the definition, also where it
fails.  Of these steps, reading written type names only takes the first.

* `Session.Pointing r`: the preorder `r` holds where a pointer type is provided;
* `Session.Pointing.typeName`, `Session.Pointing.methods`, `Session.Pointing.supertypes`: so it does
  across the parts of a synthesis that read type names;
* `Session.Prepared r`: the preorder `r` holds across each of the four steps;
* `Session.Prepared.freshName`, `Session.Prepared.arities`: so it does across the other parts.
-/

namespace TypeSynthesis

/-- The session with another registry. -/
def Session.withRegistry (s : Session) (R : Registry) : Session := { s with registry := R }

/-- A preorder on sessions that is respected where pointer types are provided. -/
structure Session.Pointing (r : Session → Session → Prop) [IsPreorder Session r] : Prop where
  pointer (s : Session) (p : PointerType) :
    r s (s.withRegistry (s.registry.provide (.pointerType p)))

/-- A preorder on sessions that each step of synthesis respects before the new type is defined.
Only invokers are instantiated. -/
structure Session.Prepared (r : Session → Session → Prop) [IsPreorder Session r] : Prop
    extends Session.Pointing r where
  invoker {s : Session} {n : Nat} {t : TypeId} {R : Registry}
    (h : s.registry.invoker n = .ok (t, R)) : r s (s.withRegistry R)
  instantiate {s : Session} {n : Nat} {e : Entry} {args : List TypeRef} {u : TypeId}
    {R : Registry} (known : s.registry.find? (Registry.invokerName n) = some e)
    (h : s.registry.instantiate e.id args = .ok (u, R)) : r s (s.withRegistry R)
  draw {s : Session} {n : Nat} (h : s.counter < n) : r s { s with counter := n }

namespace Registry

theorem snd_referenceTo (x : Option TypeRef × Registry) : (referenceTo x).2 = x.2 := by
  rcases x with ⟨_ | t, R⟩
  · rfl
  · unfold referenceTo; dsimp only; split <;> rfl

/-- A star provides at most the one pointer type that it names. -/
theorem snd_starOf (x : Option TypeRef × Registry) :
    (starOf x).2 = x.2 ∨ ∃ p, (starOf x).2 = x.2.provide (.pointerType p) := by
  rcases x with ⟨_ | t, R⟩
  · exact .inl rfl
  · unfold starOf
    dsimp only
    split
    · exact .inl rfl
    · exact .inr ⟨_, rfl⟩

/-- An instantiation of a generic definition registers at most the instance. -/
theorem instantiate_eq_ok {R S : Registry} {t u : TypeId} {args : List TypeRef}
    (h : R.instantiate t args = .ok (u, S)) :
    ∃ i, R.interface? t = some i ∧ i.isGeneric = true ∧
      (S = R ∨ ∃ s, R.register (.interfaceType (R.instanceAt i t args s)) = .ok S) := by
  unfold instantiate at h
  split at h
  · cases h
  rename_i i hi
  split at h
  · rename_i generic
    obtain ⟨s, -, h⟩ := except_bind_eq_ok_iff.1 h
    dsimp only at h
    split at h
    · cases h; exact ⟨i, hi, generic, .inl rfl⟩
    · obtain ⟨S', hS, h⟩ := except_bind_eq_ok_iff.1 h
      cases h; exact ⟨i, hi, generic, .inr ⟨s, hS⟩⟩
  · cases h

theorem register_of_instantiate {R S : Registry} {t u : TypeId} {args : List TypeRef}
    (h : R.instantiate t args = .ok (u, S)) : S = R ∨ ∃ e, R.register e = .ok S := by
  obtain ⟨i, -, -, same | ⟨s, h⟩⟩ := instantiate_eq_ok h
  · exact .inl same
  · exact .inr ⟨_, h⟩

/-- Asking for an invoker registers at most its definition. -/
theorem register_of_invoker {R S : Registry} {n : Nat} {u : TypeId}
    (h : R.invoker n = .ok (u, S)) :
    S = R ∨ R.register (.interfaceType (invokerType n)) = .ok S := by
  unfold invoker at h
  split at h
  · cases h; exact .inl rfl
  · obtain ⟨S', hS, h⟩ := except_bind_eq_ok_iff.1 h
    cases h; exact .inr hS

theorem grows_of_invoker {R S : Registry} {n : Nat} {u : TypeId}
    (h : R.invoker n = .ok (u, S)) : R.Grows S := by
  rcases register_of_invoker h with same | registers
  · exact same ▸ .refl
  · exact grows_register registers

theorem grows_of_instantiate {R S : Registry} {t u : TypeId} {args : List TypeRef}
    (h : R.instantiate t args = .ok (u, S)) : R.Grows S := by
  rcases register_of_instantiate h with same | ⟨e, registers⟩
  · exact same ▸ .refl
  · exact grows_register registers

theorem find?_eq_some_iff {R : Registry} {name : String} {e : Entry} :
    R.find? name = some e ↔ ∃ t, R.names.get? name = some t ∧ R.get? t = some e :=
  Option.bind_eq_some_iff

/-- A type that is found by its name is still found when another is registered. -/
theorem find?_of_register {R S : Registry} {e e' : Entry} {name : String}
    (h : R.register e' = .ok S) (he : R.find? name = some e) : S.find? name = some e := by
  obtain ⟨-, free, rfl⟩ := register_eq_ok_iff.1 h
  obtain ⟨t, ht, he⟩ := find?_eq_some_iff.1 he
  exact find?_eq_some_iff.2
    ⟨t, names_get?_of_grows (grows_register h) ht, get?_add_of_free free he⟩

/-- An invoker definition that was asked for is found by its name. -/
theorem find?_of_invoker {R S : Registry} {n : Nat} {t : TypeId} (h : R.invoker n = .ok (t, S)) :
    ∃ e, S.find? (invokerName n) = some e ∧ e.id = t := by
  unfold invoker at h
  split at h
  · rename_i e he
    cases h
    exact ⟨e, he, rfl⟩
  · obtain ⟨S', hS, h⟩ := except_bind_eq_ok_iff.1 h
    cases h
    obtain ⟨-, -, rfl⟩ := register_eq_ok_iff.1 hS
    refine ⟨.interfaceType (invokerType n), ?_, rfl⟩
    refine find?_eq_some_iff.2 ⟨(invokerType n).id, Table.get?_insert_self .., ?_⟩
    rw [get?_add]
    exact if_pos rfl

end Registry

namespace SynthM

theorem firstFree_gt {R : Registry} {name : Nat → String} {n count m : Nat}
    (h : firstFree R name n count = some m) : count < m := by
  induction n generalizing count with
  | zero => cases h
  | succ n ih =>
    unfold firstFree at h
    split at h
    · exact Nat.lt_of_succ_lt (ih h)
    · cases h; exact Nat.lt_succ_self count

theorem consult_eq_ok_iff {α : Type} {f : Registry → Except RegistrationError α} {a : α}
    {s t : Session} : consult f s = .ok a t ↔ f s.registry = .ok a ∧ s = t := by
  unfold consult
  cases f s.registry with
  | ok b =>
    constructor
    · intro h; cases h; exact ⟨rfl, rfl⟩
    · rintro ⟨h, rfl⟩; cases h; rfl
  | error e =>
    constructor
    · intro h; cases h
    · rintro ⟨h, -⟩; cases h

theorem consult_eq_error {α : Type} {f : Registry → Except RegistrationError α}
    {e : CompilationError} {s t : Session} (h : consult f s = .error e t) :
    ∃ refusal, f s.registry = .error refusal ∧ e = .registration refusal := by
  unfold consult at h
  split at h
  · cases h
  · rename_i refusal refused
    cases h
    exact ⟨refusal, refused, rfl⟩

theorem extend_eq_ok {α : Type} {f : Registry → Except RegistrationError (α × Registry)} {a : α}
    {s t : Session} (h : extend f s = .ok a t) : f s.registry = .ok (a, t.registry) := by
  unfold extend at h
  split at h
  · rename_i hf
    cases h
    exact hf
  · cases h

variable {r : Session → Session → Prop} [IsPreorder Session r]

theorem moves_registry : Moves r registry := .of_id fun _ => rfl

theorem runs_extend {α : Type} {f : Registry → Except RegistrationError (α × Registry)}
    {s : Session} (h : ∀ a R, f s.registry = .ok (a, R) → r s (s.withRegistry R)) :
    r s (endState (extend f s)) := by
  unfold extend
  split
  · exact h _ _ ‹_›
  · exact refl_of r s

theorem moves_consult {α : Type} (f : Registry → Except RegistrationError α) :
    Moves r (consult f) := by
  refine .of_id fun s => ?_
  unfold consult
  split <;> rfl

end SynthM

namespace Session.Pointing

open SynthM

variable {r : Session → Session → Prop} [IsPreorder Session r] (hr : Session.Pointing r)
include hr

/-! ### Written type names -/

theorem resolveReversed (cs : List Char) (s : Session) :
    r s (s.withRegistry (s.registry.resolveReversed cs).2) := by
  induction cs with
  | nil => exact refl_of r s
  | cons c cs ih =>
    unfold Registry.resolveReversed
    split
    · exact ih
    split
    · rw [Registry.snd_referenceTo]
      exact ih
    split
    · rcases Registry.snd_starOf (s.registry.resolveReversed cs) with h | ⟨p, h⟩
      · rw [h]; exact ih
      · rw [h]; exact trans_of r ih (hr.pointer (s.withRegistry _) p)
    · exact refl_of r s

theorem typeName (construct : String) (name : TypeName) :
    Moves r (resolveTypeName construct name) where
  run s := by
    have h := hr.resolveReversed name.text.toList.reverse s
    unfold resolveTypeName Registry.resolve
    revert h
    rcases s.registry.resolveReversed name.text.toList.reverse with ⟨_ | t, R⟩ <;> exact id

theorem hint (construct : String) (hint? : Option TypeName) :
    Moves r (resolveHint construct hint?) := by
  cases hint? with
  | some name => exact hr.typeName construct name
  | none => exact .pure _

theorem interfaceName (construct : String) (name : TypeName) :
    Moves r (resolveInterface construct name) := by
  refine (hr.typeName construct name).bind fun _ => moves_registry.bind fun _ => ?_
  split
  · exact .throw _
  · exact .pure _

/-! ### Classes that implement methods -/

theorem method (construct : String) (candidates : Candidates) (m : MethodHead) :
    Moves r (resolveMethod construct candidates m) := by
  refine (Moves.mapM (fun p : Param => hr.hint construct p.hint?) _).bind fun _ => ?_
  refine moves_registry.bind fun _ => ?_
  split
  · exact .pure _
  · exact .throw _

theorem methods (construct : String) (candidates : Candidates) (draft : ClassType)
    (ms : List MethodHead) : Moves r (implementAll construct candidates draft ms) := by
  induction ms generalizing draft with
  | nil => exact .pure _
  | cons m ms ih => exact (hr.method ..).bind fun _ => (ih _).bind fun _ => .pure _

theorem field (construct : String) (draft : ClassType) (f : FieldDecl) :
    Moves r (declareField construct draft f) := by
  refine (hr.hint ..).bind fun _ => moves_registry.bind fun _ => ?_
  split
  · exact .throw _
  · exact .pure _

theorem metadataType : Moves r anonymousSupertypes.metadataType where
  run s := by
    have h := hr.resolveReversed Registry.metadataName.toList.reverse s
    unfold anonymousSupertypes.metadataType Registry.resolve
    revert h
    rcases s.registry.resolveReversed Registry.metadataName.toList.reverse with ⟨_ | t, R⟩ <;>
      exact id

theorem anonymousSupertypes (head : ObjectHead) : Moves r (SynthM.anonymousSupertypes head) :=
  (Moves.mapM (hr.interfaceName _) _).bind fun _ => hr.metadataType.bind fun _ => .pure _

theorem proxySupertypes (head : ObjectHead) : Moves r (SynthM.proxySupertypes head) := by
  refine (Moves.mapM (fun name => (hr.typeName _ name).bind fun _ => .pure _) _).bind fun _ => ?_
  exact moves_registry.bind fun _ => (Moves.ofExcept _).bind fun _ => .pure _

theorem supertypes (head : ObjectHead) : Moves r (SynthM.supertypes head) := by
  unfold SynthM.supertypes
  cases head.kind with
  | anonymous => exact hr.anonymousSupertypes head
  | proxy => exact hr.proxySupertypes head

/-! ### Generated interfaces -/

theorem within (construct short : String) (draft : InterfaceType) (name : TypeName) :
    Moves r (resolveWithin construct short draft name) := by
  unfold resolveWithin
  split
  · exact .pure _
  · exact hr.typeName construct name

theorem declaredMethod (construct short : String) (draft : InterfaceType) (m : MethodDecl) :
    Moves r (declareMethod construct short draft m) := by
  refine (Moves.mapM (hr.within construct short draft) _).bind fun _ => ?_
  exact (hr.within ..).bind fun _ => .pure _

end Session.Pointing

namespace Session.Prepared

open SynthM

variable {r : Session → Session → Prop} [IsPreorder Session r] (hr : Session.Prepared r)
include hr

theorem freshName (o : Options) (stem : String) : Moves r (SynthM.freshName o stem) where
  run s := by
    unfold SynthM.freshName
    split
    · exact hr.draw (firstFree_gt ‹_›)
    · exact refl_of r s

/-! ### Function wrappers -/

/-- An arity asks for an invoker and instantiates it at its own types and at the root type. -/
theorem arity (o : Options) (construct : String) (invokers : List TypeId) (a : ArityHead) :
    Moves r (resolveArity o construct invokers a) := by
  have check : Moves r (checkArity o construct a.params.length) := by
    unfold checkArity
    split
    · exact .throw _
    · exact .pure _
  have param (p : Param) : Moves r (resolveParam construct p) :=
    (hr.hint ..).bind fun _ => .pure _
  have instance_ {e : Entry} {args : List TypeRef} {s : Session}
      (known : s.registry.find? (Registry.invokerName a.params.length) = some e) :
      r s (endState (invokerAt e.id args s)) :=
    runs_extend fun u R h => hr.instantiate known h
  refine check.bind fun _ => ?_
  refine (Moves.mapM param _).bind fun params => ?_
  refine (hr.hint ..).bind fun result => ⟨fun s => ?_⟩
  refine Moves.trans_bind (runs_extend fun t R h => hr.invoker h) fun definition t h => ?_
  obtain ⟨e, known, rfl⟩ := Registry.find?_of_invoker (extend_eq_ok h)
  refine Moves.trans_bind (instance_ known) fun natural u h => ?_
  refine Moves.trans_bind (instance_ ?_) fun boxed v _ => refl_of r v
  rcases Registry.register_of_instantiate (extend_eq_ok h) with same | ⟨e', h⟩
  · rw [same]
    exact known
  · exact Registry.find?_of_register h known

theorem arities (o : Options) (construct : String) (invokers : List TypeId)
    (as : List ArityHead) : Moves r (resolveArities o construct invokers as) := by
  induction as generalizing invokers with
  | nil => exact .pure _
  | cons a as ih => exact (hr.arity ..).bind fun x => (ih x.1).bind fun _ => .pure _

omit hr in
theorem declareInvoker (draft : ClassType) (t : TypeId) :
    Moves r (SynthM.declareInvoker draft t) := by
  refine moves_registry.bind fun _ => ?_
  split
  · exact .pure _
  · exact .throw _

end Session.Prepared

end TypeSynthesis
