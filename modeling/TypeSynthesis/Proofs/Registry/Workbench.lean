import Mathlib.Logic.Function.Basic
import TypeSynthesis.Proofs.Registry.Additions
import TypeSynthesis.Proofs.Registry.Operations
import TypeSynthesis.Proofs.Synthesis.Record

/-!
# Drafts that are open side by side

Several types may be under construction at once, while other operations extend the registry.

* `Draft`: a class or an interface under construction;
* `Workbench`: a registry and the drafts that are open on it, each under a handle;
* `Step`: an operation of the registry, or what is done with one draft; `Workbench.after` and
  `Workbench.run` are the effect of one step and of several;
* `Workbench.drafts_run`: a draft is what its own declarations make of it, whatever happens to the
  others;
* `Workbench.Takes`, `Workbench.TakenDuring`: how a name that was free is taken;
* `finalize_run`: a draft is registered in the end, unless its name was taken in the meantime.

The name of a draft is checked when the draft is begun and again when it is finalized, and nothing
keeps it free in between (`not_reserved`).
-/

namespace TypeSynthesis

open Registry

/-! ### Drafts -/

/-- A type under construction. -/
inductive Draft
  | classType (c : ClassType)
  | interfaceType (i : InterfaceType)
  deriving DecidableEq, Repr, Inhabited

/-- How a type is begun. -/
inductive Beginning
  | classType (name : String) (base : TypeId) (interfaces : List TypeId)
  | interfaceType (name : String) (bases : List TypeId)
  deriving DecidableEq, Repr, Inhabited

/-- A member that is declared on a draft. -/
inductive Declaration
  | field (f : Field)
  | method (name : String) (attributes : MethodAttributes) (result : TypeRef)
      (params : List TypeRef)
  deriving DecidableEq, Repr, Inhabited

/-- The name that a type is begun with. -/
def Beginning.name : Beginning → String
  | classType name .. | interfaceType name _ => name

/-- The empty draft that a type is begun as. -/
def Beginning.draft (R : Registry) : Beginning → Except RegistrationError Draft
  | classType name base interfaces => do
    return .classType (← R.beginClass name base interfaces)
  | interfaceType name bases => do
    return .interfaceType (← R.beginInterface name bases)

namespace Draft

/-- The definition as far as it is drafted. -/
def entry : Draft → Entry
  | classType c => .classType c
  | interfaceType i => .interfaceType i

/-- The full name that the type will have. -/
def name (d : Draft) : String := d.entry.name

/-- The identity that the type will have. -/
def id (d : Draft) : TypeId := d.entry.id

/-- The draft with one more member.  An interface has no fields, and its methods are abstract
whatever their attributes. -/
def declare : Draft → Declaration → Draft
  | classType c, .field f => .classType (c.withField f)
  | classType c, .method name attributes result params =>
    .classType (c.declare name attributes result params)
  | interfaceType i, .field _ => .interfaceType i
  | interfaceType i, .method name _ result params => .interfaceType (i.declare name result params)

/-- The registry with the drafted type. -/
def finalize (d : Draft) (R : Registry) : Except RegistrationError Registry := R.register d.entry

@[simp] theorem name_declare (d : Draft) (m : Declaration) : (d.declare m).name = d.name := by
  cases d <;> cases m <;> rfl

@[simp] theorem id_declare (d : Draft) (m : Declaration) : (d.declare m).id = d.id := by
  cases d <;> cases m <;> rfl

@[simp] theorem name_foldl_declare (d : Draft) (ms : List Declaration) :
    (ms.foldl declare d).name = d.name := by
  induction ms generalizing d with
  | nil => rfl
  | cons m ms ih => rw [List.foldl_cons, ih, name_declare]

@[simp] theorem id_foldl_declare (d : Draft) (ms : List Declaration) :
    (ms.foldl declare d).id = d.id := by
  induction ms generalizing d with
  | nil => rfl
  | cons m ms ih => rw [List.foldl_cons, ih, id_declare]

end Draft

/-- A type that may be begun has a free name, and its identity comes from this name. -/
theorem Beginning.draft_eq_ok {R : Registry} {b : Beginning} {d : Draft}
    (h : b.draft R = .ok d) :
    R.containsName b.name = false ∧ d.name = b.name ∧ d.id = .ofName b.name := by
  have free {name : String} (h : R.checkName name = .ok ()) : R.containsName name = false := by
    unfold checkName at h
    split at h
    · cases h
    · exact Bool.eq_false_iff.2 ‹_›
  cases b with
  | classType name base interfaces =>
    obtain ⟨c, begun, h⟩ := except_bind_eq_ok_iff.1 h
    cases h
    have named : c.name = name := (SynthM.isRecord_beginClass begun).name_eq
    obtain ⟨⟨⟩, checked, -⟩ := except_bind_eq_ok_iff.1 begun
    exact ⟨free checked, named, congrArg TypeId.ofName named⟩
  | interfaceType name bases =>
    obtain ⟨i, begun, h⟩ := except_bind_eq_ok_iff.1 h
    cases h
    obtain ⟨⟨⟩, checked, begun⟩ := except_bind_eq_ok_iff.1 begun
    obtain ⟨⟨⟩, -, begun⟩ := except_bind_eq_ok_iff.1 begun
    cases begun
    exact ⟨free checked, rfl, rfl⟩

/-! ### The workbench -/

/-- A registry and the drafts that are open on it, each under a handle. -/
structure Workbench where
  registry : Registry
  drafts : Nat → Option Draft := fun _ => none

/-- What is done with the draft under a handle. -/
inductive Action
  | begin (b : Beginning)
  | declare (m : Declaration)
  | finalize
  | drop
  deriving DecidableEq, Repr, Inhabited

/-- A step: an operation of the registry, or an action on the draft under a handle. -/
inductive Step
  | operate (o : Operation)
  | act (k : Nat) (a : Action)
  deriving DecidableEq, Repr, Inhabited

namespace Workbench

/-- The workbench with another draft, or none, under a handle. -/
def put (w : Workbench) (k : Nat) (d : Option Draft) : Workbench :=
  { w with drafts := Function.update w.drafts k d }

/-- The effect of an action.  A draft that is refused when it is begun leaves the handle as it is.
One that is refused when it is finalized is gone. -/
def act (w : Workbench) (k : Nat) : Action → Workbench
  | .begin b =>
    match b.draft w.registry with
    | .ok d => w.put k (some d)
    | .error _ => w
  | .declare m => w.put k ((w.drafts k).map (·.declare m))
  | .finalize =>
    match w.drafts k with
    | none => w
    | some d =>
      match d.finalize w.registry with
      | .ok R => { w.put k none with registry := R }
      | .error _ => w.put k none
  | .drop => w.put k none

/-- The workbench after a step. -/
def after (w : Workbench) : Step → Workbench
  | .operate o => { w with registry := o.after w.registry }
  | .act k a => w.act k a

/-- The workbench after several steps. -/
def run (w : Workbench) (steps : List Step) : Workbench := steps.foldl after w

@[simp] theorem run_nil (w : Workbench) : w.run [] = w := rfl

@[simp] theorem run_cons (w : Workbench) (s : Step) (steps : List Step) :
    w.run (s :: steps) = (w.after s).run steps := rfl

/-- No step removes a type or gives its name to another. -/
theorem grows_after (w : Workbench) (s : Step) : w.registry.Grows (w.after s).registry := by
  cases s with
  | operate o => exact o.grows_after w.registry
  | act k a =>
    cases a with
    | finalize =>
      unfold after act
      dsimp only
      split
      · exact .refl
      · split
        · rename_i accepted
          exact grows_register accepted
        · exact .refl
    | begin b =>
      unfold after act
      dsimp only
      split <;> exact .refl
    | _ => exact .refl

theorem grows_run (w : Workbench) (steps : List Step) :
    w.registry.Grows (w.run steps).registry := by
  induction steps generalizing w with
  | nil => exact .refl
  | cons s steps ih => exact (w.grows_after s).trans (ih _)

end Workbench

/-! ### One draft among others -/

namespace Step

/-- The step leaves the draft under a handle open: it neither begins one there nor finalizes or
drops it. -/
def spares (k : Nat) : Step → Bool
  | operate _ | act _ (.declare _) => true
  | act j _ => j != k

/-- What the step declares on the draft under a handle. -/
def declaredAt? (k : Nat) : Step → Option Declaration
  | act j (.declare m) => if j = k then some m else none
  | _ => none

end Step

namespace Workbench

/-- A step that leaves a draft open adds what it declares on it. -/
theorem drafts_after {w : Workbench} {k : Nat} {d : Draft} (h : w.drafts k = some d) {s : Step}
    (spared : s.spares k = true) :
    (w.after s).drafts k = some ((s.declaredAt? k).toList.foldl Draft.declare d) := by
  have other {j : Nat} {a : Action} (ne : j ≠ k) : (w.act j a).drafts k = some d := by
    have put (d' : Option Draft) : (w.put j d').drafts k = some d := by
      rw [← h]
      exact Function.update_of_ne (Ne.symm ne) ..
    unfold act
    cases a with
    | begin b =>
      dsimp only
      split
      · exact put _
      · exact h
    | declare m => exact put _
    | finalize =>
      dsimp only
      split
      · exact h
      · split <;> exact put _
    | drop => exact put _
  cases s with
  | operate o => exact h
  | act j a =>
    by_cases same : j = k
    · subst same
      cases a with
      | declare m =>
        simp [after, act, put, h, Step.declaredAt?]
      | _ => simp [Step.spares] at spared
    · have none : (Step.act j a).declaredAt? k = none := by
        cases a <;> simp [Step.declaredAt?, same]
      rw [none]
      exact other same

/-- A draft that is left open is what its own declarations make of it, whatever else happens. -/
theorem drafts_run {w : Workbench} {k : Nat} {d : Draft} (h : w.drafts k = some d)
    {steps : List Step} (spared : ∀ s ∈ steps, s.spares k = true) :
    (w.run steps).drafts k =
      some ((steps.filterMap (Step.declaredAt? k)).foldl Draft.declare d) := by
  induction steps generalizing w d with
  | nil => exact h
  | cons s steps ih =>
    obtain ⟨first, rest⟩ := List.forall_mem_cons.1 spared
    rw [run_cons, ih (drafts_after h first) rest]
    cases declared : s.declaredAt? k with
    | none => rw [List.filterMap_cons_none declared]; rfl
    | some m => rw [List.filterMap_cons_some declared]; rfl

/-! ### How a name is taken -/

/-- The step takes a name that was free: an operation of the registry gives it to a new type, or
the draft under some handle has this name and is finalized. -/
inductive Takes (w : Workbench) (name : String) : Step → Prop
  | operation {o : Operation} (gives : o.Gives w.registry name) : Takes w name (.operate o)
  | finalization {k : Nat} {d : Draft} {R : Registry} (h : w.drafts k = some d)
      (named : d.name = name) (accepted : d.finalize w.registry = .ok R) :
      Takes w name (.act k .finalize)

/-- One of the steps takes the name. -/
def TakenDuring (w : Workbench) (steps : List Step) (name : String) : Prop :=
  ∃ past s later, steps = past ++ s :: later ∧ (w.run past).Takes name s

/-- A name is free before a step and taken after it exactly if the step takes it. -/
theorem takes_iff {w : Workbench} {name : String} {s : Step} :
    w.Takes name s ↔
      w.registry.containsName name = false ∧ (w.after s).registry.containsName name = true := by
  constructor
  · rintro (gives | @⟨k, d, R, h, rfl, accepted⟩)
    · exact Operation.gives_iff.1 gives
    · obtain ⟨free, -, -⟩ := register_eq_ok_iff.1 accepted
      refine ⟨free, ?_⟩
      have taken : R.containsName d.name = true :=
        (containsName_register_iff accepted free).2 rfl
      simpa only [after, act, h, accepted] using taken
  · rintro ⟨free, taken⟩
    have same (h : (w.after s).registry = w.registry) : w.Takes name s := by
      rw [h, free] at taken
      cases taken
    cases s with
    | operate o => exact .operation (Operation.gives_iff.2 ⟨free, taken⟩)
    | act k a =>
      cases a with
      | begin b =>
        refine same ?_
        unfold after act
        dsimp only
        split <;> rfl
      | declare m => exact same rfl
      | drop => exact same rfl
      | finalize =>
        cases h : w.drafts k with
        | none => exact same (by simp [after, act, h])
        | some d =>
          cases accepted : d.finalize w.registry with
          | error e => exact same (by simp [after, act, h, accepted, put])
          | ok R =>
            have taken : R.containsName name = true := by
              simpa only [after, act, h, accepted] using taken
            exact .finalization h ((containsName_register_iff accepted free).1 taken) accepted

/-- A name that is free at first is taken in the end exactly if one of the steps takes it. -/
theorem takenDuring_iff {w : Workbench} {name : String}
    (free : w.registry.containsName name = false) {steps : List Step} :
    w.TakenDuring steps name ↔ (w.run steps).registry.containsName name = true := by
  constructor
  · rintro ⟨past, s, later, rfl, takes⟩
    have taken := (takes_iff.1 takes).2
    have grows := ((w.run past).after s).grows_run later
    rw [run, List.foldl_append]
    exact containsName_of_grows grows taken
  · intro taken
    induction steps generalizing w with
    | nil =>
      rw [run_nil, free] at taken
      cases taken
    | cons s steps ih =>
      cases h : (w.after s).registry.containsName name with
      | true => exact ⟨[], s, steps, rfl, takes_iff.2 ⟨free, h⟩⟩
      | false =>
        obtain ⟨past, s', later, rfl, takes⟩ := ih h taken
        exact ⟨s :: past, s', later, rfl, takes⟩

end Workbench

/-! ### The draft in the end -/

/-- No other name of the registry has the identity that the name leads to. -/
def Registry.Unambiguous (R : Registry) (name : String) : Prop :=
  ∀ p ∈ R.names.toList, p.2 = .ofName name → p.1 = name

instance (R : Registry) (name : String) : Decidable (R.Unambiguous name) :=
  inferInstanceAs (Decidable (∀ p ∈ R.names.toList, p.2 = .ofName name → p.1 = name))

/-- A name that is free, and whose identity no other name has, has a free identity. -/
theorem Registry.Sound.contains_eq_false {R : Registry} (sound : R.Sound) {name : String}
    (free : R.containsName name = false) (own : R.Unambiguous name) :
    R.contains (.ofName name) = false := by
  refine Bool.eq_false_iff.2 fun taken => ?_
  obtain ⟨e, he⟩ := contains_eq_true_iff.1 taken
  have listed := sound.listed he
  have named : e.name = name := own _ (mem_of_names_get? listed) rfl
  rw [named, containsName_eq_false_iff.1 free] at listed
  cases listed

/-- What finalizing a draft on a registry comes to.  It becomes the type of its name, and all other
types stay; or its name is taken, and it is refused. -/
structure Draft.Settles (d : Draft) (R : Registry) (taken : Prop) : Prop where
  accepted (free : ¬ taken) : ∃ S, d.finalize R = .ok S ∧ S.find? d.name = some d.entry ∧
    ∀ t, t ≠ d.id → S.get? t = R.get? t
  refused (h : taken) : d.finalize R = .error (.duplicateType d.name)

theorem Draft.settles {R : Registry} (sound : R.Sound) {d : Draft} (id : d.id = .ofName d.name)
    (own : R.Unambiguous d.name) : d.Settles R (R.containsName d.name = true) where
  accepted free := by
    have free : R.containsName d.name = false := Bool.eq_false_iff.2 free
    have unused : R.contains d.id = false := id ▸ sound.contains_eq_false free own
    refine ⟨R.add d.entry, register_eq_ok_iff.2 ⟨free, unused, rfl⟩, ?_, fun t ne => ?_⟩
    · refine find?_eq_some_iff.2 ⟨d.id, ?_, ?_⟩
      · exact (names_get?_add ..).trans (if_pos rfl)
      · exact (get?_add ..).trans (if_pos rfl)
    · exact (get?_add ..).trans (if_neg ne)
  refused taken := by
    unfold Draft.finalize register
    rw [← Draft.name, taken, Bool.true_or, if_pos rfl]

/-- A draft that is begun and left open stays open, with the members that are declared on it and
nothing else, whatever operations and other drafts there are in the meantime.  Finalized in the end,
it becomes the type of its name, unless an operation or another draft has taken this name since:
then it is refused.  The registry at the start may be any that operations build, all of which are
sound. -/
theorem finalize_run {w : Workbench} (sound : w.registry.Sound) {k : Nat} {b : Beginning}
    {d : Draft} (begun : b.draft w.registry = .ok d) {steps : List Step}
    (spared : ∀ s ∈ steps, s.spares k = true)
    (own : (w.run (.act k (.begin b) :: steps)).registry.Unambiguous b.name) :
    ∃ d', (w.run (.act k (.begin b) :: steps)).drafts k = some d' ∧
      d' = (steps.filterMap (Step.declaredAt? k)).foldl Draft.declare d ∧
      d'.name = b.name ∧ d'.id = .ofName b.name ∧
      d'.Settles (w.run (.act k (.begin b) :: steps)).registry
        (w.TakenDuring (.act k (.begin b) :: steps) b.name) := by
  obtain ⟨free, named, id⟩ := b.draft_eq_ok begun
  have start : (w.after (.act k (.begin b))).drafts k = some d := by
    simp only [Workbench.after, Workbench.act, begun, Workbench.put, Function.update_self]
  have named' : ((steps.filterMap (Step.declaredAt? k)).foldl Draft.declare d).name = b.name := by
    rw [Draft.name_foldl_declare, named]
  have id' : ((steps.filterMap (Step.declaredAt? k)).foldl Draft.declare d).id =
      .ofName b.name := by
    rw [Draft.id_foldl_declare, id]
  refine ⟨_, Workbench.drafts_run start spared, rfl, named', id', ?_⟩
  have later := sound.of_grows (w.grows_run (.act k (.begin b) :: steps))
  have settles := Draft.settles later (id'.trans (congrArg _ named'.symm)) (named'.symm ▸ own)
  rwa [named', ← Workbench.takenDuring_iff free] at settles

/-! ### Drafts of one name -/

/-- The registry of the host with no draft open. -/
def Workbench.host : Workbench := { registry := Registry.host }

/-- How a class over the root is begun. -/
def beginPoint : Beginning := .classType "Point" .object []

/-- The empty class that it is begun as. -/
def emptyPoint : Draft :=
  .classType { name := "Point", origin := .synthesized, base? := some .object }

theorem draft_beginPoint : beginPoint.draft Workbench.host.registry = .ok emptyPoint := by
  decide +kernel

/-- While the class is drafted, an interface is drafted and finalized, a pointer type is registered,
and a second class of the same name is begun and dropped again. -/
def besidePoint : List Step :=
  [.act 1 (.begin (.interfaceType "Shape" [])),
   .act 0 (.declare (.field ⟨"x", .object, { isPublic := true }⟩)),
   .act 1 (.declare (.method "Area" .interface .object [])),
   .operate (.resolve "object*"),
   .act 2 (.begin beginPoint),
   .act 1 .finalize,
   .act 0 (.declare (.method "Clone" .overridable .object [])),
   .act 2 .drop]

/-- The class is registered with both of its members, since its name is still free. -/
theorem finalize_run_besidePoint :
    ∃ d' S, (Workbench.host.run (.act 0 (.begin beginPoint) :: besidePoint)).drafts 0 = some d' ∧
      d'.finalize (Workbench.host.run (.act 0 (.begin beginPoint) :: besidePoint)).registry =
        .ok S ∧
      S.find? d'.name = some d'.entry := by
  have free : ¬ Workbench.host.TakenDuring (.act 0 (.begin beginPoint) :: besidePoint)
      "Point" := by
    rw [Workbench.takenDuring_iff (by decide +kernel)]
    decide +kernel
  have spared : ∀ s ∈ besidePoint, s.spares 0 = true := by decide +kernel
  obtain ⟨d', stays, -, -, -, settles⟩ :=
    finalize_run (sound_empty.of_grows provides_host.grows) draft_beginPoint spared
      (by decide +kernel)
  obtain ⟨S, accepted, found, -⟩ := settles.accepted free
  exact ⟨d', S, stays, accepted, found⟩

/-- Nothing is reserved: while a class is drafted, another of the same name may be begun and
finalized, after which the first one is refused. -/
theorem not_reserved :
    ¬ ∀ (w : Workbench) (k : Nat) (b : Beginning) (d : Draft) (steps : List Step),
      w.registry.Built → b.draft w.registry = .ok d → (∀ s ∈ steps, s.spares k = true) →
      (w.run (.act k (.begin b) :: steps)).registry.Unambiguous b.name →
      ¬ w.TakenDuring (.act k (.begin b) :: steps) b.name ∧
        ∃ S, ((steps.filterMap (Step.declaredAt? k)).foldl Draft.declare d).finalize
          (w.run (.act k (.begin b) :: steps)).registry = .ok S := by
  intro reserved
  have built : Workbench.host.registry.Built := ⟨Registry.host, by simp, [], nofun, rfl⟩
  obtain ⟨-, S, accepted⟩ := reserved Workbench.host 0 beginPoint emptyPoint
    [.act 1 (.begin beginPoint), .act 1 .finalize] built draft_beginPoint (by decide +kernel)
    (by decide +kernel)
  have refused : emptyPoint.finalize (Workbench.host.run [.act 0 (.begin beginPoint),
      .act 1 (.begin beginPoint), .act 1 .finalize]).registry =
        .error (.duplicateType "Point") := by
    decide +kernel
  cases refused.symm.trans accepted

end TypeSynthesis
