import Mathlib.Data.Set.Function
import TypeSynthesis.Proofs.Registry.Operations
import TypeSynthesis.Proofs.Synthesis.Drafts

/-!
# Definitions in a tree and types in the registry

A type-defining form of a tree stands for one type of the registry.  What a run adds to the registry
is accounted for by the definitions of the tree that had no type before, and by the types that
synthesis needs besides.

* `Definition`, `Node.definitions`: the type-defining forms of a tree, in the order of resolution;
* `Entry.Defines`: a type that a definition is given;
* `Entry.Auxiliary`: a pointer type, an invoker definition or an instance of one;
* `Accounts before after es`: the types `es` account for what has become of the definitions;
* `Synthesizes`: the types that a run adds are in bijection with the definitions that were open.
-/

namespace TypeSynthesis

open Registry

/-! ### Definitions -/

/-- A type-defining form: whether it defines an interface, and the type that it has been given. -/
structure Definition where
  isInterface : Bool
  descriptor? : Option Descriptor
  deriving DecidableEq, Repr, Inhabited

/-- Whether locals of the role may carry an initializer. -/
def Role.isParameter (r : Role) : Bool := r == .parameter

namespace Node

mutual

/-- The type-defining forms in a form, each before those within it.  The initializers of locals are
walked for the roles that `opens` tells. -/
def definitions (opens : Role → Bool) : Node → List Definition
  | .const .. => []
  | .localRef _ _ role _ init? => if opens role then definitionsOfOption opens init? else []
  | .block _ forms => definitionsOfList opens forms
  | .cond _ test thenForm elseForm? =>
    definitions opens test ++ (definitions opens thenForm ++ definitionsOfOption opens elseForm?)
  | .invoke _ callee args => definitions opens callee ++ definitionsOfList opens args
  | .staticCall _ _ _ args _ => definitionsOfList opens args
  | .memberCall _ target _ args _ => definitions opens target ++ definitionsOfList opens args
  | .throw _ value => definitions opens value
  | .letIn _ _ bindings body => definitionsOfBindings opens bindings ++ definitions opens body
  | .fn _ head arities => ⟨false, head.wrapper?⟩ :: definitionsOfArities opens arities
  | .guarded _ _ body clauses final? =>
    definitions opens body ++
      (definitionsOfClauses opens clauses ++ definitionsOfOption opens final?)
  | .record _ head methods => ⟨false, head.descriptor?⟩ :: definitionsOfMethods opens methods
  | .object _ head methods => ⟨false, head.descriptor?⟩ :: definitionsOfMethods opens methods
  | .superCall _ _ _ args => definitionsOfList opens args
  | .baseCall _ _ _ target args => definitions opens target ++ definitionsOfList opens args
  | .interface _ head => [⟨true, head.descriptor?⟩]

def definitionsOfList (opens : Role → Bool) : List Node → List Definition
  | [] => []
  | n :: ns => definitions opens n ++ definitionsOfList opens ns

def definitionsOfOption (opens : Role → Bool) : Option Node → List Definition
  | none => []
  | some n => definitions opens n

def definitionsOfBindings (opens : Role → Bool) : List LetBinding → List Definition
  | [] => []
  | ⟨_, init, _, _⟩ :: bs => definitions opens init ++ definitionsOfBindings opens bs

def definitionsOfArities (opens : Role → Bool) : List Arity → List Definition
  | [] => []
  | ⟨_, body⟩ :: as => definitions opens body ++ definitionsOfArities opens as

def definitionsOfClauses (opens : Role → Bool) : List CatchClause → List Definition
  | [] => []
  | ⟨_, body⟩ :: cs => definitions opens body ++ definitionsOfClauses opens cs

def definitionsOfMethods (opens : Role → Bool) : List Method → List Definition
  | [] => []
  | ⟨_, body⟩ :: ms => definitions opens body ++ definitionsOfMethods opens ms

end

end Node

/-! ### Types -/

namespace Entry

/-- A synthesized type of the kind that a definition asks for: an interface or a class. -/
inductive Defines : Bool → Entry → Prop
  | ofClass (c : ClassType) (h : c.origin = .synthesized) : Defines false (.classType c)
  | ofInterface (i : InterfaceType) (h : i.IsPlain) : Defines true (.interfaceType i)

/-- A type that synthesis may need besides: a pointer type, an invoker definition or an instance
of one. -/
inductive Auxiliary : Entry → Prop
  | pointer (p : PointerType) : Auxiliary (.pointerType p)
  | invoker (n : Nat) : Auxiliary (.interfaceType (invokerType n))
  | instanceOf (R : Registry) (n : Nat) (args : List TypeRef) (s : Substitution) :
      Auxiliary (.interfaceType (R.instanceAt (invokerType n) (invokerType n).id args s))

/-- The type is no generic definition but an invoker's. -/
def Tame (e : Entry) : Prop :=
  ∀ i, e = .interfaceType i → i.isGeneric = true → ∃ n, i = invokerType n

theorem Defines.origin {k : Bool} {e : Entry} (h : e.Defines k) : e.origin = .synthesized := by
  cases h with
  | ofClass c h => exact h
  | ofInterface i h => exact h.origin

theorem Defines.tame {k : Bool} {e : Entry} (h : e.Defines k) : e.Tame := by
  rintro i rfl generic
  cases h with
  | ofInterface i h =>
    unfold InterfaceType.isGeneric at generic
    rw [h.noParams] at generic
    cases generic

theorem Auxiliary.origin {e : Entry} (h : e.Auxiliary) : e.origin = .host := by
  cases h <;> rfl

theorem Auxiliary.tame {e : Entry} (h : e.Auxiliary) : e.Tame := by
  rintro i rfl generic
  cases h with
  | invoker n => exact ⟨n, rfl⟩
  | instanceOf R n args s => cases generic

end Entry

namespace Registry

/-- Generic definitions under invokers' names are invokers' definitions. -/
def Genuine (R : Registry) : Prop :=
  ∀ n i, R.find? (invokerName n) = some (.interfaceType i) → i.isGeneric = true →
    ∃ m, i = invokerType m

/-- What is found under a name was found there before, or it is one of the added types. -/
theorem Adds.find? {R S : Registry} {es : List Entry} {name : String} {e : Entry}
    (adds : R.Adds es S) (h : S.find? name = some e) : R.find? name = some e ∨ e ∈ es := by
  induction adds with
  | refl => exact .inl h
  | @add es S e' adds _ _ ih =>
    obtain ⟨t, ht, he⟩ := find?_eq_some_iff.1 h
    rw [names_get?_add] at ht
    rw [get?_add] at he
    split at he
    · cases he
      simp
    · rename_i other
      rw [if_neg] at ht
      · exact (ih (find?_eq_some_iff.2 ⟨t, ht, he⟩)).imp id (List.mem_append_left _)
      · intro same
        rw [if_pos same] at ht
        exact other (Option.some.inj ht).symm

theorem Genuine.of_adds {R S : Registry} {es : List Entry} (h : R.Genuine)
    (adds : R.Adds es S) (tame : ∀ e ∈ es, e.Tame) : S.Genuine := by
  intro n i hi generic
  rcases adds.find? hi with old | new
  · exact h n i old generic
  · exact tame _ new i rfl generic

end Registry

/-! ### Accounts -/

/-- The types that a run adds, in order, account for what has become of the definitions of a tree: a
definition that had a type has kept it, and one that was open has been given a type of its kind. -/
inductive Accounts : List Definition → List Definition → List Entry → Prop
  | nil : Accounts [] [] []
  | auxiliary {before after : List Definition} {es : List Entry} {e : Entry}
      (aux : e.Auxiliary) (h : Accounts before after es) : Accounts before after (e :: es)
  | kept {before after : List Definition} {es : List Entry} (k : Bool) (d : Descriptor)
      (h : Accounts before after es) :
      Accounts (⟨k, some d⟩ :: before) (⟨k, some d⟩ :: after) es
  | made {before after : List Definition} {es : List Entry} {k : Bool} {e : Entry}
      (new : e.Defines k) (h : Accounts before after es) :
      Accounts (⟨k, none⟩ :: before) (⟨k, some ⟨e.name, e.id⟩⟩ :: after) (e :: es)

namespace Accounts

variable {before after before' after' : List Definition} {es es' : List Entry}

theorem append (h : Accounts before after es) (h' : Accounts before' after' es') :
    Accounts (before ++ before') (after ++ after') (es ++ es') := by
  induction h with
  | nil => exact h'
  | auxiliary aux _ ih => exact ih.auxiliary aux
  | kept k d _ ih => exact ih.kept k d
  | made new _ ih => exact ih.made new

theorem of_auxiliary (h : ∀ e ∈ es, e.Auxiliary) : Accounts [] [] es := by
  induction es with
  | nil => exact .nil
  | cons e es ih =>
    exact .auxiliary (h e List.mem_cons_self) (ih fun e he => h e (List.mem_cons_of_mem _ he))

theorem tame (h : Accounts before after es) : ∀ e ∈ es, e.Tame := by
  induction h with
  | nil => exact nofun
  | auxiliary aux _ ih => exact List.forall_mem_cons.2 ⟨aux.tame, ih⟩
  | kept _ _ _ ih => exact ih
  | made new _ ih => exact List.forall_mem_cons.2 ⟨new.tame, ih⟩

theorem length_eq (h : Accounts before after es) : after.length = before.length := by
  induction h with
  | nil => rfl
  | auxiliary _ _ ih => exact ih
  | kept _ _ _ ih | made _ _ ih => exact congrArg Nat.succ ih

/-- A definition keeps the type that it has. -/
theorem kept_at (h : Accounts before after es) {i : Nat} {k : Bool} {d : Descriptor}
    (hi : before[i]? = some ⟨k, some d⟩) : after[i]? = some ⟨k, some d⟩ := by
  induction h generalizing i with
  | nil => cases hi
  | auxiliary _ _ ih => exact ih hi
  | kept k' d' _ ih =>
    cases i with
    | zero => exact hi
    | succ i => exact ih hi
  | made _ _ ih =>
    cases i with
    | zero => cases hi
    | succ i => exact ih hi

/-- An open definition is given one of the added types. -/
theorem made_at (h : Accounts before after es) {i : Nat} {k : Bool}
    (hi : before[i]? = some ⟨k, none⟩) :
    ∃ e ∈ es, after[i]? = some ⟨k, some ⟨e.name, e.id⟩⟩ ∧ e.Defines k := by
  induction h generalizing i with
  | nil => cases hi
  | auxiliary _ _ ih =>
    obtain ⟨e, he, hi, new⟩ := ih hi
    exact ⟨e, List.mem_cons_of_mem _ he, hi, new⟩
  | kept _ _ _ ih =>
    cases i with
    | zero => cases hi
    | succ i => exact ih hi
  | @made _ _ _ k' e new _ ih =>
    cases i with
    | zero =>
      cases hi
      exact ⟨e, List.mem_cons_self, rfl, new⟩
    | succ i =>
      obtain ⟨e', he', hi, new'⟩ := ih hi
      exact ⟨e', List.mem_cons_of_mem _ he', hi, new'⟩

/-- An added type is given to a definition that was open, or it is an auxiliary one. -/
theorem of_mem (h : Accounts before after es) {e : Entry} (he : e ∈ es) :
    e.Auxiliary ∨ ∃ (i : Nat) (k : Bool), before[i]? = some ⟨k, none⟩ ∧
      after[i]? = some ⟨k, some ⟨e.name, e.id⟩⟩ ∧ e.Defines k := by
  induction h with
  | nil => cases he
  | auxiliary aux _ ih =>
    rcases List.mem_cons.1 he with rfl | he
    · exact .inl aux
    · exact ih he
  | kept _ _ _ ih =>
    refine (ih he).imp id ?_
    rintro ⟨i, k, hi⟩
    exact ⟨i + 1, k, hi⟩
  | made new _ ih =>
    rcases List.mem_cons.1 he with rfl | he
    · exact .inr ⟨0, _, rfl, rfl, new⟩
    · refine (ih he).imp id ?_
      rintro ⟨i, k, hi⟩
      exact ⟨i + 1, k, hi⟩

/-- Different definitions are given different types. -/
theorem injective (h : Accounts before after es) (nodup : (es.map Entry.id).Nodup) {i j : Nat}
    {k l : Bool} {d : Definition} {e : Definition} (hi : before[i]? = some ⟨k, none⟩)
    (hj : before[j]? = some ⟨l, none⟩) (hd : after[i]? = some d) (he : after[j]? = some e)
    (same : d.descriptor?.map Descriptor.id = e.descriptor?.map Descriptor.id) : i = j := by
  induction h generalizing i j with
  | nil => cases hi
  | auxiliary _ _ ih => exact ih (List.nodup_cons.1 nodup).2 hi hj hd he
  | kept _ _ _ ih =>
    cases i with
    | zero => cases hi
    | succ i =>
      cases j with
      | zero => cases hj
      | succ j => exact congrArg Nat.succ (ih nodup hi hj hd he)
  | @made before after es k' e' _ rest ih =>
    obtain ⟨fresh, nodup⟩ := List.nodup_cons.1 nodup
    -- the type of this definition is not added again for a later one
    have later {m : Nat} {l' : Bool} {D : Definition} (hm : before[m]? = some ⟨l', none⟩)
        (hD : after[m]? = some D) (same : D.descriptor?.map Descriptor.id = some e'.id) :
        False := by
      obtain ⟨e'', he'', hm', -⟩ := rest.made_at hm
      rw [hm'] at hD
      cases hD
      exact fresh (List.mem_map.2 ⟨e'', he'', Option.some.inj same⟩)
    cases i with
    | zero =>
      cases j with
      | zero => rfl
      | succ j =>
        cases hd
        exact (later hj he same.symm).elim
    | succ i =>
      cases j with
      | zero =>
        cases he
        exact (later hi hd same).elim
      | succ j => exact congrArg Nat.succ (ih nodup hi hj hd he)

end Accounts

/-! ### The bijection -/

/-- What a run makes of the definitions of a tree.

A definition that had a type keeps it.  One that was open is given a synthesized type of its kind,
which its descriptor names and which the run has added.  This is a bijection between the open
definitions and the synthesized types that the run adds.  All else that it adds is auxiliary, and
what was there before stays as it was. -/
structure Synthesizes (first last : Registry) (before after : List Definition) : Prop where
  length : after.length = before.length
  kept (i : Nat) (k : Bool) (d : Descriptor) (hi : before[i]? = some ⟨k, some d⟩) :
    after[i]? = some ⟨k, some d⟩
  made (i : Nat) (k : Bool) (hi : before[i]? = some ⟨k, none⟩) :
    ∃ d e, after[i]? = some ⟨k, some d⟩ ∧ last.get? d.id = some e ∧ e.name = d.name ∧ e.Defines k
  bijective : Set.BijOn
    (fun i : Nat => after[i]?.bind fun D => D.descriptor?.map Descriptor.id)
    {i | ∃ k : Bool, before[i]? = some ⟨k, none⟩}
    {t? | ∃ t e, t? = some t ∧ first.get? t = none ∧ last.get? t = some e ∧
      e.origin = .synthesized}
  others (t : TypeId) (e : Entry) (new : first.get? t = none) (he : last.get? t = some e)
    (host : e.origin ≠ .synthesized) : e.Auxiliary
  stays (t : TypeId) (e : Entry) (he : first.get? t = some e) : last.get? t = some e

theorem Accounts.synthesizes {first last : Registry} {es : List Entry}
    {before after : List Definition} (adds : first.Adds es last)
    (h : Accounts before after es) : Synthesizes first last before after := by
  have added {t : TypeId} {e : Entry} (new : first.get? t = none) (he : last.get? t = some e) :
      e ∈ es ∧ e.id = t := by
    rcases adds.get?_eq_some_iff.1 he with old | new'
    · rw [new] at old
      cases old
    · exact new'
  have registered {e : Entry} (he : e ∈ es) :
      first.get? e.id = none ∧ last.get? e.id = some e :=
    ⟨contains_eq_false_iff.1 (adds.nodup.2 e he), adds.get?_eq_some_iff.2 (.inr ⟨he, rfl⟩)⟩
  refine ⟨h.length_eq, fun i k d hi => h.kept_at hi, fun i k hi => ?_, ⟨?_, ?_, ?_⟩,
    fun t e new he host => ?_, fun t e he => adds.get? he⟩
  · obtain ⟨e, he, hafter, new⟩ := h.made_at hi
    exact ⟨⟨e.name, e.id⟩, e, hafter, (registered he).2, rfl, new⟩
  · rintro i ⟨k, hi⟩
    obtain ⟨e, he, hafter, new⟩ := h.made_at hi
    refine ⟨e.id, e, ?_, (registered he).1, (registered he).2, new.origin⟩
    simp only [hafter, Option.bind_some, Option.map_some]
  · rintro i ⟨k, hi⟩ j ⟨l, hj⟩ same
    obtain ⟨e, -, hafter, -⟩ := h.made_at hi
    obtain ⟨e', -, hafter', -⟩ := h.made_at hj
    refine h.injective adds.nodup.1 hi hj hafter hafter' ?_
    simpa only [hafter, hafter', Option.bind_some] using same
  · rintro _ ⟨t, e, rfl, new, he, origin⟩
    obtain ⟨mem, rfl⟩ := added new he
    rcases h.of_mem mem with aux | ⟨i, k, hi, hafter, -⟩
    · rw [aux.origin] at origin
      cases origin
    · exact ⟨i, ⟨k, hi⟩, by simp only [hafter, Option.bind_some, Option.map_some]⟩
  · obtain ⟨mem, -⟩ := added new he
    rcases h.of_mem mem with aux | ⟨i, k, -, -, defines⟩
    · exact aux
    · exact absurd defines.origin host

end TypeSynthesis
