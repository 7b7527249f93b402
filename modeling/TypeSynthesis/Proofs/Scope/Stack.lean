import Mathlib.Data.List.Nodup
import Mathlib.Data.Set.Card
import TypeSynthesis.Proofs.Scope.Log

/-!
# Environments are stacks of scopes

An `Environment` keeps one table of what is in view and one log of what to undo.  It behaves as a
plain stack does that keeps the bindings of each open scope and undoes nothing.

* `ScopeStack`, `ScopeStack.lookup`: the stack, and the newest binding of a name in the innermost
  scope that holds one;
* `ScopeStack.step`: opening a scope, binding a name, closing a scope;
* `ScopeStack.replay`: the scope that making the bindings of a stack once more leads to;
* `replay_step`: a step of the stack is a step of this scope;
* `models_steps`: after any steps that stay below depth 2 ^ 32, both show the same bindings, depth
  and number of names.

The log is read as scopes first (`Environment.InOrder.run`), and these are compared with the stack.
Closing a scope where none is open clears the bindings made at the outermost level.
-/

namespace TypeSynthesis

/-! ### The keys of a table -/

namespace Table

variable {κ ν : Type} [DecidableEq κ] {l : List (κ × ν)} {t : Table κ ν} {a k : κ}

theorem mem_keys_put {v : ν} : a ∈ (put k v l).map (·.1) ↔ a = k ∨ a ∈ l.map (·.1) := by
  induction l with
  | nil => simp [put]
  | cons p l ih =>
    unfold put
    split
    · rename_i same
      simp [same]
    · rw [List.map_cons, List.mem_cons, ih, List.map_cons, List.mem_cons, or_left_comm]

theorem nodup_keys_put (h : (l.map (·.1)).Nodup) (k : κ) (v : ν) :
    ((put k v l).map (·.1)).Nodup := by
  induction l with
  | nil => exact List.nodup_singleton k
  | cons p l ih =>
    rw [List.map_cons, List.nodup_cons] at h
    unfold put
    split
    · rename_i same
      exact List.nodup_cons.2 ⟨same ▸ h.1, h.2⟩
    · rename_i differ
      refine List.nodup_cons.2 ⟨fun mem => ?_, ih h.2⟩
      exact (mem_keys_put.1 mem).elim (fun same => differ same.symm) h.1

/-- Setting the value of a key lists no key twice. -/
theorem nodup_keys_insert (h : t.keys.Nodup) (k : κ) (v : ν) : (t.insert k v).keys.Nodup :=
  nodup_keys_put h k v

theorem mem_keys_iff : k ∈ t.keys ↔ (t.get? k).isSome = true := by
  obtain ⟨l⟩ := t
  show k ∈ l.map (·.1) ↔ (l.lookup k).isSome = true
  induction l with
  | nil => simp
  | cons p l ih =>
    by_cases h : k = p.1
    · simp [h]
    · rw [List.map_cons, List.mem_cons, lookup_cons_of_ne h, ih, or_iff_right h]

/-- A table that lists no key twice has as many entries as keys with a value. -/
theorem size_eq_ncard (h : t.keys.Nodup) :
    t.size = {k : κ | (t.get? k).isSome = true}.ncard := by
  have keys : {k : κ | (t.get? k).isSome = true} = (t.keys.toFinset : Set κ) := by
    ext k
    simp [mem_keys_iff]
  rw [keys, Set.ncard_coe_finset, List.toFinset_card_of_nodup h]
  exact (List.length_map _).symm

end Table

/-! ### Stacks -/

/-- The bindings made in one scope, newest first. -/
abbrev Frame := List (String × Binding)

/-- The scopes that are open, at least one, innermost first. -/
structure ScopeStack where
  top : Frame := []
  rest : List Frame := []
  deriving DecidableEq, Repr, Inhabited

namespace ScopeStack

/-- All open scopes, innermost first. -/
def frames (st : ScopeStack) : List Frame := st.top :: st.rest

/-- The newest binding of a name in the innermost scope that holds one. -/
def lookup (st : ScopeStack) (name : String) : Option Binding :=
  st.frames.findSome? (·.lookup name)

/-- The stack after a step.  The only scope is not removed but emptied. -/
def step (st : ScopeStack) : ScopeStep → ScopeStack
  | .push => ⟨[], st.frames⟩
  | .bind name b => ⟨(name, b) :: st.top, st.rest⟩
  | .pop =>
    match st.rest with
    | [] => ⟨[], []⟩
    | f :: fs => ⟨f, fs⟩

/-- The environment shows what the stack holds: the same binding of every name, one open scope less
than the stack is high, and as many names as have a binding. -/
structure Models (st : ScopeStack) (e : Environment) : Prop where
  get? (name : String) : e.get? name = st.lookup name
  depth : e.depth.toNat + 1 = st.frames.length
  size : e.size = {name : String | (st.lookup name).isSome = true}.ncard

/-! ### A stack made once more -/

/-- Make bindings, the oldest first. -/
def bindAll (s : Scope) (f : Frame) : Scope := f.foldr (fun b s => s.bind b.1 b.2) s

/-- The scope in which the bindings of the innermost scope are made. -/
def base : List Frame → Scope
  | [] => .empty
  | f :: fs => (bindAll (base fs) f).push

/-- The scope that the bindings of the stack lead to. -/
def replay (st : ScopeStack) : Scope := bindAll (base st.rest) st.top

/-- Closing a scope undoes all bindings made in it. -/
theorem pop_bindAll (s : Scope) (f : Frame) : (bindAll s f).pop = s.pop := by
  induction f with
  | nil => rfl
  | cons b f ih => exact (Scope.pop_bind ..).trans ih

/-- A step of the stack is a step of the scope that it leads to. -/
theorem replay_step (st : ScopeStack) (a : ScopeStep) : (st.step a).replay = st.replay.step a := by
  cases a with
  | push => rfl
  | bind name b => rfl
  | pop =>
    obtain ⟨top, rest⟩ := st
    show _ = (bindAll (base rest) top).pop
    rw [pop_bindAll]
    cases rest with
    | nil => rfl
    | cons f fs => exact (Scope.pop_push (bindAll (base fs) f)).symm

theorem replay_steps (st : ScopeStack) (steps : List ScopeStep) :
    (steps.foldl step st).replay = steps.foldl Scope.step st.replay := by
  induction steps generalizing st with
  | nil => rfl
  | cons a steps ih => rw [List.foldl_cons, List.foldl_cons, ih, replay_step]

/-! ### What is in view -/

theorem get?_bindAll (s : Scope) (f : Frame) (name : String) :
    (bindAll s f).get? name = (f.lookup name).or (s.get? name) := by
  induction f with
  | nil => rfl
  | cons b f ih =>
    show ((bindAll s f).bind b.1 b.2).get? name = _
    rw [Scope.get?_bind, ih]
    by_cases h : name = b.1
    · rw [if_pos h, h, List.lookup_cons_self, Option.some_or]
    · rw [if_neg h, Table.lookup_cons_of_ne h]

theorem get?_base (fs : List Frame) (name : String) :
    (base fs).get? name = fs.findSome? (·.lookup name) := by
  induction fs with
  | nil => rfl
  | cons f fs ih =>
    rw [base, Scope.get?_push, get?_bindAll, ih, List.findSome?_cons]
    cases f.lookup name <;> rfl

theorem get?_replay (st : ScopeStack) (name : String) : st.replay.get? name = st.lookup name := by
  unfold replay lookup frames
  rw [get?_bindAll, get?_base, List.findSome?_cons]
  cases st.top.lookup name <;> rfl

theorem depth_bindAll (s : Scope) (f : Frame) : (bindAll s f).depth = s.depth := by
  induction f with
  | nil => rfl
  | cons b f ih => exact (Scope.depth_bind ..).trans ih

theorem depth_base (fs : List Frame) : (base fs).depth = fs.length := by
  induction fs with
  | nil => rfl
  | cons f fs ih => rw [base, Scope.depth_push, depth_bindAll, ih, List.length_cons]

/-! ### How many names are in view -/

theorem nodup_bindAll {s : Scope} (h : s.visible.keys.Nodup) (f : Frame) :
    (bindAll s f).visible.keys.Nodup := by
  induction f with
  | nil => exact h
  | cons b f ih => exact Table.nodup_keys_insert ih b.1 b.2

theorem nodup_base (fs : List Frame) : (base fs).visible.keys.Nodup := by
  induction fs with
  | nil => exact List.nodup_nil
  | cons f fs ih => exact nodup_bindAll ih f

theorem depth_replay (st : ScopeStack) : st.replay.depth + 1 = st.frames.length := by
  unfold replay frames
  rw [depth_bindAll, depth_base, List.length_cons]

theorem size_replay (st : ScopeStack) :
    st.replay.size = {name : String | (st.lookup name).isSome = true}.ncard := by
  simp only [← get?_replay]
  exact Table.size_eq_ncard (nodup_bindAll (nodup_base st.rest) st.top)

/-- An environment whose scopes are those that the bindings of a stack lead to shows what the stack
holds. -/
theorem models_of_toScope {st : ScopeStack} {e : Environment} (h : e.toScope = st.replay) :
    st.Models e where
  get? name := by rw [← e.get?_toScope, h, st.get?_replay]
  depth := by rw [← e.depth_toScope, h, st.depth_replay]
  size := by rw [← e.size_toScope, h, st.size_replay]

end ScopeStack

/-- After any steps an environment shows what a plain stack of scopes holds, surplus closings
included, as long as no step leads to a depth of more than 32 bits. -/
theorem models_steps (steps : List ScopeStep) (shallow : ScopeStep.deepest 0 steps < 2 ^ 32) :
    (steps.foldl ScopeStack.step {}).Models (steps.foldl Environment.step .empty) := by
  have scopes : (steps.foldl Environment.step .empty).toScope = steps.foldl Scope.step .empty :=
    (Environment.inOrder_empty.run shallow).2
  have stack : (steps.foldl ScopeStack.step {}).replay = steps.foldl Scope.step .empty :=
    ScopeStack.replay_steps {} steps
  exact ScopeStack.models_of_toScope (scopes.trans stack.symm)

/-- A binding that is introduced in the given line. -/
def boundAt (t : TypeId) (line : Nat) : Binding := ⟨.value t, .letBound, ⟨line, 1⟩⟩

/-- A name is bound, bound twice more in a scope of its own, and another name once this scope was
closed, and closed again where none is open. -/
def rebindings : List ScopeStep :=
  [.bind "x" (boundAt Primitive.int.id 1), .push, .bind "x" (boundAt Primitive.long.id 2),
    .bind "x" (boundAt .object 3), .pop, .pop, .bind "y" (boundAt Primitive.int.id 4)]

/-- Within the scope the newest binding is seen, after it the first one, and at last only the other
name. -/
theorem models_steps_rebindings : ScopeStep.deepest 0 rebindings < 2 ^ 32 ∧
    (rebindings.foldl ScopeStack.step {}).Models (rebindings.foldl Environment.step .empty) ∧
    ((rebindings.take 4).foldl Environment.step .empty).get? "x" = some (boundAt .object 3) ∧
    ((rebindings.take 5).foldl Environment.step .empty).get? "x" =
      some (boundAt Primitive.int.id 1) ∧
    (rebindings.foldl Environment.step .empty).get? "x" = none ∧
    (rebindings.foldl Environment.step .empty).size = 1 :=
  ⟨by decide, models_steps rebindings (by decide), by decide +kernel, by decide +kernel,
    by decide +kernel, by decide +kernel⟩

end TypeSynthesis
