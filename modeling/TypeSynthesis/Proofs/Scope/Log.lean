import Mathlib.Algebra.Group.Nat.Defs
import TypeSynthesis.Environment

/-!
# One log for all scopes

An `Environment` keeps a single log for all open scopes and a depth of 32 bits.  Its log is always
in order, so that the entries of the innermost scope stand together at its end.

* `ScopeStep`, with `Environment.step` and `Scope.step`: opening a scope, binding a name, closing a
  scope;
* `ScopeStep.deepest`: the greatest depth on the way;
* `Environment.InOrder`, `InOrder.step`: the depths in the log fall from the newest entry to the
  oldest, and none is beyond the present one;
* `toScope_step`: a step of an environment is a step of its scopes;
* `InOrder.run`: along every run the log stays in order, and the run is one of the scopes.

The depth has to stay below 2 ^ 32.  Closing a scope where none is open is no exception.
-/

namespace TypeSynthesis

/-! ### Properties of a front part -/

section Front

variable {α : Type} {p : α → Bool} {l : List α}

theorem takeWhile_eq_filter (front : l.Pairwise fun x y => p y → p x) :
    l.takeWhile p = l.filter p := by
  induction l with
  | nil => rfl
  | cons x l ih =>
    obtain ⟨first, rest⟩ := List.pairwise_cons.1 front
    by_cases hx : p x
    · rw [List.takeWhile_cons_of_pos hx, List.filter_cons_of_pos hx, ih rest]
    · have none : l.filter p = [] :=
        List.filter_eq_nil_iff.2 fun y hy hpy => hx (first y hy hpy)
      rw [List.takeWhile_cons_of_neg hx, List.filter_cons_of_neg hx, none]

theorem dropWhile_eq_filter (front : l.Pairwise fun x y => p y → p x) :
    l.dropWhile p = l.filter (!p ·) := by
  induction l with
  | nil => rfl
  | cons x l ih =>
    obtain ⟨first, rest⟩ := List.pairwise_cons.1 front
    by_cases hx : p x
    · rw [List.dropWhile_cons_of_pos hx, List.filter_cons_of_neg (by simpa using hx), ih rest]
    · have all : (x :: l).filter (!p ·) = x :: l := by
        refine List.filter_eq_self.2 fun y hy => ?_
        rcases List.mem_cons.1 hy with rfl | hy
        · simpa using hx
        · simpa using mt (first y hy) hx
      rw [List.dropWhile_cons_of_neg hx, all]

end Front

/-! ### Steps -/

/-- A step that changes what is in view. -/
inductive ScopeStep
  | push
  | bind (name : String) (b : Binding)
  | pop
  deriving DecidableEq, Repr, Inhabited

/-- The scope after a step. -/
def Scope.step (s : Scope) : ScopeStep → Scope
  | .push => s.push
  | .bind name b => s.bind name b
  | .pop => s.pop

/-- The environment after a step. -/
def Environment.step (e : Environment) : ScopeStep → Environment
  | .push => e.push
  | .bind name b => e.bind name b
  | .pop => e.pop

namespace ScopeStep

/-- The depth after a step. -/
def after (depth : Nat) : ScopeStep → Nat
  | push => depth + 1
  | bind .. => depth
  | pop => depth - 1

/-- The greatest depth that steps lead to. -/
def deepest (depth : Nat) : List ScopeStep → Nat
  | [] => depth
  | a :: steps => max depth (deepest (a.after depth) steps)

theorem le_deepest (depth : Nat) (steps : List ScopeStep) : depth ≤ deepest depth steps := by
  cases steps with
  | nil => exact Nat.le_refl depth
  | cons a steps => exact Nat.le_max_left ..

/-- All that steps lead to lies below the greatest depth. -/
theorem deepest_after_le (depth : Nat) (a : ScopeStep) (steps : List ScopeStep) :
    deepest (a.after depth) steps ≤ deepest depth (a :: steps) :=
  Nat.le_max_right ..

end ScopeStep

namespace Environment

variable {e : Environment} {a : ScopeStep} {steps : List ScopeStep} {d : Nat}

/-- The step leads to a depth of 32 bits. -/
def Fits (e : Environment) (a : ScopeStep) : Prop := a.after e.depth.toNat < 2 ^ 32

theorem toNat_depth_push (fits : e.Fits .push) : e.push.depth.toNat = e.depth.toNat + 1 := by
  show (e.depth + 1).toNat = _
  rw [UInt32.toNat_add]
  exact Nat.mod_eq_of_lt fits

theorem toNat_depth_pop (e : Environment) : e.pop.depth.toNat = e.depth.toNat - 1 := by
  show (if e.depth = 0 then (0 : UInt32) else e.depth - 1).toNat = _
  split
  · rename_i outermost
    rw [outermost]
    rfl
  · rename_i inside
    have positive : 1 ≤ e.depth := by
      rw [UInt32.le_iff_toNat_le]
      exact Nat.one_le_iff_ne_zero.2 fun zero => inside (UInt32.toNat_inj.1 zero)
    rw [UInt32.toNat_sub_of_le _ _ positive]
    rfl

theorem toNat_depth_step (fits : e.Fits a) :
    (e.step a).depth.toNat = a.after e.depth.toNat := by
  cases a with
  | push => exact toNat_depth_push fits
  | bind name b => rfl
  | pop => exact e.toNat_depth_pop

/-! ### The order of the log -/

/-- Unwinding restores what the entries of the depth at the end of the log replaced. -/
theorem unwind_eq (depth : UInt32) (visible : Table String Binding) (log : List Logged) :
    unwind depth visible log =
      (((log.takeWhile (·.depth = depth)).map Logged.replaced).foldl Scope.restore visible,
        log.dropWhile (·.depth = depth)) := by
  induction log generalizing visible with
  | nil => rfl
  | cons r log ih =>
    by_cases h : r.depth = depth
    · simp [unwind, h, ih]
    · simp [unwind, h]

/-- The depths in the log fall from the newest entry to the oldest, and none is beyond the present
depth. -/
structure InOrder (e : Environment) : Prop where
  falling : e.log.Pairwise fun new old => old.depth ≤ new.depth
  below : ∀ r ∈ e.log, r.depth ≤ e.depth

theorem inOrder_empty : empty.InOrder where
  falling := .nil
  below _ hr := absurd hr List.not_mem_nil

namespace InOrder

variable (h : e.InOrder)
include h

/-- What is newer than an entry of the present depth is of the present depth. -/
theorem ahead :
    e.log.Pairwise fun new old => decide (old.depth = e.depth) → decide (new.depth = e.depth) := by
  refine h.falling.imp_of_mem fun {new old} hnew _ falls here => ?_
  rw [decide_eq_true_eq] at here ⊢
  exact UInt32.le_antisymm (h.below new hnew) (here ▸ falls)

/-- The entries of the present depth are those at the end of the log. -/
theorem takeWhile_log :
    e.log.takeWhile (·.depth = e.depth) = e.log.filter (·.depth = e.depth) :=
  takeWhile_eq_filter h.ahead

/-- Closing a scope leaves the entries of lower depths. -/
theorem log_pop : e.pop.log = e.log.filter fun r => !decide (r.depth = e.depth) :=
  (congrArg Prod.snd (unwind_eq ..)).trans (dropWhile_eq_filter h.ahead)

protected theorem push (fits : e.Fits .push) : e.push.InOrder where
  falling := h.falling
  below r hr := by
    have bound := h.below r hr
    rw [UInt32.le_iff_toNat_le] at bound ⊢
    rw [toNat_depth_push fits]
    exact Nat.le_succ_of_le bound

protected theorem bind (name : String) (b : Binding) : (e.bind name b).InOrder where
  falling := List.pairwise_cons.2 ⟨h.below, h.falling⟩
  below r hr := by
    rcases List.mem_cons.1 hr with rfl | hr
    · exact UInt32.le_refl _
    · exact h.below r hr

protected theorem pop : e.pop.InOrder where
  falling := by
    rw [h.log_pop]
    exact h.falling.filter _
  below r hr := by
    rw [h.log_pop] at hr
    obtain ⟨kept, elsewhere⟩ := List.mem_filter.1 hr
    have bound := h.below r kept
    have differ : r.depth.toNat ≠ e.depth.toNat := by
      simpa [UInt32.toNat_inj] using elsewhere
    rw [UInt32.le_iff_toNat_le] at bound ⊢
    rw [toNat_depth_pop]
    omega

/-- Every step keeps the log in order. -/
protected theorem step (fits : e.Fits a) : (e.step a).InOrder := by
  cases a with
  | push => exact h.push fits
  | bind name b => exact h.bind name b
  | pop => exact h.pop

end InOrder

/-! ### The scopes in the log -/

theorem toScope_push (h : e.InOrder) (fits : e.Fits .push) : e.push.toScope = e.toScope.push := by
  have depth := toNat_depth_push fits
  have unused : e.push.replacedAt e.push.depth.toNat = [] := by
    unfold replacedAt
    rw [List.map_eq_nil_iff, List.filter_eq_nil_iff]
    intro r hr
    have bound := UInt32.le_iff_toNat_le.1 (h.below r hr)
    rw [depth, decide_eq_true_eq]
    omega
  unfold toScope Scope.push
  rw [unused, depth, List.range_succ, List.reverse_append]
  rfl

theorem toScope_bind (e : Environment) (name : String) (b : Binding) :
    (e.bind name b).toScope = e.toScope.bind name b := by
  have here : (e.bind name b).replacedAt e.depth.toNat =
      ⟨name, e.get? name⟩ :: e.replacedAt e.depth.toNat := by
    simp [replacedAt, bind]
  have elsewhere : ∀ d ∈ (List.range e.depth.toNat).reverse,
      (e.bind name b).replacedAt d = e.replacedAt d := by
    intro d hd
    have lower : e.depth.toNat ≠ d := by
      rw [List.mem_reverse, List.mem_range] at hd
      omega
    simp [replacedAt, bind, lower]
  show Scope.mk _ ((e.bind name b).replacedAt e.depth.toNat)
    ((List.range e.depth.toNat).reverse.map (e.bind name b).replacedAt) = _
  rw [here, List.map_congr_left elsewhere]
  rfl

/-- Closing a scope restores what the scope replaced. -/
theorem visible_pop (h : e.InOrder) :
    e.pop.visible = e.toScope.current.foldl Scope.restore e.visible := by
  refine (congrArg Prod.fst (unwind_eq ..)).trans ?_
  rw [h.takeWhile_log]
  simp [toScope, replacedAt, UInt32.toNat_inj]

/-- Closing a scope leaves what the scopes around it replaced. -/
theorem replacedAt_pop (h : e.InOrder) (lower : d ≠ e.depth.toNat) :
    e.pop.replacedAt d = e.replacedAt d := by
  unfold replacedAt
  rw [h.log_pop, List.filter_filter]
  congr 1
  refine List.filter_congr fun r _ => ?_
  by_cases here : r.depth.toNat = d
  · have elsewhere : r.depth ≠ e.depth := fun same => lower (same ▸ here.symm)
    simp [here, elsewhere]
  · simp [here]

/-- At depth zero, closing a scope empties the log. -/
theorem log_pop_outermost (h : e.InOrder) (outermost : e.depth.toNat = 0) : e.pop.log = [] := by
  rw [h.log_pop, List.filter_eq_nil_iff]
  intro r hr
  have bound := UInt32.le_iff_toNat_le.1 (h.below r hr)
  have here : r.depth = e.depth := UInt32.toNat_inj.1 (by omega)
  simp [here]

theorem toScope_pop (h : e.InOrder) : e.pop.toScope = e.toScope.pop := by
  have visible := visible_pop h
  have depth := e.toNat_depth_pop
  unfold Scope.pop
  cases hd : e.depth.toNat with
  | zero =>
    have enclosing : e.toScope.enclosing = [] := by simp [toScope, hd]
    have emptied := log_pop_outermost h hd
    rw [hd] at depth
    rw [enclosing, toScope, depth, replacedAt, emptied, visible]
    rfl
  | succ d =>
    have enclosing : e.toScope.enclosing =
        e.replacedAt d :: (List.range d).reverse.map e.replacedAt := by
      simp [toScope, hd, List.range_succ]
    have around : ∀ i ∈ (List.range d).reverse, e.pop.replacedAt i = e.replacedAt i := by
      intro i hi
      rw [List.mem_reverse, List.mem_range] at hi
      exact replacedAt_pop h (by omega)
    rw [hd, Nat.add_sub_cancel] at depth
    rw [enclosing, toScope, depth, visible, replacedAt_pop h (by omega),
      List.map_congr_left around]
    rfl

/-- A step of the environment is a step of its scopes. -/
theorem toScope_step (h : e.InOrder) (fits : e.Fits a) :
    (e.step a).toScope = e.toScope.step a := by
  cases a with
  | push => exact toScope_push h fits
  | bind name b => exact e.toScope_bind name b
  | pop => exact toScope_pop h

/-! ### Runs -/

/-- The steps lead to depths of 32 bits only. -/
theorem fits_of_deepest (shallow : ScopeStep.deepest e.depth.toNat (a :: steps) < 2 ^ 32) :
    e.Fits a :=
  calc
    a.after e.depth.toNat ≤ ScopeStep.deepest (a.after e.depth.toNat) steps :=
      ScopeStep.le_deepest ..
    _ ≤ ScopeStep.deepest e.depth.toNat (a :: steps) := ScopeStep.deepest_after_le ..
    _ < 2 ^ 32 := shallow

/-- Below the greatest depth, the log stays in order along every run, and the run is one of the
scopes. -/
theorem InOrder.run (h : e.InOrder)
    (shallow : ScopeStep.deepest e.depth.toNat steps < 2 ^ 32) :
    (steps.foldl step e).InOrder ∧
      (steps.foldl step e).toScope = steps.foldl Scope.step e.toScope := by
  induction steps generalizing e with
  | nil => exact ⟨h, rfl⟩
  | cons a steps ih =>
    have fits := fits_of_deepest shallow
    have rest : ScopeStep.deepest (e.step a).depth.toNat steps < 2 ^ 32 := by
      rw [toNat_depth_step fits]
      exact Nat.lt_of_le_of_lt (ScopeStep.deepest_after_le ..) shallow
    rw [List.foldl_cons, List.foldl_cons, ← toScope_step h fits]
    exact ih (h.step fits) rest

end Environment

end TypeSynthesis
