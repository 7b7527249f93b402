import TypeSynthesis.Binding
import TypeSynthesis.Error
import TypeSynthesis.Table

/-!
# Scopes

The bindings in view while a form is resolved.  Each binding records what it replaced, and closing
a scope puts back exactly that, so a subtree sees its own bindings over those of its surroundings
and siblings never see each other's.

* `Scope`: the visible bindings with an undo list for each open scope;
* `Scope.push`, `Scope.pop`, `Scope.bind`: opening and closing scopes, and binding a name;
* `Scope.get?`, `Scope.require`: look-up.

At the outermost level `Scope.pop` undoes the bindings made there and stays at that level.  An
`Environment` keeps one log for all scopes in place of the lists, and its steps are those of a
scope (`Environment.toScope`).
-/

namespace TypeSynthesis

/-- A bound name with the binding it replaced. -/
structure Replaced where
  name : String
  old? : Option Binding
  deriving DecidableEq, Repr, Inhabited

/-- The bindings in view. -/
structure Scope where
  visible : Table String Binding := {}
  /-- What the innermost scope replaced, newest first. -/
  current : List Replaced := []
  /-- The same for the scopes around it, innermost first. -/
  enclosing : List (List Replaced) := []
  deriving DecidableEq, Repr, Inhabited

namespace Scope

/-- No binding in view and no scope open. -/
def empty : Scope := {}

/-- The number of open scopes. -/
def depth (s : Scope) : Nat := s.enclosing.length

/-- The number of names in view. -/
def size (s : Scope) : Nat := s.visible.size

/-- The binding of a name. -/
def get? (s : Scope) (name : String) : Option Binding := s.visible.get? name

/-- The type of a name. -/
def typeOf? (s : Scope) (name : String) : Option TypeRef := (s.get? name).map Binding.type

/-- The binding of a name that must be in view. -/
def require (s : Scope) (name : String) (span : Span) : Except CompilationError Binding :=
  match s.get? name with
  | some b => .ok b
  | none => .error (.unboundLocal name span)

/-- Open a scope. -/
def push (s : Scope) : Scope := { s with current := [], enclosing := s.current :: s.enclosing }

/-- Bind a name in the innermost scope. -/
def bind (s : Scope) (name : String) (b : Binding) : Scope :=
  { s with visible := s.visible.insert name b, current := ⟨name, s.get? name⟩ :: s.current }

/-- Put back what a binding replaced. -/
def restore (visible : Table String Binding) (r : Replaced) : Table String Binding :=
  match r.old? with
  | some b => visible.insert r.name b
  | none => visible.erase r.name

/-- Close the innermost scope. -/
def pop (s : Scope) : Scope :=
  let visible := s.current.foldl restore s.visible
  match s.enclosing with
  | [] => { visible }
  | rs :: rest => { visible, current := rs, enclosing := rest }

/-! ### What the operations do -/

@[simp] theorem get?_push (s : Scope) (name : String) : s.push.get? name = s.get? name := rfl

theorem get?_bind (s : Scope) (name name' : String) (b : Binding) :
    (s.bind name b).get? name' = if name' = name then some b else s.get? name' :=
  Table.get?_insert s.visible name name' b

@[simp] theorem depth_push (s : Scope) : s.push.depth = s.depth + 1 := rfl

@[simp] theorem depth_bind (s : Scope) (name : String) (b : Binding) :
    (s.bind name b).depth = s.depth := rfl

@[simp] theorem depth_pop (s : Scope) : s.pop.depth = s.depth - 1 := by
  unfold pop depth
  cases s.enclosing <;> rfl

/-- Restoring what a binding replaced gives the visible bindings before it. -/
theorem restore_bind (s : Scope) (name : String) (b : Binding) :
    restore (s.visible.insert name b) ⟨name, s.get? name⟩ = s.visible := by
  unfold restore
  cases h : s.get? name with
  | none => exact Table.erase_insert h
  | some old => exact Table.insert_insert h

/-- Closing a scope undoes the last binding made in it. -/
@[simp] theorem pop_bind (s : Scope) (name : String) (b : Binding) :
    (s.bind name b).pop = s.pop := by
  unfold pop
  simp only [bind, List.foldl_cons, restore_bind]

/-- A scope in which nothing is bound leaves no trace. -/
@[simp] theorem pop_push (s : Scope) : s.push.pop = s := rfl

end Scope

end TypeSynthesis
