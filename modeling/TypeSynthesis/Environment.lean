import TypeSynthesis.Scope

/-!
# Environments

The bindings in view with a single log of what they replaced.  Each entry of the log carries the
depth at which its binding was made, and closing a scope undoes the entries at the end of the log
that carry the present depth.

* `Environment`: the visible bindings, the log and the depth, a number of 32 bits;
* `Environment.push`, `Environment.pop`, `Environment.bind`: opening and closing scopes, and
  binding a name;
* `Environment.get?`, `Environment.size`: what is in view;
* `Environment.toScope`: the log taken apart by depths, with an undo list for each scope.

A scope that is opened at the last depth of all leads back to depth zero, where the log would no
longer be in order.  Below that, the operations are those of a `Scope`.
-/

namespace TypeSynthesis

/-- What a binding replaced, with the depth at which it was made. -/
structure Logged where
  depth : UInt32
  replaced : Replaced
  deriving DecidableEq, Repr, Inhabited

/-- The bindings in view, with a log of all that was replaced. -/
structure Environment where
  visible : Table String Binding := {}
  /-- What the bindings of the open scopes replaced, newest first. -/
  log : List Logged := []
  /-- The number of open scopes. -/
  depth : UInt32 := 0
  deriving DecidableEq, Repr, Inhabited

namespace Environment

/-- No binding in view and no scope open. -/
def empty : Environment := {}

/-- The number of names in view. -/
def size (e : Environment) : Nat := e.visible.size

/-- The binding of a name. -/
def get? (e : Environment) (name : String) : Option Binding := e.visible.get? name

/-- Open a scope. -/
def push (e : Environment) : Environment := { e with depth := e.depth + 1 }

/-- Bind a name at the present depth. -/
def bind (e : Environment) (name : String) (b : Binding) : Environment :=
  { e with
    visible := e.visible.insert name b
    log := ⟨e.depth, name, e.get? name⟩ :: e.log }

/-- Put back what was replaced, newest first, up to the first entry of another depth.  Gives the
visible bindings and what is left of the log. -/
def unwind (depth : UInt32) (visible : Table String Binding) :
    List Logged → Table String Binding × List Logged
  | [] => (visible, [])
  | r :: log =>
    if r.depth ≠ depth then (visible, r :: log)
    else unwind depth (Scope.restore visible r.replaced) log

/-- Close the innermost scope.  At depth zero none is open, and only the bindings are undone. -/
def pop (e : Environment) : Environment :=
  let (visible, log) := unwind e.depth e.visible e.log
  { visible, log, depth := if e.depth = 0 then 0 else e.depth - 1 }

/-- What the bindings at a depth replaced, newest first. -/
def replacedAt (e : Environment) (depth : Nat) : List Replaced :=
  (e.log.filter (·.depth.toNat = depth)).map Logged.replaced

/-- The same bindings with an undo list for each open scope. -/
def toScope (e : Environment) : Scope where
  visible := e.visible
  current := e.replacedAt e.depth.toNat
  enclosing := (List.range e.depth.toNat).reverse.map e.replacedAt

@[simp] theorem get?_toScope (e : Environment) (name : String) :
    e.toScope.get? name = e.get? name := rfl

@[simp] theorem size_toScope (e : Environment) : e.toScope.size = e.size := rfl

@[simp] theorem depth_toScope (e : Environment) : e.toScope.depth = e.depth.toNat := by
  unfold toScope Scope.depth
  rw [List.length_map, List.length_reverse, List.length_range]

end Environment

end TypeSynthesis
