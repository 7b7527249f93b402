import TypeSynthesis.Options
import TypeSynthesis.Registry.Draft
import TypeSynthesis.Registry.Generic
import TypeSynthesis.Registry.Names
import TypeSynthesis.Tree.Basic

/-!
# The state of synthesis

Synthesis reads and extends the registry and draws fresh names.  What it has added stays, also
when it fails.

* `Session`, `SynthM`: the registry with a counter for names, and computations over it;
* `SynthM.resolveTypeName`, `SynthM.resolveHint`, `SynthM.resolveInterface`: the types that
  written names denote;
* `SynthM.freshName`: a name that no registered type has;
* `SynthM.finish`, `SynthM.finishInterface`: register a draft.
-/

namespace TypeSynthesis

/-- The state of a compilation. -/
structure Session where
  registry : Registry
  /-- The number of names drawn so far. -/
  counter : Nat := 0
  deriving DecidableEq, Repr, Inhabited

/-- A computation that may extend the registry and may fail. -/
abbrev SynthM := EStateM CompilationError Session

namespace SynthM

/-- The registry as it is. -/
def registry : SynthM Registry := fun s => .ok s.registry s

/-- An operation that may extend the registry or be refused by it. -/
def extend {α : Type} (f : Registry → Except RegistrationError (α × Registry)) : SynthM α :=
  fun s =>
    match f s.registry with
    | .ok (a, R) => .ok a { s with registry := R }
    | .error e => .error (.registration e) s

/-- A question that the registry may refuse to answer. -/
def consult {α : Type} (f : Registry → Except RegistrationError α) : SynthM α := fun s =>
  match f s.registry with
  | .ok a => .ok a s
  | .error e => .error (.registration e) s

/-! ### Written type names -/

/-- The type that a written name denotes. -/
def resolveTypeName (construct : String) (name : TypeName) : SynthM TypeRef := fun s =>
  match s.registry.resolve name.text with
  | (some t, R) => .ok t { s with registry := R }
  | (none, R) => .error (.missingType name.text construct name.span) { s with registry := R }

/-- The type of a hint.  Without a hint it is the root type. -/
def resolveHint (construct : String) : Option TypeName → SynthM TypeRef
  | some name => resolveTypeName construct name
  | none => pure .object

/-- The interface that a written name denotes. -/
def resolveInterface (construct : String) (name : TypeName) : SynthM TypeId := do
  let t ← resolveTypeName construct name
  let R ← registry
  if t.isByRef || !R.isInterface t.id then throw (.notAnInterface name.text construct name.span)
  else return t.id

/-! ### Fresh names -/

/-- The name that a stem has at a count: the stem with the last eight digits of its digest under
the count. -/
def nameAt (o : Options) (stem : String) (count : Nat) : String :=
  let digest := Digest.xxh64Text (UInt64.ofNat count) stem
  o.qualify (stem ++ "__" ++ Text.hexNumeral 8 digest.toNat)

/-- The first count after `count` whose name is free, among the next `n`. -/
def firstFree (R : Registry) (name : Nat → String) : Nat → Nat → Option Nat
  | 0, _ => none
  | n + 1, count =>
    if R.containsName (name (count + 1)) then firstFree R name n (count + 1)
    else some (count + 1)

/-- The number of counts after which digests repeat. -/
def searchLimit : Nat := UInt64.size

/-- A full name that no registered type has. -/
def freshName (o : Options) (stem : String) : SynthM String := fun s =>
  match firstFree s.registry (nameAt o stem) searchLimit s.counter with
  | some count => .ok (nameAt o stem count) { s with counter := count }
  | none => .error (.internal s!"no free name for '{stem}'") s

/-! ### Drafts -/

/-- Register a class under construction. -/
def finish (draft : ClassType) : SynthM Descriptor :=
  extend fun R => do return (⟨draft.name, draft.id⟩, ← R.register (.classType draft))

/-- Register an interface under construction. -/
def finishInterface (draft : InterfaceType) : SynthM Descriptor :=
  extend fun R => do return (⟨draft.name, draft.id⟩, ← R.register (.interfaceType draft))

end SynthM

end TypeSynthesis
