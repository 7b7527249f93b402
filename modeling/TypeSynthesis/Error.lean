import TypeSynthesis.Span

/-!
# Errors

Why a type could not be registered, and why a form could not be compiled.

* `RegistrationError`: raised by the registry of types;
* `CompilationError`: raised while a form is resolved, with the place it blames;
* `message`: the text of an error; `CompilationError.span?` and `CompilationError.isInternal`
  say where it points and whether it signals a malformed tree.
-/

namespace TypeSynthesis

/-- Why a type could not be registered or instantiated. -/
inductive RegistrationError
  /-- The name or the identity is taken. -/
  | duplicateType (name : String)
  /-- The type is not registered. -/
  | unknownType (name : String)
  /-- An interface was required. -/
  | notAnInterface (name : String)
  /-- The base class is sealed. -/
  | sealedBase (name : String)
  /-- A generic interface was required. -/
  | notGeneric (name : String)
  /-- A generic interface was given the wrong number of arguments. -/
  | argumentCount (name : String) (expected got : Nat)
  deriving DecidableEq, Repr, Inhabited

/-- The text of the error. -/
def RegistrationError.message : RegistrationError → String
  | duplicateType name => s!"type '{name}' is already registered"
  | unknownType name => s!"type '{name}' is not registered"
  | notAnInterface name => s!"'{name}' is not an interface"
  | sealedBase name => s!"'{name}' is sealed and cannot be used as a base class"
  | notGeneric name => s!"'{name}' is not a generic interface definition"
  | argumentCount name expected got =>
    s!"'{name}' expects {expected} type argument(s), got {got}"

/-- Why a form could not be compiled. -/
inductive CompilationError
  /-- A type name names no type. -/
  | missingType (typeName construct : String) (span : Span)
  /-- No unique member fits a supplied method. -/
  | unresolvedMember (member : String) (owner? : Option String) (args : String) (span : Span)
  /-- A volatile field has a type whose values are not read atomically. -/
  | invalidVolatileField (field typeName : String) (span : Span)
  /-- A local that must be in scope is not. -/
  | unboundLocal (name : String) (span : Span)
  /-- No unique base method fits a super call. -/
  | unresolvedSuperCall (method args : String) (span : Span)
  /-- A type listed among interfaces is none. -/
  | notAnInterface (typeName construct : String) (span : Span)
  /-- The registry refused. -/
  | registration (e : RegistrationError)
  /-- The tree or the type system is not what it must be. -/
  | internal (text : String)
  deriving DecidableEq, Repr, Inhabited

namespace CompilationError

/-- The member name as it was written, with its owner. -/
def qualifiedMember (owner? : Option String) (member : String) : String :=
  match owner? with
  | some owner => owner ++ "." ++ member
  | none => member

/-- The types that volatile fields may have. -/
def volatileTypes : String :=
  "pointers, reference types, bool, byte, sbyte, short, ushort, int, uint, char, float, nint, " ++
    "nuint, or an enum over an integer of at most 32 bits"

/-- The text of the error. -/
def message : CompilationError → String
  | missingType typeName construct span =>
    s!"at {span.text}: unable to resolve type '{typeName}' in {construct}"
  | unresolvedMember member owner args span =>
    s!"at {span.text}: no unique member '{qualifiedMember owner member}' " ++
      s!"matches parameter types ({args})"
  | invalidVolatileField field typeName span =>
    s!"at {span.text}: field '{field}' of type '{typeName}' cannot be volatile; " ++
      s!"volatile fields must be {volatileTypes}"
  | unboundLocal name span =>
    s!"internal error at {span.text}: no binding in scope for local '{name}'"
  | unresolvedSuperCall method args span =>
    s!"at {span.text}: no unique base method '{method}' matches argument types ({args})"
  | notAnInterface typeName construct span =>
    s!"at {span.text}: '{typeName}' is not an interface and cannot be implemented by {construct}"
  | registration e => e.message
  | internal text => s!"internal error: {text}"

/-- The place that the error blames. -/
def span? : CompilationError → Option Span
  | missingType _ _ span | unresolvedMember _ _ _ span | invalidVolatileField _ _ span
  | unboundLocal _ span | unresolvedSuperCall _ _ span | notAnInterface _ _ span => some span
  | registration _ | internal _ => none

/-- Whether the error signals a malformed tree and not a mistake in the program. -/
def isInternal : CompilationError → Bool
  | unboundLocal .. | internal _ => true
  | _ => false

end CompilationError

end TypeSynthesis
