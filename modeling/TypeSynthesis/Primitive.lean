import TypeSynthesis.TypeId

/-!
# Primitive types

The built-in value types of the host, and the two reference types that literals need.

* `Primitive`, `Primitive.all`: the kinds, in their fixed order;
* `Primitive.name`, `Primitive.id`, `Primitive.ofId?`: names and identities;
* `Primitive.isInteger`, `Primitive.isFloating`, `Primitive.isAtomic`: the classes that
  conversions and volatile fields ask about;
* `TypeId.object`, `TypeId.string`: the root type and the text type.
-/

namespace TypeSynthesis

/-- A built-in value type. -/
inductive Primitive
  | void
  | bool
  | byte
  | sbyte
  | short
  | ushort
  | int
  | uint
  | long
  | ulong
  | char
  | float
  | double
  | nint
  | nuint
  deriving DecidableEq, Repr, Inhabited

namespace Primitive

/-- Every primitive, in the order of registration. -/
def all : List Primitive :=
  [void, bool, byte, sbyte, short, ushort, int, uint, long, ulong, char, float, double, nint,
   nuint]

/-- The name of the type. -/
def name : Primitive → String
  | void => "void"
  | bool => "bool"
  | byte => "byte"
  | sbyte => "sbyte"
  | short => "short"
  | ushort => "ushort"
  | int => "int"
  | uint => "uint"
  | long => "long"
  | ulong => "ulong"
  | char => "char"
  | float => "float"
  | double => "double"
  | nint => "nint"
  | nuint => "nuint"

/-- The identity of the type. -/
def id (p : Primitive) : TypeId := TypeId.ofName p.name

/-- The primitives by identity. -/
def index : List (TypeId × Primitive) := all.map fun p => (p.id, p)

/-- The primitive with an identity. -/
def ofId? (t : TypeId) : Option Primitive := index.lookup t

/-- Whether the primitive is an integer of fixed width. -/
def isInteger : Primitive → Bool
  | byte | sbyte | short | ushort | int | uint | long | ulong => true
  | _ => false

/-- Whether the primitive is a floating-point number. -/
def isFloating : Primitive → Bool
  | float | double => true
  | _ => false

/-- Whether reads and writes of the primitive are atomic. -/
def isAtomic : Primitive → Bool
  | bool | byte | sbyte | short | ushort | int | uint | char | float | nint | nuint => true
  | _ => false

/-- Whether the primitive is an integer of at most 32 bits. -/
def isNarrowInteger : Primitive → Bool
  | byte | sbyte | short | ushort | int | uint => true
  | _ => false

theorem mem_all (p : Primitive) : p ∈ all := by cases p <;> decide

end Primitive

/-- The root of the class hierarchy. -/
def TypeId.object : TypeId := TypeId.ofName "object"

/-- The type of texts. -/
def TypeId.string : TypeId := TypeId.ofName "string"

/-- The type of calls without a result. -/
def TypeId.void : TypeId := Primitive.void.id

end TypeSynthesis
