import TypeSynthesis.Registry.Hierarchy

/-!
# Conversions of arguments

Whether a value of one type may be passed where another is expected, and at what cost.

* `Conversion`: a kind of conversion with its cost;
* `Primitive.conversion?`: conversions between primitives;
* `Registry.conversion?`: conversions between any types.

In rising cost: identity, widening, narrowing from the width of a literal, integer to floating
point, boxing, a reference cast, a cast to the root type, and an argument of unknown type.
References match only references to the same type.
-/

namespace TypeSynthesis

/-- The kinds of conversion. -/
inductive ConversionKind
  | identity
  | widening
  | narrowing
  | intToFloat
  | boxing
  | referenceCast
  | untyped
  deriving DecidableEq, Repr, Inhabited

/-- A conversion with its cost for overload selection. -/
structure Conversion where
  kind : ConversionKind
  cost : Nat
  deriving DecidableEq, Repr, Inhabited

namespace Conversion

/-- No conversion is needed. -/
def identity : Conversion := ⟨.identity, 0⟩

/-- To a primitive that holds every value. -/
def widening : Conversion := ⟨.widening, 4⟩

/-- From the width that literals are read at. -/
def narrowing : Conversion := ⟨.narrowing, 5⟩

/-- From an integer to a floating-point number. -/
def intToFloat : Conversion := ⟨.intToFloat, 8⟩

/-- From a value type to the root type. -/
def boxing : Conversion := ⟨.boxing, 9⟩

/-- From a class or interface to one above it. -/
def referenceCast : Conversion := ⟨.referenceCast, 10⟩

/-- From a class or interface to the root type. -/
def rootCast : Conversion := ⟨.referenceCast, 11⟩

/-- From an unknown type. -/
def untyped : Conversion := ⟨.untyped, 13⟩

/-- Whether the argument is passed as it is. -/
def isExact (c : Conversion) : Bool := c.kind == .identity

end Conversion

namespace Primitive

/-- The primitives that hold every value of a primitive. -/
def wider : Primitive → List Primitive
  | sbyte => [short, int, long]
  | byte => [short, ushort, int, uint, long, ulong]
  | short => [int, long]
  | ushort => [int, uint, long, ulong]
  | char => [ushort, int, uint, long, ulong]
  | int => [long]
  | uint => [long, ulong]
  | float => [double]
  | _ => []

/-- Whether a literal of the first primitive may be read at the width of the second. -/
def narrowsTo (source target : Primitive) : Bool :=
  (source == long && target.isInteger) || (source == double && target == float)

/-- The conversion between two primitives, if there is one. -/
def conversion? (source target : Primitive) : Option Conversion :=
  if source = target then some .identity
  else if target.isFloating && (source.isInteger || source == char) then some .intToFloat
  else if source.wider.contains target then some .widening
  else if source.narrowsTo target then some .narrowing
  else none

end Primitive

namespace Registry

/-- The conversion of a registered type to the root type. -/
def rootConversion? (R : Registry) (t : TypeId) : Option Conversion :=
  match R.get? t with
  | some (.primitive .void) => none
  | some (.primitive _) | some (.enumType _) => some .boxing
  | some (.classType _) | some (.interfaceType _) => some .rootCast
  | _ => none

/-- The conversion of an argument to a parameter, if there is one. -/
def conversion? (R : Registry) (arg param : TypeRef) : Option Conversion :=
  if arg.isByRef || param.isByRef then
    if arg.isByRef && param.isByRef && arg.id == param.id then some .identity else none
  else if arg.id = param.id then some .identity
  else
    match Primitive.ofId? arg.id, Primitive.ofId? param.id with
    | some source, some target => source.conversion? target
    | _, _ =>
      if param.id = TypeId.object then R.rootConversion? arg.id
      else if arg.id = TypeId.object then
        if param.id = TypeId.void then none else some .untyped
      else if R.isSubtype arg.id param.id then some .referenceCast
      else none

end Registry

end TypeSynthesis
