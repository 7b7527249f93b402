/-!
# Attributes of fields and methods

* `FieldAttributes`, `MethodAttributes`: what is declared about a member;
* `ofBits`, `toBits`: the numbers that metadata stores, one bit for each attribute;
* `flags`: the attributes that are set, lowest bit first;
* `MethodAttributes.interface`, `MethodAttributes.implementation`: the attributes of abstract
  interface methods and of the methods that implement them;
* `MethodAttributes.isOverridable`: whether a subclass may replace the method.
-/

namespace TypeSynthesis

/-- The number with the bits of the list, lowest first. -/
def bitsToNat : List Bool → Nat
  | [] => 0
  | b :: bs => b.toNat + 2 * bitsToNat bs

/-- The names whose bits are set. -/
def namesOfBits (names : List String) (bits : List Bool) : List String :=
  (names.zip bits).filterMap fun (name, b) => if b then some name else none

/-- What is declared about a field. -/
structure FieldAttributes where
  isPublic : Bool := false
  isInitOnly : Bool := false
  isVolatile : Bool := false
  isStatic : Bool := false
  deriving DecidableEq, Repr, Inhabited

namespace FieldAttributes

/-- The attributes lowest bit first. -/
def toList (a : FieldAttributes) : List Bool := [a.isPublic, a.isInitOnly, a.isVolatile, a.isStatic]

/-- Read the stored number.  Unknown bits are dropped. -/
def ofBits (n : Nat) : FieldAttributes := ⟨n.testBit 0, n.testBit 1, n.testBit 2, n.testBit 3⟩

/-- The stored number. -/
def toBits (a : FieldAttributes) : Nat := bitsToNat a.toList

/-- The names of the attributes that are set. -/
def flags (a : FieldAttributes) : List String :=
  namesOfBits ["PUBLIC", "INIT_ONLY", "VOLATILE", "STATIC"] a.toList

/-- Reading a stored number gives the attributes back. -/
@[simp] theorem ofBits_toBits : ∀ a : FieldAttributes, ofBits a.toBits = a
  | ⟨a, b, c, d⟩ => by revert a b c d; decide

end FieldAttributes

/-- What is declared about a method. -/
structure MethodAttributes where
  isPublic : Bool := false
  isVirtual : Bool := false
  isAbstract : Bool := false
  isFinal : Bool := false
  isStatic : Bool := false
  deriving DecidableEq, Repr, Inhabited

namespace MethodAttributes

/-- The attributes lowest bit first. -/
def toList (a : MethodAttributes) : List Bool :=
  [a.isPublic, a.isVirtual, a.isAbstract, a.isFinal, a.isStatic]

/-- Read the stored number.  Unknown bits are dropped. -/
def ofBits (n : Nat) : MethodAttributes :=
  ⟨n.testBit 0, n.testBit 1, n.testBit 2, n.testBit 3, n.testBit 4⟩

/-- The stored number. -/
def toBits (a : MethodAttributes) : Nat := bitsToNat a.toList

/-- The names of the attributes that are set. -/
def flags (a : MethodAttributes) : List String :=
  namesOfBits ["PUBLIC", "VIRTUAL", "ABSTRACT", "FINAL", "STATIC"] a.toList

/-- The attributes of an abstract interface method. -/
def interface : MethodAttributes := { isPublic := true, isVirtual := true, isAbstract := true }

/-- The attributes of a method that implements another. -/
def implementation : MethodAttributes := { isPublic := true, isVirtual := true, isFinal := true }

/-- The attributes of a method that subclasses may replace. -/
def overridable : MethodAttributes := { isPublic := true, isVirtual := true }

/-- Whether a subclass may replace the method. -/
def isOverridable (a : MethodAttributes) : Bool := a.isVirtual && !a.isFinal && !a.isStatic

/-- Reading a stored number gives the attributes back. -/
@[simp] theorem ofBits_toBits : ∀ a : MethodAttributes, ofBits a.toBits = a
  | ⟨a, b, c, d, e⟩ => by revert a b c d e; decide

end MethodAttributes

end TypeSynthesis
