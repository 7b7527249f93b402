import TypeSynthesis.Digest.Xxh64
import TypeSynthesis.Text.Hex

/-!
# Type identities

Types, signatures and members are told apart by 64-bit words.  The word of a named type is a
digest of its name; the other words mix such words position by position.

* `TypeId`: the word, `TypeId.text` its sixteen digits;
* `TypeId.ofName`: the identity of the type with a name;
* `TypeId.ofSignature`: the identity of a name with parameter types;
* `TypeId.ofMember`: the same, bound to the declaring type;
* `TypeId.ofInstance`: the identity of a generic definition at type arguments.
-/

namespace TypeSynthesis

/-- The identity of a type, a signature or a member. -/
structure TypeId where
  bits : UInt64
  deriving DecidableEq, Repr, Inhabited

namespace TypeId

/-- The identity of nothing, used where no type is known yet. -/
def empty : TypeId := ⟨0⟩

/-- Whether this is the identity of nothing. -/
def isEmpty (t : TypeId) : Bool := t.bits == 0

/-- Separates the identities of types from those of signatures and members. -/
def typeDomain : UInt64 := 0x2fac10b63a6cc57c

/-- Separates the identities of signatures. -/
def signatureDomain : UInt64 := 0x5ea77ffbcdf5f302

/-- Separates the identities of members. -/
def memberDomain : UInt64 := 0x7d3c8b4a92e15f6d

/-- The odd multiplier between two positions. -/
def separator : UInt64 := 0x4bc94d6bd06053ad

/-- The first position marker, from which those beyond the list are counted. -/
def firstMarker : UInt64 := 0x9e3779b97f4a7c15

/-- The position markers after the first. -/
def laterMarkers : List UInt64 :=
  [0xbf58476d1ce4e5b9, 0x94d049bb133111eb, 0xd6e8feb86659fd93, 0xe7037ed1a0b428db,
   0xc6a4a7935bd1e995, 0x8648dbbc94d49b8d, 0xa2b48b2c69e0d657, 0x7c3e9f2a5b8d1403,
   0x5d8c7b4a3e9f2106, 0x3f1e9d8c7b5a4203, 0x1a2b3c4d5e6f7089, 0x9f8e7d6c5b4a3210,
   0x2468ace013579bdf, 0xfdb97531eca86420, 0x123456789abcdef0]

/-- The marker of a position.  Past the list the first marker is counted on. -/
def marker (i : Nat) : UInt64 :=
  (firstMarker :: laterMarkers)[i]?.getD (firstMarker + UInt64.ofNat i)

/-- Mix the words of the positions from `i` on into a word. -/
def mixFrom (i : Nat) (acc : UInt64) : List TypeId → UInt64
  | [] => acc
  | p :: ps => mixFrom (i + 1) (acc * separator + (marker i ^^^ p.bits)) ps

/-- Mix a list of words into a word, position by position. -/
def mix (acc : UInt64) (params : List TypeId) : UInt64 := mixFrom 0 acc params

/-- The digest of a name. -/
def nameDigest (name : String) : UInt64 := Digest.xxh64Text 0 name

/-- The identity of the type with a name. -/
def ofName (name : String) : TypeId := ⟨typeDomain ^^^ nameDigest name⟩

/-- The identity of a name with parameter words. -/
def ofSignature (name : String) (params : List TypeId) : TypeId :=
  ⟨mix (signatureDomain ^^^ nameDigest name) params⟩

/-- The identity of a name with parameter words, bound to the declaring type. -/
def ofMember (owner : TypeId) (name : String) (params : List TypeId) : TypeId :=
  ⟨mix (memberDomain ^^^ owner.bits ^^^ nameDigest name) params⟩

/-- The identity of a generic definition at type arguments. -/
def ofInstance (definition : TypeId) (args : List TypeId) : TypeId := ⟨mix definition.bits args⟩

/-- The sixteen digits of the word. -/
def text (t : TypeId) : String := "0x" ++ Text.hexNumeral 16 t.bits.toNat

/-- The text that internal errors show. -/
def debugText (t : TypeId) : String := "TypeHash(" ++ t.text ++ ")"

@[simp] theorem mixFrom_nil (i : Nat) (acc : UInt64) : mixFrom i acc [] = acc := rfl

@[simp] theorem mixFrom_cons (i : Nat) (acc : UInt64) (p : TypeId) (ps : List TypeId) :
    mixFrom i acc (p :: ps) = mixFrom (i + 1) (acc * separator + (marker i ^^^ p.bits)) ps := rfl

end TypeId

end TypeSynthesis
