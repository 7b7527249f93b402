import TypeSynthesis.Registry.Methods

/-!
# Members that a new type may implement

* `MemberName`: a member name with an optional owner, read by `MemberName.ofText`;
* `Candidates.collect`: the base's overridable methods, then the interfaces' methods;
* `Candidates.named`: those that fit a member name, one for each slot.
-/

namespace TypeSynthesis

/-- A member name, which may be qualified by the type that declares the member. -/
structure MemberName where
  owner? : Option String
  member : String
  deriving DecidableEq, Repr, Inhabited

namespace MemberName

/-- Split a written name at its last dot.  Where a side would be empty, the whole is the member. -/
def ofText (text : String) : MemberName :=
  let reversed := text.toList.reverse
  let member := (reversed.takeWhile (· ≠ '.')).reverse
  match reversed.dropWhile (· ≠ '.') with
  | _ :: c :: owner =>
    if member.isEmpty then ⟨none, text⟩
    else ⟨some (String.ofList (c :: owner).reverse), String.ofList member⟩
  | _ => ⟨none, text⟩

end MemberName

/-- The signatures that a new type may implement. -/
structure Candidates where
  signatures : List Signature
  deriving DecidableEq, Repr, Inhabited

namespace Candidates

/-- The base's overridable methods, then the methods of each interface and of all it extends. -/
def collect (R : Registry) (base : TypeId) (interfaces : List TypeId) : Candidates :=
  ⟨R.overridableMethodsOf base ++ interfaces.flatMap R.interfaceMethods⟩

/-- Whether a signature has the member name and, if the name is qualified, that owner. -/
def fits (R : Registry) (name : MemberName) (m : Signature) : Bool :=
  m.name == name.member && name.owner?.all (R.typeName m.declaring == ·)

/-- The candidates that fit a member name, one for each slot. -/
def named (c : Candidates) (R : Registry) (name : MemberName) : List Signature :=
  firstPerSlot [] (c.signatures.filter (fits R name))

end Candidates

end TypeSynthesis
