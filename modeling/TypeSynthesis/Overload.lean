import TypeSynthesis.Conversion

/-!
# Overload selection

Among the signatures that the arguments convert to, the unique best one.

* `Conversion.totalCost`: what the conversions of the arguments cost together;
* `Match`: a candidate with the conversions of its arguments;
* `bestMatches`: the candidates of least cost and, among those, of most exact arguments;
* `bestMatch?`: the best one, if it is alone;
* `Registry.select?`: the selected signature; ties are broken by specificity, except where an
  argument is untyped.
-/

namespace TypeSynthesis

/-! ### Ranking -/

/-- What conversions cost together. -/
def Conversion.totalCost : List Conversion → Nat
  | [] => 0
  | c :: cs => c.cost + totalCost cs

/-- A candidate that the arguments convert to. -/
structure Match (α : Type) where
  candidate : α
  conversions : List Conversion
  cost : Nat
  deriving DecidableEq, Repr

namespace Match

variable {α : Type}

/-- The number of arguments passed as they are. -/
def exactCount (m : Match α) : Nat := m.conversions.countP Conversion.isExact

/-- Whether the first candidate ranks above the second: by cost, then by exact arguments. -/
def Better (m n : Match α) : Prop :=
  m.cost < n.cost ∨ (m.cost = n.cost ∧ n.exactCount < m.exactCount)

instance (m n : Match α) : Decidable (m.Better n) :=
  inferInstanceAs (Decidable (_ ∨ (_ ∧ _)))

/-- Whether some argument has an unknown type. -/
def hasUntyped (m : Match α) : Bool := m.conversions.any (·.kind == .untyped)

end Match

/-- The candidates that no other ranks above, in order. -/
def bestMatches {α : Type} (ms : List (Match α)) : List (Match α) :=
  ms.filter fun m => ms.all fun n => !decide (n.Better m)

/-- The best candidate, if no other ranks equal. -/
def bestMatch? {α : Type} (ms : List (Match α)) : Option (Match α) :=
  match bestMatches ms with
  | [m] => some m
  | _ => none

namespace Registry

/-! ### Applicable candidates -/

/-- The conversions of the arguments to the parameters, if each has one. -/
def conversions? (R : Registry) : List TypeRef → List TypeRef → Option (List Conversion)
  | [], [] => some []
  | arg :: args, param :: params => do
    let c ← R.conversion? arg param
    let cs ← R.conversions? args params
    return c :: cs
  | _, _ => none

/-- The candidate with its conversions, if the arguments convert to its parameters. -/
def match? (R : Registry) (args : List TypeRef) (m : Signature) : Option (Match Signature) :=
  (R.conversions? args m.params).map fun cs => ⟨m, cs, Conversion.totalCost cs⟩

/-- The candidates that the arguments convert to. -/
def applicable (R : Registry) (candidates : List Signature) (args : List TypeRef) :
    List (Match Signature) :=
  candidates.filterMap (R.match? args)

/-! ### Specificity -/

/-- Whether a parameter type is the other or, both by value, one below it. -/
def atMost (R : Registry) (p q : TypeRef) : Bool :=
  p == q || (!p.isByRef && !q.isByRef && R.isSubtype p.id q.id)

/-- Whether each parameter of the first signature is at most that of the second. -/
def atLeastAsSpecific (R : Registry) (m n : Signature) : Bool :=
  (m.params.zip n.params).all fun p => R.atMost p.1 p.2

/-- Whether the `i`-th of the tied candidates is at least as specific as each other one. -/
def isMostSpecific (R : Registry) (tied : List (Match Signature)) (i : Nat) (m : Match Signature) :
    Bool :=
  tied.zipIdx.all fun p => p.2 == i || R.atLeastAsSpecific m.candidate p.1.candidate

/-- The one tied candidate that is at least as specific as each other, unless an argument is
untyped. -/
def mostSpecific? (R : Registry) (tied : List (Match Signature)) : Option (Match Signature) :=
  if tied.any Match.hasUntyped then none
  else
    match tied.zipIdx.filter fun p => R.isMostSpecific tied p.2 p.1 with
    | [p] => some p.1
    | _ => none

/-- The unique best candidate for the arguments, if there is one. -/
def select? (R : Registry) (candidates : List Signature) (args : List TypeRef) :
    Option Signature :=
  match bestMatches (R.applicable candidates args) with
  | [] => none
  | [m] => some m.candidate
  | tied => (R.mostSpecific? tied).map Match.candidate

end Registry

end TypeSynthesis
