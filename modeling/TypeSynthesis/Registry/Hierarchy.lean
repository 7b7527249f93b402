import TypeSynthesis.Registry.Basic

/-!
# The type hierarchy

* `Registry.ancestors`: the base classes of a class, nearest first;
* `Registry.lineage`: the class definitions of a class and its ancestors;
* `Registry.allInterfaces`: the interfaces that a type implements, in depth-first preorder;
* `Registry.isSubtype`: whether a value of one type may stand for another.

A chain of distinct classes is never longer than the registry, and a path of distinct interfaces
is longer by one at most, when its last step leaves the registry.  These are the bounds that the
searches run under.

Nothing keeps a class from being registered above itself, for a base may be registered after what it
is a base of.  The walk along such a circle of base classes has no end.  Here it is cut off after as
many classes as there are types, so what is said of `Registry.ancestors`, and of all that follows
from them, describes the walk only from where it ends, as it does if no class is above itself.
Interfaces that extend one another in a circle do no harm, since a visit enters each of them once.
-/

namespace TypeSynthesis.Registry

/-- The registered base class of a registered class. -/
def baseClass? (R : Registry) (t : TypeId) : Option TypeId :=
  match (R.class? t).bind ClassType.base? with
  | some b => if (R.class? b).isSome then some b else none
  | none => none

/-- The first `n` base classes of a class, nearest first. -/
def ancestorsUpTo (R : Registry) : Nat → TypeId → List TypeId
  | 0, _ => []
  | n + 1, t =>
    match R.baseClass? t with
    | some b => b :: R.ancestorsUpTo n b
    | none => []

/-- The base classes of a class, nearest first, if the walk to them ends. -/
def ancestors (R : Registry) (t : TypeId) : List TypeId := R.ancestorsUpTo R.size t

/-- The definitions of a class and of its base classes, nearest first. -/
def lineage (R : Registry) (t : TypeId) : List ClassType := (t :: R.ancestors t).filterMap R.class?

/-- The interfaces that an interface extends directly. -/
def baseInterfaces (R : Registry) (t : TypeId) : List TypeId :=
  match R.interface? t with
  | some i => i.bases
  | none => []

/-- Visit an interface and all it extends, depth first, adding to those found before.  No path is
followed beyond `n` steps. -/
def visit (R : Registry) : Nat → List TypeId → TypeId → List TypeId
  | 0, found, _ => found
  | n + 1, found, t =>
    if t ∈ found then found else (R.baseInterfaces t).foldl (R.visit n) (found ++ [t])

/-- The interfaces named by a type itself and, for a class, by its base classes. -/
def namedInterfaces (R : Registry) (t : TypeId) : List TypeId :=
  match R.get? t with
  | some (.classType _) => (R.lineage t).flatMap ClassType.interfaces
  | some (.interfaceType i) => i.bases
  | _ => []

/-- Every interface that a type implements or extends, each once, in depth-first preorder. -/
def allInterfaces (R : Registry) (t : TypeId) : List TypeId :=
  (R.namedInterfaces t).foldl (R.visit (R.size + 1)) []

/-- Whether a value of type `sub` may be used where `sup` is expected. -/
def isSubtype (R : Registry) (sub sup : TypeId) : Bool :=
  sub == sup ||
    match R.get? sub with
    | none => false
    | some e =>
      if sup = TypeId.object then e.isReference
      else
        match e with
        | .classType c =>
          c.base? == some sup || (R.ancestors sub).contains sup ||
            (R.allInterfaces sub).contains sup
        | .interfaceType _ => (R.allInterfaces sub).contains sup
        | _ => false

end TypeSynthesis.Registry
