import TypeSynthesis.Registry.Hierarchy

/-!
# Methods of types

* `Registry.methodsOf`: the methods visible on a type, one for each slot;
* `Registry.overridableMethodsOf`: those that a subclass may replace;
* `Registry.interfaceMethods`: the methods of an interface and of all that it extends.
-/

namespace TypeSynthesis.Registry

/-- The methods visible on a type.  On a class, an override hides the method it replaces, so each
slot appears once, declared by its most derived owner.  An interface shows its own methods. -/
def methodsOf (R : Registry) (t : TypeId) : List Signature :=
  match R.get? t with
  | some (.classType _) => firstPerSlot [] ((R.lineage t).flatMap ClassType.instanceMethods)
  | some (.interfaceType i) => i.methods
  | _ => []

/-- The methods that a subclass may replace. -/
def overridableMethodsOf (R : Registry) (t : TypeId) : List Signature :=
  (R.methodsOf t).filter (·.attributes.isOverridable)

/-- The methods of an interface and of all that it extends, one for each slot. -/
def interfaceMethods (R : Registry) (t : TypeId) : List Signature :=
  firstPerSlot [] (((t :: R.allInterfaces t).filterMap R.interface?).flatMap InterfaceType.methods)

end TypeSynthesis.Registry
