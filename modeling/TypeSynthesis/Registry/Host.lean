import TypeSynthesis.Registry.Basic

/-!
# The built-in types of the host

* `Registry.host`: the primitives, the root class, texts, the root exception, and the interface
  that every anonymous object implements.
-/

namespace TypeSynthesis.Registry

/-- The interface that every anonymous object implements. -/
def metadataName : String := "sable.lang.IObj"

/-- A host method before it is declared by a type. -/
def hostMethod (name : String) (params : List TypeRef) (result : TypeRef)
    (attributes : MethodAttributes) : Signature :=
  { name, declaring := .empty, params, result, attributes }

/-- The root of the class hierarchy. -/
def objectClass : ClassType :=
  let start : ClassType := { name := "object" }
  start
    |>.withMethod (hostMethod "ToString" [] (.value .string) .overridable)
    |>.withMethod (hostMethod "Equals" [.object] (.value Primitive.bool.id) .overridable)
    |>.withMethod (hostMethod "GetHashCode" [] (.value Primitive.int.id) .overridable)
    |>.withMethod (hostMethod "GetType" [] .object { isPublic := true })

/-- The class of texts. -/
def stringClass : ClassType :=
  let start : ClassType := { name := "string", base? := some .object, isSealed := true }
  start.withMethod
    (hostMethod "ToString" [] (.value .string)
      { MethodAttributes.overridable with isFinal := true })

/-- The root of the exceptions. -/
def exceptionClass : ClassType :=
  let start : ClassType := { name := "Exception", base? := some .object }
  start.withMethod (hostMethod "get_Message" [] (.value .string) .overridable)

/-- The interface that every anonymous object implements. -/
def metadataInterface : InterfaceType :=
  let start : InterfaceType := { name := metadataName }
  start
    |>.withMethod (hostMethod "meta" [] .object .interface)
    |>.withMethod (hostMethod "withMeta" [.object] (.value (.ofName metadataName)) .interface)

/-- The registry of the primitives. -/
def primitives : Registry := empty.providePrimitives

/-- The registry of all built-in types. -/
def host : Registry :=
  primitives.provideAll
    [.classType objectClass, .classType stringClass, .classType exceptionClass,
     .interfaceType metadataInterface]

end TypeSynthesis.Registry
