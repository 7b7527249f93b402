import TypeSynthesis.Tree.Basic

/-!
# Static types

* `Literal.staticType?`: the type of a literal;
* `Node.staticType?`: the type of the value that a form produces, where it is known;
* `Node.argumentType`: the same, with the root type for an unknown one.
-/

namespace TypeSynthesis

/-- The type of a literal.  The literal `nil` has none. -/
def Literal.staticType? : Literal → Option TypeRef
  | .nil => none
  | .bool _ => some (.value Primitive.bool.id)
  | .int _ => some (.value Primitive.long.id)
  | .float _ => some (.value Primitive.double.id)
  | .char _ => some (.value Primitive.char.id)
  | .str _ => some (.value .string)

namespace Node

mutual

/-- The type of the value that a form produces, where it is known.  A conditional has a type if it
has two branches of one type. -/
def staticType? : Node → Option TypeRef
  | .const _ value => value.staticType?
  | .localRef _ _ _ type? _ => type?
  | .block _ forms => lastType? forms
  | .cond _ _ thenForm elseForm? =>
    match staticType? thenForm, branchType? elseForm? with
    | some t, some u => if u = t then some t else none
    | _, _ => none
  | .letIn _ _ _ body => staticType? body
  | .guarded _ _ body _ _ => staticType? body
  | .fn _ head _ => head.wrapper?.map Descriptor.type
  | .object _ head _ => head.descriptor?.map Descriptor.type
  | .staticCall _ _ _ _ resolved? => resolved?.map Signature.result
  | .memberCall _ _ _ _ resolved? => resolved?.map Signature.result
  | .baseCall _ _ method _ _ => some method.result
  | .invoke .. | .throw .. | .superCall .. | .record .. | .interface .. => none

/-- The type of the last form. -/
def lastType? : List Node → Option TypeRef
  | [] => none
  | [n] => staticType? n
  | _ :: n :: ns => lastType? (n :: ns)

/-- The type of a branch that may be absent. -/
def branchType? : Option Node → Option TypeRef
  | none => none
  | some n => staticType? n

end

/-- The type of a form as an argument.  An unknown type counts as the root type. -/
def argumentType (n : Node) : TypeRef := n.staticType?.getD .object

/-- The name of the local that a form refers to, if it is a reference. -/
def localName? : Node → Option String
  | .localRef _ name .. => some name
  | _ => none

end Node

end TypeSynthesis
