import TypeSynthesis.Member
import TypeSynthesis.Tree.Capture

/-!
# Syntax trees

The forms of the language after reading.  A form that carries methods, arities or clauses splits
each into a head, which holds what types are resolved from, and a body, which is a tree again.

* `Literal`, `TypeName`, `Param`, `Descriptor`: the leaves;
* `FnHead`, `ArityHead`, `CatchHead`, `MethodHead`, `RecordHead`, `ObjectHead`, `InterfaceHead`:
  what a form says apart from its subtrees;
* `Node`: the trees, with `LetBinding`, `Arity`, `CatchClause` and `Method` for their parts;
* `Node.span`: where a form occurred.
-/

namespace TypeSynthesis

/-! ### Leaves -/

/-- A literal constant.  Floating-point numbers are carried as their bits. -/
inductive Literal
  | nil
  | bool (b : Bool)
  | int (n : Int)
  | float (bits : UInt64)
  | char (c : Char)
  | str (s : String)
  deriving DecidableEq, Repr, Inhabited

/-- A type name as written. -/
structure TypeName where
  text : String
  span : Span := .unknown
  deriving DecidableEq, Repr, Inhabited

/-- A declared parameter.  Its type is filled in when the form that declares it is resolved. -/
structure Param where
  name : String
  hint? : Option TypeName := none
  type? : Option TypeRef := none
  span : Span := .unknown
  deriving DecidableEq, Repr, Inhabited

/-- The synthesized type of a form. -/
structure Descriptor where
  name : String
  id : TypeId
  deriving DecidableEq, Repr, Inhabited

/-- The type of the form's value. -/
def Descriptor.type (d : Descriptor) : TypeRef := .value d.id

/-! ### Heads -/

/-- How a record field may be assigned. -/
inductive Mutability
  | writeOnce
  | unsynchronized
  | volatile
  deriving DecidableEq, Repr, Inhabited

/-- A declared record field. -/
structure FieldDecl where
  name : String
  hint? : Option TypeName := none
  mutability : Mutability := .writeOnce
  span : Span := .unknown
  deriving DecidableEq, Repr, Inhabited

/-- A declared method of a generated interface. -/
structure MethodDecl where
  name : String
  params : List TypeName
  result : TypeName
  span : Span := .unknown
  deriving DecidableEq, Repr, Inhabited

/-- A function literal apart from its arities. -/
structure FnHead where
  name? : Option String := none
  captures? : Option CaptureSet := none
  wrapper? : Option Descriptor := none
  deriving DecidableEq, Repr, Inhabited

/-- An arity of a function literal apart from its body. -/
structure ArityHead where
  params : List Param
  hint? : Option TypeName := none
  deriving DecidableEq, Repr, Inhabited

/-- A catch clause apart from its body. -/
structure CatchHead where
  caught : TypeName
  name : String
  type? : Option TypeRef := none
  span : Span := .unknown
  deriving DecidableEq, Repr, Inhabited

/-- A supplied method apart from its body.  The name may be qualified by an owner. -/
structure MethodHead where
  name : String
  self? : Option Param := none
  params : List Param := []
  captures : CaptureSet := {}
  implements? : Option Signature := none
  span : Span := .unknown
  deriving DecidableEq, Repr, Inhabited

/-- A record definition apart from its methods. -/
structure RecordHead where
  name : String
  fields : List FieldDecl := []
  interfaces : List TypeName := []
  selfName : String
  descriptor? : Option Descriptor := none
  deriving DecidableEq, Repr, Inhabited

/-- The two kinds of object literals. -/
inductive ObjectKind
  /-- An anonymous object that implements interfaces. -/
  | anonymous
  /-- A proxy, which may also derive from a class. -/
  | proxy
  deriving DecidableEq, Repr, Inhabited

/-- An object literal apart from its methods. -/
structure ObjectHead where
  kind : ObjectKind
  supers : List TypeName := []
  selfName : String
  captures : CaptureSet := {}
  descriptor? : Option Descriptor := none
  deriving DecidableEq, Repr, Inhabited

/-- A generated interface. -/
structure InterfaceHead where
  name : String
  bases : List TypeName := []
  methods : List MethodDecl := []
  descriptor? : Option Descriptor := none
  deriving DecidableEq, Repr, Inhabited

/-! ### Trees -/

mutual

/-- A form. -/
inductive Node where
  /-- A literal. -/
  | const (span : Span) (value : Literal)
  /-- A reference to a local binding, with the initializer of a parameter. -/
  | localRef (span : Span) (name : String) (role : Role) (type? : Option TypeRef)
      (init? : Option Node)
  /-- Forms in sequence. -/
  | block (span : Span) (forms : List Node)
  /-- A conditional. -/
  | cond (span : Span) (test thenForm : Node) (elseForm? : Option Node)
  /-- A call of a function value. -/
  | invoke (span : Span) (callee : Node) (args : List Node)
  /-- A call of a static member of a named type. -/
  | staticCall (span : Span) (owner : TypeName) (member : String) (args : List Node)
      (resolved? : Option Signature)
  /-- A call of a member of a value. -/
  | memberCall (span : Span) (target : Node) (member : String) (args : List Node)
      (resolved? : Option Signature)
  /-- Raising an exception. -/
  | throw (span : Span) (value : Node)
  /-- A `let` or a `loop`. -/
  | letIn (span : Span) (isLoop : Bool) (bindings : List LetBinding) (body : Node)
  /-- A function literal. -/
  | fn (span : Span) (head : FnHead) (arities : List Arity)
  /-- A body with catch clauses and a final form. -/
  | guarded (span : Span) (captures? : Option CaptureSet) (body : Node)
      (clauses : List CatchClause) (final? : Option Node)
  /-- A record definition. -/
  | record (span : Span) (head : RecordHead) (methods : List Method)
  /-- An object literal. -/
  | object (span : Span) (head : ObjectHead) (methods : List Method)
  /-- A call of a proxy's base implementation, by name. -/
  | superCall (span : Span) (method selfName : String) (args : List Node)
  /-- A call of a base implementation that is bound to a method. -/
  | baseCall (span : Span) (base : TypeId) (method : Signature) (target : Node)
      (args : List Node)
  /-- A generated interface. -/
  | interface (span : Span) (head : InterfaceHead)

/-- A binding of a `let` or a `loop`. -/
structure LetBinding where
  name : String
  init : Node
  type? : Option TypeRef
  span : Span

/-- An arity of a function literal. -/
structure Arity where
  head : ArityHead
  body : Node

/-- A catch clause. -/
structure CatchClause where
  head : CatchHead
  body : Node

/-- A supplied method. -/
structure Method where
  head : MethodHead
  body : Node

end

/-- Where a form occurred. -/
def Node.span : Node → Span
  | .const s .. | .localRef s .. | .block s .. | .cond s .. | .invoke s .. | .staticCall s ..
  | .memberCall s .. | .throw s .. | .letIn s .. | .fn s .. | .guarded s .. | .record s ..
  | .object s .. | .superCall s .. | .baseCall s .. | .interface s .. => s

instance : Inhabited Node := ⟨.const .unknown .nil⟩

end TypeSynthesis
