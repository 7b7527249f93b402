import TypeSynthesis.Attributes
import TypeSynthesis.Binding
import TypeSynthesis.Closure
import TypeSynthesis.Compile
import TypeSynthesis.Conversion
import TypeSynthesis.Digest.Xxh64
import TypeSynthesis.Entry
import TypeSynthesis.Environment
import TypeSynthesis.Error
import TypeSynthesis.Lowering
import TypeSynthesis.Member
import TypeSynthesis.Options
import TypeSynthesis.Overload
import TypeSynthesis.Primitive
import TypeSynthesis.Proofs.Captures.Merge
import TypeSynthesis.Proofs.Captures.Objects
import TypeSynthesis.Proofs.Completeness.Basic
import TypeSynthesis.Proofs.Completeness.Resolve
import TypeSynthesis.Proofs.Computation
import TypeSynthesis.Proofs.Definitions.Basic
import TypeSynthesis.Proofs.Definitions.Completion
import TypeSynthesis.Proofs.Definitions.Constructs
import TypeSynthesis.Proofs.Definitions.Failure
import TypeSynthesis.Proofs.Definitions.GeneratedNames
import TypeSynthesis.Proofs.Definitions.Refusal
import TypeSynthesis.Proofs.Definitions.Resolve
import TypeSynthesis.Proofs.Definitions.Trace
import TypeSynthesis.Proofs.Hierarchy.Above
import TypeSynthesis.Proofs.Hierarchy.Grown
import TypeSynthesis.Proofs.Hierarchy.Order
import TypeSynthesis.Proofs.Hierarchy.Persistence
import TypeSynthesis.Proofs.Hierarchy.Preorder
import TypeSynthesis.Proofs.Hierarchy.Reachability
import TypeSynthesis.Proofs.Hierarchy.Search
import TypeSynthesis.Proofs.Idempotence.Basic
import TypeSynthesis.Proofs.Idempotence.Repeats
import TypeSynthesis.Proofs.Idempotence.Resolve
import TypeSynthesis.Proofs.Identity.Separation
import TypeSynthesis.Proofs.LexicalTyping.Basic
import TypeSynthesis.Proofs.LexicalTyping.Binders
import TypeSynthesis.Proofs.LexicalTyping.Resolve
import TypeSynthesis.Proofs.LexicalTyping.Yields
import TypeSynthesis.Proofs.Mentions.Basic
import TypeSynthesis.Proofs.Mentions.Resolve
import TypeSynthesis.Proofs.Mentions.Synthesis
import TypeSynthesis.Proofs.Names.Basic
import TypeSynthesis.Proofs.Names.Nesting
import TypeSynthesis.Proofs.Names.Rebinding
import TypeSynthesis.Proofs.Names.Resolve
import TypeSynthesis.Proofs.Overload.Dominance
import TypeSynthesis.Proofs.Overload.Exact
import TypeSynthesis.Proofs.Overload.Repetition
import TypeSynthesis.Proofs.Overload.Selection
import TypeSynthesis.Proofs.Overload.Untyped
import TypeSynthesis.Proofs.Registry.Additions
import TypeSynthesis.Proofs.Registry.Grammar
import TypeSynthesis.Proofs.Registry.Growth
import TypeSynthesis.Proofs.Registry.Index
import TypeSynthesis.Proofs.Registry.Instantiation
import TypeSynthesis.Proofs.Registry.Naming
import TypeSynthesis.Proofs.Registry.Operations
import TypeSynthesis.Proofs.Registry.Pointers
import TypeSynthesis.Proofs.Registry.Readings
import TypeSynthesis.Proofs.Registry.Rejection
import TypeSynthesis.Proofs.Registry.Workbench
import TypeSynthesis.Proofs.Resolve.Heads
import TypeSynthesis.Proofs.Resolve.Implement
import TypeSynthesis.Proofs.Resolve.Members
import TypeSynthesis.Proofs.Resolve.Scope
import TypeSynthesis.Proofs.Resolve.Steps
import TypeSynthesis.Proofs.Scope.Log
import TypeSynthesis.Proofs.Scope.Stack
import TypeSynthesis.Proofs.SuperCall.Bodies
import TypeSynthesis.Proofs.SuperCall.MostDerived
import TypeSynthesis.Proofs.SuperCall.Nearest
import TypeSynthesis.Proofs.Synthesis.Candidates
import TypeSynthesis.Proofs.Synthesis.Drafts
import TypeSynthesis.Proofs.Synthesis.FreshNames
import TypeSynthesis.Proofs.Synthesis.Implement
import TypeSynthesis.Proofs.Synthesis.InterfaceOutcome
import TypeSynthesis.Proofs.Synthesis.Invokers
import TypeSynthesis.Proofs.Synthesis.Members
import TypeSynthesis.Proofs.Synthesis.Owners
import TypeSynthesis.Proofs.Synthesis.Record
import TypeSynthesis.Proofs.Synthesis.RecordOutcome
import TypeSynthesis.Proofs.Synthesis.Steps
import TypeSynthesis.Proofs.Synthesis.Supertypes
import TypeSynthesis.Proofs.Synthesis.Wrapper
import TypeSynthesis.Proofs.Tree.ValuePositions
import TypeSynthesis.Registry.Basic
import TypeSynthesis.Registry.Draft
import TypeSynthesis.Registry.Generic
import TypeSynthesis.Registry.Hierarchy
import TypeSynthesis.Registry.Host
import TypeSynthesis.Registry.Methods
import TypeSynthesis.Registry.Names
import TypeSynthesis.Resolve.Monad
import TypeSynthesis.Resolve.Node
import TypeSynthesis.Scope
import TypeSynthesis.Span
import TypeSynthesis.SuperCall
import TypeSynthesis.Synthesis.Candidates
import TypeSynthesis.Synthesis.Implement
import TypeSynthesis.Synthesis.Interface
import TypeSynthesis.Synthesis.Monad
import TypeSynthesis.Synthesis.Object
import TypeSynthesis.Synthesis.Record
import TypeSynthesis.Synthesis.Wrapper
import TypeSynthesis.Table
import TypeSynthesis.Text.Blank
import TypeSynthesis.Text.Hex
import TypeSynthesis.Tree.Basic
import TypeSynthesis.Tree.Capture
import TypeSynthesis.Tree.StaticType
import TypeSynthesis.TypeId
import TypeSynthesis.TypeRef
