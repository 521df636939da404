import ClassLift.Access
import ClassLift.Analysis
import ClassLift.Body.Equality
import ClassLift.Body.Node
import ClassLift.Body.Pattern
import ClassLift.Body.Render
import ClassLift.Body.Store
import ClassLift.Body.Walk
import ClassLift.Class.Basic
import ClassLift.Class.Table
import ClassLift.ClassName
import ClassLift.Decimal
import ClassLift.Descriptor
import ClassLift.Diagnostic
import ClassLift.EnumOrder
import ClassLift.Idiom.ArrayLiteral
import ClassLift.Idiom.Assignment
import ClassLift.Idiom.ClassLiteral
import ClassLift.Idiom.CompoundAssignment
import ClassLift.Idiom.Concatenation
import ClassLift.Idiom.Conditional
import ClassLift.Idiom.Construction
import ClassLift.Idiom.Draft
import ClassLift.Idiom.Increment
import ClassLift.Idiom.OuterInstance
import ClassLift.Idiom.Recover
import ClassLift.Initializer
import ClassLift.Operator
import ClassLift.Pool.Basic
import ClassLift.Pool.Intern
import ClassLift.Reference.Count
import ClassLift.Reference.Map
import ClassLift.Reference.Mention
import ClassLift.Signature
import ClassLift.Structure.Declaration
import ClassLift.Structure.Listing
import ClassLift.Structure.Method
import ClassLift.Structure.Region
import ClassLift.Survey.Accessor
import ClassLift.Survey.Basic
import ClassLift.Survey.LocalNames
import ClassLift.Survey.OuterField
import ClassLift.Survey.SwitchMap
import ClassLift.Proofs.Action
import ClassLift.Proofs.Body.Store
import ClassLift.Proofs.Structure.Listing
import ClassLift.Proofs.Structure.Progress
import ClassLift.Proofs.Structure.Rework
import ClassLift.Proofs.Structure.Position
import ClassLift.Proofs.Structure.Atomicity
import ClassLift.Proofs.Structure.Layout
import ClassLift.Proofs.Structure.Construction
import ClassLift.Proofs.Structure.Exits
import ClassLift.Proofs.Structure.Forward
import ClassLift.Proofs.Structure.Outline
import ClassLift.Proofs.Structure.Coverage
import ClassLift.Proofs.Structure.Dispatch
import ClassLift.Proofs.Structure.Checked
import ClassLift.Proofs.Structure.Invariant
import ClassLift.Proofs.Structure.Safety
import ClassLift.Proofs.Structure.Visibility
import ClassLift.Proofs.Structure.Declaration
import ClassLift.Proofs.Pool.Extension
import ClassLift.Proofs.Pool.History
import ClassLift.Proofs.Pool.Interning
import ClassLift.Proofs.Signature.Grammar
import ClassLift.Proofs.Signature.Reading
import ClassLift.Proofs.Signature.Descriptor
import ClassLift.Proofs.Reference.Readable
import ClassLift.Proofs.Reference.Reduction
import ClassLift.Proofs.Class.Evolution
import ClassLift.Proofs.Class.Nesting
import ClassLift.Proofs.Class.Subtree
import ClassLift.Proofs.Reference.Counting
import ClassLift.Proofs.Body.Acyclic
import ClassLift.Proofs.Body.Reach
import ClassLift.Proofs.Body.Order
import ClassLift.Proofs.Body.Equality
import ClassLift.Proofs.Body.Position
import ClassLift.Proofs.Body.First
import ClassLift.Proofs.Class.Development
import ClassLift.Proofs.Survey.Evolution
import ClassLift.Proofs.Idiom.Evolution
import ClassLift.Proofs.Analysis.Evolution
import ClassLift.Proofs.Analysis.Outcome
import ClassLift.Proofs.Analysis.Stage
import ClassLift.Proofs.Analysis.Rollback
import ClassLift.Proofs.Body.Tree
import ClassLift.Proofs.Survey.Accessor
import ClassLift.Proofs.Survey.OuterField
import ClassLift.Proofs.Survey.LocalNames
import ClassLift.Proofs.Survey.OrdinalStore
import ClassLift.Proofs.Idiom.OnTable
import ClassLift.Proofs.Idiom.OuterInstance
import ClassLift.Proofs.Idiom.Reduction
import ClassLift.Proofs.Idiom.Rebuild
import ClassLift.Proofs.Idiom.Planting
import ClassLift.Proofs.Idiom.InPlace
import ClassLift.Proofs.Idiom.Overlooked
import ClassLift.Proofs.Idiom.Construction
import ClassLift.Proofs.Idiom.Held
import ClassLift.Proofs.Idiom.Increment
import ClassLift.Proofs.Idiom.Assignment
import ClassLift.Proofs.Idiom.Conditional
import ClassLift.Proofs.Idiom.Fold
import ClassLift.Proofs.Idiom.Position
import ClassLift.Proofs.Idiom.Preservation
import ClassLift.Proofs.Idiom.BytecodeOrder
import ClassLift.Proofs.Idiom.ReadOrder
import ClassLift.Proofs.Idiom.Calls
import ClassLift.Proofs.Idiom.LeftOut
import ClassLift.Proofs.Idiom.Sweep
import ClassLift.Proofs.Idiom.Composite
import ClassLift.Proofs.Idiom.ArrayLiteral
import ClassLift.Proofs.Idiom.NestedConstruction
import ClassLift.Proofs.Idiom.AssignmentChain
import ClassLift.Proofs.Idiom.Ordinary
import ClassLift.Proofs.Idiom.Visit
import ClassLift.Proofs.Idiom.Concatenation
import ClassLift.Proofs.Idiom.Legible
import ClassLift.Proofs.Idiom.OuterChain
import ClassLift.Proofs.Initializer.Lifting
import ClassLift.Proofs.Initializer.Mirror
import ClassLift.Proofs.Initializer.EnumOrder
import ClassLift.Proofs.Survey.SwitchMap
import ClassLift.Proofs.Initializer.Once
import ClassLift.Proofs.Initializer.Agreement
