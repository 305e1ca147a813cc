import LoopLowering.Main
import LoopLowering.Syntax.Traversal
import LoopLowering.Json.Value
import LoopLowering.Types.Builtins
import LoopLowering.Types.Iteration
import LoopLowering.Proofs.Types.ValueTypes
import LoopLowering.Proofs.Types.SoundTables
import LoopLowering.Proofs.Types.DeclarationOrder
import LoopLowering.Proofs.Types.HierarchyWalks
import LoopLowering.Proofs.Types.SupertypeSearch
import LoopLowering.Proofs.Types.MethodOwners
import LoopLowering.Proofs.Types.Instantiation
import LoopLowering.Proofs.Types.BoundedVariables
import LoopLowering.Proofs.Resolution.ResolvedMethods
import LoopLowering.Proofs.Resolution.LexicalNames
import LoopLowering.Proofs.Code.TypeAgreement
import LoopLowering.Proofs.Machine.Methods
import LoopLowering.Proofs.Machine.StoredSlots
import LoopLowering.Proofs.Flow.DefiniteAssignment
import LoopLowering.Proofs.Flow.SingleAssignments
import LoopLowering.Proofs.Machine.BalancedCode
import LoopLowering.Proofs.Machine.BalancedLoops
import LoopLowering.Proofs.Machine.LoopStacks
import LoopLowering.Proofs.Syntax.JsonRoundTrip
import LoopLowering.Proofs.Syntax.PrintedExpressions
import LoopLowering.Proofs.Syntax.PrintedStatements
import LoopLowering.Proofs.Code.Relowering
import LoopLowering.Proofs.Code.LocalTables
import LoopLowering.Proofs.Code.TreePaths
import LoopLowering.Proofs.Execution.Methods
import LoopLowering.Proofs.Code.SourceNames
import LoopLowering.Proofs.Locals.FrameSlots
import LoopLowering.Proofs.Machine.ClosedCode
import LoopLowering.Proofs.Machine.LoopAccesses
import LoopLowering.Proofs.Flow.FixedPoints
import LoopLowering.Proofs.Flow.ReportCounts
import LoopLowering.Proofs.Execution.CompoundAssignments
import LoopLowering.Proofs.Types.WellFormedTypes
import LoopLowering.Proofs.Code.Conversions
import LoopLowering.Proofs.Flow.Merging
import LoopLowering.Proofs.Code.FrameSums
import LoopLowering.Proofs.Flow.AssignmentFacts
import LoopLowering.Proofs.Flow.FiniteSets
import LoopLowering.Proofs.Locals.ScopeTrees
import LoopLowering.Proofs.Flow.JumpBrackets
import LoopLowering.Proofs.Syntax.ListedLoops
