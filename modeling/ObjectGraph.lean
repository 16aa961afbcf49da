import ObjectGraph.Handle
import ObjectGraph.Source.Span
import ObjectGraph.Source.Lines
import ObjectGraph.Number.Read
import ObjectGraph.Number.Integer
import ObjectGraph.Text.Quoted
import ObjectGraph.Tree.Traverse
import ObjectGraph.Tree.Equality
import ObjectGraph.Tree.Folds
import ObjectGraph.Heap.Summary
import ObjectGraph.Types.Builtin
import ObjectGraph.Types.Lineage
import ObjectGraph.Types.Shape
import ObjectGraph.Tree.Printer
import ObjectGraph.Tree.Closed
import ObjectGraph.Check.Assignable
import ObjectGraph.Check.Checker
import ObjectGraph.Check.Report
import ObjectGraph.Heap.Chain
import ObjectGraph.Heap.Cell
import ObjectGraph.Heap.EvalError
import ObjectGraph.Plugin.Builtin
import ObjectGraph.Run.Reduce
import ObjectGraph.Run.Evaluator
import ObjectGraph.Output.GraphJson
import ObjectGraph.Output.GraphText
import ObjectGraph.Output.HeapJson
import ObjectGraph.Plugin.Scripted
import ObjectGraph.Config.Read
import ObjectGraph.Proofs.Discovery
import ObjectGraph.Proofs.Construct
import ObjectGraph.Proofs.ObjectJson
import ObjectGraph.Proofs.Sweep
import ObjectGraph.Proofs.PlainObject
import ObjectGraph.Proofs.Formula.Properties
import ObjectGraph.Proofs.ShortCircuit
import ObjectGraph.Proofs.Body.Results
import ObjectGraph.Proofs.SweepOrder
import ObjectGraph.Proofs.Types.Requests
import ObjectGraph.Proofs.Check.Inference
import ObjectGraph.Proofs.Run.Completion
import ObjectGraph.Proofs.Check.Poison
import ObjectGraph.Proofs.Check.Preorder
import ObjectGraph.Proofs.Check.Groups
import ObjectGraph.Proofs.Check.Places
import ObjectGraph.Proofs.Run.FixedPoint
import ObjectGraph.Proofs.Run.SealOrder
import ObjectGraph.Proofs.Run.Operators
import ObjectGraph.Proofs.Run.Limits
import ObjectGraph.Proofs.Run.Rounds
import ObjectGraph.Proofs.Run.Resuming
import ObjectGraph.Proofs.Run.Standstill
import ObjectGraph.Proofs.Run.SealHooks
import ObjectGraph.Proofs.Run.SealFailure
import ObjectGraph.Proofs.Run.Handles
import ObjectGraph.Proofs.Run.Promises
import ObjectGraph.Proofs.Output.Modes
import ObjectGraph.Proofs.Output.Privacy
import ObjectGraph.Proofs.Types.Hierarchy
import ObjectGraph.Proofs.Check.Reports
import ObjectGraph.Proofs.Run.Agreement
import ObjectGraph.Proofs.Run.RuntimeTypes
import ObjectGraph.Proofs.Check.Recovery
import ObjectGraph.Proofs.Run.SealSet
import ObjectGraph.Proofs.Reachability
import ObjectGraph.Proofs.Run.Slots
import ObjectGraph.Proofs.Heap.Batch
import ObjectGraph.Proofs.Run.Course
import ObjectGraph.Proofs.Run.Leaving
import ObjectGraph.Proofs.Run.Dispatch
import ObjectGraph.Proofs.Run.Joining
import ObjectGraph.Proofs.Check.Mutual
import ObjectGraph.Proofs.Check.Substitution
import ObjectGraph.Proofs.Check.WrittenNames
import ObjectGraph.Proofs.Integers
import ObjectGraph.Proofs.Tree.Folding
import ObjectGraph.Proofs.Source.Positions
import ObjectGraph.Proofs.Types.Ancestors
import ObjectGraph.Proofs.Types.Representation
