import PointsTo.Text.Split
import PointsTo.Json.Tree
import PointsTo.Json.Value
import PointsTo.Table
import PointsTo.Worklist
import PointsTo.Sets.Objects
import PointsTo.Program.Names
import PointsTo.Description.Reader
import PointsTo.Loading.Program
import PointsTo.Hierarchy.Targets
import PointsTo.Context.Policy
import PointsTo.Summary
import PointsTo.CallGraph.Statistics
import PointsTo.CallGraph.Dot
import PointsTo.Flow.Graph
import PointsTo.Flow.Network
import PointsTo.Solver.Run
import PointsTo.Report.Listing
import PointsTo.Main
import PointsTo.CommandLine.Directory
import PointsTo.Proofs.Constraints
import PointsTo.Proofs.Contexts
import PointsTo.Proofs.Facts
import PointsTo.Proofs.Reading
import PointsTo.Proofs.Precedence
import PointsTo.Proofs.Precision
import PointsTo.Proofs.Changes
import PointsTo.Proofs.Effects
import PointsTo.Proofs.Steps
import PointsTo.Proofs.Saturation
import PointsTo.Proofs.Delivery
import PointsTo.Proofs.OrderedSets
import PointsTo.Proofs.Sizes
import PointsTo.Proofs.Bounds
import PointsTo.Proofs.Queue
import PointsTo.Proofs.Termination
import PointsTo.Proofs.Searching
import PointsTo.Proofs.Subtypes
import PointsTo.Proofs.CallGraphs
import PointsTo.Proofs.HierarchyClosure
import PointsTo.Proofs.Overapproximation
import PointsTo.Proofs.Origins
import PointsTo.Proofs.WellFormed
import PointsTo.Proofs.Loaded
import PointsTo.Proofs.Summaries
import PointsTo.Proofs.Renamings
import PointsTo.Proofs.Morphisms
import PointsTo.Proofs.Merged
import PointsTo.Proofs.Refinement
import PointsTo.Proofs.Propagation
import PointsTo.Proofs.CallStrings
import PointsTo.Proofs.Monotonicity
import PointsTo.Proofs.Discovery
import PointsTo.Proofs.Reactions
import PointsTo.Proofs.Embeddings
import PointsTo.Proofs.Receivers
import PointsTo.Proofs.BitSets
import PointsTo.Proofs.FilledSets
import PointsTo.Proofs.FiniteSets
import PointsTo.Proofs.Acyclicity
import PointsTo.Proofs.Rows
import PointsTo.Proofs.FirstRequests
import PointsTo.Proofs.Declarations
import PointsTo.Proofs.Naming
import PointsTo.Proofs.Lowering
import PointsTo.Proofs.Acceptance
import PointsTo.Proofs.Coherence
import PointsTo.Proofs.Printing
import PointsTo.Proofs.Lookups
import PointsTo.Proofs.CheckedHierarchy
import PointsTo.Proofs.CheckedSolver
import PointsTo.Proofs.Safety
import PointsTo.Proofs.HierarchyExactness
import PointsTo.Proofs.Depths
import PointsTo.Proofs.Projection
import PointsTo.Proofs.Cells
import PointsTo.Proofs.Chains
import PointsTo.Proofs.Dispatch
import PointsTo.Proofs.PossibleTargets
import PointsTo.Proofs.References
import PointsTo.Proofs.CycleSearch
import PointsTo.Proofs.Grouping
import PointsTo.Proofs.Interning
import PointsTo.Proofs.CallIndexes
import PointsTo.Proofs.CallRecords
import PointsTo.Proofs.CallCounts
import PointsTo.Proofs.SetCounts
import PointsTo.Proofs.SummaryNames
import PointsTo.Proofs.StoredWords
import PointsTo.Proofs.StoredSummaries
