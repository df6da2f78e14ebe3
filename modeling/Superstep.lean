import Superstep.Main
import Superstep.Script.Codec
import Superstep.Message.Operations
import Superstep.NodeValues.Operations
import Superstep.Proofs.Message.Stepwise
import Superstep.Storage.PagedArray.Lemmas
import Superstep.Proofs.NodeValues
import Superstep.Proofs.Run.Journal
import Superstep.Proofs.Run.Phase
import Superstep.Proofs.Run.Boundary
import Superstep.Proofs.Run.Serving
import Superstep.Proofs.Convergence
import Superstep.Proofs.Run.Bulk
import Superstep.Proofs.BulkSynchronous
import Superstep.Proofs.Delivery
import Superstep.Proofs.Run.Agreement
import Superstep.Proofs.ScheduleIndependence
import Superstep.Proofs.Message.Condensing
import Superstep.Proofs.Exact
import Superstep.Proofs.Run.Lockstep
import Superstep.Proofs.Run.Mirror
import Superstep.Proofs.ReducingAgreement
import Superstep.Proofs.Run.Milestones
import Superstep.Proofs.Run.Course
import Superstep.Proofs.Run.Ascending
import Superstep.Proofs.Failure
import Superstep.Proofs.Cancellation
import Superstep.Proofs.Outcome
import Superstep.Proofs.Run.Transitions
import Superstep.Proofs.Lifecycle
import Superstep.Proofs.MessengerContracts
import Superstep.Proofs.Run.Success
import Superstep.Proofs.Statistics
import Superstep.Proofs.Hook
import Superstep.Proofs.Run.Rounds
import Superstep.Proofs.Graph.CountingSort
import Superstep.Proofs.Graph.Rows
import Superstep.Proofs.Graph.Soundness
import Superstep.Proofs.Algorithm.Spreading
import Superstep.Proofs.Algorithm.ShortestPaths
import Superstep.Proofs.Algorithm.Components
import Superstep.Proofs.Algorithm.PageRank
import Superstep.Proofs.Tiling
import Superstep.Proofs.Graph.RowTiling
import Superstep.Proofs.Graph.Construction
import Superstep.Proofs.Graph.Reversal
import Superstep.Proofs.Graph.ExternalIds
import Superstep.Proofs.Json.Number
import Superstep.Proofs.Json.Text
import Superstep.Proofs.Json.Settings
import Superstep.Proofs.SlotKeys
import Superstep.Proofs.Footprint
import Superstep.Proofs.Text
import Superstep.Proofs.Decimal.Reading
import Superstep.Proofs.Graph.EdgeList
import Superstep.Proofs.Message.Paging
import Superstep.Proofs.HeldBytes
import Superstep.Proofs.Rejection
import Superstep.Proofs.Run.Unattended
import Superstep.Proofs.Graph.Linked
import Superstep.Proofs.CommandLine
import Superstep.Proofs.Message.Grouping
import Superstep.Proofs.ValueHistory
import Superstep.Proofs.Message.Linking
import Superstep.Proofs.Storage.FlatList
import Superstep.Proofs.Storage.FiniteSet
