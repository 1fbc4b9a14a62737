import ModelGraph.Config.Encode
import ModelGraph.Files.FileTree
import ModelGraph.Graph.Encode
import ModelGraph.Main
import ModelGraph.Schema.Execution
import ModelGraph.Proofs.OrderedMap
import ModelGraph.Proofs.Cache.Failure
import ModelGraph.Proofs.Cache.Identity
import ModelGraph.Proofs.Cache.Key
import ModelGraph.Proofs.Cache.Layer
import ModelGraph.Proofs.Cache.Replay
import ModelGraph.Proofs.Cache.Sweep
import ModelGraph.Proofs.Graph.Declarations
import ModelGraph.Proofs.Graph.Independent
import ModelGraph.Proofs.Graph.Local
import ModelGraph.Proofs.Graph.Mark
import ModelGraph.Proofs.Graph.Mirrored
import ModelGraph.Proofs.Graph.Outcome
import ModelGraph.Proofs.Graph.Reserved
import ModelGraph.Proofs.Graph.Search
import ModelGraph.Proofs.Graph.Shown
import ModelGraph.Proofs.Graph.Visible
import ModelGraph.Proofs.Hook
import ModelGraph.Proofs.Model.RoundTrip
import ModelGraph.Proofs.Query.Connective
import ModelGraph.Proofs.Query.Flat
import ModelGraph.Proofs.Query.Predicates
import ModelGraph.Proofs.Query.Sort
import ModelGraph.Proofs.Schema.Connections
import ModelGraph.Proofs.Schema.EnumItems
import ModelGraph.Proofs.Schema.Enums
import ModelGraph.Proofs.Schema.Names
import ModelGraph.Proofs.Schema.Offline
import ModelGraph.Proofs.Schema.ValidNames
