import Overpass.Core.Bytes
import Overpass.Core.Sha256
import Overpass.Core.Types
import Overpass.Hierarchy.SparseMerkleTree
import Overpass.Hierarchy.KeyPath
import Overpass.Hierarchy.CircuitInputs
import Overpass.Hierarchy.Root.RootContract
import Overpass.Hierarchy.Root.StateData
import Overpass.Hierarchy.Client.BitcoinStateConverter
import Overpass.Hierarchy.Client.Settlement
import Overpass.Hierarchy.Client.ProofExporter
import Overpass.StorageNode.Contract
import Overpass.StorageNode.Response
import Overpass.StorageNode.Interleaving
import Overpass.StorageNode.Consistency
import Overpass.StorageNode.Sequential
import Overpass.StorageNode.Lifecycle
import Overpass.StorageNode.CycleRefinement
import Overpass.StorageNode.Admissions
import Overpass.StorageNode.Progress
import Overpass.StorageNode.Shutdown
