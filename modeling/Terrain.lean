import Terrain.Offer
import Terrain.Proofs.Blend
import Terrain.Proofs.Compile.Layers
import Terrain.Proofs.Graph.Literals
import Terrain.Proofs.Graph.Mirror
import Terrain.Proofs.Graph.Role
import Terrain.Proofs.Map.Cells
import Terrain.Proofs.Map.RowMajor
import Terrain.Proofs.Partition
import Terrain.Proofs.Supplier.Coins
import Terrain.Proofs.Supplier.Replay
import Terrain.Proofs.Workspace.Announced
import Terrain.Proofs.Workspace.Chosen
import Terrain.Proofs.Workspace.Constant
import Terrain.Proofs.Workspace.Drawn
import Terrain.Proofs.Workspace.Localized
import Terrain.Proofs.Workspace.Offered
import Terrain.Proofs.Workspace.Overtaking
import Terrain.Proofs.Workspace.Reloaded
import Terrain.Proofs.Workspace.Topological
import Terrain.Proofs.Workspace.Typed
import Terrain.Proofs.Workspace.Versions
import Terrain.Scalar
