import Wiring.Config.Reading
import Wiring.CoreBundles
import Wiring.Host
import Wiring.Recipe
import Wiring.Proofs.Calls
import Wiring.Proofs.Cells
import Wiring.Proofs.Consistency
import Wiring.Proofs.Registrations
import Wiring.Proofs.Reentrance
import Wiring.Proofs.Rows
import Wiring.Proofs.Populations
import Wiring.Proofs.Exports
import Wiring.Proofs.Correspondence
import Wiring.Proofs.Encapsulation
import Wiring.Proofs.Linkages
import Wiring.Proofs.Renumbering
import Wiring.Proofs.Reordering
import Wiring.Proofs.ExportOrder
import Wiring.Proofs.Provenance
import Wiring.Proofs.Apartness
import Wiring.Proofs.Descriptions
import Wiring.Proofs.Backing
import Wiring.Proofs.Identity
import Wiring.Proofs.Imports
import Wiring.Proofs.Shadowing
import Wiring.Proofs.Outward
import Wiring.Proofs.PoolImports
import Wiring.Proofs.Lifecycle
import Wiring.Proofs.Constants
import Wiring.Proofs.DependencyCycles
import Wiring.Proofs.Duplicates
import Wiring.Proofs.ImportCircles
import Wiring.Proofs.Requirements
import Wiring.Proofs.Enumeration
import Wiring.Proofs.ErrorPaths
import Wiring.Proofs.Recordings
import Wiring.Proofs.Paths
import Wiring.Proofs.Tracing
import Wiring.Proofs.Delegation
import Wiring.Proofs.Registries
