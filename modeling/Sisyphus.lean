import Sisyphus.Iommu.Consistency
import Sisyphus.Process.Handles
import Sisyphus.Process.Progress
import Sisyphus.Process.Interleaving
import Sisyphus.Process.Preemption
import Sisyphus.Vtd.Translation
import Sisyphus.Vtd.Quarantine
import Sisyphus.Ring.References
import Sisyphus.Xhci.Events
import Sisyphus.Xhci.Refinement
import Sisyphus.Corinth.Serial
import Sisyphus.Pci.Rounds
import Sisyphus.Pci.Restoration
import Sisyphus.Slope.Settlement
import Sisyphus.Helix.Scheduler
import Sisyphus.Alchemist.Resolution
import Sisyphus.Crucible.Termination
import Sisyphus.Lease.Revocation
import Sisyphus.Nexus.Replay
import Sisyphus.Nexus.Clock
import Sisyphus.Crest.Hilbert
import Sisyphus.Crest.Leases
import Sisyphus.Rtos.Deadlines
import Sisyphus.Syscalls.Confinement
import Sisyphus.XhciDma.Teardown
import Sisyphus.Vtd.Truthfulness
import Sisyphus.HermesGsp.Settlement
import Sisyphus.Blacklab.Verifier
import Sisyphus.Reversible.Abort
import Sisyphus.Objects.Handles
import Sisyphus.CertifiedMath.Actuation
import Sisyphus.Mnemosyne.Ledger
