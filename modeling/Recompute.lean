import Recompute.Engine
import Recompute.Snapshot
import Recompute.Config
import Recompute.Script.Program
import Recompute.Proofs.Breaking
import Recompute.Proofs.FailFast
import Recompute.Proofs.Incremental
import Recompute.Proofs.Sweep
import Recompute.Proofs.Closure
import Recompute.Proofs.Ledger
import Recompute.Proofs.Inverse
import Recompute.Proofs.Wakeups
import Recompute.Proofs.Sequential
import Recompute.Proofs.Stall
import Recompute.Proofs.Overlapping
import Recompute.Proofs.Rollback
import Recompute.Proofs.Losses
import Recompute.Proofs.Ending
import Recompute.Proofs.Schedules
import Recompute.Proofs.Coherence
import Recompute.Proofs.Genuine
import Recompute.Proofs.Commits
import Recompute.Proofs.Sparing
import Recompute.Proofs.Discovery
import Recompute.Proofs.Gathering
import Recompute.Proofs.Halting
import Recompute.Proofs.Blame
import Recompute.Proofs.Muting
import Recompute.Proofs.Interrupting
import Recompute.Proofs.Batches
import Recompute.Proofs.Stamps
import Recompute.Proofs.Origins
import Recompute.Proofs.Faults
import Recompute.Proofs.Merging
import Recompute.Proofs.Recording
import Recompute.Proofs.Resuming
