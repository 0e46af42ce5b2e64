import Throttle.Action
import Throttle.Interleaving
import Throttle.Stream.Playback
import Throttle.Proofs.Slots
import Throttle.Proofs.Ledgers
import Throttle.Proofs.Commits
import Throttle.Proofs.Timeline
import Throttle.Proofs.Histories
import Throttle.Proofs.Linearizability
import Throttle.Proofs.Conservation
import Throttle.Proofs.Alone
import Throttle.Proofs.Reconfiguration
import Throttle.Proofs.ZeroWait
import Throttle.Proofs.Logs
import Throttle.Proofs.Publication
import Throttle.Proofs.Grants
import Throttle.Proofs.Reservations
import Throttle.Proofs.Windows
import Throttle.Proofs.Probes
import Throttle.Proofs.Debts
import Throttle.Proofs.Queueing
import Throttle.Proofs.Rounds
import Throttle.Proofs.Deliveries
import Throttle.Proofs.Races
import Throttle.Proofs.Schedules
import Throttle.Proofs.Solvency
import Throttle.Proofs.Payments
import Throttle.Proofs.Accruals
import Throttle.Proofs.Sequences
import Throttle.Proofs.Refusals
import Throttle.Proofs.Interchange
import Throttle.Proofs.Replacements
import Throttle.Proofs.Waits
import Throttle.Proofs.Takings
import Throttle.Proofs.Splits
import Throttle.Proofs.Configurations
import Throttle.Proofs.Exactness
import Throttle.Proofs.Lockstep
import Throttle.Proofs.Faults
