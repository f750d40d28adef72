import Lc3.Device.Peripheral
import Lc3.Session
import Lc3.Proofs.Parts
import Lc3.Proofs.Faults
import Lc3.Proofs.Handlers
import Lc3.Proofs.Rollback
import Lc3.Proofs.Nesting
import Lc3.Proofs.Invariance
import Lc3.Proofs.Simulation
import Lc3.Proofs.Lookahead
import Lc3.Proofs.Confinement
import Lc3.Proofs.Noninterference
import Lc3.Proofs.Trail
import Lc3.Proofs.Log
import Lc3.Proofs.Effects
import Lc3.Proofs.Awaiting
import Lc3.Proofs.Breaking
import Lc3.Proofs.Parking
import Lc3.Proofs.Clock
import Lc3.Proofs.Allowance
import Lc3.Proofs.Slicing
import Lc3.Proofs.Supply
import Lc3.Proofs.Delivery
import Lc3.Proofs.Output
import Lc3.Proofs.Attachments
import Lc3.Proofs.Wiring
import Lc3.Proofs.Ports
import Lc3.Proofs.Arbitration
import Lc3.Proofs.Spill
import Lc3.Proofs.Stacks
import Lc3.Proofs.LoopSimulation
import Lc3.Proofs.Veil
import Lc3.Proofs.Inspection
import Lc3.Proofs.Resuming
import Lc3.Proofs.Loading
import Lc3.Proofs.Printing
import Lc3.Proofs.Labels
import Lc3.Proofs.LineErrors
import Lc3.Proofs.ObjectFiles
import Lc3.Proofs.Breakpoints
import Lc3.Proofs.Countdown
import Lc3.Proofs.Pacing
import Lc3.Proofs.Renewal
import Lc3.Proofs.Copying
import Lc3.Proofs.Encoding
import Lc3.Proofs.Literals
import Lc3.Proofs.ByteOrder
import Lc3.Proofs.Casing
import Lc3.Proofs.Symbols
