import HartScope.Main
import HartScope.Proofs.Bus.Accounting
import HartScope.Proofs.Debugger.Finished
import HartScope.Proofs.Expr.Evaluation
import HartScope.Proofs.Hart.Listing
import HartScope.Proofs.Hart.PreciseFaults
import HartScope.Proofs.Hart.RamAccess
import HartScope.Proofs.Isa.Arithmetic
import HartScope.Proofs.Loading.Refusal
import HartScope.Proofs.Reference.Calls
import HartScope.Proofs.Reference.InStep
import HartScope.Proofs.Simulator.Interrupts
import HartScope.Proofs.Simulator.Observers
import HartScope.Proofs.Simulator.Outcome
import HartScope.Proofs.Simulator.Split
import HartScope.Proofs.Trace.Activations
import HartScope.Proofs.Watchpoint.Requests
import HartScope.Proofs.Hart.Frame
import HartScope.Proofs.Hart.CsrAccess
import HartScope.Proofs.Hart.Reachable
import HartScope.Proofs.Simulator.Reachable
import HartScope.Proofs.Trace.Balance
import HartScope.Proofs.Watchpoint.Reports
import HartScope.Proofs.Bus.Hint
import HartScope.Proofs.Loading.Placement
import HartScope.Proofs.Loading.Acceptance
import HartScope.Proofs.Loading.Sums
import HartScope.Proofs.Expr.Tokenization
import HartScope.Proofs.Memory.Contents
import HartScope.Proofs.Device.Transmission
import HartScope.Proofs.Trace.Recent
import HartScope.Proofs.Symbols.Answers
import HartScope.Proofs.Hart.TrapReturn
import HartScope.Proofs.Device.Storage
import HartScope.Proofs.Hart.RegisterFile
import HartScope.Proofs.Isa.Spellings
import HartScope.Proofs.Debugger.Examination
import HartScope.Proofs.Reference.Exchange
import HartScope.Proofs.Expr.Ranges
