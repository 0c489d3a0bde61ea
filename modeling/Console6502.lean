import Console6502.Command
import Console6502.Main
import Console6502.Proofs.CheckedBus
import Console6502.Proofs.CheckedSession
import Console6502.Proofs.CheckedStep
import Console6502.Proofs.Checks
import Console6502.Proofs.DataPath
import Console6502.Proofs.DemoRun
import Console6502.Proofs.FreshStart
import Console6502.Proofs.LastChange
import Console6502.Proofs.LastWrite
import Console6502.Proofs.Loading
import Console6502.Proofs.Nesting
import Console6502.Proofs.Ownership
import Console6502.Proofs.Placeholder
import Console6502.Proofs.ProgramCounter
import Console6502.Proofs.Reports
import Console6502.Proofs.RunLog
import Console6502.Proofs.RunLoop
import Console6502.Proofs.SaveState
import Console6502.Proofs.ShiftChain
import Console6502.Proofs.StackSequences
import Console6502.Proofs.Streams
import Console6502.Proofs.Subtraction
import Console6502.Proofs.Switches
import Console6502.Proofs.Unread
import Console6502.Summary
