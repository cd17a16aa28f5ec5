import Bambinos.Infra.Java
import Bambinos.Compiler.Ident
import Bambinos.Compiler.SymbolTable
import Bambinos.Compiler.CodeGenerator
import Bambinos.Compiler.Expression
import Bambinos.Compiler.Statement
import Bambinos.Vm.Machine
import Bambinos.Infra.Patch
import Bambinos.Linker.BinaryFile
import Bambinos.Linker.Placement
import Bambinos.Linker.Resolution
import Bambinos.Infra.Frame
import Bambinos.Vm.Frame
import Bambinos.Linker.ControlFlow
import Bambinos.Compiler.Arithmetic
import Bambinos.Compiler.TokenRuns
import Bambinos.Compiler.Grouping
import Bambinos.Compiler.Declarations
import Bambinos.Compiler.Layout
import Bambinos.Infra.Simulation
import Bambinos.Vm.Run
import Bambinos.Compiler.Flow.Code
import Bambinos.Compiler.Flow.Operands
import Bambinos.Compiler.Flow.Conditions
import Bambinos.Compiler.Flow.Statements
import Bambinos.Compiler.Flow.Machine
import Bambinos.Compiler.Flow.Correct
import Bambinos.Infra.BitField
import Bambinos.Vm.Encoding
import Bambinos.Compiler.ClassCode
import Bambinos.Vm.Ending
import Bambinos.Linker.Output
import Bambinos.Linker.MainEnd
import Bambinos.Linker.Initialisers
import Bambinos.Infra.Chain
import Bambinos.Minix.Proc
import Bambinos.Minix.Scheduler
import Bambinos.Minix.Choice
import Bambinos.Minix.ReadyQueues
import Bambinos.Minix.Messages
import Bambinos.Minix.Calls
import Bambinos.Minix.Invariant
import Bambinos.Minix.Delivery
import Bambinos.Minix.Lifecycle
import Bambinos.Minix.Boot
import Bambinos.Minix.Runs
import Bambinos.Infra.Ledger
import Bambinos.Mbcdd.Device
import Bambinos.Mbcdd.Steps
import Bambinos.Mbcdd.Completion
import Bambinos.Mbcdd.Lifetime
import Bambinos.GeekOS.ArgBlock
import Bambinos.GeekOS.Loader
import Bambinos.GeekOS.Fields
import Bambinos.GeekOS.Bounds
import Bambinos.Mbcdd.Leaks
import Bambinos.Infra.ListHead
import Bambinos.Mbcdd.Handout
import Bambinos.Infra.Succession
import Bambinos.Minix.Fifo
import Bambinos.Minix.Policy
import Bambinos.Minix.ProcessManager
import Bambinos.Minix.Setscheduler
import Bambinos.Infra.ByteFile
import Bambinos.Linker.ObjectFormat
import Bambinos.Linker.RoundTrip
import Bambinos.Compiler.SymbolExchange
import Bambinos.Compiler.SymbolRoundTrip
import Bambinos.Compiler.Main
import Bambinos.Compiler.Flow.Relation
import Bambinos.Compiler.OperandOrder
import Bambinos.GeekOS.Buffers
import Bambinos.Compiler.Hiding
import Bambinos.Compiler.Activation
import Bambinos.Compiler.FrameLaw
import Bambinos.Compiler.Scanner
import Bambinos.Compiler.ScannerSteps
import Bambinos.Compiler.SourceLayout
import Bambinos.GeekOS.LifeCycle
import Bambinos.GeekOS.Image
import Bambinos.GeekOS.SegmentTable
import Bambinos.GeekOS.Spawning
import Bambinos.Minix.LoadUpdate
import Bambinos.Minix.SetAtomic
import Bambinos.Mbcdd.Cursor
import Bambinos.Mbcdd.Transfer
import Bambinos.Minix.QuantumRuns
import Bambinos.Linker.Scanning
import Bambinos.Compiler.ScannerSafety
import Bambinos.Infra.Fuel
import Bambinos.Compiler.EnoughFuel
import Bambinos.Compiler.ExpressionEnds
import Bambinos.GeekOS.ReadFully
import Bambinos.Vm.Fetching
import Bambinos.Vm.TwoForms
import Bambinos.Compiler.StatementEnds
import Bambinos.GeekOS.Cleanup
import Bambinos.Compiler.Recovery
import Bambinos.Compiler.AfterErrors
import Bambinos.Linker.Isolation
import Bambinos.Compiler.Constants
import Bambinos.Compiler.ConstantRuns
import Bambinos.Compiler.WideOperands
import Bambinos.Compiler.ConstantLoads
import Bambinos.Compiler.Folding
import Bambinos.Infra.Exchange
import Bambinos.Infra.Mailbox
import Bambinos.Minix.Ipc
import Bambinos.Minix.IpcRuns
import Bambinos.Minix.Talks
import Bambinos.Minix.Handover
import Bambinos.Minix.Deadlock
import Bambinos.Minix.Leaving
import Bambinos.Minix.Rendezvous
import Bambinos.Minix.Notices
import Bambinos.Minix.Told
