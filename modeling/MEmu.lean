import MEmu.Exceptions
import MEmu.Interrupts
import MEmu.Translation
import MEmu.Confinement
import MEmu.Conditional
import MEmu.Expansion
import MEmu.Alu
import MEmu.Masks
import MEmu.Permission
import MEmu.PageWalk
import MEmu.TlbCache
import MEmu.ReservedBytes
import MEmu.ClaimComplete
import MEmu.Assertions
import MEmu.SupervisorViews
import MEmu.Delegation
import MEmu.SatpProbe
import MEmu.Registration
import MEmu.PlicRegisters
import MEmu.StorePaths
import MEmu.Transmit
import MEmu.Refusals
import MEmu.Replies
import MEmu.Alignment
import MEmu.Jumps
import MEmu.Thresholds
import MEmu.Clint
import MEmu.AmoWidth
import MEmu.AtomicAlign
import MEmu.FetchHalves
import MEmu.Arbitration
import MEmu.ClintRegisters
import MEmu.Receive
import MEmu.GdbAddresses
import MEmu.TrapEntry
import MEmu.TrapReturn
import MEmu.CsrWrites
import MEmu.RamAccess
import MEmu.MissingMemory
import MEmu.DebugView
import MEmu.PacketGrammar
import MEmu.Framing
import MEmu.DumpRestore
import MEmu.MemoryCommands
import MEmu.Continue
import MEmu.TlbRefinement
import MEmu.Isolation
import MEmu.Lib.Labelled
import MEmu.PlatformMemory
import MEmu.PlatformTimer
import MEmu.PlatformAtomics
import MEmu.PlatformConsole
