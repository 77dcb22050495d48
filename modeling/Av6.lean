import Av6.CircularBuffer
import Av6.KmsgRing
import Av6.KmsgQueue
import Av6.KmsgRefinement
import Av6.KmsgSimulation
import Av6.KmsgRuns
import Av6.TransitionSystem
import Av6.AsidModel
import Av6.AsidInvariant
import Av6.AsidPreservation
import Av6.AsidAssignment
import Av6.AsidRollover
import Av6.AsidSteps
import Av6.AsidExclusivity
import Av6.ProcModel
import Av6.ProcLocks
import Av6.ProcInvariant
import Av6.ProcMoves
import Av6.ProcDispatch
import Av6.ProcEffects
import Av6.ProcSteps
import Av6.SchedulerExclusivity
import Av6.WaitInvariant
import Av6.WaitMoves
import Av6.WaitSteps
import Av6.WaitEffects
import Av6.WaitFork
import Av6.WaitReachable
import Av6.WaitLedger
import Av6.WaitLedgerSteps
import Av6.WaitHistory
import Av6.ExitWait
import Av6.Bitstring
import Av6.FallibleState
import Av6.KmemModel
import Av6.SlabLayout
import Av6.SlabLayer
import Av6.SlabSlots
import Av6.SlabPages
import Av6.SlabPrograms
import Av6.MagazineLayer
import Av6.MagazineDrain
import Av6.KmemReclaim
import Av6.KmemAlloc
import Av6.MagazineMoves
import Av6.KmemObjects
import Av6.KmemCreate
import Av6.KmemDestroy
import Av6.KmemSystem
import Av6.KmemInvariant
import Av6.KmemOutcome
import Av6.KmemReachable
import Av6.KmallocRanges
import Av6.KmemConservation
import Av6.SeparatedIntervals
import Av6.PhysmemModel
import Av6.PhysmemRegions
import Av6.PhysmemAvail
import Av6.KinitModel
import Av6.KinitFreelist
import Av6.TracedReader
import Av6.FdtModel
import Av6.FdtTokens
import Av6.FdtWalks
import Av6.FdtEncoding
import Av6.FdtBounds
import Av6.DtbModel
import Av6.DtbBounds
import Av6.FdtTrees
import Av6.FdtDecode
import Av6.FdtRoundTrip
import Av6.Placement
import Av6.PmapModel
import Av6.PmapPages
import Av6.ElfBounds
import Av6.ElfTwins
import Av6.ExecArguments
import Av6.KstackModel
import Av6.KstackPages
import Av6.ConsoleDrain
import Av6.ConsoleInput
import Av6.ConsoleLines
import Av6.ExecAtomic
import Av6.ExecDecode
import Av6.HandoffCycle
import Av6.IntrHandoff
import Av6.IrqMaskDiscipline
import Av6.KillModel
import Av6.KillWindow
import Av6.PrintkDelivery
import Av6.TrapModel
import Av6.TrapReturn
import Av6.A64Subset
import Av6.CopyExact
import Av6.ElfExact
import Av6.KstackWindow
import Av6.UnmapExact
import Av6.UserCopyExact
import Av6.UserCopyStrings
import Av6.ForkAtomic
import Av6.PmapResize
import Av6.SbrkModel
import Av6.SbrkRuns
import Av6.SbrkExact
import Av6.AlignedWords
import Av6.Deadlines
import Av6.FmtClosed
import Av6.FmtExact
import Av6.FmtNumbers
import Av6.FmtWidth
import Av6.HardwareWaits
import Av6.KmemHeld
import Av6.KmemLaidOut
import Av6.PrintkPrefix
import Av6.PhysmemBanks
import Av6.DmapBanks
import Av6.DmapText
import Av6.KmemOrder
import Av6.KmemTeardown
import Av6.TableTrees
import Av6.MapExact
import Av6.WalkRange
import Av6.AsidPool
import Av6.FdtTermination
import Av6.IdAllocator
import Av6.IntrusiveLists
import Av6.IntrusiveRuns
import Av6.Memmove
import Av6.PhysmemSegments
import Av6.SaveRegs
import Av6.SlabFreeCheck
import Av6.DmapExact
import Av6.PtableModel
import Av6.PtableOwners
import Av6.PtableCoherence
import Av6.StaleData
import Av6.Isolation
import Av6.PageRoles
import Av6.SyscallExact
import Av6.SyscallRuns
