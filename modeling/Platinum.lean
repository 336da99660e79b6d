import Platinum.ByteMemory
import Platinum.WordArith
import Platinum.LinkedList
import Platinum.SharedTrie
import Platinum.BlockList
import Platinum.Memmap
import Platinum.MemmapScan
import Platinum.Machine
import Platinum.Palloc
import Platinum.Heap
import Platinum.HeapInvariant
import Platinum.HeapRun
import Platinum.Paging
import Platinum.PagingInvariant
import Platinum.PagingMap
import Platinum.PagingWalk
import Platinum.AddressSpace
import Platinum.PagingBoot
import Platinum.PagingIsolation
import Platinum.PallocRun
import Platinum.IdentityMap
import Platinum.PagingRelease
import Platinum.Elf
import Platinum.ElfWindow
import Platinum.ElfCheck
import Platinum.ElfAccept
import Platinum.ElfSafety
import Platinum.ElfLoad
import Platinum.ExecPrepare
import Platinum.ExecRun
import Platinum.ElfAdmit
import Platinum.ExecAccess
import Platinum.UserMemory
import Platinum.RangeCheck
import Platinum.ExecImage
import Platinum.Vfs
import Platinum.Fd
import Platinum.Sched
import Platinum.Syscall
import Platinum.Globals
import Platinum.UserRelease
import Platinum.PagingAccess
import Platinum.SchedRun
import Platinum.FdObjects
import Platinum.FdTables
import Platinum.FdSeed
import Platinum.FdRun
import Platinum.SeedLeak
import Platinum.PathWalk
import Platinum.FileFrame
import Platinum.SharedText
import Platinum.HeapRoom
import Platinum.TightHeap
import Platinum.HeapContract
import Platinum.HeapOrder
import Platinum.ExecLookup
import Platinum.ExecNames
import Platinum.TaskStacks
import Platinum.Processor
import Platinum.SerialText
import Platinum.EntryStubs
import Platinum.Descriptors
import Platinum.ExecPoint
import Platinum.FewPages
import Platinum.UserBoot
import Platinum.SyscallPointers
import Platinum.SyscallDescriptors
import Platinum.UserRun
import Platinum.ExecStages
import Platinum.ExecMachine
import Platinum.ExecHalt
import Platinum.ExecRelease
import Platinum.ExecFailure
import Platinum.ExecFds
import Platinum.ExecTransfer
import Platinum.ExecOwnership
import Platinum.ExecSecrecy
import Platinum.UserHeap
import Platinum.UserPages
import Platinum.UserLife
import Platinum.UserCalls
import Platinum.UserExec
import Platinum.UserExit
import Platinum.ContextSwitch
import Platinum.SystemCalls
import Platinum.Transitions
import Platinum.SystemRun
import Platinum.SystemBoot
import Platinum.FirstTask
import Platinum.KernelMain
import Platinum.SystemSafety
import Platinum.MemmapCapture
import Platinum.SelfTests
