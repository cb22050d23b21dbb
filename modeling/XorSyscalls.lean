import XorSyscalls.Foundation.TransitionSystem
import XorSyscalls.Foundation.Bisimulation
import XorSyscalls.Foundation.Simulation
import XorSyscalls.Foundation.Resource
import XorSyscalls.Foundation.Program
import XorSyscalls.Foundation.ChunkPartition
import XorSyscalls.Foundation.MaskedMap
import XorSyscalls.Foundation.Pool
import XorSyscalls.Foundation.Words
import XorSyscalls.Foundation.LastValue
import XorSyscalls.Kernel.State
import XorSyscalls.Kernel.Calls
import XorSyscalls.Kernel.Threads
import XorSyscalls.Syscall.State
import XorSyscalls.Syscall.Helpers
import XorSyscalls.Syscall.Encrypt
import XorSyscalls.Syscall.Decrypt
import XorSyscalls.Syscall.Machine
import XorSyscalls.Syscall.Moves
import XorSyscalls.Syscall.Prepare
import XorSyscalls.Cipher
import XorSyscalls.Syscall.Workers
import XorSyscalls.Syscall.Invariant
import XorSyscalls.Syscall.Schedules
import XorSyscalls.Syscall.Partition
import XorSyscalls.Syscall.Buffer
import XorSyscalls.Syscall.Output
import XorSyscalls.Syscall.Stopping
import XorSyscalls.Syscall.Cleanup
import XorSyscalls.Syscall.ThreadCount
import XorSyscalls.Syscall.Transfers
import XorSyscalls.Syscall.Noninterference
import XorSyscalls.Syscall.Lockstep
import XorSyscalls.Syscall.Resources
import XorSyscalls.Syscall.Discipline
import XorSyscalls.Syscall.PrivateState
import XorSyscalls.Syscall.OwnMemory
import XorSyscalls.Syscall.Safety
import XorSyscalls.Syscall.Paths
import XorSyscalls.Concurrent.System
import XorSyscalls.Concurrent.Exclusion
import XorSyscalls.Concurrent.Isolation
import XorSyscalls.Concurrent.Progress
import XorSyscalls.Concurrent.Serial
import XorSyscalls.Apps.CLibrary
import XorSyscalls.Apps.Options
import XorSyscalls.Apps.Main
import XorSyscalls.Apps.CommandLine
import XorSyscalls.Apps.Session
import XorSyscalls.Apps.Termination
import XorSyscalls.Apps.Punteros
import XorSyscalls.EndToEnd.World
import XorSyscalls.EndToEnd.Commands
import XorSyscalls.EndToEnd.Report
import XorSyscalls.Linux.Mutex
import XorSyscalls.Linux.MutexInvariant
import XorSyscalls.Linux.MutexProgress
import XorSyscalls.Linux.Workers
import XorSyscalls.Linux.Refinement
import XorSyscalls.Linux.Deadlock
import XorSyscalls.Linux.Kthread
import XorSyscalls.Linux.KthreadInvariant
import XorSyscalls.Linux.KthreadRefinement
import XorSyscalls.Linux.KthreadLifetime
import XorSyscalls.Linux.KthreadCreate
import XorSyscalls.Linux.KthreadCreateRequest
import XorSyscalls.Linux.KthreadCreateInvariant
import XorSyscalls.Linux.KthreadCreateProgress
