import StressAppTest.Library.FullPeriod
import StressAppTest.Library.Loop
import StressAppTest.Library.Threads
import StressAppTest.Adler
import StressAppTest.Pattern
import StressAppTest.Library.Ownership
import StressAppTest.Library.Script
import StressAppTest.Memory.Fill
import StressAppTest.Memory.Check
import StressAppTest.Memory.Copy
import StressAppTest.Memory.Transform
import StressAppTest.PageEntry
import StressAppTest.PageQueue
import StressAppTest.Pool
import StressAppTest.PoolStock
import StressAppTest.PoolOwnership
import StressAppTest.Workers.World
import StressAppTest.Workers.Loops
import StressAppTest.Workers.Program
import StressAppTest.FineLock.Generator
import StressAppTest.FineLock.Search
import StressAppTest.FineLock.Overflow
import StressAppTest.FineLock.Interleaving
import StressAppTest.FineLock.Solo
import StressAppTest.FineLock.Ownership
import StressAppTest.FineLock.Refinement
import StressAppTest.FineLock.Availability
import StressAppTest.FineLock.Continuity
import StressAppTest.OneLock.Queue
import StressAppTest.OneLock.Refinement
import StressAppTest.Workers.Supply
import StressAppTest.Workers.Pass
import StressAppTest.FineLock.Sweep
import StressAppTest.FineLock.FinalCheck
import StressAppTest.FineLock.FillPass
import StressAppTest.FineLock.RunFillPass
import StressAppTest.Dram.Address
import StressAppTest.Dram.Mismatch
import StressAppTest.Library.Text
import StressAppTest.Library.Printf
import StressAppTest.Dram.Rows
import StressAppTest.Dram.FailLine
import StressAppTest.Dram.FailReport
import StressAppTest.Logger.Queue
import StressAppTest.Logger.Delivery
import StressAppTest.Library.SlotIndex
import StressAppTest.Disk.BlockTable
import StressAppTest.Disk.TableInvariant
import StressAppTest.Disk.DiskThread
import StressAppTest.Network.Reflection
import StressAppTest.Network.Exactness
import StressAppTest.Workers.FileSupply
import StressAppTest.Library.Custody
import StressAppTest.Workers.Exits
import StressAppTest.Control.Registration
import StressAppTest.Control.WorkerStatus
import StressAppTest.Control.Pause
import StressAppTest.Library.RunningSum
import StressAppTest.Memory.AnyContent
import StressAppTest.Memory.ExactSums
import StressAppTest.Memory.CheckRegion
import StressAppTest.Memory.BlockSearch
import StressAppTest.Memory.Detection
import StressAppTest.Memory.Agreement
import StressAppTest.Memory.CopyPage
import StressAppTest.Library.Asm
import StressAppTest.Adler.Vector
import StressAppTest.Adler.Sse2
import StressAppTest.Adler.Neon
import StressAppTest.Adler.VectorAgreement
import StressAppTest.Memory.InvertWorkload
import StressAppTest.OneLock.Bag
import StressAppTest.Library.Weighted
import StressAppTest.Pattern.Choice
import StressAppTest.Disk.Placement
import StressAppTest.Memory.SectorTags
import StressAppTest.Library.Decimal
import StressAppTest.Pattern.Sequence
import StressAppTest.Disk.BlockBuffer
import StressAppTest.Disk.ThreadParameters
import StressAppTest.Workers.QueueSplit
import StressAppTest.Workers.Grip
import StressAppTest.Workers.GripLoops
import StressAppTest.Workers.WholeRun
import StressAppTest.Pattern.RoundRobin
import StressAppTest.Control.CpuPlacement
import StressAppTest.Control.CacheCoherency
import StressAppTest.Library.Tally
import StressAppTest.Memory.LogBudget
import StressAppTest.Diag.DeviceTree
import StressAppTest.Diag.ErrorDiag
import StressAppTest.Workers.PostFillCheck
import StressAppTest.Library.Runs
import StressAppTest.Control.AddrMap
import StressAppTest.Control.Options
import StressAppTest.Dram.FindDimm
import StressAppTest.Control.DramMapArgs
import StressAppTest.Control.RunLoop
import StressAppTest.FineLock.Construction
import StressAppTest.Library.ShiftRegister
import StressAppTest.Control.SimpleRandom
import StressAppTest.Control.CpusetFormat
import StressAppTest.Library.Descriptors
import StressAppTest.Library.GuardedHandle
import StressAppTest.Network.Listener
import StressAppTest.Network.SocketLifetime
import StressAppTest.Network.ListenerSteps
import StressAppTest.Network.ListenerResult
import StressAppTest.Network.ListenerEnd
import StressAppTest.Diag.PhaseStats
import StressAppTest.Control.Verdict
import StressAppTest.Disk.AsyncDiskIO
import StressAppTest.Disk.AsyncRequests
import StressAppTest.Library.StoredObjects
import StressAppTest.Disk.DiskSession
import StressAppTest.Disk.DiskVerdict
import StressAppTest.FineLock.RandomSlots
import StressAppTest.Library.Termination
