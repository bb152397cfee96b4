import AsyncToolkit.Memory.MemoryPool
import AsyncToolkit.Memory.PoolPtr
import AsyncToolkit.Memory.Allocator
import AsyncToolkit.Lockfree.NodeMemory
import AsyncToolkit.Lockfree.MPMCQueue
import AsyncToolkit.Lockfree.MPMCQueueSpsc
import AsyncToolkit.Lockfree.MPMCChannel
import AsyncToolkit.Lockfree.MPMCChannelSpsc
import AsyncToolkit.Lockfree.BPlusTree
import AsyncToolkit.Lockfree.BPlusTreeSplit
import AsyncToolkit.Lockfree.BPlusTreeNode
import AsyncToolkit.Lockfree.HashMap
import AsyncToolkit.Lockfree.SkipList
import AsyncToolkit.Lockfree.Queue
import AsyncToolkit.Scheduler.PriorityScheduler
import AsyncToolkit.Scheduler.Dispatch
import AsyncToolkit.Scheduler.WorkStealing
import AsyncToolkit.Scheduler.WorkStealingWorkers
import AsyncToolkit.Reactor.EventLoop
import AsyncToolkit.Network.ConnectionPool
import AsyncToolkit.Logging.AsyncLogger
import AsyncToolkit.Coroutine.TaskPool
import AsyncToolkit.Coroutine.Task
import AsyncToolkit.Graph.TaskGraph
import AsyncToolkit.Rpc.LoadBalancer
