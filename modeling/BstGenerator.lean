import BstGenerator.Memory.Heap
import BstGenerator.Memory.Ownership
import BstGenerator.Machine.Run
import BstGenerator.Machine.Fuel
import BstGenerator.Trees.Context
import BstGenerator.Trees.Search
import BstGenerator.Trees.Rebuild
import BstGenerator.Trees.Depth
import BstGenerator.Bst.Model
import BstGenerator.Bst.Layout
import BstGenerator.Bst.Lookup
import BstGenerator.Bst.Update
import BstGenerator.Bst.Reach
import BstGenerator.Bst.Runs
import BstGenerator.Bst.Release
import BstGenerator.Bst.Extremes
import BstGenerator.Bst.Identity
import BstGenerator.Bst.Traversal
import BstGenerator.Bst.PostOrder
import BstGenerator.Bst.PrintOrder
import BstGenerator.Bst.Sequences
import BstGenerator.Bst.Depth
import BstGenerator.Bst.Objects
import BstGenerator.Bst.Copies
import BstGenerator.Generator.Model
import BstGenerator.Generator.Frames
import BstGenerator.Generator.Calls
import BstGenerator.Generator.Consume
import BstGenerator.Generator.Range
import BstGenerator.Blocking.Container
import BstGenerator.Blocking.ConditionVariable
import BstGenerator.Blocking.Throttle
import BstGenerator.Blocking.Model
import BstGenerator.Orders.Stable
import BstGenerator.Blocking.Lawful
import BstGenerator.Blocking.Steps
import BstGenerator.Blocking.Order
import BstGenerator.Blocking.Sides
import BstGenerator.Blocking.Bounds
import BstGenerator.Blocking.Closing
import BstGenerator.Blocking.Wakeups
import BstGenerator.Memory.Bytes
import BstGenerator.Memory.FreeList
import BstGenerator.Memory.Vec
import BstGenerator.SmallObj.Chunk
import BstGenerator.SmallObj.Blocks
import BstGenerator.SmallObj.FixedAllocator
import BstGenerator.SmallObj.Pool
import BstGenerator.SmallObj.Allocate
import BstGenerator.SmallObj.Deallocate
import BstGenerator.SmallObj.Trim
import BstGenerator.SmallObj.Checks
import BstGenerator.SmallObj.Client
import BstGenerator.SmallObj.Runs
import BstGenerator.SmallObj.Accounting
import BstGenerator.SmallObj.Reached
import BstGenerator.Singleton.Model
import BstGenerator.Singleton.History
import BstGenerator.Singleton.Runs
import BstGenerator.Singleton.Lifetimes
