import CUtils.Lib.Source
import CUtils.Parcel.Writers
import CUtils.Parcel.Readers
import CUtils.Parcel.Objects
import CUtils.Parcel.Ops
import CUtils.Parcel.Effects
import CUtils.Parcel.Room
import CUtils.Parcel.Pieces
import CUtils.Parcel.Scripts
import CUtils.Parcel.Reads
import CUtils.Parcel.Marshalling
import CUtils.Parcel.Invariant
import CUtils.Parcel.Tracking
import CUtils.Parcel.UserCode
import CUtils.Parcel.BufferBounds
import CUtils.Parcel.ObjectCheck
import CUtils.Parcel.Decoding
import CUtils.Parcel.VectorReads
import CUtils.Parcel.Items
import CUtils.Parcel.ReadBack
import CUtils.Parcel.RoundTrip
import CUtils.Parcel.Nested
import CUtils.Parcel.Atomicity
import CUtils.Lib.SlotTable
import CUtils.Parcel.OffsetTable
import CUtils.Parcel.Holder
import CUtils.Parcel.Capacity
import CUtils.Parcel.StringReads
import CUtils.Parcel.LengthGuards
import CUtils.Parcel.Ownership
import CUtils.Parcel.Reached
import CUtils.Parcel.Growth
import CUtils.Parcel.Padding
import CUtils.Lib.LinkedList
import CUtils.IOEvent.Reactor
import CUtils.IOEvent.Lists
import CUtils.IOEvent.Registration
import CUtils.IOEvent.Steps
import CUtils.IOEvent.Count
import CUtils.IOEvent.Interest
import CUtils.IOEvent.Dispatch
import CUtils.IOEvent.Failure
import CUtils.IOEvent.Bounds
import CUtils.Timer.Table
import CUtils.Timer.Ids
import CUtils.Timer.Agreement
import CUtils.Timer.Lists
import CUtils.Timer.Descriptors
import CUtils.Timer.Demultiplexer
import CUtils.Timer.EventMask
import CUtils.Timer.SharedIds
import CUtils.Timer.EventLoop
import CUtils.Timer.Firing
import CUtils.Timer.FiresOnce
import CUtils.MappedFile.Model
import CUtils.MappedFile.Effects
import CUtils.MappedFile.Files
import CUtils.MappedFile.Region
import CUtils.MappedFile.Segment
import CUtils.MappedFile.Success
import CUtils.MappedFile.Turning
import CUtils.MappedFile.Paging
import CUtils.Lib.Buffer
import CUtils.Lib.Utf
import CUtils.Unicode.Convert
import CUtils.Unicode.Characters
import CUtils.Unicode.Scalars
import CUtils.Unicode.Decode
import CUtils.Unicode.RoundTrip
import CUtils.Unicode.Copy
import CUtils.Unicode.EntryPoints
import CUtils.Unicode.Validation
import CUtils.RefBase.Model
import CUtils.RefBase.Effects
import CUtils.RefBase.Counts
import CUtils.RefBase.Bookkeeping
import CUtils.RefBase.Promotion
import CUtils.RefBase.Acquisition
import CUtils.Lib.CallStack
import CUtils.RefBase.Heap
import CUtils.RefBase.References
import CUtils.RefBase.Cascade
import CUtils.RefBase.Release
import CUtils.RefBase.Taking
import CUtils.RefBase.Assignment
import CUtils.RefBase.FirstStrong
import CUtils.RefBase.Threads
import CUtils.RefBase.Ledger
import CUtils.RefBase.Interleaving
import CUtils.RefBase.Steps
import CUtils.RefBase.Order
import CUtils.RefBase.ThreadSafety
import CUtils.Lib.Threads
import CUtils.Lib.Resource
import CUtils.Lib.Monitor
import CUtils.Sync.SafeMap
import CUtils.Sync.SafeMapHistory
import CUtils.Sync.SafeQueue
import CUtils.Sync.Singleton
import CUtils.Sync.SingletonInstance
import CUtils.Sync.Semaphore
import CUtils.Sync.BlockQueue
import CUtils.Sync.BoundedFifo
import CUtils.Sync.TaskCount
import CUtils.Sync.ThreadPool
import CUtils.Sync.PoolProgress
import CUtils.Sync.RWLock
import CUtils.Sync.RWExclusion
import CUtils.Sync.RWPriority
import CUtils.Sync.ThreadEx
import CUtils.Sync.ThreadExit
import CUtils.Sync.ThreadRequest
import CUtils.Ashmem.Model
import CUtils.Ashmem.Release
import CUtils.Ashmem.Range
import CUtils.Lib.BottomUp
import CUtils.Lib.Delimiter
import CUtils.Directory.Model
import CUtils.Directory.Sweep
import CUtils.Directory.Calls
import CUtils.Directory.Stacks
import CUtils.Directory.Agreement
import CUtils.Directory.Spelling
import CUtils.Directory.Listing
import CUtils.Directory.ChangeMode
import CUtils.Directory.Create
import CUtils.Directory.CreatePlan
import CUtils.Directory.CreateTogether
import CUtils.Lib.CountOnce
import CUtils.Directory.DiskUsage
import CUtils.FileEx.Model
import CUtils.FileEx.Loaders
import CUtils.FileEx.Search
import CUtils.UniqueFd.Model
import CUtils.UniqueFd.Ownership
import CUtils.UniqueFd.Untouched
import CUtils.Lib.BinarySearch
import CUtils.SortedVector.Model
import CUtils.SortedVector.WeakOrder
import CUtils.SortedVector.Refinement
import CUtils.SortedVector.Equivalents
import CUtils.Parcel.Headroom
import CUtils.Parcel.Twin
import CUtils.Parcel.TwinReads
import CUtils.Parcel.Undo
import CUtils.Lib.Substring
import CUtils.StringEx.Model
import CUtils.StringEx.Between
import CUtils.StringEx.Split
import CUtils.StringEx.Trim
import CUtils.StringEx.Numbers
