import Zambesii.AnnouncedIds
import Zambesii.CachePool
import Zambesii.ChannelCreate
import Zambesii.CompilerHistory
import Zambesii.ConstraintAttrs
import Zambesii.CpuLoads
import Zambesii.DataHeader
import Zambesii.DebugPipe
import Zambesii.DetectDriver
import Zambesii.DeviceTree
import Zambesii.DriverClasses
import Zambesii.EnumerateChildren
import Zambesii.EnumerateMarshal
import Zambesii.HardwareIdListItems
import Zambesii.HeapRealloc
import Zambesii.IndexBuffer
import Zambesii.IndexRuns
import Zambesii.InlineObjects
import Zambesii.IsrRetirement
import Zambesii.MemFree
import Zambesii.MemRegionInit
import Zambesii.MessageStream
import Zambesii.MultiLayerHash
import Zambesii.MultipleReaderLock
import Zambesii.NewDevice
import Zambesii.NumaInit
import Zambesii.NumaMemoryBank
import Zambesii.ParentTags
import Zambesii.PrioQueueNodes
import Zambesii.ProcessEnvironment
import Zambesii.ProcessNames
import Zambesii.QueueChoice
import Zambesii.RawMemAlloc
import Zambesii.ResizeableArray
import Zambesii.RunQueueOrder
import Zambesii.ScatterGatherCopyOut
import Zambesii.ScatterGatherMap
import Zambesii.ShbankHoles
import Zambesii.SlamCache
import Zambesii.SpinLocks
import Zambesii.TagFullName
import Zambesii.TimerEventProcessor
import Zambesii.TimerStream
import Zambesii.UdiBufCopy
import Zambesii.UdiCompletion
import Zambesii.VSwampMerge
import Zambesii.VfsPaths
import Zambesii.WrapAroundCounter
import Zambesii.ZAsyncConnections
import Zambesii.ZAsyncMessages
import Zambesii.ZumStart
