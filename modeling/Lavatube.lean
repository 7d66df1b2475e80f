import Lavatube.AccelerationBuild
import Lavatube.AccelerationStorage
import Lavatube.AddressComponents
import Lavatube.AddressRemapper
import Lavatube.AliasGroups
import Lavatube.AliasPlacement
import Lavatube.BufferCommands
import Lavatube.Buffers
import Lavatube.CallHandles
import Lavatube.Capture
import Lavatube.CheckSpace
import Lavatube.CommandTouch
import Lavatube.Container
import Lavatube.DescriptorBindings
import Lavatube.DescriptorTouch
import Lavatube.DeviceQueues
import Lavatube.DynamicOffsets
import Lavatube.ExposureRuns
import Lavatube.FileReader
import Lavatube.FileWriter
import Lavatube.FirstDifference
import Lavatube.FlushMarkings
import Lavatube.FrameCapture
import Lavatube.FrameLimit
import Lavatube.FrameRange
import Lavatube.HostMemory
import Lavatube.HostWriteRegions
import Lavatube.ImportInstances
import Lavatube.ImportOrder
import Lavatube.Lib.OrderedMultimap
import Lavatube.Lib.ServedQueue
import Lavatube.Lib.SuccessorGraph
import Lavatube.MappedFile
import Lavatube.MarkedChecksum
import Lavatube.MarkedOffsets
import Lavatube.MarkingCoverage
import Lavatube.MarkingInjection
import Lavatube.MarkingMerge
import Lavatube.MemoryImport
import Lavatube.MemoryMirror
import Lavatube.MemoryPool
import Lavatube.MemoryUsage
import Lavatube.PacketMapping
import Lavatube.PacketReader
import Lavatube.Packets
import Lavatube.PatchStream
import Lavatube.PendingCommandbuffers
import Lavatube.PendingDeletes
import Lavatube.Pipeline
import Lavatube.PlacementSteps
import Lavatube.PrintFast
import Lavatube.PublishedWaits
import Lavatube.RandomAccess
import Lavatube.RaytracingFixups
import Lavatube.Replay
import Lavatube.ReplayDiagnostics
import Lavatube.ReplayRemap
import Lavatube.ReplayScreenshot
import Lavatube.Reuse
import Lavatube.ReverseTranslation
import Lavatube.ScratchRanges
import Lavatube.SemaphoreFds
import Lavatube.Strings
import Lavatube.Suballocator
import Lavatube.SyntheticUpdates
import Lavatube.TemplateData
import Lavatube.TemplateRoundTrip
import Lavatube.TraceRemap
import Lavatube.TrackingMetadata
import Lavatube.UpdateWindow
import Lavatube.VirtualMemoryTypes
import Lavatube.VirtualSwapchain
