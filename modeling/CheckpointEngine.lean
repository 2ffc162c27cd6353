import CheckpointEngine.DataTypes
import CheckpointEngine.Foundation.NextFit
import CheckpointEngine.Foundation.Span
import CheckpointEngine.Foundation.Grouping
import CheckpointEngine.Foundation.Rounds
import CheckpointEngine.Foundation.Machine
import CheckpointEngine.Foundation.Memory
import CheckpointEngine.Foundation.Fallible
import CheckpointEngine.Foundation.Dictionary
import CheckpointEngine.Foundation.Numbering
import CheckpointEngine.Foundation.Override
import CheckpointEngine.Foundation.Command
import CheckpointEngine.Foundation.Json
import CheckpointEngine.Foundation.JsonText
import CheckpointEngine.Foundation.Executor
import CheckpointEngine.Plan.H2DBuckets
import CheckpointEngine.Plan.Tiling
import CheckpointEngine.Plan.Receivers
import CheckpointEngine.Plan.Transfer
import CheckpointEngine.Plan.Assignment
import CheckpointEngine.Plan.Topologies
import CheckpointEngine.Plan.MetasLoading
import CheckpointEngine.Plan.CopyAssertions
import CheckpointEngine.Update.Schedule
import CheckpointEngine.Update.System
import CheckpointEngine.Update.Agreement
import CheckpointEngine.Update.LocalFailure
import CheckpointEngine.Update.Stranded
import CheckpointEngine.Update.Delivery
import CheckpointEngine.Update.BucketSize
import CheckpointEngine.Update.Alignment
import CheckpointEngine.Update.Addresses
import CheckpointEngine.Registry.Atomicity
import CheckpointEngine.Registry.Mirror
import CheckpointEngine.Registry.Routing
import CheckpointEngine.Registry.Retrying
import CheckpointEngine.Registry.Packing
import CheckpointEngine.Registry.Pools
import CheckpointEngine.Registry.Reuse
import CheckpointEngine.Registry.Copying
import CheckpointEngine.Registry.Loading
import CheckpointEngine.Registry.Weights
import CheckpointEngine.Registry.Overriding
import CheckpointEngine.Registry.Safetensors
import CheckpointEngine.Registry.Layout
import CheckpointEngine.Registry.InplacePinning
import CheckpointEngine.Barrier.Store
import CheckpointEngine.Barrier.Cleanup
import CheckpointEngine.Barrier.Separation
import CheckpointEngine.Distributed.Backend
import CheckpointEngine.Distributed.World
import CheckpointEngine.Distributed.Gathering
import CheckpointEngine.Distributed.SubcommIds
import CheckpointEngine.Foundation.Handles
import CheckpointEngine.Distributed.Effects
import CheckpointEngine.Distributed.Lifecycle
import CheckpointEngine.Worker.IpcHandler
import CheckpointEngine.Worker.ExtractWeights
import CheckpointEngine.Worker.UpdateWeights
import CheckpointEngine.Worker.Turns
import CheckpointEngine.Worker.StateMachine
import CheckpointEngine.Worker.Release
import CheckpointEngine.Update.Resources
import CheckpointEngine.Update.Exits
import CheckpointEngine.Update.Planning
import CheckpointEngine.Foundation.Custody
import CheckpointEngine.XpuIpc.SyclIpc
import CheckpointEngine.Devices.Allocation
import CheckpointEngine.Devices.NpuUuid
import CheckpointEngine.Registry.FileOrder
import CheckpointEngine.Server.ProcessGroups
import CheckpointEngine.Server.Orderly
import CheckpointEngine.Server.GroupSafety
import CheckpointEngine.Server.Rendezvous
import CheckpointEngine.Foundation.Chunks
import CheckpointEngine.Launch.Splitting
import CheckpointEngine.Launch.Registration
import CheckpointEngine.Update.RemoteRead
import CheckpointEngine.Launch.Arrival
import CheckpointEngine.Launch.Inference
import CheckpointEngine.Foundation.JsonWriter
import CheckpointEngine.Foundation.Schema
import CheckpointEngine.Launch.Interchange
import CheckpointEngine.Launch.Join
import CheckpointEngine.Foundation.FileSystem
import CheckpointEngine.Launch.SavedMetas
import CheckpointEngine.Update.Lifetime
import CheckpointEngine.Barrier.Progress
import CheckpointEngine.Registry.ArrayFiles
import CheckpointEngine.Registry.ShardedArrays
