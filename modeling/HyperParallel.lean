import HyperParallel.DTensor.CompactStr
import HyperParallel.Checkpoint.SaveCache
import HyperParallel.Compile.Schedule1F1BRun
import HyperParallel.Checkpoint.ExportRuns
import HyperParallel.Checkpoint.MergedTensors
import HyperParallel.Data.Blending
import HyperParallel.Data.GPTIndices
import HyperParallel.Data.ContextShard
import HyperParallel.Data.DynamicBatching
import HyperParallel.Data.RuntimeInput
import HyperParallel.Data.SamplerEpoch
import HyperParallel.Losses.Agreement
import HyperParallel.Shard.PartialAlgebra
import HyperParallel.FullyAsync.PublicationAtomic
import HyperParallel.Multicore.BackwardReuse
import HyperParallel.Multicore.ImageReadback
import HyperParallel.Multicore.RouteCache
import HyperParallel.FullyAsync.FreshUpdates
import HyperParallel.FullyShard.LostGradients
import HyperParallel.DTensor.GroupTemplates
import HyperParallel.FullyShard.FullUnshard
import HyperParallel.Pipeline.StageMap
import HyperParallel.Shard.HeadTail
import HyperParallel.Redistribution.RaggedExchange
import HyperParallel.Redistribution.ShardAgreement
import HyperParallel.Redistribution.AllToAll
import HyperParallel.DTensor.MeshFlatten
import HyperParallel.DTensor.MeshRemap
import HyperParallel.Shard.ReshapeSound
import HyperParallel.Pipeline.FsdpOrder
import HyperParallel.Pipeline.SwapLifecycles
import HyperParallel.Pipeline.MPipeOwners
import HyperParallel.Pipeline.BoundarySafe
import HyperParallel.Offload.PinnedPoolRuns
import HyperParallel.FullyAsync.BufferRuns
import HyperParallel.FullyAsync.PartialGeneration
import HyperParallel.Episodes.PaddedBatches
import HyperParallel.ToolXml.CallMeaning
import HyperParallel.Shard.FlashAttention
import HyperParallel.Offload.WarmupTrace
