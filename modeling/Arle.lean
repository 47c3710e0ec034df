import Arle.Lib.Outcome
import Arle.Lib.LittleEndian
import Arle.Lib.Follows
import Arle.Lib.Framing
import Arle.Lib.Text
import Arle.Lib.Run
import Arle.Lib.RadixTree
import Arle.Lib.ReverseIndex
import Arle.Lib.Tally
import Arle.Lib.WindowMap
import Arle.Lib.Extents
import Arle.KvTier.Coordinator.FetchSpec
import Arle.KvTier.Coordinator.Tickets
import Arle.CudaKernels.PagedKvRuns
import Arle.CudaKernels.PagedKvAtomic
import Arle.CudaKernels.PagedKvBudget
import Arle.CudaKernels.PagedKvDetached
import Arle.KvNativeSys.Wal
import Arle.Backend.StopChunks
import Arle.PrefixCache.FreeList
import Arle.PrefixCache.Restore
import Arle.PrefixCache.ShortInsert
import Arle.PrefixCache.GapFree
import Arle.PrefixCache.Cascade
import Arle.PrefixCache.Reconcile
import Arle.PrefixCache.Index
import Arle.PrefixCache.LruEvict
import Arle.PrefixCache.RefCount
import Arle.Scheduler.Policy
import Arle.Scheduler.BatchSpec
import Arle.ServerEngine.Types
import Arle.Scheduler.StreamDecode
import Arle.Scheduler.StopStream
import Arle.Lib.Utf8
import Arle.Chat.VisibleText
import Arle.Scheduler.LossyStream
import Arle.Scheduler.Cuda.SessionHolds
import Arle.Scheduler.Cuda.SessionResume
import Arle.Scheduler.Cuda.TierLeaks
import Arle.Gguf.InStep
import Arle.Gguf.DequantLayout
import Arle.Gguf.VHeads
import Arle.CudaKernels.KQuantAgree
import Arle.Distributed.ParallelState
import Arle.Lib.RowSums
import Arle.Lib.Slices
import Arle.Lib.Fallible
import Arle.Lib.Gather
import Arle.TensorParallel.WeightShards
import Arle.Distributed.ExpertState
import Arle.Distributed.ExpertDispatch
import Arle.Distributed.Relay
import Arle.ServerEngine.PoolBudget
import Arle.Chat.ToolCallRoundTrip
import Arle.Lib.Tagged
import Arle.Chat.VisibleContent
import Arle.Chat.StreamAgrees
import Arle.Chat.StructuredSpans
import Arle.Scheduler.TokenCoordinator
import Arle.Agent.TurnHistory
import Arle.Agent.CallAccounting
import Arle.KvTier.Transport.DiskAtomic
import Arle.KvTier.Transport.DiskScan
import Arle.Scheduler.Cuda.WaitingOrder
import Arle.Scheduler.Cuda.WaitingRuns
import Arle.Scheduler.Cuda.SpecPath
import Arle.Scheduler.Cuda.SpecGreedy
import Arle.Scheduler.Cuda.SpecRuns
import Arle.Lib.MinBy
import Arle.Backend.Metal.Scheduler
import Arle.Backend.Metal.SchedulerSpec
import Arle.Backend.Metal.SchedulerRuns
import Arle.Backend.Metal.PrefixCache
import Arle.Backend.Metal.PrefixSlots
import Arle.Backend.Metal.PrefixBridge
import Arle.Backend.Metal.PrefixRuns
import Arle.Backend.Metal.SlotEviction
import Arle.Lib.Matches
import Arle.Lib.Slab
import Arle.Autograd.Tensor
import Arle.Autograd.Residency
import Arle.Autograd.Optim
import Arle.Autograd.OptimSpec
import Arle.Autograd.LayoutAdjoint
import Arle.Autograd.CachedAttention
import Arle.Autograd.LinearAttentionAdjoint
import Arle.Scheduler.Cuda.Promotion
import Arle.Scheduler.Cuda.PromotionTrace
import Arle.Scheduler.Cuda.RestoredPages
import Arle.Scheduler.Cuda.PromotionRollback
import Arle.Scheduler.Cuda.PageGrowth
import Arle.Scheduler.Submission
import Arle.Vision.EncoderCache
import Arle.Scheduler.BlockHolds
import Arle.Train.CheckpointSave
import Arle.Train.Control
import Arle.Autograd.RowWiseAdjoint
import Arle.Train.LoraEngine
import Arle.Autograd.OptimRuns
import Arle.Train.CachedRollout
import Arle.CudaKernels.W4A16Gemv
import Arle.Scheduler.Cuda.SchedulerSteps
import Arle.Scheduler.Cuda.PrefillEnvelope
import Arle.Autograd.BackpropRuns
