import NInfer.Core.Layout
import NInfer.Engine.Outstanding
import NInfer.Admission.Fairness
import NInfer.Disk.PackRebuild
import NInfer.Serve.ResponsesFidelity
import NInfer.Prefix.IdentityCodec
import NInfer.Prefill.Resumption
import NInfer.Admission.ClaimBalance
import NInfer.Sequence.Frontiers
import NInfer.Ops.TreeSchedule
import NInfer.Ops.BlockVerification
import NInfer.Disk.ObjectIdSafety
import NInfer.Ram.Lifetime
import NInfer.Frontend.PreTokenizer
import NInfer.Frontend.BpeReference
import NInfer.Ops.TreeCompaction
import NInfer.PagedKV.BlockTables
import NInfer.Prefill.Scoring
import NInfer.Prefill.VisionChunks
import NInfer.Sequence.CheckpointPool
