import P2PRdt.Lib.Reach
import P2PRdt.Zmq.Queue
import P2PRdt.Zmq.Credit
import P2PRdt.Data.Processes
import P2PRdt.Lib.Epochs
import P2PRdt.Zmq.Fifo
import P2PRdt.Data.ProtoStage
import P2PRdt.Data.ShuffleStage
import P2PRdt.Data.Pipeline
import P2PRdt.Lib.Buckets
import P2PRdt.Lib.SortedCodes
import P2PRdt.Data.KeyMap
import P2PRdt.Data.MouseBins
import P2PRdt.Data.ActionMapping
import P2PRdt.Data.Annotation
import P2PRdt.Data.Chunking
import P2PRdt.Lib.Schedule
import P2PRdt.Policy.FlowMatching
import P2PRdt.Lib.MaskedLayers
import P2PRdt.Policy.CausalTransformer
import P2PRdt.Lib.Scatter
import P2PRdt.Lib.UnitQuaternion
import P2PRdt.Robot.Pose
import P2PRdt.Robot.Adapter
import P2PRdt.Robot.Dataset
import P2PRdt.Robot.WindowRebase
import P2PRdt.Robot.Server
import P2PRdt.Robot.StartPose
import P2PRdt.Lib.LastN
import P2PRdt.Robot.Session
import P2PRdt.Lib.AdditiveLayers
import P2PRdt.Lib.Network
import P2PRdt.Policy.SelfAttention
import P2PRdt.Policy.Rdt
import P2PRdt.Policy.Stage3
import P2PRdt.Policy.TargetLeakage
import P2PRdt.Lib.LastWrite
import P2PRdt.Lib.RoundRobin
import P2PRdt.Lib.FoldMemory
import P2PRdt.Data.MouseSymmetry
import P2PRdt.Data.ShuffleEpoch
import P2PRdt.Data.ShuffleOrder
import P2PRdt.Data.SystemChunks
import P2PRdt.Data.TextConditioning
import P2PRdt.Zmq.Delivery
import P2PRdt.Zmq.HighWater
import P2PRdt.Inference.Connection
import P2PRdt.Inference.FullInference
import P2PRdt.Policy.FreezeSchedule
import P2PRdt.Lib.Strided
import P2PRdt.Lib.RowMajor
import P2PRdt.Robot.Images
import P2PRdt.Robot.DatasetConfig
import P2PRdt.Robot.SegmentActions
import P2PRdt.Robot.DatasetItem
import P2PRdt.Robot.ItemRebase
import P2PRdt.Robot.ActionWidth
import P2PRdt.Lib.UniformDraws
import P2PRdt.Robot.TextDropout
import P2PRdt.Robot.Stabilize
import P2PRdt.Lib.TraceFold
import P2PRdt.Robot.SessionTrace
import P2PRdt.Lib.Smoothing
import P2PRdt.Robot.Smoothing
import P2PRdt.Robot.WarmStart
import P2PRdt.Robot.ResetIsolation
import P2PRdt.Policy.ReceptiveField
import P2PRdt.Lib.BlockMask
import P2PRdt.Policy.KVCache
import P2PRdt.Policy.DecodeMask
import P2PRdt.Robot.StepMask
import P2PRdt.Policy.MaskedConditions
import P2PRdt.Lib.InverseCdf
import P2PRdt.Policy.NucleusSampling
import P2PRdt.Lib.Grouping
import P2PRdt.Policy.MoE
import P2PRdt.Inference.FrameDropping
import P2PRdt.Data.ShuffleThread
import P2PRdt.Lib.LatestByKey
import P2PRdt.Policy.AsyncCheckpoint
import P2PRdt.Lib.PrefixRemap
import P2PRdt.Policy.OriginInit
import P2PRdt.Lib.Anchors
import P2PRdt.Robot.Reanchor
import P2PRdt.Robot.Sanitize
import P2PRdt.Lib.Indices
import P2PRdt.Lib.Grid
import P2PRdt.Lib.FixedDigits
import P2PRdt.Policy.ActionDimensions
import P2PRdt.Policy.MultiViewTokens
import P2PRdt.Lib.ExceptLists
import P2PRdt.Robot.PyObjects
import P2PRdt.Robot.Msgpack
import P2PRdt.Robot.TypeStrings
import P2PRdt.Robot.NumPy
import P2PRdt.Robot.WireFormat
import P2PRdt.Lib.SharedService
import P2PRdt.Robot.WebsocketPolicy
import P2PRdt.Robot.PolicyInfer
import P2PRdt.Robot.Evaluation
import P2PRdt.Lib.StreamedLayers
import P2PRdt.Policy.CachedDecoding
import P2PRdt.Policy.RotaryPositions
import P2PRdt.Lib.PaddedDecimal
import P2PRdt.Policy.Launcher
import P2PRdt.Lib.Framing
import P2PRdt.Inference.UnixSocket
import P2PRdt.Inference.InferenceSocket
import P2PRdt.Data.DatasetWorker
import P2PRdt.Policy.VisibleSteps
import P2PRdt.Policy.TrainingStep
import P2PRdt.Policy.DatasetSamples
import P2PRdt.Policy.OnlinePrediction
import P2PRdt.Lib.IntegerAngles
import P2PRdt.Policy.PositionEmbeddings
import P2PRdt.Policy.HeadInit
import P2PRdt.Lib.Concatenation
import P2PRdt.Robot.SegmentFiles
import P2PRdt.Robot.TextShape
import P2PRdt.Policy.ResumeCheck
