import LimbWorker.Lib.StepSystem
import LimbWorker.Lib.Logged
import LimbWorker.Lib.Costs
import LimbWorker.Lib.Traced
import LimbWorker.Lib.Monitor
import LimbWorker.Lib.Lifetimes
import LimbWorker.Lib.Transactions
import LimbWorker.Lib.Framing
import LimbWorker.Lib.OnceEach
import LimbWorker.Lib.Grid
import LimbWorker.Lib.Raster
import LimbWorker.Lib.IntExpr
import LimbWorker.Lib.Symmetry
import LimbWorker.Lib.Smear
import LimbWorker.Lib.JsonText
import LimbWorker.Utils.Basic
import LimbWorker.Utils.Bithacks
import LimbWorker.AppTasks.TaskParser
import LimbWorker.AppTasks.TaskSerializer
import LimbWorker.AppConfig.JsonParser
import LimbWorker.AppTransport.Buffer
import LimbWorker.AppTransport.AmqpHandler
import LimbWorker.AppTransport.Incoming
import LimbWorker.AppTransport.ConcurrentSend
import LimbWorker.AppTransport.AmqpTransport
import LimbWorker.AppTransport.Settlement
import LimbWorker.AppTransport.Heartbeat
import LimbWorker.AppTransport.Channel
import LimbWorker.AppTransport.Conversation
import LimbWorker.ThreadPool.Queue
import LimbWorker.ThreadPool.QueueInvariant
import LimbWorker.ThreadPool.Pool
import LimbWorker.ThreadPool.MoveOnly
import LimbWorker.ThreadPool.AtMostOnce
import LimbWorker.ThreadPool.Solo
import LimbWorker.ThreadPool.QueueLog
import LimbWorker.ThreadPool.HandOver
import LimbWorker.ThreadPool.QueueAnswers
import LimbWorker.ThreadPool.QueueProgress
import LimbWorker.ThreadPool.WakeUp
import LimbWorker.ThreadPool.Options
import LimbWorker.AppTransport.FlowControl
import LimbWorker.AppTransport.FullQueue
import LimbWorker.AppTransport.Starvation
import LimbWorker.AppTransport.Teardown
import LimbWorker.Image.Codec
import LimbWorker.Image.CodecFactory
import LimbWorker.Image.CodecPeak
import LimbWorker.ImageService.ProcessorProvider
import LimbWorker.ImageService.ImageService
import LimbWorker.ImageService.Refusals
import LimbWorker.Image.JpgCodec
import LimbWorker.Image.PngCodec
import LimbWorker.ProcessorLoader
import LimbWorker.ImageService.LazyInit
import LimbWorker.ImageService.ModuleContainers
import LimbWorker.ImageService.ClearLoop
import LimbWorker.LoadDirectories
import LimbWorker.DirectoryScan
import LimbWorker.PluginLoading
import LimbWorker.PluginHandles
import LimbWorker.App
import LimbWorker.Lifecycle
import LimbWorker.Registries
import LimbWorker.ParallelInit
import LimbWorker.MediaRepository.MongoClient
import LimbWorker.MediaRepository.Download
import LimbWorker.MediaRepository.ReadErrors
import LimbWorker.MediaRepository.Transactions
import LimbWorker.MediaRepository.DriverObjects
import LimbWorker.MediaRepository.ClientPool
import LimbWorker.MediaRepository.ClientLife
import LimbWorker.Realesrgan.Shaders
import LimbWorker.Realesrgan.Processor
import LimbWorker.Realesrgan.Tiling
import LimbWorker.Realesrgan.Storage
import LimbWorker.Realesrgan.Modes
import LimbWorker.Realesrgan.Assembly
import LimbWorker.Realesrgan.Tiles
import LimbWorker.Realesrgan.Tta
import LimbWorker.Realesrgan.StorageModes
import LimbWorker.Realesrgan.SourceReads
import LimbWorker.Realesrgan.NetworkInput
import LimbWorker.Realesrgan.Coverage
import LimbWorker.Realesrgan.Progress
import LimbWorker.OutputBuffers
import LimbWorker.Rmbg.Postproc
import LimbWorker.Rmbg.Processor
import LimbWorker.ConcurrentTasks
