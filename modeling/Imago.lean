import Imago.Runs
import Imago.Custody
import Imago.FileStore
import Imago.StableSort
import Imago.RustStd
import Imago.Errors
import Imago.ByteRanges
import Imago.SessionIndex
import Imago.ArtifactStore
import Imago.ArtifactSystem
import Imago.ArtifactIndex
import Imago.ArtifactCounters
import Imago.ArtifactIntegrity
import Imago.ArtifactCleanup
import Imago.UploadPlan
import Imago.UndisturbedCalls
import Imago.UploadResume
import Imago.UploadRetry
import Imago.OperationState
import Imago.CommandStart
import Imago.CommandCancel
import Imago.CommandFinish
import Imago.IpcAuth
import Imago.ManagerControl
import Imago.Supervisor
import Imago.RunnerCustody
import Imago.StartReservation
import Imago.Manifest
import Imago.ServiceBindings
import Imago.PathTree
import Imago.Orchestrator
import Imago.OrchestratorSteps
import Imago.ServiceFrame
import Imago.ReleaseStaging
import Imago.ActiveRelease
import Imago.SequentialCommands
import Imago.ReleaseIntegrity
import Imago.RunningRelease
import Imago.Framing
import Imago.StdioTransport
import Imago.ProxyFraming
import Imago.StdioSession
import Imago.Toml
import Imago.DaemonConfig
import Imago.ConfigUpdate
import Imago.RemoteTrust
import Imago.IpAddr
import Imago.RpcAuthority
import Imago.ConnectionLifetime
import Imago.LogBuffer
import Imago.MapTotals
import Imago.RetainedStore
import Imago.LogDrain
import Imago.LogRetention
import Imago.LogFollow
import Imago.LogForwarder
import Imago.LogDelivery
import Imago.PluginDependencies
import Imago.PluginCache
import Imago.DeployFailure
import Imago.FrameCodecs
import Imago.Cbor
import Imago.InvocationToken
import Imago.IpParse
import Imago.OutboundRule
import Imago.OutboundRequest
import Imago.KahnOrder
import Imago.PluginResolver
import Imago.ImportShims
import Imago.PluginInstantiation
import Imago.Json
import Imago.UnixPath
import Imago.GpioCatalog
import Imago.Delimited
import Imago.Fingerprint
import Imago.HandleRegistry
import Imago.UsbDevice
