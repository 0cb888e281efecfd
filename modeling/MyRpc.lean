import MyRpc.Library.FixedWidth
import MyRpc.Library.PartialRun
import MyRpc.Library.Simulation
import MyRpc.Library.Reaching
import MyRpc.Library.Cutting
import MyRpc.Library.Avoids
import MyRpc.Library.Blocks
import MyRpc.Library.Slots
import MyRpc.Library.Script
import MyRpc.Library.Clients
import MyRpc.Library.Rfc4648
import MyRpc.Library.Decimal
import MyRpc.Library.Rotation
import MyRpc.Protocol.RpcProtocol
import MyRpc.Protocol.RoundTrip
import MyRpc.Protocol.Bounds
import MyRpc.Protocol.Acceptance
import MyRpc.Protocol.Safety
import MyRpc.Encrypt.Base64
import MyRpc.Encrypt.StandardBase64
import MyRpc.Encrypt.AesEncrypt
import MyRpc.Encrypt.MasterKey
import MyRpc.Encrypt.Rejection
import MyRpc.Compress.ZstdCompress
import MyRpc.Compress.StoredFrames
import MyRpc.Network.Connection
import MyRpc.Network.Framing
import MyRpc.Network.ReadLoop
import MyRpc.Network.Receive
import MyRpc.Network.MessageCycle
import MyRpc.Network.ConcurrentWrite
import MyRpc.Network.Descriptors
import MyRpc.Network.Isolation
import MyRpc.Network.Sockets
import MyRpc.Network.EdgeTriggered
import MyRpc.Network.EndOfStream
import MyRpc.Service.ServiceManager
import MyRpc.Network.RequestTask
import MyRpc.ThreadPool.ThreadPool
import MyRpc.ThreadPool.Steps
import MyRpc.ThreadPool.Capacity
import MyRpc.ThreadPool.Admission
import MyRpc.ThreadPool.Completion
import MyRpc.ThreadPool.Wakeups
import MyRpc.ThreadPool.Draining
import MyRpc.ThreadPool.Accounting
import MyRpc.ThreadPool.Pausing
import MyRpc.ThreadPool.Progress
import MyRpc.ThreadPool.Stopping
import MyRpc.ThreadPool.TimedOut
import MyRpc.ThreadPool.Singleton
import MyRpc.ThreadPool.Released
import MyRpc.ThreadPool.Lifecycle
import MyRpc.ThreadPool.Offers
import MyRpc.ConnBalancer.LoadBalancer
import MyRpc.ConnBalancer.Fairness
import MyRpc.ConnBalancer.ZkConnHandler
import MyRpc.ConnBalancer.GetServer
import MyRpc.Registry.ZooKeeper
import MyRpc.Registry.ServiceRegistry
import MyRpc.Registry.EnsurePath
import MyRpc.Serializer.SerializerManager
import MyRpc.Core.RpcClient
import MyRpc.Core.ServerAddress
import MyRpc.LoadConfig.Json
import MyRpc.LoadConfig.RpcServerConfig
import MyRpc.LoadConfig.PoolConfig
import MyRpc.Registry.Directory
import MyRpc.Registry.Provenance
import MyRpc.Registry.Discovery
import MyRpc.Core.SequenceId
import MyRpc.Core.Payload
import MyRpc.Core.RequestResponse
import MyRpc.Core.EndToEnd
import MyRpc.Core.Refinement
import MyRpc.Core.Serving
import MyRpc.Core.ServedOnce
import MyRpc.Core.ServersMain
