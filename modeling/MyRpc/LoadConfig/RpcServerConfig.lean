import MyRpc.ConnBalancer.ZkConnHandler
import MyRpc.ConnBalancer.LoadBalancer
import MyRpc.Core.ServerAddress
import MyRpc.LoadConfig.Json

/-!
# The configuration of a server

`InitRpcServerConfig` reads one file, and hands its sections on: to the registry
configuration, which is in a file of its own, to the configuration of the thread
pool, to the ZooKeeper handler and to the load balancer.  A section that is not
there is passed over.
-/

namespace MyRpc.LoadConfig

open FixedWidth RpcClient Json

/-- What opening and parsing a file leads to. -/
inductive File
  | missing
  | malformed
  | parsed (document : Json)

/-- What the configuration meets outside: the conversion of a `double`, the files
and ZooKeeper. -/
structure Env where
  truncate : ℚ → ℤ
  files : String → File
  zoo : ZkConnHandler.Zoo

structure ThreadPoolConfig where
  maxThreads : UInt16
  queueSize : UInt32
  keepAliveTime : UInt32
  coreThreads : UInt16
  deriving DecidableEq, Repr

structure ServiceRegistryConfig where
  registryNodes : List RegistryInfo
  serviceName : String
  serviceVersion : String
  deriving DecidableEq, Repr

structure RpcServerConfig where
  maxConnections : UInt32
  serversIp : String
  serversPort : UInt16
  timeout : UInt32
  serversNamePrefix : String
  threadPoolConfig : ThreadPoolConfig
  serviceRegistryConfig : ServiceRegistryConfig
  deriving DecidableEq, Repr

namespace ThreadPoolConfig

def fresh : ThreadPoolConfig := ⟨0, 0, 0, 0⟩

/-- `InitThreadPoolConfig`.  The numbers come as `int`, except for the core
threads, whose default is a `uint16_t`. -/
def init (truncate : ℚ → ℤ) (config : Json) : ThreadPoolConfig → Bool × ThreadPoolConfig :=
  andThen
    (readField (getInt truncate) config "max_threads" 10 (fun v ↦ UInt16.ofInt v.toInt)
      (fun maxThreads ↦ maxThreads ≠ 0) fun maxThreads self ↦ { self with maxThreads })
  (andThen
    (fun self ↦
      readField (getUInt16 truncate) config "core_threads" self.maxThreads id
        (fun coreThreads ↦ ¬ (coreThreads = 0 ∨ coreThreads > self.maxThreads))
        (fun coreThreads self ↦ { self with coreThreads }) self)
  (andThen
    (readField (getInt truncate) config "queue_size" 100 (fun v ↦ UInt32.ofInt v.toInt)
      (fun queueSize ↦ queueSize ≠ 0) fun queueSize self ↦ { self with queueSize })
    (readField (getInt truncate) config "keep_alive_time" 60 (fun v ↦ UInt32.ofInt v.toInt)
      (fun keepAliveTime ↦ keepAliveTime ≠ 0)
      fun keepAliveTime self ↦ { self with keepAliveTime })))

end ThreadPoolConfig

namespace ServiceRegistryConfig

def fresh : ServiceRegistryConfig := ⟨[], "", ""⟩

def readNode (truncate : ℚ → ℤ) (node : Json) : Option RegistryInfo := do
  let address ← (← node.find "address").getString
  let port ← (← node.find "port").getUInt16 truncate
  return ⟨address.toUTF8.toList, port⟩

def readNodes (truncate : ℚ → ℤ) (config : Json) (self : ServiceRegistryConfig) :
    Bool × ServiceRegistryConfig :=
  match config.find "registry_nodes" with
  | none => (false, self)
  | some nodes =>
      match nodes.elements.mapM (readNode truncate) with
      | none => (false, self)
      | some registryNodes => (true, { self with registryNodes })

/-- `InitRegistryConfig`; its caller catches what it throws. -/
def init (env : Env) (configFile : String) (self : ServiceRegistryConfig) :
    Bool × ServiceRegistryConfig :=
  match env.files configFile with
  | .missing | .malformed => (false, self)
  | .parsed config =>
      andThen
        (readField getString config "service_name" "" id (fun serviceName ↦ serviceName ≠ "")
          fun serviceName self ↦ { self with serviceName })
      (andThen
        (readField getString config "service_version" "" id
          (fun serviceVersion ↦ serviceVersion ≠ "")
          fun serviceVersion self ↦ { self with serviceVersion })
        (readNodes env.truncate config)) self

end ServiceRegistryConfig

/-- The singletons that the configuration fills. -/
structure Server where
  config : RpcServerConfig
  handler : ZkConnHandler.Handler
  balancer : Option LoadBalancer.Balancer

namespace Server

/-- A server whose configuration has not been read. -/
def fresh (handler : ZkConnHandler.Handler) (balancer : Option LoadBalancer.Balancer) : Server where
  config :=
    { maxConnections := 0
      serversIp := ""
      serversPort := 0
      timeout := 0
      serversNamePrefix := ""
      threadPoolConfig := .fresh
      serviceRegistryConfig := .fresh }
  handler := handler
  balancer := balancer

/-- One line of the basic configuration. -/
def setting {α : Type} (get : Json → Option α) (config : Json) (key : String) (default : α)
    (set : α → RpcServerConfig → RpcServerConfig) : Server → Bool × Server :=
  readField get config key default id (fun _ ↦ true) fun v self ↦
    { self with config := set v self.config }

def initBasic (truncate : ℚ → ℤ) (config : Json) : Server → Bool × Server :=
  andThen (setting getString config "servers_name_prefix" "myrpc" fun v self ↦
    { self with serversNamePrefix := v })
  (andThen (setting getString config "servers_ip" "0.0.0.0" fun v self ↦
    { self with serversIp := v })
  (andThen (setting (getInt truncate) config "servers_port" 8989 fun v self ↦
    { self with serversPort := UInt16.ofInt v.toInt })
  (andThen (setting (getInt truncate) config "timeout" 3000 fun v self ↦
    { self with timeout := UInt32.ofInt v.toInt })
  (setting (getInt truncate) config "max_connections" 1000 fun v self ↦
    { self with maxConnections := UInt32.ofInt v.toInt }))))

def initRegistry (env : Env) (config : Json) (self : Server) : Bool × Server :=
  if config.contains "register_config" then
    match config.value getString "register_config" "../config/servers.json" with
    | none => (false, self)
    | some registerConfigFile =>
        let (ok, serviceRegistryConfig) :=
          self.config.serviceRegistryConfig.init env registerConfigFile
        (ok, { self with config := { self.config with serviceRegistryConfig } })
  else (true, self)

def initThreadPool (truncate : ℚ → ℤ) (config : Json) (self : Server) : Bool × Server :=
  match config.find "thread_pool" with
  | none => (true, self)
  | some section_ =>
      let (ok, threadPoolConfig) := self.config.threadPoolConfig.init truncate section_
      (ok, { self with config := { self.config with threadPoolConfig } })

/-- A key of the section for the handler, as the handler's own model takes it. -/
def schedulerField {α : Type} (get : Json → Option α) (section_ : Json) (key : String) :
    ZkConnHandler.Field α :=
  match section_.find key with
  | none => .absent
  | some entry =>
      match get entry with
      | none => .malformed
      | some v => .value v

def schedulerConfig (truncate : ℚ → ℤ) : Json → ZkConnHandler.Config
  | .object members =>
      if members.isEmpty then .empty
      else
        let section_ := Json.object members
        let getInt entry := (getInt truncate entry).map Int32.toInt
        .object (schedulerField getString section_ "zk_host")
          (schedulerField getInt section_ "zk_port")
          (schedulerField getString section_ "zk_namespace")
          (schedulerField getInt section_ "zk_retry_interval")
  | section_ => if section_.isEmpty then .empty else .object .malformed .absent .absent .absent

def initScheduler (env : Env) (config : Json) (self : Server) : Bool × Server :=
  match config.find "scheduler" with
  | none => (true, self)
  | some section_ =>
      let (ok, handler) :=
        ZkConnHandler.initZkConnHandler (schedulerConfig env.truncate section_) env.zoo self.handler
      (ok, { self with handler })

def initBalancer (config : Json) (self : Server) : Bool × Server :=
  match config.find "load_balance_strategy" with
  | none => (true, self)
  | some entry =>
      match entry.getString with
      | none => (false, self)
      | some strategy =>
          let (ok, balancer) := LoadBalancer.initBalancer strategy
          (ok, { self with balancer := some balancer })

/-- `InitRpcServerConfig`. -/
def init (env : Env) (file : File) (self : Server) : Bool × Server :=
  match file with
  | .missing | .malformed => (false, self)
  | .parsed config =>
      andThen (initBasic env.truncate config)
      (andThen (initRegistry env config)
      (andThen (initThreadPool env.truncate config)
      (andThen (initScheduler env config) (initBalancer config)))) self

end Server

end MyRpc.LoadConfig
