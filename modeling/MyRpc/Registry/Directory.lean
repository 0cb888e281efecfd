import MyRpc.Library.Clients
import MyRpc.LoadConfig.RpcServerConfig
import MyRpc.Registry.ServiceRegistry

/-!
# Servers and clients around one ZooKeeper

Servers register the nodes of their configuration, clients look up who is registered,
and each of them has a session of its own, which may expire.  The session of
a process has the number of the process.  What was asked and answered is kept
with the tree.
-/

namespace MyRpc.Cluster

open FixedWidth Scripts ZooKeeper ServiceRegistry
open RpcClient (RegistryInfo serviceAddress)
open LoadConfig (ServiceRegistryConfig)

/-! ## A tree whose children can be listed -/

def Op.path : Op → Path
  | .zooExists path => path
  | .zooCreate path _ _ => path

theorem known_of_perform {tree : Tree} {session : ℕ} {op : Op} {path : Path}
    (h : (perform session tree op).2 path ≠ none) : path = Op.path op ∨ tree path ≠ none := by
  by_cases hold : tree path = none
  · left
    cases op with
    | zooExists path' => exact absurd hold h
    | zooCreate path' data ephemeral =>
        by_contra hne
        apply h
        simp only [perform, create]
        split
        · exact hold
        · split
          · exact hold
          · split
            · exact (Function.update_of_ne hne _ _).trans hold
            · exact hold
  · exact .inr hold

/-- `known` has the paths of all nodes there are. -/
structure Directory where
  tree : Tree
  known : List Path
  complete : ∀ path, tree path ≠ none → path ∈ known

namespace Directory

def perform (session : ℕ) (d : Directory) (op : Op) : Rc × Directory :=
  ((ZooKeeper.perform session d.tree op).1,
    { tree := (ZooKeeper.perform session d.tree op).2
      known := Op.path op :: d.known
      complete := fun path h ↦ by
        rcases known_of_perform h with rfl | hold
        · exact List.mem_cons_self
        · exact List.mem_cons_of_mem _ (d.complete path hold) })

def expire (d : Directory) (session : ℕ) : Directory where
  tree := ZooKeeper.expire d.tree session
  known := d.known
  complete := fun path h ↦ by
    apply d.complete path
    intro hnone
    apply h
    simp only [ZooKeeper.expire, hnone, Option.filter_none]

/-- The last part of a path. -/
def childName (path : Path) : Bytes :=
  match findLastOf slash path with
  | none => path
  | some pos => path.drop (pos + 1)

def children (d : Directory) (path : Path) : List Bytes :=
  (d.known.dedup.filter fun child ↦ d.tree child ≠ none ∧ parent child = some path).map childName

end Directory

/-! ## Operations -/

inductive Request
  | node (op : Op)
  | getChildren (path : Path)
  | get (path : Path)
  deriving DecidableEq, Repr

inductive Reply
  | rc (rc : Rc)
  | children (names : List Bytes)
  | data (data : Bytes)
  deriving DecidableEq, Repr

def Reply.toRc : Reply → Rc
  | .rc r => r
  | _ => .other

/-- The size of the buffer that `zoo_get` copies to. -/
def bufferLen : ℕ := 1024

/-- The answer to a request; `names` is the order in which children are listed. -/
def answer (session : ℕ) (d : Directory) (names : List Bytes) : Request → Option (Reply × Directory)
  | .node op => some (.rc (d.perform session op).1, (d.perform session op).2)
  | .getChildren path =>
      if d.tree path = none then some (.rc .noNode, d)
      else if names.Perm (d.children path) then some (.children names, d)
      else none
  | .get path =>
      match d.tree path with
      | none => some (.rc .noNode, d)
      | some node => some (.data (node.data.take bufferLen), d)

structure Ensemble where
  directory : Directory
  expired : List ℕ
  answers : List (ℕ × Request × Reply)

/-- A request is answered, or fails before or after it was performed. -/
inductive Choice
  | answer (names : List Bytes)
  | fail (performed : Bool)
  deriving DecidableEq, Repr

/-- Nothing is performed any more for a session that has expired. -/
def serve (session : ℕ) (w : Ensemble) (request : Request) : Choice → Option (Reply × Ensemble)
  | .answer names =>
      if session ∈ w.expired then none
      else
        (answer session w.directory names request).map fun r ↦
          (r.1, ⟨r.2, w.expired, w.answers ++ [(session, request, r.1)]⟩)
  | .fail performed =>
      let directory :=
        match request with
        | .node op =>
            if performed = true ∧ session ∉ w.expired then (w.directory.perform session op).2
            else w.directory
        | _ => w.directory
      some (.rc .other, ⟨directory, w.expired, w.answers ++ [(session, request, .rc .other)]⟩)

inductive Event
  | expire (session : ℕ)
  deriving DecidableEq, Repr

def other (w : Ensemble) : Event → Option Ensemble
  | .expire session =>
      some { w with
        directory := w.directory.expire session
        expired := session :: w.expired }

def ensemble : Shared Ensemble Request Reply Choice Event := ⟨serve, other⟩

/-! ## Processes -/

/-- The loop of `registerServicesFromConfig`; `met k` is the registry as it is when
the node at `k` is registered. -/
def registerNodes (serviceName : Bytes) (met : ℕ → Registry) :
    ℕ → Bool → List RegistryInfo → Script Op Rc Bool
  | _, allSuccess, [] => .done allSuccess
  | k, allSuccess, node :: nodes =>
      ((met k).registerService serviceName (serviceAddress node)).bind fun registered ↦
        registerNodes serviceName met (k + 1) (allSuccess && registered) nodes

/-- `registry` is what `getOrCreateServiceRegistry` returns. -/
def registerServicesFromConfig (registryConfig : Option ServiceRegistryConfig)
    (registry : Option (ℕ → Registry)) : Script Op Rc Bool :=
  match registryConfig with
  | none => .done true
  | some config =>
      if config.registryNodes = [] then .done true
      else
        match registry with
        | none => .done false
        | some met =>
            registerNodes config.serviceName.toUTF8.toList met 0 true config.registryNodes

/-- The loop of `getAllServers` over the children. -/
def collect (zkNamespace : Bytes) : List Bytes → List Bytes → Script Request Reply (List Bytes)
  | servers, [] => .done servers
  | servers, child :: children =>
      .ask (.get (cStr (zkNamespace ++ slash :: child))) fun
        | .data data =>
            if data = [] then collect zkNamespace servers children
            else collect zkNamespace (servers ++ [data]) children
        | _ => collect zkNamespace servers children

/-- `available` is what `ensureZkConnection` returns. -/
def getAllServers (available : Bool) (zkNamespace : Bytes) : Script Request Reply (List Bytes) :=
  if available then
    .ask (.getChildren (cStr zkNamespace)) fun
      | .children names => collect zkNamespace [] names
      | _ => .done []
  else .done []

inductive Process
  | server (registryConfig : Option ServiceRegistryConfig) (registry : Option (ℕ → Registry))
  | client (available : Bool) (zkNamespace : Bytes)

inductive Outcome
  | registered (ok : Bool)
  | found (servers : List Bytes)
  deriving DecidableEq, Repr

namespace Process

def script : Process → Script Request Reply Outcome
  | server registryConfig registry =>
      ((registerServicesFromConfig registryConfig registry).lift .node Reply.toRc).bind fun ok ↦
        .done (.registered ok)
  | client available zkNamespace =>
      (getAllServers available zkNamespace).bind fun servers ↦ .done (.found servers)

/-- The names of the services and the addresses that a process registers. -/
def announces : Process → List (Bytes × Bytes)
  | server (some config) (some _) =>
      config.registryNodes.map fun node ↦
        (config.serviceName.toUTF8.toList, serviceAddress node)
  | _ => []

end Process

def start (directory : Directory) (processes : List Process) :
    Clients Ensemble Request Reply Outcome :=
  ⟨⟨directory, [], []⟩, processes.map Process.script⟩

end MyRpc.Cluster
