import MyRpc.Registry.Directory
import MyRpc.Registry.EnsurePath

/-!
# Where the servers of a lookup come from

Nothing that a lookup returns is made up.  Each server it lists was the data of a node
below the namespace when that node was read, and a node with data stood there from the
beginning or was created by a process for one of the addresses it announces, and the
session of that process had not expired by then (`provenance_run`).
-/

namespace MyRpc.Cluster

open FixedWidth PartialRun Scripts ZooKeeper ServiceRegistry
open RpcClient (RegistryInfo serviceAddress)
open LoadConfig (ServiceRegistryConfig)

/-! ## What a process asks -/

/-- An ephemeral node is one that the process announces, and any other one has no data. -/
def Process.MayAsk (p : Process) : Request → Prop
  | .node (.zooCreate path data true) =>
      ∃ entry ∈ p.announces, path = cStr (instancePath entry.1 entry.2) ∧ data = entry.2
  | .node (.zooCreate _ data false) => data = []
  | _ => True

/-- The process with this number may ask it. -/
def MayAsk (processes : List Process) (j : ℕ) (request : Request) : Prop :=
  ∃ p, processes[j]? = some p ∧ p.MayAsk request

variable {p : Process} {processes : List Process}

theorem asks_ensureNode (path : Bytes) :
    (Registry.ensureNode path).Asks fun op ↦ p.MayAsk (.node op) := by
  unfold Registry.ensureNode
  refine ⟨trivial, fun rc ↦ ?_⟩
  cases rc with
  | noNode =>
      refine ⟨rfl, fun rc' ↦ ?_⟩
      cases rc' <;> exact trivial
  | _ => exact trivial

theorem asks_ensurePath (r : Registry) (path : Bytes) :
    (r.ensurePath path).Asks fun op ↦ p.MayAsk (.node op) := by
  induction path using Registry.ensurePath.induct r with
  | case1 =>
      rw [Registry.ensurePath, if_pos rfl]
      exact trivial
  | case2 path hne hhandle =>
      rw [Registry.ensurePath, if_neg hne, if_pos hhandle]
      exact trivial
  | case3 path hne hhandle pos hfind hcut ih =>
      rw [Registry.ensurePath_of_find (by simpa using hhandle) hfind, if_pos hcut]
      refine Script.asks_bind ih fun ok ↦ ?_
      cases ok with
      | true => exact asks_ensureNode path
      | false => exact trivial
  | case4 path hne hhandle pos hfind hcut =>
      rw [Registry.ensurePath_of_find (by simpa using hhandle) hfind, if_neg hcut]
      exact asks_ensureNode path
  | case5 path hne hhandle hfind =>
      rw [Registry.ensurePath, if_neg hne, if_neg hhandle]
      split
      · rename_i hsome
        rw [hfind] at hsome
        cases hsome
      · exact asks_ensureNode path

theorem asks_registerService {r : Registry} {entry : Bytes × Bytes} (hentry : entry ∈ p.announces) :
    (r.registerService entry.1 entry.2).Asks fun op ↦ p.MayAsk (.node op) := by
  unfold Registry.registerService
  split
  · exact trivial
  refine Script.asks_bind (asks_ensurePath r _) fun ready ↦ ?_
  cases ready with
  | false => exact trivial
  | true =>
      show Script.Asks _ (r.createNode _ _ true)
      unfold Registry.createNode
      split
      · exact trivial
      · refine ⟨⟨entry, hentry, rfl, rfl⟩, fun rc ↦ ?_⟩
        cases rc <;> exact trivial

theorem asks_registerNodes (serviceName : Bytes) (met : ℕ → Registry) (k : ℕ) (allSuccess : Bool)
    {nodes : List RegistryInfo}
    (hentries : ∀ node ∈ nodes, (serviceName, serviceAddress node) ∈ p.announces) :
    (registerNodes serviceName met k allSuccess nodes).Asks fun op ↦ p.MayAsk (.node op) := by
  induction nodes generalizing k allSuccess with
  | nil => exact trivial
  | cons node nodes ih =>
      have hfirst := asks_registerService (r := met k) (hentries node List.mem_cons_self)
      refine Script.asks_bind hfirst fun registered ↦ ?_
      exact ih _ _ fun node' hnode' ↦ hentries node' (List.mem_cons_of_mem _ hnode')

theorem asks_collect (zkNamespace : Bytes) (servers names : List Bytes) :
    (collect zkNamespace servers names).Asks p.MayAsk := by
  induction names generalizing servers with
  | nil => exact trivial
  | cons name names ih =>
      refine ⟨trivial, fun reply ↦ ?_⟩
      cases reply with
      | data data =>
          show Script.Asks _ (if data = [] then _ else _)
          split <;> exact ih _
      | rc | children => exact ih servers

theorem asks_script (p : Process) : p.script.Asks p.MayAsk := by
  cases p with
  | server registryConfig registry =>
      refine Script.asks_bind (Script.asks_lift ?_) fun _ ↦ trivial
      unfold registerServicesFromConfig
      split
      · exact trivial
      · split
        · exact trivial
        · split
          · exact trivial
          · exact asks_registerNodes _ _ _ _ fun node hnode ↦ List.mem_map_of_mem hnode
  | client available zkNamespace =>
      refine Script.asks_bind ?_ fun _ ↦ trivial
      unfold getAllServers
      split
      · refine ⟨trivial, fun reply ↦ ?_⟩
        cases reply with
        | children names => exact asks_collect zkNamespace [] names
        | rc | data => exact trivial
      · exact trivial

theorem allAsk_start (directory : Directory) (processes : List Process) :
    AllAsk (MayAsk processes) (start directory processes) := by
  intro j m hm
  rw [start, List.getElem?_map] at hm
  obtain ⟨p, hp, rfl⟩ := Option.map_eq_some_iff.mp hm
  exact Script.asks_mono (fun _ hask ↦ ⟨p, hp, hask⟩) (asks_script p)

/-! ## What is served -/

theorem serve_cases {session : ℕ} {w u : Ensemble} {request : Request} {c : Choice} {reply : Reply}
    (h : serve session w request c = some (reply, u)) :
    u.expired = w.expired ∧ u.answers = w.answers ++ [(session, request, reply)] ∧
      (u.directory.tree = w.directory.tree ∨
        ∃ op, request = .node op ∧ session ∉ w.expired ∧
          u.directory.tree = (ZooKeeper.perform session w.directory.tree op).2) := by
  cases c with
  | answer names =>
      simp only [serve] at h
      split at h
      · cases h
      · rename_i hlive
        obtain ⟨⟨reply', directory⟩, hanswer, heq⟩ := Option.map_eq_some_iff.mp h
        cases heq
        refine ⟨rfl, rfl, ?_⟩
        cases request with
        | node op =>
            cases hanswer
            exact .inr ⟨op, rfl, hlive, rfl⟩
        | getChildren path =>
            simp only [answer] at hanswer
            split at hanswer
            · cases hanswer
              exact .inl rfl
            · split at hanswer
              · cases hanswer
                exact .inl rfl
              · cases hanswer
        | get path =>
            simp only [answer] at hanswer
            split at hanswer
            · cases hanswer
              exact .inl rfl
            · cases hanswer
              exact .inl rfl
  | fail performed =>
      cases h
      refine ⟨rfl, rfl, ?_⟩
      cases request with
      | node op =>
          by_cases hperformed : performed = true ∧ session ∉ w.expired
          · exact .inr ⟨op, rfl, hperformed.2, by simp only [if_pos hperformed]; rfl⟩
          · exact .inl (by simp only [if_neg hperformed])
      | getChildren path => exact .inl rfl
      | get path => exact .inl rfl

/-- Data is what a node has when it is read. -/
theorem read_of_serve {session : ℕ} {w u : Ensemble} {path : Path} {c : Choice} {data : Bytes}
    (h : serve session w (.get path) c = some (.data data, u)) :
    ∃ node, w.directory.tree path = some node ∧ data = node.data.take bufferLen := by
  cases c with
  | answer names =>
      simp only [serve] at h
      split at h
      · cases h
      · obtain ⟨⟨reply, directory⟩, hanswer, heq⟩ := Option.map_eq_some_iff.mp h
        cases heq
        simp only [answer] at hanswer
        split at hanswer
        · cases hanswer
        · rename_i node hnode
          cases hanswer
          exact ⟨node, hnode, rfl⟩
  | fail performed => cases h

/-- What is kept was answered in a step of the run. -/
theorem answered_of_mem {α : Type} {first last : Clients Ensemble Request Reply α}
    {trace : List (Clients Ensemble Request Reply α × Turn Choice Event)}
    (hrun : Run ensemble.step first trace last) {i : ℕ} {request : Request} {reply : Reply}
    (hmem : (i, request, reply) ∈ last.shared.answers)
    (hfirst : (i, request, reply) ∉ first.shared.answers) :
    ∃ t c u, (t, .serve i c) ∈ trace ∧ serve i t.shared request c = some (reply, u) := by
  induction hrun with
  | nil => exact absurd hmem hfirst
  | @snoc trace s a t hrun hstep ih =>
      by_cases hbefore : (i, request, reply) ∈ s.shared.answers
      · obtain ⟨t', c, u, ht', hserve⟩ := ih hbefore
        exact ⟨t', c, u, List.mem_append_left _ ht', hserve⟩
      cases a with
      | serve j c =>
          obtain ⟨op, next, r, -, hserve, -⟩ := step_serve hstep
          obtain ⟨-, hanswers, -⟩ := serve_cases hserve
          rw [hanswers] at hmem
          rcases List.mem_append.mp hmem with hmem | hmem
          · exact absurd hmem hbefore
          · cases List.mem_singleton.mp hmem
            exact ⟨s, c, t.shared, by simp, hserve⟩
      | other e =>
          cases e with
          | expire session =>
              cases hstep
              exact absurd hmem hbefore

/-! ## Where nodes come from -/

/-- The node was there from the beginning, or a process made it for one of the addresses it
announces, and its session has not expired since. -/
def Comes (directory : Directory) (processes : List Process) (path : Path) (node : Node)
    (w : Ensemble) : Prop :=
  directory.tree path = some node ∨
    ∃ j p entry, processes[j]? = some p ∧ entry ∈ p.announces ∧
      path = cStr (instancePath entry.1 entry.2) ∧ node = ⟨entry.2, some j⟩ ∧ j ∉ w.expired

def Traced (directory : Directory) (processes : List Process) (w : Ensemble) : Prop :=
  ∀ path node, w.directory.tree path = some node → node.data ≠ [] →
    Comes directory processes path node w

variable {directory : Directory}

theorem traced_expire {w u : Ensemble} {e : Event} (h : other w e = some u)
    (hw : Traced directory processes w) : Traced directory processes u := by
  cases e with
  | expire session =>
      cases h
      intro path node hnode hdata
      obtain ⟨hold, howner⟩ := Option.filter_eq_some_iff.mp hnode
      rcases hw path node hold hdata with hthere | ⟨j, p, entry, hp, hentry, hpath, rfl, hlive⟩
      · exact .inl hthere
      · refine .inr ⟨j, p, entry, hp, hentry, hpath, rfl, fun hmem ↦ ?_⟩
        rcases List.mem_cons.mp hmem with rfl | hmem
        · simp at howner
        · exact hlive hmem

theorem tree_of_create {tree : Tree} {path path' : Path} {data : Bytes} {owner : Option ℕ}
    {node : Node} (h : (create tree path' data owner).2 path = some node) :
    tree path = some node ∨ path = path' ∧ node = ⟨data, owner⟩ := by
  cases hfree : tree path with
  | some node' =>
      rw [create_keeps hfree] at h
      exact .inl h
  | none =>
      have hsome : (create tree path' data owner).2 path ≠ none := by
        rw [h]
        exact Option.some_ne_none node
      obtain rfl := eq_of_create hfree hsome
      right
      refine ⟨rfl, ?_⟩
      unfold create at h
      split at h
      · cases hfree.symm.trans h
      · split at h
        · cases hfree.symm.trans h
        · have hupdated : Function.update tree path (some ⟨data, owner⟩) path = some node := h
          rw [Function.update_self] at hupdated
          exact (Option.some.inj hupdated).symm

theorem traced_serve {j : ℕ} {w u : Ensemble} {request : Request} {c : Choice} {reply : Reply}
    (hmay : MayAsk processes j request) (h : serve j w request c = some (reply, u))
    (hw : Traced directory processes w) : Traced directory processes u := by
  obtain ⟨hexpired, -, htree⟩ := serve_cases h
  intro path node hnode hdata
  have hkept : w.directory.tree path = some node → Comes directory processes path node u := by
    intro hold
    unfold Comes
    rw [hexpired]
    exact hw path node hold hdata
  rcases htree with htree | ⟨op, rfl, hlive, htree⟩
  · rw [htree] at hnode
    exact hkept hnode
  · rw [htree] at hnode
    cases op with
    | zooExists path' => exact hkept hnode
    | zooCreate path' data ephemeral =>
        rcases tree_of_create hnode with hold | ⟨rfl, rfl⟩
        · exact hkept hold
        · obtain ⟨p, hp, hask⟩ := hmay
          cases ephemeral with
          | true =>
              obtain ⟨entry, hentry, hpath, hentryData⟩ := hask
              refine .inr ⟨j, p, entry, hp, hentry, hpath, ?_, by rwa [hexpired]⟩
              rw [hentryData]
              rfl
          | false => exact absurd hask hdata

theorem traced_run {last : Clients Ensemble Request Reply Outcome}
    {trace : List (Clients Ensemble Request Reply Outcome × Turn Choice Event)}
    (hrun : Run ensemble.step (start directory processes) trace last) :
    Traced directory processes last.shared :=
  (invariant_clients (fun _ _ _ hother hw ↦ traced_expire hother hw)
    (fun _ _ _ _ _ _ hmay hserve hw ↦ traced_serve hmay hserve hw) hrun
    (allAsk_start directory processes) fun _ _ hnode _ ↦ .inl hnode).2

/-! ## What a lookup has read -/

/-- Each server is the data that a read of a node below the namespace has answered. -/
def Read (i : ℕ) (zkNamespace : Bytes) (servers : List Bytes) (w : Ensemble) : Prop :=
  ∀ server ∈ servers, server ≠ [] ∧
    ∃ name, (i, .get (cStr (zkNamespace ++ slash :: name)), .data server) ∈ w.answers

theorem read_nil (i : ℕ) (zkNamespace : Bytes) (w : Ensemble) : Read i zkNamespace [] w :=
  fun _ hmem ↦ absurd hmem List.not_mem_nil

theorem read_mono {i : ℕ} {zkNamespace : Bytes} {servers : List Bytes} {w u : Ensemble}
    (hanswers : ∀ entry ∈ w.answers, entry ∈ u.answers) (h : Read i zkNamespace servers w) :
    Read i zkNamespace servers u := by
  intro server hserver
  obtain ⟨hne, name, hname⟩ := h server hserver
  exact ⟨hne, name, hanswers _ hname⟩

theorem answers_of_serve {j : ℕ} {w u : Ensemble} {request : Request} {c : Choice} {reply : Reply}
    (h : serve j w request c = some (reply, u)) : ∀ entry ∈ w.answers, entry ∈ u.answers := by
  obtain ⟨-, hanswers, -⟩ := serve_cases h
  rw [hanswers]
  exact fun entry hentry ↦ List.mem_append_left _ hentry

theorem stable_read (i : ℕ) (zkNamespace : Bytes) (servers : List Bytes) :
    Stable (ensemble.around (MayAsk processes) i) (Read i zkNamespace servers) := by
  refine stable_around ?_ (fun _ _ _ _ _ _ _ hserve h ↦ read_mono (answers_of_serve hserve) h) i
  intro w e u hother h
  cases e with
  | expire session =>
      cases hother
      exact h

theorem wp_collect (i : ℕ) (zkNamespace : Bytes) {servers names : List Bytes} {w : Ensemble}
    (h : Read i zkNamespace servers w) :
    wp (ensemble.around (MayAsk processes) i) (Read i zkNamespace)
      (collect zkNamespace servers names) w := by
  induction names generalizing servers w with
  | nil => exact h
  | cons name names ih =>
      intro t hwt c reply u hserve
      have ht := (stable_read i zkNamespace servers).of_interferes hwt h
      have hu : Read i zkNamespace servers u := read_mono (answers_of_serve hserve) ht
      cases reply with
      | rc rc => exact ih hu
      | children found => exact ih hu
      | data data =>
          show wp _ _ (if data = [] then _ else _) u
          split
          · exact ih hu
          · rename_i hne
            refine ih fun server hserver ↦ ?_
            rcases List.mem_append.mp hserver with hserver | hserver
            · exact hu server hserver
            · obtain rfl := List.mem_singleton.mp hserver
              obtain ⟨-, hanswers, -⟩ := serve_cases hserve
              exact ⟨hne, name, by simp [hanswers]⟩

theorem wp_getAllServers (i : ℕ) (available : Bool) (zkNamespace : Bytes) (w : Ensemble) :
    wp (ensemble.around (MayAsk processes) i) (Read i zkNamespace)
      (getAllServers available zkNamespace) w := by
  unfold getAllServers
  split
  · intro t hwt c reply u hserve
    cases reply with
    | children names => exact wp_collect i zkNamespace (read_nil i zkNamespace u)
    | rc rc => exact read_nil i zkNamespace u
    | data data => exact read_nil i zkNamespace u
  · exact read_nil i zkNamespace w

/-- What an outcome of a lookup should be like. -/
def Found (i : ℕ) (zkNamespace : Bytes) (outcome : Outcome) (w : Ensemble) : Prop :=
  ∀ servers, outcome = .found servers → Read i zkNamespace servers w

theorem read_run {i : ℕ} {available : Bool} {zkNamespace : Bytes}
    (hi : processes[i]? = some (.client available zkNamespace))
    {last : Clients Ensemble Request Reply Outcome}
    {trace : List (Clients Ensemble Request Reply Outcome × Turn Choice Event)}
    (hrun : Run ensemble.step (start directory processes) trace last) {servers : List Bytes}
    (hdone : last.outcome i = some (.found servers)) :
    Read i zkNamespace servers last.shared := by
  have hstable : ∀ outcome, Stable (ensemble.around (MayAsk processes) i)
      (Found i zkNamespace outcome) := by
    intro outcome w e u hother h servers' heq
    exact stable_read i zkNamespace servers' w e u hother (h servers' heq)
  have hscript : (start directory processes).scripts[i]? =
      some (Process.client available zkNamespace).script := by
    rw [start, List.getElem?_map, hi]
    rfl
  refine wp_clients hstable hrun (allAsk_start directory processes) hscript ?_ hdone servers rfl
  refine wp_bind.mpr (wp_mono (fun servers' w hread ↦ ?_) (wp_getAllServers i _ _ _))
  intro servers'' heq
  cases heq
  exact hread

/-- **Where the servers of a lookup come from.**  In every run of servers and clients, with
sessions that expire and requests that fail, each server that a lookup returns was read
from a node below its namespace, and when it was read the node was one that had been
there from the beginning, or one that a process whose session had not expired had made for
an address it announces. -/
theorem provenance_run {i : ℕ} {available : Bool} {zkNamespace : Bytes}
    (hi : processes[i]? = some (.client available zkNamespace))
    {last : Clients Ensemble Request Reply Outcome}
    {trace : List (Clients Ensemble Request Reply Outcome × Turn Choice Event)}
    (hrun : Run ensemble.step (start directory processes) trace last) {servers : List Bytes}
    (hdone : last.outcome i = some (.found servers)) :
    ∀ server ∈ servers, server ≠ [] ∧
      ∃ t c name node, (t, .serve i c) ∈ trace ∧
        t.shared.directory.tree (cStr (zkNamespace ++ slash :: name)) = some node ∧
        server = node.data.take bufferLen ∧
        Comes directory processes (cStr (zkNamespace ++ slash :: name)) node t.shared := by
  intro server hserver
  obtain ⟨hne, name, hmem⟩ := read_run hi hrun hdone server hserver
  obtain ⟨t, c, u, ht, hserve⟩ := answered_of_mem hrun hmem List.not_mem_nil
  obtain ⟨node, hnode, hdata⟩ := read_of_serve hserve
  obtain ⟨before, -, -, hbefore, -, -, -⟩ := hrun.split ht
  refine ⟨hne, t, c, name, node, ht, hnode, hdata, ?_⟩
  refine traced_run hbefore _ node hnode fun hempty ↦ hne ?_
  rw [hdata, hempty, List.take_nil]

/-- The service "s" at "a:1". -/
def oneNode : ServiceRegistryConfig where
  registryNodes := [⟨[97], 1⟩]
  serviceName := "s"
  serviceVersion := "1"

def emptyDirectory : Directory where
  tree path := if path = [slash] then some ⟨[], none⟩ else none
  known := [[slash]]
  complete path h := by
    by_contra hne
    exact h (if_neg (fun heq : path = [slash] ↦ hne (List.mem_singleton.mpr heq)))

def serverAndClient : List Process :=
  [.server (some oneNode) (some fun _ ↦ ⟨true, true⟩), .client true (servicePath [115])]

def registering : List (Turn Choice Event) := List.replicate 5 (.serve 0 (.answer []))

/-- A third session expires meanwhile. -/
def lookingUp : List (Turn Choice Event) :=
  [.serve 1 (.answer [[97, 58, 49]]), .other (.expire 7), .serve 1 (.answer [])]

theorem provenance_run_one :
    (executed ensemble.step (start emptyDirectory serverAndClient)
        (registering ++ lookingUp)).2.outcome 1 = some (.found [[97, 58, 49]]) ∧
      ∀ server ∈ [([97, 58, 49] : Bytes)], server ≠ [] ∧
        ∃ t c name node,
          (t, .serve 1 c) ∈ (executed ensemble.step (start emptyDirectory serverAndClient)
            (registering ++ lookingUp)).1 ∧
          t.shared.directory.tree (cStr (servicePath [115] ++ slash :: name)) = some node ∧
          server = node.data.take bufferLen ∧
          Comes emptyDirectory serverAndClient (cStr (servicePath [115] ++ slash :: name)) node
            t.shared := by
  have hdone : (executed ensemble.step (start emptyDirectory serverAndClient)
      (registering ++ lookingUp)).2.outcome 1 = some (.found [[97, 58, 49]]) := by decide +kernel
  exact ⟨hdone, provenance_run rfl (Run.of_isSome (by decide +kernel)) hdone⟩

end MyRpc.Cluster
