import MyRpc.Registry.Provenance

/-!
# A server that is registered is found

When a server has registered all nodes of its configuration, those that it made itself
stay below the service as long as its session lives: nobody else removes a node,
and nobody makes the node of a service an ephemeral one.  So a lookup that begins later
and meets no failure returns the address of each of them that can be one part of a path and
fits into the buffer of the lookup (`discovers_run`).
-/

namespace MyRpc.Cluster

open FixedWidth PartialRun Scripts ZooKeeper ServiceRegistry
open RpcClient (RegistryInfo serviceAddress)
open LoadConfig (ServiceRegistryConfig)

/-! ## Paths -/

/-- What can be one part of a path. -/
structure Proper (bytes : Bytes) : Prop where
  no_slash : slash ∉ bytes
  no_nul : 0 ∉ bytes

/-- No service that is announced has a NUL in its name. -/
def Legible (processes : List Process) : Prop :=
  ∀ p ∈ processes, ∀ entry ∈ p.announces, 0 ∉ entry.1

theorem serviceAddress_ne_nil (node : RegistryInfo) : serviceAddress node ≠ [] := by
  simp [serviceAddress]

theorem nul_servicePath {name : Bytes} (hname : 0 ∉ name) : 0 ∉ servicePath name := by
  intro hmem
  rw [servicePath, List.mem_append] at hmem
  rcases hmem with hmem | hmem
  · exact absurd hmem (by decide)
  · exact hname hmem

theorem nul_instancePath {name address : Bytes} (hname : Proper name) (haddress : Proper address) :
    0 ∉ instancePath name address := by
  intro hmem
  rw [instancePath, List.append_assoc, List.mem_append, List.mem_append] at hmem
  rcases hmem with hmem | hmem | hmem
  · exact nul_servicePath hname.no_nul hmem
  · exact absurd hmem (by decide)
  · exact haddress.no_nul hmem

theorem findLastOf_instancePath (name : Bytes) {address : Bytes} (haddress : Proper address) :
    findLastOf slash (instancePath name address) = some (servicePath name).length := by
  have hfind := findLastOf_append (servicePath name) haddress.no_slash
  simpa [instancePath] using hfind

theorem parent_instancePath (name : Bytes) {address : Bytes} (haddress : Proper address) :
    parent (instancePath name address) = some (servicePath name) := by
  have hlength : (servicePath name).length = name.length + 6 + 1 := by
    simp [servicePath, rootPath]
  rw [parent, findLastOf_instancePath name haddress, hlength]
  show some ((instancePath name address).take (name.length + 6 + 1)) = _
  rw [← hlength, instancePath, List.append_assoc, List.take_left]

theorem childName_instancePath (name : Bytes) {address : Bytes} (haddress : Proper address) :
    Directory.childName (instancePath name address) = address := by
  rw [Directory.childName, findLastOf_instancePath name haddress]
  show (instancePath name address).drop ((servicePath name).length + 1) = address
  have hsplit : instancePath name address = (servicePath name ++ [slash]) ++ address := rfl
  rw [hsplit, ← List.length_singleton (a := slash), ← List.length_append, List.drop_left]

/-- An instance has one slash more than a service. -/
theorem servicePath_ne_instancePath {name name' : Bytes} (hname : Proper name)
    (hname' : 0 ∉ name') (address : Bytes) :
    servicePath name ≠ cStr (instancePath name' address) := by
  intro heq
  have hservice : (servicePath name).count slash = 2 := by
    have hnone : name.count slash = 0 := List.count_eq_zero.mpr hname.no_slash
    rw [servicePath, List.count_append, List.count_append, hnone]
    rfl
  have hfront : ∀ b ∈ servicePath name' ++ [slash], decide (b ≠ 0) = true := by
    intro b hb
    refine decide_eq_true fun hzero ↦ ?_
    rcases List.mem_append.mp hb with hmem | hmem
    · exact nul_servicePath hname' (hzero ▸ hmem)
    · exact absurd (hzero ▸ hmem) (by decide)
  have hinstance : 3 ≤ (cStr (instancePath name' address)).count slash := by
    rw [cStr, instancePath, List.takeWhile_append_of_pos hfront, List.count_append,
      List.count_append, servicePath, List.count_append, List.count_append]
    have hroot : rootPath.count slash = 1 := rfl
    have hself : [slash].count slash = 1 := rfl
    omega
  rw [← heq, hservice] at hinstance
  omega

/-! ## What others leave alone -/

/-- No session owns the node of the service. -/
def Unowned (name : Bytes) (w : Ensemble) : Prop :=
  ∀ node, w.directory.tree (servicePath name) = some node → node.owner = none

/-- The node of the instance is the server's own, unless its session has expired. -/
def Held (k : ℕ) (name address : Bytes) (w : Ensemble) : Prop :=
  k ∈ w.expired ∨ w.directory.tree (instancePath name address) = some ⟨address, some k⟩ ∧
    ∃ data, w.directory.tree (servicePath name) = some ⟨data, none⟩

variable {processes : List Process} {k i : ℕ} {name address : Bytes} {w u : Ensemble}

theorem serve_keeps {j : ℕ} {request : Request} {c : Choice} {reply : Reply}
    (h : serve j w request c = some (reply, u)) {path : Path} {node : Node}
    (hnode : w.directory.tree path = some node) : u.directory.tree path = some node := by
  obtain ⟨-, -, htree | ⟨op, -, -, htree⟩⟩ := serve_cases h
  · rw [htree]
    exact hnode
  · rw [htree]
    exact perform_keeps hnode j op

theorem expire_keeps {session : ℕ} (h : other w (.expire session) = some u) {path : Path}
    {node : Node} (hnode : w.directory.tree path = some node) (howner : node.owner ≠ some session) :
    u.directory.tree path = some node := by
  cases h
  refine Option.filter_eq_some_iff.mpr ⟨hnode, ?_⟩
  simpa using howner

theorem held_serve {j : ℕ} {request : Request} {c : Choice} {reply : Reply}
    (h : serve j w request c = some (reply, u)) (hw : Held k name address w) :
    Held k name address u := by
  obtain ⟨hexpired, -, -⟩ := serve_cases h
  rcases hw with hgone | ⟨hown, data, hservice⟩
  · exact .inl (hexpired ▸ hgone)
  · exact .inr ⟨serve_keeps h hown, data, serve_keeps h hservice⟩

theorem held_other {e : Event} (h : other w e = some u) (hw : Held k name address w) :
    Held k name address u := by
  cases e with
  | expire session =>
      rcases hw with hgone | ⟨hown, data, hservice⟩
      · cases h
        exact .inl (List.mem_cons_of_mem _ hgone)
      · by_cases hk : session = k
        · cases h
          exact .inl (hk ▸ List.mem_cons_self)
        · have hlive : (some k : Option ℕ) ≠ some session := fun heq ↦ hk (Option.some.inj heq).symm
          exact .inr ⟨expire_keeps h hown hlive, data, expire_keeps h hservice (by simp)⟩

theorem unowned_other {e : Event} (h : other w e = some u) (hw : Unowned name w) :
    Unowned name u := by
  cases e with
  | expire session =>
      cases h
      intro node hnode
      exact hw node (Option.filter_eq_some_iff.mp hnode).1

theorem unowned_serve (hlegible : Legible processes) (hname : Proper name) {j : ℕ}
    {request : Request} {c : Choice} {reply : Reply} (hmay : MayAsk processes j request)
    (h : serve j w request c = some (reply, u)) (hw : Unowned name w) : Unowned name u := by
  intro node hnode
  obtain ⟨-, -, htree | ⟨op, rfl, -, htree⟩⟩ := serve_cases h
  · exact hw node (htree ▸ hnode)
  · rw [htree] at hnode
    cases op with
    | zooExists path => exact hw node hnode
    | zooCreate path data ephemeral =>
        rcases tree_of_create hnode with hold | ⟨hpath, rfl⟩
        · exact hw node hold
        · cases ephemeral with
          | false => rfl
          | true =>
              obtain ⟨p, hp, entry, hentry, hinstance, -⟩ := hmay
              have hentryName := hlegible p (List.mem_of_getElem? hp) entry hentry
              have hne := servicePath_ne_instancePath hname hentryName entry.2
              exact absurd (hpath.trans hinstance) hne

/-! ## Registering -/

/-- A registration that succeeds holds the node, or was told that there is one already. -/
def Registered (k : ℕ) (name address : Bytes) (ok : Bool) (w : Ensemble) : Prop :=
  ok = true →
    (k, .node (.zooCreate (instancePath name address) address true), .rc .nodeExists) ∈ w.answers ∨
      Held k name address w

theorem registered_serve {ok : Bool} {j : ℕ} {request : Request} {c : Choice} {reply : Reply}
    (h : serve j w request c = some (reply, u)) (hw : Registered k name address ok w) :
    Registered k name address ok u := by
  intro hok
  rcases hw hok with hanswer | hheld
  · exact .inl (answers_of_serve h _ hanswer)
  · exact .inr (held_serve h hheld)

theorem registered_other {ok : Bool} {e : Event} (h : other w e = some u)
    (hw : Registered k name address ok w) : Registered k name address ok u := by
  intro hok
  rcases hw hok with hanswer | hheld
  · cases e with
    | expire session =>
        cases h
        exact .inl hanswer
  · exact .inr (held_other h hheld)

theorem stable_unowned (hlegible : Legible processes) (hname : Proper name) (i : ℕ) :
    Stable (ensemble.around (MayAsk processes) i) (Unowned name) :=
  stable_around (fun _ _ _ hother hw ↦ unowned_other hother hw)
    (fun _ _ _ _ _ _ hmay hserve hw ↦ unowned_serve hlegible hname hmay hserve hw) i

/-- A create that succeeds has made the node below the service. -/
theorem held_of_create {c : Choice} {u : Ensemble} (haddress : Proper address)
    (hunowned : Unowned name w)
    (h : serve k w (.node (.zooCreate (instancePath name address) address true)) c =
      some (.rc .ok, u)) : Held k name address u := by
  cases c with
  | fail performed => cases h
  | answer names =>
      simp only [serve] at h
      split at h
      · cases h
      · obtain ⟨⟨reply, directory⟩, hanswer, heq⟩ := Option.map_eq_some_iff.mp h
        cases heq
        simp only [answer, Option.some.injEq, Prod.mk.injEq, Reply.rc.injEq] at hanswer
        obtain ⟨hrc, rfl⟩ := hanswer
        have hcreate : create w.directory.tree (instancePath name address) address (some k) =
            (.ok, (create w.directory.tree (instancePath name address) address (some k)).2) :=
          Prod.ext hrc rfl
        have hservice : w.directory.tree (servicePath name) ≠ none := by
          intro hnone
          rw [create, parent_instancePath name haddress] at hcreate
          simp only [if_pos hnone] at hcreate
          cases hcreate
        obtain ⟨node, hnode⟩ := Option.ne_none_iff_exists'.mp hservice
        have howner := hunowned node hnode
        refine .inr ⟨create_ok hcreate, node.data, ?_⟩
        rw [← howner]
        exact create_keeps hnode _ _ _

theorem wp_createNode (hlegible : Legible processes) (hname : Proper name)
    (haddress : Proper address) (r : Registry) (hw : Unowned name w) :
    wp (ensemble.around (MayAsk processes) k) (Registered k name address)
      ((r.createNode (instancePath name address) address true).lift .node Reply.toRc) w := by
  unfold Registry.createNode
  split
  · exact fun hok ↦ absurd hok Bool.false_ne_true
  rw [cStr_eq_self (nul_instancePath hname haddress)]
  intro t hwt c reply u hserve
  have ht : Unowned name t := (stable_unowned hlegible hname k).of_interferes hwt hw
  cases reply with
  | children names => exact fun hok ↦ absurd hok Bool.false_ne_true
  | data data => exact fun hok ↦ absurd hok Bool.false_ne_true
  | rc rc =>
      cases rc with
      | ok => exact fun _ ↦ .inr (held_of_create haddress ht hserve)
      | nodeExists =>
          obtain ⟨-, hanswers, -⟩ := serve_cases hserve
          exact fun _ ↦ .inl (by simp [hanswers])
      | noNode => exact fun hok ↦ absurd hok Bool.false_ne_true
      | other => exact fun hok ↦ absurd hok Bool.false_ne_true

/-- What keeps `Unowned` while the process runs a part of its own script. -/
theorem wp_unowned (hlegible : Legible processes) (hname : Proper name) {p : Process}
    (hk : processes[k]? = some p) {α : Type} {m : Script Op Rc α}
    (hasks : m.Asks fun op ↦ p.MayAsk (.node op)) (hw : Unowned name w) :
    wp (ensemble.around (MayAsk processes) k) (fun _ ↦ Unowned name)
      (m.lift .node Reply.toRc) w := by
  refine wp_of_asks (stable_unowned hlegible hname k) ?_ (Script.asks_lift hasks) hw
  exact fun _ _ _ _ _ hask hserve h ↦ unowned_serve hlegible hname ⟨p, hk, hask⟩ hserve h

theorem wp_registerService (hlegible : Legible processes) {p : Process}
    (hk : processes[k]? = some p) (hname : Proper name) (haddress : Proper address) (r : Registry)
    (hw : Unowned name w) :
    wp (ensemble.around (MayAsk processes) k) (Registered k name address)
      ((r.registerService name address).lift .node Reply.toRc) w := by
  unfold Registry.registerService
  split
  · exact fun hok ↦ absurd hok Bool.false_ne_true
  rw [Script.lift_bind, wp_bind]
  refine wp_mono (fun ready t ht ↦ ?_)
    (wp_unowned hlegible hname hk (asks_ensurePath r (servicePath name)) hw)
  cases ready with
  | true => exact wp_createNode hlegible hname haddress r ht
  | false => exact fun hok ↦ absurd hok Bool.false_ne_true

/-- All nodes whose address can be a part of a path are registered, if the answer is true. -/
def AllRegistered (k : ℕ) (name : Bytes) (nodes : List RegistryInfo) (ok : Bool)
    (w : Ensemble) : Prop :=
  ok = true → ∀ node ∈ nodes, Proper (serviceAddress node) →
    Registered k name (serviceAddress node) true w

theorem stable_registered (i : ℕ) (ok : Bool) :
    Stable (ensemble.around (MayAsk processes) i) (Registered k name address ok) :=
  stable_around (fun _ _ _ hother hw ↦ registered_other hother hw)
    (fun _ _ _ _ _ _ _ hserve hw ↦ registered_serve hserve hw) i

theorem stable_allRegistered (i : ℕ) (nodes : List RegistryInfo) (ok : Bool) :
    Stable (ensemble.around (MayAsk processes) i) (AllRegistered k name nodes ok) :=
  fun w e u hother hw hok node hnode haddress ↦
    stable_registered i true w e u hother (hw hok node hnode haddress)

theorem wp_registerNodes (hlegible : Legible processes) {p : Process}
    (hk : processes[k]? = some p) (hname : Proper name) (met : ℕ → Registry) (n : ℕ)
    (allSuccess : Bool) {nodes : List RegistryInfo}
    (hentries : ∀ node ∈ nodes, (name, serviceAddress node) ∈ p.announces)
    (hw : Unowned name w) :
    wp (ensemble.around (MayAsk processes) k)
      (fun ok t ↦ (ok = true → allSuccess = true) ∧ AllRegistered k name nodes ok t)
      ((registerNodes name met n allSuccess nodes).lift .node Reply.toRc) w := by
  induction nodes generalizing n allSuccess w with
  | nil => exact ⟨id, fun _ node hnode ↦ absurd hnode List.not_mem_nil⟩
  | cons node nodes ih =>
      have hentry := hentries node List.mem_cons_self
      have hrest : ∀ node ∈ nodes, (name, serviceAddress node) ∈ p.announces :=
        fun node' hnode' ↦ hentries node' (List.mem_cons_of_mem _ hnode')
      have hfirst : wp (ensemble.around (MayAsk processes) k)
          (fun registered t ↦ (Proper (serviceAddress node) →
            Registered k name (serviceAddress node) registered t) ∧ Unowned name t)
          (((met n).registerService name (serviceAddress node)).lift .node Reply.toRc) w := by
        have hunowned := wp_unowned hlegible hname hk (asks_registerService (r := met n) hentry) hw
        by_cases haddress : Proper (serviceAddress node)
        · refine wp_mono (fun _ _ h ↦ ⟨fun _ ↦ h.1, h.2⟩) (wp_and ?_ hunowned)
          exact wp_registerService hlegible hk hname haddress (met n) hw
        · exact wp_mono (fun _ _ h ↦ ⟨fun h' ↦ absurd h' haddress, h⟩) hunowned
      rw [registerNodes, Script.lift_bind, wp_bind]
      refine wp_mono (fun registered t ht ↦ ?_) hfirst
      obtain ⟨hregistered, hunowned⟩ := ht
      have hkept : wp (ensemble.around (MayAsk processes) k)
          (fun _ u ↦ Proper (serviceAddress node) →
            Registered k name (serviceAddress node) registered u)
          ((registerNodes name met (n + 1) (allSuccess && registered) nodes).lift .node Reply.toRc)
          t := by
        refine wp_of_asks (P := p.MayAsk) ?_ ?_ ?_ hregistered
        · exact fun w e u hother h haddress ↦
            stable_registered k registered w e u hother (h haddress)
        · exact fun _ _ _ _ _ _ hserve h haddress ↦ registered_serve hserve (h haddress)
        · exact Script.asks_lift (asks_registerNodes name met _ _ hrest)
      have hothers := ih (n + 1) (allSuccess && registered) hrest hunowned
      refine wp_mono (fun ok u hu ↦ ?_) (wp_and hothers hkept)
      obtain ⟨⟨hsuccess, hall⟩, hnode⟩ := hu
      have hboth : ok = true → allSuccess = true ∧ registered = true := fun hok ↦
        Bool.and_eq_true_iff.mp (hsuccess hok)
      refine ⟨fun hok ↦ (hboth hok).1, fun hok node' hnode' haddress ↦ ?_⟩
      rcases List.mem_cons.mp hnode' with rfl | hnode'
      · exact (hboth hok).2 ▸ hnode haddress
      · exact hall hok node' hnode' haddress

variable {directory : Directory}

theorem held_run (hlegible : Legible processes) {config : ServiceRegistryConfig}
    (hname : Proper config.serviceName.toUTF8.toList) {met : ℕ → Registry}
    (hk : processes[k]? = some (.server (some config) (some met)))
    (hunowned : ∀ node, directory.tree (servicePath config.serviceName.toUTF8.toList) = some node →
      node.owner = none)
    {s : Clients Ensemble Request Reply Outcome}
    {trace : List (Clients Ensemble Request Reply Outcome × Turn Choice Event)}
    (hrun : Run ensemble.step (start directory processes) trace s)
    (hdone : s.outcome k = some (.registered true)) {node : RegistryInfo}
    (hnode : node ∈ config.registryNodes) (haddress : Proper (serviceAddress node))
    (hmine : (k, .node (.zooCreate (instancePath config.serviceName.toUTF8.toList
        (serviceAddress node)) (serviceAddress node) true), .rc .nodeExists) ∉ s.shared.answers) :
    Held k config.serviceName.toUTF8.toList (serviceAddress node) s.shared := by
  have hentries : ∀ node ∈ config.registryNodes,
      (config.serviceName.toUTF8.toList, serviceAddress node) ∈
        (Process.server (some config) (some met)).announces :=
    fun node' hnode' ↦ List.mem_map_of_mem hnode'
  have hscript : (start directory processes).scripts[k]? =
      some (Process.server (some config) (some met)).script := by
    rw [start, List.getElem?_map, hk]
    rfl
  have hne : config.registryNodes ≠ [] := List.ne_nil_of_mem hnode
  have hregistered : ∀ ok, Outcome.registered true = .registered ok →
      AllRegistered k config.serviceName.toUTF8.toList config.registryNodes ok s.shared := by
    refine wp_clients (i := k)
      (Q := fun outcome w ↦ ∀ ok, outcome = .registered ok →
        AllRegistered k config.serviceName.toUTF8.toList config.registryNodes ok w)
      ?_ hrun (allAsk_start directory processes) hscript ?_ hdone
    · exact fun outcome w e u hother h ok heq ↦
        stable_allRegistered k config.registryNodes ok w e u hother (h ok heq)
    · rw [Process.script, wp_bind, registerServicesFromConfig]
      simp only [if_neg hne]
      refine wp_mono (fun ok w hw ok' heq ↦ ?_)
        (wp_registerNodes hlegible hk hname met 0 true hentries hunowned)
      cases heq
      exact hw.2
  rcases hregistered true rfl rfl node hnode haddress rfl with hanswer | hheld
  · exact absurd hanswer hmine
  · exact hheld

/-! ## Looking up -/

/-- The session of the server has expired, or a request of the lookup has failed. -/
def Excused (k i : ℕ) (w : Ensemble) : Prop :=
  k ∈ w.expired ∨ ∃ request, (i, request, .rc .other) ∈ w.answers

theorem excused_serve {j : ℕ} {request : Request} {c : Choice} {reply : Reply}
    (h : serve j w request c = some (reply, u)) (hw : Excused k i w) : Excused k i u := by
  rcases hw with hgone | ⟨request', hfailed⟩
  · exact .inl ((serve_cases h).1 ▸ hgone)
  · exact .inr ⟨request', answers_of_serve h _ hfailed⟩

theorem excused_other {e : Event} (h : other w e = some u) (hw : Excused k i w) :
    Excused k i u := by
  cases e with
  | expire session =>
      cases h
      rcases hw with hgone | hfailed
      · exact .inl (List.mem_cons_of_mem _ hgone)
      · exact .inr hfailed

theorem mem_children {directory : Directory} {name address : Bytes} {node : Node}
    (haddress : Proper address)
    (hnode : directory.tree (instancePath name address) = some node) :
    address ∈ directory.children (servicePath name) := by
  have hsome : directory.tree (instancePath name address) ≠ none := by simp [hnode]
  refine List.mem_map.mpr ⟨instancePath name address, ?_, childName_instancePath name haddress⟩
  refine List.mem_filter.mpr ⟨List.mem_dedup.mpr (directory.complete _ hsome), ?_⟩
  exact decide_eq_true ⟨hsome, parent_instancePath name haddress⟩

/-- A node that is held is listed. -/
theorem children_of_held {c : Choice} {reply : Reply} (haddress : Proper address)
    (hheld : Held k name address w)
    (h : serve i w (.getChildren (servicePath name)) c = some (reply, u)) :
    Excused k i u ∨ ∃ names, reply = .children names ∧ address ∈ names := by
  rcases hheld with hgone | ⟨hown, data, hservice⟩
  · exact .inl (.inl ((serve_cases h).1 ▸ hgone))
  · cases c with
    | fail performed =>
        cases h
        exact .inl (.inr ⟨_, List.mem_append_right _ (List.mem_singleton_self _)⟩)
    | answer names =>
        simp only [serve] at h
        split at h
        · cases h
        · obtain ⟨⟨reply', directory⟩, hanswer, heq⟩ := Option.map_eq_some_iff.mp h
          cases heq
          simp only [answer, hservice, if_neg (Option.some_ne_none _)] at hanswer
          split at hanswer
          · rename_i hperm
            cases hanswer
            exact .inr ⟨names, rfl, hperm.mem_iff.mpr (mem_children haddress hown)⟩
          · cases hanswer

/-- A node that is held is read whole. -/
theorem data_of_held {c : Choice} {reply : Reply} (hlength : address.length ≤ bufferLen)
    (hheld : Held k name address w)
    (h : serve i w (.get (instancePath name address)) c = some (reply, u)) :
    Excused k i u ∨ reply = .data address := by
  rcases hheld with hgone | ⟨hown, -⟩
  · exact .inl (.inl ((serve_cases h).1 ▸ hgone))
  · cases c with
    | fail performed =>
        cases h
        exact .inl (.inr ⟨_, List.mem_append_right _ (List.mem_singleton_self _)⟩)
    | answer names =>
        simp only [serve] at h
        split at h
        · cases h
        · obtain ⟨⟨reply', directory⟩, hanswer, heq⟩ := Option.map_eq_some_iff.mp h
          cases heq
          simp only [answer, hown, List.take_of_length_le hlength, Option.some.injEq,
            Prod.mk.injEq] at hanswer
          exact .inr hanswer.1.symm

/-- The addresses that a lookup is to return. -/
structure Wanted (name : Bytes) (addresses : List Bytes) : Prop where
  name : Proper name
  address : ∀ address ∈ addresses, Proper address
  ne_nil : [] ∉ addresses
  length : ∀ address ∈ addresses, address.length ≤ bufferLen

def AllHeld (k : ℕ) (name : Bytes) (addresses : List Bytes) (w : Ensemble) : Prop :=
  ∀ address ∈ addresses, Held k name address w

/-- Unless it is excused, the lookup has each address, or has it before itself. -/
def Reached (k i : ℕ) (addresses servers names : List Bytes) (w : Ensemble) : Prop :=
  Excused k i w ∨ ∀ address ∈ addresses, address ∈ servers ∨ address ∈ names

variable {addresses servers names : List Bytes}

theorem stable_allHeld (i : ℕ) :
    Stable (ensemble.around (MayAsk processes) i) (AllHeld k name addresses) :=
  stable_around
    (fun _ _ _ hother hw address haddress ↦ held_other hother (hw address haddress))
    (fun _ _ _ _ _ _ _ hserve hw address haddress ↦ held_serve hserve (hw address haddress)) i

theorem stable_reached :
    Stable (ensemble.around (MayAsk processes) i) (Reached k i addresses servers names) :=
  stable_around (fun _ _ _ hother hw ↦ hw.imp_left (excused_other hother))
    (fun _ _ _ _ _ _ _ hserve hw ↦ hw.imp_left (excused_serve hserve)) i

theorem wp_collect_held (hwanted : Wanted name addresses) (hheld : AllHeld k name addresses w)
    (hreached : Reached k i addresses servers names w) :
    wp (ensemble.around (MayAsk processes) i)
      (fun found t ↦ Reached k i addresses found [] t)
      (collect (servicePath name) servers names) w := by
  induction names generalizing servers w with
  | nil => exact hreached
  | cons child names ih =>
      intro t hwt c reply u hserve
      have hheldt := (stable_allHeld i).of_interferes hwt hheld
      have hreachedt := stable_reached.of_interferes hwt hreached
      have hheldu : AllHeld k name addresses u :=
        fun address haddress ↦ held_serve hserve (hheldt address haddress)
      have hread : Excused k i u ∨ (child ∈ addresses → reply = .data child) := by
        by_cases hchild : child ∈ addresses
        · have hpath : cStr (servicePath name ++ slash :: child) = instancePath name child := by
            rw [← cStr_eq_self (nul_instancePath hwanted.name (hwanted.address child hchild)),
              instancePath, List.append_assoc]
            rfl
          rw [hpath] at hserve
          rcases data_of_held (hwanted.length child hchild) (hheldt child hchild) hserve with
            hexcused | hdata
          · exact .inl hexcused
          · exact .inr fun _ ↦ hdata
        · exact .inr fun hmem ↦ absurd hmem hchild
      have hrest : ∀ found, (∀ server ∈ servers, server ∈ found) →
          (child ∈ addresses → reply = .data child → child ∈ found) →
          Reached k i addresses found names u := by
        intro found hservers hfound
        rcases hread with hexcused | hread
        · exact .inl hexcused
        rcases hreachedt with hexcused | hreachedt
        · exact .inl (excused_serve hserve hexcused)
        refine .inr fun address haddress ↦ ?_
        rcases hreachedt address haddress with hhave | hbefore
        · exact .inl (hservers address hhave)
        · rcases List.mem_cons.mp hbefore with rfl | hbefore
          · exact .inl (hfound haddress (hread haddress))
          · exact .inr hbefore
      cases reply with
      | rc rc => exact ih hheldu (hrest servers (fun _ h ↦ h) fun _ heq ↦ by cases heq)
      | children found => exact ih hheldu (hrest servers (fun _ h ↦ h) fun _ heq ↦ by cases heq)
      | data data =>
          show wp _ _ (if data = [] then _ else _) u
          split
          · rename_i hempty
            refine ih hheldu (hrest servers (fun _ h ↦ h) fun haddress heq ↦ ?_)
            cases heq
            exact absurd (hempty ▸ haddress) hwanted.ne_nil
          · refine ih hheldu (hrest _ (fun _ h ↦ List.mem_append_left _ h) fun _ heq ↦ ?_)
            cases heq
            exact List.mem_append_right _ (List.mem_singleton_self child)

theorem wp_getAllServers_held (hwanted : Wanted name addresses)
    (hheld : AllHeld k name addresses w) :
    wp (ensemble.around (MayAsk processes) i)
      (fun found t ↦ Reached k i addresses found [] t)
      (getAllServers true (servicePath name)) w := by
  rw [getAllServers, if_pos rfl, cStr_eq_self (nul_servicePath hwanted.name.no_nul)]
  intro t hwt c reply u hserve
  have hheldt := (stable_allHeld i).of_interferes hwt hheld
  have hheldu : AllHeld k name addresses u :=
    fun address haddress ↦ held_serve hserve (hheldt address haddress)
  have hlisted : ∀ address ∈ addresses,
      Excused k i u ∨ ∃ names, reply = .children names ∧ address ∈ names :=
    fun address haddress ↦
      children_of_held (hwanted.address address haddress) (hheldt address haddress) hserve
  by_cases hexcused : Excused k i u
  · cases reply with
    | children names => exact wp_collect_held hwanted hheldu (.inl hexcused)
    | rc rc => exact .inl hexcused
    | data data => exact .inl hexcused
  cases reply with
  | children names =>
      refine wp_collect_held hwanted hheldu (.inr fun address haddress ↦ .inr ?_)
      obtain ⟨names', heq, hmem⟩ := (hlisted address haddress).resolve_left hexcused
      cases heq
      exact hmem
  | rc rc =>
      refine .inr fun address haddress ↦ ?_
      obtain ⟨names', heq, -⟩ := (hlisted address haddress).resolve_left hexcused
      cases heq
  | data data =>
      refine .inr fun address haddress ↦ ?_
      obtain ⟨names', heq, -⟩ := (hlisted address haddress).resolve_left hexcused
      cases heq

/-- **A server that is registered is found.**  In every run of servers and clients: a server
has registered all nodes of its configuration, and its session has not expired to the end.
Then a lookup of its service that began after that, and met no failure, has returned the
address of each node whose create has not met a node that was there already, whatever other
processes have registered and whichever of their sessions have expired.  The address has
to be one part of a path, and not longer than what the lookup copies; the name of the service
has to be one part of a path as well, and no process may announce a name with a NUL. -/
theorem discovers_run (hlegible : Legible processes) {config : ServiceRegistryConfig}
    (hname : Proper config.serviceName.toUTF8.toList) {met : ℕ → Registry}
    (hk : processes[k]? = some (.server (some config) (some met)))
    (hunowned : ∀ node, directory.tree (servicePath config.serviceName.toUTF8.toList) = some node →
      node.owner = none)
    {s last : Clients Ensemble Request Reply Outcome}
    {before after : List (Clients Ensemble Request Reply Outcome × Turn Choice Event)}
    (hbefore : Run ensemble.step (start directory processes) before s)
    (hdone : s.outcome k = some (.registered true))
    (hi : processes[i]? = some (.client true (servicePath config.serviceName.toUTF8.toList)))
    (hlater : ∀ t c, (t, .serve i c) ∉ before)
    (hafter : Run ensemble.step s after last) {servers : List Bytes}
    (hfound : last.outcome i = some (.found servers)) (hlive : k ∉ last.shared.expired)
    (hcalm : ∀ request, (i, request, .rc .other) ∉ last.shared.answers) :
    ∀ node ∈ config.registryNodes, Proper (serviceAddress node) →
      (serviceAddress node).length ≤ bufferLen →
        (k, .node (.zooCreate (instancePath config.serviceName.toUTF8.toList
          (serviceAddress node)) (serviceAddress node) true), .rc .nodeExists) ∉
            s.shared.answers →
          serviceAddress node ∈ servers := by
  intro node hnode haddress hlength hmine
  have hwanted : Wanted config.serviceName.toUTF8.toList [serviceAddress node] :=
    ⟨hname, by simpa using haddress, by simpa using (serviceAddress_ne_nil node).symm,
      by simpa using hlength⟩
  have hheld : AllHeld k config.serviceName.toUTF8.toList [serviceAddress node] s.shared := by
    intro address hmem
    rw [List.mem_singleton.mp hmem]
    exact held_run hlegible hname hk hunowned hbefore hdone hnode haddress hmine
  have hasks : AllAsk (MayAsk processes) s :=
    (invariant_clients (I := fun _ ↦ True) (fun _ _ _ _ h ↦ h) (fun _ _ _ _ _ _ _ _ h ↦ h)
      hbefore (allAsk_start directory processes) trivial).1
  have hbegins : s.scripts[i]? =
      some (Process.client true (servicePath config.serviceName.toUTF8.toList)).script := by
    rw [idle_run hbefore hlater, start, List.getElem?_map, hi]
    rfl
  have hreached : ∀ found, Outcome.found servers = .found found →
      Reached k i [serviceAddress node] found [] last.shared := by
    refine wp_clients (i := i)
      (Q := fun outcome w ↦ ∀ found, outcome = .found found →
        Reached k i [serviceAddress node] found [] w) ?_ hafter hasks hbegins ?_ hfound
    · exact fun outcome w e u hother h found heq ↦ stable_reached w e u hother (h found heq)
    · rw [Process.script, wp_bind]
      refine wp_mono (fun found w hw found' heq ↦ ?_) (wp_getAllServers_held hwanted hheld)
      cases heq
      exact hw
  rcases hreached servers rfl with hexcused | hall
  · rcases hexcused with hgone | ⟨request, hfailed⟩
    · exact absurd hgone hlive
    · exact absurd hfailed (hcalm request)
  · exact (hall _ (List.mem_singleton_self _)).resolve_right List.not_mem_nil

def twoNodes : ServiceRegistryConfig where
  registryNodes := [⟨[97], 1⟩, ⟨[98], 2⟩]
  serviceName := "s"
  serviceVersion := "1"

/-- An address that cannot be one part of a path. -/
def slashed : ServiceRegistryConfig where
  registryNodes := [⟨[97, slash], 1⟩]
  serviceName := "t"
  serviceVersion := "1"

def twoServers : List Process :=
  [.server (some twoNodes) (some fun _ ↦ ⟨true, true⟩), .client true (servicePath [115]),
    .server (some slashed) (some fun _ ↦ ⟨true, true⟩)]

/-- The state in which the first server has registered both nodes, and the second one none. -/
def registered : List (Clients Ensemble Request Reply Outcome × Turn Choice Event) ×
    Clients Ensemble Request Reply Outcome :=
  executed ensemble.step (start emptyDirectory twoServers)
    (List.replicate 8 (.serve 0 (.answer [])) ++ List.replicate 4 (.serve 2 (.answer [])))

def lookedUp : List (Clients Ensemble Request Reply Outcome × Turn Choice Event) ×
    Clients Ensemble Request Reply Outcome :=
  executed ensemble.step registered.2
    [.serve 1 (.answer [[98, 58, 50], [97, 58, 49]]), .other (.expire 2), .serve 1 (.answer []),
      .serve 1 (.answer [])]

theorem discovers_run_two :
    lookedUp.2.outcome 1 = some (.found [[98, 58, 50], [97, 58, 49]]) ∧
      ∀ node ∈ twoNodes.registryNodes,
        serviceAddress node ∈ [([98, 58, 50] : Bytes), [97, 58, 49]] := by
  have hname : "s".toUTF8.toList = [115] := by decide +kernel
  have hother : "t".toUTF8.toList = [116] := by decide +kernel
  have hbefore : Run ensemble.step (start emptyDirectory twoServers) registered.1 registered.2 :=
    Run.of_isSome (by decide +kernel)
  have hafter : Run ensemble.step registered.2 lookedUp.1 lookedUp.2 :=
    Run.of_isSome (by decide +kernel)
  have hfound : lookedUp.2.outcome 1 = some (.found [[98, 58, 50], [97, 58, 49]]) := by
    decide +kernel
  have hproper : Proper twoNodes.serviceName.toUTF8.toList := by
    rw [twoNodes, hname]
    exact ⟨by decide, by decide⟩
  refine ⟨hfound, fun node hnode ↦ discovers_run ?_ hproper (rfl : twoServers[0]? = _) ?_ hbefore
    (by decide +kernel) ?_ ?_ hafter hfound (by decide +kernel) ?_ node hnode ?_ ?_ ?_⟩
  · intro p hp entry hentry
    have hentry : entry.1 = [115] ∨ entry.1 = [116] := by
      rw [← hname, ← hother]
      simp only [twoServers, List.mem_cons, List.not_mem_nil, or_false] at hp
      rcases hp with rfl | rfl | rfl
      · obtain ⟨node, -, rfl⟩ := List.mem_map.mp hentry
        exact .inl rfl
      · exact absurd hentry List.not_mem_nil
      · obtain ⟨node, -, rfl⟩ := List.mem_map.mp hentry
        exact .inr rfl
    rcases hentry with hentry | hentry <;> rw [hentry] <;> decide
  · intro node hnode
    have hnone : emptyDirectory.tree (servicePath "s".toUTF8.toList) = none := by decide +kernel
    cases hnone.symm.trans hnode
  · show some (Process.client true (servicePath [115])) = _
    rw [← hname]
    rfl
  · intro t c hmem
    have hturn := Run.mem_of_mem_executed (by decide +kernel) hmem
    simp at hturn
  · intro request hmem
    have hall : ∀ entry ∈ lookedUp.2.shared.answers, entry.1 = 1 → entry.2.2 ≠ .rc .other := by
      decide +kernel
    exact hall _ hmem rfl rfl
  · have hall : ∀ node ∈ twoNodes.registryNodes,
        slash ∉ serviceAddress node ∧ 0 ∉ serviceAddress node := by decide +kernel
    exact ⟨(hall node hnode).1, (hall node hnode).2⟩
  · have hall : ∀ node ∈ twoNodes.registryNodes, (serviceAddress node).length ≤ bufferLen := by
      decide +kernel
    exact hall node hnode
  · have hall : ∀ entry ∈ registered.2.shared.answers, entry.1 = 0 →
        entry.2.2 ≠ .rc .nodeExists := by decide +kernel
    exact fun hmem ↦ hall _ hmem rfl rfl

end MyRpc.Cluster
