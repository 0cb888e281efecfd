import MyRpc.Core.EndToEnd

/-!
# Bytes against exchanges

The system of client, server and bytes does what the exchanges of requests and
responses do.  What is under way up a connection of the client, in the kernel or
in a read buffer of the server, is nothing, the request of the last call on it, or
a part of a request with which the client has given the connection up (`Upstream`);
so each task that is made of it is the dispatch of one call, and writes to that
call's connection.
-/

namespace MyRpc.EndToEnd

open FixedWidth ZstdCompress PartialRun Connection MessageCycle
open RpcClient (Session CallArgs CallEnv Service System Exchange Quiet)
open Descriptors (Server Placing Placed Retired)

variable {z : Zstd} {heap : Heap} {v : Service} {s s' : Net} {t t' : System} {k : ℕ}

/-- The service of the calls, if call `c` is what task `place c` is for. -/
def ofTasks (v : Service) (place : ℕ → ℕ) : Service :=
  ⟨fun call ↦ v.result (place call), fun call ↦ v.sessionKey (place call)⟩

/-- The call has been made with this request. -/
def Called (trace : List (Net × Event)) (call : ℕ) (request : RpcRequest) : Prop :=
  ∃ s args env n, (s, .client (.call args env) n) ∈ trace ∧ call = s.session.calls + 1 ∧
    request = s.session.request args

/-- The client sends nothing more on the connection. -/
def Dead (s : Session) (k : ℕ) : Prop :=
  k < s.connections ∨ k = s.connections ∧ s.isConnected = false

/-- What the server has not cut off yet of the bytes of a connection. -/
inductive Upstream (z : Zstd) (heap : Heap) (s : Net) (t : System) (k : ℕ) : Bytes → Prop
  | nothing : Upstream z heap s t k []
  | whole {request : RpcRequest} {wire : Bytes} :
      t.exchange (s.latest k) = some ⟨k, request, none⟩ → Wire z heap request wire →
        Upstream z heap s t k wire
  | part {request : RpcRequest} {wire bytes : Bytes} : Dead s.session k →
      Wire z heap request wire → bytes <+: wire → bytes ≠ wire → Upstream z heap s t k bytes

/-- How many bytes of a response a task has written. -/
def Written (size : ℕ) (phase : Descriptors.TaskPhase) (m : ℕ) : Prop :=
  match phase with
  | .queued | .running => m = 0
  | .writing size' sent => size' = size ∧ sent = m
  | .done => True

/-- The connection is in the queue of the listening socket, or has no object yet. -/
def Unopened (s : Net) (k : ℕ) : Prop :=
  (∀ n, s.peer n ≠ some k) ∨ ∃ fd n, s.server.loop = .accepted fd n ∧ s.peer n = some k

/-- What is true of client and server by themselves. -/
structure Wired (s : Net) : Prop where
  inv : Descriptors.Inv s.server
  placed : Placed s.server
  peer_lt : ∀ n k, s.peer n = some k → n < s.server.sockets ∧ k ≤ s.session.connections
  peer_inj : ∀ n n' k, s.peer n = some k → s.peer n' = some k → n = n'
  length_owner : s.owner.length = s.server.tasks.length

/-- The task is the dispatch of a call. -/
structure ServedBy (z : Zstd) (v : Service) (s : Net) (t : System) (i call : ℕ)
    (task : Descriptors.Task) (place : ℕ → ℕ) : Prop where
  place_eq : place call = i
  exchange : ∃ k m, t.exchange call = some ⟨k, task.request, some m⟩ ∧
    Written (v.wire z i task.request).length task.phase m ∧
      (task.phase ≠ .done → ∀ o, s.server.objects task.object = some o → s.peer o.socket = some k)

structure Tasks (z : Zstd) (v : Service) (place : ℕ → ℕ) (s : Net) (t : System) : Prop where
  owned : ∀ (i call : ℕ) (task : Descriptors.Task), s.owner[i]? = some (some call) →
    s.server.tasks[i]? = some task → ServedBy z v s t i call task place
  foreign : ∀ (i : ℕ) (task : Descriptors.Task), s.owner[i]? = some none →
    s.server.tasks[i]? = some task → task.phase ≠ .done →
      ∀ o, s.server.objects task.object = some o → s.peer o.socket = none
  answered : ∀ call e, t.exchange call = some e → e.answered ≠ none → some call ∈ s.owner

structure Streams (z : Zstd) (heap : Heap) (s : Net) (t : System) : Prop where
  unopened : ∀ k, Unopened s k → Upstream z heap s t k (s.up k)
  opened : ∀ a o k, s.server.objects a = some o → ¬ Retired a s.server →
    s.peer o.socket = some k → Upstream z heap s t k (o.conn.readBuffer ++ s.up k)
  up_nil : ∀ k, s.session.connections < k → s.up k = []

/-- The states of the two systems after the same steps. -/
structure Refines (z : Zstd) (heap : Heap) (v : Service) (place : ℕ → ℕ)
    (trace : List (Net × Event)) (s : Net) (t : System) : Prop extends
    Tasks z v place s t, Streams z heap s t where
  session : t.session = s.session
  pipe : t.pipe = s.down
  called : ∀ call e, t.exchange call = some e → Called trace call e.request

theorem Called.append {trace after : List (Net × Event)} {call : ℕ} {request : RpcRequest}
    (h : Called trace call request) : Called (trace ++ after) call request := by
  obtain ⟨s, args, env, n, hmem, hcall, hrequest⟩ := h
  exact ⟨s, args, env, n, List.mem_append_left _ hmem, hcall, hrequest⟩

/-! ## The bytes of a connection -/

namespace Upstream

variable {bytes buffer rest : Bytes} {request : RpcRequest}

theorem mono (h : Upstream z heap s t k bytes)
    (hexchange : ∀ request, t.exchange (s.latest k) = some ⟨k, request, none⟩ →
      t'.exchange (s'.latest k) = some ⟨k, request, none⟩)
    (hdead : Dead s.session k → Dead s'.session k) : Upstream z heap s' t' k bytes := by
  cases h with
  | nothing => exact .nothing
  | whole hcall hwire => exact .whole (hexchange _ hcall) hwire
  | part hgone hwire hbytes hne => exact .part (hdead hgone) hwire hbytes hne

/-- A dispatch takes all there is, and it is the request of the last call. -/
theorem dispatches (h : Upstream z heap s t k (buffer ++ bytes)) (hz : RejectsPrefixes z)
    (hpass : framePass z heap buffer = .dispatches request rest) :
    t.exchange (s.latest k) = some ⟨k, request, none⟩ ∧ rest ++ bytes = [] := by
  generalize hall : buffer ++ bytes = all at h
  have hbegun : buffer <+: all := ⟨bytes, hall⟩
  cases h with
  | nothing =>
      have hlt := framePass_lt hpass
      rw [List.prefix_nil.mp hbegun] at hlt
      exact absurd hlt (Nat.not_lt_zero _)
  | whole hcall hwire =>
      obtain ⟨rfl, rfl, rfl⟩ := hwire.pass_dispatches hz hbegun hpass
      exact ⟨hcall, by simpa using hall⟩
  | part hgone hwire hbytes hne =>
      obtain ⟨rfl, -, -⟩ := hwire.pass_dispatches hz (hbegun.trans hbytes) hpass
      exact absurd (hbytes.eq_of_length_le hbegun.length_le) hne

/-- Between calls nothing is under way on a working connection. -/
theorem eq_nil (h : Upstream z heap s t s.session.connections bytes) (hquiet : Quiet z v t)
    (hsession : t.session = s.session) (hconnected : s.session.isConnected = true) :
    bytes = [] := by
  cases h with
  | nothing => rfl
  | whole hcall hwire =>
      have hcomplete := hquiet.2.2 _ _ hcall (by rw [hsession])
      cases hcomplete
  | part hgone hwire hbytes hne =>
      rcases hgone with hlt | ⟨-, hlost⟩
      · exact absurd hlt (lt_irrefl _)
      · rw [hconnected] at hlost
        cases hlost

end Upstream

theorem Wired.connection_eq (h : Wired s) {a : ℕ} {o : Descriptors.Object}
    (ho : s.server.objects a = some o) : s.connection a = s.peer o.socket := by
  rw [Net.connection, ho, Option.bind_some, h.inv.opened a o ho]

/-! ## The client's steps -/

theorem receive_eq {a : RpcClient.Action} (hreceive : s.receive a = some s') :
    s' = { s with down := s'.down } := by
  cases a with
  | read r =>
      cases r with
      | bytes buf =>
          simp only [Net.receive, Option.ite_none_right_eq_some, Option.some.injEq] at hreceive
          obtain ⟨-, rfl⟩ := hreceive
          rfl
      | endOfStream | again | error => cases hreceive; rfl
  | call args env | fail | extract decodes => cases hreceive; rfl

theorem arrive_of_receive {a : RpcClient.Action} (hsession : t.session = s.session)
    (hpipe : t.pipe = s.down) (hreceive : s.receive a = some s') :
    t.arrive a = some { t with pipe := s'.down } := by
  have hsame : { t with pipe := s.down } = t := by rw [← hpipe]
  cases a with
  | read r =>
      cases r with
      | bytes buf =>
          simp only [Net.receive, Option.ite_none_right_eq_some, Option.some.injEq] at hreceive
          obtain ⟨hfirst, rfl⟩ := hreceive
          simp only [System.arrive, hsession, hpipe, if_pos hfirst]
      | endOfStream | again | error =>
          cases hreceive
          rw [hsame]
          rfl
  | call args env | fail | extract decodes =>
      cases hreceive
      rw [hsame]
      rfl

theorem connect_cases {c c' : Session} {newFd : Option ℕ} (h : c.connect newFd = some c') :
    c' = c ∧ c.isConnected = true ∨ c.isConnected = false ∧ c'.connections = c.connections + 1 ∧
      c'.calls = c.calls ∧ c'.sequenceId = c.sequenceId := by
  unfold Session.connect at h
  split at h
  · rename_i hconnected
    cases h
    exact .inl ⟨rfl, hconnected⟩
  · rename_i hlost
    obtain ⟨fd, -, rfl⟩ := Option.map_eq_some_iff.mp h
    exact .inr ⟨by simpa using hlost, rfl, rfl, rfl⟩

/-- What `Call` does behind `Connect`, and what leaves the client then. -/
inductive Sending (z : Zstd) (c : Session) (args : CallArgs) (env : CallEnv) :
    Session → Bytes → Prop
  | nothing : Sending z c args env c []
  | request : c.requestWire z args env ≠ [] →
      Sending z c args env (c.sent (c.request args)) (c.requestWire z args env)
  | part {c' : Session} {bytes : Bytes} : c'.isConnected = false → c'.calls = c.calls →
      c'.connections = c.connections →
        (bytes = [] ∨ bytes <+: c.requestWire z args env ∧ bytes ≠ c.requestWire z args env) →
          Sending z c args env c' bytes

theorem sending (z : Zstd) (c : Session) (args : CallArgs) (env : CallEnv) (n : ℕ) :
    (∃ c', c.connect env.newFd = some c' ∧
        Sending z c' args env (c.call z args env) (sentBytes z c args env n)) ∨
      c.call z args env = c ∧ sentBytes z c args env n = [] := by
  unfold Session.call sentBytes Session.report Session.attempt
  cases hconnect : c.connect env.newFd with
  | none => exact .inr ⟨rfl, rfl⟩
  | some c' =>
      refine .inl ⟨c', rfl, ?_⟩
      unfold Session.send
      by_cases hpayload : args.payload.isEmpty = true
      · simp only [if_pos hpayload]
        exact .nothing
      simp only [if_neg hpayload]
      by_cases hwrite : c'.connection.canWrite (c'.requestWire z args env)
      · have hwire := hwrite.2
        rw [if_pos hwrite]
        by_cases hwritten : env.written = true
        · rw [if_pos hwritten]
          exact .request hwire
        · rw [if_neg hwritten]
          refine .part rfl rfl rfl (.inr ⟨?_, ?_⟩)
          · exact (List.take_prefix _ _).trans (List.dropLast_prefix _)
          · intro heq
            have hlength := congrArg List.length heq
            have hpos := List.length_pos_iff.mpr hwire
            rw [List.length_take, List.length_dropLast] at hlength
            omega
      · rw [if_neg hwrite]
        exact .part rfl rfl rfl (.inl (by simp))

/-- The other system's state after a step of the client. -/
def following (t : System) (s' : Net) (session : Session) : System :=
  System.advance { t with pipe := s'.down } session

theorem following_of_calls {session : Session} (h : session.calls = t.session.calls) :
    following t s' session = { t with session, pipe := s'.down } :=
  System.advance_of_calls h

/-- The client's steps leave the server as it is. -/
theorem tasks_client {place : ℕ → ℕ} (h : Tasks z v place s t) (hserver : s'.server = s.server)
    (hpeer : s'.peer = s.peer) (howner : s'.owner = s.owner)
    (hkept : ∀ call e, t.exchange call = some e → t'.exchange call = some e)
    (hnew : ∀ call e, t'.exchange call = some e → e.answered ≠ none → t.exchange call = some e) :
    Tasks z v place s' t' where
  owned i call task hi htask := by
    rw [howner] at hi
    rw [hserver] at htask
    obtain ⟨hplace, k, m, hexchange, hwritten, hobject⟩ := h.owned i call task hi htask
    refine ⟨hplace, k, m, hkept _ _ hexchange, hwritten, ?_⟩
    rw [hserver, hpeer]
    exact hobject
  foreign i task hi htask := by
    rw [howner] at hi
    rw [hserver] at htask ⊢
    rw [hpeer]
    exact h.foreign i task hi htask
  answered call e he hanswered := by
    rw [howner]
    exact h.answered call e (hnew call e he hanswered) hanswered

/-- A step of the client by which no request has got out. -/
theorem streams_client (h : Streams z heap s t) (hserver : s'.server = s.server)
    (hpeer : s'.peer = s.peer) (hup : s'.up = s.up) (hlatest : s'.latest = s.latest)
    (hexchange : t'.exchange = t.exchange)
    (hconnections : s.session.connections ≤ s'.session.connections)
    (hdead : ∀ k, Dead s.session k → Dead s'.session k) : Streams z heap s' t' where
  unopened k hk := by
    rw [hup]
    refine (h.unopened k ?_).mono (by rw [hlatest, hexchange]; exact fun _ hcall ↦ hcall) (hdead k)
    rwa [Unopened, hserver, hpeer] at hk
  opened a o k ho hretired hk := by
    rw [hserver] at ho hretired
    rw [hpeer] at hk
    rw [hup]
    refine (h.opened a o k ho hretired hk).mono ?_ (hdead k)
    rw [hlatest, hexchange]
    exact fun _ hcall ↦ hcall
  up_nil k hk := by
    rw [hup]
    exact h.up_nil k (hconnections.trans_lt hk)

/-- Bytes of a request go up a connection on which there is nothing else. -/
theorem streams_sent {k : ℕ} (bytes : Bytes) (h : Streams z heap s t) (hwired : Wired s)
    (hserver : s'.server = s.server) (hpeer : s'.peer = s.peer)
    (hup : s'.up = Function.update s.up k (s.up k ++ bytes))
    (hk : k ≤ s'.session.connections)
    (hconnections : s.session.connections ≤ s'.session.connections)
    (hempty : ∀ old, Upstream z heap s t k old → old = [] ∨ s.session.connections < k)
    (hnew : Upstream z heap s' t' k bytes)
    (hother : ∀ k' old, k' ≠ k → Upstream z heap s t k' old → Upstream z heap s' t' k' old) :
    Streams z heap s' t' where
  unopened k' hk' := by
    rw [Unopened, hserver, hpeer] at hk'
    rw [hup]
    by_cases hsame : k' = k
    · subst hsame
      have hnil : s.up k' = [] := (hempty _ (h.unopened k' hk')).elim id (h.up_nil k')
      rw [Function.update_self, hnil]
      exact hnew
    · rw [Function.update_of_ne hsame]
      exact hother k' _ hsame (h.unopened k' hk')
  opened a o k' ho hretired hk' := by
    rw [hserver] at ho hretired
    rw [hpeer] at hk'
    rw [hup]
    have hold := h.opened a o k' ho hretired hk'
    by_cases hsame : k' = k
    · subst hsame
      have hnil := (hempty _ hold).resolve_right
        (Nat.not_lt.mpr (hwired.peer_lt o.socket k' hk').2)
      obtain ⟨hbuffer, hup'⟩ := List.append_eq_nil_iff.mp hnil
      rw [Function.update_self, hbuffer, hup']
      exact hnew
    · rw [Function.update_of_ne hsame]
      exact hother k' _ hsame hold
  up_nil k' hk' := by
    rw [hup, Function.update_of_ne (hk.trans_lt hk').ne']
    exact h.up_nil k' (hconnections.trans_lt hk')

/-- Waiting for a response opens no connection and sends nothing. -/
theorem waiting_frame {c c' : Session} {a : RpcClient.Action}
    (hstep : RpcClient.step z heap c a = some c') (ha : ∀ args env, a ≠ .call args env) :
    c'.calls = c.calls ∧ c'.connections = c.connections ∧
      (c.isConnected = false → c'.isConnected = false) := by
  cases a with
  | call args env => exact absurd rfl (ha args env)
  | read r =>
      obtain ⟨-, rfl⟩ := RpcClient.step_read hstep
      rcases RpcClient.read_cases c r with ⟨phase, -, hread⟩ | ⟨connection, hread⟩ <;> rw [hread]
      · exact ⟨rfl, rfl, id⟩
      · exact ⟨rfl, rfl, fun _ ↦ rfl⟩
  | fail =>
      obtain ⟨-, rfl⟩ := RpcClient.step_fail hstep
      exact ⟨rfl, rfl, fun _ ↦ rfl⟩
  | extract decodes =>
      obtain ⟨-, hextract⟩ := RpcClient.step_extract hstep
      have hextracted := RpcClient.extracted z heap c decodes
      rw [← hextract] at hextracted
      cases hextracted with
      | givesUp rest hextract => exact ⟨rfl, rfl, fun _ ↦ rfl⟩
      | waits | throws | refuses | accepts => exact ⟨rfl, rfl, id⟩

theorem dead_mono {c c' : Session} (hconnections : c'.connections = c.connections)
    (hlost : c.isConnected = false → c'.isConnected = false) (h : Dead c k) : Dead c' k := by
  rcases h with hlt | ⟨hk, hlost'⟩
  · exact .inl (hconnections ▸ hlt)
  · exact .inr ⟨hconnections ▸ hk, hlost hlost'⟩

section Client

variable {place : ℕ → ℕ} {trace : List (Net × Event)} {n : ℕ}

theorem refines_waiting {a : RpcClient.Action} {session : Session}
    (h : Refines z heap v place trace s t) (hreceive : s.receive a = some s')
    (hstep : RpcClient.step z heap s.session a = some session)
    (ha : ∀ args env, a ≠ .call args env) :
    Refines z heap v place (trace ++ [(s, .client a n)]) (s'.transmit z session a n)
      (following t s' session) := by
  obtain ⟨hcalls, hconnections, hlost⟩ := waiting_frame hstep ha
  have htransmit : s'.transmit z session a n = { s' with session } := by
    cases a with
    | call args env => exact absurd rfl (ha args env)
    | read r | fail | extract decodes => rfl
  have hframe := receive_eq hreceive
  rw [following_of_calls (hcalls.trans (congrArg Session.calls h.session.symm)), htransmit]
  refine ⟨tasks_client h.toTasks ?_ ?_ ?_ (fun _ _ he ↦ he) (fun _ _ he _ ↦ he),
    streams_client h.toStreams ?_ ?_ ?_ ?_ rfl hconnections.ge fun _ ↦
      dead_mono hconnections hlost, rfl, rfl, fun call e he ↦ (h.called call e he).append⟩ <;>
    rw [hframe]

/-- A call by which nothing leaves the client. -/
theorem refines_unsent {args : CallArgs} {env : CallEnv} {session : Session}
    (h : Refines z heap v place trace s t) (hcalls : session.calls = s.session.calls)
    (hconnections : s.session.connections ≤ session.connections)
    (hdead : ∀ k, Dead s.session k → Dead session k)
    (hbytes : sentBytes z s.session args env n = []) :
    Refines z heap v place (trace ++ [(s, .client (.call args env) n)])
      (s.transmit z session (.call args env) n) (following t s session) := by
  have hup : (s.transmit z session (.call args env) n).up = s.up := by
    simp only [Net.transmit, hbytes, List.append_nil, Function.update_eq_self]
  have hlatest : (s.transmit z session (.call args env) n).latest = s.latest := if_pos hcalls
  rw [following_of_calls (hcalls.trans (congrArg Session.calls h.session.symm))]
  exact ⟨tasks_client h.toTasks rfl rfl rfl (fun _ _ he ↦ he) (fun _ _ he _ ↦ he),
    streams_client h.toStreams rfl rfl hup hlatest rfl hconnections hdead, rfl, rfl,
    fun call e he ↦ (h.called call e he).append⟩

/-- Where `Connect` leads to, and what there is on the connection then. -/
structure Connecting (z : Zstd) (heap : Heap) (s : Net) (t : System) (c : Session) : Prop where
  calls : c.calls = s.session.calls
  sequenceId : c.sequenceId = s.session.sequenceId
  connections : s.session.connections ≤ c.connections
  dead : ∀ k, Dead s.session k → k < c.connections
  empty : ∀ old, Upstream z heap s t c.connections old → old = [] ∨
    s.session.connections < c.connections

theorem connecting {c : Session} {newFd : Option ℕ} (hsession : t.session = s.session)
    (hquiet : s.session.isConnected = true → Quiet z v t)
    (hconnect : s.session.connect newFd = some c) : Connecting z heap s t c := by
  rcases connect_cases hconnect with
    ⟨rfl, hconnected⟩ | ⟨hlost, hconnections, hcalls, hsequenceId⟩
  · refine ⟨rfl, rfl, le_rfl, fun k hk ↦ ?_, fun old hold ↦ .inl ?_⟩
    · rcases hk with hlt | ⟨-, hlost⟩
      · exact hlt
      · rw [hconnected] at hlost
        cases hlost
    · exact hold.eq_nil (hquiet hconnected) hsession hconnected
  · refine ⟨hcalls, hsequenceId, by omega, fun k hk ↦ ?_, fun _ _ ↦ .inr (by omega)⟩
    rcases hk with hlt | ⟨hk, -⟩ <;> omega

theorem wire_of_requestWire {c : Session} {args : CallArgs} {env : CallEnv}
    (hcarried : Carried z heap (c.request args)) (hne : c.requestWire z args env ≠ []) :
    Wire z heap (c.request args) (c.requestWire z args env) := by
  refine ⟨hcarried, env.sessionKey, ?_⟩
  unfold Session.requestWire at hne ⊢
  cases hframe : frameWire z env.sessionKey (c.request args).serialize with
  | none => simp [hframe] at hne
  | some wire => rfl

theorem request_eq {c c' : Session} (args : CallArgs) (h : c'.sequenceId = c.sequenceId) :
    c'.request args = c.request args := by
  rw [Session.request, h, Session.request]

/-- A call whose `Write` fails leaves a part of its request behind. -/
theorem refines_part {args : CallArgs} {env : CallEnv} {c session : Session} {bytes : Bytes}
    (hwired : Wired s) (h : Refines z heap v place trace s t) (hc : Connecting z heap s t c)
    (hcarried : Carried z heap (c.request args)) (hlost : session.isConnected = false)
    (hcalls : session.calls = c.calls) (hconnections : session.connections = c.connections)
    (hbytes : bytes <+: c.requestWire z args env) (hne : bytes ≠ c.requestWire z args env)
    (hsent : sentBytes z s.session args env n = bytes) :
    Refines z heap v place (trace ++ [(s, .client (.call args env) n)])
      (s.transmit z session (.call args env) n) (following t s session) := by
  have hsame : session.calls = s.session.calls := hcalls.trans hc.calls
  have hlatest : (s.transmit z session (.call args env) n).latest = s.latest := if_pos hsame
  have hwire : c.requestWire z args env ≠ [] := by
    intro hnil
    rw [hnil] at hbytes hne
    exact hne (List.prefix_nil.mp hbytes)
  rw [following_of_calls (hsame.trans (congrArg Session.calls h.session.symm))]
  refine ⟨tasks_client h.toTasks rfl rfl rfl (fun _ _ he ↦ he) (fun _ _ he _ ↦ he),
    streams_sent (k := c.connections) bytes h.toStreams hwired rfl rfl ?_ ?_ ?_
      hc.empty ?_ ?_, rfl, rfl, fun call e he ↦ (h.called call e he).append⟩
  · simp only [Net.transmit, hsent, hconnections]
  · exact hconnections.ge
  · exact hconnections ▸ hc.connections
  · exact .part (.inr ⟨hconnections.symm, hlost⟩) (wire_of_requestWire hcarried hwire) hbytes hne
  · intro k' old hk' hold
    refine hold.mono ?_ fun hdead ↦ .inl (hconnections ▸ hc.dead k' hdead)
    rw [hlatest]
    exact fun _ hcall ↦ hcall

/-- A call that sends its request is followed by a new exchange. -/
theorem refines_request {args : CallArgs} {env : CallEnv} {c : Session}
    (hwired : Wired s) (h : Refines z heap v place trace s t)
    (hinv : RpcClient.Inv z heap (ofTasks v place) t) (hc : Connecting z heap s t c)
    (hcarried : Carried z heap (c.request args)) (hwire : c.requestWire z args env ≠ [])
    (hsent : sentBytes z s.session args env n = c.requestWire z args env) :
    Refines z heap v place (trace ++ [(s, .client (.call args env) n)])
      (s.transmit z (c.sent (c.request args)) (.call args env) n)
      (following t s (c.sent (c.request args))) := by
  have hnone : t.exchange (c.calls + 1) = none := by
    refine hinv.unsent _ ?_
    rw [h.session, hc.calls]
    exact Nat.lt_succ_self _
  have hexchange : (following t s (c.sent (c.request args))).exchange =
      Function.update t.exchange (c.calls + 1) (some ⟨c.connections, c.request args, none⟩) := by
    have hnew : (c.sent (c.request args)).calls ≠ t.session.calls := by
      rw [h.session, ← hc.calls]
      exact Nat.succ_ne_self _
    have hlast : (c.asked ++ [c.request args]).getLast? = some (c.request args) :=
      List.getLast?_concat
    rw [following, System.advance, if_neg hnew]
    simp [Session.sent, hlast]
  have hsession : (following t s (c.sent (c.request args))).session = c.sent (c.request args) := by
    unfold following System.advance
    split <;> rfl
  have hpipe : (following t s (c.sent (c.request args))).pipe = s.down := by
    unfold following System.advance
    split <;> rfl
  have hlatest : (s.transmit z (c.sent (c.request args)) (.call args env) n).latest =
      Function.update s.latest c.connections (c.calls + 1) := by
    refine if_neg ?_
    rw [← hc.calls]
    exact Nat.succ_ne_self _
  have hkept : ∀ call e, t.exchange call = some e →
      (following t s (c.sent (c.request args))).exchange call = some e := by
    intro call e he
    have hne : call ≠ c.calls + 1 := by
      rintro rfl
      rw [hnone] at he
      cases he
    rw [hexchange, Function.update_of_ne hne, he]
  refine ⟨tasks_client h.toTasks rfl rfl rfl hkept ?_,
    streams_sent (k := c.connections) (c.requestWire z args env) h.toStreams hwired rfl rfl
      ?_ le_rfl hc.connections hc.empty ?_ ?_, hsession, hpipe, ?_⟩
  · intro call e he hanswered
    rw [hexchange] at he
    rcases RpcClient.update_eq_some he with ⟨-, rfl⟩ | ⟨-, hold⟩
    · exact absurd rfl hanswered
    · exact hold
  · simp only [Net.transmit, hsent]
    rfl
  · refine .whole ?_ (wire_of_requestWire hcarried hwire)
    rw [hlatest, Function.update_self, hexchange, Function.update_self]
  · intro k' old hk' hold
    refine hold.mono (fun request hcall ↦ ?_) fun hdead ↦ .inl (hc.dead k' hdead)
    rw [hlatest, Function.update_of_ne hk']
    exact hkept _ _ hcall
  · intro call e he
    rw [hexchange] at he
    rcases RpcClient.update_eq_some he with ⟨rfl, rfl⟩ | ⟨-, hold⟩
    · exact ⟨s, args, env, n, by simp, by rw [hc.calls], request_eq args hc.sequenceId⟩
    · exact (h.called call e hold).append

theorem refines_call {args : CallArgs} {env : CallEnv} (hwired : Wired s)
    (h : Refines z heap v place trace s t) (hinv : RpcClient.Inv z heap (ofTasks v place) t)
    (hcarried : Carried z heap (s.session.request args)) (hphase : s.session.phase = .idle) :
    Refines z heap v place (trace ++ [(s, .client (.call args env) n)])
      (s.transmit z (s.session.call z args env) (.call args env) n)
      (following t s (s.session.call z args env)) := by
  rcases sending z s.session args env n with
    ⟨c, hconnect, hsending⟩ | ⟨hcall, hbytes⟩
  · have hquiet : s.session.isConnected = true → Quiet z (ofTasks v place) t := by
      rw [← h.session] at hphase ⊢
      exact hinv.quiet hphase
    have hc : Connecting z heap s t c := connecting h.session hquiet hconnect
    rw [← request_eq args hc.sequenceId] at hcarried
    generalize hsession : s.session.call z args env = session at hsending
    generalize hsent : sentBytes z s.session args env n = bytes at hsending
    cases hsending with
    | nothing =>
        exact refines_unsent h hc.calls hc.connections (fun k hk ↦ .inl (hc.dead k hk)) hsent
    | request hwire => exact refines_request hwired h hinv hc hcarried hwire hsent
    | part hlost hcalls hconnections hbytes =>
        rcases hbytes with rfl | ⟨hbytes, hne⟩
        · exact refines_unsent h (hcalls.trans hc.calls) (hconnections ▸ hc.connections)
            (fun k hk ↦ .inl (hconnections ▸ hc.dead k hk)) hsent
        · exact refines_part hwired h hc hcarried hlost hcalls hconnections hbytes hne hsent
  · rw [hcall]
    exact refines_unsent h rfl le_rfl (fun _ hk ↦ hk) hbytes

/-- Each step of the client is one of the other system's. -/
theorem refines_client {a : RpcClient.Action} (hwired : Wired s)
    (h : Refines z heap v place trace s t) (hinv : RpcClient.Inv z heap (ofTasks v place) t)
    (hcarried : ∀ args env, a = .call args env → Carried z heap (s.session.request args))
    (hstep : s.step z heap v (.client a n) = some s') :
    ∃ t', t.step z heap (ofTasks v place) (.client a) = some t' ∧
      Refines z heap v place (trace ++ [(s, .client a n)]) s' t' := by
  simp only [Net.step, Option.bind_eq_some_iff, Option.map_eq_some_iff] at hstep
  obtain ⟨u, hreceive, session, hclient, rfl⟩ := hstep
  have hsession : RpcClient.step z heap t.session a = some session := h.session ▸ hclient
  refine ⟨following t u session, ?_, ?_⟩
  · simp only [System.step, arrive_of_receive h.session h.pipe hreceive, Option.bind_some,
      hsession, Option.map_some]
    rfl
  · cases a with
    | call args env =>
        obtain ⟨hphase, rfl⟩ := RpcClient.step_call hclient
        cases hreceive
        exact refines_call hwired h hinv (hcarried args env rfl) hphase
    | read r | fail | extract decodes =>
        exact refines_waiting h hreceive hclient (by simp)

end Client

end MyRpc.EndToEnd
