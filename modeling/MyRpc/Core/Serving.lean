import MyRpc.Core.Refinement
import MyRpc.Library.Simulation

/-!
# The server's steps

A task is made when a request is cut off from a stream, and that is the dispatch of
the last call on the connection.  What a worker writes for the task is written for
that call.  All other steps of the server change nothing for the client.
-/

namespace MyRpc.EndToEnd

open FixedWidth ZstdCompress PartialRun Connection MessageCycle
open RpcClient (Session Service System Exchange)
open Descriptors (Server Placing Placed Retired Tasked Moves writtenBy)

variable {z : Zstd} {heap : Heap} {v : Service} {s s' u : Net} {t t' : System} {server : Server}
  {act : Descriptors.Action}

/-! ## Client and server by themselves -/

theorem connections_le {c c' : Session} {a : RpcClient.Action}
    (hstep : RpcClient.step z heap c a = some c') : c.connections ≤ c'.connections := by
  by_cases ha : ∀ args env, a ≠ .call args env
  · exact (waiting_frame hstep ha).2.1.ge
  push Not at ha
  obtain ⟨args, env, rfl⟩ := ha
  obtain ⟨-, rfl⟩ := RpcClient.step_call hstep
  rcases sending z c args env 0 with
    ⟨c', hconnect, hsending⟩ | ⟨hcall, -⟩
  · have hle : c.connections ≤ c'.connections := by
      rcases connect_cases hconnect with ⟨rfl, -⟩ | ⟨-, hconnections, -⟩ <;> omega
    generalize hsession : c.call z args env = session at hsending
    generalize sentBytes z c args env 0 = bytes at hsending
    cases hsending with
    | nothing => exact hle
    | request hwire => exact hle
    | part hlost hcalls hconnections => exact hconnections ▸ hle
  · rw [hcall]

theorem transmit_frame (session : Session) (a : RpcClient.Action) (n : ℕ) :
    (s.transmit z session a n).session = session ∧ (s.transmit z session a n).server = s.server ∧
      (s.transmit z session a n).peer = s.peer ∧ (s.transmit z session a n).owner = s.owner := by
  cases a <;> exact ⟨rfl, rfl, rfl, rfl⟩

theorem transfer_eq (htransfer : s.transfer z v act = some u) :
    u = { s with up := u.up, down := u.down } ∧ ∀ fd, act ≠ .accept fd := by
  cases act with
  | accept fd => cases htransfer
  | read r =>
      cases r with
      | bytes buf =>
          simp only [Net.transfer] at htransfer
          refine ⟨?_, by simp⟩
          (repeat' split at htransfer) <;> cases htransfer <;> rfl
      | endOfStream | again | error => cases htransfer; exact ⟨rfl, by simp⟩
  | write i r =>
      cases r with
      | wrote n =>
          simp only [Net.transfer] at htransfer
          refine ⟨?_, by simp⟩
          (repeat' split at htransfer) <;> cases htransfer <;> rfl
      | again | error => cases htransfer; exact ⟨rfl, by simp⟩
  | respond i size =>
      simp only [Net.transfer] at htransfer
      refine ⟨?_, by simp⟩
      (repeat' split at htransfer) <;> cases htransfer
      rfl
  | _ => cases htransfer; exact ⟨rfl, by simp⟩

theorem record_frame (s : Net) (server : Server) :
    (s.record server).session = s.session ∧ (s.record server).server = server ∧
      (s.record server).up = s.up ∧ (s.record server).down = s.down ∧
        (s.record server).peer = s.peer ∧ (s.record server).latest = s.latest := by
  unfold Net.record
  split <;> exact ⟨rfl, rfl, rfl, rfl, rfl, rfl⟩

theorem length_owner_record (htasked : Tasked z heap s.server act server)
    (h : s.owner.length = s.server.tasks.length) :
    (s.record server).owner.length = server.tasks.length := by
  unfold Net.record
  cases htasked with
  | keeps htasks => rw [if_pos (by rw [htasks]), htasks, h]
  | moves i task phase htask htasks => rw [if_pos (by simp [htasks]), htasks, List.length_set, h]
  | cuts fd a o request rest hact hloop ho hpass htasks hobjects =>
      rw [if_neg (by simp [htasks]), htasks]
      simp [h]

theorem wired_client {a : RpcClient.Action} {n : ℕ} (h : Wired s)
    (hstep : s.step z heap v (.client a n) = some s') : Wired s' := by
  simp only [Net.step, Option.bind_eq_some_iff, Option.map_eq_some_iff] at hstep
  obtain ⟨u, hreceive, session, hclient, rfl⟩ := hstep
  obtain ⟨hsession, hserver, hpeer, howner⟩ := transmit_frame (z := z) (s := u) session a n
  have hframe := receive_eq hreceive
  have hle := connections_le hclient
  refine ⟨?_, ?_, fun m k hk ↦ ?_, fun m m' k hk hk' ↦ ?_, ?_⟩
  · rw [hserver, hframe]
    exact h.inv
  · rw [hserver, hframe]
    exact h.placed
  · rw [hpeer, hframe] at hk
    rw [hserver, hsession, hframe]
    exact ⟨(h.peer_lt m k hk).1, (h.peer_lt m k hk).2.trans hle⟩
  · rw [hpeer, hframe] at hk hk'
    exact h.peer_inj m m' k hk hk'
  · rw [howner, hserver, hframe]
    exact h.length_owner

theorem wired_accept {fd : ℤ} {c : Option ℕ} (h : Wired s)
    (hstep : s.step z heap v (.accept fd c) = some s') : Wired s' := by
  simp only [Net.step, Option.ite_none_right_eq_some, Option.map_eq_some_iff] at hstep
  obtain ⟨hwaits, server, haccept, rfl⟩ := hstep
  have hsockets : server.sockets = s.server.sockets + 1 ∧ server.tasks = s.server.tasks := by
    simp only [Descriptors.step, Option.ite_none_right_eq_some, Option.some.injEq] at haccept
    obtain ⟨-, rfl⟩ := haccept
    exact ⟨rfl, rfl⟩
  have hcases : ∀ n k, Function.update s.peer s.server.sockets c n = some k →
      n = s.server.sockets ∧ s.Waits k ∨ n < s.server.sockets ∧ s.peer n = some k := by
    intro n k hk
    by_cases hn : n = s.server.sockets
    · rw [hn, Function.update_self] at hk
      exact .inl ⟨hn, hwaits k hk⟩
    · rw [Function.update_of_ne hn] at hk
      exact .inr ⟨(h.peer_lt n k hk).1, hk⟩
  refine ⟨Descriptors.inv_step h.inv haccept,
    Descriptors.placed_step h.inv h.placed (Descriptors.placing haccept), fun n k hk ↦ ?_,
    fun n n' k hk hk' ↦ ?_, ?_⟩
  · rw [hsockets.1]
    rcases hcases n k hk with ⟨rfl, hfree⟩ | ⟨hlt, hold⟩
    · exact ⟨Nat.lt_succ_self _, hfree.1⟩
    · exact ⟨hlt.trans (Nat.lt_succ_self _), (h.peer_lt n k hold).2⟩
  · rcases hcases n k hk with ⟨rfl, hfree⟩ | ⟨hlt, hold⟩ <;>
      rcases hcases n' k hk' with ⟨rfl, hfree'⟩ | ⟨hlt', hold'⟩
    · rfl
    · exact absurd hold' (hfree.2 n' hlt')
    · exact absurd hold (hfree'.2 n hlt)
    · exact h.peer_inj n n' k hold hold'
  · rw [hsockets.2]
    exact h.length_owner

theorem wired_server (h : Wired s) (hstep : s.step z heap v (.server act) = some s') :
    Wired s' := by
  simp only [Net.step, Option.bind_eq_some_iff, Option.map_eq_some_iff] at hstep
  obtain ⟨u, htransfer, server, hserver, rfl⟩ := hstep
  obtain ⟨hframe, -⟩ := transfer_eq htransfer
  obtain ⟨hsession, hserver', -, -, hpeer, -⟩ := record_frame u server
  refine ⟨?_, ?_, fun n k hk ↦ ?_, fun n n' k hk hk' ↦ ?_, ?_⟩
  · rw [hserver']
    exact Descriptors.inv_step h.inv hserver
  · rw [hserver']
    exact Descriptors.placed_step h.inv h.placed (Descriptors.placing hserver)
  · rw [hpeer, hframe] at hk
    rw [hserver', hsession, hframe]
    have hle := Descriptors.sockets_le (Descriptors.placing hserver)
    exact ⟨(h.peer_lt n k hk).1.trans_le hle, (h.peer_lt n k hk).2⟩
  · rw [hpeer, hframe] at hk hk'
    exact h.peer_inj n n' k hk hk'
  · rw [hserver']
    apply length_owner_record
    · rw [hframe]
      exact Descriptors.tasked hserver
    · rw [hframe]
      exact h.length_owner

theorem wired_step {e : Event} (h : Wired s) (hstep : s.step z heap v e = some s') : Wired s' := by
  cases e with
  | client a n => exact wired_client h hstep
  | accept fd c => exact wired_accept h hstep
  | server act => exact wired_server h hstep

theorem wired_start (fd : ℕ) (table : ℤ → Option Descriptors.File) : Wired (.start fd table) where
  inv := Descriptors.inv_start table
  placed := Descriptors.placed_start table
  peer_lt _ _ h := by cases h
  peer_inj _ _ _ h := by cases h
  length_owner := rfl

/-! ## The streams under the server's steps -/

/-- The server may take from a stream and give the rest of it a new buffer. -/
theorem streams_server (h : Streams z heap s t)
    (hstep : Descriptors.step z heap s.server act = some server) (hact : ∀ fd, act ≠ .accept fd)
    (hserver : s'.server = server) (hpeer : s'.peer = s.peer)
    (hunopened : ∀ k, Unopened s k → Upstream z heap s t k (s.up k) →
      Upstream z heap s' t' k (s'.up k))
    (hopened : ∀ a o o' k, s.server.objects a = some o → server.objects a = some o' →
      ¬ Retired a s.server → ¬ Retired a server → s.peer o.socket = some k →
        Upstream z heap s t k (o.conn.readBuffer ++ s.up k) →
          Upstream z heap s' t' k (o'.conn.readBuffer ++ s'.up k))
    (hup : ∀ k, s'.session.connections < k → s'.up k = []) : Streams z heap s' t' := by
  have hplacing := Descriptors.placing hstep
  have hretired : ∀ a, ¬ Retired a server → ¬ Retired a s.server := fun a ↦
    mt fun hold ↦ Descriptors.retired_step hold hplacing (Descriptors.made_step hstep)
  refine ⟨fun k hk ↦ ?_, fun a o' k ho' hnew hk ↦ ?_, hup⟩
  · have hbefore : Unopened s k := by
      rw [Unopened, hserver, hpeer] at hk
      apply hk.imp_right
      rintro ⟨fd, n, hloop, hn⟩
      refine ⟨fd, n, ?_, hn⟩
      cases hplacing with
      | accepts fd' haccept => exact absurd haccept (hact fd')
      | creates fd' n' haccepted hregister => rw [hregister] at hloop; cases hloop
      | keeps hsockets hmade hmoves =>
          rcases hmoves with heq | hidle | hstopped | ⟨fd', a, hread, -⟩ | ⟨fd', a, -, hextract⟩
          · exact heq.symm.trans hloop
          all_goals simp_all
    exact hunopened k hbefore (h.unopened k hbefore)
  · rw [hserver] at ho' hnew
    rw [hpeer] at hk
    have hold := hretired a hnew
    have hkept : ∀ o, s.server.objects a = some o → o'.socket = o.socket →
        Upstream z heap s' t' k (o'.conn.readBuffer ++ s'.up k) := by
      intro o ho hsocket
      rw [hsocket] at hk
      exact hopened a o o' k ho ho' hold hnew hk (h.opened a o k ho hold hk)
    cases hplacing with
    | accepts fd haccept => exact absurd haccept (hact fd)
    | keeps hsockets hmade hmoves hconnections hobjects =>
        obtain ⟨o, ho, hsocket, -⟩ := hobjects a o' ho'
        exact hkept o ho hsocket
    | creates fd n haccepted hregister hsockets hmade hobjects hconnections =>
        rw [hobjects] at ho'
        by_cases ha : a = s.server.made
        · subst ha
          rw [Function.update_self, Option.some.injEq] at ho'
          subst ho'
          have hbefore : Unopened s k := .inr ⟨fd, n, haccepted, hk⟩
          exact hunopened k hbefore (h.unopened k hbefore)
        · rw [Function.update_of_ne ha] at ho'
          exact hkept o' ho' rfl

/-- Steps by which nothing comes into a read buffer, and nothing is cut off. -/
theorem streams_still (h : Streams z heap s t) (hwired : Wired s)
    (hstep : Descriptors.step z heap s.server act = some server) (hact : ∀ fd, act ≠ .accept fd)
    (hserver : s'.server = server) (hpeer : s'.peer = s.peer) (hup : s'.up = s.up)
    (hlatest : s'.latest = s.latest) (hsession : s'.session = s.session)
    (hcut : act ≠ .extract ∨ server.tasks = s.server.tasks)
    (htaken : ∀ a, Descriptors.takenBy a s.server act = [])
    (hkept : ∀ call k request, t.exchange call = some ⟨k, request, none⟩ →
      t'.exchange call = some ⟨k, request, none⟩) : Streams z heap s' t' := by
  have hmono : ∀ k bytes, Upstream z heap s t k bytes → Upstream z heap s' t' k bytes := by
    intro k bytes hbytes
    refine hbytes.mono (fun request hcall ↦ ?_) (by rw [hsession]; exact id)
    rw [hlatest]
    exact hkept _ _ _ hcall
  refine streams_server h hstep hact hserver hpeer (fun k _ hk ↦ ?_) ?_ ?_
  · rw [hup]
    exact hmono k _ hk
  · intro a o o' k ho ho' _ _ _ hk
    rw [Descriptors.readBuffer_step hwired.inv (Descriptors.effect hstep) ho ho' hcut, htaken,
      List.append_nil, hup]
    exact hmono k _ hk
  · rw [hup, hsession]
    exact h.up_nil

/-- A `read(2)` moves bytes from the connection into the read buffer. -/
theorem streams_read {a : ℕ} {fd : ℤ} {buf : Bytes} {k : ℕ} (h : Streams z heap s t)
    (hwired : Wired s) (hstep : Descriptors.step z heap s.server (.read (.bytes buf)) = some server)
    (hloop : s.server.loop = .reading fd a) (hconnection : s.connection a = some k)
    (hfirst : buf <+: s.up k) (hserver : s'.server = server) (hpeer : s'.peer = s.peer)
    (hup : s'.up = Function.update s.up k ((s.up k).drop buf.length))
    (hlatest : s'.latest = s.latest) (hsession : s'.session = s.session) :
    Streams z heap s' t := by
  obtain ⟨o, ho⟩ := hwired.inv.held a (by rw [hloop]; rfl)
  have hsocket : s.peer o.socket = some k := (hwired.connection_eq ho).symm.trans hconnection
  have hmono : ∀ k bytes, Upstream z heap s t k bytes → Upstream z heap s' t k bytes := by
    intro k bytes hbytes
    refine hbytes.mono ?_ (by rw [hsession]; exact id)
    rw [hlatest]
    exact fun _ hcall ↦ hcall
  refine streams_server h hstep (by simp) hserver hpeer (fun k' hk' hold ↦ ?_) ?_ fun k' hk' ↦ ?_
  · have hne : k' ≠ k := by
      rintro rfl
      rcases hk' with hnever | ⟨fd', n, haccepted, -⟩
      · exact hnever _ hsocket
      · rw [hloop] at haccepted
        cases haccepted
    rw [hup, Function.update_of_ne hne]
    exact hmono k' _ hold
  · intro b p p' k' hp hp' _ hnew hk' hold
    have hbuffer := Descriptors.readBuffer_step hwired.inv (Descriptors.effect hstep) hp hp'
      (.inl (by simp))
    rw [hup, hbuffer]
    by_cases hb : b = a
    · subst hb
      obtain rfl : o = p := Option.some.inj (ho.symm.trans hp)
      obtain rfl : k = k' := Option.some.inj (hsocket.symm.trans hk')
      obtain ⟨rest, hrest⟩ := hfirst
      rcases Descriptors.taken_or_givesUp buf hloop ho with htaken | hgives
      · rw [htaken, Function.update_self, List.append_assoc, ← hrest, List.drop_left, hrest]
        exact hmono k _ hold
      · exact absurd (Descriptors.retired_of_givesUp hwired.inv hwired.placed hstep hgives) hnew
    · have hne : k' ≠ k := by
        rintro rfl
        exact hb (hwired.placed.distinct b a p o hp ho (hwired.peer_inj _ _ _ hk' hsocket))
      have htaken : Descriptors.takenBy b s.server (.read (.bytes buf)) = [] := by
        simp [Descriptors.takenBy, hloop, hp, Ne.symm hb]
      rw [htaken, List.append_nil, Function.update_of_ne hne]
      exact hmono k' _ hold
  · rw [hup]
    rw [hsession] at hk'
    have hne : k' ≠ k := ((hwired.peer_lt _ _ hsocket).2.trans_lt hk').ne'
    rw [Function.update_of_ne hne]
    exact h.up_nil k' hk'

/-- A request that is cut off takes the whole stream with it. -/
theorem streams_cut {a : ℕ} {o : Descriptors.Object} {fd : ℤ} {request : RpcRequest} {rest : Bytes}
    (hz : RejectsPrefixes z) (h : Streams z heap s t) (hwired : Wired s)
    (hstep : Descriptors.step z heap s.server .extract = some server)
    (hloop : s.server.loop = .extracting fd a) (ho : s.server.objects a = some o)
    (hpass : framePass z heap o.conn.readBuffer = .dispatches request rest)
    (hobjects : server.objects = Function.update s.server.objects a
      (some { o with conn := { o.conn with readBuffer := rest } }))
    (hserver : s'.server = server) (hpeer : s'.peer = s.peer) (hup : s'.up = s.up)
    (hlatest : s'.latest = s.latest) (hsession : s'.session = s.session)
    (hother : ∀ k request', s.connection a ≠ some k →
      t.exchange (s.latest k) = some ⟨k, request', none⟩ →
        t'.exchange (s.latest k) = some ⟨k, request', none⟩) : Streams z heap s' t' := by
  have hconnection := hwired.connection_eq ho
  have hmono : ∀ k bytes, s.connection a ≠ some k → Upstream z heap s t k bytes →
      Upstream z heap s' t' k bytes := by
    intro k bytes hk hbytes
    refine hbytes.mono (fun request' hcall ↦ ?_) (by rw [hsession]; exact id)
    rw [hlatest]
    exact hother k request' hk hcall
  refine streams_server h hstep (by simp) hserver hpeer (fun k hk hold ↦ ?_) ?_ fun k hk ↦ ?_
  · rw [hup]
    refine hmono k _ (fun hsame ↦ ?_) hold
    rw [hconnection] at hsame
    rcases hk with hnever | ⟨fd', n, haccepted, -⟩
    · exact hnever _ hsame
    · rw [hloop] at haccepted
      cases haccepted
  · intro b p p' k hp hp' _ _ hk hold
    rw [hup]
    rw [hobjects] at hp'
    by_cases hb : b = a
    · subst hb
      rw [Function.update_self, Option.some.injEq] at hp'
      subst hp'
      obtain rfl : o = p := Option.some.inj (ho.symm.trans hp)
      rw [(hold.dispatches hz hpass).2]
      exact .nothing
    · rw [Function.update_of_ne hb, hp, Option.some.injEq] at hp'
      subst hp'
      refine hmono k _ (fun hsame ↦ ?_) hold
      rw [hconnection] at hsame
      exact hb (hwired.placed.distinct b a p o hp ho (hwired.peer_inj _ _ _ hk hsame))
  · rw [hup]
    rw [hsession] at hk
    exact h.up_nil k hk

/-! ## The tasks under the server's steps -/

section Tasks

variable {place : ℕ → ℕ}

theorem written_step {i size m : ℕ} {old new : Descriptors.TaskPhase} (hmoves : Moves i old new act)
    (hsize : ∀ size', act = .respond i size' → size' = size) (h : Written size old m) :
    Written size new (m + act.wrote) := by
  cases act with
  | begin j =>
      obtain ⟨rfl, rfl, rfl⟩ := hmoves
      exact h
  | respond j size' =>
      obtain ⟨rfl, rfl, rfl | rfl⟩ := hmoves
      · exact ⟨hsize size' rfl, h.symm⟩
      · exact True.intro
  | write j r =>
      obtain ⟨rfl, size', sent, rfl, rfl | rfl⟩ := hmoves
      · exact ⟨h.1, congrArg (· + writtenBy r) h.2⟩
      · exact True.intro
  | finish j =>
      obtain ⟨rfl, rfl⟩ := hmoves
      exact True.intro
  | _ => exact hmoves.elim

/-- A finished task stays finished. -/
theorem not_done_of_moves {i : ℕ} {old new : Descriptors.TaskPhase} (hmoves : Moves i old new act)
    (hnew : new ≠ .done) : old ≠ .done := by
  rintro rfl
  cases act with
  | finish j => exact hnew hmoves.2
  | begin j | respond j size => cases hmoves.2.1
  | write j r =>
      obtain ⟨-, size, sent, hold, -⟩ := hmoves
      cases hold
  | _ => exact hmoves.elim

/-- The object of an unfinished task belongs to the same connection as before. -/
theorem peer_of_task (hwired : Wired s) (hplacing : Placing s.server act server)
    {task : Descriptors.Task} (hmem : task ∈ s.server.tasks) (hopen : task.phase ≠ .done)
    {o' : Descriptors.Object} (ho' : server.objects task.object = some o') :
    ∃ o, s.server.objects task.object = some o ∧ o'.socket = o.socket := by
  obtain ⟨o, ho, -⟩ := hwired.inv.task task hmem hopen
  exact ⟨o, ho, Descriptors.socket_step hwired.inv hplacing ho ho'⟩

/-- Tasks and exchanges stay as they are. -/
theorem tasks_still (h : Tasks z v place s t) (hwired : Wired s)
    (hplacing : Placing s.server act server) (htasks : server.tasks = s.server.tasks)
    (hserver : s'.server = server) (howner : s'.owner = s.owner)
    (hpeer : ∀ a o, s.server.objects a = some o → s'.peer o.socket = s.peer o.socket) :
    Tasks z v place s' t where
  owned i call task hi htask := by
    rw [howner] at hi
    rw [hserver, htasks] at htask
    obtain ⟨hplace, k, m, hexchange, hwritten, hobject⟩ := h.owned i call task hi htask
    refine ⟨hplace, k, m, hexchange, hwritten, fun hopen o' ho' ↦ ?_⟩
    rw [hserver] at ho'
    obtain ⟨o, ho, hsocket⟩ := peer_of_task hwired hplacing (List.mem_of_getElem? htask) hopen ho'
    rw [hsocket, hpeer _ o ho]
    exact hobject hopen o ho
  foreign i task hi htask hopen o' ho' := by
    rw [howner] at hi
    rw [hserver, htasks] at htask
    rw [hserver] at ho'
    obtain ⟨o, ho, hsocket⟩ := peer_of_task hwired hplacing (List.mem_of_getElem? htask) hopen ho'
    rw [hsocket, hpeer _ o ho]
    exact h.foreign i task hi htask hopen o ho
  answered call e he hanswered := by
    rw [howner]
    exact h.answered call e he hanswered

/-- A task moves on, and the exchange it is for moves on with it. -/
theorem tasks_moves {i : ℕ} {task : Descriptors.Task} {phase : Descriptors.TaskPhase}
    (h : Tasks z v place s t) (hwired : Wired s) (hplacing : Placing s.server act server)
    (htask : s.server.tasks[i]? = some task)
    (htasks : server.tasks = s.server.tasks.set i { task with phase })
    (hmoves : Moves i task.phase phase act)
    (hsize : ∀ size, act = .respond i size → size = (v.wire z i task.request).length)
    (hserver : s'.server = server) (howner : s'.owner = s.owner) (hpeer : s'.peer = s.peer)
    (hown : ∀ call k m, s.owner[i]? = some (some call) →
      t.exchange call = some ⟨k, task.request, some m⟩ →
        t'.exchange call = some ⟨k, task.request, some (m + act.wrote)⟩)
    (hother : ∀ call, s.owner[i]? ≠ some (some call) → t'.exchange call = t.exchange call) :
    Tasks z v place s' t' where
  owned j call task' hj htask' := by
    rw [howner] at hj
    rw [hserver, htasks] at htask'
    by_cases hij : i = j
    · subst hij
      have hlt : i < s.server.tasks.length := (List.getElem?_eq_some_iff.mp htask).1
      rw [List.getElem?_set_self hlt, Option.some.injEq] at htask'
      subst htask'
      obtain ⟨hplace, k, m, hexchange, hwritten, hobject⟩ := h.owned i call task hj htask
      refine ⟨hplace, k, _, hown call k m hj hexchange, written_step hmoves hsize hwritten, ?_⟩
      intro hopen o' ho'
      rw [hserver] at ho'
      have hbefore := not_done_of_moves hmoves hopen
      obtain ⟨o, ho, hsocket⟩ :=
        peer_of_task hwired hplacing (List.mem_of_getElem? htask) hbefore ho'
      rw [hsocket, hpeer]
      exact hobject hbefore o ho
    · rw [List.getElem?_set_ne hij] at htask'
      obtain ⟨hplace, k, m, hexchange, hwritten, hobject⟩ := h.owned j call task' hj htask'
      have hne : s.owner[i]? ≠ some (some call) := by
        intro hi
        exact hij ((h.owned i call task hi htask).place_eq.symm.trans hplace)
      refine ⟨hplace, k, m, (hother call hne).trans hexchange, hwritten, fun hopen o' ho' ↦ ?_⟩
      rw [hserver] at ho'
      obtain ⟨o, ho, hsocket⟩ :=
        peer_of_task hwired hplacing (List.mem_of_getElem? htask') hopen ho'
      rw [hsocket, hpeer]
      exact hobject hopen o ho
  foreign j task' hj htask' hopen o' ho' := by
    rw [howner] at hj
    rw [hserver, htasks] at htask'
    rw [hserver] at ho'
    have hbefore : ∃ old, s.server.tasks[j]? = some old ∧ old.object = task'.object ∧
        old.phase ≠ .done := by
      by_cases hij : i = j
      · subst hij
        have hlt : i < s.server.tasks.length := (List.getElem?_eq_some_iff.mp htask).1
        rw [List.getElem?_set_self hlt, Option.some.injEq] at htask'
        subst htask'
        exact ⟨task, htask, rfl, not_done_of_moves hmoves hopen⟩
      · rw [List.getElem?_set_ne hij] at htask'
        exact ⟨task', htask', rfl, hopen⟩
    obtain ⟨old, hold, hobject, hphase⟩ := hbefore
    rw [← hobject] at ho'
    obtain ⟨o, ho, hsocket⟩ := peer_of_task hwired hplacing (List.mem_of_getElem? hold) hphase ho'
    rw [hsocket, hpeer]
    exact h.foreign j old hj hold hphase o ho
  answered call e he hanswered := by
    rw [howner]
    by_cases hi : s.owner[i]? = some (some call)
    · exact List.mem_of_getElem? hi
    · rw [hother call hi] at he
      exact h.answered call e he hanswered

/-- A request is cut off: the new task is the dispatch of its call, or it came
from another client. -/
theorem tasks_cut {a : ℕ} {o : Descriptors.Object} {request : RpcRequest} {label : Option ℕ}
    (h : Tasks z v place s t) (hwired : Wired s) (hplacing : Placing s.server act server)
    (ho : s.server.objects a = some o)
    (htasks : server.tasks = s.server.tasks ++ [⟨a, request, o.heard, .queued⟩])
    (hserver : s'.server = server) (howner : s'.owner = s.owner ++ [label])
    (hpeer : s'.peer = s.peer)
    (hown : ∀ call, label = some call → place call = s.server.tasks.length ∧
      ∃ k, s.peer o.socket = some k ∧ t.exchange call = some ⟨k, request, none⟩ ∧
        t'.exchange call = some ⟨k, request, some 0⟩)
    (hforeign : label = none → s.peer o.socket = none)
    (hother : ∀ call, label ≠ some call → t'.exchange call = t.exchange call) :
    Tasks z v place s' t' := by
  have howner_cases : ∀ (i : ℕ) (entry : Option ℕ), s'.owner[i]? = some entry →
      s.owner[i]? = some entry ∧ i < s.server.tasks.length ∨
        i = s.server.tasks.length ∧ entry = label := by
    intro i entry hi
    rw [howner, ← Option.mem_def] at hi
    by_cases hlt : i < s.owner.length
    · rw [List.getElem?_append_left hlt] at hi
      exact .inl ⟨hi, hwired.length_owner ▸ hlt⟩
    · have hlen := (List.getElem?_eq_some_iff.mp hi).1
      rw [List.length_append, List.length_singleton] at hlen
      obtain rfl : i = s.owner.length := by omega
      rw [List.getElem?_concat_length, Option.mem_some_iff] at hi
      exact .inr ⟨hwired.length_owner, hi.symm⟩
  have hnew : s'.server.tasks[s.server.tasks.length]? = some ⟨a, request, o.heard, .queued⟩ := by
    rw [hserver, htasks, List.getElem?_concat_length]
  have hold : ∀ i, i < s.server.tasks.length → s'.server.tasks[i]? = s.server.tasks[i]? := by
    intro i hi
    rw [hserver, htasks, List.getElem?_append_left hi]
  have hobject : ∀ o', s'.server.objects a = some o' → o'.socket = o.socket := by
    intro o' ho'
    rw [hserver] at ho'
    exact Descriptors.socket_step hwired.inv hplacing ho ho'
  refine ⟨fun i call task hi htask ↦ ?_, fun i task hi htask hopen o' ho' ↦ ?_,
    fun call e he hanswered ↦ ?_⟩
  · rcases howner_cases i _ hi with ⟨hbefore, hlt⟩ | ⟨rfl, hlabel⟩
    · rw [hold i hlt] at htask
      obtain ⟨hplace, k, m, hexchange, hwritten, hlive⟩ := h.owned i call task hbefore htask
      have hne : label ≠ some call := by
        intro hsame
        obtain ⟨hplace', -⟩ := hown call hsame
        omega
      refine ⟨hplace, k, m, (hother call hne).trans hexchange, hwritten, fun hopen o' ho' ↦ ?_⟩
      rw [hserver] at ho'
      obtain ⟨p, hp, hsocket⟩ := peer_of_task hwired hplacing (List.mem_of_getElem? htask) hopen ho'
      rw [hsocket, hpeer]
      exact hlive hopen p hp
    · obtain ⟨hplace, k, hk, -, hexchange⟩ := hown call hlabel.symm
      rw [hnew, Option.some.injEq] at htask
      subst htask
      refine ⟨hplace, k, 0, hexchange, rfl, fun _ o' ho' ↦ ?_⟩
      rw [hobject o' ho', hpeer]
      exact hk
  · rcases howner_cases i _ hi with ⟨hbefore, hlt⟩ | ⟨rfl, hlabel⟩
    · rw [hold i hlt] at htask
      rw [hserver] at ho'
      obtain ⟨p, hp, hsocket⟩ := peer_of_task hwired hplacing (List.mem_of_getElem? htask) hopen ho'
      rw [hsocket, hpeer]
      exact h.foreign i task hbefore htask hopen p hp
    · rw [hnew, Option.some.injEq] at htask
      subst htask
      rw [hobject o' ho', hpeer]
      exact hforeign hlabel.symm
  · rw [howner]
    by_cases hlabel : label = some call
    · simp [hlabel]
    · rw [hother call hlabel] at he
      exact List.mem_append_left _ (h.answered call e he hanswered)

end Tasks

/-! ## Each step of the server -/

section Steps

variable {place : ℕ → ℕ} {trace : List (Net × Event)}

theorem record_of_length (h : server.tasks.length = s.server.tasks.length) :
    s.record server = { s with server } := if_pos h

/-- Neither the client nor an exchange has a part in the step. -/
theorem refines_still (s' : Net) (h : Refines z heap v place trace s t)
    (htasks : Tasks z v place s' t) (hstreams : Streams z heap s' t)
    (hsession : s'.session = s.session) (hdown : s'.down = s.down) (e : Event) :
    Refines z heap v place (trace ++ [(s, e)]) s' t :=
  ⟨htasks, hstreams, h.session.trans hsession.symm, h.pipe.trans hdown.symm,
    fun call e he ↦ (h.called call e he).append⟩

theorem transfer_of_not_io (htransfer : s.transfer z v act = some u)
    (hread : ∀ buf, act ≠ .read (.bytes buf)) (hwrite : ∀ i n, act ≠ .write i (.wrote n)) :
    u = s ∧ ∀ i size task, act = .respond i size → s.server.tasks[i]? = some task →
      size = (v.wire z i task.request).length := by
  cases act with
  | read r =>
      cases r with
      | bytes buf => exact absurd rfl (hread buf)
      | endOfStream | again | error => cases htransfer; exact ⟨rfl, by simp⟩
  | write i r =>
      cases r with
      | wrote n => exact absurd rfl (hwrite i n)
      | again | error => cases htransfer; exact ⟨rfl, by simp⟩
  | respond i size =>
      simp only [Net.transfer] at htransfer
      split at htransfer
      · cases htransfer
      · rename_i task htask
        simp only [Option.ite_none_right_eq_some, Option.some.injEq] at htransfer
        obtain ⟨hsize, rfl⟩ := htransfer
        refine ⟨rfl, fun j size' task' hact htask' ↦ ?_⟩
        cases hact
        rw [htask, Option.some.injEq] at htask'
        exact htask' ▸ hsize
  | accept fd => cases htransfer
  | _ => cases htransfer; exact ⟨rfl, by simp⟩

theorem refines_read {buf : Bytes} (hwired : Wired s) (h : Refines z heap v place trace s t)
    (htransfer : s.transfer z v (.read (.bytes buf)) = some u)
    (hstep : Descriptors.step z heap s.server (.read (.bytes buf)) = some server)
    (htasks : server.tasks = s.server.tasks) :
    Refines z heap v place (trace ++ [(s, .server (.read (.bytes buf)))]) { u with server } t := by
  have hplacing := Descriptors.placing hstep
  simp only [Net.transfer] at htransfer
  split at htransfer
  · rename_i fd a hloop
    split at htransfer
    · rename_i hnone
      cases htransfer
      refine refines_still { s with server } h
        (tasks_still h.toTasks hwired hplacing htasks rfl rfl fun _ _ _ ↦ rfl) ?_ rfl rfl _
      have hmono : ∀ k bytes, Upstream z heap s t k bytes →
          Upstream z heap { s with server } t k bytes :=
        fun k bytes hbytes ↦ hbytes.mono (fun _ hcall ↦ hcall) id
      refine streams_server h.toStreams hstep (by simp) rfl rfl (fun k _ hold ↦ hmono k _ hold) ?_
        h.up_nil
      intro b p p' k hp hp' _ _ hk hold
      have htaken : Descriptors.takenBy b s.server (.read (.bytes buf)) = [] := by
        have hb : a ≠ b := by
          rintro rfl
          rw [hwired.connection_eq hp, hk] at hnone
          cases hnone
        simp [Descriptors.takenBy, hloop, hp, hb]
      rw [Descriptors.readBuffer_step hwired.inv (Descriptors.effect hstep) hp hp' (.inl (by simp)),
        htaken, List.append_nil]
      exact hmono k _ hold
    · rename_i k hconnection
      simp only [Option.ite_none_right_eq_some, Option.some.injEq] at htransfer
      obtain ⟨⟨-, -, hfirst⟩, rfl⟩ := htransfer
      exact refines_still
        { s with up := Function.update s.up k ((s.up k).drop buf.length), server } h
        (tasks_still h.toTasks hwired hplacing htasks rfl rfl fun _ _ _ ↦ rfl)
        (streams_read h.toStreams hwired hstep hloop hconnection hfirst rfl rfl rfl rfl rfl)
        rfl rfl _
  · cases htransfer

/-- What a worker writes for a task goes to the connection of its object. -/
theorem transfer_write {i n size sent : ℕ} {task : Descriptors.Task} {o : Descriptors.Object}
    (hwired : Wired s) (htransfer : s.transfer z v (.write i (.wrote n)) = some u)
    (htask : s.server.tasks[i]? = some task) (hphase : task.phase = .writing size sent)
    (ho : s.server.objects task.object = some o) :
    sent + n ≤ (v.wire z i task.request).length ∧ u.up = s.up ∧
      u.down = (s.peer o.socket).elim s.down fun k ↦
        Function.update s.down k (s.down k ++ slice (v.wire z i task.request) sent n) := by
  obtain ⟨a, request, heard, old⟩ := task
  subst hphase
  simp only [Net.transfer, htask] at htransfer
  rw [hwired.connection_eq ho] at htransfer
  split at htransfer
  · rename_i hroom
    refine ⟨hroom, ?_⟩
    split at htransfer <;> rename_i hpeer <;> cases htransfer <;> rw [hpeer] <;> exact ⟨rfl, rfl⟩
  · cases htransfer

/-- A task that moves on without an exchange that would have to follow. -/
theorem refines_moves {i : ℕ} {task : Descriptors.Task} {phase : Descriptors.TaskPhase}
    (hwired : Wired s) (h : Refines z heap v place trace s t)
    (hstep : Descriptors.step z heap s.server act = some server)
    (htask : s.server.tasks[i]? = some task)
    (htasks : server.tasks = s.server.tasks.set i { task with phase })
    (hmoves : Moves i task.phase phase act)
    (hsize : ∀ size, act = .respond i size → size = (v.wire z i task.request).length)
    (hwrote : act.wrote = 0 ∨ s.owner[i]? = some none) :
    Refines z heap v place (trace ++ [(s, .server act)]) { s with server } t := by
  have hread : ∀ r, act ≠ .read r := by
    rintro r rfl
    exact hmoves
  have hextract : act ≠ .extract := by
    rintro rfl
    exact hmoves
  have haccept : ∀ fd, act ≠ .accept fd := by
    rintro fd rfl
    exact hmoves
  refine refines_still { s with server } h
    (tasks_moves h.toTasks hwired (Descriptors.placing hstep) htask htasks hmoves hsize rfl rfl rfl
      ?_ fun _ _ ↦ rfl)
    (streams_still h.toStreams hwired hstep haccept rfl rfl rfl rfl rfl (.inl hextract)
      (fun a ↦ Descriptors.takenBy_of_not_read hread) fun _ _ _ hcall ↦ hcall) rfl rfl _
  intro call k m hi hexchange
  rcases hwrote with hzero | hforeign
  · rw [hzero]
    exact hexchange
  · rw [hforeign] at hi
    cases hi

theorem refines_write {i n : ℕ} {task : Descriptors.Task} {phase : Descriptors.TaskPhase}
    (hwired : Wired s) (h : Refines z heap v place trace s t)
    (htransfer : s.transfer z v (.write i (.wrote n)) = some u)
    (hstep : Descriptors.step z heap s.server (.write i (.wrote n)) = some server)
    (htask : s.server.tasks[i]? = some task)
    (htasks : server.tasks = s.server.tasks.set i { task with phase })
    (hmoves : Moves i task.phase phase (.write i (.wrote n))) :
    Follows (System.step z heap (ofTasks v place))
      (Refines z heap v place (trace ++ [(s, .server (.write i (.wrote n)))]) { u with server })
      t := by
  obtain ⟨-, size, sent, hphase, -⟩ := id hmoves
  obtain ⟨o, ho, -⟩ := hwired.inv.task task (List.mem_of_getElem? htask) (by simp [hphase])
  obtain ⟨hroom, hup, hdown⟩ := transfer_write hwired htransfer htask hphase ho
  have hframe := (transfer_eq htransfer).1
  rw [hup] at hframe
  have hsame : u.down = s.down → u = s := fun hsame ↦ by rw [hframe, hsame]
  have hlt : i < s.owner.length := by
    rw [hwired.length_owner]
    exact (List.getElem?_eq_some_iff.mp htask).1
  cases howner : s.owner[i] with
  | none =>
      have hforeign : s.owner[i]? = some none := List.getElem?_eq_some_iff.mpr ⟨hlt, howner⟩
      have hpeer := h.foreign i task hforeign htask (by simp [hphase]) o ho
      rw [hpeer, Option.elim_none] at hdown
      rw [hsame hdown]
      exact .inl (refines_moves hwired h hstep htask htasks hmoves (by simp) (.inr hforeign))
  | some call =>
      have hown : s.owner[i]? = some (some call) := List.getElem?_eq_some_iff.mpr ⟨hlt, howner⟩
      obtain ⟨hplace, k, m, hexchange, hwritten, hobject⟩ := h.owned i call task hown htask
      rw [hphase] at hwritten
      obtain ⟨-, rfl⟩ := hwritten
      rw [hobject (by simp [hphase]) o ho, Option.elim_some] at hdown
      rcases Nat.eq_zero_or_pos n with rfl | hpos
      · have hnothing : u.down = s.down := by
          rw [hdown, slice, List.take_zero, List.append_nil, Function.update_eq_self]
        rw [hsame hnothing]
        exact .inl (refines_moves hwired h hstep htask htasks hmoves (by simp) (.inl rfl))
      · right
        have hwire : (ofTasks v place).wire z call task.request = v.wire z i task.request :=
          hplace ▸ rfl
        refine ⟨.write call n, t.progress call ⟨k, task.request, some sent⟩ (sent + n)
          (slice (v.wire z i task.request) sent n), ?_, ?_⟩
        · simp only [System.step, hexchange, hwire, if_pos (And.intro hpos hroom)]
          rfl
        · rw [hframe]
          refine ⟨tasks_moves h.toTasks hwired (Descriptors.placing hstep) htask htasks hmoves
            (by simp) rfl rfl rfl (fun call' k' m' hi he ↦ ?_) fun call' hi ↦ ?_,
            streams_still h.toStreams hwired hstep (by simp) rfl rfl rfl rfl rfl (.inl (by simp))
              (fun _ ↦ rfl) fun call' k' request he ↦ ?_, h.session, ?_, fun call' e he ↦ ?_⟩
          · rw [hown, Option.some.injEq, Option.some.injEq] at hi
            subst hi
            rw [hexchange, Option.some.injEq, Exchange.mk.injEq, Option.some.injEq] at he
            obtain ⟨rfl, -, rfl⟩ := he
            exact Function.update_self ..
          · refine Function.update_of_ne ?_ _ _
            rintro rfl
            exact hi hown
          · refine (Function.update_of_ne ?_ _ _).trans he
            rintro rfl
            rw [hexchange] at he
            cases he
          · simp only [System.progress, h.pipe, hdown]
          · rcases RpcClient.update_eq_some he with ⟨rfl, rfl⟩ | ⟨-, hold⟩
            · exact (h.called _ _ hexchange).append
            · exact (h.called _ _ hold).append

/-- A request that is cut off was sent by the client for its last call on the
connection, or by another client. -/
theorem refines_cut {a : ℕ} {o : Descriptors.Object} {fd : ℤ} {request : RpcRequest} {rest : Bytes}
    (hz : RejectsPrefixes z) (hwired : Wired s) (h : Refines z heap v place trace s t)
    (hstep : Descriptors.step z heap s.server .extract = some server)
    (hloop : s.server.loop = .extracting fd a) (ho : s.server.objects a = some o)
    (hpass : framePass z heap o.conn.readBuffer = .dispatches request rest)
    (htasks : server.tasks = s.server.tasks ++ [⟨a, request, o.heard, .queued⟩])
    (hobjects : server.objects = Function.update s.server.objects a
      (some { o with conn := { o.conn with readBuffer := rest } }))
    (hplace : ∀ call, (s.record server).owner = s.owner ++ [some call] → some call ∉ s.owner →
      place call = s.server.tasks.length) :
    Follows (System.step z heap (ofTasks v place))
      (Refines z heap v place (trace ++ [(s, .server .extract)]) (s.record server)) t := by
  have hplacing := Descriptors.placing hstep
  have hconnection := hwired.connection_eq ho
  obtain ⟨hsession, hserver, hup, hdown, hpeer, hlatest⟩ := record_frame s server
  have howner : (s.record server).owner =
      s.owner ++ [(s.peer o.socket).map s.latest] := by
    rw [Net.record, if_neg (by simp [htasks]), hloop]
    exact congrArg (fun c ↦ s.owner ++ [Option.map s.latest c]) hconnection
  cases hk : s.peer o.socket with
  | none =>
      left
      rw [hk, Option.map_none] at howner
      exact refines_still _ h
        (tasks_cut h.toTasks hwired hplacing ho htasks hserver howner hpeer (by simp)
          (fun _ ↦ hk) fun _ _ ↦ rfl)
        (streams_cut hz h.toStreams hwired hstep hloop ho hpass hobjects hserver hpeer hup hlatest
          hsession fun _ _ _ hcall ↦ hcall) hsession hdown _
  | some k =>
      right
      rw [hk, Option.map_some] at howner
      have hbusy : ¬ Retired a s.server :=
        Descriptors.not_retired_of_busy (.inr ⟨fd, hloop⟩)
      have hcall := ((h.opened a o k ho hbusy hk).dispatches hz hpass).1
      have hfresh : some (s.latest k) ∉ s.owner := by
        intro hmem
        obtain ⟨i, hi⟩ := List.mem_iff_getElem?.mp hmem
        have hlt : i < s.server.tasks.length := by
          rw [← hwired.length_owner]
          exact (List.getElem?_eq_some_iff.mp hi).1
        obtain ⟨-, k', m, hexchange, -⟩ :=
          h.owned i _ _ hi (List.getElem?_eq_getElem hlt)
        rw [hcall] at hexchange
        cases hexchange
      refine ⟨.dispatch (s.latest k), t.progress (s.latest k) ⟨k, request, none⟩ 0 [], ?_, ?_⟩
      · simp [System.step, hcall, System.progress]
      · refine ⟨tasks_cut h.toTasks hwired hplacing ho htasks hserver howner hpeer
          (fun call hsame ↦ ?_) (by simp) fun call hne ↦ ?_,
          streams_cut hz h.toStreams hwired hstep hloop ho hpass hobjects hserver hpeer hup hlatest
            hsession fun k' request' hne he ↦ ?_, h.session.trans hsession.symm, ?_,
          fun call e he ↦ ?_⟩
        · obtain rfl : s.latest k = call := Option.some.inj hsame
          exact ⟨hplace _ howner hfresh, k, hk, hcall, Function.update_self ..⟩
        · refine Function.update_of_ne ?_ _ _
          rintro rfl
          exact hne rfl
        · refine (Function.update_of_ne ?_ _ _).trans he
          intro hsame
          rw [hsame, hcall, Option.some.injEq, Exchange.mk.injEq] at he
          obtain ⟨rfl, -⟩ := he
          exact hne (hconnection.trans hk)
        · simp only [System.progress, List.append_nil, Function.update_eq_self]
          exact h.pipe.trans hdown.symm
        · rcases RpcClient.update_eq_some he with ⟨rfl, rfl⟩ | ⟨-, hold⟩
          · exact (h.called _ _ hcall).append
          · exact (h.called _ _ hold).append

/-- Each step of the server is one of the exchanges, or none. -/
theorem refines_server (hz : RejectsPrefixes z) (hwired : Wired s)
    (h : Refines z heap v place trace s t) (hstep : s.step z heap v (.server act) = some s')
    (hplace : ∀ call, s'.owner = s.owner ++ [some call] → some call ∉ s.owner →
      place call = s.server.tasks.length) :
    Follows (System.step z heap (ofTasks v place))
      (Refines z heap v place (trace ++ [(s, .server act)]) s') t := by
  simp only [Net.step, Option.bind_eq_some_iff, Option.map_eq_some_iff] at hstep
  obtain ⟨u, htransfer, server, hserver, rfl⟩ := hstep
  have hframe := (transfer_eq htransfer).1
  have hrecord : server.tasks.length = s.server.tasks.length →
      u.record server = { u with server } := by
    intro hlength
    refine record_of_length ?_
    rw [hframe]
    exact hlength
  cases Descriptors.tasked hserver with
  | keeps htasks hbegin hrespond hwrite =>
      rw [hrecord (by rw [htasks])]
      left
      by_cases hread : ∃ buf, act = .read (.bytes buf)
      · obtain ⟨buf, rfl⟩ := hread
        exact refines_read hwired h htransfer hserver htasks
      · push Not at hread
        obtain ⟨rfl, -⟩ := transfer_of_not_io htransfer hread fun i n ↦ hwrite i (.wrote n)
        have htaken : ∀ a, Descriptors.takenBy a u.server act = [] := by
          intro a
          cases act with
          | read r =>
              cases r with
              | bytes buf => exact absurd rfl (hread buf)
              | endOfStream | again | error => rfl
          | _ => rfl
        exact refines_still { u with server } h
          (tasks_still h.toTasks hwired (Descriptors.placing hserver) htasks rfl rfl
            fun _ _ _ ↦ rfl)
          (streams_still h.toStreams hwired hserver (transfer_eq htransfer).2 rfl rfl rfl rfl rfl
            (.inr htasks) htaken fun _ _ _ hcall ↦ hcall) rfl rfl _
  | moves i task phase htask htasks hmoves =>
      rw [hrecord (by rw [htasks, List.length_set])]
      by_cases hwrote : ∃ j n, act = .write j (.wrote n)
      · obtain ⟨j, n, rfl⟩ := hwrote
        obtain ⟨rfl, -⟩ := id hmoves
        exact refines_write hwired h htransfer hserver htask htasks hmoves
      · push Not at hwrote
        have hread : ∀ buf, act ≠ .read (.bytes buf) := by
          rintro buf rfl
          exact hmoves
        obtain ⟨rfl, hsize⟩ := transfer_of_not_io htransfer hread hwrote
        have hzero : act.wrote = 0 := by
          cases act with
          | write j r =>
              cases r with
              | wrote n => exact absurd rfl (hwrote j n)
              | again | error => rfl
          | _ => rfl
        exact .inl (refines_moves hwired h hserver htask htasks hmoves
          (fun size hact ↦ hsize i size task hact htask) (.inl hzero))
  | cuts fd a o request rest hact hloop ho hpass htasks hobjects =>
      subst hact
      obtain rfl : u = s := (Option.some.inj htransfer).symm
      exact refines_cut hz hwired h hserver hloop ho hpass htasks hobjects hplace

/-- A connection is taken from the queue of the listening socket. -/
theorem refines_accept {fd : ℤ} {c : Option ℕ} (hwired : Wired s)
    (h : Refines z heap v place trace s t) (hstep : s.step z heap v (.accept fd c) = some s') :
    Refines z heap v place (trace ++ [(s, .accept fd c)]) s' t := by
  simp only [Net.step, Option.ite_none_right_eq_some, Option.map_eq_some_iff] at hstep
  obtain ⟨hwaits, server, haccept, rfl⟩ := hstep
  have hplacing := Descriptors.placing haccept
  have hpeer : ∀ a o, s.server.objects a = some o →
      Function.update s.peer s.server.sockets c o.socket = s.peer o.socket :=
    fun a o ho ↦ Function.update_of_ne (hwired.placed.socket_lt a o ho).ne _ _
  have hafter : server.tasks = s.server.tasks ∧ server.objects = s.server.objects ∧
      server.loop = .accepted fd s.server.sockets := by
    simp only [Descriptors.step, Option.ite_none_right_eq_some, Option.some.injEq] at haccept
    obtain ⟨-, rfl⟩ := haccept
    exact ⟨rfl, rfl, rfl⟩
  obtain ⟨htasks, hobjects, hloop⟩ := hafter
  have hmono : ∀ k bytes, Upstream z heap s t k bytes →
      Upstream z heap { s with server, peer := Function.update s.peer s.server.sockets c } t k
        bytes :=
    fun k bytes hbytes ↦ hbytes.mono (fun _ hcall ↦ hcall) id
  refine refines_still
    { s with server, peer := Function.update s.peer s.server.sockets c } h
    (tasks_still h.toTasks hwired hplacing htasks rfl rfl hpeer)
    ⟨fun k hk ↦ hmono k _ (h.unopened k ?_), fun a o k ho hnew hk ↦ ?_, h.up_nil⟩ rfl rfl _
  · left
    intro n hn
    have hlt := (hwired.peer_lt n k hn).1
    rcases hk with hnever | ⟨fd', n', haccepted, hn'⟩
    · exact hnever n ((Function.update_of_ne hlt.ne _ _).trans hn)
    · rw [hloop] at haccepted
      cases haccepted
      have hfree : Function.update s.peer s.server.sockets c s.server.sockets = some k := hn'
      rw [Function.update_self] at hfree
      exact (hwaits k hfree).2 n hlt hn
  · rw [hobjects] at ho
    have hold : ¬ Retired a s.server := mt (fun hretired ↦
      Descriptors.retired_step hretired hplacing (Descriptors.made_step haccept)) hnew
    exact hmono k _ (h.opened a o k ho hold ((hpeer a o ho).symm.trans hk))

end Steps

end MyRpc.EndToEnd
