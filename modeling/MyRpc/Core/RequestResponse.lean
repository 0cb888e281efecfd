import MyRpc.Core.RpcClient

/-!
# The client against the server of this repository

The server answers each dispatched request once, on the connection it came
from; a worker takes its time and writes the response in pieces.  The client
compares no sequence ids, and yet no call gets the answer to another one:
between calls a client that counts as connected has no request without its
answer and no byte left on its connection (`Quiet`), and during a call all
that can come up is the answer to its own request (`Outstanding`).  Every exit
of `Call` that would break this gives the connection up.
-/

namespace MyRpc.RpcClient

open FixedWidth ZstdCompress PartialRun Connection MessageCycle

/-- What the service manager returns for the request of each call, and the
session key drawn for the response. -/
structure Service where
  result : ℕ → RpcRequest → Option Bytes
  sessionKey : ℕ → AesEncrypt.SessionKey

namespace Service

def response (v : Service) (call : ℕ) (request : RpcRequest) : RpcResponse :=
  handleRpcRequestSync request (v.result call request)

/-- The bytes `Connection::Write(response)` has to get out. -/
def wire (z : Zstd) (v : Service) (call : ℕ) (request : RpcRequest) : Bytes :=
  (frameWire z (v.sessionKey call) (v.response call request).serialize).getD []

end Service

/-- A request that was sent: where, and how many bytes of its response have
been written since it was dispatched, if it was. -/
structure Exchange where
  connection : ℕ
  request : RpcRequest
  answered : Option ℕ
  deriving DecidableEq, Repr

/-- The client, what has become of the request of each call, and the bytes on
their way to the client on each connection. -/
structure System where
  session : Session
  exchange : ℕ → Option Exchange
  pipe : ℕ → Bytes

inductive Event
  | client (a : Action)
  | dispatch (call : ℕ)
  | write (call n : ℕ)

namespace System

def start (fd : ℕ) : System := ⟨.start fd, fun _ ↦ none, fun _ ↦ []⟩

/-- The bytes a `read(2)` returns are the first ones of the connection. -/
def arrive (s : System) : Action → Option System
  | .read (.bytes buf) =>
      let k := s.session.connections
      if buf <+: s.pipe k then
        some { s with pipe := Function.update s.pipe k ((s.pipe k).drop buf.length) }
      else none
  | _ => some s

/-- The client goes on; a request it has sent now is there to be dispatched. -/
def advance (s : System) (session : Session) : System :=
  if session.calls = s.session.calls then { s with session }
  else
    { s with
      session
      exchange := Function.update s.exchange session.calls
        (session.asked.getLast?.map fun request ↦ ⟨session.connections, request, none⟩) }

/-- Any worker may write any number of bytes of its response at any time. -/
def step (z : Zstd) (heap : Heap) (v : Service) (s : System) : Event → Option System
  | .client a =>
      (s.arrive a).bind fun t ↦ (RpcClient.step z heap s.session a).map t.advance
  | .dispatch call =>
      match s.exchange call with
      | some ⟨k, request, none⟩ =>
          some { s with exchange := Function.update s.exchange call (some ⟨k, request, some 0⟩) }
      | _ => none
  | .write call n =>
      match s.exchange call with
      | some ⟨k, request, some sent⟩ =>
          if 0 < n ∧ sent + n ≤ (v.wire z call request).length then
            some
              { s with
                exchange := Function.update s.exchange call (some ⟨k, request, some (sent + n)⟩)
                pipe := Function.update s.pipe k
                  (s.pipe k ++ slice (v.wire z call request) sent n) }
          else none
      | _ => none

end System

/-! ## The invariant -/

namespace Exchange

def stream (z : Zstd) (v : Service) (call : ℕ) (e : Exchange) : Bytes :=
  (v.wire z call e.request).take (e.answered.getD 0)

def Complete (z : Zstd) (v : Service) (call : ℕ) (e : Exchange) : Prop :=
  e.answered = some (v.wire z call e.request).length

end Exchange

/-- The client's result was taken from exactly the bytes the server wrote in
answer to the client's own request. -/
def Answered (z : Zstd) (heap : Heap) (v : Service) (s : System) (entry : Accepted) : Prop :=
  ∃ e frame, s.exchange entry.call = some e ∧ e.Complete z v entry.call ∧
    e.request.sequenceId = entry.sequenceId ∧
      extractFrame z heap (v.wire z entry.call e.request) = (.ok (.kComplete frame), []) ∧
        RpcResponse.deserializeTerminated .fresh frame = .ok (true, entry.response)

/-- No other call than `call` has an answer that is still being written on the
present connection. -/
def Settled (z : Zstd) (v : Service) (s : System) (call : ℕ) : Prop :=
  ∀ other e, other ≠ call → s.exchange other = some e →
    e.connection = s.session.connections → e.Complete z v other

/-- Nothing has been left on the present connection, and nothing will come. -/
def Quiet (z : Zstd) (v : Service) (s : System) : Prop :=
  s.session.connection.readBuffer = [] ∧ s.pipe s.session.connections = [] ∧
    ∀ call e, s.exchange call = some e → e.connection = s.session.connections →
      e.Complete z v call

/-- What is on the present connection is the answer to the call under way. -/
def Outstanding (z : Zstd) (v : Service) (s : System) : Prop :=
  Settled z v s s.session.calls ∧ ∃ e, s.exchange s.session.calls = some e ∧
    e.connection = s.session.connections ∧ e.request.sequenceId = s.session.sequenceId ∧
      s.session.connection.readBuffer ++ s.pipe s.session.connections =
        e.stream z v s.session.calls

/-- Where the requests and the bytes are, and where the results came from. -/
structure Tracked (z : Zstd) (heap : Heap) (v : Service) (s : System) : Prop where
  unsent : ∀ call, s.session.calls < call → s.exchange call = none
  connection_le : ∀ call e, s.exchange call = some e → e.connection ≤ s.session.connections
  answered_le : ∀ call e, s.exchange call = some e →
    e.answered.getD 0 ≤ (v.wire z call e.request).length
  pipe_nil : ∀ k, s.session.connections < k → s.pipe k = []
  answered : ∀ entry ∈ s.session.log, Answered z heap v s entry

structure Inv (z : Zstd) (heap : Heap) (v : Service) (s : System) : Prop
    extends Tracked z heap v s where
  quiet : s.session.phase = .idle → s.session.isConnected = true → Quiet z v s
  outstanding : s.session.phase = .reading ∨ s.session.phase = .extracting →
    Outstanding z v s

variable {z : Zstd} {heap : Heap} {v : Service} {s t : System}

theorem Answered.of_exchange {entry : Accepted} (h : Answered z heap v s entry)
    (hexchange : t.exchange entry.call = s.exchange entry.call) : Answered z heap v t entry := by
  obtain ⟨e, frame, he, hrest⟩ := h
  exact ⟨e, frame, hexchange.trans he, hrest⟩

theorem Tracked.frame (h : Tracked z heap v s) (hexchange : t.exchange = s.exchange)
    (hcalls : t.session.calls = s.session.calls)
    (hconnections : s.session.connections ≤ t.session.connections)
    (hpipe : ∀ k, t.session.connections < k → t.pipe k = s.pipe k)
    (hlog : ∀ entry ∈ t.session.log, Answered z heap v s entry) : Tracked z heap v t where
  unsent := by rw [hexchange, hcalls]; exact h.unsent
  connection_le call e he := by
    rw [hexchange] at he
    exact (h.connection_le call e he).trans hconnections
  answered_le := by rw [hexchange]; exact h.answered_le
  pipe_nil k hk := (hpipe k hk).trans (h.pipe_nil k (hconnections.trans_lt hk))
  answered entry hmem := (hlog entry hmem).of_exchange (by rw [hexchange])

theorem update_eq_some {exchange : ℕ → Option Exchange} {call other : ℕ} {e e' : Exchange}
    (h : Function.update exchange call (some e) other = some e') :
    other = call ∧ e' = e ∨ other ≠ call ∧ exchange other = some e' := by
  by_cases hother : other = call
  · subst hother
    rw [Function.update_self, Option.some.injEq] at h
    exact .inl ⟨rfl, h.symm⟩
  · rw [Function.update_of_ne hother] at h
    exact .inr ⟨hother, h⟩

/-! ## The server's steps -/

namespace System

def progress (s : System) (call : ℕ) (e : Exchange) (sent : ℕ) (written : Bytes) : System :=
  { s with
    exchange := Function.update s.exchange call (some { e with answered := some sent })
    pipe := Function.update s.pipe e.connection (s.pipe e.connection ++ written) }

end System

section Progress

variable {call sent : ℕ} {e : Exchange} {written : Bytes}

theorem tracked_progress (h : Tracked z heap v s) (he : s.exchange call = some e)
    (hopen : ¬ e.Complete z v call) (hsent : sent ≤ (v.wire z call e.request).length) :
    Tracked z heap v (s.progress call e sent written) where
  unsent other hother := by
    have hnone := h.unsent other hother
    have hne : other ≠ call := by
      rintro rfl
      simp [he] at hnone
    exact (Function.update_of_ne hne _ _).trans hnone
  connection_le other e' he' := by
    rcases update_eq_some he' with ⟨-, rfl⟩ | ⟨-, hsame⟩
    · exact h.connection_le call e he
    · exact h.connection_le other e' hsame
  answered_le other e' he' := by
    rcases update_eq_some he' with ⟨rfl, rfl⟩ | ⟨-, hsame⟩
    · exact hsent
    · exact h.answered_le other e' hsame
  pipe_nil k hk := by
    have hne : k ≠ e.connection := ((h.connection_le call e he).trans_lt hk).ne'
    exact (Function.update_of_ne hne _ _).trans (h.pipe_nil k hk)
  answered entry hmem := by
    have hentry := h.answered entry hmem
    refine hentry.of_exchange (Function.update_of_ne ?_ _ _)
    rintro rfl
    obtain ⟨e', -, he', hcomplete, -⟩ := hentry
    rw [he, Option.some.injEq] at he'
    exact hopen (he' ▸ hcomplete)

theorem quiet_progress (h : Quiet z v s) (he : s.exchange call = some e)
    (hopen : ¬ e.Complete z v call) : Quiet z v (s.progress call e sent written) := by
  obtain ⟨hbuffer, hpipe, hall⟩ := h
  have hne : e.connection ≠ s.session.connections := fun heq ↦ hopen (hall call e he heq)
  refine ⟨hbuffer, (Function.update_of_ne hne.symm _ _).trans hpipe, fun other e' he' heq ↦ ?_⟩
  rcases update_eq_some he' with ⟨rfl, rfl⟩ | ⟨-, hsame⟩
  · exact absurd heq hne
  · exact hall other e' hsame heq

theorem outstanding_progress (h : Outstanding z v s) (he : s.exchange call = some e)
    (hopen : ¬ e.Complete z v call)
    (hwritten : (v.wire z call e.request).take sent = e.stream z v call ++ written) :
    Outstanding z v (s.progress call e sent written) := by
  obtain ⟨hsettled, e', he', hconnection, hid, hstream⟩ := h
  refine ⟨fun other e'' hother he'' heq ↦ ?_, ?_⟩
  · rcases update_eq_some he'' with ⟨rfl, rfl⟩ | ⟨-, hsame⟩
    · exact absurd (hsettled other e hother he heq) hopen
    · exact hsettled other e'' hother hsame heq
  by_cases hcall : s.session.calls = call
  · subst hcall
    obtain rfl : e = e' := Option.some.inj (he.symm.trans he')
    refine ⟨_, Function.update_self .., hconnection, hid, ?_⟩
    show s.session.connection.readBuffer ++
      Function.update s.pipe e.connection (s.pipe e.connection ++ written)
        s.session.connections = _
    rw [hconnection, Function.update_self, ← List.append_assoc, hstream, ← hwritten]
    rfl
  · have hne : e.connection ≠ s.session.connections :=
      fun heq ↦ hopen (hsettled call e (Ne.symm hcall) he heq)
    refine ⟨e', (Function.update_of_ne hcall _ _).trans he', hconnection, hid, ?_⟩
    show s.session.connection.readBuffer ++
      Function.update s.pipe e.connection (s.pipe e.connection ++ written)
        s.session.connections = _
    rw [Function.update_of_ne hne.symm]
    exact hstream

theorem inv_progress (h : Inv z heap v s) (he : s.exchange call = some e)
    (hopen : ¬ e.Complete z v call) (hsent : sent ≤ (v.wire z call e.request).length)
    (hwritten : (v.wire z call e.request).take sent = e.stream z v call ++ written) :
    Inv z heap v (s.progress call e sent written) where
  toTracked := tracked_progress h.toTracked he hopen hsent
  quiet hphase hconnected := quiet_progress (h.quiet hphase hconnected) he hopen
  outstanding hphase := outstanding_progress (h.outstanding hphase) he hopen hwritten

end Progress

theorem inv_dispatch {call : ℕ} (h : Inv z heap v s)
    (hstep : s.step z heap v (.dispatch call) = some t) : Inv z heap v t := by
  simp only [System.step] at hstep
  split at hstep
  · rename_i k request hexchange
    cases hstep
    have hopen : ¬ Exchange.Complete z v call ⟨k, request, none⟩ := by simp [Exchange.Complete]
    have hprogress : Inv z heap v (s.progress call ⟨k, request, none⟩ 0 []) :=
      inv_progress h hexchange hopen (Nat.zero_le _) (by simp [Exchange.stream])
    simpa [System.progress] using hprogress
  · cases hstep

theorem inv_write {call n : ℕ} (h : Inv z heap v s)
    (hstep : s.step z heap v (.write call n) = some t) : Inv z heap v t := by
  simp only [System.step] at hstep
  split at hstep
  · rename_i k request sent hexchange
    rw [Option.ite_none_right_eq_some, Option.some.injEq] at hstep
    obtain ⟨⟨hpos, hle⟩, rfl⟩ := hstep
    refine inv_progress h hexchange ?_ hle (List.take_add ..)
    intro hcomplete
    have hlen : sent = (v.wire z call request).length := Option.some.inj hcomplete
    omega
  · cases hstep

/-! ## The client's steps -/

namespace System

theorem advance_of_calls {session : Session} (h : session.calls = s.session.calls) :
    s.advance session = { s with session } := if_pos h

theorem arrive_read {r : ReadResult} (h : s.arrive (.read r) = some t) :
    ∃ rest, s.pipe s.session.connections = Session.bytesRead r ++ rest ∧
      t = { s with pipe := Function.update s.pipe s.session.connections rest } := by
  cases r with
  | bytes buf =>
      simp only [arrive, Option.ite_none_right_eq_some, Option.some.injEq] at h
      obtain ⟨⟨rest, hrest⟩, rfl⟩ := h
      refine ⟨rest, hrest.symm, ?_⟩
      rw [← hrest, List.drop_left]
  | endOfStream | again | error =>
      cases h
      exact ⟨s.pipe s.session.connections, rfl, by rw [Function.update_eq_self]⟩

end System

theorem inv_advance {session : Session} (hcalls : session.calls = s.session.calls)
    (h : Inv z heap v { s with session }) : Inv z heap v (s.advance session) := by
  rwa [System.advance_of_calls hcalls]

theorem inv_of_disconnected {session : Session} (h : Tracked z heap v s)
    (hphase : session.phase = .idle) (hlost : session.isConnected = false)
    (hcalls : session.calls = s.session.calls)
    (hconnections : session.connections = s.session.connections)
    (hlog : session.log = s.session.log) : Inv z heap v { s with session } where
  toTracked := h.frame rfl hcalls hconnections.ge (fun _ _ ↦ rfl) fun entry hmem ↦
    h.answered entry (hlog ▸ hmem)
  quiet _ hconnected := by simp [hlost] at hconnected
  outstanding hbusy := by simp [hphase] at hbusy

theorem inv_connect {newFd : Option ℕ} {session : Session} (h : Inv z heap v s)
    (hphase : s.session.phase = .idle) (hconnect : s.session.connect newFd = some session) :
    Inv z heap v { s with session } ∧ session.isConnected = true ∧ session.phase = .idle ∧
      session.calls = s.session.calls := by
  unfold Session.connect at hconnect
  split at hconnect
  · rename_i hconnected
    cases hconnect
    exact ⟨h, hconnected, hphase, rfl⟩
  · obtain ⟨fd, -, rfl⟩ := Option.map_eq_some_iff.mp hconnect
    refine ⟨⟨h.toTracked.frame rfl rfl (Nat.le_succ _) (fun _ _ ↦ rfl) h.answered,
      fun _ _ ↦ ⟨rfl, h.pipe_nil _ (Nat.lt_succ_self _), fun call e he heq ↦ ?_⟩,
      fun hbusy ↦ by simp [hphase] at hbusy⟩, rfl, hphase, rfl⟩
    have hle := h.connection_le call e he
    exact absurd heq (Nat.lt_succ_of_le hle).ne

theorem advance_sent (s : System) (request : RpcRequest) :
    s.advance (s.session.sent request) =
      { s with
        session := s.session.sent request
        exchange := Function.update s.exchange (s.session.calls + 1)
          (some ⟨s.session.connections, request, none⟩) } := by
  have hlast : (s.session.asked ++ [request]).getLast? = some request :=
    List.getLast?_concat
  simp [System.advance, Session.sent, hlast]

theorem tracked_sent (request : RpcRequest) (h : Tracked z heap v s) :
    Tracked z heap v (s.advance (s.session.sent request)) := by
  rw [advance_sent]
  refine ⟨fun other hother ↦ ?_, fun other e he ↦ ?_, fun other e he ↦ ?_, h.pipe_nil,
    fun entry hmem ↦ ?_⟩
  · have hlt : s.session.calls + 1 < other := hother
    exact (Function.update_of_ne hlt.ne' _ _).trans (h.unsent other (by omega))
  · rcases update_eq_some he with ⟨-, rfl⟩ | ⟨-, hsame⟩
    · exact le_rfl
    · exact h.connection_le other e hsame
  · rcases update_eq_some he with ⟨-, rfl⟩ | ⟨-, hsame⟩
    · exact Nat.zero_le _
    · exact h.answered_le other e hsame
  · have hentry := h.answered entry hmem
    refine hentry.of_exchange (Function.update_of_ne ?_ _ _)
    obtain ⟨e, -, he, -⟩ := hentry
    intro heq
    rw [heq, h.unsent _ (Nat.lt_succ_self _)] at he
    cases he

theorem outstanding_sent (request : RpcRequest) (h : Quiet z v s) :
    Outstanding z v (s.advance (s.session.sent request)) := by
  obtain ⟨hbuffer, hpipe, hall⟩ := h
  rw [advance_sent]
  refine ⟨fun other e hother he heq ↦ ?_, _, Function.update_self .., rfl, rfl, ?_⟩
  · rcases update_eq_some he with ⟨rfl, -⟩ | ⟨-, hsame⟩
    · exact absurd rfl hother
    · exact hall other e hsame heq
  · show s.session.connection.readBuffer ++ s.pipe s.session.connections = _
    rw [hbuffer, hpipe]
    simp [Exchange.stream]

theorem inv_sent (request : RpcRequest) (h : Inv z heap v s) (hquiet : Quiet z v s) :
    Inv z heap v (s.advance (s.session.sent request)) where
  toTracked := tracked_sent request h.toTracked
  quiet hidle := by
    rw [advance_sent] at hidle
    cases hidle
  outstanding _ := outstanding_sent request hquiet

theorem inv_send (args : CallArgs) (env : CallEnv) (h : Inv z heap v s)
    (hphase : s.session.phase = .idle) (hconnected : s.session.isConnected = true) :
    Inv z heap v (s.advance (s.session.send z args env).1) := by
  rcases send_cases z s.session args env with
    ⟨request, hsent⟩ | hsame | ⟨hlost, hidle, hcalls, hconnections, hlog⟩
  · rw [hsent]
    exact inv_sent request h (h.quiet hphase hconnected)
  · rw [hsame]
    exact inv_advance rfl h
  · exact inv_advance hcalls
      (inv_of_disconnected h.toTracked (hidle.trans hphase) hlost hcalls hconnections hlog)

theorem inv_call (args : CallArgs) (env : CallEnv) (h : Inv z heap v s)
    (hphase : s.session.phase = .idle) :
    Inv z heap v (s.advance (s.session.call z args env)) := by
  cases hconnect : s.session.connect env.newFd with
  | none =>
      rw [call_of_not_connect hconnect]
      exact inv_advance rfl h
  | some session =>
      rw [call_of_connect hconnect]
      obtain ⟨hinv, hconnected, hidle, hcalls⟩ := inv_connect h hphase hconnect
      have hsend := inv_send args env hinv hidle hconnected
      have hadvance : s.advance (session.send z args env).1 =
          System.advance { s with session } (session.send z args env).1 := by
        simp only [System.advance, hcalls]
      rwa [hadvance]

theorem inv_read {r : ReadResult} (h : Inv z heap v s) (hphase : s.session.phase = .reading)
    (harrive : s.arrive (.read r) = some t) :
    Inv z heap v (t.advance (s.session.read r)) := by
  obtain ⟨rest, hrest, rfl⟩ := System.arrive_read harrive
  have hpipe : ∀ k, s.session.connections < k →
      Function.update s.pipe s.session.connections rest k = s.pipe k :=
    fun k hk ↦ Function.update_of_ne hk.ne' _ _
  rcases read_cases s.session r with ⟨phase, hkeep, hread⟩ | ⟨connection, hread⟩
  · rw [hread]
    rw [hphase] at hkeep
    refine inv_advance rfl
      ⟨h.toTracked.frame rfl rfl le_rfl hpipe h.answered, fun hidle ↦ ?_, fun _ ↦ ?_⟩
    · rcases hkeep with rfl | rfl <;> cases hidle
    · obtain ⟨hsettled, e, he, hconnection, hid, hstream⟩ := h.outstanding (.inl hphase)
      refine ⟨hsettled, e, he, hconnection, hid, ?_⟩
      show (s.session.connection.append (Session.bytesRead r)).readBuffer ++
        Function.update s.pipe s.session.connections rest s.session.connections = _
      rw [Function.update_self, append_readBuffer, List.append_assoc, ← hrest]
      exact hstream
  · rw [hread]
    exact inv_advance rfl ⟨h.toTracked.frame rfl rfl le_rfl hpipe h.answered,
      fun _ hconnected ↦ by simp at hconnected, fun hbusy ↦ by simp at hbusy⟩

/-! ## Taking the answer -/

/-- The frames of a response are safe to cut: a truncated one is refused. -/
def Service.Refusable (z : Zstd) (heap : Heap) (v : Service) : Prop :=
  ∀ call request, TruncationsServed z heap (v.response call request).serialize

theorem extractFrame_wire_part {call : ℕ} {request : RpcRequest} {buffer rest : Bytes}
    {result : Except Fault FrameStatus} (hz : RejectsPrefixes z) (hv : v.Refusable z heap)
    (hbuffer : buffer <+: v.wire z call request)
    (hextract : extractFrame z heap buffer = (result, rest))
    (hincomplete : result ≠ .ok .kIncomplete) (herror : result ≠ .ok .kError) :
    buffer = v.wire z call request ∧ rest = [] := by
  have hdata : (v.response call request).serialize ≠ [] := by
    apply List.ne_nil_of_length_pos
    rw [RpcResponse.length_serialize]
    exact Nat.add_pos_left (by decide) _
  cases hframe : frameWire z (v.sessionKey call) (v.response call request).serialize with
  | none =>
      rw [Service.wire, hframe, Option.getD_none, List.prefix_nil] at hbuffer
      have hshort : extractFrame z heap buffer = (.ok .kIncomplete, buffer) :=
        extractFrame_short (by simp [hbuffer])
      rw [hextract] at hshort
      exact absurd (congrArg Prod.fst hshort) hincomplete
  | some wire =>
      have hwire : v.wire z call request = wire := by rw [Service.wire, hframe]; rfl
      rw [hwire] at hbuffer ⊢
      have hpart := extractFrame_part hz (hv call request) hdata hframe hbuffer
      rw [hextract] at hpart
      exact (hpart.resolve_left hincomplete).resolve_left herror

/-- When a call has got a frame, it is the whole answer to its own request,
and nothing else is left. -/
theorem Outstanding.taken {result : Except Fault FrameStatus} {rest : Bytes}
    (h : Outstanding z v s) (hz : RejectsPrefixes z) (hv : v.Refusable z heap)
    (hle : ∀ e, s.exchange s.session.calls = some e →
      e.answered.getD 0 ≤ (v.wire z s.session.calls e.request).length)
    (hextract : extractFrame z heap s.session.connection.readBuffer = (result, rest))
    (hincomplete : result ≠ .ok .kIncomplete) (herror : result ≠ .ok .kError) :
    rest = [] ∧ s.pipe s.session.connections = [] ∧
      ∃ e, s.exchange s.session.calls = some e ∧ e.Complete z v s.session.calls ∧
        e.request.sequenceId = s.session.sequenceId ∧
          s.session.connection.readBuffer = v.wire z s.session.calls e.request := by
  obtain ⟨-, e, he, -, hid, hstream⟩ := h
  have harrived : s.session.connection.readBuffer <+: v.wire z s.session.calls e.request := by
    apply (List.prefix_append _ (s.pipe s.session.connections)).trans
    rw [hstream]
    exact List.take_prefix _ _
  obtain ⟨hwhole, hrest⟩ := extractFrame_wire_part hz hv harrived hextract hincomplete herror
  have hlength := congrArg List.length hstream
  have hsent := hle e he
  rw [hwhole, List.length_append, Exchange.stream, List.length_take] at hlength
  have hpipe : s.pipe s.session.connections = [] :=
    List.eq_nil_of_length_eq_zero (by omega)
  have hpos : 0 < (v.wire z s.session.calls e.request).length := by
    rw [← hwhole]
    by_contra hzero
    rw [extractFrame_short (by omega), Prod.mk.injEq] at hextract
    exact hincomplete hextract.1.symm
  refine ⟨hrest, hpipe, e, he, ?_, hid, hwhole⟩
  unfold Exchange.Complete
  cases hanswered : e.answered with
  | none =>
      rw [hanswered, Option.getD_none] at hlength
      omega
  | some sent =>
      rw [hanswered, Option.getD_some] at hlength hsent
      exact congrArg some (by omega)

theorem Outstanding.quiet {session : Session} {e : Exchange} (h : Outstanding z v s)
    (he : s.exchange s.session.calls = some e) (hcomplete : e.Complete z v s.session.calls)
    (hpipe : s.pipe s.session.connections = [])
    (hconnections : session.connections = s.session.connections)
    (hbuffer : session.connection.readBuffer = []) : Quiet z v { s with session } := by
  obtain ⟨hsettled, -⟩ := h
  refine ⟨hbuffer, (congrArg s.pipe hconnections).trans hpipe, fun call e' he' heq ↦ ?_⟩
  by_cases hcall : call = s.session.calls
  · subst hcall
    obtain rfl : e = e' := Option.some.inj (he.symm.trans he')
    exact hcomplete
  · exact hsettled call e' hcall he' (heq.trans hconnections)

theorem inv_extract (decodes : Bool) (hz : RejectsPrefixes z) (hv : v.Refusable z heap)
    (h : Inv z heap v s) (hphase : s.session.phase = .extracting) :
    Inv z heap v (s.advance (s.session.extract z heap decodes)) := by
  have houtstanding := h.outstanding (.inr hphase)
  have hle := h.answered_le s.session.calls
  generalize hresult : s.session.extract z heap decodes = session
  have hextracted := extracted z heap s.session decodes
  rw [hresult] at hextracted
  cases hextracted with
  | waits hextract =>
      exact inv_advance rfl ⟨h.toTracked.frame rfl rfl le_rfl (fun _ _ ↦ rfl) h.answered,
        fun hidle ↦ (by cases hidle), fun _ ↦ houtstanding⟩
  | givesUp rest hextract =>
      exact inv_advance rfl (inv_of_disconnected h.toTracked rfl rfl rfl rfl rfl)
  | throws fault rest hextract =>
      obtain ⟨rfl, hpipe, e, he, hcomplete, -, -⟩ :=
        houtstanding.taken hz hv hle hextract (by simp) (by simp)
      exact inv_advance rfl ⟨h.toTracked.frame rfl rfl le_rfl (fun _ _ ↦ rfl) h.answered,
        fun _ _ ↦ houtstanding.quiet he hcomplete hpipe rfl rfl, fun hbusy ↦ by simp at hbusy⟩
  | refuses frame rest phase hextract hend hrefused =>
      obtain ⟨rfl, hpipe, e, he, hcomplete, -, -⟩ :=
        houtstanding.taken hz hv hle hextract (by simp) (by simp)
      refine inv_advance rfl ⟨h.toTracked.frame rfl rfl le_rfl (fun _ _ ↦ rfl) h.answered,
        fun _ _ ↦ houtstanding.quiet he hcomplete hpipe rfl rfl, fun hbusy ↦ ?_⟩
      rcases hend with rfl | rfl <;> simp at hbusy
  | accepts frame rest response hextract hdecode hcode hdecodes =>
      obtain ⟨rfl, hpipe, e, he, hcomplete, hid, hwhole⟩ :=
        houtstanding.taken hz hv hle hextract (by simp) (by simp)
      refine inv_advance rfl ⟨h.toTracked.frame rfl rfl le_rfl (fun _ _ ↦ rfl) ?_,
        fun _ _ ↦ houtstanding.quiet he hcomplete hpipe rfl rfl, fun hbusy ↦ by simp at hbusy⟩
      intro entry hmem
      rcases List.mem_append.mp hmem with hmem | hmem
      · exact h.answered entry hmem
      · rw [List.mem_singleton] at hmem
        rw [hmem]
        exact ⟨e, frame, he, hcomplete, hid, hwhole ▸ hextract, hdecode⟩

/-! ## Runs -/

theorem inv_client {a : Action} (hz : RejectsPrefixes z) (hv : v.Refusable z heap)
    (h : Inv z heap v s) (hstep : s.step z heap v (.client a) = some t) : Inv z heap v t := by
  simp only [System.step, Option.bind_eq_some_iff, Option.map_eq_some_iff] at hstep
  obtain ⟨u, harrive, session, hclient, rfl⟩ := hstep
  cases a with
  | call args env =>
      cases harrive
      obtain ⟨hphase, rfl⟩ := step_call hclient
      exact inv_call args env h hphase
  | read r =>
      obtain ⟨hphase, rfl⟩ := step_read hclient
      exact inv_read h hphase harrive
  | fail =>
      cases harrive
      obtain ⟨-, rfl⟩ := step_fail hclient
      exact inv_advance rfl (inv_of_disconnected h.toTracked rfl rfl rfl rfl rfl)
  | extract decodes =>
      cases harrive
      obtain ⟨hphase, rfl⟩ := step_extract hclient
      exact inv_extract decodes hz hv h hphase

theorem inv_step {event : Event} (hz : RejectsPrefixes z) (hv : v.Refusable z heap)
    (h : Inv z heap v s) (hstep : s.step z heap v event = some t) : Inv z heap v t := by
  cases event with
  | client a => exact inv_client hz hv h hstep
  | dispatch call => exact inv_dispatch h hstep
  | write call n => exact inv_write h hstep

theorem inv_start (z : Zstd) (heap : Heap) (v : Service) (fd : ℕ) :
    Inv z heap v (.start fd) where
  unsent _ _ := rfl
  connection_le _ _ h := by cases h
  answered_le _ _ h := by cases h
  pipe_nil _ _ := rfl
  answered _ h := by cases h
  quiet _ _ := ⟨rfl, rfl, fun _ _ h ↦ by cases h⟩
  outstanding h := by simp [System.start, Session.start] at h

theorem inv_run {fd : ℕ} {trace : List (System × Event)} {last : System}
    (hz : RejectsPrefixes z) (hv : v.Refusable z heap)
    (hrun : Run (System.step z heap v) (.start fd) trace last) : Inv z heap v last :=
  hrun.invariant (Inv z heap v) (inv_start z heap v fd) fun _ _ _ _ h hstep ↦
    inv_step hz hv h hstep

/-- If zstd and the heap do their part for this response, then what was taken
from its bytes is the response. -/
theorem Answered.response_eq {entry : Accepted} {e : Exchange} (h : Answered z heap v s entry)
    (he : s.exchange entry.call = some e)
    (hz : RoundTrips z (v.response entry.call e.request).serialize)
    (hheap : heap.Grants (v.response entry.call e.request).serialize.length) :
    entry.response = v.response entry.call e.request := by
  obtain ⟨e', frame, he', -, -, hextract, hdecode⟩ := h
  obtain rfl : e = e' := Option.some.inj (he.symm.trans he')
  rcases extractFrame_cases z heap (v.wire z entry.call e.request) with
    ⟨hmore, -⟩ | ⟨-, -, herror⟩ | ⟨hsize, hwhole, hcut⟩
  · rw [hmore] at hextract
    cases hextract
  · rw [herror] at hextract
    cases hextract
  have hrest : (v.wire z entry.call e.request).length ≤ 4 + maxFrameSize := by
    rw [hcut, Prod.mk.injEq, List.drop_eq_nil_iff] at hextract
    omega
  cases hframe : frameWire z (v.sessionKey entry.call)
      (v.response entry.call e.request).serialize with
  | none =>
      rw [Service.wire, hframe, Option.getD_none, List.length_nil] at hwhole
      omega
  | some wire =>
      have hwire : v.wire z entry.call e.request = wire := by rw [Service.wire, hframe]; rfl
      rw [hwire] at hextract hrest
      have hback := extractFrame_frameWire hz hheap
        (Message.response (v.response entry.call e.request)).hasHeader_serialize hframe hrest []
      rw [List.append_nil, hextract] at hback
      cases hback
      by_cases hbody : (v.response entry.call e.request).bodySize < 2 ^ 32
      · have hsame := (RpcResponse.deserializeTerminated_of_ok
          (RpcResponse.deserialize_serialize .fresh hbody)).symm.trans hdecode
        rw [Except.ok.injEq, Prod.mk.injEq] at hsame
        exact hsame.2.symm
      · have hrefused := (RpcResponse.deserializeTerminated_of_ok
          (RpcResponse.deserialize_serialize_of_le .fresh
            (Nat.le_of_not_lt hbody))).symm.trans hdecode
        simp at hrefused

/-- **No call gets the answer to another one.**  In every run of the client
against the server, each call that returned true took its result from exactly
the bytes the server wrote in answer to the request of this call; and this is
the server's response, if its frame survives the way. -/
theorem answered_own {fd : ℕ} {trace : List (System × Event)} {last : System}
    (hz : RejectsPrefixes z) (hv : v.Refusable z heap)
    (hrun : Run (System.step z heap v) (.start fd) trace last) :
    ∀ entry ∈ last.session.log, Answered z heap v last entry ∧
      ∀ e, last.exchange entry.call = some e →
        RoundTrips z (v.response entry.call e.request).serialize →
          heap.Grants (v.response entry.call e.request).serialize.length →
            entry.response = v.response entry.call e.request := by
  intro entry hmem
  have hanswered := (inv_run hz hv hrun).answered entry hmem
  exact ⟨hanswered, fun e he hround hheap ↦ hanswered.response_eq he hround hheap⟩

/-! ## A late response -/

open StoredFrames

def echo : Service := ⟨fun _ _ ↦ some [0x72], fun _ ↦ AesEncrypt.zeroKey⟩

theorem echo_refusable : echo.Refusable stored gibibyteHeap := by
  intro call request compressed n hcompress hlong
  obtain ⟨hlen, rfl⟩ := compress_eq_some hcompress
  rw [length_storedFrame] at hlong
  omega

def pingRequest (sequenceId : UInt32) : RpcRequest := ⟨sequenceId, [0x53], [0x6d], [0x70]⟩

def echoWire (call : ℕ) : Bytes := echo.wire stored call (pingRequest (UInt32.ofNat call))

/-- The first call times out; its response is written while the second call,
on a new connection, waits for its own. -/
def lateEvents : List Event :=
  [.client (.call pingArgs sentEnv), .client .fail,
    .client (.call pingArgs { sentEnv with newFd := some 4 }),
    .dispatch 1, .dispatch 2, .write 2 5, .write 1 (echoWire 1).length,
    .write 2 ((echoWire 2).length - 5), .client (.read (.bytes (echoWire 2))),
    .client (.extract true)]

theorem executed_late :
    (execute (System.step stored gibibyteHeap echo) (.start 3) lateEvents).isSome = true ∧
      (executed (System.step stored gibibyteHeap echo) (.start 3) lateEvents).2.session.log =
        [⟨2, 2, echo.response 2 (pingRequest 2)⟩] := by
  decide +kernel

theorem answered_own_late :
    Answered stored gibibyteHeap echo
      (executed (System.step stored gibibyteHeap echo) (.start 3) lateEvents).2
      ⟨2, 2, echo.response 2 (pingRequest 2)⟩ :=
  (answered_own stored_rejectsPrefixes echo_refusable (Run.of_isSome executed_late.1) _
    (by rw [executed_late.2]; simp)).1

end MyRpc.RpcClient
