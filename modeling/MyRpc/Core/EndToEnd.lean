import MyRpc.Core.Payload
import MyRpc.Core.RequestResponse
import MyRpc.Network.Sockets

/-!
# The client, the server, and the bytes between them

`RpcClient` on the one side, the event loop and the workers of the server on the
other, and between them nothing but bytes: what the client has written on a
connection waits there until a `read(2)` of the event loop takes any part of it,
and what a worker has written until the client reads it.  Which bytes a `read(2)`
or a `write(2)` of the server moves is decided by its table of descriptors.  Other
clients use the same server, and may send it anything.
-/

namespace MyRpc.EndToEnd

open FixedWidth ZstdCompress PartialRun Connection MessageCycle
open RpcClient (Session CallArgs CallEnv Service)
open Descriptors (Server)

/-- `up` and `down` are the bytes under way on each connection of the client, and
`peer` tells which of these connections a socket of the server is the other end of.
`latest` and `owner` are a history: the call whose request was the last one sent on
a connection, and the call that each task of the server is for. -/
structure Net where
  session : Session
  server : Server
  up : ℕ → Bytes
  down : ℕ → Bytes
  peer : ℕ → Option ℕ
  latest : ℕ → ℕ
  owner : List (Option ℕ)

inductive Event
  | client (a : RpcClient.Action) (n : ℕ)
  | accept (fd : ℤ) (k : Option ℕ)
  | server (a : Descriptors.Action)

/-- What leaves the client when it makes a call: the whole string handed to `Write`, or
any part of it that lacks the end, if `Write` fails. -/
def sentBytes (z : Zstd) (s : Session) (args : CallArgs) (env : CallEnv) (n : ℕ) : Bytes :=
  match s.report z args env with
  | .sent wire => wire
  | .notSent tried => tried.dropLast.take n
  | .notConnected | .notSerialized => []

namespace Net

def start (fd : ℕ) (table : ℤ → Option Descriptors.File) : Net :=
  { session := .start fd
    server := .start table
    up := fun _ ↦ []
    down := fun _ ↦ []
    peer := fun _ ↦ none
    latest := fun _ ↦ 0
    owner := [] }

/-- The client's connection at the other end of an object's descriptor. -/
def connection (s : Net) (a : ℕ) : Option ℕ :=
  (s.server.objects a).bind fun o ↦
    match s.server.table o.conn.fd with
    | some (.client n) => s.peer n
    | _ => none

/-- The connection is in the queue of the listening socket. -/
def Waits (s : Net) (k : ℕ) : Prop :=
  k ≤ s.session.connections ∧ ∀ n < s.server.sockets, s.peer n ≠ some k

instance (s : Net) (k : ℕ) : Decidable (s.Waits k) := inferInstanceAs (Decidable (_ ∧ _))

/-- The bytes that the client's `read(2)` returns are the first ones. -/
def receive (s : Net) : RpcClient.Action → Option Net
  | .read (.bytes buf) =>
      let k := s.session.connections
      if buf <+: s.down k then
        some { s with down := Function.update s.down k ((s.down k).drop buf.length) }
      else none
  | _ => some s

def transmit (z : Zstd) (s : Net) (session : Session) : RpcClient.Action → ℕ → Net
  | .call args env, n =>
      let k := session.connections
      { s with
        session
        up := Function.update s.up k (s.up k ++ sentBytes z s.session args env n)
        latest :=
          if session.calls = s.session.calls then s.latest
          else Function.update s.latest k session.calls }
  | _, _ => { s with session }

/-- What the kernel does for a system call of the server. -/
def transfer (z : Zstd) (v : Service) (s : Net) : Descriptors.Action → Option Net
  | .accept _ => none
  | .read (.bytes buf) =>
      match s.server.loop with
      | .reading _ a =>
          match s.connection a with
          | none => some s
          | some k =>
              if buf ≠ [] ∧ buf.length ≤ readSize ∧ buf <+: s.up k then
                some { s with up := Function.update s.up k ((s.up k).drop buf.length) }
              else none
      | _ => none
  | .respond i size =>
      match s.server.tasks[i]? with
      | none => none
      | some task => if size = (v.wire z i task.request).length then some s else none
  | .write i (.wrote n) =>
      match s.server.tasks[i]? with
      | some ⟨a, request, _, .writing _ sent⟩ =>
          if sent + n ≤ (v.wire z i request).length then
            match s.connection a with
            | none => some s
            | some k =>
                some
                  { s with
                    down := Function.update s.down k
                      (s.down k ++ slice (v.wire z i request) sent n) }
          else none
      | _ => none
  | _ => some s

/-- The server goes on; a new task is for the call that was the last one on the
connection it was cut off from. -/
def record (s : Net) (server : Server) : Net :=
  if server.tasks.length = s.server.tasks.length then { s with server }
  else
    { s with
      server
      owner := s.owner ++ [(s.server.loop.object?.bind s.connection).map s.latest] }

/-- What the service manager returns, and which session key is drawn, may depend
on the number of the task. -/
def step (z : Zstd) (heap : Heap) (v : Service) (s : Net) : Event → Option Net
  | .client a n =>
      (s.receive a).bind fun t ↦
        (RpcClient.step z heap s.session a).map fun session ↦ t.transmit z session a n
  | .accept fd k =>
      if ∀ c ∈ k, s.Waits c then
        (Descriptors.step z heap s.server (.accept fd)).map fun server ↦
          { s with server, peer := Function.update s.peer s.server.sockets k }
      else none
  | .server a =>
      (s.transfer z v a).bind fun t ↦
        (Descriptors.step z heap s.server a).map fun server ↦ t.record server

end Net

/-! ## The bytes of one request -/

/-- The request fits its header, and zstd does its part for it. -/
structure Carried (z : Zstd) (heap : Heap) (request : RpcRequest) : Prop where
  bodySize_lt : request.bodySize < 2 ^ 32
  roundTrips : RoundTrips z request.serialize
  truncations : TruncationsServed z heap request.serialize

/-- The bytes of a request on a connection. -/
structure Wire (z : Zstd) (heap : Heap) (request : RpcRequest) (wire : Bytes) : Prop where
  carried : Carried z heap request
  framed : ∃ sessionKey, frameWire z sessionKey request.serialize = some wire

variable {z : Zstd} {heap : Heap} {request request' : RpcRequest} {wire buffer rest : Bytes}

theorem serialize_ne_nil (request : RpcRequest) : request.serialize ≠ [] := by
  apply List.ne_nil_of_length_pos
  rw [RpcRequest.length_serialize]
  exact Nat.add_pos_left (by decide) _

/-- What is decompressed is what was compressed, whatever the heap does. -/
theorem eq_of_decompressString {src dst out : Bytes} (hz : RoundTrips z src)
    (hlength : src.length < 2 ^ 64) (hsrc : src ≠ []) (hdst : dst ≠ [])
    (hcompress : compressString z src = some dst)
    (h : decompressString z heap dst = .ok (some out)) : out = src := by
  rw [compressString, if_neg (by simpa using hsrc)] at hcompress
  obtain ⟨hsize, hback⟩ := hz dst hcompress
  have htoNat : (z.getFrameContentSize dst).toNat = src.length := by
    rw [hsize, UInt64.toNat_ofNat', Nat.mod_eq_of_lt hlength]
  simp only [decompressString, if_neg (show ¬ dst.isEmpty = true by simpa using hdst)] at h
  split at h
  · cases h
  · rw [htoNat, hback] at h
    cases hresize : heap.resize src.length with
    | error fault => rw [hresize] at h; cases h
    | ok u =>
        rw [hresize] at h
        cases h
        rfl

/-- A frame that is cut off from all the bytes of a request holds the request. -/
theorem Wire.frame_eq {frame : Bytes} (h : Wire z heap request wire)
    (hextract : extractFrame z heap wire = (.ok (.kComplete frame), [])) :
    frame = request.serialize := by
  obtain ⟨sessionKey, hframe⟩ := h.framed
  obtain ⟨compressed, encrypted, hcompress, hencrypt, rfl⟩ := frameWire_eq_some hframe
  rcases extractFrame_cases z heap (beBytes 4 (UInt32.ofNat encrypted.length).toNat ++ encrypted)
    with ⟨hmore, -⟩ | ⟨-, -, herror⟩ | ⟨-, hwhole, hcut⟩
  · rw [hmore] at hextract
    cases hextract
  · rw [herror] at hextract
    cases hextract
  rw [hcut, Prod.mk.injEq, List.drop_eq_nil_iff] at hextract
  obtain ⟨hdecode, hnothing⟩ := hextract
  simp only [List.length_append, length_beBytes] at hwhole hnothing
  have hcipher : slice (beBytes 4 (UInt32.ofNat encrypted.length).toNat ++ encrypted) 4
      (cipherLen (beBytes 4 (UInt32.ofNat encrypted.length).toNat ++ encrypted)) = encrypted := by
    rw [slice, List.drop_left' (length_beBytes _ _)]
    exact List.take_of_length_le (by omega)
  rw [hcipher] at hdecode
  obtain ⟨decrypted, hdecrypt, hdecompress, -⟩ := decodeFrame_eq_complete.mp hdecode
  rw [AesEncrypt.decrypt_encrypt hencrypt, Option.some.injEq] at hdecrypt
  subst hdecrypt
  have hlength := request.length_serialize
  have hbody := h.carried.bodySize_lt
  exact eq_of_decompressString h.carried.roundTrips (by rw [hlength, RpcHeader.size]; omega)
    (serialize_ne_nil request) (AesEncrypt.encrypt_eq_some hencrypt).1 hcompress hdecompress

/-- **Nothing but the request itself** is dispatched from its bytes, and not
before all of them are there. -/
theorem Wire.pass_dispatches (h : Wire z heap request wire) (hz : RejectsPrefixes z)
    (hbuffer : buffer <+: wire) (hpass : framePass z heap buffer = .dispatches request' rest) :
    buffer = wire ∧ request' = request ∧ rest = [] := by
  obtain ⟨sessionKey, hframe⟩ := h.framed
  have hpart := extractFrame_part hz h.carried.truncations (serialize_ne_nil request) hframe hbuffer
  unfold framePass at hpass
  split at hpass
  · cases hpass
  · cases hpass
  · cases hpass
  · rename_i frame left hextract
    rw [hextract] at hpart
    obtain ⟨rfl, rfl⟩ : buffer = wire ∧ left = [] := by simpa using hpart
    obtain rfl := h.frame_eq hextract
    split at hpass <;> cases hpass
    rename_i hdecode
    refine ⟨rfl, ?_, rfl⟩
    rw [RpcRequest.deserialize_serialize .fresh h.carried.bodySize_lt] at hdecode
    cases hdecode
    rfl

end MyRpc.EndToEnd
