import MyRpc.Compress.ZstdCompress
import MyRpc.Encrypt.AesEncrypt

/-!
# `Connection`

The class is modelled by its three members.  A loop around a system call is
given by what one result of the call does to the object and to the loop
(`onRead`, `onWrite`), so that the same code can be run against a socket
whose content is known (`read`) and inside a system in which bytes arrive,
and other threads write, between two calls.
-/

namespace MyRpc

open FixedWidth ZstdCompress

namespace Connection

inductive State
  | connected
  | disconnected
  deriving DecidableEq, Repr

/-- `FrameStatus`, with the frame that `kComplete` stores into `frame_out`. -/
inductive FrameStatus
  | kIncomplete
  | kComplete (frameOut : Bytes)
  | kError
  deriving DecidableEq, Repr

def maxBufferSize : ℕ := 1024 * 1024

def maxFrameSize : ℕ := 16 * 1024 * 1024

def readSize : ℕ := 4096

end Connection

structure Connection where
  fd : ℤ
  readBuffer : Bytes
  state : Connection.State
  deriving DecidableEq, Repr

namespace Connection

def ofFd (fd : ℤ) : Connection :=
  ⟨fd, [], if 0 ≤ fd then .connected else .disconnected⟩

/-- `Close`; the descriptor is given back if there is one. -/
def close (self : Connection) : Connection :=
  { self with fd := if 0 ≤ self.fd then -1 else self.fd, state := .disconnected }

/-! ## Reading -/

/-- What one `::read(fd_, buf, sizeof(buf))` reports; `error` stands for every
`errno` other than `EAGAIN` and `EWOULDBLOCK`. -/
inductive ReadResult
  | bytes (buf : Bytes)
  | endOfStream
  | again
  | error
  deriving DecidableEq, Repr

/-- Whether the loop of `Read` or of `Write` goes on, or the function returns. -/
inductive LoopStep
  | next
  | done (ok : Bool)
  deriving DecidableEq, Repr

/-- The body of the loop of `Read` after the system call. -/
def onRead (self : Connection) : ReadResult → Connection × LoopStep
  | .again => (self, .done true)
  | .error => ({ self with state := .disconnected }, .done false)
  | .endOfStream => ({ self with state := .disconnected }, .done false)
  | .bytes buf =>
      if self.readBuffer.length + buf.length > maxBufferSize then
        ({ self with state := .disconnected }, .done false)
      else
        let self := { self with readBuffer := self.readBuffer ++ buf }
        if buf.length < readSize then (self, .done true) else (self, .next)

/-- A socket as its reader sees it while nothing arrives: the receive queue,
whether the peer has closed, and `O_NONBLOCK`. -/
structure Socket where
  queue : Bytes
  eof : Bool
  nonblocking : Bool
  deriving DecidableEq, Repr

/-- `read(2)` with a buffer of `readSize` bytes; `none` when it blocks. -/
def Socket.read (s : Socket) : Option (ReadResult × Socket) :=
  if s.queue.isEmpty then
    if s.eof then some (.endOfStream, s)
    else if s.nonblocking then some (.again, s)
    else none
  else some (.bytes (s.queue.take readSize), { s with queue := s.queue.drop readSize })

/-- How a call of `Read` ends: it returns, or it hangs in `read(2)`. -/
inductive ReadOutcome
  | returned (ok : Bool) (conn : Connection) (socket : Socket)
  | blocked (conn : Connection) (socket : Socket)
  deriving DecidableEq, Repr

theorem read_lt {self conn : Connection} {s s' : Socket} {r : ReadResult}
    (hread : s.read = some (r, s')) (hnext : self.onRead r = (conn, .next)) :
    s'.queue.length < s.queue.length := by
  unfold Socket.read at hread
  by_cases hqueue : s.queue = []
  · simp only [hqueue, List.isEmpty_nil, if_true] at hread
    split at hread
    · cases hread
      simp [onRead] at hnext
    · split at hread <;> cases hread
      simp [onRead] at hnext
  · rw [if_neg (by simpa using hqueue)] at hread
    cases hread
    have hpos : 0 < s.queue.length := List.length_pos_iff.mpr hqueue
    simp only [List.length_drop, readSize]
    omega

def readLoop (self : Connection) (s : Socket) : ReadOutcome :=
  match _hread : s.read with
  | none => .blocked self s
  | some (r, s') =>
      match _hstep : self.onRead r with
      | (self, .done ok) => .returned ok self s'
      | (self, .next) => readLoop self s'
termination_by s.queue.length
decreasing_by exact read_lt _hread _hstep

def read (self : Connection) (s : Socket) : ReadOutcome :=
  if self.state ≠ .connected then .returned false self s else self.readLoop s

inductive SelectResult
  | interrupted
  | error
  | timeout
  | readable
  deriving DecidableEq, Repr

/-- `ReadWithTimeout`, given what its calls of `select` report and the socket
at each of these moments; `none` while it is still waiting. -/
def readWithTimeout (self : Connection) : List (SelectResult × Socket) → Option ReadOutcome
  | [] => none
  | (.interrupted, _) :: selects => self.readWithTimeout selects
  | (.error, s) :: _ => some (.returned false self s)
  | (.timeout, s) :: _ => some (.returned false self s)
  | (.readable, s) :: _ => some (self.read s)

/-! ## Cutting a frame -/

/-- The last part of `ExtractFrame`: a decompressed string is a frame when it
starts with a header that carries the magic number. -/
def checkFrame (decompressed : Bytes) : Except Fault FrameStatus := do
  if decompressed.length < RpcHeader.size then return .kError
  let header ← RpcHeader.read decompressed
  if header.magicNumber ≠ RpcHeader.magic then return .kError
  return .kComplete decompressed

def decodeFrame (z : Zstd) (heap : Heap) (ciphertext : Bytes) : Except Fault FrameStatus :=
  match AesEncrypt.decrypt ciphertext with
  | none => .ok .kError
  | some decrypted =>
      match decompressString z heap decrypted with
      | .error fault => .error fault
      | .ok none => .ok .kError
      | .ok (some decompressed) => checkFrame decompressed

/-- `ExtractFrame` on `read_buffer_`, the only member it touches: its result,
or what it throws, and the buffer afterwards. -/
def extractFrame (z : Zstd) (heap : Heap) (readBuffer : Bytes) :
    Except Fault FrameStatus × Bytes :=
  if readBuffer.length < 4 then (.ok .kIncomplete, readBuffer)
  else
    let cipherLen := beNat (readBuffer.take 4)
    if cipherLen > maxFrameSize then (.ok .kError, readBuffer)
    else
      let totalLen := 4 + cipherLen
      if readBuffer.length < totalLen then (.ok .kIncomplete, readBuffer)
      else
        let ciphertext := slice readBuffer 4 cipherLen
        (decodeFrame z heap ciphertext, readBuffer.drop totalLen)

/-! ## Writing -/

/-- The string `WriteFrame` hands to `Write`. -/
def frameWire (z : Zstd) (sessionKey : AesEncrypt.SessionKey) (data : Bytes) : Option Bytes := do
  let compressed ← compressString z data
  let encrypted ← AesEncrypt.encrypt sessionKey compressed
  let cipherLen := UInt32.ofNat encrypted.length
  some (beBytes 4 cipherLen.toNat ++ encrypted)

/-- What one `::write` reports: how many bytes it took, `EAGAIN`, or another
error. -/
inductive WriteResult
  | wrote (n : ℕ)
  | again
  | error
  deriving DecidableEq, Repr

/-- Whether `Write(data)` comes to its loop. -/
def canWrite (self : Connection) (data : Bytes) : Prop :=
  self.state = .connected ∧ data ≠ []

instance (self : Connection) (data : Bytes) : Decidable (self.canWrite data) :=
  inferInstanceAs (Decidable (_ ∧ _))

/-- The body of the loop of `Write(data)` after the system call: the new value
of `sent`, and whether the loop is left. -/
def onWrite (self : Connection) (size sent : ℕ) : WriteResult → Connection × ℕ × LoopStep
  | .wrote n =>
      let sent := sent + n
      (self, sent, if sent < size then .next else .done true)
  | .again => (self, sent, .next)
  | .error => ({ self with state := .disconnected }, sent, .done false)

end Connection

end MyRpc
