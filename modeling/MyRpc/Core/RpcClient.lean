import MyRpc.Library.PartialRun
import MyRpc.Network.MessageCycle

/-!
# `RpcClient`

`Call` holds a mutex from its first to its last line, so one call at a time is
under way.  Everything in front of `ReadResponse` is one step; from there on
every `read(2)` and every pass of the loop over `ExtractFrame` is a step of
its own, because that is where the peer comes in.  The session carries, next
to the members of the class, what the connection has seen so far: the requests
sent on it and the bytes read from it.
-/

namespace MyRpc.RpcClient

open FixedWidth Connection

/-- The arguments of `Call`; `payload` is what `SerializerManager::serialize`
made of the request, and empty if that failed. -/
structure CallArgs where
  serviceName : Bytes
  methodName : Bytes
  payload : Bytes
  deriving DecidableEq, Repr

/-- What a call meets outside: the socket of `Connect`, if it succeeds, the
session key drawn for the request, and whether all of its bytes are taken. -/
structure CallEnv where
  newFd : Option ℕ
  sessionKey : AesEncrypt.SessionKey
  written : Bool

/-- How far `Call` comes before `ReadResponse`.  All but the last are logged and returned
as false; of the string that `Write` has failed on, a part may have been taken. -/
inductive Report
  | notConnected
  | notSerialized
  | notSent (tried : Bytes)
  | sent (wire : Bytes)
  deriving DecidableEq, Repr

inductive Phase
  | idle
  | reading
  | extracting
  | undefined
  deriving DecidableEq, Repr

/-- A call that returned true: its number, the sequence id it put into its
request, and the response it took its result from. -/
structure Accepted where
  call : ℕ
  sequenceId : UInt32
  response : RpcResponse
  deriving DecidableEq, Repr

/-- The members `connection_`, `is_connected_` and `sequence_id_`, where the
call under way stands, the number of requests and of connections so far, what
has passed on the present connection, and the calls that returned true. -/
structure Session where
  connection : Connection
  isConnected : Bool
  sequenceId : UInt32
  phase : Phase
  calls : ℕ
  connections : ℕ
  asked : List RpcRequest
  received : Bytes
  log : List Accepted
  deriving DecidableEq, Repr

namespace Session

def start (fd : ℕ) : Session :=
  { connection := ofFd fd
    isConnected := true
    sequenceId := 0
    phase := .idle
    calls := 0
    connections := 0
    asked := []
    received := []
    log := [] }

/-- `IsConnected() || Connect()`; a new socket comes with a new `Connection`. -/
def connect (s : Session) (newFd : Option ℕ) : Option Session :=
  if s.isConnected then some s
  else newFd.map fun fd ↦
    { s with
      connection := ofFd fd
      isConnected := true
      connections := s.connections + 1
      asked := []
      received := [] }

/-- The request that `Call` makes of its arguments. -/
def request (s : Session) (args : CallArgs) : RpcRequest :=
  ⟨s.sequenceId + 1, args.serviceName, args.methodName, args.payload⟩

/-- The string `Call` hands to `Write`. -/
def requestWire (z : Zstd) (s : Session) (args : CallArgs) (env : CallEnv) : Bytes :=
  (frameWire z env.sessionKey (s.request args).serialize).getD []

/-- The session once `request` is on its way. -/
def sent (s : Session) (request : RpcRequest) : Session :=
  { s with
    sequenceId := request.sequenceId
    phase := .reading
    calls := s.calls + 1
    asked := s.asked ++ [request] }

/-- `Call` up to `ReadResponse`, on a connected client. -/
def send (z : Zstd) (s : Session) (args : CallArgs) (env : CallEnv) : Session × Report :=
  if args.payload.isEmpty then (s, .notSerialized)
  else
    let request := s.request args
    let wire := s.requestWire z args env
    if s.connection.canWrite wire then
      if env.written then (s.sent request, .sent wire)
      else
        ({ s with
            sequenceId := request.sequenceId
            connection := s.connection.markDisconnected
            isConnected := false }, .notSent wire)
    else ({ s with sequenceId := request.sequenceId, isConnected := false }, .notSent [])

/-- `Call` up to `ReadResponse`. -/
def attempt (z : Zstd) (s : Session) (args : CallArgs) (env : CallEnv) : Session × Report :=
  match s.connect env.newFd with
  | none => (s, .notConnected)
  | some s => s.send z args env

def call (z : Zstd) (s : Session) (args : CallArgs) (env : CallEnv) : Session :=
  (s.attempt z args env).1

def report (z : Zstd) (s : Session) (args : CallArgs) (env : CallEnv) : Report :=
  (s.attempt z args env).2

def bytesRead : ReadResult → Bytes
  | .bytes buf => buf
  | _ => []

def read (s : Session) (r : ReadResult) : Session :=
  match s.connection.onRead r with
  | (connection, .next) => { s with connection, received := s.received ++ bytesRead r }
  | (connection, .done true) =>
      { s with connection, received := s.received ++ bytesRead r, phase := .extracting }
  | (connection, .done false) => { s with connection, isConnected := false, phase := .idle }

/-- `ReadWithTimeout` returning false: a timeout, or an error of `select`. -/
def fail (s : Session) : Session := { s with isConnected := false, phase := .idle }

/-- `ReadResponse` behind the loop, on the frame it got; `decodes` is the
answer of `SerializerManager::deserialize`.  A read behind the NUL of the frame
ends the run. -/
def accept (s : Session) (frame : Bytes) (decodes : Bool) : Session :=
  match RpcResponse.deserializeTerminated .fresh frame with
  | .error _ => { s with phase := .undefined }
  | .ok (false, _) => { s with phase := .idle }
  | .ok (true, rpcResponse) =>
      if rpcResponse.errorCode ≠ ErrorCode.success.toUInt32 then { s with phase := .idle }
      else if decodes then
        { s with phase := .idle, log := s.log ++ [⟨s.calls, s.sequenceId, rpcResponse⟩] }
      else { s with phase := .idle }

def withBuffer (s : Session) (readBuffer : Bytes) : Session :=
  { s with connection := { s.connection with readBuffer } }

/-- One pass of the loop of `ReadResponse` behind `ReadWithTimeout`.  An
exception leaves `Call` and unlocks the mutex, nothing else. -/
def extract (z : Zstd) (heap : Heap) (s : Session) (decodes : Bool) : Session :=
  let (result, readBuffer) := extractFrame z heap s.connection.readBuffer
  let s := s.withBuffer readBuffer
  match result with
  | .error _ => { s with phase := .idle }
  | .ok .kIncomplete => { s with phase := .reading }
  | .ok .kError => { s with isConnected := false, phase := .idle }
  | .ok (.kComplete frame) => s.accept frame decodes

end Session

inductive Action
  | call (args : CallArgs) (env : CallEnv)
  | read (r : ReadResult)
  | fail
  | extract (decodes : Bool)

/-- The client against a peer that may send anything at any time. -/
def step (z : Zstd) (heap : Heap) (s : Session) : Action → Option Session
  | .call args env => if s.phase = .idle then some (s.call z args env) else none
  | .read r =>
      if s.phase = .reading ∧ s.connection.state = .connected ∧ r ≠ .bytes [] then
        some (s.read r)
      else none
  | .fail => if s.phase = .reading then some s.fail else none
  | .extract decodes =>
      if s.phase = .extracting then some (s.extract z heap decodes) else none

/-! ## What the parts of a call do -/

variable {z : Zstd} {heap : Heap} {s t : Session}

/-- A request is on its way, or the client is as it was with respect to what
has passed on its connection. -/
theorem send_cases (z : Zstd) (s : Session) (args : CallArgs) (env : CallEnv) :
    (∃ request, (s.send z args env).1 = s.sent request) ∨
      (s.send z args env).1 = s ∨
        (s.send z args env).1.isConnected = false ∧ (s.send z args env).1.phase = s.phase ∧
          (s.send z args env).1.calls = s.calls ∧
            (s.send z args env).1.connections = s.connections ∧
              (s.send z args env).1.log = s.log := by
  unfold Session.send
  by_cases hpayload : args.payload.isEmpty = true
  · rw [if_pos hpayload]
    exact .inr (.inl rfl)
  rw [if_neg hpayload]
  dsimp only
  split
  · split
    · exact .inl ⟨s.request args, rfl⟩
    · exact .inr (.inr ⟨rfl, rfl, rfl, rfl, rfl⟩)
  · exact .inr (.inr ⟨rfl, rfl, rfl, rfl, rfl⟩)

theorem call_of_connect {args : CallArgs} {env : CallEnv}
    (hconnect : s.connect env.newFd = some t) : s.call z args env = (t.send z args env).1 := by
  simp only [Session.call, Session.attempt, hconnect]

theorem call_of_not_connect {args : CallArgs} {env : CallEnv}
    (hconnect : s.connect env.newFd = none) : s.call z args env = s := by
  simp only [Session.call, Session.attempt, hconnect]

theorem read_cases (s : Session) (r : ReadResult) :
    (∃ phase, (phase = s.phase ∨ phase = .extracting) ∧
        s.read r =
          { s with
            connection := s.connection.append (Session.bytesRead r)
            received := s.received ++ Session.bytesRead r
            phase }) ∨
      ∃ connection, s.read r = { s with connection, isConnected := false, phase := .idle } := by
  cases r with
  | again => exact .inl ⟨.extracting, .inr rfl, by simp [Session.read, onRead, Session.bytesRead]⟩
  | endOfStream => exact .inr ⟨_, rfl⟩
  | error => exact .inr ⟨_, rfl⟩
  | bytes buf =>
      by_cases hover : maxBufferSize < s.connection.readBuffer.length + buf.length
      · exact .inr ⟨_, by rw [Session.read, onRead_overflow hover]⟩
      have hfit := Nat.le_of_not_lt hover
      left
      by_cases hshort : buf.length < readSize
      · exact ⟨.extracting, .inr rfl, by rw [Session.read, onRead_short hfit hshort]; rfl⟩
      · have hfull := Nat.le_of_not_lt hshort
        exact ⟨s.phase, .inl rfl, by rw [Session.read, onRead_full hfit hfull]; rfl⟩

/-- A frame that `ReadResponse` does not accept, whatever the result type. -/
def Refused (frame : Bytes) : Prop :=
  ∀ response, RpcResponse.deserializeTerminated .fresh frame = .ok (true, response) →
    response.errorCode ≠ ErrorCode.success.toUInt32

theorem accept_cases (s : Session) (frame : Bytes) (decodes : Bool) :
    (∃ phase, (phase = .idle ∨ phase = .undefined) ∧ s.accept frame decodes = { s with phase } ∧
        (decodes = true → Refused frame)) ∨
      ∃ response, RpcResponse.deserializeTerminated .fresh frame = .ok (true, response) ∧
        response.errorCode = ErrorCode.success.toUInt32 ∧ decodes = true ∧
          s.accept frame decodes =
            { s with phase := .idle, log := s.log ++ [⟨s.calls, s.sequenceId, response⟩] } := by
  unfold Session.accept Refused
  cases RpcResponse.deserializeTerminated .fresh frame with
  | error fault => exact .inl ⟨.undefined, .inr rfl, rfl, by simp⟩
  | ok result =>
      obtain ⟨ok, response⟩ := result
      cases ok with
      | false => exact .inl ⟨.idle, .inl rfl, rfl, by simp⟩
      | true =>
          by_cases hcode : response.errorCode = ErrorCode.success.toUInt32
          · cases decodes with
            | false => exact .inl ⟨.idle, .inl rfl, by simp, by simp⟩
            | true => exact .inr ⟨response, rfl, hcode, rfl, by simp [hcode]⟩
          · exact .inl ⟨.idle, .inl rfl, by simp [hcode], by simp [hcode]⟩

inductive Extracted (z : Zstd) (heap : Heap) (s : Session) (decodes : Bool) : Session → Prop
  | waits
      (hextract : extractFrame z heap s.connection.readBuffer =
        (.ok .kIncomplete, s.connection.readBuffer)) :
      Extracted z heap s decodes { s with phase := .reading }
  | givesUp (rest : Bytes)
      (hextract : extractFrame z heap s.connection.readBuffer = (.ok .kError, rest)) :
      Extracted z heap s decodes
        { s.withBuffer rest with isConnected := false, phase := .idle }
  | throws (fault : Fault) (rest : Bytes)
      (hextract : extractFrame z heap s.connection.readBuffer = (.error fault, rest)) :
      Extracted z heap s decodes { s.withBuffer rest with phase := .idle }
  | refuses (frame rest : Bytes) (phase : Phase)
      (hextract : extractFrame z heap s.connection.readBuffer = (.ok (.kComplete frame), rest))
      (hphase : phase = .idle ∨ phase = .undefined)
      (hrefused : decodes = true → Refused frame) :
      Extracted z heap s decodes { s.withBuffer rest with phase }
  | accepts (frame rest : Bytes) (response : RpcResponse)
      (hextract : extractFrame z heap s.connection.readBuffer = (.ok (.kComplete frame), rest))
      (hdecode : RpcResponse.deserializeTerminated .fresh frame = .ok (true, response))
      (hcode : response.errorCode = ErrorCode.success.toUInt32) (hdecodes : decodes = true) :
      Extracted z heap s decodes
        { s.withBuffer rest with
          phase := .idle
          log := s.log ++ [⟨s.calls, s.sequenceId, response⟩] }

theorem extracted (z : Zstd) (heap : Heap) (s : Session) (decodes : Bool) :
    Extracted z heap s decodes (s.extract z heap decodes) := by
  obtain ⟨result, rest, hextract⟩ : ∃ result rest,
      extractFrame z heap s.connection.readBuffer = (result, rest) := ⟨_, _, rfl⟩
  cases result with
  | error fault =>
      have heq : s.extract z heap decodes = { s.withBuffer rest with phase := .idle } := by
        rw [Session.extract, hextract]
      rw [heq]
      exact .throws fault rest hextract
  | ok status =>
      cases status with
      | kIncomplete =>
          have hrest : rest = s.connection.readBuffer := by
            rcases extractFrame_cases z heap s.connection.readBuffer with
              ⟨hmore, -⟩ | ⟨-, -, herror⟩ | ⟨-, -, hcut⟩
            · rw [hextract] at hmore
              exact congrArg Prod.snd hmore
            · rw [hextract] at herror
              cases herror
            · rw [hextract, Prod.mk.injEq] at hcut
              exact absurd hcut.1.symm (decodeFrame_ne_kIncomplete z heap _)
          have heq : s.extract z heap decodes = { s with phase := .reading } := by
            rw [Session.extract, hextract, hrest]
            rfl
          rw [heq]
          exact .waits (hrest ▸ hextract)
      | kError =>
          have heq : s.extract z heap decodes =
              { s.withBuffer rest with isConnected := false, phase := .idle } := by
            rw [Session.extract, hextract]
          rw [heq]
          exact .givesUp rest hextract
      | kComplete frame =>
          have heq : s.extract z heap decodes = (s.withBuffer rest).accept frame decodes := by
            rw [Session.extract, hextract]
          rw [heq]
          rcases accept_cases (s.withBuffer rest) frame decodes with
            ⟨phase, hphase, hsame, hrefused⟩ | ⟨response, hdecode, hcode, hdecodes, hlogged⟩
          · rw [hsame]
            exact .refuses frame rest phase hextract hphase hrefused
          · rw [hlogged]
            exact .accepts frame rest response hextract hdecode hcode hdecodes

/-! ## The steps -/

theorem step_call {args : CallArgs} {env : CallEnv}
    (h : step z heap s (.call args env) = some t) : s.phase = .idle ∧ t = s.call z args env := by
  simp only [step, Option.ite_none_right_eq_some, Option.some.injEq] at h
  exact ⟨h.1, h.2.symm⟩

theorem step_read {r : ReadResult} (h : step z heap s (.read r) = some t) :
    s.phase = .reading ∧ t = s.read r := by
  simp only [step, Option.ite_none_right_eq_some, Option.some.injEq] at h
  exact ⟨h.1.1, h.2.symm⟩

theorem step_fail (h : step z heap s .fail = some t) : s.phase = .reading ∧ t = s.fail := by
  simp only [step, Option.ite_none_right_eq_some, Option.some.injEq] at h
  exact ⟨h.1, h.2.symm⟩

theorem step_extract {decodes : Bool} (h : step z heap s (.extract decodes) = some t) :
    s.phase = .extracting ∧ t = s.extract z heap decodes := by
  simp only [step, Option.ite_none_right_eq_some, Option.some.injEq] at h
  exact ⟨h.1, h.2.symm⟩

/-! ## A small call -/

def pingArgs : CallArgs := ⟨[0x53], [0x6d], [0x70]⟩

def sentEnv : CallEnv := ⟨none, AesEncrypt.zeroKey, true⟩

end MyRpc.RpcClient
