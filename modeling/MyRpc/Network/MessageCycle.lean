import MyRpc.Compress.StoredFrames
import MyRpc.Network.Framing
import MyRpc.Network.ReadLoop
import MyRpc.Protocol.Bounds

/-!
# The event loop's handling of one connection

`handleClientData` reads once, then cuts and dispatches frames until the
buffer does not hold a whole one.  Nothing between `ExtractFrame` and the
event loop catches an exception, so one pass of the loop dispatches, waits or
removes the connection exactly when `ExtractFrame` returns a status; and it
does so unless a frame that opens announces a decompressed size which the
heap does not serve.
-/

namespace MyRpc

open FixedWidth ZstdCompress

inductive ErrorCode
  | success
  | serviceNotFound
  | methodNotFound
  | invalidRequest
  | internalError
  deriving DecidableEq, Repr

namespace ErrorCode

def toUInt32 : ErrorCode → UInt32
  | success => 0
  | serviceNotFound => 3000
  | methodNotFound => 3001
  | invalidRequest => 6000
  | internalError => 6002

def message : ErrorCode → String
  | success => "Success"
  | serviceNotFound => "Service not found"
  | methodNotFound => "Method not found"
  | invalidRequest => "Invalid request"
  | internalError => "Internal error"

def getErrorMessage (code : ErrorCode) : Bytes :=
  code.message.toList.map fun c ↦ UInt8.ofNat c.toNat

end ErrorCode

namespace MessageCycle

open Connection

/-- The response `SendErrorResponse` writes. -/
def errorResponse (sequenceId : UInt32) (code : ErrorCode) : RpcResponse :=
  { RpcResponse.fresh with
    sequenceId
    errorCode := code.toUInt32
    errorMessage := code.getErrorMessage }

/-- The response `HandleRpcRequestSync` writes, given what the service manager
returned for the request. -/
def handleRpcRequestSync (request : RpcRequest) (result : Option Bytes) : RpcResponse :=
  if request.serviceName.isEmpty ∨ request.methodName.isEmpty then
    errorResponse request.sequenceId .invalidRequest
  else
    match result with
    | none => errorResponse request.sequenceId .serviceNotFound
    | some resultData =>
        { sequenceId := request.sequenceId
          resultData
          errorMessage := ErrorCode.success.getErrorMessage
          errorCode := ErrorCode.success.toUInt32 }

/-- Whatever becomes of a request, the response carries its sequence id. -/
@[simp] theorem handleRpcRequestSync_sequenceId (request : RpcRequest)
    (result : Option Bytes) :
    (handleRpcRequestSync request result).sequenceId = request.sequenceId := by
  unfold handleRpcRequestSync
  split
  · rfl
  · cases result <;> rfl

/-- What one pass of the loop of `HandleClientData` does. -/
inductive FramePass
  | dispatches (request : RpcRequest) (readBuffer : Bytes)
  | waits (readBuffer : Bytes)
  | removes
  | throws (fault : Fault)
  deriving DecidableEq, Repr

def framePass (z : Zstd) (heap : Heap) (readBuffer : Bytes) : FramePass :=
  match extractFrame z heap readBuffer with
  | (.error fault, _) => .throws fault
  | (.ok .kIncomplete, readBuffer) => .waits readBuffer
  | (.ok .kError, _) => .removes
  | (.ok (.kComplete frame), readBuffer) =>
      match RpcRequest.deserialize .fresh frame with
      | .error fault => .throws fault
      | .ok (false, _) => .removes
      | .ok (true, request) => .dispatches request readBuffer

structure Handled where
  dispatched : List RpcRequest
  ending : Except Fault (Option Bytes)
  deriving DecidableEq

theorem framePass_lt {z : Zstd} {heap : Heap} {buffer rest : Bytes} {request : RpcRequest}
    (h : framePass z heap buffer = .dispatches request rest) : rest.length < buffer.length := by
  unfold framePass at h
  split at h
  · cases h
  · cases h
  · cases h
  · rename_i frame left hextract
    split at h <;> cases h
    exact extractFrame_complete_lt hextract

/-- The loop of `HandleClientData`; `none` stands for `RemoveConnection`. -/
def frameLoop (z : Zstd) (heap : Heap) (readBuffer : Bytes) : Handled :=
  match _h : framePass z heap readBuffer with
  | .throws fault => ⟨[], .error fault⟩
  | .waits readBuffer => ⟨[], .ok (some readBuffer)⟩
  | .removes => ⟨[], .ok none⟩
  | .dispatches request readBuffer =>
      let handled := frameLoop z heap readBuffer
      ⟨request :: handled.dispatched, handled.ending⟩
termination_by readBuffer.length
decreasing_by exact framePass_lt _h

/-- `HandleClientData` on a connection of the manager and its socket. -/
def handleClientData (z : Zstd) (heap : Heap) (conn : Connection) (socket : Socket) : Handled :=
  match conn.read socket with
  | .returned true conn _ => frameLoop z heap conn.readBuffer
  | _ => ⟨[], .ok none⟩

theorem frameLoop_short {z : Zstd} {heap : Heap} {buffer : Bytes} (h : buffer.length < 4) :
    frameLoop z heap buffer = ⟨[], .ok (some buffer)⟩ := by
  have hpass : framePass z heap buffer = .waits buffer := by
    rw [framePass, extractFrame_short h]
  rw [frameLoop]
  split <;> simp_all

/-! ## When nothing is thrown -/

variable {z : Zstd} {heap : Heap} {buffer : Bytes}

/-- If the buffer starts with a whole frame that can be decrypted, then the
heap serves the decompressed size it announces. -/
def AnnouncedSizeServed (z : Zstd) (heap : Heap) (buffer : Bytes) : Prop :=
  cipherLen buffer ≤ maxFrameSize → 4 + cipherLen buffer ≤ buffer.length →
    ∀ decrypted, AesEncrypt.decrypt (slice buffer 4 (cipherLen buffer)) = some decrypted →
      SizeServed z heap decrypted

theorem decrypt_ne_nil {ciphertext decrypted : Bytes}
    (h : AesEncrypt.decrypt ciphertext = some decrypted) : decrypted ≠ [] := by
  simp only [AesEncrypt.decrypt, Option.ite_none_left_eq_some, Option.some.injEq, not_le] at h
  obtain ⟨hlong, rfl⟩ := h
  apply List.ne_nil_of_length_pos
  rw [AesEncrypt.length_shiftDecrypt, List.length_drop]
  omega

theorem decodeFrame_returns_iff {ciphertext : Bytes} :
    (∃ status, decodeFrame z heap ciphertext = .ok status) ↔
      ∀ decrypted, AesEncrypt.decrypt ciphertext = some decrypted →
        SizeServed z heap decrypted := by
  unfold decodeFrame
  cases hdecrypt : AesEncrypt.decrypt ciphertext with
  | none => simp
  | some decrypted =>
      have hserved := decompressString_returns_iff z heap decrypted
      rw [or_iff_right (decrypt_ne_nil hdecrypt)] at hserved
      simp only [Option.some.injEq, forall_eq', ← hserved]
      cases decompressString z heap decrypted with
      | error fault => simp
      | ok result =>
          cases result with
          | none => simp
          | some decompressed => simp [checkFrame_eq]

theorem extractFrame_returns_iff :
    (∃ status, (extractFrame z heap buffer).1 = .ok status) ↔
      AnnouncedSizeServed z heap buffer := by
  rcases extractFrame_cases z heap buffer with
    ⟨hmore, hpart⟩ | ⟨-, hsize, herror⟩ | ⟨hsize, hwhole, hcut⟩
  · refine iff_of_true ⟨.kIncomplete, by rw [hmore]⟩ fun _ hwhole ↦ ?_
    omega
  · refine iff_of_true ⟨.kError, by rw [herror]⟩ fun hle ↦ ?_
    omega
  · rw [hcut, decodeFrame_returns_iff, AnnouncedSizeServed, imp_iff_right hsize,
      imp_iff_right hwhole]

theorem framePass_throws_iff :
    (∃ fault, framePass z heap buffer = .throws fault) ↔
      ¬ ∃ status, (extractFrame z heap buffer).1 = .ok status := by
  unfold framePass
  rcases extractFrame z heap buffer with ⟨result, rest⟩
  cases result with
  | error fault => simp
  | ok status =>
      refine iff_of_false ?_ (not_not.mpr ⟨status, rfl⟩)
      cases status with
      | kIncomplete => simp
      | kError => simp
      | kComplete frame =>
          obtain ⟨ok, request, hreturn⟩ := RpcRequest.deserialize_returns .fresh frame
          simp only [hreturn]
          cases ok <;> simp

theorem framePass_returns_iff :
    (∀ fault, framePass z heap buffer ≠ .throws fault) ↔ AnnouncedSizeServed z heap buffer := by
  rw [← extractFrame_returns_iff, ← not_iff_not, ← framePass_throws_iff]
  simp

/-- **Which peers the receive path survives.**  `ExtractFrame` ends with a
status exactly when the buffer announces no size the heap refuses; and then,
and only then, the pass of `HandleClientData` over this buffer dispatches,
waits or removes the connection. -/
theorem survives_iff (z : Zstd) (heap : Heap) (buffer : Bytes) :
    ((∃ status, (extractFrame z heap buffer).1 = .ok status) ↔
        AnnouncedSizeServed z heap buffer) ∧
      ((∀ fault, framePass z heap buffer ≠ .throws fault) ↔
        AnnouncedSizeServed z heap buffer) :=
  ⟨extractFrame_returns_iff, framePass_returns_iff⟩

/-- With a heap that serves whatever is announced, every call of
`HandleClientData` comes to its end. -/
theorem handleClientData_returns (hserved : ∀ src, SizeServed z heap src) (conn : Connection)
    (socket : Socket) :
    ∃ left, (handleClientData z heap conn socket).ending = .ok left := by
  have hloop : ∀ buffer, ∃ left, (frameLoop z heap buffer).ending = .ok left := by
    intro buffer
    induction buffer using frameLoop.induct z heap with
    | case1 buffer fault hpass =>
        have hall : AnnouncedSizeServed z heap buffer := fun _ _ decrypted _ ↦
          hserved decrypted
        exact absurd hpass (framePass_returns_iff.mpr hall fault)
    | case2 buffer left hpass =>
        rw [frameLoop]
        split <;> simp_all
    | case3 buffer hpass =>
        rw [frameLoop]
        split <;> simp_all
    | case4 buffer request left hpass ih =>
        rw [frameLoop]
        split <;> simp_all
  unfold handleClientData
  split
  · exact hloop _
  · exact ⟨none, rfl⟩

/-- A frame header of zstd that announces `2 ^ 63` bytes. -/
def bomb : Bytes := StoredFrames.frameMagic ++ (0xe0 :: leBytes 8 (2 ^ 63))

/-- The header as a peer can send it: encrypted, and behind a length prefix. -/
def bombWire : Bytes :=
  let encrypted := (AesEncrypt.encrypt AesEncrypt.zeroKey bomb).getD []
  beBytes 4 encrypted.length ++ encrypted

theorem extractFrame_bomb :
    ¬ ∃ status, (extractFrame StoredFrames.stored StoredFrames.gibibyteHeap bombWire).1 =
      .ok status := by
  have hthrown : (extractFrame StoredFrames.stored StoredFrames.gibibyteHeap bombWire).1 =
      .error .lengthError := by
    decide +kernel
  rw [hthrown]
  simp

end MessageCycle

end MyRpc
