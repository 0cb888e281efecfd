import MyRpc.Library.FixedWidth

/-!
# The message layout of `rpc_protocol`

A message is a 12-byte header followed by a body.  `Serialize` resizes the
output once and copies each field behind the one before it; `Deserialize`
walks a position through the input.  Every `memcpy` from the input goes
through `readU32`, which reports the index of the first byte it would read
at or behind the end, so that a decoder which forgets a bound is visible.
One byte behind the end a `std::string` holds a NUL, and a response that is
a byte short is read as if it belonged to it; so this decoder is given twice,
without that byte and with it.
Integers are copied in host order, which is little-endian on the targets of
the build.
-/

namespace MyRpc

open FixedWidth

/-- What can leave the straight line of the code: a read behind the end of
the input (undefined behaviour), the exception of `std::string::substr`, or
one of the two exceptions of `std::string::resize`. -/
inductive Fault
  | readPastEnd (index : ℕ)
  | outOfRange
  | lengthError
  | badAlloc
  deriving DecidableEq, Repr

/-- `std::memcpy(&value, &in[pos], sizeof(uint32_t))`. -/
def readU32 (input : Bytes) (pos : ℕ) : Except Fault UInt32 :=
  if pos + 4 ≤ input.length then
    .ok (UInt32.ofNat (leNat (slice input pos 4)))
  else .error (.readPastEnd (max pos input.length))

/-- `in.substr(pos, len)`, which throws only for a start behind the end. -/
def substr (input : Bytes) (pos len : ℕ) : Except Fault Bytes :=
  if input.length < pos then .error .outOfRange else .ok (slice input pos len)

/-- The `catch (const std::exception &)` around both decoders.  A read behind
the end is not an exception and is not caught. -/
def catchException {α : Type*} (self : α) :
    Except Fault (Bool × α) → Except Fault (Bool × α)
  | .ok r => .ok r
  | .error (.readPastEnd index) => .error (.readPastEnd index)
  | .error _ => .ok (false, self)

/-- An output string under construction: its bytes and the write position. -/
abbrev Writer := Bytes × ℕ

/-- `std::memcpy(&out[pos], &value, sizeof(value)); pos += sizeof(value);` -/
def putU32 (w : Writer) (value : UInt32) : Writer :=
  (overwrite w.1 w.2 (leBytes 4 value.toNat), w.2 + 4)

/-- A length-prefixed string: `uint32_t len = s.size()`, the copy of `len`,
then the copy of `len` bytes of `s`. -/
def putString (w : Writer) (s : Bytes) : Writer :=
  let len := UInt32.ofNat s.length
  let w := putU32 w len
  (overwrite w.1 w.2 (s.take len.toNat), w.2 + len.toNat)

structure RpcHeader where
  magicNumber : UInt32
  messageLength : UInt32
  sequenceId : UInt32
  deriving DecidableEq, Repr

namespace RpcHeader

def magic : UInt32 := 0x12345678

def size : ℕ := 12

def ofBody (bodySize : ℕ) (sequenceId : UInt32) : RpcHeader :=
  ⟨magic, UInt32.ofNat bodySize, sequenceId⟩

def image (h : RpcHeader) : Bytes :=
  leBytes 4 h.magicNumber.toNat ++
    (leBytes 4 h.messageLength.toNat ++ leBytes 4 h.sequenceId.toNat)

def read (input : Bytes) : Except Fault RpcHeader := do
  let magicNumber ← readU32 input 0
  let messageLength ← readU32 input 4
  let sequenceId ← readU32 input 8
  return ⟨magicNumber, messageLength, sequenceId⟩

end RpcHeader

/-- `out.resize(sizeof(RpcHeader) + body_size)` on the empty string every
caller passes, then the copy of the header to its front. -/
def startMessage (bodySize : ℕ) (sequenceId : UInt32) : Writer :=
  let out := List.replicate (RpcHeader.size + bodySize) 0
  (overwrite out 0 (RpcHeader.ofBody bodySize sequenceId).image, RpcHeader.size)

structure RpcRequest where
  sequenceId : UInt32
  serviceName : Bytes
  methodName : Bytes
  payload : Bytes
  deriving DecidableEq, Repr

structure RpcResponse where
  sequenceId : UInt32
  resultData : Bytes
  errorMessage : Bytes
  errorCode : UInt32
  deriving DecidableEq, Repr

namespace RpcRequest

def fresh : RpcRequest := ⟨0, [], [], []⟩

def bodySize (r : RpcRequest) : ℕ :=
  r.serviceName.length + r.methodName.length + r.payload.length + 3 * 4

/-- `RpcRequest::Serialize`; only memory exhaustion makes it return false. -/
def serialize (r : RpcRequest) : Bytes :=
  let w := startMessage r.bodySize r.sequenceId
  let w := putString w r.serviceName
  let w := putString w r.methodName
  let w := putString w r.payload
  w.1

/-- `RpcRequest::Deserialize` on the object `self`: the returned flag and the
object afterwards, whose fields are assigned as they are read. -/
def deserialize (self : RpcRequest) (input : Bytes) :
    Except Fault (Bool × RpcRequest) :=
  catchException self do
    if input.length < RpcHeader.size then return (false, self)
    let header ← RpcHeader.read input
    if header.magicNumber ≠ RpcHeader.magic then return (false, self)
    let pos := RpcHeader.size
    if pos + 4 > input.length then return (false, self)
    let len ← readU32 input pos
    let pos := pos + 4
    if len.toNat > input.length - pos then return (false, self)
    let serviceName ← substr input pos len.toNat
    let self := { self with serviceName }
    let pos := pos + len.toNat
    if pos + 4 > input.length then return (false, self)
    let len ← readU32 input pos
    let pos := pos + 4
    if len.toNat > input.length - pos then return (false, self)
    let methodName ← substr input pos len.toNat
    let self := { self with methodName }
    let pos := pos + len.toNat
    if pos + 4 > input.length then return (false, self)
    let len ← readU32 input pos
    let pos := pos + 4
    if len.toNat > input.length - pos then return (false, self)
    let payload ← substr input pos len.toNat
    let self := { self with payload }
    return (true, { self with sequenceId := header.sequenceId })

end RpcRequest

namespace RpcResponse

def fresh : RpcResponse := ⟨0, [], [], 0⟩

def bodySize (r : RpcResponse) : ℕ :=
  r.resultData.length + r.errorMessage.length + 2 * 4 + 4 + 4

def serialize (r : RpcResponse) : Bytes :=
  let w := startMessage r.bodySize r.sequenceId
  let w := putString w r.resultData
  let w := putString w r.errorMessage
  let w := putU32 w r.errorCode
  let w := putU32 w r.sequenceId
  w.1

/-- `RpcResponse::Deserialize` on the object `self`, with the bytes from `in.data()` on
that may be read.  Unlike the request decoder it does not test that four bytes are left
before it reads a length, the error code or the sequence id. -/
def deserializeFrom (memory : Bytes) (self : RpcResponse) (input : Bytes) :
    Except Fault (Bool × RpcResponse) :=
  catchException self do
    if input.length < RpcHeader.size then return (false, self)
    let header ← RpcHeader.read input
    if header.magicNumber ≠ RpcHeader.magic then return (false, self)
    if input.length ≠ RpcHeader.size + header.messageLength.toNat then
      return (false, self)
    let pos := RpcHeader.size
    let len ← readU32 memory pos
    let pos := pos + 4
    if pos + len.toNat > input.length then return (false, self)
    let resultData ← substr input pos len.toNat
    let self := { self with resultData }
    let pos := pos + len.toNat
    let len ← readU32 memory pos
    let pos := pos + 4
    if pos + len.toNat > input.length then return (false, self)
    let errorMessage ← substr input pos len.toNat
    let self := { self with errorMessage }
    let pos := pos + len.toNat
    let errorCode ← readU32 memory pos
    let self := { self with errorCode }
    let pos := pos + 4
    let sequenceId ← readU32 memory pos
    return (true, { self with sequenceId })

/-- The decoder held to its input: a read at `in.size()` is a fault as well. -/
def deserialize (self : RpcResponse) (input : Bytes) : Except Fault (Bool × RpcResponse) :=
  deserializeFrom input self input

/-- The decoder as it runs on a `std::string`, which has a NUL at `in.size()`. -/
def deserializeTerminated (self : RpcResponse) (input : Bytes) :
    Except Fault (Bool × RpcResponse) :=
  deserializeFrom (input ++ [0]) self input

end RpcResponse

/-! ## Reading what was written -/

theorem readU32_ok {input : Bytes} {pos : ℕ} (h : pos + 4 ≤ input.length) :
    readU32 input pos = .ok (UInt32.ofNat (leNat (slice input pos 4))) := by
  simp [readU32, h]

theorem readU32_error {input : Bytes} {pos : ℕ} (h : input.length < pos + 4) :
    readU32 input pos = .error (.readPastEnd (max pos input.length)) := by
  simp [readU32, h]

theorem substr_ok {input : Bytes} {pos : ℕ} (len : ℕ) (h : pos ≤ input.length) :
    substr input pos len = .ok (slice input pos len) := by
  simp [substr, h]

theorem readU32_of_eq (pre post : Bytes) {input : Bytes} {pos : ℕ} {v : UInt32}
    (hinput : input = pre ++ (leBytes 4 v.toNat ++ post))
    (hpos : pos = pre.length) : readU32 input pos = .ok v := by
  have hlen : pos + 4 ≤ input.length := by
    simp only [hinput, hpos, List.length_append, length_leBytes]
    omega
  have hslice : slice input pos 4 = leBytes 4 v.toNat :=
    slice_of_eq hinput hpos (by simp)
  have hv : v.toNat < 256 ^ 4 := v.toNat_lt
  rw [readU32_ok hlen, hslice, leNat_leBytes_of_lt hv, UInt32.ofNat_toNat]

theorem substr_of_eq (pre post : Bytes) {input mid : Bytes} {pos len : ℕ}
    (hinput : input = pre ++ (mid ++ post)) (hpos : pos = pre.length)
    (hlen : len = mid.length) : substr input pos len = .ok mid := by
  have hle : pos ≤ input.length := by
    simp only [hinput, hpos, List.length_append]
    omega
  rw [substr_ok len hle, slice_of_eq hinput hpos hlen]

namespace RpcHeader

@[simp] theorem length_image (h : RpcHeader) : h.image.length = size := by
  simp [image, size]

theorem read_ok {input : Bytes} (h : size ≤ input.length) :
    read input = .ok
      ⟨UInt32.ofNat (leNat (slice input 0 4)), UInt32.ofNat (leNat (slice input 4 4)),
        UInt32.ofNat (leNat (slice input 8 4))⟩ := by
  unfold size at h
  unfold read
  rw [readU32_ok (by omega), readU32_ok (by omega), readU32_ok (by omega)]
  rfl

theorem read_image (h : RpcHeader) (post : Bytes) :
    read (h.image ++ post) = .ok h := by
  have hmagic : readU32 (h.image ++ post) 0 = .ok h.magicNumber :=
    readU32_of_eq [] _ (by simp [image]; rfl) rfl
  have hlength : readU32 (h.image ++ post) 4 = .ok h.messageLength :=
    readU32_of_eq (leBytes 4 h.magicNumber.toNat) _ (by simp [image]; rfl) (by simp)
  have hsequence : readU32 (h.image ++ post) 8 = .ok h.sequenceId :=
    readU32_of_eq (leBytes 4 h.magicNumber.toNat ++ leBytes 4 h.messageLength.toNat) post
      (by simp [image]) (by simp)
  simp only [read, hmagic, hlength, hsequence]
  rfl

end RpcHeader

end MyRpc
