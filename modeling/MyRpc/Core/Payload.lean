import MyRpc.Compress.StoredFrames
import MyRpc.Core.RpcClient
import MyRpc.Serializer.SerializerManager

/-!
# The payload of a call

`Call` takes an empty payload for a failure of the serializer.  So it sends every
value that has an encoding, except those whose encoding is empty: the messages
without a field to be written (`sends_iff`).
-/

namespace MyRpc.RpcClient

open FixedWidth Connection Serializer ZstdCompress

namespace Session

/-- The connection is open, the request compresses to something, and all bytes are taken. -/
structure Working (z : Zstd) (s : Session) (env : CallEnv) (request : RpcRequest) : Prop where
  isConnected : s.isConnected = true
  connected : s.connection.state = .connected
  compresses : ∃ dst, z.compress request.serialize = some dst ∧ dst ≠ []
  written : env.written = true

variable {z : Zstd} {s : Session} {env : CallEnv} {args : CallArgs}

theorem canWrite_of_working {request : RpcRequest} (h : Working z s env request) :
    s.connection.canWrite ((frameWire z env.sessionKey request.serialize).getD []) := by
  obtain ⟨dst, hcompress, hdst⟩ := h.compresses
  have hserialize : ¬ request.serialize.isEmpty = true := by
    intro hempty
    have hlen := request.length_serialize
    rw [List.isEmpty_iff.mp hempty, RpcHeader.size, List.length_nil] at hlen
    omega
  have hplain : ¬ dst.isEmpty = true := by simpa using hdst
  refine ⟨h.connected, ?_⟩
  simp only [frameWire, compressString, if_neg hserialize, hcompress, AesEncrypt.encrypt,
    if_neg hplain, Option.bind_eq_bind, Option.bind_some, Option.getD_some]
  intro hnil
  have hlen := congrArg List.length hnil
  simp at hlen

theorem attempt_of_empty (hconnected : s.isConnected = true) (hpayload : args.payload = []) :
    s.attempt z args env = (s, .notSerialized) := by
  simp [attempt, connect, hconnected, send, hpayload]

theorem attempt_of_working (h : Working z s env (s.request args)) (hpayload : args.payload ≠ []) :
    s.attempt z args env = (s.sent (s.request args), .sent (s.requestWire z args env)) := by
  have hwrite := canWrite_of_working h
  have hnonempty : ¬ args.payload.isEmpty = true := by simpa using hpayload
  simp only [attempt, connect, if_pos h.isConnected, send, if_neg hnonempty]
  exact (if_pos hwrite).trans (if_pos h.written)

end Session

section Values

variable {J M : Type}

/-- The arguments with the payload that `SerializerManager::serialize` gives. -/
def CallArgs.ofValue (serviceName methodName : Bytes) (lib : Library J M) (data : Value J M)
    (type : SerializeType) : CallArgs :=
  ⟨serviceName, methodName, lib.serialize data type⟩

theorem payload_ofValue (serviceName methodName : Bytes) {encoding : Bytes} {lib : Library J M}
    {data : Value J M} {type : SerializeType} (h : lib.encoding data type = some encoding) :
    (CallArgs.ofValue serviceName methodName lib data type).payload = encoding := by
  rw [CallArgs.ofValue, lib.serialize_eq, h]
  rfl

theorem attempt_ofValue {z : Zstd} {s : Session} {env : CallEnv}
    {serviceName methodName encoding : Bytes} {lib : Library J M} {data : Value J M}
    {type : SerializeType} (h : lib.encoding data type = some encoding) (hne : encoding ≠ [])
    (hworking : s.Working z env ⟨s.sequenceId + 1, serviceName, methodName, encoding⟩) :
    s.attempt z (.ofValue serviceName methodName lib data type) env =
      (s.sent ⟨s.sequenceId + 1, serviceName, methodName, encoding⟩,
        .sent (s.requestWire z (.ofValue serviceName methodName lib data type) env)) := by
  have hpayload := payload_ofValue serviceName methodName h
  have hrequest : s.request (.ofValue serviceName methodName lib data type) =
      ⟨s.sequenceId + 1, serviceName, methodName, encoding⟩ :=
    congrArg (RpcRequest.mk _ _ _) hpayload
  rw [← hrequest] at hworking ⊢
  exact Session.attempt_of_working hworking (hpayload ▸ hne)

/-- What a call should do with a value: an encoding is sent as it is, and a
failure of the serializer is reported only if there is none. -/
structure Sends (z : Zstd) (s : Session) (env : CallEnv) (serviceName methodName : Bytes)
    (lib : Library J M) (data : Value J M) (type : SerializeType) : Prop where
  sent : ∀ encoding, lib.encoding data type = some encoding →
    s.call z (.ofValue serviceName methodName lib data type) env =
      s.sent ⟨s.sequenceId + 1, serviceName, methodName, encoding⟩
  failed : s.report z (.ofValue serviceName methodName lib data type) env = .notSerialized →
    lib.encoding data type = none

/-- **Which values can be sent.**  On a working connection, a call does with a
value what it should exactly when the value is not a message without a field to
be written, to be sent as one. -/
theorem sends_iff {z : Zstd} {s : Session} {env : CallEnv} {serviceName methodName : Bytes}
    {lib : Library J M} {AllDefault : M → Prop} (hlib : lib.Documented AllDefault)
    {data : Value J M} {type : SerializeType}
    (hworking : ∀ encoding, lib.encoding data type = some encoding →
      s.Working z env ⟨s.sequenceId + 1, serviceName, methodName, encoding⟩) :
    Sends z s env serviceName methodName lib data type ↔ ¬ Library.Blank AllDefault data type := by
  rw [← Library.encoding_eq_nil_iff hlib]
  constructor
  · intro h hnil
    have hempty := @Session.attempt_of_empty z s env _ (hworking [] hnil).isConnected
      (payload_ofValue serviceName methodName hnil)
    have hfailed := h.failed (congrArg Prod.snd hempty)
    rw [hfailed] at hnil
    cases hnil
  · intro hsome
    have hne : ∀ encoding, lib.encoding data type = some encoding → encoding ≠ [] := by
      rintro _ hencoding rfl
      exact hsome hencoding
    constructor
    · intro encoding hencoding
      exact congrArg Prod.fst
        (attempt_ofValue hencoding (hne encoding hencoding) (hworking encoding hencoding))
    · intro hfailed
      cases hencoding : lib.encoding data type with
      | none => rfl
      | some encoding =>
          have hsent := congrArg Prod.snd
            (attempt_ofValue hencoding (hne encoding hencoding) (hworking encoding hencoding))
          cases hsent.symm.trans hfailed

end Values

/-- A connection on which everything goes well. -/
def fine : CallEnv := ⟨none, AesEncrypt.zeroKey, true⟩

/-- A `HelloRequest` with the given name. -/
def hello (name : Bytes) : Value Bool HelloRequest := .message ⟨name, []⟩

theorem working_of_short {request : RpcRequest} (h : request.bodySize < 200) :
    (Session.start 3).Working StoredFrames.stored fine request where
  isConnected := rfl
  connected := rfl
  compresses := by
    have hlen : request.serialize.length < 256 := by
      rw [RpcRequest.length_serialize, RpcHeader.size]
      omega
    refine ⟨StoredFrames.storedFrame request.serialize, ?_, ?_⟩
    · simp only [StoredFrames.stored, if_pos hlen]
    · exact List.ne_nil_of_length_pos (by simp)
  written := rfl

theorem sends_iff_named :
    Sends StoredFrames.stored (.start 3) fine [97] [98] HelloRequest.library (hello [97])
      .protobuf := by
  refine (sends_iff HelloRequest.documented_library fun encoding hencoding ↦ ?_).mpr ?_
  · have hshort : encoding = [10, 1, 97] := (Option.some.inj hencoding).symm
    exact working_of_short (by rw [hshort]; decide)
  · rintro ⟨message, hmessage, -, hname, -⟩
    cases hmessage
    cases hname

theorem not_sends_hello : ¬ Sends StoredFrames.stored (.start 3) fine [97] [98]
    HelloRequest.library (hello []) .protobuf := by
  intro h
  have hreport : (Session.start 3).report StoredFrames.stored
      (.ofValue [97] [98] HelloRequest.library (hello []) .protobuf) fine = .notSerialized := rfl
  cases h.failed hreport

end MyRpc.RpcClient
