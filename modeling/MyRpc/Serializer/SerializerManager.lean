import MyRpc.Library.FixedWidth

/-!
# The serializers

`SerializerManager` chooses a serializer by its argument and by the type of the
value, and each serializer asks its library.  All of them give their callers a
string and nothing else, so that a failure is an empty string (`serialize_eq`).
The encoding of a generated message is that of the generated code.
-/

namespace MyRpc.Serializer

open FixedWidth

/-- The parameter `type`; `other` is any value that is not an enumerator. -/
inductive SerializeType
  | json
  | protobuf
  | other
  deriving DecidableEq, Repr

/-- A value with its type `T`: `nlohmann::json`, a class derived from
`google::protobuf::Message`, or anything else. -/
inductive Value (J M : Type)
  | json (data : J)
  | message (data : M)
  | other
  deriving DecidableEq, Repr

/-- The libraries: `dump`, which may throw, and the encoder behind
`SerializeAsString`, which may fail. -/
structure Library (J M : Type) where
  dump : J → Option Bytes
  appendToString : M → Option Bytes

variable {J M : Type}

namespace Library

/-- `SerializeAsString` clears its result if the encoder fails. -/
def serializeAsString (lib : Library J M) (data : M) : Bytes :=
  match lib.appendToString data with
  | some output => output
  | none => []

/-- `JSONSerializer::serialize`. -/
def serializeJson (lib : Library J M) (data : J) : Bytes :=
  match lib.dump data with
  | some output => output
  | none => []

/-- `ProtobufSerializer::serialize`. -/
def serializeProtobuf (lib : Library J M) (data : M) : Bytes := lib.serializeAsString data

/-- `SerializerManager::serialize`. -/
def serialize (lib : Library J M) (data : Value J M) : SerializeType → Bytes
  | .json =>
      match data with
      | .json data => lib.serializeJson data
      | _ => []
  | .protobuf =>
      match data with
      | .message data => lib.serializeProtobuf data
      | _ => []
  | .other => []

/-- The encoding of a value, if its type matches and its library has one. -/
def encoding (lib : Library J M) : Value J M → SerializeType → Option Bytes
  | .json data, .json => lib.dump data
  | .message data, .protobuf => lib.appendToString data
  | _, _ => none

theorem serialize_eq (lib : Library J M) (data : Value J M) (type : SerializeType) :
    lib.serialize data type = (lib.encoding data type).getD [] := by
  cases type with
  | other => cases data <;> rfl
  | json =>
      cases data with
      | json data =>
          rw [serialize, encoding, serializeJson]
          cases lib.dump data <;> rfl
      | message data => rfl
      | other => rfl
  | protobuf =>
      cases data with
      | json data => rfl
      | message data =>
          rw [serialize, encoding, serializeProtobuf, serializeAsString]
          cases lib.appendToString data <;> rfl
      | other => rfl

/-- What the libraries document: a JSON text has at least one character, and the
encoding of a message is empty exactly if there is no field to be written. -/
structure Documented (lib : Library J M) (AllDefault : M → Prop) : Prop where
  dump_ne_nil : ∀ data, lib.dump data ≠ some []
  of_allDefault : ∀ data, AllDefault data → lib.appendToString data = some []
  allDefault_of_nil : ∀ data, lib.appendToString data = some [] → AllDefault data

/-- The value is a message without a field to be written, to be sent as one. -/
def Blank (AllDefault : M → Prop) (data : Value J M) (type : SerializeType) : Prop :=
  ∃ message, data = .message message ∧ type = .protobuf ∧ AllDefault message

theorem encoding_eq_nil_iff {lib : Library J M} {AllDefault : M → Prop}
    (hlib : lib.Documented AllDefault) (data : Value J M) (type : SerializeType) :
    lib.encoding data type = some [] ↔ Blank AllDefault data type := by
  constructor
  · intro h
    match data, type, h with
    | .json data, .json, h => exact absurd h (hlib.dump_ne_nil data)
    | .message message, .protobuf, h => exact ⟨message, rfl, rfl, hlib.allDefault_of_nil message h⟩
  · rintro ⟨message, rfl, rfl, hdefault⟩
    exact hlib.of_allDefault message hdefault

end Library

/-! ## A generated message -/

/-- A number in groups of seven bits, of at most `k` bytes. -/
def varint : ℕ → ℕ → Bytes
  | 0, _ => []
  | k + 1, n =>
      if n < 128 then [UInt8.ofNat n] else UInt8.ofNat (n % 128 + 128) :: varint k (n / 128)

/-- The message of `message.proto`, with the unknown fields it was parsed with. -/
structure HelloRequest where
  name : Bytes
  unknownFields : Bytes
  deriving DecidableEq, Repr

namespace HelloRequest

/-- `_InternalSerialize`: an empty string is not written. -/
def internalSerialize (m : HelloRequest) : Bytes :=
  (if m.name = [] then [] else 10 :: (varint 5 m.name.length ++ m.name)) ++ m.unknownFields

/-- The encoder refuses a message that is longer than an `int` can say. -/
def appendToString (m : HelloRequest) : Option Bytes :=
  if m.internalSerialize.length < 2 ^ 31 then some m.internalSerialize else none

def AllDefault (m : HelloRequest) : Prop := m.name = [] ∧ m.unknownFields = []

theorem appendToString_eq_nil_iff (m : HelloRequest) :
    m.appendToString = some [] ↔ m.AllDefault := by
  unfold appendToString AllDefault internalSerialize
  by_cases hname : m.name = []
  · by_cases hunknown : m.unknownFields = []
    · simp [hname, hunknown]
    · simp [hname, hunknown]
  · simp [hname]

/-- The messages of the repository, next to the JSON literals. -/
def library : Library Bool HelloRequest where
  dump data := some (if data then [116, 114, 117, 101] else [102, 97, 108, 115, 101])
  appendToString := appendToString

theorem documented_library : library.Documented AllDefault where
  dump_ne_nil := by decide
  of_allDefault m h := (appendToString_eq_nil_iff m).mpr h
  allDefault_of_nil m h := (appendToString_eq_nil_iff m).mp h

end HelloRequest

end MyRpc.Serializer
