import MyRpc.Protocol.RpcProtocol

/-!
# Serialized messages in closed form

`Serialize` copies into a zero-filled string, so its output is the header,
the fields in order, and whatever of the zero fill the truncated 32-bit
lengths left over.  When the body is shorter than `2 ^ 32` bytes nothing is
truncated, and the decoder gives every field back.
-/

namespace MyRpc

open FixedWidth

def field (s : Bytes) : Bytes :=
  leBytes 4 (s.length % 2 ^ 32) ++ s.take (s.length % 2 ^ 32)

theorem length_field_le (s : Bytes) : (field s).length ≤ 4 + s.length := by
  simp only [field, List.length_append, length_leBytes, List.length_take]
  omega

theorem field_of_lt {s : Bytes} (h : s.length < 2 ^ 32) :
    field s = leBytes 4 s.length ++ s := by
  rw [field, Nat.mod_eq_of_lt h, List.take_length]

theorem length_field {s : Bytes} (h : s.length < 2 ^ 32) :
    (field s).length = 4 + s.length := by
  simp [field_of_lt h]

theorem toNat_length {n : ℕ} (h : n < 2 ^ 32) : (UInt32.ofNat n).toNat = n := by
  rw [UInt32.toNat_ofNat', Nat.mod_eq_of_lt h]

/-- What a decoder finds at the position of a length-prefixed string: the
length, the string behind it, and room for both. -/
theorem read_field (input done s post : Bytes) (hs : s.length < 2 ^ 32)
    (hinput : input = done ++ (leBytes 4 s.length ++ (s ++ post))) :
    readU32 input done.length = .ok (UInt32.ofNat s.length) ∧
      substr input (done.length + 4) s.length = .ok s ∧
        done.length + 4 + s.length ≤ input.length := by
  have hnat := toNat_length hs
  have hsub : input = (done ++ leBytes 4 s.length) ++ (s ++ post) := by
    rw [hinput, List.append_assoc]
  refine ⟨readU32_of_eq done _ (by rw [hnat]; exact hinput) rfl,
    substr_of_eq _ _ hsub (by simp) rfl, ?_⟩
  simp only [hinput, List.length_append, length_leBytes]
  omega

/-! ## What each write adds -/

theorem putU32_eq (done : Bytes) (n : ℕ) (v : UInt32) :
    putU32 (done ++ List.replicate n 0, done.length) v =
      ((done ++ leBytes 4 v.toNat) ++ List.replicate (n - 4) 0,
        (done ++ leBytes 4 v.toNat).length) := by
  simp [putU32, overwrite_zeros]

theorem putString_eq (done : Bytes) (n : ℕ) (s : Bytes) :
    putString (done ++ List.replicate n 0, done.length) s =
      ((done ++ field s) ++ List.replicate (n - (field s).length) 0,
        (done ++ field s).length) := by
  have hlen : (UInt32.ofNat s.length).toNat = s.length % 2 ^ 32 := by
    simp [UInt32.toNat_ofNat']
  have hmod : s.length % 2 ^ 32 ≤ s.length := Nat.mod_le _ _
  unfold putString
  simp only [putU32_eq, hlen, overwrite_zeros]
  simp only [field, List.append_assoc, List.length_append, length_leBytes, List.length_take,
    Nat.min_eq_left hmod, Nat.sub_sub, Nat.add_assoc]

theorem overwrite_header (h : RpcHeader) (bodySize : ℕ) :
    overwrite (List.replicate (RpcHeader.size + bodySize) 0) 0 h.image =
      h.image ++ List.replicate bodySize 0 := by
  have hw := overwrite_zeros [] h.image 0 (RpcHeader.size + bodySize)
  rw [RpcHeader.length_image, Nat.add_sub_cancel_left] at hw
  exact hw

theorem startMessage_eq (bodySize : ℕ) (sequenceId : UInt32) :
    startMessage bodySize sequenceId =
      ((RpcHeader.ofBody bodySize sequenceId).image ++ List.replicate bodySize 0,
        (RpcHeader.ofBody bodySize sequenceId).image.length) := by
  rw [startMessage, overwrite_header, RpcHeader.length_image]

/-! ## The two messages -/

namespace RpcRequest

def header (r : RpcRequest) : RpcHeader := .ofBody r.bodySize r.sequenceId

theorem serialize_eq (r : RpcRequest) :
    ∃ k, r.serialize = r.header.image ++ (field r.serviceName ++
      (field r.methodName ++ (field r.payload ++ List.replicate k 0))) ∧
      k + (field r.serviceName).length + (field r.methodName).length +
        (field r.payload).length = r.bodySize := by
  have hs := length_field_le r.serviceName
  have hm := length_field_le r.methodName
  have hp := length_field_le r.payload
  refine ⟨r.bodySize - (field r.serviceName).length - (field r.methodName).length -
    (field r.payload).length, ?_, ?_⟩
  · simp only [serialize, startMessage_eq, putString_eq, header]
    simp only [List.append_assoc]
  · unfold bodySize
    omega

theorem length_serialize (r : RpcRequest) :
    r.serialize.length = RpcHeader.size + r.bodySize := by
  obtain ⟨k, hr, hk⟩ := r.serialize_eq
  simp only [hr, List.length_append, RpcHeader.length_image, List.length_replicate]
  omega

theorem serialize_of_lt {r : RpcRequest} (h : r.bodySize < 2 ^ 32) :
    r.serialize = r.header.image ++ (leBytes 4 r.serviceName.length ++ (r.serviceName ++
      (leBytes 4 r.methodName.length ++ (r.methodName ++
        (leBytes 4 r.payload.length ++ r.payload))))) := by
  obtain ⟨k, hr, hk⟩ := r.serialize_eq
  have hsum : r.bodySize = r.serviceName.length + r.methodName.length +
    r.payload.length + 3 * 4 := rfl
  have hs : r.serviceName.length < 2 ^ 32 := by omega
  have hm : r.methodName.length < 2 ^ 32 := by omega
  have hp : r.payload.length < 2 ^ 32 := by omega
  rw [length_field hs, length_field hm, length_field hp] at hk
  have hk0 : k = 0 := by omega
  rw [hr, hk0, field_of_lt hs, field_of_lt hm, field_of_lt hp]
  simp

theorem bodySize_lt {r : RpcRequest} (h : r.bodySize < 2 ^ 32) :
    r.serviceName.length < 2 ^ 32 ∧ r.methodName.length < 2 ^ 32 ∧
      r.payload.length < 2 ^ 32 := by
  unfold bodySize at h
  omega

theorem deserialize_serialize (self : RpcRequest) {r : RpcRequest}
    (h : r.bodySize < 2 ^ 32) : deserialize self r.serialize = .ok (true, r) := by
  obtain ⟨hs, hm, hp⟩ := bodySize_lt h
  have heq := serialize_of_lt h
  have hlen := r.length_serialize
  generalize r.serialize = input at heq hlen
  have hsize : r.header.image.length = RpcHeader.size := RpcHeader.length_image _
  obtain ⟨hread₁, hsub₁, hle₁⟩ := read_field input r.header.image r.serviceName _ hs heq
  obtain ⟨hread₂, hsub₂, hle₂⟩ := read_field input
    (r.header.image ++ (leBytes 4 r.serviceName.length ++ r.serviceName)) r.methodName
    (leBytes 4 r.payload.length ++ r.payload) hm (by rw [heq]; simp only [List.append_assoc])
  obtain ⟨hread₃, hsub₃, hle₃⟩ := read_field input
    (r.header.image ++ (leBytes 4 r.serviceName.length ++ (r.serviceName ++
      (leBytes 4 r.methodName.length ++ r.methodName)))) r.payload [] hp
      (by rw [heq]; simp only [List.append_assoc, List.append_nil])
  have hheader : RpcHeader.read input = .ok r.header := by
    rw [heq]
    exact RpcHeader.read_image _ _
  simp only [List.length_append, length_leBytes, hsize, ← Nat.add_assoc]
    at hread₁ hsub₁ hle₁ hread₂ hsub₂ hle₂ hread₃ hsub₃ hle₃
  have hmagic : r.header.magicNumber = RpcHeader.magic := rfl
  have hsequence : r.header.sequenceId = r.sequenceId := rfl
  have hroom : ¬ input.length < RpcHeader.size := by omega
  have hroom₁ : ¬ RpcHeader.size + 4 > input.length := by omega
  have hroom₂ : ¬ RpcHeader.size + 4 + r.serviceName.length + 4 > input.length := by omega
  have hroom₃ : ¬ RpcHeader.size + 4 + r.serviceName.length + 4 + r.methodName.length + 4 >
      input.length := by omega
  have hfit₁ : ¬ r.serviceName.length > input.length - (RpcHeader.size + 4) := by omega
  have hfit₂ : ¬ r.methodName.length > input.length -
      (RpcHeader.size + 4 + r.serviceName.length + 4) := by omega
  have hfit₃ : ¬ r.payload.length > input.length -
      (RpcHeader.size + 4 + r.serviceName.length + 4 + r.methodName.length + 4) := by omega
  simp only [deserialize, pure, bind, Except.pure, Except.bind, hroom, hheader, hmagic, hread₁,
    hread₂, hread₃, hsub₁, hsub₂, hsub₃, toNat_length hs, toNat_length hm, toNat_length hp,
    hroom₁, hroom₂, hroom₃, hfit₁, hfit₂, hfit₃, hsequence, ne_eq, not_true_eq_false, if_false,
    catchException]

end RpcRequest

namespace RpcResponse

def header (r : RpcResponse) : RpcHeader := .ofBody r.bodySize r.sequenceId

theorem serialize_eq (r : RpcResponse) :
    ∃ k, r.serialize = r.header.image ++ (field r.resultData ++ (field r.errorMessage ++
      (leBytes 4 r.errorCode.toNat ++ (leBytes 4 r.sequenceId.toNat ++
        List.replicate k 0)))) ∧
      k + (field r.resultData).length + (field r.errorMessage).length + 8 = r.bodySize := by
  have hd := length_field_le r.resultData
  have he := length_field_le r.errorMessage
  refine ⟨r.bodySize - (field r.resultData).length - (field r.errorMessage).length - 4 - 4,
    ?_, ?_⟩
  · simp only [serialize, startMessage_eq, putString_eq, putU32_eq, header]
    simp only [List.append_assoc]
  · unfold bodySize
    omega

theorem length_serialize (r : RpcResponse) :
    r.serialize.length = RpcHeader.size + r.bodySize := by
  obtain ⟨k, hr, hk⟩ := r.serialize_eq
  simp only [hr, List.length_append, RpcHeader.length_image, List.length_replicate,
    length_leBytes]
  omega

theorem bodySize_lt {r : RpcResponse} (h : r.bodySize < 2 ^ 32) :
    r.resultData.length < 2 ^ 32 ∧ r.errorMessage.length < 2 ^ 32 := by
  unfold bodySize at h
  omega

theorem serialize_of_lt {r : RpcResponse} (h : r.bodySize < 2 ^ 32) :
    r.serialize = r.header.image ++ (leBytes 4 r.resultData.length ++ (r.resultData ++
      (leBytes 4 r.errorMessage.length ++ (r.errorMessage ++
        (leBytes 4 r.errorCode.toNat ++ leBytes 4 r.sequenceId.toNat))))) := by
  obtain ⟨k, hr, hk⟩ := r.serialize_eq
  obtain ⟨hd, he⟩ := bodySize_lt h
  rw [length_field hd, length_field he] at hk
  have hk0 : k = 0 := by
    unfold bodySize at hk
    omega
  rw [hr, hk0, field_of_lt hd, field_of_lt he]
  simp

theorem read_header (r : RpcResponse) : RpcHeader.read r.serialize = .ok r.header := by
  obtain ⟨k, hr, -⟩ := r.serialize_eq
  rw [hr]
  exact RpcHeader.read_image _ _

/-- The response decoder gives back every field of a response whose body is
shorter than `2 ^ 32` bytes, whatever the object held before. -/
theorem deserialize_serialize (self : RpcResponse) {r : RpcResponse}
    (h : r.bodySize < 2 ^ 32) : deserialize self r.serialize = .ok (true, r) := by
  obtain ⟨hd, he⟩ := bodySize_lt h
  have heq := serialize_of_lt h
  have hlen := r.length_serialize
  have hheader := r.read_header
  generalize r.serialize = input at heq hlen hheader
  have hsize : r.header.image.length = RpcHeader.size := RpcHeader.length_image _
  obtain ⟨hread₁, hsub₁, hle₁⟩ := read_field input r.header.image r.resultData _ hd heq
  obtain ⟨hread₂, hsub₂, hle₂⟩ := read_field input
    (r.header.image ++ (leBytes 4 r.resultData.length ++ r.resultData)) r.errorMessage
    (leBytes 4 r.errorCode.toNat ++ leBytes 4 r.sequenceId.toNat) he
    (by rw [heq]; simp only [List.append_assoc])
  have hcode : readU32 input (RpcHeader.size + 4 + r.resultData.length + 4 +
      r.errorMessage.length) = .ok r.errorCode :=
    readU32_of_eq (r.header.image ++ (leBytes 4 r.resultData.length ++ (r.resultData ++
        (leBytes 4 r.errorMessage.length ++ r.errorMessage)))) (leBytes 4 r.sequenceId.toNat)
      (by rw [heq]; simp only [List.append_assoc]) (by simp [hsize, Nat.add_assoc])
  have hid : readU32 input (RpcHeader.size + 4 + r.resultData.length + 4 +
      r.errorMessage.length + 4) = .ok r.sequenceId := by
    refine readU32_of_eq (r.header.image ++ (leBytes 4 r.resultData.length ++ (r.resultData ++
        (leBytes 4 r.errorMessage.length ++ (r.errorMessage ++
          leBytes 4 r.errorCode.toNat))))) [] ?_ (by simp [hsize, Nat.add_assoc])
    rw [heq]
    simp only [List.append_assoc, List.append_nil]
  simp only [List.length_append, length_leBytes, hsize, ← Nat.add_assoc]
    at hread₁ hsub₁ hle₁ hread₂ hsub₂ hle₂
  have hmagic : r.header.magicNumber = RpcHeader.magic := rfl
  have hmessage : input.length = RpcHeader.size + r.header.messageLength.toNat := by
    rw [hlen]
    exact congrArg _ (toNat_length h).symm
  have hroom : ¬ input.length < RpcHeader.size := by omega
  have hfit₁ : ¬ RpcHeader.size + 4 + r.resultData.length > input.length := by omega
  have hfit₂ : ¬ RpcHeader.size + 4 + r.resultData.length + 4 + r.errorMessage.length >
      input.length := by omega
  simp only [deserialize, deserializeFrom, pure, bind, Except.pure, Except.bind, hroom, hheader,
    hmagic, hread₁, hread₂, hsub₁, hsub₂, hcode, hid, ← hmessage, toNat_length hd,
    toNat_length he, hfit₁, hfit₂, ne_eq, not_true_eq_false, if_false, catchException]

/-- A body of `2 ^ 32` bytes or more does not fit the header's length field,
and the decoder refuses the message. -/
theorem deserialize_serialize_of_le (self : RpcResponse) {r : RpcResponse}
    (h : 2 ^ 32 ≤ r.bodySize) : deserialize self r.serialize = .ok (false, self) := by
  have hlen := r.length_serialize
  have hroom : ¬ r.serialize.length < RpcHeader.size := by omega
  have hmagic : r.header.magicNumber = RpcHeader.magic := rfl
  have hmessage : r.serialize.length ≠ RpcHeader.size + r.header.messageLength.toNat := by
    have hlt : r.header.messageLength.toNat < 2 ^ 32 := r.header.messageLength.toNat_lt
    omega
  simp only [deserialize, deserializeFrom, pure, bind, Except.pure, Except.bind, hroom,
    r.read_header, hmagic, hmessage, ne_eq, not_true_eq_false, not_false_eq_true, if_false,
    if_true, catchException]

end RpcResponse

end MyRpc
