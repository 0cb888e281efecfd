import MyRpc.Protocol.RoundTrip
import MyRpc.Protocol.Bounds

/-!
# Which inputs the decoders accept

A decoder accepts what its fields can be read from.  The encoders write more
than that: a length in the header, nothing behind the last field, and in a
response the sequence id twice.  An input that is accepted is the image of what
was decoded when these agree as well (`RpcRequest.exact_iff`,
`RpcResponse.canonical_iff`).
-/

namespace MyRpc

open FixedWidth

/-! ## Conditions of acceptance -/

section Accepts

variable {α β : Type} {input : Bytes} {r : α}

theorem accepts_catchException {self : α} {x : Except Fault (Bool × α)} :
    catchException self x = .ok (true, r) ↔ x = .ok (true, r) := by
  match x with
  | .ok _ => exact Iff.rfl
  | .error (.readPastEnd _) => exact Iff.rfl
  | .error .outOfRange | .error .lengthError | .error .badAlloc => simp [catchException]

theorem accepts_ite {c : Prop} [Decidable c] {self : α} {x : Except Fault (Bool × α)} :
    (if c then pure (false, self) else x) = .ok (true, r) ↔ ¬ c ∧ x = .ok (true, r) := by
  by_cases h : c <;> simp [h, pure, Except.pure]

theorem accepts_readU32 {pos : ℕ} {f : UInt32 → Except Fault (Bool × α)} :
    (readU32 input pos >>= f) = .ok (true, r) ↔
      pos + 4 ≤ input.length ∧ f (UInt32.ofNat (lenAt input pos)) = .ok (true, r) := by
  by_cases h : pos + 4 ≤ input.length
  · rw [readU32_ok h]
    exact (and_iff_right h).symm
  · rw [readU32_error (Nat.lt_of_not_le h)]
    exact iff_of_false (fun h' ↦ by cases h') fun h' ↦ h h'.1

theorem accepts_substr {pos len : ℕ} {f : Bytes → Except Fault (Bool × α)} :
    (substr input pos len >>= f) = .ok (true, r) ↔
      pos ≤ input.length ∧ f (slice input pos len) = .ok (true, r) := by
  by_cases h : pos ≤ input.length
  · rw [substr_ok len h]
    exact (and_iff_right h).symm
  · have hout : substr input pos len = .error .outOfRange := by
      simp [substr, Nat.lt_of_not_le h]
    rw [hout]
    exact iff_of_false (fun h' ↦ by cases h') fun h' ↦ h h'.1

theorem accepts_header {f : RpcHeader → Except Fault (Bool × α)} :
    (RpcHeader.read input >>= f) = .ok (true, r) ↔
      RpcHeader.size ≤ input.length ∧
        f ⟨UInt32.ofNat (lenAt input 0), UInt32.ofNat (lenAt input 4),
          UInt32.ofNat (lenAt input 8)⟩ = .ok (true, r) := by
  simp only [RpcHeader.read, bind_assoc, accepts_readU32, pure_bind, RpcHeader.size]
  constructor
  · rintro ⟨-, -, h, hf⟩
    exact ⟨h, hf⟩
  · rintro ⟨h, hf⟩
    exact ⟨by omega, by omega, h, hf⟩

theorem accepts_pure {x : α} :
    (pure (true, x) : Except Fault (Bool × α)) = .ok (true, r) ↔ r = x := by
  constructor
  · intro h
    cases h
    rfl
  · rintro rfl
    rfl

end Accepts

/-! ## The pieces of an input -/

theorem leBytes_lenAt {input : Bytes} {pos : ℕ} (h : pos + 4 ≤ input.length) :
    leBytes 4 (lenAt input pos) = slice input pos 4 := by
  have himage := leBytes_leNat (slice input pos 4)
  rwa [length_slice h] at himage

/-- A length prefix, the bytes it counts, and the rest of the input. -/
theorem field_append_drop {input : Bytes} {pos : ℕ}
    (h : pos + 4 + lenAt input pos ≤ input.length) :
    leBytes 4 (slice input (pos + 4) (lenAt input pos)).length ++
        (slice input (pos + 4) (lenAt input pos) ++ input.drop (pos + 4 + lenAt input pos)) =
      input.drop pos := by
  rw [length_slice h, leBytes_lenAt (by omega), slice_append_drop, slice_append_drop]

theorem number_append_drop {input : Bytes} {pos : ℕ} (h : pos + 4 ≤ input.length) :
    leBytes 4 (lenAt input pos) ++ input.drop (pos + 4) = input.drop pos := by
  rw [leBytes_lenAt h, slice_append_drop]

namespace RpcHeader

/-- The numbers at the front of an input are the fields of the header that was written there. -/
theorem lenAt_image (h : RpcHeader) (post : Bytes) :
    lenAt (h.image ++ post) 4 = h.messageLength.toNat ∧
      lenAt (h.image ++ post) 8 = h.sequenceId.toNat := by
  have hread := h.read_image post
  rw [read_ok (by simp)] at hread
  have hfields := Except.ok.inj hread
  constructor
  · rw [← congrArg messageLength hfields]
    exact (toNat_lenAt _ 4).symm
  · rw [← congrArg sequenceId hfields]
    exact (toNat_lenAt _ 8).symm

theorem image_append_drop {h : RpcHeader} {input : Bytes} (hsize : size ≤ input.length)
    (hmagic : h.magicNumber.toNat = lenAt input 0)
    (hmessage : h.messageLength.toNat = lenAt input 4)
    (hsequence : h.sequenceId.toNat = lenAt input 8) : h.image ++ input.drop size = input := by
  unfold size at hsize ⊢
  have hthird : leBytes 4 (lenAt input 8) ++ input.drop 12 = input.drop 8 :=
    number_append_drop (by omega)
  have hsecond : leBytes 4 (lenAt input 4) ++ input.drop 8 = input.drop 4 :=
    number_append_drop (by omega)
  have hfirst : leBytes 4 (lenAt input 0) ++ input.drop 4 = input :=
    number_append_drop (by omega)
  rw [image, hmagic, hmessage, hsequence, List.append_assoc, List.append_assoc, hthird, hsecond,
    hfirst]

end RpcHeader

namespace RpcRequest

def methodPos (input : Bytes) : ℕ := RpcHeader.size + 4 + lenAt input RpcHeader.size

def payloadPos (input : Bytes) : ℕ := methodPos input + 4 + lenAt input (methodPos input)

def endPos (input : Bytes) : ℕ := payloadPos input + 4 + lenAt input (payloadPos input)

/-- What the request decoder asks for. -/
def Readable (input : Bytes) : Prop :=
  UInt32.ofNat (lenAt input 0) = RpcHeader.magic ∧ endPos input ≤ input.length

/-- The request whose fields stand at the positions of the input. -/
def decoded (input : Bytes) : RpcRequest where
  sequenceId := UInt32.ofNat (lenAt input 8)
  serviceName := slice input (RpcHeader.size + 4) (lenAt input RpcHeader.size)
  methodName := slice input (methodPos input + 4) (lenAt input (methodPos input))
  payload := slice input (payloadPos input + 4) (lenAt input (payloadPos input))

theorem deserialize_accepts_iff (self : RpcRequest) (input : Bytes) (r : RpcRequest) :
    deserialize self input = .ok (true, r) ↔ Readable input ∧ r = decoded input := by
  rw [deserialize, accepts_catchException]
  simp only [accepts_ite, accepts_header, accepts_readU32, accepts_substr, accepts_pure,
    toNat_lenAt, ne_eq, not_not, not_lt, Readable, decoded, endPos, payloadPos, methodPos]
  constructor
  · rintro ⟨-, -, hmagic, -, -, -, -, -, -, -, -, hroom, -, hfit, -, hr⟩
    exact ⟨⟨hmagic, by omega⟩, hr⟩
  · rintro ⟨⟨hmagic, hend⟩, hr⟩
    unfold RpcHeader.size at hend ⊢
    refine ⟨by omega, by omega, hmagic, by omega, by omega, by omega, by omega, by omega, by omega,
      by omega, by omega, by omega, by omega, by omega, by omega, hr⟩

/-- The header announces the body, and nothing stands behind the payload. -/
def Exact (input : Bytes) : Prop :=
  input.length = RpcHeader.size + lenAt input 4 ∧ endPos input = input.length

theorem bodySize_decoded {input : Bytes} (h : Readable input) :
    RpcHeader.size + (decoded input).bodySize = endPos input := by
  have hend := h.2
  simp only [endPos, payloadPos, methodPos] at hend
  simp only [bodySize, decoded, endPos, payloadPos, methodPos]
  rw [length_slice (by omega), length_slice (by omega), length_slice (by omega)]
  omega

theorem exact_serialize {r : RpcRequest} (h : r.bodySize < 2 ^ 32) : Exact r.serialize := by
  obtain ⟨hreadable, hr⟩ := (deserialize_accepts_iff fresh _ _).mp (deserialize_serialize fresh h)
  have hlen := r.length_serialize
  have heq := serialize_of_lt h
  have hmessage : lenAt r.serialize 4 = r.header.messageLength.toNat := by
    rw [heq]
    exact (r.header.lenAt_image _).1
  constructor
  · rw [hmessage, hlen]
    exact congrArg _ (toNat_length h).symm
  · rw [← bodySize_decoded hreadable, ← hr, hlen]

theorem serialize_decoded {input : Bytes} (hlen : input.length < 2 ^ 32) (h : Readable input)
    (hexact : Exact input) : (decoded input).serialize = input := by
  obtain ⟨hmagic, hfits⟩ := h
  obtain ⟨hmessage, hend⟩ := hexact
  have hbody := bodySize_decoded ⟨hmagic, hfits⟩
  have hlt : (decoded input).bodySize < 2 ^ 32 := by omega
  have hsize : (decoded input).bodySize = lenAt input 4 := by omega
  have hfit : methodPos input ≤ payloadPos input ∧ payloadPos input ≤ endPos input := by
    simp only [endPos, payloadPos, methodPos]
    omega
  have hpayload : leBytes 4 (decoded input).payload.length ++ (decoded input).payload =
      input.drop (payloadPos input) := by
    have hfield := @field_append_drop input (payloadPos input) hfits
    have hnothing : input.drop (payloadPos input + 4 + lenAt input (payloadPos input)) = [] :=
      List.drop_of_length_le hend.ge
    rwa [hnothing, List.append_nil] at hfield
  have hmethod : leBytes 4 (decoded input).methodName.length ++ ((decoded input).methodName ++
      input.drop (payloadPos input)) = input.drop (methodPos input) :=
    field_append_drop (hfit.2.trans hfits)
  have hservice : leBytes 4 (decoded input).serviceName.length ++ ((decoded input).serviceName ++
      input.drop (methodPos input)) = input.drop RpcHeader.size :=
    field_append_drop (hfit.1.trans (hfit.2.trans hfits))
  rw [serialize_of_lt hlt, hpayload, hmethod, hservice]
  refine RpcHeader.image_append_drop (by omega) ?_ ((toNat_length hlt).trans hsize)
    (toNat_lenAt _ 8)
  exact (congrArg UInt32.toNat hmagic.symm).trans (toNat_lenAt _ 0)

/-- **Which requests are accepted exactly.**  The decoder accepts an input of
less than `2 ^ 32` bytes as the request it is the image of and as nothing else,
exactly when the input is not readable, or else the header announces the body
and nothing stands behind the payload. -/
theorem exact_iff (self : RpcRequest) {input : Bytes} (hlen : input.length < 2 ^ 32) :
    (∀ r, deserialize self input = .ok (true, r) ↔ r.serialize = input) ↔
      (Readable input → Exact input) := by
  have hsmall : ∀ r : RpcRequest, r.serialize = input → r.bodySize < 2 ^ 32 := by
    rintro r rfl
    have := r.length_serialize
    omega
  constructor
  · intro h hreadable
    have hdecoded := (deserialize_accepts_iff self input _).mpr ⟨hreadable, rfl⟩
    have hserialize := (h _).mp hdecoded
    have hexact := exact_serialize (hsmall _ hserialize)
    rwa [hserialize] at hexact
  · intro h r
    constructor
    · intro haccepted
      obtain ⟨hreadable, rfl⟩ := (deserialize_accepts_iff self input r).mp haccepted
      exact serialize_decoded hlen hreadable (h hreadable)
    · intro hserialize
      rw [← hserialize]
      exact deserialize_serialize self (hsmall r hserialize)

def sample : RpcRequest := ⟨7, [0x53], [0x6d, 0x6e], [0x70, 0x71, 0x72]⟩

theorem exact_iff_sample : deserialize fresh sample.serialize = .ok (true, sample) := by
  have hexact : Readable sample.serialize → Exact sample.serialize :=
    fun _ ↦ exact_serialize (by decide)
  exact ((exact_iff fresh (by decide)).mpr hexact sample).mpr rfl

/-- A byte behind the payload, which the header does not announce. -/
def trailing : Bytes := fresh.serialize ++ [0]

theorem not_exact_trailing :
    deserialize fresh trailing = .ok (true, fresh) ∧ trailing.length < 2 ^ 32 ∧
      ¬ ∀ r, deserialize fresh trailing = .ok (true, r) ↔ r.serialize = trailing := by
  have haccepted : deserialize fresh trailing = .ok (true, fresh) := by decide
  have hother : fresh.serialize ≠ trailing := by decide
  exact ⟨haccepted, by decide, fun h ↦ hother ((h fresh).mp haccepted)⟩

end RpcRequest

namespace RpcResponse

/-- What the response decoder asks for, when it does not read past the end. -/
def Readable (input : Bytes) : Prop := HeaderAccepted input ∧ trailerPos input + 8 ≤ input.length

/-- The response whose fields stand at the positions of the input. -/
def decoded (input : Bytes) : RpcResponse where
  sequenceId := UInt32.ofNat (lenAt input (trailerPos input + 4))
  resultData := slice input (RpcHeader.size + 4) (lenAt input RpcHeader.size)
  errorMessage := slice input (messagePos input + 4) (lenAt input (messagePos input))
  errorCode := UInt32.ofNat (lenAt input (trailerPos input))

theorem deserialize_accepts_iff (self : RpcResponse) (input : Bytes) (r : RpcResponse) :
    deserialize self input = .ok (true, r) ↔ Readable input ∧ r = decoded input := by
  rw [deserialize, deserializeFrom, accepts_catchException]
  simp only [accepts_ite, accepts_header, accepts_readU32, accepts_substr, accepts_pure,
    toNat_lenAt, ne_eq, not_not, not_lt, Readable, HeaderAccepted, decoded, trailerPos, messagePos]
  constructor
  · rintro ⟨hsize, -, hmagic, hlength, -, -, -, -, -, -, -, htrailer, hr⟩
    exact ⟨⟨⟨hsize, hmagic, hlength⟩, by omega⟩, hr⟩
  · rintro ⟨⟨⟨hsize, hmagic, hlength⟩, hend⟩, hr⟩
    refine ⟨hsize, hsize, hmagic, hlength, by omega, by omega, by omega, by omega, by omega,
      by omega, by omega, by omega, hr⟩

/-- The sequence ids agree, and nothing stands behind the second one. -/
def Canonical (input : Bytes) : Prop :=
  trailerPos input + 8 = input.length ∧ lenAt input 8 = lenAt input (trailerPos input + 4)

theorem bodySize_decoded {input : Bytes} (h : Readable input) :
    RpcHeader.size + (decoded input).bodySize = trailerPos input + 8 := by
  have hend := h.2
  simp only [trailerPos, messagePos] at hend
  simp only [bodySize, decoded, trailerPos, messagePos]
  rw [length_slice (by omega), length_slice (by omega)]
  omega

theorem canonical_serialize {r : RpcResponse} (h : r.bodySize < 2 ^ 32) :
    Canonical r.serialize := by
  obtain ⟨hreadable, hr⟩ := (deserialize_accepts_iff fresh _ _).mp (deserialize_serialize fresh h)
  constructor
  · rw [← bodySize_decoded hreadable, ← hr, r.length_serialize]
  · have hheader : lenAt r.serialize 8 = r.sequenceId.toNat := by
      rw [serialize_of_lt h]
      exact (r.header.lenAt_image _).2
    have htrailer : lenAt r.serialize (trailerPos r.serialize + 4) = r.sequenceId.toNat := by
      rw [congrArg sequenceId hr]
      exact (toNat_lenAt _ _).symm
    rw [hheader, htrailer]

theorem serialize_decoded {input : Bytes} (h : Readable input) (hcanonical : Canonical input) :
    (decoded input).serialize = input := by
  have hbody := bodySize_decoded h
  obtain ⟨⟨hsize, hmagic, hlength⟩, hfits⟩ := h
  obtain ⟨hend, hids⟩ := hcanonical
  have hbodySize : (decoded input).bodySize = lenAt input 4 := by omega
  have hlt : (decoded input).bodySize < 2 ^ 32 := hbodySize ▸ lenAt_lt input 4
  have hfit : messagePos input ≤ trailerPos input := by
    simp only [trailerPos]
    omega
  have hid : leBytes 4 (decoded input).sequenceId.toNat = input.drop (trailerPos input + 4) := by
    have hnumber := @number_append_drop input (trailerPos input + 4) (by omega)
    have hnothing : input.drop (trailerPos input + 4 + 4) = [] :=
      List.drop_of_length_le (by omega)
    rw [hnothing, List.append_nil] at hnumber
    rw [← hnumber, decoded, toNat_lenAt]
  have hcode : leBytes 4 (decoded input).errorCode.toNat ++ input.drop (trailerPos input + 4) =
      input.drop (trailerPos input) := by
    rw [decoded, toNat_lenAt]
    exact number_append_drop (by omega)
  have hmessage : leBytes 4 (decoded input).errorMessage.length ++
      ((decoded input).errorMessage ++ input.drop (trailerPos input)) =
        input.drop (messagePos input) :=
    field_append_drop ((Nat.le_add_right _ 8).trans hfits)
  have hdata : leBytes 4 (decoded input).resultData.length ++ ((decoded input).resultData ++
      input.drop (messagePos input)) = input.drop RpcHeader.size :=
    field_append_drop (hfit.trans ((Nat.le_add_right _ 8).trans hfits))
  rw [serialize_of_lt hlt, hid, hcode, hmessage, hdata]
  refine RpcHeader.image_append_drop hsize ?_ ((toNat_length hlt).trans hbodySize) ?_
  · exact (congrArg UInt32.toNat hmagic.symm).trans (toNat_lenAt _ 0)
  · exact (toNat_lenAt _ _).trans hids.symm

/-- **Which accepted responses are canonical.**  Serializing what was decoded
gives the input back exactly when the body ends with its second sequence id and
that is the one of the header. -/
theorem canonical_iff (self : RpcResponse) {input : Bytes} {r : RpcResponse}
    (haccepted : deserialize self input = .ok (true, r)) :
    r.serialize = input ↔ Canonical input := by
  obtain ⟨hreadable, rfl⟩ := (deserialize_accepts_iff self input r).mp haccepted
  have hbody := bodySize_decoded hreadable
  have hlt : (decoded input).bodySize < 2 ^ 32 := by
    have hfits := hreadable.2
    have hlength := hreadable.1.2.2
    have hmessage := lenAt_lt input 4
    omega
  constructor
  · intro h
    have hcanonical := canonical_serialize hlt
    rwa [h] at hcanonical
  · exact serialize_decoded hreadable

def sample : RpcResponse := ⟨7, [0x72, 0x73], [0x65], 3⟩

theorem canonical_iff_sample : Canonical sample.serialize :=
  (canonical_iff fresh (deserialize_serialize fresh (by decide))).mp rfl

/-- The header says that this answers call 1, the body that it answers call 2. -/
def twoIds : Bytes := (RpcHeader.ofBody fresh.bodySize 1).image ++
  (List.replicate 12 0 ++ leBytes 4 2)

theorem not_canonical_twoIds :
    deserialize fresh twoIds = .ok (true, { fresh with sequenceId := 2 }) ∧
      ({ fresh with sequenceId := 2 } : RpcResponse).serialize ≠ twoIds :=
  ⟨by decide, by decide⟩

end RpcResponse

end MyRpc
