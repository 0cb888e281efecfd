import MyRpc.Compress.StoredFrames
import MyRpc.Library.Cutting
import MyRpc.Network.Connection
import MyRpc.Protocol.RoundTrip

/-!
# Frames on the wire

`ExtractFrame` is an incremental parser in the sense of `Cutting`: whatever
it answers with enough bytes in the buffer, it answers with more of them as
well.  On the bytes of a frame that `WriteFrame` built it cuts off exactly
this frame and returns the string that was framed.
-/

namespace MyRpc

open FixedWidth ZstdCompress Cutting

namespace Connection

variable {z : Zstd} {heap : Heap}

/-! ## The cases of `extractFrame` -/

/-- The length prefix in front of a buffer. -/
def cipherLen (readBuffer : Bytes) : ℕ := beNat (readBuffer.take 4)

theorem cipherLen_append {buffer : Bytes} (ys : Bytes) (h : 4 ≤ buffer.length) :
    cipherLen (buffer ++ ys) = cipherLen buffer := by
  rw [cipherLen, List.take_append_of_le_length h, cipherLen]

theorem extractFrame_short {buffer : Bytes} (h : buffer.length < 4) :
    extractFrame z heap buffer = (.ok .kIncomplete, buffer) := by
  rw [extractFrame, if_pos h]

theorem extractFrame_oversized {buffer : Bytes} (h : 4 ≤ buffer.length)
    (hsize : maxFrameSize < cipherLen buffer) :
    extractFrame z heap buffer = (.ok .kError, buffer) := by
  rw [extractFrame, if_neg (Nat.not_lt.mpr h)]
  exact if_pos hsize

theorem extractFrame_incomplete {buffer : Bytes} (h : 4 ≤ buffer.length)
    (hsize : cipherLen buffer ≤ maxFrameSize) (hpart : buffer.length < 4 + cipherLen buffer) :
    extractFrame z heap buffer = (.ok .kIncomplete, buffer) := by
  rw [extractFrame, if_neg (Nat.not_lt.mpr h)]
  exact (if_neg (Nat.not_lt.mpr hsize)).trans (if_pos hpart)

theorem extractFrame_whole {buffer : Bytes} (hsize : cipherLen buffer ≤ maxFrameSize)
    (hwhole : 4 + cipherLen buffer ≤ buffer.length) :
    extractFrame z heap buffer =
      (decodeFrame z heap (slice buffer 4 (cipherLen buffer)),
        buffer.drop (4 + cipherLen buffer)) := by
  rw [extractFrame, if_neg (by omega)]
  exact (if_neg (Nat.not_lt.mpr hsize)).trans (if_neg (Nat.not_lt.mpr hwhole))

/-- The four ways `ExtractFrame` goes, with what each leaves in the buffer. -/
theorem extractFrame_cases (z : Zstd) (heap : Heap) (buffer : Bytes) :
    (extractFrame z heap buffer = (.ok .kIncomplete, buffer) ∧
        (buffer.length < 4 ∨ cipherLen buffer ≤ maxFrameSize ∧
          buffer.length < 4 + cipherLen buffer)) ∨
      (4 ≤ buffer.length ∧ maxFrameSize < cipherLen buffer ∧
        extractFrame z heap buffer = (.ok .kError, buffer)) ∨
      (cipherLen buffer ≤ maxFrameSize ∧ 4 + cipherLen buffer ≤ buffer.length ∧
        extractFrame z heap buffer =
          (decodeFrame z heap (slice buffer 4 (cipherLen buffer)),
            buffer.drop (4 + cipherLen buffer))) := by
  by_cases hshort : buffer.length < 4
  · exact .inl ⟨extractFrame_short hshort, .inl hshort⟩
  have hfour := Nat.le_of_not_lt hshort
  by_cases hsize : maxFrameSize < cipherLen buffer
  · exact .inr (.inl ⟨hfour, hsize, extractFrame_oversized hfour hsize⟩)
  have hle := Nat.le_of_not_lt hsize
  by_cases hpart : buffer.length < 4 + cipherLen buffer
  · exact .inl ⟨extractFrame_incomplete hfour hle hpart, .inr ⟨hle, hpart⟩⟩
  · have hwhole := Nat.le_of_not_lt hpart
    exact .inr (.inr ⟨hle, hwhole, extractFrame_whole hle hwhole⟩)

def HasHeader (frame : Bytes) : Prop :=
  RpcHeader.size ≤ frame.length ∧ UInt32.ofNat (leNat (slice frame 0 4)) = RpcHeader.magic

instance (frame : Bytes) : Decidable (HasHeader frame) :=
  inferInstanceAs (Decidable (_ ∧ _))

theorem checkFrame_eq (frame : Bytes) :
    checkFrame frame = .ok (if HasHeader frame then .kComplete frame else .kError) := by
  unfold checkFrame HasHeader
  by_cases hshort : frame.length < RpcHeader.size
  · have hle : ¬ RpcHeader.size ≤ frame.length := Nat.not_le.mpr hshort
    simp [hshort, hle, pure, Except.pure]
  · have hle := Nat.le_of_not_lt hshort
    rw [if_neg hshort, RpcHeader.read_ok hle]
    by_cases hmagic : UInt32.ofNat (leNat (slice frame 0 4)) = RpcHeader.magic
    · simp [hle, hmagic, bind, Except.bind, pure, Except.pure]
    · simp [hmagic, bind, Except.bind, pure, Except.pure]

theorem decodeFrame_ne_kIncomplete (z : Zstd) (heap : Heap) (ciphertext : Bytes) :
    decodeFrame z heap ciphertext ≠ .ok .kIncomplete := by
  unfold decodeFrame
  split
  · simp
  · split
    · simp
    · simp
    · rw [checkFrame_eq]
      split <;> simp

/-- A frame is delivered exactly when both inner layers open and the result
starts with a header that carries the magic number. -/
theorem decodeFrame_eq_complete {ciphertext frame : Bytes} :
    decodeFrame z heap ciphertext = .ok (.kComplete frame) ↔
      ∃ decrypted, AesEncrypt.decrypt ciphertext = some decrypted ∧
        decompressString z heap decrypted = .ok (some frame) ∧ HasHeader frame := by
  unfold decodeFrame
  cases AesEncrypt.decrypt ciphertext with
  | none => simp
  | some decrypted =>
      simp only [Option.some.injEq, exists_eq_left']
      cases decompressString z heap decrypted with
      | error f => simp
      | ok result =>
          cases result with
          | none => simp
          | some decompressed =>
              simp only [checkFrame_eq, Except.ok.injEq, Option.some.injEq]
              constructor
              · intro h
                split at h
                · cases h
                  exact ⟨rfl, ‹_›⟩
                · cases h
              · rintro ⟨rfl, hheader⟩
                rw [if_pos hheader]

/-! ## `extractFrame` as a cutter -/

/-- Why a receiver stops: `kError`, an exception, or `Read` giving up. -/
inductive Stop
  | kError
  | threw (fault : Fault)
  | readFailed
  deriving DecidableEq, Repr

def toCut : Except Fault FrameStatus × Bytes → Cut UInt8 Bytes Stop
  | (.ok .kIncomplete, _) => .more
  | (.ok (.kComplete frame), rest) => .item frame rest
  | (.ok .kError, _) => .fail .kError
  | (.error fault, _) => .fail (.threw fault)

theorem extractFrame_append {buffer : Bytes} (ys : Bytes)
    (h : (extractFrame z heap buffer).1 ≠ .ok .kIncomplete) :
    extractFrame z heap (buffer ++ ys) =
      ((extractFrame z heap buffer).1, (extractFrame z heap buffer).2 ++ ys) := by
  rcases extractFrame_cases z heap buffer with
    ⟨hmore, -⟩ | ⟨hfour, hsize, herror⟩ | ⟨hsize, hwhole, hcut⟩
  · rw [hmore] at h
    exact absurd rfl h
  · have hlen := cipherLen_append ys hfour
    rw [herror, extractFrame_oversized (by simp; omega) (by rwa [hlen])]
  · have hlen := cipherLen_append ys (by omega : 4 ≤ buffer.length)
    have hlong : 4 + cipherLen buffer ≤ (buffer ++ ys).length := by
      rw [List.length_append]
      omega
    rw [hcut, extractFrame_whole (by rwa [hlen]) (by rwa [hlen]), hlen,
      slice_append_left _ _ _ _ hwhole, List.drop_append_of_le_length hwhole]

theorem ne_incomplete_of_toCut {r : Except Fault FrameStatus × Bytes}
    (h : toCut r ≠ .more) : r.1 ≠ .ok .kIncomplete := by
  obtain ⟨result, rest⟩ := r
  rintro rfl
  exact h rfl

theorem toCut_append (r : Except Fault FrameStatus × Bytes) (ys : Bytes) :
    toCut (r.1, r.2 ++ ys) = match toCut r with
      | .more => .more
      | .item frame rest => .item frame (rest ++ ys)
      | .fail stop => .fail stop := by
  match r with
  | (.ok .kIncomplete, _) => rfl
  | (.ok (.kComplete frame), _) => rfl
  | (.ok .kError, _) => rfl
  | (.error fault, _) => rfl

theorem toCut_extractFrame_append {buffer : Bytes} (ys : Bytes)
    (h : toCut (extractFrame z heap buffer) ≠ .more) :
    toCut (extractFrame z heap (buffer ++ ys)) =
      match toCut (extractFrame z heap buffer) with
      | .more => .more
      | .item frame rest => .item frame (rest ++ ys)
      | .fail stop => .fail stop := by
  rw [extractFrame_append ys (ne_incomplete_of_toCut h), toCut_append]

theorem eq_of_toCut_item {r : Except Fault FrameStatus × Bytes} {frame rest : Bytes}
    (h : toCut r = .item frame rest) : r = (.ok (.kComplete frame), rest) := by
  match r with
  | (.ok .kIncomplete, _) => cases h
  | (.ok (.kComplete _), _) =>
      cases h
      rfl
  | (.ok .kError, _) => cases h
  | (.error _, _) => cases h

theorem extractFrame_complete_lt {buffer frame rest : Bytes}
    (h : extractFrame z heap buffer = (.ok (.kComplete frame), rest)) :
    rest.length < buffer.length := by
  rcases extractFrame_cases z heap buffer with
    ⟨hmore, -⟩ | ⟨-, -, herror⟩ | ⟨-, hwhole, hcut⟩
  · rw [hmore] at h
    cases h
  · rw [herror] at h
    cases h
  · rw [hcut, Prod.mk.injEq] at h
    rw [← h.2, List.length_drop]
    omega

def frameCutter (z : Zstd) (heap : Heap) : Cutter UInt8 Bytes Stop where
  cut buffer := toCut (extractFrame z heap buffer)
  item_lt h := extractFrame_complete_lt (eq_of_toCut_item h)
  item_append ys h := by rw [toCut_extractFrame_append ys (by simp [h]), h]
  fail_append ys h := by rw [toCut_extractFrame_append ys (by simp [h]), h]

/-! ## The bytes of one frame -/

theorem frameWire_eq_some {sessionKey : AesEncrypt.SessionKey} {data wire : Bytes}
    (h : frameWire z sessionKey data = some wire) :
    ∃ compressed encrypted, compressString z data = some compressed ∧
      AesEncrypt.encrypt sessionKey compressed = some encrypted ∧
        wire = beBytes 4 (UInt32.ofNat encrypted.length).toNat ++ encrypted := by
  simp only [frameWire, Option.bind_eq_bind, Option.bind_eq_some_iff, Option.some.injEq] at h
  obtain ⟨compressed, hcompress, encrypted, hencrypt, rfl⟩ := h
  exact ⟨compressed, encrypted, hcompress, hencrypt, rfl⟩

theorem cipherLen_beBytes (n : UInt32) (post : Bytes) :
    cipherLen (beBytes 4 n.toNat ++ post) = n.toNat := by
  have hn : n.toNat < 256 ^ 4 := n.toNat_lt
  have htake : (beBytes 4 n.toNat ++ post).take 4 = beBytes 4 n.toNat := by
    rw [List.take_append_of_le_length (by simp), List.take_of_length_le (by simp)]
  rw [cipherLen, htake, beNat_beBytes, Nat.mod_eq_of_lt hn]

theorem decodeFrame_encrypt {sessionKey : AesEncrypt.SessionKey}
    {data compressed encrypted : Bytes} (hz : RoundTrips z data)
    (hheap : heap.Grants data.length) (hheader : HasHeader data)
    (hcompress : compressString z data = some compressed)
    (hencrypt : AesEncrypt.encrypt sessionKey compressed = some encrypted) :
    decodeFrame z heap encrypted = .ok (.kComplete data) := by
  have hne := (AesEncrypt.encrypt_eq_some hencrypt).1
  exact decodeFrame_eq_complete.mpr ⟨compressed, AesEncrypt.decrypt_encrypt hencrypt,
    decompressString_compressString hz hheap hne hcompress, hheader⟩

/-- **A frame is cut off and opened**, whatever follows it. -/
theorem extractFrame_frameWire {sessionKey : AesEncrypt.SessionKey} {data wire : Bytes}
    (hz : RoundTrips z data) (hheap : heap.Grants data.length) (hheader : HasHeader data)
    (hwire : frameWire z sessionKey data = some wire)
    (hsize : wire.length ≤ 4 + maxFrameSize) (rest : Bytes) :
    extractFrame z heap (wire ++ rest) = (.ok (.kComplete data), rest) := by
  obtain ⟨compressed, encrypted, hcompress, hencrypt, rfl⟩ := frameWire_eq_some hwire
  have hfit : encrypted.length ≤ maxFrameSize := by simpa using hsize
  have hnum : (UInt32.ofNat encrypted.length).toNat = encrypted.length :=
    toNat_length (hfit.trans_lt (by norm_num [maxFrameSize]))
  have hlen : cipherLen ((beBytes 4 (UInt32.ofNat encrypted.length).toNat ++ encrypted) ++
      rest) = encrypted.length := by
    rw [List.append_assoc, cipherLen_beBytes, hnum]
  have hslice : slice ((beBytes 4 (UInt32.ofNat encrypted.length).toNat ++ encrypted) ++ rest)
      4 encrypted.length = encrypted :=
    slice_of_eq (List.append_assoc _ _ _) (by simp) rfl
  have hdrop : ((beBytes 4 (UInt32.ofNat encrypted.length).toNat ++ encrypted) ++ rest).drop
      (4 + encrypted.length) = rest := List.drop_left' (by simp)
  rw [extractFrame_whole (by rwa [hlen]) (by rw [hlen]; simp), hlen, hslice, hdrop,
    decodeFrame_encrypt hz hheap hheader hcompress hencrypt]

/-! ## A part of a frame -/

/-- When a message is so long that the length prefix of its frame wraps, the
heap serves the sizes that truncations of its compressed form announce. -/
def TruncationsServed (z : Zstd) (heap : Heap) (data : Bytes) : Prop :=
  ∀ compressed n, z.compress data = some compressed → 2 ^ 31 ≤ compressed.length →
    n < compressed.length → SizeServed z heap (compressed.take n)

theorem decodeFrame_take {sessionKey : AesEncrypt.SessionKey}
    {data compressed encrypted : Bytes} (hz : RejectsPrefixes z)
    (hserved : TruncationsServed z heap data) (hdata : data ≠ [])
    (hcompress : compressString z data = some compressed)
    (hencrypt : AesEncrypt.encrypt sessionKey compressed = some encrypted) {n : ℕ}
    (hn : n + 2 ^ 32 ≤ encrypted.length) :
    decodeFrame z heap (encrypted.take n) = .ok .kError := by
  have hlen := AesEncrypt.length_encrypt hencrypt
  have hkey : AesEncrypt.keyLength = 32 := rfl
  rw [compressString, if_neg (by simpa using hdata)] at hcompress
  rw [decodeFrame, AesEncrypt.decrypt_take_encrypt hencrypt n]
  by_cases hempty : (compressed.take (3 * n / 4 - AesEncrypt.keyLength)).isEmpty = true
  · rw [if_pos hempty]
  · have hpos : 0 < 3 * n / 4 - AesEncrypt.keyLength := by
      by_contra hzero
      simp [Nat.eq_zero_of_not_pos hzero] at hempty
    have hlt : 3 * n / 4 - AesEncrypt.keyLength < compressed.length := by omega
    have hnone := decompressString_truncated hz hcompress hpos hlt
      (hserved compressed _ hcompress (by omega) hlt)
    rw [if_neg hempty]
    simp only [hnone]

/-- What has arrived of a frame is waited for, given up, or the whole frame. -/
theorem extractFrame_part {sessionKey : AesEncrypt.SessionKey} {data wire buffer : Bytes}
    (hz : RejectsPrefixes z) (hserved : TruncationsServed z heap data) (hdata : data ≠ [])
    (hwire : frameWire z sessionKey data = some wire) (hbuffer : buffer <+: wire) :
    (extractFrame z heap buffer).1 = .ok .kIncomplete ∨
      (extractFrame z heap buffer).1 = .ok .kError ∨
        buffer = wire ∧ (extractFrame z heap buffer).2 = [] := by
  rcases extractFrame_cases z heap buffer with
    ⟨hmore, -⟩ | ⟨-, -, herror⟩ | ⟨-, hwhole, hcut⟩
  · exact .inl (congrArg Prod.fst hmore)
  · exact .inr (.inl (congrArg Prod.fst herror))
  right
  obtain ⟨compressed, encrypted, hcompress, hencrypt, rfl⟩ := frameWire_eq_some hwire
  obtain ⟨missing, hmissing⟩ := hbuffer
  have hprefixed : cipherLen buffer = (UInt32.ofNat encrypted.length).toNat := by
    rw [← cipherLen_append missing (by omega), hmissing, cipherLen_beBytes]
  have hwrap : cipherLen buffer = encrypted.length % 2 ^ 32 := by
    rw [hprefixed, UInt32.toNat_ofNat']
  have hlen := congrArg List.length hmissing
  simp only [List.length_append, length_beBytes] at hlen
  by_cases hfull : encrypted.length < 2 ^ 32
  · rw [Nat.mod_eq_of_lt hfull] at hwrap
    have hnil : missing = [] := List.eq_nil_of_length_eq_zero (by omega)
    refine .inr ⟨by rw [← hmissing, hnil, List.append_nil], ?_⟩
    rw [hcut]
    exact List.drop_of_length_le (by omega)
  · left
    have hcipher : slice buffer 4 (cipherLen buffer) = encrypted.take (cipherLen buffer) := by
      rw [← slice_append_left _ missing _ _ hwhole, hmissing, slice,
        List.drop_left' (length_beBytes _ _)]
    rw [hcut, hcipher]
    exact decodeFrame_take hz hserved hdata hcompress hencrypt (by omega)
end Connection

/-! ## Messages -/

inductive Message
  | request (r : RpcRequest)
  | response (r : RpcResponse)
  deriving DecidableEq, Repr

namespace Message

open Connection

def serialize : Message → Bytes
  | .request r => r.serialize
  | .response r => r.serialize

def bodySize : Message → ℕ
  | .request r => r.bodySize
  | .response r => r.bodySize

/-- The `Deserialize` of the message's own type returns true on `frame` and
leaves every field of the message in the object, whatever it held before. -/
def DecodedFrom (m : Message) (frame : Bytes) : Prop :=
  match m with
  | .request r => ∀ self, RpcRequest.deserialize self frame = .ok (true, r)
  | .response r => ∀ self, RpcResponse.deserialize self frame = .ok (true, r)

theorem decodedFrom_serialize {m : Message} (h : m.bodySize < 2 ^ 32) :
    m.DecodedFrom m.serialize := by
  cases m with
  | request r => exact fun self ↦ RpcRequest.deserialize_serialize self h
  | response r => exact fun self ↦ RpcResponse.deserialize_serialize self h

theorem hasHeader_image {h : RpcHeader} (hmagic : h.magicNumber = RpcHeader.magic)
    (post : Bytes) : HasHeader (h.image ++ post) := by
  have hle : RpcHeader.size ≤ (h.image ++ post).length := by simp
  have hread := RpcHeader.read_image h post
  rw [RpcHeader.read_ok hle] at hread
  have hfirst := congrArg RpcHeader.magicNumber (Except.ok.inj hread)
  exact ⟨hle, hfirst.trans hmagic⟩

theorem hasHeader_serialize (m : Message) : HasHeader m.serialize := by
  cases m with
  | request r =>
      obtain ⟨k, hr, -⟩ := r.serialize_eq
      rw [serialize, hr]
      exact hasHeader_image rfl _
  | response r =>
      obtain ⟨k, hr, -⟩ := r.serialize_eq
      rw [serialize, hr]
      exact hasHeader_image rfl _

variable {z : Zstd} {heap : Heap}

/-- **End-to-end round trip.**  From a buffer that holds a message's frame and
then `rest`, the peer extracts the serialized message, keeps `rest`, and
decodes the message it was sent. -/
theorem wire_roundTrip {m : Message} {sessionKey : AesEncrypt.SessionKey} {wire : Bytes}
    (hbody : m.bodySize < 2 ^ 32) (hz : RoundTrips z m.serialize)
    (hheap : heap.Grants m.serialize.length)
    (hwire : frameWire z sessionKey m.serialize = some wire)
    (hsize : wire.length ≤ 4 + maxFrameSize) (rest : Bytes) :
    extractFrame z heap (wire ++ rest) = (.ok (.kComplete m.serialize), rest) ∧
      m.DecodedFrom m.serialize :=
  ⟨extractFrame_frameWire hz hheap m.hasHeader_serialize hwire hsize rest,
    decodedFrom_serialize hbody⟩

def ping : Message := .request ⟨1, [0x53], [0x6d], [0x70]⟩

def pingWire : Bytes := (frameWire StoredFrames.stored AesEncrypt.zeroKey ping.serialize).getD []

theorem frameWire_ping :
    frameWire StoredFrames.stored AesEncrypt.zeroKey ping.serialize = some pingWire := by
  decide

theorem length_pingWire : pingWire.length = 96 := by
  decide

/-- A message of another call. -/
def second : Message := .request ⟨2, [0x54], [0x6e, 0x6e], [0x71, 0x72, 0x73]⟩

def secondWire : Bytes :=
  (frameWire StoredFrames.stored AesEncrypt.zeroKey second.serialize).getD []

def twoWires : Bytes := pingWire ++ secondWire

theorem length_twoWires : twoWires.length = 196 := by
  have hsecond : secondWire.length = 100 := by decide
  rw [twoWires, List.length_append, length_pingWire, hsecond]

theorem wire_roundTrip_ping :
    extractFrame StoredFrames.stored StoredFrames.gibibyteHeap (pingWire ++ [1, 2, 3]) =
        (.ok (.kComplete ping.serialize), [1, 2, 3]) ∧
      ping.DecodedFrom ping.serialize :=
  wire_roundTrip (by decide) (StoredFrames.stored_roundTrips _)
    (StoredFrames.gibibyteHeap_grants (by decide)) frameWire_ping
    (by rw [length_pingWire]; decide) [1, 2, 3]

end Message

end MyRpc
