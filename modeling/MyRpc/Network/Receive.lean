import MyRpc.Network.Framing
import MyRpc.Network.ReadLoop

/-!
# The receiving end of a connection

`receive` is what the event loop does when bytes have arrived: one `Read` on
the non-blocking socket, then `ExtractFrame` as long as it delivers.  While
`Read` has room for what arrives, this is the receiver of `Cutting` over the
cutter `frameCutter`, whose deliveries do not depend on how the stream is cut
into arrivals.  `Read` has room when an arrival and the unfinished frame
before it are together at most `maxBufferSize` bytes, and this is the exact
condition under which everything that was sent is delivered.
-/

namespace MyRpc

open FixedWidth ZstdCompress Cutting

namespace Connection

variable {z : Zstd} {heap : Heap} {fd : ℤ}

/-- One arrival: `Read`, then the loop over `ExtractFrame`. -/
def receive (z : Zstd) (heap : Heap) (fd : ℤ) (r : Received UInt8 Bytes Stop)
    (arrival : Bytes) : Received UInt8 Bytes Stop :=
  match r.tail with
  | .error _ => r
  | .ok readBuffer =>
      match (Connection.mk fd readBuffer .connected).read ⟨arrival, false, true⟩ with
      | .returned true conn _ => ((frameCutter z heap).drain conn.readBuffer).prepend r.items
      | _ => ⟨r.items, .error .readFailed⟩

def listening : Received UInt8 Bytes Stop := ⟨[], .ok []⟩

def receiveAll (z : Zstd) (heap : Heap) (fd : ℤ) (r : Received UInt8 Bytes Stop)
    (arrivals : List Bytes) : Received UInt8 Bytes Stop :=
  arrivals.foldl (receive z heap fd) r

/-- While the receiver is open, `read_buffer_` never exceeds its limit. -/
def StaysWithin (z : Zstd) (heap : Heap) (fd : ℤ) :
    Received UInt8 Bytes Stop → List Bytes → Prop
  | _, [] => True
  | r, arrival :: arrivals =>
      (∀ readBuffer, r.tail = .ok readBuffer →
        readBuffer.length + arrival.length ≤ maxBufferSize) ∧
      StaysWithin z heap fd (receive z heap fd r arrival) arrivals

theorem receive_stopped {r : Received UInt8 Bytes Stop} {stop : Stop}
    (h : r.tail = .error stop) (arrival : Bytes) : receive z heap fd r arrival = r := by
  simp [receive, h]

theorem receive_fits {r : Received UInt8 Bytes Stop} {readBuffer arrival : Bytes}
    (h : r.tail = .ok readBuffer)
    (hfit : readBuffer.length + arrival.length ≤ maxBufferSize) :
    receive z heap fd r arrival = (frameCutter z heap).feed r arrival := by
  have hread := read_nonblocking ⟨fd, readBuffer, .connected⟩ rfl hfit
  simp only [receive, h, hread, Cutter.feed, append_readBuffer]

theorem receive_overflow {r : Received UInt8 Bytes Stop} {readBuffer arrival : Bytes}
    (h : r.tail = .ok readBuffer) (hne : arrival ≠ [])
    (hover : maxBufferSize < readBuffer.length + arrival.length) :
    receive z heap fd r arrival = ⟨r.items, .error .readFailed⟩ := by
  obtain ⟨conn, s', hread⟩ :=
    read_nonblocking_overflow ⟨fd, readBuffer, .connected⟩ rfl hne hover
  simp only [receive, h, hread]

theorem receiveAll_eq_feedAll {r : Received UInt8 Bytes Stop} {arrivals : List Bytes}
    (h : StaysWithin z heap fd r arrivals) :
    receiveAll z heap fd r arrivals = (frameCutter z heap).feedAll r arrivals := by
  induction arrivals generalizing r with
  | nil => rfl
  | cons arrival arrivals ih =>
      obtain ⟨hfit, hrest⟩ := h
      have hone : receive z heap fd r arrival = (frameCutter z heap).feed r arrival := by
        cases htail : r.tail with
        | ok readBuffer => exact receive_fits htail (hfit readBuffer htail)
        | error stop =>
            rw [receive_stopped htail]
            simp [Cutter.feed, htail]
      have hstep := ih hrest
      rw [hone] at hstep
      simp only [receiveAll, Cutter.feedAll, List.foldl_cons, hone] at hstep ⊢
      exact hstep

theorem listening_eq_drain (z : Zstd) (heap : Heap) :
    listening = (frameCutter z heap).drain [] := by
  have hcut : (frameCutter z heap).cut [] = .more := by
    simp only [frameCutter, extractFrame_short (by simp : ([] : Bytes).length < 4)]
    rfl
  rw [Cutter.drain_more hcut, listening]

theorem receiveAll_eq_drain {arrivals : List Bytes}
    (h : StaysWithin z heap fd listening arrivals) :
    receiveAll z heap fd listening arrivals =
      (frameCutter z heap).drain arrivals.flatten := by
  rw [receiveAll_eq_feedAll h, listening_eq_drain z heap,
    Cutter.feedAll_eq_drain, List.nil_append]

/-- **Chunking independence.**  Two ways in which one stream arrives lead to
the same frames in the same order, to the same verdict, and, while open, to
the same bytes in the buffer: to what cutting the whole stream from its front
gives. -/
theorem receiveAll_eq_of_flatten_eq {first second : List Bytes}
    (hsame : first.flatten = second.flatten)
    (hfirst : StaysWithin z heap fd listening first)
    (hsecond : StaysWithin z heap fd listening second) :
    receiveAll z heap fd listening first = receiveAll z heap fd listening second ∧
      receiveAll z heap fd listening first = (frameCutter z heap).drain first.flatten := by
  have hdrain := receiveAll_eq_drain hfirst
  refine ⟨?_, hdrain⟩
  rw [hdrain, receiveAll_eq_drain hsecond, hsame]

theorem staysWithin_of_length_le {r : Received UInt8 Bytes Stop} {arrivals : List Bytes}
    (h : ∀ readBuffer, r.tail = .ok readBuffer →
      readBuffer.length + arrivals.flatten.length ≤ maxBufferSize) :
    StaysWithin z heap fd r arrivals := by
  induction arrivals generalizing r with
  | nil => trivial
  | cons arrival arrivals ih =>
      simp only [List.flatten_cons, List.length_append] at h
      have hfit : ∀ readBuffer, r.tail = .ok readBuffer →
          readBuffer.length + arrival.length ≤ maxBufferSize := by
        intro readBuffer htail
        have := h readBuffer htail
        omega
      refine ⟨hfit, ih fun left hleft ↦ ?_⟩
      cases htail : r.tail with
      | error stop =>
          rw [receive_stopped htail, htail] at hleft
          cases hleft
      | ok readBuffer =>
          rw [receive_fits htail (hfit readBuffer htail), Cutter.feed, htail] at hleft
          have hlen := Cutter.length_of_drain_ok hleft
          have hall := h readBuffer htail
          rw [List.length_append] at hlen
          omega

/-- The cut is in the second frame. -/
theorem receiveAll_twoWires :
    receiveAll StoredFrames.stored StoredFrames.gibibyteHeap 5 listening
        [Message.twoWires.take 150, Message.twoWires.drop 150] =
      receiveAll StoredFrames.stored StoredFrames.gibibyteHeap 5 listening [Message.twoWires] ∧
    receiveAll StoredFrames.stored StoredFrames.gibibyteHeap 5 listening
        [Message.twoWires.take 150, Message.twoWires.drop 150] =
      (frameCutter StoredFrames.stored StoredFrames.gibibyteHeap).drain
        [Message.twoWires.take 150, Message.twoWires.drop 150].flatten := by
  have hfit : ∀ readBuffer, listening.tail = .ok readBuffer →
      readBuffer.length + Message.twoWires.length ≤ maxBufferSize := by
    intro readBuffer h
    cases h
    rw [Message.length_twoWires]
    decide
  exact receiveAll_eq_of_flatten_eq (by simp)
    (staysWithin_of_length_le (by simpa using hfit))
    (staysWithin_of_length_le (by simpa using hfit))

/-! ## What is needed for everything to be delivered -/

/-- A message for which `Connection::Write` returned true, and what it put on
the wire. -/
structure Sent (z : Zstd) where
  message : Message
  sessionKey : AesEncrypt.SessionKey
  wire : Bytes
  framed : frameWire z sessionKey message.serialize = some wire

/-- The number of bytes, among the first `n` of a stream of frames of the
given sizes, that belong to the frame the `n`-th byte leaves unfinished. -/
def unfinished : List ℕ → ℕ → ℕ
  | [], n => n
  | size :: sizes, n => if n < size then n else unfinished sizes (n - size)

/-- Whenever bytes arrive, `n` of them having arrived before, they fit into
the buffer behind the unfinished frame. -/
def BurstsFit (sizes : List ℕ) : ℕ → List Bytes → Prop
  | _, [] => True
  | n, arrival :: arrivals =>
      unfinished sizes n + arrival.length ≤ maxBufferSize ∧
        BurstsFit sizes (n + arrival.length) arrivals

/-- The messages of a list of frames the receiver can cut. -/
structure Receivable (heap : Heap) (s : Sent z) : Prop where
  roundTrips : RoundTrips z s.message.serialize
  granted : heap.Grants s.message.serialize.length

theorem cut_sent {s : Sent z} (hs : Receivable heap s)
    (hsize : s.wire.length ≤ 4 + maxFrameSize) (rest : Bytes) :
    (frameCutter z heap).cut (s.wire ++ rest) = .item s.message.serialize rest := by
  simp only [frameCutter, extractFrame_frameWire hs.roundTrips hs.granted
    s.message.hasHeader_serialize s.framed hsize rest]
  rfl

theorem cut_take_sent {s : Sent z} (hsize : s.wire.length ≤ 4 + maxFrameSize) {n : ℕ}
    (hn : n < s.wire.length) : (frameCutter z heap).cut (s.wire.take n) = .more := by
  obtain ⟨compressed, encrypted, -, -, hwire⟩ := frameWire_eq_some s.framed
  have hlen : s.wire.length = 4 + encrypted.length := by simp [hwire]
  have htake : (s.wire.take n).length = n := List.length_take_of_le hn.le
  have hincomplete : extractFrame z heap (s.wire.take n) = (.ok .kIncomplete, s.wire.take n) := by
    by_cases hfour : n < 4
    · exact extractFrame_short (by rwa [htake])
    · have hnum : (UInt32.ofNat encrypted.length).toNat = encrypted.length :=
        toNat_length ((by omega : encrypted.length ≤ maxFrameSize).trans_lt
          (by norm_num [maxFrameSize]))
      have hannounced : cipherLen (s.wire.take n) = encrypted.length := by
        rw [cipherLen, List.take_take, Nat.min_eq_left (by omega), ← cipherLen, hwire,
          cipherLen_beBytes, hnum]
      exact extractFrame_incomplete (by omega) (by omega) (by omega)
  simp only [frameCutter, hincomplete]
  rfl

/-- After the first `n` bytes of a stream of frames, the receiver holds the
bytes of the unfinished frame. -/
theorem drain_take_sent {sent : List (Sent z)} (hsent : ∀ s ∈ sent, Receivable heap s)
    (hsize : ∀ s ∈ sent, s.wire.length ≤ 4 + maxFrameSize) {n : ℕ}
    (hn : n ≤ (sent.flatMap Sent.wire).length) :
    ∃ left, ((frameCutter z heap).drain ((sent.flatMap Sent.wire).take n)).tail = .ok left ∧
      left.length = unfinished (sent.map fun s ↦ s.wire.length) n := by
  induction sent generalizing n with
  | nil =>
      obtain rfl : n = 0 := by simpa using hn
      refine ⟨[], ?_, rfl⟩
      rw [List.take_zero, ← listening_eq_drain]
      rfl
  | cons s sent ih =>
      obtain ⟨hs, hrest⟩ := List.forall_mem_cons.mp hsent
      obtain ⟨hsmall, hsmalls⟩ := List.forall_mem_cons.mp hsize
      rw [List.flatMap_cons] at hn ⊢
      rw [List.map_cons, unfinished]
      by_cases hlt : n < s.wire.length
      · rw [List.take_append_of_le_length hlt.le, Cutter.drain_more (cut_take_sent hsmall hlt),
          if_pos hlt]
        exact ⟨_, rfl, List.length_take_of_le hlt.le⟩
      · have hle := Nat.le_of_not_lt hlt
        rw [List.length_append] at hn
        obtain ⟨left, hleft, hlen⟩ := ih hrest hsmalls (n := n - s.wire.length) (by omega)
        rw [List.take_append, List.take_of_length_le hle, Cutter.drain_item
          (cut_sent hs hsmall _), if_neg hlt]
        exact ⟨left, hleft, hlen⟩

theorem drain_sent {sent : List (Sent z)} (hsent : ∀ s ∈ sent, Receivable heap s)
    (hsize : ∀ s ∈ sent, s.wire.length ≤ 4 + maxFrameSize) :
    (frameCutter z heap).drain (sent.flatMap Sent.wire) =
      ⟨sent.map fun s ↦ s.message.serialize, .ok []⟩ := by
  have hall := Cutter.drain_encoded (p := frameCutter z heap) Sent.wire
    (fun s ↦ s.message.serialize) sent (fun s hs rest ↦ cut_sent (hsent s hs) (hsize s hs) rest)
    []
  rw [List.append_nil] at hall
  rw [hall, ← listening_eq_drain]
  simp [listening, Received.prepend]

/-- Along a stream of frames the limit of the buffer is kept exactly when the
bursts fit. -/
theorem staysWithin_iff_burstsFit (fd : ℤ) {sent : List (Sent z)}
    (hsent : ∀ s ∈ sent, Receivable heap s)
    (hsize : ∀ s ∈ sent, s.wire.length ≤ 4 + maxFrameSize) (arrived : Bytes)
    {arrivals : List Bytes} (harrive : arrived ++ arrivals.flatten = sent.flatMap Sent.wire) :
    StaysWithin z heap fd ((frameCutter z heap).drain arrived) arrivals ↔
      BurstsFit (sent.map fun s ↦ s.wire.length) arrived.length arrivals := by
  induction arrivals generalizing arrived with
  | nil => exact Iff.rfl
  | cons arrival arrivals ih =>
      have htake : arrived = (sent.flatMap Sent.wire).take arrived.length := by
        rw [← harrive, List.take_left]
      have hle : arrived.length ≤ (sent.flatMap Sent.wire).length := by
        rw [← harrive, List.length_append]
        exact Nat.le_add_right _ _
      obtain ⟨left, hleft, hlen⟩ := drain_take_sent hsent hsize hle
      rw [← htake] at hleft
      have hnow : (∀ readBuffer, ((frameCutter z heap).drain arrived).tail = .ok readBuffer →
            readBuffer.length + arrival.length ≤ maxBufferSize) ↔
          unfinished (sent.map fun s ↦ s.wire.length) arrived.length + arrival.length ≤
            maxBufferSize := by
        rw [← hlen, hleft]
        constructor
        · intro h
          exact h left rfl
        · intro h readBuffer hbuffer
          cases hbuffer
          exact h
      rw [StaysWithin, BurstsFit, hnow]
      refine and_congr_right fun hfit ↦ ?_
      rw [receive_fits hleft (by rwa [hlen]), ← Cutter.drain_append, ← List.length_append]
      exact ih (arrived ++ arrival) (by rwa [List.append_assoc])

/-! ## Converse: what a complete delivery tells about the frames -/

/-- Cut out of the inside of a ciphertext, the next length prefix is too big:
it is four characters of Base64. -/
theorem cut_base64 {text rest : Bytes} (htext : ∀ x ∈ text, 43 ≤ x) (hlen : 4 ≤ text.length) :
    (frameCutter z heap).cut (text ++ rest) = .fail .kError := by
  obtain ⟨b, bs, hb⟩ := List.exists_cons_of_length_pos (show 0 < (text.take 4).length by
    rw [List.length_take]; omega)
  have hbs : bs.length = 3 := by
    have := congrArg List.length hb
    simp only [List.length_take, List.length_cons] at this
    omega
  have hfirst : 43 ≤ b.toNat := by
    have hmem : b ∈ text := List.mem_of_mem_take (i := 4) (by rw [hb]; exact List.mem_cons_self)
    exact UInt8.le_iff_toNat_le.mp (htext b hmem)
  have hbig : maxFrameSize < cipherLen (text ++ rest) := by
    have hle := le_beNat_cons b bs
    rw [hbs] at hle
    rw [cipherLen_append rest hlen, cipherLen, hb]
    unfold maxFrameSize
    omega
  simp only [frameCutter, extractFrame_oversized (by rw [List.length_append]; omega) hbig]
  rfl

theorem toCut_decodeFrame (z : Zstd) (heap : Heap) (ciphertext rest : Bytes) :
    (∃ frame, toCut (decodeFrame z heap ciphertext, rest) = .item frame rest) ∨
      ∃ stop, toCut (decodeFrame z heap ciphertext, rest) = .fail stop := by
  cases hdecode : decodeFrame z heap ciphertext with
  | error fault => exact .inr ⟨.threw fault, rfl⟩
  | ok status =>
      cases status with
      | kIncomplete => exact absurd hdecode (decodeFrame_ne_kIncomplete z heap ciphertext)
      | kComplete frame => exact .inl ⟨frame, rfl⟩
      | kError => exact .inr ⟨.kError, rfl⟩

/-- A frame above the limit ends the connection, whether its prefix says so or
has wrapped around. -/
theorem drain_oversized (heap : Heap) (s : Sent z) (hsize : 4 + maxFrameSize < s.wire.length)
    (rest : Bytes) : ∃ stop, ((frameCutter z heap).drain (s.wire ++ rest)).tail = .error stop := by
  obtain ⟨compressed, encrypted, -, hencrypt, hwire⟩ := frameWire_eq_some s.framed
  have hlen : s.wire.length = 4 + encrypted.length := by simp [hwire]
  have hmod : encrypted.length % 2 ^ 32 ≤ encrypted.length := Nat.mod_le _ _
  have hannounced : cipherLen (s.wire ++ rest) = encrypted.length % 2 ^ 32 := by
    rw [hwire, List.append_assoc, cipherLen_beBytes, UInt32.toNat_ofNat']
  have hwhole : 4 + encrypted.length % 2 ^ 32 ≤ (s.wire ++ rest).length := by
    rw [List.length_append]
    omega
  by_cases hover : maxFrameSize < encrypted.length % 2 ^ 32
  · have hfail : (frameCutter z heap).cut (s.wire ++ rest) = .fail .kError := by
      have hfour : 4 ≤ (s.wire ++ rest).length := by omega
      simp only [frameCutter, extractFrame_oversized hfour (by rwa [hannounced])]
      rfl
    exact ⟨.kError, by rw [Cutter.drain_fail hfail]⟩
  have hwrapped := Nat.le_of_not_lt hover
  have hleftover : (s.wire ++ rest).drop (4 + encrypted.length % 2 ^ 32) =
      encrypted.drop (encrypted.length % 2 ^ 32) ++ rest := by
    rw [hwire, List.append_assoc, ← List.drop_drop, List.drop_left' (by simp),
      List.drop_append_of_le_length hmod]
  have hcut : (frameCutter z heap).cut (s.wire ++ rest) =
      toCut (decodeFrame z heap (slice (s.wire ++ rest) 4 (encrypted.length % 2 ^ 32)),
        encrypted.drop (encrypted.length % 2 ^ 32) ++ rest) := by
    simp only [frameCutter]
    rw [extractFrame_whole (by rwa [hannounced]) (by rwa [hannounced]), hannounced, hleftover]
  rcases toCut_decodeFrame z heap (slice (s.wire ++ rest) 4 (encrypted.length % 2 ^ 32))
    (encrypted.drop (encrypted.length % 2 ^ 32) ++ rest) with ⟨frame, hitem⟩ | ⟨stop, hfail⟩
  · have htext : ∀ x ∈ encrypted.drop (encrypted.length % 2 ^ 32), 43 ≤ x := by
      intro x hx
      have hmem := List.mem_of_mem_drop hx
      rw [(AesEncrypt.encrypt_eq_some hencrypt).2] at hmem
      exact Base64.le_of_mem_base64Encode x hmem
    have hlost : 4 ≤ (encrypted.drop (encrypted.length % 2 ^ 32)).length := by
      rw [List.length_drop]
      unfold maxFrameSize at hsize hwrapped
      omega
    rw [Cutter.drain_item (hcut.trans hitem), Received.prepend_tail,
      Cutter.drain_fail (cut_base64 htext hlost)]
    exact ⟨.kError, rfl⟩
  · exact ⟨stop, by rw [Cutter.drain_fail (hcut.trans hfail)]⟩

theorem length_le_of_drain_ok {sent : List (Sent z)} (hsent : ∀ s ∈ sent, Receivable heap s)
    {left : Bytes}
    (h : ((frameCutter z heap).drain (sent.flatMap Sent.wire)).tail = .ok left) :
    ∀ s ∈ sent, s.wire.length ≤ 4 + maxFrameSize := by
  induction sent with
  | nil => simp
  | cons s sent ih =>
      obtain ⟨hs, hrest⟩ := List.forall_mem_cons.mp hsent
      rw [List.flatMap_cons] at h
      by_cases hsmall : s.wire.length ≤ 4 + maxFrameSize
      · rw [Cutter.drain_item (cut_sent hs hsmall _)] at h
        exact List.forall_mem_cons.mpr ⟨hsmall, ih hrest h⟩
      · obtain ⟨stop, hstop⟩ := drain_oversized heap s (Nat.lt_of_not_le hsmall)
          (sent.flatMap Sent.wire)
        rw [hstop] at h
        cases h

theorem receiveAll_stopped {r : Received UInt8 Bytes Stop} {stop : Stop}
    (h : r.tail = .error stop) (arrivals : List Bytes) :
    receiveAll z heap fd r arrivals = r := by
  induction arrivals with
  | nil => rfl
  | cons arrival arrivals ih =>
      rw [receiveAll, List.foldl_cons, receive_stopped h]
      exact ih

theorem staysWithin_of_open {r : Received UInt8 Bytes Stop} {arrivals : List Bytes}
    {left : Bytes} (hstart : ∀ readBuffer, r.tail = .ok readBuffer →
      readBuffer.length ≤ maxBufferSize)
    (h : (receiveAll z heap fd r arrivals).tail = .ok left) :
    StaysWithin z heap fd r arrivals := by
  induction arrivals generalizing r with
  | nil => trivial
  | cons arrival arrivals ih =>
      have hfit : ∀ readBuffer, r.tail = .ok readBuffer →
          readBuffer.length + arrival.length ≤ maxBufferSize := by
        intro readBuffer htail
        by_contra hover
        have hne : arrival ≠ [] := by
          rintro rfl
          exact hover (hstart readBuffer htail)
        rw [receiveAll, List.foldl_cons,
          receive_overflow htail hne (Nat.lt_of_not_le hover)] at h
        rw [← receiveAll, receiveAll_stopped rfl] at h
        cases h
      refine ⟨hfit, ih (fun readBuffer hbuffer ↦ ?_) h⟩
      cases htail : r.tail with
      | error stop =>
          rw [receive_stopped htail, htail] at hbuffer
          cases hbuffer
      | ok before =>
          have hroom := hfit before htail
          rw [receive_fits htail hroom, Cutter.feed, htail] at hbuffer
          have hlen := Cutter.length_of_drain_ok hbuffer
          rw [List.length_append] at hlen
          exact hlen.trans hroom

def sentPing : Sent StoredFrames.stored :=
  ⟨Message.ping, AesEncrypt.zeroKey, Message.pingWire, Message.frameWire_ping⟩

theorem receivable_sentPing : Receivable StoredFrames.gibibyteHeap sentPing :=
  ⟨StoredFrames.stored_roundTrips _, StoredFrames.gibibyteHeap_grants (by decide)⟩

theorem length_sentPing : sentPing.wire.length = 96 := Message.length_pingWire

theorem receiveAll_too_long {arrival : Bytes} (hover : maxBufferSize < arrival.length) :
    receiveAll z heap fd listening [arrival] = ⟨[], .error .readFailed⟩ := by
  have hne : arrival ≠ [] := List.ne_nil_of_length_pos (by omega)
  have hopen : listening.tail = .ok [] := rfl
  rw [receiveAll, List.foldl_cons, List.foldl_nil,
    receive_overflow hopen hne (by simpa using hover)]
  rfl

def burst (n : ℕ) : List (Sent StoredFrames.stored) := List.replicate n sentPing

theorem length_burst (n : ℕ) : ((burst n).flatMap Sent.wire).length = n * 96 := by
  rw [burst, List.length_flatMap, List.map_replicate, List.sum_replicate, length_sentPing,
    smul_eq_mul]

end Connection

end MyRpc
