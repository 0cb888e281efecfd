import MyRpc.Core.RpcClient

/-!
# Which response a call takes

`ReadResponse` never looks at a sequence id.  Along a connection every call
that is not abandoned takes one frame, so the call under way is given the
frame at its own place in the stream (`Sync`), whatever request this frame was
meant to answer.  A call that returns true has therefore got a response with
its own sequence id exactly when the peer's stream is in step with the
requests at this place.
-/

namespace MyRpc.RpcClient

open FixedWidth PartialRun Cutting Connection

variable {z : Zstd} {heap : Heap} {s t : Session}

/-! ## Frames by their length prefixes alone -/

/-- The first part of `ExtractFrame`: the ciphertext of the first frame. -/
def cutCiphertext (buffer : Bytes) : Cut UInt8 Bytes Unit :=
  if buffer.length < 4 then .more
  else if cipherLen buffer > maxFrameSize then .fail ()
  else if buffer.length < 4 + cipherLen buffer then .more
  else .item (slice buffer 4 (cipherLen buffer)) (buffer.drop (4 + cipherLen buffer))

theorem extractFrame_eq (z : Zstd) (heap : Heap) (buffer : Bytes) :
    extractFrame z heap buffer = match cutCiphertext buffer with
      | .more => (.ok .kIncomplete, buffer)
      | .fail () => (.ok .kError, buffer)
      | .item ciphertext rest => (decodeFrame z heap ciphertext, rest) := by
  unfold extractFrame cutCiphertext cipherLen
  dsimp only
  split
  · rfl
  · split
    · rfl
    · split <;> rfl

theorem cutCiphertext_append {buffer : Bytes} (ys : Bytes) (h : cutCiphertext buffer ≠ .more) :
    cutCiphertext (buffer ++ ys) = match cutCiphertext buffer with
      | .more => .more
      | .fail () => .fail ()
      | .item ciphertext rest => .item ciphertext (rest ++ ys) := by
  by_cases hshort : buffer.length < 4
  · simp [cutCiphertext, hshort] at h
  have hlen := cipherLen_append ys (Nat.le_of_not_lt hshort)
  have hlong : ¬ (buffer ++ ys).length < 4 := by
    rw [List.length_append]
    omega
  by_cases hsize : cipherLen buffer > maxFrameSize
  · simp only [cutCiphertext, if_neg hshort, if_neg hlong, hlen, if_pos hsize]
  by_cases hpart : buffer.length < 4 + cipherLen buffer
  · simp [cutCiphertext, hshort, hsize, hpart] at h
  have hwhole : ¬ (buffer ++ ys).length < 4 + cipherLen buffer := by
    rw [List.length_append]
    omega
  simp only [cutCiphertext, if_neg hshort, if_neg hlong, hlen, if_neg hsize, if_neg hpart,
    if_neg hwhole]
  rw [slice_append_left _ _ _ _ (Nat.le_of_not_lt hpart),
    List.drop_append_of_le_length (Nat.le_of_not_lt hpart)]

theorem cutCiphertext_lt {buffer ciphertext rest : Bytes}
    (h : cutCiphertext buffer = .item ciphertext rest) : rest.length < buffer.length := by
  unfold cutCiphertext at h
  split at h
  · cases h
  · split at h
    · cases h
    · split at h
      · cases h
      · cases h
        rw [List.length_drop]
        omega

def ciphertexts : Cutter UInt8 Bytes Unit where
  cut := cutCiphertext
  item_lt := cutCiphertext_lt
  item_append ys h := by rw [cutCiphertext_append ys (by simp [h]), h]
  fail_append ys h := by rw [cutCiphertext_append ys (by simp [h]), h]

/-! ## The frame at a call's place -/

/-- As many frames have been taken off the connection's stream as requests are
listed; the rest is still in the buffer, or has not arrived. -/
def Behind (s : Session) (done : List RpcRequest) : Prop :=
  ∃ taken : List Bytes, taken.length = done.length ∧
    ciphertexts.drain s.received = (ciphertexts.drain s.connection.readBuffer).prepend taken

/-- On an idle connection every request has had its frame; the request of the
call under way is the last one, and the only one that has not. -/
def Sync (s : Session) : Prop :=
  match s.phase with
  | .idle => s.isConnected = true → Behind s s.asked
  | .reading | .extracting =>
      ∃ before request, s.asked = before ++ [request] ∧
        request.sequenceId = s.sequenceId ∧ Behind s before
  | .undefined => True

theorem sync_idle (hphase : s.phase = .idle) :
    Sync s ↔ (s.isConnected = true → Behind s s.asked) := by
  simp only [Sync, hphase]

theorem sync_busy (hphase : s.phase = .reading ∨ s.phase = .extracting) :
    Sync s ↔ ∃ before request, s.asked = before ++ [request] ∧
      request.sequenceId = s.sequenceId ∧ Behind s before := by
  rcases hphase with hphase | hphase <;> simp only [Sync, hphase]

theorem sync_of_disconnected (hphase : s.phase = .idle) (h : s.isConnected = false) : Sync s := by
  rw [sync_idle hphase, h]
  simp

theorem sync_connect {newFd : Option ℕ} (hsync : Sync s) (hphase : s.phase = .idle)
    (h : s.connect newFd = some t) :
    t.phase = .idle ∧ t.log = s.log ∧ t.isConnected = true ∧ Behind t t.asked := by
  unfold Session.connect at h
  split at h
  · rename_i hconnected
    cases h
    exact ⟨hphase, rfl, hconnected, (sync_idle hphase).mp hsync hconnected⟩
  · obtain ⟨fd, -, rfl⟩ := Option.map_eq_some_iff.mp h
    exact ⟨hphase, rfl, rfl, [], rfl, rfl⟩

theorem sync_send (z : Zstd) (args : CallArgs) (env : CallEnv) (hphase : s.phase = .idle)
    (hbehind : Behind s s.asked) :
    Sync (s.send z args env).1 ∧ (s.send z args env).1.log = s.log := by
  rcases send_cases z s args env with ⟨request, hsent⟩ | hsame | ⟨hlost, hidle, -, -, hlog⟩
  · rw [hsent]
    exact ⟨(sync_busy (.inl rfl)).mpr ⟨s.asked, request, rfl, rfl, hbehind⟩, rfl⟩
  · rw [hsame]
    exact ⟨(sync_idle hphase).mpr fun _ ↦ hbehind, rfl⟩
  · exact ⟨sync_of_disconnected (hidle.trans hphase) hlost, hlog⟩

theorem sync_call (args : CallArgs) (env : CallEnv) (hsync : Sync s) (hphase : s.phase = .idle) :
    Sync (s.call z args env) ∧ (s.call z args env).log = s.log := by
  cases hconnect : s.connect env.newFd with
  | none =>
      rw [call_of_not_connect hconnect]
      exact ⟨hsync, rfl⟩
  | some t =>
      rw [call_of_connect hconnect]
      obtain ⟨hidle, hlog, -, hbehind⟩ := sync_connect hsync hphase hconnect
      obtain ⟨hsync', hlog'⟩ := sync_send z args env hidle hbehind
      exact ⟨hsync', hlog'.trans hlog⟩

theorem Behind.append {done : List RpcRequest} (h : Behind s done) {buf : Bytes}
    (hbuffer : t.connection = s.connection.append buf)
    (hreceived : t.received = s.received ++ buf) : Behind t done := by
  obtain ⟨taken, hcount, hdrain⟩ := h
  refine ⟨taken, hcount, ?_⟩
  rw [hreceived, hbuffer, append_readBuffer, Cutter.drain_append, Cutter.drain_append, hdrain,
    Cutter.feed_prepend]

theorem sync_read (r : ReadResult) (hsync : Sync s) (hphase : s.phase = .reading) :
    Sync (s.read r) ∧ (s.read r).log = s.log := by
  rcases read_cases s r with ⟨phase, hkeep, hread⟩ | ⟨connection, hread⟩
  · rw [hread]
    obtain ⟨before, request, hasked, hid, hbehind⟩ := (sync_busy (.inl hphase)).mp hsync
    have hbusy : phase = .reading ∨ phase = .extracting := by
      rwa [hphase] at hkeep
    exact ⟨(sync_busy hbusy).mpr ⟨before, request, hasked, hid, hbehind.append rfl rfl⟩, rfl⟩
  · rw [hread]
    exact ⟨sync_of_disconnected rfl rfl, rfl⟩

/-! ## Taking a frame -/

/-- What makes `ReadResponse` accept a frame, apart from the result type. -/
def Acceptable (z : Zstd) (heap : Heap) (ciphertext : Bytes) (response : RpcResponse) : Prop :=
  ∃ frame, decodeFrame z heap ciphertext = .ok (.kComplete frame) ∧
    RpcResponse.deserializeTerminated .fresh frame = .ok (true, response) ∧
      response.errorCode = ErrorCode.success.toUInt32

/-- The peer's stream is in step with the requests at the place of the last
one: if the frame there is an acceptable response, it carries the request's
sequence id. -/
def InStep (z : Zstd) (heap : Heap) (s : Session) : Prop :=
  ∀ before request ciphertext response, s.asked = before ++ [request] →
    (ciphertexts.drain s.received).items[before.length]? = some ciphertext →
      Acceptable z heap ciphertext response → response.sequenceId = request.sequenceId

theorem Behind.getElem? {done : List RpcRequest} (h : Behind s done) :
    (ciphertexts.drain s.received).items[done.length]? =
      (ciphertexts.drain s.connection.readBuffer).items[0]? := by
  obtain ⟨taken, hcount, hdrain⟩ := h
  rw [hdrain, Received.prepend_items, ← hcount, List.getElem?_append_right le_rfl, Nat.sub_self]

theorem Behind.take {before : List RpcRequest} {request : RpcRequest} (h : Behind s before)
    {ciphertext rest : Bytes} (hasked : s.asked = before ++ [request])
    (hcut : cutCiphertext s.connection.readBuffer = .item ciphertext rest)
    (hbuffer : t.connection.readBuffer = rest) (hreceived : t.received = s.received)
    (hsame : t.asked = s.asked) : Behind t t.asked := by
  obtain ⟨taken, hcount, hdrain⟩ := h
  refine ⟨taken ++ [ciphertext], by simp [hsame, hasked, hcount], ?_⟩
  have hitem : ciphertexts.cut s.connection.readBuffer = .item ciphertext rest := hcut
  rw [hreceived, hdrain, Cutter.drain_item hitem, hbuffer, Received.prepend_prepend]

theorem items_of_cut {buffer ciphertext rest : Bytes}
    (hcut : cutCiphertext buffer = .item ciphertext rest) :
    (ciphertexts.drain buffer).items[0]? = some ciphertext := by
  have hitem : ciphertexts.cut buffer = .item ciphertext rest := hcut
  rw [Cutter.drain_item hitem]
  rfl

theorem items_of_not_cut {buffer : Bytes}
    (hcut : ∀ ciphertext rest, cutCiphertext buffer ≠ .item ciphertext rest) :
    (ciphertexts.drain buffer).items[0]? = none := by
  cases h : ciphertexts.cut buffer with
  | more =>
      rw [Cutter.drain_more h]
      rfl
  | fail stop =>
      rw [Cutter.drain_fail h]
      rfl
  | item ciphertext rest => exact absurd h (hcut ciphertext rest)

section Extract

variable {before : List RpcRequest} {request : RpcRequest}

theorem inStep_iff (hasked : s.asked = before ++ [request]) (hbehind : Behind s before) :
    InStep z heap s ↔ ∀ ciphertext response,
      (ciphertexts.drain s.connection.readBuffer).items[0]? = some ciphertext →
        Acceptable z heap ciphertext response → response.sequenceId = request.sequenceId := by
  constructor
  · intro h ciphertext response hfirst
    exact h before request ciphertext response hasked (hbehind.getElem?.trans hfirst)
  · intro h before' request' ciphertext response hasked' hitem
    obtain ⟨rfl, hsame⟩ := List.append_inj' (hasked.symm.trans hasked') rfl
    obtain rfl : request = request' := by simpa using hsame
    exact h ciphertext response (hbehind.getElem?.symm.trans hitem)

theorem inStep_of_not_cut (hasked : s.asked = before ++ [request]) (hbehind : Behind s before)
    (hcut : ∀ ciphertext rest,
      cutCiphertext s.connection.readBuffer ≠ .item ciphertext rest) : InStep z heap s := by
  rw [inStep_iff hasked hbehind, items_of_not_cut hcut]
  simp

theorem inStep_iff_of_cut (hasked : s.asked = before ++ [request]) (hbehind : Behind s before)
    {ciphertext rest : Bytes}
    (hcut : cutCiphertext s.connection.readBuffer = .item ciphertext rest) :
    InStep z heap s ↔ ∀ response, Acceptable z heap ciphertext response →
      response.sequenceId = request.sequenceId := by
  rw [inStep_iff hasked hbehind, items_of_cut hcut]
  constructor
  · intro h response
    exact h ciphertext response rfl
  · intro h ciphertext' response hsame
    cases hsame
    exact h response

end Extract

theorem cut_of_extractFrame {buffer rest : Bytes} {result : Except Fault FrameStatus}
    (h : extractFrame z heap buffer = (result, rest)) (hincomplete : result ≠ .ok .kIncomplete)
    (herror : result ≠ .ok .kError) :
    ∃ ciphertext, cutCiphertext buffer = .item ciphertext rest ∧
      decodeFrame z heap ciphertext = result := by
  rw [extractFrame_eq] at h
  cases hcut : cutCiphertext buffer with
  | more =>
      rw [hcut] at h
      cases h
      exact absurd rfl hincomplete
  | fail stop =>
      rw [hcut] at h
      cases h
      exact absurd rfl herror
  | item ciphertext left =>
      rw [hcut] at h
      simp only [Prod.mk.injEq] at h
      obtain ⟨hdecode, rfl⟩ := h
      exact ⟨ciphertext, rfl, hdecode⟩

theorem inStep_of_not_complete {before : List RpcRequest} {request : RpcRequest}
    (hasked : s.asked = before ++ [request]) (hbehind : Behind s before)
    (h : ∀ frame, (extractFrame z heap s.connection.readBuffer).1 ≠ .ok (.kComplete frame)) :
    InStep z heap s := by
  rw [extractFrame_eq] at h
  cases hcut : cutCiphertext s.connection.readBuffer with
  | more => exact inStep_of_not_cut hasked hbehind (by simp [hcut])
  | fail stop => exact inStep_of_not_cut hasked hbehind (by simp [hcut])
  | item ciphertext rest =>
      rw [hcut] at h
      rw [inStep_iff_of_cut hasked hbehind hcut]
      rintro response ⟨frame, hframe, -⟩
      exact absurd hframe (h frame)

/-- What a pass behind `ReadWithTimeout` does to the log, and what being in
step has to do with it. -/
theorem sync_extract (decodes : Bool) (hsync : Sync s) (hphase : s.phase = .extracting) :
    Sync (s.extract z heap decodes) ∧
      ((s.extract z heap decodes).log = s.log ∧ (decodes = true → InStep z heap s) ∨
        ∃ response, decodes = true ∧
          (s.extract z heap decodes).log = s.log ++ [⟨s.calls, s.sequenceId, response⟩] ∧
            (InStep z heap s ↔ response.sequenceId = s.sequenceId)) := by
  obtain ⟨before, request, hasked, hid, hbehind⟩ := (sync_busy (.inr hphase)).mp hsync
  generalize hresult : s.extract z heap decodes = t
  have hextracted := extracted z heap s decodes
  rw [hresult] at hextracted
  cases hextracted with
  | waits hextract =>
      refine ⟨(sync_busy (.inl rfl)).mpr ⟨before, request, hasked, hid, hbehind⟩,
        .inl ⟨rfl, fun _ ↦ inStep_of_not_complete hasked hbehind ?_⟩⟩
      simp [hextract]
  | givesUp rest hextract =>
      refine ⟨sync_of_disconnected rfl rfl,
        .inl ⟨rfl, fun _ ↦ inStep_of_not_complete hasked hbehind ?_⟩⟩
      simp [hextract]
  | throws fault rest hextract =>
      obtain ⟨ciphertext, hcut, -⟩ := cut_of_extractFrame hextract (by simp) (by simp)
      refine ⟨(sync_idle rfl).mpr fun _ ↦ hbehind.take hasked hcut rfl rfl rfl,
        .inl ⟨rfl, fun _ ↦ inStep_of_not_complete hasked hbehind ?_⟩⟩
      simp [hextract]
  | refuses frame rest phase hextract hphase' hrefused =>
      obtain ⟨ciphertext, hcut, hdecode⟩ := cut_of_extractFrame hextract (by simp) (by simp)
      refine ⟨?_, .inl ⟨rfl, fun hdecodes ↦ ?_⟩⟩
      · rcases hphase' with rfl | rfl
        · exact (sync_idle rfl).mpr fun _ ↦ hbehind.take hasked hcut rfl rfl rfl
        · trivial
      · rw [inStep_iff_of_cut hasked hbehind hcut]
        rintro response ⟨frame', hframe, hresponse, hcode⟩
        rw [hdecode] at hframe
        cases hframe
        exact absurd hcode (hrefused hdecodes response hresponse)
  | accepts frame rest response hextract hdeserialize hcode hdecodes =>
      obtain ⟨ciphertext, hcut, hdecode⟩ := cut_of_extractFrame hextract (by simp) (by simp)
      refine ⟨(sync_idle rfl).mpr fun _ ↦ hbehind.take hasked hcut rfl rfl rfl,
        .inr ⟨response, hdecodes, rfl, ?_⟩⟩
      rw [inStep_iff_of_cut hasked hbehind hcut, ← hid]
      constructor
      · intro h
        exact h response ⟨frame, hdecode, hdeserialize, hcode⟩
      · rintro h response' ⟨frame', hframe, hresponse, -⟩
        rw [hdecode] at hframe
        cases hframe
        rw [hdeserialize] at hresponse
        cases hresponse
        exact h

/-! ## Runs -/

theorem sync_step {a : Action} (hsync : Sync s) (h : step z heap s a = some t) : Sync t := by
  cases a with
  | call args env =>
      obtain ⟨hphase, rfl⟩ := step_call h
      exact (sync_call args env hsync hphase).1
  | read r =>
      obtain ⟨hphase, rfl⟩ := step_read h
      exact (sync_read r hsync hphase).1
  | fail =>
      obtain ⟨-, rfl⟩ := step_fail h
      exact sync_of_disconnected rfl rfl
  | extract decodes =>
      obtain ⟨hphase, rfl⟩ := step_extract h
      exact (sync_extract decodes hsync hphase).1

theorem sync_start (fd : ℕ) : Sync (Session.start fd) := by
  refine (sync_idle rfl).mpr fun _ ↦ ⟨[], rfl, ?_⟩
  rfl

theorem sync_run {fd : ℕ} {trace : List (Session × Action)} {last : Session}
    (hrun : Run (step z heap) (.start fd) trace last) : Sync last :=
  hrun.invariant Sync (sync_start fd) fun _ _ _ _ hsync hstep ↦ sync_step hsync hstep

def Matched (s : Session) : Prop :=
  ∀ entry ∈ s.log, entry.response.sequenceId = entry.sequenceId

/-- A step keeps the log matched, except for an acceptance out of step. -/
theorem matched_step {a : Action} (hsync : Sync s) (h : step z heap s a = some t) :
    Matched t ↔ Matched s ∧ (a = .extract true → InStep z heap s) := by
  have hsame (hlog : t.log = s.log) (ha : a ≠ .extract true) :
      Matched t ↔ Matched s ∧ (a = .extract true → InStep z heap s) := by
    rw [Matched, hlog, ← Matched]
    simp [ha]
  cases a with
  | call args env =>
      obtain ⟨hphase, rfl⟩ := step_call h
      exact hsame (sync_call args env hsync hphase).2 (by simp)
  | read r =>
      obtain ⟨hphase, rfl⟩ := step_read h
      exact hsame (sync_read r hsync hphase).2 (by simp)
  | fail =>
      obtain ⟨-, rfl⟩ := step_fail h
      exact hsame rfl (by simp)
  | extract decodes =>
      obtain ⟨hphase, rfl⟩ := step_extract h
      rcases (sync_extract decodes hsync hphase).2 with
        ⟨hlog, hstep⟩ | ⟨response, rfl, hlog, hstep⟩
      · rw [Matched, hlog, ← Matched]
        refine (and_iff_left fun ha ↦ hstep ?_).symm
        simpa using ha
      · rw [Matched, hlog, List.forall_mem_append, ← Matched]
        simp [hstep]

/-- **Which calls are answered with their own id.**  In every run, whatever
the peer sends, all calls that returned true got a response with the sequence
id of their request exactly when the peer's stream was in step at each place
where a call was given a frame. -/
theorem matched_iff {fd : ℕ} {trace : List (Session × Action)} {last : Session}
    (hrun : Run (step z heap) (.start fd) trace last) :
    (∀ entry ∈ last.log, entry.response.sequenceId = entry.sequenceId) ↔
      ∀ s, (s, .extract true) ∈ trace → InStep z heap s := by
  rw [← Matched]
  induction hrun with
  | nil => simp [Matched, Session.start]
  | @snoc trace s a t hrun hstep ih =>
      rw [matched_step (sync_run hrun) hstep, ih]
      constructor
      · rintro ⟨hall, hlast⟩ s' hmem
        rcases List.mem_append.mp hmem with hmem | hmem
        · exact hall s' hmem
        · obtain ⟨rfl, ha⟩ := Prod.mk.inj (List.mem_singleton.mp hmem)
          exact hlast ha.symm
      · intro hall
        refine ⟨fun s' hmem ↦ hall s' (List.mem_append_left _ hmem), ?_⟩
        rintro rfl
        exact hall s (by simp)

/-! ## A repeated response -/

open StoredFrames

def pong (sequenceId : UInt32) : RpcResponse := ⟨sequenceId, [0x72], [], 0⟩

def pongWire (sequenceId : UInt32) : Bytes :=
  (frameWire stored AesEncrypt.zeroKey (pong sequenceId).serialize).getD []

def callActions (arrived : Bytes) : List Action :=
  [.call pingArgs sentEnv, .read (.bytes arrived), .extract true]

theorem executed_pong :
    (execute (step stored gibibyteHeap) (.start 3) (callActions (pongWire 1))).isSome = true ∧
      (executed (step stored gibibyteHeap) (.start 3) (callActions (pongWire 1))).2.log =
        [⟨1, 1, pong 1⟩] := by
  decide +kernel

theorem matched_iff_pong :
    (executed (step stored gibibyteHeap) (.start 3) (callActions (pongWire 1))).2.log =
        [⟨1, 1, pong 1⟩] ∧
      ∀ s, (s, .extract true) ∈
          (executed (step stored gibibyteHeap) (.start 3) (callActions (pongWire 1))).1 →
        InStep stored gibibyteHeap s := by
  refine ⟨executed_pong.2, (matched_iff (Run.of_isSome executed_pong.1)).mp ?_⟩
  rw [executed_pong.2]
  simp [pong]

/-- A response that ends in the bytes 5, 0, 0 is a byte short, and is taken for call 5's. -/
example :
    (executed (step stored gibibyteHeap) (.start 3) (callActions ((frameWire stored
      AesEncrypt.zeroKey ((RpcHeader.ofBody 15 1).image ++
        (List.replicate 12 0 ++ [5, 0, 0]))).getD []))).2.log =
      [⟨1, 1, { RpcResponse.fresh with sequenceId := 5 }⟩] := by
  decide +kernel

/-- The peer answers the first call twice, and then the second one. -/
def repeatedActions : List Action :=
  callActions (pongWire 1 ++ pongWire 1) ++ callActions (pongWire 2)

theorem executed_repeated :
    (execute (step stored gibibyteHeap) (.start 3) repeatedActions).isSome = true ∧
      (executed (step stored gibibyteHeap) (.start 3) repeatedActions).2.log =
        [⟨1, 1, pong 1⟩, ⟨2, 2, pong 1⟩] := by
  decide +kernel

theorem not_matched_repeated :
    ¬ ∀ trace last, Run (step stored gibibyteHeap) (.start 3) trace last →
      ∀ entry ∈ last.log, entry.response.sequenceId = entry.sequenceId := by
  intro h
  have hentry := h _ _ (Run.of_isSome executed_repeated.1) ⟨2, 2, pong 1⟩
    (by rw [executed_repeated.2]; simp)
  simp [pong] at hentry

end MyRpc.RpcClient
