import MyRpc.Network.EdgeTriggered

/-!
# Frames in front of the end of a stream

A peer sends whole request frames and closes.  The run of `EdgeTriggered` is
accompanied by the bytes that have arrived and the requests that were given
to `HandleRpcRequest`.  `Read` returns false for an end of stream also when
the same call has put frames into the buffer, and the frames are lost with
the connection (`served_iff`).
-/

namespace MyRpc.EndOfStream

open FixedWidth PartialRun Connection MessageCycle EdgeTriggered

/-- The bytes of one frame that the server dispatches when it holds them. -/
structure RequestFrame (z : Zstd) (heap : Heap) where
  wire : Bytes
  request : RpcRequest
  valid : framePass z heap wire = .dispatches request []

structure Served where
  watched : Watched
  arrived : Bytes
  dispatched : List RpcRequest
  deriving DecidableEq

def start (fd : ℤ) : Served := ⟨accepted fd [] false, [], []⟩

def arrivedAfter (s : Served) : Action → Bytes
  | .arrive bytes => s.arrived ++ bytes
  | _ => s.arrived

def dispatchedAfter (z : Zstd) (heap : Heap) (s : Served) : Action → List RpcRequest
  | .finish => s.dispatched ++ (frameLoop z heap s.watched.conn.readBuffer).dispatched
  | _ => s.dispatched

def step (z : Zstd) (heap : Heap) (s : Served) (a : Action) : Option Served :=
  (EdgeTriggered.step z heap s.watched a).map fun watched ↦
    ⟨watched, arrivedAfter s a, dispatchedAfter z heap s a⟩

/-- The condition on a `read(2)`: its bytes fit into the buffer, and if it
reports the end of the stream, then no whole frame is in the buffer. -/
def ServedRead (z : Zstd) (heap : Heap) (s : Served) : Prop :=
  (s.watched.queue ≠ [] → s.watched.conn.readBuffer.length +
      (s.watched.queue.take readSize).length ≤ maxBufferSize) ∧
    (s.watched.queue = [] → s.watched.eof = true →
      ∀ request rest, framePass z heap s.watched.conn.readBuffer ≠ .dispatches request rest)

variable {z : Zstd} {heap : Heap} {s t : Served}

/-! ## Frames in a buffer -/

theorem framePass_dispatches {buffer rest : Bytes} {request : RpcRequest}
    (h : framePass z heap buffer = .dispatches request rest) :
    ∃ frame, extractFrame z heap buffer = (.ok (.kComplete frame), rest) ∧
      RpcRequest.deserialize .fresh frame = .ok (true, request) := by
  unfold framePass at h
  split at h
  · cases h
  · cases h
  · cases h
  · rename_i frame left hextract
    split at h <;> cases h
    rename_i hdecode
    exact ⟨frame, hextract, hdecode⟩

namespace RequestFrame

variable (f : RequestFrame z heap)

theorem wire_ne_nil : f.wire ≠ [] := by
  apply List.ne_nil_of_length_pos
  exact framePass_lt f.valid

theorem framePass_append (rest : Bytes) :
    framePass z heap (f.wire ++ rest) = .dispatches f.request rest := by
  obtain ⟨frame, hextract, hdecode⟩ := framePass_dispatches f.valid
  have hlonger : extractFrame z heap (f.wire ++ rest) = (.ok (.kComplete frame), rest) := by
    rw [extractFrame_append rest (by simp [hextract]), hextract]
    rfl
  simp only [framePass, hlonger, hdecode]

/-- A proper part of a frame is waited for. -/
theorem framePass_take {n : ℕ} (hn : n < f.wire.length) :
    framePass z heap (f.wire.take n) = .waits (f.wire.take n) := by
  obtain ⟨frame, hextract, -⟩ := framePass_dispatches f.valid
  have hpart : extractFrame z heap (f.wire.take n) = (.ok .kIncomplete, f.wire.take n) := by
    have htake : (f.wire.take n).length = n := List.length_take_of_le hn.le
    rcases extractFrame_cases z heap f.wire with
      ⟨hmore, -⟩ | ⟨-, -, herror⟩ | ⟨hsize, hwhole, hcut⟩
    · rw [hmore] at hextract
      cases hextract
    · rw [herror] at hextract
      cases hextract
    · have hnil : f.wire.drop (4 + cipherLen f.wire) = [] := by
        rw [hcut] at hextract
        exact (Prod.mk.inj hextract).2
      have hexact := List.drop_eq_nil_iff.mp hnil
      by_cases hfour : n < 4
      · exact extractFrame_short (by rwa [htake])
      · have hsame : cipherLen (f.wire.take n) = cipherLen f.wire := by
          conv_rhs => rw [← List.take_append_drop n f.wire]
          rw [cipherLen_append _ (by omega)]
        exact extractFrame_incomplete (by omega) (by rwa [hsame]) (by omega)
  simp only [framePass, hpart]

end RequestFrame

theorem frameLoop_dispatches {buffer rest : Bytes} {request : RpcRequest}
    (h : framePass z heap buffer = .dispatches request rest) :
    frameLoop z heap buffer =
      ⟨request :: (frameLoop z heap rest).dispatched, (frameLoop z heap rest).ending⟩ := by
  rw [frameLoop]
  split <;> simp_all

theorem frameLoop_waits {buffer left : Bytes} (h : framePass z heap buffer = .waits left) :
    frameLoop z heap buffer = ⟨[], .ok (some left)⟩ := by
  rw [frameLoop]
  split <;> simp_all

/-- On what has arrived of a stream of frames, the loop of `HandleClientData`
dispatches the whole ones and keeps the rest. -/
theorem frameLoop_of_isPrefix {frames : List (RequestFrame z heap)} {buffer : Bytes}
    (h : buffer <+: frames.flatMap RequestFrame.wire) :
    ∃ done rest left, frames = done ++ rest ∧
      buffer = done.flatMap RequestFrame.wire ++ left ∧
      frameLoop z heap buffer = ⟨done.map RequestFrame.request, .ok (some left)⟩ := by
  induction frames generalizing buffer with
  | nil =>
      obtain rfl : buffer = [] := List.prefix_nil.mp h
      exact ⟨[], [], [], rfl, rfl, frameLoop_short (by simp)⟩
  | cons f frames ih =>
      rw [List.flatMap_cons] at h
      by_cases hpart : buffer.length < f.wire.length
      · have htake : buffer = f.wire.take buffer.length := by
          apply List.prefix_iff_eq_take.mp
          exact List.prefix_of_prefix_length_le h (List.prefix_append _ _) hpart.le
        refine ⟨[], f :: frames, buffer, rfl, rfl, frameLoop_waits ?_⟩
        rw [htake]
        exact f.framePass_take (htake ▸ hpart)
      · have hwhole : f.wire <+: buffer :=
          List.prefix_of_prefix_length_le (List.prefix_append _ _) h (Nat.le_of_not_lt hpart)
        obtain ⟨behind, rfl⟩ := hwhole
        obtain ⟨done, rest, left, rfl, rfl, hloop⟩ :=
          ih ((List.prefix_append_right_inj _).mp h)
        refine ⟨f :: done, rest, left, rfl, ?_, ?_⟩
        · simp
        · rw [frameLoop_dispatches (f.framePass_append _), hloop]
          rfl

/-! ## What a step does to a live connection -/

/-- What has arrived is the dispatched frames, the buffer and the queue. -/
structure Live (frames : List (RequestFrame z heap)) (s : Served) : Prop where
  connected : s.watched.conn.state = .connected
  split : ∃ done rest, frames = done ++ rest ∧
    s.dispatched = done.map RequestFrame.request ∧
      done.flatMap RequestFrame.wire ++ (s.watched.conn.readBuffer ++ s.watched.queue) = s.arrived

structure Inv (frames : List (RequestFrame z heap)) (s : Served) : Prop where
  live : s.watched.registered = true → Live frames s
  removed : s.watched.registered = false → s.watched.phase = .waiting

variable {frames : List (RequestFrame z heap)}

theorem inv_start {fd : ℤ} (hfd : 0 ≤ fd) : Inv frames (start fd) where
  live _ :=
    { connected := if_pos hfd
      split := ⟨[], frames, rfl, rfl, rfl⟩ }
  removed h := by cases h

theorem step_eq_some {a : Action} (h : step z heap s a = some t) :
    EdgeTriggered.step z heap s.watched a = some t.watched ∧
      t.arrived = arrivedAfter s a ∧ t.dispatched = dispatchedAfter z heap s a := by
  obtain ⟨watched, hstep, rfl⟩ := Option.map_eq_some_iff.mp h
  exact ⟨hstep, rfl, rfl⟩

/-- What is undispatched of the stream starts with the buffer and the queue. -/
theorem Live.undispatched (h : Live frames s)
    (harrived : s.arrived <+: frames.flatMap RequestFrame.wire) :
    ∃ done rest, frames = done ++ rest ∧ s.dispatched = done.map RequestFrame.request ∧
      done.flatMap RequestFrame.wire ++ (s.watched.conn.readBuffer ++ s.watched.queue) =
        s.arrived ∧
      s.watched.conn.readBuffer ++ s.watched.queue <+: rest.flatMap RequestFrame.wire := by
  obtain ⟨done, rest, rfl, hdispatched, hsplit⟩ := h.split
  refine ⟨done, rest, rfl, hdispatched, hsplit, ?_⟩
  rw [← hsplit, List.flatMap_append] at harrived
  exact (List.prefix_append_right_inj _).mp harrived

theorem Live.not_all (h : Live frames s)
    (harrived : s.arrived <+: frames.flatMap RequestFrame.wire)
    (hleft : s.watched.conn.readBuffer ++ s.watched.queue ≠ []) :
    s.dispatched ≠ frames.map RequestFrame.request := by
  obtain ⟨done, rest, rfl, hdispatched, -, hpart⟩ := h.undispatched harrived
  intro hall
  have hlen := congrArg List.length (hdispatched.symm.trans hall)
  simp only [List.length_map, List.length_append] at hlen
  obtain rfl : rest = [] := List.eq_nil_of_length_eq_zero (by omega)
  exact hleft (List.prefix_nil.mp hpart)

theorem Live.all (h : Live frames s)
    (harrived : s.arrived = frames.flatMap RequestFrame.wire) (hqueue : s.watched.queue = [])
    (hbuffer : ∀ request rest,
      framePass z heap s.watched.conn.readBuffer ≠ .dispatches request rest) :
    s.dispatched = frames.map RequestFrame.request := by
  obtain ⟨done, rest, rfl, hdispatched, hsplit⟩ := h.split
  rw [harrived, List.flatMap_append, List.append_cancel_left_eq, hqueue, List.append_nil] at hsplit
  cases rest with
  | nil => simpa using hdispatched
  | cons f rest =>
      rw [hsplit, List.flatMap_cons] at hbuffer
      exact absurd (f.framePass_append _) (hbuffer _ _)

/-- A `read(2)` on a live connection moves bytes from the queue to the buffer,
or is the end of the connection: then it has reported the end of the stream,
or its bytes do not fit. -/
theorem step_read (hlive : Live frames s) (h : step z heap s .read = some t) :
    t.dispatched = s.dispatched ∧ t.arrived = s.arrived ∧
      (t.watched.registered = s.watched.registered ∧ Live frames t ∧ ServedRead z heap s ∨
        t.watched.registered = false ∧ t.watched.phase = .waiting ∧
          (s.watched.queue = [] ∧ s.watched.eof = true ∨
            s.watched.queue ≠ [] ∧ ¬ s.watched.conn.readBuffer.length +
              (s.watched.queue.take readSize).length ≤ maxBufferSize)) := by
  obtain ⟨hstep, harrive, hdispatched⟩ := step_eq_some h
  have harrived : t.arrived = s.arrived := harrive
  refine ⟨hdispatched, harrived, ?_⟩
  obtain ⟨done, rest, hframes, hdone, hsplit⟩ := hlive.split
  simp only [EdgeTriggered.step, Option.ite_none_right_eq_some] at hstep
  obtain ⟨-, hstep⟩ := hstep
  by_cases hqueue : s.watched.queue = []
  · cases heof : s.watched.eof with
    | true =>
        simp only [Socket.read, hqueue, heof, List.isEmpty_nil, if_true, onRead,
          Option.some.injEq] at hstep
        rw [← hstep]
        exact .inr ⟨rfl, rfl, .inl ⟨hqueue, rfl⟩⟩
    | false =>
        simp only [Socket.read, hqueue, heof, List.isEmpty_nil, if_true, onRead,
          Option.some.injEq, Bool.false_eq_true, if_false] at hstep
        refine .inl ⟨by rw [← hstep], ⟨by rw [← hstep]; exact hlive.connected, ?_⟩, ?_⟩
        · refine ⟨done, rest, hframes, hdispatched.trans hdone, ?_⟩
          rw [harrived, ← hstep]
          simpa only [hqueue] using hsplit
        · exact ⟨fun hne ↦ absurd hqueue hne, by simp [heof]⟩
  rw [read_of_ne_nil hqueue] at hstep
  by_cases hfit : s.watched.conn.readBuffer.length + (s.watched.queue.take readSize).length ≤
      maxBufferSize
  · left
    have hmoved : ∀ phase, t.watched = { s.watched with
          queue := s.watched.queue.drop readSize
          conn := s.watched.conn.append (s.watched.queue.take readSize)
          phase } →
        t.watched.registered = s.watched.registered ∧ Live frames t ∧ ServedRead z heap s := by
      intro phase heq
      refine ⟨by rw [heq], ⟨by rw [heq]; exact hlive.connected, ?_⟩, ?_⟩
      · refine ⟨done, rest, hframes, hdispatched.trans hdone, ?_⟩
        rw [harrived, heq]
        simpa only [append_readBuffer, List.append_assoc, List.take_append_drop] using hsplit
      · exact ⟨fun _ ↦ hfit, fun hnil ↦ absurd hnil hqueue⟩
    by_cases hshort : (s.watched.queue.take readSize).length < readSize
    · simp only [onRead_short hfit hshort, Option.some.injEq] at hstep
      exact hmoved .extracting hstep.symm
    · simp only [onRead_full hfit (Nat.le_of_not_lt hshort), Option.some.injEq] at hstep
      exact hmoved _ hstep.symm
  · right
    simp only [onRead_overflow (Nat.lt_of_not_le hfit), Option.some.injEq] at hstep
    rw [← hstep]
    exact ⟨rfl, rfl, .inr ⟨hqueue, hfit⟩⟩

/-- The other steps, the failed write of a worker apart, keep the connection
as it is registered. -/
theorem step_other {a : Action} (hinv : Inv frames s)
    (harrived : s.arrived <+: frames.flatMap RequestFrame.wire) (hread : a ≠ .read)
    (hwrite : a ≠ .writeError) (h : step z heap s a = some t) :
    Inv frames t ∧ t.watched.registered = s.watched.registered ∧
      (s.watched.registered = false → t.dispatched = s.dispatched) := by
  obtain ⟨hstep, harrive, hdispatched⟩ := step_eq_some h
  cases a with
  | read => exact absurd rfl hread
  | writeError => exact absurd rfl hwrite
  | arrive bytes =>
      simp only [EdgeTriggered.step, Option.ite_none_right_eq_some, Option.some.injEq] at hstep
      obtain ⟨-, hstep⟩ := hstep
      refine ⟨⟨fun hregistered ↦ ?_, ?_⟩, by rw [← hstep], fun _ ↦ hdispatched⟩
      · rw [← hstep] at hregistered
        obtain ⟨hconnected, done, rest, hframes, hdone, hsplit⟩ := hinv.live hregistered
        refine ⟨by rwa [← hstep], done, rest, hframes, hdispatched.trans hdone, ?_⟩
        rw [harrive, ← hstep]
        simp only [arrivedAfter, ← hsplit, List.append_assoc]
      · rw [← hstep]
        exact hinv.removed
  | close =>
      simp only [EdgeTriggered.step, Option.ite_none_right_eq_some, Option.some.injEq] at hstep
      obtain ⟨-, hstep⟩ := hstep
      refine ⟨⟨fun hregistered ↦ ?_, ?_⟩, by rw [← hstep], fun _ ↦ hdispatched⟩
      · rw [← hstep] at hregistered
        obtain ⟨hconnected, hsplit⟩ := hinv.live hregistered
        refine ⟨by rwa [← hstep], ?_⟩
        rw [hdispatched, harrive, ← hstep]
        exact hsplit
      · rw [← hstep]
        exact hinv.removed
  | collect =>
      simp only [EdgeTriggered.step, Option.ite_none_right_eq_some] at hstep
      obtain ⟨⟨-, hregistered, -⟩, hstep⟩ := hstep
      obtain ⟨hconnected, hsplit⟩ := hinv.live hregistered
      rw [if_pos hconnected, Option.some.injEq] at hstep
      refine ⟨⟨fun _ ↦ ⟨by rwa [← hstep], ?_⟩, fun hremoved ↦ ?_⟩, by rw [← hstep],
        fun _ ↦ hdispatched⟩
      · rw [hdispatched, harrive, ← hstep]
        exact hsplit
      · rw [← hstep] at hremoved
        simp [hregistered] at hremoved
  | finish =>
      simp only [EdgeTriggered.step, Option.ite_none_right_eq_some] at hstep
      obtain ⟨hphase, hstep⟩ := hstep
      have hregistered : s.watched.registered = true := by
        by_contra hremoved
        simp [hinv.removed (Bool.eq_false_of_not_eq_true hremoved)] at hphase
      have hlive := hinv.live hregistered
      obtain ⟨done, rest, rfl, hdone, hsplit, hpart⟩ := hlive.undispatched harrived
      obtain ⟨more, rest', left, rfl, hbuffer, hloop⟩ :=
        frameLoop_of_isPrefix ((List.prefix_append _ _).trans hpart)
      rw [hloop, Option.some.injEq] at hstep
      refine ⟨⟨fun _ ↦ ⟨by rw [← hstep]; exact hlive.connected, ?_⟩, fun hremoved ↦ ?_⟩,
        by rw [← hstep], fun hremoved ↦ ?_⟩
      · refine ⟨done ++ more, rest', by simp, ?_, ?_⟩
        · rw [hdispatched, dispatchedAfter, hloop, hdone, List.map_append]
        · rw [harrive, ← hstep]
          simp only [arrivedAfter, ← hsplit, hbuffer, List.flatMap_append, List.append_assoc]
      · rw [← hstep] at hremoved
        simp [hregistered] at hremoved
      · simp [hregistered] at hremoved

/-! ## A whole run -/

/-- After the end of the stream nothing more arrives, and what has arrived
never goes away. -/
theorem arrived_run {trace : List (Served × Action)} {last : Served}
    (hrun : Run (step z heap) s trace last) :
    s.arrived <+: last.arrived ∧ (s.watched.eof = true → last.arrived = s.arrived) := by
  have hkept : s.arrived <+: last.arrived ∧
      (s.watched.eof = true → last.watched.eof = true ∧ last.arrived = s.arrived) := by
    refine hrun.invariant (fun t ↦ s.arrived <+: t.arrived ∧
      (s.watched.eof = true → t.watched.eof = true ∧ t.arrived = s.arrived))
      ⟨List.prefix_rfl, fun heof ↦ ⟨heof, rfl⟩⟩ ?_
    rintro t a u - ⟨hpart, hsame⟩ hstep
    obtain ⟨hwatched, harrived, -⟩ := step_eq_some hstep
    rw [harrived]
    cases a with
    | arrive bytes =>
        simp only [EdgeTriggered.step, Option.ite_none_right_eq_some, Option.some.injEq]
          at hwatched
        refine ⟨hpart.trans (List.prefix_append _ _), fun heof ↦ ?_⟩
        rw [(hsame heof).1] at hwatched
        cases hwatched.1.2
    | close =>
        simp only [EdgeTriggered.step, Option.ite_none_right_eq_some, Option.some.injEq]
          at hwatched
        refine ⟨hpart, fun heof ↦ ?_⟩
        rw [(hsame heof).1] at hwatched
        cases hwatched.1
    | writeError =>
        have hmarked := Option.some.inj hwatched
        refine ⟨hpart, fun heof ↦ ⟨?_, (hsame heof).2⟩⟩
        rw [← hmarked]
        exact (hsame heof).1
    | collect =>
        obtain ⟨-, -, -, heof', -⟩ := EdgeTriggered.step_collect hwatched
        exact ⟨hpart, fun heof ↦ ⟨heof'.trans (hsame heof).1, (hsame heof).2⟩⟩
    | read =>
        obtain ⟨-, heof', -⟩ := EdgeTriggered.step_read hwatched
        exact ⟨hpart, fun heof ↦ ⟨heof'.trans (hsame heof).1, (hsame heof).2⟩⟩
    | finish =>
        obtain ⟨-, heof', -⟩ := EdgeTriggered.step_finish hwatched
        exact ⟨hpart, fun heof ↦ ⟨heof'.trans (hsame heof).1, (hsame heof).2⟩⟩
  exact ⟨hkept.1, fun heof ↦ (hkept.2 heof).2⟩

/-- As long as the connection is registered no `read(2)` has gone wrong; once
it is removed, everything has been dispatched unless one has. -/
structure Accounted (frames : List (RequestFrame z heap)) (trace : List (Served × Action))
    (s : Served) : Prop where
  inv : Inv frames s
  current : s.watched.registered = true → ∀ t, (t, .read) ∈ trace → ServedRead z heap t
  closed : s.watched.registered = false →
    (s.dispatched = frames.map RequestFrame.request ↔
      ∀ t, (t, .read) ∈ trace → ServedRead z heap t)

theorem accounted_read {trace : List (Served × Action)} (h : Accounted frames trace s)
    (harrived : s.arrived <+: frames.flatMap RequestFrame.wire)
    (heof : s.watched.eof = true → s.arrived = frames.flatMap RequestFrame.wire)
    (hstep : step z heap s .read = some t) :
    Accounted frames (trace ++ [(s, .read)]) t := by
  have hregistered : s.watched.registered = true := by
    by_contra hremoved
    have hphase := (EdgeTriggered.step_read (step_eq_some hstep).1).1
    simp [h.inv.removed (Bool.eq_false_of_not_eq_true hremoved)] at hphase
  have hlive := h.inv.live hregistered
  have hreads := h.current hregistered
  have hall : (∀ u, (u, Action.read) ∈ trace ++ [(s, .read)] → ServedRead z heap u) ↔
      ServedRead z heap s := by
    constructor
    · intro hall
      exact hall s (by simp)
    · intro hserved u hmem
      rcases List.mem_append.mp hmem with hold | hnew
      · exact hreads u hold
      · cases List.mem_singleton.mp hnew
        exact hserved
  obtain ⟨hdispatched, -, ⟨hkept, hlive', hserved⟩ | ⟨hremoved, hphase, hend⟩⟩ :=
    step_read hlive hstep
  · rw [hregistered] at hkept
    exact ⟨⟨fun _ ↦ hlive', fun hremoved ↦ by simp [hkept] at hremoved⟩, fun _ ↦ hall.mpr hserved,
      fun hremoved ↦ by simp [hkept] at hremoved⟩
  · refine ⟨⟨fun hopen ↦ by simp [hremoved] at hopen, fun _ ↦ hphase⟩,
      fun hopen ↦ by simp [hremoved] at hopen, fun _ ↦ ?_⟩
    rw [hall, hdispatched]
    rcases hend with ⟨hqueue, hclosed⟩ | ⟨hqueue, hover⟩
    · constructor
      · intro hdone
        refine ⟨fun hne ↦ absurd hqueue hne, fun _ _ request rest hpass ↦ ?_⟩
        refine hlive.not_all harrived (fun hnil ↦ ?_) hdone
        have hlt := framePass_lt hpass
        simp [(List.append_eq_nil_iff.mp hnil).1] at hlt
      · intro hserved
        exact hlive.all (heof hclosed) hqueue (hserved.2 hqueue hclosed)
    · refine iff_of_false (hlive.not_all harrived ?_) fun hserved ↦ hover (hserved.1 hqueue)
      exact fun hnil ↦ hqueue (List.append_eq_nil_iff.mp hnil).2

theorem accounted_other {trace : List (Served × Action)} {a : Action}
    (h : Accounted frames trace s) (harrived : s.arrived <+: frames.flatMap RequestFrame.wire)
    (hread : a ≠ .read) (hwrite : a ≠ .writeError) (hstep : step z heap s a = some t) :
    Accounted frames (trace ++ [(s, a)]) t := by
  obtain ⟨hinv, hregistered, hkept⟩ := step_other h.inv harrived hread hwrite hstep
  have hall : (∀ u, (u, Action.read) ∈ trace ++ [(s, a)] → ServedRead z heap u) ↔
      ∀ u, (u, Action.read) ∈ trace → ServedRead z heap u := by
    have hmem : ∀ u, (u, Action.read) ∈ trace ++ [(s, a)] ↔ (u, Action.read) ∈ trace := by
      intro u
      simp only [List.mem_append, List.mem_singleton, Prod.mk.injEq, hread.symm, and_false,
        or_false]
    simp only [hmem]
  refine ⟨hinv, fun hopen ↦ ?_, fun hremoved ↦ ?_⟩
  · rw [hall]
    exact h.current (hregistered ▸ hopen)
  · rw [hregistered] at hremoved
    rw [hall, hkept hremoved]
    exact h.closed hremoved

theorem accounted_run {fd : ℤ} (hfd : 0 ≤ fd) {trace : List (Served × Action)} {last : Served}
    (hrun : Run (step z heap) (start fd) trace last)
    (harrived : ∀ s a, (s, a) ∈ trace → s.arrived <+: frames.flatMap RequestFrame.wire ∧
      (s.watched.eof = true → s.arrived = frames.flatMap RequestFrame.wire))
    (hwrite : ∀ s, (s, .writeError) ∉ trace) : Accounted frames trace last := by
  induction hrun with
  | nil =>
      exact ⟨inv_start hfd, fun _ t hmem ↦ by simp at hmem,
        fun hremoved ↦ by cases hremoved⟩
  | @snoc trace s a t hrun hstep ih =>
      have hbefore := ih (fun u b hmem ↦ harrived u b (List.mem_append_left _ hmem))
        fun u hmem ↦ hwrite u (List.mem_append_left _ hmem)
      obtain ⟨hpart, hwhole⟩ := harrived s a (by simp)
      by_cases hread : a = .read
      · subst hread
        exact accounted_read hbefore hpart hwhole hstep
      · refine accounted_other hbefore hpart hread ?_ hstep
        rintro rfl
        exact hwrite s (by simp)

/-- **Frames in front of the end of a stream.**  A peer has sent whole request
frames and closed, no worker's write has failed, and the connection has been
removed.  Then all frames have been dispatched, each once and in order,
exactly when no read reported the end with a whole frame in the buffer, and
none overflowed it. -/
theorem served_iff {fd : ℤ} (hfd : 0 ≤ fd) {trace : List (Served × Action)} {last : Served}
    (hrun : Run (step z heap) (start fd) trace last)
    (harrived : last.arrived = frames.flatMap RequestFrame.wire)
    (hwrite : ∀ s, (s, .writeError) ∉ trace) (hremoved : last.watched.registered = false) :
    last.dispatched = frames.map RequestFrame.request ↔
      ∀ s, (s, .read) ∈ trace → ServedRead z heap s := by
  refine (accounted_run hfd hrun ?_ hwrite).closed hremoved
  intro s a hmem
  obtain ⟨before, t, after, -, hstep, hafter, -⟩ := hrun.split hmem
  obtain ⟨hpart, hsame⟩ := arrived_run (hafter.cons hstep)
  rw [← harrived]
  exact ⟨hpart, fun hclosed ↦ (hsame hclosed).symm⟩

/-! ## Streams of whole buffers -/

/-- From the middle of a `Read` of whole buffers with the end of the stream
behind them, the connection is removed with nothing dispatched. -/
theorem removed_of_dvd {k : ℕ} (heof : s.watched.eof = true) (hphase : s.watched.phase = .reading)
    (hqueue : s.watched.queue.length = k * readSize)
    (hfit : s.watched.conn.readBuffer.length + s.watched.queue.length ≤ maxBufferSize) :
    ∃ trace last, Run (step z heap) s trace last ∧ last.watched.registered = false ∧
      last.arrived = s.arrived ∧ last.dispatched = s.dispatched ∧
        ∀ t, (t, .writeError) ∉ trace := by
  induction k generalizing s with
  | zero =>
      have hnil : s.watched.queue = [] := by simpa using hqueue
      have hstep : step z heap s .read = some ⟨Watched.remove
          { s.watched with conn := s.watched.conn.markDisconnected }, s.arrived,
          s.dispatched⟩ := by
        simp only [step, EdgeTriggered.step, hphase, if_true, Socket.read, hnil, heof,
          List.isEmpty_nil, onRead]
        rfl
      exact ⟨_, _, Run.nil.snoc hstep, rfl, rfl, rfl, by simp⟩
  | succ k ih =>
      have hfull : readSize ≤ s.watched.queue.length := by
        rw [hqueue, Nat.succ_mul]
        exact Nat.le_add_left _ _
      have hne : s.watched.queue ≠ [] := by
        apply List.ne_nil_of_length_pos
        exact (by decide : 0 < readSize).trans_le hfull
      have htake : (s.watched.queue.take readSize).length = readSize :=
        List.length_take_of_le hfull
      have hstep : step z heap s .read = some ⟨{ s.watched with
          queue := s.watched.queue.drop readSize
          conn := s.watched.conn.append (s.watched.queue.take readSize) }, s.arrived,
          s.dispatched⟩ := by
        have hread := read_of_ne_nil (s := ⟨s.watched.queue, s.watched.eof, true⟩) hne
        have hnext : s.watched.conn.onRead (.bytes (s.watched.queue.take readSize)) =
            (s.watched.conn.append (s.watched.queue.take readSize), .next) :=
          onRead_full (by omega) htake.ge
        simp only [step, EdgeTriggered.step, hphase, if_true, hread, hnext]
        rfl
      obtain ⟨trace, last, hrun, hremoved, harrived, hdispatched, hwrite⟩ :=
        ih (s := ⟨{ s.watched with
          queue := s.watched.queue.drop readSize
          conn := s.watched.conn.append (s.watched.queue.take readSize) }, s.arrived,
          s.dispatched⟩) heof hphase
          (by rw [List.length_drop, hqueue, Nat.succ_mul, Nat.add_sub_cancel])
          (by
            rw [append_readBuffer, List.length_append, htake, List.length_drop]
            omega)
      exact ⟨_, last, hrun.cons hstep, hremoved, harrived, hdispatched, by simpa using hwrite⟩

/-- A stream that has arrived in one piece and is still in the queue. -/
def waiting (stream : Bytes) (eof pending : Bool) (phase : Phase) : Served :=
  ⟨⟨stream, eof, pending, true, phase, ofFd 7⟩, stream, []⟩

theorem step_arrive {stream : Bytes} (hne : stream ≠ []) :
    step z heap (start 7) (.arrive stream) = some (waiting stream false true .waiting) := by
  simp only [step, start, EdgeTriggered.step, accepted, hne, ne_eq, not_false_eq_true, true_and,
    if_true, Option.map_some, List.nil_append]
  rfl

/-- A nonempty stream that is a multiple of `readSize` long and arrives together
with its end is thrown away whole. -/
theorem dropped_of_dvd (z : Zstd) (heap : Heap) {stream : Bytes} (hne : stream ≠ []) {k : ℕ}
    (hlen : stream.length = k * readSize) (hfit : stream.length ≤ maxBufferSize) :
    ∃ trace last, Run (step z heap) (start 7) trace last ∧ last.arrived = stream ∧
      last.watched.registered = false ∧ last.dispatched = [] ∧
        ∀ t, (t, .writeError) ∉ trace := by
  have hclose : step z heap (waiting stream false true .waiting) .close =
      some (waiting stream true true .waiting) := rfl
  have hcollect : step z heap (waiting stream true true .waiting) .collect =
      some (waiting stream true false .reading) := rfl
  obtain ⟨trace, last, hrun, hremoved, harrived, hdispatched, hwrite⟩ :
      ∃ trace last, Run (step z heap) (waiting stream true false .reading) trace last ∧
        last.watched.registered = false ∧ last.arrived = stream ∧ last.dispatched = [] ∧
          ∀ t, (t, .writeError) ∉ trace :=
    removed_of_dvd rfl rfl hlen (by simpa [waiting, ofFd] using hfit)
  exact ⟨_, last, ((hrun.cons hcollect).cons hclose).cons (step_arrive hne), harrived, hremoved,
    hdispatched, by simpa using hwrite⟩

/-! ## A stream of one read -/

/-- A stream that has been read into the buffer. -/
def taken (stream readBuffer : Bytes) (dispatched : List RpcRequest) (eof pending : Bool)
    (phase : Phase) : Served :=
  ⟨⟨[], eof, pending, true, phase, (ofFd 7).append readBuffer⟩, stream, dispatched⟩

/-- A short stream that consists of frames is dispatched whole when its end
comes after `HandleClientData` has been through it. -/
theorem served_of_short {stream : Bytes} (hne : stream ≠ []) (hshort : stream.length < readSize)
    {requests : List RpcRequest}
    (hloop : frameLoop z heap stream = ⟨requests, .ok (some [])⟩) :
    ∃ trace last, Run (step z heap) (start 7) trace last ∧ last.arrived = stream ∧
      last.watched.registered = false ∧ last.dispatched = requests ∧
        ∀ t, (t, .writeError) ∉ trace := by
  have hcollect : step z heap (waiting stream false true .waiting) .collect =
      some (waiting stream false false .reading) := rfl
  have hread : step z heap (waiting stream false false .reading) .read =
      some (taken stream stream [] false false .extracting) := by
    have hsocket := read_of_ne_nil (s := ⟨stream, false, true⟩) hne
    rw [List.take_of_length_le hshort.le, List.drop_of_length_le hshort.le] at hsocket
    have hfit : (ofFd 7).readBuffer.length + stream.length ≤ maxBufferSize := by
      simp only [ofFd, List.length_nil, maxBufferSize, readSize] at hshort ⊢
      omega
    have hdone : (ofFd 7).onRead (.bytes stream) = ((ofFd 7).append stream, .done true) :=
      onRead_short hfit hshort
    simp only [step, EdgeTriggered.step, waiting, if_true, hsocket, hdone]
    rfl
  have hfinish : step z heap (taken stream stream [] false false .extracting) .finish =
      some (taken stream [] requests false false .waiting) := by
    simp only [step, EdgeTriggered.step, taken, if_true, append_readBuffer, ofFd, List.nil_append,
      hloop, dispatchedAfter]
    rfl
  have hclose : step z heap (taken stream [] requests false false .waiting) .close =
      some (taken stream [] requests true true .waiting) := rfl
  have hcollect' : step z heap (taken stream [] requests true true .waiting) .collect =
      some (taken stream [] requests true false .reading) := rfl
  have hend : step z heap (taken stream [] requests true false .reading) .read =
      some ⟨Watched.remove ⟨[], true, false, true, .reading, (ofFd 7).markDisconnected⟩,
        stream, requests⟩ := rfl
  have hrun := ((((((Run.nil.snoc (step_arrive hne)).snoc hcollect).snoc hread).snoc hfinish).snoc
    hclose).snoc hcollect').snoc hend
  exact ⟨_, _, hrun, rfl, rfl, rfl, by simp⟩

/-! ## Ping frames -/

open StoredFrames

def pingRequest : RpcRequest := ⟨1, [0x53], [0x6d], [0x70]⟩

def pingFrame : RequestFrame stored gibibyteHeap where
  wire := Message.pingWire
  request := pingRequest
  valid := by decide +kernel

def pings (n : ℕ) : List (RequestFrame stored gibibyteHeap) := List.replicate n pingFrame

theorem length_pings (n : ℕ) : ((pings n).flatMap RequestFrame.wire).length = n * 96 := by
  have hwire : pingFrame.wire.length = 96 := Message.length_pingWire
  rw [pings, List.length_flatMap, List.map_replicate, List.sum_replicate, hwire, smul_eq_mul]

/-- A hundred and twenty-eight frames are three buffers full. -/
theorem not_served_pings :
    ∃ trace last, Run (step stored gibibyteHeap) (start 7) trace last ∧
      last.arrived = (pings 128).flatMap RequestFrame.wire ∧
        last.watched.registered = false ∧ (∀ t, (t, .writeError) ∉ trace) ∧
          last.dispatched ≠ (pings 128).map RequestFrame.request := by
  have hlen := length_pings 128
  have hne : (pings 128).flatMap RequestFrame.wire ≠ [] := by
    apply List.ne_nil_of_length_pos
    rw [hlen]
    norm_num
  obtain ⟨trace, last, hrun, harrived, hremoved, hdispatched, hwrite⟩ :=
    dropped_of_dvd stored gibibyteHeap hne (k := 3) (by rw [hlen]; norm_num [readSize])
      (by rw [hlen]; norm_num [maxBufferSize])
  refine ⟨trace, last, hrun, harrived, hremoved, hwrite, ?_⟩
  intro hall
  have hcount := congrArg List.length (hdispatched.symm.trans hall)
  simp [pings] at hcount

/-- A frame of another call. -/
def secondFrame : RequestFrame stored gibibyteHeap where
  wire := Message.secondWire
  request := ⟨2, [0x54], [0x6e, 0x6e], [0x71, 0x72, 0x73]⟩
  valid := by decide +kernel

def twoFrames : List (RequestFrame stored gibibyteHeap) := [pingFrame, secondFrame]

theorem frameLoop_twoWires :
    frameLoop stored gibibyteHeap Message.twoWires =
      ⟨twoFrames.map RequestFrame.request, .ok (some [])⟩ := by
  have hfirst : framePass stored gibibyteHeap Message.twoWires =
      .dispatches pingRequest Message.secondWire := pingFrame.framePass_append _
  have hsecond : framePass stored gibibyteHeap Message.secondWire =
      .dispatches secondFrame.request [] := secondFrame.valid
  rw [frameLoop_dispatches hfirst, frameLoop_dispatches hsecond, frameLoop_short (by simp)]
  rfl

/-- Two requests, and the end of the stream when both have been served. -/
theorem served_iff_two :
    ∃ trace last, Run (step stored gibibyteHeap) (start 7) trace last ∧
      last.watched.registered = false ∧
        last.dispatched = twoFrames.map RequestFrame.request ∧
          ∀ s, (s, .read) ∈ trace → ServedRead stored gibibyteHeap s := by
  have hstream : twoFrames.flatMap RequestFrame.wire = Message.twoWires := by
    simp [Message.twoWires, twoFrames, pingFrame, secondFrame]
  have hne : Message.twoWires ≠ [] :=
    List.append_ne_nil_of_left_ne_nil pingFrame.wire_ne_nil Message.secondWire
  have hshort : Message.twoWires.length < readSize := by
    rw [Message.length_twoWires]
    norm_num [readSize]
  obtain ⟨trace, last, hrun, harrived, hremoved, hdispatched, hwrite⟩ :=
    served_of_short hne hshort frameLoop_twoWires
  rw [← hstream] at harrived
  exact ⟨trace, last, hrun, hremoved, hdispatched,
    (served_iff (by norm_num) hrun harrived hwrite hremoved).mp hdispatched⟩

end MyRpc.EndOfStream
