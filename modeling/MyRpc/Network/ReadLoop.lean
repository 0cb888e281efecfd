import MyRpc.Network.Framing

/-!
# What `Read` makes of a receive queue

The loop stops after a short read and goes on after a full one.  Whether it
meets the empty queue therefore depends on the length of the queue modulo the
size of the buffer, and what it does there depends on the socket: a
non-blocking one reports `EAGAIN`, a blocking one holds the caller.
-/

namespace MyRpc.Connection

open FixedWidth

def append (self : Connection) (bs : Bytes) : Connection :=
  { self with readBuffer := self.readBuffer ++ bs }

def markDisconnected (self : Connection) : Connection := { self with state := .disconnected }

@[simp] theorem append_readBuffer (self : Connection) (bs : Bytes) :
    (self.append bs).readBuffer = self.readBuffer ++ bs := rfl

@[simp] theorem append_append (self : Connection) (bs cs : Bytes) :
    (self.append bs).append cs = self.append (bs ++ cs) := by
  simp [append]

@[simp] theorem append_nil (self : Connection) : self.append [] = self := by
  simp [append]

/-! ## One round -/

section Round

variable {self conn : Connection} {s s' : Socket} {r : ReadResult}

theorem readLoop_blocked (hread : s.read = none) : self.readLoop s = .blocked self s := by
  rw [readLoop]
  split <;> simp_all

theorem readLoop_done {ok : Bool} (hread : s.read = some (r, s'))
    (hstep : self.onRead r = (conn, .done ok)) :
    self.readLoop s = .returned ok conn s' := by
  rw [readLoop]
  split
  · simp_all
  · split <;> simp_all

theorem readLoop_next (hread : s.read = some (r, s'))
    (hstep : self.onRead r = (conn, .next)) : self.readLoop s = conn.readLoop s' := by
  rw [readLoop]
  split
  · simp_all
  · split <;> simp_all

theorem read_of_ne_nil (h : s.queue ≠ []) :
    s.read = some (.bytes (s.queue.take readSize),
      { s with queue := s.queue.drop readSize }) := by
  rw [Socket.read, if_neg (by simpa using h)]

/-- How the loop ends when it meets the empty queue. -/
def atEnd (self : Connection) (s : Socket) : ReadOutcome :=
  if s.eof then .returned false self.markDisconnected s
  else if s.nonblocking then .returned true self s
  else .blocked self s

theorem readLoop_nil (h : s.queue = []) : self.readLoop s = self.atEnd s := by
  rw [atEnd]
  split
  · rename_i heof
    exact readLoop_done (r := .endOfStream) (by simp [Socket.read, h, heof]) rfl
  · rename_i heof
    split
    · rename_i hnonblocking
      exact readLoop_done (r := .again) (by simp [Socket.read, h, heof, hnonblocking]) rfl
    · rename_i hnonblocking
      exact readLoop_blocked (by simp [Socket.read, h, heof, hnonblocking])

theorem onRead_overflow {buf : Bytes}
    (h : maxBufferSize < self.readBuffer.length + buf.length) :
    self.onRead (.bytes buf) = (self.markDisconnected, .done false) :=
  if_pos h

theorem onRead_short {buf : Bytes}
    (h : self.readBuffer.length + buf.length ≤ maxBufferSize)
    (hshort : buf.length < readSize) :
    self.onRead (.bytes buf) = (self.append buf, .done true) :=
  (if_neg (Nat.not_lt.mpr h)).trans (if_pos hshort)

theorem onRead_full {buf : Bytes}
    (h : self.readBuffer.length + buf.length ≤ maxBufferSize)
    (hfull : readSize ≤ buf.length) :
    self.onRead (.bytes buf) = (self.append buf, .next) :=
  (if_neg (Nat.not_lt.mpr h)).trans (if_neg (Nat.not_lt.mpr hfull))

end Round

/-! ## The whole loop -/

theorem queue_induction {motive : Bytes → Prop} (nil : motive [])
    (short : ∀ queue, queue ≠ [] → queue.length < readSize → motive queue)
    (full : ∀ queue, readSize ≤ queue.length → motive (queue.drop readSize) → motive queue) :
    ∀ queue, motive queue := by
  intro queue
  induction hlen : queue.length using Nat.strong_induction_on generalizing queue with
  | _ n ih =>
      by_cases hnil : queue = []
      · rw [hnil]
        exact nil
      by_cases hshort : queue.length < readSize
      · exact short queue hnil hshort
      · have hfull := Nat.le_of_not_lt hshort
        have hpos : 0 < readSize := by decide
        refine full queue hfull (ih (queue.drop readSize).length ?_ _ rfl)
        rw [List.length_drop]
        omega

/-- A queue that fits is taken over completely.  The loop returns right
behind it when the last read was short; else it meets the empty queue. -/
theorem readLoop_fits (self : Connection) (eof nonblocking : Bool) (queue : Bytes)
    (h : self.readBuffer.length + queue.length ≤ maxBufferSize) :
    self.readLoop ⟨queue, eof, nonblocking⟩ =
      if readSize ∣ queue.length then (self.append queue).atEnd ⟨[], eof, nonblocking⟩
      else .returned true (self.append queue) ⟨[], eof, nonblocking⟩ := by
  induction queue using queue_induction generalizing self with
  | nil => rw [readLoop_nil rfl, if_pos (by simp), append_nil]
  | short queue hne hshort =>
      have htake : queue.take readSize = queue := List.take_of_length_le hshort.le
      have hdrop : queue.drop readSize = [] := List.drop_of_length_le hshort.le
      have hdvd : ¬ readSize ∣ queue.length := fun hdvd ↦
        absurd (Nat.le_of_dvd (List.length_pos_iff.mpr hne) hdvd) (Nat.not_le.mpr hshort)
      have hread := read_of_ne_nil (s := ⟨queue, eof, nonblocking⟩) hne
      simp only [htake, hdrop] at hread
      rw [if_neg hdvd, readLoop_done hread (onRead_short h hshort)]
  | full queue hfull ih =>
      have hne : queue ≠ [] := by
        rintro rfl
        exact absurd hfull (by decide)
      have hlen : (queue.take readSize).length = readSize := List.length_take_of_le hfull
      have hread := read_of_ne_nil (s := ⟨queue, eof, nonblocking⟩) hne
      have hstep : self.onRead (.bytes (queue.take readSize)) =
          (self.append (queue.take readSize), .next) :=
        onRead_full (by omega) (by omega)
      have hrest := ih (self.append (queue.take readSize)) (by
        rw [append_readBuffer, List.length_append, hlen, List.length_drop]
        omega)
      have hdvd : readSize ∣ (queue.drop readSize).length ↔ readSize ∣ queue.length := by
        simp only [readSize] at hfull ⊢
        rw [List.length_drop]
        omega
      rw [readLoop_next hread hstep, hrest, append_append, List.take_append_drop]
      simp only [hdvd]

theorem readLoop_overflow (self : Connection) (eof nonblocking : Bool) (queue : Bytes)
    (hne : queue ≠ []) (h : maxBufferSize < self.readBuffer.length + queue.length) :
    ∃ conn s', self.readLoop ⟨queue, eof, nonblocking⟩ = .returned false conn s' := by
  induction queue using queue_induction generalizing self with
  | nil => exact absurd rfl hne
  | short queue _ hshort =>
      have htake : queue.take readSize = queue := List.take_of_length_le hshort.le
      have hread := read_of_ne_nil (s := ⟨queue, eof, nonblocking⟩) hne
      rw [htake] at hread
      exact ⟨_, _, readLoop_done hread (onRead_overflow h)⟩
  | full queue hfull ih =>
      have hlen : (queue.take readSize).length = readSize := List.length_take_of_le hfull
      have hread := read_of_ne_nil (s := ⟨queue, eof, nonblocking⟩) hne
      by_cases hover : maxBufferSize < self.readBuffer.length + readSize
      · exact ⟨_, _, readLoop_done hread (onRead_overflow (by rwa [hlen]))⟩
      · have hstep : self.onRead (.bytes (queue.take readSize)) =
            (self.append (queue.take readSize), .next) := onRead_full
          (by omega) (by omega)
        have hlong : readSize < queue.length := by omega
        obtain ⟨conn, s', hrest⟩ := ih (self.append (queue.take readSize))
          (by simpa using hlong) (by
            rw [append_readBuffer, List.length_append, hlen, List.length_drop]
            omega)
        exact ⟨conn, s', (readLoop_next hread hstep).trans hrest⟩

/-! ## The two kinds of sockets -/

/-- On an open non-blocking socket `Read` succeeds exactly for the queues that
fit, and then takes all of it. -/
theorem read_nonblocking (self : Connection) (hstate : self.state = .connected)
    {queue : Bytes} (h : self.readBuffer.length + queue.length ≤ maxBufferSize) :
    self.read ⟨queue, false, true⟩ =
      .returned true (self.append queue) ⟨[], false, true⟩ := by
  rw [read, if_neg (by simp [hstate]), readLoop_fits self false true queue h]
  split <;> rfl

theorem read_nonblocking_overflow (self : Connection) (hstate : self.state = .connected)
    {queue : Bytes} (hne : queue ≠ [])
    (h : maxBufferSize < self.readBuffer.length + queue.length) :
    ∃ conn s', self.read ⟨queue, false, true⟩ = .returned false conn s' := by
  rw [read, if_neg (by simp [hstate])]
  exact readLoop_overflow self false true queue hne h

theorem readWithTimeout_interrupted (self : Connection) (sockets : List Socket)
    (selects : List (SelectResult × Socket)) :
    self.readWithTimeout (sockets.map (fun s ↦ (.interrupted, s)) ++ selects) =
      self.readWithTimeout selects := by
  induction sockets with
  | nil => rfl
  | cons s sockets ih => exact ih

/-- What `select` reports to the client: it is interrupted a number of times, and
then there is something in the receive queue of the blocking socket. -/
def reports (interrupted : List Socket) (queue : Bytes) (eof : Bool) :
    List (SelectResult × Socket) :=
  interrupted.map (fun s ↦ (.interrupted, s)) ++ [(.readable, ⟨queue, eof, false⟩)]

/-- There is a whole frame at the front for `ExtractFrame` to cut off. -/
def HoldsFrame (bytes : Bytes) : Prop :=
  cipherLen bytes ≤ maxFrameSize ∧ 4 + cipherLen bytes ≤ bytes.length

instance (bytes : Bytes) : Decidable (HoldsFrame bytes) := inferInstanceAs (Decidable (_ ∧ _))

/-- `ReadWithTimeout` returns, and if a whole frame has been received, it returns true
with all that was received in the buffer. -/
structure HandsOver (connection : Connection) (interrupted : List Socket) (queue : Bytes)
    (eof : Bool) : Prop where
  returns : ∃ ok conn s',
    connection.readWithTimeout (reports interrupted queue eof) = some (.returned ok conn s')
  frame : HoldsFrame (connection.readBuffer ++ queue) →
    connection.readWithTimeout (reports interrupted queue eof) =
      some (.returned true (connection.append queue) ⟨[], eof, false⟩)

section Client

variable {self : Connection} {queue : Bytes} {eof : Bool}

theorem readWithTimeout_reports (self : Connection) (interrupted : List Socket)
    (queue : Bytes) (eof : Bool) :
    self.readWithTimeout (reports interrupted queue eof) =
      some (self.read ⟨queue, eof, false⟩) := by
  rw [reports, readWithTimeout_interrupted]
  rfl

theorem read_short (hstate : self.state = .connected)
    (hfit : self.readBuffer.length + queue.length ≤ maxBufferSize)
    (hshort : ¬ readSize ∣ queue.length) :
    self.read ⟨queue, eof, false⟩ = .returned true (self.append queue) ⟨[], eof, false⟩ := by
  rw [read, if_neg (not_not.mpr hstate), readLoop_fits self eof false queue hfit, if_neg hshort]

theorem read_blocked (hstate : self.state = .connected)
    (hfit : self.readBuffer.length + queue.length ≤ maxBufferSize)
    (hfull : readSize ∣ queue.length) :
    self.read ⟨queue, false, false⟩ = .blocked (self.append queue) ⟨[], false, false⟩ := by
  rw [read, if_neg (not_not.mpr hstate), readLoop_fits self false false queue hfit, if_pos hfull]
  rfl

/-- `Read` returns false on an object that takes no input any more, on a queue that does
not fit, and on one that is a number of full reads with the end of the stream behind it. -/
theorem read_false (hne : queue ≠ [])
    (h : self.state ≠ .connected ∨ maxBufferSize < self.readBuffer.length + queue.length ∨
      readSize ∣ queue.length ∧ eof = true) :
    ∃ conn s', self.read ⟨queue, eof, false⟩ = .returned false conn s' := by
  by_cases hstate : self.state = .connected
  swap
  · exact ⟨self, _, if_pos hstate⟩
  rw [read, if_neg (not_not.mpr hstate)]
  by_cases hover : maxBufferSize < self.readBuffer.length + queue.length
  · exact readLoop_overflow self eof false queue hne hover
  · obtain ⟨hfull, rfl⟩ := (h.resolve_left (not_not.mpr hstate)).resolve_left hover
    rw [readLoop_fits self true false queue (Nat.le_of_not_lt hover), if_pos hfull]
    exact ⟨_, _, rfl⟩

/-- **When the client does not hang, and loses no response.**  After any number of
interrupted calls `select` reports a nonempty queue on the blocking socket.
`ReadWithTimeout` hands over what was received exactly when the connection is open, the
queue fits and its last read is a short one; or when no whole frame has been received, and
there is something that makes `Read` return: a connection that is not open, a queue that
does not fit, or the end of the stream. -/
theorem handsOver_iff (self : Connection) (interrupted : List Socket) (queue : Bytes)
    (hne : queue ≠ []) (eof : Bool) :
    self.HandsOver interrupted queue eof ↔
      (self.state = .connected ∧ self.readBuffer.length + queue.length ≤ maxBufferSize ∧
          ¬ readSize ∣ queue.length) ∨
        (¬ HoldsFrame (self.readBuffer ++ queue) ∧
          (self.state ≠ .connected ∨ maxBufferSize < self.readBuffer.length + queue.length ∨
            eof = true)) := by
  have hreports := readWithTimeout_reports self interrupted queue eof
  by_cases hgood : self.state = .connected ∧
      self.readBuffer.length + queue.length ≤ maxBufferSize ∧ ¬ readSize ∣ queue.length
  · obtain ⟨hstate, hfit, hshort⟩ := hgood
    rw [read_short hstate hfit hshort] at hreports
    exact iff_of_true ⟨⟨_, _, _, hreports⟩, fun _ ↦ hreports⟩ (.inl ⟨hstate, hfit, hshort⟩)
  rw [or_iff_right hgood]
  by_cases hfalse : self.state ≠ .connected ∨
      maxBufferSize < self.readBuffer.length + queue.length ∨ readSize ∣ queue.length ∧ eof = true
  · obtain ⟨conn, s', hread⟩ := read_false hne hfalse
    rw [hread] at hreports
    have hcause := hfalse.imp_right (Or.imp_right And.right)
    constructor
    · intro h
      refine ⟨fun hframe ↦ ?_, hcause⟩
      have htrue := hreports.symm.trans (h.frame hframe)
      simp at htrue
    · rintro ⟨hnone, -⟩
      exact ⟨⟨_, _, _, hreports⟩, fun hframe ↦ absurd hframe hnone⟩
  · push Not at hfalse hgood
    obtain ⟨hstate, hfit, hopen⟩ := hfalse
    have hfull := hgood hstate hfit
    have hopen : eof = false := Bool.eq_false_of_not_eq_true (hopen hfull)
    subst hopen
    rw [read_blocked hstate hfit hfull] at hreports
    refine iff_of_false (fun h ↦ ?_) (by simp [hstate, hfit])
    obtain ⟨ok, conn, s', hreturns⟩ := h.returns
    rw [hreports] at hreturns
    cases hreturns

end Client

/-- The second half of a small frame, behind the two bytes that came before it. -/
def smallHalf : Bytes := [0, 3, 0x41, 0x42, 0x43]

theorem handsOver_smallHalf :
    HoldsFrame ([0, 0] ++ smallHalf) ∧
      ((ofFd 3).append [0, 0]).HandsOver [⟨[], false, false⟩] smallHalf false := by
  refine ⟨by decide, (handsOver_iff _ _ _ (by decide) _).mpr (.inl ⟨rfl, ?_, ?_⟩)⟩ <;> decide

def fullFrame : Bytes := beBytes 4 4092 ++ List.replicate 4092 0x41

theorem length_fullFrame : fullFrame.length = readSize := by
  rw [fullFrame, List.length_append, length_beBytes, List.length_replicate]
  rfl

theorem holdsFrame_fullFrame : HoldsFrame fullFrame := by
  have hcipher : cipherLen fullFrame = 4092 := by
    rw [cipherLen, fullFrame, List.take_left' (length_beBytes 4 4092), beNat_beBytes]
    rfl
  rw [HoldsFrame, hcipher, length_fullFrame]
  decide

/-- With a whole frame in the queue the client hangs behind it, and does not return. -/
theorem not_handsOver_fullFrame :
    HoldsFrame fullFrame ∧
      (ofFd 3).readWithTimeout [(.readable, ⟨fullFrame, false, false⟩)] =
        some (.blocked ((ofFd 3).append fullFrame) ⟨[], false, false⟩) ∧
      ¬ (ofFd 3).HandsOver [] fullFrame false := by
  have hfit : (ofFd 3).readBuffer.length + fullFrame.length ≤ maxBufferSize := by
    rw [length_fullFrame]
    decide
  have hblocked : (ofFd 3).readWithTimeout [(.readable, ⟨fullFrame, false, false⟩)] =
      some (.blocked ((ofFd 3).append fullFrame) ⟨[], false, false⟩) := by
    rw [readWithTimeout, read_blocked rfl hfit (by rw [length_fullFrame])]
  refine ⟨holdsFrame_fullFrame, hblocked, fun h ↦ ?_⟩
  obtain ⟨ok, conn, s', hreturns⟩ := h.returns
  cases hblocked.symm.trans hreturns

end MyRpc.Connection
