import MyRpc.Library.PartialRun
import MyRpc.Network.MessageCycle

/-!
# Edge-triggered readiness

A client socket is registered with `EPOLLIN | EPOLLET`: an arrival of bytes
or of the end of the stream makes one event pending, which `epoll_wait`
collects.  The model interleaves arrivals with the steps of
`HandleClientData`, of which each `read(2)` is one.

`Read` stops after a short read without having seen an empty queue.  When the
end of the stream stands behind the bytes of that read and its event has been
collected already, nothing will ever report it (`no_lost_edge_iff`).
-/

namespace MyRpc.EdgeTriggered

open FixedWidth PartialRun Connection MessageCycle

inductive Phase
  | waiting
  | reading
  | extracting
  | stopped
  deriving DecidableEq, Repr

/-- A client socket, its event, and the connection the manager holds for it. -/
structure Watched where
  queue : Bytes
  eof : Bool
  pending : Bool
  registered : Bool
  phase : Phase
  conn : Connection
  deriving DecidableEq, Repr

def Watched.remove (s : Watched) : Watched :=
  { s with registered := false, pending := false, phase := .waiting }

/-- `writeError` is a worker's `Write` giving up the connection; `collect` is
`epoll_wait` reporting the event, up to the loop of `Read`; `finish` is the
loop of `HandleClientData` over `ExtractFrame`. -/
inductive Action
  | arrive (bytes : Bytes)
  | close
  | writeError
  | collect
  | read
  | finish
  deriving DecidableEq, Repr

def step (z : Zstd) (heap : Heap) (s : Watched) : Action → Option Watched
  | .arrive bytes =>
      if bytes ≠ [] ∧ s.eof = false then
        some { s with queue := s.queue ++ bytes, pending := s.registered }
      else none
  | .close =>
      if s.eof = false then some { s with eof := true, pending := s.registered } else none
  | .writeError => some { s with conn := s.conn.markDisconnected }
  | .collect =>
      if s.phase = .waiting ∧ s.registered = true ∧ s.pending = true then
        if s.conn.state = .connected then
          some { s with pending := false, phase := .reading }
        else some s.remove
      else none
  | .read =>
      if s.phase = .reading then
        match Socket.read ⟨s.queue, s.eof, true⟩ with
        | none => none
        | some (r, socket) =>
            match s.conn.onRead r with
            | (conn, .next) => some { s with queue := socket.queue, conn }
            | (conn, .done true) =>
                some { s with queue := socket.queue, conn, phase := .extracting }
            | (conn, .done false) =>
                some { s with queue := socket.queue, conn }.remove
      else none
  | .finish =>
      if s.phase = .extracting then
        match (frameLoop z heap s.conn.readBuffer).ending with
        | .ok (some readBuffer) =>
            some { s with conn := { s.conn with readBuffer }, phase := .waiting }
        | .ok none => some s.remove
        | .error _ => some { s with phase := .stopped }
      else none

/-- A socket that `HandleNewConnection` has just registered, with what had
arrived before; `epoll_ctl` finds out whether it is readable. -/
def accepted (fd : ℤ) (queue : Bytes) (eof : Bool) : Watched :=
  { queue
    eof
    pending := eof || !queue.isEmpty
    registered := true
    phase := .waiting
    conn := ofFd fd }

/-- Nothing is left to be read, neither bytes nor the end of the stream, or an
event is pending that will report it. -/
def Reported (s : Watched) : Prop := (s.queue = [] ∧ s.eof = false) ∨ s.pending = true

/-- The condition on a `read(2)`: if it is a short one, then the end of the
stream is not waiting behind its bytes, or has an event of its own. -/
def EndReported (s : Watched) : Prop :=
  s.queue ≠ [] → s.queue.length < readSize → s.eof = false ∨ s.pending = true

variable {z : Zstd} {heap : Heap} {s t : Watched}

/-! ## What a step does -/

/-- The ways a `read(2)` goes: the connection is given up, the queue is found
empty, it is emptied by a short read, or the loop goes on. -/
theorem step_read (h : step z heap s .read = some t) :
    s.phase = .reading ∧ t.eof = s.eof ∧
      (t.registered = false ∧ t.phase = .waiting ∨
        t.pending = s.pending ∧ t.registered = s.registered ∧
          (t.phase = .reading ∧ readSize ≤ s.queue.length ∨
            t.phase = .extracting ∧ t.queue = [] ∧
              (s.queue = [] ∧ s.eof = false ∨ s.queue ≠ [] ∧ s.queue.length < readSize))) := by
  simp only [step, Option.ite_none_right_eq_some] at h
  obtain ⟨hphase, h⟩ := h
  refine ⟨hphase, ?_⟩
  by_cases hqueue : s.queue = []
  · cases heof : s.eof with
    | true =>
        simp only [Socket.read, hqueue, heof, List.isEmpty_nil, if_true, onRead,
          Option.some.injEq] at h
        subst h
        exact ⟨rfl, .inl ⟨rfl, rfl⟩⟩
    | false =>
        simp only [Socket.read, hqueue, heof, List.isEmpty_nil, if_true, onRead,
          Option.some.injEq, Bool.false_eq_true, if_false] at h
        subst h
        exact ⟨rfl, .inr ⟨rfl, rfl, .inr ⟨rfl, rfl, .inl ⟨hqueue, rfl⟩⟩⟩⟩
  rw [read_of_ne_nil hqueue] at h
  by_cases hover : maxBufferSize <
      s.conn.readBuffer.length + (s.queue.take readSize).length
  · simp only [onRead_overflow hover, Option.some.injEq] at h
    subst h
    exact ⟨rfl, .inl ⟨rfl, rfl⟩⟩
  have hfit := Nat.le_of_not_lt hover
  by_cases hshort : s.queue.length < readSize
  · have hlen : (s.queue.take readSize).length < readSize :=
      (List.length_take_le' _ _).trans_lt hshort
    simp only [onRead_short hfit hlen, Option.some.injEq] at h
    subst h
    exact ⟨rfl, .inr ⟨rfl, rfl, .inr ⟨rfl, List.drop_of_length_le hshort.le,
      .inr ⟨hqueue, hshort⟩⟩⟩⟩
  · have hfull := Nat.le_of_not_lt hshort
    simp only [onRead_full hfit (List.length_take_of_le hfull).ge, Option.some.injEq] at h
    subst h
    exact ⟨rfl, .inr ⟨rfl, rfl, .inl ⟨hphase, hfull⟩⟩⟩

theorem step_finish (h : step z heap s .finish = some t) :
    s.phase = .extracting ∧ t.eof = s.eof ∧ t.queue = s.queue ∧
      (t.registered = false ∧ t.phase = .waiting ∨ t.phase = .stopped ∧
          t.pending = s.pending ∧ t.registered = s.registered ∨
        t.phase = .waiting ∧ t.pending = s.pending ∧ t.registered = s.registered) := by
  simp only [step, Option.ite_none_right_eq_some] at h
  obtain ⟨hphase, h⟩ := h
  refine ⟨hphase, ?_⟩
  split at h
  · cases h
    exact ⟨rfl, rfl, .inr (.inr ⟨rfl, rfl, rfl⟩)⟩
  · cases h
    exact ⟨rfl, rfl, .inl ⟨rfl, rfl⟩⟩
  · cases h
    exact ⟨rfl, rfl, .inr (.inl ⟨rfl, rfl, rfl⟩)⟩

theorem step_collect (h : step z heap s .collect = some t) :
    s.pending = true ∧ s.phase = .waiting ∧ s.registered = true ∧ t.eof = s.eof ∧
      t.queue = s.queue ∧
      (t.registered = false ∧ t.phase = .waiting ∨ t.phase = .reading) := by
  simp only [step, Option.ite_none_right_eq_some] at h
  obtain ⟨⟨hphase, hregistered, hpending⟩, h⟩ := h
  refine ⟨hpending, hphase, hregistered, ?_⟩
  split at h <;> cases h
  · exact ⟨rfl, rfl, .inr rfl⟩
  · exact ⟨rfl, rfl, .inl ⟨rfl, rfl⟩⟩

/-! ## The invariant of a run in which ends are reported -/

/-- Outside of the loop of `Read`, what is left of a registered connection's
input has been or will be reported. -/
def Inv (s : Watched) : Prop :=
  s.registered = true → s.phase ≠ .reading → Reported s

theorem inv_step {a : Action} (hinv : Inv s) (hcond : a = .read → EndReported s)
    (h : step z heap s a = some t) : Inv t := by
  intro hregistered hphase
  cases a with
  | arrive bytes =>
      simp only [step, Option.ite_none_right_eq_some, Option.some.injEq] at h
      obtain ⟨-, rfl⟩ := h
      exact .inr hregistered
  | close =>
      simp only [step, Option.ite_none_right_eq_some, Option.some.injEq] at h
      obtain ⟨-, rfl⟩ := h
      exact .inr hregistered
  | writeError =>
      cases h
      exact hinv hregistered hphase
  | collect =>
      obtain ⟨-, -, -, -, -, ⟨hremoved, -⟩ | hreading⟩ := step_collect h
      · rw [hremoved] at hregistered
        cases hregistered
      · exact absurd hreading hphase
  | read =>
      obtain ⟨-, heof, ⟨hremoved, -⟩ | ⟨hpending, -, hrest⟩⟩ := step_read h
      · rw [hremoved] at hregistered
        cases hregistered
      rcases hrest with ⟨hreading, -⟩ | ⟨-, hempty, ⟨-, hopen⟩ | ⟨hne, hshort⟩⟩
      · exact absurd hreading hphase
      · exact .inl ⟨hempty, heof.trans hopen⟩
      · rcases hcond rfl hne hshort with hopen | hevent
        · exact .inl ⟨hempty, heof.trans hopen⟩
        · exact .inr (hpending.trans hevent)
  | finish =>
      obtain ⟨hbefore, heof, hqueue, ⟨hremoved, -⟩ | hkept⟩ := step_finish h
      · rw [hremoved] at hregistered
        cases hregistered
      have hsame : t.pending = s.pending ∧ t.registered = s.registered := by
        rcases hkept with ⟨-, hsame⟩ | ⟨-, hsame⟩ <;> exact hsame
      have hold := hinv (hsame.2 ▸ hregistered) (by rw [hbefore]; simp)
      simpa only [Reported, hqueue, heof, hsame.1] using hold

theorem inv_accepted (fd : ℤ) (queue : Bytes) (eof : Bool) : Inv (accepted fd queue eof) := by
  intro _ _
  cases eof with
  | true => exact .inr rfl
  | false =>
      cases queue with
      | nil => exact .inl ⟨rfl, rfl⟩
      | cons b bs => exact .inr rfl

/-! ## A lost end stays lost -/

/-- The end of the stream has been passed by: no event is pending for it, and
the event loop is behind its reads. -/
def Lost (s : Watched) : Prop :=
  s.eof = true ∧ s.phase ≠ .reading ∧ (s.registered = true → s.pending = false)

theorem lost_step {a : Action} (hlost : Lost s) (h : step z heap s a = some t) : Lost t := by
  obtain ⟨heof, hphase, hpending⟩ := hlost
  cases a with
  | arrive bytes => simp [step, heof] at h
  | close => simp [step, heof] at h
  | writeError =>
      cases h
      exact ⟨heof, hphase, hpending⟩
  | collect =>
      obtain ⟨hevent, -, hregistered, -⟩ := step_collect h
      rw [hpending hregistered] at hevent
      cases hevent
  | read => exact absurd (step_read h).1 hphase
  | finish =>
      obtain ⟨-, heof', -, ⟨hremoved, hwaiting⟩ | hkept⟩ := step_finish h
      · exact ⟨heof'.trans heof, by simp [hwaiting], by simp [hremoved]⟩
      · rcases hkept with ⟨hstopped, hsame⟩ | ⟨hwaiting, hsame⟩
        · exact ⟨heof'.trans heof, by simp [hstopped], by rwa [hsame.1, hsame.2]⟩
        · exact ⟨heof'.trans heof, by simp [hwaiting], by rwa [hsame.1, hsame.2]⟩

theorem lost_of_read (hcond : ¬ EndReported s) (h : step z heap s .read = some t) :
    Lost t := by
  simp only [EndReported, not_forall, not_or, Bool.not_eq_false, Bool.not_eq_true] at hcond
  obtain ⟨hne, hshort, heof, hpending⟩ := hcond
  obtain ⟨-, heof', ⟨hremoved, hwaiting⟩ | ⟨hpending', -, hrest⟩⟩ := step_read h
  · exact ⟨heof'.trans heof, by simp [hwaiting], by simp [hremoved]⟩
  rcases hrest with ⟨-, hfull⟩ | ⟨hextracting, -⟩
  · exact absurd hshort (Nat.not_lt.mpr hfull)
  · exact ⟨heof'.trans heof, by simp [hextracting], fun _ ↦ hpending'.trans hpending⟩

theorem lost_run {trace : List (Watched × Action)} {last : Watched}
    (hrun : Run (step z heap) s trace last) (hlost : Lost s) : Lost last :=
  hrun.invariant Lost hlost fun _ _ _ _ hold hstep ↦ lost_step hold hstep

/-- **When no edge is lost.**  In a run that comes to a return of
`HandleClientData` with the connection still registered, everything that is
left to be read is reported by a pending event exactly when no short read was
made in front of an end of the stream whose event had been collected. -/
theorem no_lost_edge_iff {fd : ℤ} {queue : Bytes} {eof : Bool}
    {trace : List (Watched × Action)} {last : Watched}
    (hrun : Run (step z heap) (accepted fd queue eof) trace last)
    (hreturned : last.phase = .waiting) (hregistered : last.registered = true) :
    Reported last ↔ ∀ s, (s, .read) ∈ trace → EndReported s := by
  constructor
  · intro hreported s hmem
    by_contra hcond
    obtain ⟨before, t, after, -, hstep, hafter, -⟩ := hrun.split hmem
    obtain ⟨heof, -, hpending⟩ := lost_run hafter (lost_of_read hcond hstep)
    rcases hreported with ⟨-, hopen⟩ | hevent
    · rw [heof] at hopen
      cases hopen
    · rw [hpending hregistered] at hevent
      cases hevent
  · intro hcond
    have hinv : Inv last := by
      apply hrun.invariant Inv (inv_accepted fd queue eof)
      intro s a t hmem hold hstep
      refine inv_step hold ?_ hstep
      rintro rfl
      exact hcond s hmem
    exact hinv hregistered (by simp [hreturned])

/-! ## One run of each kind -/

theorem step_finish_short (hphase : s.phase = .extracting)
    (hshort : s.conn.readBuffer.length < 4) :
    step z heap s .finish = some { s with phase := .waiting } := by
  simp only [step, hphase, if_true, frameLoop_short hshort]

def holding (eof pending : Bool) (phase : Phase) (queue readBuffer : Bytes) : Watched :=
  ⟨queue, eof, pending, true, phase, ⟨7, readBuffer, .connected⟩⟩

theorem reported_holding :
    ∃ last, last = holding false false .waiting [] [0, 0, 0] ∧ Reported last := by
  have hcollect : step StoredFrames.stored StoredFrames.gibibyteHeap
      (accepted 7 [0, 0, 0] false) .collect =
        some (holding false false .reading [0, 0, 0] []) := rfl
  have hread : step StoredFrames.stored StoredFrames.gibibyteHeap
      (holding false false .reading [0, 0, 0] []) .read =
        some (holding false false .extracting [] [0, 0, 0]) := by decide
  have hfinish : step StoredFrames.stored StoredFrames.gibibyteHeap
      (holding false false .extracting [] [0, 0, 0]) .finish =
        some (holding false false .waiting [] [0, 0, 0]) :=
    step_finish_short rfl (by decide)
  refine ⟨_, rfl, (no_lost_edge_iff
    (((Run.nil.snoc hcollect).snoc hread).snoc hfinish) rfl rfl).mpr ?_⟩
  intro s hmem
  simp only [List.nil_append, List.mem_append, List.mem_cons, List.not_mem_nil, or_false,
    Prod.mk.injEq, reduceCtorEq, and_false, and_true, false_or] at hmem
  subst hmem
  exact fun _ _ ↦ .inl rfl

/-- Bytes and the end of the stream arrive before the event loop comes to the
descriptor: one event, one short read, and nothing that reports the end. -/
theorem lost_close :
    ∃ trace last, Run (step StoredFrames.stored StoredFrames.gibibyteHeap)
        (accepted 7 [] false) trace last ∧
      last.phase = .waiting ∧ last.registered = true ∧ ¬ Reported last := by
  have harrive : step StoredFrames.stored StoredFrames.gibibyteHeap (accepted 7 [] false)
      (.arrive [0, 0, 0]) = some (holding false true .waiting [0, 0, 0] []) := rfl
  have hclose : step StoredFrames.stored StoredFrames.gibibyteHeap
      (holding false true .waiting [0, 0, 0] []) .close =
        some (holding true true .waiting [0, 0, 0] []) := rfl
  have hcollect : step StoredFrames.stored StoredFrames.gibibyteHeap
      (holding true true .waiting [0, 0, 0] []) .collect =
        some (holding true false .reading [0, 0, 0] []) := rfl
  have hread : step StoredFrames.stored StoredFrames.gibibyteHeap
      (holding true false .reading [0, 0, 0] []) .read =
        some (holding true false .extracting [] [0, 0, 0]) := by decide
  have hfinish : step StoredFrames.stored StoredFrames.gibibyteHeap
      (holding true false .extracting [] [0, 0, 0]) .finish =
        some (holding true false .waiting [] [0, 0, 0]) :=
    step_finish_short rfl (by decide)
  exact ⟨_, _, ((((Run.nil.snoc harrive).snoc hclose).snoc hcollect).snoc hread).snoc hfinish,
    rfl, rfl, by simp [Reported, holding]⟩

end MyRpc.EdgeTriggered
