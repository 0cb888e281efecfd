import MyRpc.Library.Blocks
import MyRpc.Library.PartialRun
import MyRpc.Network.Framing

/-!
# Several workers writing to one connection

Every request of a connection is a task of its own, so calls of
`Write(RpcResponse)` on one object overlap.  No lock is held around the loop
of `Write`; a schedule is any interleaving of the single `write(2)` calls.
Every byte of the stream is kept together with the call it comes from.

The stream is a sequence of whole frames exactly when no call takes its turn
while another one is inside its frame (`whole_frames_iff`).
-/

namespace MyRpc

open FixedWidth PartialRun Blocks

namespace ConcurrentWrite

open Connection

/-- Where a call of `Write` stands: its loop variable `sent`, or the value it
has returned. -/
inductive Phase
  | notCalled
  | sending (sent : ℕ)
  | returned (ok : Bool)
  deriving DecidableEq, Repr

variable {ι : Type*} [DecidableEq ι]

/-- The shared object, the calls on it, and the bytes handed to the socket. -/
structure Writers (ι : Type*) where
  conn : Connection
  phase : ι → Phase
  stream : List (ι × UInt8)

/-- `enter` is everything in front of the loop, `write` one `::write`, and
`disconnect` stands for `Read` in the event loop giving up the connection. -/
inductive Action (ι : Type*)
  | enter (i : ι)
  | write (i : ι) (r : WriteResult)
  | disconnect
  deriving DecidableEq, Repr

/-- `write(2)` takes at least one byte, and no more than it is offered. -/
def Possible (offered : ℕ) : WriteResult → Prop
  | .wrote n => 0 < n ∧ n ≤ offered
  | .again => True
  | .error => True

instance (offered : ℕ) (r : WriteResult) : Decidable (Possible offered r) :=
  match r with
  | .wrote _ => inferInstanceAs (Decidable (_ ∧ _))
  | .again => inferInstanceAs (Decidable True)
  | .error => inferInstanceAs (Decidable True)

/-- The bytes a `write(2)` takes from position `sent` of a frame. -/
def accepted (i : ι) (frame : Bytes) (sent : ℕ) : WriteResult → List (ι × UInt8)
  | .wrote n => (slice frame sent n).map (Prod.mk i)
  | .again => []
  | .error => []

def toPhase (sent : ℕ) : LoopStep → Phase
  | .next => .sending sent
  | .done ok => .returned ok

/-- The steps of the calls that write the given frames. -/
def step (wire : ι → Bytes) (s : Writers ι) : Action ι → Option (Writers ι)
  | .enter i =>
      if s.phase i = .notCalled then
        some { s with
          phase := Function.update s.phase i
            (if s.conn.canWrite (wire i) then .sending 0 else .returned false) }
      else none
  | .write i r =>
      match s.phase i with
      | .sending sent =>
          if Possible ((wire i).length - sent) r then
            let (conn, sent', loopStep) := s.conn.onWrite (wire i).length sent r
            some
              { conn
                phase := Function.update s.phase i (toPhase sent' loopStep)
                stream := s.stream ++ accepted i (wire i) sent r }
          else none
      | _ => none
  | .disconnect => some { s with conn := { s.conn with state := .disconnected } }

def start (conn : Connection) : Writers ι := ⟨conn, fun _ ↦ .notCalled, []⟩

/-- A call of `Write(RpcResponse)`, with the session key its encryption draws. -/
structure WriteCall where
  response : RpcResponse
  sessionKey : AesEncrypt.SessionKey

/-- The bytes the call offers to the socket; empty, and refused by
`Write(data)`, when the frame cannot be built. -/
def WriteCall.wire (z : Zstd) (call : WriteCall) : Bytes :=
  (frameWire z call.sessionKey call.response.serialize).getD []

/-! ## What a step does -/

variable {wire : ι → Bytes} {s t : Writers ι}

/-- The four effects a step can have on the calls and the stream. -/
inductive Effect (wire : ι → Bytes) (s t : Writers ι) : Action ι → Prop
  | none {a : Action ι} (hphase : t.phase = s.phase) (hstream : t.stream = s.stream) :
      Effect wire s t a
  | failed {a : Action ι} (i : ι) (hbefore : ∀ ok, s.phase i ≠ .returned ok)
      (hphase : t.phase = Function.update s.phase i (.returned false))
      (hstream : t.stream = s.stream) : Effect wire s t a
  | entered (i : ι) (hbefore : s.phase i = .notCalled) (hwire : wire i ≠ [])
      (hphase : t.phase = Function.update s.phase i (.sending 0))
      (hstream : t.stream = s.stream) : Effect wire s t (.enter i)
  | took (i : ι) (sent n : ℕ) (hbefore : s.phase i = .sending sent) (hpos : 0 < n)
      (hle : n ≤ (wire i).length - sent)
      (hphase : t.phase = Function.update s.phase i
        (if sent + n < (wire i).length then .sending (sent + n) else .returned true))
      (hstream : t.stream = s.stream ++ (slice (wire i) sent n).map (Prod.mk i)) :
      Effect wire s t (.write i (.wrote n))

theorem step_effect {a : Action ι} (h : step wire s a = some t) : Effect wire s t a := by
  cases a with
  | disconnect =>
      cases h
      exact .none rfl rfl
  | enter i =>
      simp only [step, Option.ite_none_right_eq_some, Option.some.injEq] at h
      obtain ⟨hphase, rfl⟩ := h
      by_cases hcan : s.conn.canWrite (wire i)
      · exact .entered i hphase hcan.2 (by simp [hcan]) rfl
      · exact .failed i (by simp [hphase]) (by simp [hcan]) rfl
  | write i r =>
      cases hphase : s.phase i with
      | notCalled => simp [step, hphase] at h
      | returned ok => simp [step, hphase] at h
      | sending sent =>
          simp only [step, hphase, Option.ite_none_right_eq_some, Option.some.injEq] at h
          obtain ⟨hpossible, rfl⟩ := h
          cases r with
          | again =>
              refine .none ?_ (by simp [accepted])
              simp [onWrite, toPhase, ← hphase]
          | error =>
              exact .failed i (by simp [hphase]) (by simp [onWrite, toPhase])
                (by simp [accepted])
          | wrote n =>
              refine .took i sent n hphase hpossible.1 hpossible.2 ?_ rfl
              by_cases hlt : sent + n < (wire i).length <;> simp [onWrite, toPhase, hlt]

theorem phase_of_update {i k : ι} {phase : Phase}
    (hphase : t.phase = Function.update s.phase k phase) (hne : s.phase k ≠ s.phase i) :
    t.phase i = s.phase i := by
  have hik : i ≠ k := by
    rintro rfl
    exact hne rfl
  rw [hphase, Function.update_of_ne hik]

theorem Effect.returned_mono {a : Action ι} {i : ι} {ok : Bool} (h : Effect wire s t a)
    (hi : s.phase i = .returned ok) : t.phase i = .returned ok := by
  cases h with
  | none hphase _ => rw [hphase, hi]
  | failed k hbefore hphase _ =>
      rw [phase_of_update hphase (by rw [hi]; exact hbefore ok), hi]
  | entered k hbefore _ hphase _ =>
      rw [phase_of_update hphase (by rw [hi, hbefore]; simp), hi]
  | took k sent n hbefore _ _ hphase _ =>
      rw [phase_of_update hphase (by rw [hi, hbefore]; simp), hi]

theorem Effect.stream_mono {a : Action ι} (h : Effect wire s t a) :
    s.stream <+: t.stream := by
  cases h with
  | none _ hstream => rw [hstream]
  | failed _ _ _ hstream => rw [hstream]
  | entered _ _ _ _ hstream => rw [hstream]
  | took _ _ _ _ _ _ _ hstream =>
      rw [hstream]
      exact List.prefix_append _ _

/-- A call that has put a part of its frame on the wire, but not all of it. -/
def MidFrame (s : Writers ι) (i : ι) : Prop := ∃ sent, s.phase i = .sending sent ∧ 0 < sent

def marked (wire : ι → Bytes) (i : ι) : List (ι × UInt8) := (wire i).map (Prod.mk i)

/-! ## Undisturbed calls leave whole frames -/

/-- The stream is made of the frames of the calls that have returned true, in
some order, and of the part of one more frame that its call has sent. -/
structure Whole (wire : ι → Bytes) (s : Writers ι) (order : List ι) : Prop where
  nodup : order.Nodup
  mem_iff : ∀ i, i ∈ order ↔ s.phase i = .returned true
  stream : s.stream = order.flatMap (marked wire) ∧ (∀ j, ¬ MidFrame s j) ∨
    ∃ i sent, s.phase i = .sending sent ∧ 0 < sent ∧
      s.stream = order.flatMap (marked wire) ++ (marked wire i).take sent ∧
        ∀ j, j ≠ i → ¬ MidFrame s j

/-- If nobody else is inside a frame, the stream ends in the part of its frame
that the call `i` has sent. -/
theorem Whole.stream_eq {order : List ι} (h : Whole wire s order) {i : ι} {sent : ℕ}
    (hi : s.phase i = .sending sent) (hothers : ∀ j, j ≠ i → ¬ MidFrame s j) :
    s.stream = order.flatMap (marked wire) ++ (marked wire i).take sent := by
  rcases h.stream with ⟨hstream, hnone⟩ | ⟨k, sent', hk, hpos, hstream, -⟩
  · have hzero : sent = 0 := by
      by_contra hne
      exact hnone i ⟨sent, hi, Nat.pos_of_ne_zero hne⟩
    rw [hstream, hzero, List.take_zero, List.append_nil]
  · have hki : k = i := by
      by_contra hne
      exact hothers k hne ⟨sent', hk, hpos⟩
    subst hki
    rw [hi] at hk
    cases hk
    exact hstream

theorem midFrame_of_update {i j : ι} {phase : Phase}
    (hphase : t.phase = Function.update s.phase i phase) (hne : j ≠ i) :
    MidFrame t j ↔ MidFrame s j := by
  rw [MidFrame, MidFrame, hphase, Function.update_of_ne hne]

/-- What the schedule has to do for the frames to stay whole: bytes of `i` are
taken while no other call is inside its frame. -/
def Undisturbed (s : Writers ι) : Action ι → Prop
  | .write i (.wrote _) => ∀ j, j ≠ i → ¬ MidFrame s j
  | _ => True

omit [DecidableEq ι] in
theorem Whole.congr {order : List ι} (h : Whole wire s order) (hphase : t.phase = s.phase)
    (hstream : t.stream = s.stream) : Whole wire t order := by
  refine ⟨h.nodup, by simpa only [hphase] using h.mem_iff, ?_⟩
  simpa only [MidFrame, hphase, hstream] using h.stream

theorem Whole.enter {order : List ι} {i : ι} (h : Whole wire s order)
    (hbefore : s.phase i = .notCalled) (hphase : t.phase = Function.update s.phase i (.sending 0))
    (hstream : t.stream = s.stream) : Whole wire t order := by
  have hself : t.phase i = .sending 0 := by rw [hphase, Function.update_self]
  have hmid : ∀ j, MidFrame t j ↔ MidFrame s j := by
    intro j
    by_cases hj : j = i
    · subst hj
      simp [MidFrame, hself, hbefore]
    · exact midFrame_of_update hphase hj
  have hreturned : ∀ j, t.phase j = .returned true ↔ s.phase j = .returned true := by
    intro j
    by_cases hj : j = i
    · subst hj
      simp [hself, hbefore]
    · rw [hphase, Function.update_of_ne hj]
  refine ⟨h.nodup, fun j ↦ (h.mem_iff j).trans (hreturned j).symm, ?_⟩
  simp only [hmid, hstream]
  apply h.stream.imp_right
  rintro ⟨k, sent, hk, hpos, hrest⟩
  exact ⟨k, sent, (phase_of_update hphase (by rw [hbefore, hk]; simp)).trans hk, hpos, hrest⟩

omit [DecidableEq ι] in
theorem marked_take_add (wire : ι → Bytes) (i : ι) (sent n : ℕ) :
    (marked wire i).take sent ++ (slice (wire i) sent n).map (Prod.mk i) =
      (marked wire i).take (sent + n) := by
  rw [marked, ← List.map_take, ← List.map_append, slice, ← List.map_take, List.take_add]

theorem Whole.take {order : List ι} {i : ι} {sent n : ℕ} (h : Whole wire s order)
    (hbefore : s.phase i = .sending sent) (hpos : 0 < n)
    (hphase : t.phase = Function.update s.phase i
      (if sent + n < (wire i).length then .sending (sent + n) else .returned true))
    (hstream : t.stream = s.stream ++ (slice (wire i) sent n).map (Prod.mk i))
    (hothers : ∀ j, j ≠ i → ¬ MidFrame s j) : ∃ order', Whole wire t order' := by
  have hnew : t.stream = order.flatMap (marked wire) ++ (marked wire i).take (sent + n) := by
    rw [hstream, h.stream_eq hbefore hothers, List.append_assoc, marked_take_add]
  have hstill : ∀ j, j ≠ i → ¬ MidFrame t j := fun j hj ↦
    mt (midFrame_of_update hphase hj).mp (hothers j hj)
  have hnot : i ∉ order := by
    rw [h.mem_iff, hbefore]
    simp
  have hself : t.phase i =
      if sent + n < (wire i).length then .sending (sent + n) else .returned true := by
    rw [hphase, Function.update_self]
  by_cases hlt : sent + n < (wire i).length
  · rw [if_pos hlt] at hself
    refine ⟨order, h.nodup, fun j ↦ ?_,
      .inr ⟨i, sent + n, hself, by omega, hnew, hstill⟩⟩
    by_cases hj : j = i
    · subst hj
      simp [hnot, hself]
    · rw [h.mem_iff, hphase, Function.update_of_ne hj]
  · rw [if_neg hlt] at hself
    have hall : (marked wire i).take (sent + n) = marked wire i :=
      List.take_of_length_le (by simpa [marked] using Nat.le_of_not_lt hlt)
    refine ⟨order ++ [i], ?_, fun j ↦ ?_, .inl ⟨?_, fun j ↦ ?_⟩⟩
    · exact List.nodup_append.mpr ⟨h.nodup, List.nodup_singleton i, by
        rintro a ha b hb rfl
        rw [List.mem_singleton.mp hb] at ha
        exact hnot ha⟩
    · by_cases hj : j = i
      · subst hj
        simp [hself]
      · rw [List.mem_append, List.mem_singleton, or_iff_left hj, h.mem_iff, hphase,
          Function.update_of_ne hj]
    · rw [hnew, hall, List.flatMap_append, List.flatMap_singleton]
    · by_cases hj : j = i
      · subst hj
        simp [MidFrame, hself]
      · exact hstill j hj

/-- As long as nobody has failed, undisturbed steps keep the frames whole. -/
theorem whole_step {order : List ι} {a : Action ι} (hwhole : Whole wire s order)
    (h : Effect wire s t a) (hund : Undisturbed s a) :
    (∃ i, t.phase i = .returned false) ∨ ∃ order', Whole wire t order' := by
  cases h with
  | none hphase hstream => exact .inr ⟨order, hwhole.congr hphase hstream⟩
  | failed i hbefore hphase hstream =>
      exact .inl ⟨i, by rw [hphase, Function.update_self]⟩
  | entered i hbefore hwire hphase hstream =>
      exact .inr ⟨order, hwhole.enter hbefore hphase hstream⟩
  | took i sent n hbefore hpos hle hphase hstream =>
      exact .inr (hwhole.take hbefore hpos hphase hstream hund)

omit [DecidableEq ι] in
theorem whole_start (conn : Connection) : Whole wire (start conn) [] :=
  ⟨List.nodup_nil, by simp [start], .inl ⟨rfl, by simp [MidFrame, start]⟩⟩

theorem whole_run {conn : Connection} {trace : List (Writers ι × Action ι)} {last : Writers ι}
    (hrun : Run (step wire) (start conn) trace last)
    (hund : ∀ s a, (s, a) ∈ trace → Undisturbed s a) :
    (∃ i, last.phase i = .returned false) ∨ ∃ order, Whole wire last order := by
  refine hrun.invariant
    (fun s ↦ (∃ i, s.phase i = .returned false) ∨ ∃ order, Whole wire s order)
    (.inr ⟨[], whole_start conn⟩) ?_
  rintro s a t hmem (⟨i, hi⟩ | ⟨order, hwhole⟩) hstep
  · exact .inl ⟨i, (step_effect hstep).returned_mono hi⟩
  · exact whole_step hwhole (step_effect hstep) (hund s a hmem)

/-! ## A disturbed call splits a frame -/

def bytesOf (s : Writers ι) (i : ι) : ℕ := (s.stream.map Prod.fst).count i

/-- The stream holds as many bytes of a call as its phase says. -/
def Counted (wire : ι → Bytes) (s : Writers ι) : Prop :=
  ∀ i, match s.phase i with
    | .notCalled => bytesOf s i = 0
    | .sending sent => sent < (wire i).length ∧ bytesOf s i = sent
    | .returned true => bytesOf s i = (wire i).length
    | .returned false => True

theorem bytesOf_took {i : ι} {sent n : ℕ}
    (hle : n ≤ (wire i).length - sent) (hlt : sent < (wire i).length)
    (hstream : t.stream = s.stream ++ (slice (wire i) sent n).map (Prod.mk i)) (j : ι) :
    bytesOf t j = bytesOf s j + if j = i then n else 0 := by
  have htags : ((slice (wire i) sent n).map (Prod.mk i)).map Prod.fst = List.replicate n i := by
    rw [List.map_map]
    have hlen : (slice (wire i) sent n).length = n := length_slice (by omega)
    rw [List.eq_replicate_iff]
    exact ⟨by simpa using hlen, by simp⟩
  rw [bytesOf, hstream, List.map_append, List.count_append, htags, List.count_replicate,
    bytesOf]
  by_cases hj : j = i
  · simp [hj]
  · simp [hj, Ne.symm hj]

theorem counted_step {a : Action ι} (hcounted : Counted wire s) (h : Effect wire s t a) :
    Counted wire t := by
  intro j
  have hj := hcounted j
  cases h with
  | none hphase hstream =>
      rw [hphase]
      simpa only [bytesOf, hstream] using hj
  | failed i hbefore hphase hstream =>
      by_cases hji : j = i
      · subst hji
        rw [hphase, Function.update_self]
        trivial
      · rw [hphase, Function.update_of_ne hji]
        simpa only [bytesOf, hstream] using hj
  | entered i hbefore hwire hphase hstream =>
      by_cases hji : j = i
      · subst hji
        rw [hbefore] at hj
        rw [hphase, Function.update_self]
        exact ⟨List.length_pos_iff.mpr hwire, by simpa only [bytesOf, hstream] using hj⟩
      · rw [hphase, Function.update_of_ne hji]
        simpa only [bytesOf, hstream] using hj
  | took i sent n hbefore hpos hle hphase hstream =>
      have hi := hcounted i
      rw [hbefore] at hi
      obtain ⟨hlt, hsent⟩ := hi
      have hbytes := bytesOf_took hle hlt hstream j
      by_cases hji : j = i
      · subst hji
        rw [if_pos rfl, hsent] at hbytes
        rw [hphase, Function.update_self]
        by_cases hmore : sent + n < (wire j).length
        · rw [if_pos hmore]
          exact ⟨hmore, hbytes⟩
        · rw [if_neg hmore]
          show bytesOf t j = (wire j).length
          omega
      · rw [if_neg hji, Nat.add_zero] at hbytes
        rw [hphase, Function.update_of_ne hji]
        simpa only [hbytes] using hj

theorem counted_run {conn : Connection} {trace : List (Writers ι × Action ι)} {last : Writers ι}
    (hrun : Run (step wire) (start conn) trace last) : Counted wire last := by
  refine hrun.invariant (Counted wire) (fun i ↦ rfl) ?_
  intro s a t _ hs hstep
  exact counted_step hs (step_effect hstep)

omit [DecidableEq ι] in
theorem tags_flatMap_marked (wire : ι → Bytes) (order : List ι) :
    (order.flatMap (marked wire)).map Prod.fst =
      blocks (fun i ↦ (wire i).length) order := by
  induction order with
  | nil => rfl
  | cons i order ih =>
      have hone : (marked wire i).map Prod.fst = List.replicate (wire i).length i := by
        rw [marked, List.map_map, List.eq_replicate_iff]
        exact ⟨by simp, by simp⟩
      rw [List.flatMap_cons, List.map_append, ih, hone, blocks_cons]

theorem step_wrote {i : ι} {n : ℕ} (h : step wire s (.write i (.wrote n)) = some t) :
    ∃ sent, s.phase i = .sending sent ∧ 0 < n ∧ n ≤ (wire i).length - sent ∧
      t.stream = s.stream ++ (slice (wire i) sent n).map (Prod.mk i) := by
  cases hphase : s.phase i with
  | notCalled => simp [step, hphase] at h
  | returned ok => simp [step, hphase] at h
  | sending sent =>
      simp only [step, hphase, Option.ite_none_right_eq_some, Option.some.injEq] at h
      obtain ⟨⟨hpos, hle⟩, rfl⟩ := h
      exact ⟨sent, rfl, hpos, hle, rfl⟩

/-- A step that takes bytes while another call, which returns true in the end,
is inside its frame leaves a byte of its own between two bytes of that call. -/
theorem not_unsplit_of_disturbed {conn : Connection}
    {trace : List (Writers ι × Action ι)} {last : Writers ι} {i j : ι} {n : ℕ}
    (hrun : Run (step wire) (start conn) trace last)
    (hdone : last.phase j = .returned true) (hmem : (s, .write i (.wrote n)) ∈ trace)
    (hne : j ≠ i) (hmid : MidFrame s j) : ¬ Unsplit (last.stream.map Prod.fst) := by
  obtain ⟨before, t, after, hbefore, hstep, hafter, -⟩ := hrun.split hmem
  obtain ⟨sent, hphase, hpos⟩ := hmid
  obtain ⟨sent', hi, hn, hle, hstream⟩ := step_wrote hstep
  have hcounted := counted_run hbefore
  have hbytes : sent < (wire j).length ∧ bytesOf s j = sent := by
    simpa only [hphase] using hcounted j
  have hroom : sent' < (wire i).length := by
    have hwriter := hcounted i
    rw [hi] at hwriter
    exact hwriter.1
  have hall : bytesOf last j = (wire j).length := by
    simpa only [hdone] using counted_run hrun j
  have hunchanged := bytesOf_took hle hroom hstream j
  rw [if_neg hne, Nat.add_zero] at hunchanged
  obtain ⟨rest, hrest⟩ : t.stream <+: last.stream :=
    hafter.invariant (fun u ↦ t.stream <+: u.stream) (List.prefix_refl _)
      fun u a v _ hu huv ↦ hu.trans (step_effect huv).stream_mono
  obtain ⟨b, bs, hslice⟩ := List.exists_cons_of_length_pos
    (show 0 < (slice (wire i) sent' n).length by rw [length_slice (by omega)]; exact hn)
  have hsplit : last.stream.map Prod.fst = s.stream.map Prod.fst ++
      i :: ((bs.map (Prod.mk i)).map Prod.fst ++ rest.map Prod.fst) := by
    rw [← hrest, hstream, hslice]
    simp
  have hfirst : j ∈ s.stream.map Prod.fst := by
    rw [← List.count_pos_iff, ← bytesOf, hbytes.2]
    exact hpos
  have hlater : j ∈ rest.map Prod.fst := by
    have htotal : bytesOf last j = bytesOf t j + (rest.map Prod.fst).count j := by
      rw [bytesOf, ← hrest, List.map_append, List.count_append, bytesOf]
    rw [← List.count_pos_iff]
    omega
  intro hunsplit
  exact hne (hunsplit _ _ _ j hsplit hfirst (List.mem_append_right _ hlater)).symm

/-- **Frame integrity of concurrent responses.**  In a run in which every call
has returned true, the stream is the concatenation of the calls' frames in
some order exactly when bytes were taken only while no other call was inside
its frame. -/
theorem whole_frames_iff (z : Zstd) (calls : ι → WriteCall) {conn : Connection}
    {trace : List (Writers ι × Action ι)} {last : Writers ι}
    (hrun : Run (step fun i ↦ (calls i).wire z) (start conn) trace last)
    (hdone : ∀ i, last.phase i = .returned true) :
    (∀ s i n, (s, .write i (.wrote n)) ∈ trace → ∀ j, j ≠ i → ¬ MidFrame s j) ↔
      ∃ order : List ι, order.Nodup ∧ (∀ i, i ∈ order) ∧
        last.stream = order.flatMap (marked fun i ↦ (calls i).wire z) := by
  constructor
  · intro hund
    have hstep : ∀ s a, (s, a) ∈ trace → Undisturbed s a := by
      intro s a hmem
      match a with
      | .enter i => trivial
      | .disconnect => trivial
      | .write i .again => trivial
      | .write i .error => trivial
      | .write i (.wrote n) => exact hund s i n hmem
    rcases whole_run hrun hstep with ⟨i, hi⟩ | ⟨order, hwhole⟩
    · rw [hdone i] at hi
      cases hi
    · refine ⟨order, hwhole.nodup, fun i ↦ (hwhole.mem_iff i).mpr (hdone i), ?_⟩
      rcases hwhole.stream with ⟨hstream, -⟩ | ⟨i, sent, hi, -⟩
      · exact hstream
      · rw [hdone i] at hi
        cases hi
  · rintro ⟨order, hnodup, -, hstream⟩ s i n hmem j hne hmid
    apply not_unsplit_of_disturbed hrun (hdone j) hmem hne hmid
    rw [hstream, tags_flatMap_marked]
    exact unsplit_blocks _ hnodup

/-! ## Two calls -/

instance (s : Writers ι) (i : ι) : Decidable (MidFrame s i) :=
  match h : s.phase i with
  | .notCalled => .isFalse (by simp [MidFrame, h])
  | .returned ok => .isFalse (by simp [MidFrame, h])
  | .sending sent => decidable_of_iff (0 < sent) (by simp [MidFrame, h])

instance [Fintype ι] (s : Writers ι) (a : Action ι) : Decidable (Undisturbed s a) :=
  match a with
  | .enter _ => inferInstanceAs (Decidable True)
  | .disconnect => inferInstanceAs (Decidable True)
  | .write _ .again => inferInstanceAs (Decidable True)
  | .write _ .error => inferInstanceAs (Decidable True)
  | .write i (.wrote _) => inferInstanceAs (Decidable (∀ j, j ≠ i → ¬ MidFrame s j))

def twoCalls : Bool → WriteCall
  | false => ⟨⟨1, [0x61], [], 0⟩, AesEncrypt.zeroKey⟩
  | true => ⟨⟨2, [0x62], [], 0⟩, AesEncrypt.zeroKey⟩

def twoWires (i : Bool) : Bytes := (twoCalls i).wire StoredFrames.stored

/-- The second call waits until the first one is through. -/
def inTurn : List (Action Bool) :=
  [.enter false, .enter true, .write false (.wrote 1), .write false .again,
    .write false (.wrote 99), .write true (.wrote 100)]

/-- After a short write the first call loses its turn to the second one. -/
def interleaved : List (Action Bool) :=
  [.enter false, .enter true, .write false (.wrote 1), .write true (.wrote 100),
    .write false (.wrote 99)]

def runOf (actions : List (Action Bool)) : List (Writers Bool × Action Bool) × Writers Bool :=
  executed (step twoWires) (start (Connection.ofFd 7)) actions

theorem whole_frames_inTurn :
    ∃ order : List Bool, order.Nodup ∧ (∀ i, i ∈ order) ∧
      (runOf inTurn).2.stream = order.flatMap (marked twoWires) := by
  have hund : ∀ p ∈ (runOf inTurn).1, Undisturbed p.1 p.2 := by
    decide +kernel
  exact (whole_frames_iff StoredFrames.stored twoCalls (Run.of_isSome (by decide +kernel))
    (by decide +kernel)).mp fun s i n hmem ↦ hund (s, .write i (.wrote n)) hmem

/-- Both calls return true, and the bytes on the wire are not a sequence of
whole frames, in whatever order: the first length prefix is torn. -/
theorem torn_frames :
    Run (step twoWires) (start (Connection.ofFd 7)) (runOf interleaved).1
        (runOf interleaved).2 ∧
      (∀ i, (runOf interleaved).2.phase i = .returned true) ∧
        ∀ order : List Bool, (runOf interleaved).2.stream.map Prod.snd ≠
          order.flatMap twoWires := by
  refine ⟨Run.of_isSome (by decide +kernel), by decide +kernel, ?_⟩
  have htorn : ((runOf interleaved).2.stream.map Prod.snd).getD 3 1 = 0 := by
    decide +kernel
  have hwhole : ∀ i, 4 ≤ (twoWires i).length ∧ (twoWires i).getD 3 1 ≠ 0 := by
    decide +kernel
  intro order h
  rw [h] at htorn
  cases order with
  | nil => simp at htorn
  | cons i order =>
      obtain ⟨hlen, hfourth⟩ := hwhole i
      rw [List.flatMap_cons, List.getD_append _ _ _ _ (by omega)] at htorn
      exact hfourth htorn

end ConcurrentWrite

end MyRpc
