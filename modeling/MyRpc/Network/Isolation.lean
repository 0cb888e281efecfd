import MyRpc.Library.Slots
import MyRpc.Network.Descriptors

/-!
# One event loop for all connections

The event loop turns from one connection to another with every event, and the
workers run in between.  What it dispatches for a connection is nevertheless a
function of the bytes that were read from this connection: the requests of their
stream, in its order, each once (`isolated_run`).
-/

namespace MyRpc.Descriptors

open FixedWidth PartialRun Connection MessageCycle Cutting

/-! ## The requests of a stream -/

/-- The two ways in which a connection is given up. -/
inductive Refusal
  | removed
  | threw (fault : Fault)
  deriving DecidableEq, Repr

def toRequestCut : FramePass → Cut UInt8 RpcRequest Refusal
  | .dispatches request rest => .item request rest
  | .waits _ => .more
  | .removes => .fail .removed
  | .throws fault => .fail (.threw fault)

variable {z : Zstd} {heap : Heap} {s t : Server}

theorem toRequestCut_append {buffer : Bytes} (ys : Bytes)
    (h : toRequestCut (framePass z heap buffer) ≠ .more) :
    toRequestCut (framePass z heap (buffer ++ ys)) =
      match toRequestCut (framePass z heap buffer) with
      | .more => .more
      | .item request rest => .item request (rest ++ ys)
      | .fail refusal => .fail refusal := by
  have hstatus : (extractFrame z heap buffer).1 ≠ .ok .kIncomplete := by
    intro hmore
    apply h
    rw [framePass, show extractFrame z heap buffer = (.ok .kIncomplete, _) from Prod.ext hmore rfl]
    rfl
  rw [framePass, framePass, extractFrame_append ys hstatus]
  cases hextract : extractFrame z heap buffer with
  | mk result rest =>
      cases result with
      | error fault => rfl
      | ok status =>
          cases status with
          | kIncomplete => simp [hextract] at hstatus
          | kError => rfl
          | kComplete frame =>
              obtain ⟨ok, request, hreturn⟩ := RpcRequest.deserialize_returns .fresh frame
              simp only [hreturn]
              cases ok <;> rfl

theorem framePass_of_item {buffer rest : Bytes} {request : RpcRequest}
    (h : toRequestCut (framePass z heap buffer) = .item request rest) :
    framePass z heap buffer = .dispatches request rest := by
  cases hpass : framePass z heap buffer with
  | dispatches request' rest' =>
      rw [hpass] at h
      cases h
      rfl
  | waits left => rw [hpass] at h; cases h
  | removes => rw [hpass] at h; cases h
  | throws fault => rw [hpass] at h; cases h

def requestCutter (z : Zstd) (heap : Heap) : Cutter UInt8 RpcRequest Refusal where
  cut buffer := toRequestCut (framePass z heap buffer)
  item_lt h := framePass_lt (framePass_of_item h)
  item_append ys h := by rw [toRequestCut_append ys (by simp [h]), h]
  fail_append ys h := by rw [toRequestCut_append ys (by simp [h]), h]

/-- The requests at the front of a stream, up to its first frame that is not one. -/
def requests (z : Zstd) (heap : Heap) (stream : Bytes) : List RpcRequest :=
  ((requestCutter z heap).drain stream).items

theorem drain_dispatches {buffer rest : Bytes} {request : RpcRequest}
    (h : framePass z heap buffer = .dispatches request rest) :
    (requestCutter z heap).drain buffer =
      ((requestCutter z heap).drain rest).prepend [request] :=
  Cutter.drain_item (congrArg toRequestCut h)

/-- A pass that dispatches nothing finds no request in the buffer. -/
theorem requests_of_pass {buffer : Bytes}
    (h : ∀ request rest, framePass z heap buffer ≠ .dispatches request rest) :
    requests z heap buffer = [] := by
  cases hcut : (requestCutter z heap).cut buffer with
  | more => rw [requests, Cutter.drain_more hcut]
  | fail refusal => rw [requests, Cutter.drain_fail hcut]
  | item request rest => exact absurd (framePass_of_item hcut) (h request rest)

theorem requests_nil (z : Zstd) (heap : Heap) : requests z heap [] = [] := by
  refine requests_of_pass fun request rest hpass ↦ ?_
  exact absurd (framePass_lt hpass) (Nat.not_lt_zero _)

/-! ## One connection of a run -/

/-- The requests that were handed to the pool for an object, in order. -/
def dispatched (a : ℕ) (s : Server) : List RpcRequest :=
  (s.tasks.filter fun task ↦ task.object = a).map Task.request

/-- What a step puts into the read buffer of an object. -/
def takenBy (a : ℕ) (s : Server) : Action → Bytes
  | .read (.bytes buf) =>
      match s.loop, s.objects a with
      | .reading _ b, some o =>
          if b = a ∧ o.conn.readBuffer.length + buf.length ≤ maxBufferSize then buf else []
      | _, _ => []
  | _ => []

def taken (a : ℕ) (trace : List (Server × Action)) : Bytes :=
  trace.flatMap fun entry ↦ takenBy a entry.1 entry.2

/-- The event loop is inside of `HandleClientData` for the object. -/
def Busy (a : ℕ) (s : Server) : Prop :=
  (∃ fd, s.loop = .reading fd a) ∨ ∃ fd, s.loop = .extracting fd a

/-- A `Read` of the object returns false. -/
def GivesUp (a : ℕ) (s : Server) : Action → Prop
  | .read r => (∃ fd, s.loop = .reading fd a) ∧
      ∃ o, s.objects a = some o ∧ (o.conn.onRead r).2 = .done false
  | _ => False

def Server.buffer (s : Server) (a : ℕ) : Option Bytes :=
  (s.objects a).map fun o ↦ o.conn.readBuffer

/-- What a step is for one object. -/
inductive Effect (z : Zstd) (heap : Heap) (a : ℕ) (s : Server) (act : Action) (t : Server) : Prop
  | keeps : t.buffer a = s.buffer a → dispatched a t = dispatched a s → takenBy a s act = [] →
      (Busy a s → Busy a t) → Effect z heap a s act t
  | created : s.made ≤ a → a < t.made → t.buffer a = some [] → dispatched a t = dispatched a s →
      takenBy a s act = [] → Effect z heap a s act t
  | destroyed : t.buffer a = none → dispatched a t = dispatched a s → takenBy a s act = [] →
      ¬ Busy a s → Effect z heap a s act t
  | read {buffer : Bytes} {r : ReadResult} : act = .read r → s.buffer a = some buffer →
      t.buffer a = some (buffer ++ takenBy a s act) → dispatched a t = dispatched a s →
        (Busy a t ∨ GivesUp a s act) → Effect z heap a s act t
  | dispatches {buffer rest : Bytes} {request : RpcRequest} : act = .extract →
      s.buffer a = some buffer → framePass z heap buffer = .dispatches request rest →
        t.buffer a = some rest → dispatched a t = dispatched a s ++ [request] →
          takenBy a s act = [] → Busy a t → Effect z heap a s act t
  | settles {buffer : Bytes} : s.buffer a = some buffer → requests z heap buffer = [] →
      t.buffer a = some buffer → dispatched a t = dispatched a s → takenBy a s act = [] →
        Effect z heap a s act t

/-- What is true of an object after the steps of a trace. -/
structure Told (z : Zstd) (heap : Heap) (a : ℕ) (trace : List (Server × Action)) (s : Server) :
    Prop where
  behind : dispatched a s <+: requests z heap (taken a trace)
  buffered : ∀ buffer, s.buffer a = some buffer →
    (requestCutter z heap).drain (taken a trace) =
      ((requestCutter z heap).drain buffer).prepend (dispatched a s)
  unmade : s.made ≤ a → dispatched a s = [] ∧ taken a trace = []
  settled : ¬ Busy a s → (∀ entry ∈ trace, ¬ GivesUp a entry.1 entry.2) →
    dispatched a s = requests z heap (taken a trace)

variable {a : ℕ} {act : Action} {trace : List (Server × Action)}

theorem taken_snoc (a : ℕ) (trace : List (Server × Action)) (s : Server) (act : Action) :
    taken a (trace ++ [(s, act)]) = taken a trace ++ takenBy a s act := by
  simp [taken]

theorem requests_prepend {stream buffer : Bytes} {items : List RpcRequest}
    (h : (requestCutter z heap).drain stream =
      ((requestCutter z heap).drain buffer).prepend items) :
    requests z heap stream = items ++ requests z heap buffer := by
  rw [requests, h, Received.prepend_items, requests]

theorem buffer_lt_made (hinv : Inv s) {buffer : Bytes} (h : s.buffer a = some buffer) :
    a < s.made := by
  by_contra hle
  rw [Server.buffer, hinv.unmade a (Nat.le_of_not_lt hle)] at h
  cases h

theorem told_start (table : ℤ → Option File) : Told z heap a [] (.start table) where
  behind := List.nil_prefix
  buffered buffer h := by cases h
  unmade _ := ⟨rfl, rfl⟩
  settled _ _ := (requests_nil z heap).symm

/-- Nothing changes but, perhaps, that the object is no longer there. -/
theorem told_frame (h : Told z heap a trace s) (hbuffer : t.buffer a = s.buffer a ∨
      t.buffer a = none) (hdispatched : dispatched a t = dispatched a s)
    (htaken : takenBy a s act = []) (hmade : s.made ≤ t.made) (hbusy : Busy a s → Busy a t) :
    Told z heap a (trace ++ [(s, act)]) t where
  behind := by
    rw [taken_snoc, htaken, List.append_nil, hdispatched]
    exact h.behind
  buffered buffer hb := by
    rw [taken_snoc, htaken, List.append_nil, hdispatched]
    rcases hbuffer with hsame | hnone
    · exact h.buffered buffer (hsame ▸ hb)
    · cases hnone.symm.trans hb
  unmade hle := by
    rw [taken_snoc, htaken, List.append_nil, hdispatched]
    exact h.unmade (hmade.trans hle)
  settled hidle hnever := by
    rw [taken_snoc, htaken, List.append_nil, hdispatched]
    exact h.settled (mt hbusy hidle) fun entry hentry ↦ hnever entry (by simp [hentry])

theorem told_step (hinv : Inv s) (h : Told z heap a trace s) (hmade : s.made ≤ t.made)
    (heffect : Effect z heap a s act t) : Told z heap a (trace ++ [(s, act)]) t := by
  cases heffect with
  | keeps hbuffer hdispatched htaken hbusy =>
      exact told_frame h (.inl hbuffer) hdispatched htaken hmade hbusy
  | destroyed hbuffer hdispatched htaken hidle =>
      exact told_frame h (.inr hbuffer) hdispatched htaken hmade fun hbusy ↦ absurd hbusy hidle
  | created hle hlt hbuffer hdispatched htaken =>
      obtain ⟨hnone, hempty⟩ := h.unmade hle
      have hall : taken a (trace ++ [(s, act)]) = [] := by rw [taken_snoc, htaken, hempty]; rfl
      refine ⟨?_, fun buffer hb ↦ ?_, fun hge ↦ absurd hlt (Nat.not_lt.mpr hge), fun _ _ ↦ ?_⟩
      · rw [hdispatched, hnone]
        exact List.nil_prefix
      · obtain rfl : [] = buffer := Option.some.inj (hbuffer.symm.trans hb)
        rw [hall, hdispatched, hnone, Received.prepend_nil]
      · rw [hall, hdispatched, hnone, requests_nil]
  | @read buffer r hact hbuffer hafter hdispatched hbusy =>
      have hdrain : (requestCutter z heap).drain (taken a (trace ++ [(s, act)])) =
          ((requestCutter z heap).drain (buffer ++ takenBy a s act)).prepend (dispatched a t) := by
        rw [taken_snoc, Cutter.drain_append, h.buffered buffer hbuffer, Cutter.feed_prepend,
          ← Cutter.drain_append, hdispatched]
      refine ⟨?_, fun buffer' hb ↦ ?_, fun hle ↦ ?_, fun hidle hnever ↦ ?_⟩
      · rw [requests_prepend hdrain]
        exact List.prefix_append _ _
      · obtain rfl := Option.some.inj (hafter.symm.trans hb)
        exact hdrain
      · exact absurd (buffer_lt_made hinv hbuffer) (Nat.not_lt.mpr (hmade.trans hle))
      · rcases hbusy with hbusy | hgives
        · exact absurd hbusy hidle
        · exact absurd hgives (hnever (s, act) (by simp))
  | @dispatches buffer rest request hact hbuffer hpass hafter hdispatched htaken hbusy =>
      have hdrain : (requestCutter z heap).drain (taken a (trace ++ [(s, act)])) =
          ((requestCutter z heap).drain rest).prepend (dispatched a t) := by
        rw [taken_snoc, htaken, List.append_nil, h.buffered buffer hbuffer,
          drain_dispatches hpass, Received.prepend_prepend, hdispatched]
      refine ⟨?_, fun buffer' hb ↦ ?_, fun hle ↦ ?_, fun hidle ↦ absurd hbusy hidle⟩
      · rw [requests_prepend hdrain]
        exact List.prefix_append _ _
      · obtain rfl := Option.some.inj (hafter.symm.trans hb)
        exact hdrain
      · exact absurd (buffer_lt_made hinv hbuffer) (Nat.not_lt.mpr (hmade.trans hle))
  | @settles buffer hbuffer hnone hafter hdispatched htaken =>
      have hdrain : (requestCutter z heap).drain (taken a (trace ++ [(s, act)])) =
          ((requestCutter z heap).drain buffer).prepend (dispatched a t) := by
        rw [taken_snoc, htaken, List.append_nil, h.buffered buffer hbuffer, hdispatched]
      have hall : requests z heap (taken a (trace ++ [(s, act)])) = dispatched a t := by
        rw [requests_prepend hdrain, hnone, List.append_nil]
      refine ⟨?_, fun buffer' hb ↦ ?_, fun hle ↦ ?_, fun _ _ ↦ hall.symm⟩
      · rw [hall]
      · obtain rfl := Option.some.inj (hafter.symm.trans hb)
        exact hdrain
      · exact absurd (buffer_lt_made hinv hbuffer) (Nat.not_lt.mpr (hmade.trans hle))

/-! ## What the steps are for an object -/

theorem dispatched_set {i : ℕ} {task task' : Task} (a : ℕ) (h : s.tasks[i]? = some task)
    (hobject : task'.object = task.object) (hrequest : task'.request = task.request) :
    ((s.tasks.set i task').filter fun task ↦ task.object = a).map Task.request =
      dispatched a s := by
  have hpairs : ∀ tasks : List Task, (tasks.filter fun task ↦ task.object = a).map Task.request =
      ((tasks.map fun task ↦ (task.object, task.request)).filter fun e ↦ e.1 = a).map Prod.snd := by
    intro tasks
    rw [List.filter_map, List.map_map]
    rfl
  rw [dispatched, hpairs, hpairs,
    Slots.map_set_of_eq h task' (Prod.ext hobject hrequest : (task'.object, task'.request) = _)]

theorem made_step (hstep : step z heap s act = some t) : s.made ≤ t.made := by
  cases act <;> simp only [step] at hstep <;> (repeat' split at hstep) <;> cases hstep <;>
    first | exact le_rfl | exact Nat.le_succ _

theorem readBuffer_onRead (self : Connection) (r : ReadResult) :
    (∃ buf, r = .bytes buf ∧ self.readBuffer.length + buf.length ≤ maxBufferSize ∧
        (self.onRead r).1.readBuffer = self.readBuffer ++ buf) ∨
      (∀ buf, r = .bytes buf → maxBufferSize < self.readBuffer.length + buf.length) ∧
        (self.onRead r).1.readBuffer = self.readBuffer := by
  cases r with
  | bytes buf =>
      by_cases hover : self.readBuffer.length + buf.length > maxBufferSize
      · right
        refine ⟨fun buf' h ↦ ?_, ?_⟩
        · cases h
          exact hover
        · rw [onRead, if_pos hover]
      · left
        refine ⟨buf, rfl, Nat.le_of_not_lt hover, ?_⟩
        rw [onRead, if_neg hover]
        simp only
        split <;> rfl
  | endOfStream | again | error => exact .inr ⟨by simp, rfl⟩

theorem buffer_setObject_self {o : Object} (o' : Object) (ho : s.objects a = some o) :
    (s.setObject a o').buffer a = some o'.conn.readBuffer ∧
      s.buffer a = some o.conn.readBuffer := by
  simp [Server.buffer, Server.setObject, ho]

theorem buffer_setObject_of_ne {b : ℕ} {o : Object} (h : a ≠ b) :
    (s.setObject b o).buffer a = s.buffer a := by
  simp [Server.buffer, Server.setObject, h]

theorem effect_setUp {nonblocking : Bool} (hstep : step z heap s (.setUp nonblocking) = some t) :
    Effect z heap a s (.setUp nonblocking) t := by
  simp only [step] at hstep
  split at hstep
  · rename_i fd socket hloop
    have hidle : ¬ Busy a s := by simp [Busy, hloop]
    cases nonblocking with
    | false =>
        cases hstep
        exact .keeps rfl rfl rfl fun hbusy ↦ absurd hbusy hidle
    | true =>
        cases hstep
        by_cases ha : a = s.made
        · exact .created ha.ge (ha ▸ Nat.lt_succ_self _) (by simp [Server.buffer, ha,
            Server.setObject, Server.addConnection, ofFd]) rfl rfl
        · exact .keeps (buffer_setObject_of_ne ha) rfl rfl fun hbusy ↦ absurd hbusy hidle
  · cases hstep

theorem effect_readable {fd : ℤ} (hstep : step z heap s (.readable fd) = some t) :
    Effect z heap a s (.readable fd) t := by
  simp only [step, Option.ite_none_right_eq_some] at hstep
  obtain ⟨hloop, hstep⟩ := hstep
  have hidle : Busy a s → Busy a t := fun hbusy ↦ by simp [Busy, hloop] at hbusy
  split at hstep
  · cases hstep
    exact .keeps rfl rfl rfl hidle
  · split at hstep
    · cases hstep
    · split at hstep <;> cases hstep
      · exact .keeps rfl rfl rfl hidle
      · exact .keeps rfl rfl rfl hidle

/-- What a `read(2)` puts into the buffer, and where the event loop goes. -/
theorem effect_read {r : ReadResult} (hstep : step z heap s (.read r) = some t) :
    Effect z heap a s (.read r) t := by
  simp only [step] at hstep
  split at hstep
  · rename_i fd b hloop
    split at hstep
    · cases hstep
    · rename_i o ho
      by_cases hb : a = b
      · subst hb
        have hbuffer := (buffer_setObject_self o ho).2
        have htaken : (o.conn.onRead r).1.readBuffer =
            o.conn.readBuffer ++ takenBy a s (.read r) := by
          rcases readBuffer_onRead o.conn r with ⟨buf, rfl, hfit, hread⟩ | ⟨hover, hread⟩
          · rw [hread, takenBy, hloop, ho]
            simp only [true_and, if_pos hfit]
          · rw [hread]
            cases r with
            | bytes buf =>
                simp [takenBy, hloop, ho, Nat.not_le.mpr (hover buf rfl)]
            | endOfStream | again | error => simp [takenBy]
        split at hstep <;> rename_i heq <;> cases hstep <;> rw [heq] at htaken
        · refine .read rfl hbuffer ?_ rfl (.inl (.inl ⟨fd, hloop⟩))
          rw [← htaken]
          exact (buffer_setObject_self _ ho).1
        · refine .read rfl hbuffer ?_ rfl (.inl (.inr ⟨fd, rfl⟩))
          rw [← htaken]
          exact (buffer_setObject_self _ ho).1
        · refine .read rfl hbuffer ?_ rfl (.inr ⟨⟨fd, hloop⟩, o, ho, by rw [heq]⟩)
          rw [← htaken]
          exact (buffer_setObject_self _ ho).1
      · have hidle : ¬ Busy a s := by simp [Busy, hloop, Ne.symm hb]
        have htaken : takenBy a s (.read r) = [] := by
          cases r with
          | bytes buf =>
              simp only [takenBy, hloop]
              cases s.objects a with
              | none => rfl
              | some o => simp [Ne.symm hb]
          | endOfStream | again | error => rfl
        split at hstep <;> cases hstep
        · exact .keeps (buffer_setObject_of_ne hb) rfl htaken fun hbusy ↦ absurd hbusy hidle
        · exact .keeps (buffer_setObject_of_ne hb) rfl htaken fun hbusy ↦ absurd hbusy hidle
        · exact .keeps (buffer_setObject_of_ne hb) rfl htaken fun hbusy ↦ absurd hbusy hidle
  · cases hstep

/-- A pass over the frames dispatches a request of its own object, or is the last. -/
theorem effect_extract (hstep : step z heap s .extract = some t) :
    Effect z heap a s .extract t := by
  simp only [step] at hstep
  split at hstep
  · rename_i fd b hloop
    split at hstep
    · cases hstep
    · rename_i o ho
      by_cases hb : a = b
      · subst hb
        have hbuffer := (buffer_setObject_self o ho).2
        split at hstep <;> rename_i hpass <;> cases hstep
        · refine .dispatches rfl hbuffer hpass (buffer_setObject_self _ ho).1 ?_ rfl
            (.inr ⟨fd, hloop⟩)
          simp [dispatched]
        · exact .settles hbuffer (requests_of_pass (by simp [hpass])) hbuffer rfl rfl
        · exact .settles hbuffer (requests_of_pass (by simp [hpass])) hbuffer rfl rfl
        · exact .settles hbuffer (requests_of_pass (by simp [hpass])) hbuffer rfl rfl
      · have hidle : ¬ Busy a s := by simp [Busy, hloop, Ne.symm hb]
        split at hstep <;> cases hstep
        · refine .keeps (buffer_setObject_of_ne hb) ?_ rfl fun hbusy ↦ absurd hbusy hidle
          simp [dispatched, Ne.symm hb]
        · exact .keeps rfl rfl rfl fun hbusy ↦ absurd hbusy hidle
        · exact .keeps rfl rfl rfl fun hbusy ↦ absurd hbusy hidle
        · exact .keeps rfl rfl rfl fun hbusy ↦ absurd hbusy hidle
  · cases hstep

theorem effect_write {i : ℕ} {r : WriteResult} (hstep : step z heap s (.write i r) = some t) :
    Effect z heap a s (.write i r) t := by
  simp only [step] at hstep
  split at hstep
  · rename_i b request heard size sent htask
    split at hstep
    · cases hstep
    · rename_i o ho
      cases hstep
      refine .keeps ?_ (dispatched_set a htask rfl rfl) rfl id
      by_cases hb : a = b
      · subst hb
        obtain ⟨hafter, hbefore⟩ := buffer_setObject_self
          { o with conn := (o.conn.onWrite size sent r).1 } ho
        rw [hbefore, ← (onWrite_keeps o.conn size sent r).2]
        exact hafter
      · exact buffer_setObject_of_ne hb
  · cases hstep

theorem effect (hstep : step z heap s act = some t) : Effect z heap a s act t := by
  cases act with
  | setUp nonblocking => exact effect_setUp hstep
  | readable fd => exact effect_readable hstep
  | read r => exact effect_read hstep
  | extract => exact effect_extract hstep
  | write i r => exact effect_write hstep
  | openOther fd | closeOther fd =>
      simp only [step, Option.ite_none_right_eq_some, Option.some.injEq] at hstep
      obtain ⟨-, rfl⟩ := hstep
      exact .keeps rfl rfl rfl id
  | accept fd =>
      simp only [step, Option.ite_none_right_eq_some, Option.some.injEq] at hstep
      obtain ⟨⟨hloop, -⟩, rfl⟩ := hstep
      exact .keeps rfl rfl rfl fun hbusy ↦ by simp [Busy, hloop] at hbusy
  | register added =>
      simp only [step] at hstep
      split at hstep
      · rename_i hloop
        cases hstep
        refine .keeps ?_ ?_ rfl fun hbusy ↦ by simp [Busy, hloop] at hbusy
        · cases added <;> rfl
        · cases added <;> rfl
      · cases hstep
  | hangUp fd =>
      simp only [step, Option.ite_none_right_eq_some, Option.some.injEq] at hstep
      obtain ⟨-, rfl⟩ := hstep
      exact .keeps rfl rfl rfl id
  | begin i =>
      simp only [step] at hstep
      split at hstep
      · rename_i htask
        cases hstep
        exact .keeps rfl (dispatched_set a htask rfl rfl) rfl id
      · cases hstep
  | respond i size =>
      simp only [step] at hstep
      split at hstep
      · rename_i htask
        split at hstep
        · cases hstep
        · cases hstep
          exact .keeps rfl (dispatched_set a htask rfl rfl) rfl id
      · cases hstep
  | finish i =>
      simp only [step] at hstep
      split at hstep
      · rename_i htask
        cases hstep
        exact .keeps rfl (dispatched_set a htask rfl rfl) rfl id
      · cases hstep
  | destroy b =>
      simp only [step] at hstep
      split at hstep
      · cases hstep
      · rw [Option.ite_none_right_eq_some, Option.some.injEq] at hstep
        obtain ⟨⟨-, -, hloop⟩, rfl⟩ := hstep
        by_cases hb : a = b
        · subst hb
          refine .destroyed (by simp [Server.buffer]) rfl rfl ?_
          rintro (⟨fd, hfd⟩ | ⟨fd, hfd⟩) <;> simp [hfd, Loop.object?] at hloop
        · exact .keeps (by simp [Server.buffer, hb]) rfl rfl id

theorem told_run {table : ℤ → Option File} {last : Server}
    (hrun : Run (step z heap) (.start table) trace last) (a : ℕ) :
    Inv last ∧ Told z heap a trace last := by
  induction hrun with
  | nil => exact ⟨inv_start table, told_start table⟩
  | snoc _ hstep ih =>
      obtain ⟨hinv, htold⟩ := ih
      exact ⟨inv_step hinv hstep, told_step hinv htold (made_step hstep) (effect hstep)⟩

/-- **Connections do not disturb one another.**  Whatever the event loop does for
other connections, and whenever the workers run: the requests that were handed to
the pool for a connection are the first ones of the bytes read from it, in their
order, each once.  They are all of them when the event loop is not inside of
`HandleClientData` for this connection and no `Read` of it has returned false. -/
theorem isolated_run {table : ℤ → Option File} {last : Server}
    (hrun : Run (step z heap) (.start table) trace last) (a : ℕ) :
    dispatched a last <+: requests z heap (taken a trace) ∧
      (¬ Busy a last → (∀ entry ∈ trace, ¬ GivesUp a entry.1 entry.2) →
        dispatched a last = requests z heap (taken a trace)) := by
  obtain ⟨-, htold⟩ := told_run hrun a
  exact ⟨htold.behind, htold.settled⟩

/-- The first client's request arrives in two parts, and the second client's in between. -/
def alternating : List Action :=
  [.accept 3, .setUp true, .register true, .accept 4, .setUp true, .register true,
    .readable 3, .read (.bytes (Message.pingWire.take 50)), .extract,
    .readable 4, .read (.bytes Message.pingWire), .extract, .extract,
    .readable 3, .read (.bytes (Message.pingWire.drop 50)), .extract, .extract]

def alternatingRun : List (Server × Action) × Server :=
  executed (step StoredFrames.stored StoredFrames.gibibyteHeap) (.start standardFiles) alternating

theorem isolated_run_alternating :
    taken 0 alternatingRun.1 = Message.pingWire ∧
      dispatched 0 alternatingRun.2 = [⟨1, [0x53], [0x6d], [0x70]⟩] ∧
        dispatched 0 alternatingRun.2 <+: requests StoredFrames.stored
          StoredFrames.gibibyteHeap (taken 0 alternatingRun.1) := by
  have hrun : Run (step StoredFrames.stored StoredFrames.gibibyteHeap) (.start standardFiles)
      alternatingRun.1 alternatingRun.2 :=
    Run.of_isSome (by decide +kernel)
  exact ⟨by decide +kernel, by decide +kernel, (isolated_run hrun 0).1⟩

end MyRpc.Descriptors
