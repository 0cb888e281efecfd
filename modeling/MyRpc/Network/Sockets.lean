import MyRpc.Network.Isolation

/-!
# The sockets of the objects

A socket is given to one object at most, and an object keeps its socket and its
descriptor.  The event loop is inside of `HandleClientData` only for an object
that is in the map of `ConnectionManager`; so once an object has left the map it
is not read again, and what its `Read` has lost does no harm (`Retired`).
-/

namespace MyRpc.Descriptors

open FixedWidth PartialRun Connection MessageCycle

/-- How a step may move the event loop without a new connection. -/
def LoopMoves (s t : Server) : Prop :=
  t.loop = s.loop ∨ t.loop = .idle ∨ t.loop = .stopped ∨
    (∃ fd a, t.loop = .reading fd a ∧ (fd, a) ∈ s.connections) ∨
      ∃ fd a, s.loop = .reading fd a ∧ t.loop = .extracting fd a

/-- What a step is for the sockets, the objects and the map. -/
inductive Placing (s : Server) (act : Action) (t : Server) : Prop
  | accepts (fd : ℤ) : act = .accept fd → t.loop = .accepted fd s.sockets →
      t.sockets = s.sockets + 1 → t.objects = s.objects → t.connections = s.connections →
        Placing s act t
  | creates (fd : ℤ) (n : ℕ) : s.loop = .accepted fd n → t.loop = .registering fd s.made →
      t.sockets = s.sockets → t.made = s.made + 1 →
        t.objects = Function.update s.objects s.made (some ⟨ofFd fd, n, []⟩) →
          (∀ e ∈ t.connections, e = (fd, s.made) ∨ e ∈ s.connections) → Placing s act t
  | keeps : t.sockets = s.sockets → t.made = s.made → LoopMoves s t →
      (∀ e ∈ t.connections, e ∈ s.connections) →
        (∀ a o', t.objects a = some o' → ∃ o, s.objects a = some o ∧ o'.socket = o.socket ∧
          o'.conn.fd = o.conn.fd) → Placing s act t

variable {z : Zstd} {heap : Heap} {s t : Server} {act : Action} {a : ℕ}

theorem mem_removeConnection {fd : ℤ} {e : ℤ × ℕ} (h : e ∈ (s.removeConnection fd).connections) :
    e ∈ s.connections ∧ e.1 ≠ fd := by
  simpa [Server.removeConnection] using h

theorem kept_setObject {o o' p' : Object} {b : ℕ} (ho : s.objects a = some o)
    (hsocket : o'.socket = o.socket) (hfd : o'.conn.fd = o.conn.fd)
    (hp : (s.setObject a o').objects b = some p') :
    ∃ p, s.objects b = some p ∧ p'.socket = p.socket ∧ p'.conn.fd = p.conn.fd := by
  by_cases hb : b = a
  · subst hb
    obtain rfl : o' = p' := by simpa [Server.setObject] using hp
    exact ⟨o, ho, hsocket, hfd⟩
  · exact ⟨p', by simpa [Server.setObject, hb] using hp, rfl, rfl⟩

/-- A step that keeps the objects, and takes nothing into the map. -/
theorem placing_of_objects (hsockets : t.sockets = s.sockets) (hmade : t.made = s.made)
    (hloop : LoopMoves s t) (hconnections : ∀ e ∈ t.connections, e ∈ s.connections)
    (hobjects : t.objects = s.objects) : Placing s act t :=
  .keeps hsockets hmade hloop hconnections fun _ o' ho ↦ ⟨o', hobjects ▸ ho, rfl, rfl⟩

theorem placing_read {r : ReadResult} (hstep : step z heap s (.read r) = some t) :
    Placing s (.read r) t := by
  simp only [step] at hstep
  split at hstep
  · rename_i fd b hloop
    split at hstep
    · cases hstep
    · rename_i o ho
      have hfd := onRead_fd o.conn r
      split at hstep <;> rename_i heq <;> cases hstep <;> rw [heq] at hfd
      · exact .keeps rfl rfl (.inl rfl) (fun _ he ↦ he) fun _ _ ↦ kept_setObject ho rfl hfd
      · exact .keeps rfl rfl (.inr (.inr (.inr (.inr ⟨fd, b, hloop, rfl⟩)))) (fun _ he ↦ he)
          fun _ _ ↦ kept_setObject ho rfl hfd
      · exact .keeps rfl rfl (.inr (.inl rfl)) (fun _ he ↦ (mem_removeConnection he).1)
          fun _ _ ↦ kept_setObject ho rfl hfd
  · cases hstep

theorem placing_extract (hstep : step z heap s .extract = some t) : Placing s .extract t := by
  simp only [step] at hstep
  split at hstep
  · split at hstep
    · cases hstep
    · rename_i o ho
      split at hstep <;> cases hstep
      · exact .keeps rfl rfl (.inl rfl) (fun _ he ↦ he) fun _ _ ↦ kept_setObject ho rfl rfl
      · exact placing_of_objects rfl rfl (.inr (.inl rfl)) (fun _ he ↦ he) rfl
      · exact placing_of_objects rfl rfl (.inr (.inl rfl))
          (fun _ he ↦ (mem_removeConnection he).1) rfl
      · exact placing_of_objects rfl rfl (.inr (.inr (.inl rfl))) (fun _ he ↦ he) rfl
  · cases hstep

theorem placing_readable {fd : ℤ} (hstep : step z heap s (.readable fd) = some t) :
    Placing s (.readable fd) t := by
  simp only [step, Option.ite_none_right_eq_some] at hstep
  obtain ⟨-, hstep⟩ := hstep
  split at hstep
  · cases hstep
    exact placing_of_objects rfl rfl (.inl rfl) (fun _ he ↦ (mem_removeConnection he).1) rfl
  · rename_i a hget
    split at hstep
    · cases hstep
    · split at hstep <;> cases hstep
      · exact placing_of_objects rfl rfl
          (.inr (.inr (.inr (.inl ⟨fd, a, rfl, getConnection_mem hget⟩)))) (fun _ he ↦ he) rfl
      · exact placing_of_objects rfl rfl (.inl rfl) (fun _ he ↦ (mem_removeConnection he).1) rfl

theorem placing_setUp {nonblocking : Bool} (hstep : step z heap s (.setUp nonblocking) = some t) :
    Placing s (.setUp nonblocking) t := by
  simp only [step] at hstep
  split at hstep
  · rename_i fd n hloop
    cases nonblocking with
    | true =>
        cases hstep
        exact .creates fd n hloop rfl rfl rfl rfl fun _ he ↦ mem_addConnection he
    | false =>
        cases hstep
        exact placing_of_objects rfl rfl (.inr (.inl rfl)) (fun _ he ↦ he) rfl
  · cases hstep

theorem placing (hstep : step z heap s act = some t) : Placing s act t := by
  cases act with
  | setUp nonblocking => exact placing_setUp hstep
  | readable fd => exact placing_readable hstep
  | read r => exact placing_read hstep
  | extract => exact placing_extract hstep
  | openOther fd | closeOther fd =>
      simp only [step, Option.ite_none_right_eq_some, Option.some.injEq] at hstep
      obtain ⟨-, rfl⟩ := hstep
      exact placing_of_objects rfl rfl (.inl rfl) (fun _ he ↦ he) rfl
  | accept fd =>
      simp only [step, Option.ite_none_right_eq_some, Option.some.injEq] at hstep
      obtain ⟨-, rfl⟩ := hstep
      exact .accepts fd rfl rfl rfl rfl rfl
  | register added =>
      simp only [step] at hstep
      split at hstep
      · cases hstep
        cases added with
        | true => exact placing_of_objects rfl rfl (.inr (.inl rfl)) (fun _ he ↦ he) rfl
        | false =>
            exact placing_of_objects rfl rfl (.inr (.inl rfl))
              (fun _ he ↦ (mem_removeConnection he).1) rfl
      · cases hstep
  | hangUp fd =>
      simp only [step, Option.ite_none_right_eq_some, Option.some.injEq] at hstep
      obtain ⟨-, rfl⟩ := hstep
      exact placing_of_objects rfl rfl (.inl rfl) (fun _ he ↦ (mem_removeConnection he).1) rfl
  | begin i =>
      simp only [step] at hstep
      split at hstep <;> cases hstep
      exact placing_of_objects rfl rfl (.inl rfl) (fun _ he ↦ he) rfl
  | respond i size =>
      simp only [step] at hstep
      split at hstep
      · split at hstep <;> cases hstep
        exact placing_of_objects rfl rfl (.inl rfl) (fun _ he ↦ he) rfl
      · cases hstep
  | write i r =>
      simp only [step] at hstep
      split at hstep
      · split at hstep
        · cases hstep
        · rename_i o ho
          cases hstep
          exact .keeps rfl rfl (.inl rfl) (fun _ he ↦ he) fun _ _ ↦
            kept_setObject ho rfl (onWrite_keeps ..).1
      · cases hstep
  | finish i =>
      simp only [step] at hstep
      split at hstep <;> cases hstep
      exact placing_of_objects rfl rfl (.inl rfl) (fun _ he ↦ he) rfl
  | destroy b =>
      simp only [step] at hstep
      split at hstep
      · cases hstep
      · rw [Option.ite_none_right_eq_some, Option.some.injEq] at hstep
        obtain ⟨-, rfl⟩ := hstep
        refine .keeps rfl rfl (.inl rfl) (fun _ he ↦ he) fun a o' ho ↦ ?_
        by_cases ha : a = b
        · simp [ha] at ho
        · exact ⟨o', by simpa [ha] using ho, rfl, rfl⟩

/-! ## One socket, one object -/

structure Placed (s : Server) : Prop where
  socket_lt : ∀ a o, s.objects a = some o → o.socket < s.sockets
  distinct : ∀ a b o o', s.objects a = some o → s.objects b = some o' → o.socket = o'.socket →
    a = b
  accepted : ∀ fd n, s.loop = .accepted fd n → n < s.sockets ∧
    ∀ a o, s.objects a = some o → o.socket ≠ n
  reading : ∀ fd a o, (s.loop = .reading fd a ∨ s.loop = .extracting fd a) →
    s.objects a = some o → o.conn.fd = fd

theorem placed_start (table : ℤ → Option File) : Placed (.start table) where
  socket_lt _ _ h := by cases h
  distinct _ _ _ _ h := by cases h
  accepted _ _ h := by cases h
  reading _ _ _ h := by simp [Server.start] at h

theorem placed_step (hinv : Inv s) (h : Placed s) (hplacing : Placing s act t) : Placed t := by
  cases hplacing with
  | accepts fd hact hloop hsockets hobjects hconnections =>
      refine ⟨fun a o ho ↦ ?_, fun a b o o' ho ho' ↦ ?_, fun fd' n hn ↦ ?_, fun fd' a o hbusy ↦ ?_⟩
      · rw [hsockets]
        exact (h.socket_lt a o (hobjects ▸ ho)).trans (Nat.lt_succ_self _)
      · exact h.distinct a b o o' (hobjects ▸ ho) (hobjects ▸ ho')
      · rw [hloop] at hn
        cases hn
        exact ⟨hsockets ▸ Nat.lt_succ_self _, fun a o ho ↦ (h.socket_lt a o (hobjects ▸ ho)).ne⟩
      · simp [hloop] at hbusy
  | creates fd n haccepted hloop hsockets hmade hobjects hconnections =>
      obtain ⟨hn, hother⟩ := h.accepted fd n haccepted
      have hcases : ∀ a o, t.objects a = some o →
          a = s.made ∧ o.socket = n ∨ s.objects a = some o := by
        intro a o ho
        rw [hobjects] at ho
        by_cases ha : a = s.made
        · subst ha
          rw [Function.update_self, Option.some.injEq] at ho
          exact .inl ⟨rfl, ho ▸ rfl⟩
        · exact .inr (by simpa [ha] using ho)
      refine ⟨fun a o ho ↦ ?_, fun a b o o' ho ho' hsame ↦ ?_, fun fd' m hm ↦ ?_,
        fun fd' a o hbusy ↦ ?_⟩
      · rw [hsockets]
        rcases hcases a o ho with ⟨-, hsocket⟩ | hold
        · exact hsocket ▸ hn
        · exact h.socket_lt a o hold
      · rcases hcases a o ho with ⟨rfl, hsocket⟩ | hold <;>
          rcases hcases b o' ho' with ⟨rfl, hsocket'⟩ | hold'
        · rfl
        · exact absurd (hsame.symm.trans hsocket) (hother b o' hold')
        · exact absurd (hsame.trans hsocket') (hother a o hold)
        · exact h.distinct a b o o' hold hold' hsame
      · rw [hloop] at hm
        cases hm
      · simp [hloop] at hbusy
  | keeps hsockets hmade hloop hconnections hobjects =>
      refine ⟨fun a o ho ↦ ?_, fun a b o o' ho ho' hsame ↦ ?_, fun fd n hn ↦ ?_,
        fun fd a o hbusy ho ↦ ?_⟩
      · obtain ⟨p, hp, hsocket, -⟩ := hobjects a o ho
        rw [hsockets, hsocket]
        exact h.socket_lt a p hp
      · obtain ⟨p, hp, hsocket, -⟩ := hobjects a o ho
        obtain ⟨p', hp', hsocket', -⟩ := hobjects b o' ho'
        exact h.distinct a b p p' hp hp' (hsocket.symm.trans (hsame.trans hsocket'))
      · have hsame : s.loop = .accepted fd n := by
          rcases hloop with heq | hidle | hstopped | ⟨fd', a, hread, -⟩ | ⟨fd', a, -, hextract⟩
          · exact heq.symm.trans hn
          all_goals simp_all
        obtain ⟨hlt, hother⟩ := h.accepted fd n hsame
        refine ⟨hsockets ▸ hlt, fun a o ho ↦ ?_⟩
        obtain ⟨p, hp, hsocket, -⟩ := hobjects a o ho
        exact hsocket ▸ hother a p hp
      · obtain ⟨p, hp, -, hfd⟩ := hobjects a o ho
        rw [hfd]
        rcases hloop with heq | hidle | hstopped | ⟨fd', a', hread, hmem⟩ |
          ⟨fd', a', hbefore, hextract⟩
        · exact h.reading fd a p (heq ▸ hbusy) hp
        · simp [hidle] at hbusy
        · simp [hstopped] at hbusy
        · obtain ⟨rfl, rfl⟩ : fd' = fd ∧ a' = a := by simpa [hread] using hbusy
          obtain ⟨q, hq, hentry⟩ := hinv.entry fd' a' hmem
          obtain rfl : p = q := Option.some.inj (hp.symm.trans hq)
          exact hentry
        · obtain ⟨rfl, rfl⟩ : fd' = fd ∧ a' = a := by simpa [hextract] using hbusy
          exact h.reading fd' a' p (.inl hbefore) hp

/-! ## Objects that have left the map -/

/-- The object is not in the map, and the event loop does not hold it. -/
structure Retired (a : ℕ) (s : Server) : Prop where
  made : a < s.made
  unmapped : ∀ e ∈ s.connections, e.2 ≠ a
  unheld : s.loop.object? ≠ some a

theorem not_retired_of_busy (h : Busy a s) : ¬ Retired a s := by
  intro hretired
  rcases h with ⟨fd, hloop⟩ | ⟨fd, hloop⟩ <;> exact hretired.unheld (by rw [hloop]; rfl)

theorem retired_step (h : Retired a s) (hplacing : Placing s act t) (hmade : s.made ≤ t.made) :
    Retired a t := by
  refine ⟨h.made.trans_le hmade, ?_, ?_⟩
  · intro e he
    cases hplacing with
    | accepts fd hact hloop hsockets hobjects hconnections => exact h.unmapped e (hconnections ▸ he)
    | creates fd n haccepted hloop hsockets hmade' hobjects hconnections =>
        rcases hconnections e he with rfl | hold
        · exact h.made.ne'
        · exact h.unmapped e hold
    | keeps hsockets hmade' hloop hconnections hobjects => exact h.unmapped e (hconnections e he)
  · cases hplacing with
    | accepts fd hact hloop => simp [hloop, Loop.object?]
    | creates fd n haccepted hloop => simpa [hloop, Loop.object?] using h.made.ne'
    | keeps hsockets hmade' hloop hconnections hobjects =>
        rcases hloop with heq | hidle | hstopped | ⟨fd, b, hread, hmem⟩ | ⟨fd, b, hbefore, hextract⟩
        · exact heq ▸ h.unheld
        · simp [hidle, Loop.object?]
        · simp [hstopped, Loop.object?]
        · simpa [hread, Loop.object?] using h.unmapped (fd, b) hmem
        · have hunheld := h.unheld
          simpa [hbefore, hextract, Loop.object?] using hunheld

/-- A `Read` that returns false is the last one of its object. -/
theorem retired_of_givesUp (hinv : Inv s) (hplaced : Placed s)
    (hstep : step z heap s act = some t) (h : GivesUp a s act) : Retired a t := by
  cases act with
  | read r =>
      obtain ⟨⟨fd, hloop⟩, o, ho, hfalse⟩ := h
      have hfd := hplaced.reading fd a o (.inl hloop) ho
      have hlt : a < s.made := buffer_lt_made hinv (by rw [Server.buffer, ho]; rfl)
      simp only [step, hloop, ho] at hstep
      split at hstep <;> rename_i heq <;> rw [heq] at hfalse <;> cases hfalse
      cases hstep
      refine ⟨hlt, fun e he ↦ ?_, by simp [Loop.object?]⟩
      rintro rfl
      obtain ⟨hmem, hne⟩ := mem_removeConnection he
      obtain ⟨p, hp, hentry⟩ := hinv.entry e.1 e.2 hmem
      obtain rfl : o = p := Option.some.inj (ho.symm.trans hp)
      exact hne (hentry.symm.trans hfd)
  | _ => exact h.elim

/-- The bytes of a `read(2)` are in the buffer, unless they are lost with the connection. -/
theorem taken_or_givesUp {fd : ℤ} {o : Object} (buf : Bytes) (hloop : s.loop = .reading fd a)
    (ho : s.objects a = some o) :
    takenBy a s (.read (.bytes buf)) = buf ∨ GivesUp a s (.read (.bytes buf)) := by
  by_cases hfit : o.conn.readBuffer.length + buf.length ≤ maxBufferSize
  · left
    simp only [takenBy, hloop, ho, true_and, if_pos hfit]
  · right
    refine ⟨⟨fd, hloop⟩, o, ho, ?_⟩
    rw [onRead, if_pos (Nat.lt_of_not_le hfit)]

theorem made_of_object (hinv : Inv s) {o : Object} (ho : s.objects a = some o) : a < s.made :=
  buffer_lt_made hinv (by rw [Server.buffer, ho]; rfl)

/-- An object keeps its socket. -/
theorem socket_step (hinv : Inv s) (hplacing : Placing s act t) {o o' : Object}
    (ho : s.objects a = some o) (ho' : t.objects a = some o') : o'.socket = o.socket := by
  cases hplacing with
  | accepts fd hact hloop hsockets hobjects hconnections =>
      rw [hobjects, ho] at ho'
      rw [Option.some.inj ho']
  | creates fd n haccepted hloop hsockets hmade hobjects hconnections =>
      rw [hobjects, Function.update_of_ne (made_of_object hinv ho).ne, ho] at ho'
      rw [Option.some.inj ho']
  | keeps hsockets hmade hloop hconnections hobjects =>
      obtain ⟨p, hp, hsocket, -⟩ := hobjects a o' ho'
      obtain rfl : o = p := Option.some.inj (ho.symm.trans hp)
      exact hsocket

theorem sockets_le (hplacing : Placing s act t) : s.sockets ≤ t.sockets := by
  cases hplacing with
  | accepts fd hact hloop hsockets => exact hsockets ▸ Nat.le_succ _
  | creates fd n haccepted hloop hsockets => exact hsockets.ge
  | keeps hsockets => exact hsockets.ge

theorem takenBy_of_not_read (h : ∀ r, act ≠ .read r) : takenBy a s act = [] := by
  cases act with
  | read r => exact absurd rfl (h r)
  | _ => rfl

/-- Unless a request is cut off, a read buffer changes only by what a `read(2)`
puts there. -/
theorem readBuffer_step (hinv : Inv s) (heffect : Effect z heap a s act t) {o o' : Object}
    (ho : s.objects a = some o) (ho' : t.objects a = some o')
    (hcut : act ≠ .extract ∨ t.tasks = s.tasks) :
    o'.conn.readBuffer = o.conn.readBuffer ++ takenBy a s act := by
  have hbefore : s.buffer a = some o.conn.readBuffer := by rw [Server.buffer, ho]; rfl
  have hafter : t.buffer a = some o'.conn.readBuffer := by rw [Server.buffer, ho']; rfl
  cases heffect with
  | keeps hbuffer hdispatched htaken hbusy =>
      rw [hbuffer, hbefore] at hafter
      rw [htaken, List.append_nil, Option.some.inj hafter]
  | created hle hlt hbuffer hdispatched htaken =>
      exact absurd (made_of_object hinv ho) (Nat.not_lt.mpr hle)
  | destroyed hbuffer hdispatched htaken hidle =>
      rw [hbuffer] at hafter
      cases hafter
  | read hact hbuffer hread hdispatched hbusy =>
      rw [hbefore] at hbuffer
      rw [hread] at hafter
      cases hbuffer
      exact (Option.some.inj hafter).symm
  | dispatches hact hbuffer hpass hrest hdispatched htaken hbusy =>
      rcases hcut with hne | htasks
      · exact absurd hact hne
      · simp [dispatched, htasks] at hdispatched
  | settles hbuffer hnone hsame hdispatched htaken =>
      rw [hbefore] at hbuffer
      rw [hsame] at hafter
      cases hbuffer
      rw [htaken, List.append_nil, Option.some.inj hafter]

/-! ## The tasks -/

def writtenBy : WriteResult → ℕ
  | .wrote n => n
  | _ => 0

def Action.wrote : Action → ℕ
  | .write _ r => writtenBy r
  | _ => 0

/-- How a step may move a task on. -/
def Moves (i : ℕ) (old new : TaskPhase) : Action → Prop
  | .begin j => j = i ∧ old = .queued ∧ new = .running
  | .respond j size => j = i ∧ old = .running ∧ (new = .writing size 0 ∨ new = .done)
  | .write j r => j = i ∧ ∃ size sent, old = .writing size sent ∧
      (new = .writing size (sent + writtenBy r) ∨ new = .done)
  | .finish j => j = i ∧ new = .done
  | _ => False

/-- What a step is for the tasks. -/
inductive Tasked (z : Zstd) (heap : Heap) (s : Server) (act : Action) (t : Server) : Prop
  | keeps : t.tasks = s.tasks → (∀ i, act ≠ .begin i) → (∀ i size, act ≠ .respond i size) →
      (∀ i r, act ≠ .write i r) → Tasked z heap s act t
  | moves (i : ℕ) (task : Task) (phase : TaskPhase) : s.tasks[i]? = some task →
      t.tasks = s.tasks.set i { task with phase } → Moves i task.phase phase act →
        Tasked z heap s act t
  | cuts (fd : ℤ) (a : ℕ) (o : Object) (request : RpcRequest) (rest : Bytes) : act = .extract →
      s.loop = .extracting fd a → s.objects a = some o →
        framePass z heap o.conn.readBuffer = .dispatches request rest →
          t.tasks = s.tasks ++ [⟨a, request, o.heard, .queued⟩] →
            t.objects = Function.update s.objects a
              (some { o with conn := { o.conn with readBuffer := rest } }) →
                Tasked z heap s act t

theorem tasked_write {i : ℕ} {r : WriteResult} (hstep : step z heap s (.write i r) = some t) :
    Tasked z heap s (.write i r) t := by
  simp only [step] at hstep
  split at hstep
  · rename_i a request heard size sent htask
    split at hstep
    · cases hstep
    · rename_i o ho
      cases hstep
      refine .moves i _ _ htask rfl ⟨rfl, size, sent, rfl, ?_⟩
      have hsent : (o.conn.onWrite size sent r).2.1 = sent + writtenBy r := by
        cases r <;> rfl
      rw [← hsent]
      by_cases hnext : (o.conn.onWrite size sent r).2.2 = .next
      · exact .inl (if_pos hnext)
      · exact .inr (if_neg hnext)
  · cases hstep

theorem tasked_extract (hstep : step z heap s .extract = some t) :
    Tasked z heap s .extract t := by
  simp only [step] at hstep
  split at hstep
  · rename_i fd a hloop
    split at hstep
    · cases hstep
    · rename_i o ho
      split at hstep <;> rename_i hpass <;> cases hstep
      · exact .cuts fd a o _ _ rfl hloop ho hpass rfl rfl
      all_goals exact .keeps rfl (by simp) (by simp) (by simp)
  · cases hstep

theorem tasked_respond {i size : ℕ} (hstep : step z heap s (.respond i size) = some t) :
    Tasked z heap s (.respond i size) t := by
  simp only [step] at hstep
  split at hstep
  · rename_i htask
    split at hstep
    · cases hstep
    · rename_i o ho
      cases hstep
      refine .moves i _ _ htask rfl ⟨rfl, rfl, ?_⟩
      by_cases hopen : o.conn.state = .connected ∧ 0 < size
      · exact .inl (if_pos hopen)
      · exact .inr (if_neg hopen)
  · cases hstep

theorem tasked (hstep : step z heap s act = some t) : Tasked z heap s act t := by
  cases act with
  | extract => exact tasked_extract hstep
  | write i r => exact tasked_write hstep
  | respond i size => exact tasked_respond hstep
  | begin i =>
      simp only [step] at hstep
      split at hstep
      · rename_i htask
        cases hstep
        exact .moves i _ _ htask rfl ⟨rfl, rfl, rfl⟩
      · cases hstep
  | finish i =>
      simp only [step] at hstep
      split at hstep
      · rename_i htask
        cases hstep
        exact .moves i _ _ htask rfl ⟨rfl, rfl⟩
      · cases hstep
  | _ =>
      simp only [step] at hstep
      refine .keeps ?_ (by simp) (by simp) (by simp)
      (repeat' split at hstep) <;> cases hstep <;> rfl

end MyRpc.Descriptors
