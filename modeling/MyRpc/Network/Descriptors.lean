import MyRpc.Library.PartialRun
import MyRpc.Network.MessageCycle

/-!
# Who owns a descriptor

A client socket is named by its number in the kernel, in epoll, in the map of
`ConnectionManager` and in `Connection::fd_`, and its `Connection` is kept
alive by the map, by the event loop and by every task that will answer one of
its requests.  Only the destructor closes the number, so a number cannot be
given to the next client as long as anybody can still write to it.

The kernel's table of open descriptors is part of the model, and so are the
files that other parts of the process open and close.  An event may name any
number, a stale one too.
-/

namespace MyRpc.Descriptors

open FixedWidth PartialRun Connection MessageCycle

/-- What an open descriptor stands for: the `n`-th socket that `accept` has
returned, or a file that is not the server's. -/
inductive File
  | client (n : ℕ)
  | other
  deriving DecidableEq, Repr

/-- A `Connection` with the socket it was made for, and what its number stood
for at each of its calls of `read(2)`. -/
structure Object where
  conn : Connection
  socket : ℕ
  heard : List (Option File)
  deriving DecidableEq, Repr

inductive TaskPhase
  | queued
  | running
  | writing (size sent : ℕ)
  | done
  deriving DecidableEq, Repr

/-- The closure `HandleRpcRequest` gives to the pool, and what had been read
from when the request was cut off. -/
structure Task where
  object : ℕ
  request : RpcRequest
  heard : List (Option File)
  phase : TaskPhase
  deriving DecidableEq, Repr

/-- Where the event loop stands, with the `shared_ptr` it holds there. -/
inductive Loop
  | idle
  | accepted (fd : ℤ) (socket : ℕ)
  | registering (fd : ℤ) (object : ℕ)
  | reading (fd : ℤ) (object : ℕ)
  | extracting (fd : ℤ) (object : ℕ)
  | stopped
  deriving DecidableEq, Repr

def Loop.object? : Loop → Option ℕ
  | .registering _ a | .reading _ a | .extracting _ a => some a
  | _ => none

/-- A `write(2)` of a task: what its request was read from, and what the
number stood for. -/
structure Written where
  heard : List (Option File)
  file : Option File
  deriving DecidableEq, Repr

structure Server where
  table : ℤ → Option File
  sockets : ℕ
  objects : ℕ → Option Object
  made : ℕ
  connections : List (ℤ × ℕ)
  tasks : List Task
  loop : Loop
  writes : List Written

namespace Server

/-- `connections_[conn->GetFd()] = conn`. -/
def addConnection (s : Server) (fd : ℤ) (a : ℕ) : Server :=
  { s with connections := (fd, a) :: s.connections.filter fun e ↦ e.1 ≠ fd }

def removeConnection (s : Server) (fd : ℤ) : Server :=
  { s with connections := s.connections.filter fun e ↦ e.1 ≠ fd }

def getConnection (s : Server) (fd : ℤ) : Option ℕ :=
  (s.connections.find? fun e ↦ e.1 = fd).map Prod.snd

def setObject (s : Server) (a : ℕ) (o : Object) : Server :=
  { s with objects := Function.update s.objects a (some o) }

/-- The reference count of an object is zero. -/
def Unreferenced (s : Server) (a : ℕ) : Prop :=
  (∀ e ∈ s.connections, e.2 ≠ a) ∧ (∀ t ∈ s.tasks, t.phase = .done ∨ t.object ≠ a) ∧
    s.loop.object? ≠ some a

instance (s : Server) (a : ℕ) : Decidable (s.Unreferenced a) :=
  inferInstanceAs (Decidable (_ ∧ _ ∧ _))

def start (table : ℤ → Option File) : Server :=
  { table
    sockets := 0
    objects := fun _ ↦ none
    made := 0
    connections := []
    tasks := []
    loop := .idle
    writes := [] }

end Server

inductive Action
  | openOther (fd : ℤ)
  | closeOther (fd : ℤ)
  | accept (fd : ℤ)
  | setUp (nonblocking : Bool)
  | register (added : Bool)
  | hangUp (fd : ℤ)
  | readable (fd : ℤ)
  | read (r : ReadResult)
  | extract
  | begin (task : ℕ)
  | respond (task size : ℕ)
  | write (task : ℕ) (r : WriteResult)
  | finish (task : ℕ)
  | destroy (object : ℕ)

/-- `accept` to `register` are `HandleNewConnection`, `readable` to `extract`
are `HandleClientData`; `begin` to `finish` are the workers', `finish` also
for a task that is thrown away unrun, and `destroy` is `~Connection`. -/
def step (z : Zstd) (heap : Heap) (s : Server) : Action → Option Server
  | .openOther fd =>
      if s.table fd = none then
        some { s with table := Function.update s.table fd (some .other) }
      else none
  | .closeOther fd =>
      if s.table fd = some .other then
        some { s with table := Function.update s.table fd none }
      else none
  | .accept fd =>
      if s.loop = .idle ∧ 0 ≤ fd ∧ s.table fd = none then
        some
          { s with
            table := Function.update s.table fd (some (.client s.sockets))
            sockets := s.sockets + 1
            loop := .accepted fd s.sockets }
      else none
  | .setUp nonblocking =>
      match s.loop with
      | .accepted fd socket =>
          if nonblocking then
            some
              { (s.setObject s.made ⟨ofFd fd, socket, []⟩).addConnection fd s.made with
                made := s.made + 1
                loop := .registering fd s.made }
          else some { s with table := Function.update s.table fd none, loop := .idle }
      | _ => none
  | .register added =>
      match s.loop with
      | .registering fd _ =>
          some { (if added then s else s.removeConnection fd) with loop := .idle }
      | _ => none
  | .hangUp fd => if s.loop = .idle then some (s.removeConnection fd) else none
  | .readable fd =>
      if s.loop = .idle then
        match s.getConnection fd with
        | none => some (s.removeConnection fd)
        | some a =>
            match s.objects a with
            | none => none
            | some o =>
                if o.conn.state = .connected then some { s with loop := .reading fd a }
                else some (s.removeConnection fd)
      else none
  | .read r =>
      match s.loop with
      | .reading fd a =>
          match s.objects a with
          | none => none
          | some o =>
              let heard := o.heard ++ [s.table o.conn.fd]
              match o.conn.onRead r with
              | (conn, .next) => some (s.setObject a { o with conn, heard })
              | (conn, .done true) =>
                  some { s.setObject a { o with conn, heard } with loop := .extracting fd a }
              | (conn, .done false) =>
                  some
                    { (s.setObject a { o with conn, heard }).removeConnection fd with
                      loop := .idle }
      | _ => none
  | .extract =>
      match s.loop with
      | .extracting fd a =>
          match s.objects a with
          | none => none
          | some o =>
              match framePass z heap o.conn.readBuffer with
              | .dispatches request readBuffer =>
                  some
                    { s.setObject a { o with conn := { o.conn with readBuffer } } with
                      tasks := s.tasks ++ [⟨a, request, o.heard, .queued⟩] }
              | .waits _ => some { s with loop := .idle }
              | .removes => some { s.removeConnection fd with loop := .idle }
              | .throws _ => some { s with loop := .stopped }
      | _ => none
  | .begin i =>
      match s.tasks[i]? with
      | some ⟨a, request, heard, .queued⟩ =>
          some { s with tasks := s.tasks.set i ⟨a, request, heard, .running⟩ }
      | _ => none
  | .respond i size =>
      match s.tasks[i]? with
      | some ⟨a, request, heard, .running⟩ =>
          match s.objects a with
          | none => none
          | some o =>
              let phase := if o.conn.state = .connected ∧ 0 < size then .writing size 0 else .done
              some { s with tasks := s.tasks.set i ⟨a, request, heard, phase⟩ }
      | _ => none
  | .write i r =>
      match s.tasks[i]? with
      | some ⟨a, request, heard, .writing size sent⟩ =>
          match s.objects a with
          | none => none
          | some o =>
              let (conn, sent, loop) := o.conn.onWrite size sent r
              let phase := if loop = .next then .writing size sent else .done
              some
                { s.setObject a { o with conn } with
                  tasks := s.tasks.set i ⟨a, request, heard, phase⟩
                  writes := s.writes ++ [⟨heard, s.table o.conn.fd⟩] }
      | _ => none
  | .finish i =>
      match s.tasks[i]? with
      | some task => some { s with tasks := s.tasks.set i { task with phase := .done } }
      | none => none
  | .destroy a =>
      match s.objects a with
      | none => none
      | some o =>
          if s.Unreferenced a then
            some
              { s with
                table := if 0 ≤ o.conn.fd then Function.update s.table o.conn.fd none else s.table
                objects := Function.update s.objects a none }
          else none

/-! ## The invariant -/

/-- What a request was read from was this socket, each time and at least once. -/
def HeardFrom (heard : List (Option File)) (socket : ℕ) : Prop :=
  heard ≠ [] ∧ ∀ file ∈ heard, file = some (.client socket)

/-- Live objects own distinct open descriptors, each that of its own socket,
and the map leads from a number to the object that owns it. -/
structure Owned (s : Server) : Prop where
  opened : ∀ a o, s.objects a = some o → s.table o.conn.fd = some (.client o.socket)
  distinct : ∀ a b o o', s.objects a = some o → s.objects b = some o' →
    o.conn.fd = o'.conn.fd → a = b
  entry : ∀ fd a, (fd, a) ∈ s.connections → ∃ o, s.objects a = some o ∧ o.conn.fd = fd

structure Inv (s : Server) : Prop extends Owned s where
  unmade : ∀ a, s.made ≤ a → s.objects a = none
  heard : ∀ a o, s.objects a = some o → (∀ file ∈ o.heard, file = some (.client o.socket)) ∧
    (o.conn.readBuffer ≠ [] → o.heard ≠ [])
  task : ∀ task ∈ s.tasks, task.phase ≠ .done →
    ∃ o, s.objects task.object = some o ∧ HeardFrom task.heard o.socket
  accepted : ∀ fd n, s.loop = .accepted fd n → s.table fd = some (.client n) ∧
    ∀ a o, s.objects a = some o → o.conn.fd ≠ fd
  held : ∀ a, s.loop.object? = some a → ∃ o, s.objects a = some o
  writes : ∀ w ∈ s.writes, ∃ n, w.file = some (.client n) ∧ HeardFrom w.heard n

variable {z : Zstd} {heap : Heap} {s t : Server}

theorem mem_addConnection {fd fd' : ℤ} {a b : ℕ}
    (h : (fd', b) ∈ (s.addConnection fd a).connections) :
    (fd', b) = (fd, a) ∨ (fd', b) ∈ s.connections := by
  rcases List.mem_cons.mp h with heq | hmem
  · exact .inl heq
  · exact .inr (List.mem_filter.mp hmem).1

theorem getConnection_mem {fd : ℤ} {a : ℕ} (h : s.getConnection fd = some a) :
    (fd, a) ∈ s.connections := by
  obtain ⟨e, hfind, rfl⟩ := Option.map_eq_some_iff.mp h
  have hfd : e.1 = fd := by simpa using List.find?_some hfind
  have hmem := List.mem_of_find?_eq_some hfind
  rwa [← hfd]

theorem inv_start (table : ℤ → Option File) : Inv (.start table) where
  opened _ _ h := by cases h
  distinct _ _ _ _ h := by cases h
  entry _ _ h := by cases h
  unmade _ _ := rfl
  heard _ _ h := by cases h
  task _ h := by cases h
  accepted _ _ h := by cases h
  held _ h := by cases h
  writes _ h := by cases h

/-- Dropping an entry of the map takes nothing from the objects. -/
theorem inv_removeConnection (h : Inv s) (fd : ℤ) : Inv (s.removeConnection fd) :=
  { h with entry := fun fd' a hmem ↦ h.entry fd' a (List.mem_filter.mp hmem).1 }

/-- The event loop may let go of everything it holds. -/
theorem inv_release {loop : Loop} (h : Inv s) (hloop : loop = .idle ∨ loop = .stopped) :
    Inv { s with loop } := by
  refine { h with accepted := fun fd n haccepted ↦ ?_, held := fun a ha ↦ ?_ }
  · rcases hloop with rfl | rfl <;> cases haccepted
  · rcases hloop with rfl | rfl <;> cases ha

/-- The event loop may hold on to a live object. -/
theorem inv_hold {a : ℕ} {o : Object} {loop : Loop} (h : Inv s) (ho : s.objects a = some o)
    (hloop : loop.object? = some a) : Inv { s with loop } := by
  refine { h with accepted := fun fd n haccepted ↦ ?_, held := fun b hb ↦ ?_ }
  · obtain rfl : loop = .accepted fd n := haccepted
    cases hloop
  · obtain rfl : a = b := Option.some.inj (hloop.symm.trans hb)
    exact ⟨o, ho⟩

/-- An object may change, as long as it keeps its descriptor and its socket. -/
theorem inv_setObject {a : ℕ} {o o' : Object} (h : Inv s) (ho : s.objects a = some o)
    (hfd : o'.conn.fd = o.conn.fd) (hsocket : o'.socket = o.socket)
    (hheard : (∀ file ∈ o'.heard, file = some (.client o'.socket)) ∧
      (o'.conn.readBuffer ≠ [] → o'.heard ≠ [])) : Inv (s.setObject a o') := by
  have hcases : ∀ b p, (s.setObject a o').objects b = some p →
      ∃ q, s.objects b = some q ∧ p.conn.fd = q.conn.fd ∧ p.socket = q.socket := by
    intro b p hp
    by_cases hb : b = a
    · subst hb
      obtain rfl : o' = p := by simpa [Server.setObject] using hp
      exact ⟨o, ho, hfd, hsocket⟩
    · exact ⟨p, by simpa [Server.setObject, hb] using hp, rfl, rfl⟩
  have hkept : ∀ b q, s.objects b = some q →
      ∃ p, (s.setObject a o').objects b = some p ∧ p.conn.fd = q.conn.fd ∧
        p.socket = q.socket := by
    intro b q hq
    by_cases hb : b = a
    · subst hb
      obtain rfl : o = q := Option.some.inj (ho.symm.trans hq)
      exact ⟨o', by simp [Server.setObject], hfd, hsocket⟩
    · exact ⟨q, by simpa [Server.setObject, hb] using hq, rfl, rfl⟩
  refine ⟨⟨?_, ?_, ?_⟩, ?_, ?_, ?_, ?_, ?_, h.writes⟩
  · intro b p hp
    obtain ⟨q, hq, hfd', hsocket'⟩ := hcases b p hp
    rw [hfd', hsocket']
    exact h.opened b q hq
  · intro b c p p' hp hp' hsame
    obtain ⟨q, hq, hfd₁, -⟩ := hcases b p hp
    obtain ⟨q', hq', hfd₂, -⟩ := hcases c p' hp'
    exact h.distinct b c q q' hq hq' (hfd₁.symm.trans (hsame.trans hfd₂))
  · intro fd b hmem
    obtain ⟨q, hq, hfd'⟩ := h.entry fd b hmem
    obtain ⟨p, hp, hpq, -⟩ := hkept b q hq
    exact ⟨p, hp, hpq.trans hfd'⟩
  · intro b hb
    have hne : b ≠ a := by
      rintro rfl
      rw [h.unmade b hb] at ho
      cases ho
    simpa [Server.setObject, hne] using h.unmade b hb
  · intro b p hp
    by_cases hb : b = a
    · subst hb
      obtain rfl : o' = p := by simpa [Server.setObject] using hp
      exact hheard
    · exact h.heard b p (by simpa [Server.setObject, hb] using hp)
  · intro task hmem hphase
    obtain ⟨q, hq, hfrom⟩ := h.task task hmem hphase
    obtain ⟨p, hp, -, hpq⟩ := hkept _ q hq
    exact ⟨p, hp, hpq ▸ hfrom⟩
  · intro fd n hloop
    obtain ⟨htable, hother⟩ := h.accepted fd n hloop
    refine ⟨htable, fun b p hp ↦ ?_⟩
    obtain ⟨q, hq, hfd', -⟩ := hcases b p hp
    rw [hfd']
    exact hother b q hq
  · intro b hb
    obtain ⟨q, hq⟩ := h.held b hb
    obtain ⟨p, hp, -⟩ := hkept b q hq
    exact ⟨p, hp⟩

/-- The kernel's table may change at a number that no object owns and that was
not just accepted. -/
theorem inv_table {fd : ℤ} {file : Option File} (h : Inv s)
    (hother : ∀ a o, s.objects a = some o → o.conn.fd ≠ fd)
    (haccepted : ∀ n, s.loop ≠ .accepted fd n) :
    Inv { s with table := Function.update s.table fd file } where
  opened a o ho := (Function.update_of_ne (hother a o ho) _ _).trans (h.opened a o ho)
  distinct := h.distinct
  entry := h.entry
  unmade := h.unmade
  heard := h.heard
  task := h.task
  accepted fd' n hloop := by
    obtain ⟨htable, hrest⟩ := h.accepted fd' n hloop
    have hne : fd' ≠ fd := by
      rintro rfl
      exact haccepted n hloop
    exact ⟨(Function.update_of_ne hne _ _).trans htable, hrest⟩
  held := h.held
  writes := h.writes

theorem inv_tasks {tasks : List Task} (h : Inv s)
    (htasks : ∀ task ∈ tasks, task.phase ≠ .done →
      ∃ o, s.objects task.object = some o ∧ HeardFrom task.heard o.socket) :
    Inv { s with tasks } :=
  { h with task := htasks }

/-- A task that moves on keeps its object and what it was read from. -/
theorem inv_setTask {i : ℕ} {task : Task} {phase : TaskPhase} (h : Inv s)
    (htask : s.tasks[i]? = some task) (hphase : task.phase ≠ .done ∨ phase = .done) :
    Inv { s with tasks := s.tasks.set i { task with phase } } := by
  refine inv_tasks h fun task' hmem hdone ↦ ?_
  rcases List.mem_or_eq_of_mem_set hmem with hold | rfl
  · exact h.task task' hold hdone
  · have hnot := hphase.resolve_right hdone
    exact h.task task (List.mem_of_getElem? htask) hnot

/-! ## The steps -/

theorem onRead_fd (self : Connection) (r : ReadResult) : (self.onRead r).1.fd = self.fd := by
  cases r with
  | bytes buf =>
      simp only [onRead]
      split
      · rfl
      · split <;> rfl
  | endOfStream | again | error => rfl

theorem onWrite_keeps (self : Connection) (size sent : ℕ) (r : WriteResult) :
    (self.onWrite size sent r).1.fd = self.fd ∧
      (self.onWrite size sent r).1.readBuffer = self.readBuffer := by
  cases r <;> exact ⟨rfl, rfl⟩

theorem inv_accept {fd : ℤ} (h : Inv s) (hloop : s.loop = .idle) (hfree : s.table fd = none) :
    Inv { s with
      table := Function.update s.table fd (some (.client s.sockets))
      sockets := s.sockets + 1
      loop := .accepted fd s.sockets } := by
  have hother : ∀ a o, s.objects a = some o → o.conn.fd ≠ fd := by
    rintro a o ho rfl
    rw [h.opened a o ho] at hfree
    cases hfree
  have htable : Inv { s with table := Function.update s.table fd (some (.client s.sockets)) } :=
    inv_table h hother (by simp [hloop])
  refine { htable with accepted := ?_, held := ?_ }
  · intro fd' n hfd'
    cases hfd'
    exact ⟨Function.update_self .., hother⟩
  · intro a ha
    cases ha

theorem inv_create {fd : ℤ} {socket : ℕ} (h : Inv s) (hloop : s.loop = .accepted fd socket) :
    Inv { (s.setObject s.made ⟨ofFd fd, socket, []⟩).addConnection fd s.made with
      made := s.made + 1
      loop := .registering fd s.made } := by
  obtain ⟨htable, hother⟩ := h.accepted fd socket hloop
  have hnew : s.objects s.made = none := h.unmade s.made le_rfl
  have hcases : ∀ a o, (s.setObject s.made ⟨ofFd fd, socket, []⟩).objects a = some o →
      a = s.made ∧ o = ⟨ofFd fd, socket, []⟩ ∨ s.objects a = some o := by
    intro a o ho
    by_cases ha : a = s.made
    · subst ha
      exact .inl ⟨rfl, by simpa [Server.setObject, eq_comm] using ho⟩
    · exact .inr (by simpa [Server.setObject, ha] using ho)
  have hkept : ∀ a o, s.objects a = some o →
      (s.setObject s.made ⟨ofFd fd, socket, []⟩).objects a = some o := by
    intro a o ho
    have ha : a ≠ s.made := by
      rintro rfl
      rw [hnew] at ho
      cases ho
    simpa [Server.setObject, ha] using ho
  refine ⟨⟨?_, ?_, ?_⟩, ?_, ?_, ?_, ?_, ?_, h.writes⟩
  · intro a o ho
    rcases hcases a o ho with ⟨-, rfl⟩ | hold
    · exact htable
    · exact h.opened a o hold
  · intro a b o o' ho ho' hsame
    rcases hcases a o ho with ⟨rfl, rfl⟩ | hold <;> rcases hcases b o' ho' with ⟨rfl, rfl⟩ | hold'
    · rfl
    · exact absurd hsame.symm (hother b o' hold')
    · exact absurd hsame (hother a o hold)
    · exact h.distinct a b o o' hold hold' hsame
  · intro fd' a hmem
    rcases mem_addConnection hmem with heq | hold
    · obtain ⟨rfl, rfl⟩ := Prod.mk.inj heq
      exact ⟨⟨ofFd fd', socket, []⟩, Function.update_self .., rfl⟩
    · obtain ⟨o, ho, hfd⟩ := h.entry fd' a hold
      exact ⟨o, hkept a o ho, hfd⟩
  · intro a ha
    have hlt : s.made < a := ha
    exact (Function.update_of_ne hlt.ne' _ _).trans (h.unmade a hlt.le)
  · intro a o ho
    rcases hcases a o ho with ⟨-, rfl⟩ | hold
    · simp [ofFd]
    · exact h.heard a o hold
  · intro task hmem hphase
    obtain ⟨o, ho, hfrom⟩ := h.task task hmem hphase
    exact ⟨o, hkept _ o ho, hfrom⟩
  · intro fd' n hfd'
    cases hfd'
  · intro a ha
    cases ha
    exact ⟨_, Function.update_self ..⟩

theorem inv_read {a : ℕ} {o : Object} (r : ReadResult) (h : Inv s)
    (ho : s.objects a = some o) : Inv (s.setObject a
      { o with conn := (o.conn.onRead r).1, heard := o.heard ++ [s.table o.conn.fd] }) := by
  refine inv_setObject h ho (onRead_fd _ _) rfl ⟨fun file hfile ↦ ?_, fun _ ↦ by simp⟩
  rcases List.mem_append.mp hfile with hold | hnew
  · exact (h.heard a o ho).1 file hold
  · exact (List.mem_singleton.mp hnew).trans (h.opened a o ho)

theorem inv_dispatch {a : ℕ} {o : Object} {request : RpcRequest} {readBuffer : Bytes} (h : Inv s)
    (ho : s.objects a = some o)
    (hpass : framePass z heap o.conn.readBuffer = .dispatches request readBuffer) :
    Inv { s.setObject a { o with conn := { o.conn with readBuffer } } with
      tasks := s.tasks ++ [⟨a, request, o.heard, .queued⟩] } := by
  obtain ⟨hfrom, hsome⟩ := h.heard a o ho
  have hread : o.heard ≠ [] := by
    apply hsome
    apply List.ne_nil_of_length_pos
    exact (Nat.zero_le _).trans_lt (framePass_lt hpass)
  have hset : Inv (s.setObject a { o with conn := { o.conn with readBuffer } }) :=
    inv_setObject h ho rfl rfl ⟨hfrom, fun _ ↦ hread⟩
  refine inv_tasks hset fun task hmem hphase ↦ ?_
  rcases List.mem_append.mp hmem with hold | hnew
  · exact hset.task task hold hphase
  · rw [List.mem_singleton.mp hnew]
    exact ⟨_, Function.update_self .., hread, hfrom⟩

theorem inv_write {i a size sent : ℕ} {o : Object} {request : RpcRequest}
    {heard : List (Option File)} (r : WriteResult) (phase : TaskPhase) (h : Inv s)
    (htask : s.tasks[i]? = some ⟨a, request, heard, .writing size sent⟩)
    (ho : s.objects a = some o) :
    Inv { s.setObject a { o with conn := (o.conn.onWrite size sent r).1 } with
      tasks := s.tasks.set i ⟨a, request, heard, phase⟩
      writes := s.writes ++ [⟨heard, s.table o.conn.fd⟩] } := by
  obtain ⟨hfd, hbuffer⟩ := onWrite_keeps o.conn size sent r
  obtain ⟨hfrom, hsome⟩ := h.heard a o ho
  have hset : Inv (s.setObject a { o with conn := (o.conn.onWrite size sent r).1 }) :=
    inv_setObject h ho hfd rfl ⟨hfrom, fun hne ↦ hsome (hbuffer ▸ hne)⟩
  have hmoved : Inv { s.setObject a { o with conn := (o.conn.onWrite size sent r).1 } with
      tasks := s.tasks.set i ⟨a, request, heard, phase⟩ } :=
    inv_setTask hset htask (.inl (by simp))
  refine { hmoved with writes := fun w hw ↦ ?_ }
  rcases List.mem_append.mp hw with hold | hnew
  · exact h.writes w hold
  · obtain ⟨o', ho', hheard⟩ := h.task _ (List.mem_of_getElem? htask) (by simp)
    obtain rfl : o = o' := Option.some.inj (ho.symm.trans ho')
    rw [List.mem_singleton.mp hnew]
    exact ⟨o.socket, h.opened a o ho, hheard⟩

/-- The destructor frees a number that nobody is left to use. -/
theorem inv_destroy {a : ℕ} {o : Object} (h : Inv s) (ho : s.objects a = some o)
    (hfree : s.Unreferenced a) :
    Inv { s with
      table := if 0 ≤ o.conn.fd then Function.update s.table o.conn.fd none else s.table
      objects := Function.update s.objects a none } := by
  obtain ⟨hconnections, htasks, hloop⟩ := hfree
  have hcases : ∀ b p, Function.update s.objects a none b = some p →
      b ≠ a ∧ s.objects b = some p := by
    intro b p hp
    by_cases hb : b = a
    · subst hb
      simp at hp
    · exact ⟨hb, by simpa [hb] using hp⟩
  have hkept : ∀ b p, b ≠ a → s.objects b = some p →
      Function.update s.objects a none b = some p := by
    intro b p hb hp
    simpa [hb] using hp
  have htable : ∀ fd, fd ≠ o.conn.fd →
      (if 0 ≤ o.conn.fd then Function.update s.table o.conn.fd none else s.table) fd =
        s.table fd := by
    intro fd hfd
    split
    · exact Function.update_of_ne hfd _ _
    · rfl
  refine ⟨⟨?_, ?_, ?_⟩, ?_, ?_, ?_, ?_, ?_, h.writes⟩
  · intro b p hp
    obtain ⟨hb, hold⟩ := hcases b p hp
    have hne : p.conn.fd ≠ o.conn.fd := fun hsame ↦ hb (h.distinct b a p o hold ho hsame)
    exact (htable _ hne).trans (h.opened b p hold)
  · intro b c p q hp hq hsame
    exact h.distinct b c p q (hcases b p hp).2 (hcases c q hq).2 hsame
  · intro fd b hmem
    obtain ⟨p, hp, hfd⟩ := h.entry fd b hmem
    exact ⟨p, hkept b p (hconnections _ hmem) hp, hfd⟩
  · intro b hb
    by_cases hba : b = a
    · subst hba
      exact Function.update_self ..
    · exact (Function.update_of_ne hba _ _).trans (h.unmade b hb)
  · intro b p hp
    exact h.heard b p (hcases b p hp).2
  · intro task hmem hphase
    obtain ⟨p, hp, hfrom⟩ := h.task task hmem hphase
    exact ⟨p, hkept _ p ((htasks task hmem).resolve_left hphase) hp, hfrom⟩
  · intro fd n hfd
    obtain ⟨hopen, hother⟩ := h.accepted fd n hfd
    exact ⟨(htable fd (hother a o ho).symm).trans hopen,
      fun b p hp ↦ hother b p (hcases b p hp).2⟩
  · intro b hb
    obtain ⟨p, hp⟩ := h.held b hb
    have hne : b ≠ a := by
      rintro rfl
      exact hloop hb
    exact ⟨p, hkept b p hne hp⟩

theorem inv_setUp {nonblocking : Bool} (h : Inv s)
    (hstep : step z heap s (.setUp nonblocking) = some t) : Inv t := by
  simp only [step] at hstep
  split at hstep
  · rename_i fd socket hloop
    cases nonblocking with
    | true =>
        cases hstep
        exact inv_create h hloop
    | false =>
        cases hstep
        have hidle : Inv { s with loop := .idle } := inv_release h (.inl rfl)
        exact inv_table hidle (h.accepted fd socket hloop).2 (by simp)
  · cases hstep

theorem inv_readable {fd : ℤ} (h : Inv s) (hstep : step z heap s (.readable fd) = some t) :
    Inv t := by
  simp only [step, Option.ite_none_right_eq_some] at hstep
  obtain ⟨-, hstep⟩ := hstep
  split at hstep
  · cases hstep
    exact inv_removeConnection h fd
  · rename_i a hget
    obtain ⟨o, ho, -⟩ := h.entry fd a (getConnection_mem hget)
    simp only [ho] at hstep
    split at hstep <;> cases hstep
    · exact inv_hold h ho rfl
    · exact inv_removeConnection h fd

theorem inv_reading {r : ReadResult} (h : Inv s) (hstep : step z heap s (.read r) = some t) :
    Inv t := by
  simp only [step] at hstep
  split at hstep
  · rename_i fd a hloop
    split at hstep
    · cases hstep
    · rename_i o ho
      have hread := inv_read r h ho
      split at hstep <;> rename_i heq <;> cases hstep <;> rw [heq] at hread
      · exact hread
      · exact inv_hold hread (Function.update_self ..) rfl
      · exact inv_release (inv_removeConnection hread fd) (.inl rfl)
  · cases hstep

theorem inv_extract (h : Inv s) (hstep : step z heap s .extract = some t) : Inv t := by
  simp only [step] at hstep
  split at hstep
  · rename_i fd a hloop
    split at hstep
    · cases hstep
    · rename_i o ho
      split at hstep <;> cases hstep
      · rename_i hpass
        exact inv_dispatch h ho hpass
      · exact inv_release h (.inl rfl)
      · exact inv_release (inv_removeConnection h fd) (.inl rfl)
      · exact inv_release h (.inr rfl)
  · cases hstep

theorem inv_step {a : Action} (h : Inv s) (hstep : step z heap s a = some t) : Inv t := by
  cases a with
  | openOther fd =>
      simp only [step, Option.ite_none_right_eq_some, Option.some.injEq] at hstep
      obtain ⟨hfree, rfl⟩ := hstep
      apply inv_table h
      · rintro a o ho rfl
        simp [h.opened a o ho] at hfree
      · intro n hloop
        simp [(h.accepted fd n hloop).1] at hfree
  | closeOther fd =>
      simp only [step, Option.ite_none_right_eq_some, Option.some.injEq] at hstep
      obtain ⟨hother, rfl⟩ := hstep
      apply inv_table h
      · rintro a o ho rfl
        simp [h.opened a o ho] at hother
      · intro n hloop
        simp [(h.accepted fd n hloop).1] at hother
  | accept fd =>
      simp only [step, Option.ite_none_right_eq_some, Option.some.injEq] at hstep
      obtain ⟨⟨hloop, -, hfree⟩, rfl⟩ := hstep
      exact inv_accept h hloop hfree
  | setUp nonblocking => exact inv_setUp h hstep
  | register added =>
      simp only [step] at hstep
      split at hstep <;> cases hstep
      cases added with
      | true => exact inv_release h (.inl rfl)
      | false => exact inv_release (inv_removeConnection h _) (.inl rfl)
  | hangUp fd =>
      simp only [step, Option.ite_none_right_eq_some, Option.some.injEq] at hstep
      obtain ⟨-, rfl⟩ := hstep
      exact inv_removeConnection h fd
  | readable fd => exact inv_readable h hstep
  | read r => exact inv_reading h hstep
  | extract => exact inv_extract h hstep
  | begin i =>
      simp only [step] at hstep
      split at hstep <;> cases hstep
      rename_i htask
      exact inv_setTask h htask (.inl (by simp))
  | respond i size =>
      simp only [step] at hstep
      split at hstep
      · rename_i htask
        split at hstep <;> cases hstep
        exact inv_setTask h htask (.inl (by simp))
      · cases hstep
  | write i r =>
      simp only [step] at hstep
      split at hstep
      · rename_i htask
        split at hstep
        · cases hstep
        · rename_i ho
          cases hstep
          exact inv_write r _ h htask ho
      · cases hstep
  | finish i =>
      simp only [step] at hstep
      split at hstep <;> cases hstep
      rename_i htask
      exact inv_setTask h htask (.inr rfl)
  | destroy a =>
      simp only [step] at hstep
      split at hstep
      · cases hstep
      · rename_i o ho
        rw [Option.ite_none_right_eq_some, Option.some.injEq] at hstep
        obtain ⟨hfree, rfl⟩ := hstep
        exact inv_destroy h ho hfree

/-- **No answer reaches the wrong client.**  However numbers are reused, live
connections own distinct open descriptors, the map leads to their owners, and
every `write(2)` for a request goes to the socket the request was read from. -/
theorem owned_run {table : ℤ → Option File} {trace : List (Server × Action)} {last : Server}
    (hrun : Run (step z heap) (.start table) trace last) :
    Owned last ∧ ∀ w ∈ last.writes, ∃ n, w.file = some (.client n) ∧ HeardFrom w.heard n := by
  have hinv : Inv last :=
    hrun.invariant Inv (inv_start table) fun _ _ _ _ h hstep ↦ inv_step h hstep
  exact ⟨hinv.toOwned, hinv.writes⟩

def standardFiles (fd : ℤ) : Option File :=
  if 0 ≤ fd ∧ fd < 3 then some .other else none

/-- The first client's connection is removed, and a second client accepted,
while its request is queued; the number 3 goes to a third client after the
answer. -/
def reused : List Action :=
  [.accept 3, .setUp true, .register true, .readable 3, .read (.bytes Message.pingWire), .extract,
    .extract, .hangUp 3, .accept 4, .setUp true, .register true, .begin 0, .respond 0 96,
    .write 0 (.wrote 96), .destroy 0, .accept 3]

def reusedRun : List (Server × Action) × Server :=
  executed (step StoredFrames.stored StoredFrames.gibibyteHeap) (.start standardFiles) reused

theorem owned_run_reused :
    reusedRun.2.writes = [⟨[some (.client 0)], some (.client 0)⟩] ∧
      reusedRun.2.table 3 = some (.client 2) ∧ Owned reusedRun.2 := by
  have hrun : Run (step StoredFrames.stored StoredFrames.gibibyteHeap) (.start standardFiles)
      reusedRun.1 reusedRun.2 :=
    Run.of_isSome (by decide +kernel)
  exact ⟨by decide +kernel, by decide +kernel, (owned_run hrun).1⟩

end MyRpc.Descriptors
