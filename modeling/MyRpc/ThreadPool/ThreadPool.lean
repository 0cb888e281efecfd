import Mathlib

/-!
# `ThreadPool`

A pool is shared by its workers and by the threads that call its functions.
Every thread is at one of the places where the code touches something shared,
and a step moves one thread to its next place.  What is done under
`queue_mutex` without letting go of it is one step, unless `state_`, which
`pause`, `resume` and `shutdown` change without the mutex, or a sleep on a
condition variable divides it.

A thread that was notified, has timed out or was woken for no reason is no
longer in the wait set of its condition variable: it is on its way to the
mutex.  That the time of a wait is over is a choice of the step.
-/

namespace MyRpc.ThreadPool

inductive TaskPriority
  | low
  | normal
  | high
  deriving DecidableEq, Repr

def TaskPriority.toNat : TaskPriority → ℕ
  | low => 0
  | normal => 1
  | high => 2

inductive ThreadPoolState
  | running
  | paused
  | shuttingDown
  | stopped
  deriving DecidableEq, Repr

structure ThreadPoolStruct where
  coreThreads : ℕ
  maxThreads : ℕ
  maxQueueSize : ℕ
  deriving DecidableEq, Repr

inductive Outcome
  | returned
  | threw
  deriving DecidableEq, Repr

/-- `(*task)()`: what its future will report, and how the call itself ends. -/
def packagedTask (callable : Outcome) : Outcome × Outcome := (callable, .returned)

/-- A task, named by the number of tasks accepted before it. -/
structure TaskWrapper where
  task : ℕ
  priority : TaskPriority
  callable : Outcome
  deriving DecidableEq, Repr

/-- Where a worker is in the loop of `worker_thread`.  From `sleeping`,
`acting` and `popping` it holds the mutex. -/
inductive Worker
  | locking (timedOut : Bool)
  | sleeping
  | asleep
  | acting (hasTask : Bool)
  | popping
  | popped (taskWrapper : TaskWrapper)
  | running (taskWrapper : TaskWrapper)
  | completed
  | checkState
  | checkActive
  | checkEmpty
  | notifying
  | retired
  | exited
  deriving DecidableEq, Repr

/-- A call of `enqueue`: in `locking` it was `woken` or has just begun, in
`asleep` it waits for `not_full_condition_`, in `signalling` it has pushed its
task and not yet called `notify_one`. -/
inductive Enqueue
  | locking (woken : Bool)
  | asleep
  | signalling (task : ℕ)
  | returned (task : Option ℕ)
  deriving DecidableEq, Repr

/-- A call of `pause` or `resume`: before the exchange, or between it and
`notify_all`. -/
inductive Exchange
  | exchanging
  | notifying
  | returned
  deriving DecidableEq, Repr

/-- A call of `shutdown`.  It answers from `state_` alone if its exchange has
failed; `returned` says whether it had succeeded. -/
inductive Shutdown
  | exchanging
  | answering
  | announcing
  | locking (timedOut : Bool)
  | sleeping
  | asleep
  | notifying
  | joining
  | returned (moved ok : Bool)
  deriving DecidableEq, Repr

inductive StopNow
  | locking
  | notifying
  | joining
  | returned
  deriving DecidableEq, Repr

/-- A thread inside a call of one of the functions of the pool. -/
inductive Caller
  | enqueue (priority : TaskPriority) (callable : Outcome) (pc : Enqueue)
  | pause (pc : Exchange)
  | resume (pc : Exchange)
  | shutdown (pc : Shutdown)
  | stopNow (pc : StopNow)
  deriving DecidableEq, Repr

/-- The pool, its threads, and behind them what has become of the tasks:
how many were accepted, and which were taken out of the queue, executed to
their end, and thrown away. -/
structure Pool where
  stop : Bool
  state : ThreadPoolState
  tasks : List TaskWrapper
  currentThreads : ℕ
  activeThreads : ℕ
  tasksCompleted : ℕ
  tasksFailed : ℕ
  workers : List Worker
  callers : List Caller
  accepted : ℕ
  dequeued : List TaskWrapper
  finished : List TaskWrapper
  discarded : List TaskWrapper
  deriving DecidableEq, Repr

/-- A pool that has just been constructed. -/
def Pool.start (config : ThreadPoolStruct) : Pool :=
  { stop := false
    state := .running
    tasks := []
    currentThreads := config.coreThreads
    activeThreads := 0
    tasksCompleted := 0
    tasksFailed := 0
    workers := List.replicate config.coreThreads (.locking false)
    callers := []
    accepted := 0
    dequeued := []
    finished := []
    discarded := [] }

def Worker.holdsMutex : Worker → Bool
  | sleeping | acting _ | popping => true
  | _ => false

def Caller.holdsMutex : Caller → Bool
  | shutdown .sleeping => true
  | _ => false

namespace Pool

def locked (s : Pool) : Bool :=
  s.workers.any Worker.holdsMutex || s.callers.any Caller.holdsMutex

def setWorker (s : Pool) (i : ℕ) (w : Worker) : Pool := { s with workers := s.workers.set i w }

def setCaller (s : Pool) (i : ℕ) (c : Caller) : Pool := { s with callers := s.callers.set i c }

end Pool

/-! ## The two condition variables -/

/-- Who waits for `condition_`: workers, and callers of `shutdown`. -/
inductive Waiter
  | worker (i : ℕ)
  | caller (i : ℕ)
  deriving DecidableEq, Repr

def Caller.waitsNotFull : Caller → Bool
  | enqueue _ _ .asleep => true
  | _ => false

def Worker.woken : Worker → Worker
  | asleep => locking false
  | w => w

def Caller.woken : Caller → Caller
  | shutdown .asleep => shutdown (.locking false)
  | c => c

namespace Pool

/-- `condition_.notify_all()`. -/
def notifyAll (s : Pool) : Pool :=
  { s with
    workers := s.workers.map Worker.woken
    callers := s.callers.map Caller.woken }

/-- `condition_.notify_one()` wakes one waiter, if there is one. -/
def notifyOne (s : Pool) : Option Waiter → Option Pool
  | none => if .asleep ∉ s.workers ∧ .shutdown .asleep ∉ s.callers then some s else none
  | some (.worker i) =>
      if s.workers[i]? = some .asleep then some (s.setWorker i (.locking false)) else none
  | some (.caller i) =>
      if s.callers[i]? = some (.shutdown .asleep) then
        some (s.setCaller i (.shutdown (.locking false)))
      else none

/-- `not_full_condition_.notify_one()`. -/
def notifyNotFull (s : Pool) : Option ℕ → Option Pool
  | none => if s.callers.any Caller.waitsNotFull then none else some s
  | some i =>
      match s.callers[i]? with
      | some (.enqueue priority callable .asleep) =>
          some (s.setCaller i (.enqueue priority callable (.locking true)))
      | _ => none

/-! ## `worker_thread` -/

/-- The predicate of `condition_.wait_for`. -/
def workerReady (s : Pool) : Bool :=
  s.stop || (s.state = .running && !s.tasks.isEmpty) ||
    (s.state = .shuttingDown && !s.tasks.isEmpty)

/-- No queued task has a higher priority than `t`. -/
def IsTop (s : Pool) (t : TaskWrapper) : Prop :=
  ∀ u ∈ s.tasks, u.priority.toNat ≤ t.priority.toNat

instance (s : Pool) (t : TaskWrapper) : Decidable (s.IsTop t) :=
  inferInstanceAs (Decidable (∀ u ∈ s.tasks, _))

end Pool

inductive WorkerAction
  | test
  | sleep
  | wake (timedOut : Bool)
  | act (elapsed : Bool)
  | skip
  | take (k : ℕ) (woken : Option ℕ)
  | begin
  | finish
  | decrement
  | check
  | notify
  deriving DecidableEq, Repr

/-- `test` to `take` are the critical section, with the wait in it; `act` is
what stands between the wait and the queue, and `take` takes the element at
`k`, one that `tasks_.top()` may be. -/
def stepWorker (config : ThreadPoolStruct) (s : Pool) (i : ℕ) :
    Worker → WorkerAction → Option Pool
  | .locking timedOut, .test =>
      if s.locked then none
      else if s.workerReady then some (s.setWorker i (.acting true))
      else if timedOut then some (s.setWorker i (.acting false))
      else some (s.setWorker i .sleeping)
  | .sleeping, .sleep => some (s.setWorker i .asleep)
  | .asleep, .wake timedOut => some (s.setWorker i (.locking timedOut))
  | .acting hasTask, .act elapsed =>
      if hasTask = false ∧ config.coreThreads < s.currentThreads ∧ elapsed = true then
        some { s.setWorker i .retired with currentThreads := s.currentThreads - 1 }
      else if (s.stop = true ∨ s.state = .stopped) ∧ s.tasks = [] then
        some (s.setWorker i .exited)
      else if s.state = .paused then some (s.setWorker i (.locking false))
      else some (s.setWorker i .popping)
  | .popping, .skip => if s.tasks = [] then some (s.setWorker i (.locking false)) else none
  | .popping, .take k woken =>
      match s.tasks[k]? with
      | none => none
      | some t =>
          if s.IsTop t then
            let s : Pool :=
              { s.setWorker i (.popped t) with
                tasks := s.tasks.eraseIdx k
                dequeued := s.dequeued ++ [t] }
            if 0 < config.maxQueueSize ∧ s.tasks.length < config.maxQueueSize then
              s.notifyNotFull woken
            else if woken = none then some s
            else none
          else none
  | .popped t, .begin =>
      some { s.setWorker i (.running t) with activeThreads := s.activeThreads + 1 }
  | .running t, .finish =>
      some
        { s.setWorker i .completed with
          tasksCompleted :=
            if (packagedTask t.callable).2 = .returned then s.tasksCompleted + 1
            else s.tasksCompleted
          tasksFailed :=
            if (packagedTask t.callable).2 = .threw then s.tasksFailed + 1 else s.tasksFailed
          finished := s.finished ++ [t] }
  | .completed, .decrement =>
      some { s.setWorker i .checkState with activeThreads := s.activeThreads - 1 }
  | .checkState, .check =>
      some (s.setWorker i (if s.state = .shuttingDown then .checkActive else .locking false))
  | .checkActive, .check =>
      some (s.setWorker i (if s.activeThreads = 0 then .checkEmpty else .locking false))
  | .checkEmpty, .check =>
      some (s.setWorker i (if s.tasks = [] then .notifying else .locking false))
  | .notifying, .notify => some (s.setWorker i (.locking false)).notifyAll
  | _, _ => none

/-! ## The functions of the pool -/

/-- `adjust_thread_count`; `created` is whether the thread could be made. -/
def adjustThreadCount (config : ThreadPoolStruct) (s : Pool) (created : Bool) : Pool :=
  if s.currentThreads < config.maxThreads ∧ s.activeThreads < s.tasks.length ∧ created = true then
    { s with
      currentThreads := s.currentThreads + 1
      workers := s.workers ++ [.locking false] }
  else s

/-- `tasks_.emplace`. -/
def Pool.push (s : Pool) (priority : TaskPriority) (callable : Outcome) : Pool :=
  { s with
    tasks := s.tasks ++ [⟨s.accepted, priority, callable⟩]
    accepted := s.accepted + 1 }

inductive CallerAction
  | offer (created : Bool)
  | wake (timedOut : Bool)
  | signal (woken : Option Waiter)
  | exchange
  | notify
  | answer
  | test
  | sleep
  | clear
  | join
  deriving DecidableEq, Repr

/-- `offer` is the critical section of `enqueue` up to the end or to the next
sleep. -/
def stepEnqueue (config : ThreadPoolStruct) (s : Pool) (i : ℕ) (priority : TaskPriority)
    (callable : Outcome) : Enqueue → CallerAction → Option Pool
  | .locking _, .offer created =>
      if s.locked then none
      else if s.stop then some (s.setCaller i (.enqueue priority callable (.returned none)))
      else if 0 < config.maxQueueSize ∧ config.maxQueueSize ≤ s.tasks.length then
        some (s.setCaller i (.enqueue priority callable .asleep))
      else
        some (adjustThreadCount config
          ((s.setCaller i (.enqueue priority callable (.signalling s.accepted))).push priority
            callable) created)
  | .asleep, .wake _ => some (s.setCaller i (.enqueue priority callable (.locking true)))
  | .signalling task, .signal woken =>
      (s.setCaller i (.enqueue priority callable (.returned (some task)))).notifyOne woken
  | _, _ => none

def stepPause (s : Pool) (i : ℕ) : Exchange → CallerAction → Option Pool
  | .exchanging, .exchange =>
      if s.state = .running then some { s.setCaller i (.pause .notifying) with state := .paused }
      else some (s.setCaller i (.pause .returned))
  | .notifying, .notify => some (s.setCaller i (.pause .returned)).notifyAll
  | _, _ => none

def stepResume (s : Pool) (i : ℕ) : Exchange → CallerAction → Option Pool
  | .exchanging, .exchange =>
      if s.state = .paused then some { s.setCaller i (.resume .notifying) with state := .running }
      else some (s.setCaller i (.resume .returned))
  | .notifying, .notify => some (s.setCaller i (.resume .returned)).notifyAll
  | _, _ => none

/-- `joinable` workers have come to their end. -/
def Pool.joined (s : Pool) : Prop := ∀ w ∈ s.workers, w = .retired ∨ w = .exited

instance (s : Pool) : Decidable s.joined := inferInstanceAs (Decidable (∀ w ∈ s.workers, _))

/-- `test` is the predicate of `shutdown`'s wait, and what is done under the
same lock when it holds or the time is over. -/
def stepShutdown (s : Pool) (i : ℕ) : Shutdown → CallerAction → Option Pool
  | .exchanging, .exchange =>
      if s.state = .running then
        some { s.setCaller i (.shutdown .announcing) with state := .shuttingDown }
      else some (s.setCaller i (.shutdown .answering))
  | .answering, .answer =>
      some (s.setCaller i (.shutdown (.returned false (s.state = .stopped))))
  | .announcing, .notify => some (s.setCaller i (.shutdown (.locking false))).notifyAll
  | .locking timedOut, .test =>
      if s.locked then none
      else if s.tasks = [] ∧ s.activeThreads = 0 then
        some { s.setCaller i (.shutdown .notifying) with
          state := .stopped
          stop := true }
      else if timedOut then some (s.setCaller i (.shutdown (.returned true false)))
      else some (s.setCaller i (.shutdown .sleeping))
  | .sleeping, .sleep => some (s.setCaller i (.shutdown .asleep))
  | .asleep, .wake timedOut => some (s.setCaller i (.shutdown (.locking timedOut)))
  | .notifying, .notify => some (s.setCaller i (.shutdown .joining)).notifyAll
  | .joining, .join =>
      if s.joined then some (s.setCaller i (.shutdown (.returned true true))) else none
  | _, _ => none

/-- `clear` is the critical section of `stop_now`. -/
def stepStopNow (s : Pool) (i : ℕ) : StopNow → CallerAction → Option Pool
  | .locking, .clear =>
      if s.locked then none
      else
        some { s.setCaller i (.stopNow .notifying) with
          state := .stopped
          stop := true
          tasks := []
          discarded := s.discarded ++ s.tasks }
  | .notifying, .notify => some (s.setCaller i (.stopNow .joining)).notifyAll
  | .joining, .join => if s.joined then some (s.setCaller i (.stopNow .returned)) else none
  | _, _ => none

def stepCaller (config : ThreadPoolStruct) (s : Pool) (i : ℕ) :
    Caller → CallerAction → Option Pool
  | .enqueue priority callable pc => stepEnqueue config s i priority callable pc
  | .pause pc => stepPause s i pc
  | .resume pc => stepResume s i pc
  | .shutdown pc => stepShutdown s i pc
  | .stopNow pc => stepStopNow s i pc

inductive Call
  | enqueue (priority : TaskPriority) (callable : Outcome)
  | pause
  | resume
  | shutdown
  | stopNow
  deriving DecidableEq, Repr

def Call.begin : Call → Caller
  | enqueue priority callable => .enqueue priority callable (.locking false)
  | pause => .pause .exchanging
  | resume => .resume .exchanging
  | shutdown => .shutdown .exchanging
  | stopNow => .stopNow .locking

inductive Action
  | call (c : Call)
  | worker (i : ℕ) (a : WorkerAction)
  | caller (i : ℕ) (a : CallerAction)
  deriving DecidableEq, Repr

def step (config : ThreadPoolStruct) (s : Pool) : Action → Option Pool
  | .call c => some { s with callers := s.callers ++ [c.begin] }
  | .worker i a => s.workers[i]?.bind fun w ↦ stepWorker config s i w a
  | .caller i a => s.callers[i]?.bind fun c ↦ stepCaller config s i c a

end MyRpc.ThreadPool
