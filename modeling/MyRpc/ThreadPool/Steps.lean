import MyRpc.Library.PartialRun
import MyRpc.Library.Slots
import MyRpc.ThreadPool.ThreadPool

/-!
# What a step of the pool does

The step functions are partial and branch on what they find.  Here every
branch has a name, says what it requires, and says what it leads to; all that
is proved about runs of the pool is proved by cases on these.
-/

namespace MyRpc.ThreadPool

open PartialRun

variable {config : ThreadPoolStruct} {s t : Pool}

/-- A waking changes nothing that is the same for the sleeper and the woken. -/
theorem Worker.apply_woken {β : Type*} {f : Worker → β} (hf : f (.locking false) = f .asleep)
    (w : Worker) : f w.woken = f w := by
  cases w with
  | asleep => exact hf
  | _ => rfl

theorem Caller.apply_woken {β : Type*} {f : Caller → β}
    (hf : f (.shutdown (.locking false)) = f (.shutdown .asleep)) (c : Caller) :
    f c.woken = f c := by
  cases c with
  | shutdown pc =>
      cases pc with
      | asleep => exact hf
      | _ => rfl
  | _ => rfl

namespace Pool

@[simp] theorem setWorker_workers (s : Pool) (i : ℕ) (w : Worker) :
    (s.setWorker i w).workers = s.workers.set i w := rfl

@[simp] theorem setCaller_callers (s : Pool) (i : ℕ) (c : Caller) :
    (s.setCaller i c).callers = s.callers.set i c := rfl

/-- `notify_one` finds nobody asleep, or wakes a worker or a caller of `shutdown`. -/
inductive NotifiedOne (s : Pool) : Pool → Prop
  | nobody : .asleep ∉ s.workers → .shutdown .asleep ∉ s.callers → NotifiedOne s s
  | worker {i : ℕ} : s.workers[i]? = some .asleep → NotifiedOne s (s.setWorker i (.locking false))
  | caller {i : ℕ} : s.callers[i]? = some (.shutdown .asleep) →
      NotifiedOne s (s.setCaller i (.shutdown (.locking false)))

theorem notifiedOne {woken : Option Waiter} (h : s.notifyOne woken = some t) :
    NotifiedOne s t := by
  cases woken with
  | none =>
      simp only [notifyOne, Option.ite_none_right_eq_some, Option.some.injEq] at h
      obtain ⟨⟨hworkers, hcallers⟩, rfl⟩ := h
      exact .nobody hworkers hcallers
  | some waiter =>
      cases waiter with
      | worker i =>
          simp only [notifyOne, Option.ite_none_right_eq_some, Option.some.injEq] at h
          obtain ⟨hasleep, rfl⟩ := h
          exact .worker hasleep
      | caller i =>
          simp only [notifyOne, Option.ite_none_right_eq_some, Option.some.injEq] at h
          obtain ⟨hasleep, rfl⟩ := h
          exact .caller hasleep

inductive NotifiedNotFull (s : Pool) : Pool → Prop
  | nobody : (∀ c ∈ s.callers, c.waitsNotFull = false) → NotifiedNotFull s s
  | caller {i : ℕ} {priority : TaskPriority} {callable : Outcome} :
      s.callers[i]? = some (.enqueue priority callable .asleep) →
        NotifiedNotFull s (s.setCaller i (.enqueue priority callable (.locking true)))

theorem notifiedNotFull {woken : Option ℕ} (h : s.notifyNotFull woken = some t) :
    NotifiedNotFull s t := by
  cases woken with
  | none =>
      simp only [notifyNotFull, Option.ite_none_left_eq_some, Option.some.injEq] at h
      obtain ⟨hnobody, rfl⟩ := h
      exact .nobody (by simpa using hnobody)
  | some i =>
      simp only [notifyNotFull] at h
      split at h <;> cases h
      rename_i hasleep
      exact .caller hasleep

theorem NotifiedOne.eq (h : s.NotifiedOne t) :
    t = { s with workers := t.workers, callers := t.callers } := by
  cases h <;> rfl

theorem NotifiedNotFull.eq (h : s.NotifiedNotFull t) : t = { s with callers := t.callers } := by
  cases h <;> rfl

/-- The state after `take` and before its notification. -/
def taken (s : Pool) (i k : ℕ) (t : TaskWrapper) : Pool :=
  { s.setWorker i (.popped t) with
    tasks := s.tasks.eraseIdx k
    dequeued := s.dequeued ++ [t] }

end Pool

/-! ## Workers -/

inductive WorkerStep (config : ThreadPoolStruct) (s : Pool) (i : ℕ) :
    Worker → WorkerAction → Pool → Prop
  | ready {timedOut : Bool} : s.locked = false → s.workerReady = true →
      WorkerStep config s i (.locking timedOut) .test (s.setWorker i (.acting true))
  | timedOut : s.locked = false → s.workerReady = false →
      WorkerStep config s i (.locking true) .test (s.setWorker i (.acting false))
  | unready : s.locked = false → s.workerReady = false →
      WorkerStep config s i (.locking false) .test (s.setWorker i .sleeping)
  | sleep : WorkerStep config s i .sleeping .sleep (s.setWorker i .asleep)
  | wake {timedOut : Bool} :
      WorkerStep config s i .asleep (.wake timedOut) (s.setWorker i (.locking timedOut))
  | retire : config.coreThreads < s.currentThreads →
      WorkerStep config s i (.acting false) (.act true)
        { s.setWorker i .retired with currentThreads := s.currentThreads - 1 }
  | exit {hasTask elapsed : Bool} : s.stop = true ∨ s.state = .stopped → s.tasks = [] →
      WorkerStep config s i (.acting hasTask) (.act elapsed) (s.setWorker i .exited)
  | paused {hasTask elapsed : Bool} : s.state = .paused →
      WorkerStep config s i (.acting hasTask) (.act elapsed) (s.setWorker i (.locking false))
  | goOn {hasTask elapsed : Bool} : s.state ≠ .paused →
      WorkerStep config s i (.acting hasTask) (.act elapsed) (s.setWorker i .popping)
  | skip : s.tasks = [] → WorkerStep config s i .popping .skip (s.setWorker i (.locking false))
  | takeNotify {k : ℕ} {woken : Option ℕ} {task : TaskWrapper} {t : Pool} :
      s.tasks[k]? = some task → s.IsTop task → 0 < config.maxQueueSize →
        (s.taken i k task).tasks.length < config.maxQueueSize →
          (s.taken i k task).NotifiedNotFull t →
            WorkerStep config s i .popping (.take k woken) t
  | take {k : ℕ} {task : TaskWrapper} : s.tasks[k]? = some task → s.IsTop task →
      ¬ (0 < config.maxQueueSize ∧ (s.taken i k task).tasks.length < config.maxQueueSize) →
        WorkerStep config s i .popping (.take k none) (s.taken i k task)
  | begin {task : TaskWrapper} : WorkerStep config s i (.popped task) .begin
      { s.setWorker i (.running task) with activeThreads := s.activeThreads + 1 }
  | finish {task : TaskWrapper} : WorkerStep config s i (.running task) .finish
      { s.setWorker i .completed with
        tasksCompleted := s.tasksCompleted + 1
        finished := s.finished ++ [task] }
  | decrement : WorkerStep config s i .completed .decrement
      { s.setWorker i .checkState with activeThreads := s.activeThreads - 1 }
  | checkState : WorkerStep config s i .checkState .check
      (s.setWorker i (if s.state = .shuttingDown then .checkActive else .locking false))
  | checkActive : WorkerStep config s i .checkActive .check
      (s.setWorker i (if s.activeThreads = 0 then .checkEmpty else .locking false))
  | checkEmpty : WorkerStep config s i .checkEmpty .check
      (s.setWorker i (if s.tasks = [] then .notifying else .locking false))
  | notify : WorkerStep config s i .notifying .notify (s.setWorker i (.locking false)).notifyAll

/-- A worker neither stops the pool nor accepts a task. -/
theorem WorkerStep.frame {i : ℕ} {w : Worker} {a : WorkerAction}
    (h : WorkerStep config s i w a t) :
    t.stop = s.stop ∧ t.state = s.state ∧ t.accepted = s.accepted := by
  cases h with
  | takeNotify _ _ _ _ hnotified =>
      rw [hnotified.eq]
      exact ⟨rfl, rfl, rfl⟩
  | _ => exact ⟨rfl, rfl, rfl⟩

theorem workerStep_of_act {i : ℕ} {hasTask elapsed : Bool}
    (h : stepWorker config s i (.acting hasTask) (.act elapsed) = some t) :
    WorkerStep config s i (.acting hasTask) (.act elapsed) t := by
  simp only [stepWorker] at h
  split at h
  · rename_i hretire
    obtain ⟨rfl, hcore, rfl⟩ := hretire
    cases h
    exact .retire hcore
  · split at h
    · rename_i hexit
      cases h
      exact .exit hexit.1 hexit.2
    · split at h
      · rename_i hpaused
        cases h
        exact .paused hpaused
      · rename_i hpaused
        cases h
        exact .goOn hpaused

theorem workerStep_of_take {i k : ℕ} {woken : Option ℕ}
    (h : stepWorker config s i .popping (.take k woken) = some t) :
    WorkerStep config s i .popping (.take k woken) t := by
  simp only [stepWorker] at h
  split at h
  · cases h
  · rename_i task htask
    rw [Option.ite_none_right_eq_some] at h
    obtain ⟨htop, h⟩ := h
    split at h
    · rename_i hroom
      exact .takeNotify htask htop hroom.1 hroom.2 (Pool.notifiedNotFull h)
    · rename_i hroom
      rw [Option.ite_none_right_eq_some] at h
      obtain ⟨rfl, h⟩ := h
      cases h
      exact .take htask htop hroom

theorem workerStep {i : ℕ} {w : Worker} {a : WorkerAction}
    (h : stepWorker config s i w a = some t) : WorkerStep config s i w a t := by
  cases w with
  | locking timedOut =>
      cases a with
      | test =>
          simp only [stepWorker, Option.ite_none_left_eq_some, Bool.not_eq_true] at h
          obtain ⟨hfree, h⟩ := h
          cases hready : s.workerReady with
          | true =>
              simp only [hready, if_true, Option.some.injEq] at h
              subst h
              exact .ready hfree hready
          | false =>
              simp only [hready, Bool.false_eq_true, if_false] at h
              cases timedOut with
              | true =>
                  cases h
                  exact .timedOut hfree hready
              | false =>
                  cases h
                  exact .unready hfree hready
      | _ => cases h
  | sleeping =>
      cases a with
      | sleep =>
          cases h
          exact .sleep
      | _ => cases h
  | asleep =>
      cases a with
      | wake timedOut =>
          cases h
          exact .wake
      | _ => cases h
  | acting hasTask =>
      cases a with
      | act elapsed => exact workerStep_of_act h
      | _ => cases h
  | popping =>
      cases a with
      | skip =>
          simp only [stepWorker, Option.ite_none_right_eq_some, Option.some.injEq] at h
          obtain ⟨hempty, rfl⟩ := h
          exact .skip hempty
      | take k woken => exact workerStep_of_take h
      | _ => cases h
  | popped task =>
      cases a with
      | begin =>
          cases h
          exact .begin
      | _ => cases h
  | running task =>
      cases a with
      | finish =>
          cases h
          exact .finish
      | _ => cases h
  | completed =>
      cases a with
      | decrement =>
          cases h
          exact .decrement
      | _ => cases h
  | checkState =>
      cases a with
      | check =>
          cases h
          exact .checkState
      | _ => cases h
  | checkActive =>
      cases a with
      | check =>
          cases h
          exact .checkActive
      | _ => cases h
  | checkEmpty =>
      cases a with
      | check =>
          cases h
          exact .checkEmpty
      | _ => cases h
  | notifying =>
      cases a with
      | notify =>
          cases h
          exact .notify
      | _ => cases h
  | retired => cases h
  | exited => cases h

/-! ## Callers -/

/-- The state after `enqueue` has pushed its task, before it may add a thread. -/
def Pool.pushed (s : Pool) (i : ℕ) (priority : TaskPriority) (callable : Outcome) : Pool :=
  (s.setCaller i (.enqueue priority callable (.signalling s.accepted))).push priority callable

/-- Only the threads change in `adjust_thread_count`. -/
@[elab_as_elim]
theorem adjusted {motive : Pool → Prop} (created : Bool)
    (h : ∀ currentThreads workers, motive { s with currentThreads, workers }) :
    motive (adjustThreadCount config s created) := by
  unfold adjustThreadCount
  split
  · exact h _ _
  · exact h _ _

inductive EnqueueStep (config : ThreadPoolStruct) (s : Pool) (i : ℕ) (priority : TaskPriority)
    (callable : Outcome) : Enqueue → CallerAction → Pool → Prop
  | refused {woken created : Bool} : s.locked = false → s.stop = true →
      EnqueueStep config s i priority callable (.locking woken) (.offer created)
        (s.setCaller i (.enqueue priority callable (.returned none)))
  | full {woken created : Bool} : s.locked = false → s.stop = false →
      0 < config.maxQueueSize → config.maxQueueSize ≤ s.tasks.length →
        EnqueueStep config s i priority callable (.locking woken) (.offer created)
          (s.setCaller i (.enqueue priority callable .asleep))
  | admitted {woken created : Bool} : s.locked = false → s.stop = false →
      ¬ (0 < config.maxQueueSize ∧ config.maxQueueSize ≤ s.tasks.length) →
        EnqueueStep config s i priority callable (.locking woken) (.offer created)
          (adjustThreadCount config (s.pushed i priority callable) created)
  | wake {timedOut : Bool} : EnqueueStep config s i priority callable .asleep (.wake timedOut)
      (s.setCaller i (.enqueue priority callable (.locking true)))
  | signal {task : ℕ} {woken : Option Waiter} {t : Pool} :
      (s.setCaller i (.enqueue priority callable (.returned (some task)))).NotifiedOne t →
        EnqueueStep config s i priority callable (.signalling task) (.signal woken) t

theorem EnqueueStep.frame {i : ℕ} {priority : TaskPriority} {callable : Outcome} {pc : Enqueue}
    {a : CallerAction} (h : EnqueueStep config s i priority callable pc a t) :
    t.stop = s.stop ∧ t.state = s.state := by
  cases h with
  | refused | full | wake => exact ⟨rfl, rfl⟩
  | admitted => exact adjusted _ fun _ _ ↦ ⟨rfl, rfl⟩
  | signal hnotified =>
      rw [hnotified.eq]
      exact ⟨rfl, rfl⟩

theorem enqueueStep {i : ℕ} {priority : TaskPriority} {callable : Outcome} {pc : Enqueue}
    {a : CallerAction} (h : stepEnqueue config s i priority callable pc a = some t) :
    EnqueueStep config s i priority callable pc a t := by
  cases pc with
  | locking woken =>
      cases a with
      | offer created =>
          simp only [stepEnqueue, Option.ite_none_left_eq_some, Bool.not_eq_true] at h
          obtain ⟨hfree, h⟩ := h
          cases hstop : s.stop with
          | true =>
              simp only [hstop, if_true, Option.some.injEq] at h
              subst h
              exact .refused hfree hstop
          | false =>
              simp only [hstop, Bool.false_eq_true, if_false] at h
              split at h
              · rename_i hfull
                cases h
                exact .full hfree hstop hfull.1 hfull.2
              · rename_i hroom
                cases h
                exact .admitted hfree hstop hroom
      | _ => cases h
  | asleep =>
      cases a with
      | wake timedOut =>
          cases h
          exact .wake
      | _ => cases h
  | signalling task =>
      cases a with
      | signal woken => exact .signal (Pool.notifiedOne h)
      | _ => cases h
  | returned task => cases h

inductive ExchangeStep (s : Pool) (i : ℕ) (caller : Exchange → Caller)
    (expected desired : ThreadPoolState) : Exchange → CallerAction → Pool → Prop
  | exchanged : s.state = expected →
      ExchangeStep s i caller expected desired .exchanging .exchange
        { s.setCaller i (caller .notifying) with state := desired }
  | unchanged : s.state ≠ expected →
      ExchangeStep s i caller expected desired .exchanging .exchange
        (s.setCaller i (caller .returned))
  | notify : ExchangeStep s i caller expected desired .notifying .notify
      (s.setCaller i (caller .returned)).notifyAll

theorem pauseStep {i : ℕ} {pc : Exchange} {a : CallerAction} (h : stepPause s i pc a = some t) :
    ExchangeStep s i .pause .running .paused pc a t := by
  cases pc with
  | exchanging =>
      cases a with
      | exchange =>
          simp only [stepPause] at h
          split at h <;> cases h
          · exact .exchanged ‹_›
          · exact .unchanged ‹_›
      | _ => cases h
  | notifying =>
      cases a with
      | notify =>
          cases h
          exact .notify
      | _ => cases h
  | returned => cases h

theorem resumeStep {i : ℕ} {pc : Exchange} {a : CallerAction} (h : stepResume s i pc a = some t) :
    ExchangeStep s i .resume .paused .running pc a t := by
  cases pc with
  | exchanging =>
      cases a with
      | exchange =>
          simp only [stepResume] at h
          split at h <;> cases h
          · exact .exchanged ‹_›
          · exact .unchanged ‹_›
      | _ => cases h
  | notifying =>
      cases a with
      | notify =>
          cases h
          exact .notify
      | _ => cases h
  | returned => cases h

inductive ShutdownStep (s : Pool) (i : ℕ) : Shutdown → CallerAction → Pool → Prop
  | exchanged : s.state = .running → ShutdownStep s i .exchanging .exchange
      { s.setCaller i (.shutdown .announcing) with state := .shuttingDown }
  | unchanged : s.state ≠ .running →
      ShutdownStep s i .exchanging .exchange (s.setCaller i (.shutdown .answering))
  | answer : ShutdownStep s i .answering .answer
      (s.setCaller i (.shutdown (.returned false (s.state = .stopped))))
  | announce : ShutdownStep s i .announcing .notify
      (s.setCaller i (.shutdown (.locking false))).notifyAll
  | drained {timedOut : Bool} : s.locked = false → s.tasks = [] → s.activeThreads = 0 →
      ShutdownStep s i (.locking timedOut) .test
        { s.setCaller i (.shutdown .notifying) with
          state := .stopped
          stop := true }
  | timedOut : s.locked = false → ¬ (s.tasks = [] ∧ s.activeThreads = 0) →
      ShutdownStep s i (.locking true) .test (s.setCaller i (.shutdown (.returned true false)))
  | undrained : s.locked = false → ¬ (s.tasks = [] ∧ s.activeThreads = 0) →
      ShutdownStep s i (.locking false) .test (s.setCaller i (.shutdown .sleeping))
  | sleep : ShutdownStep s i .sleeping .sleep (s.setCaller i (.shutdown .asleep))
  | wake {timedOut : Bool} : ShutdownStep s i .asleep (.wake timedOut)
      (s.setCaller i (.shutdown (.locking timedOut)))
  | notify : ShutdownStep s i .notifying .notify (s.setCaller i (.shutdown .joining)).notifyAll
  | join : s.joined → ShutdownStep s i .joining .join
      (s.setCaller i (.shutdown (.returned true true)))

theorem shutdownStep {i : ℕ} {pc : Shutdown} {a : CallerAction}
    (h : stepShutdown s i pc a = some t) : ShutdownStep s i pc a t := by
  cases pc with
  | exchanging =>
      cases a with
      | exchange =>
          simp only [stepShutdown] at h
          split at h <;> cases h
          · exact .exchanged ‹_›
          · exact .unchanged ‹_›
      | _ => cases h
  | answering =>
      cases a with
      | answer =>
          cases h
          exact .answer
      | _ => cases h
  | announcing =>
      cases a with
      | notify =>
          cases h
          exact .announce
      | _ => cases h
  | locking timedOut =>
      cases a with
      | test =>
          simp only [stepShutdown, Option.ite_none_left_eq_some, Bool.not_eq_true] at h
          obtain ⟨hfree, h⟩ := h
          by_cases hdrained : s.tasks = [] ∧ s.activeThreads = 0
          · rw [if_pos hdrained] at h
            cases h
            exact .drained hfree hdrained.1 hdrained.2
          · rw [if_neg hdrained] at h
            cases timedOut with
            | true =>
                cases h
                exact .timedOut hfree hdrained
            | false =>
                cases h
                exact .undrained hfree hdrained
      | _ => cases h
  | sleeping =>
      cases a with
      | sleep =>
          cases h
          exact .sleep
      | _ => cases h
  | asleep =>
      cases a with
      | wake timedOut =>
          cases h
          exact .wake
      | _ => cases h
  | notifying =>
      cases a with
      | notify =>
          cases h
          exact .notify
      | _ => cases h
  | joining =>
      cases a with
      | join =>
          simp only [stepShutdown, Option.ite_none_right_eq_some, Option.some.injEq] at h
          obtain ⟨hjoined, rfl⟩ := h
          exact .join hjoined
      | _ => cases h
  | returned moved ok => cases h

inductive StopNowStep (s : Pool) (i : ℕ) : StopNow → CallerAction → Pool → Prop
  | clear : s.locked = false → StopNowStep s i .locking .clear
      { s.setCaller i (.stopNow .notifying) with
        state := .stopped
        stop := true
        tasks := []
        discarded := s.discarded ++ s.tasks }
  | notify : StopNowStep s i .notifying .notify (s.setCaller i (.stopNow .joining)).notifyAll
  | join : s.joined → StopNowStep s i .joining .join (s.setCaller i (.stopNow .returned))

theorem stopNowStep {i : ℕ} {pc : StopNow} {a : CallerAction}
    (h : stepStopNow s i pc a = some t) : StopNowStep s i pc a t := by
  cases pc with
  | locking =>
      cases a with
      | clear =>
          simp only [stepStopNow, Option.ite_none_left_eq_some, Bool.not_eq_true,
            Option.some.injEq] at h
          obtain ⟨hfree, rfl⟩ := h
          exact .clear hfree
      | _ => cases h
  | notifying =>
      cases a with
      | notify =>
          cases h
          exact .notify
      | _ => cases h
  | joining =>
      cases a with
      | join =>
          simp only [stepStopNow, Option.ite_none_right_eq_some, Option.some.injEq] at h
          obtain ⟨hjoined, rfl⟩ := h
          exact .join hjoined
      | _ => cases h
  | returned => cases h

inductive CallerStep (config : ThreadPoolStruct) (s : Pool) (i : ℕ) :
    Caller → CallerAction → Pool → Prop
  | enqueue {priority : TaskPriority} {callable : Outcome} {pc : Enqueue} {a : CallerAction}
      {t : Pool} : EnqueueStep config s i priority callable pc a t →
        CallerStep config s i (.enqueue priority callable pc) a t
  | pause {pc : Exchange} {a : CallerAction} {t : Pool} :
      ExchangeStep s i .pause .running .paused pc a t → CallerStep config s i (.pause pc) a t
  | resume {pc : Exchange} {a : CallerAction} {t : Pool} :
      ExchangeStep s i .resume .paused .running pc a t → CallerStep config s i (.resume pc) a t
  | shutdown {pc : Shutdown} {a : CallerAction} {t : Pool} :
      ShutdownStep s i pc a t → CallerStep config s i (.shutdown pc) a t
  | stopNow {pc : StopNow} {a : CallerAction} {t : Pool} :
      StopNowStep s i pc a t → CallerStep config s i (.stopNow pc) a t

theorem callerStep {i : ℕ} {c : Caller} {a : CallerAction}
    (h : stepCaller config s i c a = some t) : CallerStep config s i c a t := by
  cases c with
  | enqueue priority callable pc => exact .enqueue (enqueueStep h)
  | pause pc => exact .pause (pauseStep h)
  | resume pc => exact .resume (resumeStep h)
  | shutdown pc => exact .shutdown (shutdownStep h)
  | stopNow pc => exact .stopNow (stopNowStep h)

/-- A step begins a call, or is one of a worker or of a caller. -/
inductive Stepped (config : ThreadPoolStruct) (s : Pool) : Action → Pool → Prop
  | call (c : Call) : Stepped config s (.call c) { s with callers := s.callers ++ [c.begin] }
  | worker {i : ℕ} {w : Worker} {a : WorkerAction} {t : Pool} : s.workers[i]? = some w →
      WorkerStep config s i w a t → Stepped config s (.worker i a) t
  | caller {i : ℕ} {c : Caller} {a : CallerAction} {t : Pool} : s.callers[i]? = some c →
      CallerStep config s i c a t → Stepped config s (.caller i a) t

theorem stepped {a : Action} (h : step config s a = some t) : Stepped config s a t := by
  cases a with
  | call c =>
      cases h
      exact .call c
  | worker i a =>
      obtain ⟨w, hslot, hstep⟩ := Option.bind_eq_some_iff.mp h
      exact .worker hslot (workerStep hstep)
  | caller i a =>
      obtain ⟨c, hslot, hstep⟩ := Option.bind_eq_some_iff.mp h
      exact .caller hslot (callerStep hstep)

/-! ## What is true of every caller -/

/-- A property of callers that `enqueue` has at every place, and that survives a waking. -/
structure Wakeable (P : Caller → Prop) : Prop where
  shutdown : P (.shutdown .asleep) → P (.shutdown (.locking false))
  enqueue : ∀ priority callable pc, P (.enqueue priority callable pc)

namespace Wakeable

variable {P : Caller → Prop}

theorem woken (hP : Wakeable P) {c : Caller} (h : P c) : P c.woken := by
  cases c with
  | shutdown pc =>
      cases pc with
      | asleep => exact hP.shutdown h
      | _ => exact h
  | _ => exact h

theorem notifyAll (hP : Wakeable P) (h : ∀ c ∈ s.callers, P c) :
    ∀ c ∈ s.notifyAll.callers, P c := by
  intro c hc
  obtain ⟨c', hc', rfl⟩ := List.mem_map.mp hc
  exact hP.woken (h c' hc')

theorem notifiedOne (hP : Wakeable P) (h : ∀ c ∈ s.callers, P c) (hnotified : s.NotifiedOne t) :
    ∀ c ∈ t.callers, P c := by
  cases hnotified with
  | nobody | worker => exact h
  | caller hslot =>
      exact Slots.forall_mem_set h (hP.shutdown (h _ (Slots.mem_of_slot hslot)))

theorem worker (hP : Wakeable P) (h : ∀ c ∈ s.callers, P c) {i : ℕ} {w : Worker}
    {a : WorkerAction} (hmove : WorkerStep config s i w a t) : ∀ c ∈ t.callers, P c := by
  cases hmove with
  | takeNotify _ _ _ _ hnotified =>
      cases hnotified with
      | nobody => exact h
      | caller => exact Slots.forall_mem_set h (hP.enqueue _ _ _)
  | notify => exact hP.notifyAll (s := s.setWorker _ _) h
  | _ => exact h

theorem enqueueStep (hP : Wakeable P) (h : ∀ c ∈ s.callers, P c) {i : ℕ} {priority : TaskPriority}
    {callable : Outcome} {pc : Enqueue} {a : CallerAction}
    (hmove : EnqueueStep config s i priority callable pc a t) : ∀ c ∈ t.callers, P c := by
  have hset : ∀ pc', ∀ c ∈ (s.setCaller i (.enqueue priority callable pc')).callers, P c :=
    fun pc' ↦ Slots.forall_mem_set h (hP.enqueue priority callable pc')
  cases hmove with
  | refused | full | wake => exact hset _
  | admitted => exact adjusted _ fun _ _ ↦ hset _
  | signal hnotified => exact hP.notifiedOne (hset _) hnotified

theorem exchange (hP : Wakeable P) (h : ∀ c ∈ s.callers, P c) {i : ℕ} {caller : Exchange → Caller}
    {expected desired : ThreadPoolState} {pc : Exchange} {a : CallerAction}
    (hnotifying : P (caller .notifying)) (hreturned : P (caller .returned))
    (hmove : ExchangeStep s i caller expected desired pc a t) : ∀ c ∈ t.callers, P c := by
  cases hmove with
  | exchanged => exact Slots.forall_mem_set h hnotifying
  | unchanged => exact Slots.forall_mem_set h hreturned
  | notify => exact hP.notifyAll (Slots.forall_mem_set h hreturned)

end Wakeable

/-! ## What a waking leaves as it is -/

/-- `f` is the same for the sleeper and for the woken. -/
structure Steady {β : Type*} (f : Caller → β) : Prop where
  shutdown : f (.shutdown (.locking false)) = f (.shutdown .asleep)
  enqueue : ∀ priority callable,
    f (.enqueue priority callable (.locking true)) = f (.enqueue priority callable .asleep)

namespace Steady

variable {β : Type*} {f : Caller → β}

theorem notifyAll (hf : Steady f) (s : Pool) : s.notifyAll.callers.map f = s.callers.map f := by
  rw [Pool.notifyAll, List.map_map]
  apply List.map_congr_left
  intro c _
  exact Caller.apply_woken hf.shutdown c

theorem notifiedOne (hf : Steady f) (h : s.NotifiedOne t) :
    t.callers.map f = s.callers.map f := by
  cases h with
  | nobody | worker => rfl
  | caller hslot => exact Slots.map_set_of_eq hslot _ hf.shutdown

theorem notifiedNotFull (hf : Steady f) (h : s.NotifiedNotFull t) :
    t.callers.map f = s.callers.map f := by
  cases h with
  | nobody => rfl
  | caller hslot => exact Slots.map_set_of_eq hslot _ (hf.enqueue _ _)

theorem workerStep (hf : Steady f) {i : ℕ} {w : Worker} {a : WorkerAction}
    (h : WorkerStep config s i w a t) : t.callers.map f = s.callers.map f := by
  cases h with
  | takeNotify _ _ _ _ hnotified => exact (hf.notifiedNotFull hnotified).trans rfl
  | notify => exact (hf.notifyAll _).trans rfl
  | _ => rfl

theorem exchangeStep (hf : Steady f) {i : ℕ} {caller : Exchange → Caller}
    {expected desired : ThreadPoolState} {pc : Exchange} {a : CallerAction}
    (hslot : s.callers[i]? = some (caller pc)) (hsame : ∀ pc', f (caller pc') = f (caller pc))
    (h : ExchangeStep s i caller expected desired pc a t) :
    t.callers.map f = s.callers.map f := by
  have hset : ∀ pc', (s.setCaller i (caller pc')).callers.map f = s.callers.map f :=
    fun pc' ↦ Slots.map_set_of_eq hslot _ (hsame pc')
  cases h with
  | exchanged | unchanged => exact hset _
  | notify => exact (hf.notifyAll _).trans (hset _)

end Steady

theorem kept_notifyAll {i : ℕ} {c : Caller} (hslot : s.callers[i]? = some c)
    (hawake : c ≠ .shutdown .asleep) : s.notifyAll.callers[i]? = some c := by
  have hsame : c.woken = c := by
    cases c with
    | shutdown pc => cases pc <;> first | rfl | exact absurd rfl hawake
    | _ => rfl
  simp [Pool.notifyAll, hslot, hsame]

theorem kept_setCaller {i j : ℕ} {c : Caller} (hslot : s.callers[i]? = some c) (hne : j ≠ i)
    (d : Caller) : (s.setCaller j d).callers[i]? = some c :=
  (List.getElem?_set_ne hne).trans hslot

theorem kept_notifiedOne {i : ℕ} {c : Caller} (hslot : s.callers[i]? = some c)
    (hawake : c ≠ .shutdown .asleep) (hnotified : s.NotifiedOne t) : t.callers[i]? = some c := by
  cases hnotified with
  | nobody | worker => exact hslot
  | @caller j hasleep =>
      refine kept_setCaller hslot ?_ _
      rintro rfl
      exact hawake (Option.some.inj (hslot.symm.trans hasleep))

theorem kept_notifiedNotFull {i : ℕ} {c : Caller} (hslot : s.callers[i]? = some c)
    (hnot : c.waitsNotFull = false) (hnotified : s.NotifiedNotFull t) :
    t.callers[i]? = some c := by
  cases hnotified with
  | nobody => exact hslot
  | @caller j _ _ hasleep =>
      refine kept_setCaller hslot ?_ _
      rintro rfl
      rw [Option.some.inj (hslot.symm.trans hasleep)] at hnot
      cases hnot

/-- Whoever is awake stays where it is while others move. -/
theorem caller_kept {a : Action} {i : ℕ} {c : Caller} (hslot : s.callers[i]? = some c)
    (hawake : c ≠ .shutdown .asleep) (hnot : c.waitsNotFull = false)
    (hother : ∀ b, a ≠ .caller i b) (hstep : step config s a = some t) :
    t.callers[i]? = some c := by
  cases stepped hstep with
  | call d =>
      obtain ⟨hi, -⟩ := List.getElem?_eq_some_iff.mp hslot
      rw [List.getElem?_append_left hi]
      exact hslot
  | worker _ hmove =>
      cases hmove with
      | takeNotify _ _ _ _ hnotified =>
          exact kept_notifiedNotFull (s := s.taken _ _ _) hslot hnot hnotified
      | notify => exact kept_notifyAll (s := s.setWorker _ _) hslot hawake
      | _ => exact hslot
  | @caller j d b _ _ hmove =>
      have hne : j ≠ i := by
        rintro rfl
        exact hother b rfl
      have hset : ∀ d', (s.setCaller j d').callers[i]? = some c := kept_setCaller hslot hne
      cases hmove with
      | enqueue hmove =>
          cases hmove with
          | refused | full | wake => exact hset _
          | admitted => exact adjusted _ fun _ _ ↦ hset _
          | signal hnotified => exact kept_notifiedOne (hset _) hawake hnotified
      | pause hmove | resume hmove =>
          cases hmove with
          | exchanged | unchanged => exact hset _
          | notify => exact kept_notifyAll (hset _) hawake
      | shutdown hmove =>
          cases hmove with
          | announce | notify => exact kept_notifyAll (hset _) hawake
          | _ => exact hset _
      | stopNow hmove =>
          cases hmove with
          | clear | join => exact hset _
          | notify => exact kept_notifyAll (hset _) hawake

/-- A call of `enqueue` that has returned does not change any more. -/
theorem returned_kept {a : Action} {i : ℕ} {priority : TaskPriority} {callable : Outcome}
    {task : Option ℕ} (hslot : s.callers[i]? = some (.enqueue priority callable (.returned task)))
    (hstep : step config s a = some t) :
    t.callers[i]? = some (.enqueue priority callable (.returned task)) := by
  refine caller_kept hslot (by simp) rfl ?_ hstep
  rintro b rfl
  cases stepped hstep with
  | caller hslot' hmove =>
      obtain rfl := Option.some.inj (hslot'.symm.trans hslot)
      cases hmove with
      | enqueue hmove => cases hmove

/-! ## A caller stays in its call -/

def Caller.call : Caller → Call
  | enqueue priority callable _ => .enqueue priority callable
  | pause _ => .pause
  | resume _ => .resume
  | shutdown _ => .shutdown
  | stopNow _ => .stopNow

def Action.begun : Action → List Call
  | .call c => [c]
  | _ => []

def Pool.calls (s : Pool) : List Call := s.callers.map Caller.call

theorem calls_setCaller {i : ℕ} {c : Caller} (hslot : s.callers[i]? = some c) {c' : Caller}
    (hcall : c'.call = c.call) : (s.setCaller i c').calls = s.calls :=
  Slots.map_set_of_eq hslot c' hcall

theorem steady_call : Steady Caller.call := ⟨rfl, fun _ _ ↦ rfl⟩

theorem calls_callerStep {i : ℕ} {c : Caller} {a : CallerAction}
    (hslot : s.callers[i]? = some c) (h : CallerStep config s i c a t) : t.calls = s.calls := by
  cases h with
  | enqueue h =>
      cases h with
      | refused | full | wake => exact calls_setCaller hslot rfl
      | admitted => exact adjusted _ fun _ _ ↦ calls_setCaller hslot rfl
      | signal hnotified =>
          exact (steady_call.notifiedOne hnotified).trans (calls_setCaller hslot rfl)
  | pause h | resume h => exact steady_call.exchangeStep hslot (fun _ ↦ rfl) h
  | shutdown h =>
      cases h with
      | announce | notify => exact (steady_call.notifyAll _).trans (calls_setCaller hslot rfl)
      | _ => exact calls_setCaller hslot rfl
  | stopNow h =>
      cases h with
      | clear | join => exact calls_setCaller hslot rfl
      | notify => exact (steady_call.notifyAll _).trans (calls_setCaller hslot rfl)

theorem calls_step {a : Action} (h : step config s a = some t) : t.calls = s.calls ++ a.begun := by
  cases stepped h with
  | call c =>
      have hbegin : c.begin.call = c := by cases c <;> rfl
      show (s.callers ++ [c.begin]).map Caller.call = s.calls ++ [c]
      rw [List.map_append, List.map_singleton, hbegin]
      rfl
  | worker _ hmove => exact (steady_call.workerStep hmove).trans (List.append_nil _).symm
  | caller hslot hmove => exact (calls_callerStep hslot hmove).trans (List.append_nil _).symm

/-- The callers are in the calls that the run has begun. -/
theorem calls_run {trace : List (Pool × Action)} {last : Pool}
    (hrun : Run (step config) s trace last) :
    last.calls = s.calls ++ trace.flatMap fun e ↦ e.2.begun := by
  induction hrun with
  | nil => simp
  | @snoc trace u a t _ hstep ih =>
      rw [calls_step hstep, ih, List.append_assoc, List.flatMap_append]
      simp

theorem forall_calls_run {trace : List (Pool × Action)} {last : Pool} {P : Call → Prop}
    (hrun : Run (step config) (.start config) trace last)
    (hcalls : ∀ u c, (u, .call c) ∈ trace → P c) : ∀ c ∈ last.callers, P c.call := by
  intro c hc
  have hmem : c.call ∈ last.calls := List.mem_map_of_mem hc
  have hnone : (Pool.start config).calls = [] := rfl
  rw [calls_run hrun, hnone, List.nil_append] at hmem
  obtain ⟨⟨u, a⟩, htrace, hbegun⟩ := List.mem_flatMap.mp hmem
  cases a with
  | call c' =>
      obtain rfl := List.mem_singleton.mp hbegun
      exact hcalls u _ htrace
  | worker => cases hbegun
  | caller => cases hbegun

end MyRpc.ThreadPool
