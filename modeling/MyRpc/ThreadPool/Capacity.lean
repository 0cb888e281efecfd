import MyRpc.ThreadPool.Steps

/-!
# What is true of every state of a pool

The counters of the pool are counts over its workers, the queue keeps to its
limit, and every task that was accepted is in one place: in the queue, with
the worker that has taken it out, among the executed ones, or among those
that `stop_now` has thrown away.
-/

namespace MyRpc.ThreadPool

open PartialRun

/-- Between `active_threads_++` and `active_threads_--`. -/
def Worker.active : Worker → Bool
  | running _ | completed => true
  | _ => false

/-- Started, and not gone by the exit for idle workers. -/
def Worker.live : Worker → Bool
  | retired => false
  | _ => true

/-- The task a worker has taken out of the queue and not executed to its end. -/
def Worker.holding : Worker → Option TaskWrapper
  | popped t | running t => some t
  | _ => none

/-- The tasks between the queue and the end of their execution. -/
def Pool.held (s : Pool) : List TaskWrapper := s.workers.filterMap Worker.holding

structure Inv (config : ThreadPoolStruct) (s : Pool) : Prop where
  stopped : s.stop = true ↔ s.state = .stopped
  drained : s.stop = true → s.tasks = []
  active : s.activeThreads = s.workers.countP Worker.active
  current : s.currentThreads = s.workers.countP Worker.live
  core : config.coreThreads ≤ s.currentThreads
  limit : s.currentThreads ≤ max config.coreThreads config.maxThreads
  bounded : 0 < config.maxQueueSize → s.tasks.length ≤ config.maxQueueSize
  accounted : ((s.tasks ++ s.dequeued ++ s.discarded).map TaskWrapper.task).Perm
    (List.range s.accepted)
  taken : s.dequeued.Perm (s.held ++ s.finished)

variable {config : ThreadPoolStruct} {s t : Pool}

theorem inv_start (config : ThreadPoolStruct) : Inv config (.start config) where
  stopped := by simp [Pool.start]
  drained _ := rfl
  active := by simp [Pool.start, List.countP_replicate, Worker.active]
  current := by simp [Pool.start, List.countP_replicate, Worker.live]
  core := le_rfl
  limit := le_max_left _ _
  bounded _ := Nat.zero_le _
  accounted := by simp [Pool.start]
  taken := by simp [Pool.start, Pool.held, Worker.holding]

/-! ## Moves that change no count -/

theorem inv_setWorker {i : ℕ} {w w' : Worker} (h : Inv config s) (hslot : s.workers[i]? = some w)
    (hactive : w'.active = w.active) (hlive : w'.live = w.live)
    (hholding : w'.holding = w.holding) : Inv config (s.setWorker i w') :=
  { h with
    active := h.active.trans (Slots.countP_set_of_eq hslot w' hactive).symm
    current := h.current.trans (Slots.countP_set_of_eq hslot w' hlive).symm
    taken := h.taken.trans
      ((Slots.filterMap_set_of_eq hslot w' hholding).symm.append_right s.finished) }

theorem inv_callers (h : Inv config s) (callers : List Caller) :
    Inv config { s with callers } :=
  { h with }

theorem inv_notifyAll (h : Inv config s) : Inv config s.notifyAll :=
  { h with
    active := h.active.trans (Slots.countP_map_of_eq (Worker.apply_woken rfl) s.workers).symm
    current := h.current.trans (Slots.countP_map_of_eq (Worker.apply_woken rfl) s.workers).symm
    taken := by
      have hheld : s.notifyAll.held = s.held :=
        Slots.filterMap_map_of_eq (Worker.apply_woken rfl) s.workers
      rw [hheld]
      exact h.taken }

theorem inv_notifiedOne (h : Inv config s) (hnotified : s.NotifiedOne t) : Inv config t := by
  cases hnotified with
  | nobody => exact h
  | worker hslot => exact inv_setWorker h hslot rfl rfl rfl
  | caller => exact inv_callers h _

theorem inv_notifiedNotFull (h : Inv config s) (hnotified : s.NotifiedNotFull t) :
    Inv config t := by
  cases hnotified with
  | nobody => exact h
  | caller => exact inv_callers h _

/-- `pause`, `resume` and `shutdown` exchange one state that is not the last
for another. -/
theorem inv_state {state : ThreadPoolState} (h : Inv config s) (hbefore : s.state ≠ .stopped)
    (hafter : state ≠ .stopped) : Inv config { s with state } := by
  have hrunning : ¬ s.stop = true := fun hstop ↦ hbefore (h.stopped.mp hstop)
  exact { h with stopped := iff_of_false hrunning hafter }

/-! ## Moves of a worker that change a count -/

theorem held_setWorker {i : ℕ} {w : Worker} (hslot : s.workers[i]? = some w) (w' : Worker)
    (hholding : w'.holding = w.holding) : (s.setWorker i w').held.Perm s.held :=
  Slots.filterMap_set_of_eq hslot w' hholding

theorem inv_retire {i : ℕ} (h : Inv config s) (hslot : s.workers[i]? = some (.acting false))
    (hcore : config.coreThreads < s.currentThreads) :
    Inv config { s.setWorker i .retired with currentThreads := s.currentThreads - 1 } := by
  have hcount := Slots.countP_set hslot .retired Worker.live
  simp only [Worker.live, if_true, Bool.false_eq_true, if_false] at hcount
  have hcurrent := h.current
  exact
    { h with
      active := h.active.trans (Slots.countP_set_of_eq hslot .retired rfl).symm
      current := by
        show s.currentThreads - 1 = (s.workers.set i .retired).countP Worker.live
        omega
      core := by
        show config.coreThreads ≤ s.currentThreads - 1
        omega
      limit := (Nat.sub_le _ _).trans h.limit
      taken := h.taken.trans ((held_setWorker hslot .retired rfl).symm.append_right s.finished) }

theorem inv_taken {i k : ℕ} {task : TaskWrapper} (h : Inv config s)
    (hslot : s.workers[i]? = some .popping) (htask : s.tasks[k]? = some task) :
    Inv config (s.taken i k task) := by
  have htasks := Slots.perm_of_slot htask
  refine
    { stopped := h.stopped
      drained := fun hstop ↦ ?_
      active := h.active.trans (Slots.countP_set_of_eq hslot (.popped task) rfl).symm
      current := h.current.trans (Slots.countP_set_of_eq hslot (.popped task) rfl).symm
      core := h.core
      limit := h.limit
      bounded := fun hpos ↦ (List.length_eraseIdx_le s.tasks k).trans (h.bounded hpos)
      accounted := ?_
      taken := ?_ }
  · rw [h.drained hstop] at htask
    cases htask
  · refine List.Perm.trans (List.Perm.map _ (List.Perm.append_right _ ?_)) h.accounted
    have hlast : (s.tasks.eraseIdx k ++ (s.dequeued ++ [task])).Perm
        (task :: (s.tasks.eraseIdx k ++ s.dequeued)) := by
      rw [← List.append_assoc]
      exact List.perm_append_singleton _ _
    exact hlast.trans (htasks.symm.append_right s.dequeued)
  · have hheld : (s.taken i k task).held.Perm (task :: s.held) :=
      Slots.filterMap_set hslot (.popped task) Worker.holding
    have hnew : (s.dequeued ++ [task]).Perm (task :: (s.held ++ s.finished)) :=
      (List.perm_append_singleton _ _).trans (h.taken.cons task)
    exact hnew.trans (hheld.symm.append_right s.finished)

theorem inv_begin {i : ℕ} {task : TaskWrapper} (h : Inv config s)
    (hslot : s.workers[i]? = some (.popped task)) :
    Inv config { s.setWorker i (.running task) with activeThreads := s.activeThreads + 1 } := by
  have hcount := Slots.countP_set hslot (.running task) Worker.active
  simp only [Worker.active, if_true, Bool.false_eq_true, if_false, Nat.add_zero] at hcount
  exact
    { h with
      active := by
        show s.activeThreads + 1 = (s.workers.set i (.running task)).countP Worker.active
        rw [hcount, h.active]
      current := h.current.trans (Slots.countP_set_of_eq hslot (.running task) rfl).symm
      taken := h.taken.trans
        ((held_setWorker hslot (.running task) rfl).symm.append_right s.finished) }

theorem inv_finish {i : ℕ} {task : TaskWrapper} (h : Inv config s)
    (hslot : s.workers[i]? = some (.running task)) :
    Inv config { s.setWorker i .completed with
      tasksCompleted := s.tasksCompleted + 1
      finished := s.finished ++ [task] } := by
  have hheld : (task :: (s.setWorker i .completed).held).Perm s.held :=
    Slots.filterMap_set hslot .completed Worker.holding
  have htaken : (s.held ++ s.finished).Perm
      ((s.setWorker i .completed).held ++ (s.finished ++ [task])) := by
    apply (hheld.symm.append_right s.finished).trans
    rw [← List.append_assoc]
    exact (List.perm_append_singleton _ _).symm
  exact
    { h with
      active := h.active.trans (Slots.countP_set_of_eq hslot .completed rfl).symm
      current := h.current.trans (Slots.countP_set_of_eq hslot .completed rfl).symm
      taken := h.taken.trans htaken }

theorem inv_decrement {i : ℕ} (h : Inv config s) (hslot : s.workers[i]? = some .completed) :
    Inv config { s.setWorker i .checkState with activeThreads := s.activeThreads - 1 } := by
  have hcount := Slots.countP_set hslot .checkState Worker.active
  simp only [Worker.active, if_true, Bool.false_eq_true, if_false, Nat.add_zero] at hcount
  exact
    { h with
      active := by
        show s.activeThreads - 1 = (s.workers.set i .checkState).countP Worker.active
        rw [h.active, ← hcount, Nat.add_sub_cancel]
      current := h.current.trans (Slots.countP_set_of_eq hslot .checkState rfl).symm
      taken := h.taken.trans
        ((held_setWorker hslot .checkState rfl).symm.append_right s.finished) }

theorem inv_worker {i : ℕ} {w : Worker} {a : WorkerAction} (h : Inv config s)
    (hslot : s.workers[i]? = some w) (hstep : WorkerStep config s i w a t) : Inv config t := by
  cases hstep with
  | ready | timedOut | unready | sleep | wake | exit | paused | goOn | skip =>
      exact inv_setWorker h hslot rfl rfl rfl
  | retire hcore => exact inv_retire h hslot hcore
  | takeNotify htask _ _ _ hnotified =>
      exact inv_notifiedNotFull (inv_taken h hslot htask) hnotified
  | take htask => exact inv_taken h hslot htask
  | begin => exact inv_begin h hslot
  | finish => exact inv_finish h hslot
  | decrement => exact inv_decrement h hslot
  | checkState | checkActive | checkEmpty => split <;> exact inv_setWorker h hslot rfl rfl rfl
  | notify => exact inv_notifyAll (inv_setWorker h hslot rfl rfl rfl)

/-! ## Moves of a caller -/

theorem inv_pushed {i : ℕ} {priority : TaskPriority} {callable : Outcome} (h : Inv config s)
    (hstop : s.stop = false)
    (hroom : ¬ (0 < config.maxQueueSize ∧ config.maxQueueSize ≤ s.tasks.length)) :
    Inv config (s.pushed i priority callable) := by
  have haccounted : ((s.tasks ++ [(⟨s.accepted, priority, callable⟩ : TaskWrapper)] ++
      s.dequeued ++ s.discarded).map TaskWrapper.task).Perm (List.range (s.accepted + 1)) := by
    have hlast : (s.tasks ++ [(⟨s.accepted, priority, callable⟩ : TaskWrapper)] ++ s.dequeued ++
        s.discarded).Perm (⟨s.accepted, priority, callable⟩ ::
          (s.tasks ++ s.dequeued ++ s.discarded)) :=
      ((List.perm_append_singleton _ _).append_right _).append_right _
    rw [List.range_succ]
    apply (hlast.map _).trans
    exact (h.accounted.cons s.accepted).trans (List.perm_append_singleton _ _).symm
  exact
    { h with
      drained := fun h' ↦ by
        have hset : s.stop = true := h'
        simp [hstop] at hset
      bounded := fun hpos ↦ by
        have hlt : s.tasks.length < config.maxQueueSize := by
          by_contra hle
          exact hroom ⟨hpos, Nat.le_of_not_lt hle⟩
        show (s.tasks ++ [_]).length ≤ config.maxQueueSize
        simpa using hlt
      accounted := haccounted }

theorem inv_adjustThreadCount (h : Inv config s) (created : Bool) :
    Inv config (adjustThreadCount config s created) := by
  unfold adjustThreadCount
  split
  · rename_i hgrow
    have hcurrent := h.current
    exact
      { h with
        active := by
          show s.activeThreads = (s.workers ++ [Worker.locking false]).countP Worker.active
          rw [h.active, List.countP_append]
          rfl
        current := by
          show s.currentThreads + 1 = (s.workers ++ [Worker.locking false]).countP Worker.live
          rw [h.current, List.countP_append]
          rfl
        core := h.core.trans (Nat.le_succ _)
        limit := (Nat.succ_le_of_lt hgrow.1).trans (le_max_right _ _)
        taken := by
          have hheld : (s.workers ++ [Worker.locking false]).filterMap Worker.holding = s.held := by
            rw [List.filterMap_append]
            exact List.append_nil _
          show s.dequeued.Perm ((s.workers ++ [Worker.locking false]).filterMap Worker.holding ++ _)
          rw [hheld]
          exact h.taken }
  · exact h

theorem inv_enqueue {i : ℕ} {priority : TaskPriority} {callable : Outcome} {pc : Enqueue}
    {a : CallerAction} (h : Inv config s)
    (hstep : EnqueueStep config s i priority callable pc a t) : Inv config t := by
  cases hstep with
  | refused | full | wake => exact inv_callers h _
  | admitted _ hstop hroom => exact inv_adjustThreadCount (inv_pushed h hstop hroom) _
  | signal hnotified => exact inv_notifiedOne (inv_callers h _) hnotified

theorem inv_exchange {i : ℕ} {caller : Exchange → Caller} {expected desired : ThreadPoolState}
    {pc : Exchange} {a : CallerAction} (h : Inv config s) (hexpected : expected ≠ .stopped)
    (hdesired : desired ≠ .stopped)
    (hstep : ExchangeStep s i caller expected desired pc a t) : Inv config t := by
  cases hstep with
  | exchanged hstate =>
      exact inv_state (inv_callers h _) (by simpa [Pool.setCaller, hstate] using hexpected) hdesired
  | unchanged => exact inv_callers h _
  | notify => exact inv_notifyAll (inv_callers h _)

theorem inv_shutdown {i : ℕ} {pc : Shutdown} {a : CallerAction} (h : Inv config s)
    (hstep : ShutdownStep s i pc a t) : Inv config t := by
  cases hstep with
  | exchanged hstate =>
      exact inv_state (inv_callers h _) (by simp [Pool.setCaller, hstate]) (by simp)
  | unchanged | answer | timedOut | undrained | sleep | wake | join => exact inv_callers h _
  | announce | notify => exact inv_notifyAll (inv_callers h _)
  | drained _ htasks =>
      exact
        { h with
          stopped := iff_of_true rfl rfl
          drained := fun _ ↦ htasks }

theorem inv_stopNow {i : ℕ} {pc : StopNow} {a : CallerAction} (h : Inv config s)
    (hstep : StopNowStep s i pc a t) : Inv config t := by
  cases hstep with
  | clear =>
      have hmoved : (s.dequeued ++ (s.discarded ++ s.tasks)).Perm
          (s.tasks ++ s.dequeued ++ s.discarded) := by
        rw [← List.append_assoc, List.append_assoc s.tasks]
        exact List.perm_append_comm
      exact
        { h with
          stopped := iff_of_true rfl rfl
          drained := fun _ ↦ rfl
          bounded := fun _ ↦ Nat.zero_le _
          accounted := (hmoved.map _).trans h.accounted }
  | notify => exact inv_notifyAll (inv_callers h _)
  | join => exact inv_callers h _

theorem inv_step {a : Action} (h : Inv config s) (hstep : step config s a = some t) :
    Inv config t := by
  cases stepped hstep with
  | call => exact inv_callers h _
  | worker hslot hmove => exact inv_worker h hslot hmove
  | caller _ hmove =>
      cases hmove with
      | enqueue hmove => exact inv_enqueue h hmove
      | pause hmove => exact inv_exchange h (by simp) (by simp) hmove
      | resume hmove => exact inv_exchange h (by simp) (by simp) hmove
      | shutdown hmove => exact inv_shutdown h hmove
      | stopNow hmove => exact inv_stopNow h hmove

theorem inv_run {trace : List (Pool × Action)} {last : Pool}
    (hrun : Run (step config) (.start config) trace last) : Inv config last :=
  hrun.invariant (Inv config) (inv_start config) fun _ _ _ _ h hstep ↦ inv_step h hstep

/-- **Capacity.**  In every state a pool comes to, the number of its threads
keeps to the two limits and is the number of workers that were started and
have not retired; the queue keeps to its limit, and no more threads are
active than there are. -/
theorem capacity_run (hconfig : config.coreThreads ≤ config.maxThreads)
    {trace : List (Pool × Action)} {last : Pool}
    (hrun : Run (step config) (.start config) trace last) :
    config.coreThreads ≤ last.currentThreads ∧ last.currentThreads ≤ config.maxThreads ∧
      last.currentThreads = last.workers.countP Worker.live ∧
        (0 < config.maxQueueSize → last.tasks.length ≤ config.maxQueueSize) ∧
          last.activeThreads ≤ last.currentThreads := by
  have h := inv_run hrun
  refine ⟨h.core, h.limit.trans (max_le hconfig le_rfl), h.current, h.bounded, ?_⟩
  rw [h.active, h.current]
  refine List.countP_mono_left fun w _ hactive ↦ ?_
  cases w <;> first | rfl | cases hactive

def growing : List Action :=
  [.call (.enqueue .high .returned), .caller 0 (.offer true), .caller 0 (.signal none)]

theorem capacity_run_growing :
    ∃ trace last, Run (step ⟨1, 2, 1⟩) (.start ⟨1, 2, 1⟩) trace last ∧
      last.currentThreads = 2 ∧ last.currentThreads = last.workers.countP Worker.live := by
  have hrun : Run (step ⟨1, 2, 1⟩) (.start ⟨1, 2, 1⟩)
      (executed (step ⟨1, 2, 1⟩) (.start ⟨1, 2, 1⟩) growing).1 _ :=
    Run.of_isSome (by decide)
  exact ⟨_, _, hrun, by decide, (capacity_run (by decide) hrun).2.2.1⟩

end MyRpc.ThreadPool
