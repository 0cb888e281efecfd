import MyRpc.ThreadPool.Capacity

/-!
# What the pool reports about itself

`tasks_failed_` is counted in a `catch` that no task reaches, because a
`packaged_task` puts the exception of its callable into the future
(`truthful_iff`).  `size()` is the number of thread handles; a handle is added
with each thread and never taken away (`size_iff`).
-/

namespace MyRpc.ThreadPool

open PartialRun

variable {config : ThreadPoolStruct} {s t : Pool}

/-! ## Counters of tasks -/

/-- Has a task: from the pop to `active_threads_--` behind its execution. -/
def Worker.busy : Worker → Bool
  | popped _ | running _ | completed => true
  | _ => false

def Pool.Quiescent (s : Pool) : Prop := s.tasks = [] ∧ ∀ w ∈ s.workers, w.busy = false

/-- `get_stats` tells which executed tasks threw, which did not, and that nobody works. -/
structure Truthful (s : Pool) : Prop where
  failed : s.tasksFailed = s.finished.countP fun t ↦ t.callable = .threw
  completed : s.tasksCompleted = s.finished.countP fun t ↦ t.callable = .returned
  active : s.activeThreads = 0

/-- Every executed task counts as completed. -/
structure Tally (s : Pool) : Prop where
  failed : s.tasksFailed = 0
  completed : s.tasksCompleted = s.finished.length

theorem tally_worker {i : ℕ} {w : Worker} {a : WorkerAction} (h : Tally s)
    (hmove : WorkerStep config s i w a t) : Tally t := by
  cases hmove with
  | takeNotify _ _ _ _ hnotified =>
      rw [hnotified.eq]
      exact ⟨h.failed, h.completed⟩
  | finish =>
      refine ⟨h.failed, ?_⟩
      simp [h.completed]
  | _ => exact ⟨h.failed, h.completed⟩

theorem tally_step {a : Action} (h : Tally s) (hstep : step config s a = some t) : Tally t := by
  cases stepped hstep with
  | call => exact ⟨h.failed, h.completed⟩
  | worker _ hmove => exact tally_worker h hmove
  | @caller i c b _ _ hmove =>
      cases hmove with
      | @enqueue priority callable _ _ _ hmove =>
          cases hmove with
          | refused | full | wake => exact ⟨h.failed, h.completed⟩
          | admitted => exact adjusted _ fun _ _ ↦ ⟨h.failed, h.completed⟩
          | signal hnotified =>
              rw [hnotified.eq]
              exact ⟨h.failed, h.completed⟩
      | pause hmove | resume hmove | shutdown hmove | stopNow hmove =>
          cases hmove <;> exact ⟨h.failed, h.completed⟩

theorem tally_run {trace : List (Pool × Action)} {last : Pool}
    (hrun : Run (step config) (.start config) trace last) : Tally last :=
  hrun.invariant Tally ⟨rfl, rfl⟩ fun _ _ _ _ h hstep ↦ tally_step h hstep

theorem Worker.busy_of_active {w : Worker} (h : w.active = true) : w.busy = true := by
  cases w <;> first | rfl | cases h

theorem inactive_of_quiescent (h : Inv config s) (hquiet : s.Quiescent) : s.activeThreads = 0 := by
  rw [h.active]
  apply List.countP_eq_zero.mpr
  intro w hw hactive
  have hidle := hquiet.2 w hw
  simp [Worker.busy_of_active hactive] at hidle

/-- **Accounting of tasks.**  When nothing is queued and no worker has a task,
the counters are right exactly when no executed task threw. -/
theorem truthful_iff {trace : List (Pool × Action)} {last : Pool}
    (hrun : Run (step config) (.start config) trace last) (hquiet : last.Quiescent) :
    Truthful last ↔ ∀ t ∈ last.finished, t.callable = .returned := by
  have htally := tally_run hrun
  constructor
  · intro h t ht
    have hcount := h.failed
    rw [htally.failed] at hcount
    have hnone := List.countP_eq_zero.mp hcount.symm t ht
    cases hcallable : t.callable with
    | returned => rfl
    | threw => exact absurd hcallable (by simpa using hnone)
  · intro h
    have hthrew : last.finished.countP (fun t ↦ t.callable = .threw) = 0 := by
      apply List.countP_eq_zero.mpr
      intro t ht
      simp [h t ht]
    have hreturned : last.finished.countP (fun t ↦ t.callable = .returned) =
        last.finished.length := by
      apply List.countP_eq_length.mpr
      intro t ht
      simp [h t ht]
    exact
      { failed := htally.failed.trans hthrew.symm
        completed := htally.completed.trans hreturned.symm
        active := inactive_of_quiescent (inv_run hrun) hquiet }

/-- One task from its submission to the end of its execution. -/
def oneTask (callable : Outcome) : List Action :=
  [.call (.enqueue .normal callable), .caller 0 (.offer false), .caller 0 (.signal none),
    .worker 0 .test, .worker 0 (.act false), .worker 0 (.take 0 none), .worker 0 .begin,
    .worker 0 .finish, .worker 0 .decrement]

def oneTaskRun (callable : Outcome) : List (Pool × Action) × Pool :=
  executed (step ⟨1, 1, 0⟩) (.start ⟨1, 1, 0⟩) (oneTask callable)

theorem run_oneTask (callable : Outcome) :
    Run (step ⟨1, 1, 0⟩) (.start ⟨1, 1, 0⟩) (oneTaskRun callable).1 (oneTaskRun callable).2 ∧
      (oneTaskRun callable).2.Quiescent := by
  cases callable with
  | returned => exact ⟨Run.of_isSome (by decide +kernel), by decide +kernel, by decide +kernel⟩
  | threw => exact ⟨Run.of_isSome (by decide +kernel), by decide +kernel, by decide +kernel⟩

theorem truthful_iff_returned :
    (oneTaskRun .returned).2.finished ≠ [] ∧ Truthful (oneTaskRun .returned).2 := by
  obtain ⟨hrun, hquiet⟩ := run_oneTask .returned
  exact ⟨by decide +kernel, (truthful_iff hrun hquiet).mpr (by decide +kernel)⟩

/-- The only task threw, and is counted as completed. -/
theorem not_truthful_threw :
    ∃ trace last, Run (step ⟨1, 1, 0⟩) (.start ⟨1, 1, 0⟩) trace last ∧ last.Quiescent ∧
      last.tasksFailed = 0 ∧ last.tasksCompleted = 1 ∧ ¬ Truthful last := by
  obtain ⟨hrun, hquiet⟩ := run_oneTask .threw
  have hfailed : (oneTaskRun .threw).2.tasksFailed = 0 := by decide +kernel
  refine ⟨_, _, hrun, hquiet, hfailed, by decide +kernel, fun h ↦ ?_⟩
  have hcount : (oneTaskRun .threw).2.finished.countP (fun t ↦ t.callable = .threw) = 1 := by
    decide +kernel
  have hone := h.failed
  rw [hfailed, hcount] at hone
  cases hone

/-! ## Thread handles -/

namespace Pool

/-- `size()`. -/
def size (s : Pool) : ℕ := s.workers.length

/-- The workers that have gone by the exit for idle ones. -/
def retirements (s : Pool) : ℕ := s.workers.countP fun w ↦ !w.live

end Pool

/-- No worker takes its handle with it. -/
theorem size_eq (h : Inv config s) : s.size = s.currentThreads + s.retirements := by
  have hlength := List.length_eq_countP_add_countP Worker.live (l := s.workers)
  rw [h.current, Pool.size, hlength]
  simp [Pool.retirements]

/-- `t` has a thread, and a handle, more than `s`. -/
def Grown (s t : Pool) : Prop := t.size = s.size + 1 ∧ t.currentThreads = s.currentThreads + 1

def Ungrown (s t : Pool) : Prop := t.size = s.size ∧ t.currentThreads ≤ s.currentThreads

theorem size_notifyAll (s : Pool) : s.notifyAll.size = s.size := List.length_map _

theorem size_notifiedOne (h : s.NotifiedOne t) : t.size = s.size := by
  cases h with
  | nobody | caller => rfl
  | worker => exact List.length_set

theorem size_worker {i : ℕ} {w : Worker} {a : WorkerAction}
    (hmove : WorkerStep config s i w a t) : Ungrown s t := by
  cases hmove with
  | retire => exact ⟨List.length_set, Nat.sub_le _ _⟩
  | takeNotify _ _ _ _ hnotified =>
      rw [hnotified.eq]
      exact ⟨List.length_set, le_rfl⟩
  | notify => exact ⟨(size_notifyAll _).trans List.length_set, le_rfl⟩
  | _ => exact ⟨List.length_set, le_rfl⟩

theorem size_adjustThreadCount (s : Pool) (created : Bool) :
    Ungrown s (adjustThreadCount config s created) ∨
      Grown s (adjustThreadCount config s created) := by
  unfold adjustThreadCount
  split
  · exact .inr ⟨List.length_append, rfl⟩
  · exact .inl ⟨rfl, le_rfl⟩

theorem size_step {a : Action} (hstep : step config s a = some t) :
    Ungrown s t ∨ Grown s t := by
  cases stepped hstep with
  | call => exact .inl ⟨rfl, le_rfl⟩
  | worker _ hmove => exact .inl (size_worker hmove)
  | @caller i c b _ _ hmove =>
      cases hmove with
      | @enqueue priority callable _ _ _ hmove =>
          cases hmove with
          | refused | full | wake => exact .inl ⟨rfl, le_rfl⟩
          | @admitted _ created =>
              exact @size_adjustThreadCount config (s.pushed i priority callable) created
          | signal hnotified =>
              refine .inl ⟨(size_notifiedOne hnotified).trans rfl, ?_⟩
              rw [hnotified.eq]
              rfl
      | pause hmove | resume hmove =>
          cases hmove with
          | exchanged | unchanged => exact .inl ⟨rfl, le_rfl⟩
          | notify => exact .inl ⟨size_notifyAll _, le_rfl⟩
      | shutdown hmove =>
          cases hmove with
          | announce | notify => exact .inl ⟨size_notifyAll _, le_rfl⟩
          | _ => exact .inl ⟨rfl, le_rfl⟩
      | stopNow hmove =>
          cases hmove with
          | clear | join => exact .inl ⟨rfl, le_rfl⟩
          | notify => exact .inl ⟨size_notifyAll _, le_rfl⟩

/-- **Handles accumulate with retirements.**  The size of the pool keeps to
`max_threads` in a run exactly when no thread is added once the present threads
and those that have retired are as many. -/
theorem size_iff (hconfig : config.coreThreads ≤ config.maxThreads)
    {trace : List (Pool × Action)} {last : Pool}
    (hrun : Run (step config) (.start config) trace last) :
    (∀ s a t, (s, a) ∈ trace → step config s a = some t → t.size ≤ config.maxThreads) ↔
      ∀ s a t, (s, a) ∈ trace → step config s a = some t → s.currentThreads < t.currentThreads →
        s.currentThreads + s.retirements < config.maxThreads := by
  have hinv : ∀ s a, (s, a) ∈ trace → Inv config s := by
    intro s a hmem
    obtain ⟨before, -, -, hbefore, -, -, -⟩ := hrun.split hmem
    exact inv_run hbefore
  constructor
  · intro h s a t hmem hstep hgrows
    rcases size_step hstep with ⟨-, hle⟩ | ⟨hsize, -⟩
    · omega
    · have ht := h s a t hmem hstep
      rw [← size_eq (hinv s a hmem)]
      omega
  · intro h
    have hgrow : ∀ s a t, (s, a) ∈ trace → s.size ≤ config.maxThreads →
        step config s a = some t → t.size ≤ config.maxThreads := by
      intro s a t hmem hs hstep
      rcases size_step hstep with ⟨hsize, -⟩ | ⟨hsize, hone⟩
      · exact hsize.trans_le hs
      · have hroom := h s a t hmem hstep (by omega)
        rw [← size_eq (hinv s a hmem)] at hroom
        omega
    intro s a t hmem hstep
    obtain ⟨before, t', after, hbefore, -, -, rfl⟩ := hrun.split hmem
    refine hgrow s a t hmem ?_ hstep
    refine hbefore.invariant (fun u ↦ u.size ≤ config.maxThreads) ?_ ?_
    · simpa [Pool.size, Pool.start] using hconfig
    · intro u b v hmem' hu hstep'
      exact hgrow u b v (List.mem_append_left _ hmem') hu hstep'

theorem size_iff_growing :
    ∃ trace last, Run (step ⟨1, 2, 1⟩) (.start ⟨1, 2, 1⟩) trace last ∧ last.currentThreads = 2 ∧
      ∀ s a t, (s, a) ∈ trace → step ⟨1, 2, 1⟩ s a = some t → t.size ≤ 2 := by
  have hrun : Run (step ⟨1, 2, 1⟩) (.start ⟨1, 2, 1⟩)
      (executed (step ⟨1, 2, 1⟩) (.start ⟨1, 2, 1⟩) growing).1 _ :=
    Run.of_isSome (by decide)
  refine ⟨_, _, hrun, by decide, (size_iff (by decide) hrun).mpr fun s a t hmem hstep hgrows ↦ ?_⟩
  have hroom : ∀ e ∈ (executed (step ⟨1, 2, 1⟩) (.start ⟨1, 2, 1⟩) growing).1,
      e.1.currentThreads + e.1.retirements < 2 ∨
        (step ⟨1, 2, 1⟩ e.1 e.2).all (fun t ↦ t.currentThreads ≤ e.1.currentThreads) = true := by
    decide +kernel
  rcases hroom (s, a) hmem with hroom | hsame
  · exact hroom
  · simp only [hstep, Option.all_some, decide_eq_true_eq] at hsame
    omega

/-- A burst, an idle period in which the added worker retires, and a burst. -/
def twoBursts : List Action :=
  [.call (.enqueue .normal .returned), .caller 0 (.offer true), .caller 0 (.signal none),
    .worker 0 .test, .worker 0 (.act false), .worker 0 (.take 0 none), .worker 0 .begin,
    .worker 0 .finish, .worker 0 .decrement, .worker 1 .test, .worker 1 .sleep,
    .worker 1 (.wake true), .worker 1 .test, .worker 1 (.act true),
    .call (.enqueue .normal .returned), .caller 1 (.offer true)]

/-- A pool of at most two threads reports three. -/
theorem not_size_twoBursts :
    ∃ trace last, Run (step ⟨1, 2, 0⟩) (.start ⟨1, 2, 0⟩) trace last ∧
      last.currentThreads = 2 ∧ ¬ last.size ≤ 2 :=
  ⟨_, (executed (step ⟨1, 2, 0⟩) (.start ⟨1, 2, 0⟩) twoBursts).2,
    Run.of_isSome (by decide +kernel), by decide +kernel, by decide +kernel⟩

end MyRpc.ThreadPool
