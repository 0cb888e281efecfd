import MyRpc.ThreadPool.Admission

/-!
# `pause`

A worker looks at `state_` before it looks at the queue, and `pause` does not
take the mutex: a worker that has seen the pool running takes its task after
`pause` has returned (`pauseHolds_iff`).
-/

namespace MyRpc.ThreadPool

open PartialRun

variable {config : ThreadPoolStruct} {s t : Pool}

/-- A call that can still end a pause: `resume` before its exchange, or
`stop_now` before its critical section. -/
def Caller.reopens : Caller → Bool
  | resume .exchanging | stopNow .locking => true
  | _ => false

def Call.reopens : Call → Bool
  | resume | stopNow => true
  | _ => false

/-- The pool is paused, and no call that has been begun will end that. -/
structure AtRest (s : Pool) : Prop where
  paused : s.state = .paused
  kept : ∀ c ∈ s.callers, c.reopens = false

/-- A worker stands behind its look at `state_`, with a task in front of it. -/
def Stray (s : Pool) : Prop := .popping ∈ s.workers ∧ s.tasks ≠ []

instance (s : Pool) : Decidable (Stray s) := inferInstanceAs (Decidable (_ ∧ _))

/-- Nobody calls `resume` or `stop_now`. -/
def Unopened (steps : List (Pool × Action)) : Prop :=
  ∀ u c, (u, .call c) ∈ steps → c.reopens = false

/-- When the call `i` of `pause` has returned, no worker takes a task out of
the queue until `resume` or `stop_now` is called. -/
def PauseHolds (config : ThreadPoolStruct) (s : Pool) (i : ℕ) : Prop :=
  ∀ t steps last, step config s (.caller i .notify) = some t → Run (step config) t steps last →
    Unopened steps → ∀ j k woken, step config last (.worker j (.take k woken)) = none

/-! ## A pool at rest -/

theorem wakeable_not_reopens : Wakeable fun c ↦ c.reopens = false where
  shutdown _ := rfl
  enqueue _ _ _ := rfl

theorem paused_worker {i : ℕ} {w : Worker} {a : WorkerAction} (h : AtRest s)
    (hmove : WorkerStep config s i w a t) : AtRest t :=
  ⟨hmove.frame.2.1.trans h.paused, wakeable_not_reopens.worker h.kept hmove⟩

theorem paused_caller {i : ℕ} {c : Caller} {a : CallerAction} (h : AtRest s)
    (hclosed : ClosedByExchange s) (hslot : s.callers[i]? = some c)
    (hmove : CallerStep config s i c a t) : AtRest t := by
  have hmem := Slots.mem_of_slot hslot
  have hkept := h.kept c hmem
  have hall : ∀ c ∈ s.callers, c.exchanged = false := by
    apply hclosed.resolve_left
    rintro (hstate | hstate) <;> simp [h.paused] at hstate
  have hset : ∀ c' : Caller, c'.reopens = false →
      ∀ d ∈ (s.setCaller i c').callers, d.reopens = false :=
    fun c' hc' ↦ Slots.forall_mem_set h.kept hc'
  cases hmove with
  | enqueue hmove =>
      exact ⟨hmove.frame.2.trans h.paused, wakeable_not_reopens.enqueueStep h.kept hmove⟩
  | pause hmove =>
      refine ⟨?_, wakeable_not_reopens.exchange h.kept rfl rfl hmove⟩
      cases hmove with
      | exchanged => rfl
      | unchanged | notify => exact h.paused
  | resume hmove =>
      cases hmove with
      | exchanged | unchanged => cases hkept
      | notify => exact ⟨h.paused, wakeable_not_reopens.notifyAll (hset _ rfl)⟩
  | shutdown hmove =>
      have hexchanged := hall _ hmem
      cases hmove with
      | exchanged hstate => simp [h.paused] at hstate
      | unchanged | answer => exact ⟨h.paused, hset _ rfl⟩
      | _ => cases hexchanged
  | stopNow hmove =>
      cases hmove with
      | clear => cases hkept
      | notify => exact ⟨h.paused, wakeable_not_reopens.notifyAll (hset _ rfl)⟩
      | join => exact ⟨h.paused, hset _ rfl⟩

theorem paused_step {a : Action} (h : AtRest s) (hclosed : ClosedByExchange s)
    (hcall : ∀ c, a = .call c → c.reopens = false) (hstep : step config s a = some t) :
    AtRest t := by
  cases stepped hstep with
  | call c =>
      refine ⟨h.paused, fun c' hc' ↦ ?_⟩
      rcases List.mem_append.mp hc' with hold | hnew
      · exact h.kept c' hold
      · rw [List.mem_singleton.mp hnew]
        have hkept := hcall c rfl
        cases c <;> first | rfl | cases hkept
  | worker _ hmove => exact paused_worker h hmove
  | caller hslot hmove => exact paused_caller h hclosed hslot hmove

/-! ## Strays -/

theorem not_stray_worker {i : ℕ} {w : Worker} {a : WorkerAction} (h : ¬ Stray s)
    (hpaused : s.state = .paused) (hslot : s.workers[i]? = some w)
    (hmove : WorkerStep config s i w a t) : ¬ Stray t := by
  have hset : ∀ w' : Worker, w' ≠ .popping → ¬ Stray (s.setWorker i w') := by
    rintro w' hw' ⟨hmem, htasks⟩
    rcases List.mem_or_eq_of_mem_set hmem with hold | hnew
    · exact h ⟨hold, htasks⟩
    · exact hw' hnew.symm
  cases hmove with
  | goOn hrunning => exact absurd hpaused hrunning
  | takeNotify htask | take htask =>
      refine absurd ⟨Slots.mem_of_slot hslot, fun hempty ↦ ?_⟩ h
      simp [hempty] at htask
  | checkState | checkActive | checkEmpty => exact hset _ (by split <;> simp)
  | notify =>
      rintro ⟨hmem, htasks⟩
      obtain ⟨w', hw', hwoken⟩ := List.mem_map.mp hmem
      have hpopping : w' = .popping := by cases w' <;> first | rfl | cases hwoken
      exact hset (.locking false) (by simp) ⟨hpopping ▸ hw', htasks⟩
  | begin => exact hset (.running _) (by simp)
  | retire => exact hset .retired (by simp)
  | finish => exact hset .completed (by simp)
  | decrement => exact hset .checkState (by simp)
  | _ => exact hset _ (by simp)

theorem not_stray_notifyAll (h : ¬ Stray s) : ¬ Stray s.notifyAll := by
  rintro ⟨hmem, htasks⟩
  obtain ⟨w, hw, hwoken⟩ := List.mem_map.mp hmem
  have hpopping : w = .popping := by cases w <;> first | rfl | cases hwoken
  exact h ⟨hpopping ▸ hw, htasks⟩

theorem not_stray_notifiedOne (h : ¬ Stray s) (hnotified : s.NotifiedOne t) : ¬ Stray t := by
  cases hnotified with
  | nobody | caller => exact h
  | worker =>
      rintro ⟨hmem, htasks⟩
      rcases List.mem_or_eq_of_mem_set hmem with hold | hnew
      · exact h ⟨hold, htasks⟩
      · cases hnew

/-- With the mutex free nobody stands in front of the queue. -/
theorem not_mem_popping_of_free (h : s.locked = false) : .popping ∉ s.workers := by
  intro hmem
  have hworkers := (Bool.or_eq_false_iff.mp h).1
  exact absurd rfl (List.any_eq_false.mp hworkers .popping hmem)

theorem not_stray_admitted {i : ℕ} {priority : TaskPriority} {callable : Outcome} {created : Bool}
    (hfree : s.locked = false) :
    ¬ Stray (adjustThreadCount config (s.pushed i priority callable) created) := by
  have hnone := not_mem_popping_of_free hfree
  rintro ⟨hmem, -⟩
  unfold adjustThreadCount at hmem
  split at hmem
  · rcases List.mem_append.mp hmem with hold | hnew
    · exact hnone hold
    · cases List.mem_singleton.mp hnew
  · exact hnone hmem

theorem not_stray_step {a : Action} (h : ¬ Stray s) (hpaused : s.state = .paused)
    (hstep : step config s a = some t) : ¬ Stray t := by
  cases stepped hstep with
  | call => exact h
  | worker hslot hmove => exact not_stray_worker h hpaused hslot hmove
  | caller _ hmove =>
      cases hmove with
      | enqueue hmove =>
          cases hmove with
          | refused | full | wake => exact h
          | admitted hfree => exact not_stray_admitted hfree
          | signal hnotified => exact not_stray_notifiedOne (s := s.setCaller _ _) h hnotified
      | pause hmove | resume hmove =>
          cases hmove with
          | exchanged | unchanged => exact h
          | notify => exact not_stray_notifyAll (s := s.setCaller _ _) h
      | shutdown hmove =>
          cases hmove with
          | announce | notify => exact not_stray_notifyAll (s := s.setCaller _ _) h
          | _ => exact h
      | stopNow hmove =>
          cases hmove with
          | clear => exact fun hstray ↦ hstray.2 rfl
          | notify => exact not_stray_notifyAll (s := s.setCaller _ _) h
          | join => exact h

/-! ## What a stray does -/

theorem exists_top (h : s.tasks ≠ []) :
    ∃ (k : ℕ) (task : TaskWrapper), s.tasks[k]? = some task ∧ s.IsTop task := by
  obtain ⟨task, hmem, htop⟩ := s.tasks.toFinset.exists_max_image (fun u ↦ u.priority.toNat)
    (List.toFinset_nonempty_iff _ |>.mpr h)
  obtain ⟨k, hk⟩ := List.mem_iff_getElem?.mp (List.mem_toFinset.mp hmem)
  exact ⟨k, task, hk, fun u hu ↦ htop u (List.mem_toFinset.mpr hu)⟩

theorem exists_notifyNotFull (s : Pool) : ∃ woken t, s.notifyNotFull woken = some t := by
  by_cases hany : s.callers.any Caller.waitsNotFull = true
  · obtain ⟨c, hc, hwaits⟩ := List.any_eq_true.mp hany
    obtain ⟨i, hi⟩ := List.mem_iff_getElem?.mp hc
    cases c with
    | enqueue priority callable pc =>
        cases pc with
        | asleep =>
            refine ⟨some i, s.setCaller i (.enqueue priority callable (.locking true)), ?_⟩
            simp only [Pool.notifyNotFull, hi]
        | _ => cases hwaits
    | _ => cases hwaits
  · exact ⟨none, s, by simp only [Pool.notifyNotFull, if_neg hany]⟩

/-- Whoever stands in front of a queue that is not empty can take a task. -/
theorem takes_of_popping {j : ℕ} (hslot : s.workers[j]? = some .popping) (htasks : s.tasks ≠ []) :
    ∃ k woken t, step config s (.worker j (.take k woken)) = some t := by
  obtain ⟨k, task, htask, htop⟩ := exists_top htasks
  by_cases hroom : 0 < config.maxQueueSize ∧ (s.tasks.eraseIdx k).length < config.maxQueueSize
  · obtain ⟨woken, t, hwoken⟩ := exists_notifyNotFull (s.taken j k task)
    refine ⟨k, woken, t, ?_⟩
    simp only [step, hslot, Option.bind_some, stepWorker, htask, if_pos htop, if_pos hroom]
    exact hwoken
  · refine ⟨k, none, s.taken j k task, ?_⟩
    simp only [step, hslot, Option.bind_some, stepWorker, htask, if_pos htop, if_neg hroom, if_true]
    rfl

/-! ## The pause -/

/-- What is true from the return of `pause` on. -/
structure Paused (s : Pool) : Prop where
  atRest : AtRest s
  closed : ClosedByExchange s
  none : ¬ Stray s

theorem Paused.next {a : Action} (h : Paused s) (hcall : ∀ c, a = .call c → c.reopens = false)
    (hstep : step config s a = some t) : Paused t :=
  ⟨paused_step h.atRest h.closed hcall hstep, closedByExchange_step h.closed hstep,
    not_stray_step h.none h.atRest.paused hstep⟩

theorem Paused.after {steps : List (Pool × Action)} {last : Pool} (h : Paused s)
    (hrun : Run (step config) s steps last) (hsteps : Unopened steps) : Paused last := by
  refine hrun.invariant Paused h fun u a v hmem hu hstep ↦ hu.next ?_ hstep
  rintro c rfl
  exact hsteps u c hmem

/-- **When `pause` takes effect.**  A call of `pause` that has changed the state
returns, and nobody is about to end the pause: no task is taken until somebody
calls `resume` or `stop_now`, exactly when no worker was behind its look at the
state with a task in front of it. -/
theorem pauseHolds_iff {trace : List (Pool × Action)} {last : Pool}
    (hrun : Run (step config) (.start config) trace last) {i : ℕ}
    (hslot : last.callers[i]? = some (.pause .notifying)) (hrest : AtRest last) :
    PauseHolds config last i ↔ ¬ Stray last := by
  constructor
  · rintro h ⟨hmem, htasks⟩
    obtain ⟨j, hj⟩ := List.mem_iff_getElem?.mp hmem
    have hnotify : step config last (.caller i .notify) =
        some (last.setCaller i (.pause .returned)).notifyAll := by
      simp only [step, hslot, Option.bind_some, stepCaller, stepPause]
    have hpopping : (last.setCaller i (.pause .returned)).notifyAll.workers[j]? =
        some .popping := by
      simp [Pool.notifyAll, Pool.setCaller, hj, Worker.woken]
    obtain ⟨k, woken, t, htake⟩ := @takes_of_popping config _ _ hpopping htasks
    have hnone := h _ [] _ hnotify .nil (fun u c hc ↦ by cases hc) j k woken
    rw [htake] at hnone
    cases hnone
  · intro hstray t steps last' hnotify hsteps hunopened j k woken
    have hpaused : Paused last := ⟨hrest, closedByExchange_run hrun, hstray⟩
    have hlast := (hpaused.next (fun c hc ↦ by cases hc) hnotify).after hsteps hunopened
    cases htake : step config last' (.worker j (.take k woken)) with
    | none => rfl
    | some u =>
        cases stepped htake with
        | worker hworker hmove =>
            cases hmove with
            | takeNotify htask | take htask =>
                refine absurd ⟨Slots.mem_of_slot hworker, fun hempty ↦ ?_⟩ hlast.none
                simp [hempty] at htask

/-- A task is queued, and `pause` has changed the state; the worker has got as
far as `looks` says before that. -/
def pausing (looks : List Action) : List Action :=
  [.call (.enqueue .normal .returned), .caller 0 (.offer false), .caller 0 (.signal none)] ++
    looks ++ [.call .pause, .caller 1 .exchange]

def pausingRun (looks : List Action) : List (Pool × Action) × Pool :=
  executed (step ⟨1, 1, 0⟩) (.start ⟨1, 1, 0⟩) (pausing looks)

theorem pauseHolds_iff_early :
    (pausingRun [.worker 0 .test]).2.tasks ≠ [] ∧
      PauseHolds ⟨1, 1, 0⟩ (pausingRun [.worker 0 .test]).2 1 := by
  have hrun : Run (step ⟨1, 1, 0⟩) (.start ⟨1, 1, 0⟩) (pausingRun [.worker 0 .test]).1
      (pausingRun [.worker 0 .test]).2 := Run.of_isSome (by decide +kernel)
  refine ⟨by decide +kernel, ?_⟩
  exact (pauseHolds_iff hrun (by decide +kernel) ⟨by decide +kernel, by decide +kernel⟩).mpr
    (by decide +kernel)

/-- The worker has seen the pool running when `pause` changes the state, and
takes the task after `pause` has returned. -/
theorem not_pauseHolds_late :
    ∃ trace last, Run (step ⟨1, 1, 0⟩) (.start ⟨1, 1, 0⟩) trace last ∧
      last.callers[1]? = some (.pause .notifying) ∧ AtRest last ∧
        ¬ PauseHolds ⟨1, 1, 0⟩ last 1 := by
  refine ⟨_, (pausingRun [.worker 0 .test, .worker 0 (.act false)]).2,
    Run.of_isSome (by decide +kernel), by decide +kernel, ⟨by decide +kernel, by decide +kernel⟩,
    fun h ↦ ?_⟩
  have hreturns : (step ⟨1, 1, 0⟩ (pausingRun [.worker 0 .test, .worker 0 (.act false)]).2
      (.caller 1 .notify)).isSome = true := by decide +kernel
  obtain ⟨t, hreturn⟩ := Option.isSome_iff_exists.mp hreturns
  have hnone := h t [] t hreturn .nil (fun u c hc ↦ by cases hc) 0 0 none
  have htake : ((step ⟨1, 1, 0⟩ (pausingRun [.worker 0 .test, .worker 0 (.act false)]).2
      (.caller 1 .notify)).bind fun t ↦ step ⟨1, 1, 0⟩ t (.worker 0 (.take 0 none))) ≠ none := by
    decide +kernel
  rw [hreturn, Option.bind_some] at htake
  exact htake hnone

end MyRpc.ThreadPool
