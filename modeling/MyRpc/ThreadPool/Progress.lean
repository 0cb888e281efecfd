import MyRpc.Library.Reaching
import MyRpc.ThreadPool.Completion
import MyRpc.ThreadPool.Pausing

/-!
# No deadlock

Whatever has happened to a pool that is not paused, its own threads can execute
everything that was accepted and not thrown away: nobody who holds the mutex waits
for anything, and a worker that is left comes to the queue again and again, at the
latest when its `keep_alive` time is over.  A paused pool needs one call of `resume`
for it.
-/

namespace MyRpc.ThreadPool

open PartialRun

/-- A step that a worker does by itself, where a sleeping one wakes up only when its own
`keep_alive` time is over; or the last step of a caller of `shutdown` that goes to sleep. -/
def Action.ofPool : Action → Prop
  | .worker _ (.wake timedOut) => timedOut = true
  | .worker _ _ => True
  | .caller _ .sleep => True
  | _ => False

/-- How far a worker is from the next dequeue, or from the end of its task. -/
def Worker.rank : Worker → ℕ
  | retired | exited => 0
  | popping => 1
  | acting _ => 2
  | locking _ => 3
  | asleep | notifying => 4
  | sleeping | checkEmpty => 5
  | checkActive => 6
  | checkState => 7
  | completed => 8
  | running _ => 9
  | popped _ => 10

def Caller.rank : Caller → ℕ
  | shutdown .sleeping => 1
  | _ => 0

namespace Pool

def distance (s : Pool) : ℕ :=
  10 * s.tasks.length + (s.workers.map Worker.rank).sum + (s.callers.map Caller.rank).sum

/-- No task is queued, and none is with a worker. -/
def Idle (s : Pool) : Prop := s.tasks = [] ∧ s.held = []

end Pool

variable {config : ThreadPoolStruct} {s t : Pool}

/-- What a pool needs in order to go on by itself. -/
structure Going (config : ThreadPoolStruct) (s : Pool) : Prop where
  inv : Inv config s
  present : s.stop = false → ∀ w ∈ s.workers, w ≠ .exited
  unpaused : s.state ≠ .paused

/-! ## Workers leave a pool only when it is stopped -/

theorem woken_ne_exited {w : Worker} (h : w ≠ .exited) : w.woken ≠ .exited := by
  cases w with
  | exited => exact absurd rfl h
  | _ => simp [Worker.woken]

theorem present_notifyAll (h : ∀ w ∈ s.workers, w ≠ .exited) :
    ∀ w ∈ s.notifyAll.workers, w ≠ .exited := by
  intro w hw
  obtain ⟨w', hw', rfl⟩ := List.mem_map.mp hw
  exact woken_ne_exited (h w' hw')

theorem present_workerStep {i : ℕ} {w : Worker} {a : WorkerAction} (hinv : Inv config s)
    (hstop : s.stop = false) (h : ∀ w ∈ s.workers, w ≠ .exited)
    (hmove : WorkerStep config s i w a t) : ∀ w ∈ t.workers, w ≠ .exited := by
  cases hmove with
  | exit hstopped =>
      have hset : s.stop = true := hstopped.elim id hinv.stopped.mpr
      rw [hstop] at hset
      cases hset
  | takeNotify _ _ _ _ hnotified =>
      rw [hnotified.eq]
      exact Slots.forall_mem_set h (by simp)
  | checkState | checkActive | checkEmpty =>
      refine Slots.forall_mem_set h ?_
      split <;> simp
  | notify => exact present_notifyAll (Slots.forall_mem_set h (by simp))
  | _ => exact Slots.forall_mem_set h (by simp)

theorem present_step {a : Action} (hinv : Inv config s)
    (h : s.stop = false → ∀ w ∈ s.workers, w ≠ .exited) (hstep : step config s a = some t) :
    t.stop = false → ∀ w ∈ t.workers, w ≠ .exited := by
  intro hstop
  have hbefore : s.stop = false := by
    by_contra hset
    rw [(stop_step (Bool.eq_true_of_not_eq_false hset) hstep).1] at hstop
    cases hstop
  have hall := h hbefore
  cases stepped hstep with
  | call => exact hall
  | worker _ hmove => exact present_workerStep hinv hbefore hall hmove
  | caller _ hmove =>
      cases hmove with
      | enqueue hmove =>
          cases hmove with
          | refused | full | wake => exact hall
          | admitted =>
              unfold adjustThreadCount
              split
              · intro w hw
                rcases List.mem_append.mp hw with hold | hnew
                · exact hall w hold
                · rw [List.mem_singleton.mp hnew]
                  simp
              · exact hall
          | signal hnotified =>
              cases hnotified with
              | nobody | caller => exact hall
              | worker => exact Slots.forall_mem_set hall (by simp)
      | pause hmove | resume hmove =>
          cases hmove with
          | exchanged | unchanged => exact hall
          | notify => exact present_notifyAll hall
      | shutdown hmove =>
          cases hmove with
          | announce | notify => exact present_notifyAll hall
          | _ => exact hall
      | stopNow hmove =>
          cases hmove with
          | clear | join => exact hall
          | notify => exact present_notifyAll hall

theorem present_run {trace : List (Pool × Action)} {last : Pool}
    (hrun : Run (step config) (.start config) trace last) :
    Inv config last ∧ (last.stop = false → ∀ w ∈ last.workers, w ≠ .exited) := by
  refine hrun.invariant
    (fun s ↦ Inv config s ∧ (s.stop = false → ∀ w ∈ s.workers, w ≠ .exited))
    ⟨inv_start config, fun _ w hw ↦ ?_⟩ fun _ _ _ _ h hstep ↦
      ⟨inv_step h.1 hstep, present_step h.1 h.2 hstep⟩
  rw [(List.mem_replicate.mp hw).2]
  simp

/-! ## A step nearer -/

theorem distance_setWorker {i : ℕ} {w : Worker} (w' : Worker) (hslot : s.workers[i]? = some w)
    (hlt : w'.rank < w.rank) : (s.setWorker i w').distance < s.distance := by
  have hsum := Slots.sum_set hslot w' Worker.rank
  show 10 * s.tasks.length + ((s.workers.set i w').map Worker.rank).sum +
    (s.callers.map Caller.rank).sum < _
  rw [Pool.distance]
  omega

theorem distance_notifyAll (s : Pool) : s.notifyAll.distance ≤ s.distance := by
  have hworkers : ((s.workers.map Worker.woken).map Worker.rank).sum ≤
      (s.workers.map Worker.rank).sum := by
    rw [List.map_map]
    refine List.sum_le_sum fun w _ ↦ ?_
    cases w <;> simp [Worker.woken, Worker.rank]
  have hcallers : ((s.callers.map Caller.woken).map Caller.rank) = s.callers.map Caller.rank := by
    rw [List.map_map]
    exact List.map_congr_left fun c _ ↦ Caller.apply_woken (f := Caller.rank) rfl c
  show 10 * s.tasks.length + ((s.workers.map Worker.woken).map Worker.rank).sum +
    ((s.callers.map Caller.woken).map Caller.rank).sum ≤ _
  rw [hcallers, Pool.distance]
  omega

theorem rank_notifiedNotFull (hnotified : s.NotifiedNotFull t) :
    (t.callers.map Caller.rank).sum = (s.callers.map Caller.rank).sum := by
  cases hnotified with
  | nobody => rfl
  | @caller i priority callable hslot =>
      exact Slots.sum_set hslot (.enqueue priority callable (.locking true)) Caller.rank

theorem distance_taken {i k : ℕ} {task : TaskWrapper} (hslot : s.workers[i]? = some .popping)
    (htask : s.tasks[k]? = some task) : (s.taken i k task).distance < s.distance := by
  have hsum := Slots.sum_set hslot (.popped task) Worker.rank
  have hlt := (List.getElem?_eq_some_iff.mp htask).1
  have hlength := List.length_eraseIdx_of_lt hlt
  show 10 * (s.tasks.eraseIdx k).length + ((s.workers.set i (.popped task)).map Worker.rank).sum +
    (s.callers.map Caller.rank).sum < _
  simp only [Worker.rank] at hsum
  rw [Pool.distance]
  omega

/-- With a task in the queue and the pool not paused, no step of a worker leads
it away from the queue. -/
theorem distance_workerStep {i : ℕ} {w : Worker} {a : WorkerAction}
    (hslot : s.workers[i]? = some w) (hmove : WorkerStep config s i w a t)
    (hready : w.holding = none → s.tasks ≠ [] ∧ s.workerReady = true ∧ s.state ≠ .paused) :
    t.distance < s.distance := by
  cases hmove with
  | unready _ hunready =>
      rw [(hready rfl).2.1] at hunready
      cases hunready
  | paused hpaused => exact absurd hpaused (hready rfl).2.2
  | skip hempty => exact absurd hempty (hready rfl).1
  | takeNotify htask _ _ _ hnotified =>
      have hrank := rank_notifiedNotFull hnotified
      have htaken := distance_taken hslot htask
      rw [hnotified.eq]
      rw [Pool.distance] at htaken ⊢
      simp only [hrank]
      exact htaken
  | take htask => exact distance_taken hslot htask
  | notify =>
      exact (distance_notifyAll _).trans_lt (distance_setWorker _ hslot (by simp [Worker.rank]))
  | checkState | checkActive | checkEmpty =>
      refine distance_setWorker _ hslot ?_
      split <;> simp [Worker.rank]
  | ready | timedOut | sleep | wake | exit | goOn =>
      exact distance_setWorker _ hslot (by simp [Worker.rank])
  | retire => exact distance_setWorker .retired hslot (by simp [Worker.rank])
  | begin => exact distance_setWorker (.running _) hslot (by simp [Worker.rank])
  | finish => exact distance_setWorker .completed hslot (by simp [Worker.rank])
  | decrement => exact distance_setWorker .checkState hslot (by simp [Worker.rank])

/-- A worker that is there can do its next step by itself, unless it waits for the mutex. -/
theorem exists_workerStep {i : ℕ} {w : Worker} (hslot : s.workers[i]? = some w)
    (hlive : w.live = true) (hpresent : w ≠ .exited) (htasks : w.holding = none → s.tasks ≠ [])
    (hmutex : w.holdsMutex = true ∨ w.holding ≠ none ∨ s.locked = false) :
    ∃ a t, (Action.worker i a).ofPool ∧ step config s (.worker i a) = some t := by
  have hstep : ∀ a t, (Action.worker i a).ofPool → stepWorker config s i w a = some t →
      ∃ a t, (Action.worker i a).ofPool ∧ step config s (.worker i a) = some t := by
    intro a t hown h
    refine ⟨a, t, hown, ?_⟩
    simp only [step, hslot, Option.bind_some, h]
  cases w with
  | retired => cases hlive
  | exited => exact absurd rfl hpresent
  | popping =>
      obtain ⟨k, woken, t, htake⟩ := @takes_of_popping config _ _ hslot (htasks rfl)
      exact ⟨.take k woken, t, trivial, htake⟩
  | locking timedOut =>
      have hfree : s.locked = false := by
        rcases hmutex with hholds | hholding | hfree
        · cases hholds
        · exact absurd rfl hholding
        · exact hfree
      refine ⟨.test, ?_⟩
      simp only [step, hslot, Option.bind_some, stepWorker, hfree, Bool.false_eq_true, if_false]
      split
      · exact ⟨_, trivial, rfl⟩
      · split <;> exact ⟨_, trivial, rfl⟩
  | acting hasTask =>
      refine ⟨.act false, ?_⟩
      simp only [step, hslot, Option.bind_some, stepWorker, Bool.false_eq_true, and_false, if_false]
      split
      · exact ⟨_, trivial, rfl⟩
      · split <;> exact ⟨_, trivial, rfl⟩
  | sleeping => exact hstep .sleep _ trivial rfl
  | asleep => exact hstep (.wake true) _ rfl rfl
  | popped task => exact hstep .begin _ trivial rfl
  | running task => exact hstep .finish _ trivial rfl
  | completed => exact hstep .decrement _ trivial rfl
  | checkState | checkActive | checkEmpty => exact hstep .check _ trivial rfl
  | notifying => exact hstep .notify _ trivial rfl

/-! ## Somebody can always go on -/

theorem ready_of_tasks (h : Going config s) (htasks : s.tasks ≠ []) : s.workerReady = true := by
  have hunstopped : s.stop = false := by
    by_contra hset
    exact htasks (h.inv.drained (Bool.eq_true_of_not_eq_false hset))
  have hstate : s.state ≠ .stopped := by
    intro hstopped
    rw [h.inv.stopped.mpr hstopped] at hunstopped
    cases hunstopped
  have hqueue : s.tasks.isEmpty = false := by simpa using htasks
  have hpaused := h.unpaused
  cases hs : s.state <;> simp_all [Pool.workerReady]

theorem going_worker {i : ℕ} {a : WorkerAction} (h : Going config s)
    (hstep : step config s (.worker i a) = some t) : Going config t where
  inv := inv_step h.inv hstep
  present := present_step h.inv h.present hstep
  unpaused := by
    cases stepped hstep with
    | worker _ hmove => exact hmove.frame.2.1 ▸ h.unpaused

/-- A worker that can do its next step can do one that leads nearer. -/
theorem nearer_worker {i : ℕ} {w : Worker} (h : Going config s) (hslot : s.workers[i]? = some w)
    (hlive : w.live = true) (hpresent : w ≠ .exited) (htasks : w.holding = none → s.tasks ≠ [])
    (hmutex : w.holdsMutex = true ∨ w.holding ≠ none ∨ s.locked = false) :
    ∃ a t, a.ofPool ∧ step config s a = some t ∧ Going config t ∧ t.distance < s.distance := by
  obtain ⟨a, t, hown, hstep⟩ := @exists_workerStep config s i w hslot hlive hpresent htasks hmutex
  refine ⟨.worker i a, t, hown, hstep, going_worker h hstep, ?_⟩
  cases stepped hstep with
  | worker hslot' hmove =>
      obtain rfl := Option.some.inj (hslot.symm.trans hslot')
      exact distance_workerStep hslot hmove fun hholding ↦
        ⟨htasks hholding, ready_of_tasks h (htasks hholding), h.unpaused⟩

theorem nearer_caller {i : ℕ} (h : Going config s)
    (hslot : s.callers[i]? = some (.shutdown .sleeping)) :
    ∃ a t, a.ofPool ∧ step config s a = some t ∧ Going config t ∧ t.distance < s.distance := by
  have hstep : step config s (.caller i .sleep) = some (s.setCaller i (.shutdown .asleep)) := by
    simp only [step, hslot, Option.bind_some, stepCaller, stepShutdown]
  refine ⟨.caller i .sleep, _, True.intro, hstep, ⟨inv_step h.inv hstep,
    present_step h.inv h.present hstep, h.unpaused⟩, ?_⟩
  have hsum := Slots.sum_set hslot (.shutdown .asleep) Caller.rank
  simp only [Caller.rank] at hsum
  show 10 * s.tasks.length + (s.workers.map Worker.rank).sum +
    ((s.callers.set i (.shutdown .asleep)).map Caller.rank).sum < _
  rw [Pool.distance]
  omega

theorem nearer (hcore : 1 ≤ config.coreThreads) (h : Going config s) (hbusy : ¬ s.Idle) :
    ∃ a t, a.ofPool ∧ step config s a = some t ∧ Going config t ∧ t.distance < s.distance := by
  by_cases hheld : s.held = []
  · have htasks : s.tasks ≠ [] := fun hempty ↦ hbusy ⟨hempty, hheld⟩
    have hunstopped : s.stop = false := by
      by_contra hset
      exact htasks (h.inv.drained (Bool.eq_true_of_not_eq_false hset))
    have hpresent := h.present hunstopped
    by_cases hworker : ∃ w ∈ s.workers, w.holdsMutex = true
    · obtain ⟨w, hw, hholds⟩ := hworker
      obtain ⟨i, hi⟩ := List.mem_iff_getElem?.mp hw
      have hlive : w.live = true := by cases w <;> first | rfl | cases hholds
      exact nearer_worker h hi hlive (hpresent w hw) (fun _ ↦ htasks) (.inl hholds)
    by_cases hcaller : ∃ c ∈ s.callers, c.holdsMutex = true
    · obtain ⟨c, hc, hholds⟩ := hcaller
      obtain ⟨i, hi⟩ := List.mem_iff_getElem?.mp hc
      have hsleeping : c = .shutdown .sleeping := by
        cases c with
        | shutdown pc => cases pc <;> first | rfl | cases hholds
        | _ => cases hholds
      exact nearer_caller h (hsleeping ▸ hi)
    · have hfree : s.locked = false := by
        push Not at hworker hcaller
        rw [Pool.locked, Bool.or_eq_false_iff, List.any_eq_false, List.any_eq_false]
        exact ⟨hworker, hcaller⟩
      have hcount : 0 < s.workers.countP Worker.live := by
        rw [← h.inv.current]
        exact hcore.trans h.inv.core
      obtain ⟨w, hw, hlive⟩ := List.countP_pos_iff.mp hcount
      obtain ⟨i, hi⟩ := List.mem_iff_getElem?.mp hw
      exact nearer_worker h hi hlive (hpresent w hw) (fun _ ↦ htasks) (.inr (.inr hfree))
  · obtain ⟨task, hmem⟩ := List.exists_mem_of_ne_nil _ hheld
    obtain ⟨w, hw, hholding⟩ := List.mem_filterMap.mp hmem
    obtain ⟨i, hi⟩ := List.mem_iff_getElem?.mp hw
    have hsome : w.holding ≠ none := by simp [hholding]
    refine nearer_worker h hi ?_ ?_ (fun hnone ↦ absurd hnone hsome) (.inr (.inl hsome))
    · cases w <;> first | rfl | cases hholding
    · rintro rfl
      cases hholding

/-- Every accepted task has been executed to its end or thrown away. -/
def Pool.Settled (s : Pool) : Prop :=
  ((s.finished ++ s.discarded).map TaskWrapper.task).Perm (List.range s.accepted)

theorem Inv.settled (h : Inv config s) (hidle : s.Idle) : s.Settled := by
  have hplaces := h.places
  rwa [hidle.1, hidle.2] at hplaces

theorem Going.settles (hcore : 1 ≤ config.coreThreads) (h : Going config s) :
    CanReach (step config) Action.ofPool s Pool.Settled :=
  (CanReach.of_measure Pool.distance (Going config) (fun _ hu hbusy ↦ nearer hcore hu hbusy) h).imp
    fun _ ht ↦ ht.2.inv.settled ht.1

/-- The pool after a call of `resume` has exchanged the state. -/
def Pool.resumed (config : ThreadPoolStruct) (s : Pool) : Option Pool :=
  (step config s (.call .resume)).bind fun t ↦
    step config t (.caller s.callers.length .exchange)

theorem exists_resumed (hinv : Inv config s) (hpresent : s.stop = false → ∀ w ∈ s.workers,
    w ≠ .exited) (hpaused : s.state = .paused) : ∃ t, s.resumed config = some t ∧
      Going config t := by
  have hcall : step config s (.call .resume) =
      some { s with callers := s.callers ++ [.resume .exchanging] } := rfl
  have hslot : (s.callers ++ [Caller.resume .exchanging])[s.callers.length]? =
      some (.resume .exchanging) := List.getElem?_concat_length
  have hresume : ∃ t, step config { s with callers := s.callers ++ [.resume .exchanging] }
      (.caller s.callers.length .exchange) = some t ∧ t.state = .running := by
    simp only [step, hslot, Option.bind_some, stepCaller, stepResume, if_pos hpaused]
    exact ⟨_, rfl, rfl⟩
  obtain ⟨t, hstep, hrunning⟩ := hresume
  refine ⟨t, ?_, inv_step (inv_step hinv hcall) hstep, ?_, by simp [hrunning]⟩
  · rw [Pool.resumed, hcall]
    exact hstep
  · exact present_step (inv_step hinv hcall) (present_step hinv hpresent hcall) hstep

/-- **No deadlock.**  In every state that a pool comes to, and whatever its callers
wait for: unless the pool is paused, its own threads can bring it, without a spurious
wake-up, to a state in which every accepted task has been executed or thrown away; and
if it is paused, they can after one call of `resume`. -/
theorem settles_run (hcore : 1 ≤ config.coreThreads) {trace : List (Pool × Action)} {last : Pool}
    (hrun : Run (step config) (.start config) trace last) :
    (last.state ≠ .paused → CanReach (step config) Action.ofPool last Pool.Settled) ∧
      (last.state = .paused → ∃ t, last.resumed config = some t ∧
        CanReach (step config) Action.ofPool t Pool.Settled) := by
  obtain ⟨hinv, hpresent⟩ := present_run hrun
  refine ⟨fun hstate ↦ Going.settles hcore ⟨hinv, hpresent, hstate⟩, fun hpaused ↦ ?_⟩
  obtain ⟨t, hresumed, hgoing⟩ := exists_resumed hinv hpresent hpaused
  exact ⟨t, hresumed, hgoing.settles hcore⟩

/-- The only worker sleeps when a task is accepted, and then the pool is paused. -/
def sleeping : List Action :=
  [.worker 0 .test, .worker 0 .sleep, .call (.enqueue .normal .returned), .caller 0 (.offer false),
    .call .pause, .caller 1 .exchange]

theorem settles_run_sleeping :
    ∃ trace last, Run (step ⟨1, 1, 0⟩) (.start ⟨1, 1, 0⟩) trace last ∧ last.accepted = 1 ∧
      last.workers = [.asleep] ∧ ∃ t, last.resumed ⟨1, 1, 0⟩ = some t ∧
        CanReach (step ⟨1, 1, 0⟩) Action.ofPool t Pool.Settled := by
  have hrun : Run (step ⟨1, 1, 0⟩) (.start ⟨1, 1, 0⟩)
      (executed (step ⟨1, 1, 0⟩) (.start ⟨1, 1, 0⟩) sleeping).1 _ := Run.of_isSome (by decide)
  exact ⟨_, _, hrun, by decide, by decide, (settles_run le_rfl hrun).2 (by decide)⟩

end MyRpc.ThreadPool
