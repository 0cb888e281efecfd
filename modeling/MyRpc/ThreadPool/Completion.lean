import MyRpc.ThreadPool.Capacity

/-!
# What becomes of the accepted tasks

As long as nobody calls `stop_now`, every accepted task is in the queue, with
a worker, or executed.  `shutdown` may find the queue empty and no thread
active while a worker has a task in its hands that it has not begun; but then
it joins the workers, and a worker does not leave before its task is done.
A call that answers from `state_` alone joins nobody (`trusted_iff`).
-/

namespace MyRpc.ThreadPool

open PartialRun

variable {config : ThreadPoolStruct} {s t : Pool}

/-! ## After the stop -/

theorem stop_step {a : Action} (hstop : s.stop = true) (h : step config s a = some t) :
    t.stop = true ∧ t.accepted = s.accepted := by
  cases stepped h with
  | call => exact ⟨hstop, rfl⟩
  | worker _ hmove =>
      obtain ⟨hsame, -, haccepted⟩ := hmove.frame
      exact ⟨hsame.trans hstop, haccepted⟩
  | caller _ hmove =>
      cases hmove with
      | enqueue hmove =>
          cases hmove with
          | refused | full | wake => exact ⟨hstop, rfl⟩
          | admitted _ hopen => simp [hstop] at hopen
          | signal hnotified =>
              rw [hnotified.eq]
              exact ⟨hstop, rfl⟩
      | pause hmove | resume hmove => cases hmove <;> exact ⟨hstop, rfl⟩
      | shutdown hmove =>
          cases hmove with
          | drained => exact ⟨rfl, rfl⟩
          | _ => exact ⟨hstop, rfl⟩
      | stopNow hmove =>
          cases hmove with
          | clear => exact ⟨rfl, rfl⟩
          | notify | join => exact ⟨hstop, rfl⟩

/-- A pool that is stopped accepts nothing more. -/
theorem accepted_of_stop {trace : List (Pool × Action)} {last : Pool} (hstop : s.stop = true)
    (hrun : Run (step config) s trace last) : last.accepted = s.accepted := by
  have h : last.stop = true ∧ last.accepted = s.accepted := by
    refine hrun.invariant (fun u ↦ u.stop = true ∧ u.accepted = s.accepted) ⟨hstop, rfl⟩ ?_
    rintro u a v - ⟨hu, haccepted⟩ hstep
    obtain ⟨hv, hsame⟩ := stop_step hu hstep
    exact ⟨hv, hsame.trans haccepted⟩
  exact h.2

/-- Once all workers have come to their end and the pool is stopped, it stays so. -/
theorem joined_step {a : Action} (hjoined : s.joined) (hstop : s.stop = true)
    (h : step config s a = some t) : t.joined := by
  have hmap : ∀ u : Pool, u.workers = s.workers → u.notifyAll.joined := by
    intro u hu w hw
    obtain ⟨w', hw', rfl⟩ := List.mem_map.mp hw
    rcases hjoined w' (hu ▸ hw') with rfl | rfl <;> simp [Worker.woken]
  cases stepped h with
  | call => exact hjoined
  | worker hslot hmove =>
      rcases hjoined _ (Slots.mem_of_slot hslot) with rfl | rfl <;> cases hmove
  | caller _ hmove =>
      cases hmove with
      | enqueue hmove =>
          cases hmove with
          | refused | full | wake => exact hjoined
          | admitted _ hopen => simp [hstop] at hopen
          | signal hnotified =>
              cases hnotified with
              | nobody | caller => exact hjoined
              | worker hslot => simpa using hjoined _ (Slots.mem_of_slot hslot)
      | pause hmove | resume hmove =>
          cases hmove with
          | exchanged | unchanged => exact hjoined
          | notify => exact hmap _ rfl
      | shutdown hmove =>
          cases hmove with
          | announce | notify => exact hmap _ rfl
          | _ => exact hjoined
      | stopNow hmove =>
          cases hmove with
          | clear | join => exact hjoined
          | notify => exact hmap _ rfl

theorem held_of_joined (h : s.joined) : s.held = [] := by
  apply List.filterMap_eq_nil_iff.mpr
  intro w hw
  rcases h w hw with rfl | rfl <;> rfl

/-! ## Calls of `shutdown` that have stopped the pool -/

/-- A call of `shutdown` behind the critical section in which it stopped the pool. -/
def Caller.ending : Caller → Bool
  | shutdown .notifying | shutdown .joining | shutdown (.returned true true) => true
  | _ => false

def Caller.returnedTrue : Caller → Bool
  | shutdown (.returned true true) => true
  | _ => false

theorem Caller.ending_of_returnedTrue {c : Caller} (h : c.returnedTrue = true) :
    c.ending = true := by
  cases c with
  | shutdown pc =>
      cases pc with
      | returned moved ok => cases moved <;> cases ok <;> first | rfl | cases h
      | _ => cases h
  | _ => cases h

/-- What is true of a caller when the pool is as `s` is. -/
def Caller.Settled (s : Pool) (c : Caller) : Prop :=
  (c.ending = true → s.stop = true) ∧ (c.returnedTrue = true → s.joined)

theorem Caller.settled_of_not_ending {c : Caller} (h : c.ending = false) : c.Settled s := by
  constructor
  · intro hending
    simp [h] at hending
  · intro hreturned
    simp [Caller.ending_of_returnedTrue hreturned] at h

theorem wakeable_settled (s : Pool) : Wakeable (Caller.Settled s) :=
  ⟨fun _ ↦ Caller.settled_of_not_ending rfl, fun _ _ _ ↦ Caller.settled_of_not_ending rfl⟩

/-- A call of `shutdown` that comes to its end has stopped the pool, and joined
the workers before it returned. -/
def Ends (s : Pool) : Prop := ∀ c ∈ s.callers, c.Settled s

theorem settled_setCaller {u : Pool} (h : ∀ c ∈ s.callers, c.Settled u) (i : ℕ) {c : Caller}
    (hc : c.ending = false) : ∀ d ∈ (s.setCaller i c).callers, d.Settled u :=
  Slots.forall_mem_set h (Caller.settled_of_not_ending hc)

theorem ends_callerStep {i : ℕ} {c : Caller} {a : CallerAction} (h : Ends s)
    (hslot : s.callers[i]? = some c) (hall : ∀ c ∈ s.callers, c.Settled t)
    (hmove : CallerStep config s i c a t) : Ends t := by
  have hwakeable := wakeable_settled t
  have hquiet : ∀ {c : Caller}, c.ending = false → c.Settled t := Caller.settled_of_not_ending
  cases hmove with
  | enqueue hmove => exact hwakeable.enqueueStep hall hmove
  | pause hmove | resume hmove => exact hwakeable.exchange hall (hquiet rfl) (hquiet rfl) hmove
  | shutdown hmove =>
      have hbefore := h _ (Slots.mem_of_slot hslot)
      cases hmove with
      | exchanged | unchanged | timedOut | undrained | sleep | wake =>
          exact settled_setCaller hall i rfl
      | answer => exact settled_setCaller hall i rfl
      | announce => exact hwakeable.notifyAll (settled_setCaller hall i rfl)
      | drained =>
          exact Slots.forall_mem_set hall ⟨fun _ ↦ rfl, fun hreturned ↦ by cases hreturned⟩
      | notify =>
          refine hwakeable.notifyAll (Slots.forall_mem_set hall ?_)
          exact ⟨fun _ ↦ hbefore.1 rfl, fun hreturned ↦ by cases hreturned⟩
      | join hjoined =>
          exact Slots.forall_mem_set hall ⟨fun _ ↦ hbefore.1 rfl, fun _ ↦ hjoined⟩
  | stopNow hmove =>
      cases hmove with
      | clear | join => exact settled_setCaller hall i rfl
      | notify => exact hwakeable.notifyAll (settled_setCaller hall i rfl)

theorem ends_step {a : Action} (h : Ends s) (hstep : step config s a = some t) : Ends t := by
  have hall : ∀ c ∈ s.callers, c.Settled t := by
    intro c hc
    obtain ⟨hstop, hjoined⟩ := h c hc
    refine ⟨fun hending ↦ (stop_step (hstop hending) hstep).1, fun hreturned ↦ ?_⟩
    exact joined_step (hjoined hreturned) (hstop (Caller.ending_of_returnedTrue hreturned)) hstep
  cases stepped hstep with
  | call c =>
      intro c' hc'
      rcases List.mem_append.mp hc' with hold | hnew
      · exact hall c' hold
      · rw [List.mem_singleton.mp hnew]
        exact Caller.settled_of_not_ending (by cases c <;> rfl)
  | worker _ hmove => exact (wakeable_settled t).worker hall hmove
  | caller hslot hmove => exact ends_callerStep h hslot hall hmove

theorem ends_run {trace : List (Pool × Action)} {last : Pool}
    (hrun : Run (step config) (.start config) trace last) : Ends last :=
  hrun.invariant Ends (fun c hc ↦ by cases hc) fun _ _ _ _ h hstep ↦ ends_step h hstep

/-! ## Where the accepted tasks are -/

/-- Every accepted task has been executed to its end. -/
def Pool.AllFinished (s : Pool) : Prop :=
  (s.finished.map TaskWrapper.task).Perm (List.range s.accepted)

theorem Inv.places (h : Inv config s) :
    ((s.tasks ++ s.held ++ s.finished ++ s.discarded).map TaskWrapper.task).Perm
      (List.range s.accepted) := by
  refine List.Perm.trans (List.Perm.map _ ?_) h.accounted
  apply List.Perm.append_right _
  rw [List.append_assoc]
  exact h.taken.symm.append_left s.tasks

/-- With the pool stopped, everything is finished when nothing was thrown away
and no worker has a task in its hands. -/
theorem Inv.allFinished_iff (h : Inv config s) (hstop : s.stop = true) :
    s.AllFinished ↔ s.discarded = [] ∧ s.held = [] := by
  have hplaces := h.places
  rw [h.drained hstop, List.nil_append] at hplaces
  constructor
  · intro hall
    have hlen := (hall.trans hplaces.symm).length_eq
    simp only [List.length_map, List.length_append] at hlen
    exact ⟨List.eq_nil_of_length_eq_zero (by omega), List.eq_nil_of_length_eq_zero (by omega)⟩
  · rintro ⟨hdiscarded, hheld⟩
    rw [hdiscarded, hheld, List.nil_append, List.append_nil] at hplaces
    exact hplaces

/-! ## Without `stop_now` -/

/-- One task leaves the queue, and none that is queued has a higher priority. -/
def Dequeues (s t : Pool) : Prop :=
  ∃ k task, s.tasks[k]? = some task ∧ s.IsTop task ∧ t.tasks = s.tasks.eraseIdx k ∧
    t.dequeued = s.dequeued ++ [task]

def KeepsQueue (s t : Pool) : Prop := t.dequeued = s.dequeued ∧ s.tasks <+: t.tasks

theorem queue_worker {i : ℕ} {w : Worker} {a : WorkerAction}
    (hmove : WorkerStep config s i w a t) :
    (Dequeues s t ∨ KeepsQueue s t) ∧ t.discarded = s.discarded := by
  cases hmove with
  | takeNotify htask htop _ _ hnotified =>
      rw [hnotified.eq]
      exact ⟨.inl ⟨_, _, htask, htop, rfl, rfl⟩, rfl⟩
  | take htask htop => exact ⟨.inl ⟨_, _, htask, htop, rfl, rfl⟩, rfl⟩
  | _ => exact ⟨.inr ⟨rfl, List.prefix_rfl⟩, rfl⟩

theorem queue_enqueue {i : ℕ} {priority : TaskPriority} {callable : Outcome} {pc : Enqueue}
    {a : CallerAction} (hmove : EnqueueStep config s i priority callable pc a t) :
    KeepsQueue s t ∧ t.discarded = s.discarded := by
  cases hmove with
  | refused | full | wake => exact ⟨⟨rfl, List.prefix_rfl⟩, rfl⟩
  | admitted => exact adjusted _ fun _ _ ↦ ⟨⟨rfl, List.prefix_append _ _⟩, rfl⟩
  | signal hnotified =>
      rw [hnotified.eq]
      exact ⟨⟨rfl, List.prefix_rfl⟩, rfl⟩

theorem queue_step {a : Action} (hcalls : ∀ c ∈ s.callers, c.call ≠ .stopNow)
    (hstep : step config s a = some t) :
    (Dequeues s t ∨ KeepsQueue s t) ∧ t.discarded = s.discarded := by
  have hkeeps : ∀ u : Pool, KeepsQueue s u ∧ u.discarded = s.discarded →
      (Dequeues s u ∨ KeepsQueue s u) ∧ u.discarded = s.discarded :=
    fun u h ↦ ⟨.inr h.1, h.2⟩
  cases stepped hstep with
  | call => exact hkeeps _ ⟨⟨rfl, List.prefix_rfl⟩, rfl⟩
  | worker _ hmove => exact queue_worker hmove
  | caller hslot hmove =>
      cases hmove with
      | enqueue hmove => exact hkeeps _ (queue_enqueue hmove)
      | pause hmove | resume hmove =>
          cases hmove <;> exact hkeeps _ ⟨⟨rfl, List.prefix_rfl⟩, rfl⟩
      | shutdown hmove => cases hmove <;> exact hkeeps _ ⟨⟨rfl, List.prefix_rfl⟩, rfl⟩
      | stopNow => exact absurd rfl (hcalls _ (Slots.mem_of_slot hslot))

/-- What has been begun in a run up to one of its steps. -/
theorem forall_calls_before {trace : List (Pool × Action)} {last : Pool} {P : Call → Prop}
    (hrun : Run (step config) (.start config) trace last)
    (hcalls : ∀ u c, (u, .call c) ∈ trace → P c) {a : Action} (hmem : (s, a) ∈ trace) :
    ∀ c ∈ s.callers, P c.call := by
  obtain ⟨before, u, after, hbefore, -, -, rfl⟩ := hrun.split hmem
  exact forall_calls_run hbefore fun v c hmem' ↦ hcalls v c (List.mem_append_left _ hmem')

theorem graceful_before {trace : List (Pool × Action)} {last : Pool}
    (hrun : Run (step config) (.start config) trace last)
    (hgraceful : ∀ u, (u, .call .stopNow) ∉ trace) {a : Action} (hmem : (s, a) ∈ trace) :
    ∀ c ∈ s.callers, c.call ≠ .stopNow := by
  refine forall_calls_before (P := fun c ↦ c ≠ .stopNow) hrun (fun w c hcall hstop ↦ ?_) hmem
  exact hgraceful w (hstop ▸ hcall)

theorem discarded_run {trace : List (Pool × Action)} {last : Pool}
    (hrun : Run (step config) (.start config) trace last)
    (hgraceful : ∀ u, (u, .call .stopNow) ∉ trace) : last.discarded = [] := by
  refine hrun.invariant (fun u ↦ u.discarded = []) rfl ?_
  intro u a v hmem hnone hstep
  exact (queue_step (graceful_before hrun hgraceful hmem) hstep).2.trans hnone

/-- **No task is lost or done twice, and a graceful shutdown completes all.**
In a run without `stop_now` every accepted task is once in the queue, in a
worker's hands or among the executed ones; what leaves the queue has the
highest priority in it; and when a call of `shutdown` that has stopped the
pool itself returns true, everything accepted has been executed, and nothing
more will be accepted. -/
theorem graceful_run {trace : List (Pool × Action)} {last : Pool}
    (hrun : Run (step config) (.start config) trace last)
    (hgraceful : ∀ u, (u, .call .stopNow) ∉ trace) :
    ((last.tasks ++ last.held ++ last.finished).map TaskWrapper.task).Perm
        (List.range last.accepted) ∧
      (∀ u a v, (u, a) ∈ trace → step config u a = some v → Dequeues u v ∨ KeepsQueue u v) ∧
        (.shutdown (.returned true true) ∈ last.callers → last.AllFinished ∧
          ∀ more next, Run (step config) last more next → next.accepted = last.accepted) := by
  have hinv := inv_run hrun
  have hnone := discarded_run hrun hgraceful
  refine ⟨?_, ?_, ?_⟩
  · simpa only [hnone, List.append_nil] using hinv.places
  · intro u a v hmem hstep
    exact (queue_step (graceful_before hrun hgraceful hmem) hstep).1
  · intro hreturned
    obtain ⟨hstop, hjoined⟩ := ends_run hrun _ hreturned
    refine ⟨(hinv.allFinished_iff (hstop rfl)).mpr ⟨hnone, held_of_joined (hjoined rfl)⟩, ?_⟩
    exact fun more next hmore ↦ accepted_of_stop (hstop rfl) hmore

/-- A worker has taken the only task and not begun it when `shutdown` finds
the queue empty and no thread active. -/
def inHand : List Action :=
  [.call (.enqueue .normal .returned), .caller 0 (.offer false), .caller 0 (.signal none),
    .worker 0 .test, .worker 0 (.act false), .worker 0 (.take 0 none), .call .shutdown,
    .caller 1 .exchange, .caller 1 .notify, .caller 1 .test]

/-- Then the worker executes the task, and leaves before it is joined. -/
def inHandJoined : List Action :=
  inHand ++ [.caller 1 .notify, .worker 0 .begin, .worker 0 .finish, .worker 0 .decrement,
    .worker 0 .check, .worker 0 .test, .worker 0 (.act false), .caller 1 .join]

theorem graceful_run_inHand :
    ∃ trace last, Run (step ⟨1, 1, 0⟩) (.start ⟨1, 1, 0⟩) trace last ∧
      .shutdown (.returned true true) ∈ last.callers ∧ last.accepted = 1 ∧ last.AllFinished := by
  have hsome : (execute (step ⟨1, 1, 0⟩) (.start ⟨1, 1, 0⟩) inHandJoined).isSome = true := by
    decide +kernel
  have hgraceful : ∀ u : Pool, (u, Action.call .stopNow) ∉
      (executed (step ⟨1, 1, 0⟩) (.start ⟨1, 1, 0⟩) inHandJoined).1 := by
    intro u hmem
    exact absurd (Run.mem_of_mem_executed hsome hmem) (by decide)
  have hreturned : .shutdown (.returned true true) ∈
      (executed (step ⟨1, 1, 0⟩) (.start ⟨1, 1, 0⟩) inHandJoined).2.callers := by
    decide +kernel
  exact ⟨_, _, Run.of_isSome hsome, hreturned, by decide +kernel,
    ((graceful_run (Run.of_isSome hsome) hgraceful).2.2 hreturned).1⟩

/-! ## Results of `shutdown` -/

/-- The step makes a call of `shutdown` return true. -/
def ReturnsTrue (s : Pool) : Action → Prop
  | .caller i .answer => s.callers[i]? = some (.shutdown .answering) ∧ s.state = .stopped
  | .caller i .join => s.callers[i]? = some (.shutdown .joining)
  | _ => False

/-- The condition on such a step: `stop_now` has thrown no task away, and a
call that answers from `state_` alone finds no worker with a task between the
queue and the end of its execution. -/
def Trustworthy (s : Pool) : Action → Prop
  | .caller _ .answer => s.discarded = [] ∧ s.held = []
  | _ => s.discarded = []

theorem allFinished_iff_trustworthy {a : Action} (h : Inv config s) (hends : Ends s)
    (hreturns : ReturnsTrue s a) (hstep : step config s a = some t) :
    s.AllFinished ↔ Trustworthy s a := by
  cases a with
  | call => cases hreturns
  | worker => cases hreturns
  | caller i b =>
      cases b with
      | answer => exact h.allFinished_iff (h.stopped.mpr hreturns.2)
      | join =>
          have hslot : s.callers[i]? = some (.shutdown .joining) := hreturns
          have hstop : s.stop = true := (hends _ (Slots.mem_of_slot hslot)).1 rfl
          have hjoined : s.joined := by
            simp only [step, hslot, Option.bind_some, stepCaller, stepShutdown,
              Option.ite_none_right_eq_some] at hstep
            exact hstep.1
          rw [h.allFinished_iff hstop, held_of_joined hjoined]
          exact and_iff_left rfl
      | _ => cases hreturns

/-- **When the result of `shutdown` can be trusted.**  Each time a call
returned true in a run, all accepted tasks had been executed, exactly when
each of these steps was trustworthy. -/
theorem trusted_iff {trace : List (Pool × Action)} {last : Pool}
    (hrun : Run (step config) (.start config) trace last) :
    (∀ s a, (s, a) ∈ trace → ReturnsTrue s a → s.AllFinished) ↔
      ∀ s a, (s, a) ∈ trace → ReturnsTrue s a → Trustworthy s a := by
  have hiff : ∀ s a, (s, a) ∈ trace → ReturnsTrue s a → (s.AllFinished ↔ Trustworthy s a) := by
    intro s a hmem hreturns
    obtain ⟨before, t, after, hbefore, hstep, -, -⟩ := hrun.split hmem
    exact allFinished_iff_trustworthy (inv_run hbefore) (ends_run hbefore) hreturns hstep
  constructor
  · intro h s a hmem hreturns
    exact (hiff s a hmem hreturns).mp (h s a hmem hreturns)
  · intro h s a hmem hreturns
    exact (hiff s a hmem hreturns).mpr (h s a hmem hreturns)

/-- The pool is stopped, and a second call of `shutdown` has seen that its
exchange failed, while the task is still in the worker's hands. -/
def overlapping : List Action := inHand ++ [.call .shutdown, .caller 2 .exchange]

def overlappingRun : List (Pool × Action) × Pool :=
  executed (step ⟨1, 1, 0⟩) (.start ⟨1, 1, 0⟩) overlapping

theorem run_overlapping :
    ∃ last, Run (step ⟨1, 1, 0⟩) (.start ⟨1, 1, 0⟩)
        (overlappingRun.1 ++ [(overlappingRun.2, .caller 2 .answer)]) last ∧
      ReturnsTrue overlappingRun.2 (.caller 2 .answer) ∧ ¬ overlappingRun.2.AllFinished := by
  have hrun : Run (step ⟨1, 1, 0⟩) (.start ⟨1, 1, 0⟩) overlappingRun.1 overlappingRun.2 :=
    Run.of_isSome (by decide +kernel)
  have hstep : (step ⟨1, 1, 0⟩ overlappingRun.2 (.caller 2 .answer)).isSome = true := by
    decide +kernel
  obtain ⟨last, hlast⟩ := Option.isSome_iff_exists.mp hstep
  refine ⟨last, hrun.snoc hlast, ⟨by decide +kernel, by decide +kernel⟩, fun hall ↦ ?_⟩
  have hcount : overlappingRun.2.finished.length ≠ overlappingRun.2.accepted := by
    decide +kernel
  apply hcount
  simpa using hall.length_eq

theorem trusted_iff_overlapping :
    ∃ s a, (s, a) ∈ overlappingRun.1 ++ [(overlappingRun.2, .caller 2 .answer)] ∧
      ReturnsTrue s a ∧ ¬ Trustworthy s a := by
  obtain ⟨last, hrun, hreturns, hall⟩ := run_overlapping
  by_contra hnone
  push Not at hnone
  exact hall ((trusted_iff hrun).mpr hnone _ _ (by simp) hreturns)

/-- A call of `shutdown` returns true before the accepted task is executed. -/
theorem not_trusted_overlapping :
    ∃ trace last, Run (step ⟨1, 1, 0⟩) (.start ⟨1, 1, 0⟩) trace last ∧
      ¬ ∀ s a, (s, a) ∈ trace → ReturnsTrue s a → s.AllFinished := by
  obtain ⟨last, hrun, hreturns, hall⟩ := run_overlapping
  exact ⟨_, last, hrun, fun h ↦ hall (h _ _ (by simp) hreturns)⟩

end MyRpc.ThreadPool
