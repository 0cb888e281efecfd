import MyRpc.ThreadPool.Progress

/-!
# What is left behind `stop_now`

A call of `stop_now` throws away what is queued, and returns when the workers have
come to their end.  From its critical section on nothing is accepted or dequeued any
more, whatever the other callers do; what a worker has in its hands then is
still executed, and is executed when the call returns.
-/

namespace MyRpc.ThreadPool

open PartialRun

variable {config : ThreadPoolStruct} {s t : Pool}

/-- A call of `stop_now` behind its critical section. -/
def Caller.cleared : Caller → Bool
  | stopNow .notifying | stopNow .joining | stopNow .returned => true
  | _ => false

/-- What is true of a caller when the pool is as `s` is. -/
def Caller.Emptied (s : Pool) (c : Caller) : Prop :=
  (c.cleared = true → s.stop = true) ∧ (c = stopNow .returned → s.joined)

theorem Caller.emptied_of_not_cleared {c : Caller} (h : c.cleared = false) : c.Emptied s := by
  constructor
  · intro hcleared
    simp [h] at hcleared
  · rintro rfl
    cases h

theorem wakeable_emptied (s : Pool) : Wakeable (Caller.Emptied s) :=
  ⟨fun _ ↦ Caller.emptied_of_not_cleared rfl, fun _ _ _ ↦ Caller.emptied_of_not_cleared rfl⟩

/-- A call of `stop_now` that is behind its critical section has stopped the pool,
and joined the workers before it returned. -/
def Empties (s : Pool) : Prop := ∀ c ∈ s.callers, c.Emptied s

theorem empties_stopNow {i : ℕ} {pc : StopNow} {a : CallerAction}
    (hslot : s.callers[i]? = some (.stopNow pc)) (h : Empties s)
    (hall : ∀ c ∈ s.callers, c.Emptied t) (hmove : StopNowStep s i pc a t) : Empties t := by
  have hbefore := h _ (Slots.mem_of_slot hslot)
  cases hmove with
  | clear => exact Slots.forall_mem_set hall ⟨fun _ ↦ rfl, fun hreturned ↦ by cases hreturned⟩
  | notify =>
      apply (wakeable_emptied _).notifyAll
      apply Slots.forall_mem_set hall
      exact ⟨fun _ ↦ hbefore.1 rfl, fun hreturned ↦ by cases hreturned⟩
  | join hjoined => exact Slots.forall_mem_set hall ⟨fun _ ↦ hbefore.1 rfl, fun _ ↦ hjoined⟩

theorem empties_step {a : Action} (h : Empties s) (hstep : step config s a = some t) :
    Empties t := by
  have hwakeable := wakeable_emptied t
  have hquiet : ∀ {c : Caller}, c.cleared = false → c.Emptied t := Caller.emptied_of_not_cleared
  have hall : ∀ c ∈ s.callers, c.Emptied t := by
    intro c hc
    obtain ⟨hstop, hjoined⟩ := h c hc
    refine ⟨fun hcleared ↦ (stop_step (hstop hcleared) hstep).1, ?_⟩
    rintro rfl
    exact joined_step (hjoined rfl) (hstop rfl) hstep
  cases stepped hstep with
  | call c =>
      intro c' hc'
      rcases List.mem_append.mp hc' with hold | hnew
      · exact hall c' hold
      · rw [List.mem_singleton.mp hnew]
        apply hquiet
        cases c <;> rfl
  | worker _ hmove => exact hwakeable.worker hall hmove
  | caller hslot hmove =>
      cases hmove with
      | enqueue hmove => exact hwakeable.enqueueStep hall hmove
      | pause hmove | resume hmove =>
          exact hwakeable.exchange hall (hquiet rfl) (hquiet rfl) hmove
      | shutdown hmove =>
          cases hmove with
          | announce | notify =>
              exact hwakeable.notifyAll (Slots.forall_mem_set hall (hquiet rfl))
          | _ => exact Slots.forall_mem_set hall (hquiet rfl)
      | stopNow hmove => exact empties_stopNow hslot h hall hmove

theorem empties_run {trace : List (Pool × Action)} {last : Pool}
    (hrun : Run (step config) (.start config) trace last) : Empties last := by
  apply hrun.invariant Empties
  · intro c hc
    cases hc
  · exact fun _ _ _ _ h hstep ↦ empties_step h hstep

/-! ## A stopped pool -/

/-- Nothing is queued in a stopped pool, so nothing comes from its queue. -/
theorem queue_of_stop {a : Action} (hinv : Inv config s) (hstop : s.stop = true)
    (hstep : step config s a = some t) :
    t.dequeued = s.dequeued ∧ t.discarded = s.discarded := by
  have hempty : s.tasks = [] := hinv.drained hstop
  cases stepped hstep with
  | call => exact ⟨rfl, rfl⟩
  | worker _ hmove =>
      obtain ⟨hdequeued | hkeeps, hdiscarded⟩ := queue_worker hmove
      · obtain ⟨k, task, htask, -⟩ := hdequeued
        rw [hempty] at htask
        cases htask
      · exact ⟨hkeeps.1, hdiscarded⟩
  | caller _ hmove =>
      cases hmove with
      | enqueue hmove => exact ⟨(queue_enqueue hmove).1.1, (queue_enqueue hmove).2⟩
      | pause hmove | resume hmove => cases hmove <;> exact ⟨rfl, rfl⟩
      | shutdown hmove => cases hmove <;> exact ⟨rfl, rfl⟩
      | stopNow hmove =>
          cases hmove with
          | clear =>
              refine ⟨rfl, ?_⟩
              show s.discarded ++ s.tasks = s.discarded
              rw [hempty, List.append_nil]
          | notify | join => exact ⟨rfl, rfl⟩

theorem stopped_run {trace : List (Pool × Action)} {last : Pool} (hinv : Inv config s)
    (hstop : s.stop = true) (hrun : Run (step config) s trace last) :
    Inv config last ∧ last.stop = true ∧ last.dequeued = s.dequeued ∧
      last.discarded = s.discarded := by
  induction hrun with
  | nil => exact ⟨hinv, hstop, rfl, rfl⟩
  | snoc _ hstep ih =>
      obtain ⟨hinv', hstop', hdequeued, hdiscarded⟩ := ih
      obtain ⟨hdequeued', hdiscarded'⟩ := queue_of_stop hinv' hstop' hstep
      exact ⟨inv_step hinv' hstep, (stop_step hstop' hstep).1, hdequeued'.trans hdequeued,
        hdiscarded'.trans hdiscarded⟩

/-- **`stop_now`.**  Once a call of `stop_now` is behind its critical section, the
queue is empty and nothing more is accepted, dequeued or thrown away, and the
tasks that were with a worker then are the only ones still to be executed.  When
the call has returned, the workers are at their end, and every accepted task
has been executed or thrown away. -/
theorem stopNow_run {before after : List (Pool × Action)} {last : Pool} {c : Caller}
    (hbefore : Run (step config) (.start config) before s) (hmem : c ∈ s.callers)
    (hcleared : c.cleared = true) (hafter : Run (step config) s after last) :
    last.tasks = [] ∧ last.accepted = s.accepted ∧ last.dequeued = s.dequeued ∧
      last.discarded = s.discarded ∧
        (last.held ++ last.finished).Perm (s.held ++ s.finished) ∧
          (.stopNow .returned ∈ last.callers → last.joined ∧ last.Settled) := by
  have hinv := inv_run hbefore
  have hstop : s.stop = true := (empties_run hbefore c hmem).1 hcleared
  obtain ⟨hinv', hstop', hdequeued, hdiscarded⟩ := stopped_run hinv hstop hafter
  refine ⟨hinv'.drained hstop', accepted_of_stop hstop hafter, hdequeued, hdiscarded, ?_, ?_⟩
  · apply hinv'.taken.symm.trans
    rw [hdequeued]
    exact hinv.taken
  · intro hreturned
    have hjoined := (empties_run (hbefore.append hafter) _ hreturned).2 rfl
    exact ⟨hjoined, hinv'.settled ⟨hinv'.drained hstop', held_of_joined hjoined⟩⟩

/-- One task is with the only worker and one is queued when the pool is stopped. -/
def interrupted : List Action :=
  [.call (.enqueue .normal .returned), .caller 0 (.offer false), .caller 0 (.signal none),
    .call (.enqueue .high .returned), .worker 0 .test, .worker 0 (.act false),
    .worker 0 (.take 0 none), .caller 1 (.offer false), .call .stopNow, .caller 2 .clear]

def interruptedEnd : List Action :=
  [.caller 2 .notify, .worker 0 .begin, .worker 0 .finish, .worker 0 .decrement, .worker 0 .check,
    .worker 0 .test, .worker 0 (.act false), .caller 2 .join]

def interruptedRun : Pool := (executed (step ⟨1, 1, 0⟩) (.start ⟨1, 1, 0⟩) interrupted).2

theorem stopNow_run_interrupted :
    ∃ before after last, Run (step ⟨1, 1, 0⟩) (.start ⟨1, 1, 0⟩) before interruptedRun ∧
      Run (step ⟨1, 1, 0⟩) interruptedRun after last ∧ last.finished.length = 1 ∧
        last.discarded.length = 1 ∧ last.joined ∧ last.Settled := by
  have hbefore : Run (step ⟨1, 1, 0⟩) (.start ⟨1, 1, 0⟩)
      (executed (step ⟨1, 1, 0⟩) (.start ⟨1, 1, 0⟩) interrupted).1 interruptedRun :=
    Run.of_isSome (by decide)
  have hafter : Run (step ⟨1, 1, 0⟩) interruptedRun
      (executed (step ⟨1, 1, 0⟩) interruptedRun interruptedEnd).1
      (executed (step ⟨1, 1, 0⟩) interruptedRun interruptedEnd).2 :=
    Run.of_isSome (by decide)
  have hcaller : Caller.stopNow .notifying ∈ interruptedRun.callers := by decide
  refine ⟨_, _, _, hbefore, hafter, by decide, by decide, ?_⟩
  exact (stopNow_run hbefore hcaller rfl hafter).2.2.2.2.2 (by decide)

end MyRpc.ThreadPool
