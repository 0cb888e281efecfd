import MyRpc.ThreadPool.Wakeups

/-!
# `shutdown` and the last task

`shutdown` sleeps on `condition_` until the queue is empty and no thread is
active.  A worker tells it so after each task, if it then finds the pool shutting
down and nothing left; but what it checks and notifies is done without the
mutex, and may fall between the test and the sleep of `shutdown`.
-/

namespace MyRpc.ThreadPool

open PartialRun

variable {config : ThreadPoolStruct} {s t : Pool}

/-- Between the dequeuing of a task and the end of the check behind it. -/
def Worker.due : Worker → Bool
  | popped _ | running _ | completed | checkState | checkActive | checkEmpty | notifying => true
  | _ => false

/-- A call of `shutdown` that has moved `state_` and not yet stopped the pool or given up. -/
def Caller.moved : Caller → Bool
  | shutdown .announcing | shutdown (.locking _) | shutdown .sleeping | shutdown .asleep => true
  | _ => false

/-- A call of `shutdown` that has found work left, and has not been woken since. -/
def Caller.waitsDone : Caller → Bool
  | shutdown .sleeping | shutdown .asleep => true
  | _ => false

/-- `shutdown` sleeps, but all work is done and all workers sleep. -/
def LostCompletion (s : Pool) : Prop :=
  .shutdown .asleep ∈ s.callers ∧ s.tasks = [] ∧ s.activeThreads = 0 ∧
    ∀ w ∈ s.workers, w = .asleep ∨ w = .retired ∨ w = .exited

/-- The last worker that has something to report notifies while the caller of
`shutdown` is between its test and its sleep. -/
def MissedCompletion (s : Pool) : Action → Prop
  | .worker i _ =>
      s.workers[i]? = some .notifying ∧ .shutdown .sleeping ∈ s.callers ∧ s.tasks = [] ∧
        ∀ w ∈ s.workers.eraseIdx i, w.due = false
  | _ => False

instance (s : Pool) : DecidablePred (MissedCompletion s)
  | .call _ => inferInstanceAs (Decidable False)
  | .worker _ _ => inferInstanceAs (Decidable (_ ∧ _))
  | .caller _ _ => inferInstanceAs (Decidable False)

/-! ## One call of `shutdown` -/

def Pool.movers (s : Pool) : ℕ := s.callers.countP Caller.moved

structure MovedOnce (s : Pool) : Prop where
  one : s.movers ≤ 1
  closing : 0 < s.movers → s.state = .shuttingDown

theorem MovedOnce.of_le (h : MovedOnce s) (hcount : t.movers ≤ s.movers)
    (hstate : t.state = s.state) : MovedOnce t :=
  ⟨hcount.trans h.one, fun hpos ↦ hstate.trans (h.closing (hpos.trans_le hcount))⟩

theorem MovedOnce.movers_eq_zero (h : MovedOnce s) (hstate : s.state ≠ .shuttingDown) :
    s.movers = 0 := by
  by_contra hpos
  exact hstate (h.closing (Nat.pos_of_ne_zero hpos))

theorem movers_setCaller {i : ℕ} {c : Caller} (hslot : s.callers[i]? = some c) {c' : Caller}
    (himp : c'.moved = true → c.moved = true) : (s.setCaller i c').movers ≤ s.movers :=
  Slots.countP_set_le_of_imp hslot c' himp

theorem movers_notifyAll (s : Pool) : s.notifyAll.movers = s.movers :=
  Slots.countP_map_of_eq (Caller.apply_woken rfl) s.callers

theorem movers_notifiedOne (h : s.NotifiedOne t) : t.movers ≤ s.movers := by
  cases h with
  | nobody | worker => exact le_rfl
  | caller hslot => exact movers_setCaller hslot fun _ ↦ rfl

theorem movers_notifiedNotFull (h : s.NotifiedNotFull t) : t.movers ≤ s.movers := by
  cases h with
  | nobody => exact le_rfl
  | caller hslot => exact movers_setCaller hslot fun hmoved ↦ by cases hmoved

theorem movedOnce_exchange {i : ℕ} {caller : Exchange → Caller}
    {expected desired : ThreadPoolState} {pc : Exchange} {a : CallerAction} (h : MovedOnce s)
    (hslot : s.callers[i]? = some (caller pc)) (hnot : ∀ pc', (caller pc').moved = false)
    (hexpected : expected ≠ .shuttingDown)
    (hmove : ExchangeStep s i caller expected desired pc a t) : MovedOnce t := by
  have hset : ∀ pc', (s.setCaller i (caller pc')).movers ≤ s.movers := fun pc' ↦
    movers_setCaller hslot fun hmoved ↦ by simp [hnot] at hmoved
  cases hmove with
  | exchanged hstate =>
      have hnone := h.movers_eq_zero (by rwa [hstate])
      have hnone' : (s.setCaller i (caller .notifying)).movers = 0 :=
        Nat.le_zero.mp (hnone ▸ hset .notifying)
      exact ⟨hnone'.le.trans zero_le_one, fun hpos ↦ absurd hnone' hpos.ne'⟩
  | unchanged => exact h.of_le (hset _) rfl
  | notify => exact h.of_le ((movers_notifyAll _).le.trans (hset _)) rfl

theorem movedOnce_shutdown {i : ℕ} {pc : Shutdown} {a : CallerAction} (h : MovedOnce s)
    (hslot : s.callers[i]? = some (.shutdown pc)) (hmove : ShutdownStep s i pc a t) :
    MovedOnce t := by
  cases hmove with
  | exchanged hstate =>
      have hnone := h.movers_eq_zero (by simp [hstate])
      have hle : (s.setCaller i (.shutdown .announcing)).movers ≤ s.movers + 1 :=
        Slots.countP_set_le_succ hslot _ _
      exact ⟨hle.trans_eq (by rw [hnone]), fun _ ↦ rfl⟩
  | drained =>
      have hcount : (s.setCaller i (.shutdown .notifying)).movers + 1 = s.movers :=
        Slots.countP_set hslot (.shutdown .notifying) Caller.moved
      have hone := h.one
      have hnone : (s.setCaller i (.shutdown .notifying)).movers = 0 := by omega
      exact ⟨hnone.le.trans zero_le_one, fun hpos ↦ absurd hnone hpos.ne'⟩
  | announce | notify =>
      refine h.of_le ((movers_notifyAll _).le.trans (movers_setCaller hslot fun hmoved ↦ ?_)) rfl
      first | rfl | cases hmoved
  | _ =>
      refine h.of_le (movers_setCaller hslot fun hmoved ↦ ?_) rfl
      first | rfl | cases hmoved

theorem movedOnce_enqueue {i : ℕ} {priority : TaskPriority} {callable : Outcome} {pc : Enqueue}
    {a : CallerAction} (h : MovedOnce s)
    (hslot : s.callers[i]? = some (.enqueue priority callable pc))
    (hmove : EnqueueStep config s i priority callable pc a t) : MovedOnce t := by
  have hset : ∀ pc' : Enqueue,
      (s.setCaller i (.enqueue priority callable pc')).movers ≤ s.movers :=
    fun pc' ↦ movers_setCaller hslot fun hmoved ↦ by cases hmoved
  refine h.of_le ?_ hmove.frame.2
  cases hmove with
  | refused | full | wake => exact hset _
  | admitted => exact adjusted _ fun _ _ ↦ hset (.signalling s.accepted)
  | signal hnotified => exact (movers_notifiedOne hnotified).trans (hset _)

theorem movedOnce_step {a : Action} (h : MovedOnce s)
    (hcalls : ∀ c ∈ s.callers, c.call ≠ .stopNow) (hstep : step config s a = some t) :
    MovedOnce t := by
  cases stepped hstep with
  | call c =>
      refine h.of_le ?_ rfl
      show (s.callers ++ [c.begin]).countP Caller.moved ≤ s.movers
      rw [List.countP_append]
      cases c <;> exact le_rfl
  | worker _ hmove =>
      refine h.of_le ?_ hmove.frame.2.1
      cases hmove with
      | takeNotify _ _ _ _ hnotified => exact (movers_notifiedNotFull hnotified).trans le_rfl
      | notify => exact (movers_notifyAll _).le
      | _ => exact le_rfl
  | caller hslot hmove =>
      cases hmove with
      | enqueue hmove => exact movedOnce_enqueue h hslot hmove
      | pause hmove | resume hmove =>
          exact movedOnce_exchange h hslot (fun _ ↦ rfl) (by simp) hmove
      | shutdown hmove => exact movedOnce_shutdown h hslot hmove
      | stopNow => exact absurd rfl (hcalls _ (Slots.mem_of_slot hslot))

/-! ## What `shutdown` waits for -/

/-- While a call of `shutdown` waits there is a task in the queue, or a worker
that has still to report. -/
def Awaited (s : Pool) : Prop :=
  (∃ c ∈ s.callers, c.waitsDone = true) → s.tasks ≠ [] ∨ ∃ w ∈ s.workers, w.due = true

theorem Caller.moved_of_waitsDone {c : Caller} (h : c.waitsDone = true) : c.moved = true := by
  cases c with
  | shutdown pc => cases pc <;> first | rfl | cases h
  | _ => cases h

theorem MovedOnce.closing_of_waitsDone (h : MovedOnce s)
    (hwaits : ∃ c ∈ s.callers, c.waitsDone = true) : s.state = .shuttingDown := by
  obtain ⟨c, hc, hwaits⟩ := hwaits
  exact h.closing (List.countP_pos_iff.mpr ⟨c, hc, Caller.moved_of_waitsDone hwaits⟩)

theorem exists_active (h : Inv config s) (hactive : s.activeThreads ≠ 0) :
    ∃ w ∈ s.workers, w.active = true := by
  rw [h.active] at hactive
  exact List.countP_pos_iff.mp (Nat.pos_of_ne_zero hactive)

theorem Worker.due_of_active {w : Worker} (h : w.active = true) : w.due = true := by
  cases w <;> first | rfl | cases h

theorem awaited_of_due {w : Worker} (hmem : w ∈ s.workers) (hdue : w.due = true) : Awaited s :=
  fun _ ↦ .inr ⟨w, hmem, hdue⟩

theorem awaited_setWorker {i : ℕ} {w w' : Worker} (h : Awaited s)
    (hslot : s.workers[i]? = some w) (hdue : w.due = false) : Awaited (s.setWorker i w') := by
  intro hwaits
  rcases h hwaits with htasks | hex
  · exact .inl htasks
  · exact .inr (Slots.exists_mem_set hslot hex (by simp [hdue]) w')

theorem awaited_setCaller {i : ℕ} {c' : Caller} (h : Awaited s) (hwaits : c'.waitsDone = false) :
    Awaited (s.setCaller i c') := by
  rintro ⟨d, hd, hdone⟩
  rcases List.mem_or_eq_of_mem_set hd with hold | rfl
  · exact h ⟨d, hold, hdone⟩
  · simp [hwaits] at hdone

theorem awaited_notifyAll (h : Awaited s) : Awaited s.notifyAll := by
  rintro ⟨d, hd, hdone⟩
  obtain ⟨c, hc, rfl⟩ := List.mem_map.mp hd
  have hwaits : c.waitsDone = true := by
    cases c with
    | shutdown pc => cases pc <;> first | exact hdone | cases hdone
    | _ => exact hdone
  rcases h ⟨c, hc, hwaits⟩ with htasks | ⟨w, hw, hdue⟩
  · exact .inl htasks
  · right
    refine ⟨w.woken, List.mem_map_of_mem hw, ?_⟩
    cases w <;> first | rfl | cases hdue

theorem awaited_notifiedOne (h : Awaited s) (hnotified : s.NotifiedOne t) : Awaited t := by
  cases hnotified with
  | nobody => exact h
  | worker hslot => exact awaited_setWorker h hslot rfl
  | caller => exact awaited_setCaller h rfl

/-! ## Workers that check -/

theorem awaited_checkState {i : ℕ} (h : MovedOnce s) (hslot : s.workers[i]? = some .checkState) :
    Awaited (s.setWorker i (if s.state = .shuttingDown then .checkActive else .locking false)) := by
  intro hwaits
  rw [if_pos (h.closing_of_waitsDone hwaits)]
  exact .inr ⟨_, Slots.mem_set_self hslot _, rfl⟩

theorem awaited_checkActive {i : ℕ} (hinv : Inv config s)
    (hslot : s.workers[i]? = some .checkActive) :
    Awaited (s.setWorker i (if s.activeThreads = 0 then .checkEmpty else .locking false)) := by
  split
  · exact awaited_of_due (Slots.mem_set_self hslot _) rfl
  · rename_i hactive
    obtain ⟨w, hw, hdue⟩ := Slots.exists_mem_set hslot (exists_active hinv hactive)
      (by simp [Worker.active]) (.locking false)
    exact awaited_of_due hw (Worker.due_of_active hdue)

theorem awaited_checkEmpty {i : ℕ} (hslot : s.workers[i]? = some .checkEmpty) :
    Awaited (s.setWorker i (if s.tasks = [] then .notifying else .locking false)) := by
  split
  · exact awaited_of_due (Slots.mem_set_self hslot _) rfl
  · exact fun _ ↦ .inl ‹_›

/-- A caller that is asleep when a worker reports is woken. -/
theorem awaited_notify {i : ℕ} {a : WorkerAction} (hslot : s.workers[i]? = some .notifying)
    (hmissed : ¬ MissedCompletion s (.worker i a)) :
    Awaited (s.setWorker i (.locking false)).notifyAll := by
  rintro ⟨d, hd, hdone⟩
  obtain ⟨c, hc, rfl⟩ := List.mem_map.mp hd
  have hsleeping : c = .shutdown .sleeping := by
    cases c with
    | shutdown pc => cases pc <;> first | rfl | cases hdone
    | _ => cases hdone
  subst hsleeping
  by_contra hnone
  push Not at hnone
  obtain ⟨hempty, hnobody⟩ := hnone
  refine hmissed ⟨hslot, hc, hempty, fun w hw ↦ ?_⟩
  have hw' := (Slots.perm_set hslot (.locking false)).mem_iff.mpr (List.mem_cons_of_mem _ hw)
  have hnot := hnobody _ (List.mem_map_of_mem (f := Worker.woken) hw')
  cases w <;> first | rfl | exact absurd rfl hnot

theorem awaited_worker {i : ℕ} {w : Worker} {a : WorkerAction} (h : Awaited s)
    (hmoved : MovedOnce s) (hinv : Inv config s) (hmissed : ¬ MissedCompletion s (.worker i a))
    (hslot : s.workers[i]? = some w) (hmove : WorkerStep config s i w a t) : Awaited t := by
  cases hmove with
  | ready | timedOut | unready | sleep | wake | retire | exit | paused | goOn | skip =>
      exact awaited_setWorker h hslot rfl
  | @takeNotify _ _ task _ _ _ _ _ hnotified =>
      have hmem : .popped task ∈ t.workers := by
        rw [hnotified.eq]
        exact Slots.mem_set_self hslot _
      exact awaited_of_due hmem rfl
  | take | begin | finish | decrement => exact awaited_of_due (Slots.mem_set_self hslot _) rfl
  | checkState => exact awaited_checkState hmoved hslot
  | checkActive => exact awaited_checkActive hinv hslot
  | checkEmpty => exact awaited_checkEmpty hslot
  | notify => exact awaited_notify hslot hmissed

/-! ## Callers -/

theorem awaited_enqueue {i : ℕ} {priority : TaskPriority} {callable : Outcome} {pc : Enqueue}
    {a : CallerAction} (h : Awaited s)
    (hmove : EnqueueStep config s i priority callable pc a t) : Awaited t := by
  cases hmove with
  | refused | full | wake => exact awaited_setCaller h rfl
  | admitted =>
      refine adjusted _ fun _ _ _ ↦ .inl ?_
      exact List.append_ne_nil_of_right_ne_nil _ (List.cons_ne_nil _ _)
  | signal hnotified => exact awaited_notifiedOne (awaited_setCaller h rfl) hnotified

theorem awaited_shutdown {i : ℕ} {pc : Shutdown} {a : CallerAction} (h : Awaited s)
    (hinv : Inv config s) (hslot : s.callers[i]? = some (.shutdown pc))
    (hmove : ShutdownStep s i pc a t) : Awaited t := by
  cases hmove with
  | announce | notify => exact awaited_notifyAll (awaited_setCaller h rfl)
  | undrained _ hundrained =>
      by_cases htasks : s.tasks = []
      · obtain ⟨w, hw, hactive⟩ :=
          exists_active hinv fun hnone ↦ hundrained ⟨htasks, hnone⟩
        exact awaited_of_due hw (Worker.due_of_active hactive)
      · exact fun _ ↦ .inl htasks
  | sleep => exact fun _ ↦ h ⟨_, Slots.mem_of_slot hslot, rfl⟩
  | _ => exact awaited_setCaller h rfl

theorem awaited_step {a : Action} (h : Awaited s) (hmoved : MovedOnce s) (hinv : Inv config s)
    (hcalls : ∀ c ∈ s.callers, c.call ≠ .stopNow) (hmissed : ¬ MissedCompletion s a)
    (hstep : step config s a = some t) : Awaited t := by
  cases stepped hstep with
  | call c =>
      rintro ⟨d, hd, hdone⟩
      rcases List.mem_append.mp hd with hold | hnew
      · exact h ⟨d, hold, hdone⟩
      · rw [List.mem_singleton.mp hnew] at hdone
        cases c <;> cases hdone
  | worker hslot hmove => exact awaited_worker h hmoved hinv hmissed hslot hmove
  | caller hslot hmove =>
      cases hmove with
      | enqueue hmove => exact awaited_enqueue h hmove
      | pause hmove | resume hmove =>
          cases hmove with
          | exchanged | unchanged => exact awaited_setCaller h rfl
          | notify => exact awaited_notifyAll (awaited_setCaller h rfl)
      | shutdown hmove => exact awaited_shutdown h hinv hslot hmove
      | stopNow => exact absurd rfl (hcalls _ (Slots.mem_of_slot hslot))

/-- **`shutdown` hears of the last task.**  In a run without `stop_now` no
state has `shutdown` asleep while all work is done and all workers sleep, if
no step missed it. -/
theorem not_lostCompletion {trace : List (Pool × Action)} {last : Pool}
    (hrun : Run (step config) (.start config) trace last)
    (hgraceful : ∀ u, (u, .call .stopNow) ∉ trace)
    (hmissed : ∀ u a, (u, a) ∈ trace → ¬ MissedCompletion u a) : ¬ LostCompletion last := by
  have hall : Inv config last ∧ MovedOnce last ∧ Awaited last := by
    refine hrun.invariant (fun u ↦ Inv config u ∧ MovedOnce u ∧ Awaited u)
      ⟨inv_start config, ⟨Nat.zero_le _, fun hpos ↦ by cases hpos⟩, ?_⟩ ?_
    · rintro ⟨c, hc, -⟩
      cases hc
    · rintro u a v hmem ⟨hinv, hmoved, hawaited⟩ hstep
      have hcalls := graceful_before hrun hgraceful hmem
      exact ⟨inv_step hinv hstep, movedOnce_step hmoved hcalls hstep,
        awaited_step hawaited hmoved hinv hcalls (hmissed u a hmem) hstep⟩
  rintro ⟨hasleep, hempty, -, hworkers⟩
  rcases hall.2.2 ⟨_, hasleep, rfl⟩ with htasks | ⟨w, hw, hdue⟩
  · exact htasks hempty
  · rcases hworkers w hw with rfl | rfl | rfl <;> cases hdue

/-- The steps that `not_lostCompletion` leaves out do lose the signal:
`shutdown` then goes to sleep, and no worker has anything more to report. -/
theorem unreported_of_missed {a : Action} (hinv : Inv config s) (hmissed : MissedCompletion s a)
    (hstep : step config s a = some t) :
    ∃ j u, step config t (.caller j .sleep) = some u ∧ .shutdown .asleep ∈ u.callers ∧
      u.tasks = [] ∧ u.activeThreads = 0 ∧ ∀ w ∈ u.workers, w.due = false := by
  cases stepped hstep with
  | call | caller => cases hmissed
  | @worker i w b _ hslot hmove =>
      obtain ⟨hnotifying, hsleeping, hempty, hothers⟩ := hmissed
      obtain rfl : w = .notifying := Option.some.inj (hslot.symm.trans hnotifying)
      cases hmove with
      | notify =>
          have hworkers : ∀ w ∈ s.workers, w.active = false := by
            intro w hw
            rcases List.mem_cons.mp ((Slots.perm_of_slot hslot).mem_iff.mp hw) with rfl | hother
            · rfl
            · by_contra hactive
              have hdue := Worker.due_of_active (Bool.not_eq_false _ ▸ hactive)
              simp [hothers w hother] at hdue
          have hinactive : s.activeThreads = 0 := by
            rw [hinv.active]
            exact List.countP_eq_zero.mpr fun w hw ↦ by simp [hworkers w hw]
          have hcaller : .shutdown .sleeping ∈
              (s.setWorker i (.locking false)).notifyAll.callers :=
            List.mem_map_of_mem (f := Caller.woken) hsleeping
          obtain ⟨j, hj⟩ := List.mem_iff_getElem?.mp hcaller
          refine ⟨j, (s.setWorker i (.locking false)).notifyAll.setCaller j (.shutdown .asleep),
            by simp only [step, hj]; rfl, Slots.mem_set_self hj _, hempty, hinactive, ?_⟩
          intro w hw
          obtain ⟨w', hw', rfl⟩ := List.mem_map.mp hw
          rcases List.mem_cons.mp ((Slots.perm_set hslot _).mem_iff.mp hw') with rfl | hother
          · rfl
          · have hnot := hothers w' hother
            cases w' <;> first | rfl | cases hnot

/-- A worker is at work when `shutdown` tests, and done before `shutdown` sleeps. -/
def unheard : List Action :=
  [.call (.enqueue .normal .returned), .caller 0 (.offer false), .caller 0 (.signal none),
    .worker 0 .test, .worker 0 (.act false), .worker 0 (.take 0 none), .worker 0 .begin,
    .call .shutdown, .caller 1 .exchange, .caller 1 .notify, .caller 1 .test,
    .worker 0 .finish, .worker 0 .decrement, .worker 0 .check, .worker 0 .check,
    .worker 0 .check, .worker 0 .notify, .caller 1 .sleep, .worker 0 .test, .worker 0 .sleep]

/-- The same, but `shutdown` is asleep before the worker is done. -/
def heard : List Action :=
  [.call (.enqueue .normal .returned), .caller 0 (.offer false), .caller 0 (.signal none),
    .worker 0 .test, .worker 0 (.act false), .worker 0 (.take 0 none), .worker 0 .begin,
    .call .shutdown, .caller 1 .exchange, .caller 1 .notify, .caller 1 .test,
    .caller 1 .sleep, .worker 0 .finish, .worker 0 .decrement, .worker 0 .check,
    .worker 0 .check, .worker 0 .check, .worker 0 .notify, .worker 0 .test, .worker 0 .sleep]

theorem not_lostCompletion_heard :
    ∃ trace last, Run (step ⟨1, 1, 0⟩) (.start ⟨1, 1, 0⟩) trace last ∧
      last.tasks = [] ∧ last.activeThreads = 0 ∧ last.workers = [.asleep] ∧
        ¬ LostCompletion last := by
  have hsome : (execute (step ⟨1, 1, 0⟩) (.start ⟨1, 1, 0⟩) heard).isSome = true := by
    decide +kernel
  have hgraceful : ∀ u : Pool, (u, Action.call .stopNow) ∉
      (executed (step ⟨1, 1, 0⟩) (.start ⟨1, 1, 0⟩) heard).1 := by
    intro u hmem
    exact absurd (Run.mem_of_mem_executed hsome hmem) (by decide)
  have hmissed : ∀ e ∈ (executed (step ⟨1, 1, 0⟩) (.start ⟨1, 1, 0⟩) heard).1,
      ¬ MissedCompletion e.1 e.2 := by
    decide +kernel
  exact ⟨_, _, Run.of_isSome hsome, by decide +kernel, by decide +kernel, by decide +kernel,
    not_lostCompletion (Run.of_isSome hsome) hgraceful fun u a hmem ↦ hmissed (u, a) hmem⟩

/-- `shutdown` sleeps, all work is done, and nobody owes it a notification. -/
theorem lostCompletion_unheard :
    ∃ trace last, Run (step ⟨1, 1, 0⟩) (.start ⟨1, 1, 0⟩) trace last ∧
      (∀ u, (u, .call .stopNow) ∉ trace) ∧ LostCompletion last ∧
        ∀ c ∈ last.callers, c.owes = false := by
  have hsome : (execute (step ⟨1, 1, 0⟩) (.start ⟨1, 1, 0⟩) unheard).isSome = true := by
    decide +kernel
  exact ⟨_, _, Run.of_isSome hsome,
    fun u hmem ↦ absurd (Run.mem_of_mem_executed hsome hmem) (by decide),
    ⟨by decide +kernel, by decide +kernel, by decide +kernel, by decide +kernel⟩,
    by decide +kernel⟩

end MyRpc.ThreadPool
