import MyRpc.ThreadPool.Completion

/-!
# Wakeups

A worker tests what it waits for and goes to sleep under `queue_mutex`, but
`pause`, `resume` and `enqueue` notify without it, and `resume` changes what
is tested without it.  A notification between the test and the sleep wakes
nobody.  As long as another is still owed, or another worker is awake, nothing
is lost by that (`not_lostWakeUp`); else the task stays (`overslept_of_missed`).
-/

namespace MyRpc.ThreadPool

open PartialRun

variable {config : ThreadPoolStruct} {s t : Pool}

/-! ## One thread holds the mutex -/

def Pool.holders (s : Pool) : ℕ :=
  s.workers.countP Worker.holdsMutex + s.callers.countP Caller.holdsMutex

theorem holders_of_free (h : s.locked = false) : s.holders = 0 := by
  obtain ⟨hworkers, hcallers⟩ := Bool.or_eq_false_iff.mp h
  rw [List.any_eq_false] at hworkers hcallers
  rw [Pool.holders, List.countP_eq_zero.mpr hworkers, List.countP_eq_zero.mpr hcallers]

theorem exclusive_setWorker {i : ℕ} {w : Worker} (h : s.holders ≤ 1)
    (hslot : s.workers[i]? = some w) {w' : Worker}
    (hholds : s.locked = false ∨ (w'.holdsMutex = true → w.holdsMutex = true)) :
    (s.setWorker i w').holders ≤ 1 := by
  rcases hholds with hfree | himp
  · have hle := Slots.countP_set_le_succ hslot w' Worker.holdsMutex
    calc (s.setWorker i w').holders
        ≤ s.workers.countP Worker.holdsMutex + 1 + s.callers.countP Caller.holdsMutex :=
          Nat.add_le_add_right hle _
      _ = s.holders + 1 := Nat.add_right_comm _ _ _
      _ = 1 := by rw [holders_of_free hfree]
  · exact (Nat.add_le_add_right (Slots.countP_set_le_of_imp hslot w' himp) _).trans h

theorem exclusive_setCaller {i : ℕ} {c : Caller} (h : s.holders ≤ 1)
    (hslot : s.callers[i]? = some c) {c' : Caller}
    (hholds : s.locked = false ∨ (c'.holdsMutex = true → c.holdsMutex = true)) :
    (s.setCaller i c').holders ≤ 1 := by
  rcases hholds with hfree | himp
  · have hle := Slots.countP_set_le_succ hslot c' Caller.holdsMutex
    calc (s.setCaller i c').holders
        ≤ s.workers.countP Worker.holdsMutex + (s.callers.countP Caller.holdsMutex + 1) :=
          Nat.add_le_add_left hle _
      _ = 1 := by rw [← Nat.add_assoc, ← Pool.holders, holders_of_free hfree]
  · exact (Nat.add_le_add_left (Slots.countP_set_le_of_imp hslot c' himp) _).trans h

theorem exclusive_notifyAll (h : s.holders ≤ 1) : s.notifyAll.holders ≤ 1 := by
  have hworkers : (s.workers.map Worker.woken).countP Worker.holdsMutex = _ :=
    Slots.countP_map_of_eq (Worker.apply_woken rfl) s.workers
  have hcallers : (s.callers.map Caller.woken).countP Caller.holdsMutex = _ :=
    Slots.countP_map_of_eq (Caller.apply_woken rfl) s.callers
  exact (Nat.add_le_add hworkers.le hcallers.le).trans h

theorem exclusive_notifiedOne (h : s.holders ≤ 1) (hnotified : s.NotifiedOne t) :
    t.holders ≤ 1 := by
  cases hnotified with
  | nobody => exact h
  | worker hslot => exact exclusive_setWorker h hslot (.inr fun hholds ↦ by cases hholds)
  | caller hslot => exact exclusive_setCaller h hslot (.inr fun hholds ↦ by cases hholds)

theorem exclusive_notifiedNotFull (h : s.holders ≤ 1) (hnotified : s.NotifiedNotFull t) :
    t.holders ≤ 1 := by
  cases hnotified with
  | nobody => exact h
  | caller hslot => exact exclusive_setCaller h hslot (.inr fun hholds ↦ by cases hholds)

theorem exclusive_adjustThreadCount (h : s.holders ≤ 1) (created : Bool) :
    (adjustThreadCount config s created).holders ≤ 1 := by
  unfold adjustThreadCount
  split
  · show (s.workers ++ [Worker.locking false]).countP Worker.holdsMutex + _ ≤ 1
    rw [List.countP_append]
    exact h
  · exact h

theorem exclusive_worker {i : ℕ} {w : Worker} {a : WorkerAction} (h : s.holders ≤ 1)
    (hslot : s.workers[i]? = some w) (hmove : WorkerStep config s i w a t) : t.holders ≤ 1 := by
  cases hmove with
  | ready hfree | timedOut hfree | unready hfree => exact exclusive_setWorker h hslot (.inl hfree)
  | goOn => exact exclusive_setWorker h hslot (.inr fun _ ↦ rfl)
  | takeNotify _ _ _ _ hnotified =>
      refine exclusive_notifiedNotFull ?_ hnotified
      exact exclusive_setWorker h hslot (.inr fun hholds ↦ by cases hholds)
  | checkState | checkActive | checkEmpty =>
      split <;> exact exclusive_setWorker h hslot (.inr fun hholds ↦ by cases hholds)
  | notify =>
      apply exclusive_notifyAll
      exact exclusive_setWorker h hslot (.inr fun hholds ↦ by cases hholds)
  | _ => exact exclusive_setWorker h hslot (.inr fun hholds ↦ by cases hholds)

theorem exclusive_caller {i : ℕ} {c : Caller} {a : CallerAction} (h : s.holders ≤ 1)
    (hslot : s.callers[i]? = some c) (hmove : CallerStep config s i c a t) : t.holders ≤ 1 := by
  have hset : ∀ c' : Caller, c'.holdsMutex = false → (s.setCaller i c').holders ≤ 1 :=
    fun c' hnot ↦ exclusive_setCaller h hslot (.inr fun hholds ↦ by simp [hnot] at hholds)
  cases hmove with
  | enqueue hmove =>
      cases hmove with
      | refused | full | wake => exact hset _ rfl
      | admitted =>
          apply exclusive_adjustThreadCount
          exact hset (.enqueue _ _ (.signalling s.accepted)) rfl
      | signal hnotified => exact exclusive_notifiedOne (hset _ rfl) hnotified
  | pause hmove | resume hmove =>
      cases hmove with
      | exchanged | unchanged => exact hset _ rfl
      | notify => exact exclusive_notifyAll (hset _ rfl)
  | shutdown hmove =>
      cases hmove with
      | undrained hfree => exact exclusive_setCaller h hslot (.inl hfree)
      | announce | notify => exact exclusive_notifyAll (hset _ rfl)
      | _ => exact hset _ rfl
  | stopNow hmove =>
      cases hmove with
      | clear | join => exact hset _ rfl
      | notify => exact exclusive_notifyAll (hset _ rfl)

theorem exclusive_step {a : Action} (h : s.holders ≤ 1) (hstep : step config s a = some t) :
    t.holders ≤ 1 := by
  cases stepped hstep with
  | call c =>
      show _ + (s.callers ++ [c.begin]).countP Caller.holdsMutex ≤ 1
      rw [List.countP_append]
      cases c <;> exact h
  | worker hslot hmove => exact exclusive_worker h hslot hmove
  | caller hslot hmove => exact exclusive_caller h hslot hmove

theorem holders_start (config : ThreadPoolStruct) : (Pool.start config).holders ≤ 1 := by
  simp [Pool.holders, Pool.start, List.countP_replicate, Worker.holdsMutex]

theorem not_mem_of_holder {i : ℕ} {w w' : Worker} (h : s.holders ≤ 1)
    (hslot : s.workers[i]? = some w) (hw : w.holdsMutex = true) (hw' : w'.holdsMutex = true)
    (hne : w' ≠ w) : w' ∉ s.workers :=
  Slots.not_mem_of_countP_le_one ((Nat.le_add_right _ _).trans h) hslot hw hw' hne

/-! ## Workers and their tasks -/

/-- On the way to its next look at the queue, and not about to sleep. -/
def Worker.awake : Worker → Bool
  | sleeping | asleep | retired | exited => false
  | _ => true

/-- Has still to notify `condition_` of what it has done. -/
def Caller.owes : Caller → Bool
  | enqueue _ _ (.signalling _) | pause .notifying | resume .notifying => true
  | _ => false

def Caller.returned : Caller → Bool
  | enqueue _ _ (.returned _) | pause .returned | resume .returned => true
  | shutdown (.returned _ _) | stopNow .returned => true
  | _ => false

theorem Caller.not_owes_of_returned {c : Caller} (h : c.returned = true) : c.owes = false := by
  cases c with
  | enqueue _ _ pc => cases pc <;> first | rfl | cases h
  | pause pc | resume pc => cases pc <;> first | rfl | cases h
  | shutdown | stopNow => rfl

/-- There is a task for a worker. -/
def Pool.Workable (s : Pool) : Prop := s.state = .running ∧ s.tasks ≠ []

instance (s : Pool) : Decidable s.Workable := inferInstanceAs (Decidable (_ ∧ _))

/-- All calls have returned and there is a task, but the workers sleep. -/
def LostWakeUp (s : Pool) : Prop :=
  (∀ c ∈ s.callers, c.returned = true) ∧ s.Workable ∧ .asleep ∈ s.workers ∧
    ∀ w ∈ s.workers, w = .asleep ∨ w = .retired ∨ w = .exited

/-- A call issues the last notification that is owed while there is a task and
the only worker left is between its test and its sleep. -/
def Missed (s : Pool) : Action → Prop
  | .caller i _ =>
      (∃ c ∈ s.callers[i]?, c.owes = true) ∧ s.Workable ∧ .sleeping ∈ s.workers ∧
        (∀ w ∈ s.workers, w = .sleeping ∨ w = .retired ∨ w = .exited) ∧
          ∀ c ∈ s.callers.eraseIdx i, c.owes = false
  | _ => False

instance (s : Pool) : DecidablePred (Missed s)
  | .call _ => inferInstanceAs (Decidable False)
  | .worker _ _ => inferInstanceAs (Decidable False)
  | .caller _ _ => inferInstanceAs (Decidable (_ ∧ _))

/-- While a worker that has timed out may leave and there is a task, `resume`
has still to notify, or no other worker sleeps. -/
def Idle (s : Pool) : Prop :=
  .acting false ∈ s.workers → s.Workable →
    .resume .notifying ∈ s.callers ∨ .asleep ∉ s.workers

/-- While there is a task and a worker sleeps, another is awake or a
notification is owed. -/
def Served (s : Pool) : Prop :=
  s.Workable → .asleep ∈ s.workers ∨ .sleeping ∈ s.workers →
    (∃ w ∈ s.workers, w.awake = true) ∨ ∃ c ∈ s.callers, c.owes = true

theorem workerReady_of_workable (h : s.Workable) : s.workerReady = true := by
  obtain ⟨hrunning, htasks⟩ := h
  simp [Pool.workerReady, hrunning, htasks]

theorem not_workable_of_not_ready (h : s.workerReady = false) : ¬ s.Workable := by
  intro hworkable
  simp [workerReady_of_workable hworkable] at h

theorem asleep_notifyAll (s : Pool) : .asleep ∉ s.notifyAll.workers := by
  intro hmem
  obtain ⟨w, -, hw⟩ := List.mem_map.mp hmem
  cases w <;> cases hw

/-! ### Idle workers -/

theorem idle_notifyAll (s : Pool) : Idle s.notifyAll := fun _ _ ↦ .inr (asleep_notifyAll s)

theorem idle_setWorker {i : ℕ} (h : Idle s) {w : Worker} (hidle : w ≠ .acting false)
    (hasleep : w ≠ .asleep) : Idle (s.setWorker i w) := by
  intro hmem hworkable
  have hold := (List.mem_or_eq_of_mem_set hmem).resolve_right (Ne.symm hidle)
  rcases h hold hworkable with hresume | hnobody
  · exact .inl hresume
  · exact .inr fun hmem' ↦
      hnobody ((List.mem_or_eq_of_mem_set hmem').resolve_right (Ne.symm hasleep))

theorem idle_setCaller {i : ℕ} {c : Caller} (h : Idle s) (hslot : s.callers[i]? = some c)
    (hc : c ≠ .resume .notifying) (c' : Caller) : Idle (s.setCaller i c') := by
  intro hmem hworkable
  rcases h hmem hworkable with hresume | hnobody
  · obtain ⟨d, hd, rfl⟩ := Slots.exists_mem_set (P := fun d ↦ d = .resume .notifying) hslot
      ⟨_, hresume, rfl⟩ hc c'
    exact .inl hd
  · exact .inr hnobody

theorem idle_notifiedOne (h : Idle s) (hnotified : s.NotifiedOne t) : Idle t := by
  cases hnotified with
  | nobody => exact h
  | worker => exact idle_setWorker h (by simp) (by simp)
  | caller hslot => exact idle_setCaller h hslot (by simp) _

/-- A worker in the critical section is the only one there. -/
theorem idle_of_holder {i : ℕ} {w : Worker} (h : s.holders ≤ 1)
    (hslot : s.workers[i]? = some w) (hw : w.holdsMutex = true) (hidle : w ≠ .acting false)
    (w' : Worker) (hidle' : w' ≠ .acting false) (hworkers : t.workers = s.workers.set i w') :
    Idle t := by
  intro hmem
  rw [hworkers] at hmem
  have hold := (List.mem_or_eq_of_mem_set hmem).resolve_right (Ne.symm hidle')
  exact absurd hold (not_mem_of_holder h hslot hw rfl (Ne.symm hidle))

theorem idle_worker {i : ℕ} {w : Worker} {a : WorkerAction} (h : Idle s) (hone : s.holders ≤ 1)
    (hslot : s.workers[i]? = some w) (hmove : WorkerStep config s i w a t) : Idle t := by
  cases hmove with
  | timedOut _ hready => exact fun _ hworkable ↦ absurd hworkable (not_workable_of_not_ready hready)
  | sleep => exact idle_of_holder hone hslot rfl (by simp) _ (by simp) rfl
  | takeNotify _ _ _ _ hnotified =>
      apply idle_of_holder hone hslot rfl (by simp) (.popped _) (by simp)
      rw [hnotified.eq]
      rfl
  | take | skip => exact idle_of_holder hone hslot rfl (by simp) _ (by simp) rfl
  | checkState | checkActive | checkEmpty =>
      split <;> exact idle_setWorker h (by simp) (by simp)
  | notify => exact idle_notifyAll _
  | _ => exact idle_setWorker h (by simp) (by simp)

theorem idle_exchange {i : ℕ} {caller : Exchange → Caller} {expected desired : ThreadPoolState}
    {pc : Exchange} {a : CallerAction} (h : Idle s) (hslot : s.callers[i]? = some (caller pc))
    (hbefore : caller .exchanging ≠ .resume .notifying)
    (hdesired : desired = .running → caller .notifying = .resume .notifying)
    (hmove : ExchangeStep s i caller expected desired pc a t) : Idle t := by
  cases hmove with
  | exchanged =>
      intro _ hworkable
      left
      rw [← hdesired hworkable.1]
      exact Slots.mem_set_self hslot _
  | unchanged => exact idle_setCaller h hslot hbefore _
  | notify => exact idle_notifyAll _

theorem idle_enqueue {i : ℕ} {priority : TaskPriority} {callable : Outcome} {pc : Enqueue}
    {a : CallerAction} (h : Idle s) (hslot : s.callers[i]? = some (.enqueue priority callable pc))
    (hmove : EnqueueStep config s i priority callable pc a t) : Idle t := by
  cases hmove with
  | refused | full | wake => exact idle_setCaller h hslot (by simp) _
  | admitted hfree =>
      have hnobody : .acting false ∉ s.workers := by
        intro hmem
        have hworkers := (Bool.or_eq_false_iff.mp hfree).1
        exact List.any_eq_false.mp hworkers _ hmem rfl
      intro hmem
      refine absurd ?_ hnobody
      unfold adjustThreadCount at hmem
      split at hmem
      · rcases List.mem_append.mp hmem with hold | hnew
        · exact hold
        · simp at hnew
      · exact hmem
  | signal hnotified => exact idle_notifiedOne (idle_setCaller h hslot (by simp) _) hnotified

/-! ### What is owed to the workers -/

theorem served_of_awake {w : Worker} (hmem : w ∈ s.workers) (hawake : w.awake = true) :
    Served s :=
  fun _ _ ↦ .inl ⟨w, hmem, hawake⟩

theorem served_of_owes {c : Caller} (hmem : c ∈ s.callers) (howes : c.owes = true) : Served s :=
  fun _ _ ↦ .inr ⟨c, hmem, howes⟩

theorem served_setCaller {i : ℕ} {c : Caller} (h : Served s) (hslot : s.callers[i]? = some c)
    {c' : Caller} (howes : c.owes = true → c'.owes = true) : Served (s.setCaller i c') := by
  intro hworkable hasleep
  rcases h hworkable hasleep with hawake | hex
  · exact .inl hawake
  · exact .inr (Slots.exists_mem_set_of_imp hslot hex howes)

theorem served_sleep {i : ℕ} (h : Served s) (hslot : s.workers[i]? = some .sleeping) :
    Served (s.setWorker i .asleep) := by
  intro hworkable _
  rcases h hworkable (.inr (Slots.mem_of_slot hslot)) with hawake | howed
  · exact .inl (Slots.exists_mem_set hslot hawake (by simp [Worker.awake]) _)
  · exact .inr howed

theorem served_retire {i : ℕ} (hidle : Idle s) (hone : s.holders ≤ 1)
    (hslot : s.workers[i]? = some (.acting false)) : Served (s.setWorker i .retired) := by
  intro hworkable hasleep
  rcases hidle (Slots.mem_of_slot hslot) hworkable with hresume | hnobody
  · exact .inr ⟨_, hresume, rfl⟩
  · have hsleeping : Worker.sleeping ∉ s.workers :=
      not_mem_of_holder hone hslot rfl rfl (by simp)
    rcases hasleep with hmem | hmem
    · exact absurd ((List.mem_or_eq_of_mem_set hmem).resolve_right (by simp)) hnobody
    · exact absurd ((List.mem_or_eq_of_mem_set hmem).resolve_right (by simp)) hsleeping

theorem served_worker {i : ℕ} {w : Worker} {a : WorkerAction} (h : Served s) (hidle : Idle s)
    (hone : s.holders ≤ 1) (hslot : s.workers[i]? = some w)
    (hmove : WorkerStep config s i w a t) : Served t := by
  cases hmove with
  | unready _ hready => exact fun hworkable ↦ absurd hworkable (not_workable_of_not_ready hready)
  | sleep => exact served_sleep h hslot
  | retire => exact served_retire hidle hone hslot
  | exit _ hempty => exact fun hworkable ↦ absurd hempty hworkable.2
  | paused hpaused =>
      intro hworkable
      have hrunning : s.state = .running := hworkable.1
      simp [hrunning] at hpaused
  | @takeNotify k _ task _ _ _ _ _ hnotified =>
      have hmem : .popped task ∈ t.workers := by
        rw [hnotified.eq]
        exact Slots.mem_set_self hslot _
      exact served_of_awake hmem rfl
  | checkState | checkActive | checkEmpty =>
      split <;> exact served_of_awake (Slots.mem_set_self hslot _) rfl
  | notify =>
      exact served_of_awake (List.mem_map_of_mem (f := Worker.woken)
        (Slots.mem_set_self hslot (.locking false))) rfl
  | _ => exact served_of_awake (Slots.mem_set_self hslot _) rfl

theorem someone_of_not_missed {i : ℕ} {a : CallerAction} {c : Caller}
    (hmissed : ¬ Missed s (.caller i a)) (hslot : s.callers[i]? = some c)
    (howes : c.owes = true) (hworkable : s.Workable) (hnobody : .asleep ∉ s.workers)
    (hsleeping : .sleeping ∈ s.workers) :
    (∃ w ∈ s.workers, w.awake = true) ∨ ∃ d ∈ s.callers.eraseIdx i, d.owes = true := by
  by_contra hnone
  push Not at hnone
  obtain ⟨hawake, howed⟩ := hnone
  apply hmissed
  refine ⟨⟨c, hslot, howes⟩, hworkable, hsleeping, fun w hw ↦ ?_, fun d hd ↦ ?_⟩
  · have hnot := hawake w hw
    cases w with
    | sleeping => exact .inl rfl
    | asleep => exact absurd hw hnobody
    | retired => exact .inr (.inl rfl)
    | exited => exact .inr (.inr rfl)
    | _ => exact absurd rfl hnot
  · simpa using howed d hd

theorem served_signal {i : ℕ} {a : CallerAction} {c c' : Caller}
    (hcalls : ∀ d ∈ s.callers, d.call ≠ .shutdown) (hmissed : ¬ Missed s (.caller i a))
    (hslot : s.callers[i]? = some c) (howes : c.owes = true) (hcall : c'.call ≠ .shutdown)
    (hnotified : (s.setCaller i c').NotifiedOne t) : Served t := by
  cases hnotified with
  | nobody hnobody =>
      intro hworkable hasleep
      have hsleeping := hasleep.resolve_left hnobody
      rcases someone_of_not_missed hmissed hslot howes hworkable hnobody hsleeping with
        hawake | ⟨d, hd, howed⟩
      · exact .inl hawake
      · exact .inr ⟨d, (Slots.perm_set hslot c').mem_iff.mpr (List.mem_cons_of_mem c' hd), howed⟩
  | worker hasleep => exact served_of_awake (Slots.mem_set_self hasleep _) rfl
  | caller hasleep =>
      rcases List.mem_or_eq_of_mem_set (Slots.mem_of_slot hasleep) with hold | rfl
      · exact absurd rfl (hcalls _ hold)
      · exact absurd rfl hcall

theorem served_notifyAll {i : ℕ} {a : CallerAction} {c : Caller}
    (hmissed : ¬ Missed s (.caller i a)) (hslot : s.callers[i]? = some c)
    (howes : c.owes = true) (c' : Caller) : Served (s.setCaller i c').notifyAll := by
  by_cases hasleep : .asleep ∈ s.workers
  · exact served_of_awake (List.mem_map_of_mem (f := Worker.woken) hasleep) rfl
  · intro hworkable hsleep
    have hsleeping : .sleeping ∈ s.workers := by
      obtain ⟨w, hw, hwoken⟩ := List.mem_map.mp (hsleep.resolve_left (asleep_notifyAll _))
      cases w <;> first | exact hw | cases hwoken
    rcases someone_of_not_missed hmissed hslot howes hworkable hasleep hsleeping with
      ⟨w, hw, hawake⟩ | ⟨d, hd, howed⟩
    · left
      refine ⟨w.woken, List.mem_map_of_mem hw, ?_⟩
      cases w <;> first | rfl | cases hawake
    · right
      have hd' := (Slots.perm_set hslot c').mem_iff.mpr (List.mem_cons_of_mem c' hd)
      exact ⟨d.woken, List.mem_map_of_mem hd', (Caller.apply_woken rfl d).trans howed⟩

theorem served_exchange {i : ℕ} {caller : Exchange → Caller} {expected desired : ThreadPoolState}
    {pc : Exchange} {a : CallerAction} (h : Served s) (hslot : s.callers[i]? = some (caller pc))
    (hmissed : ¬ Missed s (.caller i a)) (howes : (caller .notifying).owes = true)
    (hbefore : (caller .exchanging).owes = false)
    (hmove : ExchangeStep s i caller expected desired pc a t) : Served t := by
  cases hmove with
  | exchanged => exact served_of_owes (Slots.mem_set_self hslot _) howes
  | unchanged => exact served_setCaller h hslot fun howed ↦ by simp [hbefore] at howed
  | notify => exact served_notifyAll hmissed hslot howes _

theorem served_enqueue {i : ℕ} {priority : TaskPriority} {callable : Outcome} {pc : Enqueue}
    {a : CallerAction} (h : Served s) (hslot : s.callers[i]? = some (.enqueue priority callable pc))
    (hcalls : ∀ d ∈ s.callers, d.call ≠ .shutdown) (hmissed : ¬ Missed s (.caller i a))
    (hmove : EnqueueStep config s i priority callable pc a t) : Served t := by
  cases hmove with
  | refused | full | wake => exact served_setCaller h hslot fun howed ↦ by cases howed
  | @admitted _ created =>
      have hmem : .enqueue priority callable (.signalling s.accepted) ∈
          (adjustThreadCount config (s.pushed i priority callable) created).callers := by
        exact adjusted created fun _ _ ↦ Slots.mem_set_self hslot _
      exact served_of_owes hmem rfl
  | signal hnotified =>
      exact served_signal hcalls hmissed hslot rfl (by simp [Caller.call]) hnotified

theorem served_step {a : Action} (h : Served s) (hidle : Idle s) (hone : s.holders ≤ 1)
    (hcalls : ∀ c ∈ s.callers, c.call ≠ .shutdown ∧ c.call ≠ .stopNow) (hmissed : ¬ Missed s a)
    (hstep : step config s a = some t) : Served t := by
  cases stepped hstep with
  | call c =>
      intro hworkable hasleep
      rcases h hworkable hasleep with hawake | ⟨d, hd, howed⟩
      · exact .inl hawake
      · exact .inr ⟨d, List.mem_append_left _ hd, howed⟩
  | worker hslot hmove => exact served_worker h hidle hone hslot hmove
  | caller hslot hmove =>
      cases hmove with
      | enqueue hmove => exact served_enqueue h hslot (fun d hd ↦ (hcalls d hd).1) hmissed hmove
      | pause hmove | resume hmove => exact served_exchange h hslot hmissed rfl rfl hmove
      | shutdown => exact absurd rfl (hcalls _ (Slots.mem_of_slot hslot)).1
      | stopNow => exact absurd rfl (hcalls _ (Slots.mem_of_slot hslot)).2

theorem idle_step {a : Action} (h : Idle s) (hone : s.holders ≤ 1)
    (hcalls : ∀ c ∈ s.callers, c.call ≠ .shutdown ∧ c.call ≠ .stopNow)
    (hstep : step config s a = some t) : Idle t := by
  cases stepped hstep with
  | call c =>
      intro hmem hworkable
      rcases h hmem hworkable with hresume | hnobody
      · exact .inl (List.mem_append_left _ hresume)
      · exact .inr hnobody
  | worker hslot hmove => exact idle_worker h hone hslot hmove
  | caller hslot hmove =>
      cases hmove with
      | enqueue hmove => exact idle_enqueue h hslot hmove
      | pause hmove => exact idle_exchange h hslot (by simp) (by simp) hmove
      | resume hmove => exact idle_exchange h hslot (by simp) (fun _ ↦ rfl) hmove
      | shutdown => exact absurd rfl (hcalls _ (Slots.mem_of_slot hslot)).1
      | stopNow => exact absurd rfl (hcalls _ (Slots.mem_of_slot hslot)).2

/-- **No wake-up is lost.**  In a run of workers and of calls of `enqueue`,
`pause` and `resume`, no state in which the calls have returned has a task and
only sleeping workers, if no step missed them. -/
theorem not_lostWakeUp {trace : List (Pool × Action)} {last : Pool}
    (hrun : Run (step config) (.start config) trace last)
    (hcalls : ∀ u c, (u, .call c) ∈ trace → c ≠ .shutdown ∧ c ≠ .stopNow)
    (hmissed : ∀ u a, (u, a) ∈ trace → ¬ Missed u a) : ¬ LostWakeUp last := by
  have hall : last.holders ≤ 1 ∧ Idle last ∧ Served last := by
    refine hrun.invariant (fun u ↦ u.holders ≤ 1 ∧ Idle u ∧ Served u)
      ⟨holders_start config, ?_, ?_⟩ ?_
    · exact fun _ hworkable ↦ absurd rfl hworkable.2
    · exact fun hworkable ↦ absurd rfl hworkable.2
    · rintro u a v hmem ⟨hone, hidle, hserved⟩ hstep
      have hbefore : ∀ c ∈ u.callers, c.call ≠ .shutdown ∧ c.call ≠ .stopNow :=
        forall_calls_before (P := fun c ↦ c ≠ .shutdown ∧ c ≠ .stopNow) hrun hcalls hmem
      exact ⟨exclusive_step hone hstep, idle_step hidle hone hbefore hstep,
        served_step hserved hidle hone hbefore (hmissed u a hmem) hstep⟩
  rintro ⟨hreturned, hworkable, hasleep, hworkers⟩
  rcases hall.2.2 hworkable (.inl hasleep) with ⟨w, hw, hawake⟩ | ⟨c, hc, howes⟩
  · rcases hworkers w hw with rfl | rfl | rfl <;> cases hawake
  · simp [Caller.not_owes_of_returned (hreturned c hc)] at howes

/-- All is quiet: there is a task, the workers sleep, and nobody owes them a notification. -/
def Overslept (s : Pool) : Prop :=
  s.Workable ∧ .asleep ∈ s.workers ∧
    (∀ w ∈ s.workers, w = .asleep ∨ w = .retired ∨ w = .exited) ∧
      ∀ c ∈ s.callers, c.owes = false

theorem forall_not_owes_set {i : ℕ} {c c' : Caller} (hslot : s.callers[i]? = some c)
    (hothers : ∀ d ∈ s.callers.eraseIdx i, d.owes = false) (hc' : c'.owes = false) :
    ∀ d ∈ (s.setCaller i c').callers, d.owes = false := by
  intro d hd
  rcases List.mem_cons.mp ((Slots.perm_set hslot c').mem_iff.mp hd) with rfl | hother
  · exact hc'
  · exact hothers d hother

theorem forall_not_owes_notifyAll (h : ∀ d ∈ s.callers, d.owes = false) :
    ∀ d ∈ s.notifyAll.callers, d.owes = false := by
  intro d hd
  obtain ⟨d', hd', rfl⟩ := List.mem_map.mp hd
  exact (Caller.apply_woken rfl d').trans (h d' hd')

/-- A notification that is missed leaves everybody where they are. -/
theorem missed_step {a : Action} (hmissed : Missed s a) (hstep : step config s a = some t) :
    t.Workable ∧ t.workers = s.workers ∧ ∀ c ∈ t.callers, c.owes = false := by
  cases stepped hstep with
  | call | worker => cases hmissed
  | @caller i c b _ hslot hmove =>
      obtain ⟨⟨d, hd, howes⟩, hworkable, -, hworkers, hothers⟩ := hmissed
      obtain rfl : c = d := Option.some.inj (hslot.symm.trans hd)
      have hset : ∀ c' : Caller, c'.owes = false → ∀ d ∈ (s.setCaller i c').callers,
          d.owes = false :=
        fun c' hc' ↦ forall_not_owes_set hslot hothers hc'
      have hnobody : .asleep ∉ s.workers := by
        intro hmem
        simpa using hworkers _ hmem
      have hmap : s.workers.map Worker.woken = s.workers := by
        conv_rhs => rw [← List.map_id s.workers]
        apply List.map_congr_left
        intro w hw
        rcases hworkers w hw with rfl | rfl | rfl <;> rfl
      cases hmove with
      | enqueue hmove =>
          cases hmove with
          | refused | full | admitted | wake => cases howes
          | signal hnotified =>
              cases hnotified with
              | nobody => exact ⟨hworkable, rfl, hset _ rfl⟩
              | worker hasleep => exact absurd (Slots.mem_of_slot hasleep) hnobody
              | caller => exact ⟨hworkable, rfl, Slots.forall_mem_set (hset _ rfl) rfl⟩
      | pause hmove | resume hmove =>
          cases hmove with
          | exchanged | unchanged => cases howes
          | notify => exact ⟨hworkable, hmap, forall_not_owes_notifyAll (hset _ rfl)⟩
      | shutdown | stopNow => cases howes

/-- The steps that `not_lostWakeUp` leaves out do lose a wake-up: the worker
then goes to sleep. -/
theorem overslept_of_missed {a : Action} (hone : s.holders ≤ 1) (hmissed : Missed s a)
    (hstep : step config s a = some t) :
    ∃ i u, step config t (.worker i .sleep) = some u ∧ Overslept u := by
  obtain ⟨hworkable, hsame, hcallers⟩ := missed_step hmissed hstep
  obtain ⟨hsleeping, hworkers⟩ : .sleeping ∈ s.workers ∧
      ∀ w ∈ s.workers, w = .sleeping ∨ w = .retired ∨ w = .exited := by
    cases a with
    | caller => exact ⟨hmissed.2.2.1, hmissed.2.2.2.1⟩
    | _ => cases hmissed
  obtain ⟨i, hslot⟩ := List.mem_iff_getElem?.mp hsleeping
  refine ⟨i, t.setWorker i .asleep, by simp [step, hsame, hslot, stepWorker], hworkable, ?_, ?_,
    hcallers⟩
  · show .asleep ∈ t.workers.set i .asleep
    rw [hsame]
    exact Slots.mem_set_self hslot _
  · intro w hw
    have hw' : w ∈ s.workers.set i .asleep := hsame ▸ hw
    rcases List.mem_cons.mp ((Slots.perm_set hslot _).mem_iff.mp hw') with rfl | hother
    · exact .inl rfl
    · have hmem := (Slots.perm_of_slot hslot).mem_iff.mpr (List.mem_cons_of_mem _ hother)
      rcases hworkers w hmem with rfl | hgone
      · have hworkers' : s.workers.countP Worker.holdsMutex ≤ 1 :=
          (Nat.le_add_right _ _).trans hone
        exact absurd hother (Slots.not_mem_eraseIdx hworkers' hslot rfl rfl)
      · exact .inr hgone

/-- A task comes to a pool that is paused; `resume` notifies when the only
worker has tested its predicate and not gone to sleep. -/
def oversleeping : List Action :=
  [.call .pause, .caller 0 .exchange, .caller 0 .notify, .call (.enqueue .normal .returned),
    .caller 1 (.offer false), .caller 1 (.signal none), .worker 0 .test, .call .resume,
    .caller 2 .exchange, .caller 2 .notify, .worker 0 .sleep]

/-- The same calls, but the worker is asleep before `resume` notifies. -/
def waking : List Action :=
  [.call .pause, .caller 0 .exchange, .caller 0 .notify, .call (.enqueue .normal .returned),
    .caller 1 (.offer false), .caller 1 (.signal none), .worker 0 .test, .worker 0 .sleep,
    .call .resume, .caller 2 .exchange, .caller 2 .notify]

theorem not_lostWakeUp_waking :
    ∃ trace last, Run (step ⟨1, 1, 0⟩) (.start ⟨1, 1, 0⟩) trace last ∧
      (∀ c ∈ last.callers, c.returned = true) ∧ last.Workable ∧ ¬ LostWakeUp last := by
  have hsome : (execute (step ⟨1, 1, 0⟩) (.start ⟨1, 1, 0⟩) waking).isSome = true := by
    decide +kernel
  have hcalls : ∀ u c, (u, Action.call c) ∈
      (executed (step ⟨1, 1, 0⟩) (.start ⟨1, 1, 0⟩) waking).1 → c ≠ .shutdown ∧ c ≠ .stopNow := by
    intro u c hmem
    have hcalled := Run.mem_of_mem_executed hsome hmem
    constructor <;> rintro rfl <;> exact absurd hcalled (by decide)
  have hmissed : ∀ e ∈ (executed (step ⟨1, 1, 0⟩) (.start ⟨1, 1, 0⟩) waking).1,
      ¬ Missed e.1 e.2 := by
    decide +kernel
  exact ⟨_, _, Run.of_isSome hsome, by decide +kernel, by decide +kernel,
    not_lostWakeUp (Run.of_isSome hsome) hcalls fun u a hmem ↦ hmissed (u, a) hmem⟩

/-- All calls have returned and the task is queued, but the worker sleeps. -/
theorem lostWakeUp_oversleeping :
    ∃ trace last, Run (step ⟨1, 1, 0⟩) (.start ⟨1, 1, 0⟩) trace last ∧
      (∀ u, (u, .call .shutdown) ∉ trace ∧ (u, .call .stopNow) ∉ trace) ∧ LostWakeUp last := by
  have hsome : (execute (step ⟨1, 1, 0⟩) (.start ⟨1, 1, 0⟩) oversleeping).isSome = true := by
    decide +kernel
  have hcalls : ∀ u c, Action.call c ∉ oversleeping → (u, Action.call c) ∉
      (executed (step ⟨1, 1, 0⟩) (.start ⟨1, 1, 0⟩) oversleeping).1 :=
    fun u c hnot hmem ↦ hnot (Run.mem_of_mem_executed hsome hmem)
  exact ⟨_, _, Run.of_isSome hsome,
    fun u ↦ ⟨hcalls u _ (by decide), hcalls u _ (by decide)⟩,
    by decide +kernel, by decide +kernel, by decide +kernel, by decide +kernel⟩

end MyRpc.ThreadPool
