import MyRpc.ThreadPool.Capacity

/-!
# Admission to the queue

A caller of `enqueue` that finds the queue full waits for
`not_full_condition_`.  Each task that is taken out of the queue wakes one
such caller, so there is a woken caller for every free place as long as
anybody waits; but nothing wakes them when the pool stops (`unstranded_iff`).
What `enqueue` looks at is `stop_`, not `state_`, so that it admits tasks to a
pool that is shutting down (`closed_iff`).
-/

namespace MyRpc.ThreadPool

open PartialRun

variable {config : ThreadPoolStruct} {s t : Pool}

/-- On the way from a wait for `not_full_condition_` to the mutex. -/
def Caller.wokenNotFull : Caller → Bool
  | enqueue _ _ (.locking true) => true
  | _ => false

def Pool.waiting (s : Pool) : ℕ := s.callers.countP Caller.waitsNotFull

def Pool.wokenUp (s : Pool) : ℕ := s.callers.countP Caller.wokenNotFull

/-- While a caller waits the pool is not stopped, and there is a woken caller
for every free place in the queue. -/
def Unstranded (config : ThreadPoolStruct) (s : Pool) : Prop :=
  0 < s.waiting → s.stop = false ∧ config.maxQueueSize ≤ s.tasks.length + s.wokenUp

/-- Only callers of a pool with a limit wait. -/
structure Waiting (config : ThreadPoolStruct) (s : Pool) : Prop where
  limited : 0 < s.waiting → 0 < config.maxQueueSize
  unstranded : Unstranded config s

/-! ## Moves that leave the producers alone -/

structure SameProducers (s t : Pool) : Prop where
  waiting : t.waiting = s.waiting
  wokenUp : t.wokenUp = s.wokenUp

theorem SameProducers.trans {u : Pool} (h : SameProducers s t) (h' : SameProducers t u) :
    SameProducers s u :=
  ⟨h'.waiting.trans h.waiting, h'.wokenUp.trans h.wokenUp⟩

theorem sameProducers_of_callers (h : t.callers = s.callers) : SameProducers s t :=
  ⟨congrArg (List.countP Caller.waitsNotFull) h, congrArg (List.countP Caller.wokenNotFull) h⟩

theorem sameProducers_setCaller {i : ℕ} {c : Caller} (hslot : s.callers[i]? = some c) (c' : Caller)
    (hwaits : c'.waitsNotFull = c.waitsNotFull) (hwoken : c'.wokenNotFull = c.wokenNotFull) :
    SameProducers s (s.setCaller i c') :=
  ⟨Slots.countP_set_of_eq hslot c' hwaits, Slots.countP_set_of_eq hslot c' hwoken⟩

theorem sameProducers_notifyAll (s : Pool) : SameProducers s s.notifyAll :=
  ⟨Slots.countP_map_of_eq (Caller.apply_woken rfl) _,
    Slots.countP_map_of_eq (Caller.apply_woken rfl) _⟩

theorem sameProducers_notifiedOne (h : s.NotifiedOne t) : SameProducers s t := by
  cases h with
  | nobody | worker => exact sameProducers_of_callers rfl
  | caller hslot => exact sameProducers_setCaller hslot _ rfl rfl

theorem Waiting.of_same (h : Waiting config s) (hsame : SameProducers s t)
    (hstop : t.stop = s.stop) (htasks : s.tasks.length ≤ t.tasks.length) : Waiting config t := by
  refine ⟨fun hpos ↦ h.limited (hsame.waiting ▸ hpos), fun hpos ↦ ?_⟩
  obtain ⟨hopen, hplaces⟩ := h.unstranded (hsame.waiting ▸ hpos)
  rw [hstop, hsame.wokenUp]
  exact ⟨hopen, hplaces.trans (Nat.add_le_add_right htasks _)⟩

theorem Waiting.of_nobody (h : t.waiting = 0) : Waiting config t :=
  ⟨fun hpos ↦ absurd hpos (by omega), fun hpos ↦ absurd hpos (by omega)⟩

/-! ## Moves of the producers -/

theorem counts_woken {i : ℕ} {priority : TaskPriority} {callable : Outcome}
    (hslot : s.callers[i]? = some (.enqueue priority callable .asleep)) :
    (s.setCaller i (.enqueue priority callable (.locking true))).waiting + 1 = s.waiting ∧
      (s.setCaller i (.enqueue priority callable (.locking true))).wokenUp = s.wokenUp + 1 := by
  have hwaiting := Slots.countP_set hslot (.enqueue priority callable (.locking true))
    Caller.waitsNotFull
  have hwoken := Slots.countP_set hslot (.enqueue priority callable (.locking true))
    Caller.wokenNotFull
  simp only [Caller.waitsNotFull, Caller.wokenNotFull, if_true, Bool.false_eq_true, if_false,
    Nat.add_zero] at hwaiting hwoken
  exact ⟨hwaiting, hwoken⟩

theorem countP_notifiedNotFull (h : s.NotifiedNotFull t) :
    t.waiting = 0 ∨ t.waiting ≤ s.waiting ∧ t.wokenUp = s.wokenUp + 1 := by
  cases h with
  | nobody hnobody =>
      left
      exact List.countP_eq_zero.mpr fun c hc ↦ by simp [hnobody c hc]
  | @caller i priority callable hslot =>
      obtain ⟨hwaiting, hwoken⟩ := counts_woken hslot
      exact .inr ⟨Nat.le_of_succ_le hwaiting.le, hwoken⟩

theorem waiting_takeNotify {i k : ℕ} {task : TaskWrapper} (h : Waiting config s)
    (htask : s.tasks[k]? = some task) (hnotified : (s.taken i k task).NotifiedNotFull t) :
    Waiting config t := by
  obtain ⟨hk, -⟩ := List.getElem?_eq_some_iff.mp htask
  have hlen : (s.taken i k task).tasks.length = s.tasks.length - 1 :=
    List.length_eraseIdx_of_lt hk
  have htasks : t.tasks.length = s.tasks.length - 1 := by
    rw [hnotified.eq]
    exact hlen
  have hstop : t.stop = s.stop := by rw [hnotified.eq]; rfl
  rcases countP_notifiedNotFull hnotified with hnobody | ⟨hfewer, hone⟩
  · exact .of_nobody hnobody
  · have hfewer' : t.waiting ≤ s.waiting := hfewer
    have hone' : t.wokenUp = s.wokenUp + 1 := hone
    refine ⟨fun hpos ↦ h.limited (hpos.trans_le hfewer'), fun hpos ↦ ?_⟩
    obtain ⟨hopen, hplaces⟩ := h.unstranded (hpos.trans_le hfewer')
    exact ⟨hstop.trans hopen, by omega⟩

/-- Taking a task wakes nobody only if there is no limit. -/
theorem waiting_take {i k : ℕ} {task : TaskWrapper} (h : Waiting config s)
    (hinv : Inv config s) (htask : s.tasks[k]? = some task)
    (hroom : ¬ (0 < config.maxQueueSize ∧
      (s.taken i k task).tasks.length < config.maxQueueSize)) :
    Waiting config (s.taken i k task) := by
  apply Waiting.of_nobody
  by_contra hpos
  have hlimit := h.limited (Nat.pos_of_ne_zero hpos)
  obtain ⟨hk, -⟩ := List.getElem?_eq_some_iff.mp htask
  have hlen : (s.taken i k task).tasks.length = s.tasks.length - 1 :=
    List.length_eraseIdx_of_lt hk
  have hbounded := hinv.bounded hlimit
  exact hroom ⟨hlimit, by omega⟩

theorem waiting_worker {i : ℕ} {w : Worker} {a : WorkerAction} (h : Waiting config s)
    (hinv : Inv config s) (hmove : WorkerStep config s i w a t) : Waiting config t := by
  cases hmove with
  | takeNotify htask _ _ _ hnotified => exact waiting_takeNotify h htask hnotified
  | take htask _ hroom => exact waiting_take h hinv htask hroom
  | notify =>
      have hset : SameProducers s (s.setWorker i (.locking false)) := sameProducers_of_callers rfl
      exact h.of_same (hset.trans (sameProducers_notifyAll _)) rfl le_rfl
  | _ => exact h.of_same (sameProducers_of_callers rfl) rfl le_rfl

theorem waiting_pushed {i : ℕ} {priority : TaskPriority} {callable : Outcome} {woken : Bool}
    (h : Waiting config s)
    (hslot : s.callers[i]? = some (.enqueue priority callable (.locking woken))) :
    Waiting config (s.pushed i priority callable) := by
  have hwaiting : (s.pushed i priority callable).waiting = s.waiting :=
    Slots.countP_set_of_eq hslot (.enqueue priority callable (.signalling s.accepted)) rfl
  have hwoken := Slots.countP_set hslot (.enqueue priority callable (.signalling s.accepted))
    Caller.wokenNotFull
  have hfew : s.wokenUp ≤ (s.pushed i priority callable).wokenUp + 1 := by
    show s.callers.countP Caller.wokenNotFull ≤
      (s.callers.set i (.enqueue priority callable (.signalling s.accepted))).countP
        Caller.wokenNotFull + 1
    cases woken <;> simp [Caller.wokenNotFull] at hwoken <;> omega
  have hlen : (s.pushed i priority callable).tasks.length = s.tasks.length + 1 :=
    List.length_append
  refine ⟨fun hpos ↦ h.limited (hwaiting ▸ hpos), fun hpos ↦ ?_⟩
  obtain ⟨hopen, hplaces⟩ := h.unstranded (hwaiting ▸ hpos)
  exact ⟨hopen, by omega⟩

theorem waiting_enqueue {i : ℕ} {priority : TaskPriority} {callable : Outcome} {pc : Enqueue}
    {a : CallerAction} (h : Waiting config s)
    (hslot : s.callers[i]? = some (.enqueue priority callable pc))
    (hmove : EnqueueStep config s i priority callable pc a t) : Waiting config t := by
  cases hmove with
  | @refused woken _ _ hstop =>
      have hnobody : s.waiting = 0 := by
        by_contra hpos
        have hopen := (h.unstranded (Nat.pos_of_ne_zero hpos)).1
        simp [hstop] at hopen
      apply Waiting.of_nobody
      exact (Slots.countP_set_of_eq hslot (.enqueue priority callable (.returned none)) rfl).trans
        hnobody
  | full _ hstop hlimit hfull =>
      exact ⟨fun _ ↦ hlimit, fun _ ↦ ⟨hstop, hfull.trans (Nat.le_add_right _ _)⟩⟩
  | admitted =>
      refine adjusted _ fun _ _ ↦ ?_
      exact (waiting_pushed h hslot).of_same (sameProducers_of_callers rfl) rfl le_rfl
  | wake =>
      obtain ⟨hwaiting, hwoken⟩ := counts_woken hslot
      have hpos : 0 < s.waiting := by
        rw [← hwaiting]
        exact Nat.succ_pos _
      obtain ⟨hopen, hplaces⟩ := h.unstranded hpos
      refine ⟨fun _ ↦ h.limited hpos, fun _ ↦ ⟨hopen, ?_⟩⟩
      rw [hwoken]
      exact hplaces.trans (Nat.le_succ _)
  | @signal task _ _ hnotified =>
      have hset : SameProducers s (s.setCaller i (.enqueue priority callable (.returned task))) :=
        sameProducers_setCaller hslot _ rfl rfl
      have hsame := hset.trans (sameProducers_notifiedOne hnotified)
      rw [hnotified.eq] at hsame ⊢
      exact h.of_same hsame rfl le_rfl

/-! ## Moves that stop the pool -/

theorem Waiting.nobody (h : Waiting config s) (hstops : s.stop = false → s.waiting = 0) :
    s.waiting = 0 := by
  by_contra hpos
  exact hpos (hstops (h.unstranded (Nat.pos_of_ne_zero hpos)).1)

theorem waiting_exchange {i : ℕ} {caller : Exchange → Caller} {expected desired : ThreadPoolState}
    {pc : Exchange} {a : CallerAction} (h : Waiting config s)
    (hslot : s.callers[i]? = some (caller pc))
    (hsame : ∀ pc' : Exchange, SameProducers s (s.setCaller i (caller pc')))
    (hmove : ExchangeStep s i caller expected desired pc a t) : Waiting config t := by
  cases hmove with
  | exchanged =>
      exact h.of_same ((hsame .notifying).trans (sameProducers_of_callers rfl)) rfl le_rfl
  | unchanged => exact h.of_same (hsame .returned) rfl le_rfl
  | notify => exact h.of_same ((hsame .returned).trans (sameProducers_notifyAll _)) rfl le_rfl

theorem waiting_shutdown {i : ℕ} {pc : Shutdown} {a : CallerAction} (h : Waiting config s)
    (hslot : s.callers[i]? = some (.shutdown pc))
    (hstops : s.stop = false → t.stop = true → s.waiting = 0)
    (hmove : ShutdownStep s i pc a t) : Waiting config t := by
  have hsame : ∀ pc' : Shutdown, SameProducers s (s.setCaller i (.shutdown pc')) :=
    fun pc' ↦ sameProducers_setCaller hslot _ rfl rfl
  cases hmove with
  | exchanged =>
      exact h.of_same ((hsame .announcing).trans (sameProducers_of_callers rfl)) rfl le_rfl
  | drained =>
      apply Waiting.of_nobody
      exact (hsame .notifying).waiting.trans (h.nobody fun hopen ↦ hstops hopen rfl)
  | announce => exact h.of_same ((hsame _).trans (sameProducers_notifyAll _)) rfl le_rfl
  | notify => exact h.of_same ((hsame _).trans (sameProducers_notifyAll _)) rfl le_rfl
  | _ => exact h.of_same (hsame _) rfl le_rfl

theorem waiting_stopNow {i : ℕ} {pc : StopNow} {a : CallerAction} (h : Waiting config s)
    (hslot : s.callers[i]? = some (.stopNow pc))
    (hstops : s.stop = false → t.stop = true → s.waiting = 0)
    (hmove : StopNowStep s i pc a t) : Waiting config t := by
  have hsame : ∀ pc' : StopNow, SameProducers s (s.setCaller i (.stopNow pc')) :=
    fun pc' ↦ sameProducers_setCaller hslot _ rfl rfl
  cases hmove with
  | clear =>
      apply Waiting.of_nobody
      exact (hsame .notifying).waiting.trans (h.nobody fun hopen ↦ hstops hopen rfl)
  | notify => exact h.of_same ((hsame _).trans (sameProducers_notifyAll _)) rfl le_rfl
  | join => exact h.of_same (hsame _) rfl le_rfl

theorem waiting_step {a : Action} (h : Waiting config s) (hinv : Inv config s)
    (hstep : step config s a = some t)
    (hstops : s.stop = false → t.stop = true → s.waiting = 0) : Waiting config t := by
  cases stepped hstep with
  | call c =>
      have hnew : SameProducers s { s with callers := s.callers ++ [c.begin] } := by
        constructor
        · show (s.callers ++ [c.begin]).countP Caller.waitsNotFull = s.waiting
          rw [List.countP_append]
          cases c <;> rfl
        · show (s.callers ++ [c.begin]).countP Caller.wokenNotFull = s.wokenUp
          rw [List.countP_append]
          cases c <;> rfl
      exact h.of_same hnew rfl le_rfl
  | worker _ hmove => exact waiting_worker h hinv hmove
  | caller hslot hmove =>
      cases hmove with
      | enqueue hmove => exact waiting_enqueue h hslot hmove
      | pause hmove | resume hmove =>
          exact waiting_exchange h hslot (fun _ ↦ sameProducers_setCaller hslot _ rfl rfl) hmove
      | shutdown hmove => exact waiting_shutdown h hslot hstops hmove
      | stopNow hmove => exact waiting_stopNow h hslot hstops hmove

/-- A step that stops the pool wakes nobody who waits for a place. -/
theorem waiting_of_stops {a : Action} (hstep : step config s a = some t)
    (hopen : s.stop = false) (hstop : t.stop = true) : t.waiting = s.waiting := by
  have hkeeps : t.stop = s.stop → t.waiting = s.waiting := by
    intro hsame
    simp [hsame, hopen] at hstop
  cases stepped hstep with
  | call => exact hkeeps rfl
  | worker _ hmove => exact hkeeps hmove.frame.1
  | caller hslot hmove =>
      cases hmove with
      | enqueue hmove => exact hkeeps hmove.frame.1
      | pause hmove | resume hmove => exact hkeeps (by cases hmove <;> rfl)
      | shutdown hmove =>
          cases hmove with
          | drained => exact Slots.countP_set_of_eq hslot _ rfl
          | _ => exact hkeeps rfl
      | stopNow hmove =>
          cases hmove with
          | clear => exact Slots.countP_set_of_eq hslot _ rfl
          | notify | join => exact hkeeps rfl

/-- **No producer is stranded.**  In every state of a run the callers that wait
for a place in the queue have somebody to wait for, exactly when nobody waits
at the moment the pool is stopped. -/
theorem unstranded_iff {trace : List (Pool × Action)} {last : Pool}
    (hrun : Run (step config) (.start config) trace last) :
    (∀ s a t, (s, a) ∈ trace → step config s a = some t → Unstranded config t) ↔
      ∀ s a t, (s, a) ∈ trace → step config s a = some t → s.stop = false → t.stop = true →
        s.waiting = 0 := by
  constructor
  · intro h s a t hmem hstep hopen hstop
    by_contra hpos
    have hsame := waiting_of_stops hstep hopen hstop
    have hopen' := (h s a t hmem hstep (by omega)).1
    simp [hstop] at hopen'
  · intro h
    suffices hall : ∀ s a, (s, a) ∈ trace → Waiting config s by
      intro s a t hmem hstep
      obtain ⟨before, -, -, hbefore, -, -, -⟩ := hrun.split hmem
      exact (waiting_step (hall s a hmem) (inv_run hbefore) hstep (h s a t hmem hstep)).unstranded
    intro s a hmem
    obtain ⟨before, t, after, hbefore, -, -, rfl⟩ := hrun.split hmem
    have hstart : Waiting config (.start config) := .of_nobody rfl
    have hboth : Inv config s ∧ Waiting config s := by
      refine hbefore.invariant (fun u ↦ Inv config u ∧ Waiting config u)
        ⟨inv_start config, hstart⟩ fun u b v hmem' hu hstep ↦ ⟨inv_step hu.1 hstep, ?_⟩
      exact waiting_step hu.2 hu.1 hstep (h u b v (List.mem_append_left _ hmem') hstep)
    exact hboth.2

/-- The queue of one place is full and a third caller waits for the place when
`stop_now` empties the queue; then the only worker comes to its end. -/
def stranding : List Action :=
  [.call (.enqueue .normal .returned), .caller 0 (.offer false), .caller 0 (.signal none),
    .worker 0 .test, .worker 0 (.act false), .worker 0 (.take 0 none), .worker 0 .begin,
    .call (.enqueue .normal .returned), .caller 1 (.offer false), .caller 1 (.signal none),
    .call (.enqueue .normal .returned), .caller 2 (.offer false), .call .stopNow,
    .caller 3 .clear, .caller 3 .notify, .worker 0 .finish, .worker 0 .decrement,
    .worker 0 .check, .worker 0 .test, .worker 0 (.act false), .caller 3 .join]

def strandingRun : List (Pool × Action) × Pool :=
  executed (step ⟨1, 1, 1⟩) (.start ⟨1, 1, 1⟩) stranding

theorem run_stranding :
    Run (step ⟨1, 1, 1⟩) (.start ⟨1, 1, 1⟩) strandingRun.1 strandingRun.2 ∧
      ¬ Unstranded ⟨1, 1, 1⟩ strandingRun.2 := by
  refine ⟨Run.of_isSome (by decide +kernel), fun h ↦ ?_⟩
  have hopen := (h (by decide +kernel)).1
  exact absurd hopen (by decide +kernel)

theorem unstranded_iff_stranding :
    ∃ s a t, (s, a) ∈ strandingRun.1 ∧ step ⟨1, 1, 1⟩ s a = some t ∧ s.stop = false ∧
      t.stop = true ∧ s.waiting ≠ 0 := by
  obtain ⟨hrun, hstranded⟩ := run_stranding
  obtain ⟨s, a, hmem, hlast⟩ := hrun.exists_last (by decide +kernel)
  by_contra hnone
  push Not at hnone
  exact hstranded ((unstranded_iff hrun).mpr hnone s a _ hmem hlast)

/-- The pool is stopped, `stop_now` has returned and no worker is left, but the
third caller of `enqueue` is asleep and nobody is on the way to wake it. -/
theorem not_unstranded_stranding :
    ∃ trace last, Run (step ⟨1, 1, 1⟩) (.start ⟨1, 1, 1⟩) trace last ∧
      last.stop = true ∧ last.joined ∧ .stopNow .returned ∈ last.callers ∧
        last.waiting = 1 ∧ last.wokenUp = 0 ∧ ¬ Unstranded ⟨1, 1, 1⟩ last :=
  ⟨_, _, run_stranding.1, by decide +kernel, by decide +kernel, by decide +kernel,
    by decide +kernel, by decide +kernel, run_stranding.2⟩

/-! ## A closing pool -/

/-- The step in which caller `i` of `enqueue` asks returns an empty future. -/
def Refused (i : ℕ) (s t : Pool) : Prop :=
  t.tasks = s.tasks ∧
    ∃ priority callable, t.callers[i]? = some (.enqueue priority callable (.returned none))

/-- The step accepts no task, and refuses the caller if it asks for admission. -/
def TakesNoWork (s : Pool) (a : Action) (t : Pool) : Prop :=
  t.accepted = s.accepted ∧ ∀ i created, a = .caller i (.offer created) → Refused i s t

/-- What is left of a run after a call of `shutdown` has moved `state_` to
`SHUTTING_DOWN`. -/
def AfterClosing (trace after : List (Pool × Action)) : Prop :=
  ∃ before u i, trace = before ++ (u, .caller i .exchange) :: after ∧
    u.callers[i]? = some (.shutdown .exchanging) ∧ u.state = .running

def Pool.closing (s : Pool) : Prop := s.state = .shuttingDown ∨ s.state = .stopped

theorem closing_step {a : Action} (hclosing : s.closing) (h : step config s a = some t) :
    t.closing := by
  have hkeeps : t.state = s.state → t.closing := by
    intro hsame
    rwa [Pool.closing, hsame]
  cases stepped h with
  | call => exact hclosing
  | worker _ hmove => exact hkeeps hmove.frame.2.1
  | caller _ hmove =>
      cases hmove with
      | enqueue hmove => exact hkeeps hmove.frame.2
      | pause hmove | resume hmove =>
          cases hmove with
          | exchanged hstate => rcases hclosing with h' | h' <;> simp [hstate] at h'
          | unchanged | notify => exact hclosing
      | shutdown hmove =>
          cases hmove with
          | exchanged => exact .inl rfl
          | drained => exact .inr rfl
          | _ => exact hclosing
      | stopNow hmove =>
          cases hmove with
          | clear => exact .inr rfl
          | notify | join => exact hclosing

/-- A call of `shutdown` whose exchange has succeeded. -/
def Caller.exchanged : Caller → Bool
  | shutdown .exchanging | shutdown .answering | shutdown (.returned false _) => false
  | shutdown _ => true
  | _ => false

theorem wakeable_unexchanged : Wakeable fun c ↦ c.exchanged = false where
  shutdown h := by cases h
  enqueue _ _ _ := rfl

/-- Until the pool is closed, no exchange of a call of `shutdown` has succeeded. -/
def ClosedByExchange (s : Pool) : Prop := s.closing ∨ ∀ c ∈ s.callers, c.exchanged = false

theorem closedByExchange_step {a : Action} (h : ClosedByExchange s)
    (hstep : step config s a = some t) : ClosedByExchange t := by
  rcases h with hclosing | hall
  · exact .inl (closing_step hclosing hstep)
  cases stepped hstep with
  | call c =>
      right
      intro c' hc'
      rcases List.mem_append.mp hc' with hold | hnew
      · exact hall c' hold
      · rw [List.mem_singleton.mp hnew]
        cases c <;> rfl
  | worker _ hmove => exact .inr (wakeable_unexchanged.worker hall hmove)
  | caller hslot hmove =>
      have hmover := hall _ (Slots.mem_of_slot hslot)
      cases hmove with
      | enqueue hmove => exact .inr (wakeable_unexchanged.enqueueStep hall hmove)
      | pause hmove | resume hmove => exact .inr (wakeable_unexchanged.exchange hall rfl rfl hmove)
      | shutdown hmove =>
          cases hmove with
          | exchanged => exact .inl (.inl rfl)
          | unchanged | answer => exact .inr (Slots.forall_mem_set hall rfl)
          | _ => cases hmover
      | stopNow hmove =>
          cases hmove with
          | clear => exact .inl (.inr rfl)
          | notify =>
              exact .inr (wakeable_unexchanged.notifyAll (Slots.forall_mem_set hall rfl))
          | join => exact .inr (Slots.forall_mem_set hall rfl)

theorem closedByExchange_run {trace : List (Pool × Action)} {last : Pool}
    (hrun : Run (step config) (.start config) trace last) : ClosedByExchange last := by
  refine hrun.invariant ClosedByExchange (.inr fun c hc ↦ by cases hc) ?_
  exact fun _ _ _ _ h hstep ↦ closedByExchange_step h hstep

theorem accepted_step {a : Action} (h : step config s a = some t)
    (hasks : ∀ i created, a ≠ .caller i (.offer created)) : t.accepted = s.accepted := by
  cases stepped h with
  | call => rfl
  | worker _ hmove => exact hmove.frame.2.2
  | caller _ hmove =>
      cases hmove with
      | enqueue hmove =>
          cases hmove with
          | refused | full | admitted => exact absurd rfl (hasks _ _)
          | wake => rfl
          | signal hnotified =>
              rw [hnotified.eq]
              rfl
      | pause hmove | resume hmove | shutdown hmove | stopNow hmove => cases hmove <;> rfl

/-- Whoever asks for admission is refused only by a pool that is stopped. -/
theorem takesNoWork_offer_iff {i : ℕ} {created : Bool}
    (h : step config s (.caller i (.offer created)) = some t) :
    TakesNoWork s (.caller i (.offer created)) t ↔ s.stop = true := by
  cases stepped h with
  | caller hslot hmove =>
      have hnow : ∀ c : Caller, (s.callers.set i c)[i]? = some c := by
        intro c
        obtain ⟨hi, -⟩ := List.getElem?_eq_some_iff.mp hslot
        exact List.getElem?_set_self hi
      cases hmove with
      | @enqueue priority callable _ _ _ hmove =>
          cases hmove with
          | refused _ hstop =>
              refine iff_of_true ⟨rfl, fun j created' hsame ↦ ?_⟩ hstop
              obtain ⟨rfl, -⟩ := Action.caller.inj hsame
              exact ⟨rfl, _, _, hnow _⟩
          | full _ hstop =>
              refine iff_of_false (fun hrefused ↦ ?_) (by simp [hstop])
              obtain ⟨-, priority, callable, hslot'⟩ := hrefused.2 i created rfl
              simp [Pool.setCaller, hnow] at hslot'
          | admitted _ hstop =>
              refine iff_of_false (fun hrefused ↦ ?_) (by simp [hstop])
              have haccepted : (adjustThreadCount config (s.pushed i priority callable)
                  created).accepted = s.accepted + 1 := adjusted created fun _ _ ↦ rfl
              exact absurd (haccepted.symm.trans hrefused.1) (Nat.succ_ne_self s.accepted)
      | pause hmove | resume hmove | shutdown hmove | stopNow hmove => cases hmove

theorem closing_afterClosing {trace after : List (Pool × Action)} {last : Pool}
    (hrun : Run (step config) (.start config) trace last) (hafter : AfterClosing trace after)
    {a : Action} (hmem : (s, a) ∈ after) : s.closing := by
  obtain ⟨before, u, i, rfl, hslot, hstate⟩ := hafter
  rw [List.append_cons] at hrun
  obtain ⟨middle, hmiddle, hrest⟩ := hrun.append_inv
  obtain ⟨-, hexchange⟩ := hmiddle.snoc_inv
  have hclosing : middle.closing := by
    simp only [step, hslot, Option.bind_some, stepCaller, stepShutdown, hstate, if_true,
      Option.some.injEq] at hexchange
    subst hexchange
    exact .inl rfl
  obtain ⟨between, t, rest, hbetween, -, -, -⟩ := hrest.split hmem
  exact hbetween.invariant Pool.closing hclosing fun _ _ _ _ h hstep ↦ closing_step h hstep

/-- **A closing pool takes no new work.**  After `shutdown` has moved `state_`
to `SHUTTING_DOWN` nothing is accepted and everybody who asks is refused,
exactly when nobody asks in that state. -/
theorem closed_iff {trace : List (Pool × Action)} {last : Pool}
    (hrun : Run (step config) (.start config) trace last) :
    (∀ after, AfterClosing trace after → ∀ s a t, (s, a) ∈ after →
      step config s a = some t → TakesNoWork s a t) ↔
      ∀ after, AfterClosing trace after → ∀ s i created,
        (s, .caller i (.offer created)) ∈ after → s.state ≠ .shuttingDown := by
  have hsteps : ∀ after, AfterClosing trace after → ∀ s a, (s, a) ∈ after →
      (s.stop = true ↔ s.state = .stopped) ∧ ∃ t, step config s a = some t := by
    rintro after ⟨before, u, i, rfl, -, -⟩ s a hmem
    obtain ⟨_, t, _, hbefore, hstep, -, -⟩ :=
      hrun.split (List.mem_append_right before (List.mem_cons_of_mem _ hmem))
    exact ⟨(inv_run hbefore).stopped, t, hstep⟩
  constructor
  · intro h after hafter s i created hmem hstate
    obtain ⟨hstopped, t, hstep⟩ := hsteps after hafter s _ hmem
    have hstop := (takesNoWork_offer_iff hstep).mp (h after hafter s _ t hmem hstep)
    simp [hstopped.mp hstop] at hstate
  · intro h after hafter s a t hmem hstep
    by_cases hasks : ∃ i created, a = .caller i (.offer created)
    · obtain ⟨i, created, rfl⟩ := hasks
      have hstate := (closing_afterClosing hrun hafter hmem).resolve_left
        (h after hafter s i created hmem)
      exact (takesNoWork_offer_iff hstep).mpr ((hsteps after hafter s _ hmem).1.mpr hstate)
    · push Not at hasks
      exact ⟨accepted_step hstep hasks, fun i created hsame ↦ absurd hsame (hasks i created)⟩

/-- The only worker is at work when `shutdown` begins. -/
def lingering : List Action :=
  [.call (.enqueue .normal .returned), .caller 0 (.offer false), .caller 0 (.signal none),
    .worker 0 .test, .worker 0 (.act false), .worker 0 (.take 0 none), .worker 0 .begin,
    .call .shutdown]

/-- The time of its wait is over before the work is done, and then a task is offered. -/
def late : List Action :=
  lingering ++ [.caller 1 .exchange, .caller 1 .notify, .caller 1 .test, .caller 1 .sleep,
    .caller 1 (.wake true), .caller 1 .test, .call (.enqueue .high .returned),
    .caller 2 (.offer false)]

def lateRun : List (Pool × Action) × Pool := executed (step ⟨1, 1, 0⟩) (.start ⟨1, 1, 0⟩) late

theorem run_late :
    Run (step ⟨1, 1, 0⟩) (.start ⟨1, 1, 0⟩) lateRun.1 lateRun.2 ∧
      ∃ after, AfterClosing lateRun.1 after ∧
        ∃ s a t, (s, a) ∈ after ∧ step ⟨1, 1, 0⟩ s a = some t ∧
          .shutdown (.returned true false) ∈ s.callers ∧ t.accepted = s.accepted + 1 := by
  have hexchange : lateRun.1 = (executed (step ⟨1, 1, 0⟩) (.start ⟨1, 1, 0⟩) lingering).1 ++
      ((executed (step ⟨1, 1, 0⟩) (.start ⟨1, 1, 0⟩) lingering).2, .caller 1 .exchange) ::
        lateRun.1.drop 9 := by
    decide +kernel
  have haccepts : (lateRun.1.drop 9).any (fun e ↦ (step ⟨1, 1, 0⟩ e.1 e.2).any fun t ↦
      decide (.shutdown (.returned true false) ∈ e.1.callers ∧
        t.accepted = e.1.accepted + 1)) = true := by
    decide +kernel
  obtain ⟨⟨s, a⟩, hmem, hstep⟩ := List.any_eq_true.mp haccepts
  obtain ⟨t, hstep, haccepted⟩ := (Option.any_eq_true _ _).mp hstep
  obtain ⟨hlate, hmore⟩ := of_decide_eq_true haccepted
  exact ⟨Run.of_isSome (by decide +kernel), _,
    ⟨_, _, _, hexchange, by decide +kernel, by decide +kernel⟩, s, a, t, hmem, hstep, hlate, hmore⟩

theorem closed_iff_late :
    ∃ after, AfterClosing lateRun.1 after ∧ ∃ s i created,
      (s, .caller i (.offer created)) ∈ after ∧ s.state = .shuttingDown := by
  obtain ⟨hrun, after, hafter, s, a, t, hmem, hstep, -, hmore⟩ := run_late
  by_contra hnone
  push Not at hnone
  have hnothing := ((closed_iff hrun).mpr hnone after hafter s a t hmem hstep).1
  omega

/-- A call of `shutdown` has timed out and returned false, and a task is accepted after that. -/
theorem not_closed_late :
    ∃ trace last after, Run (step ⟨1, 1, 0⟩) (.start ⟨1, 1, 0⟩) trace last ∧
      AfterClosing trace after ∧ ∃ s a t, (s, a) ∈ after ∧ step ⟨1, 1, 0⟩ s a = some t ∧
        .shutdown (.returned true false) ∈ s.callers ∧ ¬ TakesNoWork s a t := by
  obtain ⟨hrun, after, hafter, s, a, t, hmem, hstep, hlate, hmore⟩ := run_late
  refine ⟨_, _, after, hrun, hafter, s, a, t, hmem, hstep, hlate, fun hnothing ↦ ?_⟩
  have hsame := hnothing.1
  omega

end MyRpc.ThreadPool
