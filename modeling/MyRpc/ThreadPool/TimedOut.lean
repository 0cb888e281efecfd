import MyRpc.ThreadPool.Completion
import MyRpc.ThreadPool.Admission

/-!
# After a `shutdown` that timed out

A call of `shutdown` that gives up leaves the pool in `SHUTTING_DOWN`.  The
exchange of every later call fails, and the call answers from `state_`: it
waits for nothing, stops nothing and joins nobody, even when all work is done
by then (`finishesLater_iff`).
-/

namespace MyRpc.ThreadPool

open PartialRun

variable {config : ThreadPoolStruct} {s t : Pool}

/-- A call of `shutdown` has returned false because its time was over. -/
def TimedOut (s : Pool) : Prop := .shutdown (.returned true false) ∈ s.callers

/-- `shutdown` is called in `s`, and that call has returned `ok` in `t`. -/
structure FurtherCall (config : ThreadPoolStruct) (s t : Pool) (moved ok : Bool) : Prop where
  run : ∃ more, Run (step config) s ((s, .call .shutdown) :: more) t
  returned : t.callers[s.callers.length]? = some (.shutdown (.returned moved ok))

/-- A further call of `shutdown` can return, and whenever it has returned, it
has returned true, and the pool is stopped with its workers joined. -/
def FinishesLater (config : ThreadPoolStruct) (s : Pool) : Prop :=
  (∃ t moved ok, FurtherCall config s t moved ok) ∧
    ∀ t moved ok, FurtherCall config s t moved ok → ok = true ∧ t.state = .stopped ∧ t.joined

theorem TimedOut.closing {trace : List (Pool × Action)}
    (hrun : Run (step config) (.start config) trace s) (h : TimedOut s) : s.closing := by
  rcases closedByExchange_run hrun with hclosing | hall
  · exact hclosing
  · cases hall _ h

/-! ## The caller of the further call -/

/-- Where a call of `shutdown` can be that was begun after the pool was stopped. -/
def Answers (s : Pool) (i : ℕ) : Prop :=
  s.callers[i]? = some (.shutdown .exchanging) ∨ s.callers[i]? = some (.shutdown .answering) ∨
    s.callers[i]? = some (.shutdown (.returned false true))

theorem answers_step {a : Action} {i : ℕ} (h : Answers s i) (hstate : s.state = .stopped)
    (hstep : step config s a = some t) : Answers t i := by
  by_cases hother : ∀ b, a ≠ .caller i b
  · rcases h with hslot | hslot | hslot
    · exact .inl (caller_kept hslot (by simp) rfl hother hstep)
    · exact .inr (.inl (caller_kept hslot (by simp) rfl hother hstep))
    · exact .inr (.inr (caller_kept hslot (by simp) rfl hother hstep))
  · push Not at hother
    obtain ⟨b, rfl⟩ := hother
    cases stepped hstep with
    | @caller _ c _ _ hslot' hmove =>
        obtain ⟨hi, -⟩ := List.getElem?_eq_some_iff.mp hslot'
        have hset : ∀ c', (s.setCaller i c').callers[i]? = some c' :=
          fun c' ↦ List.getElem?_set_self hi
        rcases h with hslot | hslot | hslot
        · obtain rfl := Option.some.inj (hslot'.symm.trans hslot)
          cases hmove with
          | shutdown hmove =>
              cases hmove with
              | exchanged hrunning => simp [hstate] at hrunning
              | unchanged => exact .inr (.inl (hset _))
        · obtain rfl := Option.some.inj (hslot'.symm.trans hslot)
          cases hmove with
          | shutdown hmove =>
              cases hmove with
              | answer =>
                  refine .inr (.inr ((hset _).trans ?_))
                  simp [hstate]
        · obtain rfl := Option.some.inj (hslot'.symm.trans hslot)
          cases hmove with
          | shutdown hmove => cases hmove

/-- A pool that is stopped, with its workers joined, and the further call in it. -/
structure Finished (config : ThreadPoolStruct) (s : Pool) (i : ℕ) : Prop where
  inv : Inv config s
  stop : s.stop = true
  joined : s.joined
  answers : Answers s i

theorem Finished.next {a : Action} {i : ℕ} (h : Finished config s i)
    (hstep : step config s a = some t) : Finished config t i :=
  ⟨inv_step h.inv hstep, (stop_step h.stop hstep).1, joined_step h.joined h.stop hstep,
    answers_step h.answers (h.inv.stopped.mp h.stop) hstep⟩

/-! ## What it returns -/

/-- Alone, the further call answers whether the pool is stopped, and changes nothing. -/
theorem furtherCall_alone (hclosing : s.closing) :
    ∃ t, FurtherCall config s t false (s.state = .stopped) ∧ t.state = s.state ∧
      t.workers = s.workers := by
  have hrunning : s.state ≠ .running := by rcases hclosing with h | h <;> simp [h]
  let begun : Pool := { s with callers := s.callers ++ [.shutdown .exchanging] }
  let exchanged : Pool := begun.setCaller s.callers.length (.shutdown .answering)
  have hbegun : step config s (.call .shutdown) = some begun := rfl
  have hexchange : step config begun (.caller s.callers.length .exchange) = some exchanged := by
    simp [step, begun, exchanged, stepCaller, stepShutdown, hrunning]
  have hanswer : step config exchanged (.caller s.callers.length .answer) =
      some (exchanged.setCaller s.callers.length
        (.shutdown (.returned false (s.state = .stopped)))) := by
    simp [step, begun, exchanged, stepCaller, stepShutdown, Pool.setCaller]
  refine ⟨_, ⟨⟨_, .cons hbegun (.cons hexchange (.cons hanswer .nil))⟩, ?_⟩, rfl, rfl⟩
  simp [begun, exchanged, Pool.setCaller]

/-- **Finishing a shutdown that has timed out.**  In every state in which a
call of `shutdown` has given up, a further call finishes the shutdown exactly
when there is nothing left to finish. -/
theorem finishesLater_iff {trace : List (Pool × Action)}
    (hrun : Run (step config) (.start config) trace s) (htimedOut : TimedOut s) :
    FinishesLater config s ↔ s.stop = true ∧ s.joined := by
  have hinv := inv_run hrun
  obtain ⟨t, halone, hstate, hworkers⟩ := @furtherCall_alone config s
    (htimedOut.closing hrun)
  constructor
  · rintro ⟨-, h⟩
    obtain ⟨-, hstopped, hjoined⟩ := h t _ _ halone
    refine ⟨hinv.stopped.mpr (hstate.symm.trans hstopped), fun w hw ↦ ?_⟩
    exact hjoined w (hworkers ▸ hw)
  · rintro ⟨hstop, hjoined⟩
    refine ⟨⟨t, _, _, halone⟩, ?_⟩
    rintro u moved ok ⟨⟨more, hfurther⟩, hreturned⟩
    have hwhole : Run (step config) s ([(s, .call .shutdown)] ++ more) u := hfurther
    obtain ⟨begun, hbegin, hmore⟩ := hwhole.append_inv
    have hfirst : Run (step config) s ([] ++ [(s, .call .shutdown)]) begun := hbegin
    obtain ⟨-, hcall⟩ := hfirst.snoc_inv
    have hbegun : Finished config begun s.callers.length := by
      refine ⟨inv_step hinv hcall, (stop_step hstop hcall).1, joined_step hjoined hstop hcall, ?_⟩
      cases hcall
      exact .inl (by simp [Call.begin])
    have hlast := hmore.invariant (fun v ↦ Finished config v s.callers.length) hbegun
      fun _ _ _ _ hv hstep ↦ hv.next hstep
    refine ⟨?_, hlast.inv.stopped.mp hlast.stop, hlast.joined⟩
    rcases hlast.answers with hslot | hslot | hslot
    · simp [hslot] at hreturned
    · simp [hslot] at hreturned
    · rw [hslot] at hreturned
      cases hreturned
      rfl

/-- `shutdown` gives up while the only worker is at work; then the work is done. -/
def givingUp : List Action :=
  lingering ++ [.caller 1 .exchange, .caller 1 .notify, .caller 1 .test, .caller 1 .sleep,
    .caller 1 (.wake true), .caller 1 .test, .worker 0 .finish, .worker 0 .decrement]

def givingUpRun (more : List Action) : List (Pool × Action) × Pool :=
  executed (step ⟨1, 1, 0⟩) (.start ⟨1, 1, 0⟩) (givingUp ++ more)

/-- `stop_now` does what the second `shutdown` does not do. -/
def stoppingNow : List Action :=
  [.call .stopNow, .caller 2 .clear, .caller 2 .notify, .worker 0 .check, .worker 0 .test,
    .worker 0 (.act false), .caller 2 .join]

theorem finishesLater_iff_stoppingNow :
    TimedOut (givingUpRun stoppingNow).2 ∧
      FinishesLater ⟨1, 1, 0⟩ (givingUpRun stoppingNow).2 := by
  have hrun : Run (step ⟨1, 1, 0⟩) (.start ⟨1, 1, 0⟩) (givingUpRun stoppingNow).1
      (givingUpRun stoppingNow).2 := Run.of_isSome (by decide +kernel)
  have htimedOut : TimedOut (givingUpRun stoppingNow).2 := by
    show .shutdown (.returned true false) ∈ (givingUpRun stoppingNow).2.callers
    decide +kernel
  exact ⟨htimedOut, (finishesLater_iff hrun htimedOut).mpr (by decide +kernel)⟩

/-- The queue is empty and nobody works, and yet no further call finishes the shutdown. -/
theorem not_finishesLater_givingUp :
    ∃ trace last, Run (step ⟨1, 1, 0⟩) (.start ⟨1, 1, 0⟩) trace last ∧ TimedOut last ∧
      last.tasks = [] ∧ last.activeThreads = 0 ∧ last.held = [] ∧
        ¬ FinishesLater ⟨1, 1, 0⟩ last := by
  have hstate : (givingUpRun []).2.state = .shuttingDown := by decide +kernel
  have htimedOut : TimedOut (givingUpRun []).2 := by
    show .shutdown (.returned true false) ∈ (givingUpRun []).2.callers
    decide +kernel
  refine ⟨_, (givingUpRun []).2, Run.of_isSome (by decide +kernel), htimedOut,
    by decide +kernel, by decide +kernel, by decide +kernel, fun h ↦ ?_⟩
  obtain ⟨t, halone, hsame, -⟩ := @furtherCall_alone ⟨1, 1, 0⟩ _ (.inl hstate)
  have hstopped := (h.2 t _ _ halone).2.1
  simp [hsame, hstate] at hstopped

end MyRpc.ThreadPool
