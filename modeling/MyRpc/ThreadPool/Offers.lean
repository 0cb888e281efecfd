import MyRpc.ThreadPool.Completion

/-!
# Offers

A call of `enqueue` waits for the mutex, or for room in the queue, until its task is
accepted or refused, and a task is refused by a pool that is stopped and by no other.
-/

namespace MyRpc.ThreadPool

inductive Offer
  | none
  | waiting
  | refused
  deriving DecidableEq, Repr

def Caller.offer : Caller → Offer
  | enqueue _ _ (.locking _) | enqueue _ _ .asleep => .waiting
  | enqueue _ _ (.returned .none) => .refused
  | _ => .none

/-- The thread that called `enqueue` has not come back. -/
def Caller.away : Caller → Bool
  | enqueue _ _ (.returned _) => false
  | enqueue _ _ _ => true
  | _ => false

theorem Caller.away_of_waiting {c : Caller} (h : c.offer = .waiting) : c.away = true := by
  unfold Caller.offer at h
  split at h <;> first | rfl | cases h

def Pool.offers (s : Pool) : List Offer := s.callers.map Caller.offer

/-- The number of offers that wait. -/
def Pool.undecided (s : Pool) : ℕ := s.offers.count .waiting

/-- What a step of a thread is for the offers. -/
inductive Offered (s t : Pool) : Prop
  | keeps : t.accepted = s.accepted → t.offers = s.offers → Offered s t
  | refuses (i : ℕ) : s.offers[i]? = some .waiting → s.stop = true → t.accepted = s.accepted →
      t.offers = s.offers.set i .refused → Offered s t
  | accepts (i : ℕ) : s.offers[i]? = some .waiting → t.accepted = s.accepted + 1 →
      t.offers = s.offers.set i .none → Offered s t

variable {config : ThreadPoolStruct} {s t : Pool}

theorem offers_setCaller {i : ℕ} {c c' : Caller} (hslot : s.callers[i]? = some c)
    (hsame : c'.offer = c.offer) : (s.setCaller i c').offers = s.offers :=
  Slots.map_set_of_eq hslot c' hsame

theorem offers_set (s : Pool) (i : ℕ) (c : Caller) :
    (s.setCaller i c).offers = s.offers.set i c.offer := List.map_set

theorem steady_offer : Steady Caller.offer := ⟨rfl, fun _ _ ↦ rfl⟩

theorem offered_enqueueStep {i : ℕ} {priority : TaskPriority} {callable : Outcome} {pc : Enqueue}
    {a : CallerAction} (hslot : s.callers[i]? = some (.enqueue priority callable pc))
    (h : EnqueueStep config s i priority callable pc a t) : Offered s t := by
  have hoffer : s.offers[i]? = some (Caller.enqueue priority callable pc).offer := by
    rw [Pool.offers, List.getElem?_map, hslot]
    rfl
  cases h with
  | refused _ hstop => exact .refuses i hoffer hstop rfl (offers_set s i _)
  | full | wake => exact .keeps rfl (offers_setCaller hslot rfl)
  | admitted =>
      apply Offered.accepts i hoffer
      · exact adjusted _ fun _ _ ↦ rfl
      · exact adjusted _ fun _ _ ↦ offers_set s i _
  | signal hnotified =>
      apply Offered.keeps
      · rw [hnotified.eq]
        rfl
      · exact (steady_offer.notifiedOne hnotified).trans (offers_setCaller hslot rfl)

theorem offered_exchangeStep {i : ℕ} {caller : Exchange → Caller}
    {expected desired : ThreadPoolState} {pc : Exchange} {a : CallerAction}
    (hslot : s.callers[i]? = some (caller pc)) (hnone : ∀ pc', (caller pc').offer = .none)
    (h : ExchangeStep s i caller expected desired pc a t) : Offered s t := by
  apply Offered.keeps
  · cases h <;> rfl
  · exact steady_offer.exchangeStep hslot (fun pc' ↦ (hnone pc').trans (hnone pc).symm) h

theorem offered_shutdownStep {i : ℕ} {pc : Shutdown} {a : CallerAction}
    (hslot : s.callers[i]? = some (.shutdown pc)) (h : ShutdownStep s i pc a t) : Offered s t := by
  have hset : ∀ pc', (s.setCaller i (.shutdown pc')).offers = s.offers :=
    fun pc' ↦ offers_setCaller hslot rfl
  cases h with
  | announce | notify => exact .keeps rfl ((steady_offer.notifyAll _).trans (hset _))
  | _ => exact .keeps rfl (hset _)

theorem offered_stopNowStep {i : ℕ} {pc : StopNow} {a : CallerAction}
    (hslot : s.callers[i]? = some (.stopNow pc)) (h : StopNowStep s i pc a t) : Offered s t := by
  have hset : ∀ pc', (s.setCaller i (.stopNow pc')).offers = s.offers :=
    fun pc' ↦ offers_setCaller hslot rfl
  cases h with
  | clear | join => exact .keeps rfl (hset _)
  | notify => exact .keeps rfl ((steady_offer.notifyAll _).trans (hset _))

theorem offered_step {a : Action} (hcall : ∀ c, a ≠ .call c) (h : step config s a = some t) :
    Offered s t := by
  cases stepped h with
  | call c => exact absurd rfl (hcall c)
  | worker _ hmove => exact .keeps hmove.frame.2.2 (steady_offer.workerStep hmove)
  | caller hslot hmove =>
      cases hmove with
      | enqueue hmove => exact offered_enqueueStep hslot hmove
      | pause hmove | resume hmove => exact offered_exchangeStep hslot (fun _ ↦ rfl) hmove
      | shutdown hmove => exact offered_shutdownStep hslot hmove
      | stopNow hmove => exact offered_stopNowStep hslot hmove

/-- Tasks are finished by workers alone, one at a time. -/
theorem finished_step {a : Action} (hfinish : ∀ i, a ≠ .worker i .finish)
    (h : step config s a = some t) : t.finished = s.finished := by
  cases stepped h with
  | call => rfl
  | @worker i w b _ _ hmove =>
      cases hmove with
      | takeNotify _ _ _ _ hnotified =>
          rw [hnotified.eq]
          rfl
      | finish => exact absurd rfl (hfinish i)
      | _ => rfl
  | caller _ hmove =>
      cases hmove with
      | enqueue hmove =>
          cases hmove with
          | refused | full | wake => rfl
          | admitted => exact adjusted _ fun _ _ ↦ rfl
          | signal hnotified =>
              rw [hnotified.eq]
              rfl
      | pause hmove | resume hmove => cases hmove <;> rfl
      | shutdown hmove => cases hmove <;> rfl
      | stopNow hmove => cases hmove <;> rfl

theorem finished_finish {i : ℕ} {task : TaskWrapper}
    (hslot : s.workers[i]? = some (.running task))
    (h : step config s (.worker i .finish) = some t) : t.finished = s.finished ++ [task] := by
  cases stepped h with
  | worker hslot' hmove =>
      cases hmove with
      | finish =>
          cases hslot.symm.trans hslot'
          rfl

end MyRpc.ThreadPool
