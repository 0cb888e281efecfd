import MyRpc.ThreadPool.Released
import MyRpc.ThreadPool.Stopping

/-!
# One pool at a time

`shutdown` and `destroy` keep the mutex of the singleton while they close the pool,
so no two of them are at it at once, and nobody else stops it.  A pool that the
singleton no longer points to has therefore no thread left, and there is never more
than one that has (`onePool_run`).
-/

namespace MyRpc.ThreadPoolSingleton

open PartialRun ThreadPool

/-- How far a call has come with stopping the pool; `idle` is one that will not
stop it, or not any more. -/
inductive Stage
  | idle
  | before
  | stopped
  | done
  deriving DecidableEq, Repr

def stage : Caller → Stage
  | .enqueue _ _ _ | .pause _ | .resume _ => .idle
  | .shutdown (.returned _ false) => .idle
  | .shutdown .notifying | .shutdown .joining => .stopped
  | .shutdown (.returned _ true) => .done
  | .stopNow .notifying | .stopNow .joining => .stopped
  | .stopNow .returned => .done
  | _ => .before

def stages (p : Pool) : List Stage := p.callers.map stage

/-- The call has stopped the pool. -/
def Stage.ends : Stage → Prop
  | stopped | done => True
  | _ => False

/-- Only the callers in `active` may stop the pool; it is stopped when one of them
has done so, and joined when that call is done. -/
structure Tended (active : ℕ → Prop) (p : Pool) : Prop where
  others : ∀ k x, (stages p)[k]? = some x → ¬ active k → x = .idle
  stop : p.stop = true ↔ ∃ x ∈ stages p, x.ends
  done : .done ∈ stages p → p.joined

variable {config : ThreadPoolStruct} {p q : Pool} {active : ℕ → Prop}

/-! ## Steps that leave the stages as they are -/

theorem stages_setCaller {i : ℕ} {c c' : Caller} (hslot : p.callers[i]? = some c)
    (hsame : stage c' = stage c) : stages (p.setCaller i c') = stages p :=
  Slots.map_set_of_eq hslot c' hsame

theorem steady_stage : Steady stage := ⟨rfl, fun _ _ ↦ rfl⟩

theorem stages_enqueueStep {i : ℕ} {priority : TaskPriority} {callable : Outcome} {pc : Enqueue}
    {a : CallerAction} (hslot : p.callers[i]? = some (.enqueue priority callable pc))
    (h : EnqueueStep config p i priority callable pc a q) :
    stages q = stages p ∧ q.stop = p.stop := by
  refine ⟨?_, h.frame.1⟩
  cases h with
  | refused | full | wake => exact stages_setCaller hslot rfl
  | admitted => exact adjusted _ fun _ _ ↦ stages_setCaller hslot rfl
  | signal hnotified =>
      exact (steady_stage.notifiedOne hnotified).trans (stages_setCaller hslot rfl)

theorem stages_exchangeStep {i : ℕ} {caller : Exchange → Caller}
    {expected desired : ThreadPoolState} {pc : Exchange} {a : CallerAction}
    (hslot : p.callers[i]? = some (caller pc)) (hstage : ∀ pc', stage (caller pc') = .idle)
    (h : ExchangeStep p i caller expected desired pc a q) :
    stages q = stages p ∧ q.stop = p.stop := by
  refine ⟨?_, ?_⟩
  · exact steady_stage.exchangeStep hslot (fun pc' ↦ (hstage pc').trans (hstage pc).symm) h
  · cases h <;> rfl

namespace Tended

/-- Nothing changes for a pool whose calls are at the same stages. -/
theorem same {a : Action} (h : Tended active p) (hstages : stages q = stages p)
    (hstop : q.stop = p.stop) (hstep : ThreadPool.step config p a = some q) :
    Tended active q := by
  refine ⟨hstages ▸ h.others, ?_, ?_⟩
  · rw [hstop, hstages]
    exact h.stop
  · rw [hstages]
    intro hdone
    exact joined_step (h.done hdone) (h.stop.mpr ⟨_, hdone, trivial⟩) hstep

/-- No call has stopped the pool if the only one that may has not. -/
theorem unstopped {i : ℕ} {c : Caller} (h : Tended active p)
    (hone : ∀ k, active k → k = i) (hslot : p.callers[i]? = some c)
    (hstage : ¬ (stage c).ends) : ∀ x ∈ stages p, ¬ x.ends := by
  intro x hx
  obtain ⟨k, hk⟩ := List.mem_iff_getElem?.mp hx
  by_cases hactive : active k
  · obtain rfl := hone k hactive
    rw [stages, List.getElem?_map, hslot] at hk
    cases hk
    exact hstage
  · rw [h.others k x hk hactive]
    exact id

/-- The call that may stop the pool goes on, and has not come to its end yet. -/
theorem advance {i : ℕ} {c c' : Caller} (h : Tended active p) (hone : ∀ k, active k → k = i)
    (hactive : active i) (hslot : p.callers[i]? = some c)
    (hstages : stages q = (stages p).set i (stage c'))
    (hstop : q.stop = true ↔ (stage c').ends) (hdone : stage c' = .done → q.joined) :
    Tended active q := by
  have hother : ∀ k x, (stages q)[k]? = some x → k ≠ i → x = .idle := by
    intro k x hk hne
    rw [hstages, List.getElem?_set_ne hne.symm] at hk
    exact h.others k x hk fun hk' ↦ hne (hone k hk')
  have hself : (stages q)[i]? = some (stage c') := by
    have hi : i < (stages p).length := by
      rw [stages, List.length_map]
      exact (List.getElem?_eq_some_iff.mp hslot).1
    rw [hstages, List.getElem?_set_self hi]
  refine ⟨fun k x hk hnot ↦ hother k x hk fun hki ↦ hnot (hki ▸ hactive), ?_, ?_⟩
  · rw [hstop]
    constructor
    · intro hends
      exact ⟨_, List.mem_of_getElem? hself, hends⟩
    · rintro ⟨x, hx, hends⟩
      obtain ⟨k, hk⟩ := List.mem_iff_getElem?.mp hx
      by_cases hki : k = i
      · subst hki
        rwa [← Option.some.inj (hk.symm.trans hself)]
      · rw [hother k x hk hki] at hends
        exact hends.elim
  · intro hx
    obtain ⟨k, hk⟩ := List.mem_iff_getElem?.mp hx
    by_cases hki : k = i
    · subst hki
      exact hdone (Option.some.inj (hself.symm.trans hk))
    · cases hother k _ hk hki

end Tended

/-! ## Steps of the call that closes the pool -/

theorem stages_set (p : Pool) (i : ℕ) (c : Caller) :
    stages (p.setCaller i c) = (stages p).set i (stage c) := List.map_set

theorem tended_shutdown {i : ℕ} {pc : ThreadPool.Shutdown} {a : CallerAction}
    (hinv : ThreadPool.Inv config p) (h : Tended active p) (hone : ∀ k, active k → k = i)
    (hactive : active i) (hslot : p.callers[i]? = some (.shutdown pc))
    (hmove : ShutdownStep p i pc a q) : Tended active q := by
  have hfree : ¬ (stage (.shutdown pc)).ends → ¬ p.stop = true := by
    intro hstage hstop
    obtain ⟨x, hx, hends⟩ := h.stop.mp hstop
    exact h.unstopped hone hslot hstage x hx hends
  have hset : (stage (.shutdown pc)).ends → p.stop = true := by
    intro hstage
    refine h.stop.mpr ⟨_, ?_, hstage⟩
    exact List.mem_map_of_mem (Slots.mem_of_slot hslot)
  have hnotified : ∀ (u : Pool) (c : Caller), stages (u.setCaller i c).notifyAll =
      (stages u).set i (stage c) := fun u c ↦ (steady_stage.notifyAll _).trans (stages_set u i c)
  cases hmove with
  | exchanged | unchanged | timedOut | undrained | sleep | wake =>
      apply h.advance hone hactive hslot
      · exact stages_set p i _
      · exact iff_of_false (hfree id) id
      · intro hdone
        cases hdone
  | answer =>
      have hstate : p.state ≠ .stopped := fun hstopped ↦ hfree id (hinv.stopped.mpr hstopped)
      apply h.advance hone hactive hslot
      · exact stages_set p i _
      · rw [decide_eq_false hstate]
        exact iff_of_false (hfree id) id
      · rw [decide_eq_false hstate]
        intro hdone
        cases hdone
  | announce =>
      apply h.advance hone hactive hslot
      · exact hnotified p _
      · exact iff_of_false (hfree id) id
      · intro hdone
        cases hdone
  | drained =>
      apply h.advance hone hactive hslot
      · exact stages_set p i (.shutdown .notifying)
      · exact iff_of_true rfl trivial
      · intro hdone
        cases hdone
  | notify =>
      apply h.advance hone hactive hslot
      · exact hnotified p _
      · exact iff_of_true (hset trivial) trivial
      · intro hdone
        cases hdone
  | join hjoined =>
      apply h.advance hone hactive hslot
      · exact stages_set p i _
      · exact iff_of_true (hset trivial) trivial
      · exact fun _ ↦ hjoined

theorem tended_stopNow {i : ℕ} {pc : ThreadPool.StopNow} {a : CallerAction} (h : Tended active p)
    (hone : ∀ k, active k → k = i) (hactive : active i)
    (hslot : p.callers[i]? = some (.stopNow pc)) (hmove : StopNowStep p i pc a q) :
    Tended active q := by
  have hset : (stage (.stopNow pc)).ends → p.stop = true := by
    intro hstage
    refine h.stop.mpr ⟨_, ?_, hstage⟩
    exact List.mem_map_of_mem (Slots.mem_of_slot hslot)
  cases hmove with
  | clear =>
      apply h.advance hone hactive hslot
      · exact stages_set p i (.stopNow .notifying)
      · exact iff_of_true rfl trivial
      · intro hdone
        cases hdone
  | notify =>
      apply h.advance hone hactive hslot
      · exact (steady_stage.notifyAll _).trans (stages_set p i _)
      · exact iff_of_true (hset trivial) trivial
      · intro hdone
        cases hdone
  | join hjoined =>
      apply h.advance hone hactive hslot
      · exact stages_set p i _
      · exact iff_of_true (hset trivial) trivial
      · exact fun _ ↦ hjoined

/-- A caller that is not idle moves only if it is the one that may stop the pool. -/
theorem tended_step {a : Action} (hinv : ThreadPool.Inv config p) (h : Tended active p)
    (hone : ∀ k k', active k → active k' → k = k') (hcall : ∀ c, a ≠ .call c)
    (hstep : ThreadPool.step config p a = some q) : Tended active q := by
  cases ThreadPool.stepped hstep with
  | call c => exact absurd rfl (hcall c)
  | worker _ hmove => exact h.same (steady_stage.workerStep hmove) hmove.frame.1 hstep
  | @caller i c b _ hslot hmove =>
      have hidle : ¬ active i → stage c = .idle := by
        apply h.others i
        rw [stages, List.getElem?_map, hslot]
        rfl
      cases hmove with
      | enqueue hmove =>
          obtain ⟨hstages, hstop⟩ := stages_enqueueStep hslot hmove
          exact h.same hstages hstop hstep
      | pause hmove | resume hmove =>
          obtain ⟨hstages, hstop⟩ := stages_exchangeStep hslot (fun _ ↦ rfl) hmove
          exact h.same hstages hstop hstep
      | @shutdown pc _ _ hmove =>
          by_cases hactive : active i
          · exact tended_shutdown hinv h (fun k hk ↦ hone k i hk hactive) hactive hslot hmove
          · have hreturned := hidle hactive
            cases hmove <;> cases hreturned
      | stopNow hmove =>
          by_cases hactive : active i
          · exact tended_stopNow h (fun k hk ↦ hone k i hk hactive) hactive hslot hmove
          · have hreturned := hidle hactive
            cases hmove <;> cases hreturned

/-! ## Calls that begin and end -/

/-- A call has begun that is idle, or may stop the pool from now on. -/
theorem Tended.enter {active' : ℕ → Prop} (h : Tended active p) (c : Call)
    (hactive : ∀ k, active k → active' k)
    (hnew : stage c.begin = .idle ∨ active' p.callers.length) :
    Tended active' { p with callers := p.callers ++ [c.begin] } := by
  have hstages : stages { p with callers := p.callers ++ [c.begin] } =
      stages p ++ [stage c.begin] := List.map_append
  have hbegin : stage c.begin = .idle ∨ stage c.begin = .before := by
    cases c with
    | enqueue | pause | resume => exact .inl rfl
    | shutdown | stopNow => exact .inr rfl
  have hquiet : ∀ x ∈ [stage c.begin], ¬ x.ends ∧ x ≠ .done := by
    intro x hx
    rw [List.mem_singleton.mp hx]
    rcases hbegin with hidle | hbefore
    · rw [hidle]
      exact ⟨id, by simp⟩
    · rw [hbefore]
      exact ⟨id, by simp⟩
  refine ⟨fun k x hk hnot ↦ ?_, ?_, ?_⟩
  · rw [hstages] at hk
    by_cases hlt : k < (stages p).length
    · rw [List.getElem?_append_left hlt] at hk
      exact h.others k x hk fun hold ↦ hnot (hactive k hold)
    · rw [List.getElem?_append_right (Nat.le_of_not_lt hlt)] at hk
      rw [List.getElem?_singleton, Option.ite_none_right_eq_some] at hk
      obtain ⟨hzero, hx⟩ := hk
      cases hx
      refine hnew.resolve_right fun hlast ↦ hnot ?_
      have hlength : k = p.callers.length := by
        rw [stages, List.length_map] at hlt hzero
        omega
      rwa [hlength]
  · rw [hstages]
    refine h.stop.trans ⟨?_, ?_⟩
    · rintro ⟨x, hx, hends⟩
      exact ⟨x, List.mem_append_left _ hx, hends⟩
    · rintro ⟨x, hx, hends⟩
      rcases List.mem_append.mp hx with hold | hnew
      · exact ⟨x, hold, hends⟩
      · exact absurd hends (hquiet x hnew).1
  · rw [hstages]
    intro hdone
    rcases List.mem_append.mp hdone with hold | hnew
    · exact h.done hold
    · exact absurd rfl (hquiet _ hnew).2

/-- The call that might have stopped the pool has not. -/
theorem Tended.leave {i : ℕ} {c : Caller} (h : Tended active p) (hone : ∀ k, active k → k = i)
    (hslot : p.callers[i]? = some c) (hidle : stage c = .idle) :
    Tended (fun _ ↦ False) p := by
  refine ⟨fun k x hk _ ↦ ?_, h.stop, h.done⟩
  by_cases hactive : active k
  · obtain rfl := hone k hactive
    rw [stages, List.getElem?_map, hslot] at hk
    exact (Option.some.inj hk).symm.trans hidle
  · exact h.others k x hk hactive

theorem tended_start (config : ThreadPoolStruct) : Tended active (.start config) := by
  have hnone : stages (.start config) = [] := rfl
  constructor
  · intro k x hk
    rw [hnone] at hk
    cases hk
  · apply iff_of_false Bool.false_ne_true
    rintro ⟨x, hx, -⟩
    rw [hnone] at hx
    cases hx
  · intro hdone
    rw [hnone] at hdone
    cases hdone

/-! ## The singleton -/

variable {hardware : ℕ} {s t : Singleton}

/-- The client closes pool `g`, as its caller `i`. -/
def Client.closes (g i : ℕ) : Client → Prop
  | shuttingDown g' i' | destroying g' i' => g' = g ∧ i' = i
  | _ => False

def Closing (s : Singleton) (g i : ℕ) : Prop := ∃ c ∈ s.clients, c.closes g i

/-- The pool that is there is tended by who holds the mutex; every other one was
released, and has no thread left. -/
structure Kept (s : Singleton) : Prop where
  one : s.clients.countP Client.holdsMutex ≤ 1
  closing : ∀ g i, Closing s g i → s.instance_ = some g
  present : ∀ g, s.instance_ = some g → ∃ p, s.pools[g]? = some p ∧ p.released = false
  unreleased : ∀ (g : ℕ) (p : Instance), s.pools[g]? = some p → p.released = false →
    s.instance_ = some g ∧ Tended (Closing s g) p.pool
  released : ∀ (g : ℕ) (p : Instance), s.pools[g]? = some p → p.released = true →
    p.pool.stop = true ∧ p.pool.joined

theorem Client.holdsMutex_of_closes {g i : ℕ} {c : Client} (h : c.closes g i) :
    c.holdsMutex = true := by
  cases c with
  | shuttingDown | destroying => rfl
  | _ => exact h.elim

theorem not_closing_of_free (hfree : s.locked = false) (g i : ℕ) : ¬ Closing s g i := by
  rintro ⟨c, hc, hcloses⟩
  have hholds := List.any_eq_false.mp hfree c hc
  exact hholds (Client.holdsMutex_of_closes hcloses)

theorem closing_unique {g g' i i' j : ℕ} {c : Client}
    (hone : s.clients.countP Client.holdsMutex ≤ 1) (hslot : s.clients[j]? = some c)
    (hcloses : c.closes g i) (h : Closing s g' i') : g' = g ∧ i' = i := by
  obtain ⟨c', hc', hcloses'⟩ := h
  have hsame : c' = c := by
    by_contra hne
    exact Slots.not_mem_of_countP_le_one hone hslot (Client.holdsMutex_of_closes hcloses)
      (Client.holdsMutex_of_closes hcloses') hne hc'
  subst hsame
  cases c' with
  | shuttingDown | destroying =>
      obtain ⟨rfl, rfl⟩ := hcloses
      obtain ⟨rfl, rfl⟩ := hcloses'
      exact ⟨rfl, rfl⟩
  | _ => exact hcloses.elim

/-- A client that holds no mutex becomes another one that holds none. -/
theorem closing_set {j : ℕ} {c c' : Client} (hslot : s.clients[j]? = some c)
    (hbefore : c.holdsMutex = false) (hafter : c'.holdsMutex = false)
    (hclients : t.clients = s.clients.set j c') (g i : ℕ) : Closing t g i ↔ Closing s g i := by
  have hnot : ∀ {d : Client}, d.holdsMutex = false → ¬ d.closes g i := by
    intro d hd hcloses
    rw [Client.holdsMutex_of_closes hcloses] at hd
    cases hd
  rw [Closing, Closing, hclients]
  constructor
  · rintro ⟨d, hd, hcloses⟩
    rcases List.mem_or_eq_of_mem_set hd with hold | rfl
    · exact ⟨d, hold, hcloses⟩
    · exact absurd hcloses (hnot hafter)
  · exact fun h ↦ Slots.exists_mem_set hslot h (hnot hbefore) c'

namespace Kept

/-- Nothing has happened to the pools and to who closes them. -/
theorem frame (h : Kept s) (hinstance : t.instance_ = s.instance_) (hpools : t.pools = s.pools)
    (hone : t.clients.countP Client.holdsMutex ≤ 1)
    (hclosing : ∀ g i, Closing t g i ↔ Closing s g i) : Kept t where
  one := hone
  closing g i hcloses := hinstance ▸ h.closing g i ((hclosing g i).mp hcloses)
  present := by
    rw [hinstance, hpools]
    exact h.present
  unreleased g p hpool hreleased := by
    have hsame : Closing t g = Closing s g := funext fun i ↦ propext (hclosing g i)
    rw [hinstance, hsame]
    exact h.unreleased g p (hpools ▸ hpool) hreleased
  released := hpools ▸ h.released

/-- Without a pool, a new one is made. -/
theorem make (h : Kept s) (hnone : s.instance_ = none) (config : ThreadPoolStruct)
    (hfree : s.locked = false) : Kept (s.make config) where
  one := h.one
  closing g i hcloses := absurd hcloses (not_closing_of_free hfree g i)
  present g hg := by
    obtain rfl := Option.some.inj hg
    exact ⟨_, List.getElem?_concat_length, rfl⟩
  unreleased g p hpool hreleased := by
    have hold : ∀ p, s.pools[g]? = some p → p.released = true := by
      intro p hp
      by_contra hunreleased
      have hsome := (h.unreleased g p hp (Bool.eq_false_of_not_eq_true hunreleased)).1
      rw [hnone] at hsome
      cases hsome
    rcases lt_trichotomy g s.pools.length with hlt | rfl | hgt
    · have hpool' : s.pools[g]? = some p := (List.getElem?_append_left hlt).symm.trans hpool
      rw [hold p hpool'] at hreleased
      cases hreleased
    · obtain rfl := Option.some.inj (List.getElem?_concat_length.symm.trans hpool)
      exact ⟨rfl, tended_start config⟩
    · have hlength := (List.getElem?_eq_some_iff.mp hpool).1
      simp only [Singleton.make, List.length_append, List.length_singleton] at hlength
      omega
  released g p hpool hreleased := by
    by_cases hlt : g < s.pools.length
    · exact h.released g p ((List.getElem?_append_left hlt).symm.trans hpool) hreleased
    · have hnew : p = ⟨config, .start config, false⟩ := by
        have hpool' := (List.getElem?_append_right (Nat.le_of_not_lt hlt)).symm.trans hpool
        exact List.mem_singleton.mp (List.mem_of_getElem? hpool')
      rw [hnew] at hreleased
      cases hreleased

theorem fetch (h : Kept s) (config : ThreadPoolStruct) (hfree : s.locked = false) :
    Kept (s.fetch config).1 := by
  unfold Singleton.fetch
  cases hinstance : s.instance_ with
  | none => exact h.make hinstance config hfree
  | some g => exact h

/-- One pool has done a step, and the clients may have changed with it. -/
theorem setPool {g : ℕ} {p q : Instance} (h : Kept s) (hpool : s.pools[g]? = some p)
    (hinstance : t.instance_ = s.instance_) (hpools : t.pools = s.pools.set g q)
    (hreleased : q.released = p.released) (hone : t.clients.countP Client.holdsMutex ≤ 1)
    (hclosing : ∀ g' i, Closing t g' i → Closing s g' i ∨ g' = g ∧ s.instance_ = some g)
    (hother : ∀ g' i, g' ≠ g → Closing s g' i → Closing t g' i)
    (htended : p.released = false → Tended (Closing s g) p.pool → Tended (Closing t g) q.pool)
    (hjoined : p.pool.stop = true → p.pool.joined → q.pool.stop = true ∧ q.pool.joined) :
    Kept t := by
  have hself : t.pools[g]? = some q := by
    rw [hpools]
    exact List.getElem?_set_self (List.getElem?_eq_some_iff.mp hpool).1
  have hne : ∀ {g'}, g' ≠ g → t.pools[g']? = s.pools[g']? := by
    intro g' hg
    rw [hpools]
    exact List.getElem?_set_ne hg.symm
  refine ⟨hone, fun g' i hcloses ↦ ?_, fun g' hg ↦ ?_, fun g' p' hpool' hp ↦ ?_,
    fun g' p' hpool' hp ↦ ?_⟩
  · rw [hinstance]
    rcases hclosing g' i hcloses with hold | ⟨rfl, hpresent⟩
    · exact h.closing g' i hold
    · exact hpresent
  · rw [hinstance] at hg
    obtain ⟨p', hp', hunreleased⟩ := h.present g' hg
    by_cases hsame : g' = g
    · subst hsame
      obtain rfl := Option.some.inj (hpool.symm.trans hp')
      exact ⟨q, hself, hreleased.trans hunreleased⟩
    · exact ⟨p', (hne hsame).trans hp', hunreleased⟩
  · by_cases hsame : g' = g
    · subst hsame
      obtain rfl := Option.some.inj (hself.symm.trans hpool')
      obtain ⟨hpresent, hbefore⟩ := h.unreleased g' p hpool (hreleased.symm.trans hp)
      exact ⟨hinstance.trans hpresent, htended (hreleased.symm.trans hp) hbefore⟩
    · obtain ⟨hpresent, hbefore⟩ := h.unreleased g' p' ((hne hsame).symm.trans hpool') hp
      refine ⟨hinstance.trans hpresent, ?_⟩
      have hclosing' : Closing t g' = Closing s g' := by
        funext i
        apply propext
        constructor
        · intro hcloses
          exact (hclosing g' i hcloses).resolve_right fun hg ↦ hsame hg.1
        · exact hother g' i hsame
      rwa [hclosing']
  · by_cases hsame : g' = g
    · subst hsame
      obtain rfl := Option.some.inj (hself.symm.trans hpool')
      obtain ⟨hstop, hbefore⟩ := h.released g' p hpool (hreleased.symm.trans hp)
      exact hjoined hstop hbefore
    · exact h.released g' p' ((hne hsame).symm.trans hpool') hp

/-- A client that holds no mutex goes on to another place where it holds none. -/
theorem goOn {j : ℕ} {c c' : Client} (h : Kept s) (hslot : s.clients[j]? = some c)
    (hbefore : c.holdsMutex = false) (hafter : c'.holdsMutex = false) :
    Kept (s.setClient j c') := by
  refine h.frame rfl rfl ?_ ?_
  · apply (Slots.countP_set_le_of_imp hslot c' _).trans h.one
    simp [hafter]
  · exact closing_set hslot hbefore hafter rfl

/-- `enqueue` begins its call of the pool it has fetched. -/
theorem offer {j g : ℕ} {p : Instance} {priority : TaskPriority} {callable : Outcome}
    (h : Kept s) (hslot : s.clients[j]? = some (.fetched g priority callable))
    (hpool : s.pools[g]? = some p) :
    Kept (s.entered j g p (.enqueue priority callable) (.enqueuing g)) := by
  have hcall : ThreadPool.step p.config p.pool (.call (.enqueue priority callable)) = some
      { p.pool with callers := p.pool.callers ++ [.enqueue priority callable (.locking false)] } :=
    rfl
  have hclosing : ∀ g' i,
      Closing (s.entered j g p (.enqueue priority callable) (.enqueuing g)) g' i ↔
        Closing s g' i := closing_set hslot rfl rfl rfl
  refine h.setPool hpool rfl rfl rfl ?_ ?_ ?_ ?_ ?_
  · apply (Slots.countP_set_le_of_imp hslot _ _).trans h.one
    simp [Client.holdsMutex]
  · exact fun g' i hcloses ↦ .inl ((hclosing g' i).mp hcloses)
  · exact fun g' i _ ↦ (hclosing g' i).mpr
  · exact fun _ htended ↦ htended.enter _ (fun k ↦ (hclosing g k).mpr) (.inl rfl)
  · exact fun hstop hjoined ↦ ⟨(stop_step hstop hcall).1, joined_step hjoined hstop hcall⟩

/-- A client that has the mutex begins the call with which it closes the pool. -/
theorem close {j g : ℕ} {p : Instance} {c : Client} {call : Call} {next : ℕ → Client}
    (h : Kept s) (hslot : s.clients[j]? = some c) (hfree : s.locked = false)
    (hpresent : s.instance_ = some g) (hpool : s.pools[g]? = some p)
    (hnext : ∀ g' i k, (next i).closes g' k ↔ g = g' ∧ i = k) :
    Kept (s.entered j g p call next) := by
  have hunreleased : p.released = false := by
    obtain ⟨p', hp', hunreleased⟩ := h.present g hpresent
    rwa [Option.some.inj (hpool.symm.trans hp')]
  have hnobody : s.clients.countP Client.holdsMutex = 0 :=
    List.countP_eq_zero.mpr (List.any_eq_false.mp hfree)
  have hcloses : Closing (s.entered j g p call next) g p.pool.callers.length :=
    ⟨next p.pool.callers.length, Slots.mem_set_self hslot _, (hnext _ _ _).mpr ⟨rfl, rfl⟩⟩
  refine h.setPool hpool rfl rfl rfl ?_ ?_ ?_ ?_ ?_
  · apply (Slots.countP_set_le_succ hslot _ _).trans
    rw [hnobody]
  · rintro g' i ⟨d, hd, hd'⟩
    rcases List.mem_or_eq_of_mem_set hd with hold | rfl
    · exact .inl ⟨d, hold, hd'⟩
    · exact .inr ⟨((hnext _ _ _).mp hd').1.symm, hpresent⟩
  · exact fun g' i _ hold ↦ absurd hold (not_closing_of_free hfree g' i)
  · intro _ htended
    apply htended.enter
    · exact fun k hold ↦ absurd hold (not_closing_of_free hfree g k)
    · exact .inr hcloses
  · intro hstop
    obtain ⟨x, hx, hends⟩ := (h.unreleased g p hpool hunreleased).2.stop.mp hstop
    obtain ⟨k, hk⟩ := List.mem_iff_getElem?.mp hx
    have htended := (h.unreleased g p hpool hunreleased).2
    rw [htended.others k x hk (not_closing_of_free hfree g k)] at hends
    exact hends.elim

/-- A call that has not closed the pool has returned. -/
theorem fail {j g i : ℕ} {c : Client} {c' : Caller} (h : Kept s)
    (hslot : s.clients[j]? = some c) (hcloses : c.closes g i)
    (hcaller : s.callerAt g i = some c') (hidle : stage c' = .idle) :
    Kept (s.setClient j (.returned false)) := by
  obtain ⟨p, hpool, hcall⟩ := Option.bind_eq_some_iff.mp hcaller
  have hunique : ∀ g' k, Closing s g' k → g' = g ∧ k = i :=
    fun g' k ↦ closing_unique h.one hslot hcloses
  have hpools : (s.setClient j (.returned false)).pools = s.pools.set g p := by
    obtain ⟨hg, rfl⟩ := List.getElem?_eq_some_iff.mp hpool
    exact (List.set_getElem_self hg).symm
  have hnone : ∀ g' k, ¬ Closing (s.setClient j (.returned false)) g' k := by
    rintro g' k ⟨d, hd, hd'⟩
    have hother : d ∈ s.clients.eraseIdx j := by
      have hset := (Slots.perm_set hslot (.returned false)).mem_iff.mp hd
      rcases List.mem_cons.mp hset with rfl | hmem
      · exact hd'.elim
      · exact hmem
    exact Slots.not_mem_eraseIdx h.one hslot (Client.holdsMutex_of_closes hcloses)
      (Client.holdsMutex_of_closes hd') hother
  refine h.setPool hpool rfl hpools rfl ?_ ?_ ?_ ?_ ?_
  · apply (Slots.countP_set_le_of_imp hslot _ _).trans h.one
    simp [Client.holdsMutex]
  · exact fun g' k hk ↦ absurd hk (hnone g' k)
  · exact fun g' k hne hk ↦ absurd (hunique g' k hk).1 hne
  · intro _ htended
    have hempty : Closing (s.setClient j (.returned false)) g = fun _ ↦ False :=
      funext fun k ↦ propext (iff_false_intro (hnone g k))
    rw [hempty]
    exact htended.leave (fun k hk ↦ (hunique g k hk).2) hcall hidle
  · exact fun hstop hjoined ↦ ⟨hstop, hjoined⟩

/-- The call that has closed the pool has returned, and the pool is released. -/
theorem release {j g i : ℕ} {c : Client} {c' : Caller} {ok : Bool} (h : Kept s)
    (hslot : s.clients[j]? = some c) (hcloses : c.closes g i)
    (hcaller : s.callerAt g i = some c') (hdone : stage c' = .done) :
    Kept ((s.reset g).setClient j (.returned ok)) := by
  obtain ⟨p, hpool, hcall⟩ := Option.bind_eq_some_iff.mp hcaller
  have hpresent := h.closing g i ⟨c, Slots.mem_of_slot hslot, hcloses⟩
  have hunreleased : p.released = false := by
    obtain ⟨p', hp', hunreleased⟩ := h.present g hpresent
    rwa [Option.some.inj (hpool.symm.trans hp')]
  have htended := (h.unreleased g p hpool hunreleased).2
  have hmem : .done ∈ stages p.pool := hdone ▸ List.mem_map_of_mem (Slots.mem_of_slot hcall)
  have hpools : ((s.reset g).setClient j (.returned ok)).pools =
      s.pools.set g { p with released := true } := by
    show s.pools.modify g _ = _
    rw [List.modify_eq_set_getElem?, hpool]
    rfl
  have hnone : ∀ g' k, ¬ Closing ((s.reset g).setClient j (.returned ok)) g' k := by
    rintro g' k ⟨d, hd, hd'⟩
    rcases List.mem_cons.mp ((Slots.perm_set hslot (.returned ok)).mem_iff.mp hd) with rfl | hother
    · exact hd'.elim
    · exact Slots.not_mem_eraseIdx h.one hslot (Client.holdsMutex_of_closes hcloses)
        (Client.holdsMutex_of_closes hd') hother
  have hinstance : ((s.reset g).setClient j (.returned ok)).instance_ = none := rfl
  refine ⟨?_, fun g' k hk ↦ absurd hk (hnone g' k), ?_, ?_, ?_⟩
  · apply (Slots.countP_set_le_of_imp hslot _ _).trans h.one
    simp [Client.holdsMutex]
  · intro g' hg
    rw [hinstance] at hg
    cases hg
  · intro g' p' hpool' hp
    rw [hpools] at hpool'
    by_cases hsame : g = g'
    · subst hsame
      rw [List.getElem?_set_self (List.getElem?_eq_some_iff.mp hpool).1] at hpool'
      cases hpool'
      cases hp
    · rw [List.getElem?_set_ne hsame] at hpool'
      have hother := (h.unreleased g' p' hpool' hp).1
      exact absurd (Option.some.inj (hpresent.symm.trans hother)) hsame
  · intro g' p' hpool' hp
    rw [hpools] at hpool'
    by_cases hsame : g = g'
    · subst hsame
      rw [List.getElem?_set_self (List.getElem?_eq_some_iff.mp hpool).1] at hpool'
      cases hpool'
      exact ⟨htended.stop.mpr ⟨_, hmem, trivial⟩, htended.done hmem⟩
    · rw [List.getElem?_set_ne hsame] at hpool'
      exact h.released g' p' hpool' hp

/-- A pool moves by itself, or one of the calls inside of it does. -/
theorem move {g : ℕ} {a : Action} {p : Instance} {pool : Pool} (h : Kept s)
    (hinv : ThreadPool.Inv p.config p.pool) (hpool : s.pools[g]? = some p)
    (hcall : ∀ c, a ≠ .call c) (hstep : ThreadPool.step p.config p.pool a = some pool) :
    Kept (s.setPool g { p with pool }) := by
  have hunique : ∀ k k', Closing s g k → Closing s g k' → k = k' := by
    rintro k k' ⟨c, hc, hcloses⟩ hother
    obtain ⟨j, hslot⟩ := List.mem_iff_getElem?.mp hc
    exact (closing_unique h.one hslot hcloses hother).2.symm
  refine h.setPool hpool rfl rfl rfl h.one ?_ ?_ ?_ ?_
  · exact fun _ _ ↦ .inl
  · exact fun _ _ _ ↦ id
  · exact fun _ htended ↦ tended_step hinv htended hunique hcall hstep
  · exact fun hstop hjoined ↦ ⟨(stop_step hstop hstep).1, joined_step hjoined hstop hstep⟩

end Kept

theorem kept_clientStep {j : ℕ} {c : Client} (h : Kept s) (hslot : s.clients[j]? = some c)
    (hmove : ClientStep hardware s j c t) : Kept t := by
  cases hmove with
  | refused | offered | nothing | absent => exact h.goOn hslot rfl rfl
  | made hfree hnone => exact (h.make hnone _ hfree).goOn hslot rfl rfl
  | got hfree =>
      exact (h.fetch _ hfree).goOn ((congrArg (·[j]?) (clients_fetch _)).trans hslot) rfl rfl
  | fetch hfree =>
      exact (h.fetch _ hfree).goOn ((congrArg (·[j]?) (clients_fetch _)).trans hslot) rfl rfl
  | offer hpool => exact h.offer hslot hpool
  | shutdown hfree hpresent hpool =>
      exact h.close hslot hfree hpresent hpool fun _ _ _ ↦ Iff.rfl
  | destroy hfree hpresent hpool =>
      exact h.close hslot hfree hpresent hpool fun _ _ _ ↦ Iff.rfl
  | failed hcaller => exact h.fail hslot ⟨rfl, rfl⟩ hcaller rfl
  | succeeded hcaller => exact h.release hslot ⟨rfl, rfl⟩ hcaller rfl
  | destroyed hcaller => exact h.release hslot ⟨rfl, rfl⟩ hcaller rfl

theorem kept_step {m : Move} (h : Kept s)
    (hinv : ∀ (g : ℕ) (p : Instance), s.pools[g]? = some p → ThreadPool.Inv p.config p.pool)
    (hstep : step hardware s m = some t) : Kept t := by
  cases m with
  | call r =>
      cases hstep
      have hbegin : r.begin.holdsMutex = false := by cases r <;> rfl
      refine h.frame rfl rfl ?_ fun g i ↦ ⟨?_, ?_⟩
      · show (s.clients ++ [r.begin]).countP Client.holdsMutex ≤ 1
        rw [List.countP_append, List.countP_singleton, hbegin]
        exact h.one
      · rintro ⟨c, hc, hcloses⟩
        rcases List.mem_append.mp hc with hold | hnew
        · exact ⟨c, hold, hcloses⟩
        · rw [List.mem_singleton.mp hnew] at hcloses
          rw [Client.holdsMutex_of_closes hcloses] at hbegin
          cases hbegin
      · rintro ⟨c, hc, hcloses⟩
        exact ⟨c, List.mem_append_left _ hc, hcloses⟩
  | client j =>
      cases stepped hstep with
      | client hslot hmove => exact kept_clientStep h hslot hmove
  | pool g a =>
      have hcall : ∀ c, a ≠ .call c := by
        rintro c rfl
        cases hstep
      cases stepped hstep with
      | pool hpool hmove => exact h.move (hinv g _ hpool) hpool hcall hmove

theorem kept_start : Kept start where
  one := Nat.zero_le _
  closing g i := by
    rintro ⟨c, hc, -⟩
    cases hc
  present g hg := by cases hg
  unreleased g p hpool := by cases hpool
  released g p hpool := by cases hpool

theorem kept_run {trace : List (Singleton × Move)} {last : Singleton}
    (hrun : Run (step hardware) start trace last) : Kept last := by
  induction hrun with
  | nil => exact kept_start
  | snoc hbefore hstep ih =>
      apply kept_step ih _ hstep
      intro g p hpool
      obtain ⟨trace, hpoolRun⟩ := pool_run hbefore hpool
      exact inv_run hpoolRun

/-- Nothing was thrown away by a pool that nobody has destroyed. -/
theorem discarded_of_calls {trace : List (Pool × Action)}
    (hrun : Run (ThreadPool.step config) (.start config) trace p)
    (hcalls : ∀ c ∈ p.callers, c.call ≠ .stopNow) : p.discarded = [] := by
  apply discarded_run hrun
  intro u hmem
  have hbegun : Call.stopNow ∈ p.calls := by
    rw [calls_run hrun]
    apply List.mem_append_right
    exact List.mem_flatMap.mpr ⟨_, hmem, List.mem_singleton_self _⟩
  obtain ⟨c, hc, hcall⟩ := List.mem_map.mp hbegun
  exact hcalls c hc hcall

/-- **One pool at a time.**  Whatever is done through the singleton, and by however many
threads, the only pool that was not released is the one it points to.  Every other
one has no thread that is still running; everything it accepted was executed or
thrown away, and thrown away only if it was destroyed. -/
theorem onePool_run {trace : List (Singleton × Move)} {last : Singleton}
    (hrun : Run (step hardware) start trace last) {g : ℕ} {p : Instance}
    (hpool : last.pools[g]? = some p) :
    (p.released = false ↔ last.instance_ = some g) ∧
      (p.released = true → p.pool.joined ∧ p.pool.Settled ∧
        ((∀ c ∈ p.pool.callers, c.call ≠ .stopNow) → p.pool.AllFinished)) := by
  have hkept := kept_run hrun
  obtain ⟨trace', hpoolRun⟩ := pool_run hrun hpool
  have hinv := inv_run hpoolRun
  refine ⟨⟨fun hunreleased ↦ (hkept.unreleased g p hpool hunreleased).1, fun hpresent ↦ ?_⟩,
    fun hreleased ↦ ?_⟩
  · obtain ⟨p', hp', hunreleased⟩ := hkept.present g hpresent
    rwa [Option.some.inj (hpool.symm.trans hp')]
  · obtain ⟨hstop, hjoined⟩ := hkept.released g p hpool hreleased
    have hheld := held_of_joined hjoined
    refine ⟨hjoined, hinv.settled ⟨hinv.drained hstop, hheld⟩, fun hcalls ↦ ?_⟩
    exact (hinv.allFinished_iff hstop).mpr ⟨discarded_of_calls hpoolRun hcalls, hheld⟩

/-- A pool executes its one task and is shut down, and the next is made. -/
def successive : List Move :=
  [.call (.enqueue .normal .returned), .client 0, .client 0, .pool 0 (.caller 0 (.offer false)),
    .pool 0 (.caller 0 (.signal none)), .client 0, .call .shutdown, .client 1,
    .pool 0 (.caller 1 .exchange), .pool 0 (.caller 1 .notify), .pool 0 (.worker 0 .test),
    .pool 0 (.worker 0 (.act false)), .pool 0 (.worker 0 (.take 0 none)),
    .pool 0 (.worker 0 .begin), .pool 0 (.worker 0 .finish), .pool 0 (.worker 0 .decrement),
    .pool 0 (.caller 1 .test), .pool 0 (.caller 1 .notify), .pool 0 (.worker 0 .check),
    .pool 0 (.worker 0 .test), .pool 0 (.worker 0 (.act false)), .pool 0 (.caller 1 .join),
    .client 1, .call (.init ⟨1, 1, 0⟩), .client 2]

def successiveRun : List (Singleton × Move) × Singleton := executed (step 1) start successive

theorem onePool_run_successive :
    ∃ p, successiveRun.2.pools[0]? = some p ∧ successiveRun.2.instance_ = some 1 ∧
      p.pool.accepted = 1 ∧ p.pool.AllFinished := by
  have hrun : Run (step 1) start successiveRun.1 successiveRun.2 := Run.of_isSome (by decide)
  obtain ⟨p, hpool⟩ : ∃ p, successiveRun.2.pools[0]? = some p :=
    Option.isSome_iff_exists.mp (by decide)
  have hp : ∀ q ∈ successiveRun.2.pools[0]?, q.released = true ∧ q.pool.accepted = 1 ∧
      ∀ c ∈ q.pool.callers, c.call ≠ .stopNow := by decide
  obtain ⟨hreleased, haccepted, hcalls⟩ := hp p hpool
  have hsettled := (onePool_run hrun hpool).2 hreleased
  exact ⟨p, hpool, by decide, haccepted, hsettled.2.2 hcalls⟩

end MyRpc.ThreadPoolSingleton
