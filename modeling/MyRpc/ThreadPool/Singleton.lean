import MyRpc.ThreadPool.Completion

/-!
# `ThreadPoolSingleton`

The singleton makes a pool when it has none, and resets its pointer when a pool
was shut down or destroyed; what it makes after that is another pool.  The pools
are numbered in the order they are made.  A client that holds the mutex of the
singleton while it is inside a call of the pool (`shutdown`, `destroy`) keeps it
until that call returns.  `enqueue` only holds it inside `getInstance`, and
goes on with the reference it has got from there.
-/

namespace MyRpc.ThreadPoolSingleton

open PartialRun ThreadPool

/-- What `ThreadPool(threads)` makes of the number of threads. -/
def fixedSize (threads : ℕ) : ThreadPoolStruct := ⟨threads, threads, 0⟩

/-- A pool the singleton has made; `released` is whether it was reset since. -/
structure Instance where
  config : ThreadPoolStruct
  pool : Pool
  released : Bool
  deriving DecidableEq, Repr

/-- A thread inside a function of the singleton: waiting for the mutex, behind
`getInstance` in `enqueue`, inside a call of pool `g` as its caller `i`, or
returned. -/
inductive Client
  | init (config : ThreadPoolStruct)
  | getInstance (config : ThreadPoolStruct)
  | enqueue (priority : TaskPriority) (callable : Outcome)
  | fetched (g : ℕ) (priority : TaskPriority) (callable : Outcome)
  | enqueuing (g i : ℕ)
  | shutdown
  | shuttingDown (g i : ℕ)
  | destroy
  | destroying (g i : ℕ)
  | returned (ok : Bool)
  deriving DecidableEq, Repr

structure Singleton where
  instance_ : Option ℕ
  pools : List Instance
  clients : List Client
  deriving DecidableEq, Repr

def start : Singleton := ⟨none, [], []⟩

def Client.holdsMutex : Client → Bool
  | shuttingDown _ _ | destroying _ _ => true
  | _ => false

namespace Singleton

def locked (s : Singleton) : Bool := s.clients.any Client.holdsMutex

def setClient (s : Singleton) (j : ℕ) (c : Client) : Singleton :=
  { s with clients := s.clients.set j c }

def setPool (s : Singleton) (g : ℕ) (instance' : Instance) : Singleton :=
  { s with pools := s.pools.set g instance' }

/-- `instance_ = std::make_unique<ThreadPool>(config)`. -/
def make (s : Singleton) (config : ThreadPoolStruct) : Singleton :=
  { s with
    instance_ := some s.pools.length
    pools := s.pools ++ [⟨config, .start config, false⟩] }

/-- The body of `getInstance`: the singleton, and the pool that is returned. -/
def fetch (s : Singleton) (config : ThreadPoolStruct) : Singleton × ℕ :=
  match s.instance_ with
  | some g => (s, g)
  | none => (s.make config, s.pools.length)

/-- `instance_.reset()`. -/
def reset (s : Singleton) (g : ℕ) : Singleton :=
  { s with
    instance_ := none
    pools := s.pools.modify g fun p ↦ { p with released := true } }

/-- Client `j` begins a call of pool `g`, and goes on as `next` of its number there. -/
def enter (s : Singleton) (j g : ℕ) (c : Call) (next : ℕ → Client) : Option Singleton :=
  s.pools[g]?.bind fun p ↦ (ThreadPool.step p.config p.pool (.call c)).map fun pool ↦
    (s.setPool g { p with pool }).setClient j (next p.pool.callers.length)

/-- Caller `i` of pool `g`. -/
def callerAt (s : Singleton) (g i : ℕ) : Option Caller :=
  s.pools[g]?.bind fun p ↦ p.pool.callers[i]?

end Singleton

/-- `hardware` is `std::thread::hardware_concurrency()`. -/
def stepClient (hardware : ℕ) (s : Singleton) (j : ℕ) : Client → Option Singleton
  | .init config =>
      if s.locked then none
      else if s.instance_.isSome then some (s.setClient j (.returned false))
      else some ((s.make config).setClient j (.returned true))
  | .getInstance config =>
      if s.locked then none else some ((s.fetch config).1.setClient j (.returned true))
  | .enqueue priority callable =>
      if s.locked then none
      else
        let fetched := s.fetch (fixedSize hardware)
        some (fetched.1.setClient j (.fetched fetched.2 priority callable))
  | .fetched g priority callable => s.enter j g (.enqueue priority callable) (.enqueuing g)
  | .enqueuing g i =>
      match s.callerAt g i with
      | some (.enqueue _ _ (.returned task)) => some (s.setClient j (.returned task.isSome))
      | _ => none
  | .shutdown =>
      if s.locked then none
      else
        match s.instance_ with
        | none => some (s.setClient j (.returned true))
        | some g => s.enter j g .shutdown (.shuttingDown g)
  | .shuttingDown g i =>
      match s.callerAt g i with
      | some (.shutdown (.returned _ success)) =>
          some ((if success then s.reset g else s).setClient j (.returned success))
      | _ => none
  | .destroy =>
      if s.locked then none
      else
        match s.instance_ with
        | none => some (s.setClient j (.returned true))
        | some g => s.enter j g .stopNow (.destroying g)
  | .destroying g i =>
      match s.callerAt g i with
      | some (.stopNow .returned) => some ((s.reset g).setClient j (.returned true))
      | _ => none
  | .returned _ => none

inductive Request
  | init (config : ThreadPoolStruct)
  | getInstance (config : ThreadPoolStruct)
  | enqueue (priority : TaskPriority) (callable : Outcome)
  | shutdown
  | destroy
  deriving DecidableEq, Repr

def Request.begin : Request → Client
  | init config => .init config
  | getInstance config => .getInstance config
  | enqueue priority callable => .enqueue priority callable
  | shutdown => .shutdown
  | destroy => .destroy

/-- A thread calls a function of the singleton; client `j` moves; or pool `g`
does, by one of its workers or by a call that a client has begun. -/
inductive Move
  | call (r : Request)
  | client (j : ℕ)
  | pool (g : ℕ) (a : Action)
  deriving DecidableEq, Repr

def stepPool (s : Singleton) (g : ℕ) (a : Action) : Option Singleton :=
  s.pools[g]?.bind fun p ↦ (ThreadPool.step p.config p.pool a).map fun pool ↦
    s.setPool g { p with pool }

/-- A pool that was released goes on here as if it were still there; what the
code does with it is undefined. -/
def step (hardware : ℕ) (s : Singleton) : Move → Option Singleton
  | .call r => some { s with clients := s.clients ++ [r.begin] }
  | .client j => s.clients[j]?.bind fun c ↦ stepClient hardware s j c
  | .pool _ (.call _) => none
  | .pool g a => stepPool s g a

variable {hardware : ℕ} {s t : Singleton}

/-! ## What a step does -/

namespace Singleton

/-- The singleton after client `j` has begun a call of pool `g`, which was `p` before. -/
def entered (s : Singleton) (j g : ℕ) (p : Instance) (c : Call) (next : ℕ → Client) : Singleton :=
  (s.setPool g { p with pool := { p.pool with callers := p.pool.callers ++ [c.begin] } }).setClient
    j (next p.pool.callers.length)

theorem enter_eq {j g : ℕ} {c : Call} {next : ℕ → Client} (h : s.enter j g c next = some t) :
    ∃ p, s.pools[g]? = some p ∧ t = s.entered j g p c next := by
  obtain ⟨p, hpool, hstep⟩ := Option.bind_eq_some_iff.mp h
  cases hstep
  exact ⟨p, hpool, rfl⟩

end Singleton

inductive ClientStep (hardware : ℕ) (s : Singleton) (j : ℕ) : Client → Singleton → Prop
  | refused {config : ThreadPoolStruct} : s.locked = false → s.instance_.isSome = true →
      ClientStep hardware s j (.init config) (s.setClient j (.returned false))
  | made {config : ThreadPoolStruct} : s.locked = false → s.instance_ = none →
      ClientStep hardware s j (.init config) ((s.make config).setClient j (.returned true))
  | got {config : ThreadPoolStruct} : s.locked = false →
      ClientStep hardware s j (.getInstance config)
        ((s.fetch config).1.setClient j (.returned true))
  | fetch {priority : TaskPriority} {callable : Outcome} : s.locked = false →
      ClientStep hardware s j (.enqueue priority callable)
        ((s.fetch (fixedSize hardware)).1.setClient j
          (.fetched (s.fetch (fixedSize hardware)).2 priority callable))
  | offer {g : ℕ} {p : Instance} {priority : TaskPriority} {callable : Outcome} :
      s.pools[g]? = some p → ClientStep hardware s j (.fetched g priority callable)
        (s.entered j g p (.enqueue priority callable) (.enqueuing g))
  | offered {g i : ℕ} {priority : TaskPriority} {callable : Outcome} {task : Option ℕ} :
      s.callerAt g i = some (.enqueue priority callable (.returned task)) →
        ClientStep hardware s j (.enqueuing g i) (s.setClient j (.returned task.isSome))
  | nothing : s.locked = false → s.instance_ = none →
      ClientStep hardware s j .shutdown (s.setClient j (.returned true))
  | shutdown {g : ℕ} {p : Instance} : s.locked = false → s.instance_ = some g →
      s.pools[g]? = some p →
        ClientStep hardware s j .shutdown (s.entered j g p .shutdown (.shuttingDown g))
  | failed {g i : ℕ} {moved : Bool} :
      s.callerAt g i = some (.shutdown (.returned moved false)) →
        ClientStep hardware s j (.shuttingDown g i) (s.setClient j (.returned false))
  | succeeded {g i : ℕ} {moved : Bool} :
      s.callerAt g i = some (.shutdown (.returned moved true)) →
        ClientStep hardware s j (.shuttingDown g i) ((s.reset g).setClient j (.returned true))
  | absent : s.locked = false → s.instance_ = none →
      ClientStep hardware s j .destroy (s.setClient j (.returned true))
  | destroy {g : ℕ} {p : Instance} : s.locked = false → s.instance_ = some g →
      s.pools[g]? = some p →
        ClientStep hardware s j .destroy (s.entered j g p .stopNow (.destroying g))
  | destroyed {g i : ℕ} : s.callerAt g i = some (.stopNow .returned) →
      ClientStep hardware s j (.destroying g i) ((s.reset g).setClient j (.returned true))

theorem clientStep {j : ℕ} {c : Client} (h : stepClient hardware s j c = some t) :
    ClientStep hardware s j c t := by
  cases c with
  | init config =>
      simp only [stepClient, Option.ite_none_left_eq_some, Bool.not_eq_true] at h
      obtain ⟨hfree, h⟩ := h
      split at h
      · cases h
        exact .refused hfree ‹_›
      · cases h
        exact .made hfree (Option.not_isSome_iff_eq_none.mp ‹_›)
  | getInstance config =>
      simp only [stepClient, Option.ite_none_left_eq_some, Bool.not_eq_true] at h
      obtain ⟨hfree, h⟩ := h
      cases h
      exact .got hfree
  | enqueue priority callable =>
      simp only [stepClient, Option.ite_none_left_eq_some, Bool.not_eq_true] at h
      obtain ⟨hfree, h⟩ := h
      cases h
      exact .fetch hfree
  | fetched g priority callable =>
      obtain ⟨p, hpool, rfl⟩ := Singleton.enter_eq h
      exact .offer hpool
  | enqueuing g i =>
      simp only [stepClient] at h
      split at h
      · cases h
        exact .offered ‹_›
      · cases h
  | shutdown =>
      simp only [stepClient, Option.ite_none_left_eq_some, Bool.not_eq_true] at h
      obtain ⟨hfree, h⟩ := h
      split at h
      · cases h
        exact .nothing hfree ‹_›
      · obtain ⟨p, hpool, rfl⟩ := Singleton.enter_eq h
        exact .shutdown hfree ‹_› hpool
  | shuttingDown g i =>
      simp only [stepClient] at h
      split at h
      · rename_i moved success hreturned
        cases h
        cases success with
        | true => exact .succeeded hreturned
        | false => exact .failed hreturned
      · cases h
  | destroy =>
      simp only [stepClient, Option.ite_none_left_eq_some, Bool.not_eq_true] at h
      obtain ⟨hfree, h⟩ := h
      split at h
      · cases h
        exact .absent hfree ‹_›
      · obtain ⟨p, hpool, rfl⟩ := Singleton.enter_eq h
        exact .destroy hfree ‹_› hpool
  | destroying g i =>
      simp only [stepClient] at h
      split at h
      · cases h
        exact .destroyed ‹_›
      · cases h
  | returned ok => cases h

inductive Stepped (hardware : ℕ) (s : Singleton) : Move → Singleton → Prop
  | call (r : Request) :
      Stepped hardware s (.call r) { s with clients := s.clients ++ [r.begin] }
  | client {j : ℕ} {c : Client} {t : Singleton} : s.clients[j]? = some c →
      ClientStep hardware s j c t → Stepped hardware s (.client j) t
  | pool {g : ℕ} {a : Action} {p : Instance} {pool : Pool} : s.pools[g]? = some p →
      ThreadPool.step p.config p.pool a = some pool →
        Stepped hardware s (.pool g a) (s.setPool g { p with pool })

theorem stepped {m : Move} (h : step hardware s m = some t) : Stepped hardware s m t := by
  cases m with
  | call r =>
      cases h
      exact .call r
  | client j =>
      obtain ⟨c, hslot, hstep⟩ := Option.bind_eq_some_iff.mp h
      exact .client hslot (clientStep hstep)
  | pool g a =>
      have hpool : stepPool s g a = some t := by
        cases a with
        | call => cases h
        | worker | caller => exact h
      obtain ⟨p, hslot, hmap⟩ := Option.bind_eq_some_iff.mp hpool
      obtain ⟨pool, hstep, rfl⟩ := Option.map_eq_some_iff.mp hmap
      exact .pool hslot hstep

/-! ## What becomes of a pool -/

/-- One step of a pool, or its release. -/
structure Evolves (p q : Instance) : Prop where
  config : q.config = p.config
  pool : q.pool = p.pool ∨ ∃ a, ThreadPool.step p.config p.pool a = some q.pool
  released : p.released = true → q.released = true

/-- At most one pool changes, or a pool is made. -/
inductive PoolsStep (pools : List Instance) : List Instance → Prop
  | same : PoolsStep pools pools
  | set {g : ℕ} {p q : Instance} :
      pools[g]? = some p → Evolves p q → PoolsStep pools (pools.set g q)
  | make (config : ThreadPoolStruct) :
      PoolsStep pools (pools ++ [⟨config, .start config, false⟩])

theorem evolves_rfl (p : Instance) : Evolves p p := ⟨rfl, .inl rfl, id⟩

theorem evolves_step {p : Instance} {a : Action} {pool : Pool}
    (h : ThreadPool.step p.config p.pool a = some pool) : Evolves p { p with pool } :=
  ⟨rfl, .inr ⟨a, h⟩, id⟩

theorem poolsStep_fetch (config : ThreadPoolStruct) :
    PoolsStep s.pools (s.fetch config).1.pools := by
  unfold Singleton.fetch
  cases s.instance_ with
  | none => exact .make config
  | some g => exact .same

theorem poolsStep_entered {j g : ℕ} {p : Instance} (hpool : s.pools[g]? = some p) (c : Call)
    (next : ℕ → Client) : PoolsStep s.pools (s.entered j g p c next).pools :=
  .set hpool (@evolves_step p (.call c) _ rfl)

theorem poolsStep_reset {g i : ℕ} {c : Caller} (h : s.callerAt g i = some c) :
    PoolsStep s.pools (s.reset g).pools := by
  obtain ⟨p, hpool, -⟩ := Option.bind_eq_some_iff.mp h
  have hset : (s.reset g).pools = s.pools.set g { p with released := true } := by
    rw [Singleton.reset, List.modify_eq_set_getElem?, hpool]
    rfl
  rw [hset]
  exact .set hpool ⟨rfl, .inl rfl, fun _ ↦ rfl⟩

theorem poolsStep {m : Move} (h : step hardware s m = some t) : PoolsStep s.pools t.pools := by
  cases stepped h with
  | call => exact .same
  | client _ hmove =>
      cases hmove with
      | refused | offered | nothing | failed | absent => exact .same
      | made => exact .make _
      | got | fetch => exact poolsStep_fetch _
      | offer hpool | shutdown _ _ hpool | destroy _ _ hpool => exact poolsStep_entered hpool _ _
      | succeeded hreturned | destroyed hreturned => exact poolsStep_reset hreturned
  | pool hpool hstep => exact .set hpool (evolves_step hstep)

/-- A pool stays under its number. -/
theorem PoolsStep.forward {pools pools' : List Instance} {g : ℕ} {p : Instance}
    (h : PoolsStep pools pools') (hpool : pools[g]? = some p) :
    ∃ q, pools'[g]? = some q ∧ Evolves p q := by
  obtain ⟨hg, -⟩ := List.getElem?_eq_some_iff.mp hpool
  cases h with
  | same => exact ⟨p, hpool, evolves_rfl p⟩
  | @set g' p' q hpool' hevolves =>
      by_cases hsame : g' = g
      · subst hsame
        obtain rfl := Option.some.inj (hpool'.symm.trans hpool)
        exact ⟨q, List.getElem?_set_self hg, hevolves⟩
      · exact ⟨p, (List.getElem?_set_ne hsame).trans hpool, evolves_rfl p⟩
  | make => exact ⟨p, (List.getElem?_append_left hg).trans hpool, evolves_rfl p⟩

theorem PoolsStep.backward {pools pools' : List Instance} {g : ℕ} {q : Instance}
    (h : PoolsStep pools pools') (hpool : pools'[g]? = some q) :
    (∃ p, pools[g]? = some p ∧ Evolves p q) ∨ q.pool = .start q.config := by
  cases h with
  | same => exact .inl ⟨q, hpool, evolves_rfl q⟩
  | @set g' p' q' hpool' hevolves =>
      left
      by_cases hsame : g' = g
      · subst hsame
        obtain ⟨hg, -⟩ := List.getElem?_eq_some_iff.mp hpool'
        obtain rfl := Option.some.inj ((List.getElem?_set_self hg).symm.trans hpool)
        exact ⟨p', hpool', hevolves⟩
      · exact ⟨q, (List.getElem?_set_ne hsame).symm.trans hpool, evolves_rfl q⟩
  | make config =>
      by_cases hg : g < pools.length
      · exact .inl ⟨q, (List.getElem?_append_left hg).symm.trans hpool, evolves_rfl q⟩
      · rw [List.getElem?_append_right (Nat.le_of_not_lt hg)] at hpool
        rw [List.mem_singleton.mp (List.mem_of_getElem? hpool)]
        exact .inr rfl

/-- **Every pool of the singleton is a pool.**  Whatever is done through the
singleton, each of the pools it has made is in a state that a run of a pool
alone comes to. -/
theorem pool_run {trace : List (Singleton × Move)} {last : Singleton}
    (hrun : Run (step hardware) start trace last) {g : ℕ} {p : Instance}
    (hpool : last.pools[g]? = some p) :
    ∃ trace, Run (ThreadPool.step p.config) (.start p.config) trace p.pool := by
  induction hrun generalizing p with
  | nil => cases hpool
  | snoc _ hstep ih =>
      rcases (poolsStep hstep).backward hpool with ⟨q, hq, hevolves⟩ | hnew
      · obtain ⟨trace, hrun⟩ := ih hq
        rw [← hevolves.config] at hrun
        rcases hevolves.pool with hsame | ⟨a, ha⟩
        · rw [hsame]
          exact ⟨trace, hrun⟩
        · rw [← hevolves.config] at ha
          exact ⟨_, hrun.snoc ha⟩
      · rw [hnew]
        exact ⟨[], .nil⟩

end MyRpc.ThreadPoolSingleton
