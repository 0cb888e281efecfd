import MyRpc.Library.Simulation
import MyRpc.Network.Sockets
import MyRpc.ThreadPool.Lifecycle
import MyRpc.ThreadPool.Offers

/-!
# The process of the server

`main` runs the event loop, which hands each request to the pool, and shuts the pool down
behind the loop.  The tasks have the same numbers for the event loop and for the pool, and a
worker begins and ends a task for both.  When the call of `shutdown` returns true, every
request that was cut off has been answered, or its handler threw (`graceful_exit`), and those
are all that was received on the connections that were in order (`received_exit`).
-/

namespace MyRpc.ServersMain

open FixedWidth PartialRun Connection MessageCycle ThreadPoolSingleton
open Descriptors (Server Task TaskPhase Moves)
open ThreadPool (Pool ThreadPoolStruct TaskWrapper Outcome Caller)

/-- What the thread of the event loop does. -/
def ofLoop : Descriptors.Action → Bool
  | .accept _ | .setUp _ | .register _ | .hangUp _ | .readable _ | .read _ | .extract => true
  | _ => false

/-- What a worker does for a task. -/
def ofTask : Descriptors.Action → Bool
  | .begin _ | .respond _ _ | .write _ _ | .finish _ => true
  | _ => false

/-- A step of the pool that is no call, and neither begins nor ends a task. -/
def inner : ThreadPool.Action → Bool
  | .call _ | .worker _ .begin | .worker _ .finish => false
  | _ => true

/-- A task writes its response, unless its handler throws. -/
def works (t : TaskWrapper) (phase : Option TaskPhase) : Descriptors.Action → Bool
  | .respond i _ | .write i _ => i = t.task ∧ t.callable = .returned
  | .finish i => i = t.task ∧ t.callable = .threw ∧ phase = some .running
  | _ => false

/-- `closing` is the call of `shutdown` that `main` makes behind the loop. -/
structure Process where
  server : Server
  pool : Pool
  closing : Option ℕ

/-- `loop` and `dispatch` are the thread of the event loop, `pool` is a thread inside of the
pool, `begin` to `finish` are a worker with its task, and `stop` is `main` behind the loop. -/
inductive Event
  | loop (a : Descriptors.Action)
  | dispatch (callable : Outcome)
  | pool (a : ThreadPool.Action)
  | begin (w : ℕ)
  | work (w : ℕ) (a : Descriptors.Action)
  | finish (w : ℕ)
  | stop

namespace Process

def start (config : ThreadPoolStruct) (table : ℤ → Option Descriptors.File) : Process :=
  { server := .start table
    pool := .start config
    closing := none }

/-- The loop goes on, and its thread is not inside of a call of `enqueue`. -/
def Free (s : Process) : Prop := s.closing = none ∧ ∀ c ∈ s.pool.callers, c.away = false

instance (s : Process) : Decidable s.Free := inferInstanceAs (Decidable (_ ∧ _))

def phase (s : Process) (task : ℕ) : Option TaskPhase := s.server.tasks[task]?.map Task.phase

end Process

/-- To cut a request off and to call `enqueue` for it is one step. -/
def step (z : Zstd) (heap : Heap) (config : ThreadPoolStruct) (s : Process) :
    Event → Option Process
  | .loop a =>
      if ofTask a = false ∧ (ofLoop a = true → s.Free) then
        (Descriptors.step z heap s.server a).bind fun server ↦
          if server.tasks = s.server.tasks then some { s with server } else none
      else none
  | .dispatch callable =>
      if s.Free then
        (Descriptors.step z heap s.server .extract).bind fun server ↦
          if server.tasks ≠ s.server.tasks then
            (ThreadPool.step config s.pool (.call (.enqueue .normal callable))).map fun pool ↦
              { s with server, pool }
          else none
      else none
  | .pool a =>
      if inner a then (ThreadPool.step config s.pool a).map fun pool ↦ { s with pool } else none
  | .begin w =>
      match s.pool.workers[w]? with
      | some (.popped t) =>
          (ThreadPool.step config s.pool (.worker w .begin)).bind fun pool ↦
            (Descriptors.step z heap s.server (.begin t.task)).map fun server ↦
              { s with server, pool }
      | _ => none
  | .work w a =>
      match s.pool.workers[w]? with
      | some (.running t) =>
          if works t (s.phase t.task) a then
            (Descriptors.step z heap s.server a).map fun server ↦ { s with server }
          else none
      | _ => none
  | .finish w =>
      match s.pool.workers[w]? with
      | some (.running t) =>
          if s.phase t.task = some .done then
            (ThreadPool.step config s.pool (.worker w .finish)).map fun pool ↦ { s with pool }
          else none
      | _ => none
  | .stop =>
      if s.Free ∧ s.server.loop = .idle then
        (ThreadPool.step config s.pool (.call .shutdown)).map fun pool ↦
          { s with pool, closing := some s.pool.callers.length }
      else none

/-! ## What a step does -/

/-- The task of a worker goes on in the server. -/
structure Worked (z : Zstd) (heap : Heap) (s : Process) (t : TaskWrapper)
    (a : Descriptors.Action) (server : Server) (phase : TaskPhase) : Prop where
  step : Descriptors.step z heap s.server a = some server
  task : ∃ task, s.server.tasks[t.task]? = some task ∧ Moves t.task task.phase phase a ∧
    server.tasks = s.server.tasks.set t.task { task with phase }

inductive Stepped (z : Zstd) (heap : Heap) (config : ThreadPoolStruct) (s : Process) :
    Event → Process → Prop
  | loop {a : Descriptors.Action} {server : Server} : (ofLoop a = true → s.Free) →
      Descriptors.step z heap s.server a = some server → server.tasks = s.server.tasks →
        Stepped z heap config s (.loop a) { s with server }
  | dispatch {callable : Outcome} {server : Server} {pool : Pool} {task : Task} :
      s.Free → Descriptors.step z heap s.server .extract = some server →
        server.tasks = s.server.tasks ++ [task] → task.phase = .queued →
          ThreadPool.step config s.pool (.call (.enqueue .normal callable)) = some pool →
            Stepped z heap config s (.dispatch callable) { s with server, pool }
  | pool {a : ThreadPool.Action} {pool : Pool} : inner a = true →
      ThreadPool.step config s.pool a = some pool →
        Stepped z heap config s (.pool a) { s with pool }
  | begin {w : ℕ} {t : TaskWrapper} {server : Server} {pool : Pool} :
      s.pool.workers[w]? = some (.popped t) →
        ThreadPool.step config s.pool (.worker w .begin) = some pool →
          Worked z heap s t (.begin t.task) server .running →
            Stepped z heap config s (.begin w) { s with server, pool }
  | work {w : ℕ} {t : TaskWrapper} {a : Descriptors.Action} {server : Server}
      {phase : TaskPhase} : s.pool.workers[w]? = some (.running t) →
        works t (s.phase t.task) a = true → Worked z heap s t a server phase →
          Stepped z heap config s (.work w a) { s with server }
  | finish {w : ℕ} {t : TaskWrapper} {pool : Pool} :
      s.pool.workers[w]? = some (.running t) → s.phase t.task = some .done →
        ThreadPool.step config s.pool (.worker w .finish) = some pool →
          Stepped z heap config s (.finish w) { s with pool }
  | stop {pool : Pool} : s.Free → s.server.loop = .idle →
      ThreadPool.step config s.pool (.call .shutdown) = some pool →
        Stepped z heap config s .stop { s with pool, closing := some s.pool.callers.length }

variable {z : Zstd} {heap : Heap} {config : ThreadPoolStruct} {s t : Process} {e : Event}

/-- A step of a worker in the server moves one task on. -/
theorem moves_of_ofTask {server server' : Server} {a : Descriptors.Action}
    (hstep : Descriptors.step z heap server a = some server') (htask : ofTask a = true) :
    ∃ i task phase, server.tasks[i]? = some task ∧ Moves i task.phase phase a ∧
      server'.tasks = server.tasks.set i { task with phase } := by
  have htasked := Descriptors.tasked hstep
  cases a with
  | finish i =>
      simp only [Descriptors.step] at hstep
      split at hstep <;> cases hstep
      rename_i task hslot
      exact ⟨i, task, .done, hslot, ⟨rfl, rfl⟩, rfl⟩
  | begin | respond | write =>
      cases htasked with
      | keeps _ hbegin hrespond hwrite =>
          first
          | exact absurd rfl (hbegin _)
          | exact absurd rfl (hrespond _ _)
          | exact absurd rfl (hwrite _ _)
      | moves i task phase hslot htasks hmoves => exact ⟨i, task, phase, hslot, hmoves, htasks⟩
      | cuts _ _ _ _ _ hact => cases hact
  | _ => cases htask

/-- What a worker does is done for the task that it names. -/
theorem worked {w : TaskWrapper} {a : Descriptors.Action} {server : Server}
    (hstep : Descriptors.step z heap s.server a = some server) (htask : ofTask a = true)
    (hnamed : ∀ i old new, Moves i old new a → i = w.task) :
    ∃ phase, Worked z heap s w a server phase := by
  obtain ⟨i, task, phase, hslot, hmoves, htasks⟩ := moves_of_ofTask hstep htask
  obtain rfl := hnamed _ _ _ hmoves
  exact ⟨phase, hstep, task, hslot, hmoves, htasks⟩

/-- Only a request that is cut off adds a task. -/
theorem cut_of_extract {server server' : Server}
    (hstep : Descriptors.step z heap server .extract = some server')
    (hne : server'.tasks ≠ server.tasks) :
    ∃ task, server'.tasks = server.tasks ++ [task] ∧ task.phase = .queued := by
  cases Descriptors.tasked hstep with
  | keeps hsame => exact absurd hsame hne
  | moves _ _ _ _ _ hmoves => exact hmoves.elim
  | cuts _ _ _ _ _ _ _ _ _ htasks => exact ⟨_, htasks, rfl⟩

theorem named_of_works {w : TaskWrapper} {phase : Option TaskPhase} {a : Descriptors.Action}
    (h : works w phase a = true) :
    ofTask a = true ∧ ∀ i old new, Moves i old new a → i = w.task := by
  cases a with
  | respond i size | write i r | finish i =>
      refine ⟨rfl, fun j old new hmoves ↦ ?_⟩
      obtain ⟨rfl, -⟩ := hmoves
      simp only [works, decide_eq_true_eq] at h
      exact h.1
  | _ => cases h

theorem stepped (h : step z heap config s e = some t) : Stepped z heap config s e t := by
  cases e with
  | loop a =>
      simp only [step, Option.ite_none_right_eq_some, Option.bind_eq_some_iff,
        Option.some.injEq] at h
      obtain ⟨⟨-, hfree⟩, server, hserver, htasks, rfl⟩ := h
      exact .loop hfree hserver htasks
  | dispatch callable =>
      simp only [step, Option.ite_none_right_eq_some, Option.bind_eq_some_iff,
        Option.map_eq_some_iff] at h
      obtain ⟨hfree, server, hserver, hne, pool, hpool, rfl⟩ := h
      obtain ⟨task, htasks, hqueued⟩ := cut_of_extract hserver hne
      exact .dispatch hfree hserver htasks hqueued hpool
  | pool a =>
      simp only [step, Option.ite_none_right_eq_some, Option.map_eq_some_iff] at h
      obtain ⟨hinner, pool, hpool, rfl⟩ := h
      exact .pool hinner hpool
  | begin w =>
      simp only [step] at h
      split at h
      · rename_i task hslot
        simp only [Option.bind_eq_some_iff, Option.map_eq_some_iff] at h
        obtain ⟨pool, hpool, server, hserver, rfl⟩ := h
        obtain ⟨phase, hworked⟩ := worked (w := task) hserver rfl fun _ _ _ hmoves ↦ hmoves.1.symm
        obtain ⟨-, -, rfl⟩ : _ ∧ _ ∧ phase = .running := hworked.task.choose_spec.2.1
        exact .begin hslot hpool hworked
      · cases h
  | work w a =>
      simp only [step] at h
      split at h
      · rename_i task hslot
        simp only [Option.ite_none_right_eq_some, Option.map_eq_some_iff] at h
        obtain ⟨hworks, server, hserver, rfl⟩ := h
        obtain ⟨htask, hnamed⟩ := named_of_works hworks
        obtain ⟨phase, hworked⟩ := worked hserver htask hnamed
        exact .work hslot hworks hworked
      · cases h
  | finish w =>
      simp only [step] at h
      split at h
      · rename_i task hslot
        simp only [Option.ite_none_right_eq_some, Option.map_eq_some_iff] at h
        obtain ⟨hdone, pool, hpool, rfl⟩ := h
        exact .finish hslot hdone hpool
      · cases h
  | stop =>
      simp only [step, Option.ite_none_right_eq_some, Option.map_eq_some_iff] at h
      obtain ⟨⟨hfree, hidle⟩, pool, hpool, rfl⟩ := h
      exact .stop hfree hidle hpool

/-! ## The runs of the two parts -/

/-- What an event is for the server. -/
def Event.server (s : Process) : Event → Option Descriptors.Action
  | .loop a | .work _ a => some a
  | .dispatch _ => some .extract
  | .begin w =>
      match s.pool.workers[w]? with
      | some (.popped t) => some (.begin t.task)
      | _ => none
  | _ => none

def served (trace : List (Process × Event)) : List (Server × Descriptors.Action) :=
  trace.filterMap fun entry ↦ (entry.2.server entry.1).map (Prod.mk entry.1.server)

theorem server_step (h : Stepped z heap config s e t) :
    (∃ a, e.server s = some a ∧ Descriptors.step z heap s.server a = some t.server) ∨
      e.server s = none ∧ t.server = s.server := by
  cases h with
  | loop _ hserver | dispatch _ hserver => exact .inl ⟨_, rfl, hserver⟩
  | begin hslot _ hworked => exact .inl ⟨_, by simp only [Event.server, hslot], hworked.step⟩
  | work _ _ hworked => exact .inl ⟨_, rfl, hworked.step⟩
  | pool | finish | stop => exact .inr ⟨rfl, rfl⟩

theorem follows_pool (h : Stepped z heap config s e t) :
    Follows (ThreadPool.step config) (· = t.pool) s.pool := by
  cases h with
  | dispatch _ _ _ _ hpool | pool _ hpool | begin _ hpool | finish _ _ hpool | stop _ _ hpool =>
      exact .inr ⟨_, _, hpool, rfl⟩
  | loop | work => exact .inl rfl

variable {table : ℤ → Option Descriptors.File} {trace : List (Process × Event)} {last : Process}

theorem server_run (hrun : Run (step z heap config) (.start config table) trace last) :
    Run (Descriptors.step z heap) (.start table) (served trace) last.server := by
  induction hrun with
  | nil => exact .nil
  | @snoc trace s e u _ hlast ih =>
      rw [served, List.filterMap_append]
      rcases server_step (stepped hlast) with ⟨a, hevent, hserver⟩ | ⟨hevent, hsame⟩
      · rw [List.filterMap_cons_some (by rw [hevent]; rfl), List.filterMap_nil]
        exact ih.snoc hserver
      · rw [List.filterMap_cons_none (by rw [hevent]; rfl), List.filterMap_nil, List.append_nil]
        exact hsame ▸ ih

theorem pool_run (hrun : Run (step z heap config) (.start config table) trace last) :
    ∃ pooled, Run (ThreadPool.step config) (.start config) pooled last.pool := by
  obtain ⟨pooled, pool, hpooled, rfl⟩ := hrun.simulation (fun _ s pool ↦ pool = s.pool)
    rfl fun _ s _ u _ _ _ _ hstep _ _ _ hsame ↦ hsame ▸ follows_pool (stepped hstep)
  exact ⟨pooled, hpooled⟩

/-! ## The invariant -/

/-- The pool of a process: `n` tasks have been offered to it, only the call in `closing` may
stop it, and it has refused nothing. -/
structure Housed (config : ThreadPoolStruct) (closing : Option ℕ) (n : ℕ) (p : Pool) : Prop where
  inv : ThreadPool.Inv config p
  calls : .stopNow ∉ p.calls
  tended : Tended (fun k ↦ closing = some k) p
  offers : p.accepted + p.undecided = n
  settled : closing ≠ none → p.undecided = 0
  unrefused : .refused ∉ p.offers

variable {closing : Option ℕ} {n : ℕ} {p q : Pool}

theorem housed_start (config : ThreadPoolStruct) : Housed config none 0 (.start config) where
  inv := ThreadPool.inv_start config
  calls h := by cases h
  tended := tended_start config
  offers := rfl
  settled h := absurd rfl h
  unrefused h := by cases h

/-- Nobody stops the pool before `main` does. -/
theorem closing_of_stop (h : Tended (fun k ↦ closing = some k) p) (hstop : p.stop = true) :
    closing ≠ none := by
  obtain ⟨x, hx, hends⟩ := h.stop.mp hstop
  obtain ⟨k, hk⟩ := List.mem_iff_getElem?.mp hx
  rintro rfl
  rw [h.others k x hk (by simp)] at hends
  exact hends

theorem housed_step {a : ThreadPool.Action} (h : Housed config closing n p)
    (hcall : ∀ c, a ≠ .call c) (hstep : ThreadPool.step config p a = some q) :
    Housed config closing n q := by
  have hinv := ThreadPool.inv_step h.inv hstep
  have hcalls : .stopNow ∉ q.calls := by
    rw [ThreadPool.calls_step hstep]
    cases a with
    | call c => exact absurd rfl (hcall c)
    | worker | caller => simpa [ThreadPool.Action.begun] using h.calls
  have htended : Tended (fun k ↦ closing = some k) q := by
    refine tended_step h.inv h.tended (fun k k' hk hk' ↦ ?_) hcall hstep
    exact Option.some.inj (hk.symm.trans hk')
  cases ThreadPool.offered_step hcall hstep with
  | keeps haccepted hoffers =>
      have hundecided : q.undecided = p.undecided := by
        rw [Pool.undecided, Pool.undecided, hoffers]
      refine ⟨hinv, hcalls, htended, ?_, fun hclosing ↦ ?_, ?_⟩
      · rw [haccepted, hundecided]
        exact h.offers
      · exact hundecided.trans (h.settled hclosing)
      · exact hoffers ▸ h.unrefused
  | refuses i hslot hstop =>
      have hzero := h.settled (closing_of_stop h.tended hstop)
      exact absurd (Slots.mem_of_slot hslot) (List.count_eq_zero.mp hzero)
  | accepts i hslot haccepted hoffers =>
      have hcount := Slots.countP_set hslot .none (· == .waiting)
      rw [← hoffers] at hcount
      have hundecided : q.undecided + 1 = p.undecided := hcount
      refine ⟨hinv, hcalls, htended, ?_, fun hclosing ↦ ?_, fun hrefused ↦ ?_⟩
      · have hbefore := h.offers
        omega
      · have hzero := h.settled hclosing
        omega
      · rw [hoffers] at hrefused
        rcases List.mem_or_eq_of_mem_set hrefused with hold | hnew
        · exact h.unrefused hold
        · cases hnew

theorem offers_call (p : Pool) (c : ThreadPool.Call) :
    Pool.offers { p with callers := p.callers ++ [c.begin] } = p.offers ++ [c.begin.offer] :=
  List.map_append

/-- A call of `enqueue` begins while the pool is open. -/
theorem housed_enqueue {priority : ThreadPool.TaskPriority} {callable : Outcome}
    (h : Housed config none n p)
    (hstep : ThreadPool.step config p (.call (.enqueue priority callable)) = some q) :
    Housed config none (n + 1) q := by
  have hinv := ThreadPool.inv_step h.inv hstep
  have hcalls := ThreadPool.calls_step hstep
  cases hstep
  have hoffers := offers_call p (.enqueue priority callable)
  have hundecided : Pool.undecided { p with
      callers := p.callers ++ [(ThreadPool.Call.enqueue priority callable).begin] } =
        p.undecided + 1 := by
    rw [Pool.undecided, hoffers, List.count_append]
    rfl
  refine ⟨hinv, ?_, h.tended.enter (.enqueue priority callable) (fun _ hk ↦ hk) (.inl rfl), ?_,
    fun hclosing ↦ absurd rfl hclosing, ?_⟩
  · rw [hcalls]
    simpa [ThreadPool.Action.begun] using h.calls
  · rw [hundecided, ← Nat.add_assoc]
    exact congrArg (· + 1) h.offers
  · rw [hoffers]
    simpa [ThreadPool.Call.begin, Caller.offer] using h.unrefused

/-- `main` calls `shutdown`, and nothing is being offered. -/
theorem housed_shutdown (h : Housed config none n p) (hzero : p.undecided = 0)
    (hstep : ThreadPool.step config p (.call .shutdown) = some q) :
    Housed config (some p.callers.length) n q := by
  have hinv := ThreadPool.inv_step h.inv hstep
  have hcalls := ThreadPool.calls_step hstep
  cases hstep
  have hoffers := offers_call p .shutdown
  have hundecided : Pool.undecided { p with
      callers := p.callers ++ [ThreadPool.Call.shutdown.begin] } = p.undecided := by
    rw [Pool.undecided, hoffers, List.count_append]
    rfl
  refine ⟨hinv, ?_, h.tended.enter .shutdown (fun _ hk ↦ by cases hk) (.inr rfl), ?_,
    fun _ ↦ hundecided.trans hzero, ?_⟩
  · rw [hcalls]
    simpa [ThreadPool.Action.begun] using h.calls
  · exact (congrArg (p.accepted + ·) hundecided).trans h.offers
  · rw [hoffers]
    simpa [ThreadPool.Call.begin, Caller.offer] using h.unrefused

/-- The loop is over once `main` is behind it, and what the pool has finished is done. -/
structure Linked (config : ThreadPoolStruct) (s : Process) : Prop where
  housed : Housed config s.closing s.server.tasks.length s.pool
  idle : s.closing ≠ none → s.server.loop = .idle
  finished : ∀ t ∈ s.pool.finished, s.phase t.task = some .done

theorem Process.Free.undecided (h : s.Free) : s.pool.undecided = 0 := by
  rw [Pool.undecided, List.count_eq_zero]
  intro hmem
  obtain ⟨c, hc, hoffer⟩ := List.mem_map.mp hmem
  have hback := h.2 c hc
  rw [Caller.away_of_waiting hoffer] at hback
  cases hback

/-- A task that is done stays as it is. -/
theorem moves_done {i : ℕ} {phase : TaskPhase} {a : Descriptors.Action}
    (h : Moves i .done phase a) : phase = .done := by
  cases a with
  | begin j => cases h.2.1
  | respond j size => cases h.2.1
  | write j r =>
      obtain ⟨-, _, _, hwriting, -⟩ := h
      cases hwriting
  | finish j => exact h.2
  | _ => exact h.elim

/-- The phases behind a step of a worker. -/
theorem Worked.phase_cases {w : TaskWrapper} {a : Descriptors.Action} {server : Server}
    {phase phase' : TaskPhase} {i : ℕ} (pool : Pool) (h : Worked z heap s w a server phase)
    (hphase : Process.phase { s with server, pool } i = some phase') :
    i ≠ w.task ∧ s.phase i = some phase' ∨ i = w.task ∧ phase' = phase := by
  obtain ⟨task, hslot, -, htasks⟩ := h.task
  rw [Process.phase, htasks] at hphase
  by_cases hi : i = w.task
  · subst hi
    rw [List.getElem?_set_self (List.getElem?_eq_some_iff.mp hslot).1] at hphase
    exact .inr ⟨rfl, (Option.some.inj hphase).symm⟩
  · rw [List.getElem?_set_ne (Ne.symm hi)] at hphase
    exact .inl ⟨hi, hphase⟩

theorem Worked.done {w : TaskWrapper} {a : Descriptors.Action} {server : Server}
    {phase : TaskPhase} {i : ℕ} (pool : Pool) (h : Worked z heap s w a server phase)
    (hdone : s.phase i = some .done) :
    Process.phase { s with server, pool } i = some .done := by
  obtain ⟨task, hslot, hmoves, htasks⟩ := h.task
  rw [Process.phase, htasks]
  by_cases hi : i = w.task
  · subst hi
    rw [Process.phase, hslot] at hdone
    rw [Option.some.inj hdone] at hmoves
    rw [List.getElem?_set_self (List.getElem?_eq_some_iff.mp hslot).1, moves_done hmoves]
    rfl
  · rw [List.getElem?_set_ne (Ne.symm hi)]
    exact hdone

theorem Worked.length {w : TaskWrapper} {a : Descriptors.Action} {server : Server}
    {phase : TaskPhase} (h : Worked z heap s w a server phase) :
    server.tasks.length = s.server.tasks.length := by
  obtain ⟨task, -, -, htasks⟩ := h.task
  rw [htasks, List.length_set]

/-- Only the thread of the event loop moves it on. -/
theorem loop_step {server server' : Server} {a : Descriptors.Action}
    (hstep : Descriptors.step z heap server a = some server') (hloop : ofLoop a = false) :
    server'.loop = server.loop := by
  cases a with
  | openOther | closeOther | begin | respond | write | finish | destroy =>
      simp only [Descriptors.step] at hstep
      (repeat' split at hstep) <;> cases hstep <;> rfl
  | _ => cases hloop

theorem not_ofLoop {a : Descriptors.Action} (h : ofTask a = true) : ofLoop a = false := by
  cases a <;> first | rfl | cases h

theorem linked_step (h : Linked config s) (hstep : Stepped z heap config s e t) :
    Linked config t := by
  cases hstep with
  | @loop a server hfree hserver htasks =>
      refine ⟨htasks ▸ h.housed, fun hclosing ↦ ?_, fun w hw ↦ ?_⟩
      · have hother : ofLoop a = false :=
          Bool.eq_false_iff.mpr fun hloop ↦ hclosing (hfree hloop).1
        exact (loop_step hserver hother).trans (h.idle hclosing)
      · rw [Process.phase, htasks]
        exact h.finished w hw
  | dispatch hfree hserver htasks hqueued hpool =>
      have hhoused := h.housed
      rw [hfree.1] at hhoused
      refine ⟨?_, fun hclosing ↦ absurd hfree.1 hclosing, fun w hw ↦ ?_⟩
      · rw [htasks, List.length_append, hfree.1]
        exact housed_enqueue hhoused hpool
      · rw [ThreadPool.finished_step (by simp) hpool] at hw
        have hdone := h.finished w hw
        obtain ⟨task, hslot, hphase⟩ := Option.map_eq_some_iff.mp hdone
        rw [Process.phase, htasks,
          List.getElem?_append_left (List.getElem?_eq_some_iff.mp hslot).1]
        exact hdone
  | pool hinner hpool =>
      refine ⟨housed_step h.housed (by rintro c rfl; cases hinner) hpool, h.idle, fun w hw ↦ ?_⟩
      rw [ThreadPool.finished_step (by rintro i rfl; cases hinner) hpool] at hw
      exact h.finished w hw
  | @begin _ _ _ pool _ hpool hworked =>
      refine ⟨?_, fun hclosing ↦ ?_, fun w hw ↦ ?_⟩
      · exact hworked.length ▸ housed_step h.housed (by simp) hpool
      · exact (loop_step hworked.step rfl).trans (h.idle hclosing)
      · rw [ThreadPool.finished_step (by simp) hpool] at hw
        exact hworked.done pool (h.finished w hw)
  | work hslot hworks hworked =>
      refine ⟨hworked.length ▸ h.housed, fun hclosing ↦ ?_, fun w hw ↦ ?_⟩
      · have hother := not_ofLoop (named_of_works hworks).1
        exact (loop_step hworked.step hother).trans (h.idle hclosing)
      · exact hworked.done s.pool (h.finished w hw)
  | finish hslot hdone hpool =>
      refine ⟨housed_step h.housed (by simp) hpool, h.idle, fun w hw ↦ ?_⟩
      rw [ThreadPool.finished_finish hslot hpool] at hw
      rcases List.mem_append.mp hw with hold | hnew
      · exact h.finished w hold
      · rw [List.mem_singleton.mp hnew]
        exact hdone
  | stop hfree hidle hpool =>
      have hhoused := h.housed
      rw [hfree.1] at hhoused
      refine ⟨housed_shutdown hhoused hfree.undecided hpool, fun _ ↦ hidle, fun w hw ↦ ?_⟩
      rw [ThreadPool.finished_step (by simp) hpool] at hw
      exact h.finished w hw

theorem linked_run (hrun : Run (step z heap config) (.start config table) trace last) :
    Linked config last :=
  hrun.invariant (Linked config) ⟨housed_start config, fun h ↦ absurd rfl h, fun _ h ↦ by cases h⟩
    fun _ _ _ _ h hstep ↦ linked_step h (stepped hstep)

/-! ## What becomes of a task -/

def Begun (trace : List (Process × Event)) (i : ℕ) : Prop :=
  ∃ s w t, (s, .begin w) ∈ trace ∧ s.pool.workers[w]? = some (.popped t) ∧ t.task = i

/-- `Write` was called with the response. -/
def Answered (trace : List (Process × Event)) (i : ℕ) : Prop :=
  ∃ s w size, (s, .work w (.respond i size)) ∈ trace

def Threw (trace : List (Process × Event)) (i : ℕ) : Prop :=
  ∃ s w t, (s, .work w (.finish i)) ∈ trace ∧ s.pool.workers[w]? = some (.running t) ∧
    t.task = i ∧ t.callable = .threw

/-- How a task has come to its phase. -/
def Told (trace : List (Process × Event)) (i : ℕ) : TaskPhase → Prop
  | .queued => True
  | .running => Begun trace i
  | .writing _ _ => Begun trace i ∧ Answered trace i
  | .done => Begun trace i ∧ (Answered trace i ∨ Threw trace i)

section Told

variable {i : ℕ} {phase : TaskPhase} {event : Process × Event}

theorem Begun.snoc (h : Begun trace i) : Begun (trace ++ [event]) i := by
  obtain ⟨s, w, t, hmem, hslot, htask⟩ := h
  exact ⟨s, w, t, List.mem_append_left _ hmem, hslot, htask⟩

theorem Answered.snoc (h : Answered trace i) : Answered (trace ++ [event]) i := by
  obtain ⟨s, w, size, hmem⟩ := h
  exact ⟨s, w, size, List.mem_append_left _ hmem⟩

theorem Threw.snoc (h : Threw trace i) : Threw (trace ++ [event]) i := by
  obtain ⟨s, w, t, hmem, hslot, htask, hthrew⟩ := h
  exact ⟨s, w, t, List.mem_append_left _ hmem, hslot, htask, hthrew⟩

theorem Told.snoc (h : Told trace i phase) : Told (trace ++ [event]) i phase := by
  cases phase with
  | queued => trivial
  | running => exact Begun.snoc h
  | writing => exact ⟨h.1.snoc, h.2.snoc⟩
  | done => exact ⟨h.1.snoc, h.2.imp Answered.snoc Threw.snoc⟩

/-- A worker has its task written, or ended by a throw. -/
theorem told_work {w : ℕ} {task : TaskWrapper} {a : Descriptors.Action} {old : TaskPhase}
    (hslot : s.pool.workers[w]? = some (.running task)) (hold : Told trace task.task old)
    (hworks : works task (some old) a = true) (hmoves : Moves task.task old phase a) :
    Told (trace ++ [(s, .work w a)]) task.task phase := by
  have hlast : (s, Event.work w a) ∈ trace ++ [(s, .work w a)] :=
    List.mem_append_right _ (List.mem_singleton_self _)
  cases a with
  | respond j size =>
      obtain ⟨rfl, rfl, hphase⟩ := hmoves
      have hbegun : Begun (trace ++ [(s, .work w (.respond task.task size))]) task.task :=
        Begun.snoc hold
      rcases hphase with rfl | rfl
      · exact ⟨hbegun, s, w, size, hlast⟩
      · exact ⟨hbegun, .inl ⟨s, w, size, hlast⟩⟩
  | write j r =>
      obtain ⟨rfl, size, sent, rfl, hphase⟩ := hmoves
      rcases hphase with rfl | rfl
      · exact ⟨hold.1.snoc, hold.2.snoc⟩
      · exact ⟨hold.1.snoc, .inl hold.2.snoc⟩
  | finish j =>
      simp only [works, decide_eq_true_eq, Option.some.injEq] at hworks
      obtain ⟨rfl, hthrew, rfl⟩ := hworks
      obtain ⟨-, rfl⟩ := hmoves
      exact ⟨Begun.snoc hold, .inr ⟨s, w, task, hlast, hslot, rfl, hthrew⟩⟩
  | _ => cases hworks

end Told

theorem told_run (hrun : Run (step z heap config) (.start config table) trace last) :
    ∀ i phase, last.phase i = some phase → Told trace i phase := by
  induction hrun with
  | nil =>
      intro i phase h
      cases h
  | @snoc trace s e u hrun hlast ih =>
      intro i phase hphase
      cases stepped hlast with
      | loop _ hserver htasks =>
          rw [Process.phase, htasks] at hphase
          exact (ih i phase hphase).snoc
      | dispatch hfree hserver htasks hqueued hpool =>
          rw [Process.phase, htasks, List.getElem?_append] at hphase
          split at hphase
          · exact (ih i phase hphase).snoc
          · obtain ⟨task, htask, rfl⟩ := Option.map_eq_some_iff.mp hphase
            obtain rfl := List.mem_singleton.mp (List.mem_of_getElem? htask)
            rw [hqueued]
            trivial
      | pool | finish | stop => exact (ih i phase hphase).snoc
      | @begin _ _ _ pool hslot hpool hworked =>
          rcases hworked.phase_cases pool hphase with ⟨-, hbefore⟩ | ⟨rfl, rfl⟩
          · exact (ih i phase hbefore).snoc
          · exact ⟨s, _, _, List.mem_append_right _ (List.mem_singleton_self _), hslot, rfl⟩
      | work hslot hworks hworked =>
          rcases hworked.phase_cases s.pool hphase with ⟨-, hbefore⟩ | ⟨rfl, rfl⟩
          · exact (ih i phase hbefore).snoc
          · obtain ⟨task, htask, hmoves, -⟩ := hworked.task
            have hold : s.phase _ = some task.phase := congrArg (Option.map Task.phase) htask
            rw [hold] at hworks
            exact told_work hslot (ih _ _ hold) hworks hmoves

/-! ## The end -/

/-- The pool has no thread left, and the loop is over. -/
structure Closed (s : Process) : Prop where
  closing : s.closing ≠ none
  stop : s.pool.stop = true
  joined : s.pool.joined

theorem Closed.not_worker {w : ℕ} {worker : ThreadPool.Worker} (h : Closed s)
    (hslot : s.pool.workers[w]? = some worker) : worker = .retired ∨ worker = .exited :=
  h.joined worker (Slots.mem_of_slot hslot)

theorem closed_step (h : Closed s) (hstep : Stepped z heap config s e t) :
    Closed t ∧ t.server.tasks = s.server.tasks := by
  cases hstep with
  | loop _ _ htasks => exact ⟨⟨h.closing, h.stop, h.joined⟩, htasks⟩
  | dispatch hfree | stop hfree => exact absurd hfree.1 h.closing
  | pool _ hpool =>
      refine ⟨⟨h.closing, (ThreadPool.stop_step h.stop hpool).1, ?_⟩, rfl⟩
      exact ThreadPool.joined_step h.joined h.stop hpool
  | begin hslot | work hslot | finish hslot => rcases h.not_worker hslot with hw | hw <;> cases hw

theorem closed_run {more : List (Process × Event)} {next : Process} (h : Closed last)
    (hrun : Run (step z heap config) last more next) :
    Closed next ∧ next.server.tasks = last.server.tasks :=
  hrun.invariant (fun s ↦ Closed s ∧ s.server.tasks = last.server.tasks) ⟨h, rfl⟩
    fun _ _ _ _ hclosed hstep ↦
      (closed_step hclosed.1 (stepped hstep)).imp_right fun hsame ↦ hsame.trans hclosed.2

theorem closed_of_returned (h : Housed config closing n p) {k : ℕ} {moved : Bool}
    (hreturned : p.callers[k]? = some (.shutdown (.returned moved true))) :
    p.stop = true ∧ p.joined := by
  have hdone : Stage.done ∈ stages p := List.mem_map_of_mem (Slots.mem_of_slot hreturned)
  exact ⟨h.tended.stop.mpr ⟨_, hdone, trivial⟩, h.tended.done hdone⟩

/-- When the call of `shutdown` returns true, nothing was thrown away and nothing is in the
hands of a worker. -/
theorem allFinished_of_returned
    (hrun : Run (step z heap config) (.start config table) trace last) {k : ℕ} {moved : Bool}
    (hreturned : last.pool.callers[k]? = some (.shutdown (.returned moved true))) :
    last.pool.AllFinished := by
  have hhoused := (linked_run hrun).housed
  obtain ⟨hstop, hjoined⟩ := closed_of_returned hhoused hreturned
  obtain ⟨pooled, hpooled⟩ := pool_run hrun
  have hcalls : ∀ c ∈ last.pool.callers, c.call ≠ .stopNow :=
    fun c hc hcall ↦ hhoused.calls (hcall ▸ List.mem_map_of_mem hc)
  exact (hhoused.inv.allFinished_iff hstop).mpr
    ⟨discarded_of_calls hpooled hcalls, ThreadPool.held_of_joined hjoined⟩

theorem ended_run (hrun : Run (step z heap config) (.start config table) trace last) {k : ℕ}
    {moved : Bool} (hclosing : last.closing = some k)
    (hreturned : last.pool.callers[k]? = some (.shutdown (.returned moved true))) {i : ℕ}
    (hi : i < last.server.tasks.length) :
    last.phase i = some .done ∧ Begun trace i ∧ (Answered trace i ∨ Threw trace i) := by
  have hlinked := linked_run hrun
  have haccepted : last.pool.accepted = last.server.tasks.length := by
    have hoffers := hlinked.housed.offers
    rw [hlinked.housed.settled (by simp [hclosing])] at hoffers
    exact hoffers
  have hmem : i ∈ last.pool.finished.map TaskWrapper.task := by
    rw [(allFinished_of_returned hrun hreturned).mem_iff, haccepted]
    exact List.mem_range.mpr hi
  obtain ⟨task, htask, rfl⟩ := List.mem_map.mp hmem
  have hdone := hlinked.finished task htask
  exact ⟨hdone, told_run hrun _ _ hdone⟩

/-- **A graceful exit.**  When the call of `shutdown` that `main` makes returns true, each
request that the event loop has cut off was taken by a worker and brought to its end:
`Write` was called with the response, or the handler threw.  No task changes after that. -/
theorem graceful_exit (hrun : Run (step z heap config) (.start config table) trace last) {k : ℕ}
    {moved : Bool} (hclosing : last.closing = some k)
    (hreturned : last.pool.callers[k]? = some (.shutdown (.returned moved true))) :
    (∀ i < last.server.tasks.length, last.phase i = some .done ∧ Begun trace i ∧
        (Answered trace i ∨ Threw trace i)) ∧
      ∀ more next, Run (step z heap config) last more next →
        next.server.tasks = last.server.tasks := by
  obtain ⟨hstop, hjoined⟩ := closed_of_returned (linked_run hrun).housed hreturned
  have hclosed : Closed last := ⟨by simp [hclosing], hstop, hjoined⟩
  exact ⟨fun i hi ↦ ended_run hrun hclosing hreturned hi,
    fun more next hmore ↦ (closed_run hclosed hmore).2⟩

/-- The loop is stopped while a request is queued. -/
def lastRequest : List Event :=
  [.loop (.accept 3), .loop (.setUp true), .loop (.register true), .loop (.readable 3),
    .loop (.read (.bytes Message.pingWire)), .dispatch .returned, .pool (.caller 0 (.offer false)),
    .pool (.caller 0 (.signal none)), .loop .extract, .stop, .pool (.caller 1 .exchange),
    .pool (.caller 1 .notify), .pool (.worker 0 .test), .pool (.worker 0 (.act false)),
    .pool (.worker 0 (.take 0 none)), .begin 0, .work 0 (.respond 0 60),
    .work 0 (.write 0 (.wrote 60)), .finish 0, .pool (.worker 0 .decrement),
    .pool (.caller 1 .test), .pool (.caller 1 .notify), .pool (.worker 0 .check),
    .pool (.worker 0 .test), .pool (.worker 0 (.act false)), .pool (.caller 1 .join)]

def lastRequestRun : List (Process × Event) × Process :=
  executed (step StoredFrames.stored StoredFrames.gibibyteHeap ⟨1, 1, 0⟩)
    (.start ⟨1, 1, 0⟩ Descriptors.standardFiles) lastRequest

theorem run_lastRequest : Run (step StoredFrames.stored StoredFrames.gibibyteHeap ⟨1, 1, 0⟩)
    (.start ⟨1, 1, 0⟩ Descriptors.standardFiles) lastRequestRun.1 lastRequestRun.2 :=
  Run.of_isSome (by decide +kernel)

theorem end_lastRequest : lastRequestRun.2.closing = some 1 ∧
    lastRequestRun.2.pool.callers.map Caller.offer = [.none, .none] ∧
      lastRequestRun.2.pool.callers[1]? = some (.shutdown (.returned true true)) ∧
        lastRequestRun.2.server.tasks.length = 1 := by
  decide +kernel

theorem graceful_exit_lastRequest :
    lastRequestRun.2.server.tasks.length = 1 ∧ lastRequestRun.2.phase 0 = some .done ∧
      (Answered lastRequestRun.1 0 ∨ Threw lastRequestRun.1 0) := by
  obtain ⟨hclosing, -, hreturned, hone⟩ := end_lastRequest
  obtain ⟨hdone, -, hended⟩ := (graceful_exit run_lastRequest hclosing hreturned).1 0
    (hone ▸ Nat.zero_lt_one)
  exact ⟨hone, hdone, hended⟩

/-- **Nothing received is lost.**  When the call of `shutdown` that `main` makes returns true,
the tasks of a connection are the requests in the bytes read from it, in their order, unless a
`Read` of it has returned false; and each was answered, or its handler threw. -/
theorem received_exit (hrun : Run (step z heap config) (.start config table) trace last) {k : ℕ}
    {moved : Bool} (hclosing : last.closing = some k)
    (hreturned : last.pool.callers[k]? = some (.shutdown (.returned moved true))) (a : ℕ)
    (hreads : ∀ entry ∈ served trace, ¬ Descriptors.GivesUp a entry.1 entry.2) :
    Descriptors.dispatched a last.server =
        Descriptors.requests z heap (Descriptors.taken a (served trace)) ∧
      ∀ i task, last.server.tasks[i]? = some task → task.object = a →
        Begun trace i ∧ (Answered trace i ∨ Threw trace i) := by
  constructor
  · have hidle : last.server.loop = .idle := (linked_run hrun).idle (by simp [hclosing])
    refine (Descriptors.told_run (server_run hrun) a).2.settled ?_ hreads
    rintro (⟨fd, hbusy⟩ | ⟨fd, hbusy⟩) <;> cases hidle.symm.trans hbusy
  · intro i task hslot _
    exact (ended_run hrun hclosing hreturned (List.getElem?_eq_some_iff.mp hslot).1).2

/-- The event loop is in `Read` for the object. -/
def inRead (a : ℕ) : Descriptors.Loop → Bool
  | .reading _ b => b = a
  | _ => false

theorem inRead_iff {a : ℕ} {loop : Descriptors.Loop} :
    inRead a loop = true ↔ ∃ fd, loop = .reading fd a := by
  cases loop <;> simp [inRead]

instance (a : ℕ) (s : Server) (act : Descriptors.Action) :
    Decidable (Descriptors.GivesUp a s act) :=
  match act with
  | .read r =>
      decidable_of_iff
        (inRead a s.loop = true ∧ (s.objects a).any fun o ↦ (o.conn.onRead r).2 = .done false)
        (by simp [Descriptors.GivesUp, inRead_iff, Option.any_eq_true])
  | .openOther _ | .closeOther _ | .accept _ | .setUp _ | .register _ | .hangUp _ | .readable _
  | .extract | .begin _ | .respond _ _ | .write _ _ | .finish _ | .destroy _ =>
      isFalse id

theorem received_exit_lastRequest :
    Descriptors.dispatched 0 lastRequestRun.2.server = [⟨1, [0x53], [0x6d], [0x70]⟩] ∧
      Descriptors.requests StoredFrames.stored StoredFrames.gibibyteHeap
        (Descriptors.taken 0 (served lastRequestRun.1)) = [⟨1, [0x53], [0x6d], [0x70]⟩] := by
  obtain ⟨hclosing, -, hreturned, -⟩ := end_lastRequest
  have hone : Descriptors.dispatched 0 lastRequestRun.2.server =
      [⟨1, [0x53], [0x6d], [0x70]⟩] := by
    decide +kernel
  have hreads : ∀ entry ∈ served lastRequestRun.1, ¬ Descriptors.GivesUp 0 entry.1 entry.2 := by
    decide +kernel
  have hsame := (received_exit run_lastRequest hclosing hreturned 0 hreads).1
  exact ⟨hone, hsame.symm.trans hone⟩

/-- **No request is refused.**  The event loop does not look at what `enqueue` returns, so a
request that is refused would never be answered; but the pool is not stopped as long as the
loop may call it. -/
theorem unrefused_run (hrun : Run (step z heap config) (.start config table) trace last)
    (priority : ThreadPool.TaskPriority) (callable : Outcome) :
    .enqueue priority callable (.returned none) ∉ last.pool.callers :=
  fun hmem ↦ (linked_run hrun).housed.unrefused (List.mem_map_of_mem hmem)

theorem unrefused_run_lastRequest :
    lastRequestRun.2.pool.callers.map Caller.offer = [.none, .none] ∧
      .enqueue .normal .returned (.returned none) ∉ lastRequestRun.2.pool.callers :=
  ⟨end_lastRequest.2.1, unrefused_run run_lastRequest .normal .returned⟩

end MyRpc.ServersMain
