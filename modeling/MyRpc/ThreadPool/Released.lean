import MyRpc.ThreadPool.Singleton

/-!
# Pools that were released

Between `getInstance` and the end of its call of the pool, `enqueue` has a
reference that nothing protects: `shutdown` and `destroy` reset the pointer
under the mutex of the singleton, and that mutex is free by then.  A pool that
is not in use when it is released is never used again, for nobody can come to it
(`retired_step`); one that is in use can be operated on (`operates_of_inUse`).
-/

namespace MyRpc.ThreadPoolSingleton

open PartialRun ThreadPool

variable {hardware : ℕ} {s t : Singleton}

/-! ## Uses of a pool -/

/-- Caller `i` of pool `g` is a call of `enqueue` that has returned. -/
def ReturnedAt (s : Singleton) (g i : ℕ) : Prop :=
  ∃ priority callable task, s.callerAt g i = some (.enqueue priority callable (.returned task))

/-- A call of `enqueue` is inside pool `g`. -/
def Operates (s : Singleton) (g : ℕ) : Prop :=
  ∃ i, .enqueuing g i ∈ s.clients ∧ ¬ ReturnedAt s g i

/-- A call of `enqueue` has its reference to pool `g`, or is inside of it. -/
def InUse (s : Singleton) (g : ℕ) : Prop :=
  (∃ priority callable, .fetched g priority callable ∈ s.clients) ∨ Operates s g

def Released (s : Singleton) (g : ℕ) : Prop := ∃ p, s.pools[g]? = some p ∧ p.released = true

/-- With its next step client `j` resets the pointer to pool `g`. -/
inductive Releasing (s : Singleton) (j g : ℕ) : Prop
  | shutdown {i : ℕ} {moved : Bool} : s.clients[j]? = some (.shuttingDown g i) →
      s.callerAt g i = some (.shutdown (.returned moved true)) → Releasing s j g
  | destroy {i : ℕ} : s.clients[j]? = some (.destroying g i) →
      s.callerAt g i = some (.stopNow .returned) → Releasing s j g

/-- A pool that was released, is not used, and will not be handed out again. -/
structure Retired (s : Singleton) (g : ℕ) : Prop where
  released : Released s g
  unreachable : s.instance_ ≠ some g
  unused : ¬ InUse s g

theorem callerAt_of_pool {g i : ℕ} {p : Instance} (hpool : s.pools[g]? = some p) :
    s.callerAt g i = p.pool.callers[i]? := by
  rw [Singleton.callerAt, hpool]
  rfl

theorem returnedAt_step {m : Move} {g i : ℕ} (h : ReturnedAt s g i)
    (hstep : step hardware s m = some t) : ReturnedAt t g i := by
  obtain ⟨priority, callable, task, hcaller⟩ := h
  obtain ⟨p, hpool, hslot⟩ := Option.bind_eq_some_iff.mp hcaller
  obtain ⟨q, hpool', hevolves⟩ := (poolsStep hstep).forward hpool
  refine ⟨priority, callable, task, (callerAt_of_pool hpool').trans ?_⟩
  rcases hevolves.pool with hsame | ⟨a, ha⟩
  · rwa [hsame]
  · exact returned_kept hslot ha

theorem released_step {m : Move} {g : ℕ} (h : Released s g)
    (hstep : step hardware s m = some t) : Released t g := by
  obtain ⟨p, hpool, hreleased⟩ := h
  obtain ⟨q, hpool', hevolves⟩ := (poolsStep hstep).forward hpool
  exact ⟨q, hpool', hevolves.released hreleased⟩

/-- A client that is behind `getInstance` with pool `g`. -/
def Client.uses (g : ℕ) : Client → Prop
  | fetched g' _ _ => g' = g
  | enqueuing g' _ => g' = g
  | _ => False

/-- What `getInstance` returns is the present pool or a new one. -/
theorem fetch_ne {g : ℕ} (config : ThreadPoolStruct) (hunreachable : s.instance_ ≠ some g)
    (hg : g < s.pools.length) :
    (s.fetch config).1.instance_ ≠ some g ∧ (s.fetch config).2 ≠ g := by
  unfold Singleton.fetch
  cases hinstance : s.instance_ with
  | none =>
      have hne : s.pools.length ≠ g := hg.ne'
      exact ⟨by simpa [Singleton.make] using hne, hne⟩
  | some g' =>
      rw [hinstance] at hunreachable
      exact ⟨by simpa [hinstance] using hunreachable, by simpa using hunreachable⟩

/-- One client of the next state is new or has moved, and it has not come to
pool `g` by that. -/
theorem unused_of_clients {g : ℕ} {m : Move} (h : ¬ InUse s g)
    (hstep : step hardware s m = some t)
    (hclients : ∀ c ∈ t.clients, c ∈ s.clients ∨ ¬ c.uses g) : ¬ InUse t g := by
  rintro (⟨priority, callable, hmem⟩ | ⟨i, hmem, hreturned⟩)
  · rcases hclients _ hmem with hold | hnew
    · exact h (.inl ⟨priority, callable, hold⟩)
    · exact hnew rfl
  · rcases hclients _ hmem with hold | hnew
    · exact h (.inr ⟨i, hold, fun hbefore ↦ hreturned (returnedAt_step hbefore hstep)⟩)
    · exact hnew rfl

theorem clients_fetch (config : ThreadPoolStruct) : (s.fetch config).1.clients = s.clients := by
  unfold Singleton.fetch
  cases s.instance_ <;> rfl

theorem unreachable_step {m : Move} {g : ℕ} (hunreachable : s.instance_ ≠ some g)
    (hg : g < s.pools.length) (hstep : step hardware s m = some t) : t.instance_ ≠ some g := by
  cases stepped hstep with
  | call => exact hunreachable
  | client _ hmove =>
      cases hmove with
      | refused | offered | nothing | failed | absent => exact hunreachable
      | offer | shutdown | destroy => exact hunreachable
      | made => exact fun hsame ↦ hg.ne' (Option.some.inj hsame)
      | got => exact (fetch_ne _ hunreachable hg).1
      | fetch => exact (fetch_ne _ hunreachable hg).1
      | succeeded | destroyed => exact fun hsame ↦ by cases hsame
  | pool => exact hunreachable

/-- Nobody comes to a pool that is neither present nor in use. -/
theorem clients_step {m : Move} {g : ℕ} (hunreachable : s.instance_ ≠ some g)
    (hg : g < s.pools.length) (hunused : ¬ InUse s g) (hstep : step hardware s m = some t) :
    ∀ c ∈ t.clients, c ∈ s.clients ∨ ¬ c.uses g := by
  have hset : ∀ (clients : List Client) (j : ℕ) (c' : Client), clients = s.clients → ¬ c'.uses g →
      ∀ c ∈ clients.set j c', c ∈ s.clients ∨ ¬ c.uses g := by
    rintro _ j c' rfl hc'
    exact Slots.forall_mem_set (fun _ ↦ .inl) (.inr hc')
  cases stepped hstep with
  | call r =>
      intro c hc
      rcases List.mem_append.mp hc with hold | hnew
      · exact .inl hold
      · rw [List.mem_singleton.mp hnew]
        right
        cases r <;> exact id
  | @client j c _ hslot hmove =>
      cases hmove with
      | refused | made | offered | nothing | failed | succeeded | absent | destroyed =>
          exact hset _ j (.returned _) rfl id
      | got => exact hset _ j (.returned true) (clients_fetch _) id
      | @fetch priority callable =>
          have hother := (fetch_ne (fixedSize hardware) hunreachable hg).2
          exact hset _ j (.fetched _ priority callable) (clients_fetch _) hother
      | @offer g' p priority callable =>
          refine hset _ j (.enqueuing g' p.pool.callers.length) rfl ?_
          rintro rfl
          exact hunused (.inl ⟨priority, callable, Slots.mem_of_slot hslot⟩)
      | @shutdown g' p => exact hset _ j (.shuttingDown g' p.pool.callers.length) rfl id
      | @destroy g' p => exact hset _ j (.destroying g' p.pool.callers.length) rfl id
  | pool => exact fun c ↦ .inl

theorem retired_step {m : Move} {g : ℕ} (h : Retired s g)
    (hstep : step hardware s m = some t) : Retired t g := by
  obtain ⟨p, hpool, -⟩ := h.released
  obtain ⟨hg, -⟩ := List.getElem?_eq_some_iff.mp hpool
  have hclients := clients_step h.unreachable hg h.unused hstep
  exact ⟨released_step h.released hstep, unreachable_step h.unreachable hg hstep,
    unused_of_clients h.unused hstep hclients⟩

/-! ## Releases -/

/-- The step that resets the pointer releases the pool, and changes nothing else. -/
theorem releasing_step {j g : ℕ} (h : Releasing s j g)
    (hstep : step hardware s (.client j) = some t) :
    (∃ i c, s.callerAt g i = some c) ∧ ∃ ok, t = (s.reset g).setClient j (.returned ok) := by
  cases stepped hstep with
  | client hslot hmove =>
      cases h with
      | shutdown hclient hcaller =>
          obtain rfl := Option.some.inj (hslot.symm.trans hclient)
          refine ⟨⟨_, _, hcaller⟩, true, ?_⟩
          cases hmove with
          | failed hfailed => cases hcaller.symm.trans hfailed
          | succeeded => rfl
      | destroy hclient hcaller =>
          obtain rfl := Option.some.inj (hslot.symm.trans hclient)
          refine ⟨⟨_, _, hcaller⟩, true, ?_⟩
          cases hmove with
          | destroyed => rfl

theorem released_of_releasing {j g : ℕ} (h : Releasing s j g)
    (hstep : step hardware s (.client j) = some t) :
    ∃ p, s.pools[g]? = some p ∧ t.pools[g]? = some { p with released := true } := by
  obtain ⟨⟨i, c, hcaller⟩, ok, rfl⟩ := releasing_step h hstep
  obtain ⟨p, hpool, -⟩ := Option.bind_eq_some_iff.mp hcaller
  exact ⟨p, hpool, by simp [Singleton.reset, Singleton.setClient, hpool]⟩

theorem retired_of_releasing {j g : ℕ} (h : Releasing s j g) (hunused : ¬ InUse s g)
    (hstep : step hardware s (.client j) = some t) : Retired t g := by
  obtain ⟨-, ok, ht⟩ := releasing_step h hstep
  obtain ⟨p, -, hreleased⟩ := released_of_releasing h hstep
  have hclients : ∀ c ∈ t.clients, c ∈ s.clients ∨ ¬ c.uses g := by
    rw [ht]
    exact Slots.forall_mem_set (fun _ ↦ .inl) (.inr id)
  refine ⟨⟨_, hreleased, rfl⟩, ?_, unused_of_clients hunused hstep hclients⟩
  rw [ht]
  exact fun hsame ↦ by cases hsame

theorem released_set {g g' : ℕ} {p q : Instance} (hpool : s.pools[g']? = some p)
    (h : Released (s.setPool g' q) g) (hsame : q.released = p.released) : Released s g := by
  obtain ⟨r, hr, hreleased⟩ := h
  by_cases hg : g' = g
  · subst hg
    obtain ⟨hlt, -⟩ := List.getElem?_eq_some_iff.mp hpool
    obtain rfl := Option.some.inj ((List.getElem?_set_self hlt).symm.trans hr)
    exact ⟨p, hpool, hsame.symm.trans hreleased⟩
  · exact ⟨r, (List.getElem?_set_ne hg).symm.trans hr, hreleased⟩

theorem released_entered {j g g' : ℕ} {p : Instance} {c : Call} {next : ℕ → Client}
    (hpool : s.pools[g']? = some p) (h : Released (s.entered j g' p c next) g) : Released s g := by
  obtain ⟨r, hr, hreleased⟩ := h
  exact released_set hpool ⟨r, hr, hreleased⟩ rfl

theorem released_make {g : ℕ} (config : ThreadPoolStruct) (h : Released (s.make config) g) :
    Released s g := by
  obtain ⟨r, hr, hreleased⟩ := h
  have happend : (s.pools ++ [⟨config, .start config, false⟩])[g]? = some r := hr
  by_cases hg : g < s.pools.length
  · exact ⟨r, (List.getElem?_append_left hg).symm.trans happend, hreleased⟩
  · rw [List.getElem?_append_right (Nat.le_of_not_lt hg)] at happend
    rw [List.mem_singleton.mp (List.mem_of_getElem? happend)] at hreleased
    cases hreleased

theorem released_fetch {g : ℕ} (config : ThreadPoolStruct)
    (h : Released (s.fetch config).1 g) : Released s g := by
  unfold Singleton.fetch at h
  cases hinstance : s.instance_ with
  | none =>
      rw [hinstance] at h
      exact released_make config h
  | some g' =>
      rw [hinstance] at h
      exact h

theorem released_reset {g g' : ℕ} (hne : g' ≠ g) (h : Released (s.reset g') g) : Released s g := by
  obtain ⟨r, hr, hreleased⟩ := h
  have hmodify : (s.pools.modify g' fun p ↦ { p with released := true })[g]? = some r := hr
  rw [List.getElem?_modify_ne _ _ hne] at hmodify
  exact ⟨r, hmodify, hreleased⟩

/-- Only a client that resets the pointer releases a pool. -/
theorem releasing_of_released {m : Move} {g : ℕ} (hbefore : ¬ Released s g)
    (hafter : Released t g) (hstep : step hardware s m = some t) :
    ∃ j, m = .client j ∧ Releasing s j g := by
  cases stepped hstep with
  | call => exact absurd hafter hbefore
  | @client j c _ hslot hmove =>
      cases hmove with
      | refused | offered | nothing | failed | absent => exact absurd hafter hbefore
      | made => exact absurd (released_make _ hafter) hbefore
      | got => exact absurd (released_fetch _ hafter) hbefore
      | fetch => exact absurd (released_fetch _ hafter) hbefore
      | offer hpool => exact absurd (released_entered hpool hafter) hbefore
      | shutdown _ _ hpool => exact absurd (released_entered hpool hafter) hbefore
      | destroy _ _ hpool => exact absurd (released_entered hpool hafter) hbefore
      | @succeeded g' i moved hcaller =>
          by_cases hg : g' = g
          · subst hg
            exact ⟨j, rfl, .shutdown hslot hcaller⟩
          · exact absurd (released_reset hg hafter) hbefore
      | @destroyed g' i hcaller =>
          by_cases hg : g' = g
          · subst hg
            exact ⟨j, rfl, .destroy hslot hcaller⟩
          · exact absurd (released_reset hg hafter) hbefore
  | pool hpool => exact absurd (released_set hpool hafter rfl) hbefore

/-- **When no destroyed pool is used.**  If in a run no pool is in use at the
moment it is released, then in every state of the run no call of `enqueue` is
inside a pool that was released. -/
theorem safe_run {trace : List (Singleton × Move)} {last : Singleton}
    (hrun : Run (step hardware) start trace last)
    (hreleases : ∀ s j g, (s, .client j) ∈ trace → Releasing s j g → ¬ InUse s g) :
    ∀ g, Released last g → ¬ Operates last g := by
  have hretired : ∀ g, Released last g → Retired last g := by
    refine hrun.invariant (fun u ↦ ∀ g, Released u g → Retired u g) ?_ ?_
    · rintro g ⟨p, hpool, -⟩
      cases hpool
    · intro u m v hmem hu hstep g hreleased
      by_cases hbefore : Released u g
      · exact retired_step (hu g hbefore) hstep
      · obtain ⟨j, rfl, hreleasing⟩ := releasing_of_released hbefore hreleased hstep
        exact retired_of_releasing hreleasing (hreleases u j g hmem hreleasing) hstep
  exact fun g hreleased hoperates ↦ (hretired g hreleased).unused (.inr hoperates)

/-- The condition is needed: a pool that is in use when it is released can be
operated on afterwards. -/
theorem operates_of_inUse {j g : ℕ} (h : Releasing s j g) (huse : InUse s g)
    (hstep : step hardware s (.client j) = some t) :
    ∃ steps last, Run (step hardware) t steps last ∧ Released last g ∧ Operates last g := by
  obtain ⟨-, ok, ht⟩ := releasing_step h hstep
  obtain ⟨p, hpool, hreleased⟩ := released_of_releasing h hstep
  have hother : ∀ (j' : ℕ) (c' : Client), s.clients[j']? = some c' → c'.uses g →
      t.clients[j']? = some c' := by
    intro j' c' hslot huses
    have hne : j ≠ j' := by
      rintro rfl
      cases h with
      | shutdown hclient =>
          obtain rfl := Option.some.inj (hslot.symm.trans hclient)
          exact huses
      | destroy hclient =>
          obtain rfl := Option.some.inj (hslot.symm.trans hclient)
          exact huses
    rw [ht]
    exact (List.getElem?_set_ne hne).trans hslot
  rcases huse with ⟨priority, callable, hmem⟩ | ⟨i', hmem, hinside⟩
  · obtain ⟨j', hslot⟩ := List.mem_iff_getElem?.mp hmem
    have hfetched := hother j' _ hslot rfl
    have hoffer : step hardware t (.client j') = some (t.entered j' g { p with released := true }
        (.enqueue priority callable) (.enqueuing g)) := by
      simp only [step, hfetched, Option.bind_some, stepClient, Singleton.enter, hreleased]
      rfl
    refine ⟨_, _, .cons hoffer .nil, ?_, p.pool.callers.length, Slots.mem_set_self hfetched _, ?_⟩
    · obtain ⟨hg, -⟩ := List.getElem?_eq_some_iff.mp hreleased
      exact ⟨_, List.getElem?_set_self hg, rfl⟩
    · rintro ⟨priority', callable', task, hreturned⟩
      obtain ⟨hg, -⟩ := List.getElem?_eq_some_iff.mp hreleased
      have hpool' : (t.entered j' g { p with released := true } (.enqueue priority callable)
          (.enqueuing g)).pools[g]? = some _ := List.getElem?_set_self hg
      rw [callerAt_of_pool hpool'] at hreturned
      simp [Call.begin] at hreturned
  · obtain ⟨j', hslot⟩ := List.mem_iff_getElem?.mp hmem
    refine ⟨[], t, .nil, ⟨_, hreleased, rfl⟩, i', Slots.mem_of_slot (hother j' _ hslot rfl), ?_⟩
    rintro ⟨priority, callable, task, hreturned⟩
    rw [callerAt_of_pool hreleased] at hreturned
    exact hinside ⟨priority, callable, task, (callerAt_of_pool hpool).trans hreturned⟩

/-- Behind `getInstance` with some pool. -/
def Client.behind : Client → Bool
  | fetched _ _ _ | enqueuing _ _ => true
  | _ => false

theorem not_inUse_of_behind {g : ℕ} (h : ∀ c ∈ s.clients, c.behind = false) : ¬ InUse s g := by
  rintro (⟨priority, callable, hmem⟩ | ⟨i, hmem, -⟩)
  · cases h _ hmem
  · cases h _ hmem

theorem Releasing.holdsMutex {j g : ℕ} (h : Releasing s j g) :
    ∃ c ∈ s.clients, c.holdsMutex = true := by
  cases h with
  | shutdown hclient => exact ⟨_, Slots.mem_of_slot hclient, rfl⟩
  | destroy hclient => exact ⟨_, Slots.mem_of_slot hclient, rfl⟩

/-- A pool is made, and an `enqueue` has got its reference to it. -/
def fetching : List Move :=
  [.call (.init ⟨1, 1, 0⟩), .client 0, .call (.enqueue .normal .returned), .client 1]

/-- Client 2 destroys the pool, being its caller `i`. -/
def destroyingAs (i : ℕ) : List Move :=
  [.call .destroy, .client 2, .pool 0 (.caller i .clear), .pool 0 (.caller i .notify),
    .pool 0 (.worker 0 .test), .pool 0 (.worker 0 (.act false)), .pool 0 (.caller i .join),
    .client 2]

/-- The task is submitted before the pool is destroyed. -/
def inTurn : List Move :=
  fetching ++ [.client 1, .pool 0 (.caller 0 (.offer false)), .pool 0 (.caller 0 (.signal none)),
    .client 1] ++ destroyingAs 1

def inTurnRun : List (Singleton × Move) × Singleton := executed (step 1) start inTurn

theorem released_of_any {g : ℕ} (h : s.pools[g]?.any Instance.released = true) : Released s g :=
  (Option.any_eq_true _ _).mp h

theorem safe_run_inTurn : Released inTurnRun.2 0 ∧ ¬ Operates inTurnRun.2 0 := by
  have hrun : Run (step 1) start inTurnRun.1 inTurnRun.2 := Run.of_isSome (by decide +kernel)
  have hreleased : Released inTurnRun.2 0 := released_of_any (by decide +kernel)
  have hturns : ∀ e ∈ inTurnRun.1, (∃ c ∈ e.1.clients, c.holdsMutex = true) →
      ∀ c ∈ e.1.clients, c.behind = false := by
    decide +kernel
  refine ⟨hreleased, safe_run hrun (fun s j g hmem hreleasing ↦ ?_) 0 hreleased⟩
  exact not_inUse_of_behind (hturns _ hmem hreleasing.holdsMutex)

/-- The pool is destroyed between `getInstance` and the submission. -/
def crossing : List Move := fetching ++ destroyingAs 0 ++ [.client 1]

def crossingRun : List (Singleton × Move) × Singleton := executed (step 1) start crossing

theorem not_safe_crossing :
    ∃ trace last, Run (step 1) start trace last ∧ Released last 0 ∧ Operates last 0 := by
  refine ⟨crossingRun.1, crossingRun.2, Run.of_isSome (by decide +kernel),
    released_of_any (by decide +kernel), 1, by decide +kernel, ?_⟩
  rintro ⟨priority, callable, task, hreturned⟩
  have hinside :
      crossingRun.2.callerAt 0 1 = some (.enqueue .normal .returned (.locking false)) := by
    decide +kernel
  cases hinside.symm.trans hreturned

end MyRpc.ThreadPoolSingleton
