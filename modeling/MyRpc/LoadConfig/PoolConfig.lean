import MyRpc.LoadConfig.RpcServerConfig
import MyRpc.ThreadPool.ThreadPool

/-!
# The thread pool of a configuration

`main` builds the pool from the numbers of the configuration.  These have been
narrowed before they were checked, and are zero if there is no section for the
pool.  An accepted document gives the pool it describes exactly when it has that
section, and in it no number that the field cannot hold (`proper_iff`).
-/

namespace MyRpc.LoadConfig

open Json ThreadPool

/-- `ThreadPoolStruct` with its fourth field, in milliseconds. -/
structure PoolConfig extends ThreadPoolStruct where
  keepAliveTime : ℕ
  deriving DecidableEq, Repr

/-- The `pool_config` of `main`. -/
def ThreadPoolConfig.poolConfig (c : ThreadPoolConfig) : PoolConfig where
  coreThreads := c.coreThreads.toNat
  maxThreads := c.maxThreads.toNat
  maxQueueSize := c.queueSize.toNat
  keepAliveTime := 1000 * c.keepAliveTime.toNat

/-- A value of the section for the pool. -/
def poolEntry (document : Json) (key : String) : Option Json :=
  (document.find "thread_pool").bind fun section_ ↦ section_.find key

/-- The number is the integer that is written in an entry, or the default without one.  A
float counts as no integer, also one like 4.0 that has the value of one, and so does a
boolean, though `get` converts both to a number. -/
def IsWritten (default n : ℕ) : Option Json → Prop
  | none => n = default
  | some (.integer written) => (n : ℤ) = written
  | some _ => False

/-- An entry is not there, or it is an integer from 0 to below the bound; a float and a
boolean never fit. -/
def Fits (bound : ℕ) : Option Json → Prop
  | none => True
  | some (.integer written) => 0 ≤ written ∧ written < bound
  | some _ => False

/-- A working pool with the numbers of the document. -/
structure Proper (document : Json) (pool : PoolConfig) : Prop where
  coreThreads_pos : 1 ≤ pool.coreThreads
  coreThreads_le : pool.coreThreads ≤ pool.maxThreads
  maxQueueSize_pos : 1 ≤ pool.maxQueueSize
  keepAliveTime_pos : 0 < pool.keepAliveTime
  maxThreads : IsWritten 10 pool.maxThreads (poolEntry document "max_threads")
  coreThreads : IsWritten pool.maxThreads pool.coreThreads (poolEntry document "core_threads")
  maxQueueSize : IsWritten 100 pool.maxQueueSize (poolEntry document "queue_size")
  keepAliveTime : ∃ seconds, pool.keepAliveTime = 1000 * seconds ∧
    IsWritten 60 seconds (poolEntry document "keep_alive_time")

/-- There is a section for the pool, and its entries are integers that their fields can hold. -/
structure InRange (document : Json) : Prop where
  present : document.contains "thread_pool" = true
  maxThreads : Fits (2 ^ 16) (poolEntry document "max_threads")
  coreThreads : Fits (2 ^ 16) (poolEntry document "core_threads")
  maxQueueSize : Fits (2 ^ 32) (poolEntry document "queue_size")
  keepAliveTime : Fits (2 ^ 32) (poolEntry document "keep_alive_time")

/-! ## Conversions -/

theorem toNat_ofInt16 (n : ℤ) : ((UInt16.ofInt n).toNat : ℤ) = n % (2 ^ 16 : ℕ) := by
  simp [UInt16.ofInt]
  omega

theorem toNat_ofInt32 (n : ℤ) : ((UInt32.ofInt n).toNat : ℤ) = n % (2 ^ 32 : ℕ) := by
  simp [UInt32.ofInt]
  omega

/-- An `int` has kept the remainder that the narrower and unsigned types go by. -/
theorem toInt_ofInt_emod {k : ℕ} (h : k ∣ 2 ^ 32) (n : ℤ) : (Int32.ofInt n).toInt % k = n % k := by
  have hsize : (k : ℤ) ∣ Int32.size := Int.natCast_dvd_natCast.mpr h
  rw [Int32.toInt_ofInt, ← Int.emod_emod_of_dvd _ hsize, Int.bmod_emod,
    Int.emod_emod_of_dvd _ hsize]

theorem emod_eq_self_iff {bound : ℕ} (hpos : 0 < bound) {n : ℤ} :
    n % bound = n ↔ 0 ≤ n ∧ n < bound := by
  have hpos' : (0 : ℤ) < bound := by exact_mod_cast hpos
  constructor
  · intro h
    rw [← h]
    exact ⟨Int.emod_nonneg n hpos'.ne', Int.emod_lt_of_pos n hpos'⟩
  · exact fun h ↦ Int.emod_eq_of_lt h.1 h.2

/-- What is read, and what is kept of it, under the key of a field. -/
theorem isWritten_iff_fits {α : Type} {truncate : ℚ → ℤ} {convert : ℤ → α} (toNat : α → ℕ)
    {bound : ℕ} (hpos : 0 < bound) (hconvert : ∀ n, (toNat (convert n) : ℤ) = n % bound)
    {config : Json} {key : String} {default v : α} {n : ℕ} (hdefault : toNat default = n)
    (h : config.value (fun entry ↦ (entry.getNumber truncate).map convert) key default = some v) :
    IsWritten n (toNat v) (config.find key) ↔ Fits bound (config.find key) := by
  cases config with
  | object members =>
      simp only [value, find] at h ⊢
      cases hentry : members.lookup key with
      | none =>
          rw [hentry] at h
          cases h
          exact iff_of_true hdefault trivial
      | some entry =>
          rw [hentry] at h
          obtain ⟨number, hn, rfl⟩ := Option.map_eq_some_iff.mp h
          cases entry with
          | integer written =>
              cases hn
              rw [IsWritten, hconvert]
              exact emod_eq_self_iff hpos
          | null | boolean b | float q | string s | array elements | object inner => exact Iff.rfl
  | null | boolean b | integer n | float q | string s | array elements => cases h

/-! ## An accepted section -/

namespace ThreadPoolConfig

theorem init_eq_true {truncate : ℚ → ℤ} {config : Json} {self c : ThreadPoolConfig}
    (h : init truncate config self = (true, c)) :
    ∃ maxThreads coreThreads queueSize keepAliveTime,
      config.value (getInt truncate) "max_threads" 10 = some maxThreads ∧
      config.value (getUInt16 truncate) "core_threads" c.maxThreads = some coreThreads ∧
      config.value (getInt truncate) "queue_size" 100 = some queueSize ∧
      config.value (getInt truncate) "keep_alive_time" 60 = some keepAliveTime ∧
      c = ⟨UInt16.ofInt maxThreads.toInt, UInt32.ofInt queueSize.toInt,
        UInt32.ofInt keepAliveTime.toInt, coreThreads⟩ ∧
      c.maxThreads ≠ 0 ∧ c.coreThreads ≠ 0 ∧ c.coreThreads ≤ c.maxThreads ∧ c.queueSize ≠ 0 ∧
        c.keepAliveTime ≠ 0 := by
  simp only [init, andThen_eq_true, readField_eq_true, decide_eq_true_eq] at h
  obtain ⟨-, ⟨maxThreads, hmax, hmaxValid, rfl⟩, -, ⟨coreThreads, hcore, hcoreValid, rfl⟩,
    -, ⟨queueSize, hqueue, hqueueValid, rfl⟩, keepAliveTime, hkeep, hkeepValid, rfl⟩ := h
  rw [not_or, gt_iff_lt, UInt16.not_lt] at hcoreValid
  exact ⟨maxThreads, coreThreads, queueSize, keepAliveTime, hmax, hcore, hqueue, hkeep, rfl,
    hmaxValid, hcoreValid.1, hcoreValid.2, hqueueValid, hkeepValid⟩

/-- What an accepted section makes of the numbers in it. -/
theorem isWritten_iff {truncate : ℚ → ℤ} {config : Json} {self c : ThreadPoolConfig}
    (h : init truncate config self = (true, c)) :
    (IsWritten 10 c.maxThreads.toNat (config.find "max_threads") ↔
        Fits (2 ^ 16) (config.find "max_threads")) ∧
      (IsWritten c.maxThreads.toNat c.coreThreads.toNat (config.find "core_threads") ↔
        Fits (2 ^ 16) (config.find "core_threads")) ∧
      (IsWritten 100 c.queueSize.toNat (config.find "queue_size") ↔
        Fits (2 ^ 32) (config.find "queue_size")) ∧
      (IsWritten 60 c.keepAliveTime.toNat (config.find "keep_alive_time") ↔
        Fits (2 ^ 32) (config.find "keep_alive_time")) := by
  obtain ⟨maxThreads, coreThreads, queueSize, keepAliveTime, hmax, hcore, hqueue, hkeep, hc, -⟩ :=
    init_eq_true h
  have hint16 : ∀ n, ((UInt16.ofInt (Int32.ofInt n).toInt).toNat : ℤ) = n % (2 ^ 16 : ℕ) := by
    intro n
    rw [toNat_ofInt16, toInt_ofInt_emod (by decide)]
  have hint32 : ∀ n, ((UInt32.ofInt (Int32.ofInt n).toInt).toNat : ℤ) = n % (2 ^ 32 : ℕ) := by
    intro n
    rw [toNat_ofInt32, toInt_ofInt_emod (by decide)]
  refine ⟨?_, ?_, ?_, ?_⟩
  · have hiff := @isWritten_iff_fits Int32 truncate Int32.ofInt
      (fun v ↦ (UInt16.ofInt v.toInt).toNat) (2 ^ 16) (by decide) hint16 config _ 10 maxThreads 10
      (by decide +kernel) hmax
    rwa [hc]
  · have hiff := isWritten_iff_fits UInt16.toNat (by decide) toNat_ofInt16 rfl hcore
    rwa [hc] at hiff ⊢
  · have hiff := @isWritten_iff_fits Int32 truncate Int32.ofInt
      (fun v ↦ (UInt32.ofInt v.toInt).toNat) (2 ^ 32) (by decide) hint32 config _ 100 queueSize 100
      (by decide +kernel) hqueue
    rwa [hc]
  · have hiff := @isWritten_iff_fits Int32 truncate Int32.ofInt
      (fun v ↦ (UInt32.ofInt v.toInt).toNat) (2 ^ 32) (by decide) hint32 config _ 60 keepAliveTime
      60 (by decide +kernel) hkeep
    rwa [hc]

end ThreadPoolConfig

/-! ## An accepted document -/

namespace Server

/-- A part of the configuration that leaves the pool alone. -/
def LeavesPool (part : Server → Bool × Server) : Prop :=
  ∀ self last, part self = (true, last) →
    last.config.threadPoolConfig = self.config.threadPoolConfig

theorem leavesPool_andThen {first second : Server → Bool × Server} (hfirst : LeavesPool first)
    (hsecond : LeavesPool second) : LeavesPool (andThen first second) := by
  intro self last h
  obtain ⟨middle, hmiddle, hlast⟩ := andThen_eq_true.mp h
  exact (hsecond middle last hlast).trans (hfirst self middle hmiddle)

theorem leavesPool_setting {α : Type} {get : Json → Option α} {config : Json} {key : String}
    {default : α} {set : α → RpcServerConfig → RpcServerConfig}
    (hset : ∀ v c, (set v c).threadPoolConfig = c.threadPoolConfig) :
    LeavesPool (setting get config key default set) := by
  intro self last h
  obtain ⟨v, -, -, rfl⟩ := readField_eq_true.mp h
  exact hset v self.config

theorem leavesPool_initBasic (truncate : ℚ → ℤ) (config : Json) :
    LeavesPool (initBasic truncate config) :=
  leavesPool_andThen (leavesPool_setting fun _ _ ↦ rfl)
    (leavesPool_andThen (leavesPool_setting fun _ _ ↦ rfl)
      (leavesPool_andThen (leavesPool_setting fun _ _ ↦ rfl)
        (leavesPool_andThen (leavesPool_setting fun _ _ ↦ rfl)
          (leavesPool_setting fun _ _ ↦ rfl))))

theorem leavesPool_initRegistry (env : Env) (config : Json) :
    LeavesPool (initRegistry env config) := by
  intro self last h
  unfold initRegistry at h
  split at h
  · split at h
    · cases h
    · obtain ⟨-, rfl⟩ := Prod.mk.inj h
      rfl
  · cases h
    rfl

theorem leavesPool_initScheduler (env : Env) (config : Json) :
    LeavesPool (initScheduler env config) := by
  intro self last h
  unfold initScheduler at h
  split at h
  · cases h
    rfl
  · obtain ⟨-, rfl⟩ := Prod.mk.inj h
    rfl

theorem leavesPool_initBalancer (config : Json) : LeavesPool (initBalancer config) := by
  intro self last h
  unfold initBalancer at h
  split at h
  · cases h
    rfl
  · split at h
    · cases h
    · obtain ⟨-, rfl⟩ := Prod.mk.inj h
      rfl

/-- The pool of an accepted document is that of its section, or the one that was there. -/
theorem threadPool_of_init {env : Env} {document : Json} {self last : Server}
    (h : init env (.parsed document) self = (true, last)) :
    match document.find "thread_pool" with
    | none => last.config.threadPoolConfig = self.config.threadPoolConfig
    | some section_ =>
        ThreadPoolConfig.init env.truncate section_ self.config.threadPoolConfig =
          (true, last.config.threadPoolConfig) := by
  obtain ⟨basic, hbasic, h⟩ := andThen_eq_true.mp h
  obtain ⟨registry, hregistry, h⟩ := andThen_eq_true.mp h
  obtain ⟨pool, hpool, h⟩ := andThen_eq_true.mp h
  have hbefore : registry.config.threadPoolConfig = self.config.threadPoolConfig :=
    (leavesPool_initRegistry env document _ _ hregistry).trans
      (leavesPool_initBasic env.truncate document _ _ hbasic)
  have hafter : last.config.threadPoolConfig = pool.config.threadPoolConfig :=
    leavesPool_andThen (leavesPool_initScheduler env document) (leavesPool_initBalancer document)
      _ _ h
  unfold initThreadPool at hpool
  cases hsection : document.find "thread_pool" with
  | none =>
      rw [hsection] at hpool
      cases hpool
      exact hafter.trans hbefore
  | some section_ =>
      rw [hsection] at hpool
      simp only [Prod.mk.injEq] at hpool
      obtain ⟨hok, rfl⟩ := hpool
      show ThreadPoolConfig.init env.truncate section_ self.config.threadPoolConfig = _
      rw [hafter, ← hbefore]
      exact Prod.ext hok rfl

/-- Without a section for the pool, a document that is accepted gives a pool without a worker. -/
theorem poolConfig_of_missing {env : Env} {document : Json} {handler : ZkConnHandler.Handler}
    {balancer : Option LoadBalancer.Balancer} {last : Server}
    (h : init env (.parsed document) (fresh handler balancer) = (true, last))
    (hmissing : document.find "thread_pool" = none) :
    last.config.threadPoolConfig.poolConfig = ⟨⟨0, 0, 0⟩, 0⟩ ∧
      (Pool.start last.config.threadPoolConfig.poolConfig.toThreadPoolStruct).workers = [] := by
  have hpool := threadPool_of_init h
  rw [hmissing] at hpool
  rw [hpool]
  exact ⟨rfl, rfl⟩

/-- **Which accepted configurations give the pool they describe.**  When a
document is accepted, the pool of `main` works and has the numbers of the
document exactly when there is a section for it, whose entries are integers that
their fields can hold. -/
theorem proper_iff {env : Env} {document : Json} {handler : ZkConnHandler.Handler}
    {balancer : Option LoadBalancer.Balancer} {last : Server}
    (h : init env (.parsed document) (fresh handler balancer) = (true, last)) :
    Proper document last.config.threadPoolConfig.poolConfig ↔ InRange document := by
  cases hsection : document.find "thread_pool" with
  | none =>
      have hpool := (poolConfig_of_missing h hsection).1
      rw [hpool]
      refine iff_of_false (fun hproper ↦ ?_) fun hrange ↦ ?_
      · exact absurd hproper.coreThreads_pos (by decide)
      · have hpresent := hrange.present
        simp [contains, hsection] at hpresent
  | some section_ =>
      have hpool := threadPool_of_init h
      rw [hsection] at hpool
      have hentry : ∀ key, poolEntry document key = section_.find key := by
        intro key
        rw [poolEntry, hsection]
        rfl
      obtain ⟨hmax, hcore, hqueue, hkeep⟩ := ThreadPoolConfig.isWritten_iff hpool
      obtain ⟨-, -, -, -, -, -, -, -, -, hmaxPos, hcorePos, hle, hqueuePos, hkeepPos⟩ :=
        ThreadPoolConfig.init_eq_true hpool
      simp only [← hentry] at hmax hcore hqueue hkeep
      constructor
      · intro hproper
        obtain ⟨seconds, hseconds, hwritten⟩ := hproper.keepAliveTime
        rw [← Nat.mul_left_cancel (by decide) hseconds] at hwritten
        exact ⟨by simp [contains, hsection], hmax.mp hproper.maxThreads,
          hcore.mp hproper.coreThreads, hqueue.mp hproper.maxQueueSize, hkeep.mp hwritten⟩
      · intro hrange
        exact
          { coreThreads_pos := Nat.pos_of_ne_zero fun h ↦ hcorePos (UInt16.toNat_inj.mp h)
            coreThreads_le := UInt16.le_iff_toNat_le.mp hle
            maxQueueSize_pos := Nat.pos_of_ne_zero fun h ↦ hqueuePos (UInt32.toNat_inj.mp h)
            keepAliveTime_pos := Nat.mul_pos (by decide)
              (Nat.pos_of_ne_zero fun h ↦ hkeepPos (UInt32.toNat_inj.mp h))
            maxThreads := hmax.mpr hrange.maxThreads
            coreThreads := hcore.mpr hrange.coreThreads
            maxQueueSize := hqueue.mpr hrange.maxQueueSize
            keepAliveTime := ⟨_, rfl, hkeep.mpr hrange.keepAliveTime⟩ }

/-- Nothing outside is needed for a document without sections for ZooKeeper and the registry. -/
def bare : Env := ⟨fun q ↦ q.num.tdiv q.den, fun _ ↦ .missing, ⟨false, fun _ ↦ .connecting⟩⟩

/-- `{"thread_pool": {"max_threads": n}, "load_balance_strategy": "round"}`. -/
def withMaxThreads (n : ℤ) : Json :=
  .object [("thread_pool", .object [("max_threads", .integer n)]),
    ("load_balance_strategy", .string "round")]

theorem poolEntry_withMaxThreads (n : ℤ) :
    poolEntry (withMaxThreads n) "max_threads" = some (.integer n) ∧
      ∀ key ∈ ["core_threads", "queue_size", "keep_alive_time"],
        poolEntry (withMaxThreads n) key = none := by
  simp [poolEntry, withMaxThreads, find, List.lookup]

theorem proper_iff_four :
    Proper (withMaxThreads 4) (init bare (.parsed (withMaxThreads 4))
      (fresh ZkConnHandler.start none)).2.config.threadPoolConfig.poolConfig := by
  have haccepted : (init bare (.parsed (withMaxThreads 4))
      (fresh ZkConnHandler.start none)).1 = true := by decide +kernel
  obtain ⟨hmax, hrest⟩ := poolEntry_withMaxThreads 4
  refine (proper_iff (Prod.ext haccepted rfl)).mpr ⟨by decide, ?_, ?_, ?_, ?_⟩
  · rw [hmax]
    exact ⟨by decide, by decide⟩
  · rw [hrest _ (by simp)]
    exact trivial
  · rw [hrest _ (by simp)]
    exact trivial
  · rw [hrest _ (by simp)]
    exact trivial

theorem not_proper_wrapped :
    (init bare (.parsed (withMaxThreads 65537)) (fresh ZkConnHandler.start none)).1 = true ∧
      ¬ Proper (withMaxThreads 65537) (init bare (.parsed (withMaxThreads 65537))
        (fresh ZkConnHandler.start none)).2.config.threadPoolConfig.poolConfig := by
  refine ⟨by decide +kernel, fun h ↦ ?_⟩
  have hone : (init bare (.parsed (withMaxThreads 65537))
      (fresh ZkConnHandler.start none)).2.config.threadPoolConfig.poolConfig.maxThreads = 1 := by
    decide +kernel
  have hwritten := h.maxThreads
  rw [hone, (poolEntry_withMaxThreads 65537).1] at hwritten
  have hequal : (1 : ℤ) = 65537 := hwritten
  omega

end Server

end MyRpc.LoadConfig
