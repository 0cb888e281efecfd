import MyRpc.Library.FixedWidth
import MyRpc.Library.PartialRun

/-!
# `ZkConnHandler` and its session

The handler keeps one handle of the ZooKeeper client.  It opens one when it has
none, and `cleanup` closes it when it cannot be used; but `cleanup` does that
once in the life of the process.  The handles are numbered in the order they
are opened.  What ZooKeeper answers is a parameter of each call.
-/

namespace MyRpc.ZkConnHandler

open FixedWidth PartialRun

inductive ZooState
  | connected
  | connecting
  | expiredSession
  | authFailed
  | associating
  | other
  deriving DecidableEq, Repr

/-- What a call meets: whether `zookeeper_init` gives it a handle, and what
`zoo_state` says each time. -/
structure Zoo where
  init : Bool
  poll : ℕ → ZooState

/-- A field of the configuration; `value` throws for one of another type. -/
inductive Field (α : Type)
  | absent
  | malformed
  | value (a : α)
  deriving DecidableEq, Repr

def Field.get {α : Type} (default : α) : Field α → Option α
  | absent => some default
  | malformed => none
  | value a => some a

inductive Config
  | empty
  | object (zkHost : Field String) (zkPort : Field ℤ) (zkNamespace : Field String)
      (zkRetryInterval : Field ℤ)
  deriving DecidableEq, Repr

/-- `opened` are the connection strings of all handles, and `cleanupDone` is
the static flag of `cleanup`. -/
structure Handler where
  zkHost : String
  zkPort : ℤ
  zkNamespace : String
  retryInterval : ℤ
  zkClient : Option ℕ
  serviceRegistry : Bool
  running : Bool
  cleanupDone : Bool
  opened : List String
  closed : List ℕ
  deriving DecidableEq, Repr

def start : Handler :=
  { zkHost := ""
    zkPort := 0
    zkNamespace := ""
    retryInterval := 0
    zkClient := none
    serviceRegistry := false
    running := false
    cleanupDone := false
    opened := []
    closed := [] }

namespace Handler

def setZkHost (h : Handler) (host : String) : Handler :=
  { h with zkHost := if host = "" then "localhost" else host }

def setZkPort (h : Handler) (port : ℤ) : Handler :=
  { h with zkPort := if 0 < port ∧ port < 65536 then port else 2181 }

def connString (h : Handler) : String := h.zkHost ++ ":" ++ toString h.zkPort

def cleanup (h : Handler) : Handler :=
  if h.cleanupDone then h
  else
    { h with
      cleanupDone := true
      serviceRegistry := false
      zkClient := none
      closed := h.closed ++ h.zkClient.toList
      running := false }

/-- `zookeeper_init` with a handle as its result. -/
def opening (h : Handler) : Handler :=
  { h with
    zkClient := some h.opened.length
    opened := h.opened ++ [h.connString] }

end Handler

def maxRetries : ℕ := 3

/-- The loop of `ensureZkConnection` with `rounds` left to go. -/
def awaitConnection (poll : ℕ → ZooState) (h : Handler) : ℕ → ℕ → Bool × Handler
  | 0, _ => (false, h.cleanup)
  | rounds + 1, retryCount =>
      let state := poll retryCount
      let retryCount := retryCount + 1
      if state = .connected then (true, h)
      else if state = .expiredSession ∨ state = .authFailed ∨
          (state ≠ .connecting ∧ 10 < retryCount) then
        (false, h.cleanup)
      else awaitConnection poll h rounds retryCount

def ensureZkConnection (z : Zoo) (h : Handler) : Bool × Handler :=
  if h.zkClient = none then
    if z.init then awaitConnection z.poll h.opening maxRetries 0
    else (false, h)
  else awaitConnection z.poll h maxRetries 0

/-- The `try` around the fields of the configuration: whether it came to its
end, and the handler it leaves. -/
def readConfig (h : Handler) (zkHost : Field String) (zkPort : Field ℤ)
    (zkNamespace : Field String) (zkRetryInterval : Field ℤ) : Bool × Handler :=
  match zkHost.get "localhost" with
  | none => (false, h)
  | some host =>
      let h := h.setZkHost host
      match zkPort.get 2181 with
      | none => (false, h)
      | some port =>
          let h := h.setZkPort port
          match zkNamespace.get "/myrpc" with
          | none => (false, h)
          | some zkNamespace =>
              let h := { h with zkNamespace }
              match zkRetryInterval.get 5 with
              | none => (false, h)
              | some retryInterval => (true, { h with retryInterval })

def initZkConnHandler (config : Config) (z : Zoo) (h : Handler) : Bool × Handler :=
  match config with
  | .empty => (false, h)
  | .object zkHost zkPort zkNamespace zkRetryInterval =>
      let (parsed, h) := readConfig h zkHost zkPort zkNamespace zkRetryInterval
      if parsed then
        let (isConnected, h) := ensureZkConnection z h
        if h.zkClient = none then (false, h)
        else if isConnected then (true, h)
        else (false, h)
      else (false, h.cleanup)

/-- What is read behind a call of `ensureZkConnection`: `children` is what
`zoo_get_children` finds, each with the data that `zoo_get` copies for it. -/
def lookup (available : Bool) (children : Option (List (Option Bytes))) : List Bytes :=
  if available then
    match children with
    | none => []
    | some nodes => nodes.filterMap fun data ↦ data.filter (· ≠ [])
  else []

def getAllServers (z : Zoo) (children : Option (List (Option Bytes))) (h : Handler) :
    List Bytes × Handler :=
  let (available, h) := ensureZkConnection z h
  (lookup available children, h)

inductive Call
  | initZkConnHandler (config : Config) (z : Zoo)
  | getAllServers (z : Zoo) (children : Option (List (Option Bytes)))
  | cleanup

def step (h : Handler) : Call → Option Handler
  | .initZkConnHandler config z => some (initZkConnHandler config z h).2
  | .getAllServers z children => some (getAllServers z children h).2
  | .cleanup => some h.cleanup

/-- The call of `ensureZkConnection` inside of a call, and the handler it finds. -/
def Call.ensures (h : Handler) : Call → Option (Zoo × Handler)
  | .initZkConnHandler (.object zkHost zkPort zkNamespace zkRetryInterval) z =>
      match readConfig h zkHost zkPort zkNamespace zkRetryInterval with
      | (true, h) => some (z, h)
      | (false, _) => none
  | .getAllServers z _ => some (z, h)
  | _ => none

theorem ne_nil_of_mem_lookup {available : Bool} {children : Option (List (Option Bytes))}
    {server : Bytes} (h : server ∈ lookup available children) : server ≠ [] := by
  unfold lookup at h
  split at h
  · cases children with
    | none => cases h
    | some nodes =>
        obtain ⟨data, -, hdata⟩ := List.mem_filterMap.mp h
        simpa using (Option.filter_eq_some_iff.mp hdata).2
  · cases h

/-! ## Recovery -/

def ZooState.unrecoverable (state : ZooState) : Prop :=
  state = .expiredSession ∨ state = .authFailed

/-- Within the retries ZooKeeper is found connected, and not lost before that. -/
def Connects (z : Zoo) : Prop :=
  ∃ k < maxRetries, z.poll k = .connected ∧ ∀ j < k, ¬ (z.poll j).unrecoverable

/-- After a call of `ensureZkConnection` there is a handle in the connected
state, or no handle, and all that were opened are closed. -/
structure Recovers (z : Zoo) (result : Bool × Handler) : Prop where
  connected : result.1 = true → Connects z ∧
    ∃ handle, result.2.zkClient = some handle ∧ handle ∉ result.2.closed
  failed : result.1 = false → result.2.zkClient = none ∧
    ∀ handle < result.2.opened.length, handle ∈ result.2.closed

/-- A call that fails has still its `cleanup`, or has no handle. -/
def Recoverable (z : Zoo) (h : Handler) : Prop :=
  h.cleanupDone = false ∨ (h.zkClient = none ∧ z.init = false) ∨ Connects z

/-- The present handle is open, and every other one is closed. -/
structure Inv (h : Handler) : Prop where
  current : ∀ handle, h.zkClient = some handle → handle < h.opened.length ∧ handle ∉ h.closed
  accounted : ∀ handle < h.opened.length, h.zkClient = some handle ∨ handle ∈ h.closed
  known : ∀ handle ∈ h.closed, handle < h.opened.length

/-! ## One call -/

/-- The loop finds ZooKeeper connected in one of its rounds from `retryCount` on. -/
def ConnectsFrom (poll : ℕ → ZooState) (rounds retryCount : ℕ) : Prop :=
  ∃ k < rounds, poll (retryCount + k) = .connected ∧
    ∀ j < k, ¬ (poll (retryCount + j)).unrecoverable

theorem connectsFrom_succ {poll : ℕ → ZooState} {rounds retryCount : ℕ} :
    ConnectsFrom poll (rounds + 1) retryCount ↔ poll retryCount = .connected ∨
      ¬ (poll retryCount).unrecoverable ∧ ConnectsFrom poll rounds (retryCount + 1) := by
  constructor
  · rintro ⟨k, hk, hconnected, hbefore⟩
    cases k with
    | zero => exact .inl hconnected
    | succ k =>
        refine .inr ⟨hbefore 0 (Nat.succ_pos k), k, by omega, ?_, fun j hj ↦ ?_⟩
        · rwa [Nat.add_assoc, Nat.add_comm 1 k]
        · have hearlier := hbefore (j + 1) (by omega)
          rwa [Nat.add_assoc, Nat.add_comm 1 j]
  · rintro (hconnected | ⟨hfirst, k, hk, hconnected, hbefore⟩)
    · exact ⟨0, Nat.succ_pos _, hconnected, fun j hj ↦ by omega⟩
    · refine ⟨k + 1, by omega, ?_, fun j hj ↦ ?_⟩
      · rwa [Nat.add_comm k 1, ← Nat.add_assoc]
      · cases j with
        | zero => exact hfirst
        | succ j =>
            rw [Nat.add_comm j 1, ← Nat.add_assoc]
            exact hbefore j (by omega)

/-- The branch for many retries is not reached with this few of them. -/
theorem awaitConnection_eq {poll : ℕ → ZooState} {h : Handler} {rounds retryCount : ℕ}
    (hbound : retryCount + rounds ≤ maxRetries) :
    (ConnectsFrom poll rounds retryCount ∧
        awaitConnection poll h rounds retryCount = (true, h)) ∨
      (¬ ConnectsFrom poll rounds retryCount ∧
        awaitConnection poll h rounds retryCount = (false, h.cleanup)) := by
  induction rounds generalizing retryCount with
  | zero =>
      right
      refine ⟨?_, rfl⟩
      rintro ⟨k, hk, -⟩
      omega
  | succ rounds ih =>
      have hfew : ¬ 10 < retryCount + 1 := by
        unfold maxRetries at hbound
        omega
      simp only [awaitConnection, connectsFrom_succ, ZooState.unrecoverable, hfew, and_false,
        or_false]
      by_cases hconnected : poll retryCount = .connected
      · rw [if_pos hconnected]
        exact .inl ⟨.inl hconnected, rfl⟩
      rw [if_neg hconnected]
      by_cases hlost : poll retryCount = .expiredSession ∨ poll retryCount = .authFailed
      · rw [if_pos hlost]
        exact .inr ⟨by simp [hconnected, hlost], rfl⟩
      · rw [if_neg hlost]
        rcases @ih (retryCount + 1) (by omega) with ⟨hlater, heq⟩ | ⟨hnever, heq⟩
        · exact .inl ⟨.inr ⟨hlost, hlater⟩, heq⟩
        · exact .inr ⟨by simp [hconnected, hnever], heq⟩

theorem connects_iff {z : Zoo} : Connects z ↔ ConnectsFrom z.poll maxRetries 0 := by
  simp only [Connects, ConnectsFrom, Nat.zero_add]

/-- The loop returns true with the handle it has, or false behind `cleanup`. -/
theorem awaitConnection_cases (z : Zoo) (h : Handler) :
    (Connects z ∧ awaitConnection z.poll h maxRetries 0 = (true, h)) ∨
      (¬ Connects z ∧ awaitConnection z.poll h maxRetries 0 = (false, h.cleanup)) := by
  rw [connects_iff]
  exact awaitConnection_eq (by omega)

/-! ## The handles -/

theorem inv_opening {h : Handler} (hinv : Inv h) (hnone : h.zkClient = none) : Inv h.opening where
  current handle hhandle := by
    obtain rfl := Option.some.inj hhandle
    refine ⟨by simp [Handler.opening], fun hclosed ↦ ?_⟩
    exact absurd (hinv.known _ hclosed) (lt_irrefl _)
  accounted handle hlt := by
    have hle : handle < h.opened.length + 1 := by simpa [Handler.opening] using hlt
    rcases Nat.lt_succ_iff_lt_or_eq.mp hle with hold | rfl
    · right
      have hbefore := hinv.accounted handle hold
      rw [hnone] at hbefore
      exact hbefore.resolve_left fun hsome ↦ by cases hsome
    · exact .inl rfl
  known handle hclosed := by
    have hold := hinv.known handle hclosed
    simp only [Handler.opening, List.length_append, List.length_singleton]
    omega

theorem inv_cleanup {h : Handler} (hinv : Inv h) : Inv h.cleanup := by
  unfold Handler.cleanup
  split
  · exact hinv
  · refine ⟨fun handle hsome ↦ ?_, fun handle hlt ↦ .inr ?_, fun handle hclosed ↦ ?_⟩
    · cases hsome
    · rcases hinv.accounted handle hlt with hcurrent | hclosed
      · simp [hcurrent]
      · exact List.mem_append_left _ hclosed
    · rcases List.mem_append.mp hclosed with hold | hnew
      · exact hinv.known handle hold
      · exact (hinv.current handle (Option.mem_toList.mp hnew)).1

theorem inv_await {z : Zoo} {h : Handler} (hinv : Inv h) :
    Inv (awaitConnection z.poll h maxRetries 0).2 := by
  rcases awaitConnection_cases z h with ⟨-, heq⟩ | ⟨-, heq⟩
  · rw [heq]
    exact hinv
  · rw [heq]
    exact inv_cleanup hinv

theorem inv_ensure {z : Zoo} {h : Handler} (hinv : Inv h) : Inv (ensureZkConnection z h).2 := by
  unfold ensureZkConnection
  split
  · split
    · exact inv_await (inv_opening hinv ‹_›)
    · exact hinv
  · exact inv_await hinv

/-- The fields that a configuration sets are not about the handles. -/
theorem readConfig_eq (h : Handler) (zkHost : Field String) (zkPort : Field ℤ)
    (zkNamespace : Field String) (zkRetryInterval : Field ℤ) :
    ∃ host port name interval,
      (readConfig h zkHost zkPort zkNamespace zkRetryInterval).2 =
        { h with
          zkHost := host
          zkPort := port
          zkNamespace := name
          retryInterval := interval } := by
  unfold readConfig
  cases zkHost.get "localhost" with
  | none => exact ⟨_, _, _, _, rfl⟩
  | some host =>
      cases zkPort.get 2181 with
      | none => exact ⟨_, _, _, _, rfl⟩
      | some port =>
          cases zkNamespace.get "/myrpc" with
          | none => exact ⟨_, _, _, _, rfl⟩
          | some name =>
              cases zkRetryInterval.get 5 with
              | none => exact ⟨_, _, _, _, rfl⟩
              | some interval => exact ⟨_, _, _, _, rfl⟩

theorem inv_readConfig {h : Handler} (hinv : Inv h) (zkHost : Field String) (zkPort : Field ℤ)
    (zkNamespace : Field String) (zkRetryInterval : Field ℤ) :
    Inv (readConfig h zkHost zkPort zkNamespace zkRetryInterval).2 := by
  obtain ⟨host, port, name, interval, heq⟩ :=
    readConfig_eq h zkHost zkPort zkNamespace zkRetryInterval
  rw [heq]
  exact ⟨hinv.current, hinv.accounted, hinv.known⟩

theorem inv_initZkConnHandler {h : Handler} (hinv : Inv h) (config : Config) (z : Zoo) :
    Inv (initZkConnHandler config z h).2 := by
  cases config with
  | empty => exact hinv
  | object zkHost zkPort zkNamespace zkRetryInterval =>
      have hread := inv_readConfig hinv zkHost zkPort zkNamespace zkRetryInterval
      simp only [initZkConnHandler]
      split
      · split
        · exact inv_ensure hread
        · split <;> exact inv_ensure hread
      · exact inv_cleanup hread

theorem inv_step {h t : Handler} {c : Call} (hinv : Inv h) (hstep : step h c = some t) : Inv t := by
  cases c with
  | initZkConnHandler config z =>
      cases hstep
      exact inv_initZkConnHandler hinv config z
  | getAllServers z children =>
      cases hstep
      exact inv_ensure hinv
  | cleanup =>
      cases hstep
      exact inv_cleanup hinv

theorem inv_run {trace : List (Handler × Call)} {last : Handler}
    (hrun : Run step start trace last) :
    Inv last := by
  refine hrun.invariant Inv ⟨?_, ?_, ?_⟩ fun _ _ _ _ h hstep ↦ inv_step h hstep
  · exact fun handle hsome ↦ by cases hsome
  · exact fun handle hlt ↦ absurd hlt (Nat.not_lt_zero handle)
  · exact fun handle hclosed ↦ by cases hclosed

theorem readConfig_of_ensures {h before : Handler} {zkHost : Field String} {zkPort : Field ℤ}
    {zkNamespace : Field String} {zkRetryInterval : Field ℤ} {z z' : Zoo}
    (h' : (Call.initZkConnHandler (.object zkHost zkPort zkNamespace zkRetryInterval) z).ensures h =
      some (z', before)) :
    z' = z ∧ readConfig h zkHost zkPort zkNamespace zkRetryInterval = (true, before) := by
  simp only [Call.ensures] at h'
  split at h'
  · rename_i h'' hread
    cases h'
    exact ⟨rfl, hread⟩
  · cases h'

theorem inv_ensures {h before : Handler} {c : Call} {z : Zoo} (hinv : Inv h)
    (hensures : c.ensures h = some (z, before)) : Inv before := by
  cases c with
  | initZkConnHandler config z' =>
      cases config with
      | empty => cases hensures
      | object zkHost zkPort zkNamespace zkRetryInterval =>
          obtain ⟨-, hread⟩ := readConfig_of_ensures hensures
          have hbefore := inv_readConfig hinv zkHost zkPort zkNamespace zkRetryInterval
          rwa [hread] at hbefore
  | getAllServers z' children =>
      cases hensures
      exact hinv
  | cleanup => cases hensures

/-! ## Histories -/

theorem cleanup_of_done {h : Handler} (hdone : h.cleanupDone = true) : h.cleanup = h := by
  rw [Handler.cleanup, if_pos hdone]

theorem zkClient_cleanup {h : Handler} (hdone : h.cleanupDone = false) :
    h.cleanup.zkClient = none := by
  rw [Handler.cleanup, if_neg (by simp [hdone])]

/-- Without a handle, everything that was opened is closed. -/
theorem Inv.closed_of_none {h : Handler} (hinv : Inv h) (hnone : h.zkClient = none) :
    ∀ handle < h.opened.length, handle ∈ h.closed := by
  intro handle hlt
  rcases hinv.accounted handle hlt with hcurrent | hclosed
  · rw [hnone] at hcurrent
    cases hcurrent
  · exact hclosed

theorem recovers_await {z : Zoo} {h : Handler} {handle : ℕ} (hinv : Inv h)
    (hsome : h.zkClient = some handle) :
    Recovers z (awaitConnection z.poll h maxRetries 0) ↔ h.cleanupDone = false ∨ Connects z := by
  rcases awaitConnection_cases z h with ⟨hconnects, heq⟩ | ⟨hnever, heq⟩
  · rw [heq]
    refine iff_of_true ⟨fun _ ↦ ⟨hconnects, handle, hsome, ?_⟩, fun hfalse ↦ ?_⟩ (.inr hconnects)
    · exact (hinv.current handle hsome).2
    · cases hfalse
  · rw [heq]
    cases hdone : h.cleanupDone with
    | true =>
        refine iff_of_false (fun hrecovers ↦ ?_) (by simp [hnever])
        have hnone := (hrecovers.failed rfl).1
        rw [cleanup_of_done hdone, hsome] at hnone
        cases hnone
    | false =>
        have hnone := zkClient_cleanup hdone
        refine iff_of_true ⟨fun htrue ↦ ?_, fun _ ↦ ⟨hnone, ?_⟩⟩ (.inl rfl)
        · cases htrue
        · exact (inv_cleanup hinv).closed_of_none hnone

theorem recovers_ensure {z : Zoo} {h : Handler} (hinv : Inv h) :
    Recovers z (ensureZkConnection z h) ↔ Recoverable z h := by
  unfold ensureZkConnection Recoverable
  cases hclient : h.zkClient with
  | none =>
      rw [if_pos rfl]
      cases hinit : z.init with
      | true =>
          have hopened := @recovers_await z h.opening _ (inv_opening hinv hclient) rfl
          simpa [Handler.opening] using hopened
      | false =>
          refine iff_of_true ⟨fun htrue ↦ ?_, fun _ ↦ ⟨hclient, ?_⟩⟩ (.inr (.inl ⟨rfl, rfl⟩))
          · cases htrue
          · exact hinv.closed_of_none hclient
  | some handle => simpa using recovers_await hinv hclient

/-- **When the handler recovers.**  In every history the calls of
`ensureZkConnection` leave a handle in the connected state, or none and all
closed, exactly when each of them has its `cleanup` still, or finds or makes no
handle, or connects. -/
theorem recovers_iff {trace : List (Handler × Call)} {last : Handler}
    (hrun : Run step start trace last) :
    (∀ h c z before, (h, c) ∈ trace → c.ensures h = some (z, before) →
      Recovers z (ensureZkConnection z before)) ↔
      ∀ h c z before, (h, c) ∈ trace → c.ensures h = some (z, before) → Recoverable z before := by
  have hiff : ∀ h c z before, (h, c) ∈ trace → c.ensures h = some (z, before) →
      (Recovers z (ensureZkConnection z before) ↔ Recoverable z before) := by
    intro h c z before hmem hensures
    obtain ⟨earlier, -, -, hearlier, -, -, -⟩ := hrun.split hmem
    exact recovers_ensure (inv_ensures (inv_run hearlier) hensures)
  constructor
  · intro hall h c z before hmem hensures
    exact (hiff h c z before hmem hensures).mp (hall h c z before hmem hensures)
  · intro hall h c z before hmem hensures
    exact (hiff h c z before hmem hensures).mpr (hall h c z before hmem hensures)

def expired : Zoo := ⟨true, fun _ ↦ .expiredSession⟩

def available : Zoo := ⟨true, fun _ ↦ .connected⟩

def afterExpiry : Handler := (getAllServers expired none start).2

/-- The session expires, and the next call finds ZooKeeper again. -/
def oneExpiry : List (Handler × Call) :=
  [(start, .getAllServers expired none), (afterExpiry, .getAllServers available none)]

theorem recovers_iff_oneExpiry :
    ∃ last, Run step start oneExpiry last ∧ last.zkClient = some 1 ∧
      Recovers available (ensureZkConnection available afterExpiry) := by
  have hrun : Run step start oneExpiry (getAllServers available none afterExpiry).2 :=
    .cons rfl (.cons rfl .nil)
  refine ⟨_, hrun, by decide, ?_⟩
  refine (recovers_iff hrun).mpr ?_ afterExpiry (.getAllServers available none) available
    afterExpiry (by simp [oneExpiry]) rfl
  intro h c z before hmem hensures
  rcases List.mem_cons.mp hmem with hfirst | hsecond
  · cases hfirst
    cases hensures
    exact .inl rfl
  · cases List.mem_singleton.mp hsecond
    cases hensures
    exact .inr (.inr ⟨0, by decide, rfl, fun j hj ↦ absurd hj (Nat.not_lt_zero j)⟩)

/-- The second session expires as well, and its handle is kept. -/
theorem not_recovers_twice :
    ∃ last, Run step start
        [(start, .getAllServers expired none), (afterExpiry, .getAllServers expired none)] last ∧
      last.zkClient = some 1 ∧ 1 ∉ last.closed ∧
        ¬ Recovers expired (ensureZkConnection expired afterExpiry) := by
  refine ⟨_, .cons rfl (.cons rfl .nil), by decide, by decide, fun h ↦ ?_⟩
  have hnone := (h.failed (by decide)).1
  exact absurd hnone (by decide)

/-- After its one `cleanup` the handler keeps a handle that is lost. -/
theorem ensure_stuck {z : Zoo} {h : Handler} {handle : ℕ} (hdone : h.cleanupDone = true)
    (hsome : h.zkClient = some handle) (hlost : z.poll 0 = .expiredSession) :
    ensureZkConnection z h = (false, h) := by
  have hnever : ¬ Connects z := by
    rintro ⟨k, -, hconnected, hbefore⟩
    cases k with
    | zero => simp [hlost] at hconnected
    | succ k => exact hbefore 0 (Nat.succ_pos k) (.inl hlost)
  unfold ensureZkConnection
  rw [if_neg (by simp [hsome])]
  rcases awaitConnection_cases z h with ⟨hconnects, -⟩ | ⟨-, heq⟩
  · exact absurd hconnects hnever
  · rw [heq, cleanup_of_done hdone]

end MyRpc.ZkConnHandler
