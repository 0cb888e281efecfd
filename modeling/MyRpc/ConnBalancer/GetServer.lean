import MyRpc.Library.Slots
import MyRpc.ConnBalancer.LoadBalancer
import MyRpc.ConnBalancer.ZkConnHandler

/-!
# `getServer`

A call of `getServer` looks its servers up, stores them in the field that all
calls share, lets go of the mutex, and takes it again to select one of the
servers it then finds in the field.  Between the two another call may have
stored what it has looked up (`own_run`).
-/

namespace MyRpc.GetServer

open FixedWidth PartialRun LoadBalancer

/-- Before its lookup, with what it has looked up, behind the store, or returned. -/
inductive Caller
  | fetching
  | fetched (own : List Bytes)
  | stored (own : List Bytes)
  | returned (own : List Bytes) (answer : Bytes)
  deriving DecidableEq, Repr

structure Discovery where
  servers : List Bytes
  instance_ : Option Balancer
  callers : List Caller
  deriving DecidableEq, Repr

def start : Discovery := ⟨[], none, []⟩

def Discovery.setCaller (s : Discovery) (i : ℕ) (c : Caller) : Discovery :=
  { s with callers := s.callers.set i c }

inductive Action
  | initBalancer (type : String)
  | call
  | fetch (i : ℕ) (available : Bool) (children : Option (List (Option Bytes)))
  | store (i : ℕ)
  | select (i draw : ℕ)
  deriving DecidableEq, Repr

/-- The part of `getServer` behind the second acquisition of the mutex. -/
def answering (draw : ℕ) (s : Discovery) : Bytes × Option Balancer :=
  if s.servers = [] then ([], s.instance_) else selectServer draw s.servers s.instance_

def step (s : Discovery) : Action → Option Discovery
  | .initBalancer type => some { s with instance_ := some (initBalancer type).2 }
  | .call => some { s with callers := s.callers ++ [.fetching] }
  | .fetch i available children =>
      match s.callers[i]? with
      | some .fetching =>
          some (s.setCaller i (.fetched (ZkConnHandler.lookup available children)))
      | _ => none
  | .store i =>
      match s.callers[i]? with
      | some (.fetched own) => some { s.setCaller i (.stored own) with servers := own }
      | _ => none
  | .select i draw =>
      match s.callers[i]? with
      | some (.stored own) =>
          if s.servers = [] ∨ draw < s.servers.length then
            let (answer, instance_) := answering draw s
            some { s.setCaller i (.returned own answer) with instance_ }
          else none
      | _ => none

/-! ## Answers -/

/-- The answer is one of the caller's own servers, and is empty only if there is none. -/
structure FromOwn (own : List Bytes) (answer : Bytes) : Prop where
  mem : answer ∈ own ∨ own = [] ∧ answer = []
  empty : answer = [] → own = []

/-- What a caller finds in the field is from its own lookup, and is nothing
only if that was nothing. -/
def Undisturbed (s : Discovery) (own : List Bytes) : Prop :=
  s.servers ⊆ own ∧ (s.servers = [] → own = [])

/-- No server of a list has an empty address. -/
def Named (l : List Bytes) : Prop := ∀ server ∈ l, server ≠ []

theorem answering_mem {s : Discovery} {draw : ℕ} (hne : s.servers ≠ [])
    (hdraw : draw < s.servers.length) : (answering draw s).1 ∈ s.servers := by
  rw [answering, if_neg hne]
  exact selectServer_mem hne hdraw _

theorem fromOwn_of_undisturbed {s : Discovery} {own : List Bytes} {draw : ℕ}
    (h : Undisturbed s own) (hnamed : Named s.servers)
    (hdraw : s.servers = [] ∨ draw < s.servers.length) : FromOwn own (answering draw s).1 := by
  by_cases hnone : s.servers = []
  · have hown := h.2 hnone
    have hanswer : (answering draw s).1 = [] := by rw [answering, if_pos hnone]
    exact ⟨.inr ⟨hown, hanswer⟩, fun _ ↦ hown⟩
  · have hmem := answering_mem hnone (hdraw.resolve_left hnone)
    exact ⟨.inl (h.1 hmem), fun hempty ↦ absurd hempty (hnamed _ hmem)⟩

/-- The condition is needed: else some balancer may give another answer. -/
theorem exists_not_fromOwn {s : Discovery} {own : List Bytes} (hnamed : Named s.servers)
    (h : ¬ Undisturbed s own) :
    ∃ draw, (s.servers = [] ∨ draw < s.servers.length) ∧
      ¬ FromOwn own (answering draw { s with instance_ := some .random }).1 := by
  by_cases hnone : s.servers = []
  · have hown : own ≠ [] := by
      intro hown
      apply h
      rw [Undisturbed, hnone, hown]
      exact ⟨List.Subset.refl _, fun _ ↦ rfl⟩
    refine ⟨0, .inl hnone, fun hfrom ↦ hown (hfrom.empty ?_)⟩
    rw [answering, if_pos hnone]
  · have hforeign : ∃ server ∈ s.servers, server ∉ own := by
      by_contra hall
      push Not at hall
      exact h ⟨hall, fun hempty ↦ absurd hempty hnone⟩
    obtain ⟨server, hserver, hnot⟩ := hforeign
    obtain ⟨k, hk, rfl⟩ := List.mem_iff_getElem.mp hserver
    have hanswer : (answering k { s with instance_ := some .random }).1 = s.servers[k] := by
      simp [answering, selectServer, Balancer.select, Balancer.selectRandom, hnone, hk]
    refine ⟨k, .inr hk, fun hfrom ↦ ?_⟩
    rw [hanswer] at hfrom
    rcases hfrom.mem with hmem | ⟨hown, hempty⟩
    · exact hnot hmem
    · exact hnamed _ hserver hempty

/-! ## Runs -/

/-- What is true of a caller: its servers have addresses, and its answer is from them. -/
def Caller.Sound : Caller → Prop
  | fetching => True
  | fetched own | stored own => Named own
  | returned own answer => FromOwn own answer

structure Inv (s : Discovery) : Prop where
  servers : Named s.servers
  callers : ∀ c ∈ s.callers, c.Sound

theorem inv_start : Inv start where
  servers _ h := by cases h
  callers _ h := by cases h

theorem inv_step {s t : Discovery} {a : Action} (h : Inv s)
    (hselect : ∀ i draw own, a = .select i draw → s.callers[i]? = some (.stored own) →
      Undisturbed s own)
    (hstep : step s a = some t) : Inv t := by
  cases a with
  | initBalancer type =>
      cases hstep
      exact ⟨h.servers, h.callers⟩
  | call =>
      cases hstep
      refine ⟨h.servers, fun c hc ↦ ?_⟩
      rcases List.mem_append.mp hc with hold | hnew
      · exact h.callers c hold
      · rw [List.mem_singleton.mp hnew]
        trivial
  | fetch i available children =>
      simp only [step] at hstep
      split at hstep
      · cases hstep
        have hown : (Caller.fetched (ZkConnHandler.lookup available children)).Sound :=
          fun server hserver ↦ ZkConnHandler.ne_nil_of_mem_lookup hserver
        exact ⟨h.servers, Slots.forall_mem_set h.callers hown⟩
      · cases hstep
  | store i =>
      simp only [step] at hstep
      split at hstep
      · rename_i own hslot
        cases hstep
        have hown : Named own := h.callers _ (Slots.mem_of_slot hslot)
        exact ⟨hown, Slots.forall_mem_set h.callers hown⟩
      · cases hstep
  | select i draw =>
      simp only [step] at hstep
      split at hstep
      · rename_i own hslot
        rw [Option.ite_none_right_eq_some] at hstep
        obtain ⟨hdraw, hstep⟩ := hstep
        cases hstep
        have hfrom := fromOwn_of_undisturbed (hselect i draw own rfl hslot) h.servers hdraw
        exact ⟨h.servers, Slots.forall_mem_set h.callers hfrom⟩
      · cases hstep

/-- **Answers from the own lookup.**  If in a run every caller finds in the
field, when it selects, servers of its own lookup only, and none only if it has
looked up none, then every call of `getServer` returns one of its own servers,
or the empty string if it has none. -/
theorem own_run {trace : List (Discovery × Action)} {last : Discovery}
    (hrun : Run step start trace last)
    (hselects : ∀ s i draw own, (s, .select i draw) ∈ trace → s.callers[i]? = some (.stored own) →
      Undisturbed s own) :
    ∀ own answer, .returned own answer ∈ last.callers → FromOwn own answer := by
  have hinv : Inv last := by
    refine hrun.invariant Inv inv_start ?_
    rintro s a t hmem h hstep
    refine inv_step h (fun i draw own ha hslot ↦ ?_) hstep
    subst ha
    exact hselects s i draw own hmem hslot
  exact fun own answer hreturned ↦ hinv.callers _ hreturned

/-- Two namespaces with one server each; the second call has got as far as `between`. -/
def crossing (between : List Action) : List Action :=
  [.call, .call, .fetch 0 true (some [some [1]]), .store 0] ++ between ++ [.select 0 0]

def crossingRun (between : List Action) : List (Discovery × Action) × Discovery :=
  executed step start (crossing between)

/-- The second call stores its servers after the first has selected. -/
theorem own_run_early :
    .returned [[1]] [1] ∈ (crossingRun [.fetch 1 true (some [some [2]])]).2.callers ∧
      FromOwn [[1]] [1] := by
  have hsome : (execute step start (crossing [.fetch 1 true (some [some [2]])])).isSome = true := by
    decide
  have hreturned : .returned [[1]] [1] ∈
      (crossingRun [.fetch 1 true (some [some [2]])]).2.callers := by
    decide
  refine ⟨hreturned, own_run (Run.of_isSome hsome) (fun s i draw own hmem hslot ↦ ?_) _ _ hreturned⟩
  have hselect : ∀ e ∈ (crossingRun [.fetch 1 true (some [some [2]])]).1,
      e.2 = .select 0 0 → e.1.servers = [[1]] ∧ e.1.callers[0]? = some (.stored [[1]]) := by
    decide
  have haction : .select i draw ∈ crossing [.fetch 1 true (some [some [2]])] :=
    Run.mem_of_mem_executed hsome hmem
  obtain ⟨rfl, rfl⟩ : i = 0 ∧ draw = 0 := by simpa [crossing] using haction
  obtain ⟨hservers, hstored⟩ := hselect _ hmem rfl
  rw [hslot] at hstored
  cases hstored
  rw [Undisturbed, hservers]
  exact ⟨List.Subset.refl _, fun hnone ↦ by cases hnone⟩

/-- The second call stores its servers in between. -/
theorem not_own_late :
    ∃ trace last, Run step start trace last ∧ .returned [[1]] [2] ∈ last.callers ∧
      ¬ FromOwn [[1]] [2] := by
  refine ⟨_, (crossingRun [.fetch 1 true (some [some [2]]), .store 1]).2,
    Run.of_isSome (by decide), by decide, fun h ↦ ?_⟩
  rcases h.mem with hmem | ⟨hown, -⟩
  · exact absurd hmem (by decide)
  · cases hown

end MyRpc.GetServer
