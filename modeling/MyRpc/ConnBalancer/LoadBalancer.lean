import MyRpc.Library.FixedWidth

/-!
# The load balancers

`LoadBalancer` keeps one balancer of one of three kinds.  All of them pick an
index and return the server that stands there.  The number of the random one is
a parameter; the counter of the rotating one is a `size_t`, that of the weighted
one stays below the length of the last list.
-/

namespace MyRpc.LoadBalancer

open FixedWidth

inductive Balancer
  | random
  | round (currentIndex : ℕ)
  | weight (currentIndex : ℕ)
  deriving DecidableEq, Repr

namespace Balancer

/-- `RandomLoadBalancer::select`, where the distribution gives `draw`. -/
def selectRandom (draw : ℕ) (instances : List Bytes) : Bytes :=
  if instances = [] then [] else instances.getD draw []

def selectRound (currentIndex : ℕ) (instances : List Bytes) : Bytes × ℕ :=
  if instances = [] then ([], currentIndex)
  else (instances.getD (currentIndex % instances.length) [], (currentIndex + 1) % 2 ^ 64)

/-- The loop over the instances, with the weights of those that were passed. -/
def searchWeight (currentIndex : ℕ) : ℕ → List (Bytes × ℕ) → Option Bytes
  | _, [] => none
  | currentWeight, (server, weight') :: rest =>
      let currentWeight := currentWeight + weight'
      if currentIndex < currentWeight then some server
      else searchWeight currentIndex currentWeight rest

def selectWeight (currentIndex : ℕ) (instances : List Bytes) : Bytes × ℕ :=
  if instances = [] then ([], currentIndex)
  else
    let weights := List.replicate instances.length 1
    let totalWeight := weights.foldl (· + ·) 0
    let currentIndex := (currentIndex + 1) % totalWeight
    ((searchWeight currentIndex 0 (instances.zip weights)).getD (instances.getD 0 []), currentIndex)

def select (draw : ℕ) (instances : List Bytes) : Balancer → Bytes × Balancer
  | random => (selectRandom draw instances, random)
  | round currentIndex =>
      let (server, currentIndex) := selectRound currentIndex instances
      (server, round currentIndex)
  | weight currentIndex =>
      let (server, currentIndex) := selectWeight currentIndex instances
      (server, weight currentIndex)

end Balancer

/-- `initBalancer`: the result, and the balancer from then on. -/
def initBalancer : String → Bool × Balancer
  | "random" => (true, .random)
  | "round" => (true, .round 0)
  | "weight" => (true, .weight 0)
  | _ => (false, .random)

/-- `selectServer`; `instance_` is what `initBalancer` or an earlier call has left. -/
def selectServer (draw : ℕ) (servers : List Bytes) (instance_ : Option Balancer) :
    Bytes × Option Balancer :=
  let balancer := instance_.getD .random
  if servers = [] then ([], some balancer)
  else
    let (server, balancer) := balancer.select draw servers
    (server, some balancer)

/-! ## What is selected -/

theorem getD_mem {l : List Bytes} {k : ℕ} (hk : k < l.length) : l.getD k [] ∈ l := by
  rw [List.getD_eq_getElem l [] hk]
  exact List.getElem_mem hk

namespace Balancer

theorem searchWeight_mem {currentIndex currentWeight : ℕ} {servers : List (Bytes × ℕ)}
    {server : Bytes} (h : searchWeight currentIndex currentWeight servers = some server) :
    server ∈ servers.map Prod.fst := by
  induction servers generalizing currentWeight with
  | nil => cases h
  | cons first rest ih =>
      simp only [searchWeight] at h
      split at h
      · cases h
        exact List.mem_cons_self
      · exact List.mem_cons_of_mem _ (ih h)

theorem selectWeight_mem {currentIndex : ℕ} {instances : List Bytes} (hne : instances ≠ []) :
    (selectWeight currentIndex instances).1 ∈ instances := by
  have hpos := List.length_pos_iff.mpr hne
  rw [selectWeight, if_neg hne]
  simp only
  cases hsearch : searchWeight _ 0 (instances.zip _) with
  | none => exact getD_mem hpos
  | some server =>
      have hmem := searchWeight_mem hsearch
      rwa [List.map_fst_zip (by simp)] at hmem

theorem select_mem {draw : ℕ} {instances : List Bytes} (hne : instances ≠ [])
    (hdraw : draw < instances.length) (b : Balancer) : (b.select draw instances).1 ∈ instances := by
  have hpos := List.length_pos_iff.mpr hne
  cases b with
  | random =>
      simp only [select, selectRandom, if_neg hne]
      exact getD_mem hdraw
  | round currentIndex =>
      simp only [select, selectRound, if_neg hne]
      exact getD_mem (Nat.mod_lt _ hpos)
  | weight currentIndex => exact selectWeight_mem hne

end Balancer

theorem selectServer_mem {draw : ℕ} {servers : List Bytes} (hne : servers ≠ [])
    (hdraw : draw < servers.length) (instance_ : Option Balancer) :
    (selectServer draw servers instance_).1 ∈ servers := by
  rw [selectServer, if_neg hne]
  exact Balancer.select_mem hne hdraw _

end MyRpc.LoadBalancer
