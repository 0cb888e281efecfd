import MyRpc.Library.Rotation
import MyRpc.ConnBalancer.LoadBalancer

/-!
# Fairness of the rotating balancers

Whatever lists a rotating balancer has selected from before, on one and the same
list it goes round from some position on: the counter of the one is taken modulo
the length, the index of the other is moved and found again by its prefix sum.
So every server has its share of any number of calls (`select_fair`).
-/

namespace MyRpc.LoadBalancer.Balancer

open FixedWidth Rotations

/-- A balancer behind calls on the given lists. -/
def after (b : Balancer) (earlier : List (List Bytes)) : Balancer :=
  earlier.foldl (fun b instances ↦ (b.select 0 instances).2) b

/-- What `m` successive calls on one list select. -/
def choices (b : Balancer) (servers : List Bytes) : ℕ → List Bytes
  | 0 => []
  | m + 1 =>
      let (server, b) := b.select 0 servers
      server :: b.choices servers m

/-- What `m` calls on distinct servers should select. -/
structure Fair (servers : List Bytes) (m : ℕ) (chosen : List Bytes) : Prop where
  length : chosen.length = m
  mem : ∀ server ∈ chosen, server ∈ servers
  share : ∀ server ∈ servers, chosen.count server = m / servers.length ∨
    chosen.count server = (m + (servers.length - 1)) / servers.length
  neighbours : ∀ i, i + 1 < m → ∃ k, k < servers.length ∧ chosen[i]? = servers[k]? ∧
    chosen[i + 1]? = servers[(k + 1) % servers.length]?

theorem turns_fair {servers : List Bytes} (hne : servers ≠ []) (hnodup : servers.Nodup)
    (a m : ℕ) : Fair servers m (turns servers [] a m) where
  length := by simp [turns]
  mem := by
    intro server hserver
    obtain ⟨i, -, rfl⟩ := List.mem_map.mp hserver
    exact getD_mem (Nat.mod_lt _ (List.length_pos_iff.mpr hne))
  share := fun _ hserver ↦ count_turns hnodup [] a m hserver
  neighbours := fun _ hi ↦ neighbours_turns [] (List.length_pos_iff.mpr hne) hi

/-! ## The weighted balancer -/

theorem foldl_replicate_one (n k : ℕ) : (List.replicate n 1).foldl (· + ·) k = k + n := by
  induction n generalizing k with
  | zero => rfl
  | succ n ih =>
      rw [List.replicate_succ, List.foldl_cons, ih]
      omega

/-- With unit weights, the entry whose prefix sum passes the index is the one at the index. -/
theorem searchWeight_unit (servers : List Bytes) {currentIndex currentWeight : ℕ}
    (hle : currentWeight ≤ currentIndex) :
    searchWeight currentIndex currentWeight (servers.zip (List.replicate servers.length 1)) =
      servers[currentIndex - currentWeight]? := by
  induction servers generalizing currentWeight with
  | nil => rfl
  | cons server rest ih =>
      rw [List.length_cons, List.replicate_succ, List.zip_cons_cons, searchWeight]
      by_cases hhere : currentIndex < currentWeight + 1
      · rw [if_pos hhere, Nat.sub_eq_zero_of_le (Nat.le_of_lt_succ hhere)]
        rfl
      · have hnext : currentIndex - currentWeight = currentIndex - (currentWeight + 1) + 1 := by
          omega
        rw [if_neg hhere, ih (Nat.le_of_not_lt hhere), hnext, List.getElem?_cons_succ]

theorem selectWeight_eq {servers : List Bytes} (hne : servers ≠ []) (currentIndex : ℕ) :
    selectWeight currentIndex servers =
      (servers.getD ((currentIndex + 1) % servers.length) [],
        (currentIndex + 1) % servers.length) := by
  have hlt : (currentIndex + 1) % servers.length < servers.length :=
    Nat.mod_lt _ (List.length_pos_iff.mpr hne)
  rw [selectWeight, if_neg hne]
  simp only [foldl_replicate_one, Nat.zero_add, searchWeight_unit servers (Nat.zero_le _),
    Nat.sub_zero]
  rw [List.getElem?_eq_getElem hlt, List.getD_eq_getElem servers [] hlt]
  rfl

/-- The stored index and its successor stay in the range of an `int`, as long as
the numbers of servers do. -/
theorem weight_after (earlier : List (List Bytes)) (currentIndex : ℕ) :
    ∃ i, (weight currentIndex).after earlier = weight i ∧
      (currentIndex + 1 < 2 ^ 31 → (∀ l ∈ earlier, l.length < 2 ^ 31) → i + 1 < 2 ^ 31) := by
  induction earlier generalizing currentIndex with
  | nil => exact ⟨currentIndex, rfl, fun h _ ↦ h⟩
  | cons instances rest ih =>
      obtain ⟨j, hj, hsmall⟩ : ∃ j, (select 0 instances (weight currentIndex)).2 = weight j ∧
          (currentIndex + 1 < 2 ^ 31 → instances.length < 2 ^ 31 → j + 1 < 2 ^ 31) := by
        by_cases hne : instances = []
        · exact ⟨currentIndex, by simp [select, selectWeight, hne], fun h _ ↦ h⟩
        · have hlt : (currentIndex + 1) % instances.length < instances.length :=
            Nat.mod_lt _ (List.length_pos_iff.mpr hne)
          exact ⟨(currentIndex + 1) % instances.length, by simp only [select, selectWeight_eq hne],
            fun _ h ↦ Nat.lt_of_le_of_lt hlt h⟩
      obtain ⟨i, hi, hlast⟩ := ih j
      rw [after, List.foldl_cons, hj]
      refine ⟨i, hi, fun hindex hshort ↦ hlast ?_ ?_⟩
      · exact hsmall hindex (hshort _ List.mem_cons_self)
      · exact fun l hl ↦ hshort l (List.mem_cons_of_mem _ hl)

theorem choices_weight {servers : List Bytes} (hne : servers ≠ []) (currentIndex m : ℕ) :
    (weight currentIndex).choices servers m = turns servers [] (currentIndex + 1) m := by
  induction m generalizing currentIndex with
  | zero => rfl
  | succ m ih =>
      have hselect : select 0 servers (weight currentIndex) =
          (servers.getD ((currentIndex + 1) % servers.length) [],
            weight ((currentIndex + 1) % servers.length)) := by
        simp only [select, selectWeight_eq hne]
      rw [choices, hselect, turns_succ]
      refine congrArg _ ((ih _).trans ?_)
      exact turns_congr _ _ (Nat.mod_add_mod _ _ _)

/-! ## The counting balancer -/

theorem choices_round {servers : List Bytes} (hne : servers ≠ []) {currentIndex m : ℕ}
    (hcalls : currentIndex + m < 2 ^ 64) :
    (round currentIndex).choices servers m = turns servers [] currentIndex m := by
  induction m generalizing currentIndex with
  | zero => rfl
  | succ m ih =>
      have hselect : select 0 servers (round currentIndex) =
          (servers.getD (currentIndex % servers.length) [], round (currentIndex + 1)) := by
        have hlt : currentIndex + 1 < 2 ^ 64 := by omega
        simp only [select, selectRound, if_neg hne, Nat.mod_eq_of_lt hlt]
      rw [choices, hselect, turns_succ]
      exact congrArg _ (ih (by omega))

theorem round_le_after (earlier : List (List Bytes)) (currentIndex : ℕ) :
    ∃ i, (round currentIndex).after earlier = round i ∧ i ≤ currentIndex + earlier.length := by
  induction earlier generalizing currentIndex with
  | nil => exact ⟨currentIndex, rfl, Nat.le_refl _⟩
  | cons instances rest ih =>
      obtain ⟨j, hj, hle⟩ : ∃ j, (select 0 instances (round currentIndex)).2 = round j ∧
          j ≤ currentIndex + 1 := by
        by_cases hne : instances = []
        · exact ⟨currentIndex, by simp [select, selectRound, hne], Nat.le_succ _⟩
        · exact ⟨(currentIndex + 1) % 2 ^ 64, by simp only [select, selectRound, if_neg hne],
            Nat.mod_le _ _⟩
      obtain ⟨i, hi, hle'⟩ := ih j
      rw [after, List.foldl_cons, hj]
      refine ⟨i, hi, hle'.trans ?_⟩
      rw [List.length_cons]
      omega

/-- **Both rotating balancers are fair.**  From any state that calls on any
lists have left, `m` calls on a list of distinct servers select each of them `m`
over their number times, rounded down or up, and one neighbour after the other. -/
theorem select_fair {start : Balancer} (hstart : start = .round 0 ∨ start = .weight 0)
    (earlier : List (List Bytes)) {servers : List Bytes} (hne : servers ≠ [])
    (hnodup : servers.Nodup) {m : ℕ} (hcalls : earlier.length + m < 2 ^ 64) :
    Fair servers m ((start.after earlier).choices servers m) := by
  rcases hstart with rfl | rfl
  · obtain ⟨i, hi, hle⟩ := round_le_after earlier 0
    rw [hi, choices_round hne (by omega)]
    exact turns_fair hne hnodup i m
  · obtain ⟨i, hi, -⟩ := weight_after earlier 0
    rw [hi, choices_weight hne]
    exact turns_fair hne hnodup (i + 1) m

theorem select_fair_two :
    Fair [[97], [98]] 3 (((weight 0).after [[[99]]]).choices [[97], [98]] 3) :=
  select_fair (.inr rfl) [[[99]]] (by decide) (by decide) (by decide)

end MyRpc.LoadBalancer.Balancer
