import Mathlib

/-!
# Going round a list

The entries of a list, taken one after the other from some position on and from
the front again behind the last.  In any number of turns each entry is taken as
often as every other one, up to once (`count_turns`).
-/

namespace Rotations

variable {α : Type*}

/-- `m` turns from the position `a` on; `d` stands for the entry of an empty list. -/
def turns (l : List α) (d : α) (a m : ℕ) : List α :=
  (List.range m).map fun i ↦ l.getD ((a + i) % l.length) d

@[simp] theorem turns_zero (l : List α) (d : α) (a : ℕ) : turns l d a 0 = [] := rfl

theorem turns_succ (l : List α) (d : α) (a m : ℕ) :
    turns l d a (m + 1) = l.getD (a % l.length) d :: turns l d (a + 1) m := by
  unfold turns
  rw [List.range_succ_eq_map, List.map_cons, List.map_map]
  refine congrArg _ (List.map_congr_left fun i _ ↦ ?_)
  simp only [Function.comp_apply]
  rw [Nat.succ_eq_one_add, ← Nat.add_assoc]

theorem turns_congr {l : List α} {a b : ℕ} (d : α) (m : ℕ) (h : a ≡ b [MOD l.length]) :
    turns l d a m = turns l d b m :=
  List.map_congr_left fun i _ ↦ congrArg (l.getD · d) (h.add_right i)

theorem getElem?_turns {l : List α} {a m i : ℕ} (d : α) (hpos : 0 < l.length) (hi : i < m) :
    (turns l d a m)[i]? = l[(a + i) % l.length]? := by
  have hlt : (a + i) % l.length < l.length := Nat.mod_lt _ hpos
  simp [turns, hi, List.getElem?_eq_getElem hlt]

/-- The turns at which the position `k` comes up. -/
theorem mod_eq_iff_modEq {a i k n : ℕ} (hk : k < n) :
    (a + i) % n = k ↔ i ≡ k + (n - a % n) [MOD n] := by
  have hn : 0 < n := Nat.zero_lt_of_lt hk
  have hround : a + (k + (n - a % n)) ≡ k [MOD n] := by
    have hsum : a + (k + (n - a % n)) = k + n * (a / n + 1) := by
      have hdiv := Nat.div_add_mod a n
      have hmod := Nat.mod_lt a hn
      rw [Nat.mul_add, Nat.mul_one]
      omega
    rw [hsum, Nat.ModEq, Nat.add_mul_mod_self_left]
  constructor
  · intro h
    have hturn : a + i ≡ k [MOD n] := by
      rw [Nat.ModEq, h, Nat.mod_eq_of_lt hk]
    exact Nat.ModEq.add_left_cancel' a (hturn.trans hround.symm)
  · intro h
    have hturn : a + i ≡ k [MOD n] := (h.add_left a).trans hround
    rw [hturn, Nat.mod_eq_of_lt hk]

/-- The quotient, rounded down or up. -/
theorem fair_count {a m k n : ℕ} (hk : k < n) :
    Nat.count (fun i ↦ (a + i) % n = k) m = m / n ∨
      Nat.count (fun i ↦ (a + i) % n = k) m = (m + (n - 1)) / n := by
  have hn : 0 < n := Nat.zero_lt_of_lt hk
  have hcount := Nat.count_modEq_card m hn (k + (n - a % n))
  simp only [mod_eq_iff_modEq hk]
  rw [hcount]
  split
  · rename_i hless
    right
    have hdiv := Nat.div_add_mod m n
    have hsum : m + (n - 1) = n * (m / n + 1) + (m % n - 1) := by
      rw [Nat.mul_add, Nat.mul_one]
      omega
    have hsmall : m % n - 1 < n := (Nat.sub_le _ _).trans_lt (Nat.mod_lt m hn)
    rw [hsum, Nat.mul_add_div hn, Nat.div_eq_of_lt hsmall, Nat.add_zero]
  · exact Or.inl (Nat.add_zero _)

theorem count_turns [BEq α] [LawfulBEq α] {l : List α} (hnodup : l.Nodup) (d : α) (a m : ℕ)
    {x : α} (hx : x ∈ l) :
    (turns l d a m).count x = m / l.length ∨
      (turns l d a m).count x = (m + (l.length - 1)) / l.length := by
  obtain ⟨k, hk, rfl⟩ := List.mem_iff_getElem.mp hx
  have hcount : (turns l d a m).count l[k] =
      Nat.count (fun i ↦ (a + i) % l.length = k) m := by
    unfold turns
    rw [List.count_eq_countP, List.countP_map, Nat.count]
    refine List.countP_congr fun i _ ↦ ?_
    have hlt : (a + i) % l.length < l.length := Nat.mod_lt _ (Nat.zero_lt_of_lt hk)
    simp [List.getElem?_eq_getElem hlt, hnodup.getElem_inj_iff]
  rw [hcount]
  exact fair_count hk

/-- What comes a turn after an entry is its neighbour in the list. -/
theorem neighbours_turns {l : List α} {a m i : ℕ} (d : α) (hpos : 0 < l.length)
    (hi : i + 1 < m) :
    ∃ k, k < l.length ∧ (turns l d a m)[i]? = l[k]? ∧
      (turns l d a m)[i + 1]? = l[(k + 1) % l.length]? := by
  refine ⟨(a + i) % l.length, Nat.mod_lt _ hpos, ?_, ?_⟩
  · exact getElem?_turns d hpos (Nat.lt_of_succ_lt hi)
  · rw [getElem?_turns d hpos hi, Nat.mod_add_mod, Nat.add_assoc]

end Rotations
