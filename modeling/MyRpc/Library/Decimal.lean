import MyRpc.Library.FixedWidth

/-!
# Decimal numbers in byte strings

The ASCII digits of a natural number, most significant first and without leading
zeros, and the value of a string of digits.
-/

namespace Decimal

open FixedWidth

def isDigit (b : UInt8) : Bool := 48 ≤ b ∧ b ≤ 57

def digit (d : ℕ) : UInt8 := 48 + UInt8.ofNat d

def digitValue (b : UInt8) : ℕ := (b - 48).toNat

/-- The value of a string of digits. -/
def value (bs : Bytes) : ℕ := bs.foldl (fun n b ↦ digitValue b + 10 * n) 0

def decimal (n : ℕ) : Bytes :=
  if n = 0 then [48] else (Nat.digits 10 n).reverse.map digit

theorem digitValue_digit {d : ℕ} (h : d < 10) : digitValue (digit d) = d := by
  interval_cases d <;> rfl

theorem isDigit_digit {d : ℕ} (h : d < 10) : isDigit (digit d) = true := by
  interval_cases d <;> rfl

theorem decimal_ne_nil (n : ℕ) : decimal n ≠ [] := by
  unfold decimal
  by_cases h : n = 0
  · simp [h]
  · simp [h, Nat.digits_ne_nil_iff_ne_zero.mpr h]

theorem isDigit_of_mem_decimal {n : ℕ} {b : UInt8} (h : b ∈ decimal n) : isDigit b = true := by
  unfold decimal at h
  by_cases hn : n = 0
  · rw [if_pos hn, List.mem_singleton] at h
    rw [h]
    rfl
  · rw [if_neg hn] at h
    obtain ⟨d, hd, rfl⟩ := List.mem_map.mp h
    exact isDigit_digit (Nat.digits_lt_base (by decide) (List.mem_reverse.mp hd))

theorem value_map_digit {ds : List ℕ} (h : ∀ d ∈ ds, d < 10) :
    value (ds.reverse.map digit) = Nat.ofDigits 10 ds := by
  induction ds with
  | nil => rfl
  | cons d ds ih =>
      have hrest := ih fun e he ↦ h e (List.mem_cons_of_mem d he)
      unfold value at hrest ⊢
      rw [List.reverse_cons, List.map_append, List.foldl_append, hrest, Nat.ofDigits_cons]
      exact congrArg (· + _) (digitValue_digit (h d List.mem_cons_self))

theorem value_decimal (n : ℕ) : value (decimal n) = n := by
  unfold decimal
  by_cases hn : n = 0
  · rw [if_pos hn, hn]
    rfl
  · rw [if_neg hn, value_map_digit fun d hd ↦ Nat.digits_lt_base (by decide) hd,
      Nat.ofDigits_digits]

theorem takeWhile_decimal (n : ℕ) : (decimal n).takeWhile isDigit = decimal n :=
  List.takeWhile_eq_self_iff.mpr fun _ ↦ isDigit_of_mem_decimal

theorem decimal_injective : Function.Injective decimal :=
  Function.LeftInverse.injective value_decimal

end Decimal
