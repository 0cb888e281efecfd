import Mathlib

/-!
# The Base64 text of a byte string

The bits of all bytes in a row, the most significant of each byte first, are
cut into groups of six; the last group is filled up with zeros.  Each group is
a number that names a character of the alphabet, and `=` fills the text up to a
multiple of four characters.
-/

namespace Rfc4648

def bits (b : UInt8) : List Bool := [7, 6, 5, 4, 3, 2, 1, 0].map b.toNat.testBit

/-- The number with these binary digits, the most significant first. -/
def value (digits : List Bool) : ℕ := digits.foldl (fun n digit ↦ 2 * n + digit.toNat) 0

def sextets : List Bool → List ℕ
  | [] => []
  | b₀ :: b₁ :: b₂ :: b₃ :: b₄ :: b₅ :: rest => value [b₀, b₁, b₂, b₃, b₄, b₅] :: sextets rest
  | rest => [value (rest ++ List.replicate (6 - rest.length) false)]

/-- `A` to `Z`, `a` to `z`, `0` to `9`, `+` and `/`. -/
def alphabet (i : ℕ) : UInt8 :=
  if i < 26 then UInt8.ofNat (65 + i)
  else if i < 52 then UInt8.ofNat (97 + (i - 26))
  else if i < 62 then UInt8.ofNat (48 + (i - 52))
  else if i = 62 then 43
  else 47

def text (input : List UInt8) : List UInt8 :=
  let chars := (sextets (input.flatMap bits)).map alphabet
  chars ++ List.replicate ((4 - chars.length % 4) % 4) 61

/-! ## Numbers of bits -/

theorem foldl_eq (digits : List Bool) (n : ℕ) :
    digits.foldl (fun n digit ↦ 2 * n + digit.toNat) n = n * 2 ^ digits.length + value digits := by
  induction digits generalizing n with
  | nil => simp [value]
  | cons digit digits ih =>
      have hvalue : value (digit :: digits) = (2 * 0 + digit.toNat) * 2 ^ digits.length +
          value digits := ih _
      rw [List.foldl_cons, ih, hvalue, List.length_cons, pow_succ]
      ring

theorem value_append (high low : List Bool) :
    value (high ++ low) = value high * 2 ^ low.length + value low := by
  rw [value, List.foldl_append, foldl_eq]
  rfl

theorem value_bits (b : UInt8) :
    value ((bits b).take 6) = b.toNat / 4 ∧ value ((bits b).drop 6) = b.toNat % 4 ∧
      value ((bits b).take 4) = b.toNat / 16 ∧ value ((bits b).drop 4) = b.toNat % 16 ∧
      value ((bits b).take 2) = b.toNat / 64 ∧ value ((bits b).drop 2) = b.toNat % 64 := by
  revert b
  decide +kernel

/-! ## Three bytes at a time -/

theorem sextets_group (a b c : UInt8) (rest : List Bool) :
    sextets (bits a ++ (bits b ++ (bits c ++ rest))) =
      [a.toNat / 4, a.toNat % 4 * 16 + b.toNat / 16, b.toNat % 16 * 4 + c.toNat / 64,
        c.toNat % 64] ++ sextets rest := by
  have hcut : sextets (bits a ++ (bits b ++ (bits c ++ rest))) =
      [value ((bits a).take 6), value ((bits a).drop 6 ++ (bits b).take 4),
        value ((bits b).drop 4 ++ (bits c).take 2), value ((bits c).drop 2)] ++
          sextets rest := rfl
  obtain ⟨ha, ha', -⟩ := value_bits a
  obtain ⟨-, -, hb, hb', -⟩ := value_bits b
  obtain ⟨-, -, -, -, hc, hc'⟩ := value_bits c
  rw [hcut, value_append, value_append, ha, ha', hb, hb', hc, hc']
  rfl

theorem sextets_two (a b : UInt8) :
    sextets (bits a ++ bits b) =
      [a.toNat / 4, a.toNat % 4 * 16 + b.toNat / 16, b.toNat % 16 * 4] := by
  have hcut : sextets (bits a ++ bits b) =
      [value ((bits a).take 6), value ((bits a).drop 6 ++ (bits b).take 4),
        value ((bits b).drop 4 ++ [false, false])] := rfl
  obtain ⟨ha, ha', -⟩ := value_bits a
  obtain ⟨-, -, hb, hb', -⟩ := value_bits b
  rw [hcut, value_append, value_append, ha, ha', hb, hb']
  rfl

theorem sextets_one (a : UInt8) :
    sextets (bits a) = [a.toNat / 4, a.toNat % 4 * 16] := by
  have hcut : sextets (bits a) =
      [value ((bits a).take 6), value ((bits a).drop 6 ++ [false, false, false, false])] := rfl
  obtain ⟨ha, ha', -⟩ := value_bits a
  rw [hcut, value_append, ha, ha']
  rfl

theorem text_one (a : UInt8) :
    text [a] = [alphabet (a.toNat / 4), alphabet (a.toNat % 4 * 16), 61, 61] := by
  have hbits : [a].flatMap bits = bits a := by simp
  rw [text, hbits, sextets_one]
  rfl

theorem text_two (a b : UInt8) :
    text [a, b] = [alphabet (a.toNat / 4), alphabet (a.toNat % 4 * 16 + b.toNat / 16),
      alphabet (b.toNat % 16 * 4), 61] := by
  have hbits : [a, b].flatMap bits = bits a ++ bits b := by simp
  rw [text, hbits, sextets_two]
  rfl

theorem text_group (a b c : UInt8) (rest : List UInt8) :
    text (a :: b :: c :: rest) =
      alphabet (a.toNat / 4) :: alphabet (a.toNat % 4 * 16 + b.toNat / 16) ::
        alphabet (b.toNat % 16 * 4 + c.toNat / 64) :: alphabet (c.toNat % 64) :: text rest := by
  have hbits : (a :: b :: c :: rest).flatMap bits =
      bits a ++ (bits b ++ (bits c ++ rest.flatMap bits)) := by simp
  have hfull : ∀ n : ℕ, (4 - (n + 4) % 4) % 4 = (4 - n % 4) % 4 :=
    fun n ↦ by rw [Nat.add_mod_right]
  simp only [text, hbits, sextets_group, List.cons_append, List.nil_append, List.map_cons,
    List.length_cons, List.cons.injEq, true_and]
  exact congrArg (fun n ↦ _ ++ List.replicate n 61) (hfull _)

end Rfc4648
