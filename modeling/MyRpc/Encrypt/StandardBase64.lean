import MyRpc.Encrypt.Base64
import MyRpc.Library.Rfc4648

/-!
# The encoder writes the standard text

`Base64Encode` shifts and masks three bytes of a small array at a time.  What it
looks up are the groups of six bits of its input, in the order of the standard
(`base64Encode_standard`).
-/

namespace MyRpc.Base64

open FixedWidth

theorem base64Char_eq_alphabet :
    ∀ i : UInt8, i < 64 → base64Char i = Rfc4648.alphabet i.toNat := by
  decide +kernel

theorem sextet_lt {a b c i : UInt8} (h : i ∈ sextets a b c) : i < 64 := by
  simp only [sextets, List.mem_cons, List.not_mem_nil, or_false] at h
  rcases h with rfl | rfl | rfl | rfl
  · exact sextet0_lt a
  · exact sextet1_lt a b
  · exact sextet2_lt b c
  · exact sextet3_lt c

theorem toNat_sextet0 (a : UInt8) : (sextet0 a).toNat = a.toNat / 4 := (encode_masks a).1

theorem toNat_sextet1 (a b : UInt8) :
    (sextet1 a b).toNat = a.toNat % 4 * 16 + b.toNat / 16 := by
  have hb : b.toNat < 256 := b.toNat_lt
  simp only [sextet1, UInt8.toNat_add, encode_masks]
  omega

theorem toNat_sextet2 (b c : UInt8) :
    (sextet2 b c).toNat = b.toNat % 16 * 4 + c.toNat / 64 := by
  have hc : c.toNat < 256 := c.toNat_lt
  simp only [sextet2, UInt8.toNat_add, encode_masks]
  omega

theorem toNat_sextet3 (c : UInt8) : (sextet3 c).toNat = c.toNat % 64 :=
  (encode_masks c).2.2.2.2.2

theorem base64Encode_eq_text (input : Bytes) : base64Encode input = Rfc4648.text input := by
  induction input using group_induction with
  | nil => rfl
  | one a =>
      rw [base64Encode_one, Rfc4648.text_one, base64Char_eq_alphabet _ (sextet0_lt a),
        base64Char_eq_alphabet _ (sextet1_lt a 0), toNat_sextet0, toNat_sextet1]
      rfl
  | two a b =>
      rw [base64Encode_two, Rfc4648.text_two, base64Char_eq_alphabet _ (sextet0_lt a),
        base64Char_eq_alphabet _ (sextet1_lt a b), base64Char_eq_alphabet _ (sextet2_lt b 0),
        toNat_sextet0, toNat_sextet1, toNat_sextet2]
      rfl
  | group a b c rest ih =>
      rw [base64Encode_group, Rfc4648.text_group, base64Char_eq_alphabet _ (sextet0_lt a),
        base64Char_eq_alphabet _ (sextet1_lt a b), base64Char_eq_alphabet _ (sextet2_lt b c),
        base64Char_eq_alphabet _ (sextet3_lt c), toNat_sextet0, toNat_sextet1, toNat_sextet2,
        toNat_sextet3, ih]

/-- **The encoder is the standard one.**  Its text is that of the standard, four
characters for every three bytes begun; every value it looks up is one of the
table; and no two inputs have the same text. -/
theorem base64Encode_standard :
    (∀ input, base64Encode input = Rfc4648.text input ∧
      (base64Encode input).length = 4 * (input.length ⌈/⌉ 3)) ∧
    (base64Chars.length = 64 ∧ ∀ a b c, ∀ i ∈ sextets a b c, i < 64) ∧
    Function.Injective base64Encode := by
  refine ⟨fun input ↦ ⟨base64Encode_eq_text input, ?_⟩, ⟨by decide, ?_⟩, ?_⟩
  · rw [length_base64Encode, Nat.ceilDiv_eq_add_pred_div]
    rfl
  · exact fun a b c i ↦ sextet_lt
  · exact Function.LeftInverse.injective base64Decode_base64Encode

end MyRpc.Base64
