import MyRpc.Encrypt.AesEncrypt

/-!
# What `Decrypt` rejects

`Base64Decode` has no error: it stops at the first `=`, and looks up every other
character, those outside of the table as 255.  `Decrypt` rejects a text for its
length only, so that it takes many texts that `Base64Encode` never writes
(`rejects_iff`).
-/

namespace MyRpc

open FixedWidth

namespace Base64

/-- A group that may end a text: full, or with one or two `=` and zeros for the
bits that are not used. -/
def LastGroup (p q r s : UInt8) : Prop :=
  p ∈ base64Chars ∧ q ∈ base64Chars ∧
    (r ∈ base64Chars ∧ s ∈ base64Chars ∨
      r ∈ base64Chars ∧ (base64Map r).toNat % 4 = 0 ∧ s = pad ∨
        (base64Map q).toNat % 16 = 0 ∧ r = pad ∧ s = pad)

/-- Groups of four characters of the table, with padding in the last one only. -/
def WellFormed : Bytes → Prop
  | [] => True
  | [p, q, r, s] => LastGroup p q r s
  | p :: q :: r :: s :: rest => (∀ c ∈ [p, q, r, s], c ∈ base64Chars) ∧ WellFormed rest
  | _ => False

/-- The characters in front of the first `=`. -/
def textLength (input : Bytes) : ℕ := (input.takeWhile (· ≠ pad)).length

/-! ## Well-formed texts are the encodings -/

theorem length_base64Chars : base64Chars.length = 64 := by
  decide

theorem base64Char_mem {i : UInt8} (hi : i < 64) : base64Char i ∈ base64Chars := by
  have hlt : i.toNat < base64Chars.length := by
    rw [length_base64Chars]
    exact UInt8.lt_iff_toNat_lt.mp hi
  rw [base64Char, List.getD_eq_getElem base64Chars 0 hlt]
  exact List.getElem_mem hlt

/-- The table gives the position of a character, where that character stands. -/
theorem base64Char_base64Map {c : UInt8} (hc : c ∈ base64Chars) :
    base64Map c < 64 ∧ base64Char (base64Map c) = c := by
  cases hindex : base64Chars.idxOf? c with
  | none => exact absurd hc (List.idxOf?_eq_none_iff.mp hindex)
  | some i =>
      obtain ⟨hlt, hchar, -⟩ := List.idxOf?_eq_some_iff.mp hindex
      have hsmall : i < 64 := length_base64Chars ▸ hlt
      have htoNat : (UInt8.ofNat i).toNat = i := UInt8.toNat_ofNat_of_lt (hsmall.trans (by decide))
      have hmap : base64Map c = UInt8.ofNat i := by
        rw [base64Map, hindex]
      rw [hmap]
      refine ⟨UInt8.lt_iff_toNat_lt.mpr (htoNat.symm ▸ hsmall), ?_⟩
      rw [base64Char, htoNat, List.getD_eq_getElem base64Chars 0 hlt]
      exact hchar

section Groups

variable {p q r s : UInt8}

theorem sextet0_octet (hp : p < 64) : sextet0 (octet0 p q) = p := by
  have hp' : p.toNat < 64 := UInt8.lt_iff_toNat_lt.mp hp
  apply UInt8.toNat_inj.mp
  simp only [sextet0, octet0, UInt8.toNat_add, encode_masks, decode_masks, toNat_shiftLeft_two]
  omega

theorem sextet1_octet (hp : p < 64) (hq : q < 64) : sextet1 (octet0 p q) (octet1 q r) = q := by
  have hp' : p.toNat < 64 := UInt8.lt_iff_toNat_lt.mp hp
  have hq' : q.toNat < 64 := UInt8.lt_iff_toNat_lt.mp hq
  apply UInt8.toNat_inj.mp
  simp only [sextet1, octet0, octet1, UInt8.toNat_add, encode_masks, decode_masks,
    toNat_shiftLeft_two]
  omega

theorem sextet2_octet (hr : r < 64) (hs : s < 64) : sextet2 (octet1 q r) (octet2 r s) = r := by
  have hr' : r.toNat < 64 := UInt8.lt_iff_toNat_lt.mp hr
  have hs' : s.toNat < 64 := UInt8.lt_iff_toNat_lt.mp hs
  apply UInt8.toNat_inj.mp
  simp only [sextet2, octet1, octet2, UInt8.toNat_add, encode_masks, decode_masks]
  omega

theorem sextet3_octet (hs : s < 64) : sextet3 (octet2 r s) = s := by
  have hs' : s.toNat < 64 := UInt8.lt_iff_toNat_lt.mp hs
  apply UInt8.toNat_inj.mp
  simp only [sextet3, octet2, UInt8.toNat_add, encode_masks, decode_masks]
  omega

theorem sextet1_last (hp : p < 64) (hq : q < 64) (hzero : q.toNat % 16 = 0) :
    sextet1 (octet0 p q) 0 = q := by
  have hp' : p.toNat < 64 := UInt8.lt_iff_toNat_lt.mp hp
  have hq' : q.toNat < 64 := UInt8.lt_iff_toNat_lt.mp hq
  apply UInt8.toNat_inj.mp
  simp only [sextet1, octet0, UInt8.toNat_add, encode_masks, decode_masks, toNat_shiftLeft_two,
    UInt8.toNat_zero]
  omega

theorem sextet2_last (hr : r < 64) (hzero : r.toNat % 4 = 0) : sextet2 (octet1 q r) 0 = r := by
  have hr' : r.toNat < 64 := UInt8.lt_iff_toNat_lt.mp hr
  apply UInt8.toNat_inj.mp
  simp only [sextet2, octet1, UInt8.toNat_add, encode_masks, decode_masks, UInt8.toNat_zero]
  omega

theorem zero_bits_one (a : UInt8) : (sextet1 a 0).toNat % 16 = 0 := by
  simp only [sextet1, UInt8.toNat_add, encode_masks, UInt8.toNat_zero]
  omega

theorem zero_bits_two (b : UInt8) : (sextet2 b 0).toNat % 4 = 0 := by
  simp only [sextet2, UInt8.toNat_add, encode_masks, UInt8.toNat_zero]
  omega

end Groups

theorem wellFormed_group {p q r s : UInt8} {rest : Bytes}
    (h : ∀ c ∈ [p, q, r, s], c ∈ base64Chars) (hrest : WellFormed rest) :
    WellFormed (p :: q :: r :: s :: rest) := by
  cases rest with
  | nil => exact ⟨h p (by simp), h q (by simp), .inl ⟨h r (by simp), h s (by simp)⟩⟩
  | cons x rest => exact ⟨h, hrest⟩

theorem wellFormed_base64Encode (input : Bytes) : WellFormed (base64Encode input) := by
  induction input using group_induction with
  | nil => exact trivial
  | one a =>
      rw [base64Encode_one]
      have hlast := base64Map_base64Char _ (sextet1_lt a 0)
      refine ⟨base64Char_mem (sextet0_lt a), base64Char_mem (sextet1_lt a 0),
        .inr (.inr ⟨?_, rfl, rfl⟩)⟩
      rw [hlast]
      exact zero_bits_one a
  | two a b =>
      rw [base64Encode_two]
      have hlast := base64Map_base64Char _ (sextet2_lt b 0)
      refine ⟨base64Char_mem (sextet0_lt a), base64Char_mem (sextet1_lt a b),
        .inr (.inl ⟨base64Char_mem (sextet2_lt b 0), ?_, rfl⟩)⟩
      rw [hlast]
      exact zero_bits_two b
  | group a b c rest ih =>
      rw [base64Encode_group]
      refine wellFormed_group ?_ ih
      simp [base64Char_mem, sextet0_lt, sextet1_lt, sextet2_lt, sextet3_lt]

theorem base64Encode_octets {p q r s : UInt8} (h : ∀ c ∈ [p, q, r, s], c ∈ base64Chars)
    (rest : Bytes) :
    base64Encode (octet0 (base64Map p) (base64Map q) :: octet1 (base64Map q) (base64Map r) ::
      octet2 (base64Map r) (base64Map s) :: rest) = p :: q :: r :: s :: base64Encode rest := by
  obtain ⟨hp, hpc⟩ := base64Char_base64Map (h p (by simp))
  obtain ⟨hq, hqc⟩ := base64Char_base64Map (h q (by simp))
  obtain ⟨hr, hrc⟩ := base64Char_base64Map (h r (by simp))
  obtain ⟨hs, hsc⟩ := base64Char_base64Map (h s (by simp))
  rw [base64Encode_group, sextet0_octet hp, sextet1_octet hp hq, sextet2_octet hr hs,
    sextet3_octet hs, hpc, hqc, hrc, hsc]

theorem exists_of_lastGroup {p q r s : UInt8} (h : LastGroup p q r s) :
    ∃ b, [p, q, r, s] = base64Encode b := by
  obtain ⟨hp, hq, hend⟩ := h
  obtain ⟨hp', hpc⟩ := base64Char_base64Map hp
  obtain ⟨hq', hqc⟩ := base64Char_base64Map hq
  rcases hend with ⟨hr, hs⟩ | ⟨hr, hzero, rfl⟩ | ⟨hzero, rfl, rfl⟩
  · exact ⟨_, (base64Encode_octets (by simp [hp, hq, hr, hs]) []).symm⟩
  · obtain ⟨hr', hrc⟩ := base64Char_base64Map hr
    refine ⟨[octet0 (base64Map p) (base64Map q), octet1 (base64Map q) (base64Map r)], ?_⟩
    rw [base64Encode_two, sextet0_octet hp', sextet1_octet hp' hq', sextet2_last hr' hzero,
      hpc, hqc, hrc]
  · refine ⟨[octet0 (base64Map p) (base64Map q)], ?_⟩
    rw [base64Encode_one, sextet0_octet hp', sextet1_last hp' hq' hzero, hpc, hqc]

theorem exists_of_wellFormed {input : Bytes} (h : WellFormed input) :
    ∃ b, input = base64Encode b := by
  induction input using WellFormed.induct with
  | case1 => exact ⟨[], rfl⟩
  | case2 p q r s => exact exists_of_lastGroup h
  | case3 p q r s rest hne ih =>
      cases rest with
      | nil => exact absurd rfl hne
      | cons x rest =>
          obtain ⟨hchars, hwell⟩ := h
          obtain ⟨b, hb⟩ := ih hwell
          exact ⟨_, hb ▸ (base64Encode_octets hchars b).symm⟩
  | case4 input hnil hgroup hmore =>
      rw [WellFormed.eq_4 input hnil hgroup hmore] at h
      exact h.elim

theorem wellFormed_iff {input : Bytes} : WellFormed input ↔ ∃ b, input = base64Encode b := by
  constructor
  · exact exists_of_wellFormed
  · rintro ⟨b, rfl⟩
    exact wellFormed_base64Encode b

/-! ## Lengths -/

theorem length_decodeRemainder {pending : Bytes} (h : pending.length < 4) :
    (decodeRemainder pending).length = pending.length - 1 := by
  unfold decodeRemainder
  by_cases hnone : pending.length = 0
  · simp [hnone]
  · simp only [if_neg hnone, octets, List.length_take, List.length_cons, List.length_nil]
    omega

theorem length_decodeLoop {pending : Bytes} (h : pending.length < 4) (input : Bytes) :
    (decodeLoop pending input).length = 3 * ((pending.length + textLength input) / 4) +
      ((pending.length + textLength input) % 4 - 1) := by
  induction input generalizing pending with
  | nil =>
      rw [decodeLoop, length_decodeRemainder h, textLength, List.takeWhile_nil, List.length_nil]
      omega
  | cons x input ih =>
      rw [decodeLoop]
      by_cases hpad : x = pad
      · have hnone : textLength (x :: input) = 0 := by simp [textLength, hpad]
        rw [if_pos hpad, length_decodeRemainder h, hnone]
        omega
      · have hone : textLength (x :: input) = textLength input + 1 := by simp [textLength, hpad]
        rw [if_neg hpad, hone]
        by_cases hfull : pending.length + 1 = 4
        · have hempty := @ih [] (by simp)
          simp only [List.length_append, List.length_cons, List.length_nil, hfull, if_true,
            hempty, octets]
          omega
        · have hmore := @ih (pending ++ [x]) (by simp; omega)
          simp only [List.length_append, List.length_cons, List.length_nil] at hmore
          simp only [List.length_append, List.length_cons, List.length_nil, Nat.zero_add, hfull,
            if_false, hmore]
          omega

theorem length_base64Decode (input : Bytes) :
    (base64Decode input).length = 3 * (textLength input / 4) + (textLength input % 4 - 1) := by
  have h := @length_decodeLoop [] (by simp) input
  rwa [List.length_nil, Nat.zero_add] at h

end Base64

namespace AesEncrypt

open Base64

theorem isSome_decrypt_iff (encryptedData : Bytes) :
    (decrypt encryptedData).isSome = true ↔ 44 ≤ textLength encryptedData := by
  have hlen := length_base64Decode encryptedData
  rw [decrypt]
  by_cases hshort : (base64Decode encryptedData).length ≤ keyLength
  · rw [if_pos hshort]
    unfold keyLength at hshort
    refine iff_of_false (by simp) ?_
    omega
  · rw [if_neg hshort]
    unfold keyLength at hshort
    refine iff_of_true rfl ?_
    omega

/-- **Which texts are rejected as they should be.**  `Decrypt` takes a text for
nothing but the encoding of more than a key's length of bytes exactly when
fewer than 44 characters stand in front of its first `=`, or it is made of full
groups with the padding of an encoding. -/
theorem rejects_iff (encryptedData : Bytes) :
    ((decrypt encryptedData).isSome = true →
      ∃ b : Bytes, keyLength < b.length ∧ encryptedData = base64Encode b) ↔
      textLength encryptedData < 44 ∨ WellFormed encryptedData := by
  rw [isSome_decrypt_iff]
  constructor
  · intro h
    by_cases hlong : 44 ≤ textLength encryptedData
    · obtain ⟨b, -, hb⟩ := h hlong
      exact .inr (wellFormed_iff.mpr ⟨b, hb⟩)
    · exact .inl (Nat.lt_of_not_le hlong)
  · rintro (hshort | hwell) hlong
    · exact absurd hlong (Nat.not_le_of_lt hshort)
    · obtain ⟨b, hb⟩ := wellFormed_iff.mp hwell
      refine ⟨b, ?_, hb⟩
      have hlen := length_base64Decode encryptedData
      rw [hb, base64Decode_base64Encode, ← hb] at hlen
      unfold keyLength
      omega

/-- Exclamation marks, which are not in the table. -/
def shouted : Bytes := List.replicate 44 33

theorem not_rejects_shouted :
    (decrypt shouted).isSome = true ∧
      ¬ ∃ b : Bytes, keyLength < b.length ∧ shouted = base64Encode b := by
  refine ⟨by decide +kernel, ?_⟩
  rintro ⟨b, -, hb⟩
  have hmem : (33 : UInt8) ∈ base64Encode b := hb ▸ by decide
  exact absurd (le_of_mem_base64Encode 33 hmem) (by decide)

end AesEncrypt

end MyRpc
