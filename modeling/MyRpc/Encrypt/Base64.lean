import MyRpc.Library.FixedWidth

/-!
# The Base64 codec of `aes_encrypt.cpp`

Both loops take one byte at a time and collect a group in a small array;
`pending` is the filled part of that array.  The decoder stops at the first
`=` and trusts every other byte: a character outside the table is looked up
as `-1`, that is 255 in an `unsigned char`.

The decoder is the inverse of the encoder on every prefix of an encoding as
well (`base64Decode_take`), which is what a receiver with a wrong length in
its hands computes.
-/

namespace MyRpc.Base64

open FixedWidth

def base64Chars : Bytes :=
  "ABCDEFGHIJKLMNOPQRSTUVWXYZabcdefghijklmnopqrstuvwxyz0123456789+/".toList.map
    fun c ↦ UInt8.ofNat c.toNat

def pad : UInt8 := 61

def base64Char (i : UInt8) : UInt8 := base64Chars.getD i.toNat 0

/-- `base64_map[c]` as stored into an `unsigned char`. -/
def base64Map (c : UInt8) : UInt8 :=
  match base64Chars.idxOf? c with
  | some i => UInt8.ofNat i
  | none => 255

/-! `char_array_4` from the three bytes of `char_array_3`. -/

def sextet0 (a : UInt8) : UInt8 := (a &&& 0xfc) >>> 2

def sextet1 (a b : UInt8) : UInt8 := ((a &&& 0x03) <<< 4) + ((b &&& 0xf0) >>> 4)

def sextet2 (b c : UInt8) : UInt8 := ((b &&& 0x0f) <<< 2) + ((c &&& 0xc0) >>> 6)

def sextet3 (c : UInt8) : UInt8 := c &&& 0x3f

def sextets (a b c : UInt8) : Bytes := [sextet0 a, sextet1 a b, sextet2 b c, sextet3 c]

/-! `char_array_3` from the four values of `char_array_4`. -/

def octet0 (p q : UInt8) : UInt8 := (p <<< 2) + ((q &&& 0x30) >>> 4)

def octet1 (q r : UInt8) : UInt8 := ((q &&& 0xf) <<< 4) + ((r &&& 0x3c) >>> 2)

def octet2 (r s : UInt8) : UInt8 := ((r &&& 0x3) <<< 6) + s

def octets (p q r s : UInt8) : Bytes := [octet0 p q, octet1 q r, octet2 r s]

def encodeRemainder (pending : Bytes) : Bytes :=
  let i := pending.length
  if i = 0 then []
  else
    ((sextets (pending.getD 0 0) (pending.getD 1 0) (pending.getD 2 0)).take (i + 1)).map
      base64Char ++ List.replicate (3 - i) pad

def encodeLoop : Bytes → Bytes → Bytes
  | pending, [] => encodeRemainder pending
  | pending, x :: input =>
      let charArray3 := pending ++ [x]
      if charArray3.length = 3 then
        (sextets (charArray3.getD 0 0) (charArray3.getD 1 0) (charArray3.getD 2 0)).map
          base64Char ++ encodeLoop [] input
      else encodeLoop charArray3 input

def base64Encode (input : Bytes) : Bytes := encodeLoop [] input

/-- The bytes of a group that the input ends in: the array is filled up with
zeros, which are then looked up like the other characters. -/
def decodeRemainder (pending : Bytes) : Bytes :=
  let i := pending.length
  if i = 0 then []
  else
    (octets (base64Map (pending.getD 0 0)) (base64Map (pending.getD 1 0))
      (base64Map (pending.getD 2 0)) (base64Map (pending.getD 3 0))).take (i - 1)

def decodeLoop : Bytes → Bytes → Bytes
  | pending, [] => decodeRemainder pending
  | pending, x :: input =>
      if x = pad then decodeRemainder pending
      else
        let charArray4 := pending ++ [x]
        if charArray4.length = 4 then
          octets (base64Map (charArray4.getD 0 0)) (base64Map (charArray4.getD 1 0))
            (base64Map (charArray4.getD 2 0)) (base64Map (charArray4.getD 3 0)) ++
              decodeLoop [] input
        else decodeLoop charArray4 input

def base64Decode (input : Bytes) : Bytes := decodeLoop [] input

/-! ## One character -/

theorem base64Map_base64Char : ∀ i : UInt8, i < 64 → base64Map (base64Char i) = i := by
  decide +kernel

theorem base64Char_ne_pad : ∀ i : UInt8, i < 64 → base64Char i ≠ pad := by
  decide +kernel

theorem le_base64Char : ∀ i : UInt8, i < 64 → 43 ≤ base64Char i := by
  decide +kernel

/-- The parts of a byte that go into sextets, as numbers. -/
theorem encode_masks : ∀ a : UInt8,
    ((a &&& 0xfc) >>> 2).toNat = a.toNat / 4 ∧
      ((a &&& 0x03) <<< 4).toNat = a.toNat % 4 * 16 ∧
      ((a &&& 0xf0) >>> 4).toNat = a.toNat / 16 ∧
      ((a &&& 0x0f) <<< 2).toNat = a.toNat % 16 * 4 ∧
      ((a &&& 0xc0) >>> 6).toNat = a.toNat / 64 ∧
      (a &&& 0x3f).toNat = a.toNat % 64 := by
  decide +kernel

/-- The parts of a table value that go into bytes, as numbers. -/
theorem decode_masks : ∀ p : UInt8,
    ((p &&& 0x30) >>> 4).toNat = p.toNat % 64 / 16 ∧
      ((p &&& 0xf) <<< 4).toNat = p.toNat % 16 * 16 ∧
      ((p &&& 0x3c) >>> 2).toNat = p.toNat % 64 / 4 ∧
      ((p &&& 0x3) <<< 6).toNat = p.toNat % 4 * 64 := by
  decide +kernel

theorem toNat_shiftLeft_two (p : UInt8) : (p <<< 2).toNat = p.toNat * 4 % 256 := by
  simp [UInt8.toNat_shiftLeft, Nat.shiftLeft_eq]

/-! ## One group -/

theorem sextet0_lt (a : UInt8) : sextet0 a < 64 := by
  have ha : a.toNat < 256 := a.toNat_lt
  simp only [sextet0, UInt8.lt_iff_toNat_lt, encode_masks, UInt8.toNat_ofNat]
  omega

theorem sextet1_lt (a b : UInt8) : sextet1 a b < 64 := by
  have hb : b.toNat < 256 := b.toNat_lt
  simp only [sextet1, UInt8.lt_iff_toNat_lt, UInt8.toNat_add, encode_masks,
    UInt8.toNat_ofNat]
  omega

theorem sextet2_lt (b c : UInt8) : sextet2 b c < 64 := by
  have hc : c.toNat < 256 := c.toNat_lt
  simp only [sextet2, UInt8.lt_iff_toNat_lt, UInt8.toNat_add, encode_masks,
    UInt8.toNat_ofNat]
  omega

theorem sextet3_lt (c : UInt8) : sextet3 c < 64 := by
  simp only [sextet3, UInt8.lt_iff_toNat_lt, encode_masks, UInt8.toNat_ofNat]
  omega

theorem octet0_sextet (a b : UInt8) : octet0 (sextet0 a) (sextet1 a b) = a := by
  have ha : a.toNat < 256 := a.toNat_lt
  have hb : b.toNat < 256 := b.toNat_lt
  apply UInt8.toNat_inj.mp
  simp only [octet0, sextet0, sextet1, UInt8.toNat_add, encode_masks, decode_masks,
    toNat_shiftLeft_two]
  omega

theorem octet1_sextet (a b c : UInt8) : octet1 (sextet1 a b) (sextet2 b c) = b := by
  have hb : b.toNat < 256 := b.toNat_lt
  have hc : c.toNat < 256 := c.toNat_lt
  apply UInt8.toNat_inj.mp
  simp only [octet1, sextet1, sextet2, UInt8.toNat_add, encode_masks, decode_masks]
  omega

theorem octet2_sextet (b c : UInt8) : octet2 (sextet2 b c) (sextet3 c) = c := by
  have hc : c.toNat < 256 := c.toNat_lt
  apply UInt8.toNat_inj.mp
  simp only [octet2, sextet2, sextet3, UInt8.toNat_add, encode_masks, decode_masks]
  omega

/-! ## Encoding by groups -/

theorem base64Encode_nil : base64Encode [] = [] := rfl

theorem base64Encode_one (a : UInt8) :
    base64Encode [a] =
      [base64Char (sextet0 a), base64Char (sextet1 a 0), pad, pad] := by
  simp [base64Encode, encodeLoop, encodeRemainder, sextets]

theorem base64Encode_two (a b : UInt8) :
    base64Encode [a, b] =
      [base64Char (sextet0 a), base64Char (sextet1 a b), base64Char (sextet2 b 0), pad] := by
  simp [base64Encode, encodeLoop, encodeRemainder, sextets]

theorem base64Encode_group (a b c : UInt8) (rest : Bytes) :
    base64Encode (a :: b :: c :: rest) =
      base64Char (sextet0 a) :: base64Char (sextet1 a b) :: base64Char (sextet2 b c) ::
        base64Char (sextet3 c) :: base64Encode rest := by
  simp [base64Encode, encodeLoop, sextets]

theorem group_induction {motive : Bytes → Prop} (nil : motive []) (one : ∀ a, motive [a])
    (two : ∀ a b, motive [a, b])
    (group : ∀ a b c rest, motive rest → motive (a :: b :: c :: rest)) :
    ∀ input, motive input
  | [] => nil
  | [a] => one a
  | [a, b] => two a b
  | a :: b :: c :: rest =>
      group a b c rest (group_induction nil one two group rest)

theorem length_base64Encode (input : Bytes) :
    (base64Encode input).length = 4 * ((input.length + 2) / 3) := by
  induction input using group_induction with
  | nil => rfl
  | one a => simp [base64Encode_one]
  | two a b => simp [base64Encode_two]
  | group a b c rest ih =>
      simp only [base64Encode_group, List.length_cons, ih]
      omega

/-- Everything the encoder writes lies above the control characters, the
digits' first neighbour `+` being the least. -/
theorem le_of_mem_base64Encode {input : Bytes} : ∀ x ∈ base64Encode input, 43 ≤ x := by
  have hpad : (43 : UInt8) ≤ pad := by decide
  induction input using group_induction with
  | nil => simp [base64Encode_nil]
  | one a =>
      simp [base64Encode_one, hpad, le_base64Char, sextet0_lt, sextet1_lt]
  | two a b =>
      simp [base64Encode_two, hpad, le_base64Char, sextet0_lt, sextet1_lt, sextet2_lt]
  | group a b c rest ih =>
      simp only [base64Encode_group, List.forall_mem_cons]
      exact ⟨le_base64Char _ (sextet0_lt a), le_base64Char _ (sextet1_lt a b),
        le_base64Char _ (sextet2_lt b c), le_base64Char _ (sextet3_lt c), ih⟩

/-! ## Decoding an encoding -/

section Decode

variable {p q r s : UInt8}

theorem base64Decode_group (rest : Bytes) (hp : p < 64) (hq : q < 64) (hr : r < 64)
    (hs : s < 64) :
    base64Decode (base64Char p :: base64Char q :: base64Char r :: base64Char s :: rest) =
      octet0 p q :: octet1 q r :: octet2 r s :: base64Decode rest := by
  simp [base64Decode, decodeLoop, octets, base64Char_ne_pad, base64Map_base64Char, *]

theorem base64Decode_nil : base64Decode [] = [] := rfl

theorem base64Decode_one (hp : p < 64) : base64Decode [base64Char p] = [] := by
  simp [base64Decode, decodeLoop, decodeRemainder, base64Char_ne_pad, *]

theorem base64Decode_two (n : ℕ) (hp : p < 64) (hq : q < 64) :
    base64Decode (base64Char p :: base64Char q :: List.replicate n pad) = [octet0 p q] := by
  cases n <;> simp [base64Decode, decodeLoop, decodeRemainder, octets, List.replicate_succ,
    base64Char_ne_pad, base64Map_base64Char, *]

theorem base64Decode_three (n : ℕ) (hp : p < 64) (hq : q < 64) (hr : r < 64) :
    base64Decode (base64Char p :: base64Char q :: base64Char r :: List.replicate n pad) =
      [octet0 p q, octet1 q r] := by
  cases n <;> simp [base64Decode, decodeLoop, decodeRemainder, octets, List.replicate_succ,
    base64Char_ne_pad, base64Map_base64Char, *]

end Decode

/-- The first `n` characters of an encoding hold three bytes for every four
characters, and nothing else. -/
theorem base64Decode_take (input : Bytes) (n : ℕ) :
    base64Decode ((base64Encode input).take n) = input.take (3 * n / 4) := by
  induction input using group_induction generalizing n with
  | nil => simp [base64Encode_nil, base64Decode_nil]
  | one a =>
      rw [base64Encode_one]
      match n with
      | 0 => simp [base64Decode_nil]
      | 1 => simpa using base64Decode_one (sextet0_lt a)
      | n + 2 =>
          have hfull : [a].take (3 * (n + 2) / 4) = [a] :=
            List.take_of_length_le (by simp; omega)
          have hpads : ([pad, pad] : Bytes).take n = List.replicate (min n 2) pad := by
            simpa using List.take_replicate (i := n) (n := 2) (a := pad)
          rw [hfull, List.take_succ_cons, List.take_succ_cons, hpads,
            base64Decode_two _ (sextet0_lt a) (sextet1_lt a 0), octet0_sextet]
  | two a b =>
      rw [base64Encode_two]
      match n with
      | 0 => simp [base64Decode_nil]
      | 1 => simpa using base64Decode_one (sextet0_lt a)
      | 2 =>
          have h := base64Decode_two 0 (sextet0_lt a) (sextet1_lt a b)
          simpa [octet0_sextet] using h
      | n + 3 =>
          have hfull : [a, b].take (3 * (n + 3) / 4) = [a, b] :=
            List.take_of_length_le (by simp; omega)
          have hpads : ([pad] : Bytes).take n = List.replicate (min n 1) pad := by
            simpa using List.take_replicate (i := n) (n := 1) (a := pad)
          rw [hfull, List.take_succ_cons, List.take_succ_cons, List.take_succ_cons, hpads,
            base64Decode_three _ (sextet0_lt a) (sextet1_lt a b) (sextet2_lt b 0),
            octet0_sextet, octet1_sextet]
  | group a b c rest ih =>
      rw [base64Encode_group]
      match n with
      | 0 => simp [base64Decode_nil]
      | 1 => simpa using base64Decode_one (sextet0_lt a)
      | 2 =>
          have h := base64Decode_two 0 (sextet0_lt a) (sextet1_lt a b)
          simpa [octet0_sextet] using h
      | 3 =>
          have h := base64Decode_three 0 (sextet0_lt a) (sextet1_lt a b) (sextet2_lt b c)
          simpa [octet0_sextet, octet1_sextet] using h
      | n + 4 =>
          have hcount : 3 * (n + 4) / 4 = 3 * n / 4 + 3 := by omega
          rw [hcount]
          simp only [List.take_succ_cons]
          rw [base64Decode_group _ (sextet0_lt a) (sextet1_lt a b) (sextet2_lt b c)
            (sextet3_lt c), octet0_sextet, octet1_sextet, octet2_sextet, ih]

/-- **Base64 round trip.** -/
theorem base64Decode_base64Encode (input : Bytes) :
    base64Decode (base64Encode input) = input := by
  have hall := base64Decode_take input (base64Encode input).length
  rw [List.take_length, length_base64Encode] at hall
  rw [hall]
  exact List.take_of_length_le (by omega)

end MyRpc.Base64
