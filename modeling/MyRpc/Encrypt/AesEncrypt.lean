import MyRpc.Encrypt.Base64

/-!
# The double shift cipher of `AesEncrypt`

A message is shifted byte by byte with a session key drawn for it, the
session key is shifted with the fixed master key, and the Base64 image of the
two behind each other is what travels.  `Decrypt` undoes the three stages
(`decrypt_encrypt`), and on the front part of a ciphertext it yields the front
part of the message (`decrypt_take_encrypt`).
-/

namespace MyRpc

open FixedWidth Base64

namespace AesEncrypt

def keyLength : ℕ := 32

def masterKey : Bytes :=
  "MyRPC_Secret_Key_2026_Production!@#$%^&*".toList.map fun c ↦ UInt8.ofNat c.toNat

/-- A result of `GenerateRandomBytes(KEY_LENGTH)`. -/
structure SessionKey where
  bytes : Bytes
  length_eq : bytes.length = keyLength

def zeroKey : SessionKey := ⟨List.replicate keyLength 0, List.length_replicate⟩

def keyByte (key : Bytes) (i : ℕ) : UInt8 := key.getD (i % key.length) 0

def shiftEncrypt (input key : Bytes) : Bytes :=
  input.mapIdx fun i c ↦
    let k := keyByte key i
    let shift := i % 256
    UInt8.ofNat ((c.toNat + k.toNat + shift) % 256)

/-- `AesEncrypt::ShiftDecrypt`; the arithmetic is that of `int`, where `%`
truncates. -/
def shiftDecrypt (input key : Bytes) : Bytes :=
  input.mapIdx fun i c ↦
    let k := keyByte key i
    let shift := i % 256
    UInt8.ofInt ((((c.toNat : ℤ) - k.toNat - shift + 512)).tmod 256)

/-- `AesEncrypt::Encrypt` with the session key it draws. -/
def encrypt (sessionKey : SessionKey) (data : Bytes) : Option Bytes :=
  if data.isEmpty then none
  else
    let encrypted := shiftEncrypt data sessionKey.bytes
    let encryptedKey := shiftEncrypt sessionKey.bytes masterKey
    some (base64Encode (encryptedKey ++ encrypted))

def decrypt (encryptedData : Bytes) : Option Bytes :=
  let decoded := base64Decode encryptedData
  if decoded.length ≤ keyLength then none
  else
    let encryptedKey := decoded.take keyLength
    let encryptedDataPart := decoded.drop keyLength
    let sessionKey := shiftDecrypt encryptedKey masterKey
    some (shiftDecrypt encryptedDataPart sessionKey)

/-! ## The shifts -/

@[simp] theorem length_shiftEncrypt (input key : Bytes) :
    (shiftEncrypt input key).length = input.length := by
  simp [shiftEncrypt]

@[simp] theorem length_shiftDecrypt (input key : Bytes) :
    (shiftDecrypt input key).length = input.length := by
  simp [shiftDecrypt]

theorem shift_byte (c k : UInt8) (shift : ℕ) (hshift : shift < 256) :
    UInt8.ofInt ((((UInt8.ofNat ((c.toNat + k.toNat + shift) % 256)).toNat : ℤ) -
      k.toNat - shift + 512).tmod 256) = c := by
  have hc : c.toNat < 256 := c.toNat_lt
  have hk : k.toNat < 256 := k.toNat_lt
  have hback : (((UInt8.ofNat ((c.toNat + k.toNat + shift) % 256)).toNat : ℤ) -
      k.toNat - shift + 512).tmod 256 = (c.toNat : ℤ) := by
    rw [UInt8.toNat_ofNat', Int.tmod_eq_emod_of_nonneg (by omega)]
    omega
  have hwrap : ((c.toNat : ℤ) % 256).toNat = c.toNat := by omega
  rw [hback]
  simp [UInt8.ofInt, hwrap]

theorem shiftDecrypt_shiftEncrypt (input key : Bytes) :
    shiftDecrypt (shiftEncrypt input key) key = input := by
  refine List.ext_getElem (by simp) fun i _ hi ↦ ?_
  simp only [shiftDecrypt, shiftEncrypt, List.getElem_mapIdx]
  exact shift_byte _ _ _ (Nat.mod_lt _ (by norm_num))

theorem shiftDecrypt_take (input key : Bytes) (n : ℕ) :
    shiftDecrypt (input.take n) key = (shiftDecrypt input key).take n := by
  refine List.ext_getElem (by simp) fun i _ _ ↦ ?_
  simp [shiftDecrypt]

/-! ## Encryption and decryption -/

theorem encrypt_eq_some {sessionKey : SessionKey} {data cipher : Bytes}
    (h : encrypt sessionKey data = some cipher) :
    data ≠ [] ∧ cipher = base64Encode
      (shiftEncrypt sessionKey.bytes masterKey ++ shiftEncrypt data sessionKey.bytes) := by
  by_cases hdata : data = []
  · simp [encrypt, hdata] at h
  · refine ⟨hdata, ?_⟩
    rw [encrypt, if_neg (by simpa using hdata)] at h
    exact (Option.some.inj h).symm

theorem length_encrypt {sessionKey : SessionKey} {data cipher : Bytes}
    (h : encrypt sessionKey data = some cipher) :
    cipher.length = 4 * ((keyLength + data.length + 2) / 3) := by
  obtain ⟨-, rfl⟩ := encrypt_eq_some h
  simp [length_base64Encode, sessionKey.length_eq]

/-- What `Decrypt` makes of the first `n` bytes of a ciphertext. -/
theorem decrypt_take_encrypt {sessionKey : SessionKey} {data cipher : Bytes}
    (h : encrypt sessionKey data = some cipher) (n : ℕ) :
    decrypt (cipher.take n) =
      if (data.take (3 * n / 4 - keyLength)).isEmpty then none
      else some (data.take (3 * n / 4 - keyLength)) := by
  obtain ⟨hdata, rfl⟩ := encrypt_eq_some h
  have hkey : (shiftEncrypt sessionKey.bytes masterKey).length = keyLength := by
    simp [sessionKey.length_eq]
  have hempty : (data.take (3 * n / 4 - keyLength)).isEmpty = true ↔
      3 * n / 4 ≤ keyLength := by
    simp [hdata, Nat.sub_eq_zero_iff_le]
  rw [decrypt, base64Decode_take]
  by_cases hn : 3 * n / 4 ≤ keyLength
  · have hshort : ((shiftEncrypt sessionKey.bytes masterKey ++
        shiftEncrypt data sessionKey.bytes).take (3 * n / 4)).length ≤ keyLength :=
      (List.length_take_le _ _).trans hn
    rw [if_pos hshort, if_pos (hempty.mpr hn)]
  · have hpos : 0 < data.length := List.length_pos_iff.mpr hdata
    have hlong : ¬ ((shiftEncrypt sessionKey.bytes masterKey ++
        shiftEncrypt data sessionKey.bytes).take (3 * n / 4)).length ≤ keyLength := by
      simp only [List.length_take, List.length_append, hkey, length_shiftEncrypt]
      omega
    have hfront : ((shiftEncrypt sessionKey.bytes masterKey ++
        shiftEncrypt data sessionKey.bytes).take (3 * n / 4)).take keyLength =
          shiftEncrypt sessionKey.bytes masterKey := by
      rw [List.take_take, Nat.min_eq_left (by omega), ← hkey, List.take_left]
    have hback : ((shiftEncrypt sessionKey.bytes masterKey ++
        shiftEncrypt data sessionKey.bytes).take (3 * n / 4)).drop keyLength =
          (shiftEncrypt data sessionKey.bytes).take (3 * n / 4 - keyLength) := by
      rw [List.drop_take, ← hkey, List.drop_left]
    rw [if_neg hlong, if_neg (mt hempty.mp hn)]
    simp only [hfront, hback, shiftDecrypt_shiftEncrypt, shiftDecrypt_take]

/-- **Decryption inverts encryption.** -/
theorem decrypt_encrypt {sessionKey : SessionKey} {data cipher : Bytes}
    (h : encrypt sessionKey data = some cipher) : decrypt cipher = some data := by
  have hdata := (encrypt_eq_some h).1
  have hfull : data.take (3 * cipher.length / 4 - keyLength) = data := by
    apply List.take_of_length_le
    rw [length_encrypt h]
    omega
  have hall := decrypt_take_encrypt h cipher.length
  rw [List.take_length, hfull] at hall
  simpa [hdata] using hall

end AesEncrypt

end MyRpc
