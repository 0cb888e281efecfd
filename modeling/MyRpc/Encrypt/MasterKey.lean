import MyRpc.Encrypt.AesEncrypt

/-!
# The cipher with any master key

`master_key_` is a member, which the constructor sets to the one constant of the
deployment.  Nothing depends on which key that is, as long as there is one
(`decrypts_encrypted`).
-/

namespace MyRpc.AesEncrypt

open FixedWidth Base64

/-- An object of the class. -/
structure Cipher where
  masterKey : Bytes
  ne_nil : masterKey ≠ []

/-- What the constructor makes. -/
def deployed : Cipher := ⟨masterKey, by decide⟩

/-- `c - k - shift + 512`, where `shift` is the position modulo 256. -/
def unshifted (c k : UInt8) (i : ℕ) : ℤ := (c.toNat : ℤ) - k.toNat - (i % 256 : ℕ) + 512

theorem shiftDecrypt_eq (input key : Bytes) :
    shiftDecrypt input key =
      input.mapIdx fun i c ↦ UInt8.ofInt ((unshifted c (keyByte key i) i).tmod 256) :=
  rfl

theorem unshifted_bounds (c k : UInt8) (i : ℕ) :
    0 ≤ unshifted c k i ∧ unshifted c k i < 2 ^ 31 := by
  have hc : c.toNat < 256 := c.toNat_lt
  have hk : k.toNat < 256 := k.toNat_lt
  unfold unshifted
  omega

theorem keyByte_mem {key : Bytes} (hne : key ≠ []) (i : ℕ) : keyByte key i ∈ key := by
  have hlt : i % key.length < key.length := Nat.mod_lt _ (List.length_pos_iff.mpr hne)
  rw [keyByte, List.getD_eq_getElem key 0 hlt]
  exact List.getElem_mem hlt

namespace Cipher

def encrypt (self : Cipher) (sessionKey : SessionKey) (data : Bytes) : Option Bytes :=
  if data.isEmpty then none
  else
    let encrypted := shiftEncrypt data sessionKey.bytes
    let encryptedKey := shiftEncrypt sessionKey.bytes self.masterKey
    some (base64Encode (encryptedKey ++ encrypted))

def decrypt (self : Cipher) (encryptedData : Bytes) : Option Bytes :=
  let decoded := base64Decode encryptedData
  if decoded.length ≤ keyLength then none
  else
    let encryptedKey := decoded.take keyLength
    let encryptedDataPart := decoded.drop keyLength
    let sessionKey := shiftDecrypt encryptedKey self.masterKey
    some (shiftDecrypt encryptedDataPart sessionKey)

theorem deployed_eq :
    deployed.encrypt = AesEncrypt.encrypt ∧ deployed.decrypt = AesEncrypt.decrypt :=
  ⟨rfl, rfl⟩

theorem encrypt_of_ne (self : Cipher) (sessionKey : SessionKey) {data : Bytes}
    (hdata : data ≠ []) :
    self.encrypt sessionKey data = some (base64Encode
      (shiftEncrypt sessionKey.bytes self.masterKey ++ shiftEncrypt data sessionKey.bytes)) := by
  rw [encrypt, if_neg (by simpa using hdata)]

theorem decrypt_base64Encode (self : Cipher) (sessionKey : SessionKey) {data : Bytes}
    (hdata : data ≠ []) :
    self.decrypt (base64Encode (shiftEncrypt sessionKey.bytes self.masterKey ++
      shiftEncrypt data sessionKey.bytes)) = some data := by
  have hpos : 0 < data.length := List.length_pos_iff.mpr hdata
  have hkey : (shiftEncrypt sessionKey.bytes self.masterKey).length = keyLength := by
    rw [length_shiftEncrypt, sessionKey.length_eq]
  have hlong : ¬ (shiftEncrypt sessionKey.bytes self.masterKey ++
      shiftEncrypt data sessionKey.bytes).length ≤ keyLength := by
    rw [List.length_append, hkey, length_shiftEncrypt]
    omega
  rw [decrypt, base64Decode_base64Encode, if_neg hlong]
  simp only [List.take_left' hkey, List.drop_left' hkey, shiftDecrypt_shiftEncrypt]

/-- **Decryption inverts encryption, with any key.**  The indices of the decoder
and the `int` values of the shifts stay in their range, and every byte of a key
that is used lies in the key. -/
theorem decrypts_encrypted (self : Cipher) (sessionKey : SessionKey) {data : Bytes}
    (hdata : data ≠ []) (hlen : data.length < 2 ^ 30) :
    (∃ ciphertext, self.encrypt sessionKey data = some ciphertext ∧
      ciphertext.length < 2 ^ 31 ∧ self.decrypt ciphertext = some data) ∧
    (∀ c k i, 0 ≤ unshifted c k i ∧ unshifted c k i < 2 ^ 31) ∧
    ∀ i, keyByte self.masterKey i ∈ self.masterKey ∧
      keyByte sessionKey.bytes i ∈ sessionKey.bytes := by
  refine ⟨⟨_, self.encrypt_of_ne sessionKey hdata, ?_, self.decrypt_base64Encode sessionKey hdata⟩,
    unshifted_bounds, fun i ↦ ⟨keyByte_mem self.ne_nil i, keyByte_mem ?_ i⟩⟩
  · rw [length_base64Encode, List.length_append, length_shiftEncrypt, length_shiftEncrypt,
      sessionKey.length_eq]
    unfold keyLength
    omega
  · intro hnil
    have hlength := sessionKey.length_eq
    rw [hnil] at hlength
    cases hlength

/-- The session key 1, 8, 15, ..., and a master key of another length. -/
def countingKey : SessionKey where
  bytes := (List.range keyLength).map fun i ↦ UInt8.ofNat (7 * i + 1)
  length_eq := by simp

def oddCipher : Cipher := ⟨[0xff, 7, 0x80, 0, 42], by decide⟩

theorem decrypts_encrypted_bytes :
    ∃ ciphertext, oddCipher.encrypt countingKey [0, 0xff, 42, 0x80, 7, 7] = some ciphertext ∧
      oddCipher.decrypt ciphertext = some [0, 0xff, 42, 0x80, 7, 7] := by
  obtain ⟨⟨ciphertext, hencrypt, -, hdecrypt⟩, -⟩ := @decrypts_encrypted oddCipher countingKey
    [0, 0xff, 42, 0x80, 7, 7] (by decide) (by decide)
  exact ⟨ciphertext, hencrypt, hdecrypt⟩

end Cipher

end MyRpc.AesEncrypt
