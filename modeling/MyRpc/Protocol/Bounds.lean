import MyRpc.Library.Avoids
import MyRpc.Protocol.RpcProtocol

/-!
# Which inputs the decoders read inside of

The request decoder tests every position before it reads there.  The response
decoder trusts that a body whose total length agrees with the header also
holds its two length prefixes and its eight-byte trailer; `BodyCovered` is
the exact condition on the input under which this trust is justified.  Under this
condition it does not matter what stands behind the input.
-/

namespace MyRpc

open FixedWidth Avoiding

def Fault.IsReadPastEnd (f : Fault) : Prop := ∃ index, f = .readPastEnd index

def lenAt (input : Bytes) (pos : ℕ) : ℕ := leNat (slice input pos 4)

theorem lenAt_lt (input : Bytes) (pos : ℕ) : lenAt input pos < 2 ^ 32 := by
  have hlen : (slice input pos 4).length ≤ 4 := by simp [slice]
  calc
    lenAt input pos < 256 ^ (slice input pos 4).length := leNat_lt _
    _ ≤ 256 ^ 4 := Nat.pow_le_pow_right (by norm_num) hlen
    _ = 2 ^ 32 := by norm_num

@[simp] theorem toNat_lenAt (input : Bytes) (pos : ℕ) :
    (UInt32.ofNat (lenAt input pos)).toNat = lenAt input pos := by
  rw [UInt32.toNat_ofNat', Nat.mod_eq_of_lt (lenAt_lt input pos)]

/-! ## The two primitive reads -/

section Reads

variable {α : Type} {input : Bytes}

theorem avoids_readU32 {pos : ℕ} {f : UInt32 → Except Fault α} :
    Avoids Fault.IsReadPastEnd (readU32 input pos >>= f) ↔
      pos + 4 ≤ input.length ∧
        Avoids Fault.IsReadPastEnd (f (UInt32.ofNat (lenAt input pos))) := by
  refine avoids_bind_of (fun h ↦ readU32_ok h) fun h ↦ ?_
  exact ⟨_, ⟨_, rfl⟩, readU32_error (Nat.lt_of_not_le h)⟩

theorem avoids_substr {pos len : ℕ} {f : Bytes → Except Fault α} :
    Avoids Fault.IsReadPastEnd (substr input pos len >>= f) ↔
      (pos ≤ input.length → Avoids Fault.IsReadPastEnd (f (slice input pos len))) := by
  by_cases h : pos ≤ input.length
  · rw [substr_ok len h, imp_iff_right h]
    rfl
  · have hout : substr input pos len = .error .outOfRange := by
      simp [substr, Nat.lt_of_not_le h]
    have hbind : (Except.error Fault.outOfRange >>= f : Except Fault α) =
        .error .outOfRange := rfl
    rw [hout, hbind, avoids_error]
    exact iff_of_true (by simp [Fault.IsReadPastEnd]) fun h' ↦ absurd h' h

theorem avoids_header {f : RpcHeader → Except Fault α} :
    Avoids Fault.IsReadPastEnd (RpcHeader.read input >>= f) ↔
      RpcHeader.size ≤ input.length ∧
        Avoids Fault.IsReadPastEnd
          (f ⟨UInt32.ofNat (lenAt input 0), UInt32.ofNat (lenAt input 4),
            UInt32.ofNat (lenAt input 8)⟩) := by
  simp only [RpcHeader.read, bind_assoc, avoids_readU32, pure_bind, RpcHeader.size]
  constructor
  · rintro ⟨-, -, h, hf⟩
    exact ⟨h, hf⟩
  · rintro ⟨h, hf⟩
    exact ⟨by omega, by omega, h, hf⟩

/-- Behind the `catch` only a read past the end is left to go wrong. -/
theorem catchException_returns_iff {self : α} {x : Except Fault (Bool × α)} :
    (∃ ok self', catchException self x = .ok (ok, self')) ↔
      Avoids Fault.IsReadPastEnd x := by
  match x with
  | .ok (ok, self') => exact iff_of_true ⟨ok, self', rfl⟩ (avoids_ok _ _)
  | .error .outOfRange | .error .lengthError | .error .badAlloc =>
      refine iff_of_true ⟨false, self, rfl⟩ (avoids_error.mpr ?_)
      simp [Fault.IsReadPastEnd]
  | .error (.readPastEnd index) =>
      refine iff_of_false ?_ fun h ↦ h _ ⟨index, rfl⟩ rfl
      simp [catchException]

/-- A read sees the same number with more bytes behind the input. -/
theorem follows_readU32 (rest : Bytes) (pos : ℕ) :
    Follows Fault.IsReadPastEnd (readU32 input pos) (readU32 (input ++ rest) pos) := by
  intro h
  by_cases hroom : pos + 4 ≤ input.length
  · rw [readU32_ok hroom, readU32_ok (by rw [List.length_append]; omega),
      slice_append_left _ _ _ _ hroom]
  · exact absurd (readU32_error (Nat.lt_of_not_le hroom)) (h _ ⟨_, rfl⟩)

theorem follows_catchException {self : α} {x y : Except Fault (Bool × α)}
    (h : Follows Fault.IsReadPastEnd x y) :
    Follows Fault.IsReadPastEnd (catchException self x) (catchException self y) := by
  intro hcaught
  have hreturns : ∃ ok self', catchException self x = .ok (ok, self') := by
    match x with
    | .ok (ok, self') => exact ⟨ok, self', rfl⟩
    | .error .outOfRange | .error .lengthError | .error .badAlloc => exact ⟨false, self, rfl⟩
    | .error (.readPastEnd index) => exact absurd rfl (hcaught _ ⟨index, rfl⟩)
  rw [h (catchException_returns_iff.mp hreturns)]

end Reads

namespace RpcRequest

/-- The request decoder always comes to a `return`: it never reads behind the
end, whatever the bytes are. -/
theorem deserialize_returns (self : RpcRequest) (input : Bytes) :
    ∃ ok self', deserialize self input = .ok (ok, self') := by
  apply catchException_returns_iff.mpr
  simp only [avoids_ite, avoids_header, avoids_readU32, avoids_substr, avoids_pure,
    toNat_lenAt, implies_true, true_and, and_true]
  intro hsize
  refine ⟨Nat.le_of_not_lt hsize, fun _ hroom₁ ↦ ⟨Nat.le_of_not_lt hroom₁, fun _ _ hroom₂ ↦
    ⟨Nat.le_of_not_lt hroom₂, fun _ _ hroom₃ ↦ Nat.le_of_not_lt hroom₃⟩⟩⟩

end RpcRequest

namespace RpcResponse

/-- Magic number and total length are what the decoder accepts. -/
def HeaderAccepted (input : Bytes) : Prop :=
  RpcHeader.size ≤ input.length ∧
    UInt32.ofNat (lenAt input 0) = RpcHeader.magic ∧
      input.length = RpcHeader.size + lenAt input 4

def messagePos (input : Bytes) : ℕ := RpcHeader.size + 4 + lenAt input RpcHeader.size

def trailerPos (input : Bytes) : ℕ :=
  messagePos input + 4 + lenAt input (messagePos input)

/-- Every part of the body that the decoder comes to lies inside the input:
the first length prefix; if the result data fits, the second one; and if the
error message fits as well, the eight bytes behind it. -/
def BodyCovered (input : Bytes) : Prop :=
  HeaderAccepted input →
    RpcHeader.size + 4 ≤ input.length ∧
      (messagePos input ≤ input.length →
        messagePos input + 4 ≤ input.length ∧
          (trailerPos input ≤ input.length → trailerPos input + 8 ≤ input.length))

theorem deserialize_returns_iff (self : RpcResponse) (input : Bytes) :
    (∃ ok self', deserialize self input = .ok (ok, self')) ↔ BodyCovered input := by
  rw [deserialize, deserializeFrom, catchException_returns_iff]
  simp only [avoids_ite, avoids_header, avoids_readU32, avoids_substr, avoids_pure,
    toNat_lenAt, implies_true, true_and, and_true, ne_eq, not_not, not_lt]
  simp only [BodyCovered, HeaderAccepted, trailerPos, messagePos]
  constructor
  · rintro h ⟨hsize, hmagic, hlength⟩
    obtain ⟨hfirst, hrest⟩ := (h hsize).2 hmagic hlength
    refine ⟨hfirst, fun hdata ↦ ?_⟩
    obtain ⟨hsecond, htrailer⟩ := hrest hdata hfirst
    refine ⟨hsecond, fun hmessage ↦ ?_⟩
    exact (htrailer hmessage hsecond).2
  · intro h hsize
    refine ⟨hsize, fun hmagic hlength ↦ ?_⟩
    obtain ⟨hfirst, hrest⟩ := h ⟨hsize, hmagic, hlength⟩
    refine ⟨hfirst, fun hdata _ ↦ ?_⟩
    obtain ⟨hsecond, htrailer⟩ := hrest hdata
    refine ⟨hsecond, fun hmessage _ ↦ ?_⟩
    exact ⟨(Nat.le_add_right _ 4).trans (htrailer hmessage), htrailer hmessage⟩

/-- Where the decoder does not read behind its input, the byte there changes nothing. -/
theorem follows_deserializeTerminated (self : RpcResponse) (input : Bytes) :
    Follows Fault.IsReadPastEnd (deserialize self input) (deserializeTerminated self input) := by
  refine follows_catchException (follows_ite follows_rfl (follows_bind follows_rfl fun _ ↦ ?_))
  refine follows_ite follows_rfl (follows_ite follows_rfl ?_)
  refine follows_bind (follows_readU32 [0] _) fun _ ↦ follows_ite follows_rfl ?_
  refine follows_bind follows_rfl fun _ ↦ follows_bind (follows_readU32 [0] _) fun _ ↦ ?_
  refine follows_ite follows_rfl (follows_bind follows_rfl fun _ ↦ ?_)
  refine follows_bind (follows_readU32 [0] _) fun _ ↦ ?_
  exact follows_bind (follows_readU32 [0] _) fun _ ↦ follows_rfl

theorem deserializeTerminated_of_ok {self : RpcResponse} {input : Bytes} {r : Bool × RpcResponse}
    (h : deserialize self input = .ok r) : deserializeTerminated self input = .ok r := by
  have hfollows := follows_deserializeTerminated self input
  rw [h] at hfollows
  exact hfollows (avoids_ok _ _)

/-- The three bytes 5, 0, 0 stand for the sequence id, and the terminator completes it. -/
example : deserializeTerminated fresh
    ((RpcHeader.ofBody 15 5).image ++ (List.replicate 12 0 ++ [5, 0, 0])) =
      .ok (true, { fresh with sequenceId := 5 }) := by decide

/-- A header alone, announcing an empty body: the decoder accepts the length
and reads its first length prefix from behind the end. -/
def headerOnly : Bytes := (RpcHeader.ofBody 0 1).image

theorem not_deserialize_headerOnly :
    ¬ ∃ ok self', deserialize fresh headerOnly = .ok (ok, self') := by
  rintro ⟨ok, self', h⟩
  have hpast : deserialize fresh headerOnly = .error (.readPastEnd 12) := by decide
  rw [hpast] at h
  cases h

end RpcResponse

end MyRpc
