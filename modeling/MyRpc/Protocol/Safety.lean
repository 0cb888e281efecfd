import MyRpc.Protocol.Acceptance

/-!
# The request decoder stays inside of its input

The decoder once more, with every position, every subtraction and every copy
checked where it happens, and nothing to catch an exception.  It never fails,
and it computes what the decoder computes (`reads_safely`).
-/

namespace MyRpc

open FixedWidth

/-- What a check can find: a copy that is out of range, an addition to a
position behind the end, or a subtraction below zero. -/
inductive Violation
  | fault (f : Fault)
  | positionPastEnd
  | underflow
  deriving DecidableEq, Repr

def liftFault {α : Type} : Except Fault α → Except Violation α
  | .ok a => .ok a
  | .error f => .error (.fault f)

/-- `pos + k`, which `std::string::max_size` keeps from overflowing for a
position inside of the string. -/
def plus (input : Bytes) (pos k : ℕ) : Except Violation ℕ :=
  if pos ≤ input.length then .ok (pos + k) else .error .positionPastEnd

def minus (a b : ℕ) : Except Violation ℕ := if b ≤ a then .ok (a - b) else .error .underflow

/-- The block of `Deserialize` for one length-prefixed string. -/
def carefulString (input : Bytes) (pos : ℕ) : Except Violation (Option (Bytes × ℕ)) := do
  if (← plus input pos 4) > input.length then return none
  let len ← liftFault (readU32 input pos)
  let pos ← plus input pos 4
  let room ← minus input.length pos
  if len.toNat > room then return none
  let s ← liftFault (substr input pos len.toNat)
  let pos ← plus input pos len.toNat
  return some (s, pos)

theorem carefulString_eq {input : Bytes} {pos : ℕ} (h : pos ≤ input.length) :
    carefulString input pos = .ok
      (if pos + 4 + lenAt input pos ≤ input.length then
        some (slice input (pos + 4) (lenAt input pos), pos + 4 + lenAt input pos)
      else none) := by
  unfold carefulString
  simp only [plus, if_pos h]
  by_cases hprefix : pos + 4 ≤ input.length
  · have hlen : (UInt32.ofNat (leNat (slice input pos 4))).toNat = lenAt input pos :=
      toNat_lenAt input pos
    simp only [readU32_ok hprefix, minus, if_pos hprefix, liftFault, hlen,
      substr_ok (lenAt input pos) hprefix, bind, Except.bind, pure, Except.pure,
      if_neg (Nat.not_lt.mpr hprefix)]
    by_cases hfits : pos + 4 + lenAt input pos ≤ input.length
    · rw [if_neg (by omega), if_pos hfits]
    · rw [if_pos (by omega), if_neg hfits]
  · have hlong : ¬ pos + 4 + lenAt input pos ≤ input.length := by omega
    simp only [bind, Except.bind, pure, Except.pure, if_pos (Nat.lt_of_not_le hprefix),
      if_neg hlong]

theorem carefulString_bind {α : Type} {input : Bytes} {pos : ℕ} (h : pos ≤ input.length)
    (f : Option (Bytes × ℕ) → Except Violation α) :
    (carefulString input pos >>= f) =
      if pos + 4 + lenAt input pos ≤ input.length then
        f (some (slice input (pos + 4) (lenAt input pos), pos + 4 + lenAt input pos))
      else f none := by
  rw [carefulString_eq h]
  by_cases hfits : pos + 4 + lenAt input pos ≤ input.length
  · rw [if_pos hfits, if_pos hfits]
    rfl
  · rw [if_neg hfits, if_neg hfits]
    rfl

namespace RpcRequest

def careful (self : RpcRequest) (input : Bytes) : Except Violation (Bool × RpcRequest) := do
  if input.length < RpcHeader.size then return (false, self)
  let header ← liftFault (RpcHeader.read input)
  if header.magicNumber ≠ RpcHeader.magic then return (false, self)
  match ← carefulString input RpcHeader.size with
  | none => return (false, self)
  | some (serviceName, pos) =>
      let self := { self with serviceName }
      match ← carefulString input pos with
      | none => return (false, self)
      | some (methodName, pos) =>
          let self := { self with methodName }
          match ← carefulString input pos with
          | none => return (false, self)
          | some (payload, _) =>
              return (true, { self with payload, sequenceId := header.sequenceId })

/-- How far the decoder gets: each field is assigned when it fits. -/
def outcome (self : RpcRequest) (input : Bytes) : Bool × RpcRequest :=
  if RpcHeader.size ≤ input.length ∧ UInt32.ofNat (lenAt input 0) = RpcHeader.magic then
    if methodPos input ≤ input.length then
      if payloadPos input ≤ input.length then
        if endPos input ≤ input.length then (true, decoded input)
        else
          (false, { self with
            serviceName := (decoded input).serviceName
            methodName := (decoded input).methodName })
      else (false, { self with serviceName := (decoded input).serviceName })
    else (false, self)
  else (false, self)

theorem careful_eq (self : RpcRequest) (input : Bytes) :
    careful self input = .ok (outcome self input) := by
  unfold careful outcome
  by_cases hsize : RpcHeader.size ≤ input.length
  · rw [if_neg (Nat.not_lt.mpr hsize), RpcHeader.read_ok hsize]
    by_cases hmagic : UInt32.ofNat (lenAt input 0) = RpcHeader.magic
    · rw [if_pos ⟨hsize, hmagic⟩]
      show (if UInt32.ofNat (lenAt input 0) ≠ RpcHeader.magic then _ else _) = _
      rw [if_neg (not_not.mpr hmagic), carefulString_bind hsize]
      by_cases hmethod : methodPos input ≤ input.length
      · rw [if_pos hmethod]
        refine (if_pos hmethod).trans ?_
        show (carefulString input (methodPos input) >>= _) = _
        rw [carefulString_bind hmethod]
        by_cases hpayload : payloadPos input ≤ input.length
        · rw [if_pos hpayload]
          refine (if_pos hpayload).trans ?_
          show (carefulString input (payloadPos input) >>= _) = _
          rw [carefulString_bind hpayload]
          by_cases hend : endPos input ≤ input.length
          · rw [if_pos hend]
            exact if_pos hend
          · rw [if_neg hend]
            exact if_neg hend
        · rw [if_neg hpayload]
          exact if_neg hpayload
      · rw [if_neg hmethod]
        exact if_neg hmethod
    · rw [if_neg fun h ↦ hmagic h.2]
      exact if_pos hmagic
  · rw [if_pos (Nat.lt_of_not_le hsize), if_neg fun h ↦ hsize h.1]
    rfl

/-! ## The decoder itself -/

theorem readString_bind {α : Type} {self : α} {input : Bytes} {pos : ℕ}
    (f : UInt32 → Bytes → Except Fault (Bool × α)) :
    (if pos + 4 > input.length then pure (false, self)
      else do
        let len ← readU32 input pos
        if len.toNat > input.length - (pos + 4) then pure (false, self)
        else
          let s ← substr input (pos + 4) len.toNat
          f len s) =
      if pos + 4 + lenAt input pos ≤ input.length then
        f (UInt32.ofNat (lenAt input pos)) (slice input (pos + 4) (lenAt input pos))
      else pure (false, self) := by
  by_cases hprefix : pos + 4 ≤ input.length
  · have hread : readU32 input pos = .ok (UInt32.ofNat (lenAt input pos)) := readU32_ok hprefix
    rw [if_neg (Nat.not_lt.mpr hprefix), hread]
    show (if (UInt32.ofNat (lenAt input pos)).toNat > _ then _ else _) = _
    rw [toNat_lenAt, substr_ok _ hprefix]
    by_cases hfits : pos + 4 + lenAt input pos ≤ input.length
    · rw [if_neg (by omega), if_pos hfits]
      rfl
    · rw [if_pos (by omega), if_neg hfits]
  · rw [if_pos (Nat.lt_of_not_le hprefix), if_neg (by omega)]

theorem deserialize_eq (self : RpcRequest) (input : Bytes) :
    deserialize self input = .ok (outcome self input) := by
  unfold deserialize outcome
  by_cases hsize : RpcHeader.size ≤ input.length
  · rw [if_neg (Nat.not_lt.mpr hsize), RpcHeader.read_ok hsize]
    by_cases hmagic : UInt32.ofNat (lenAt input 0) = RpcHeader.magic
    · rw [if_pos ⟨hsize, hmagic⟩]
      show catchException self (if UInt32.ofNat (lenAt input 0) ≠ RpcHeader.magic then _ else _) = _
      rw [if_neg (not_not.mpr hmagic)]
      simp only [readString_bind, toNat_lenAt]
      show catchException self (if methodPos input ≤ input.length then
        if payloadPos input ≤ input.length then
          if endPos input ≤ input.length then pure (true, decoded input) else _
        else _
      else _) = _
      by_cases hmethod : methodPos input ≤ input.length
      · rw [if_pos hmethod, if_pos hmethod]
        by_cases hpayload : payloadPos input ≤ input.length
        · rw [if_pos hpayload, if_pos hpayload]
          by_cases hend : endPos input ≤ input.length
          · rw [if_pos hend, if_pos hend]
            rfl
          · rw [if_neg hend, if_neg hend]
            rfl
        · rw [if_neg hpayload, if_neg hpayload]
          rfl
      · rw [if_neg hmethod, if_neg hmethod]
        rfl
    · rw [if_neg fun h ↦ hmagic h.2]
      exact congrArg (catchException self) (if_pos hmagic)
  · rw [if_pos (Nat.lt_of_not_le hsize), if_neg fun h ↦ hsize h.1]
    rfl

/-- The fields of a request are the slices of the input which their length prefixes announce. -/
structure Announced (input : Bytes) (r : RpcRequest) : Prop where
  fits : endPos input ≤ input.length
  serviceName : r.serviceName = slice input (RpcHeader.size + 4) (lenAt input RpcHeader.size)
  methodName : r.methodName = slice input (methodPos input + 4) (lenAt input (methodPos input))
  payload : r.payload = slice input (payloadPos input + 4) (lenAt input (payloadPos input))

/-- **The decoder stays inside of its input.**  With each position, subtraction
and copy checked, and without the `catch`, every input gives the answer of the
decoder; a request that is accepted consists of slices of the input. -/
theorem reads_safely (self : RpcRequest) (input : Bytes) :
    ∃ ok r, careful self input = .ok (ok, r) ∧ deserialize self input = .ok (ok, r) ∧
      (ok = true → Announced input r) := by
  rcases houtcome : outcome self input with ⟨ok, r⟩
  have hdecoder : deserialize self input = .ok (ok, r) := by
    rw [deserialize_eq, houtcome]
  refine ⟨ok, r, by rw [careful_eq, houtcome], hdecoder, ?_⟩
  rintro rfl
  obtain ⟨hreadable, rfl⟩ := (deserialize_accepts_iff self input r).mp hdecoder
  exact ⟨hreadable.2, rfl, rfl, rfl⟩

end RpcRequest

end MyRpc
