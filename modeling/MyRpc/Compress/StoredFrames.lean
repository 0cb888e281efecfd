import MyRpc.Compress.ZstdCompress

/-!
# A zstd that stores

The smallest encoder the zstd format admits: a single-segment frame header
with a one-byte content size, followed by one raw block.  It compresses only
contents of less than 256 bytes.  The frame header is parsed as the format
lays it down, so that the announced size is reported also for headers this
encoder never writes.
-/

namespace MyRpc.StoredFrames

open FixedWidth ZstdCompress

def frameMagic : Bytes := [0x28, 0xb5, 0x2f, 0xfd]

/-- The number of bytes of the content size field, from the frame header
descriptor: bits 7 and 6, and bit 5 for a single segment. -/
def contentSizeBytes (descriptor : UInt8) : ℕ :=
  match (descriptor >>> 6).toNat with
  | 0 => if descriptor &&& 0x20 = 0 then 0 else 1
  | 1 => 2
  | 2 => 4
  | _ => 8

/-- The number of bytes between the descriptor and the content size: a window
descriptor unless the frame is a single segment, and a dictionary id. -/
def skippedBytes (descriptor : UInt8) : ℕ :=
  (if descriptor &&& 0x20 = 0 then 1 else 0) +
    match (descriptor &&& 3).toNat with
    | 0 => 0
    | 1 => 1
    | 2 => 2
    | _ => 4

/-- `ZSTD_getFrameContentSize`, skippable frames apart. -/
def frameContentSize (src : Bytes) : UInt64 :=
  if src.take 4 = frameMagic then
    match src[4]? with
    | none => contentSizeError
    | some descriptor =>
        let start := 5 + skippedBytes descriptor
        let count := contentSizeBytes descriptor
        if src.length < start + count then contentSizeError
        else if count = 0 then contentSizeUnknown
        else
          let value := leNat (slice src start count)
          UInt64.ofNat (if count = 2 then value + 256 else value)
  else contentSizeError

def storedHeader (size : ℕ) : Bytes :=
  frameMagic ++ (0x20 :: UInt8.ofNat size :: leBytes 3 (8 * size + 1))

def storedFrame (content : Bytes) : Bytes := storedHeader content.length ++ content

@[simp] theorem length_storedHeader (size : ℕ) : (storedHeader size).length = 9 := by
  simp [storedHeader, frameMagic]

@[simp] theorem length_storedFrame (content : Bytes) :
    (storedFrame content).length = 9 + content.length := by
  simp [storedFrame]

def stored : Zstd where
  compress src := if src.length < 256 then some (storedFrame src) else none
  getFrameContentSize := frameContentSize
  decompress capacity src :=
    let content := src.drop 9
    if src = storedFrame content ∧ content.length < 256 ∧ content.length ≤ capacity then
      some content
    else none
  decompress_le := by
    intro capacity src dst h
    simp only [Option.ite_none_right_eq_some, Option.some.injEq] at h
    obtain ⟨⟨-, -, hle⟩, rfl⟩ := h
    exact hle

theorem compress_eq_some {src dst : Bytes} (h : stored.compress src = some dst) :
    src.length < 256 ∧ dst = storedFrame src := by
  simp only [stored, Option.ite_none_right_eq_some, Option.some.injEq] at h
  exact ⟨h.1, h.2.symm⟩

theorem frameContentSize_storedFrame {content : Bytes} (h : content.length < 256) :
    frameContentSize (storedFrame content) = UInt64.ofNat content.length := by
  have hbyte : (UInt8.ofNat content.length).toNat = content.length := by
    rw [UInt8.toNat_ofNat', Nat.mod_eq_of_lt h]
  have hcount : contentSizeBytes 0x20 = 1 := by decide
  have hskip : skippedBytes 0x20 = 0 := by decide
  have hvalue : slice (storedFrame content) 5 1 = [UInt8.ofNat content.length] := rfl
  have hmagic : (storedFrame content).take 4 = frameMagic := rfl
  have hdescriptor : (storedFrame content)[4]? = some 0x20 := rfl
  have hroom : ¬ (storedFrame content).length < 5 + 0 + 1 := by
    rw [length_storedFrame]
    omega
  rw [frameContentSize, if_pos hmagic, hdescriptor]
  simp only [hskip, hcount, if_neg hroom, hvalue]
  simp [leNat, hbyte]

theorem decompress_storedFrame {content : Bytes} {capacity : ℕ} (h : content.length < 256)
    (hcapacity : content.length ≤ capacity) :
    stored.decompress capacity (storedFrame content) = some content := by
  have hdrop : (storedFrame content).drop 9 = content := by
    rw [storedFrame, ← length_storedHeader content.length, List.drop_left]
  exact if_pos ⟨by rw [hdrop], by rwa [hdrop], by rwa [hdrop]⟩ |>.trans (by rw [hdrop])

theorem stored_roundTrips (src : Bytes) : RoundTrips stored src := by
  intro dst h
  obtain ⟨hlen, rfl⟩ := compress_eq_some h
  exact ⟨frameContentSize_storedFrame hlen, decompress_storedFrame hlen le_rfl⟩

/-- The size byte of a truncated frame tells that something is missing. -/
theorem stored_rejectsPrefixes : RejectsPrefixes stored := by
  intro src dst n capacity h _ hlt
  obtain ⟨hlen, rfl⟩ := compress_eq_some h
  simp only [stored, ite_eq_right_iff, reduceCtorEq, imp_false, not_and]
  intro htake hsmall _
  have hlength := congrArg List.length htake
  simp only [List.length_take, length_storedFrame, List.length_drop] at hlength hlt hsmall
  have hbyte := congrArg (fun l ↦ l.getD 5 0) htake
  have hleft : ((storedFrame src).take n).getD 5 0 = UInt8.ofNat src.length := by
    simp only [List.getD_eq_getElem?_getD]
    rw [List.getElem?_take_of_lt (by omega)]
    rfl
  have hright : (storedFrame (((storedFrame src).take n).drop 9)).getD 5 0 =
      UInt8.ofNat (n - 9) := by
    have hsize : (((storedFrame src).take n).drop 9).length = n - 9 := by
      simp only [List.length_drop, List.length_take, length_storedFrame]
      omega
    rw [storedFrame, hsize]
    rfl
  simp only [hleft, hright] at hbyte
  have hnum := congrArg UInt8.toNat hbyte
  simp only [UInt8.toNat_ofNat'] at hnum
  omega

def gibibyteHeap : Heap := ⟨2 ^ 62 - 1, by norm_num, fun n ↦ n ≤ 2 ^ 30⟩

theorem gibibyteHeap_grants {n : ℕ} (h : n ≤ 2 ^ 30) : gibibyteHeap.Grants n :=
  ⟨h.trans (by norm_num [gibibyteHeap]), by simpa [gibibyteHeap] using h⟩

end MyRpc.StoredFrames
