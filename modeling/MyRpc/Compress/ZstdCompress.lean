import MyRpc.Protocol.RpcProtocol

/-!
# `ZstdCompress` over an arbitrary zstd and an arbitrary heap

The zstd library is not part of the repository.  `Zstd` is what the wrapper
calls of it; only the documented bound on the size of a decompressed result
is built in, and everything else a result needs is a hypothesis of its own.
`Heap` says which sizes `std::string::resize` can serve.
-/

namespace MyRpc

open FixedWidth

/-- The three functions of zstd the wrapper calls; `none` is a result for
which `ZSTD_isError` holds. -/
structure Zstd where
  compress : Bytes → Option Bytes
  getFrameContentSize : Bytes → UInt64
  decompress : ℕ → Bytes → Option Bytes
  decompress_le : ∀ {capacity : ℕ} {src dst : Bytes},
    decompress capacity src = some dst → dst.length ≤ capacity

/-- `std::string::max_size()`, which no implementation lets pass
`PTRDIFF_MAX`, and the sizes the allocator can serve. -/
structure Heap where
  maxSize : ℕ
  maxSize_lt : maxSize < 2 ^ 63
  canAllocate : ℕ → Bool

namespace Heap

/-- `std::string::resize` of an empty string. -/
def resize (heap : Heap) (n : ℕ) : Except Fault Unit :=
  if heap.maxSize < n then .error .lengthError
  else if heap.canAllocate n then .ok () else .error .badAlloc

def Grants (heap : Heap) (n : ℕ) : Prop := n ≤ heap.maxSize ∧ heap.canAllocate n = true

theorem Grants.lt {heap : Heap} {n : ℕ} (h : heap.Grants n) : n < 2 ^ 63 :=
  h.1.trans_lt heap.maxSize_lt

theorem resize_ok {heap : Heap} {n : ℕ} (h : heap.Grants n) : heap.resize n = .ok () := by
  rw [resize, if_neg (Nat.not_lt.mpr h.1), if_pos h.2]

theorem resize_error {heap : Heap} {n : ℕ} (h : ¬ heap.Grants n) :
    heap.resize n = .error .lengthError ∨ heap.resize n = .error .badAlloc := by
  unfold resize
  by_cases hmax : heap.maxSize < n
  · exact .inl (if_pos hmax)
  · have halloc : ¬ heap.canAllocate n = true :=
      fun hn ↦ h ⟨Nat.le_of_not_lt hmax, hn⟩
    right
    rw [if_neg hmax, if_neg halloc]

end Heap

namespace ZstdCompress

def contentSizeUnknown : UInt64 := 0xffffffffffffffff

def contentSizeError : UInt64 := 0xfffffffffffffffe

def compressString (z : Zstd) (src : Bytes) : Option Bytes :=
  if src.isEmpty then some [] else z.compress src

/-- `ZstdCompress::DecompressString`.  The size the destination is resized to
is the one announced in the frame header. -/
def decompressString (z : Zstd) (heap : Heap) (src : Bytes) :
    Except Fault (Option Bytes) :=
  if src.isEmpty then .ok (some [])
  else
    let decompressedSize := z.getFrameContentSize src
    if decompressedSize = contentSizeError ∨ decompressedSize = contentSizeUnknown then
      .ok none
    else do
      heap.resize decompressedSize.toNat
      return z.decompress decompressedSize.toNat src

/-- The size announced by a frame is no size at all, or one the heap grants. -/
def SizeServed (z : Zstd) (heap : Heap) (src : Bytes) : Prop :=
  z.getFrameContentSize src = contentSizeError ∨
    z.getFrameContentSize src = contentSizeUnknown ∨
      heap.Grants (z.getFrameContentSize src).toNat

variable {z : Zstd} {heap : Heap} {src : Bytes}

theorem decompressString_of_grants (hsrc : src ≠ [])
    (hsize : ¬ (z.getFrameContentSize src = contentSizeError ∨
      z.getFrameContentSize src = contentSizeUnknown))
    (hheap : heap.Grants (z.getFrameContentSize src).toNat) :
    decompressString z heap src =
      .ok (z.decompress (z.getFrameContentSize src).toNat src) := by
  have hempty : ¬ src.isEmpty = true := by simpa using hsrc
  simp only [decompressString, if_neg hempty, if_neg hsize, Heap.resize_ok hheap]
  rfl

theorem decompressString_returns_iff (z : Zstd) (heap : Heap) (src : Bytes) :
    (∃ dst, decompressString z heap src = .ok dst) ↔ src = [] ∨ SizeServed z heap src := by
  by_cases hsrc : src = []
  · exact iff_of_true ⟨some [], by simp [decompressString, hsrc]⟩ (.inl hsrc)
  rw [or_iff_right hsrc, SizeServed, ← or_assoc]
  have hempty : ¬ src.isEmpty = true := by simpa using hsrc
  by_cases hsize : z.getFrameContentSize src = contentSizeError ∨
      z.getFrameContentSize src = contentSizeUnknown
  · refine iff_of_true ⟨none, ?_⟩ (.inl hsize)
    simp only [decompressString, if_neg hempty, if_pos hsize]
  · rw [or_iff_right hsize]
    by_cases hheap : heap.Grants (z.getFrameContentSize src).toNat
    · exact iff_of_true ⟨_, decompressString_of_grants hsrc hsize hheap⟩ hheap
    · refine iff_of_false ?_ hheap
      rintro ⟨dst, hdst⟩
      simp only [decompressString, if_neg hempty, if_neg hsize] at hdst
      rcases Heap.resize_error hheap with herr | herr <;> rw [herr] at hdst <;> cases hdst

/-- What the wrapper relies on for one message: the compressed form announces
the size of the message and decompresses to it. -/
def RoundTrips (z : Zstd) (src : Bytes) : Prop :=
  ∀ dst, z.compress src = some dst →
    z.getFrameContentSize dst = UInt64.ofNat src.length ∧
      z.decompress src.length dst = some src

/-- A nonempty proper prefix of a compressed message is not a whole number of
frames, which `ZSTD_decompress` requires. -/
def RejectsPrefixes (z : Zstd) : Prop :=
  ∀ src dst n capacity, z.compress src = some dst → 0 < n → n < dst.length →
    z.decompress capacity (dst.take n) = none

theorem decompressString_compressString {dst : Bytes} (hz : RoundTrips z src)
    (hheap : heap.Grants src.length) (hdst : dst ≠ [])
    (hcompress : compressString z src = some dst) :
    decompressString z heap dst = .ok (some src) := by
  have hlen := hheap.lt
  have hsrc : ¬ src.isEmpty = true := by
    intro hempty
    rw [compressString, if_pos hempty] at hcompress
    exact hdst (Option.some.inj hcompress).symm
  rw [compressString, if_neg hsrc] at hcompress
  obtain ⟨hsize, hback⟩ := hz dst hcompress
  have htoNat : (z.getFrameContentSize dst).toNat = src.length := by
    rw [hsize, UInt64.toNat_ofNat', Nat.mod_eq_of_lt (by omega)]
  have hserved : ¬ (z.getFrameContentSize dst = contentSizeError ∨
      z.getFrameContentSize dst = contentSizeUnknown) := by
    rintro (h | h) <;> rw [h] at htoNat <;>
      simp [contentSizeError, contentSizeUnknown] at htoNat <;>
      omega
  rw [decompressString_of_grants hdst hserved (by rwa [htoNat]), htoNat, hback]

theorem decompressString_take {dst : Bytes} (hz : RejectsPrefixes z)
    (hcompress : z.compress src = some dst) {n : ℕ} (hpos : 0 < n) (hlt : n < dst.length)
    {out : Bytes} : decompressString z heap (dst.take n) ≠ .ok (some out) := by
  intro h
  have hne : ¬ (dst.take n).isEmpty = true := by
    simp only [List.isEmpty_iff, List.take_eq_nil_iff, not_or]
    exact ⟨by omega, List.ne_nil_of_length_pos (by omega)⟩
  simp only [decompressString, if_neg hne] at h
  split at h
  · cases h
  · cases hresize : heap.resize (z.getFrameContentSize (dst.take n)).toNat with
    | error e => simp [hresize, bind, Except.bind] at h
    | ok u =>
        have hnone := hz src dst n (z.getFrameContentSize (dst.take n)).toNat hcompress
          hpos hlt
        simp [hresize, bind, Except.bind, pure, Except.pure, hnone] at h

theorem decompressString_truncated {dst : Bytes} (hz : RejectsPrefixes z)
    (hcompress : z.compress src = some dst) {n : ℕ} (hpos : 0 < n) (hlt : n < dst.length)
    (hserved : SizeServed z heap (dst.take n)) :
    decompressString z heap (dst.take n) = .ok none := by
  obtain ⟨out, hout⟩ := (decompressString_returns_iff z heap (dst.take n)).mpr (.inr hserved)
  cases out with
  | none => exact hout
  | some out => exact absurd hout (decompressString_take hz hcompress hpos hlt)

end ZstdCompress

end MyRpc
