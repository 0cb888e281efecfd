import Mathlib

/-!
# Fixed-width integers in byte strings

Little- and big-endian images of natural numbers, and the overwrite of a
stretch of a buffer by another list.  Nothing here depends on a particular
record layout: a format is a sequence of overwrites at increasing positions,
and `overwrite_zeros` says that such a sequence builds the plain
concatenation of the pieces.
-/

namespace FixedWidth

abbrev Bytes := List UInt8

/-- The number whose base-256 digits, least significant first, are the
given bytes. -/
def leNat : Bytes → ℕ
  | [] => 0
  | b :: bs => b.toNat + 256 * leNat bs

/-- The `k` low base-256 digits of `n`, least significant first. -/
def leBytes : ℕ → ℕ → Bytes
  | 0, _ => []
  | k + 1, n => UInt8.ofNat n :: leBytes k (n / 256)

def beBytes (k n : ℕ) : Bytes := (leBytes k n).reverse

def beNat (bs : Bytes) : ℕ := leNat bs.reverse

@[simp] theorem length_leBytes (k n : ℕ) : (leBytes k n).length = k := by
  induction k generalizing n with
  | zero => rfl
  | succ k ih => simp [leBytes, ih]

@[simp] theorem length_beBytes (k n : ℕ) : (beBytes k n).length = k := by
  simp [beBytes]

theorem leNat_lt (bs : Bytes) : leNat bs < 256 ^ bs.length := by
  induction bs with
  | nil => simp [leNat]
  | cons b bs ih =>
      have hb : b.toNat < 256 := b.toNat_lt
      simp only [leNat, List.length_cons, pow_succ]
      omega

theorem leNat_leBytes (k n : ℕ) : leNat (leBytes k n) = n % 256 ^ k := by
  induction k generalizing n with
  | zero => simp [leBytes, leNat, Nat.mod_one]
  | succ k ih =>
      have hsplit := Nat.mod_mul (a := 256) (b := 256 ^ k) (x := n)
      simp only [leBytes, leNat, ih, UInt8.toNat_ofNat', pow_succ]
      rw [Nat.mul_comm (256 ^ k) 256, hsplit]
      norm_num

theorem leNat_leBytes_of_lt {k n : ℕ} (h : n < 256 ^ k) :
    leNat (leBytes k n) = n := by
  rw [leNat_leBytes, Nat.mod_eq_of_lt h]

/-- A byte string is the image of its number. -/
theorem leBytes_leNat (bs : Bytes) : leBytes bs.length (leNat bs) = bs := by
  induction bs with
  | nil => rfl
  | cons b bs ih =>
      have hb : b.toNat < 256 := b.toNat_lt
      have hlow : UInt8.ofNat (b.toNat + 256 * leNat bs) = b := by
        apply UInt8.toNat_inj.mp
        rw [UInt8.toNat_ofNat']
        omega
      have hhigh : (b.toNat + 256 * leNat bs) / 256 = leNat bs := by omega
      simp only [List.length_cons, leNat, leBytes, hlow, hhigh, ih]

theorem beNat_beBytes (k n : ℕ) : beNat (beBytes k n) = n % 256 ^ k := by
  simp [beNat, beBytes, leNat_leBytes]

theorem leNat_append (xs ys : Bytes) :
    leNat (xs ++ ys) = leNat xs + 256 ^ xs.length * leNat ys := by
  induction xs with
  | nil => simp [leNat]
  | cons x xs ih =>
      simp only [List.cons_append, leNat, ih, List.length_cons, pow_succ]
      ring

theorem le_beNat_cons (b : UInt8) (bs : Bytes) :
    b.toNat * 256 ^ bs.length ≤ beNat (b :: bs) := by
  simp only [beNat, List.reverse_cons, leNat_append, List.length_reverse, leNat]
  rw [Nat.mul_zero, Nat.add_zero, Nat.mul_comm]
  exact Nat.le_add_left _ _

/-! ## Slices and overwrites -/

section Buffer

variable {α : Type*}

/-- The `len` entries of `xs` from position `pos` on. -/
def slice (xs : List α) (pos len : ℕ) : List α := (xs.drop pos).take len

/-- Replace the entries of `buf` from `pos` on by those of `src`. -/
def overwrite (buf : List α) (pos : ℕ) (src : List α) : List α :=
  buf.take pos ++ src ++ buf.drop (pos + src.length)

theorem length_slice {xs : List α} {pos len : ℕ} (h : pos + len ≤ xs.length) :
    (slice xs pos len).length = len := by
  simp only [slice, List.length_take, List.length_drop]
  omega

theorem slice_append_drop (xs : List α) (pos len : ℕ) :
    slice xs pos len ++ xs.drop (pos + len) = xs.drop pos := by
  rw [slice, ← List.drop_drop]
  exact List.take_append_drop len _

theorem slice_append_left (xs ys : List α) (pos len : ℕ)
    (h : pos + len ≤ xs.length) : slice (xs ++ ys) pos len = slice xs pos len := by
  unfold slice
  rw [List.drop_append_of_le_length (by omega), List.take_append_of_le_length]
  simp only [List.length_drop]
  omega

theorem slice_middle (pre mid post : List α) :
    slice (pre ++ (mid ++ post)) pre.length mid.length = mid := by
  simp [slice]

theorem slice_of_eq {xs pre mid post : List α} {pos len : ℕ}
    (hxs : xs = pre ++ (mid ++ post)) (hpos : pos = pre.length)
    (hlen : len = mid.length) : slice xs pos len = mid := by
  subst hxs hpos hlen
  exact slice_middle pre mid post

/-- Writing behind what has been written so far, into a buffer whose tail
still holds the fill value, extends the written part. -/
theorem overwrite_zeros (done src : List α) (z : α) (n : ℕ) :
    overwrite (done ++ List.replicate n z) done.length src =
      (done ++ src) ++ List.replicate (n - src.length) z := by
  have htake : (done ++ List.replicate n z).take done.length = done := by simp
  have hdrop : (done ++ List.replicate n z).drop (done.length + src.length) =
      List.replicate (n - src.length) z := by
    rw [List.drop_append, List.drop_of_length_le (by omega), List.nil_append,
      List.drop_replicate, Nat.add_sub_cancel_left]
  rw [overwrite, htake, hdrop]

end Buffer

end FixedWidth
