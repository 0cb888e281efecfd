import Mathlib

/-!
# Lists made of whole blocks

A list of owners is unsplit when no entry of one owner stands between two
entries of another.  Blocks of different owners behind each other make an
unsplit list.
-/

namespace Blocks

variable {ι : Type*}

/-- No entry stands between two entries of a different owner. -/
def Unsplit (l : List ι) : Prop :=
  ∀ p i q j, l = p ++ i :: q → j ∈ p → j ∈ q → i = j

/-- `size k` entries for every owner `k`, in the given order. -/
def blocks (size : ι → ℕ) (order : List ι) : List ι :=
  order.flatMap fun k ↦ List.replicate (size k) k

@[simp] theorem blocks_cons (size : ι → ℕ) (k : ι) (order : List ι) :
    blocks size (k :: order) = List.replicate (size k) k ++ blocks size order :=
  List.flatMap_cons

theorem mem_of_mem_blocks {size : ι → ℕ} {order : List ι} {j : ι}
    (h : j ∈ blocks size order) : j ∈ order := by
  obtain ⟨k, hk, hj⟩ := List.mem_flatMap.mp h
  rwa [List.eq_of_mem_replicate hj]

theorem unsplit_blocks (size : ι → ℕ) {order : List ι} (h : order.Nodup) :
    Unsplit (blocks size order) := by
  induction order with
  | nil =>
      intro p i q j hl
      simp [blocks] at hl
  | cons k order ih =>
      obtain ⟨hk, hnodup⟩ := List.nodup_cons.mp h
      intro p i q j hl hp hq
      have hsplit : List.replicate (size k) k ++ blocks size order = p ++ i :: q := by
        rw [← hl, blocks_cons]
      rcases List.append_eq_append_iff.mp hsplit with ⟨p', rfl, hrest⟩ | ⟨c, hrep, hrest⟩
      · rcases List.mem_append.mp hp with hp | hp
        · have hj : j = k := List.eq_of_mem_replicate hp
          have hmem : j ∈ blocks size order := by
            rw [hrest]
            exact List.mem_append_right _ (List.mem_cons_of_mem _ hq)
          exact absurd (mem_of_mem_blocks hmem) (hj ▸ hk)
        · exact ih hnodup p' i q j hrest hp hq
      · have hj : j = k := List.eq_of_mem_replicate (n := size k)
          (hrep ▸ List.mem_append_left c hp)
        cases c with
        | nil =>
            have hmem : j ∈ blocks size order := by
              rw [List.nil_append] at hrest
              rw [← hrest]
              exact List.mem_cons_of_mem _ hq
            exact absurd (mem_of_mem_blocks hmem) (hj ▸ hk)
        | cons x c =>
            obtain ⟨rfl, -⟩ := List.cons.inj hrest
            have hi : i = k := List.eq_of_mem_replicate (n := size k)
              (hrep ▸ List.mem_append_right p List.mem_cons_self)
            rw [hi, hj]

end Blocks
