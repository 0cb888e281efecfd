import Mathlib

/-!
# Lists of slots

A list in which the slot of one index is overwritten: what is counted, held or
found in the list afterwards differs by that one slot.  The list with slot `i`
is a permutation of the slot and the others (`perm_of_slot`), and everything
else follows.
-/

namespace Slots

variable {α β : Type*} {l : List α} {i : ℕ} {a : α}

theorem perm_of_slot (h : l[i]? = some a) : l.Perm (a :: l.eraseIdx i) := by
  obtain ⟨hi, rfl⟩ := List.getElem?_eq_some_iff.mp h
  exact (List.getElem_cons_eraseIdx_perm hi).symm

theorem perm_set (h : l[i]? = some a) (b : α) : (l.set i b).Perm (b :: l.eraseIdx i) := by
  obtain ⟨hi, -⟩ := List.getElem?_eq_some_iff.mp h
  exact List.set_perm_cons_eraseIdx hi b

theorem mem_of_slot (h : l[i]? = some a) : a ∈ l := List.mem_of_getElem? h

theorem mem_set_self (h : l[i]? = some a) (b : α) : b ∈ l.set i b := by
  rw [(perm_set h b).mem_iff]
  exact List.mem_cons_self

/-! ## Counting -/

theorem countP_set (h : l[i]? = some a) (b : α) (p : α → Bool) :
    (l.set i b).countP p + (if p a then 1 else 0) =
      l.countP p + (if p b then 1 else 0) := by
  rw [(perm_set h b).countP_eq, (perm_of_slot h).countP_eq, List.countP_cons, List.countP_cons]
  omega

theorem countP_set_of_eq (h : l[i]? = some a) (b : α) {p : α → Bool} (hp : p b = p a) :
    (l.set i b).countP p = l.countP p := by
  have hcount := countP_set h b p
  rw [hp] at hcount
  exact Nat.add_right_cancel hcount

theorem countP_set_le_of_imp (h : l[i]? = some a) (b : α) {p : α → Bool}
    (hp : p b = true → p a = true) : (l.set i b).countP p ≤ l.countP p := by
  have hcount := countP_set h b p
  by_cases hb : p b = true
  · rw [if_pos hb, if_pos (hp hb)] at hcount
    exact (Nat.add_right_cancel hcount).le
  · rw [if_neg hb] at hcount
    omega

theorem countP_set_le_succ (h : l[i]? = some a) (b : α) (p : α → Bool) :
    (l.set i b).countP p ≤ l.countP p + 1 := by
  have hcount := countP_set h b p
  have hone : (if p b = true then 1 else 0) ≤ 1 := by split <;> omega
  omega

/-- If at most one is counted, nothing that is counted stands outside of its slot. -/
theorem not_mem_eraseIdx {p : α → Bool} (hone : l.countP p ≤ 1) (h : l[i]? = some a)
    (ha : p a = true) {b : α} (hb : p b = true) : b ∉ l.eraseIdx i := by
  intro hmem
  have hpos := List.countP_pos_iff.mpr ⟨b, hmem, hb⟩
  rw [(perm_of_slot h).countP_eq, List.countP_cons, if_pos ha] at hone
  omega

theorem not_mem_of_countP_le_one {p : α → Bool} (hone : l.countP p ≤ 1) (h : l[i]? = some a)
    (ha : p a = true) {b : α} (hb : p b = true) (hne : b ≠ a) : b ∉ l := by
  intro hmem
  have hother := (List.mem_cons.mp ((perm_of_slot h).mem_iff.mp hmem)).resolve_left hne
  exact not_mem_eraseIdx hone h ha hb hother

theorem countP_map_of_eq {f : α → α} {p : α → Bool} (h : ∀ x, p (f x) = p x) (l : List α) :
    (l.map f).countP p = l.countP p := by
  rw [List.countP_map]
  exact List.countP_congr fun x _ ↦ by rw [Function.comp_apply, h]

theorem sum_set (h : l[i]? = some a) (b : α) (f : α → ℕ) :
    ((l.set i b).map f).sum + f a = (l.map f).sum + f b := by
  rw [((perm_set h b).map f).sum_eq, ((perm_of_slot h).map f).sum_eq]
  simp only [List.map_cons, List.sum_cons]
  omega

/-! ## What the slots hold -/

theorem map_set_of_eq (h : l[i]? = some a) (b : α) {f : α → β} (hf : f b = f a) :
    (l.set i b).map f = l.map f := by
  obtain ⟨hi, rfl⟩ := List.getElem?_eq_some_iff.mp h
  rw [List.map_set, hf]
  apply List.ext_getElem (by simp)
  intro j _ _
  by_cases hij : i = j
  · subst hij
    simp
  · simp [hij]

theorem filterMap_set (h : l[i]? = some a) (b : α) (f : α → Option β) :
    ((f a).toList ++ (l.set i b).filterMap f).Perm ((f b).toList ++ l.filterMap f) := by
  have hset := (perm_set h b).filterMap f
  have hslot := (perm_of_slot h).filterMap f
  have hcons : ∀ c, ((c :: l.eraseIdx i).filterMap f) =
      (f c).toList ++ (l.eraseIdx i).filterMap f := by
    intro c
    cases hc : f c with
    | none => simp [hc]
    | some y => simp [hc]
  rw [hcons] at hset hslot
  have hboth : ((f a).toList ++ (l.set i b).filterMap f).Perm
      ((f b).toList ++ ((f a).toList ++ (l.eraseIdx i).filterMap f)) :=
    (hset.append_left _).trans (List.perm_append_comm_assoc _ _ _)
  exact hboth.trans (hslot.symm.append_left _)

theorem filterMap_set_of_eq (h : l[i]? = some a) (b : α) {f : α → Option β} (hf : f b = f a) :
    ((l.set i b).filterMap f).Perm (l.filterMap f) := by
  have hset := filterMap_set h b f
  rw [hf] at hset
  exact (List.perm_append_left_iff _).mp hset

theorem filterMap_map_of_eq {g : α → α} {f : α → Option β} (h : ∀ x, f (g x) = f x)
    (l : List α) : (l.map g).filterMap f = l.filterMap f := by
  rw [List.filterMap_map]
  exact List.filterMap_congr fun x _ ↦ by rw [Function.comp_apply, h]

/-! ## Finding -/

/-- Whatever is found outside of the slot is found after it was overwritten. -/
theorem exists_mem_set {P : α → Prop} (h : l[i]? = some a) (hex : ∃ x ∈ l, P x) (hnot : ¬ P a)
    (b : α) : ∃ x ∈ l.set i b, P x := by
  obtain ⟨x, hx, hP⟩ := hex
  rcases List.mem_cons.mp ((perm_of_slot h).mem_iff.mp hx) with rfl | hother
  · exact absurd hP hnot
  · exact ⟨x, (perm_set h b).mem_iff.mpr (List.mem_cons_of_mem b hother), hP⟩

theorem exists_mem_set_of_imp {P : α → Prop} (h : l[i]? = some a) (hex : ∃ x ∈ l, P x) {b : α}
    (himp : P a → P b) : ∃ x ∈ l.set i b, P x := by
  by_cases ha : P a
  · exact ⟨b, mem_set_self h b, himp ha⟩
  · exact exists_mem_set h hex ha b

theorem forall_mem_set {P : α → Prop} (hall : ∀ x ∈ l, P x) {b : α} (hb : P b) :
    ∀ x ∈ l.set i b, P x := by
  intro x hx
  rcases List.mem_or_eq_of_mem_set hx with hold | rfl
  · exact hall x hold
  · exact hb

end Slots
