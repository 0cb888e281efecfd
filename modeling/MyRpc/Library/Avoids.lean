import Mathlib

/-!
# Programs that do not end in a given error

`Avoids bad x` is the weakest precondition of a program in `Except` for "no
error of the kind `bad`".  The rules below compute it through the control
structure, each as an equivalence, so that rewriting with them turns the
property of a whole straight-line program into the exact condition on its
input.  `Follows bad x y` compares two programs: where the first one has no such
error, the second one does the same.
-/

namespace Avoiding

variable {ε α β : Type} {bad : ε → Prop}

def Avoids (bad : ε → Prop) (x : Except ε α) : Prop := ∀ e, bad e → x ≠ .error e

theorem avoids_ok (bad : ε → Prop) (a : α) : Avoids bad (.ok a : Except ε α) := by
  intro e _ h
  cases h

theorem avoids_pure (bad : ε → Prop) (a : α) :
    Avoids bad (pure a : Except ε α) ↔ True :=
  iff_of_true (avoids_ok bad a) trivial

theorem avoids_error {e : ε} : Avoids bad (.error e : Except ε α) ↔ ¬ bad e := by
  constructor
  · intro h he
    exact h e he rfl
  · rintro h e' he' heq
    cases heq
    exact h he'

theorem avoids_ite {c : Prop} [Decidable c] {x y : Except ε α} :
    Avoids bad (if c then x else y) ↔ (c → Avoids bad x) ∧ (¬ c → Avoids bad y) := by
  by_cases h : c <;> simp [h]

/-- The rule for a step whose success and result are known in advance. -/
theorem avoids_bind_of {x : Except ε α} {f : α → Except ε β} {ok : Prop} {a : α}
    (hsucceeds : ok → x = .ok a) (hfails : ¬ ok → ∃ e, bad e ∧ x = .error e) :
    Avoids bad (x >>= f) ↔ ok ∧ Avoids bad (f a) := by
  by_cases hok : ok
  · rw [hsucceeds hok]
    exact (and_iff_right hok).symm
  · obtain ⟨e, hbad, hx⟩ := hfails hok
    have hnot : ¬ Avoids bad (x >>= f) := by
      rw [hx]
      intro h
      exact h e hbad rfl
    exact iff_of_false hnot fun h ↦ hok h.1

/-! ## A program that may go on where another one fails -/

def Follows (bad : ε → Prop) (x y : Except ε α) : Prop := Avoids bad x → y = x

theorem follows_rfl {x : Except ε α} : Follows bad x x := fun _ ↦ rfl

theorem follows_ite {c : Prop} [Decidable c] {x y x' y' : Except ε α}
    (hx : Follows bad x x') (hy : Follows bad y y') :
    Follows bad (if c then x else y) (if c then x' else y') := by
  by_cases h : c
  · simpa only [if_pos h] using hx
  · simpa only [if_neg h] using hy

theorem follows_bind {x y : Except ε α} {f g : α → Except ε β} (hx : Follows bad x y)
    (hf : ∀ a, Follows bad (f a) (g a)) : Follows bad (x >>= f) (y >>= g) := by
  intro h
  cases x with
  | ok a =>
      rw [hx (avoids_ok bad a)]
      exact hf a h
  | error e =>
      have hgood : Avoids bad (.error e : Except ε α) := avoids_error.mpr (avoids_error.mp h)
      rw [hx hgood]
      rfl

end Avoiding
