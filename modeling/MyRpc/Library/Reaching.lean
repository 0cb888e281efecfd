import MyRpc.Library.PartialRun

/-!
# States that can be reached

A system that can take a step nearer to its end from wherever it is not there yet
can get to its end, by such steps alone.
-/

namespace PartialRun

variable {σ α : Type*} {step : σ → α → Option σ}

/-- Some steps of the allowed kind lead from `s` to a state with the property. -/
def CanReach (step : σ → α → Option σ) (Allowed : α → Prop) (s : σ) (P : σ → Prop) : Prop :=
  ∃ trace t, Run step s trace t ∧ (∀ entry ∈ trace, Allowed entry.2) ∧ P t

namespace CanReach

variable {Allowed : α → Prop} {P Q : σ → Prop} {s : σ}

theorem now (h : P s) : CanReach step Allowed s P := ⟨[], s, .nil, by simp, h⟩

theorem after {a : α} {t : σ} (hstep : step s a = some t) (ha : Allowed a)
    (h : CanReach step Allowed t P) : CanReach step Allowed s P := by
  obtain ⟨trace, last, hrun, hall, hlast⟩ := h
  refine ⟨(s, a) :: trace, last, hrun.cons hstep, fun entry hentry ↦ ?_, hlast⟩
  rcases List.mem_cons.mp hentry with rfl | hmem
  · exact ha
  · exact hall entry hmem

theorem imp (h : CanReach step Allowed s P) (himp : ∀ t, P t → Q t) :
    CanReach step Allowed s Q := by
  obtain ⟨trace, t, hrun, hall, ht⟩ := h
  exact ⟨trace, t, hrun, hall, himp t ht⟩

/-- A measure that some allowed step makes smaller, as long as the end is not reached. -/
theorem of_measure (measure : σ → ℕ) (Inv : σ → Prop)
    (hnext : ∀ s, Inv s → ¬ P s → ∃ a t, Allowed a ∧ step s a = some t ∧ Inv t ∧
      measure t < measure s) (hinv : Inv s) :
    CanReach step Allowed s fun t ↦ P t ∧ Inv t := by
  induction hn : measure s using Nat.strong_induction_on generalizing s with
  | h n ih =>
      by_cases hdone : P s
      · exact now ⟨hdone, hinv⟩
      · obtain ⟨a, t, ha, hstep, ht, hlt⟩ := hnext s hinv hdone
        exact after hstep ha (ih (measure t) (hn ▸ hlt) ht rfl)

end CanReach

end PartialRun
