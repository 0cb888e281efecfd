import MyRpc.Library.PartialRun

/-!
# Simulation of runs

A system simulates another one when every step of a run of the second is matched
by one step of the first or by none.  The relation between their states may speak
of the steps taken so far, and a step may be matched in view of where the run
leads to, so that choices the first system makes at its start can be read off the
end of the run.
-/

namespace PartialRun

variable {σ α τ β : Type*} {step : σ → α → Option σ} {step' : τ → β → Option τ}

/-- The state `t` does what the relation asks for, after one step or none. -/
def Follows (step' : τ → β → Option τ) (R : τ → Prop) (t : τ) : Prop :=
  R t ∨ ∃ b t', step' t b = some t' ∧ R t'

theorem Follows.imp {R R' : τ → Prop} {t : τ} (h : Follows step' R t) (himp : ∀ t, R t → R' t) :
    Follows step' R' t :=
  Or.imp (himp t) (fun ⟨b, t', hstep, hafter⟩ ↦ ⟨b, t', hstep, himp t' hafter⟩) h

theorem Follows.run {R : τ → Prop} {start t : τ} {trace : List (τ × β)} (h : Follows step' R t)
    (hrun : Run step' start trace t) : ∃ trace' t', Run step' start trace' t' ∧ R t' := by
  rcases h with hsame | ⟨b, t', hstep, hafter⟩
  · exact ⟨trace, t, hrun, hsame⟩
  · exact ⟨trace ++ [(t, b)], t', hrun.snoc hstep, hafter⟩

namespace Run

/-- The states of a run are matched one by one. -/
theorem simulation {start last : σ} {start' : τ} {trace : List (σ × α)}
    (R : List (σ × α) → σ → τ → Prop) (hrun : Run step start trace last)
    (hstart : R [] start start')
    (hstep : ∀ before s a u after trace' t, Run step start before s → step s a = some u →
      Run step u after last → trace = before ++ (s, a) :: after → Run step' start' trace' t →
        R before s t → Follows step' (R (before ++ [(s, a)]) u) t) :
    ∃ trace' t, Run step' start' trace' t ∧ R trace last t := by
  have hprefix : ∀ before middle after, Run step start before middle →
      Run step middle after last → trace = before ++ after →
        ∃ trace' t, Run step' start' trace' t ∧ R before middle t := by
    intro before middle after hbefore
    induction hbefore generalizing after with
    | nil => exact fun _ _ ↦ ⟨[], start', .nil, hstart⟩
    | @snoc before s a u hbefore hlast ih =>
        intro hafter htrace
        have hsplit : trace = before ++ (s, a) :: after := by simpa using htrace
        obtain ⟨trace', t, hrun', hrel⟩ := ih ((s, a) :: after) (hafter.cons hlast) hsplit
        exact (hstep before s a u after trace' t hbefore hlast hafter hsplit hrun' hrel).run hrun'
  exact hprefix trace last [] hrun .nil (List.append_nil _).symm

end Run

end PartialRun
