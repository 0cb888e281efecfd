import Mathlib

/-!
# Runs of a partial step function

A system is a function that takes a state and an action to the next state,
or to `none` where the action is not possible.  A run carries the states its
actions were taken in, so that a condition on every step of a run is a
condition on the members of its trace.
-/

namespace PartialRun

variable {σ α : Type*} {step : σ → α → Option σ} {start : σ}

/-- `Run step start trace last`: taking the actions of `trace` from `start`
leads to `last`, each action being taken in the state it is paired with. -/
inductive Run (step : σ → α → Option σ) (start : σ) : List (σ × α) → σ → Prop
  | nil : Run step start [] start
  | snoc {trace : List (σ × α)} {s : σ} {a : α} {t : σ} :
      Run step start trace s → step s a = some t →
        Run step start (trace ++ [(s, a)]) t

/-- The trace of a list of actions, when every one of them is possible. -/
def execute (step : σ → α → Option σ) : σ → List α → Option (List (σ × α) × σ)
  | s, [] => some ([], s)
  | s, a :: as => (step s a).bind fun t ↦
      (execute step t as).map fun r ↦ ((s, a) :: r.1, r.2)

/-- The trace and the last state of a list of actions that is possible. -/
def executed (step : σ → α → Option σ) (s : σ) (as : List α) : List (σ × α) × σ :=
  (execute step s as).getD ([], s)

namespace Run

theorem cons {s t last : σ} {a : α} {trace : List (σ × α)}
    (hstep : step s a = some t) (hrun : Run step t trace last) :
    Run step s ((s, a) :: trace) last := by
  induction hrun with
  | nil => exact .snoc .nil hstep
  | snoc _ hlast ih => exact Run.snoc ih hlast

theorem append {s t last : σ} {before after : List (σ × α)} (hbefore : Run step s before t)
    (hafter : Run step t after last) : Run step s (before ++ after) last := by
  induction hafter with
  | nil => rwa [List.append_nil]
  | snoc _ hlast ih =>
      rw [← List.append_assoc]
      exact ih.snoc hlast

theorem of_execute {s last : σ} {as : List α} {trace : List (σ × α)}
    (h : execute step s as = some (trace, last)) : Run step s trace last := by
  induction as generalizing s trace with
  | nil =>
      simp only [execute, Option.some.injEq, Prod.mk.injEq] at h
      obtain ⟨rfl, rfl⟩ := h
      exact .nil
  | cons a as ih =>
      simp only [execute, Option.bind_eq_some_iff, Option.map_eq_some_iff,
        Prod.mk.injEq] at h
      obtain ⟨t, hstep, ⟨rest, final⟩, hrest, rfl, rfl⟩ := h
      exact cons hstep (ih hrest)

theorem of_isSome {s : σ} {as : List α} (h : (execute step s as).isSome = true) :
    Run step s (executed step s as).1 (executed step s as).2 := by
  obtain ⟨⟨trace, last⟩, hexecute⟩ := Option.isSome_iff_exists.mp h
  have hrun := of_execute hexecute
  rwa [executed, hexecute]

theorem map_snd_executed {s : σ} {as : List α} (h : (execute step s as).isSome = true) :
    (executed step s as).1.map Prod.snd = as := by
  induction as generalizing s with
  | nil => rfl
  | cons a as ih =>
      obtain ⟨⟨trace, last⟩, hexecute⟩ := Option.isSome_iff_exists.mp h
      simp only [execute, Option.bind_eq_some_iff, Option.map_eq_some_iff] at hexecute
      obtain ⟨t, hstep, ⟨rest, final⟩, hrest, -⟩ := hexecute
      have hall := ih (s := t) (by rw [hrest]; rfl)
      simp only [executed, hrest, Option.getD_some] at hall
      simp only [executed, execute, hstep, Option.bind_some, hrest, Option.map_some,
        Option.getD_some, List.map_cons, hall]

theorem mem_of_mem_executed {s u : σ} {a : α} {as : List α}
    (h : (execute step s as).isSome = true) (hmem : (u, a) ∈ (executed step s as).1) : a ∈ as := by
  rw [← map_snd_executed h]
  exact List.mem_map_of_mem (f := Prod.snd) hmem

theorem invariant {trace : List (σ × α)} {last : σ}
    (hrun : Run step start trace last) (Inv : σ → Prop) (hstart : Inv start)
    (hstep : ∀ s a t, (s, a) ∈ trace → Inv s → step s a = some t → Inv t) :
    Inv last := by
  induction hrun with
  | nil => exact hstart
  | snoc hrun hlast ih =>
      refine hstep _ _ _ (by simp) (ih fun s a t hmem ↦ hstep s a t ?_) hlast
      exact List.mem_append_left _ hmem

theorem exists_last {trace : List (σ × α)} {last : σ} (hrun : Run step start trace last)
    (hne : trace ≠ []) : ∃ s a, (s, a) ∈ trace ∧ step s a = some last := by
  cases hrun with
  | nil => exact absurd rfl hne
  | @snoc trace s a t _ hlast => exact ⟨s, a, by simp, hlast⟩

/-- A step that occurs in a run splits it: there is a run up to the state the
step is taken in, and one from the state it leads to. -/
theorem split {trace : List (σ × α)} {last : σ} {s : σ} {a : α}
    (hrun : Run step start trace last) (hmem : (s, a) ∈ trace) :
    ∃ before t after, Run step start before s ∧ step s a = some t ∧
      Run step t after last ∧ trace = before ++ (s, a) :: after := by
  induction hrun with
  | nil => simp at hmem
  | @snoc trace s' a' t' hrun hlast ih =>
      rcases List.mem_append.mp hmem with hmem | hmem
      · obtain ⟨before, t, after, hbefore, hst, hafter, rfl⟩ := ih hmem
        exact ⟨before, t, after ++ [(s', a')], hbefore, hst, .snoc hafter hlast,
          by simp⟩
      · obtain ⟨rfl, rfl⟩ := Prod.mk.inj (List.mem_singleton.mp hmem)
        exact ⟨trace, t', [], hrun, hlast, .nil, rfl⟩

theorem snoc_inv {trace : List (σ × α)} {last s : σ} {a : α}
    (hrun : Run step start (trace ++ [(s, a)]) last) :
    Run step start trace s ∧ step s a = some last := by
  generalize htrace : trace ++ [(s, a)] = whole at hrun
  cases hrun with
  | nil => simp at htrace
  | snoc hbefore hlast =>
      obtain ⟨rfl, hpair⟩ := List.append_inj' htrace rfl
      obtain ⟨rfl, rfl⟩ := Prod.mk.inj (List.singleton_inj.mp hpair)
      exact ⟨hbefore, hlast⟩

theorem append_inv {before after : List (σ × α)} {last : σ}
    (hrun : Run step start (before ++ after) last) :
    ∃ middle, Run step start before middle ∧ Run step middle after last := by
  induction after using List.reverseRecOn generalizing last with
  | nil =>
      rw [List.append_nil] at hrun
      exact ⟨last, hrun, .nil⟩
  | append_singleton after e ih =>
      rw [← List.append_assoc] at hrun
      obtain ⟨hbefore, hlast⟩ := hrun.snoc_inv
      obtain ⟨middle, hmiddle, hafter⟩ := ih hbefore
      exact ⟨middle, hmiddle, hafter.snoc hlast⟩

end Run

end PartialRun
