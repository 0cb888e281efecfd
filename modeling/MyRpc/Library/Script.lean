import MyRpc.Library.PartialRun

/-!
# Clients of a shared service

A script asks a service for one operation after the other, goes on with the
answers, and ends with a result.  Others change the state of the service between
its operations and after its end.  The weakest precondition `wp` takes all of
them into account, so that a postcondition which the others keep is true of
every run to its end and from then on (`wp_run`).
-/

namespace Scripts

open PartialRun

universe u v

/-- A client with operations `ω` and answers `ρ`. -/
inductive Script (ω ρ : Type u) (α : Type u)
  | done (a : α)
  | ask (op : ω) (next : ρ → Script ω ρ α)

namespace Script

variable {ω ρ α β : Type u}

def bind : Script ω ρ α → (α → Script ω ρ β) → Script ω ρ β
  | done a, f => f a
  | ask op next, f => ask op fun r ↦ (next r).bind f

def result : Script ω ρ α → Option α
  | done a => some a
  | ask _ _ => none

theorem result_eq_some {m : Script ω ρ α} {a : α} : m.result = some a ↔ m = done a := by
  cases m with
  | done b => simp [result]
  | ask op next => simp [result]

end Script

/-- What an operation may answer, by a choice `γ` of the service, and what the
others may do to its state. -/
structure Service (σ ω ρ : Type u) (γ ε : Type v) where
  serve : σ → ω → γ → Option (ρ × σ)
  other : σ → ε → Option σ

structure Session (σ ω ρ α : Type u) where
  shared : σ
  script : Script ω ρ α

inductive Act (γ ε : Type v)
  | serve (c : γ)
  | other (e : ε)

variable {σ ω ρ α β : Type u} {γ ε : Type v} {S : Service σ ω ρ γ ε}

def step (S : Service σ ω ρ γ ε) (s : Session σ ω ρ α) : Act γ ε → Option (Session σ ω ρ α)
  | .serve c =>
      match s.script with
      | .done _ => none
      | .ask op next => (S.serve s.shared op c).map fun r ↦ ⟨r.2, next r.1⟩
  | .other e => (S.other s.shared e).map fun shared ↦ { s with shared }

/-- What the others can make of a state. -/
def Interferes (S : Service σ ω ρ γ ε) : σ → σ → Prop :=
  Relation.ReflTransGen fun s t ↦ ∃ e, S.other s e = some t

/-- A property of states that the others keep. -/
def Stable (S : Service σ ω ρ γ ε) (P : σ → Prop) : Prop :=
  ∀ s e t, S.other s e = some t → P s → P t

theorem Stable.of_interferes {P : σ → Prop} (hP : Stable S P) {s t : σ} (h : Interferes S s t)
    (hs : P s) : P t := by
  induction h with
  | refl => exact hs
  | tail _ hstep ih =>
      obtain ⟨e, hother⟩ := hstep
      exact hP _ e _ hother ih

/-! ## Weakest preconditions -/

/-- Whatever the others do before each operation, the script ends with `Q`. -/
def wp (S : Service σ ω ρ γ ε) (Q : α → σ → Prop) : Script ω ρ α → σ → Prop
  | .done a, s => Q a s
  | .ask op next, s => ∀ t, Interferes S s t → ∀ c r u, S.serve t op c = some (r, u) →
      wp S Q (next r) u

theorem wp_bind {Q : β → σ → Prop} {m : Script ω ρ α} {f : α → Script ω ρ β} {s : σ} :
    wp S Q (m.bind f) s ↔ wp S (fun a t ↦ wp S Q (f a) t) m s := by
  induction m generalizing s with
  | done a => exact Iff.rfl
  | ask op next ih =>
      constructor
      · exact fun h t hst c r u hserve ↦ (ih r).mp (h t hst c r u hserve)
      · exact fun h t hst c r u hserve ↦ (ih r).mpr (h t hst c r u hserve)

theorem wp_mono {Q Q' : α → σ → Prop} (hQ : ∀ a s, Q a s → Q' a s) {m : Script ω ρ α} {s : σ}
    (h : wp S Q m s) : wp S Q' m s := by
  induction m generalizing s with
  | done a => exact hQ a s h
  | ask op next ih => exact fun t hst c r u hserve ↦ ih r (h t hst c r u hserve)

theorem wp_of_forall {Q : α → σ → Prop} (h : ∀ a s, Q a s) (m : Script ω ρ α) (s : σ) :
    wp S Q m s := by
  induction m generalizing s with
  | done a => exact h a s
  | ask op next ih => exact fun t hst c r u hserve ↦ ih r u

theorem wp_other {Q : α → σ → Prop} (hQ : ∀ a, Stable S (Q a)) {m : Script ω ρ α} {s t : σ} {e : ε}
    (hother : S.other s e = some t) (h : wp S Q m s) : wp S Q m t := by
  cases m with
  | done a => exact hQ a s e t hother h
  | ask op next => exact fun u htu ↦ h u (.head ⟨e, hother⟩ htu)

theorem wp_step {Q : α → σ → Prop} (hQ : ∀ a, Stable S (Q a)) {s t : Session σ ω ρ α}
    {a : Act γ ε} (hstep : step S s a = some t) (h : wp S Q s.script s.shared) :
    wp S Q t.script t.shared := by
  obtain ⟨shared, script⟩ := s
  cases a with
  | serve c =>
      cases script with
      | done a => cases hstep
      | ask op next =>
          obtain ⟨⟨r, u⟩, hserve, rfl⟩ := Option.map_eq_some_iff.mp hstep
          exact h shared .refl c r u hserve
  | other e =>
      obtain ⟨u, hother, rfl⟩ := Option.map_eq_some_iff.mp hstep
      exact wp_other hQ hother h

/-- **Runs of a script.**  Wherever a run has come to the end of the script, the
postcondition is true. -/
theorem wp_run {Q : α → σ → Prop} (hQ : ∀ a, Stable S (Q a)) {s : σ} {m : Script ω ρ α}
    (h : wp S Q m s) {trace : List (Session σ ω ρ α × Act γ ε)} {last : Session σ ω ρ α}
    (hrun : Run (step S) ⟨s, m⟩ trace last) {a : α} (hdone : last.script = .done a) :
    Q a last.shared := by
  have hlast : wp S Q last.script last.shared :=
    hrun.invariant (fun u ↦ wp S Q u.script u.shared) h fun _ _ _ _ hu hstep ↦ wp_step hQ hstep hu
  rwa [hdone] at hlast

/-! ## What a script asks -/

namespace Script

variable {P : ω → Prop}

/-- At most `n` operations are asked, whatever is answered, and `P` is true of all. -/
def Within (P : ω → Prop) : ℕ → Script ω ρ α → Prop
  | _, done _ => True
  | 0, ask _ _ => False
  | n + 1, ask op next => P op ∧ ∀ r, Within P n (next r)

theorem within_mono {P' : ω → Prop} (hP : ∀ op, P op → P' op) {n n' : ℕ} (hle : n ≤ n')
    {m : Script ω ρ α} (h : Within P n m) : Within P' n' m := by
  induction m generalizing n n' with
  | done a =>
      unfold Within
      trivial
  | ask op next ih =>
      cases n with
      | zero => exact absurd h id
      | succ n =>
          cases n' with
          | zero => exact absurd hle (Nat.not_succ_le_zero n)
          | succ n' => exact ⟨hP op h.1, fun r ↦ ih r (Nat.le_of_succ_le_succ hle) (h.2 r)⟩

theorem within_bind {n k : ℕ} {m : Script ω ρ α} {f : α → Script ω ρ β} (h : Within P n m)
    (hf : ∀ a, Within P k (f a)) : Within P (n + k) (m.bind f) := by
  induction m generalizing n with
  | done a => exact within_mono (fun _ hop ↦ hop) (Nat.le_add_left k n) (hf a)
  | ask op next ih =>
      cases n with
      | zero => exact absurd h id
      | succ n =>
          rw [Nat.succ_add]
          exact ⟨h.1, fun r ↦ ih r (h.2 r)⟩

end Script

/-- The number of operations that were answered. -/
def served (trace : List (Session σ ω ρ α × Act γ ε)) : ℕ :=
  trace.countP fun entry ↦ match entry.2 with
    | .serve _ => true
    | .other _ => false

theorem within_run {P : ω → Prop} {n : ℕ} {s : σ} {m : Script ω ρ α} (h : m.Within P n)
    {trace : List (Session σ ω ρ α × Act γ ε)} {last : Session σ ω ρ α}
    (hrun : Run (step S) ⟨s, m⟩ trace last) :
    ∃ k, last.script.Within P k ∧ served trace + k = n := by
  induction hrun with
  | nil => exact ⟨n, h, Nat.zero_add n⟩
  | @snoc trace t a last _ hstep ih =>
      obtain ⟨k, hk, hcount⟩ := ih
      obtain ⟨shared, script⟩ := t
      cases a with
      | serve c =>
          cases script with
          | done a => cases hstep
          | ask op next =>
              obtain ⟨⟨r, u⟩, -, rfl⟩ := Option.map_eq_some_iff.mp hstep
              cases k with
              | zero => exact absurd hk id
              | succ k =>
                  refine ⟨k, hk.2 r, ?_⟩
                  rw [served, List.countP_append]
                  exact (Nat.succ_add _ k).trans hcount
      | other e =>
          obtain ⟨u, -, rfl⟩ := Option.map_eq_some_iff.mp hstep
          refine ⟨k, hk, ?_⟩
          rw [served, List.countP_append]
          exact hcount

/-- An operation that was answered in a run is one that the script may ask. -/
theorem asked_of_mem {P : ω → Prop} {n : ℕ} {s : σ} {m : Script ω ρ α} (h : m.Within P n)
    {trace : List (Session σ ω ρ α × Act γ ε)} {last t : Session σ ω ρ α} {c : γ}
    (hrun : Run (step S) ⟨s, m⟩ trace last) (hmem : (t, .serve c) ∈ trace) :
    ∃ op next, t.script = .ask op next ∧ P op := by
  obtain ⟨before, u, -, hbefore, hstep, -, -⟩ := hrun.split hmem
  obtain ⟨k, hk, -⟩ := within_run h hbefore
  obtain ⟨shared, script⟩ := t
  cases script with
  | done a => cases hstep
  | ask op next =>
      cases k with
      | zero => exact absurd hk id
      | succ k => exact ⟨op, next, rfl, hk.1⟩

end Scripts
