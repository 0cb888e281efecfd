import MyRpc.Library.Script

/-!
# Clients that share a service

Clients with a script each ask one service in turns.  To one of them the others are an
environment, which does what their scripts may ask; so its part of a run is a run
of its script among them (`projected`), and what a script achieves whatever the
others do, it achieves here (`wp_clients`).
-/

namespace Scripts

open PartialRun

universe u

variable {σ ω ρ α β : Type u} {γ ε : Type u}

/-- A service that knows its clients by their numbers. -/
structure Shared (σ ω ρ : Type u) (γ ε : Type u) where
  serve : ℕ → σ → ω → γ → Option (ρ × σ)
  other : σ → ε → Option σ

structure Clients (σ ω ρ α : Type u) where
  shared : σ
  scripts : List (Script ω ρ α)

/-- The result of client `i`, once its script is done. -/
def Clients.outcome (s : Clients σ ω ρ α) (i : ℕ) : Option α := s.scripts[i]?.bind Script.result

inductive Turn (γ ε : Type u)
  | serve (i : ℕ) (c : γ)
  | other (e : ε)

/-- What happens around client `i`, if `P j` is true of all that client `j` asks. -/
inductive Around (ω γ ε : Type u) (P : ℕ → ω → Prop) (i : ℕ)
  | serve (j : ℕ) (op : ω) (c : γ) (hne : j ≠ i) (hop : P j op)
  | other (e : ε)

namespace Shared

def step (S : Shared σ ω ρ γ ε) (s : Clients σ ω ρ α) : Turn γ ε → Option (Clients σ ω ρ α)
  | .serve i c =>
      match s.scripts[i]? with
      | some (.ask op next) =>
          (S.serve i s.shared op c).map fun r ↦ ⟨r.2, s.scripts.set i (next r.1)⟩
      | _ => none
  | .other e => (S.other s.shared e).map fun shared ↦ { s with shared }

/-- The service for client `i` alone. -/
def around (S : Shared σ ω ρ γ ε) (P : ℕ → ω → Prop) (i : ℕ) :
    Service σ ω ρ γ (Around ω γ ε P i) where
  serve := S.serve i
  other s
    | .serve j op c _ _ => (S.serve j s op c).map Prod.snd
    | .other e => S.other s e

end Shared

/-! ## What a script asks -/

namespace Script

/-- Whatever is answered, `P` is true of all that is asked. -/
def Asks (P : ω → Prop) : Script ω ρ α → Prop
  | done _ => True
  | ask op next => P op ∧ ∀ r, Asks P (next r)

theorem asks_bind {P : ω → Prop} {m : Script ω ρ α} {f : α → Script ω ρ β} (h : m.Asks P)
    (hf : ∀ a, (f a).Asks P) : (m.bind f).Asks P := by
  induction m with
  | done a => exact hf a
  | ask op next ih => exact ⟨h.1, fun r ↦ ih r (h.2 r)⟩

theorem asks_mono {P P' : ω → Prop} (hP : ∀ op, P op → P' op) {m : Script ω ρ α} (h : m.Asks P) :
    m.Asks P' := by
  induction m with
  | done a => exact h
  | ask op next ih => exact ⟨hP op h.1, fun r ↦ ih r (h.2 r)⟩

/-- The script of a client that knows other words for its operations and answers. -/
def lift {ω' ρ' : Type u} (f : ω → ω') (g : ρ' → ρ) : Script ω ρ α → Script ω' ρ' α
  | done a => done a
  | ask op next => ask (f op) fun r ↦ (next (g r)).lift f g

variable {ω' ρ' : Type u} {f : ω → ω'} {g : ρ' → ρ}

theorem lift_bind (m : Script ω ρ α) (h : α → Script ω ρ β) :
    (m.bind h).lift f g = (m.lift f g).bind fun a ↦ (h a).lift f g := by
  induction m with
  | done a => rfl
  | ask op next ih =>
      show ask (f op) (fun r ↦ ((next (g r)).bind h).lift f g) = _
      simp only [ih]
      rfl

theorem asks_lift {P : ω' → Prop} {m : Script ω ρ α} (h : m.Asks fun op ↦ P (f op)) :
    (m.lift f g).Asks P := by
  induction m with
  | done a => exact trivial
  | ask op next ih => exact ⟨h.1, fun r ↦ ih (g r) (h.2 (g r))⟩

end Script

theorem wp_of_asks {S : Service σ ω ρ γ ε} {P : ω → Prop} {I : σ → Prop} (hstable : Stable S I)
    (hserve : ∀ s op c r t, P op → S.serve s op c = some (r, t) → I s → I t) {m : Script ω ρ α}
    (h : m.Asks P) {s : σ} (hs : I s) : wp S (fun _ ↦ I) m s := by
  induction m generalizing s with
  | done a => exact hs
  | ask op next ih =>
      intro t hst c r u hu
      exact ih r (h.2 r) (hserve t op c r u h.1 hu (hstable.of_interferes hst hs))

theorem wp_and {S : Service σ ω ρ γ ε} {Q Q' : α → σ → Prop} {m : Script ω ρ α} {s : σ}
    (h : wp S Q m s) (h' : wp S Q' m s) : wp S (fun a t ↦ Q a t ∧ Q' a t) m s := by
  induction m generalizing s with
  | done a => exact ⟨h, h'⟩
  | ask op next ih => exact fun t hst c r u hu ↦ ih r (h t hst c r u hu) (h' t hst c r u hu)

/-! ## One client among the others -/

variable {S : Shared σ ω ρ γ ε} {P : ℕ → ω → Prop}

/-- Every script asks only what its client may ask. -/
def AllAsk (P : ℕ → ω → Prop) (s : Clients σ ω ρ α) : Prop :=
  ∀ (j : ℕ) (m : Script ω ρ α), s.scripts[j]? = some m → m.Asks (P j)

theorem step_serve {s t : Clients σ ω ρ α} {i : ℕ} {c : γ}
    (hstep : S.step s (.serve i c) = some t) :
    ∃ op next r, s.scripts[i]? = some (.ask op next) ∧
      S.serve i s.shared op c = some (r, t.shared) ∧ t.scripts = s.scripts.set i (next r) := by
  simp only [Shared.step] at hstep
  split at hstep
  · rename_i op next hslot
    obtain ⟨⟨r, shared⟩, hserve, rfl⟩ := Option.map_eq_some_iff.mp hstep
    exact ⟨op, next, r, hslot, hserve, rfl⟩
  · cases hstep

theorem allAsk_step {s t : Clients σ ω ρ α} {a : Turn γ ε} (h : AllAsk P s)
    (hstep : S.step s a = some t) : AllAsk P t := by
  cases a with
  | serve i c =>
      obtain ⟨op, next, r, hslot, -, hscripts⟩ := step_serve hstep
      intro j m hm
      rw [hscripts] at hm
      by_cases hj : i = j
      · subst hj
        rw [List.getElem?_set_self (List.getElem?_eq_some_iff.mp hslot).1] at hm
        cases hm
        exact (h i _ hslot).2 r
      · rw [List.getElem?_set_ne hj] at hm
        exact h j m hm
  | other e =>
      obtain ⟨shared, -, rfl⟩ := Option.map_eq_some_iff.mp hstep
      exact h

/-- **The part of one client.**  In every run of the clients, each of them does a run
of its own script among the others. -/
theorem projected {start last : Clients σ ω ρ α} {trace : List (Clients σ ω ρ α × Turn γ ε)}
    (hrun : Run S.step start trace last) (hasks : AllAsk P start) {i : ℕ} {m : Script ω ρ α}
    (hi : start.scripts[i]? = some m) :
    ∃ trace' m', last.scripts[i]? = some m' ∧
      Run (step (S.around P i)) ⟨start.shared, m⟩ trace' ⟨last.shared, m'⟩ := by
  have hboth : AllAsk P last ∧ ∃ trace' m', last.scripts[i]? = some m' ∧
      Run (step (S.around P i)) ⟨start.shared, m⟩ trace' ⟨last.shared, m'⟩ := by
    induction hrun with
    | nil => exact ⟨hasks, [], m, hi, .nil⟩
    | @snoc trace s a t _ hstep ih =>
        obtain ⟨hbefore, trace', m', hslot, hrun'⟩ := ih
        refine ⟨allAsk_step hbefore hstep, ?_⟩
        cases a with
        | serve j c =>
            obtain ⟨op, next, r, hslot', hserve, hscripts⟩ := step_serve hstep
            by_cases hj : j = i
            · subst hj
              obtain rfl := Option.some.inj (hslot.symm.trans hslot')
              refine ⟨_, next r, ?_, hrun'.snoc (a := .serve c) ?_⟩
              · rw [hscripts, List.getElem?_set_self (List.getElem?_eq_some_iff.mp hslot).1]
              · show ((S.serve j s.shared op c).map fun r ↦ (⟨r.2, next r.1⟩ : Session σ ω ρ α)) = _
                rw [hserve]
                rfl
            · have hop : P j op := (hbefore j _ hslot').1
              refine ⟨_, m', ?_, hrun'.snoc (a := .other (.serve j op c hj hop)) ?_⟩
              · rw [hscripts, List.getElem?_set_ne hj]
                exact hslot
              · show (((S.serve j s.shared op c).map Prod.snd).map fun shared ↦
                  (⟨shared, m'⟩ : Session σ ω ρ α)) = _
                rw [hserve]
                rfl
        | other e =>
            obtain ⟨shared, hother, rfl⟩ := Option.map_eq_some_iff.mp hstep
            refine ⟨_, m', hslot, hrun'.snoc (a := .other (.other e)) ?_⟩
            show ((S.other s.shared e).map fun shared ↦ (⟨shared, m'⟩ : Session σ ω ρ α)) = _
            rw [hother]
            rfl
  exact hboth.2

/-- A client whose turn it never was has its script before itself. -/
theorem idle_run {start last : Clients σ ω ρ α} {trace : List (Clients σ ω ρ α × Turn γ ε)}
    (hrun : Run S.step start trace last) {i : ℕ} (hidle : ∀ t c, (t, .serve i c) ∉ trace) :
    last.scripts[i]? = start.scripts[i]? := by
  refine hrun.invariant (fun s ↦ s.scripts[i]? = start.scripts[i]?) rfl ?_
  intro s a t hmem hs hstep
  cases a with
  | serve j c =>
      obtain ⟨op, next, r, -, -, hscripts⟩ := step_serve hstep
      have hj : j ≠ i := by
        rintro rfl
        exact hidle s c hmem
      rw [hscripts, List.getElem?_set_ne hj]
      exact hs
  | other e =>
      obtain ⟨shared, -, rfl⟩ := Option.map_eq_some_iff.mp hstep
      exact hs

/-- What a script achieves among others, it achieves among the other clients. -/
theorem wp_clients {i : ℕ} {Q : α → σ → Prop} (hQ : ∀ a, Stable (S.around P i) (Q a))
    {start last : Clients σ ω ρ α} {trace : List (Clients σ ω ρ α × Turn γ ε)}
    (hrun : Run S.step start trace last) (hasks : AllAsk P start) {m : Script ω ρ α}
    (hi : start.scripts[i]? = some m) (h : wp (S.around P i) Q m start.shared) {a : α}
    (hdone : last.outcome i = some a) : Q a last.shared := by
  obtain ⟨trace', m', hslot, hrun'⟩ := projected hrun hasks hi
  rw [Clients.outcome, hslot] at hdone
  exact wp_run hQ h hrun' (Script.result_eq_some.mp hdone)

/-- An invariant that the operations of all clients keep. -/
theorem invariant_clients {I : σ → Prop} (hother : ∀ s e t, S.other s e = some t → I s → I t)
    (hserve : ∀ i s op c r t, P i op → S.serve i s op c = some (r, t) → I s → I t)
    {start last : Clients σ ω ρ α} {trace : List (Clients σ ω ρ α × Turn γ ε)}
    (hrun : Run S.step start trace last) (hasks : AllAsk P start) (hstart : I start.shared) :
    AllAsk P last ∧ I last.shared := by
  induction hrun with
  | nil => exact ⟨hasks, hstart⟩
  | @snoc trace s a t _ hstep ih =>
      obtain ⟨hbefore, hs⟩ := ih
      refine ⟨allAsk_step hbefore hstep, ?_⟩
      cases a with
      | serve i c =>
          obtain ⟨op, next, r, hslot, hanswer, -⟩ := step_serve hstep
          exact hserve i _ op c r _ (hbefore i _ hslot).1 hanswer hs
      | other e =>
          obtain ⟨shared, hshared, rfl⟩ := Option.map_eq_some_iff.mp hstep
          exact hother _ e _ hshared hs

/-- The others keep what the operations of all clients keep. -/
theorem stable_around {I : σ → Prop} (hother : ∀ s e t, S.other s e = some t → I s → I t)
    (hserve : ∀ i s op c r t, P i op → S.serve i s op c = some (r, t) → I s → I t) (i : ℕ) :
    Stable (S.around P i) I := by
  intro s e t hstep hs
  cases e with
  | serve j op c hne hop =>
      obtain ⟨⟨r, u⟩, hanswer, rfl⟩ := Option.map_eq_some_iff.mp hstep
      exact hserve j s op c r u hop hanswer hs
  | other e => exact hother s e t hstep hs

end Scripts
