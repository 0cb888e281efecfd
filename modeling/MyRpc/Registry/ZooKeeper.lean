import MyRpc.Library.FixedWidth
import MyRpc.Library.Script

/-!
# ZooKeeper as a tree of nodes

A node has data, and an owner if it is ephemeral: the session that created it.
A node is created under a parent that exists, and the expiry of a session
removes the nodes it owns and nothing else.  What a client has asked and been
answered is kept with the tree.
-/

namespace MyRpc.ZooKeeper

open FixedWidth PartialRun Scripts

abbrev Path := Bytes

def slash : UInt8 := 47

structure Node where
  data : Bytes
  owner : Option ℕ
  deriving DecidableEq, Repr

abbrev Tree := Path → Option Node

/-- `find_last_of`, for one character. -/
def findLastOf (c : UInt8) : Bytes → Option ℕ
  | [] => none
  | b :: rest =>
      match findLastOf c rest with
      | some pos => some (pos + 1)
      | none => if b = c then some 0 else none

theorem findLastOf_lt {c : UInt8} {path : Bytes} {pos : ℕ} (h : findLastOf c path = some pos) :
    pos < path.length := by
  induction path generalizing pos with
  | nil => cases h
  | cons b rest ih =>
      simp only [findLastOf] at h
      split at h
      · rename_i pos' hrest
        cases h
        exact Nat.succ_lt_succ (ih hrest)
      · split at h
        · cases h
          exact Nat.succ_pos _
        · cases h

/-- The parent of the nodes directly below the root is the root. -/
def parent (path : Path) : Option Path :=
  match findLastOf slash path with
  | none => none
  | some 0 => some [slash]
  | some pos => some (path.take pos)

inductive Rc
  | ok
  | noNode
  | nodeExists
  | other
  deriving DecidableEq, Repr

inductive Op
  | zooExists (path : Path)
  | zooCreate (path : Path) (data : Bytes) (ephemeral : Bool)
  deriving DecidableEq, Repr

def create (tree : Tree) (path : Path) (data : Bytes) (owner : Option ℕ) : Rc × Tree :=
  match parent path with
  | none => (.other, tree)
  | some above =>
      if tree above = none then (.noNode, tree)
      else if tree path = none then (.ok, Function.update tree path (some ⟨data, owner⟩))
      else (.nodeExists, tree)

def expire (tree : Tree) (session : ℕ) : Tree :=
  fun path ↦ (tree path).filter fun node ↦ node.owner ≠ some session

def perform (session : ℕ) (tree : Tree) : Op → Rc × Tree
  | .zooExists path => (if tree path = none then .noNode else .ok, tree)
  | .zooCreate path data ephemeral =>
      create tree path data (if ephemeral then some session else none)

structure World where
  tree : Tree
  answers : List (Op × Rc)

/-- An operation is performed and answered, or fails for a reason of its own,
such as the loss of the connection, before or after it was performed. -/
inductive Choice
  | answer
  | fail (performed : Bool)
  deriving DecidableEq, Repr

def serve (session : ℕ) (w : World) (op : Op) : Choice → Option (Rc × World)
  | .answer =>
      let (rc, tree) := perform session w.tree op
      some (rc, ⟨tree, w.answers ++ [(op, rc)]⟩)
  | .fail performed =>
      let tree := if performed then (perform session w.tree op).2 else w.tree
      some (.other, ⟨tree, w.answers ++ [(op, .other)]⟩)

/-- What other sessions do: they create nodes, which they may own, and expire. -/
inductive Other
  | create (path : Path) (data : Bytes) (owner : Option ℕ)
  | expire (session : ℕ)
  deriving DecidableEq, Repr

def other (session : ℕ) (w : World) : Other → Option World
  | .create path data owner =>
      if owner = some session then none
      else some { w with tree := (create w.tree path data owner).2 }
  | .expire expired =>
      if expired = session then none else some { w with tree := expire w.tree expired }

/-- ZooKeeper for the client of one session, with the other sessions around it. -/
def service (session : ℕ) : Service World Op Rc Choice Other := ⟨serve session, other session⟩

/-! ## What stays -/

/-- A node that exists is not created again. -/
theorem create_keeps {tree : Tree} {path : Path} {node : Node} (h : tree path = some node)
    (path' : Path) (data : Bytes) (owner : Option ℕ) :
    (create tree path' data owner).2 path = some node := by
  unfold create
  cases parent path' with
  | none => exact h
  | some above =>
      simp only
      split
      · exact h
      · split
        · rename_i hfree
          have hne : path ≠ path' := by
            rintro rfl
            rw [h] at hfree
            cases hfree
          exact (Function.update_of_ne hne _ _).trans h
        · exact h

theorem create_ok {tree tree' : Tree} {path : Path} {data : Bytes} {owner : Option ℕ}
    (h : create tree path data owner = (.ok, tree')) : tree' path = some ⟨data, owner⟩ := by
  unfold create at h
  cases hparent : parent path with
  | none =>
      rw [hparent] at h
      cases h
  | some above =>
      rw [hparent] at h
      simp only at h
      split at h
      · cases h
      · split at h
        · cases h
          exact Function.update_self _ _ _
        · cases h

theorem create_nodeExists {tree tree' : Tree} {path : Path} {data : Bytes} {owner : Option ℕ}
    (h : create tree path data owner = (.nodeExists, tree')) : tree path ≠ none ∧ tree' = tree := by
  unfold create at h
  cases hparent : parent path with
  | none =>
      rw [hparent] at h
      cases h
  | some above =>
      rw [hparent] at h
      simp only at h
      split at h
      · cases h
      · split at h
        · cases h
        · rename_i htaken
          cases h
          exact ⟨htaken, rfl⟩

theorem perform_keeps {tree : Tree} {path : Path} {node : Node} (h : tree path = some node)
    (session : ℕ) (op : Op) : (perform session tree op).2 path = some node := by
  cases op with
  | zooExists path' => exact h
  | zooCreate path' data ephemeral => exact create_keeps h path' data _

/-- The node of a session that lives. -/
def Owns (session : ℕ) (path : Path) (data : Bytes) (w : World) : Prop :=
  w.tree path = some ⟨data, some session⟩

theorem stable_owns (session : ℕ) (path : Path) (data : Bytes) :
    Stable (service session) (Owns session path data) := by
  intro w e w' hother h
  cases e with
  | create path' data' owner =>
      obtain ⟨-, hw⟩ := Option.ite_none_left_eq_some.mp hother
      cases hw
      exact create_keeps h path' data' owner
  | expire expired =>
      obtain ⟨hne, hw⟩ := Option.ite_none_left_eq_some.mp hother
      cases hw
      have hkept : ((some ⟨data, some session⟩ : Option Node).filter
          fun node ↦ node.owner ≠ some expired) = some ⟨data, some session⟩ := by
        simp [Option.filter, Ne.symm hne]
      show (w.tree path).filter _ = _
      rw [h, hkept]

theorem serve_owns {session : ℕ} {path : Path} {data : Bytes} {w w' : World} {op : Op}
    {c : Choice} {rc : Rc} (hserve : serve session w op c = some (rc, w'))
    (h : Owns session path data w) : Owns session path data w' := by
  cases c with
  | answer =>
      cases hserve
      exact perform_keeps h session op
  | fail performed =>
      cases hserve
      cases performed with
      | true => exact perform_keeps h session op
      | false => exact h

theorem owns_step {α : Type} {session : ℕ} {path : Path} {data : Bytes}
    {s t : Session World Op Rc α} {a : Act Choice Other}
    (hstep : step (service session) s a = some t) (h : Owns session path data s.shared) :
    Owns session path data t.shared := by
  cases a with
  | serve c =>
      cases hscript : s.script with
      | done a => simp [step, hscript] at hstep
      | ask op next =>
          simp only [step, hscript] at hstep
          obtain ⟨⟨rc, w⟩, hserve, rfl⟩ := Option.map_eq_some_iff.mp hstep
          exact serve_owns hserve h
  | other e =>
      obtain ⟨w, hother, rfl⟩ := Option.map_eq_some_iff.mp hstep
      exact stable_owns session path data s.shared e w hother h

/-- Once it owns the node, a session that lives owns it in the rest of a run. -/
theorem owns_of_mem {α : Type} {session : ℕ} {path : Path} {data : Bytes}
    {start s last : Session World Op Rc α} {a : Act Choice Other}
    {trace : List (Session World Op Rc α × Act Choice Other)}
    (hrun : Run (step (service session)) start trace last) (hmem : (s, a) ∈ trace)
    (h : Owns session path data s.shared) : Owns session path data last.shared := by
  obtain ⟨-, t, after, -, hstep, hafter, -⟩ := hrun.split hmem
  exact hafter.invariant (fun u ↦ Owns session path data u.shared) (owns_step hstep h)
    fun _ _ _ _ hu hnext ↦ owns_step hnext hu

theorem other_answers {session : ℕ} {w w' : World} {e : Other}
    (h : other session w e = some w') : w'.answers = w.answers := by
  cases e with
  | create path data owner =>
      obtain ⟨-, hw⟩ := Option.ite_none_left_eq_some.mp h
      cases hw
      rfl
  | expire expired =>
      obtain ⟨-, hw⟩ := Option.ite_none_left_eq_some.mp h
      cases hw
      rfl

theorem stable_answers (session : ℕ) (entry : Op × Rc) :
    Stable (service session) fun w ↦ entry ∈ w.answers := by
  intro w e w' hother h
  rw [other_answers hother]
  exact h

/-! ## What was answered -/

/-- The client waits for the answer to this operation. -/
def Asks (op : Op) {α : Type} (s : Session World Op Rc α) : Prop :=
  ∃ next, s.script = .ask op next

theorem serve_answers {session : ℕ} {w w' : World} {op : Op} {c : Choice} {rc : Rc}
    (h : serve session w op c = some (rc, w')) : w'.answers = w.answers ++ [(op, rc)] := by
  cases c with
  | answer =>
      cases h
      rfl
  | fail performed =>
      cases h
      rfl

/-- Every answer that is kept was given in a step of the run. -/
theorem answered_of_mem {α : Type} {session : ℕ} {start last : Session World Op Rc α}
    {trace : List (Session World Op Rc α × Act Choice Other)}
    (hrun : Run (step (service session)) start trace last) {op : Op} {rc : Rc}
    (hmem : (op, rc) ∈ last.shared.answers) (hstart : (op, rc) ∉ start.shared.answers) :
    ∃ s c w, (s, .serve c) ∈ trace ∧ Asks op s ∧ serve session s.shared op c = some (rc, w) := by
  induction hrun with
  | nil => exact absurd hmem hstart
  | @snoc trace s a t hrun hstep ih =>
      by_cases hbefore : (op, rc) ∈ s.shared.answers
      · obtain ⟨s', c, w, hs', hasks, hserve⟩ := ih hbefore
        exact ⟨s', c, w, List.mem_append_left _ hs', hasks, hserve⟩
      cases a with
      | serve c =>
          cases hscript : s.script with
          | done a => simp [step, hscript] at hstep
          | ask op' next =>
              simp only [step, hscript] at hstep
              obtain ⟨⟨rc', w⟩, hserve, rfl⟩ := Option.map_eq_some_iff.mp hstep
              rw [serve_answers hserve] at hmem
              rcases List.mem_append.mp hmem with hmem | hmem
              · exact absurd hmem hbefore
              · obtain ⟨rfl, rfl⟩ := Prod.mk.inj (List.mem_singleton.mp hmem)
                exact ⟨s, c, w, by simp, ⟨next, hscript⟩, hserve⟩
      | other e =>
          obtain ⟨w, hother, rfl⟩ := Option.map_eq_some_iff.mp hstep
          exact absurd (other_answers hother ▸ hmem) hbefore

theorem exists_of_nodeExists {session : ℕ} {w w' : World} {path : Path} {data : Bytes}
    {ephemeral : Bool} {c : Choice}
    (h : serve session w (.zooCreate path data ephemeral) c = some (.nodeExists, w')) :
    c = .answer ∧ w.tree path ≠ none ∧ w'.tree = w.tree := by
  cases c with
  | answer =>
      refine ⟨rfl, ?_⟩
      cases hcreate : create w.tree path data (if ephemeral then some session else none) with
      | mk rc tree =>
          simp only [serve, perform, hcreate, Option.some.injEq, Prod.mk.injEq] at h
          obtain ⟨rfl, rfl⟩ := h
          exact create_nodeExists hcreate
  | fail performed => cases h

end MyRpc.ZooKeeper
