import MyRpc.Registry.ZooKeeper

/-!
# Registering a service

`registerService` makes sure of the persistent nodes down to the service, and
then creates the ephemeral node of the instance.  A node that is already there
counts as success, whoever owns it.
-/

namespace MyRpc.ServiceRegistry

open FixedWidth PartialRun Scripts ZooKeeper

structure Registry where
  isConnected : Bool
  zkHandle : Bool
  deriving DecidableEq, Repr

/-- `c_str`: the functions of the C library read a path up to its first NUL. -/
def cStr (path : Bytes) : Path := path.takeWhile (· ≠ 0)

theorem cStr_eq_self {path : Bytes} (h : 0 ∉ path) : cStr path = path :=
  List.takeWhile_eq_self_iff.mpr fun _ hb ↦ decide_eq_true fun heq ↦ h (heq ▸ hb)

/-- `ROOT_PATH`, which is "/myrpc". -/
def rootPath : Bytes := [47, 109, 121, 114, 112, 99]

def servicePath (name : Bytes) : Bytes := rootPath ++ [slash] ++ name

def instancePath (name address : Bytes) : Bytes := servicePath name ++ [slash] ++ address

namespace Registry

def createNode (r : Registry) (path data : Bytes) (ephemeral : Bool) : Script Op Rc Bool :=
  if !r.zkHandle then .done false
  else .ask (.zooCreate (cStr path) data ephemeral) fun
    | .ok => .done true
    | .nodeExists => .done true
    | _ => .done false

/-- The part of `ensurePath` for the node of the path itself. -/
def ensureNode (path : Bytes) : Script Op Rc Bool :=
  .ask (.zooExists (cStr path)) fun
    | .ok => .done true
    | .noNode => .ask (.zooCreate (cStr path) [] false) fun
        | .ok => .done true
        | .nodeExists => .done true
        | _ => .done false
    | _ => .done false

def ensurePath (r : Registry) (path : Bytes) : Script Op Rc Bool :=
  if path = [] then .done true
  else if !r.zkHandle then .done false
  else match _ : findLastOf slash path with
    | some pos =>
        if 0 < pos ∧ path.take pos ≠ [] then
          (ensurePath r (path.take pos)).bind fun
            | true => ensureNode path
            | false => .done false
        else ensureNode path
    | none => ensureNode path
termination_by path.length
decreasing_by
  rw [List.length_take]
  exact (min_le_left _ _).trans_lt (findLastOf_lt ‹_›)

def registerService (r : Registry) (name address : Bytes) : Script Op Rc Bool :=
  if !(r.isConnected && r.zkHandle) || !r.zkHandle then .done false
  else (ensurePath r (servicePath name)).bind fun
    | true => createNode r (instancePath name address) address true
    | false => .done false

end Registry

/-! ## What a registration leaves -/

/-- When the client's own create was performed, a node stood at the path that
was not the session's own with this data. -/
def Found {α : Type} (session : ℕ) (path : Path) (data : Bytes)
    (trace : List (Session World Op Rc α × Act Choice Other)) : Prop :=
  ∃ s node, (s, .serve .answer) ∈ trace ∧ Asks (.zooCreate path data true) s ∧
    s.shared.tree path = some node ∧ node ≠ ⟨data, some session⟩

/-- What is true once the instance node is registered: it was there before, or
it is the session's own. -/
def Registered (session : ℕ) (name address : Bytes) (ok : Bool) (w : World) : Prop :=
  ok = true →
    (.zooCreate (cStr (instancePath name address)) address true, .nodeExists) ∈ w.answers ∨
      Owns session (cStr (instancePath name address)) address w

theorem stable_registered (session : ℕ) (name address : Bytes) (ok : Bool) :
    Stable (service session) (Registered session name address ok) := by
  intro w e w' hother h hok
  rcases h hok with h | h
  · exact .inl (stable_answers session _ w e w' hother h)
  · exact .inr (stable_owns session _ _ w e w' hother h)

theorem wp_createNode (session : ℕ) (r : Registry) (name address : Bytes) (w : World) :
    wp (service session) (Registered session name address)
      (r.createNode (instancePath name address) address true) w := by
  unfold Registry.createNode
  split
  · exact fun hok ↦ absurd hok Bool.false_ne_true
  intro t hinterferes c rc u hserve
  cases c with
  | answer =>
      cases hcreate : create t.tree (cStr (instancePath name address)) address (some session) with
      | mk rc' tree =>
          simp only [service, serve, perform, if_true, hcreate, Option.some.injEq,
            Prod.mk.injEq] at hserve
          obtain ⟨rfl, rfl⟩ := hserve
          cases rc' with
          | ok => exact fun _ ↦ .inr (create_ok hcreate)
          | nodeExists => exact fun _ ↦ .inl (by simp)
          | noNode => exact fun hok ↦ absurd hok Bool.false_ne_true
          | other => exact fun hok ↦ absurd hok Bool.false_ne_true
  | fail performed =>
      cases hserve
      exact fun hok ↦ absurd hok Bool.false_ne_true

theorem wp_registerService (session : ℕ) (r : Registry) (name address : Bytes) (w : World) :
    wp (service session) (Registered session name address) (r.registerService name address) w := by
  unfold Registry.registerService
  split
  · exact fun hok ↦ absurd hok Bool.false_ne_true
  rw [wp_bind]
  refine wp_of_forall (fun ready t ↦ ?_) _ w
  cases ready with
  | true => exact wp_createNode session r name address t
  | false => exact fun hok ↦ absurd hok Bool.false_ne_true

/-- **A registration that succeeds.**  Unless a node that is not its own stood at
the path of the instance when the create was performed, the session owns the node
there in every state from the end of the registration on, whatever the other
sessions create and whichever of them expire. -/
theorem registerService_owns {session : ℕ} {tree : Tree} {r : Registry} {name address : Bytes}
    {trace : List (Session World Op Rc Bool × Act Choice Other)}
    {last : Session World Op Rc Bool}
    (hrun : Run (step (service session)) ⟨⟨tree, []⟩, r.registerService name address⟩ trace last)
    (hdone : last.script = .done true) :
    Found session (cStr (instancePath name address)) address trace ∨
      Owns session (cStr (instancePath name address)) address last.shared := by
  have hregistered : Registered session name address true last.shared :=
    wp_run (stable_registered session name address) (wp_registerService session r name address _)
      hrun hdone
  rcases hregistered rfl with hanswer | howns
  · obtain ⟨s, c, w, hs, hasks, hserve⟩ := answered_of_mem hrun hanswer List.not_mem_nil
    obtain ⟨rfl, hfound, -⟩ := exists_of_nodeExists hserve
    obtain ⟨node, hnode⟩ := Option.ne_none_iff_exists'.mp hfound
    by_cases hown : node = ⟨address, some session⟩
    · exact .inr (owns_of_mem hrun hs (hnode.trans (congrArg some hown)))
    · exact .inl ⟨s, node, hs, hasks, hnode, hown⟩
  · exact .inr howns

/-- The server "/myrpc/s/a", by itself in an empty ZooKeeper. -/
def firstRegistration : Session World Op Rc Bool :=
  ⟨⟨fun path ↦ if path = [slash] then some ⟨[], none⟩ else none, []⟩,
    (Registry.mk true true).registerService [115] [97]⟩

def firstActs : List (Act Choice Other) :=
  [.serve .answer, .serve .answer, .serve .answer, .serve .answer, .serve .answer,
    .other (.create (instancePath [115] [97]) [98] (some 7)), .other (.expire 7)]

/-- The server again, restarted while its earlier session 7 has not expired. -/
def restarted : Session World Op Rc Bool :=
  ⟨⟨fun path ↦
      if path = [slash] ∨ path = rootPath ∨ path = servicePath [115] then some ⟨[], none⟩
      else if path = instancePath [115] [97] then some ⟨[97], some 7⟩
      else none, []⟩,
    (Registry.mk true true).registerService [115] [97]⟩

def restartedActs : List (Act Choice Other) :=
  [.serve .answer, .serve .answer, .serve .answer, .other (.expire 7)]

theorem registerService_owns_first :
    (executed (step (service 1)) firstRegistration firstActs).2.script = .done true ∧
    (Found 1 (cStr (instancePath [115] [97])) [97]
        (executed (step (service 1)) firstRegistration firstActs).1 ∨
      Owns 1 (cStr (instancePath [115] [97])) [97]
        (executed (step (service 1)) firstRegistration firstActs).2.shared) := by
  have hdone : (executed (step (service 1)) firstRegistration firstActs).2.script = .done true :=
    Script.result_eq_some.mp (by decide +kernel)
  exact ⟨hdone, registerService_owns (Run.of_isSome (by decide +kernel)) hdone⟩

/-- The node the restarted server found goes with its earlier session. -/
theorem registerService_lost :
    ¬∀ (session : ℕ) (tree : Tree) (r : Registry) (name address : Bytes)
      (trace : List (Session World Op Rc Bool × Act Choice Other))
      (last : Session World Op Rc Bool),
      Run (step (service session)) ⟨⟨tree, []⟩, r.registerService name address⟩ trace last →
      last.script = .done true →
        Owns session (cStr (instancePath name address)) address last.shared := by
  intro h
  have hrun : Run (step (service 1)) restarted
      (executed (step (service 1)) restarted restartedActs).1
      (executed (step (service 1)) restarted restartedActs).2 :=
    Run.of_isSome (by decide +kernel)
  have hdone : (executed (step (service 1)) restarted restartedActs).2.script = .done true :=
    Script.result_eq_some.mp (by decide +kernel)
  have howns := h 1 _ _ [115] [97] _ _ hrun hdone
  have hgone : (executed (step (service 1)) restarted restartedActs).2.shared.tree
      (cStr (instancePath [115] [97])) = none := by decide +kernel
  cases hgone.symm.trans howns

end MyRpc.ServiceRegistry
