import MyRpc.Registry.ServiceRegistry

/-!
# Making sure of a path

`ensurePath` cuts a path at its last slash, makes sure of what stands in front of
it, and then of the node itself.  Other sessions may create nodes at any time.
The path and its ancestors are the only nodes that a client creates this way, and
they are all there when it is told so (`ensurePath_ensures`).
-/

namespace MyRpc.ServiceRegistry

open FixedWidth PartialRun Scripts ZooKeeper

/-- What may stand between two slashes of a path of ZooKeeper. -/
structure Name where
  bytes : Bytes
  ne_nil : bytes ≠ []
  no_slash : slash ∉ bytes
  no_nul : 0 ∉ bytes

/-- The absolute path of the names from the root down. -/
def absolute : List Name → Path
  | [] => [slash]
  | name :: names => (name :: names).flatMap fun name ↦ slash :: name.bytes

/-- ZooKeeper with other sessions that create nodes, and remove none. -/
def growing (session : ℕ) : Service World Op Rc Choice (Path × Bytes × Option ℕ) where
  serve := serve session
  other w e := some { w with tree := (create w.tree e.1 e.2.1 e.2.2).2 }

/-! ## Paths -/

theorem findLastOf_of_not_mem {c : UInt8} {path : Bytes} (h : c ∉ path) :
    findLastOf c path = none := by
  induction path with
  | nil => rfl
  | cons b rest ih =>
      have hb : b ≠ c := fun heq ↦ h (heq ▸ List.mem_cons_self)
      simp only [findLastOf, ih fun hmem ↦ h (List.mem_cons_of_mem _ hmem), if_neg hb]

theorem findLastOf_append {c : UInt8} (path : Bytes) {rest : Bytes} (h : c ∉ rest) :
    findLastOf c (path ++ c :: rest) = some path.length := by
  induction path with
  | nil =>
      simp only [List.nil_append, findLastOf, findLastOf_of_not_mem h, if_true, List.length_nil]
  | cons b path ih => simp only [List.cons_append, findLastOf, ih, List.length_cons]

theorem absolute_snoc {names : List Name} (hne : names ≠ []) (name : Name) :
    absolute (names ++ [name]) = absolute names ++ slash :: name.bytes := by
  cases names with
  | nil => exact absurd rfl hne
  | cons first rest => simp [absolute, List.flatMap_append]

theorem absolute_singleton (name : Name) : absolute [name] = slash :: name.bytes := by
  simp [absolute]

theorem absolute_ne_nil (names : List Name) : absolute names ≠ [] := by
  cases names with
  | nil => simp [absolute]
  | cons first rest => simp [absolute]

theorem findLastOf_absolute {names : List Name} (hne : names ≠ []) (name : Name) :
    findLastOf slash (absolute (names ++ [name])) = some (absolute names).length := by
  rw [absolute_snoc hne]
  exact findLastOf_append _ name.no_slash

theorem findLastOf_absolute_singleton (name : Name) :
    findLastOf slash (absolute [name]) = some 0 := by
  rw [absolute_singleton]
  exact findLastOf_append [] name.no_slash

theorem parent_absolute (names : List Name) (name : Name) :
    parent (absolute (names ++ [name])) = some (absolute names) := by
  by_cases hne : names = []
  · rw [hne, List.nil_append, parent, findLastOf_absolute_singleton]
    rfl
  · have hpos : (absolute names).length ≠ 0 :=
      fun hzero ↦ absolute_ne_nil names (List.length_eq_zero_iff.mp hzero)
    obtain ⟨n, hn⟩ := Nat.exists_eq_succ_of_ne_zero hpos
    rw [parent, findLastOf_absolute hne, hn]
    show some ((absolute (names ++ [name])).take (n + 1)) = _
    rw [absolute_snoc hne, ← Nat.succ_eq_add_one, ← hn, List.take_left]

theorem cStr_absolute (names : List Name) : cStr (absolute names) = absolute names := by
  refine cStr_eq_self fun hnul ↦ ?_
  cases names with
  | nil => exact absurd hnul (by decide)
  | cons first rest =>
      obtain ⟨name, -, hmem⟩ := List.mem_flatMap.mp hnul
      rcases List.mem_cons.mp hmem with hslash | hmem
      · exact absurd hslash (by decide)
      · exact name.no_nul hmem

/-! ## The recursion -/

namespace Registry

/-- The rest of `ensurePath`, once the parent is made sure of or not. -/
def behindParent (path : Bytes) : Bool → Script Op Rc Bool
  | true => ensureNode path
  | false => .done false

theorem ensurePath_of_find {r : Registry} (h : r.zkHandle = true) {path : Bytes} {pos : ℕ}
    (hfind : findLastOf slash path = some pos) :
    r.ensurePath path =
      if 0 < pos ∧ path.take pos ≠ [] then
        (r.ensurePath (path.take pos)).bind (behindParent path)
      else ensureNode path := by
  have hne : path ≠ [] := by
    rintro rfl
    cases hfind
  rw [ensurePath, if_neg hne, h]
  split
  · rename_i hhandle
    cases hhandle
  · split
    · rename_i pos' hfind'
      obtain rfl : pos = pos' := Option.some.inj (hfind.symm.trans hfind')
      refine if_congr Iff.rfl (congrArg _ (funext fun ok ↦ ?_)) rfl
      cases ok <;> rfl
    · rename_i hnone
      rw [hnone] at hfind
      cases hfind

/-- Nothing stands in front of the only slash of the path. -/
theorem ensurePath_top {r : Registry} (h : r.zkHandle = true) {path : Bytes}
    (hfind : findLastOf slash path = some 0) : r.ensurePath path = ensureNode path :=
  (ensurePath_of_find h hfind).trans (if_neg fun hcut ↦ hcut.2 rfl)

theorem ensurePath_snoc {r : Registry} (h : r.zkHandle = true) {names : List Name}
    (hne : names ≠ []) (name : Name) :
    r.ensurePath (absolute (names ++ [name])) =
      (r.ensurePath (absolute names)).bind (behindParent (absolute (names ++ [name]))) := by
  have htake : (absolute (names ++ [name])).take (absolute names).length = absolute names := by
    rw [absolute_snoc hne, List.take_left]
  have hcut : 0 < (absolute names).length ∧
      (absolute (names ++ [name])).take (absolute names).length ≠ [] := by
    rw [htake]
    exact ⟨List.length_pos_iff.mpr (absolute_ne_nil names), absolute_ne_nil names⟩
  rw [ensurePath_of_find h (findLastOf_absolute hne name), if_pos hcut, htake]

end Registry

/-! ## What is asked -/

/-- An operation on the path or on one of its ancestors, as `ensurePath` asks them. -/
def Touches (names : List Name) (op : Op) : Prop :=
  ∃ above, above <+: names ∧
    (op = .zooExists (absolute above) ∨ op = .zooCreate (absolute above) [] false)

theorem within_ensureNode (names : List Name) :
    (Registry.ensureNode (absolute names)).Within (Touches names) 2 := by
  have hself : names <+: names := List.prefix_rfl
  unfold Registry.ensureNode
  rw [cStr_absolute]
  refine ⟨⟨names, hself, .inl rfl⟩, fun rc ↦ ?_⟩
  cases rc with
  | noNode =>
      refine ⟨⟨names, hself, .inr rfl⟩, fun rc' ↦ ?_⟩
      cases rc' <;> exact trivial
  | ok => exact trivial
  | nodeExists => exact trivial
  | other => exact trivial

theorem within_ensurePath {r : Registry} (h : r.zkHandle = true) (names : List Name) :
    (r.ensurePath (absolute names)).Within (Touches names) (2 * (names.length + 1)) := by
  induction names using List.reverseRecOn with
  | nil =>
      rw [Registry.ensurePath_top h rfl]
      exact within_ensureNode []
  | append_singleton names name ih =>
      by_cases hne : names = []
      · rw [hne, List.nil_append, Registry.ensurePath_top h (findLastOf_absolute_singleton name)]
        exact Script.within_mono (fun _ hop ↦ hop) (by simp) (within_ensureNode [name])
      · have hmore : ∀ op, Touches names op → Touches (names ++ [name]) op := by
          rintro op ⟨above, habove, hop⟩
          exact ⟨above, habove.trans (List.prefix_append _ _), hop⟩
        rw [Registry.ensurePath_snoc h hne, List.length_append]
        refine Script.within_bind (Script.within_mono hmore (Nat.le_refl _) ih) fun ok ↦ ?_
        cases ok with
        | true => exact within_ensureNode (names ++ [name])
        | false => exact trivial

/-! ## What is there afterwards -/

/-- No operation has failed: a node that is there already, or not there, is no failure. -/
def Calm (w : World) : Prop := ∀ entry ∈ w.answers, entry.2 ≠ .other

theorem create_grows {tree : Tree} {path : Path} (h : tree path ≠ none) (path' : Path)
    (data : Bytes) (owner : Option ℕ) : (create tree path' data owner).2 path ≠ none := by
  obtain ⟨node, hnode⟩ := Option.ne_none_iff_exists'.mp h
  rw [create_keeps hnode]
  exact Option.some_ne_none node

/-- Under a parent that exists, a node is created or exists. -/
theorem create_below {tree : Tree} {path above : Path} (habove : parent path = some above)
    (hexists : tree above ≠ none) (data : Bytes) (owner : Option ℕ) :
    ((create tree path data owner).1 = .ok ∨ (create tree path data owner).1 = .nodeExists) ∧
      (create tree path data owner).2 path ≠ none := by
  unfold create
  rw [habove]
  simp only [if_neg hexists]
  by_cases hpath : tree path = none
  · rw [if_pos hpath]
    refine ⟨.inl rfl, ?_⟩
    show Function.update tree path (some ⟨data, owner⟩) path ≠ none
    rw [Function.update_self]
    exact Option.some_ne_none _
  · rw [if_neg hpath]
    exact ⟨.inr rfl, hpath⟩

theorem stable_exists (session : ℕ) (path : Path) :
    Stable (growing session) fun w ↦ w.tree path ≠ none := by
  intro w e w' hother h
  cases hother
  exact create_grows h _ _ _

/-- The nodes are there if the answer is true, and it is true if no operation has failed. -/
def Ensured (paths : Set Path) (ok : Bool) (w : World) : Prop :=
  (ok = true → ∀ path ∈ paths, w.tree path ≠ none) ∧ (Calm w → ok = true)

theorem stable_ensured (session : ℕ) (paths : Set Path) (ok : Bool) :
    Stable (growing session) (Ensured paths ok) := by
  intro w e w' hother h
  refine ⟨fun hok path hpath ↦ ?_, ?_⟩
  · exact stable_exists session path w e w' hother (h.1 hok path hpath)
  · cases hother
    exact h.2

theorem ensured_of_fail {session : ℕ} {w u : World} {op : Op} {performed : Bool} {rc : Rc}
    (h : serve session w op (.fail performed) = some (rc, u)) (paths : Set Path) :
    rc = .other ∧ Ensured paths false u := by
  cases h
  refine ⟨rfl, fun hok ↦ absurd hok Bool.false_ne_true, fun hcalm ↦ ?_⟩
  exact absurd rfl (hcalm (op, .other) (by simp))

/-- What the answer of the create makes of the rest of `ensureNode`. -/
theorem ensured_of_create {session : ℕ} {paths : Set Path} {path above : Path} {t : World}
    {c : Choice} {rc : Rc} {u : World} (habove : parent path = some above) (hmem : above ∈ paths)
    (h : ∀ path ∈ paths, t.tree path ≠ none)
    (hserve : serve session t (.zooCreate path [] false) c = some (rc, u)) :
    ((rc = .ok ∨ rc = .nodeExists) ∧ Ensured (insert path paths) true u) ∨
      rc = .other ∧ Ensured (insert path paths) false u := by
  cases c with
  | fail performed => exact .inr (ensured_of_fail hserve _)
  | answer =>
      obtain ⟨hrc, hnode⟩ := create_below habove (h above hmem) [] none
      cases hserve
      refine .inl ⟨hrc, fun _ path' hpath' ↦ ?_, fun _ ↦ rfl⟩
      rcases hpath' with rfl | hpath'
      · exact hnode
      · exact create_grows (h path' hpath') _ _ _

theorem wp_ensureNode (session : ℕ) {paths : Set Path} {path above : Path} {w : World}
    (hpath : cStr path = path) (habove : parent path = some above) (hmem : above ∈ paths)
    (h : ∀ path ∈ paths, w.tree path ≠ none) :
    wp (growing session) (Ensured (insert path paths)) (Registry.ensureNode path) w := by
  unfold Registry.ensureNode
  rw [hpath]
  intro t hwt c rc u hserve
  have ht : ∀ path ∈ paths, t.tree path ≠ none :=
    fun path' hpath' ↦ (stable_exists session path').of_interferes hwt (h path' hpath')
  cases c with
  | fail performed =>
      obtain ⟨rfl, hensured⟩ := ensured_of_fail hserve (insert path paths)
      exact hensured
  | answer =>
      by_cases hfree : t.tree path = none
      · have hanswer : rc = .noNode ∧ u.tree = t.tree := by
          simp only [growing, serve, perform, if_pos hfree, Option.some.injEq,
            Prod.mk.injEq] at hserve
          obtain ⟨rfl, rfl⟩ := hserve
          exact ⟨rfl, rfl⟩
        obtain ⟨rfl, hu⟩ := hanswer
        intro t' hut' c' rc' u' hserve'
        have ht' : ∀ path ∈ paths, t'.tree path ≠ none :=
          fun path' hpath' ↦ (stable_exists session path').of_interferes hut'
            (hu ▸ ht path' hpath')
        rcases ensured_of_create habove hmem ht' hserve' with
          ⟨rfl | rfl, hensured⟩ | ⟨rfl, hensured⟩
        · exact hensured
        · exact hensured
        · exact hensured
      · simp only [growing, serve, perform, if_neg hfree, Option.some.injEq, Prod.mk.injEq]
          at hserve
        obtain ⟨rfl, rfl⟩ := hserve
        refine ⟨fun _ path' hpath' ↦ ?_, fun _ ↦ rfl⟩
        rcases hpath' with rfl | hpath'
        · exact hfree
        · exact ht path' hpath'

/-- The path of the names and its ancestors. -/
def ancestors (names : List Name) : Set Path := {path | ∃ above, above <+: names ∧
  path = absolute above}

theorem ancestors_nil : ancestors [] = {absolute []} := by
  ext path
  simp [ancestors]

theorem ancestors_snoc (names : List Name) (name : Name) :
    ancestors (names ++ [name]) = insert (absolute (names ++ [name])) (ancestors names) := by
  ext path
  simp only [ancestors, List.prefix_concat_iff, Set.mem_insert_iff, Set.mem_ofPred_eq]
  constructor
  · rintro ⟨above, rfl | habove, rfl⟩
    · exact .inl rfl
    · exact .inr ⟨above, habove, rfl⟩
  · rintro (rfl | ⟨above, habove, rfl⟩)
    · exact ⟨_, .inl rfl, rfl⟩
    · exact ⟨above, .inr habove, rfl⟩

theorem self_mem_ancestors (names : List Name) : absolute names ∈ ancestors names :=
  ⟨names, List.prefix_rfl, rfl⟩

theorem wp_ensurePath (session : ℕ) {r : Registry} (hhandle : r.zkHandle = true)
    (names : List Name) {w : World} (hroot : w.tree [slash] ≠ none) :
    wp (growing session) (Ensured (ancestors names)) (r.ensurePath (absolute names)) w := by
  have hroots : ∀ path ∈ ({absolute []} : Set Path), w.tree path ≠ none := by
    rintro path rfl
    exact hroot
  induction names using List.reverseRecOn with
  | nil =>
      have hparent : parent (absolute []) = some (absolute []) := rfl
      have hnode := wp_ensureNode session (cStr_absolute []) hparent (Set.mem_singleton _) hroots
      rw [Set.insert_eq_of_mem (Set.mem_singleton _)] at hnode
      rwa [Registry.ensurePath_top hhandle rfl, ancestors_nil]
  | append_singleton names name ih =>
      rw [ancestors_snoc]
      by_cases hne : names = []
      · rw [hne, List.nil_append,
          Registry.ensurePath_top hhandle (findLastOf_absolute_singleton name), ancestors_nil]
        exact wp_ensureNode session (cStr_absolute [name]) (parent_absolute [] name) rfl hroots
      · rw [Registry.ensurePath_snoc hhandle hne, wp_bind]
        refine wp_mono (fun ok t hparent ↦ ?_) ih
        cases ok with
        | true =>
            exact wp_ensureNode session (cStr_absolute _) (parent_absolute names name)
              (self_mem_ancestors names) (hparent.1 rfl)
        | false =>
            refine ⟨fun hok ↦ absurd hok Bool.false_ne_true, fun hcalm ↦ ?_⟩
            exact absurd (hparent.2 hcalm) Bool.false_ne_true

/-! ## Runs -/

theorem tree_of_serve {session : ℕ} {w u : World} {op : Op} {c : Choice} {rc : Rc}
    (h : serve session w op c = some (rc, u)) :
    u.tree = w.tree ∨ u.tree = (perform session w.tree op).2 := by
  cases c with
  | answer =>
      cases h
      exact .inr rfl
  | fail performed =>
      cases h
      cases performed with
      | true => exact .inr rfl
      | false => exact .inl rfl

theorem eq_of_create {tree : Tree} {path path' : Path} {data : Bytes} {owner : Option ℕ}
    (hfree : tree path = none) (h : (create tree path' data owner).2 path ≠ none) :
    path = path' := by
  by_contra hne
  refine h ?_
  unfold create
  split
  · exact hfree
  · split
    · exact hfree
    · split
      · exact (Function.update_of_ne hne _ _).trans hfree
      · exact hfree

/-- What a run of `ensurePath` should be like, in every state it comes to. -/
structure Ensures (session : ℕ) (names : List Name)
    (trace : List (Session World Op Rc Bool × Act Choice (Path × Bytes × Option ℕ)))
    (last : Session World Op Rc Bool) : Prop where
  bounded : served trace ≤ 2 * (names.length + 1)
  progress : (∃ ok, last.script = .done ok) ∨
    ∀ c, (step (growing session) last (.serve c)).isSome = true
  keeps : ∀ s c t, (s, .serve c) ∈ trace → step (growing session) s (.serve c) = some t →
    ∀ path node, s.shared.tree path = some node → t.shared.tree path = some node
  creates : ∀ s c t, (s, .serve c) ∈ trace → step (growing session) s (.serve c) = some t →
    ∀ path, s.shared.tree path = none → t.shared.tree path ≠ none → path ∈ ancestors names
  exists_of_true : last.script = .done true →
    ∀ path ∈ ancestors names, last.shared.tree path ≠ none
  returns_true : ∀ ok, last.script = .done ok → Calm last.shared → ok = true

/-- **Making sure of a path.**  In every run from a tree with a root, while other
sessions create nodes: the client asks at most two operations for the root and
each name and can go on until it is done, none of its operations removes or
changes a node, they create nothing but the path and its ancestors, these exist
when the answer is true, and it is true if no operation has failed. -/
theorem ensurePath_ensures {session : ℕ} {r : Registry} (hhandle : r.zkHandle = true)
    {names : List Name} {tree : Tree} (hroot : tree [slash] ≠ none)
    {trace : List (Session World Op Rc Bool × Act Choice (Path × Bytes × Option ℕ))}
    {last : Session World Op Rc Bool}
    (hrun : Run (step (growing session)) ⟨⟨tree, []⟩, r.ensurePath (absolute names)⟩ trace last) :
    Ensures session names trace last := by
  have hwithin := within_ensurePath hhandle names
  have hensured : ∀ ok, last.script = .done ok → Ensured (ancestors names) ok last.shared :=
    fun ok hdone ↦ wp_run (stable_ensured session (ancestors names))
      (wp_ensurePath session hhandle names hroot) hrun hdone
  have hserved : ∀ s c t, (s, .serve c) ∈ trace → step (growing session) s (.serve c) = some t →
      ∃ op rc, Touches names op ∧ serve session s.shared op c = some (rc, t.shared) := by
    intro s c t hmem hstep
    obtain ⟨op, next, hscript, htouches⟩ := asked_of_mem hwithin hrun hmem
    simp only [step, hscript] at hstep
    obtain ⟨⟨rc, u⟩, hserve, rfl⟩ := Option.map_eq_some_iff.mp hstep
    exact ⟨op, rc, htouches, hserve⟩
  constructor
  · obtain ⟨k, -, hcount⟩ := within_run hwithin hrun
    omega
  · cases hscript : last.script with
    | done ok => exact .inl ⟨ok, rfl⟩
    | ask op next =>
        refine .inr fun c ↦ ?_
        cases c <;> simp [step, hscript, growing, serve]
  · intro s c t hmem hstep path node hnode
    obtain ⟨op, rc, -, hserve⟩ := hserved s c t hmem hstep
    rcases tree_of_serve hserve with htree | htree
    · rw [htree]
      exact hnode
    · rw [htree]
      exact perform_keeps hnode session op
  · intro s c t hmem hstep path hfree hexists
    obtain ⟨op, rc, ⟨above, habove, hop⟩, hserve⟩ := hserved s c t hmem hstep
    rcases tree_of_serve hserve with htree | htree
    · rw [htree] at hexists
      exact absurd hfree hexists
    · rw [htree] at hexists
      rcases hop with rfl | rfl
      · exact absurd hfree hexists
      · exact ⟨above, habove, eq_of_create hfree hexists⟩
  · exact fun hdone ↦ (hensured true hdone).1 rfl
  · exact fun ok hdone ↦ (hensured ok hdone).2

/-- "/a/b". -/
def twoNames : List Name :=
  [⟨[97], by decide, by decide, by decide⟩, ⟨[98], by decide, by decide, by decide⟩]

def firstPath : Session World Op Rc Bool :=
  ⟨⟨fun path ↦ if path = [slash] then some ⟨[], none⟩ else none, []⟩,
    (Registry.mk true true).ensurePath (absolute twoNames)⟩

/-- Another session creates "/a" between the check and the create. -/
def racingActs : List (Act Choice (Path × Bytes × Option ℕ)) :=
  [.serve .answer, .other ([47, 97], [], some 7), .serve .answer, .serve .answer, .serve .answer]

theorem ensurePath_ensures_racing :
    (executed (step (growing 1)) firstPath racingActs).2.script = .done true ∧
      Ensures 1 twoNames (executed (step (growing 1)) firstPath racingActs).1
        (executed (step (growing 1)) firstPath racingActs).2 :=
  ⟨Script.result_eq_some.mp (by decide +kernel),
    ensurePath_ensures rfl (by decide) (Run.of_isSome (by decide +kernel))⟩

end MyRpc.ServiceRegistry
