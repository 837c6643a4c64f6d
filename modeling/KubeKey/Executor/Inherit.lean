import KubeKey.Executor.Playbook
import KubeKey.Executor.Task

/-!
# What a task inherits

The leaves of a play in document order, each with the elements that enclose it:
the blocks from the inside out, the role, the roles that depend on that role and
the play. A run creates tasks for some of the leaves, in this order (`Creates`).
What a created task says about `ignore_errors` and `when` is then compared with
what its enclosing elements say.
-/

namespace KubeKey.Executor

open KubeKey.Go KubeKey.Project

/-- What an enclosing block or role says. -/
structure Scope where
  ignoreErrors : Option Bool
  when : List String

def blockScope (head : BlockHead) : Scope := ⟨head.ignoreErrors, head.when⟩

def roleScope (head : RoleHead) : Scope := ⟨head.ignoreErrors, head.when⟩

/-- A place in a play: the hosts that reach it and what encloses it. -/
structure Place where
  hosts : List String
  /-- The enclosing blocks, from the inside out. -/
  blocks : List Scope
  /-- The role of the place, then the roles that depend on it, nearest first. -/
  roles : List Scope
  play : Option Bool

/-- An element of a play that is run as a task. -/
structure Leaf extends Place where
  head : BlockHead

/-- The place of the sections of a block. -/
def Place.inside (c : Place) (head : BlockHead) : Place :=
  { c with
    hosts := if head.runOnce then c.hosts.take 1 else c.hosts
    blocks := blockScope head :: c.blocks }

/-- The place of a role that the roles of `c` depend on. -/
def Place.role (c : Place) (head : RoleHead) : Place := { c with roles := roleScope head :: c.roles }

mutual

/-- The leaves of a list of blocks in document order. -/
def blocksLeaves (c : Place) : List Block → List Leaf
  | [] => []
  | block :: blocks => blockLeaves c block ++ blocksLeaves c blocks

/-- The leaves of a block: those of its sections, or the task itself. -/
def blockLeaves (c : Place) : Block → List Leaf
  | .mk head block rescue always =>
    if !block.isEmpty then
      blocksLeaves (c.inside head) block ++
        (blocksLeaves (c.inside head) rescue ++ blocksLeaves (c.inside head) always)
    else if head.includeTasks ≠ "" then []
    else [{ c with hosts := (c.inside head).hosts, head := head }]

end

mutual

/-- The leaves of a role at the place of the roles that depend on it. -/
def roleLeaves (c : Place) : Role → List Leaf
  | .mk head roleDependency block =>
    rolesLeaves (c.role head) roleDependency ++ blocksLeaves (c.role head) block

def rolesLeaves (c : Place) : List Role → List Leaf
  | [] => []
  | role :: roles => roleLeaves c role ++ rolesLeaves c roles

end

/-- The place of the task lists of a play. -/
def playPlace (play : Play) (hosts : List String) : Place := ⟨hosts, [], [], play.ignoreErrors⟩

/-- The leaves of a play for one batch of hosts. -/
def batchLeaves (play : Play) (hosts : List String) : List Leaf :=
  let c := playPlace play hosts
  blocksLeaves c play.preTasks ++
    (rolesLeaves c play.roles ++ (blocksLeaves c play.tasks ++ blocksLeaves c play.postTasks))

/-- The setup task of a play. -/
def gatherFactsLeaf (play : Play) (hosts : List String) : Leaf :=
  { playPlace play hosts with head := { name := "gather_facts" } }

/-- The leaves of a play, batch after batch. -/
def playLeaves (play : Play) (hosts : List String) (batchHosts : List (List String)) : List Leaf :=
  (if play.gatherFacts then [gatherFactsLeaf play hosts] else []) ++ batchHosts.flatMap (batchLeaves play)

/-- Append the conditions that are not there yet. -/
def addConditions (w data : List String) : List String := data.foldl (fun w d => if d ∈ w then w else w ++ [d]) w

/-- The conditions that reach the blocks of a place: the role's own, then each block's. -/
def handedDown (roles : List Scope) : List Scope → List String
  | [] => (roles.head?.map Scope.when).getD []
  | block :: blocks => addConditions (handedDown roles blocks) block.when

/-- The conditions of the task of a leaf. -/
def Leaf.when (l : Leaf) : List String := addConditions (handedDown l.roles l.blocks) l.head.when

/-- `t` is the task of the leaf `l`, with some module. -/
def Leaf.Makes (marshal : Lit → Option String) (l : Leaf) (t : Task) : Prop :=
  ∃ module, t = { marshalBlock marshal l.hosts l.when l.head with module := module }

section Creates
variable {σ : Type} {marshal : Lit → Option String}

/-- A run of `x` creates tasks for some of the leaves, in their order. -/
def Creates (marshal : Lit → Option String) (x : Exec σ) (leaves : List Leaf) : Prop :=
  ∀ st, ∃ ran : List (Leaf × Task), (x st).2.created = st.created ++ ran.map Prod.snd ∧
    (ran.map Prod.fst).Sublist leaves ∧ ∀ r ∈ ran, r.1.Makes marshal r.2

theorem creates_of_unchanged {x : Exec σ} (same : ∀ st, (x st).2.created = st.created) (leaves : List Leaf) :
    Creates marshal x leaves :=
  fun st => ⟨[], by simp [same st], by simp, by simp⟩

theorem creates_lift (f : σ → Option ExecErr × σ) (leaves : List Leaf) : Creates marshal (Exec.lift f) leaves :=
  creates_of_unchanged (fun _ => rfl) leaves

/-- Two parts in a row, the second of them possibly not run. -/
theorem Creates.chain {x y z : Exec σ} {a b : List Leaf} (first : Creates marshal x a) (second : Creates marshal y b)
    (split : ∀ st, (z st).2.created = (x st).2.created ∨ ∃ st₁, st₁.created = (x st).2.created ∧
      (z st).2.created = (y st₁).2.created) : Creates marshal z (a ++ b) := by
  intro st
  obtain ⟨ran, created, sub, made⟩ := first st
  rcases split st with stopped | ⟨st₁, start, went⟩
  · exact ⟨ran, by rw [stopped, created], sub.trans (List.sublist_append_left a b), made⟩
  · obtain ⟨ran₁, created₁, sub₁, made₁⟩ := second st₁
    refine ⟨ran ++ ran₁, ?_, ?_, ?_⟩
    · rw [went, created₁, start, created, List.map_append, List.append_assoc]
    · rw [List.map_append]
      exact sub.append sub₁
    · intro r member
      rcases List.mem_append.1 member with here | there
      · exact made r here
      · exact made₁ r there

theorem Creates.andThen {x y : Exec σ} {a b : List Leaf} (first : Creates marshal x a)
    (second : Creates marshal y b) : Creates marshal (x.andThen y) (a ++ b) := by
  apply first.chain second
  intro st
  unfold Exec.andThen
  split
  · next run => exact Or.inl (by rw [run])
  · next st₁ run => exact Or.inr ⟨st₁, by rw [run], rfl⟩

/-- The sections of a block create in the order block, rescue, always. -/
theorem creates_dealBlock {block rescue always : Exec σ} {hasRescue hasAlways : Bool} {a b c : List Leaf}
    (blockCreates : Creates marshal block a) (rescueCreates : Creates marshal rescue b)
    (alwaysCreates : Creates marshal always c) :
    Creates marshal (dealBlock block (if hasRescue then none else some rescue)
      (if hasAlways then none else some always)) (a ++ (b ++ c)) := by
  -- the block with its rescue section is one part, the always section the next
  let head : Exec σ := dealBlock block (if hasRescue then none else some rescue) none
  have headCreates : Creates marshal head (a ++ b) := by
    apply blockCreates.chain rescueCreates
    intro st
    simp only [head, dealBlock]
    split
    · next run => exact Or.inl (by rw [run])
    · next err st₁ run =>
      cases hasRescue with
      | true => exact Or.inl (by simp [run])
      | false =>
        refine Or.inr ⟨st₁, by rw [run], ?_⟩
        simp only [Bool.false_eq_true, if_false]
        split
        · next rescued => rw [rescued]
        · next rescued => rw [rescued]
  rw [← List.append_assoc]
  apply headCreates.chain alwaysCreates
  intro st
  cases hasAlways with
  | true => exact Or.inl (by simp [head])
  | false =>
    refine Or.inr ⟨(head st).2, rfl, ?_⟩
    simp only [dealBlock, Bool.false_eq_true, if_false, head]
    split
    · next finished => rw [finished]
    · next finished => rw [finished]

theorem creates_taskExecutorExec {o : ExecOption σ} {l : Leaf} {t : Task} (made : l.Makes marshal t) :
    Creates marshal (taskExecutorExec o t) [l] := by
  intro st
  unfold taskExecutorExec
  split
  · exact ⟨[], by simp, by simp, by simp⟩
  · exact ⟨[(l, t)], by simp [Exec.lift], by simp, by simpa using made⟩

theorem creates_dealTask (o : ExecOption σ) (l : Leaf) :
    Creates o.marshal (dealTask o l.hosts l.when l.head) [l] := by
  intro st
  unfold dealTask
  split
  · exact ⟨[], by simp, by simp, by simp⟩
  · next module _ =>
    split
    · exact ⟨[], by simp, by simp, by simp⟩
    dsimp only
    split
    · exact ⟨[], by simp, by simp, by simp⟩
    · exact creates_taskExecutorExec ⟨module, rfl⟩ st

end Creates

/-- The executor `e` stands at the place `c`. -/
structure Stands (e : BlockExecutor) (c : Place) : Prop where
  hosts : e.hosts = c.hosts
  when : e.when = handedDown c.roles c.blocks

theorem Stands.inner {e : BlockExecutor} {c : Place} (stands : Stands e c) (head : BlockHead) :
    Stands (e.inner head) (c.inside head) := by
  refine ⟨?_, ?_⟩
  · simp only [BlockExecutor.inner, BlockExecutor.dealRunOnce, Place.inside, stands.hosts]
  · simp only [BlockExecutor.inner, BlockExecutor.dealWhen, Place.inside, handedDown, addConditions, blockScope,
      stands.when]

section Run
variable {σ : Type} (o : ExecOption σ)

mutual

theorem execBlocks_creates : ∀ (blocks : List Block) {e : BlockExecutor} {c : Place}, Stands e c →
    Creates o.marshal (execBlocks o e blocks) (blocksLeaves c blocks)
  | [], _, _, _ => by
    simp only [execBlocks]
    exact creates_of_unchanged (fun _ => rfl) _
  | block :: blocks, _, _, stands => by
    simp only [execBlocks, blocksLeaves]
    exact (execElement_creates block stands).andThen (execBlocks_creates blocks stands)

theorem execElement_creates : ∀ (block : Block) {e : BlockExecutor} {c : Place}, Stands e c →
    Creates o.marshal (execElement o e block) (blockLeaves c block)
  | .mk head block rescue always, e, c, stands => by
    have sub := stands.inner head
    simp only [execElement, blockLeaves]
    split
    · exact creates_of_unchanged (fun _ => rfl) _
    rw [← List.nil_append (ite _ _ _)]
    apply (creates_lift _ []).andThen
    split
    · exact creates_dealBlock (execBlocks_creates block sub) (execBlocks_creates rescue sub)
        (execBlocks_creates always sub)
    split
    · exact creates_of_unchanged (fun _ => rfl) _
    · rw [sub.hosts, sub.when]
      exact creates_dealTask o { c with hosts := (c.inside head).hosts, head := head }

end

mutual

theorem execRole_creates : ∀ (role : Role) {e : RoleExecutor} {c : Place}, e.hosts = c.hosts → c.blocks = [] →
    Creates o.marshal (execRole o e role) (roleLeaves c role)
  | .mk head roleDependency block, e, c, hosts, outside => by
    have blocks : Stands (e.blocks head) (c.role head) := ⟨hosts, by simp [Place.role, outside]; rfl⟩
    simp only [execRole, roleLeaves]
    split
    · exact creates_of_unchanged (fun _ => rfl) _
    rw [← List.nil_append (rolesLeaves _ _ ++ _)]
    apply (creates_lift _ []).andThen
    exact (execDependencies_creates roleDependency (c := c.role head) hosts outside).andThen (execBlocks_creates o block blocks)

theorem execDependencies_creates : ∀ (roles : List Role) {e : RoleExecutor} {c : Place}, e.hosts = c.hosts →
    c.blocks = [] → Creates o.marshal (execDependencies o e roles) (rolesLeaves c roles)
  | [], _, _, _, _ => by
    simp only [execDependencies]
    exact creates_of_unchanged (fun _ => rfl) _
  | dep :: deps, e, _, hosts, outside => by
    simp only [execDependencies, rolesLeaves]
    exact (execRole_creates dep (e := e.dependency dep.head) hosts outside).andThen (execDependencies_creates deps hosts outside)

end

theorem execBatch_creates (play : Play) (serials : List String) :
    Creates o.marshal (execBatch o play serials) (batchLeaves play serials) := by
  have stands : Stands (playBlocks play serials) (playPlace play serials) := ⟨rfl, rfl⟩
  have roles : ∀ rs : List Role, Creates o.marshal
      (execAll (fun role => execRole o (playRole play serials role.head) role) rs)
      (rolesLeaves (playPlace play serials) rs) := by
    intro rs
    induction rs with
    | nil => exact creates_of_unchanged (fun _ => rfl) _
    | cons role rs ih =>
      rw [rolesLeaves]
      exact (execRole_creates o role rfl rfl).andThen ih
  unfold execBatch
  split
  · exact creates_of_unchanged (fun _ => rfl) _
  rw [← List.nil_append (batchLeaves play serials)]
  apply (creates_lift _ []).andThen
  exact (execBlocks_creates o play.preTasks stands).andThen <| (roles play.roles).andThen <|
    (execBlocks_creates o play.tasks stands).andThen (execBlocks_creates o play.postTasks stands)

/-- The leaves of the hosts and batches that a play has in a state. -/
def leavesIn (play : Play) (s : σ) : List Leaf :=
  match dealHosts o play.hosts s with
  | none => []
  | some hosts => playLeaves play hosts ((dealBatches o play hosts).toOption.getD [])

theorem dealGatherFacts_creates (play : Play) (hosts : List String) :
    Creates o.marshal (dealGatherFacts o play.gatherFacts hosts)
      (if play.gatherFacts then [gatherFactsLeaf play hosts] else []) := by
  unfold dealGatherFacts
  split
  · exact creates_taskExecutorExec ⟨{ name := "setup" }, rfl⟩
  · exact creates_of_unchanged (fun _ => rfl) _

/-- A play creates tasks for some of its leaves, in their order. -/
theorem execPlay_creates (play : Play) (st : ExecState σ) :
    ∃ ran : List (Leaf × Task), (execPlay o play st).2.created = st.created ++ ran.map Prod.snd ∧
      (ran.map Prod.fst).Sublist (leavesIn o play st.state) ∧ ∀ r ∈ ran, r.1.Makes o.marshal r.2 := by
  unfold execPlay leavesIn
  split
  · exact ⟨[], by simp, by simp, by simp⟩
  cases dealHosts o play.hosts st.state with
  | none => exact ⟨[], by simp, by simp, by simp⟩
  | some hosts =>
    have batches : ∀ batchHosts, Creates o.marshal (execBatchHosts o play batchHosts)
        (batchHosts.flatMap (batchLeaves play)) := by
      intro batchHosts
      induction batchHosts with
      | nil => exact creates_of_unchanged (fun _ => rfl) _
      | cons serials rest ih =>
        rw [List.flatMap_cons]
        exact (execBatch_creates o play serials).andThen ih
    refine ((dealGatherFacts_creates o play hosts).andThen ?_) st
    cases grouped : dealBatches o play hosts with
    | error err => exact creates_of_unchanged (fun _ => rfl) _
    | ok batchHosts => exact batches batchHosts

end Run

section IgnoreErrors

/-- The `ignore_errors` of the nearest element that defines it: the task, the enclosing blocks from the inside out,
the role, the depending roles, the play. -/
def Leaf.inheritedIgnoreErrors (l : Leaf) : Option Bool :=
  (l.head.ignoreErrors :: ((l.blocks ++ l.roles).map Scope.ignoreErrors ++ [l.play])).foldr Option.or none

/-- No element around the task defines `ignore_errors`. -/
def Leaf.NoneEnclosing (l : Leaf) : Prop :=
  ∀ ie ∈ (l.blocks ++ l.roles).map Scope.ignoreErrors ++ [l.play], ie = none

theorem foldr_or_eq_none {l : List (Option Bool)} : l.foldr Option.or none = none ↔ ∀ ie ∈ l, ie = none := by
  induction l with
  | nil => simp
  | cons ie l ih => rw [List.foldr_cons, Option.or_eq_none_iff, ih, List.forall_mem_cons]

/-- A task says what it inherits exactly when it says so itself or there is nothing to inherit. -/
theorem Leaf.Makes.ignoreError_iff {marshal : Lit → Option String} {l : Leaf} {t : Task} (made : l.Makes marshal t) :
    t.ignoreError = l.inheritedIgnoreErrors ↔ l.head.ignoreErrors.isSome ∨ l.NoneEnclosing := by
  obtain ⟨module, rfl⟩ := made
  show l.head.ignoreErrors = l.inheritedIgnoreErrors ↔ _
  unfold Leaf.inheritedIgnoreErrors Leaf.NoneEnclosing
  rw [List.foldr_cons]
  cases l.head.ignoreErrors with
  | some ie => simp
  | none =>
    simp only [Option.none_or, Option.isSome_none, Bool.false_eq_true, false_or]
    rw [eq_comm, foldr_or_eq_none]

/-- Every task that a play creates stands for a leaf of the play. Its `ignore_errors` is the one of the nearest
element that defines it exactly when the task defines it itself or no element around it does. -/
theorem created_ignoreError_iff {σ : Type} (o : ExecOption σ) (play : Play) (st : ExecState σ) :
    ∃ ran : List (Leaf × Task), (execPlay o play st).2.created = st.created ++ ran.map Prod.snd ∧
      (ran.map Prod.fst).Sublist (leavesIn o play st.state) ∧
      ∀ r ∈ ran, r.1.Makes o.marshal r.2 ∧
        (r.2.ignoreError = r.1.inheritedIgnoreErrors ↔ r.1.head.ignoreErrors.isSome ∨ r.1.NoneEnclosing) := by
  obtain ⟨ran, created, sub, made⟩ := execPlay_creates o play st
  exact ⟨ran, created, sub, fun r member => ⟨made r member, (made r member).ignoreError_iff⟩⟩

/-- Modules and a store that always succeed. -/
def quietOption : ExecOption Unit where
  onlyTags := []
  skipTags := []
  mergeVars := fun _ _ s => (none, s)
  getHostnames := fun patterns _ => .ok patterns
  groupHostBySerial := fun hosts _ => .ok [hosts]
  marshal := fun _ => some ""
  findModule := fun _ => true
  setOwner := fun _ => none
  create := fun _ s => (none, s)
  runTask := fun _ s => (none, s)

/-- A task with one field that names a module. -/
def moduleTask (name : String) : BlockHead where
  name := name
  unknownField := GoMap.empty.put "command" (.scalar (.str "true"))

/-- A play that ignores errors, with one task that does not mention them. -/
def ignoringPlay : Play where
  ignoreErrors := some true
  hosts := ["node1"]
  tasks := [.mk (moduleTask "t") [] [] []]

theorem play_ignoreErrors_lost :
    (leavesIn quietOption ignoringPlay ()).map Leaf.inheritedIgnoreErrors = [some true] ∧
      (execPlay quietOption ignoringPlay ⟨(), []⟩).2.created.map Task.ignoreError = [none] := by
  decide

end IgnoreErrors

section When

theorem mem_addConditions {c : String} {w data : List String} : c ∈ addConditions w data ↔ c ∈ w ∨ c ∈ data := by
  unfold addConditions
  induction data generalizing w with
  | nil => simp
  | cons d data ih =>
    rw [List.foldl_cons, ih, List.mem_cons]
    split
    · next present =>
      constructor
      · rintro (old | new)
        · exact Or.inl old
        · exact Or.inr (Or.inr new)
      · rintro (old | rfl | new)
        · exact Or.inl old
        · exact Or.inl present
        · exact Or.inr new
    · rw [List.mem_append, List.mem_singleton, or_assoc]

theorem nodup_addConditions {w data : List String} : (addConditions w data).Nodup ↔ w.Nodup := by
  unfold addConditions
  induction data generalizing w with
  | nil => rfl
  | cons d data ih =>
    rw [List.foldl_cons, ih]
    split
    · rfl
    · next absent =>
      rw [List.nodup_append]
      constructor
      · exact fun parts => parts.1
      · intro distinct
        refine ⟨distinct, List.nodup_singleton d, ?_⟩
        intro a inside b single same
        rw [List.mem_singleton.1 single] at same
        exact absent (same ▸ inside)

/-- Every condition that applies to a leaf: its own and those of all enclosing elements. -/
def Leaf.conditions (l : Leaf) : List String := l.head.when ++ (l.blocks ++ l.roles).flatMap Scope.when

/-- The conditions of the role of a leaf. -/
def Leaf.roleWhen (l : Leaf) : List String := (l.roles.head?.map Scope.when).getD []

theorem mem_handedDown {c : String} {roles blocks : List Scope} :
    c ∈ handedDown roles blocks ↔ c ∈ (roles.head?.map Scope.when).getD [] ∨ c ∈ blocks.flatMap Scope.when := by
  induction blocks with
  | nil => simp [handedDown]
  | cons block blocks ih =>
    rw [handedDown, mem_addConditions, ih, List.flatMap_cons, List.mem_append, or_assoc,
      or_comm (a := c ∈ blocks.flatMap Scope.when)]

theorem nodup_handedDown {roles blocks : List Scope} :
    (handedDown roles blocks).Nodup ↔ ((roles.head?.map Scope.when).getD []).Nodup := by
  induction blocks with
  | nil => rfl
  | cons block blocks ih => rw [handedDown, nodup_addConditions, ih]

theorem Leaf.mem_when {l : Leaf} {c : String} :
    c ∈ l.when ↔ c ∈ l.head.when ∨ c ∈ l.blocks.flatMap Scope.when ∨ c ∈ l.roleWhen := by
  rw [Leaf.when, mem_addConditions, mem_handedDown, Leaf.roleWhen]
  tauto

/-- A false condition among those of a task keeps it from running. -/
theorem dealWhen_of_false {t : Task} {eval : String → Except ErrText Bool} {c : String} (inside : c ∈ t.when)
    (isFalse : eval c = .ok false) (out : Output) : (dealWhen t (parseBool eval t.when) out).1 = true := by
  have stops : ∀ inputs : List String, c ∈ inputs → parseBool eval inputs ≠ .ok true := by
    intro inputs
    induction inputs with
    | nil => simp
    | cons input inputs ih =>
      intro member
      rw [parseBool]
      split
      · simp
      · simp
      · next holds =>
        rcases List.mem_cons.1 member with rfl | later
        · rw [isFalse] at holds
          cases holds
        · exact ih later
  have conditional : t.when.isEmpty = false := by
    cases conditions : t.when with
    | nil => simp [conditions] at inside
    | cons _ _ => rfl
  unfold dealWhen
  rw [conditional, if_neg (by simp)]
  cases evaluated : parseBool eval t.when with
  | error e => rfl
  | ok holds =>
    cases holds with
    | false => rfl
    | true => exact absurd evaluated (stops t.when inside)

/-- A task carries every condition that applies to its leaf, once, and so never runs where one of them is false. -/
structure Guarded (l : Leaf) (t : Task) : Prop where
  all : ∀ c ∈ l.conditions, c ∈ t.when
  distinct : t.when.Nodup
  skips : ∀ eval : String → Except ErrText Bool, (∃ c ∈ l.conditions, eval c = .ok false) →
    ∀ out, (dealWhen t (parseBool eval t.when) out).1 = true

/-- The conditions of the depending roles are repeated nearer to the leaf, and the role repeats none of its own. -/
structure Repeats (l : Leaf) : Prop where
  role : l.roleWhen.Nodup
  depending : ∀ s ∈ l.roles.tail, ∀ c ∈ s.when,
    c ∈ l.head.when ∨ c ∈ l.blocks.flatMap Scope.when ∨ c ∈ l.roleWhen

theorem Leaf.mem_conditions {l : Leaf} {c : String} : c ∈ l.conditions ↔
    c ∈ l.when ∨ ∃ s ∈ l.roles.tail, c ∈ s.when := by
  rw [Leaf.mem_when, Leaf.conditions, List.flatMap_append, List.mem_append, List.mem_append, Leaf.roleWhen]
  cases l.roles with
  | nil => simp
  | cons role roles => simp [or_assoc]

theorem Leaf.Makes.guarded_iff {marshal : Lit → Option String} {l : Leaf} {t : Task} (made : l.Makes marshal t) :
    Guarded l t ↔ Repeats l := by
  obtain ⟨module, rfl⟩ := made
  constructor
  · intro guarded
    refine ⟨?_, ?_⟩
    · exact nodup_handedDown.1 (nodup_addConditions.1 guarded.distinct)
    · intro s depends c inside
      exact Leaf.mem_when.1 (guarded.all c (Leaf.mem_conditions.2 (Or.inr ⟨s, depends, inside⟩)))
  · intro repeats
    have all : ∀ c ∈ l.conditions, c ∈ l.when := by
      intro c applies
      rcases Leaf.mem_conditions.1 applies with here | ⟨s, depends, inside⟩
      · exact here
      · exact Leaf.mem_when.2 (repeats.depending s depends c inside)
    refine ⟨all, nodup_addConditions.2 (nodup_handedDown.2 repeats.role), ?_⟩
    rintro eval ⟨c, applies, isFalse⟩ out
    exact dealWhen_of_false (all c applies) isFalse out

/-- Every task that a play creates stands for a leaf of the play. It carries all conditions of the leaf exactly when
those of the depending roles are repeated by the role, a block or the task, and the role repeats none of its own. -/
theorem created_guarded_iff {σ : Type} (o : ExecOption σ) (play : Play) (st : ExecState σ) :
    ∃ ran : List (Leaf × Task), (execPlay o play st).2.created = st.created ++ ran.map Prod.snd ∧
      (ran.map Prod.fst).Sublist (leavesIn o play st.state) ∧
      ∀ r ∈ ran, r.1.Makes o.marshal r.2 ∧ (Guarded r.1 r.2 ↔ Repeats r.1) := by
  obtain ⟨ran, created, sub, made⟩ := execPlay_creates o play st
  exact ⟨ran, created, sub, fun r member => ⟨made r member, (made r member).guarded_iff⟩⟩

/-- A role with a condition depends on a role that has a task. -/
def dependingPlay : Play where
  hosts := ["node1"]
  roles := [.mk { role := "a", when := ["enabled"] } [.mk { role := "b" } [] [.mk (moduleTask "t") [] [] []]] []]

theorem depending_when_lost :
    (leavesIn quietOption dependingPlay ()).map Leaf.conditions = [["enabled"]] ∧
      (execPlay quietOption dependingPlay ⟨(), []⟩).2.created.map Task.when = [[]] := by
  decide

end When

end KubeKey.Executor
