import KubeKey.Executor.Inherit

/-!
# Tags

`Taggable` of `api/project/v1` at work. Every element on the way to a task (the play, its
roles, the blocks) is asked with the tags it has joined so far, and one that is not enabled
ends the way. A leaf is therefore selected when all the levels above it are, and not by its
own joined tags alone.

A run creates tasks for selected leaves only. One that ends without an error has created a
task for each of them, in document order, outside of the blocks that can be rescued.
-/

namespace KubeKey.Executor

open KubeKey.Go KubeKey.Project

/-! ## The levels of a leaf -/

/-- A leaf with its joined tags and those of what encloses it, from the inside out. -/
structure TaggedLeaf extends Leaf where
  tags : List String
  above : List (List String)
  /-- No enclosing block can be rescued instead of running the leaf. -/
  sure : Bool

namespace TaggedLeaf

def levels (l : TaggedLeaf) : List (List String) := l.tags :: l.above

/-- All levels are enabled. -/
def selected (onlyTags skipTags : List String) (l : TaggedLeaf) : Bool :=
  l.levels.all fun tags => isEnabled tags onlyTags skipTags

end TaggedLeaf

/-- A place with the joined tags of what encloses it, from the inside out. -/
structure TaggedPlace extends Place where
  tags : List String
  above : List (List String)
  sure : Bool

namespace TaggedPlace

variable (c : TaggedPlace)

def levels : List (List String) := c.tags :: c.above

/-- The place of a section of a block. -/
def inside (head : BlockHead) (sure : Bool) : TaggedPlace where
  toPlace := c.toPlace.inside head
  tags := joinTag head.tags c.tags
  above := c.levels
  sure := c.sure && sure

/-- The place of a role that the roles of `c` depend on. -/
def role (head : RoleHead) : TaggedPlace where
  toPlace := c.toPlace.role head
  tags := joinTag head.tags c.tags
  above := c.levels
  sure := c.sure

/-- The task of an element at this place. -/
def leaf (head : BlockHead) : TaggedLeaf where
  toPlace := { c.toPlace with hosts := (c.toPlace.inside head).hosts }
  head := head
  tags := joinTag head.tags c.tags
  above := c.levels
  sure := c.sure

end TaggedPlace

mutual

/-- The leaves of a list of blocks with their levels. -/
def blocksTagged (c : TaggedPlace) : List Block → List TaggedLeaf
  | [] => []
  | block :: blocks => blockTagged c block ++ blocksTagged c blocks

def blockTagged (c : TaggedPlace) : Block → List TaggedLeaf
  | .mk head block rescue always =>
    if !block.isEmpty then
      blocksTagged (c.inside head rescue.isEmpty) block ++
        (blocksTagged (c.inside head false) rescue ++ blocksTagged (c.inside head true) always)
    else if head.includeTasks ≠ "" then []
    else [c.leaf head]

end

mutual

/-- The leaves of a role with their levels. -/
def roleTagged (c : TaggedPlace) : Role → List TaggedLeaf
  | .mk head roleDependency block =>
    rolesTagged (c.role head) roleDependency ++ blocksTagged (c.role head) block

def rolesTagged (c : TaggedPlace) : List Role → List TaggedLeaf
  | [] => []
  | role :: roles => roleTagged c role ++ rolesTagged c roles

end

/-- The place of the task lists of a play. -/
def playTaggedPlace (play : Play) (hosts : List String) : TaggedPlace where
  toPlace := playPlace play hosts
  tags := play.tags
  above := []
  sure := true

/-- The leaves of a play for one batch of hosts. -/
def batchTagged (play : Play) (hosts : List String) : List TaggedLeaf :=
  let c := playTaggedPlace play hosts
  blocksTagged c play.preTasks ++
    (rolesTagged c play.roles ++ (blocksTagged c play.tasks ++ blocksTagged c play.postTasks))

/-- The setup task of a play. -/
def gatherFactsTagged (play : Play) (hosts : List String) : TaggedLeaf where
  toLeaf := gatherFactsLeaf play hosts
  tags := play.tags
  above := []
  sure := true

def playTagged (play : Play) (hosts : List String) (batchHosts : List (List String)) : List TaggedLeaf :=
  (if play.gatherFacts then [gatherFactsTagged play hosts] else []) ++ batchHosts.flatMap (batchTagged play)

mutual

theorem blocksTagged_leaves : ∀ (blocks : List Block) (c : TaggedPlace),
    (blocksTagged c blocks).map TaggedLeaf.toLeaf = blocksLeaves c.toPlace blocks
  | [], _ => rfl
  | block :: blocks, c => by
    rw [blocksTagged, blocksLeaves, List.map_append, blockTagged_leaves block c, blocksTagged_leaves blocks c]

theorem blockTagged_leaves : ∀ (block : Block) (c : TaggedPlace),
    (blockTagged c block).map TaggedLeaf.toLeaf = blockLeaves c.toPlace block
  | .mk head block rescue always, c => by
    rw [blockTagged, blockLeaves]
    split
    · simp only [List.map_append, blocksTagged_leaves block, blocksTagged_leaves rescue, blocksTagged_leaves always]
      rfl
    · split <;> rfl

end

mutual

theorem roleTagged_leaves : ∀ (role : Role) (c : TaggedPlace),
    (roleTagged c role).map TaggedLeaf.toLeaf = roleLeaves c.toPlace role
  | .mk head roleDependency block, c => by
    rw [roleTagged, roleLeaves, List.map_append, rolesTagged_leaves roleDependency, blocksTagged_leaves]
    rfl

theorem rolesTagged_leaves : ∀ (roles : List Role) (c : TaggedPlace),
    (rolesTagged c roles).map TaggedLeaf.toLeaf = rolesLeaves c.toPlace roles
  | [], _ => rfl
  | role :: roles, c => by
    rw [rolesTagged, rolesLeaves, List.map_append, roleTagged_leaves role c, rolesTagged_leaves roles c]

end

/-- The levels are added to the leaves of a play, and nothing else. -/
theorem batchTagged_leaves (play : Play) (hosts : List String) :
    (batchTagged play hosts).map TaggedLeaf.toLeaf = batchLeaves play hosts := by
  simp only [batchTagged, batchLeaves, List.map_append, blocksTagged_leaves, rolesTagged_leaves]
  rfl

/-! ## What the levels have in common -/

theorem mem_joinTag {tag : String} {child parent : List String} :
    tag ∈ joinTag child parent ↔ tag ∈ child ∨ tag ∈ parent ∧ tag ≠ alwaysTag := by
  unfold joinTag
  induction parent generalizing child with
  | nil => simp
  | cons first rest ih =>
    rw [List.foldl_cons, ih]
    split
    · next skipped =>
      rcases skipped with rfl | inside
      · constructor
        · rintro (own | ⟨later, other⟩)
          · exact .inl own
          · exact .inr ⟨List.mem_cons_of_mem _ later, other⟩
        · rintro (own | ⟨member, other⟩)
          · exact .inl own
          · exact .inr ⟨(List.mem_cons.1 member).resolve_left other, other⟩
      · constructor
        · rintro (own | ⟨later, other⟩)
          · exact .inl own
          · exact .inr ⟨List.mem_cons_of_mem _ later, other⟩
        · rintro (own | ⟨member, other⟩)
          · exact .inl own
          · rcases List.mem_cons.1 member with rfl | later
            · exact .inl inside
            · exact .inr ⟨later, other⟩
    · next fresh =>
      rw [not_or] at fresh
      rw [List.mem_append, List.mem_singleton, List.mem_cons]
      constructor
      · rintro ((own | rfl) | ⟨later, other⟩)
        · exact .inl own
        · exact .inr ⟨.inl rfl, fresh.1⟩
        · exact .inr ⟨.inr later, other⟩
      · rintro (own | ⟨rfl | later, other⟩)
        · exact .inl (.inl own)
        · exact .inl (.inr rfl)
        · exact .inr ⟨later, other⟩

/-- The tags `tags` have what the tags `above` have, but for `always`. -/
def Inherits (tags : List String) (above : List (List String)) : Prop :=
  ∀ level ∈ above, ∀ tag ∈ level, tag = alwaysTag ∨ tag ∈ tags

theorem Inherits.join {tags : List String} {above : List (List String)} (inherits : Inherits tags above)
    (own : List String) : Inherits (joinTag own tags) (tags :: above) := by
  intro level member tag inside
  by_cases always : tag = alwaysTag
  · exact .inl always
  · refine .inr (mem_joinTag.2 (.inr ⟨?_, always⟩))
    rcases List.mem_cons.1 member with rfl | outer
    · exact inside
    · exact (inherits level outer tag inside).resolve_left always

/-- The leaf `l` is below the place `c`. -/
structure TaggedLeaf.Below (l : TaggedLeaf) (c : TaggedPlace) : Prop where
  levels : ∀ level ∈ c.levels, level ∈ l.above
  sure : l.sure = true → c.sure = true
  inherits : Inherits c.tags c.above → Inherits l.tags l.above

section Below
variable {l : TaggedLeaf} {c : TaggedPlace}

theorem TaggedLeaf.Below.of_inside {head : BlockHead} {sure : Bool} (below : l.Below (c.inside head sure)) :
    l.Below c where
  levels := fun level member => below.levels level (List.mem_cons_of_mem _ member)
  sure := fun kept => by
    have both := below.sure kept
    simp only [TaggedPlace.inside, Bool.and_eq_true] at both
    exact both.1
  inherits := fun joined => below.inherits (joined.join head.tags)

theorem TaggedLeaf.Below.of_role {head : RoleHead} (below : l.Below (c.role head)) : l.Below c where
  levels := fun level member => below.levels level (List.mem_cons_of_mem _ member)
  sure := below.sure
  inherits := fun joined => below.inherits (joined.join head.tags)

theorem TaggedPlace.leaf_below (c : TaggedPlace) (head : BlockHead) : (c.leaf head).Below c where
  levels := fun _ member => member
  sure := id
  inherits := fun joined => joined.join head.tags

end Below

mutual

theorem blocksTagged_below : ∀ {blocks : List Block} {c : TaggedPlace} {l : TaggedLeaf}, l ∈ blocksTagged c blocks →
    l.Below c
  | [], _, _, member => by cases member
  | block :: blocks, c, l, member => by
    rw [blocksTagged, List.mem_append] at member
    rcases member with here | there
    · exact (blockTagged_below here).1
    · exact blocksTagged_below there

/-- A leaf of an element is below its place, and the joined tags of the element are one of its levels. -/
theorem blockTagged_below : ∀ {block : Block} {c : TaggedPlace} {l : TaggedLeaf}, l ∈ blockTagged c block →
    l.Below c ∧ ∀ head b rescue always, block = .mk head b rescue always → joinTag head.tags c.tags ∈ l.levels
  | .mk head block rescue always, c, l, member => by
    have section_ : ∀ sure, l.Below (c.inside head sure) → l.Below c ∧ ∀ head' b r a,
        Block.mk head block rescue always = .mk head' b r a → joinTag head'.tags c.tags ∈ l.levels := by
      intro sure below
      refine ⟨below.of_inside, fun head' b r a same => ?_⟩
      cases same
      exact List.mem_cons_of_mem _ (below.levels _ List.mem_cons_self)
    rw [blockTagged] at member
    split at member
    · rw [List.mem_append, List.mem_append] at member
      rcases member with here | here | here
      · exact section_ _ (blocksTagged_below here)
      · exact section_ _ (blocksTagged_below here)
      · exact section_ _ (blocksTagged_below here)
    · split at member
      · cases member
      · cases List.mem_singleton.1 member
        refine ⟨c.leaf_below head, fun head' b r a same => ?_⟩
        cases same
        exact List.mem_cons_self

end

mutual

theorem roleTagged_below : ∀ {role : Role} {c : TaggedPlace} {l : TaggedLeaf}, l ∈ roleTagged c role →
    l.Below (c.role role.head)
  | .mk head roleDependency block, c, l, member => by
    rw [roleTagged, List.mem_append] at member
    rcases member with here | there
    · exact rolesTagged_below here
    · exact blocksTagged_below there

theorem rolesTagged_below : ∀ {roles : List Role} {c : TaggedPlace} {l : TaggedLeaf}, l ∈ rolesTagged c roles →
    l.Below c
  | [], _, _, member => by cases member
  | role :: roles, c, l, member => by
    rw [rolesTagged, List.mem_append] at member
    rcases member with here | there
    · exact (roleTagged_below here).of_role
    · exact rolesTagged_below there

end

theorem batchTagged_below {play : Play} {hosts : List String} {l : TaggedLeaf} (member : l ∈ batchTagged play hosts) :
    l.Below (playTaggedPlace play hosts) := by
  simp only [batchTagged, List.mem_append] at member
  rcases member with here | here | here | here
  · exact blocksTagged_below here
  · exact rolesTagged_below here
  · exact blocksTagged_below here
  · exact blocksTagged_below here

/-- Whatever a level of a leaf is tagged with, but for `always`, the leaf is tagged with. -/
theorem batchTagged_inherits {play : Play} {hosts : List String} {l : TaggedLeaf} (member : l ∈ batchTagged play hosts) :
    Inherits l.tags l.above :=
  (batchTagged_below member).inherits fun level absent => by cases absent

/-! ## Runs -/

section Runs
variable {σ : Type} {marshal : Lit → Option String}

/-- A run of `x` creates tasks for some of the leaves `upper`, in their order, and if it succeeds for all of `lower`. -/
def CreatesBetween (marshal : Lit → Option String) (x : Exec σ) (lower upper : List TaggedLeaf) : Prop :=
  ∀ st, ∃ ran : List (TaggedLeaf × Task), (x st).2.created = st.created ++ ran.map Prod.snd ∧
    (ran.map Prod.fst).Sublist upper ∧ ((x st).1 = none → lower.Sublist (ran.map Prod.fst)) ∧
    ∀ r ∈ ran, r.1.Makes marshal r.2

theorem createsBetween_nil {x : Exec σ} (same : ∀ st, (x st).2.created = st.created) (upper : List TaggedLeaf) :
    CreatesBetween marshal x [] upper :=
  fun st => ⟨[], by simp [same st], by simp, fun _ => List.nil_sublist _, by simp⟩

theorem createsBetween_lift (f : σ → Option ExecErr × σ) : CreatesBetween marshal (Exec.lift f) [] [] :=
  createsBetween_nil (fun _ => rfl) _

/-- Two parts in a row. The second is possibly not run, and the failure of a part counts only where it has to create
something. -/
theorem CreatesBetween.chain {x y z : Exec σ} {a a' b b' : List TaggedLeaf} (first : CreatesBetween marshal x a a')
    (second : CreatesBetween marshal y b b')
    (split : ∀ st, ((z st).2.created = (x st).2.created ∧ ((z st).1 = none → (a = [] ∨ (x st).1 = none) ∧ b = [])) ∨
      ∃ st₁, st₁.created = (x st).2.created ∧ (z st).2.created = (y st₁).2.created ∧
        ((z st).1 = none → (a = [] ∨ (x st).1 = none) ∧ (b = [] ∨ (y st₁).1 = none))) :
    CreatesBetween marshal z (a ++ b) (a' ++ b') := by
  intro st
  obtain ⟨ran, created, sub, all, made⟩ := first st
  have lowerA : a = [] ∨ (x st).1 = none → a.Sublist (ran.map Prod.fst) := by
    rintro (rfl | passed)
    · exact List.nil_sublist _
    · exact all passed
  rcases split st with ⟨stopped, succeeds⟩ | ⟨st₁, start, went, succeeds⟩
  · refine ⟨ran, by rw [stopped, created], sub.trans (List.sublist_append_left a' b'), ?_, made⟩
    intro success
    obtain ⟨passed, rfl⟩ := succeeds success
    rw [List.append_nil]
    exact lowerA passed
  · obtain ⟨ran₁, created₁, sub₁, all₁, made₁⟩ := second st₁
    refine ⟨ran ++ ran₁, ?_, ?_, ?_, ?_⟩
    · rw [went, created₁, start, created, List.map_append, List.append_assoc]
    · rw [List.map_append]
      exact sub.append sub₁
    · intro success
      obtain ⟨passed, passed₁⟩ := succeeds success
      rw [List.map_append]
      refine (lowerA passed).append ?_
      rcases passed₁ with rfl | passed₁
      · exact List.nil_sublist _
      · exact all₁ passed₁
    · intro r member
      rcases List.mem_append.1 member with here | there
      · exact made r here
      · exact made₁ r there

theorem CreatesBetween.andThen {x y : Exec σ} {a a' b b' : List TaggedLeaf} (first : CreatesBetween marshal x a a')
    (second : CreatesBetween marshal y b b') : CreatesBetween marshal (x.andThen y) (a ++ b) (a' ++ b') := by
  apply first.chain second
  intro st
  unfold Exec.andThen
  split
  · next err st₁ run => exact .inl ⟨by rw [run], fun success => by cases success⟩
  · next st₁ run => exact .inr ⟨st₁, by rw [run], rfl, fun success => ⟨.inr (by rw [run]), .inr success⟩⟩

/-- The sections of a block: with a rescue section, only the always section has to create its tasks. -/
theorem createsBetween_dealBlock {block rescue always : Exec σ} {noRescue noAlways : Bool}
    {a a' b' c c' : List TaggedLeaf} (blockCreates : CreatesBetween marshal block a a')
    (rescueCreates : CreatesBetween marshal rescue [] b') (alwaysCreates : CreatesBetween marshal always c c')
    (rescued : noRescue = false → a = []) (none_ : noAlways = true → c = []) :
    CreatesBetween marshal (dealBlock block (if noRescue then none else some rescue)
      (if noAlways then none else some always)) (a ++ c) (a' ++ (b' ++ c')) := by
  -- the block with its rescue section is one part, the always section the next
  let head : Exec σ := dealBlock block (if noRescue then none else some rescue) none
  have headCreates : CreatesBetween marshal head a (a' ++ b') := by
    rw [← List.append_nil a]
    apply blockCreates.chain rescueCreates
    intro st
    simp only [head, dealBlock]
    split
    · next run => exact .inl ⟨by rw [run], fun _ => ⟨.inr (by rw [run]), trivial⟩⟩
    · next err st₁ run =>
      cases noRescue with
      | true => exact .inl ⟨by simp [run], fun success => by cases success⟩
      | false =>
        refine .inr ⟨st₁, by rw [run], ?_⟩
        simp only [Bool.false_eq_true, if_false]
        split
        · next failed => exact ⟨by rw [failed], fun success => by cases success⟩
        · next passed => exact ⟨by rw [passed], fun _ => ⟨.inl (rescued rfl), .inl trivial⟩⟩
  rw [← List.append_assoc]
  apply headCreates.chain alwaysCreates
  intro st
  cases noAlways with
  | true =>
    have empty := none_ rfl
    refine .inl ⟨by simp [head], fun success => ⟨.inr ?_, empty⟩⟩
    simpa [head] using success
  | false =>
    refine .inr ⟨(head st).2, rfl, ?_⟩
    simp only [dealBlock, Bool.false_eq_true, if_false, head]
    split
    · next failed => exact ⟨by rw [failed], fun success => by cases success⟩
    · next passed => exact ⟨by rw [passed], fun success => ⟨.inr success, .inr (by rw [passed])⟩⟩

theorem createsBetween_taskExecutorExec {o : ExecOption σ} {l : TaggedLeaf} {t : Task} (made : l.Makes marshal t) :
    CreatesBetween marshal (taskExecutorExec o t) [l] [l] := by
  intro st
  unfold taskExecutorExec
  split
  · exact ⟨[], by simp, by simp, fun success => (by cases success), by simp⟩
  · exact ⟨[(l, t)], by simp [Exec.lift], by simp, by simp, by simpa using made⟩

theorem createsBetween_dealTask (o : ExecOption σ) (l : TaggedLeaf) :
    CreatesBetween o.marshal (dealTask o l.hosts l.when l.head) [l] [l] := by
  intro st
  unfold dealTask
  split
  · exact ⟨[], by simp, by simp, fun success => (by cases success), by simp⟩
  · next module _ =>
    split
    · exact ⟨[], by simp, by simp, fun success => (by cases success), by simp⟩
    dsimp only
    split
    · exact ⟨[], by simp, by simp, fun success => (by cases success), by simp⟩
    · exact createsBetween_taskExecutorExec ⟨module, rfl⟩ st

end Runs

/-! ## Selected leaves -/

section Selected
variable (onlyTags skipTags : List String)

/-- The leaves that the tags select. -/
def selectedLeaves (leaves : List TaggedLeaf) : List TaggedLeaf := leaves.filter (·.selected onlyTags skipTags)

/-- Those of them that no rescue section stands for. -/
def sureLeaves (leaves : List TaggedLeaf) : List TaggedLeaf :=
  leaves.filter fun l => l.selected onlyTags skipTags && l.sure

variable {onlyTags skipTags}

theorem selected_iff {l : TaggedLeaf} :
    l.selected onlyTags skipTags = true ↔ ∀ tags ∈ l.levels, isEnabled tags onlyTags skipTags = true := by
  simp only [TaggedLeaf.selected, List.all_eq_true]

/-- All levels of the place are enabled. -/
def TaggedPlace.Open (onlyTags skipTags : List String) (c : TaggedPlace) : Prop :=
  ∀ tags ∈ c.levels, isEnabled tags onlyTags skipTags = true

/-- Below a level that is not enabled nothing is selected. -/
theorem selectedLeaves_eq_nil {leaves : List TaggedLeaf} {tags : List String}
    (disabled : isEnabled tags onlyTags skipTags ≠ true) (level : ∀ l ∈ leaves, tags ∈ l.levels) :
    selectedLeaves onlyTags skipTags leaves = [] ∧ sureLeaves onlyTags skipTags leaves = [] := by
  have none_ : ∀ l ∈ leaves, ¬ l.selected onlyTags skipTags = true := fun l member all =>
    disabled (selected_iff.1 all tags (level l member))
  refine ⟨List.filter_eq_nil_iff.2 none_, List.filter_eq_nil_iff.2 fun l member both => ?_⟩
  rw [Bool.and_eq_true] at both
  exact none_ l member both.1

theorem sureLeaves_eq_nil {leaves : List TaggedLeaf} (unsure : ∀ l ∈ leaves, l.sure = false) :
    sureLeaves onlyTags skipTags leaves = [] := by
  refine List.filter_eq_nil_iff.2 fun l member => ?_
  rw [unsure l member, Bool.and_false]
  exact Bool.false_ne_true

end Selected

/-- The executor `e` stands at the place `c`, which the tags have let it reach. -/
structure StandsOpen (onlyTags skipTags : List String) (e : BlockExecutor) (c : TaggedPlace) : Prop where
  stands : Stands e c.toPlace
  tags : e.tags = c.tags
  opened : c.Open onlyTags skipTags

section Run
variable {σ : Type} (o : ExecOption σ)

/-- A run creates tasks for selected leaves only, and a successful one for all that are sure. -/
def Selects (x : Exec σ) (leaves : List TaggedLeaf) : Prop :=
  CreatesBetween o.marshal x (sureLeaves o.onlyTags o.skipTags leaves) (selectedLeaves o.onlyTags o.skipTags leaves)

variable {o}

theorem selects_nil {x : Exec σ} (same : ∀ st, (x st).2.created = st.created) : Selects o x [] :=
  createsBetween_nil same []

theorem Selects.andThen {x y : Exec σ} {a b : List TaggedLeaf} (first : Selects o x a) (second : Selects o y b) :
    Selects o (x.andThen y) (a ++ b) := by
  unfold Selects sureLeaves selectedLeaves
  rw [List.filter_append, List.filter_append]
  exact CreatesBetween.andThen first second

/-- What is done on the way to the leaves creates nothing. -/
theorem Selects.after {f : σ → Option ExecErr × σ} {x : Exec σ} {leaves : List TaggedLeaf} (selects : Selects o x leaves) :
    Selects o ((Exec.lift f).andThen x) leaves :=
  Selects.andThen (a := []) (createsBetween_lift f) selects

/-- An element that is not enabled is skipped with all its leaves. -/
theorem selects_skipped {leaves : List TaggedLeaf} {tags : List String}
    (disabled : isEnabled tags o.onlyTags o.skipTags ≠ true) (level : ∀ l ∈ leaves, tags ∈ l.levels) :
    Selects o (fun st => (none, st)) leaves := by
  obtain ⟨upper, lower⟩ := selectedLeaves_eq_nil disabled level
  unfold Selects
  rw [upper, lower]
  exact createsBetween_nil (fun _ => rfl) []

theorem StandsOpen.inner {e : BlockExecutor} {c : TaggedPlace} (stands : StandsOpen o.onlyTags o.skipTags e c)
    {head : BlockHead} (enabled : isEnabled (e.inner head).tags o.onlyTags o.skipTags = true) (sure : Bool) :
    StandsOpen o.onlyTags o.skipTags (e.inner head) (c.inside head sure) where
  stands := stands.stands.inner head
  tags := by
    show joinTag head.tags e.tags = joinTag head.tags c.tags
    rw [stands.tags]
  opened := by
    intro tags member
    rcases List.mem_cons.1 member with rfl | outer
    · show isEnabled (joinTag head.tags c.tags) _ _ = true
      rw [← stands.tags]
      exact enabled
    · exact stands.opened tags outer

variable (o)

mutual

theorem execBlocks_selects : ∀ (blocks : List Block) {e : BlockExecutor} {c : TaggedPlace},
    StandsOpen o.onlyTags o.skipTags e c → Selects o (execBlocks o e blocks) (blocksTagged c blocks)
  | [], _, _, _ => by
    simp only [execBlocks, blocksTagged]
    exact selects_nil fun _ => rfl
  | block :: blocks, _, _, stands => by
    simp only [execBlocks, blocksTagged]
    exact (execElement_selects block stands).andThen (execBlocks_selects blocks stands)

theorem execElement_selects : ∀ (block : Block) {e : BlockExecutor} {c : TaggedPlace},
    StandsOpen o.onlyTags o.skipTags e c → Selects o (execElement o e block) (blockTagged c block)
  | .mk head block rescue always, e, c, stands => by
    have joined : (e.inner head).tags = joinTag head.tags c.tags := by
      show joinTag head.tags e.tags = _
      rw [stands.tags]
    by_cases enabled : isEnabled (e.inner head).tags o.onlyTags o.skipTags = true
    · simp only [execElement, enabled, Bool.not_true, Bool.false_eq_true, if_false]
      apply Selects.after
      rw [blockTagged]
      split
      · have unsure : ∀ l, l ∈ blocksTagged (c.inside head false) rescue → l.sure = false := by
          intro l member
          cases sure : l.sure with
          | false => rfl
          | true => simpa [TaggedPlace.inside] using (blocksTagged_below member).sure sure
        have rescueRuns := execBlocks_selects rescue (stands.inner enabled false)
        unfold Selects at rescueRuns
        rw [sureLeaves_eq_nil unsure] at rescueRuns
        unfold Selects sureLeaves selectedLeaves
        rw [List.filter_append, List.filter_append, List.filter_append, List.filter_append]
        have nothing : sureLeaves o.onlyTags o.skipTags (blocksTagged (c.inside head false) rescue) = [] :=
          sureLeaves_eq_nil unsure
        unfold sureLeaves at nothing
        rw [nothing, List.nil_append]
        refine createsBetween_dealBlock (execBlocks_selects block (stands.inner enabled rescue.isEmpty)) rescueRuns
          (execBlocks_selects always (stands.inner enabled true)) ?_ ?_
        · intro rescued
          refine sureLeaves_eq_nil fun l member => ?_
          cases sure : l.sure with
          | false => rfl
          | true => simpa [TaggedPlace.inside, rescued] using (blocksTagged_below member).sure sure
        · intro empty
          rw [List.isEmpty_iff.1 empty]
          rfl
      · split
        · exact selects_nil fun _ => rfl
        · have one : CreatesBetween o.marshal (dealTask o (e.inner head).hosts (e.inner head).when head)
              [c.leaf head] [c.leaf head] := by
            rw [(stands.stands.inner head).hosts, (stands.stands.inner head).when]
            exact createsBetween_dealTask o (c.leaf head)
          have all : (c.leaf head).selected o.onlyTags o.skipTags = true := by
            refine selected_iff.2 fun tags member => ?_
            rcases List.mem_cons.1 member with rfl | outer
            · show isEnabled (joinTag head.tags c.tags) _ _ = true
              rw [← joined]
              exact enabled
            · exact stands.opened tags outer
          intro st
          obtain ⟨ran, created, sub, lower, made⟩ := one st
          refine ⟨ran, created, ?_, fun success => ?_, made⟩
          · rw [selectedLeaves, List.filter_cons_of_pos all]
            exact sub
          · exact List.filter_sublist.trans (lower success)
    · have disabled : (!isEnabled (e.inner head).tags o.onlyTags o.skipTags) = true := by simpa using enabled
      simp only [execElement, disabled, if_true]
      refine selects_skipped enabled fun l member => ?_
      rw [joined]
      exact (blockTagged_below member).2 _ _ _ _ rfl

end

/-- The executor `e` of a role stands at the place `c` of the role, if the tags let it run. -/
structure RoleStands (e : RoleExecutor) (c : TaggedPlace) (head : RoleHead) : Prop where
  hosts : e.hosts = c.hosts
  outside : c.blocks = []
  tags : e.tags = joinTag head.tags c.tags
  opened : c.Open o.onlyTags o.skipTags

mutual

theorem execRole_selects : ∀ (role : Role) {e : RoleExecutor} {c : TaggedPlace}, RoleStands o e c role.head →
    Selects o (execRole o e role) (roleTagged c role)
  | .mk head roleDependency block, e, c, stands => by
    by_cases enabled : isEnabled e.tags o.onlyTags o.skipTags = true
    · have opened : (c.role head).Open o.onlyTags o.skipTags := by
        intro tags member
        rcases List.mem_cons.1 member with rfl | outer
        · show isEnabled (joinTag head.tags c.tags) _ _ = true
          have same : e.tags = joinTag head.tags c.tags := stands.tags
          rw [← same]
          exact enabled
        · exact stands.opened tags outer
      have within : Stands (e.blocks head) (c.role head).toPlace :=
        ⟨stands.hosts, by simp [TaggedPlace.role, Place.role, stands.outside]; rfl⟩
      have blocks : StandsOpen o.onlyTags o.skipTags (e.blocks head) (c.role head) := ⟨within, stands.tags, opened⟩
      simp only [execRole, enabled, Bool.not_true, Bool.false_eq_true, if_false, roleTagged]
      apply Selects.after
      have dependencies := execDependencies_selects roleDependency (c := c.role head) stands.hosts stands.outside
        stands.tags opened
      exact dependencies.andThen (execBlocks_selects o block blocks)
    · have disabled : (!isEnabled e.tags o.onlyTags o.skipTags) = true := by simpa using enabled
      simp only [execRole, disabled, if_true]
      refine selects_skipped enabled fun l member => ?_
      rw [stands.tags]
      exact List.mem_cons_of_mem _ ((roleTagged_below member).levels _ List.mem_cons_self)

theorem execDependencies_selects : ∀ (roles : List Role) {e : RoleExecutor} {c : TaggedPlace}, e.hosts = c.hosts →
    c.blocks = [] → e.tags = c.tags → c.Open o.onlyTags o.skipTags →
      Selects o (execDependencies o e roles) (rolesTagged c roles)
  | [], _, _, _, _, _, _ => by
    simp only [execDependencies, rolesTagged]
    exact selects_nil fun _ => rfl
  | dep :: deps, e, c, hosts, outside, tags, opened => by
    have stands : RoleStands o (e.dependency dep.head) c dep.head := ⟨hosts, outside, by
      show joinTag dep.head.tags e.tags = _
      rw [tags], opened⟩
    simp only [execDependencies, rolesTagged]
    exact (execRole_selects dep stands).andThen (execDependencies_selects deps hosts outside tags opened)

end

theorem playTaggedPlace_open {play : Play} {hosts : List String}
    (enabled : isEnabled play.tags o.onlyTags o.skipTags = true) :
    (playTaggedPlace play hosts).Open o.onlyTags o.skipTags := by
  intro tags member
  cases List.mem_singleton.1 member
  exact enabled

theorem execBatch_selects {play : Play} (enabled : isEnabled play.tags o.onlyTags o.skipTags = true)
    (serials : List String) : CreatesBetween o.marshal (execBatch o play serials)
      (sureLeaves o.onlyTags o.skipTags (batchTagged play serials))
      (selectedLeaves o.onlyTags o.skipTags (batchTagged play serials)) := by
  have opened : (playTaggedPlace play serials).Open o.onlyTags o.skipTags := playTaggedPlace_open o enabled
  have stands : StandsOpen o.onlyTags o.skipTags (playBlocks play serials) (playTaggedPlace play serials) :=
    ⟨⟨rfl, rfl⟩, rfl, opened⟩
  have roles : ∀ rs : List Role, Selects o (execAll (fun role => execRole o (playRole play serials role.head) role) rs)
      (rolesTagged (playTaggedPlace play serials) rs) := by
    intro rs
    induction rs with
    | nil =>
      rw [rolesTagged]
      exact selects_nil fun _ => rfl
    | cons role rs ih =>
      rw [rolesTagged]
      exact (execRole_selects o role ⟨rfl, rfl, rfl, opened⟩).andThen ih
  unfold execBatch
  split
  · intro st
    exact ⟨[], by simp, by simp, fun success => (by cases success), by simp⟩
  · apply Selects.after
    exact (execBlocks_selects o play.preTasks stands).andThen <| (roles play.roles).andThen <|
      (execBlocks_selects o play.tasks stands).andThen (execBlocks_selects o play.postTasks stands)

/-- The leaves of the hosts and batches that a play has in a state. -/
def taggedIn (play : Play) (s : σ) : List TaggedLeaf :=
  match dealHosts o play.hosts s with
  | none => []
  | some hosts => playTagged play hosts ((dealBatches o play hosts).toOption.getD [])

theorem dealGatherFacts_selects {play : Play} (enabled : isEnabled play.tags o.onlyTags o.skipTags = true)
    (hosts : List String) : Selects o (dealGatherFacts o play.gatherFacts hosts)
      (if play.gatherFacts then [gatherFactsTagged play hosts] else []) := by
  unfold dealGatherFacts
  split
  · have all : (gatherFactsTagged play hosts).selected o.onlyTags o.skipTags = true := by
      refine selected_iff.2 fun tags member => ?_
      cases List.mem_singleton.1 member
      exact enabled
    have one : CreatesBetween o.marshal (taskExecutorExec o (gatherFactsTask hosts)) [gatherFactsTagged play hosts]
        [gatherFactsTagged play hosts] := createsBetween_taskExecutorExec ⟨{ name := "setup" }, rfl⟩
    unfold Selects sureLeaves selectedLeaves
    rw [List.filter_cons_of_pos all, List.filter_cons_of_pos (by rw [all]; rfl)]
    exact one
  · exact selects_nil fun _ => rfl

/-- A play creates tasks for leaves that the tags select, in their order, and when it succeeds for all of those that no
rescue section stands for. -/
theorem execPlay_selects (play : Play) (st : ExecState σ) :
    ∃ ran : List (TaggedLeaf × Task), (execPlay o play st).2.created = st.created ++ ran.map Prod.snd ∧
      (ran.map Prod.fst).Sublist (selectedLeaves o.onlyTags o.skipTags (taggedIn o play st.state)) ∧
      ((execPlay o play st).1 = none →
        (sureLeaves o.onlyTags o.skipTags (taggedIn o play st.state)).Sublist (ran.map Prod.fst)) ∧
      ∀ r ∈ ran, r.1.Makes o.marshal r.2 := by
  unfold execPlay taggedIn
  by_cases enabled : isEnabled play.tags o.onlyTags o.skipTags = true
  · rw [if_neg (by simp [enabled])]
    cases dealHosts o play.hosts st.state with
    | none => exact ⟨[], by simp, by simp, fun _ => List.nil_sublist _, by simp⟩
    | some hosts =>
      have batches : ∀ batchHosts, Selects o (execBatchHosts o play batchHosts)
          (batchHosts.flatMap (batchTagged play)) := by
        intro batchHosts
        induction batchHosts with
        | nil => exact selects_nil fun _ => rfl
        | cons serials rest ih =>
          rw [List.flatMap_cons]
          exact Selects.andThen (execBatch_selects o enabled serials) ih
      refine Selects.andThen (dealGatherFacts_selects o enabled hosts) ?_ st
      cases grouped : dealBatches o play hosts with
      | error err =>
        intro st
        exact ⟨[], by simp, by simp, fun success => (by cases success), by simp⟩
      | ok batchHosts => exact batches batchHosts
  · rw [if_pos (by simpa using enabled)]
    refine selects_skipped (o := o) enabled (fun l member => ?_) st
    revert member
    cases dealHosts o play.hosts st.state with
    | none => simp
    | some hosts =>
      simp only [playTagged, List.mem_append, List.mem_flatMap]
      rintro (facts | ⟨serials, -, member⟩)
      · split at facts
        · cases List.mem_singleton.1 facts
          exact List.mem_cons_self
        · cases facts
      · exact List.mem_cons_of_mem _ ((batchTagged_below member).levels _ List.mem_cons_self)

end Run

/-! ## What the tags promise -/

section Laws
variable (onlyTags skipTags : List String)

/-- What is said about `--tags` and `--skip-tags`, of one leaf. -/
structure TagLaws (l : TaggedLeaf) : Prop where
  never : neverTag ∈ l.tags → alwaysTag ∉ l.tags → (∀ tag ∈ onlyTags, tag ∉ l.tags) →
    l.selected onlyTags skipTags = false
  tagged : onlyTags = [taggedTag] → l.selected onlyTags skipTags = true → l.tags ≠ []
  skipTagged : skipTags = [taggedTag] →
    (l.selected onlyTags skipTags = true ↔ l.selected onlyTags [] = true ∧ l.tags = [])
  named : skipTags = [] → (∃ tag ∈ onlyTags, tag ∈ l.tags) → l.selected onlyTags skipTags = true

/-- `--tags` takes a level in. -/
def TakesIn (tags : List String) : Prop :=
  alwaysTag ∈ tags ∨ ((allTag ∈ onlyTags ∨ taggedTag ∈ onlyTags) ∧ neverTag ∉ tags) ∨ ∃ tag ∈ onlyTags, tag ∈ tags

/-- `--skip-tags` leaves a level out. -/
def LeavesOut (tags : List String) : Prop :=
  (allTag ∈ skipTags ∧ (alwaysTag ∉ tags ∨ alwaysTag ∉ skipTags)) ∨ (∃ tag ∈ skipTags, tag ∈ tags) ∨
    taggedTag ∈ skipTags

/-- When the tags do what is said of them, for one leaf. -/
structure TagsHonoured (l : TaggedLeaf) : Prop where
  never : onlyTags = [] → neverTag ∈ l.tags → alwaysTag ∉ l.tags → ∃ tags ∈ l.levels, LeavesOut skipTags tags
  tagged : onlyTags = [taggedTag] → l.tags = [] → ∃ tags ∈ l.levels, LeavesOut skipTags tags
  skipTagged : skipTags = [taggedTag] → l.tags = [] → onlyTags ≠ [] ∧ allTag ∉ onlyTags ∧ taggedTag ∉ onlyTags
  named : skipTags = [] → (∃ tag ∈ onlyTags, tag ∈ l.tags) → ∀ tags ∈ l.above, TakesIn onlyTags tags

variable {onlyTags skipTags}

theorem isdisjoint_eq_false_iff {a b : List String} : isdisjoint a b = false ↔ ∃ tag ∈ a, tag ∈ b := by
  simp [isdisjoint]

theorem ite_and_not (run empty kept : Bool) :
    (if (run && !empty) = true then kept else run) = (run && (empty || kept)) := by
  cases run <;> cases empty <;> cases kept <;> rfl

/-- `IsEnabled` in words. -/
theorem isEnabled_iff {tags : List String} :
    isEnabled tags onlyTags skipTags = true ↔ (onlyTags = [] ∨ TakesIn onlyTags tags) ∧ ¬ LeavesOut skipTags tags := by
  have only : (if onlyTags.isEmpty then true else if tags.contains alwaysTag then true
      else if onlyTags.contains allTag && !tags.contains neverTag then true
      else if onlyTags.contains taggedTag && !tags.contains neverTag then true
      else !isdisjoint onlyTags tags) = true ↔ onlyTags = [] ∨ TakesIn onlyTags tags := by
    unfold TakesIn
    rw [← isdisjoint_eq_false_iff]
    simp only [Bool.if_true_left, Bool.or_eq_true, Bool.and_eq_true, List.isEmpty_iff, Bool.not_eq_true',
      decide_eq_true_eq, List.contains_eq_mem, decide_eq_false_iff_not]
    tauto
  have skip : (skipTags.isEmpty || (if skipTags.contains allTag && (!tags.contains alwaysTag ||
      !skipTags.contains alwaysTag) then false else if !isdisjoint skipTags tags then false
      else if skipTags.contains taggedTag then false else true)) = true ↔ ¬ LeavesOut skipTags tags := by
    unfold LeavesOut
    rw [← isdisjoint_eq_false_iff, Bool.or_eq_true, List.isEmpty_iff]
    by_cases empty : skipTags = []
    · subst empty
      simp [isdisjoint]
    · simp only [empty, false_or]
      simp
      tauto
  rw [← only, ← skip, ← Bool.and_eq_true, ← ite_and_not]
  exact Iff.rfl

/-- A leaf is selected when `--tags` takes every level in and `--skip-tags` leaves none out. -/
theorem selected_iff_levels {l : TaggedLeaf} : l.selected onlyTags skipTags = true ↔
    (onlyTags = [] ∨ ∀ tags ∈ l.levels, TakesIn onlyTags tags) ∧ ∀ tags ∈ l.levels, ¬ LeavesOut skipTags tags := by
  rw [selected_iff]
  simp only [isEnabled_iff]
  constructor
  · intro all
    refine ⟨?_, fun tags level => (all tags level).2⟩
    by_cases empty : onlyTags = []
    · exact .inl empty
    · exact .inr fun tags level => (all tags level).1.resolve_left empty
  · rintro ⟨only, skip⟩ tags level
    exact ⟨only.imp id fun all => all tags level, skip tags level⟩

theorem not_leavesOut_nil (tags : List String) : ¬ LeavesOut [] tags := by
  simp [LeavesOut]

theorem leavesOut_tagged (tags : List String) : LeavesOut [taggedTag] tags :=
  .inr (.inr List.mem_cons_self)

/-- Above a leaf without tags there is at most `always`, so all its levels are taken in when it is. -/
theorem takesIn_levels_of_untagged {l : TaggedLeaf} (inherits : Inherits l.tags l.above) (untagged : l.tags = [])
    (special : allTag ∈ onlyTags ∨ taggedTag ∈ onlyTags) : ∀ tags ∈ l.levels, TakesIn onlyTags tags := by
  intro tags level
  by_cases never : neverTag ∈ tags
  · rcases List.mem_cons.1 level with rfl | above
    · rw [untagged] at never
      cases never
    · rcases inherits tags above neverTag never with same | inside
      · exact absurd same (by decide)
      · rw [untagged] at inside
        cases inside
  · exact .inr (.inl ⟨special, never⟩)

/-- For a leaf of a play the tags do what is said of them exactly when these conditions hold. -/
theorem tagLaws_iff {l : TaggedLeaf} (inherits : Inherits l.tags l.above) :
    TagLaws onlyTags skipTags l ↔ TagsHonoured onlyTags skipTags l := by
  have own : l.tags ∈ l.levels := List.mem_cons_self
  constructor
  · intro laws
    refine ⟨?_, ?_, ?_, ?_⟩
    · rintro rfl never always
      by_contra absent
      have kept : ∀ tags ∈ l.levels, ¬ LeavesOut skipTags tags := fun tags level out => absent ⟨tags, level, out⟩
      have off := laws.never never always fun _ named => by cases named
      rw [selected_iff_levels.2 ⟨.inl rfl, kept⟩] at off
      cases off
    · rintro rfl untagged
      by_contra absent
      have kept : ∀ tags ∈ l.levels, ¬ LeavesOut skipTags tags := fun tags level out => absent ⟨tags, level, out⟩
      have special : taggedTag ∈ [taggedTag] := List.mem_cons_self
      have taken := takesIn_levels_of_untagged inherits untagged (.inr special)
      exact laws.tagged rfl (selected_iff_levels.2 ⟨.inr taken, kept⟩) untagged
    · rintro rfl untagged
      have never : l.selected onlyTags [taggedTag] ≠ true := fun selected =>
        (selected_iff_levels.1 selected).2 _ own (leavesOut_tagged _)
      have unselected : ¬ l.selected onlyTags [] = true := fun selected =>
        never ((laws.skipTagged rfl).2 ⟨selected, untagged⟩)
      have skip : ∀ tags ∈ l.levels, ¬ LeavesOut [] tags := fun tags _ => not_leavesOut_nil tags
      refine ⟨fun empty => unselected (selected_iff_levels.2 ⟨.inl empty, skip⟩), fun all => ?_, fun tagged => ?_⟩
      · exact unselected (selected_iff_levels.2 ⟨.inr (takesIn_levels_of_untagged inherits untagged (.inl all)), skip⟩)
      · exact unselected (selected_iff_levels.2 ⟨.inr (takesIn_levels_of_untagged inherits untagged (.inr tagged)), skip⟩)
    · rintro rfl named tags above
      obtain ⟨tag, only, inside⟩ := named
      have taken := (selected_iff_levels.1 (laws.named rfl ⟨tag, only, inside⟩)).1
      rcases taken with rfl | taken
      · cases only
      · exact taken tags (List.mem_cons_of_mem _ above)
  · intro honoured
    refine ⟨?_, ?_, ?_, ?_⟩
    · intro never always unnamed
      rw [← Bool.not_eq_true]
      intro selected
      obtain ⟨only, skip⟩ := selected_iff_levels.1 selected
      rcases only with rfl | taken
      · obtain ⟨tags, level, out⟩ := honoured.never rfl never always
        exact skip tags level out
      · rcases taken _ own with inside | ⟨-, other⟩ | ⟨tag, only, inside⟩
        · exact always inside
        · exact other never
        · exact unnamed tag only inside
    · intro only selected untagged
      obtain ⟨tags, level, out⟩ := honoured.tagged only untagged
      exact (selected_iff_levels.1 selected).2 tags level out
    · rintro rfl
      constructor
      · intro selected
        exact absurd (leavesOut_tagged _) ((selected_iff_levels.1 selected).2 _ own)
      · rintro ⟨selected, untagged⟩
        obtain ⟨some_, all, tagged⟩ := honoured.skipTagged rfl untagged
        rcases (selected_iff_levels.1 selected).1 with empty | taken
        · exact absurd empty some_
        · rcases taken _ own with inside | ⟨special, -⟩ | ⟨tag, -, inside⟩
          · rw [untagged] at inside
            cases inside
          · exact absurd special (not_or.2 ⟨all, tagged⟩)
          · rw [untagged] at inside
            cases inside
    · rintro rfl named
      have above := honoured.named rfl named
      refine selected_iff_levels.2 ⟨.inr fun tags level => ?_, fun tags _ => not_leavesOut_nil tags⟩
      rcases List.mem_cons.1 level with rfl | outer
      · exact .inr (.inr named)
      · exact above tags outer

/-- A play runs the leaves that the tags select: tasks are created for these only, and by a run without an error for
all of them that no rescue section stands for. The tags select what is said of them exactly under the conditions of
`TagsHonoured`. -/
theorem tags_honoured_iff {σ : Type} (o : ExecOption σ) (play : Play) :
    (∀ st, ∃ ran : List (TaggedLeaf × Task), (execPlay o play st).2.created = st.created ++ ran.map Prod.snd ∧
      (ran.map Prod.fst).Sublist (selectedLeaves o.onlyTags o.skipTags (taggedIn o play st.state)) ∧
      ((execPlay o play st).1 = none →
        (sureLeaves o.onlyTags o.skipTags (taggedIn o play st.state)).Sublist (ran.map Prod.fst)) ∧
      ∀ r ∈ ran, r.1.Makes o.marshal r.2) ∧
    ∀ hosts, ((∀ l ∈ batchTagged play hosts, TagLaws o.onlyTags o.skipTags l) ↔
      ∀ l ∈ batchTagged play hosts, TagsHonoured o.onlyTags o.skipTags l) := by
  refine ⟨execPlay_selects o play, fun hosts => ?_⟩
  constructor
  · intro laws l member
    exact (tagLaws_iff (batchTagged_inherits member)).1 (laws l member)
  · intro honoured l member
    exact (tagLaws_iff (batchTagged_inherits member)).2 (honoured l member)

/-- A play with one task that is never to run. -/
def neverPlay : Play where
  hosts := ["node1"]
  tasks := [.mk { moduleTask "t" with tags := [neverTag] } [] [] []]

/-- Without `--tags` a task that is tagged `never` runs. -/
theorem never_runs : (execPlay quietOption neverPlay ⟨(), []⟩).2.created.map Task.name = ["t"] ∧
    ¬ ∀ l ∈ batchTagged neverPlay ["node1"], TagLaws [] [] l := by
  refine ⟨by decide, fun laws => ?_⟩
  have task := laws ((playTaggedPlace neverPlay ["node1"]).leaf { moduleTask "t" with tags := [neverTag] })
    (List.mem_singleton.2 rfl)
  have off := task.never (by decide) (by decide) (by simp)
  revert off
  decide

end Laws

end KubeKey.Executor
