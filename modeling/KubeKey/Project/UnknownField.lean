import KubeKey.Project.Termination

/-!
# Tasks without unknown fields

`dealBlock` takes a block for a task if it has no nested blocks and includes no file, and
then writes to its unknown fields. `Block.UnmarshalYAML` collects these fields only if it
meets neither `include_tasks` nor `block`. The two tests differ on the blocks that list
`include_tasks` first without a value, or `block` first without blocks; on these the loader
panics (`unknownField_collected_iff`).
-/

namespace KubeKey.Loader

open KubeKey.Go KubeKey.Go.Fallible Relation

section UnknownField

variable {α : Type} (dec : Decoder α)

mutual

/-- Every task in the block, as `dealBlock` sees them, has a map for its unknown fields. -/
def Block.Collected : Block α → Prop
  | .mk _ includeTasks unknownField block rescue always =>
    if block.isEmpty = false then BlocksCollected block ∧ BlocksCollected rescue ∧ BlocksCollected always
    else includeTasks = "" → unknownField ≠ none

def BlocksCollected : List (Block α) → Prop
  | [] => True
  | b :: rest => b.Collected ∧ BlocksCollected rest

end

/-- The entry that a field is taken from, or a default. -/
def fieldProp (content merged : List (String × Prop)) (key : String) : Prop :=
  match content.lookup key with
  | some p => p
  | none => (merged.lookup key).getD True

mutual

/-- An item of a list of blocks is complete, and so are those in its sections: it lists `include_tasks` with a value
before `block`, or it lists `block` first and has blocks there, or it lists neither. -/
def CompleteItem : Yaml → Prop
  | .scalar _ null => ¬ (null = true ∧ dec.keepsNull = true)
  | .seq _ => True
  | .alias _ target => CompleteItem target
  | .map content merged =>
    match firstKey content with
    | some ("include_tasks", v) => v.value ≠ ""
    | some _ =>
      field (blockEntries dec content) (blockEntries dec merged) "block" [] ≠ some [] ∧
        fieldProp (completeEntries content) (completeEntries merged) "block" ∧
        fieldProp (completeEntries content) (completeEntries merged) "rescue" ∧
        fieldProp (completeEntries content) (completeEntries merged) "always"
    | none => True

def CompleteList : Yaml → Prop
  | .scalar _ _ => True
  | .seq nodes => CompleteItems nodes
  | .alias _ target => CompleteList target
  | .map _ _ => True

def CompleteItems : List Yaml → Prop
  | [] => True
  | n :: rest => CompleteItem n ∧ CompleteItems rest

def completeEntries : List (String × Yaml) → List (String × Prop)
  | [] => []
  | (key, n) :: rest => (key, CompleteList n) :: completeEntries rest

end

variable {dec}

theorem items_cons {β : Type} {first : Option (Option β)} {rest : List (Option (Option β))} {l : List β}
    (decoded : items (first :: rest) = some l) :
    ∃ item later, first = some item ∧ items rest = some later ∧ l = item.toList ++ later := by
  unfold items at decoded
  obtain ⟨all, mapped, rfl⟩ := Option.map_eq_some_iff.mp decoded
  cases first with
  | none => simp at mapped
  | some item =>
    cases others : rest.mapM id with
    | none => simp [others] at mapped
    | some later =>
      simp [others] at mapped
      subst mapped
      refine ⟨item, later.filterMap id, rfl, by simp [items, others], ?_⟩
      cases item <;> simp

theorem blocksCollected_append {bs bs' : List (Block α)} :
    BlocksCollected (bs ++ bs') ↔ BlocksCollected bs ∧ BlocksCollected bs' := by
  induction bs with
  | nil => simp [BlocksCollected]
  | cons b rest ih => simp [BlocksCollected, ih, and_assoc]

theorem firstKey_cases {content : List (String × Yaml)} {key : String} {v : Yaml}
    (first : firstKey content = some (key, v)) : key = "include_tasks" ∨ key = "block" := by
  have found := List.find?_some first
  simpa using found

/-- A block that lists `block` first has its sections. -/
theorem blockItem_sections {content merged : List (String × Yaml)} {fields : α} {v : Yaml} {b : Block α}
    (base : dec.blockBase (.map content merged) = some fields) (first : firstKey content = some ("block", v))
    (decoded : blockItem dec (.map content merged) = some (some b)) :
    ∃ block rescue always, field (blockEntries dec content) (blockEntries dec merged) "block" [] = some block ∧
      field (blockEntries dec content) (blockEntries dec merged) "rescue" [] = some rescue ∧
      field (blockEntries dec content) (blockEntries dec merged) "always" [] = some always ∧
      b = .mk fields "" none block rescue always := by
  simp only [blockItem, base, first] at decoded
  cases block_ : field (blockEntries dec content) (blockEntries dec merged) "block" [] with
  | none =>
    rw [block_] at decoded
    cases decoded
  | some block =>
    cases rescue_ : field (blockEntries dec content) (blockEntries dec merged) "rescue" [] with
    | none =>
      rw [block_, rescue_] at decoded
      cases decoded
    | some rescue =>
      cases always_ : field (blockEntries dec content) (blockEntries dec merged) "always" [] with
      | none =>
        rw [block_, rescue_, always_] at decoded
        cases decoded
      | some always =>
        rw [block_, rescue_, always_] at decoded
        cases decoded
        exact ⟨block, rescue, always, rfl, rfl, rfl, rfl⟩

theorem completeItem_sections {content merged : List (String × Yaml)} {v : Yaml}
    (first : firstKey content = some ("block", v)) :
    CompleteItem dec (.map content merged) ↔
      field (blockEntries dec content) (blockEntries dec merged) "block" [] ≠ some [] ∧
        fieldProp (completeEntries dec content) (completeEntries dec merged) "block" ∧
        fieldProp (completeEntries dec content) (completeEntries dec merged) "rescue" ∧
        fieldProp (completeEntries dec content) (completeEntries dec merged) "always" := by
  simp only [CompleteItem, first]
  exact Iff.rfl

/-- An item that is left out is complete. -/
theorem complete_of_left_out : ∀ {n : Yaml}, blockItem dec n = some none → CompleteItem dec n
  | .scalar value null, decoded => by
    simp only [blockItem] at decoded
    split at decoded
    · split at decoded
      · cases decoded
      · next drops => simp [CompleteItem, drops]
    · cases decoded
  | .seq nodes, _ => by simp [CompleteItem]
  | .alias name target, decoded => by
    simp only [blockItem] at decoded
    simp only [CompleteItem]
    exact complete_of_left_out decoded
  | .map content merged, decoded => by
    simp only [blockItem] at decoded
    split at decoded
    · cases decoded
    · split at decoded
      · cases decoded
      · split at decoded
        · cases decoded
        · cases decoded
      · obtain ⟨_, -, wrong⟩ := Option.map_eq_some_iff.mp decoded
        cases wrong

/-- Two tables agree: where one has a list of blocks the other says whether its tasks are collected. -/
def Agree (decoded : List (String × Option (List (Block α)))) (complete : List (String × Prop)) : Prop :=
  List.Forall₂ (fun e e' => e.1 = e'.1 ∧ ∀ bs, e.2 = some bs → (BlocksCollected bs ↔ e'.2)) decoded complete

theorem Agree.lookup {decoded : List (String × Option (List (Block α)))} {complete : List (String × Prop)}
    (agree : Agree decoded complete) (key : String) :
    decoded.lookup key = none ∧ complete.lookup key = none ∨
      ∃ r p, decoded.lookup key = some r ∧ complete.lookup key = some p ∧
        ∀ bs, r = some bs → (BlocksCollected bs ↔ p) := by
  induction agree with
  | nil => exact .inl ⟨rfl, rfl⟩
  | @cons e e' rest rest' same _ ih =>
    obtain ⟨k, r⟩ := e
    obtain ⟨k', p⟩ := e'
    obtain ⟨names, values⟩ := same
    cases names
    rw [lookup_cons_if, lookup_cons_if]
    by_cases here : key = k
    · rw [if_pos here, if_pos here]
      exact .inr ⟨r, p, rfl, rfl, values⟩
    · rw [if_neg here, if_neg here]
      exact ih

theorem Agree.field {own others : List (String × Option (List (Block α)))} {own' others' : List (String × Prop)}
    (agree : Agree own own') (agree' : Agree others others') {key : String} {bs : List (Block α)}
    (decoded : field own others key [] = some bs) : BlocksCollected bs ↔ fieldProp own' others' key := by
  unfold Loader.field at decoded
  unfold fieldProp
  obtain ⟨none₁, none₂⟩ | ⟨r, p, some₁, some₂, same⟩ := agree.lookup key
  · rw [none₁] at decoded
    rw [none₂]
    obtain ⟨none₁, none₂⟩ | ⟨r, p, some₁, some₂, same⟩ := agree'.lookup key
    · simp only [none₁, Option.getD_none, Option.some.injEq] at decoded
      subst decoded
      simp [none₂, BlocksCollected]
    · simp only [some₁, Option.getD_some] at decoded
      simp only [some₂, Option.getD_some]
      exact same bs decoded
  · rw [some₁] at decoded
    rw [some₂]
    exact same bs decoded

mutual

/-- The tasks of a block are collected if and only if its node is complete. -/
theorem collected_iff_complete : ∀ {n : Yaml} {b : Block α}, blockItem dec n = some (some b) →
    (b.Collected ↔ CompleteItem dec n)
  | .scalar value null, b, decoded => by
    simp only [blockItem] at decoded
    split at decoded
    · next isNull =>
      split at decoded
      · next keeps =>
        cases decoded
        simp [Block.zero, Block.Collected, CompleteItem, isNull, keeps]
      · cases decoded
    · cases decoded
  | .seq nodes, b, decoded => by
    simp only [blockItem] at decoded
    cases decoded
  | .alias name target, b, decoded => by
    simp only [blockItem] at decoded
    simp only [CompleteItem]
    exact collected_iff_complete decoded
  | .map content merged, b, decoded => by
    have agree := agree_entries content
    have agree' := agree_entries merged
    cases base : dec.blockBase (.map content merged) with
    | none => simp [blockItem, base] at decoded
    | some fields =>
      cases first : firstKey content with
      | none =>
        simp only [blockItem, base, first] at decoded
        simp only [CompleteItem, first]
        obtain ⟨_, -, same⟩ := Option.map_eq_some_iff.mp decoded
        cases same
        simp [Block.Collected]
      | some e =>
        obtain ⟨key, v⟩ := e
        obtain rfl | rfl := firstKey_cases first
        · simp only [blockItem, base, first] at decoded
          simp only [CompleteItem, first]
          cases decoded
          simp [Block.Collected]
        · obtain ⟨block, rescue, always, block_, rescue_, always_, rfl⟩ := blockItem_sections base first decoded
          rw [completeItem_sections first, ← agree.field agree' block_, ← agree.field agree' rescue_,
            ← agree.field agree' always_, block_]
          cases block with
          | nil => simp [Block.Collected]
          | cons b bs => simp [Block.Collected]

theorem collectedBlocks_iff_complete : ∀ {n : Yaml} {bs : List (Block α)}, blocks dec n = some bs →
    (BlocksCollected bs ↔ CompleteList dec n)
  | .scalar value null, bs, decoded => by
    simp only [blocks] at decoded
    split at decoded
    · cases decoded
      simp [BlocksCollected, CompleteList]
    · cases decoded
  | .seq nodes, bs, decoded => by
    simp only [blocks] at decoded
    simp only [CompleteList]
    exact collectedItems_iff_complete decoded
  | .alias name target, bs, decoded => by
    simp only [blocks] at decoded
    simp only [CompleteList]
    exact collectedBlocks_iff_complete decoded
  | .map content merged, bs, decoded => by
    simp only [blocks] at decoded
    cases decoded

theorem collectedItems_iff_complete : ∀ {nodes : List Yaml} {bs : List (Block α)},
    items (blockItems dec nodes) = some bs → (BlocksCollected bs ↔ CompleteItems dec nodes)
  | [], bs, decoded => by
    simp only [blockItems, items] at decoded
    cases decoded
    simp [BlocksCollected, CompleteItems]
  | n :: rest, bs, decoded => by
    simp only [blockItems] at decoded
    obtain ⟨item, later, first, others, rfl⟩ := items_cons decoded
    rw [blocksCollected_append]
    simp only [CompleteItems]
    have tail := collectedItems_iff_complete others
    cases item with
    | none => simp [BlocksCollected, tail, complete_of_left_out first]
    | some b => simp [BlocksCollected, tail, collected_iff_complete first]

theorem agree_entries : ∀ content : List (String × Yaml), Agree (blockEntries dec content) (completeEntries dec content)
  | [] => by
    simp only [blockEntries, completeEntries]
    exact .nil
  | (key, n) :: rest => by
    simp only [blockEntries, completeEntries]
    exact .cons ⟨rfl, fun bs decoded => collectedBlocks_iff_complete decoded⟩ (agree_entries rest)

end

/-! ## The loader -/

mutual

/-- Every task that the role brings along itself has a map for its unknown fields. -/
def Role.Collected : Role α → Prop
  | .mk _ _ _ roleDependency block => RolesCollected roleDependency ∧ BlocksCollected block

def RolesCollected : List (Role α) → Prop
  | [] => True
  | role :: rest => role.Collected ∧ RolesCollected rest

end

theorem rolesCollected_iff {roles : List (Role α)} : RolesCollected roles ↔ ∀ role ∈ roles, role.Collected := by
  induction roles with
  | nil => simp [RolesCollected]
  | cons role rest ih => simp [RolesCollected, ih]

variable (dec) in
/-- Every task that the files decode to has a map for its unknown fields. -/
structure ProjectCollected (fs : GoMap File) : Prop where
  taskFiles : ∀ path bs, taskFile dec fs path = .ok bs → BlocksCollected bs
  metaFiles : ∀ path deps, metaFile dec fs path = .ok deps → ∀ dep ∈ deps, dep.Collected
  playbooks : ∀ path ps, playbookFile dec fs path = .ok ps → ∀ p ∈ ps,
    BlocksCollected p.preTasks ∧ BlocksCollected p.tasks ∧ BlocksCollected p.postTasks ∧
      ∀ role ∈ p.roles, role.Collected

/-- The call is about tasks that have a map. -/
def CallCollected : Call α → Prop
  | .loadPlaybook _ => True
  | .dealRole role _ => role.Collected
  | .dealBlock _ _ blocks => BlocksCollected blocks
  | .annotate unknownField _ => unknownField ≠ none

variable {fs : GoMap File}

mutual

theorem blockRefs_collected (project : ProjectCollected dec fs) {top source : String} {d : Call α} :
    ∀ bs : List (Block α), BlocksCollected bs → d ∈ blockRefs dec fs top source bs → CallCollected d
  | [], _, inside => by
    simp [blockRefs] at inside
  | b :: rest, collected, inside => by
    simp only [blockRefs] at inside
    simp only [BlocksCollected] at collected
    obtain inside | inside := inside
    · exact oneRefs_collected project b collected.1 inside
    · exact blockRefs_collected project rest collected.2 inside

theorem oneRefs_collected (project : ProjectCollected dec fs) {top source : String} {d : Call α} :
    ∀ b : Block α, b.Collected → d ∈ oneRefs dec fs top source b → CallCollected d
  | .mk fields includeTasks unknownField block rescue always, collected, inside => by
    simp only [oneRefs] at inside
    simp only [Block.Collected] at collected
    split at inside
    · next sections =>
      rw [if_pos sections] at collected
      obtain inside | inside | inside := inside
      · exact blockRefs_collected project block collected.1 inside
      · exact blockRefs_collected project rescue collected.2.1 inside
      · exact blockRefs_collected project always collected.2.2 inside
    · next sections =>
      rw [if_neg sections] at collected
      split at inside
      · obtain ⟨file, bs, -, -, read, rfl⟩ := inside
        exact project.taskFiles file bs read
      · next task =>
        cases inside
        exact collected (not_not.mp task)

end

mutual

theorem roleTaskRefs_collected (project : ProjectCollected dec fs) {basePlaybook : String} {d : Call α} :
    ∀ role : Role α, role.Collected → d ∈ roleTaskRefs dec fs basePlaybook role → CallCollected d
  | .mk fields vars role roleDependency block, collected, inside => by
    simp only [roleTaskRefs] at inside
    simp only [Role.Collected] at collected
    obtain inside | inside := inside
    · exact roleTasksRefs_collected project roleDependency collected.1 inside
    · exact blockRefs_collected project block collected.2 inside

theorem roleTasksRefs_collected (project : ProjectCollected dec fs) {basePlaybook : String} {d : Call α} :
    ∀ roles : List (Role α), RolesCollected roles → d ∈ roleTasksRefs dec fs basePlaybook roles → CallCollected d
  | [], _, inside => by
    simp [roleTasksRefs] at inside
  | role :: rest, collected, inside => by
    simp only [roleTasksRefs] at inside
    simp only [RolesCollected] at collected
    obtain inside | inside := inside
    · exact roleTaskRefs_collected project role collected.1 inside
    · exact roleTasksRefs_collected project rest collected.2 inside

end

theorem roleTasks_collected (project : ProjectCollected dec fs) {baseRole : String} {block block' : List (Block α)}
    (collected : BlocksCollected block) (read : roleTasks dec fs baseRole block = .ok block') : BlocksCollected block' := by
  unfold roleTasks at read
  dsimp only at read
  split at read
  · cases read
    exact collected
  · exact project.taskFiles _ _ read

/-- A role that the meta file added is one of its dependencies, dealt with. -/
theorem exists_of_dealDependencies {baseRole role basePlaybook : String} {dependencies : List (Role α)}
    (deals : Succeeds (body dec fs) (dealDependencies dec fs baseRole role basePlaybook) dependencies)
    {dealt : Role α} (inside : dealt ∈ dependencies) :
    ∃ file deps, getPath fs (getRoleMetaRelPath baseRole) = file ∧ file ≠ "" ∧ metaFile dec fs file = .ok deps ∧
      ∃ dep ∈ deps, Succeeds (body dec fs) (dealRole dec fs basePlaybook dep) dealt := by
  unfold dealDependencies at deals
  dsimp only at deals
  split at deals
  · cases succeeds_pure.mp deals
    cases inside
  · next exists_ =>
    obtain ⟨deps, read, deals⟩ := succeeds_bind.mp deals
    obtain ⟨dep, member, succeeds⟩ := exists_of_succeeds_each deals inside
    exact ⟨_, deps, rfl, exists_, succeeds_ofResult.mp read, dep, member, succeeds_invoke.mp (succeeds_wrap.mp succeeds)⟩

/-- A role that was dealt with has the tasks of its task file, and the roles of its meta file. -/
theorem dealt_collected (project : ProjectCollected dec fs) {basePlaybook : String} {c : Call α}
    (acc : Acc (fun d c => Follows dec fs c d) c) :
    ∀ {role dealt : Role α}, c = .dealRole role basePlaybook → role.Collected →
      Succeeds (body dec fs) (dealRole dec fs basePlaybook role) dealt → dealt.Collected := by
  induction acc with
  | intro c _ ih =>
    rintro ⟨fields, vars, role, roleDependency, block⟩ dealt rfl collected succeeds
    have follows := (tracks_dealRole basePlaybook _).followed dealt succeeds
    simp only [Role.Collected] at collected
    simp only [dealRole] at succeeds
    split at succeeds
    · exact absurd succeeds not_succeeds_throw
    next exists_ =>
    obtain ⟨dependencies, deals, succeeds⟩ := succeeds_bind.mp succeeds
    obtain ⟨block', tasks, succeeds⟩ := succeeds_bind.mp succeeds
    obtain ⟨vars', -, succeeds⟩ := succeeds_bind.mp succeeds
    cases succeeds_pure.mp succeeds
    simp only [Role.Collected]
    refine ⟨?_, roleTasks_collected project collected.2 (succeeds_ofResult.mp tasks)⟩
    rw [rolesCollected_iff]
    intro dealt inside
    obtain inside | inside := List.mem_append.mp inside
    · exact rolesCollected_iff.mp collected.1 dealt inside
    · obtain ⟨file, deps, found, exists', read, dep, member, deals⟩ := exists_of_dealDependencies deals inside
      have made := (follows (.dealRole dep basePlaybook)
        ⟨_, file, deps, rfl, exists_, found, exists', read, dep, member, rfl⟩).1
      exact ih _ made rfl (project.metaFiles file deps read dep member) deals

/-- References are about tasks that have a map. -/
theorem refers_collected (project : ProjectCollected dec fs) {c d : Call α} (collected : CallCollected c) (follows : Follows dec fs c d) :
    CallCollected d := by
  have refers := follows_refers follows
  cases c with
  | loadPlaybook basePlaybook =>
    obtain ⟨ps, read, p, inside, refers⟩ := refers
    obtain ⟨pre, tasks, post, roles⟩ := project.playbooks basePlaybook ps read p inside
    obtain ⟨-, path, -, -, rfl⟩ | refers | refers | refers | ⟨role, used, refers⟩ := refers
    · trivial
    · exact blockRefs_collected project _ pre refers
    · exact blockRefs_collected project _ tasks refers
    · exact blockRefs_collected project _ post refers
    · obtain rfl | ⟨dealt, succeeds, refers⟩ := refers
      · exact roles role used
      · have acc := (Proc.ends_iff_acc (Call.dealRole role basePlaybook)).mp ⟨_, succeeds⟩
        exact roleTaskRefs_collected project dealt (dealt_collected project acc rfl (roles role used) succeeds) refers
  | dealRole role basePlaybook =>
    obtain ⟨fields, vars, role, roleDependency, block⟩ := role
    obtain ⟨baseRole, file, deps, -, -, -, -, read, dep, inside, rfl⟩ := refers
    exact project.metaFiles file deps read dep inside
  | dealBlock top source blocks => exact blockRefs_collected project blocks collected refers
  | annotate unknownField top => exact refers.elim

/-- A project whose tasks have their maps does not make the loader panic. -/
theorem not_panics (project : ProjectCollected dec fs) (basePlaybook : String) :
    ¬ Ends dec fs basePlaybook .panicked := by
  intro ends
  obtain ⟨callee, -⟩ | ⟨_, -, ⟨⟩⟩ := ends_iff.mp ends
  obtain ⟨d, reached, loud⟩ := Proc.reaches_of_panics callee
  obtain ⟨top, rfl⟩ := eq_annotate_of_loud loud
  have collected : ∀ d, ReflTransGen (Follows dec fs) (.loadPlaybook basePlaybook) d → CallCollected d := by
    intro d reached
    induction reached with
    | refl => trivial
    | tail _ follows ih => exact refers_collected project ih follows
  exact collected _ reached rfl

/-- The play of a project with one task. -/
def oneTaskPlay (task : Yaml) : Yaml :=
  .map [("hosts", .scalar "localhost" false), ("tasks", .seq [task])] []

/-- A project with one task. -/
def oneTask (task : Yaml) : GoMap File := .ofList [("playbook.yaml", .file (.node (.seq [oneTaskPlay task])))]

theorem playbookFile_oneTask {task : Yaml} {b : Block α} {fields : α} (decoded : blockItem dec task = some (some b))
    (other : dec.play (oneTaskPlay task) = some fields) :
    playbookFile dec (oneTask task) "playbook.yaml" = .ok [⟨fields, "", ["localhost"], none, [], [], [], [], [b], []⟩] := by
  have tasks : blocks dec (.seq [task]) = some [b] := by
    simp [blocks, blockItems, items, decoded]
  have item : playItem dec (oneTaskPlay task) =
      some (some ⟨fields, "", ["localhost"], none, [], [], [], [], [b], []⟩) := by
    have other' : dec.play (.map [("hosts", .scalar "localhost" false), ("tasks", .seq [task])] []) = some fields := other
    simp [playItem, oneTaskPlay, Yaml.resolve, other', field, entries, tasks, hosts, List.lookup_cons]
  have read : (oneTask task).get? "playbook.yaml" = some (.file (.node (.seq [oneTaskPlay task]))) := rfl
  simp [playbookFile, load, readFile, read, unmarshal, plays, Yaml.resolve, items, item]

/-- On a project with one task the loader comes to write to the map of that task. -/
theorem oneTask_panics {task : Yaml} {fields fields' : α} {rescue always : List (Block α)}
    (decoded : blockItem dec task = some (some (.mk fields' "" none [] rescue always)))
    (other : dec.play (oneTaskPlay task) = some fields) : Ends dec (oneTask task) "playbook.yaml" .panicked := by
  have follows : Follows dec (oneTask task) (.loadPlaybook "playbook.yaml") (.annotate none (dir "playbook.yaml")) := by
    refine makes_bind.mpr (.inr ⟨_, succeeds_ofResult.mpr (playbookFile_oneTask decoded other), ?_⟩)
    refine makes_bind.mpr (.inl (makes_bind.mpr (.inl ?_)))
    refine makes_bind.mpr (.inr ⟨[], succeeds_pure.mpr rfl, ?_⟩)
    refine makes_bind.mpr (.inr ⟨none, succeeds_ofResult.mpr rfl, ?_⟩)
    refine makes_bind.mpr (.inr ⟨[], succeeds_pure.mpr rfl, ?_⟩)
    exact makes_bind.mpr (.inl (makes_bind.mpr (.inl (makes_bind.mpr (.inl .here)))))
  exact ends_iff.mpr (.inl ⟨Proc.panics_of_reaches (.single follows) .panic, rfl⟩)

/-- For every block: the tasks in it, as the loader sees them, have a map for their unknown fields if and only if it
lists `include_tasks` with a value before `block`, or `block` first and with blocks, or neither of them, and the same
holds of the blocks in its sections. The loader does not panic on a project whose tasks have their maps, and panics on
a project with one task that has none. -/
theorem unknownField_collected_iff (dec : Decoder α) :
    (∀ node b, blockItem dec node = some (some b) → (b.Collected ↔ CompleteItem dec node)) ∧
    (∀ fs basePlaybook, ProjectCollected dec fs → ¬ Ends dec fs basePlaybook .panicked) ∧
    ∀ node fields fields' rescue always, blockItem dec node = some (some (.mk fields' "" none [] rescue always)) →
      dec.play (oneTaskPlay node) = some fields → Ends dec (oneTask node) "playbook.yaml" .panicked :=
  ⟨fun _ _ decoded => collected_iff_complete decoded, fun _ basePlaybook project => not_panics project basePlaybook,
    fun _ _ _ _ _ decoded other => oneTask_panics decoded other⟩

end UnknownField

/-- A task that includes a file without a name. -/
def emptyInclude : Yaml := .map [("name", .scalar "include" false), ("include_tasks", .scalar "" true)] []

/-- The loader panics on it, though every file unmarshals. -/
theorem emptyInclude_panics :
    (∃ plays, playbookFile plainDecoder (oneTask emptyInclude) "playbook.yaml" = .ok plays) ∧
      Ends plainDecoder (oneTask emptyInclude) "playbook.yaml" .panicked :=
  ⟨⟨_, playbookFile_oneTask rfl rfl⟩, oneTask_panics rfl rfl⟩

end KubeKey.Loader
