import KubeKey.Executor.Inherit
import KubeKey.Executor.Retry

/-!
# The accounts of a playbook

`pkg/executor`: the statistics in the status of a playbook are counted by the deferred
function of `taskExecutor.Exec`, task by task, while the block, role and playbook executors
stop, go on, rescue and finish around it. `Rule` is the invariant rule for all of them: a
relation that the single calls keep, a run of a playbook keeps, whatever fails on the way.

With it the books balance in every run (`statistics_account`), and a playbook without rescue
sections that ends without an error has no failed task (`no_silent_failure`).
-/

namespace KubeKey.Executor

open KubeKey.Go KubeKey.Project

section Rules
variable {σ : Type} {o : ExecOption σ} {R : ExecState σ → ExecState σ → Prop}

/-- A relation between the states before and after, kept by every call that the executors make. -/
structure Rule (o : ExecOption σ) (R : ExecState σ → ExecState σ → Prop) : Prop where
  refl : ∀ st, R st st
  trans : ∀ a b c, R a b → R b c → R a c
  mergeVars : ∀ n hosts st, R st { st with state := (o.mergeVars n hosts st.state).2 }
  refused : ∀ task st err s, o.create task st.state = (some err, s) → R st { st with state := s }
  task : ∀ task st s, o.create task st.state = (none, s) → R st ⟨(o.runTask task s).2, st.created ++ [task]⟩

/-- A part of a run keeps the relation. -/
def Keeps (R : ExecState σ → ExecState σ → Prop) (x : Exec σ) : Prop := ∀ st, R st (x st).2

theorem Rule.andThen (rule : Rule o R) {x y : Exec σ} (first : Keeps R x) (second : Keeps R y) :
    Keeps R (x.andThen y) := by
  intro st
  unfold Exec.andThen
  have kept := first st
  split
  · rename_i run
    rw [run] at kept
    exact kept
  · rename_i run
    rw [run] at kept
    exact rule.trans _ _ _ kept (second _)

theorem Rule.execAll (rule : Rule o R) {α : Type} {f : α → Exec σ} (each : ∀ a, Keeps R (f a)) (l : List α) :
    Keeps R (execAll f l) := by
  induction l with
  | nil => exact rule.refl
  | cons a rest ih => exact rule.andThen (each a) ih

theorem Rule.lift (rule : Rule o R) (n : Nat) (hosts : List String) : Keeps R (Exec.lift (o.mergeVars n hosts)) :=
  rule.mergeVars n hosts

theorem Rule.taskExecutorExec (rule : Rule o R) (task : Task) : Keeps R (taskExecutorExec o task) := by
  intro st
  unfold Executor.taskExecutorExec
  split
  · rename_i created
    exact rule.refused task st _ _ created
  · rename_i created
    exact rule.task task st _ created

theorem Rule.dealTask (rule : Rule o R) (hosts when : List String) (block : BlockHead) :
    Keeps R (dealTask o hosts when block) := by
  intro st
  unfold Executor.dealTask
  dsimp only
  split
  · exact rule.refl st
  · split
    · exact rule.refl st
    · split
      · exact rule.refl st
      · exact rule.taskExecutorExec _ st

/-- The sections of a block, whichever of them are run. -/
theorem Rule.dealBlock (rule : Rule o R) {block : Exec σ} {rescue always : Option (Exec σ)} (first : Keeps R block)
    (second : ∀ x ∈ rescue, Keeps R x) (last : ∀ x ∈ always, Keeps R x) : Keeps R (dealBlock block rescue always) := by
  have head : Keeps R (Executor.dealBlock block rescue none) := by
    intro st
    have kept := first st
    rcases run : block st with ⟨err, st₁⟩
    rw [run] at kept
    cases err with
    | none =>
      simp only [Executor.dealBlock, run]
      exact kept
    | some err =>
      cases rescue with
      | none =>
        simp only [Executor.dealBlock, run]
        exact kept
      | some rescue =>
        have later := rule.trans _ _ _ kept (second rescue rfl st₁)
        rcases rescued : rescue st₁ with ⟨err', st₂⟩
        rw [rescued] at later
        cases err' <;> simp only [Executor.dealBlock, run, rescued] <;> exact later
  intro st
  cases always with
  | none => exact head st
  | some always =>
    have both := rule.trans _ _ _ (head st) (last always rfl _)
    -- the always section starts where the other two have ended
    have ended : (Executor.dealBlock block rescue (some always) st).2 =
        (always (Executor.dealBlock block rescue none st).2).2 := by
      unfold Executor.dealBlock
      dsimp only
      split <;> rename_i finished <;> rw [finished]
    rw [ended]
    exact both

mutual

theorem Rule.execBlocks (rule : Rule o R) : ∀ (blocks : List Block) (e : BlockExecutor), Keeps R (execBlocks o e blocks)
  | [], _ => rule.refl
  | block :: blocks, e => by
    simp only [Executor.execBlocks]
    exact rule.andThen (Rule.execElement rule block e) (Rule.execBlocks rule blocks e)

theorem Rule.execElement (rule : Rule o R) : ∀ (block : Block) (e : BlockExecutor), Keeps R (execElement o e block)
  | .mk head block rescue always, e => by
    simp only [Executor.execElement]
    split
    · exact rule.refl
    refine rule.andThen (rule.lift _ _) ?_
    split
    · refine rule.dealBlock (Rule.execBlocks rule block _) (fun x member => ?_) fun x member => ?_
      · split at member <;> cases member
        exact Rule.execBlocks rule rescue _
      · split at member <;> cases member
        exact Rule.execBlocks rule always _
    split
    · exact rule.refl
    · exact rule.dealTask _ _ _

end

mutual

theorem Rule.execRole (rule : Rule o R) : ∀ (role : Role) (e : RoleExecutor), Keeps R (execRole o e role)
  | .mk head roleDependency block, e => by
    simp only [Executor.execRole]
    split
    · exact rule.refl
    exact rule.andThen (rule.lift _ _)
      (rule.andThen (Rule.execDependencies rule roleDependency e) (rule.execBlocks block _))

theorem Rule.execDependencies (rule : Rule o R) : ∀ (roles : List Role) (e : RoleExecutor),
    Keeps R (execDependencies o e roles)
  | [], _ => by
    simp only [Executor.execDependencies]
    exact rule.refl
  | dep :: deps, e => by
    simp only [Executor.execDependencies]
    exact rule.andThen (Rule.execRole rule dep _) (Rule.execDependencies rule deps e)

end

theorem Rule.execPlay (rule : Rule o R) (play : Play) : Keeps R (execPlay o play) := by
  have batch : ∀ serials, Keeps R (execBatch o play serials) := by
    intro serials
    unfold execBatch
    split
    · exact rule.refl
    exact rule.andThen (rule.lift _ _) <| rule.andThen (rule.execBlocks _ _) <|
      rule.andThen (rule.execAll (fun role => rule.execRole role _) _) <|
        rule.andThen (rule.execBlocks _ _) (rule.execBlocks _ _)
  intro st
  unfold Executor.execPlay
  split
  · exact rule.refl st
  split
  · exact rule.refl st
  · rename_i hosts _
    refine rule.andThen ?_ ?_ st
    · unfold dealGatherFacts
      split
      · exact rule.taskExecutorExec _
      · exact rule.refl
    · intro st
      dsimp only
      split
      · exact rule.refl st
      · exact rule.execAll batch _ st

/-- What every call keeps, a run of a playbook keeps. -/
theorem Rule.execPlaybook (rule : Rule o R) (plays : List Play) : Keeps R (execPlaybook o plays) :=
  rule.execAll rule.execPlay plays

end Rules

/-! ## Statistics -/

/-- The tasks whose end is recorded. -/
def Statistics.ended (s : Statistics) : Int := s.success + s.ignored + s.failed

/-- Fuel for every retry of a task. -/
def enough (task : Task) : Nat := (max task.retries 0 + 2).toNat

/-- The loop ends whatever the API answers, and a task that it leaves without an error is complete. -/
theorem runTaskLoop_ends {task : Task} {attempts : Nat → AttemptCalls} :
    ∀ {fuel : Nat} {st : LoopState}, Attempted task attempts st → max task.retries 0 + 1 < st.attempts + fuel →
      ∃ err st', runTaskLoop task attempts fuel st = some (err, st') ∧ (err = none → Finishes task attempts st') ∧
        ((∀ n, (attempts n).patchRunning = none ∧ (attempts n).patchResult = none) → err = none) := by
  intro fuel
  induction fuel with
  | zero =>
    intro st attempted enough
    have bound := attempted.bound
    omega
  | succ fuel ih =>
    intro st attempted enough
    rw [runTaskLoop]
    by_cases complete : isComplete task st.status = true
    · rw [if_pos complete]
      exact ⟨none, st, rfl, fun _ => ⟨attempted, complete⟩, fun _ => rfl⟩
    rw [if_neg complete]
    dsimp only
    split
    · rename_i running
      refine ⟨_, _, rfl, fun none => (by cases none), fun answers => ?_⟩
      rw [(answers _).1] at running
      cases running
    split
    · rename_i result
      refine ⟨_, _, rfl, fun none => (by cases none), fun answers => ?_⟩
      rw [(answers _).2] at result
      cases result
    · refine ih (attempted.round (by simpa using complete)) ?_
      push_cast at enough ⊢
      omega

/-- How one task changes the statistics. -/
structure Counts (s s' : Statistics) (err : Option ExecErr) : Prop where
  total : s'.total = s.total + 1
  least : s.ended ≤ s'.ended
  most : s'.ended ≤ s.ended + 1
  failed : s.failed ≤ s'.failed
  silent : err = none → s'.failed = s.failed ∧ s'.ended = s.ended + 1

theorem Statistics.count_counts (s : Statistics) (phase : TaskPhase) :
    (s.count phase).total = s.total + 1 ∧ s.ended ≤ (s.count phase).ended ∧ (s.count phase).ended ≤ s.ended + 1 ∧
      s.failed ≤ (s.count phase).failed := by
  cases phase <;> refine ⟨rfl, ?_, ?_, ?_⟩ <;> dsimp only [Statistics.count, Statistics.ended] <;> omega

theorem exec_counts (task : Task) {calls : ExecCalls} (created : calls.create = none) (statistics : Statistics) :
    ∃ result, execTaskWithRetries task calls statistics (enough task) = some result ∧
      Counts statistics result.statistics result.err ∧
      ((∀ n, (calls.attempts n).patchRunning = none ∧ (calls.attempts n).patchResult = none) →
        result.statistics.ended = statistics.ended + 1) := by
  have start : Attempted task calls.attempts {} :=
    ⟨fun _ => rfl, fun n same => absurd same (by simp), fun n before => absurd before (by simp), by dsimp only; omega⟩
  have fuel : max task.retries 0 + 1 < (({} : LoopState).attempts : Int) + (enough task : Int) := by
    simp only [enough]
    omega
  obtain ⟨err, st, run, finishes, answered⟩ := runTaskLoop_ends start fuel
  have result : execTaskWithRetries task calls statistics (enough task) =
      some ⟨err.or (if isFailed task st.status then some (.taskFailed task.name (failedMsg st.status)) else none), st,
        statistics.count st.status.phase⟩ := by
    rw [execTaskWithRetries, created, run]
    rfl
  refine ⟨_, result, ?_, ?_⟩
  · obtain ⟨total, least, most, failed⟩ := statistics.count_counts st.status.phase
    refine ⟨total, least, most, failed, fun none => ?_⟩
    -- a task without an error has finished, and not failed
    obtain ⟨rfl, none⟩ := Option.or_eq_none_iff.mp none
    have finished := finishes rfl
    obtain ⟨n, tried⟩ := finished.tried
    obtain ⟨phase, -⟩ := finished.last n tried
    have passed : ¬ isFailed task st.status = true := by
      intro failed
      rw [if_pos failed] at none
      cases none
    rw [finished.isFailed_iff tried, ← phase] at passed
    rcases attemptPhase_cases task calls.attempts n with ended | ended | ended
    · simp [Statistics.count, Statistics.ended, phase.trans ended]
      omega
    · simp [Statistics.count, Statistics.ended, phase.trans ended]
      omega
    · exact absurd (phase.trans ended) passed
  · intro answers
    obtain ⟨n, tried⟩ := (finishes (answered answers)).tried
    obtain ⟨phase, -⟩ := (finishes (answered answers)).last n tried
    have ended := attemptPhase_cases task calls.attempts n
    rw [← phase] at ended
    rcases statistics.count_cases ended with ⟨same, -⟩ | ⟨same, -⟩ | ⟨same, -⟩ <;>
      simp only [same, Statistics.ended] <;> omega

/-- The statistics beside everything else. -/
structure Counting (τ : Type) where
  statistics : Statistics
  rest : τ

/-- What a playbook meets, over the state `τ` of everything but the statistics. -/
structure Surroundings (τ : Type) where
  base : ExecOption τ
  /-- What the API and the hosts answer to a task. -/
  calls : Task → τ → ExecCalls
  /-- What the task leaves. -/
  leaves : Task → τ → τ

variable {τ : Type}

/-- The executors with `taskExecutor.Exec` and its statistics. -/
def Surroundings.option (w : Surroundings τ) : ExecOption (Counting τ) where
  onlyTags := w.base.onlyTags
  skipTags := w.base.skipTags
  mergeVars n hosts s := ((w.base.mergeVars n hosts s.rest).1, { s with rest := (w.base.mergeVars n hosts s.rest).2 })
  getHostnames patterns s := w.base.getHostnames patterns s.rest
  groupHostBySerial := w.base.groupHostBySerial
  marshal := w.base.marshal
  findModule := w.base.findModule
  setOwner := w.base.setOwner
  create task s := if (w.calls task s.rest).create.isSome then (some (.createTask task.name), s) else (none, s)
  runTask task s :=
    match execTaskWithRetries task (w.calls task s.rest) s.statistics (enough task) with
    | some result => (result.err, ⟨result.statistics, w.leaves task s.rest⟩)
    | none => (none, s)

/-- The API takes every patch of a task's status. -/
def Surroundings.Answers (w : Surroundings τ) : Prop :=
  ∀ task s n, ((w.calls task s).attempts n).patchRunning = none ∧ ((w.calls task s).attempts n).patchResult = none

/-- The task that is created is run and counted. -/
theorem Surroundings.runTask_counts (w : Surroundings τ) {task : Task} {s s' : Counting τ}
    (created : w.option.create task s = (none, s')) :
    s' = s ∧ Counts s.statistics (w.option.runTask task s).2.statistics (w.option.runTask task s).1 ∧
      (w.Answers → (w.option.runTask task s).2.statistics.ended = s.statistics.ended + 1) := by
  simp only [Surroundings.option] at created ⊢
  split at created
  · cases created
  · rename_i fine
    cases created
    have none : (w.calls task s.rest).create = none := by simpa using fine
    obtain ⟨result, run, counts, answered⟩ := exec_counts task none s.statistics
    rw [run]
    exact ⟨rfl, counts, fun answers => answered (answers task s.rest)⟩

/-- The books of a run: every task created is counted once, and its end is recorded if the API answers. -/
structure Balanced (answers : Prop) (st st' : ExecState (Counting τ)) : Prop where
  created : ∃ more, st'.created = st.created ++ more ∧
    st'.state.statistics.total = st.state.statistics.total + more.length ∧
    st'.state.statistics.ended ≤ st.state.statistics.ended + more.length ∧
    (answers → st'.state.statistics.ended = st.state.statistics.ended + more.length)
  ended : st.state.statistics.ended ≤ st'.state.statistics.ended
  failed : st.state.statistics.failed ≤ st'.state.statistics.failed

theorem balanced_rule (w : Surroundings τ) : Rule w.option (Balanced w.Answers) where
  refl st := ⟨⟨[], by simp⟩, le_refl _, le_refl _⟩
  trans a b c first second := by
    obtain ⟨more, created, total, most, exact'⟩ := first.created
    obtain ⟨more', created', total', most', exact''⟩ := second.created
    refine ⟨⟨more ++ more', ?_, ?_, ?_, fun answers => ?_⟩, first.ended.trans second.ended,
      first.failed.trans second.failed⟩
    · rw [created', created, List.append_assoc]
    · rw [total', total, List.length_append]
      push_cast
      omega
    · rw [List.length_append]
      push_cast
      omega
    · rw [exact'' answers, exact' answers, List.length_append]
      push_cast
      omega
  mergeVars n hosts st := ⟨⟨[], by simp [Surroundings.option]⟩, le_refl _, le_refl _⟩
  refused task st err s created := by
    simp only [Surroundings.option] at created
    split at created <;> cases created
    exact ⟨⟨[], by simp⟩, le_refl _, le_refl _⟩
  task task st s created := by
    obtain ⟨rfl, counts, answered⟩ := w.runTask_counts created
    refine ⟨⟨[task], rfl, counts.total, counts.most, answered⟩, counts.least, counts.failed⟩

/-- Whatever fails, is rescued or is refused by the API: `Total` rises by one for each task that a playbook creates,
and so do `Success`, `Ignored` and `Failed` together if the API takes the patches of the tasks. -/
theorem statistics_account (w : Surroundings τ) (plays : List Play) (st : ExecState (Counting τ)) :
    Balanced w.Answers st (execPlaybook w.option plays st).2 :=
  (balanced_rule w).execPlaybook plays st

/-! ## Runs without an error -/

mutual

/-- No block has a rescue section. -/
def rescueFree : Block → Bool
  | .mk _ block rescue always => rescue.isEmpty && blocksRescueFree block && blocksRescueFree always

def blocksRescueFree : List Block → Bool
  | [] => true
  | block :: blocks => rescueFree block && blocksRescueFree blocks

end

mutual

def roleRescueFree : Role → Bool
  | .mk _ roleDependency block => rolesRescueFree roleDependency && blocksRescueFree block

def rolesRescueFree : List Role → Bool
  | [] => true
  | role :: roles => roleRescueFree role && rolesRescueFree roles

end

def playRescueFree (play : Play) : Bool :=
  blocksRescueFree play.preTasks && rolesRescueFree play.roles && blocksRescueFree play.tasks &&
    blocksRescueFree play.postTasks

section Success
variable {σ : Type} {o : ExecOption σ} {R : ExecState σ → ExecState σ → Prop}

/-- A relation that the calls keep which succeed. -/
structure SuccessRule (o : ExecOption σ) (R : ExecState σ → ExecState σ → Prop) : Prop where
  refl : ∀ st, R st st
  trans : ∀ a b c, R a b → R b c → R a c
  mergeVars : ∀ n hosts st, R st { st with state := (o.mergeVars n hosts st.state).2 }
  task : ∀ task st s, o.create task st.state = (none, s) → (o.runTask task s).1 = none →
    R st ⟨(o.runTask task s).2, st.created ++ [task]⟩

/-- A part of a run keeps the relation if it succeeds. -/
def Succeeds (R : ExecState σ → ExecState σ → Prop) (x : Exec σ) : Prop := ∀ st, (x st).1 = none → R st (x st).2

theorem SuccessRule.andThen (rule : SuccessRule o R) {x y : Exec σ} (first : Succeeds R x) (second : Succeeds R y) :
    Succeeds R (x.andThen y) := by
  intro st success
  have kept := first st
  unfold Exec.andThen at success ⊢
  rcases run : x st with ⟨err, st₁⟩
  rw [run] at success kept
  cases err with
  | some err => cases success
  | none => exact rule.trans _ _ _ (kept rfl) (second st₁ success)

theorem SuccessRule.execAll (rule : SuccessRule o R) {α : Type} {f : α → Exec σ} {l : List α}
    (each : ∀ a ∈ l, Succeeds R (f a)) : Succeeds R (execAll f l) := by
  induction l with
  | nil => exact fun st _ => rule.refl st
  | cons a rest ih =>
    exact rule.andThen (each a List.mem_cons_self) (ih fun b member => each b (List.mem_cons_of_mem _ member))

theorem SuccessRule.lift (rule : SuccessRule o R) (n : Nat) (hosts : List String) :
    Succeeds R (Exec.lift (o.mergeVars n hosts)) :=
  fun st _ => rule.mergeVars n hosts st

theorem SuccessRule.taskExecutorExec (rule : SuccessRule o R) (task : Task) :
    Succeeds R (taskExecutorExec o task) := by
  intro st success
  unfold Executor.taskExecutorExec at success ⊢
  rcases created : o.create task st.state with ⟨err, s⟩
  rw [created] at success
  cases err with
  | some err => cases success
  | none => exact rule.task task st s created success

theorem SuccessRule.dealTask (rule : SuccessRule o R) (hosts when : List String) (block : BlockHead) :
    Succeeds R (dealTask o hosts when block) := by
  intro st success
  unfold Executor.dealTask at success ⊢
  dsimp only at success ⊢
  split at success
  · cases success
  · split at success
    · cases success
    · split at success
      · cases success
      · rename_i named _ _
        rw [if_neg named]
        exact rule.taskExecutorExec _ st success

/-- A block without a rescue section succeeds only if its other sections do. -/
theorem SuccessRule.dealBlock (rule : SuccessRule o R) {block : Exec σ} {always : Option (Exec σ)}
    (first : Succeeds R block) (last : ∀ x ∈ always, Succeeds R x) : Succeeds R (dealBlock block none always) := by
  intro st success
  have kept := first st
  unfold Executor.dealBlock at success ⊢
  rcases run : block st with ⟨err, st₁⟩
  rw [run] at success kept
  cases err with
  | some err =>
    cases always with
    | none => cases success
    | some always =>
      dsimp only at success
      split at success <;> cases success
  | none =>
    cases always with
    | none => exact kept rfl
    | some always =>
      have later := last always rfl st₁
      dsimp only at success ⊢
      rcases finished : always st₁ with ⟨err', st₂⟩
      rw [finished] at success later
      cases err' with
      | some err' => cases success
      | none => exact rule.trans _ _ _ (kept rfl) (later rfl)

mutual

theorem SuccessRule.execBlocks (rule : SuccessRule o R) : ∀ (blocks : List Block) (e : BlockExecutor),
    blocksRescueFree blocks = true → Succeeds R (execBlocks o e blocks)
  | [], _, _ => by
    simp only [Executor.execBlocks]
    exact fun st _ => rule.refl st
  | block :: blocks, e, free => by
    simp only [blocksRescueFree, Bool.and_eq_true] at free
    simp only [Executor.execBlocks]
    exact rule.andThen (SuccessRule.execElement rule block e free.1) (SuccessRule.execBlocks rule blocks e free.2)

theorem SuccessRule.execElement (rule : SuccessRule o R) : ∀ (block : Block) (e : BlockExecutor),
    rescueFree block = true → Succeeds R (execElement o e block)
  | .mk head block rescue always, e, free => by
    simp only [rescueFree, Bool.and_eq_true] at free
    obtain ⟨⟨none, inner⟩, last⟩ := free
    simp only [Executor.execElement]
    split
    · exact fun st _ => rule.refl st
    refine rule.andThen (rule.lift _ _) ?_
    split
    · refine rule.dealBlock (SuccessRule.execBlocks rule block _ inner) fun x member => ?_
      split at member <;> cases member
      exact SuccessRule.execBlocks rule always _ last
    split
    · exact fun st _ => rule.refl st
    · exact rule.dealTask _ _ _

end

mutual

theorem SuccessRule.execRole (rule : SuccessRule o R) : ∀ (role : Role) (e : RoleExecutor),
    roleRescueFree role = true → Succeeds R (execRole o e role)
  | .mk head roleDependency block, e, free => by
    simp only [roleRescueFree, Bool.and_eq_true] at free
    simp only [Executor.execRole]
    split
    · exact fun st _ => rule.refl st
    exact rule.andThen (rule.lift _ _)
      (rule.andThen (SuccessRule.execDependencies rule roleDependency e free.1) (rule.execBlocks block _ free.2))

theorem SuccessRule.execDependencies (rule : SuccessRule o R) : ∀ (roles : List Role) (e : RoleExecutor),
    rolesRescueFree roles = true → Succeeds R (execDependencies o e roles)
  | [], _, _ => by
    simp only [Executor.execDependencies]
    exact fun st _ => rule.refl st
  | dep :: deps, e, free => by
    simp only [rolesRescueFree, Bool.and_eq_true] at free
    simp only [Executor.execDependencies]
    exact rule.andThen (SuccessRule.execRole rule dep _ free.1) (SuccessRule.execDependencies rule deps e free.2)

end

theorem rolesRescueFree_mem {roles : List Role} (free : rolesRescueFree roles = true) :
    ∀ role ∈ roles, roleRescueFree role = true := by
  induction roles with
  | nil => exact fun role member => absurd member List.not_mem_nil
  | cons first rest ih =>
    simp only [rolesRescueFree, Bool.and_eq_true] at free
    intro role member
    rcases List.mem_cons.mp member with rfl | member
    · exact free.1
    · exact ih free.2 role member

theorem SuccessRule.execPlay (rule : SuccessRule o R) {play : Play} (free : playRescueFree play = true) :
    Succeeds R (execPlay o play) := by
  simp only [playRescueFree, Bool.and_eq_true] at free
  obtain ⟨⟨⟨pre, roles⟩, tasks⟩, post⟩ := free
  have batch : ∀ serials, Succeeds R (execBatch o play serials) := by
    intro serials
    unfold execBatch
    split
    · exact fun st _ => rule.refl st
    refine rule.andThen (rule.lift _ _) <| rule.andThen (rule.execBlocks _ _ pre) <| rule.andThen ?_ <|
      rule.andThen (rule.execBlocks _ _ tasks) (rule.execBlocks _ _ post)
    exact rule.execAll fun role member => rule.execRole role _ (rolesRescueFree_mem roles role member)
  intro st success
  unfold Executor.execPlay at success ⊢
  split at success
  · rename_i skipped
    rw [if_pos skipped]
    exact rule.refl st
  rename_i enabled
  rw [if_neg enabled]
  split at success
  · exact rule.refl st
  · refine rule.andThen ?_ ?_ st success
    · unfold dealGatherFacts
      split
      · exact rule.taskExecutorExec _
      · exact fun st _ => rule.refl st
    · intro st success
      dsimp only at success ⊢
      split at success
      · cases success
      · exact rule.execAll (fun serials _ => batch serials) st success

/-- What every call keeps that succeeds, a playbook without rescue sections keeps if it succeeds. -/
theorem SuccessRule.execPlaybook (rule : SuccessRule o R) {plays : List Play}
    (free : ∀ play ∈ plays, playRescueFree play = true) : Succeeds R (execPlaybook o plays) :=
  rule.execAll fun play member => rule.execPlay (free play member)

end Success

/-- Every task created has ended, and none has failed. -/
def Quiet (st st' : ExecState (Counting τ)) : Prop :=
  ∃ more, st'.created = st.created ++ more ∧
    st'.state.statistics.ended = st.state.statistics.ended + more.length ∧
    st'.state.statistics.failed = st.state.statistics.failed

theorem quiet_rule (w : Surroundings τ) : SuccessRule w.option Quiet where
  refl st := ⟨[], by simp⟩
  trans a b c first second := by
    obtain ⟨more, created, ended, failed⟩ := first
    obtain ⟨more', created', ended', failed'⟩ := second
    refine ⟨more ++ more', ?_, ?_, failed'.trans failed⟩
    · rw [created', created, List.append_assoc]
    · rw [ended', ended, List.length_append]
      push_cast
      omega
  mergeVars n hosts st := ⟨[], by simp [Surroundings.option]⟩
  task task st s created success := by
    obtain ⟨rfl, counts, -⟩ := w.runTask_counts created
    obtain ⟨failed, ended⟩ := counts.silent success
    exact ⟨[task], rfl, ended, failed⟩

/-- A playbook without rescue sections that ends without an error has no failed task: each task that it created
succeeded or was ignored. -/
theorem no_silent_failure (w : Surroundings τ) {plays : List Play} (free : ∀ play ∈ plays, playRescueFree play = true)
    (st : ExecState (Counting τ)) (success : (execPlaybook w.option plays st).1 = none) :
    Quiet st (execPlaybook w.option plays st).2 :=
  (quiet_rule w).execPlaybook free st success

/-- Every task goes through on its first attempt. -/
def quietSurroundings : Surroundings Unit :=
  ⟨quietOption, fun _ _ => { attempts := fun _ => { hosts := [{ host := "node1", item := fun _ => {} }] } },
    fun _ s => s⟩

theorem no_silent_failure_ignoring :
    Quiet ⟨⟨{}, ()⟩, []⟩ (execPlaybook quietSurroundings.option [ignoringPlay] ⟨⟨{}, ()⟩, []⟩).2 :=
  no_silent_failure quietSurroundings (by decide) _ rfl

example : (execPlaybook quietSurroundings.option [ignoringPlay] ⟨⟨{}, ()⟩, []⟩).2.state.statistics = ⟨1, 1, 0, 0⟩ := rfl

end KubeKey.Executor
