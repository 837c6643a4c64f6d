import KubeKey.Executor.Block

/-!
# The role and playbook executors

`pkg/executor/role_executor.go`, `pkg/executor/playbook_executor.go`.
-/

namespace KubeKey.Executor

open KubeKey.Go KubeKey.Project

section
variable {σ : Type}

/-- `roleExecutor` without the role it runs. -/
structure RoleExecutor where
  hosts : List String
  ignoreErrors : Option Bool := none
  when : List String := []
  tags : List String := []

namespace RoleExecutor

/-- `dealIgnoreErrors`. -/
def dealIgnoreErrors (e : RoleExecutor) (ie : Option Bool) : Option Bool := ie.or e.ignoreErrors

/-- `dealTags`. -/
def dealTags (e : RoleExecutor) (tags : List String) : List String := joinTag tags e.tags

/-- `dealWhen`. -/
def dealWhen (e : RoleExecutor) (when : List String) : List String :=
  when.foldl (fun w d => if d ∈ w then w else w ++ [d]) e.when

/-- The executor of a role that this one depends on. -/
def dependency (e : RoleExecutor) (dep : RoleHead) : RoleExecutor where
  hosts := e.hosts
  ignoreErrors := e.dealIgnoreErrors dep.ignoreErrors
  when := e.dealWhen dep.when
  tags := e.dealTags dep.tags

/-- The executor of the blocks of the role: it is given the conditions of the role itself. -/
def blocks (e : RoleExecutor) (role : RoleHead) : BlockExecutor where
  hosts := e.hosts
  ignoreErrors := e.ignoreErrors
  role := role.role
  when := role.when
  tags := e.tags

end RoleExecutor

mutual

/-- `roleExecutor.Exec`. -/
def execRole (o : ExecOption σ) (e : RoleExecutor) : Role → Exec σ
  | .mk head roleDependency block =>
    if !isEnabled e.tags o.onlyTags o.skipTags then fun st => (none, st)
    else (Exec.lift (o.mergeVars head.vars e.hosts)).andThen <|
      (execDependencies o e roleDependency).andThen <|
        execBlocks o (e.blocks head) block

/-- The loop over the roles that a role depends on. -/
def execDependencies (o : ExecOption σ) (e : RoleExecutor) : List Role → Exec σ
  | [] => fun st => (none, st)
  | dep :: deps => (execRole o (e.dependency dep.head) dep).andThen (execDependencies o e deps)

end

/-- Run one part after the other until one fails. -/
def execAll {α : Type} (f : α → Exec σ) : List α → Exec σ
  | [] => fun st => (none, st)
  | a :: rest => (f a).andThen (execAll f rest)

/-- The executor of the task lists of a play. -/
def playBlocks (play : Play) (serials : List String) : BlockExecutor where
  hosts := serials
  ignoreErrors := play.ignoreErrors
  tags := play.tags

/-- The executor of a role of a play. -/
def playRole (play : Play) (serials : List String) (role : RoleHead) : RoleExecutor where
  hosts := serials
  ignoreErrors := role.ignoreErrors.or play.ignoreErrors
  when := role.when
  tags := joinTag role.tags play.tags

/-- One round of `execBatchHosts`. -/
def execBatch (o : ExecOption σ) (play : Play) (serials : List String) : Exec σ :=
  if serials.isEmpty then fun st => (some .hostIsEmpty, st)
  else (Exec.lift (o.mergeVars play.vars serials)).andThen <|
    (execBlocks o (playBlocks play serials) play.preTasks).andThen <|
    (execAll (fun role => execRole o (playRole play serials role.head) role) play.roles).andThen <|
    (execBlocks o (playBlocks play serials) play.tasks).andThen <|
      execBlocks o (playBlocks play serials) play.postTasks

/-- `execBatchHosts`. -/
def execBatchHosts (o : ExecOption σ) (play : Play) (batchHosts : List (List String)) : Exec σ :=
  execAll (execBatch o play) batchHosts

/-- The task of `dealGatherFacts`. -/
def gatherFactsTask (hosts : List String) : Task where
  name := "gather_facts"
  hosts := hosts
  module := { name := "setup" }

/-- `dealGatherFacts`. -/
def dealGatherFacts (o : ExecOption σ) (gatherFacts : Bool) (hosts : List String) : Exec σ :=
  if gatherFacts then taskExecutorExec o (gatherFactsTask hosts) else fun st => (none, st)

/-- `dealHosts`: the hosts of a play, `none` when the play is skipped. -/
def dealHosts (o : ExecOption σ) (patterns : List String) (s : σ) : Option (List String) :=
  match o.getHostnames patterns s with
  | .ok hosts => if hosts.isEmpty then none else some hosts
  | .error _ => none

/-- `dealSerial` and `dealRunOnce`. -/
def dealBatches (o : ExecOption σ) (play : Play) (hosts : List String) : Except ExecErr (List (List String)) := do
  let batchHosts ← o.groupHostBySerial hosts play.serial
  .ok (if play.runOnce then [hosts.take 1] else batchHosts)

/-- One round of the loop of `playbookExecutor.Exec`. -/
def execPlay (o : ExecOption σ) (play : Play) : Exec σ := fun st =>
  if !isEnabled play.tags o.onlyTags o.skipTags then (none, st)
  else match dealHosts o play.hosts st.state with
    | none => (none, st)
    | some hosts =>
      Exec.andThen (dealGatherFacts o play.gatherFacts hosts) (fun st =>
        match dealBatches o play hosts with
        | .error err => (some err, st)
        | .ok batchHosts => execBatchHosts o play batchHosts st) st

/-- `playbookExecutor.Exec` on the plays of a loaded playbook. -/
def execPlaybook (o : ExecOption σ) (plays : List Play) : Exec σ := execAll (execPlay o) plays

end

end KubeKey.Executor
