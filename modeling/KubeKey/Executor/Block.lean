import KubeKey.Project.Play

/-!
# The block executor

`pkg/executor/block_executor.go`, `pkg/converter/converter.go`. What the executor
calls is given by `ExecOption`, over an arbitrary state: the variable store with
the text of the vars nodes, and whatever the modules act on. A run returns its
error and the state it leaves, with the tasks created so far.

The executor appends to slices it shares with its caller. Each use of such a
slice ends before the next append, so lists model them.
-/

namespace KubeKey.Executor

open KubeKey.Go KubeKey.Project

/-- The errors of the executors. -/
inductive ExecErr where
  | variable (msg : String)
  | marshalField (block field : String)
  | noModule (relPath task : String)
  | ownerReference (block : String)
  | createTask (task : String)
  | patchTask (task : String)
  | taskFailed (task msg : String)
  | hostIsEmpty
  | serial (msg : String)
  | join (errs : List ExecErr)

/-- `Module` of a task: its name and its JSON arguments. -/
structure Module where
  name : String := ""
  args : String := ""
deriving DecidableEq

/-- `Task`, as it is created. -/
structure Task where
  name : String := ""
  hosts : List String := []
  delegateTo : String := ""
  ignoreError : Option Bool := none
  retries : Int := 0
  when : List String := []
  failedWhen : List String := []
  loop : Option String := none
  module : Module := {}
  register : String := ""
  registerType : String := ""
  relPath : String := ""
deriving DecidableEq

/-- What the executors are given (`option`), over the state `σ` of everything else. -/
structure ExecOption (σ : Type) where
  onlyTags : List String
  skipTags : List String
  /-- `variable.Merge(MergeRuntimeVariable(vars, hosts...))`. -/
  mergeVars : Nat → List String → σ → Option ExecErr × σ
  /-- `variable.Get(GetHostnames(patterns))`. -/
  getHostnames : List String → σ → Except ExecErr (List String)
  /-- `converter.GroupHostBySerial`. -/
  groupHostBySerial : List String → List SerialItem → Except ExecErr (List (List String))
  /-- `json.Marshal`. -/
  marshal : Lit → Option String
  /-- `modules.FindModule(name) != nil`. -/
  findModule : String → Bool
  /-- `ctrl.SetControllerReference`. -/
  setOwner : Task → Option ExecErr
  /-- `client.Create`. -/
  create : Task → σ → Option ExecErr × σ
  /-- The rest of `taskExecutor.Exec`: the attempts, and the error of a task that failed. -/
  runTask : Task → σ → Option ExecErr × σ

/-- The state of a run and the tasks created so far. -/
structure ExecState (σ : Type) where
  state : σ
  created : List Task

/-- A part of a run: its error and the state it leaves. -/
abbrev Exec (σ : Type) := ExecState σ → Option ExecErr × ExecState σ

section
variable {σ : Type}

/-- Go on with `next` unless `first` fails. -/
def Exec.andThen (first next : Exec σ) : Exec σ := fun st =>
  match first st with
  | (some err, st) => (some err, st)
  | (none, st) => next st

/-- A call that leaves the created tasks alone. -/
def Exec.lift (f : σ → Option ExecErr × σ) : Exec σ := fun st =>
  ((f st.state).1, { st with state := (f st.state).2 })

/-- `taskExecutor.Exec`. -/
def taskExecutorExec (o : ExecOption σ) (task : Task) : Exec σ := fun st =>
  match o.create task st.state with
  | (some err, s) => (some err, { st with state := s })
  | (none, s) => Exec.lift (o.runTask task) ⟨s, st.created ++ [task]⟩

/-- The relative path that the project loader notes in a block. -/
def relPathOf (unknownField : GoMap Lit) : String :=
  match unknownField.get? "annotations" with
  | some (.map .string entries) => match entries.lookup "kubesphere.io/rel-path" with
    | some (.scalar (.str s)) => s
    | _ => ""
  | _ => ""

/-- `MarshalBlock`. -/
def marshalBlock (marshal : Lit → Option String) (hosts when : List String) (block : BlockHead) : Task where
  name := block.name
  hosts := hosts
  delegateTo := block.delegateTo
  ignoreError := block.ignoreErrors
  retries := block.retries
  when := when
  failedWhen := block.failedWhen
  loop := block.loop.bind marshal
  register := block.register
  registerType := block.registerType
  relPath := relPathOf block.unknownField

/-- The loop of `dealTask`: the first field that names a module. Every field up to it must marshal. -/
def completeModule (o : ExecOption σ) (block : String) : List (String × Lit) → Except ExecErr Module
  | [] => .ok {}
  | (n, a) :: rest =>
    match o.marshal a with
    | none => .error (.marshalField block n)
    | some data => if o.findModule n then .ok ⟨n, data⟩ else completeModule o block rest

/-- `dealTask`. -/
def dealTask (o : ExecOption σ) (hosts when : List String) (block : BlockHead) : Exec σ := fun st =>
  let task := marshalBlock o.marshal hosts when block
  match completeModule o block.name block.unknownField.entries with
  | .error err => (some err, st)
  | .ok module =>
    if module.name = "" then (some (.noModule task.relPath task.name), st)
    else
      let task := { task with module := module }
      match o.setOwner task with
      | some err => (some err, st)
      | none => taskExecutorExec o task st

/-- `blockExecutor` without the blocks it runs. -/
structure BlockExecutor where
  hosts : List String
  ignoreErrors : Option Bool := none
  role : String := ""
  when : List String := []
  tags : List String := []

namespace BlockExecutor

/-- `dealRunOnce`. The hosts of a batch are never empty. -/
def dealRunOnce (e : BlockExecutor) (runOnce : Bool) : List String := if runOnce then e.hosts.take 1 else e.hosts

/-- `dealIgnoreErrors`. -/
def dealIgnoreErrors (e : BlockExecutor) (ie : Option Bool) : Option Bool := ie.or e.ignoreErrors

/-- `dealTags`. -/
def dealTags (e : BlockExecutor) (tags : List String) : List String := joinTag tags e.tags

/-- `dealWhen`: append the conditions that are not there yet. -/
def dealWhen (e : BlockExecutor) (when : List String) : List String :=
  when.foldl (fun w d => if d ∈ w then w else w ++ [d]) e.when

/-- The executor of the sections of a block. -/
def inner (e : BlockExecutor) (head : BlockHead) : BlockExecutor where
  hosts := e.dealRunOnce head.runOnce
  ignoreErrors := e.dealIgnoreErrors head.ignoreErrors
  role := e.role
  when := e.dealWhen head.when
  tags := e.dealTags head.tags

end BlockExecutor

/-- `errors.Join(errs, err)`. -/
def joinErr (errs : Option ExecErr) (err : ExecErr) : ExecErr := .join (errs.toList ++ [err])

/-- `dealBlock`, on the runs of its sections; `none` for a section that is empty. -/
def dealBlock (block : Exec σ) (rescue always : Option (Exec σ)) : Exec σ := fun st =>
  let (errs, st) := match block st with
    | (none, st) => (none, st)
    | (some err, st) => match rescue with
      | some rescue => match rescue st with
        | (some err, st) => (some (joinErr none err), st)
        | (none, st) => (none, st)
      | none => (some (joinErr none err), st)
  match always with
  | none => (errs, st)
  | some always => match always st with
    | (some err, st) => (some (joinErr errs err), st)
    | (none, st) => (errs, st)

mutual

/-- `blockExecutor.Exec`. -/
def execBlocks (o : ExecOption σ) (e : BlockExecutor) : List Block → Exec σ
  | [] => fun st => (none, st)
  | block :: blocks => (execElement o e block).andThen (execBlocks o e blocks)

/-- One round of the loop of `blockExecutor.Exec`. -/
def execElement (o : ExecOption σ) (e : BlockExecutor) : Block → Exec σ
  | .mk head block rescue always =>
    let sub := e.inner head
    if !isEnabled sub.tags o.onlyTags o.skipTags then fun st => (none, st)
    else (Exec.lift (o.mergeVars head.vars sub.hosts)).andThen <|
      if !block.isEmpty then
        dealBlock (execBlocks o sub block)
          (if rescue.isEmpty then none else some (execBlocks o sub rescue))
          (if always.isEmpty then none else some (execBlocks o sub always))
      -- an included file has been inlined by the project loader
      else if head.includeTasks ≠ "" then fun st => (none, st)
      else dealTask o sub.hosts sub.when head

end

end

end KubeKey.Executor
