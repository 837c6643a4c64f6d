import KubeKey.Core.Hosts
import KubeKey.Core.Verdict

/-!
# Running a module that ignores errors

`Run` of `cmd/kk/pkg/core/module/task_module.go`, over tasks whose hosts were obtained from
`GetAllHosts`, which makes a fresh list, or from `GetHostsByRole`, which returns the slice
of the role itself. With `ignoreErr` a host that fails a remote task is deleted from the
runtime and the module goes on with the others.

Deleting a host moves the later hosts of its roles to the left in the arrays that the
other tasks of the module still read at full length, so a host that stood last in a role
when another was deleted is in such an array twice. And the test for an empty cluster
comes before the deletion that empties it. `module_fair` says exactly when neither does
harm.
-/

namespace KubeKey.Core

open KubeKey.Go

/-- Where the hosts of a remote task come from. -/
inductive Source where
  | all
  | role (name : String)
deriving DecidableEq, Repr

/-- A task of a module. -/
inductive Task where
  | remote (source : Source)
  | local
deriving DecidableEq, Repr

/-- The `Hosts` of a remote task: a list of its own, or a slice that others share. -/
inductive Hosts where
  | own (hosts : List (Option Host))
  | shared (s : Slice)
deriving Repr

/-- How the tasks of a module end, by their place in the module. The remote tasks give one result for each host they run
on, in some order, as `Execute` does. -/
structure Outcomes where
  onHosts : Nat → List (Option Host) → List ActionResult
  onLocal : Nat → ResultStatus
  each : ∀ k hosts, ((onHosts k hosts).map ActionResult.host).Perm hosts

/-- What a remote task did: the hosts it was given, those it ran on, and those that failed it. -/
structure Ran where
  targets : List String
  executed : List String
  failed : List String
deriving DecidableEq, Repr

/-- How a module ends. -/
inductive Ending where
  | success
  | failed
  | panicked
deriving DecidableEq, Repr

/-- Where the loop over the results of a task leads. -/
inductive Settled where
  | next (b : BaseRuntime) (status : ResultStatus)
  | errResult
  | panicked

namespace BaseRuntime

/-- The hosts that the `Init` of a module gives to a task. -/
def obtain (b : BaseRuntime) : Source → Hosts
  | .all => .own b.getAllHosts
  | .role name =>
    match b.getHostsByRole name with
    | some s => .shared s
    | none => .own []

/-- The hosts of a task at the time it is executed. -/
def read (b : BaseRuntime) : Hosts → List (Option Host)
  | .own hosts => hosts
  | .shared s => b.hosts s

/-- The loop of `Run` over the results of a task. -/
def settle (remote : Bool) : BaseRuntime → List ActionResult → ResultStatus → Settled
  | b, [], status => .next b status
  | b, ac :: rest, status =>
    match ac.host with
    | none => .panicked
    | some host =>
      if remote ∧ b.ignoreErr then
        if b.getAllHosts.length > 0 then
          if ac.status = .failed then
            match b.deleteHost host with
            | none => .panicked
            | some b => settle remote b rest .success
          else settle remote b rest status
        else .errResult
      else settle remote b rest status

end BaseRuntime

/-- The names of the hosts in a list. -/
def hostNames (hosts : List (Option Host)) : List String := hosts.filterMap fun h => h.map Host.name

/-- The names of the hosts that failed, in the order of the results. -/
def failedNames (results : List ActionResult) : List String :=
  hostNames ((results.filter fun ac => ac.status = .failed).map ActionResult.host)

/-- The status that `Execute` gives to a task. -/
def statusOf (results : List ActionResult) : ResultStatus :=
  if results.any fun ac => ac.status = .failed then .failed else .success

/-- The rest of a run after a remote task. -/
def Ran.andThen (ran : Ran) (rest : List Ran × Ending) : List Ran × Ending := (ran :: rest.1, rest.2)

/-- `Run` over the tasks from the `k`-th on. Each remote task has the hosts it was given and their names then. A failed
task of either kind ends the module. -/
def runTasks (outcomes : Outcomes) : Nat → List (Option (Hosts × List String)) → BaseRuntime → List Ran × Ending
  | _, [], _ => ([], .success)
  | k, none :: tasks, b =>
    let results := [⟨some ⟨"LocalHost", "", []⟩, outcomes.onLocal k, none⟩]
    match b.settle false results (statusOf results) with
    | .panicked => ([], .panicked)
    | .errResult => ([], .failed)
    | .next b status => if status = .failed then ([], .failed) else runTasks outcomes (k + 1) tasks b
  | k, some (hosts, targets) :: tasks, b =>
    let executed := (b.read hosts).filter fun h => !b.skips h
    let results := outcomes.onHosts k executed
    let ran : Ran := ⟨targets, hostNames executed, failedNames results⟩
    match b.settle true results (statusOf results) with
    | .panicked => ran.andThen ([], .panicked)
    | .errResult => ran.andThen ([], .failed)
    | .next b status =>
      if status = .failed then ran.andThen ([], .failed) else ran.andThen (runTasks outcomes (k + 1) tasks b)

/-- The tasks with the hosts that the module gives them before it runs. -/
def initTasks (b : BaseRuntime) (tasks : List Task) : List (Option (Hosts × List String)) :=
  tasks.map fun
    | .remote source => some (b.obtain source, hostNames (b.read (b.obtain source)))
    | .local => none

/-- The run of a module. -/
def runModule (outcomes : Outcomes) (tasks : List Task) (b : BaseRuntime) : List Ran × Ending :=
  runTasks outcomes 0 (initTasks b tasks) b

end KubeKey.Core
