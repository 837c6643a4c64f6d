import KubeKey.Executor.Task
import KubeKey.Go.Fuel

/-!
# The retry loop

`pkg/executor/task_executor.go`, `api/core/v1alpha1/task_types.go`. `Exec` creates the task and
runs it until its status is complete: it has succeeded, or it has failed as often as its
retries allow. The loop has no bound of its own. It is given fuel here, and what the API
answers and what each attempt meets on the hosts are arbitrary sequences.

The measure of the loop is the number of retries that are left. The invariant (`Attempted`)
ties the status to the attempts made: all but the last have failed, the last one gives the
phase, and the restart count is one less than their number.
-/

namespace KubeKey.Executor

open KubeKey.Go KubeKey.Project

/-- `IsSucceed`. -/
def TaskStatus.isSucceed (status : TaskStatus) : Bool := status.phase = .success || status.phase = .ignored

/-- `IsFailed`. -/
def isFailed (task : Task) (status : TaskStatus) : Bool :=
  status.phase = .failed && decide (task.retries ≤ status.restartCount)

/-- `IsComplete`. -/
def isComplete (task : Task) (status : TaskStatus) : Bool := status.isSucceed || isFailed task status

/-- What one round of the loop meets: the answers of the API and the calls of each host. -/
structure AttemptCalls where
  /-- `Status().Patch` before the attempt. -/
  patchRunning : Option ErrText := none
  hosts : List HostCalls := []
  /-- `Status().Patch` after the attempt. -/
  patchResult : Option ErrText := none

/-- What one call of `Exec` meets. -/
structure ExecCalls where
  /-- `client.Create`. -/
  create : Option ErrText := none
  attempts : Nat → AttemptCalls

/-- All calls of the API succeed. -/
structure ExecCalls.Succeed (calls : ExecCalls) : Prop where
  create : calls.create = none
  running : ∀ n, (calls.attempts n).patchRunning = none
  result : ∀ n, (calls.attempts n).patchResult = none

/-- `PlaybookStatistics`. -/
structure Statistics where
  total : Int := 0
  success : Int := 0
  ignored : Int := 0
  failed : Int := 0
deriving DecidableEq

/-- The deferred function of `Exec`. -/
def Statistics.count (s : Statistics) (phase : TaskPhase) : Statistics :=
  let s := { s with total := s.total + 1 }
  match phase with
  | .success => { s with success := s.success + 1 }
  | .ignored => { s with ignored := s.ignored + 1 }
  | .failed => { s with failed := s.failed + 1 }
  | _ => s

/-- The task as the loop has it, and how often `execTask` was called. -/
structure LoopState where
  attempts : Nat := 0
  status : TaskStatus := {}
deriving DecidableEq

/-- The status in which an attempt starts. -/
def startAttempt (status : TaskStatus) : TaskStatus :=
  { status with
    restartCount := if status.phase = .failed then status.restartCount + 1 else status.restartCount
    phase := .running }

/-- `runTaskLoop`. -/
def runTaskLoop (task : Task) (attempts : Nat → AttemptCalls) : Nat → LoopState → Option (Option ExecErr × LoopState)
  | 0, _ => none
  | fuel + 1, st =>
    if isComplete task st.status then some (none, st)
    else
      let calls := attempts st.attempts
      let status := startAttempt st.status
      if calls.patchRunning.isSome then some (some (.patchTask task.name), { st with status := status })
      else
        let st := { attempts := st.attempts + 1, status := execTask task status calls.hosts }
        if calls.patchResult.isSome then some (some (.patchTask task.name), st)
        else runTaskLoop task attempts fuel st

/-- The lines of the hosts that have failed. -/
def failedMsg (status : TaskStatus) : String :=
  status.hostResults.foldl (fun msg result =>
    if result.stdErr = "" then msg else msg ++ "[" ++ result.host ++ "]: " ++ result.stdErr ++ "\n") "\n"

/-- What `Exec` leaves: its error, the status of the task and the statistics of the playbook. -/
structure ExecResult where
  err : Option ExecErr
  task : LoopState
  statistics : Statistics

/-- `Exec` of a task that has no status yet. -/
def execTaskWithRetries (task : Task) (calls : ExecCalls) (statistics : Statistics) (fuel : Nat) : Option ExecResult :=
  if calls.create.isSome then some ⟨some (.createTask task.name), {}, statistics⟩
  else do
    let (err, st) ← runTaskLoop task calls.attempts fuel {}
    let failed := if isFailed task st.status then some (.taskFailed task.name (failedMsg st.status)) else none
    some ⟨err.or failed, st, statistics.count st.status.phase⟩

section Attempts
variable {task : Task} {attempts : Nat → AttemptCalls}

/-- The phase in which the attempt ends. It does not depend on the status before. -/
def attemptPhase (task : Task) (attempts : Nat → AttemptCalls) (n : Nat) : TaskPhase :=
  (execTask task {} (attempts n).hosts).phase

theorem execTask_phase (task : Task) (status : TaskStatus) (calls : List HostCalls) :
    (execTask task status calls).phase = (execTask task {} calls).phase := rfl

theorem attemptPhase_cases (task : Task) (attempts : Nat → AttemptCalls) (n : Nat) :
    attemptPhase task attempts n = .success ∨ attemptPhase task attempts n = .ignored ∨
      attemptPhase task attempts n = .failed := by
  unfold attemptPhase execTask
  dsimp only
  split
  · exact .inl rfl
  · split
    · exact .inr (.inl rfl)
    · exact .inr (.inr rfl)

/-- A task ends with one of three phases. -/
theorem Statistics.count_cases (s : Statistics) {phase : TaskPhase}
    (ended : phase = .success ∨ phase = .ignored ∨ phase = .failed) :
    s.count phase = { s with total := s.total + 1, success := s.success + 1 } ∧ phase = .success ∨
      s.count phase = { s with total := s.total + 1, ignored := s.ignored + 1 } ∧ phase = .ignored ∨
      s.count phase = { s with total := s.total + 1, failed := s.failed + 1 } ∧ phase = .failed := by
  obtain rfl | rfl | rfl := ended
  · exact .inl ⟨rfl, rfl⟩
  · exact .inr (.inl ⟨rfl, rfl⟩)
  · exact .inr (.inr ⟨rfl, rfl⟩)

/-- The status after the attempts made so far. -/
structure Attempted (task : Task) (attempts : Nat → AttemptCalls) (st : LoopState) : Prop where
  first : st.attempts = 0 → st.status = {}
  last : ∀ n, st.attempts = n + 1 → st.status.phase = attemptPhase task attempts n ∧ st.status.restartCount = n
  earlier : ∀ n, n + 1 < st.attempts → attemptPhase task attempts n = .failed
  bound : (st.attempts : Int) ≤ max task.retries 0 + 1

/-- One more attempt is made only of a task that has failed with retries left, or not been tried. -/
theorem Attempted.round {st : LoopState} (attempted : Attempted task attempts st)
    (incomplete : isComplete task st.status = false) : Attempted task attempts
      { attempts := st.attempts + 1, status := execTask task (startAttempt st.status) (attempts st.attempts).hosts } := by
  obtain ⟨n, status⟩ := st
  cases n with
  | zero =>
    have fresh : status = {} := attempted.first rfl
    subst fresh
    refine ⟨fun none => absurd none (by simp), fun n same => ?_, fun n before => absurd before (by simp), ?_⟩
    · obtain rfl : n = 0 := by simpa using same.symm
      exact ⟨rfl, rfl⟩
    · dsimp only
      omega
  | succ n =>
    obtain ⟨phase, restarts⟩ := attempted.last n rfl
    dsimp only at phase restarts incomplete
    -- the attempt before has failed, and its restart count is below the retries
    have failed : status.phase = .failed := by
      obtain success | ignored | failed := attemptPhase_cases task attempts n
      · simp [isComplete, TaskStatus.isSucceed, phase, success] at incomplete
      · simp [isComplete, TaskStatus.isSucceed, phase, ignored] at incomplete
      · exact phase.trans failed
    have left : (n : Int) < task.retries := by
      simp only [isComplete, isFailed, TaskStatus.isSucceed, failed, restarts, Bool.or_eq_false_iff] at incomplete
      simpa using incomplete.2
    refine ⟨fun none => absurd none (by simp), fun m same => ?_, fun m before => ?_, ?_⟩
    · obtain rfl : m = n + 1 := by simpa using same.symm
      refine ⟨rfl, ?_⟩
      simp only [execTask, startAttempt, failed, if_true, restarts]
      omega
    · dsimp only at before
      obtain rfl | earlier : m = n ∨ m + 1 < n + 1 := by omega
      · exact phase.symm.trans failed
      · exact attempted.earlier m earlier
    · dsimp only
      omega

/-- The attempts that the loop makes, and how it leaves the task. -/
structure Finishes (task : Task) (attempts : Nat → AttemptCalls) (st : LoopState) : Prop extends
    Attempted task attempts st where
  complete : isComplete task st.status = true

/-- With answers from the API the loop ends, on fuel for every retry that is left. -/
theorem runTaskLoop_finishes (calls : ∀ n, (attempts n).patchRunning = none ∧ (attempts n).patchResult = none) :
    ∀ {fuel : Nat} {st : LoopState}, Attempted task attempts st → max task.retries 0 + 1 < st.attempts + fuel →
      ∃ st', runTaskLoop task attempts fuel st = some (none, st') ∧ Finishes task attempts st' := by
  intro fuel
  induction fuel with
  | zero =>
    intro st attempted enough
    have bound := attempted.bound
    omega
  | succ fuel ih =>
    intro st attempted enough
    rw [runTaskLoop]
    by_cases complete : isComplete task st.status = true
    · exact ⟨st, by rw [if_pos complete], attempted, complete⟩
    · have incomplete : isComplete task st.status = false := by simpa using complete
      rw [if_neg complete]
      obtain ⟨running, result⟩ := calls st.attempts
      simp only [running, result, Option.isSome_none, Bool.false_eq_true, if_false]
      refine ih (attempted.round incomplete) ?_
      push_cast at enough ⊢
      omega

end Attempts

/-- One round of `runTaskLoop`, and the rest of the loop. -/
def runTaskLoopBody (task : Task) (attempts : Nat → AttemptCalls)
    (call : LoopState → Option (Option ExecErr × LoopState)) (st : LoopState) : Option (Option ExecErr × LoopState) :=
  if isComplete task st.status then some (none, st)
  else
    let calls := attempts st.attempts
    let status := startAttempt st.status
    if calls.patchRunning.isSome then some (some (.patchTask task.name), { st with status := status })
    else
      let st := { attempts := st.attempts + 1, status := execTask task status calls.hosts }
      if calls.patchResult.isSome then some (some (.patchTask task.name), st)
      else call st

theorem runTaskLoop_levels (task : Task) (attempts : Nat → AttemptCalls) :
    Levels (runTaskLoopBody task attempts) (runTaskLoop task attempts) where
  zero _ := rfl
  succ _ _ := rfl
  keeps x y keeps st r run := by
    unfold runTaskLoopBody at run ⊢
    split
    · next complete => rwa [if_pos complete] at run
    · next incomplete =>
      rw [if_neg incomplete] at run
      dsimp only at run ⊢
      split
      · next fails => rwa [if_pos fails] at run
      · next answers =>
        rw [if_neg answers] at run
        split
        · next fails => rwa [if_pos fails] at run
        · next answers' =>
          rw [if_neg answers'] at run
          exact keeps _ r run

/-- The loop ends, the same on any fuel that is enough. -/
theorem runTaskLoop_returns (task : Task) {calls : ExecCalls} (api : calls.Succeed) :
    ∃ st, Finishes task calls.attempts st ∧ ∀ fuel : Nat, max task.retries 0 + 1 < fuel →
      runTaskLoop task calls.attempts fuel {} = some (none, st) := by
  have start : Attempted task calls.attempts {} :=
    ⟨fun _ => rfl, fun n same => absurd same (by simp), fun n before => absurd before (by simp), by dsimp only; omega⟩
  have enough : max task.retries 0 + 1 < ((0 : Nat) : Int) + ((max task.retries 0 + 2).toNat : Int) := by omega
  obtain ⟨st, run, finishes⟩ := runTaskLoop_finishes (fun n => ⟨api.running n, api.result n⟩) start enough
  refine ⟨st, finishes, fun fuel more => ?_⟩
  exact (runTaskLoop_levels task calls.attempts).more (by omega) run

section Finished
variable {task : Task} {attempts : Nat → AttemptCalls} {st : LoopState} {n : Nat}

/-- A task that is complete has been tried. -/
theorem Finishes.tried (finishes : Finishes task attempts st) : ∃ n, st.attempts = n + 1 := by
  obtain zero | succ := Nat.eq_zero_or_eq_succ_pred st.attempts
  · have complete := finishes.complete
    rw [finishes.first zero] at complete
    simp [isComplete, isFailed, TaskStatus.isSucceed] at complete
  · exact ⟨_, succ⟩

/-- A complete task has failed for good exactly if its last attempt has. -/
theorem Finishes.isFailed_iff (finishes : Finishes task attempts st) (tried : st.attempts = n + 1) :
    isFailed task st.status = true ↔ attemptPhase task attempts n = .failed := by
  obtain ⟨phase, _⟩ := finishes.last n tried
  have complete := finishes.complete
  constructor
  · intro failed
    rw [isFailed, Bool.and_eq_true, decide_eq_true_eq] at failed
    exact phase.symm.trans failed.1
  · intro failed
    rw [isComplete, TaskStatus.isSucceed, phase, failed] at complete
    simpa using complete

/-- The last of the attempts fails only if no retry is left. -/
theorem Finishes.exhausted (finishes : Finishes task attempts st) (tried : st.attempts = n + 1)
    (failed : attemptPhase task attempts n = .failed) : ((n + 1 : Nat) : Int) = max task.retries 0 + 1 := by
  obtain ⟨_, restarts⟩ := finishes.last n tried
  have given := (finishes.isFailed_iff tried).2 failed
  rw [isFailed, Bool.and_eq_true, decide_eq_true_eq, decide_eq_true_eq, restarts] at given
  have bound := finishes.bound
  rw [tried] at bound
  have none_left := given.2
  push_cast at bound ⊢
  omega

end Finished

/-- With answers from the API, `Exec` makes at most one attempt and one for each retry, up to the first that does not
fail. -/
theorem exec_retries (task : Task) {calls : ExecCalls} (api : calls.Succeed) (statistics : Statistics) :
    ∃ (n : Nat) (result : ExecResult),
      (∀ fuel : Nat, max task.retries 0 + 1 < fuel → execTaskWithRetries task calls statistics fuel = some result) ∧
      result.task.attempts = n + 1 ∧ ((n + 1 : Nat) : Int) ≤ max task.retries 0 + 1 ∧
      (∀ m < n, attemptPhase task calls.attempts m = .failed) ∧
      (attemptPhase task calls.attempts n = .failed → ((n + 1 : Nat) : Int) = max task.retries 0 + 1) ∧
      result.task.status.phase = attemptPhase task calls.attempts n ∧ result.task.status.restartCount = n ∧
      (result.err.isSome ↔ attemptPhase task calls.attempts n = .failed) ∧
      (result.statistics = { statistics with total := statistics.total + 1, success := statistics.success + 1 } ∨
        result.statistics = { statistics with total := statistics.total + 1, ignored := statistics.ignored + 1 } ∨
        result.statistics = { statistics with total := statistics.total + 1, failed := statistics.failed + 1 }) := by
  obtain ⟨st, finishes, run⟩ := runTaskLoop_returns task api
  obtain ⟨n, tried⟩ := finishes.tried
  obtain ⟨phase, restarts⟩ := finishes.last n tried
  have bound := finishes.bound
  rw [tried] at bound
  let failed : Option ExecErr :=
    if isFailed task st.status then some (.taskFailed task.name (failedMsg st.status)) else none
  refine ⟨n, ⟨none.or failed, st, statistics.count st.status.phase⟩, fun fuel enough => ?_, tried, bound,
    fun m before => finishes.earlier m (by omega), finishes.exhausted tried, phase, restarts, ?_, ?_⟩
  · rw [execTaskWithRetries, api.create, run fuel enough]
    rfl
  · rw [← finishes.isFailed_iff tried, Option.none_or]
    dsimp only [failed]
    split
    · next gone => simp [gone]
    · next done => simp [done]
  · have ended := attemptPhase_cases task calls.attempts n
    rw [← phase] at ended
    obtain ⟨success, _⟩ | ⟨ignored, _⟩ | ⟨failed, _⟩ := statistics.count_cases ended
    · exact .inl success
    · exact .inr (.inl ignored)
    · exact .inr (.inr failed)

/-- A task with two retries. -/
def retried : Task where
  name := "wait"
  hosts := ["node1"]
  retries := 2
  module := { name := "command" }

/-- The module fails in the first attempt only. -/
def secondTry : ExecCalls where
  attempts := fun n => { hosts := [{ host := "node1", item := fun _ => { module := ("", if n = 0 then "no" else "") } }] }

theorem secondTry_succeed : secondTry.Succeed := ⟨rfl, fun _ => rfl, fun _ => rfl⟩

theorem exec_retries_secondTry : secondTry.Succeed ∧ ∃ (n : Nat) (result : ExecResult),
    (∀ fuel : Nat, max retried.retries 0 + 1 < fuel → execTaskWithRetries retried secondTry {} fuel = some result) ∧
    result.task.attempts = n + 1 ∧ ((n + 1 : Nat) : Int) ≤ max retried.retries 0 + 1 ∧
    (∀ m < n, attemptPhase retried secondTry.attempts m = .failed) ∧
    (attemptPhase retried secondTry.attempts n = .failed → ((n + 1 : Nat) : Int) = max retried.retries 0 + 1) ∧
    result.task.status.phase = attemptPhase retried secondTry.attempts n ∧ result.task.status.restartCount = n ∧
    (result.err.isSome ↔ attemptPhase retried secondTry.attempts n = .failed) ∧
    (result.statistics = { ({} : Statistics) with total := 0 + 1, success := 0 + 1 } ∨
      result.statistics = { ({} : Statistics) with total := 0 + 1, ignored := 0 + 1 } ∨
      result.statistics = { ({} : Statistics) with total := 0 + 1, failed := 0 + 1 }) :=
  ⟨secondTry_succeed, exec_retries retried secondTry_succeed {}⟩

example : (execTaskWithRetries retried secondTry {} 4).map (fun r => (r.task.attempts, r.task.status.restartCount)) =
    some (2, 1) := by decide

end KubeKey.Executor
