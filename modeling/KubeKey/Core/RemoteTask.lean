import KubeKey.Go.Goroutine
import KubeKey.Core.Runtime

/-!
# Running a remote task on its hosts

`Execute` of `cmd/kk/pkg/core/task/remote_task.go`. The loop over the hosts adds each host
that is neither nil nor deprecated to a wait group and calls `RunWithTimeout` for it, in a
goroutine of its own if the task is parallel. `RunWithTimeout` is the waiter: it takes a
place in the pool, starts `Run` as the worker and waits for its error or for the timeout
of the task. Failures and timeouts are recorded by the waiter, successes and skips by the
worker. An action of the model is one step that other goroutines can see, and what a
connection, a pre-check or an action of the task returns is part of the action.
-/

namespace KubeKey.Core

open KubeKey.Go

/-- `ending.ResultStatus`. -/
inductive ResultStatus where
  | null
  | skipped
  | success
  | failed
deriving DecidableEq, Repr

/-- `ending.ActionResult`, without its times. -/
structure ActionResult where
  host : Option Host
  status : ResultStatus
  error : Option String
deriving DecidableEq, Repr

/-- `ending.TaskResult`, without its times. -/
structure TaskResult where
  actionResults : List ActionResult
  status : ResultStatus
deriving DecidableEq, Repr

namespace TaskResult

/-- `NewTaskResult`. -/
def new : TaskResult := ⟨[], .null⟩

def isFailed (t : TaskResult) : Bool := t.status = .failed

def errResult (t : TaskResult) : TaskResult := if t.status ≠ .null then t else { t with status := .failed }

def normalResult (t : TaskResult) : TaskResult := if t.status ≠ .null then t else { t with status := .success }

def appendSkip (t : TaskResult) (host : Option Host) : TaskResult :=
  { t with actionResults := t.actionResults ++ [⟨host, .skipped, none⟩] }

def appendSuccess (t : TaskResult) (host : Option Host) : TaskResult :=
  { t with actionResults := t.actionResults ++ [⟨host, .success, none⟩] }

def appendErr (t : TaskResult) (host : Option Host) (err : String) : TaskResult :=
  { actionResults := t.actionResults ++ [⟨host, .failed, some err⟩], status := .failed }

end TaskResult

/-- `RemoteTask`: the fields that decide how it runs. The timeout is given as `ShortDur` prints it. -/
structure RemoteTask where
  name : String
  hosts : List (Option Host)
  parallel : Bool
  retry : Int
  timeout : String
  hasRollback : Bool
deriving Repr

/-- `DefaultCon`. -/
def defaultCon : Nat := 10

namespace RemoteTask

/-- The number of attempts after `Default`. -/
def retries (t : RemoteTask) : Nat := if t.retry ≤ 0 then 3 else t.retry.toNat

/-- The host of a job. -/
def hostAt (t : RemoteTask) (i : Nat) : Option Host := (t.hosts[i]?).join

/-- A job of the task: an index whose host is neither nil nor deprecated. -/
def Job (t : RemoteTask) (rt : BaseRuntime) (i : Nat) : Prop := ∃ h, t.hosts[i]? = some h ∧ rt.skips h = false

end RemoteTask

/-- The wait group, the pool and the context that the goroutines of a task share. -/
structure Shared where
  counter : Int
  tokens : Nat
  closed : Bool
  /-- `ctx.Done()` is ready. -/
  expired : Bool
  /-- A goroutine panicked, which ends the program. -/
  panicked : Bool
deriving DecidableEq, Repr

namespace Shared

def new : Shared := ⟨0, 0, false, false, false⟩

/-- `wg.Add(1)`. -/
def add (s : Shared) : Shared := { s with counter := s.counter + 1 }

/-- `wg.Done()` panics below zero. -/
def done (s : Shared) : Shared :=
  { s with counter := s.counter - 1, panicked := s.panicked || decide (s.counter - 1 < 0) }

/-- `pool <- struct{}{}` blocks while the pool is full and panics on a closed pool. -/
def acquire (s : Shared) : Option Shared :=
  if s.closed then some { s with panicked := true }
  else if s.tokens < defaultCon then some { s with tokens := s.tokens + 1 }
  else none

/-- `<-pool` blocks while the pool is empty and open. -/
def release (s : Shared) : Option Shared :=
  if 0 < s.tokens then some { s with tokens := s.tokens - 1 }
  else if s.closed then some s
  else none

end Shared

/-- Where `RunWithTimeout` is for a host. -/
inductive Waiter where
  | idle
  | entering
  | selecting
  | failing (err : String)
  | leaving
  | finishing
  | finished
deriving DecidableEq, Repr

/-- The waiter is under way. -/
def Waiter.live : Waiter → Bool
  | .idle | .finished => false
  | _ => true

/-- Where `Run` is for a host. The numbers are the attempts made so far. -/
inductive Worker where
  | idle
  | connecting
  | checking (attempt : Nat)
  | executing (attempt : Nat)
  | skipping
  | succeeding
  | sending (res : Option String)
  | sent
deriving DecidableEq, Repr

/-- Where `Execute` is. -/
inductive Main where
  | loop (i : Nat)
  | added (i : Nat)
  | called (i : Nat)
  | waiting
  | judging
  | settling (failed : Bool)
  | cancelling
  | closing
  | returned
deriving DecidableEq, Repr

/-- An execution of a task. -/
structure Execution where
  main : Main
  waiter : Nat → Waiter
  worker : Nat → Worker
  shared : Shared
  result : TaskResult

/-- A call of `Execute` after `Init`. -/
def Execution.new : Execution := ⟨.loop 0, fun _ => .idle, fun _ => .idle, Shared.new, TaskResult.new⟩

/-- The actions of the goroutines, and the passing of the timeout. -/
inductive ExecAct where
  | main
  | enter (i : Nat)
  | timeout (i : Nat)
  | receive (i : Nat)
  | report (i : Nat)
  | leave (i : Nat)
  | finish (i : Nat)
  | connect (i : Nat) (err : Option String)
  | check (i : Nat) (reply : Except String Bool)
  | execute (i : Nat) (err : Option String)
  | append (i : Nat)
  | clock
deriving Repr

/-- The job that an action records a result for. -/
def ExecAct.records : ExecAct → Option Nat
  | .report i | .append i => some i
  | _ => none

/-- The worker does what the task is for. -/
def ExecAct.works : ExecAct → Bool
  | .connect _ _ | .check _ _ | .execute _ _ => true
  | _ => false

namespace RemoteTask

/-- A step of the goroutine of `Execute`. In sequence it runs the waiter itself, and goes on when that returns. -/
def mainStep (t : RemoteTask) (rt : BaseRuntime) (s : Execution) : Option Execution :=
  match s.main with
  | .loop i =>
    match t.hosts[i]? with
    | none => some { s with main := .waiting }
    | some h =>
      if rt.skips h then some { s with main := .loop (i + 1) }
      else some { s with main := .added i, shared := s.shared.add }
  | .added i =>
    some { s with main := if t.parallel then .loop (i + 1) else .called i,
                  waiter := Function.update s.waiter i .entering }
  | .called i => if s.waiter i = .finished then some { s with main := .loop (i + 1) } else none
  | .waiting => if s.shared.counter = 0 then some { s with main := .judging } else none
  | .judging => some { s with main := .settling s.result.isFailed }
  | .settling failed =>
    some { s with main := .cancelling, result := if failed then s.result.errResult else s.result.normalResult }
  | .cancelling => some { s with main := .closing, shared := { s.shared with expired := true } }
  | .closing => some { s with main := .returned, shared := { s.shared with closed := true } }
  | .returned => none

/-- `RunWithTimeout` up to the start of the worker. -/
def enter (s : Execution) (i : Nat) : Option Execution :=
  if s.waiter i = .entering then
    s.shared.acquire.map fun shared =>
      { s with shared := shared, waiter := Function.update s.waiter i .selecting,
               worker := Function.update s.worker i .connecting }
  else none

/-- The `select` of `RunWithTimeout` takes the timeout. -/
def timeOut (t : RemoteTask) (s : Execution) (i : Nat) : Option Execution :=
  if s.waiter i = .selecting ∧ s.shared.expired then
    some { s with waiter := Function.update s.waiter i (.failing ("execute task timeout, Timeout=" ++ t.timeout)) }
  else none

/-- The `select` of `RunWithTimeout` takes the result of the worker. -/
def receive (s : Execution) (i : Nat) : Option Execution :=
  match s.waiter i, s.worker i with
  | .selecting, .sending none =>
    some { s with waiter := Function.update s.waiter i .leaving, worker := Function.update s.worker i .sent }
  | .selecting, .sending (some err) =>
    some { s with waiter := Function.update s.waiter i (.failing err), worker := Function.update s.worker i .sent }
  | _, _ => none

/-- The waiter records a failure. -/
def report (t : RemoteTask) (s : Execution) (i : Nat) : Option Execution :=
  match s.waiter i with
  | .failing err =>
    some { s with waiter := Function.update s.waiter i .leaving, result := s.result.appendErr (t.hostAt i) err }
  | _ => none

/-- The waiter gives its place in the pool back. -/
def leave (s : Execution) (i : Nat) : Option Execution :=
  if s.waiter i = .leaving then
    s.shared.release.map fun shared =>
      { s with shared := shared, waiter := Function.update s.waiter i .finishing }
  else none

/-- The waiter is done. -/
def finish (s : Execution) (i : Nat) : Option Execution :=
  if s.waiter i = .finishing then
    some { s with shared := s.shared.done, waiter := Function.update s.waiter i .finished }
  else none

/-- `ConfigureSelfRuntime`. -/
def connect (t : RemoteTask) (s : Execution) (i : Nat) (err : Option String) : Option Execution :=
  if s.worker i = .connecting then
    match err with
    | none => some { s with worker := Function.update s.worker i (.checking 0) }
    | some e =>
      let address := ((t.hostAt i).map Host.address).getD ""
      some { s with worker := Function.update s.worker i (.sending (some s!"failed to connect to {address}: {e}")) }
  else none

/-- An attempt of `WhenWithRetry`. -/
def check (t : RemoteTask) (s : Execution) (i : Nat) (reply : Except String Bool) : Option Execution :=
  match s.worker i with
  | .checking k =>
    match reply with
    | .ok true => some { s with worker := Function.update s.worker i (.executing 0) }
    | .ok false => some { s with worker := Function.update s.worker i .skipping }
    | .error e =>
      if k + 1 < t.retries then some { s with worker := Function.update s.worker i (.checking (k + 1)) }
      else
        let err := s!"pre-check exec failed after {t.retries} retries" ++ e
        some { s with worker := Function.update s.worker i (.sending (some err)) }
  | _ => none

/-- An attempt of `ExecuteWithRetry`. -/
def attempt (t : RemoteTask) (s : Execution) (i : Nat) (err : Option String) : Option Execution :=
  match s.worker i with
  | .executing k =>
    match err with
    | none => some { s with worker := Function.update s.worker i .succeeding }
    | some e =>
      if k + 1 < t.retries then some { s with worker := Function.update s.worker i (.executing (k + 1)) }
      else
        let err := s!"[{t.name}] exec failed after {t.retries} retries: " ++ e
        some { s with worker := Function.update s.worker i (.sending (some err)) }
  | _ => none

/-- The worker records a skip or a success. -/
def append (t : RemoteTask) (s : Execution) (i : Nat) : Option Execution :=
  match s.worker i with
  | .skipping =>
    some { s with worker := Function.update s.worker i (.sending none), result := s.result.appendSkip (t.hostAt i) }
  | .succeeding =>
    some { s with worker := Function.update s.worker i (.sending none), result := s.result.appendSuccess (t.hostAt i) }
  | _ => none

/-- A step of an execution. -/
def step (t : RemoteTask) (rt : BaseRuntime) (s : Execution) (a : ExecAct) : Option Execution :=
  if s.shared.panicked then none
  else
    match a with
    | .main => mainStep t rt s
    | .enter i => enter s i
    | .timeout i => timeOut t s i
    | .receive i => receive s i
    | .report i => report t s i
    | .leave i => leave s i
    | .finish i => finish s i
    | .connect i err => connect t s i err
    | .check i reply => check t s i reply
    | .execute i err => attempt t s i err
    | .append i => append t s i
    | .clock => some { s with shared := { s.shared with expired := true } }

end RemoteTask

/-- The worker is between its start and its verdict. -/
def Worker.working : Worker → Bool
  | .connecting | .checking _ | .executing _ => true
  | _ => false

/-- The worker has started, has recorded nothing and still has to report its end. -/
def Worker.undecided : Worker → Bool
  | .idle | .sending none | .sent => false
  | _ => true

namespace RemoteTask

variable {t : RemoteTask} {rt : BaseRuntime}

/-- What a step can do: one constructor for each branch. -/
inductive Next (t : RemoteTask) (rt : BaseRuntime) (s : Execution) : ExecAct → Execution → Prop where
  | ended {i : Nat} (here : s.main = .loop i) (none : t.hosts[i]? = none) :
      Next t rt s .main { s with main := .waiting }
  | skipped {i : Nat} {h : Option Host} (here : s.main = .loop i) (host : t.hosts[i]? = some h)
      (skips : rt.skips h = true) : Next t rt s .main { s with main := .loop (i + 1) }
  | added {i : Nat} (here : s.main = .loop i) (job : t.Job rt i) :
      Next t rt s .main { s with main := .added i, shared := s.shared.add }
  | started {i : Nat} (here : s.main = .added i) :
      Next t rt s .main
        { s with main := if t.parallel then .loop (i + 1) else .called i,
                 waiter := Function.update s.waiter i .entering }
  | resumed {i : Nat} (here : s.main = .called i) (ended : s.waiter i = .finished) :
      Next t rt s .main { s with main := .loop (i + 1) }
  | joined (here : s.main = .waiting) (zero : s.shared.counter = 0) : Next t rt s .main { s with main := .judging }
  | judged (here : s.main = .judging) : Next t rt s .main { s with main := .settling s.result.isFailed }
  | settled {failed : Bool} (here : s.main = .settling failed) :
      Next t rt s .main
        { s with main := .cancelling, result := if failed then s.result.errResult else s.result.normalResult }
  | cancelled (here : s.main = .cancelling) :
      Next t rt s .main { s with main := .closing, shared := { s.shared with expired := true } }
  | closed (here : s.main = .closing) :
      Next t rt s .main { s with main := .returned, shared := { s.shared with closed := true } }
  | entered {i : Nat} {shared : Shared} (here : s.waiter i = .entering) (counter : shared.counter = s.shared.counter)
      (closed : shared.closed = s.shared.closed) (panics : shared.panicked = true → s.shared.closed = true) :
      Next t rt s (.enter i)
        { s with shared := shared, waiter := Function.update s.waiter i .selecting,
                 worker := Function.update s.worker i .connecting }
  | timedOut {i : Nat} {err : String} (here : s.waiter i = .selecting) :
      Next t rt s (.timeout i) { s with waiter := Function.update s.waiter i (.failing err) }
  | received {i : Nat} (here : s.waiter i = .selecting) (sends : s.worker i = .sending none) :
      Next t rt s (.receive i)
        { s with waiter := Function.update s.waiter i .leaving, worker := Function.update s.worker i .sent }
  | receivedErr {i : Nat} {err : String} (here : s.waiter i = .selecting) (sends : s.worker i = .sending (some err)) :
      Next t rt s (.receive i)
        { s with waiter := Function.update s.waiter i (.failing err), worker := Function.update s.worker i .sent }
  | reported {i : Nat} {err : String} (here : s.waiter i = .failing err) :
      Next t rt s (.report i)
        { s with waiter := Function.update s.waiter i .leaving, result := s.result.appendErr (t.hostAt i) err }
  | left {i : Nat} {shared : Shared} (here : s.waiter i = .leaving) (counter : shared.counter = s.shared.counter)
      (closed : shared.closed = s.shared.closed) (panics : shared.panicked = s.shared.panicked) :
      Next t rt s (.leave i) { s with shared := shared, waiter := Function.update s.waiter i .finishing }
  | finished {i : Nat} (here : s.waiter i = .finishing) :
      Next t rt s (.finish i) { s with shared := s.shared.done, waiter := Function.update s.waiter i .finished }
  | worked {i : Nat} {a : ExecAct} {k : Worker} (works : a.works = true) (here : (s.worker i).working = true)
      (goes : k.undecided = true) : Next t rt s a { s with worker := Function.update s.worker i k }
  | appended {i : Nat} {r : ActionResult} (here : (s.worker i).undecided = true) (host : r.host = t.hostAt i)
      (passed : r.status ≠ .failed) :
      Next t rt s (.append i)
        { s with worker := Function.update s.worker i (.sending none),
                 result := { s.result with actionResults := s.result.actionResults ++ [r] } }
  | ticked : Next t rt s .clock { s with shared := { s.shared with expired := true } }

/-- A step of the main goroutine. -/
theorem next_of_mainStep {s s' : Execution} (taken : mainStep t rt s = some s') : Next t rt s .main s' := by
  unfold mainStep at taken
  split at taken
  case h_1 i here =>
    split at taken
    · next none =>
      cases taken
      exact .ended here none
    · next h host =>
      split at taken
      · next skips =>
        cases taken
        exact .skipped here host skips
      · next runs =>
        cases taken
        exact .added here ⟨h, host, by simpa using runs⟩
  case h_2 i here =>
    cases taken
    exact .started here
  case h_3 i here =>
    split at taken
    · next ended =>
      cases taken
      exact .resumed here ended
    · cases taken
  case h_4 here =>
    split at taken
    · next zero =>
      cases taken
      exact .joined here zero
    · cases taken
  case h_5 here =>
    cases taken
    exact .judged here
  case h_6 failed here =>
    cases taken
    exact .settled here
  case h_7 here =>
    cases taken
    exact .cancelled here
  case h_8 here =>
    cases taken
    exact .closed here
  case h_9 here => cases taken

theorem acquire_counter {s s' : Shared} (taken : s.acquire = some s') (fine : s.panicked = false) :
    s'.counter = s.counter ∧ s'.closed = s.closed ∧ (s'.panicked = true → s.closed = true) := by
  unfold Shared.acquire at taken
  split at taken
  · next closed =>
    cases taken
    exact ⟨rfl, rfl, fun _ => closed⟩
  · split at taken
    · cases taken
      exact ⟨rfl, rfl, fun panics => absurd panics (by simp [fine])⟩
    · cases taken

theorem release_counter {s s' : Shared} (taken : s.release = some s') :
    s'.counter = s.counter ∧ s'.closed = s.closed ∧ s'.panicked = s.panicked := by
  unfold Shared.release at taken
  split at taken
  · cases taken
    exact ⟨rfl, rfl, rfl⟩
  · split at taken
    · cases taken
      exact ⟨rfl, rfl, rfl⟩
    · cases taken

/-- The waiter takes the result of the worker. -/
theorem next_of_receive {s s' : Execution} {i : Nat} (taken : receive s i = some s') : Next t rt s (.receive i) s' := by
  unfold receive at taken
  split at taken
  · next here sends =>
    cases taken
    exact .received here sends
  · next here sends =>
    cases taken
    exact .receivedErr here sends
  · cases taken

/-- The worker connects. -/
theorem next_of_connect {s s' : Execution} {i : Nat} {err : Option String} {a : ExecAct}
    (works : a.works = true) (taken : connect t s i err = some s') :
    Next t rt s a s' := by
  unfold connect at taken
  split at taken
  · next here =>
    have working : (s.worker i).working = true := by rw [here]; rfl
    cases err with
    | none =>
      cases taken
      exact .worked works working rfl
    | some e =>
      cases taken
      exact .worked works working rfl
  · cases taken

/-- The worker makes an attempt at its pre-check. -/
theorem next_of_check {s s' : Execution} {i : Nat} {reply : Except String Bool} {a : ExecAct}
    (works : a.works = true) (taken : check t s i reply = some s') :
    Next t rt s a s' := by
  unfold check at taken
  split at taken
  · next k here =>
    have working : (s.worker i).working = true := by rw [here]; rfl
    split at taken
    · cases taken
      exact .worked works working rfl
    · cases taken
      exact .worked works working rfl
    · split at taken
      · cases taken
        exact .worked works working rfl
      · cases taken
        exact .worked works working rfl
  · cases taken

/-- The worker makes an attempt at its action. -/
theorem next_of_attempt {s s' : Execution} {i : Nat} {err : Option String} {a : ExecAct}
    (works : a.works = true) (taken : attempt t s i err = some s') :
    Next t rt s a s' := by
  unfold attempt at taken
  split at taken
  · next k here =>
    have working : (s.worker i).working = true := by rw [here]; rfl
    split at taken
    · cases taken
      exact .worked works working rfl
    · split at taken
      · cases taken
        exact .worked works working rfl
      · cases taken
        exact .worked works working rfl
  · cases taken

/-- The worker records its verdict. -/
theorem next_of_append {s s' : Execution} {i : Nat} (taken : append t s i = some s') : Next t rt s (.append i) s' := by
  unfold append at taken
  split at taken
  · next here =>
    cases taken
    exact .appended (by rw [here]; rfl) rfl (by simp)
  · next here =>
    cases taken
    exact .appended (by rw [here]; rfl) rfl (by simp)
  · cases taken

theorem next_of_step {s s' : Execution} {a : ExecAct} (taken : step t rt s a = some s') : Next t rt s a s' := by
  unfold step at taken
  split at taken
  · cases taken
  next fine =>
  have fine : s.shared.panicked = false := by simpa using fine
  cases a with
  | main => exact next_of_mainStep taken
  | enter i =>
    simp only [enter] at taken
    split at taken
    · next here =>
      obtain ⟨shared, acquired, rfl⟩ := Option.map_eq_some_iff.mp taken
      obtain ⟨counter, closed, panics⟩ := acquire_counter acquired fine
      exact .entered here counter closed panics
    · cases taken
  | timeout i =>
    simp only [timeOut] at taken
    split at taken
    · next here =>
      cases taken
      exact .timedOut here.1
    · cases taken
  | receive i => exact next_of_receive taken
  | report i =>
    simp only [report] at taken
    split at taken
    · next err here =>
      cases taken
      exact .reported here
    · cases taken
  | leave i =>
    simp only [leave] at taken
    split at taken
    · next here =>
      obtain ⟨shared, released, rfl⟩ := Option.map_eq_some_iff.mp taken
      obtain ⟨counter, closed, panics⟩ := release_counter released
      exact .left here counter closed panics
    · cases taken
  | finish i =>
    simp only [finish] at taken
    split at taken
    · next here =>
      cases taken
      exact .finished here
    · cases taken
  | connect i err => exact next_of_connect rfl taken
  | check i reply => exact next_of_check rfl taken
  | execute i err => exact next_of_attempt rfl taken
  | append i => exact next_of_append taken
  | clock =>
    cases taken
    exact .ticked

end RemoteTask

end KubeKey.Core
