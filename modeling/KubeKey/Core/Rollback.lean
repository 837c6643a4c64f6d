import Mathlib.Data.Nat.Find
import KubeKey.Core.RemoteTask

/-!
# Rolling a failed task back

`ExecuteRollback` of `cmd/kk/pkg/core/task/remote_task.go` runs the rollback of the task
for every result whose host is neither nil nor deprecated. It is built as `Execute` is,
but it calls `RollbackWithTimeout` before it adds the call to the wait group. The call
ends with `Done`, so in sequence the counter falls below zero at once, and in parallel
whenever a rollback ends before the loop has come to its `Add`. All interleavings are fine
only if there is nothing to roll back (`rollback_joins`); one interleaving is fine as long
as every rollback is added before it ends.

The waiters log a failure under the name of the host their worker connected to, which is
a nil dereference if the worker has not connected.
-/

namespace KubeKey.Core

open KubeKey.Go

/-- Where `RunRollback` is for a result. -/
inductive RollbackWorker where
  | idle
  | connecting
  | rolling
  | sending (res : Option String)
  | sent
deriving DecidableEq, Repr

/-- Where `ExecuteRollback` is. -/
inductive RollbackMain where
  | loop (i : Nat)
  | called (i : Nat)
  | started (i : Nat)
  | waiting
  | closing
  | cancelling
  | returned
deriving DecidableEq, Repr

/-- A rollback of a task. -/
structure Rollback where
  main : RollbackMain
  waiter : Nat → Waiter
  worker : Nat → RollbackWorker
  /-- The runtime of the result has a runner. -/
  runner : Nat → Bool
  shared : Shared

/-- The actions of the goroutines, and the passing of the timeout. -/
inductive RollbackAct where
  | main
  | enter (i : Nat)
  | timeout (i : Nat)
  | receive (i : Nat)
  | log (i : Nat)
  | leave (i : Nat)
  | finish (i : Nat)
  | connect (i : Nat) (err : Option String)
  | execute (i : Nat) (err : Option String)
  | clock
deriving Repr

namespace RemoteTask

/-- `ExecuteRollback` up to its loop. -/
def rollback (t : RemoteTask) (result : TaskResult) : Rollback where
  main := if t.hasRollback ∧ result.isFailed then .loop 0 else .returned
  waiter _ := .idle
  worker _ := .idle
  runner _ := false
  shared := Shared.new

variable (t : RemoteTask) (rt : BaseRuntime) (result : TaskResult)

/-- A step of the goroutine of `ExecuteRollback`. In sequence it runs the waiter itself. -/
def rollbackMain (s : Rollback) : Option Rollback :=
  match s.main with
  | .loop i =>
    match result.actionResults[i]? with
    | none => some { s with main := .waiting }
    | some ar =>
      if rt.skips ar.host then some { s with main := .loop (i + 1) }
      else some { s with main := if t.parallel then .started i else .called i,
                         waiter := Function.update s.waiter i .entering }
  | .called i => if s.waiter i = .finished then some { s with main := .started i } else none
  | .started i => some { s with main := .loop (i + 1), shared := s.shared.add }
  | .waiting => if s.shared.counter = 0 then some { s with main := .closing } else none
  | .closing => some { s with main := .cancelling, shared := { s.shared with closed := true } }
  | .cancelling => some { s with main := .returned, shared := { s.shared with expired := true } }
  | .returned => none

/-- `RollbackWithTimeout` up to the start of the worker. -/
def rollbackEnter (s : Rollback) (i : Nat) : Option Rollback :=
  if s.waiter i = .entering then
    s.shared.acquire.map fun shared =>
      { s with shared := shared, waiter := Function.update s.waiter i .selecting,
               worker := Function.update s.worker i .connecting }
  else none

/-- The `select` of `RollbackWithTimeout` takes the timeout. -/
def rollbackTimeout (s : Rollback) (i : Nat) : Option Rollback :=
  if s.waiter i = .selecting ∧ s.shared.expired then
    some { s with waiter := Function.update s.waiter i (.failing ("execute task timeout, Timeout=" ++ t.timeout)) }
  else none

/-- The `select` of `RollbackWithTimeout` takes the result of the worker. -/
def rollbackReceive (s : Rollback) (i : Nat) : Option Rollback :=
  match s.waiter i, s.worker i with
  | .selecting, .sending none =>
    some { s with waiter := Function.update s.waiter i .leaving, worker := Function.update s.worker i .sent }
  | .selecting, .sending (some err) =>
    some { s with waiter := Function.update s.waiter i (.failing err), worker := Function.update s.worker i .sent }
  | _, _ => none

/-- The waiter logs a failure under the name of the runner's host. -/
def rollbackLog (s : Rollback) (i : Nat) : Option Rollback :=
  match s.waiter i with
  | .failing _ =>
    if s.runner i then some { s with waiter := Function.update s.waiter i .leaving }
    else some { s with shared := { s.shared with panicked := true } }
  | _ => none

/-- The waiter gives its place in the pool back. -/
def rollbackLeave (s : Rollback) (i : Nat) : Option Rollback :=
  if s.waiter i = .leaving then
    s.shared.release.map fun shared => { s with shared := shared, waiter := Function.update s.waiter i .finishing }
  else none

/-- The waiter is done. -/
def rollbackFinish (s : Rollback) (i : Nat) : Option Rollback :=
  if s.waiter i = .finishing then
    some { s with shared := s.shared.done, waiter := Function.update s.waiter i .finished }
  else none

/-- `ConfigureSelfRuntime` sets the runner if it connects. -/
def rollbackConnect (s : Rollback) (i : Nat) (err : Option String) : Option Rollback :=
  if s.worker i = .connecting then
    match err with
    | none =>
      some { s with worker := Function.update s.worker i .rolling, runner := Function.update s.runner i true }
    | some e =>
      let address := ((result.actionResults[i]?.bind ActionResult.host).map Host.address).getD ""
      some { s with worker := Function.update s.worker i (.sending (some s!"failed to connect to {address}: {e}")) }
  else none

/-- The rollback of the task. -/
def rollbackExecute (s : Rollback) (i : Nat) (err : Option String) : Option Rollback :=
  if s.worker i = .rolling then some { s with worker := Function.update s.worker i (.sending err) } else none

/-- A step of a rollback. -/
def rollbackStep (s : Rollback) (a : RollbackAct) : Option Rollback :=
  if s.shared.panicked then none
  else
    match a with
    | .main => rollbackMain t rt result s
    | .enter i => rollbackEnter s i
    | .timeout i => rollbackTimeout t s i
    | .receive i => rollbackReceive s i
    | .log i => rollbackLog s i
    | .leave i => rollbackLeave s i
    | .finish i => rollbackFinish s i
    | .connect i err => rollbackConnect result s i err
    | .execute i err => rollbackExecute s i err
    | .clock => some { s with shared := { s.shared with expired := true } }

/-- The result has a rollback to run: the task failed and has one, and the host is neither nil nor deprecated. -/
def Due (i : Nat) : Prop :=
  t.hasRollback = true ∧ result.isFailed = true ∧ ∃ ar, result.actionResults[i]? = some ar ∧ rt.skips ar.host = false

/-- The counter is not below zero, and if `ExecuteRollback` has returned then every rollback has finished. -/
def WellJoined (s : Rollback) : Prop :=
  0 ≤ s.shared.counter ∧ (s.main = .returned → ∀ i, Due t rt result i → s.waiter i = .finished)

end RemoteTask

/-- The number of results the loop has added or passed over, of `n`. -/
def RollbackMain.position (n : Nat) : RollbackMain → Nat
  | .loop i | .called i | .started i => i
  | _ => n

/-- `ExecuteRollback` has waited for the rollbacks. -/
def RollbackMain.joined : RollbackMain → Bool
  | .closing | .cancelling | .returned => true
  | _ => false

/-- The loop has started the rollback of `i` and not added it yet. -/
def RollbackMain.starts (i : Nat) (m : RollbackMain) : Prop := m = .called i ∨ m = .started i

namespace RemoteTask

variable {t : RemoteTask} {rt : BaseRuntime} {result : TaskResult} {s s' : Rollback} {a : RollbackAct}

/-- What a step can do to the wait group and the waiters. -/
inductive RollbackNext (t : RemoteTask) (rt : BaseRuntime) (result : TaskResult) (s : Rollback) :
    RollbackAct → Rollback → Prop where
  | ended {i : Nat} (here : s.main = .loop i) (none : result.actionResults[i]? = none) :
      RollbackNext t rt result s .main { s with main := .waiting }
  | skipped {i : Nat} {ar : ActionResult} (here : s.main = .loop i) (entry : result.actionResults[i]? = some ar)
      (skips : rt.skips ar.host = true) : RollbackNext t rt result s .main { s with main := .loop (i + 1) }
  | starts {i : Nat} {ar : ActionResult} {m : RollbackMain} (here : s.main = .loop i)
      (entry : result.actionResults[i]? = some ar) (runs : rt.skips ar.host = false) (goes : m.starts i) :
      RollbackNext t rt result s .main { s with main := m, waiter := Function.update s.waiter i .entering }
  | resumed {i : Nat} (here : s.main = .called i) :
      RollbackNext t rt result s .main { s with main := .started i }
  | added {i : Nat} (here : s.main = .started i) :
      RollbackNext t rt result s .main { s with main := .loop (i + 1), shared := s.shared.add }
  | joined (here : s.main = .waiting) (zero : s.shared.counter = 0) :
      RollbackNext t rt result s .main { s with main := .closing }
  | closed (here : s.main = .closing) :
      RollbackNext t rt result s .main { s with main := .cancelling, shared := { s.shared with closed := true } }
  | cancelled (here : s.main = .cancelling) :
      RollbackNext t rt result s .main { s with main := .returned, shared := { s.shared with expired := true } }
  | moved {i : Nat} {a : RollbackAct} {w : Waiter} {worker : Nat → RollbackWorker} {shared : Shared}
      (live : (s.waiter i).live = true) (still : w.live = true) (counter : shared.counter = s.shared.counter) :
      RollbackNext t rt result s a
        { main := s.main, waiter := Function.update s.waiter i w, worker, runner := s.runner, shared }
  | finished {i : Nat} (here : s.waiter i = .finishing) :
      RollbackNext t rt result s (.finish i)
        { s with shared := s.shared.done, waiter := Function.update s.waiter i .finished }
  | quiet {a : RollbackAct} {worker : Nat → RollbackWorker} {runner : Nat → Bool} {shared : Shared}
      (counter : shared.counter = s.shared.counter) :
      RollbackNext t rt result s a { main := s.main, waiter := s.waiter, worker, runner, shared }

theorem next_of_rollbackMain (taken : rollbackMain t rt result s = some s') : RollbackNext t rt result s .main s' := by
  unfold rollbackMain at taken
  split at taken
  case h_1 i here =>
    split at taken
    · next none =>
      cases taken
      exact .ended here none
    · next ar entry =>
      split at taken
      · next skips =>
        cases taken
        exact .skipped here entry skips
      · next runs =>
        cases taken
        refine .starts here entry (by simpa using runs) ?_
        split
        · exact .inr rfl
        · exact .inl rfl
  case h_2 i here =>
    split at taken
    · cases taken
      exact .resumed here
    · cases taken
  case h_3 i here =>
    cases taken
    exact .added here
  case h_4 here =>
    split at taken
    · next zero =>
      cases taken
      exact .joined here zero
    · cases taken
  case h_5 here =>
    cases taken
    exact .closed here
  case h_6 here =>
    cases taken
    exact .cancelled here
  case h_7 here => cases taken

theorem next_of_rollbackReceive {i : Nat} (taken : rollbackReceive s i = some s') :
    RollbackNext t rt result s (.receive i) s' := by
  unfold rollbackReceive at taken
  split at taken
  · next here sends =>
    cases taken
    exact .moved (by rw [here]; rfl) rfl rfl
  · next here sends =>
    cases taken
    exact .moved (by rw [here]; rfl) rfl rfl
  · cases taken

theorem next_of_rollbackLog {i : Nat} (taken : rollbackLog s i = some s') :
    RollbackNext t rt result s (.log i) s' := by
  unfold rollbackLog at taken
  split at taken
  · next err here =>
    split at taken
    · cases taken
      exact .moved (by rw [here]; rfl) rfl rfl
    · cases taken
      exact .quiet rfl
  · cases taken

theorem next_of_rollbackConnect {i : Nat} {err : Option String} (taken : rollbackConnect result s i err = some s') :
    RollbackNext t rt result s (.connect i err) s' := by
  unfold rollbackConnect at taken
  split at taken
  · split at taken
    · cases taken
      exact .quiet rfl
    · cases taken
      exact .quiet rfl
  · cases taken

theorem next_of_rollbackStep (taken : rollbackStep t rt result s a = some s') : RollbackNext t rt result s a s' := by
  unfold rollbackStep at taken
  split at taken
  · cases taken
  next fine =>
  have fine : s.shared.panicked = false := by simpa using fine
  cases a with
  | main => exact next_of_rollbackMain taken
  | enter i =>
    simp only [rollbackEnter] at taken
    split at taken
    · next here =>
      obtain ⟨shared, acquired, rfl⟩ := Option.map_eq_some_iff.mp taken
      exact .moved (by rw [here]; rfl) rfl (acquire_counter acquired fine).1
    · cases taken
  | timeout i =>
    simp only [rollbackTimeout] at taken
    split at taken
    · next here =>
      cases taken
      exact .moved (by rw [here.1]; rfl) rfl rfl
    · cases taken
  | receive i => exact next_of_rollbackReceive taken
  | log i => exact next_of_rollbackLog taken
  | leave i =>
    simp only [rollbackLeave] at taken
    split at taken
    · next here =>
      obtain ⟨shared, released, rfl⟩ := Option.map_eq_some_iff.mp taken
      exact .moved (by rw [here]; rfl) rfl (release_counter released).1
    · cases taken
  | finish i =>
    simp only [rollbackFinish] at taken
    split at taken
    · next here =>
      cases taken
      exact .finished here
    · cases taken
  | connect i err => exact next_of_rollbackConnect taken
  | execute i err =>
    simp only [rollbackExecute] at taken
    split at taken
    · cases taken
      exact .quiet rfl
    · cases taken
  | clock =>
    cases taken
    exact .quiet rfl

/-- The condition on a step: a rollback ends after the loop has added it. -/
def AddedFirst (result : TaskResult) (s : Rollback) : RollbackAct → Prop
  | .finish i => i < s.main.position result.actionResults.length
  | _ => True

/-- The wait group counts the rollbacks that were added and are under way. -/
structure RollbackJoins (t : RemoteTask) (rt : BaseRuntime) (result : TaskResult) (s : Rollback) : Prop where
  counts : Counts s.shared.counter fun i =>
    i < s.main.position result.actionResults.length ∧ (s.waiter i).live = true
  guarded : s.main.joined = false → t.hasRollback = true ∧ result.isFailed = true
  started : ∀ i, s.waiter i ≠ .idle →
    Due t rt result i ∧ (i < s.main.position result.actionResults.length ∨ s.main.starts i)
  starting : ∀ i, s.main.starts i → (s.waiter i).live = true
  visited : ∀ i, Due t rt result i → i < s.main.position result.actionResults.length → s.waiter i ≠ .idle
  joined : s.main.joined = true → ∀ i, Due t rt result i → s.waiter i = .finished

theorem Due.lt {i : Nat} (due : Due t rt result i) : i < result.actionResults.length := by
  obtain ⟨-, -, ar, entry, -⟩ := due
  exact (List.getElem?_eq_some_iff.mp entry).1

theorem starts_position {i n : Nat} {m : RollbackMain} (starts : m.starts i) : m.position n = i := by
  rcases starts with rfl | rfl <;> rfl

namespace RollbackJoins

theorem new (t : RemoteTask) (rt : BaseRuntime) (result : TaskResult) :
    RollbackJoins t rt result (t.rollback result) where
  counts := Counts.zero (by simp [rollback, Waiter.live])
  guarded := by
    simp only [rollback]
    split
    · next guard => exact fun _ => guard
    · simp [RollbackMain.joined]
  started := by simp [rollback]
  starting := by
    intro i starts
    simp only [rollback] at starts
    split at starts <;> rcases starts with starts | starts <;> cases starts
  visited := by
    intro i due below
    simp only [rollback, due.1, due.2.1, and_self, if_true, RollbackMain.position] at below
    omega
  joined := by
    intro joined i due
    simp [rollback, due.1, due.2.1, RollbackMain.joined] at joined

/-- A step of the main goroutine that starts and adds nothing. -/
theorem control (joins : RollbackJoins t rt result s) {m : RollbackMain} {shared : Shared}
    (counter : shared.counter = s.shared.counter) (guarded : m.joined = false → s.main.joined = false)
    (position : ∀ i, s.waiter i ≠ .idle ∨ Due t rt result i →
      (i < m.position result.actionResults.length ↔ i < s.main.position result.actionResults.length))
    (starts : ∀ i, m.starts i ↔ s.main.starts i)
    (joined : m.joined = true → ∀ i, Due t rt result i → s.waiter i = .finished) :
    RollbackJoins t rt result { s with main := m, shared := shared } where
  counts := by
    show Counts shared.counter _
    rw [counter]
    refine joins.counts.congr fun i => ?_
    constructor
    · rintro ⟨below, live⟩
      exact ⟨(position i (.inl (by rintro idle; simp [idle, Waiter.live] at live))).mp below, live⟩
    · rintro ⟨below, live⟩
      exact ⟨(position i (.inl (by rintro idle; simp [idle, Waiter.live] at live))).mpr below, live⟩
  guarded open_ := joins.guarded (guarded open_)
  started i busy := by
    obtain ⟨due, place⟩ := joins.started i busy
    exact ⟨due, place.imp (position i (.inl busy)).mpr (starts i).mpr⟩
  starting i here := joins.starting i ((starts i).mp here)
  visited i due below := joins.visited i due ((position i (.inr due)).mp below)
  joined := joined

/-- The loop starts a rollback. -/
theorem start (joins : RollbackJoins t rt result s) {i : Nat} {ar : ActionResult} {m : RollbackMain}
    (here : s.main = .loop i) (entry : result.actionResults[i]? = some ar) (runs : rt.skips ar.host = false)
    (goes : m.starts i) :
    RollbackJoins t rt result { s with main := m, waiter := Function.update s.waiter i .entering } := by
  have position := starts_position (n := result.actionResults.length) goes
  have guard := joins.guarded (by rw [here]; rfl)
  have before : s.main.position result.actionResults.length = i := by rw [here]; rfl
  have none : ∀ j, ¬ s.main.starts j := by
    rintro j (starts | starts) <;> rw [here] at starts <;> cases starts
  constructor
  · refine joins.counts.congr fun j => ?_
    rw [position, before]
    by_cases same : j = i
    · subst same
      simp
    · simp [same]
  · exact fun _ => guard
  · intro j busy
    rw [position]
    by_cases same : j = i
    · subst same
      exact ⟨⟨guard.1, guard.2, ar, entry, runs⟩, .inr goes⟩
    · obtain ⟨due, place⟩ := joins.started j (by simpa [same] using busy)
      rw [before] at place
      exact ⟨due, .inl (place.resolve_right (none j))⟩
  · intro j starts
    have same : j = i := (starts_position (n := 0) starts).symm.trans (starts_position goes)
    subst same
    simp [Waiter.live]
  · intro j due below
    rw [position] at below
    have other : j ≠ i := by omega
    simp only [ne_eq, other, not_false_eq_true, Function.update_of_ne]
    exact joins.visited j due (by rw [before]; exact below)
  · intro joined
    rcases goes with rfl | rfl <;> cases joined

/-- The loop adds the rollback it has started, which is still under way. -/
theorem add (joins : RollbackJoins t rt result s) {i : Nat} (here : s.main = .started i) :
    RollbackJoins t rt result { s with main := .loop (i + 1), shared := s.shared.add } := by
  have before : s.main.position result.actionResults.length = i := by rw [here]; rfl
  have live := joins.starting i (.inr here)
  constructor
  · refine joins.counts.add (i := i) ?_ fun j => ?_
    · rw [before]
      simp
    · rw [before]
      simp only [RollbackMain.position]
      constructor
      · rintro ⟨below, other⟩
        exact (Nat.lt_succ_iff_lt_or_eq.mp below).symm.imp id fun less => ⟨less, other⟩
      · rintro (rfl | ⟨less, other⟩)
        · exact ⟨Nat.lt_succ_self j, live⟩
        · exact ⟨Nat.lt_succ_of_lt less, other⟩
  · exact fun _ => joins.guarded (by rw [here]; rfl)
  · intro j busy
    obtain ⟨due, place⟩ := joins.started j busy
    refine ⟨due, .inl ?_⟩
    rcases place with less | starts
    · rw [before] at less
      exact Nat.lt_succ_of_lt less
    · have same := starts_position (n := result.actionResults.length) starts
      simp only [RollbackMain.position]
      omega
  · rintro j (starts | starts) <;> cases starts
  · intro j due below
    rcases Nat.lt_succ_iff_lt_or_eq.mp below with less | rfl
    · exact joins.visited j due (by rw [before]; exact less)
    · intro idle
      rw [show s.waiter j = .idle from idle] at live
      cases live
  · rintro ⟨⟩

/-- A waiter under way makes a step and stays under way. -/
theorem move (joins : RollbackJoins t rt result s) {i : Nat} {w : Waiter} {worker : Nat → RollbackWorker}
    {shared : Shared} (live : (s.waiter i).live = true) (still : w.live = true)
    (counter : shared.counter = s.shared.counter) :
    RollbackJoins t rt result
      { main := s.main, waiter := Function.update s.waiter i w, worker, runner := s.runner, shared } := by
  have busy : s.waiter i ≠ .idle := by
    intro idle
    rw [idle] at live
    cases live
  constructor
  · show Counts shared.counter _
    rw [counter]
    refine joins.counts.congr fun j => ?_
    by_cases same : j = i
    · subst same
      simp [live, still]
    · simp [same]
  · exact joins.guarded
  · intro j other
    refine joins.started j ?_
    by_cases same : j = i
    · subst same
      exact busy
    · simpa [same] using other
  · intro j starts
    by_cases same : j = i
    · subst same
      simpa using still
    · simpa [same] using joins.starting j starts
  · intro j due below
    by_cases same : j = i
    · subst same
      intro idle
      simp only [Function.update_self] at idle
      rw [idle] at still
      cases still
    · simpa [same] using joins.visited j due below
  · intro joined
    have ended := joins.joined joined i (joins.started i busy).1
    rw [ended] at live
    cases live

/-- A rollback that was added finishes. -/
theorem finish (joins : RollbackJoins t rt result s) {i : Nat} (here : s.waiter i = .finishing)
    (added : i < s.main.position result.actionResults.length) :
    RollbackJoins t rt result
      { s with shared := s.shared.done, waiter := Function.update s.waiter i .finished } := by
  have live : (s.waiter i).live = true := by rw [here]; rfl
  have busy : s.waiter i ≠ .idle := by rw [here]; simp
  constructor
  · refine joins.counts.done (i := i) ⟨added, live⟩ fun j => ?_
    by_cases same : j = i
    · subst same
      simp [Waiter.live]
    · simp [same]
  · exact joins.guarded
  · intro j other
    refine joins.started j ?_
    by_cases same : j = i
    · subst same
      exact busy
    · simpa [same] using other
  · intro j starts
    have other : j ≠ i := by
      rintro rfl
      rw [starts_position starts] at added
      omega
    simpa [other] using joins.starting j starts
  · intro j due below
    by_cases same : j = i
    · subst same
      simp
    · simpa [same] using joins.visited j due below
  · intro joined
    have ended := joins.joined joined i (joins.started i busy).1
    rw [ended] at live
    cases live

/-- Every step that adds a rollback before it ends keeps the wait group right. -/
theorem step (joins : RollbackJoins t rt result s) (first : AddedFirst result s a)
    (next : RollbackNext t rt result s a s') : RollbackJoins t rt result s' := by
  cases next with
  | @ended i here none =>
    refine joins.control rfl (by simp [here, RollbackMain.joined]) ?_ (by simp [RollbackMain.starts, here])
      (by rintro ⟨⟩)
    intro j known
    have due : Due t rt result j := known.elim (fun busy => (joins.started j busy).1) id
    have inside := due.lt
    have outside := List.getElem?_eq_none_iff.mp none
    simp only [here, RollbackMain.position]
    omega
  | @skipped i ar here entry skips =>
    refine joins.control rfl (by simp [here, RollbackMain.joined]) ?_ (by simp [RollbackMain.starts, here])
      (by rintro ⟨⟩)
    intro j known
    have due : Due t rt result j := known.elim (fun busy => (joins.started j busy).1) id
    have other : j ≠ i := by
      rintro rfl
      obtain ⟨-, -, ar', entry', runs⟩ := due
      cases entry.symm.trans entry'
      rw [skips] at runs
      cases runs
    simp only [here, RollbackMain.position]
    omega
  | starts here entry runs goes => exact joins.start here entry runs goes
  | @resumed i here =>
    refine joins.control rfl (by simp [here, RollbackMain.joined]) (by simp [here, RollbackMain.position]) ?_
      (by rintro ⟨⟩)
    simp [RollbackMain.starts, here]
  | added here => exact joins.add here
  | joined here zero =>
    refine joins.control rfl (by simp [RollbackMain.joined]) (by simp [here, RollbackMain.position])
      (by simp [RollbackMain.starts, here]) ?_
    intro _ i due
    have below : i < s.main.position result.actionResults.length := by rw [here]; exact due.lt
    have none := (zero ▸ joins.counts).none_live i
    have busy := joins.visited i due below
    generalize s.waiter i = w at none busy
    cases w <;> simp_all [Waiter.live]
  | closed here =>
    exact joins.control rfl (by simp [RollbackMain.joined]) (by simp [here, RollbackMain.position])
      (by simp [RollbackMain.starts, here]) fun _ => joins.joined (by rw [here]; rfl)
  | cancelled here =>
    exact joins.control rfl (by simp [RollbackMain.joined]) (by simp [here, RollbackMain.position])
      (by simp [RollbackMain.starts, here]) fun _ => joins.joined (by rw [here]; rfl)
  | moved live still counter => exact joins.move live still counter
  | finished here => exact joins.finish here first
  | quiet counter =>
    refine ⟨?_, joins.guarded, joins.started, joins.starting, joins.visited, joins.joined⟩
    rw [counter]
    exact joins.counts

theorem wellJoined (joins : RollbackJoins t rt result s) : WellJoined t rt result s :=
  ⟨joins.counts.nonneg, fun returned => joins.joined (by rw [returned]; rfl)⟩

end RollbackJoins

/-- The loop passes over results that have no rollback to run. -/
theorem run_skips (guard : t.hasRollback = true ∧ result.isFailed = true) {n : Nat}
    (skips : ∀ j < n, ∃ ar, result.actionResults[j]? = some ar ∧ rt.skips ar.host = true) :
    run (rollbackStep t rt result) (t.rollback result) (List.replicate n .main) =
      some { t.rollback result with main := .loop n } := by
  induction n with
  | zero => simp [rollback, guard]
  | succ n ih =>
    obtain ⟨ar, entry, skip⟩ := skips n (Nat.lt_succ_self n)
    rw [List.replicate_succ', run_append, ih fun j below => skips j (Nat.lt_succ_of_lt below)]
    simp [run_cons, rollbackStep, rollbackMain, rollback, Shared.new, entry, skip]

/-- The first rollback connects, succeeds and ends before it is added. -/
theorem run_below_zero {i : Nat} {ar : ActionResult} (entry : result.actionResults[i]? = some ar)
    (runs : rt.skips ar.host = false) :
    ∃ s, run (rollbackStep t rt result) { t.rollback result with main := .loop i }
        [.main, .enter i, .connect i none, .execute i none, .receive i, .leave i, .finish i] = some s ∧
      s.shared.counter = -1 := by
  simp [run_cons, rollbackStep, rollbackMain, rollbackEnter, rollbackConnect, rollbackExecute, rollbackReceive,
    rollbackLeave, rollbackFinish, rollback, Shared.new, Shared.acquire, Shared.release, Shared.done, defaultCon, entry,
    runs]

/-- If anything is to be rolled back, some interleaving takes the counter below zero. -/
theorem exists_below_zero {i : Nat} (due : Due t rt result i) :
    ∃ acts s, run (rollbackStep t rt result) (t.rollback result) acts = some s ∧ s.shared.counter = -1 := by
  classical
  have some : ∃ i, Due t rt result i := ⟨i, due⟩
  obtain ⟨has, failed, ar, entry, runs⟩ := Nat.find_spec some
  have inside := (List.getElem?_eq_some_iff.mp entry).1
  have skips : ∀ j < Nat.find some, ∃ ar, result.actionResults[j]? = .some ar ∧ rt.skips ar.host = true := by
    intro j below
    have there : j < result.actionResults.length := below.trans inside
    refine ⟨result.actionResults[j], List.getElem?_eq_getElem there, ?_⟩
    by_contra not
    exact Nat.find_min some below
      ⟨has, failed, _, List.getElem?_eq_getElem there, by simpa using not⟩
  obtain ⟨s, ended, counter⟩ := run_below_zero (t := t) entry runs
  exact ⟨_, s, run_trans (run_skips ⟨has, failed⟩ skips) ended, counter⟩

/-- All interleavings of a rollback are joined well exactly if there is nothing to roll back, and an interleaving is if
every rollback in it is added before it ends. -/
theorem rollback_joins (t : RemoteTask) (rt : BaseRuntime) (result : TaskResult) :
    ((∀ acts s, run (rollbackStep t rt result) (t.rollback result) acts = some s → WellJoined t rt result s) ↔
        ∀ i, ¬ Due t rt result i) ∧
      ∀ acts s, Along (rollbackStep t rt result) (AddedFirst result) (t.rollback result) acts →
        run (rollbackStep t rt result) (t.rollback result) acts = some s → WellJoined t rt result s := by
  have added : ∀ acts s, Along (rollbackStep t rt result) (AddedFirst result) (t.rollback result) acts →
      run (rollbackStep t rt result) (t.rollback result) acts = some s → RollbackJoins t rt result s := by
    intro acts s along ran
    exact Along.invariant (fun s a s' joins first taken => joins.step first (next_of_rollbackStep taken))
      (RollbackJoins.new t rt result) along ran
  refine ⟨⟨?_, ?_⟩, fun acts s along ran => (added acts s along ran).wellJoined⟩
  · intro all i due
    obtain ⟨acts, s, ran, counter⟩ := exists_below_zero due
    have nonneg := (all acts s ran).1
    omega
  · intro nothing acts s ran
    -- without rollbacks no waiter ever starts, so no step can break the condition
    have keeps : ∀ s a s', RollbackJoins t rt result s → rollbackStep t rt result s a = some s' →
        RollbackJoins t rt result s' := by
      intro s a s' joins taken
      have next := next_of_rollbackStep taken
      refine joins.step ?_ next
      cases a with
      | finish i =>
        simp only [rollbackStep, rollbackFinish] at taken
        split at taken
        · cases taken
        · split at taken
          · next here => exact absurd (joins.started i (by rw [here]; simp)).1 (nothing i)
          · cases taken
      | _ => trivial
    exact (run_invariant keeps (RollbackJoins.new t rt result) ran).wellJoined

/-- A failed task on one host that has a rollback. -/
def failedTask : RemoteTask := ⟨"failed", [some ⟨"node1", "10.0.0.1", []⟩], false, 1, "1m", true⟩

def failedResult : TaskResult := TaskResult.new.appendErr (some ⟨"node1", "10.0.0.1", []⟩) "exit status 1"

/-- In sequence the first rollback takes the counter below zero. -/
theorem rollback_counter_below_zero :
    ∃ s, run (rollbackStep failedTask (.new false) failedResult) (failedTask.rollback failedResult)
        [.main, .enter 0, .connect 0 none, .execute 0 none, .receive 0, .leave 0, .finish 0] = some s ∧
      s.shared.counter = -1 ∧ s.shared.panicked = true ∧ ¬ WellJoined failedTask (.new false) failedResult s := by
  refine ⟨_, rfl, rfl, rfl, fun joined => ?_⟩
  have nonneg := joined.1
  revert nonneg
  decide

end RemoteTask

end KubeKey.Core
