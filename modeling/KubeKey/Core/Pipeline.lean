import KubeKey.Core.Survivors

/-!
# The verdict of a pipeline

`cmd/kk/pkg/core/pipeline/pipeline.go`: `Start` runs the modules one after another over one
runtime, up to the first that fails or whose post hooks fail. With `ignoreErr` a module
whose hosts fail may succeed all the same, with fewer hosts left, and `Start` compares the
number of hosts at the end with the number at the beginning.

That comparison is enough (`start_success`): a pipeline succeeds exactly if no task of its
modules failed on any host, whatever role lists were moved under its tasks and whether
errors are ignored or not. Modules are task modules here, whose `Until` stops after one
round.
-/

namespace KubeKey.Core

open KubeKey.Go

/-- A module of a pipeline, with how its tasks and its post hooks end. -/
structure PipelineModule where
  skip : Bool
  tasks : List Task
  outcomes : Outcomes
  /-- `CallPostHook` returns no error. -/
  postHooks : Bool

/-- The runtime that a module leaves behind if its tasks go through. -/
def runtimeAfter (outcomes : Outcomes) :
    Nat → List (Option (Hosts × List String)) → BaseRuntime → Option BaseRuntime
  | _, [], b => some b
  | k, none :: tasks, b =>
    let results := [⟨some ⟨"LocalHost", "", []⟩, outcomes.onLocal k, none⟩]
    match b.settle false results (statusOf results) with
    | .panicked | .errResult => none
    | .next b status => if status = .failed then none else runtimeAfter outcomes (k + 1) tasks b
  | k, some (hosts, _) :: tasks, b =>
    let results := outcomes.onHosts k ((b.read hosts).filter fun h => !b.skips h)
    match b.settle true results (statusOf results) with
    | .panicked | .errResult => none
    | .next b status => if status = .failed then none else runtimeAfter outcomes (k + 1) tasks b

/-- The loop of `Start` over the modules, and the runtime at its end. -/
def runModules : List PipelineModule → BaseRuntime → List (List Ran) × Ending × BaseRuntime
  | [], b => ([], .success, b)
  | m :: rest, b =>
    if m.skip then runModules rest b
    else
      let run := runModule m.outcomes m.tasks b
      match runtimeAfter m.outcomes 0 (initTasks b m.tasks) b with
      | none => ([run.1], run.2, b)
      | some b' =>
        if m.postHooks then
          let later := runModules rest b'
          (run.1 :: later.1, later.2)
        else ([run.1], .failed, b')

/-- `Start`: what the modules did and how the pipeline ends. -/
def start (modules : List PipelineModule) (b : BaseRuntime) : List (List Ran) × Ending :=
  let specHosts := b.getAllHosts.length
  match runModules modules b with
  | (ran, .success, b') => if specHosts ≠ b'.getAllHosts.length then (ran, .failed) else (ran, .success)
  | (ran, ending, _) => (ran, ending)

/-- No task fails, on any of the hosts it is given. -/
def Clean (b : BaseRuntime) (outcomes : Outcomes) : Nat → List Task → Prop
  | _, [] => True
  | k, .local :: tasks => outcomes.onLocal k ≠ .failed ∧ Clean b outcomes (k + 1) tasks
  | k, .remote source :: tasks =>
    (∀ ac ∈ outcomes.onHosts k (b.read (b.obtain source)), ac.status ≠ .failed) ∧ Clean b outcomes (k + 1) tasks

namespace BaseRuntime

variable {b b' b'' : BaseRuntime} {outcomes : Outcomes}

/-- A module goes through exactly if it leaves a runtime for the next one. -/
theorem runtimeAfter_isSome (outcomes : Outcomes) (tasks : List (Option (Hosts × List String))) :
    ∀ (k : Nat) (b : BaseRuntime),
      (runtimeAfter outcomes k tasks b).isSome ↔ (runTasks outcomes k tasks b).2 = .success := by
  induction tasks with
  | nil => exact fun k b => iff_of_true rfl rfl
  | cons task tasks ih =>
    intro k b
    cases task with
    | none =>
      simp only [runtimeAfter, runTasks]
      generalize b.settle false _ _ = settled
      cases settled with
      | next b' status =>
        by_cases bad : status = .failed
        · simp [bad]
        · simpa only [bad, if_false] using ih (k + 1) b'
      | errResult => simp
      | panicked => simp
    | some given =>
      obtain ⟨hosts, targets⟩ := given
      simp only [runtimeAfter, runTasks]
      generalize b.settle true _ _ = settled
      cases settled with
      | next b' status =>
        by_cases bad : status = .failed
        · simp [bad, Ran.andThen]
        · simpa only [bad, if_false, Ran.andThen] using ih (k + 1) b'
      | errResult => simp [Ran.andThen]
      | panicked => simp [Ran.andThen]

/-- A host that can be deleted is one of the cluster's. -/
theorem WellFormed.deleteHost_some (wf : b.WellFormed) {host : Host} (ran : b.deleteHost host = some b') :
    host.name ∈ b.names b.allHosts ∧ Deleted b b' host.name := by
  have inside : host.name ∈ b.names b.allHosts := by
    by_contra absent
    rw [deleteHost_eq wf.all, if_neg absent] at ran
    cases ran
  obtain ⟨c, done, deleted⟩ := deleteHost_spec wf inside
  rw [ran] at done
  cases done
  exact ⟨inside, deleted⟩

/-- A deletion makes the cluster smaller. -/
theorem Deleted.length_lt {name : String} (deleted : Deleted b b' name) (inside : name ∈ b.names b.allHosts) :
    (b'.list b'.allHosts).length < (b.list b.allHosts).length := by
  rw [deleted.all.2, BaseRuntime.kept, List.length_filter_lt_length_iff_exists]
  simpa [names, Host.other] using inside

/-- What the loop over the results leaves: fewer hosts if one of them failed and errors are ignored. -/
structure Settles (b b' : BaseRuntime) (remote : Bool) (results : List ActionResult) : Prop where
  wf : b'.WellFormed
  ignoreErr : b'.ignoreErr = b.ignoreErr
  shrinks : (b'.list b'.allHosts).length ≤ (b.list b.allHosts).length
  notices : remote = true → b.ignoreErr = true → (∃ ac ∈ results, ac.status = .failed) →
    (b'.list b'.allHosts).length < (b.list b.allHosts).length

theorem settle_settles {remote : Bool} (wf : b.WellFormed) {results : List ActionResult} {status status' : ResultStatus}
    (next : b.settle remote results status = .next b' status') : Settles b b' remote results := by
  induction results generalizing b status with
  | nil =>
    simp only [settle, Settled.next.injEq] at next
    obtain ⟨rfl, rfl⟩ := next
    exact ⟨wf, rfl, le_refl _, fun _ _ some => by simp at some⟩
  | cons ac rest ih =>
    cases given : ac.host with
    | none => simp [settle, given] at next
    | some host =>
      simp only [settle, given] at next
      split at next
      · split at next
        · split at next
          · -- the host failed and is deleted
            rename_i bad
            split at next
            · cases next
            · rename_i c ran
              obtain ⟨inside, deleted⟩ := wf.deleteHost_some ran
              have later := ih (wf.deleted deleted) next
              have less := deleted.length_lt inside
              exact ⟨later.wf, later.ignoreErr.trans deleted.ignoreErr, later.shrinks.trans less.le,
                fun _ _ _ => lt_of_le_of_lt later.shrinks less⟩
          · rename_i good
            have later := ih wf next
            refine ⟨later.wf, later.ignoreErr, later.shrinks, fun isRemote ignores some => ?_⟩
            obtain ⟨ac', member, bad⟩ := some
            rcases List.mem_cons.mp member with rfl | member
            · exact absurd bad good
            · exact later.notices isRemote ignores ⟨ac', member, bad⟩
        · cases next
      · rename_i plain
        have later := ih wf next
        exact ⟨later.wf, later.ignoreErr, later.shrinks, fun isRemote ignores _ => absurd ⟨isRemote, ignores⟩ plain⟩

/-- Results without a failure leave the runtime and the status. -/
theorem settle_clean {remote : Bool} {results : List ActionResult} (hosts : ∀ ac ∈ results, ac.host.isSome)
    (there : results ≠ [] → b.getAllHosts.length > 0) (clean : ∀ ac ∈ results, ac.status ≠ .failed)
    (status : ResultStatus) : b.settle remote results status = .next b status := by
  induction results with
  | nil => rfl
  | cons ac rest ih =>
    obtain ⟨host, given⟩ := Option.isSome_iff_exists.mp (hosts ac List.mem_cons_self)
    have later := ih (fun ac member => hosts ac (List.mem_cons_of_mem _ member)) (fun _ => there (by simp))
      fun ac member => clean ac (List.mem_cons_of_mem _ member)
    have good := clean ac List.mem_cons_self
    have some := there (by simp)
    simp only [settle, given, good, some, if_false, if_true, later, ite_self]

/-- Without `ignoreErr`, and for a local task, the loop changes nothing. -/
theorem settle_plain {remote : Bool} {results : List ActionResult} {status status' : ResultStatus}
    (plain : ¬ (remote = true ∧ b.ignoreErr = true)) (next : b.settle remote results status = .next b' status') :
    status' = status ∧ b' = b := by
  induction results with
  | nil =>
    simp only [settle, Settled.next.injEq] at next
    exact ⟨next.2.symm, next.1.symm⟩
  | cons ac rest ih =>
    simp only [settle] at next
    split at next
    · cases next
    · rw [if_neg plain] at next
      exact ih next

/-- A module, whatever it deletes, leaves a runtime in order with no more hosts. -/
theorem runtimeAfter_shrinks {tasks : List (Option (Hosts × List String))} {k : Nat} (wf : b.WellFormed)
    (after : runtimeAfter outcomes k tasks b = some b') :
    b'.WellFormed ∧ (b'.list b'.allHosts).length ≤ (b.list b.allHosts).length := by
  induction tasks generalizing k b with
  | nil =>
    cases after
    exact ⟨wf, le_refl _⟩
  | cons task tasks ih =>
    have further : ∀ {remote : Bool} {results : List ActionResult} {status status' : ResultStatus} {c : BaseRuntime},
        b.settle remote results status = .next c status' →
        (if status' = .failed then none else runtimeAfter outcomes (k + 1) tasks c) = some b' →
        b'.WellFormed ∧ (b'.list b'.allHosts).length ≤ (b.list b.allHosts).length := by
      intro remote results status status' c next rest
      split at rest
      · cases rest
      · have settles := settle_settles wf next
        obtain ⟨wf', shrinks⟩ := ih settles.wf rest
        exact ⟨wf', shrinks.trans settles.shrinks⟩
    cases task with
    | none =>
      simp only [runtimeAfter] at after
      split at after
      · cases after
      · cases after
      · rename_i next
        exact further next after
    | some given =>
      simp only [runtimeAfter] at after
      split at after
      · cases after
      · cases after
      · rename_i next
        exact further next after

/-- In a runtime in order no host of a task is passed over. -/
theorem WellFormed.executed (wf : b.WellFormed) (source : Source) :
    (b.read (b.obtain source)).filter (fun h => !b.skips h) = b.read (b.obtain source) := by
  obtain ⟨hosts, read, inside⟩ := read_obtain wf source
  rw [read, List.filter_eq_self]
  intro h member
  obtain ⟨host, listed, rfl⟩ := List.mem_map.mp member
  simpa [skips] using not_deprecated wf (inside host listed)

theorem any_failed_iff {results : List ActionResult} :
    statusOf results = .failed ↔ ∃ ac ∈ results, ac.status = .failed := by
  unfold statusOf
  split
  · rename_i some
    simpa using some
  · rename_i none
    simpa using none

/-- The results of a remote task name hosts that are there. -/
theorem WellFormed.results (wf : b.WellFormed) (outcomes : Outcomes) (k : Nat) (source : Source) :
    (∀ ac ∈ outcomes.onHosts k (b.read (b.obtain source)), ac.host.isSome) ∧
      (outcomes.onHosts k (b.read (b.obtain source)) ≠ [] → b.getAllHosts.length > 0) := by
  obtain ⟨hosts, read, inside⟩ := read_obtain wf source
  have each := outcomes.each k (b.read (b.obtain source))
  have given : ∀ ac ∈ outcomes.onHosts k (b.read (b.obtain source)), ∃ h ∈ hosts, ac.host = some h := by
    intro ac member
    have listed := each.mem_iff.mp (List.mem_map_of_mem member)
    rw [read] at listed
    obtain ⟨h, there, same⟩ := List.mem_map.mp listed
    exact ⟨h, there, same.symm⟩
  refine ⟨fun ac member => ?_, fun some => ?_⟩
  · obtain ⟨h, -, same⟩ := given ac member
    rw [same]
    rfl
  · obtain ⟨ac, member⟩ := List.exists_mem_of_ne_nil _ some
    obtain ⟨h, listed, -⟩ := given ac member
    obtain ⟨h', there, -⟩ := List.mem_map.mp (inside h listed)
    rw [wf.getAllHosts, List.length_map]
    exact List.length_pos_of_mem there

theorem runtimeAfter_local (outcomes : Outcomes) (k : Nat) (tasks : List (Option (Hosts × List String))) :
    runtimeAfter outcomes k (none :: tasks) b =
      if outcomes.onLocal k = .failed then none else runtimeAfter outcomes (k + 1) tasks b := by
  simp only [runtimeAfter, settle, statusOf, Bool.false_eq_true, false_and, if_false, List.any_cons, List.any_nil,
    Bool.or_false, decide_eq_true_eq]
  by_cases bad : outcomes.onLocal k = .failed
  · simp only [bad, if_true]
  · simp only [bad, if_false, reduceCtorEq]

/-- A module without a failure leaves the runtime as it is. -/
theorem runtimeAfter_clean (wf : b.WellFormed) {tasks : List Task} {k : Nat} (clean : Clean b outcomes k tasks) :
    runtimeAfter outcomes k (initTasks b tasks) b = some b := by
  induction tasks generalizing k with
  | nil => rfl
  | cons task tasks ih =>
    cases task with
    | «local» =>
      obtain ⟨good, rest⟩ := clean
      rw [show initTasks b (.local :: tasks) = none :: initTasks b tasks from rfl, runtimeAfter_local, if_neg good]
      exact ih rest
    | remote source =>
      obtain ⟨good, rest⟩ := clean
      obtain ⟨hosts, there⟩ := wf.results outcomes k source
      have passed : statusOf (outcomes.onHosts k (b.read (b.obtain source))) ≠ .failed := by
        intro bad
        obtain ⟨ac, member, failed⟩ := any_failed_iff.mp bad
        exact good ac member failed
      have first : initTasks b (.remote source :: tasks) =
        some (b.obtain source, hostNames (b.read (b.obtain source))) :: initTasks b tasks := rfl
      rw [first]
      simp only [runtimeAfter, wf.executed, settle_clean hosts there good, passed, if_false]
      exact ih rest

/-- A module that goes through and loses no host had no failure. -/
theorem clean_of_runtimeAfter (wf : b.WellFormed) {tasks : List Task} {k : Nat}
    (after : runtimeAfter outcomes k (initTasks b tasks) b = some b')
    (kept : (b.list b.allHosts).length ≤ (b'.list b'.allHosts).length) : Clean b outcomes k tasks := by
  induction tasks generalizing k with
  | nil => trivial
  | cons task tasks ih =>
    cases task with
    | «local» =>
      rw [show initTasks b (.local :: tasks) = none :: initTasks b tasks from rfl, runtimeAfter_local] at after
      split at after
      · cases after
      · rename_i good
        exact ⟨good, ih after⟩
    | remote source =>
      obtain ⟨hosts, there⟩ := wf.results outcomes k source
      have first : initTasks b (.remote source :: tasks) =
        some (b.obtain source, hostNames (b.read (b.obtain source))) :: initTasks b tasks := rfl
      rw [first] at after
      simp only [runtimeAfter, wf.executed] at after
      have good : ∀ ac ∈ outcomes.onHosts k (b.read (b.obtain source)), ac.status ≠ .failed := by
        intro ac member bad
        split at after
        · cases after
        · cases after
        · rename_i c status next
          split at after
          · cases after
          · rename_i passed
            by_cases ignores : b.ignoreErr = true
            · -- the host was deleted, and no later task brings it back
              have settles := settle_settles wf next
              have less := settles.notices rfl ignores ⟨ac, member, bad⟩
              have more := (runtimeAfter_shrinks settles.wf after).2
              omega
            · have plain := settle_plain (fun both => ignores both.2) next
              exact passed (plain.1.trans (any_failed_iff.mpr ⟨ac, member, bad⟩))
      have passed : statusOf (outcomes.onHosts k (b.read (b.obtain source))) ≠ .failed := by
        intro bad
        obtain ⟨ac, member, failed⟩ := any_failed_iff.mp bad
        exact good ac member failed
      simp only [settle_clean hosts there good, passed, if_false] at after
      exact ⟨good, ih after⟩

/-- The modules that are not skipped go through without a failure. -/
def CleanModules (b : BaseRuntime) (modules : List PipelineModule) : Prop :=
  ∀ m ∈ modules, m.skip = false → m.postHooks = true ∧ Clean b m.outcomes 0 m.tasks

theorem runModules_shrinks {modules : List PipelineModule} (wf : b.WellFormed)
    (ran : (runModules modules b).2.1 = .success) :
    (runModules modules b).2.2.WellFormed ∧
      ((runModules modules b).2.2.list (runModules modules b).2.2.allHosts).length ≤ (b.list b.allHosts).length := by
  induction modules generalizing b with
  | nil => exact ⟨wf, le_refl _⟩
  | cons m rest ih =>
    simp only [runModules] at ran ⊢
    split at ran
    · rename_i skip
      rw [if_pos skip]
      exact ih wf ran
    · rename_i runs
      rw [if_neg runs]
      cases after : runtimeAfter m.outcomes 0 (initTasks b m.tasks) b with
      | none =>
        -- a module that leaves no runtime has not succeeded
        rw [after] at ran
        have some := (runtimeAfter_isSome m.outcomes (initTasks b m.tasks) 0 b).mpr ran
        rw [after] at some
        cases some
      | some c =>
        rw [after] at ran
        obtain ⟨wf', shrinks⟩ := runtimeAfter_shrinks wf after
        cases hooks : m.postHooks with
        | false => simp [hooks] at ran
        | true =>
          simp only [hooks, if_true] at ran ⊢
          obtain ⟨wf'', shrinks'⟩ := ih wf' ran
          exact ⟨wf'', shrinks'.trans shrinks⟩

theorem runModules_clean (wf : b.WellFormed) {modules : List PipelineModule} (clean : CleanModules b modules) :
    (runModules modules b).2 = (.success, b) := by
  induction modules with
  | nil => rfl
  | cons m rest ih =>
    have later := ih fun m member => clean m (List.mem_cons_of_mem _ member)
    simp only [runModules]
    cases skip : m.skip with
    | true => simpa using later
    | false =>
      obtain ⟨hooks, good⟩ := clean m List.mem_cons_self skip
      simpa [runtimeAfter_clean wf good, hooks] using later

/-- Modules that go through and lose no host had no failure. -/
theorem clean_of_runModules (wf : b.WellFormed) {modules : List PipelineModule}
    (ran : (runModules modules b).2.1 = .success)
    (kept : (b.list b.allHosts).length ≤
      ((runModules modules b).2.2.list (runModules modules b).2.2.allHosts).length) : CleanModules b modules := by
  induction modules with
  | nil => exact fun m member => absurd member List.not_mem_nil
  | cons m rest ih =>
    simp only [runModules] at ran kept
    cases skip : m.skip with
    | true =>
      simp only [skip, if_true] at ran kept
      intro m' member runs
      rcases List.mem_cons.mp member with rfl | member
      · rw [skip] at runs
        cases runs
      · exact ih ran kept m' member runs
    | false =>
      simp only [skip, Bool.false_eq_true, if_false] at ran kept
      cases after : runtimeAfter m.outcomes 0 (initTasks b m.tasks) b with
      | none =>
        rw [after] at ran
        have some := (runtimeAfter_isSome m.outcomes (initTasks b m.tasks) 0 b).mpr ran
        rw [after] at some
        cases some
      | some c =>
        rw [after] at ran kept
        obtain ⟨wf', -⟩ := runtimeAfter_shrinks wf after
        cases hooks : m.postHooks with
        | false => simp [hooks] at ran
        | true =>
          simp only [hooks, if_true] at ran kept
          -- the later modules have not brought a host back, so this one lost none and left the runtime as it was
          have good := clean_of_runtimeAfter wf after (kept.trans (runModules_shrinks wf' ran).2)
          rw [runtimeAfter_clean wf good] at after
          cases after
          intro m' member runs
          rcases List.mem_cons.mp member with rfl | member
          · exact ⟨hooks, good⟩
          · exact ih ran kept m' member runs

/-- `Start` succeeds if the modules do and the number of hosts is the same. -/
theorem start_eq_success (modules : List PipelineModule) (b : BaseRuntime) :
    (start modules b).2 = .success ↔ (runModules modules b).2.1 = .success ∧
      b.getAllHosts.length = (runModules modules b).2.2.getAllHosts.length := by
  simp only [start]
  generalize runModules modules b = run
  obtain ⟨ran, ending, b'⟩ := run
  cases ending with
  | success =>
    by_cases same : b.getAllHosts.length = b'.getAllHosts.length
    · simp [same]
    · simp [same]
  | failed => simp
  | panicked => simp

/-- A pipeline succeeds exactly if no task of its modules fails on any host and no post hook fails,
whether errors are ignored or not. -/
theorem start_success (built : b.Built) (modules : List PipelineModule) :
    (start modules b).2 = .success ↔ CleanModules b modules := by
  have wf := built.numbered.toWellFormed
  rw [start_eq_success]
  constructor
  · rintro ⟨ran, same⟩
    obtain ⟨wf', -⟩ := runModules_shrinks wf ran
    rw [wf.getAllHosts, wf'.getAllHosts, List.length_map, List.length_map] at same
    exact clean_of_runModules wf ran same.le
  · intro clean
    rw [runModules_clean wf clean]
    exact ⟨rfl, rfl⟩

/-- A host fails a task whose module goes on without it and succeeds; the pipeline does not. -/
theorem start_success_lost :
    (start [⟨false, [.remote .all], scripted fun _ n => n = "a", true⟩] (ofMasters ["a", "b"])).2 = .success ↔
      CleanModules (ofMasters ["a", "b"]) [⟨false, [.remote .all], scripted fun _ n => n = "a", true⟩] := by
  have built : (ofMasters ["a", "b"]).Built :=
    .append (.append (.new true) (by decide) (by decide)) (by decide) (by decide)
  exact start_success built _

example : (runModule (scripted fun _ n => n = "a") [.remote .all] (ofMasters ["a", "b"])).2 = .success ∧
    (start [⟨false, [.remote .all], scripted fun _ n => n = "a", true⟩] (ofMasters ["a", "b"])).2 = .failed := by
  decide +kernel

end BaseRuntime

end KubeKey.Core
