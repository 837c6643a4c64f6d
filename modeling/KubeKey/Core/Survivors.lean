import KubeKey.Core.Module

/-!
# The hosts that survive a module

What a module that ignores errors is meant to do: each remote task runs on the hosts it was
given that have not failed before, and a module that has lost all its hosts fails
(`survey`, `Fair`, `Noticed`). The code does the first exactly as long as no host of a role
is deleted while another, which does not fail as well, stands behind it (`Unmoved`); and it
never does the second, so all is well only if a host survives (`module_fair`).
-/

namespace KubeKey.Core

open KubeKey.Go

/-- No later task runs on a host that failed, and every task runs exactly once on each of its hosts that did not. -/
def Fair : (failed : List String) → List Ran → Prop
  | _, [] => True
  | failed, ran :: rest =>
    (∀ n ∈ failed, n ∉ ran.executed) ∧ (∀ n ∈ ran.targets, n ∉ failed → ran.executed.count n = 1) ∧
      Fair (failed ++ ran.failed) rest

/-- If the remote tasks have left no host of the cluster, the module fails. -/
def Noticed (cluster : List String) (run : List Ran × Ending) : Prop :=
  run.1 ≠ [] → (∀ n ∈ cluster, ∃ ran ∈ run.1, n ∈ ran.failed) → run.2 = .failed

/-- A role list and, behind it in the array, what deletions have left there. -/
structure Layout where
  front : List Host
  behind : List Host

/-- A deletion shortens the list; as many hosts as it removes stay behind at the end. -/
def Layout.delete (l : Layout) (name : String) : Layout :=
  let kept := l.front.filter (Host.other name)
  ⟨kept, l.front.drop kept.length ++ l.behind⟩

/-- The layout of a role list after some deletions. -/
def layout (hosts : List Host) (deleted : List String) : Layout := deleted.foldl Layout.delete ⟨hosts, []⟩

namespace BaseRuntime

/-- The hosts of a source that are left after some failures. -/
def remaining (b : BaseRuntime) (source : Source) (failed : List String) : List (Option Host) :=
  (b.read (b.obtain source)).filter fun h => h.all fun h => !failed.contains h.name

/-- The array of a role shows each host that has not failed once: none of them was left behind by a deletion. -/
def Unmoved (b : BaseRuntime) (failed : List String) : Source → Prop
  | .all => True
  | .role name =>
    ∀ s, b.roleHosts.get? name = some s →
      (hostNames (b.remaining (.role name) failed)).Nodup ∧ ∀ h ∈ (layout (b.list s) failed).behind, h.name ∈ failed

/-- The run as it is meant: every task runs on the hosts it was given that have not failed. -/
def survey (b : BaseRuntime) (outcomes : Outcomes) : Nat → List Task → (failed : List String) → List Ran × Ending
  | _, [], _ => ([], .success)
  | k, .local :: tasks, failed =>
    if outcomes.onLocal k = .failed then ([], .failed) else b.survey outcomes (k + 1) tasks failed
  | k, .remote source :: tasks, failed =>
    let executed := b.remaining source failed
    let results := outcomes.onHosts k executed
    Ran.andThen ⟨hostNames (b.read (b.obtain source)), hostNames executed, failedNames results⟩
      (b.survey outcomes (k + 1) tasks (failed ++ failedNames results))

/-- Every task of the run as it is meant finds the array of its role unmoved. -/
def Clear (b : BaseRuntime) (outcomes : Outcomes) : Nat → List Task → (failed : List String) → Prop
  | _, [], _ => True
  | k, .local :: tasks, failed => outcomes.onLocal k ≠ .failed → b.Clear outcomes (k + 1) tasks failed
  | k, .remote source :: tasks, failed =>
    b.Unmoved failed source ∧
      b.Clear outcomes (k + 1) tasks (failed ++ failedNames (outcomes.onHosts k (b.remaining source failed)))

/-- In the run as it is meant a host survives, or a local task fails, or no remote task runs. -/
def Survives (b : BaseRuntime) (outcomes : Outcomes) (tasks : List Task) : Prop :=
  (b.survey outcomes 0 tasks []).1 = [] ∨ (b.survey outcomes 0 tasks []).2 = .failed ∨
    ∃ n ∈ b.names b.allHosts, ∀ ran ∈ (b.survey outcomes 0 tasks []).1, n ∉ ran.failed

end BaseRuntime

namespace Layout

theorem length_delete (l : Layout) (name : String) :
    (l.delete name).front.length + (l.delete name).behind.length = l.front.length + l.behind.length := by
  have le : (l.front.filter (Host.other name)).length ≤ l.front.length := List.length_filter_le _ _
  simp only [delete, List.length_append, List.length_drop]
  omega

theorem length_layout (hosts : List Host) (deleted : List String) :
    (layout hosts deleted).front.length + (layout hosts deleted).behind.length = hosts.length := by
  have keeps : ∀ l : Layout, (deleted.foldl delete l).front.length + (deleted.foldl delete l).behind.length =
      l.front.length + l.behind.length := by
    induction deleted with
    | nil => exact fun l => rfl
    | cons name deleted ih => exact fun l => (ih (l.delete name)).trans (length_delete l name)
  exact (keeps ⟨hosts, []⟩).trans (Nat.add_zero _)

theorem front_layout (hosts : List Host) (deleted : List String) :
    (layout hosts deleted).front = hosts.filter fun h => !deleted.contains h.name := by
  have keeps : ∀ l : Layout, (deleted.foldl delete l).front = l.front.filter fun h => !deleted.contains h.name := by
    induction deleted with
    | nil => exact fun l => (List.filter_eq_self.mpr fun _ _ => rfl).symm
    | cons name deleted ih =>
      intro l
      rw [List.foldl_cons, ih, delete, List.filter_filter]
      refine List.filter_congr fun h _ => ?_
      simp [Host.other, Bool.and_comm]
  exact keeps ⟨hosts, []⟩

/-- Only hosts of the list are left behind. -/
theorem mem_behind (hosts : List Host) (deleted : List String) : ∀ h ∈ (layout hosts deleted).behind, h ∈ hosts := by
  have keeps : ∀ l : Layout, (∀ x ∈ l.front ++ l.behind, x ∈ hosts) →
      ∀ x ∈ (deleted.foldl delete l).front ++ (deleted.foldl delete l).behind, x ∈ hosts := by
    induction deleted with
    | nil => exact fun l inside => inside
    | cons name deleted ih =>
      intro l inside
      refine ih (l.delete name) fun x there => inside x ?_
      rcases List.mem_append.mp there with front | behind
      · exact List.mem_append_left _ (List.mem_of_mem_filter front)
      · rcases List.mem_append.mp behind with moved | old
        · exact List.mem_append_left _ (List.mem_of_mem_drop moved)
        · exact List.mem_append_right _ old
  exact fun h left => keeps ⟨hosts, []⟩ (by simp) h (List.mem_append_right _ left)

theorem layout_append (hosts : List Host) (deleted : List String) (name : String) :
    layout hosts (deleted ++ [name]) = (layout hosts deleted).delete name := by
  simp [layout]

end Layout

namespace BaseRuntime

variable {b b' b'' : BaseRuntime} {failed : List String}

/-- The runtime `b'` is `b` after the deletion of the failed hosts, in their order. -/
structure Tracks (b b' : BaseRuntime) (failed : List String) : Prop where
  wf : b'.WellFormed
  ignoreErr : b'.ignoreErr = true
  all : b'.names b'.allHosts = (b.names b.allHosts).filter fun n => !failed.contains n
  deprecated : ∀ h, b'.hostIsDeprecated h = (b.hostIsDeprecated h || failed.contains h.name)
  roles : ∀ r s, b.roleHosts.get? r = some s →
    ∃ tail, b'.roleHosts.get? r = some ⟨s.array, (layout (b.list s) failed).front.length⟩ ∧
      b'.arrays s.array =
        ((layout (b.list s) failed).front ++ (layout (b.list s) failed).behind).map some ++ tail

theorem Tracks.start (wf : b.WellFormed) (ignoreErr : b.ignoreErr = true) : Tracks b b [] where
  wf := wf
  ignoreErr := ignoreErr
  all := (List.filter_eq_self.mpr fun _ _ => rfl).symm
  deprecated h := by simp
  roles r s found := by
    obtain ⟨full, -⟩ := wf.roles r s found
    refine ⟨(b.arrays s.array).drop s.len, ?_, ?_⟩
    · rw [found]
      exact congrArg some (congrArg (Slice.mk s.array) full.2.symm)
    · simpa [layout] using full.array

/-- A deletion is one more failed host. -/
theorem Tracks.delete {name : String} (tracks : Tracks b b' failed) (deleted : Deleted b' b'' name) :
    Tracks b b'' (failed ++ [name]) where
  wf := tracks.wf.deleted deleted
  ignoreErr := deleted.ignoreErr.trans tracks.ignoreErr
  all := by
    have kept : (b'.kept b'.allHosts name).map Host.name = (b'.names b'.allHosts).filter (· ≠ name) := by
      rw [BaseRuntime.kept, names, List.filter_map]
      rfl
    rw [names, deleted.all.2, kept, tracks.all, List.filter_filter]
    refine List.filter_congr fun n _ => ?_
    simp [Bool.and_comm]
  deprecated h := by
    have before := tracks.deprecated h
    simp only [hostIsDeprecated] at before ⊢
    rw [deleted.deprecatedHosts, List.contains_cons, before]
    simp only [List.contains_append, List.contains_cons, List.contains_nil, Bool.or_false]
    ac_rfl
  roles r s found := by
    obtain ⟨tail, found', array⟩ := tracks.roles r s found
    have slice := full_of_array (b := b') (s := ⟨s.array, (layout (b.list s) failed).front.length⟩)
      ((layout (b.list s) failed).behind.map some ++ tail) (by rw [array, List.map_append, List.append_assoc]) rfl
    obtain ⟨found'', array''⟩ := deleted.roles r _ found'
    have kept : b'.kept ⟨s.array, (layout (b.list s) failed).front.length⟩ name =
        ((layout (b.list s) failed).delete name).front := by
      rw [BaseRuntime.kept, slice.2]
      rfl
    rw [kept] at found'' array''
    refine ⟨tail, ?_, ?_⟩
    · rw [Layout.layout_append]
      exact found''
    · rw [Layout.layout_append]
      refine array''.trans ?_
      have le : ((layout (b.list s) failed).delete name).front.length ≤ (layout (b.list s) failed).front.length :=
        List.length_filter_le _ _
      rw [show b'.arrays s.array = _ from array, List.map_append, List.append_assoc,
        List.drop_append_of_le_length (by simpa using le)]
      simp [Layout.delete, List.map_drop]

/-- The hosts of the cluster that are left. -/
theorem Tracks.mem_all (tracks : Tracks b b' failed) {n : String} :
    n ∈ b'.names b'.allHosts ↔ n ∈ b.names b.allHosts ∧ n ∉ failed := by
  rw [tracks.all, List.mem_filter]
  simp

theorem hostNames_map_some (hosts : List Host) : hostNames (hosts.map some) = hosts.map Host.name := by
  simp [hostNames, List.filterMap_map]

/-- The loop over results of distinct hosts that are left in the cluster deletes those that failed, and clears the
status of the task. -/
theorem settle_spec (tracks : Tracks b b' failed) {results : List ActionResult} {hosts : List Host}
    (named : results.map ActionResult.host = hosts.map some) (distinct : (hosts.map Host.name).Nodup)
    (left : ∀ h ∈ hosts, h.name ∈ b'.names b'.allHosts) (status : ResultStatus) :
    ∃ b'' status', b'.settle true results status = .next b'' status' ∧
      Tracks b b'' (failed ++ failedNames results) ∧
      (status' = .failed → status = .failed ∧ ∀ ac ∈ results, ac.status ≠ .failed) := by
  induction results generalizing b' failed hosts status with
  | nil =>
    refine ⟨b', status, rfl, ?_, fun failed => ⟨failed, by simp⟩⟩
    rw [show failedNames [] = [] from rfl, List.append_nil]
    exact tracks
  | cons ac results ih =>
    cases hosts with
    | nil => cases named
    | cons host hosts =>
      obtain ⟨first, named⟩ := List.cons.inj named
      obtain ⟨fresh, distinct⟩ := List.nodup_cons.mp distinct
      have here := left host List.mem_cons_self
      have nonempty : b'.getAllHosts.length > 0 := by
        rw [tracks.wf.getAllHosts, List.length_map]
        obtain ⟨h, there, -⟩ := List.mem_map.mp here
        exact List.length_pos_of_mem there
      simp only [settle, first, tracks.ignoreErr, and_self, if_true, nonempty]
      by_cases bad : ac.status = .failed
      · obtain ⟨b₁, ran, deleted⟩ := deleteHost_spec tracks.wf here
        simp only [bad, if_true, ran]
        have rest : ∀ h ∈ hosts, h.name ∈ b₁.names b₁.allHosts := by
          intro h there
          rw [names, deleted.all.2, mem_kept]
          refine ⟨left h (List.mem_cons_of_mem _ there), fun same => ?_⟩
          exact fresh (same ▸ List.mem_map_of_mem there)
        obtain ⟨b'', status', done, tracks', cleared⟩ :=
          ih (tracks.delete deleted) named distinct rest .success
        refine ⟨b'', status', done, ?_, fun failed => absurd (cleared failed).1 (by simp)⟩
        have names : failedNames (ac :: results) = host.name :: failedNames results := by
          simp [failedNames, hostNames, bad, first]
        rw [names]
        simpa using tracks'
      · simp only [bad, if_false]
        obtain ⟨b'', status', done, tracks', cleared⟩ :=
          ih tracks named distinct (fun h there => left h (List.mem_cons_of_mem _ there)) status
        refine ⟨b'', status', done, ?_, fun failed => ⟨(cleared failed).1, ?_⟩⟩
        · have names : failedNames (ac :: results) = failedNames results := by
            simp [failedNames, bad]
          rw [names]
          exact tracks'
        · intro ac' there
          rcases List.mem_cons.mp there with rfl | there
          · exact bad
          · exact (cleared failed).2 ac' there

/-- A list without nil. -/
theorem map_some_filterMap {l : List (Option Host)} (full : ∀ h ∈ l, h.isSome) : (l.filterMap id).map some = l := by
  induction l with
  | nil => rfl
  | cons h l ih =>
    obtain ⟨host, rfl⟩ := Option.isSome_iff_exists.mp (full h List.mem_cons_self)
    rw [List.filterMap_cons_some (show id (some host) = some host from rfl), List.map_cons, ih fun h there => full h (List.mem_cons_of_mem _ there)]

/-- The results of a task on distinct hosts that are left. -/
theorem settle_results (tracks : Tracks b b' failed) (outcomes : Outcomes) (k : Nat) {hosts : List Host}
    (distinct : (hosts.map Host.name).Nodup) (left : ∀ h ∈ hosts, h.name ∈ b'.names b'.allHosts) :
    ∃ b'' status,
      b'.settle true (outcomes.onHosts k (hosts.map some)) (statusOf (outcomes.onHosts k (hosts.map some))) =
        .next b'' status ∧
      Tracks b b'' (failed ++ failedNames (outcomes.onHosts k (hosts.map some))) ∧ status ≠ .failed := by
  have each := outcomes.each k (hosts.map some)
  generalize outcomes.onHosts k (hosts.map some) = results at each
  -- the results name the hosts in an order of their own
  obtain ⟨order, named, perm⟩ : ∃ order : List Host, results.map ActionResult.host = order.map some ∧ order.Perm hosts := by
    refine ⟨(results.map ActionResult.host).filterMap id, (map_some_filterMap fun h there => ?_).symm, ?_⟩
    · obtain ⟨host, -, rfl⟩ := List.mem_map.mp (each.mem_iff.mp there)
      rfl
    · have perm := each.filterMap id
      simpa [List.filterMap_map] using perm
  obtain ⟨b'', status, done, tracks', cleared⟩ := settle_spec tracks named
    ((perm.map Host.name).nodup_iff.mpr distinct) (fun h there => left h (perm.mem_iff.mp there)) (statusOf results)
  refine ⟨b'', status, done, tracks', fun bad => ?_⟩
  obtain ⟨bad, none⟩ := cleared bad
  unfold statusOf at bad
  split at bad
  · next some =>
    obtain ⟨ac, there, failed⟩ := List.any_eq_true.mp some
    exact none ac there (by simpa using failed)
  · cases bad

/-- The hosts of a source are hosts of the cluster, and none is nil. -/
theorem read_obtain (wf : b.WellFormed) (source : Source) :
    ∃ hosts : List Host, b.read (b.obtain source) = hosts.map some ∧ ∀ h ∈ hosts, h.name ∈ b.names b.allHosts := by
  cases source with
  | all => exact ⟨b.list b.allHosts, wf.getAllHosts, fun h there => List.mem_map_of_mem there⟩
  | role r =>
    cases found : b.roleHosts.get? r with
    | none => exact ⟨[], by simp [obtain, getHostsByRole, found, read], by simp⟩
    | some s =>
      refine ⟨b.list s, ?_, fun h there => wf.inAll r s found h.name (List.mem_map_of_mem there)⟩
      simp only [obtain, getHostsByRole, found, read]
      exact (wf.roles r s found).1.1

theorem not_deprecated (wf : b.WellFormed) {h : Host} (inside : h.name ∈ b.names b.allHosts) :
    b.hostIsDeprecated h = false := by
  obtain ⟨h', there, same⟩ := List.mem_map.mp inside
  have alive := wf.alive h' there
  rwa [hostIsDeprecated, same] at alive

/-- Among hosts of the cluster, `Execute` passes over those that failed. -/
theorem Tracks.filter_skips (wf : b.WellFormed) (tracks : Tracks b b' failed) {hosts : List Host}
    (inside : ∀ h ∈ hosts, h.name ∈ b.names b.allHosts) :
    ((hosts.map some).filter fun h => !b'.skips h) = (hosts.filter fun h => !failed.contains h.name).map some := by
  rw [List.filter_map]
  refine congrArg (List.map some) (List.filter_congr fun h there => ?_)
  simp [skips, tracks.deprecated, not_deprecated wf (inside h there)]

theorem remaining_eq {source : Source} {hosts : List Host} (read : b.read (b.obtain source) = hosts.map some)
    (failed : List String) : b.remaining source failed = (hosts.filter fun h => !failed.contains h.name).map some := by
  rw [remaining, read, List.filter_map]
  rfl

/-- What a task reads of a role list that others have compacted. -/
theorem Tracks.read_shared (wf : b.WellFormed) (tracks : Tracks b b' failed) {r : String} {s : Slice}
    (found : b.roleHosts.get? r = some s) :
    b'.read (.shared s) = ((layout (b.list s) failed).front ++ (layout (b.list s) failed).behind).map some := by
  obtain ⟨tail, -, array⟩ := tracks.roles r s found
  have len := (wf.roles r s found).1.2
  rw [read, hosts, array, List.take_append_of_le_length]
  · refine List.take_of_length_le ?_
    rw [List.length_map, List.length_append, Layout.length_layout, len]
  · rw [List.length_map, List.length_append, Layout.length_layout, len]

/-- The hosts that a task runs on: those that have not failed, and those of them that deletions left behind. -/
theorem Tracks.executed_shared (wf : b.WellFormed) (tracks : Tracks b b' failed) {r : String} {s : Slice}
    (found : b.roleHosts.get? r = some s) :
    ((b'.read (.shared s)).filter fun h => !b'.skips h) =
      b.remaining (.role r) failed ++
        ((layout (b.list s) failed).behind.filter fun h => !failed.contains h.name).map some := by
  have read : b.read (b.obtain (.role r)) = (b.list s).map some := by
    simp only [obtain, getHostsByRole, found, BaseRuntime.read]
    exact (wf.roles r s found).1.1
  have all : ∀ h ∈ b.list s, h.name ∈ b.names b.allHosts := fun h there =>
    wf.inAll r s found h.name (List.mem_map_of_mem there)
  have inside : ∀ h ∈ (layout (b.list s) failed).front ++ (layout (b.list s) failed).behind,
      h.name ∈ b.names b.allHosts := by
    intro h there
    rcases List.mem_append.mp there with front | behind
    · rw [Layout.front_layout] at front
      exact all h (List.mem_of_mem_filter front)
    · exact all h (Layout.mem_behind _ _ h behind)
  rw [tracks.read_shared wf found, tracks.filter_skips wf inside, List.filter_append, List.map_append, remaining_eq read failed,
    Layout.front_layout, List.filter_filter]
  simp

/-- A task whose source is unmoved runs on the hosts that are left. -/
theorem Tracks.executed_of_unmoved (wf : b.WellFormed) (tracks : Tracks b b' failed) {source : Source}
    (unmoved : b.Unmoved failed source) :
    ((b'.read (b.obtain source)).filter fun h => !b'.skips h) = b.remaining source failed := by
  obtain ⟨hosts, read, inside⟩ := read_obtain wf source
  cases source with
  | all =>
    have own : b'.read (b.obtain .all) = hosts.map some := read
    rw [own, tracks.filter_skips wf inside, remaining_eq read failed]
  | role r =>
    cases found : b.roleHosts.get? r with
    | none => simp [obtain, getHostsByRole, found, BaseRuntime.read, remaining]
    | some s =>
      have shared : b.obtain (.role r) = .shared s := by simp [obtain, getHostsByRole, found]
      have none : ((layout (b.list s) failed).behind.filter fun h => !failed.contains h.name) = [] := by
        refine List.filter_eq_nil_iff.mpr fun h there => ?_
        simpa using (unmoved s found).2 h there
      rw [shared, tracks.executed_shared wf found, none]
      simp

theorem mem_remaining {source : Source} {n : String} :
    n ∈ hostNames (b.remaining source failed) ↔ n ∈ hostNames (b.read (b.obtain source)) ∧ n ∉ failed := by
  simp only [hostNames, remaining, List.mem_filterMap, List.mem_filter, Option.map_eq_some_iff]
  constructor
  · rintro ⟨_, ⟨there, left⟩, h, rfl, rfl⟩
    exact ⟨⟨some h, there, h, rfl, rfl⟩, by simpa using left⟩
  · rintro ⟨⟨_, there, h, rfl, rfl⟩, left⟩
    exact ⟨some h, ⟨there, by simpa using left⟩, h, rfl, rfl⟩

/-- The hosts left of an unmoved source are distinct. -/
theorem nodup_remaining (wf : b.WellFormed) {source : Source} (unmoved : b.Unmoved failed source) :
    (hostNames (b.remaining source failed)).Nodup := by
  cases source with
  | all =>
    have read : b.read (b.obtain .all) = (b.list b.allHosts).map some := wf.getAllHosts
    rw [remaining_eq read failed, hostNames_map_some]
    exact wf.distinct.sublist (List.filter_sublist.map Host.name)
  | role r =>
    cases found : b.roleHosts.get? r with
    | none => simp [obtain, getHostsByRole, found, BaseRuntime.read, remaining, hostNames]
    | some s => exact (unmoved s found).1

/-- A task runs once on each of its hosts that are left exactly if its source is unmoved. -/
theorem Tracks.once_iff_unmoved (wf : b.WellFormed) (tracks : Tracks b b' failed) (source : Source) :
    (∀ n ∈ hostNames (b.read (b.obtain source)), n ∉ failed →
        (hostNames ((b'.read (b.obtain source)).filter fun h => !b'.skips h)).count n = 1) ↔
      b.Unmoved failed source := by
  constructor
  · intro once
    cases source with
    | all => trivial
    | role r =>
      intro s found
      have shared : b.obtain (.role r) = .shared s := by simp [obtain, getHostsByRole, found]
      have names : ∀ n, (hostNames ((b'.read (b.obtain (.role r))).filter fun h => !b'.skips h)).count n =
          (hostNames (b.remaining (.role r) failed)).count n +
            (((layout (b.list s) failed).behind.filter fun h => !failed.contains h.name).map Host.name).count n := by
        intro n
        rw [shared, tracks.executed_shared wf found, hostNames, List.filterMap_append, List.count_append]
        exact congrArg _ (congrArg (List.count n) (hostNames_map_some _))
      constructor
      · refine List.nodup_iff_count_le_one.mpr fun n => ?_
        by_cases there : n ∈ hostNames (b.remaining (.role r) failed)
        · obtain ⟨target, left⟩ := mem_remaining.mp there
          have one := once n target left
          rw [names] at one
          omega
        · rw [List.count_eq_zero_of_not_mem there]
          exact Nat.zero_le 1
      · intro h behind
        by_contra left
        have listed : h ∈ b.list s := Layout.mem_behind _ _ h behind
        have target : h.name ∈ hostNames (b.read (b.obtain (.role r))) := by
          rw [shared, read, (wf.roles r s found).1.1, hostNames_map_some]
          exact List.mem_map_of_mem listed
        have one := once h.name target left
        rw [names] at one
        have front := List.count_pos_iff.mpr (mem_remaining.mpr ⟨target, left⟩)
        have twice : 0 <
            (((layout (b.list s) failed).behind.filter fun h => !failed.contains h.name).map Host.name).count h.name := by
          refine List.count_pos_iff.mpr (List.mem_map_of_mem (List.mem_filter.mpr ⟨behind, ?_⟩))
          simpa using left
        omega
  · intro unmoved n target left
    rw [tracks.executed_of_unmoved wf unmoved]
    exact List.count_eq_one_of_mem (nodup_remaining wf unmoved) (mem_remaining.mpr ⟨target, left⟩)

/-- No task runs on a host that failed. -/
theorem Tracks.not_executed (tracks : Tracks b b' failed) (hosts : Hosts) {n : String} (bad : n ∈ failed) :
    n ∉ hostNames ((b'.read hosts).filter fun h => !b'.skips h) := by
  intro there
  simp only [hostNames, List.mem_filterMap, List.mem_filter, Option.map_eq_some_iff] at there
  obtain ⟨_, ⟨-, runs⟩, h, rfl, rfl⟩ := there
  simp [skips, tracks.deprecated, bad] at runs

theorem runTasks_local (outcomes : Outcomes) (k : Nat) (tasks : List (Option (Hosts × List String))) :
    runTasks outcomes k (none :: tasks) b =
      if outcomes.onLocal k = .failed then ([], .failed) else runTasks outcomes (k + 1) tasks b := by
  simp only [runTasks, settle, statusOf, Bool.false_eq_true, false_and, if_false, List.any_cons, List.any_nil,
    Bool.or_false, decide_eq_true_eq]
  split <;> simp_all

/-- A remote task is the first of the run, whatever comes of it. -/
theorem runTasks_remote (outcomes : Outcomes) (k : Nat) (tasks : List (Option (Hosts × List String))) (hosts : Hosts)
    (targets : List String) :
    ∃ failed rest, (runTasks outcomes k (some (hosts, targets) :: tasks) b).1 =
      ⟨targets, hostNames ((b.read hosts).filter fun h => !b.skips h), failed⟩ :: rest := by
  simp only [runTasks]
  split
  · exact ⟨_, _, rfl⟩
  · exact ⟨_, _, rfl⟩
  · split
    · exact ⟨_, _, rfl⟩
    · exact ⟨_, _, rfl⟩

/-- A remote task on an unmoved source runs on the hosts that are left, and its failures are deleted. -/
theorem Tracks.remote (wf : b.WellFormed) (tracks : Tracks b b' failed) (outcomes : Outcomes) (k : Nat)
    (tasks : List (Option (Hosts × List String))) {source : Source} (unmoved : b.Unmoved failed source)
    (targets : List String) :
    ∃ b'', Tracks b b'' (failed ++ failedNames (outcomes.onHosts k (b.remaining source failed))) ∧
      runTasks outcomes k (some (b.obtain source, targets) :: tasks) b' =
        Ran.andThen ⟨targets, hostNames (b.remaining source failed),
          failedNames (outcomes.onHosts k (b.remaining source failed))⟩ (runTasks outcomes (k + 1) tasks b'') := by
  have distinct := nodup_remaining wf unmoved
  have executed := tracks.executed_of_unmoved wf unmoved
  obtain ⟨hosts, read, inside⟩ := read_obtain wf source
  have remaining := remaining_eq read failed
  rw [remaining, hostNames_map_some] at distinct
  have left : ∀ h ∈ hosts.filter fun h => !failed.contains h.name, h.name ∈ b'.names b'.allHosts := by
    intro h there
    obtain ⟨listed, alive⟩ := List.mem_filter.mp there
    exact tracks.mem_all.mpr ⟨inside h listed, by simpa using alive⟩
  obtain ⟨b'', status, done, tracks', passed⟩ := settle_results tracks outcomes k distinct left
  rw [← remaining] at done tracks'
  refine ⟨b'', tracks', ?_⟩
  simp only [runTasks, executed, done, passed, if_false]

/-- As long as no host that is left was left behind, the run is the one that is meant. -/
theorem runTasks_eq_survey (wf : b.WellFormed) (outcomes : Outcomes) {tasks : List Task} :
    ∀ {k : Nat} {b' : BaseRuntime} {failed : List String}, Tracks b b' failed → b.Clear outcomes k tasks failed →
      runTasks outcomes k (initTasks b tasks) b' = b.survey outcomes k tasks failed := by
  induction tasks with
  | nil => intros; rfl
  | cons task tasks ih =>
    intro k b' failed tracks clear
    cases task with
    | «local» =>
      rw [show initTasks b (.local :: tasks) = none :: initTasks b tasks from rfl, runTasks_local, survey]
      split
      · rfl
      · next passed => exact ih tracks (clear passed)
    | remote source =>
      obtain ⟨unmoved, clear⟩ := clear
      obtain ⟨b'', tracks', ran⟩ := tracks.remote wf outcomes k (initTasks b tasks) unmoved
        (hostNames (b.read (b.obtain source)))
      rw [show initTasks b (.remote source :: tasks) =
        some (b.obtain source, hostNames (b.read (b.obtain source))) :: initTasks b tasks from rfl, ran, survey]
      exact congrArg _ (ih tracks' clear)

/-- The run is fair to the hosts exactly if no host that is left was left behind. -/
theorem fair_iff_clear (wf : b.WellFormed) (outcomes : Outcomes) {tasks : List Task} :
    ∀ {k : Nat} {b' : BaseRuntime} {failed : List String}, Tracks b b' failed →
      (Fair failed (runTasks outcomes k (initTasks b tasks) b').1 ↔ b.Clear outcomes k tasks failed) := by
  induction tasks with
  | nil => exact fun _ => Iff.rfl
  | cons task tasks ih =>
    intro k b' failed tracks
    cases task with
    | «local» =>
      rw [show initTasks b (.local :: tasks) = none :: initTasks b tasks from rfl, runTasks_local, Clear]
      split
      · next bad => exact ⟨fun _ passed => absurd bad passed, fun _ => trivial⟩
      · next passed => exact (ih tracks).trans ⟨fun clear _ => clear, fun clear => clear passed⟩
    | remote source =>
      rw [show initTasks b (.remote source :: tasks) =
        some (b.obtain source, hostNames (b.read (b.obtain source))) :: initTasks b tasks from rfl, Clear]
      by_cases unmoved : b.Unmoved failed source
      · obtain ⟨b'', tracks', ran⟩ := tracks.remote wf outcomes k (initTasks b tasks) unmoved
          (hostNames (b.read (b.obtain source)))
        have once := (tracks.once_iff_unmoved wf source).mpr unmoved
        have never : ∀ n ∈ failed, n ∉ hostNames (b.remaining source failed) := fun n bad there =>
          (mem_remaining.mp there).2 bad
        rw [tracks.executed_of_unmoved wf unmoved] at once
        rw [ran, Ran.andThen, Fair, ih tracks']
        exact ⟨fun fair => ⟨unmoved, fair.2.2⟩, fun clear => ⟨never, once, clear.2⟩⟩
      · obtain ⟨bad, rest, first⟩ := runTasks_remote (b := b') outcomes k (initTasks b tasks) (b.obtain source)
          (hostNames (b.read (b.obtain source)))
        rw [first, Fair]
        constructor
        · exact fun fair => absurd ((tracks.once_iff_unmoved wf source).mp fair.2.1) unmoved
        · exact fun clear => absurd clear.1 unmoved

/-- A module that ignores errors treats its hosts as it should, and notices when it has lost them all, exactly if in the
run as it is meant the role lists are not moved under a task and a host survives. -/
theorem module_fair (b : BaseRuntime) (outcomes : Outcomes) (tasks : List Task) (built : b.Built)
    (ignoreErr : b.ignoreErr = true) :
    (Fair [] (runModule outcomes tasks b).1 ∧ Noticed (b.names b.allHosts) (runModule outcomes tasks b)) ↔
      b.Clear outcomes 0 tasks [] ∧ b.Survives outcomes tasks := by
  have wf := built.numbered.toWellFormed
  have start := Tracks.start wf ignoreErr
  have fair : Fair [] (runModule outcomes tasks b).1 ↔ b.Clear outcomes 0 tasks [] := fair_iff_clear wf outcomes start
  rw [fair]
  refine and_congr_right fun clear => ?_
  have same : runModule outcomes tasks b = b.survey outcomes 0 tasks [] := runTasks_eq_survey wf outcomes start clear
  rw [same, Noticed, Survives]
  constructor
  · intro noticed
    by_cases none : (b.survey outcomes 0 tasks []).1 = []
    · exact .inl none
    · by_cases lost : ∀ n ∈ b.names b.allHosts, ∃ ran ∈ (b.survey outcomes 0 tasks []).1, n ∈ ran.failed
      · exact .inr (.inl (noticed none lost))
      · push Not at lost
        exact .inr (.inr lost)
  · rintro (none | failed | ⟨n, inside, survives⟩) some lost
    · exact absurd none some
    · exact failed
    · obtain ⟨ran, there, bad⟩ := lost n inside
      exact absurd bad (survives ran there)

/-- A runtime with hosts of one role. -/
def ofMasters (names : List String) : BaseRuntime :=
  names.foldl (fun b n => (b.appendHost ⟨n, "", ["master"]⟩).appendRoleMap ⟨n, "", ["master"]⟩) (.new true)

/-- Tasks that fail on the hosts they are told to. -/
def scripted (bad : Nat → String → Bool) : Outcomes where
  onHosts k hosts := hosts.map fun h => ⟨h, if h.any fun h => bad k h.name then .failed else .success, none⟩
  onLocal _ := .success
  each k hosts := by simp [Function.comp_def]

/-- The host that stands last fails the first of two tasks. -/
theorem module_fair_last :
    (Fair [] (runModule (scripted fun k n => k = 0 ∧ n = "c") [.remote (.role "master"), .remote (.role "master")]
        (ofMasters ["a", "b", "c"])).1 ∧
      Noticed ((ofMasters ["a", "b", "c"]).names (ofMasters ["a", "b", "c"]).allHosts)
        (runModule (scripted fun k n => k = 0 ∧ n = "c") [.remote (.role "master"), .remote (.role "master")]
          (ofMasters ["a", "b", "c"]))) ↔
      (ofMasters ["a", "b", "c"]).Clear (scripted fun k n => k = 0 ∧ n = "c") 0
          [.remote (.role "master"), .remote (.role "master")] [] ∧
        (ofMasters ["a", "b", "c"]).Survives (scripted fun k n => k = 0 ∧ n = "c")
          [.remote (.role "master"), .remote (.role "master")] := by
  have built : (ofMasters ["a", "b", "c"]).Built :=
    .append (.append (.append (.new true) (by decide) (by decide)) (by decide) (by decide)) (by decide) (by decide)
  exact module_fair _ _ _ built rfl

/-- The host that stands first fails, and the second task runs on the last host twice. A module loses its only host and
succeeds. -/
theorem module_unfair :
    (runModule (scripted fun k n => k = 0 ∧ n = "a") [.remote (.role "master"), .remote (.role "master")]
        (ofMasters ["a", "b", "c"])).1 =
      [⟨["a", "b", "c"], ["a", "b", "c"], ["a"]⟩, ⟨["a", "b", "c"], ["b", "c", "c"], []⟩] ∧
    ¬ Fair [] (runModule (scripted fun k n => k = 0 ∧ n = "a") [.remote (.role "master"), .remote (.role "master")]
        (ofMasters ["a", "b", "c"])).1 ∧
    runModule (scripted fun _ _ => true) [.remote .all] (ofMasters ["a"]) = ([⟨["a"], ["a"], ["a"]⟩], .success) ∧
    ¬ Noticed ((ofMasters ["a"]).names (ofMasters ["a"]).allHosts)
        (runModule (scripted fun _ _ => true) [.remote .all] (ofMasters ["a"])) := by
  have first : (runModule (scripted fun k n => k = 0 ∧ n = "a") [.remote (.role "master"), .remote (.role "master")]
        (ofMasters ["a", "b", "c"])).1 =
      [⟨["a", "b", "c"], ["a", "b", "c"], ["a"]⟩, ⟨["a", "b", "c"], ["b", "c", "c"], []⟩] := by decide +kernel
  have lost : runModule (scripted fun _ _ => true) [.remote .all] (ofMasters ["a"]) =
      ([⟨["a"], ["a"], ["a"]⟩], .success) := by decide +kernel
  refine ⟨first, ?_, lost, ?_⟩
  · rw [first]
    rintro ⟨-, -, -, once, -⟩
    have two := once "c" (by decide) (by decide)
    revert two
    decide
  · rw [lost]
    intro noticed
    have failed := noticed (by simp) (by decide +kernel)
    cases failed

end BaseRuntime

end KubeKey.Core
