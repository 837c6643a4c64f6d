import KubeKey.Controllers.Playbook

/-!
# The phases of a playbook

The phase moves from new over pending and running to failed or succeeded, the pod is
created only while the phase is running and there is none, and the finalizer goes only when
no pod is left (`Sound`). The code does this in the runs in which a reconcile that creates
a pod, or patches a phase that it changed, meets the phase that it got (`Fresh`), and in no
others: between its `Get` and its `Patch` the executor may complete the playbook, and the
patch does not check that.
-/

namespace KubeKey.Controllers

open KubeKey.Go

/-- The moves of the phase. -/
inductive Moves : PlaybookPhase → PlaybookPhase → Prop where
  | stays (phase : PlaybookPhase) : Moves phase phase
  | pending : Moves .new .pending
  | running : Moves .pending .running
  | failed : Moves .running .failed
  | succeeded : Moves .running .succeeded

theorem Moves.completed {phase phase' : PlaybookPhase} (moves : Moves phase phase') (completed : phase.Completed) :
    phase' = phase := by
  cases moves with
  | stays => rfl
  | pending | running | failed | succeeded => rcases completed with h | h <;> cases h

/-- The playbook has no pod yet. -/
def PlaybookPhase.Early (phase : PlaybookPhase) : Prop := phase = .new ∨ phase = .pending

theorem Moves.early {phase phase' : PlaybookPhase} (moves : Moves phase phase') (early : phase'.Early) :
    phase.Early := by
  cases moves with
  | stays => exact early
  | pending => exact .inl rfl
  | running | failed | succeeded => rcases early with h | h <;> cases h

theorem Moves.to_completed {phase phase' : PlaybookPhase} (moves : Moves phase phase') (completed : phase'.Completed) :
    phase' = phase ∨ phase = .running := by
  cases moves with
  | stays => exact .inl rfl
  | failed | succeeded => exact .inr rfl
  | pending | running => rcases completed with h | h <;> cases h

/-- The write is carried out. -/
def Reply.Applied : Reply → Prop
  | .refused _ => False
  | .ok | .lost _ => True

/-- The executor in the pod has set the phase, or sets it no more. -/
def Pod.Settled (pod : Pod) : Prop := pod.status.phase.Ended ∨ pod.reported = true

/-- The reconcile has come to its patches. -/
def Next.Patches (next : Next) : Prop := next = .patch ∨ next = .patchStatus

namespace Cluster

/-- What a step may do to a playbook and its pods. -/
structure Sound (s s' : Cluster) : Prop where
  phase : ∀ p p', s.playbook = some p → s'.playbook = some p' → Moves p.status.phase p'.status.phase
  gone : s.playbook = none → s'.playbook = none
  created : s'.created ≠ s.created → s.pods = [] ∧ ∃ p, s.playbook = some p ∧ p.status.phase = .running
  onePod : s'.pods.length ≤ 1
  finalizer : ∀ p, s.playbook = some p → playbookCompletedFinalizer ∈ p.finalizers →
    (∀ p', s'.playbook = some p' → playbookCompletedFinalizer ∉ p'.finalizers) → s.pods = []

/-- The condition on a step: the creation of a pod, and the patch of a phase that the reconcile changed, meet the phase
that the reconcile got, or the patch meets the phase that it writes. -/
def Fresh (s : Cluster) : Act → Prop
  | .create reply => reply.Applied → ∀ r p, s.reconcile = some r → r.next = .create → s.playbook = some p →
      p.status.phase = r.before.status.phase
  | .patchStatus applied => applied = true → ∀ r p, s.reconcile = some r → r.next = .patchStatus →
      s.playbook = some p → r.playbook.status.phase ≠ r.before.status.phase →
        p.status.phase = r.before.status.phase ∨ p.status.phase = r.playbook.status.phase
  | _ => True

/-- A pod is the only one, and its playbook has the finalizer and has come to run. -/
structure Owned (s : Cluster) : Prop where
  onePod : s.pods.length ≤ 1
  held : s.pods ≠ [] → ∃ p, s.playbook = some p ∧ playbookCompletedFinalizer ∈ p.finalizers
  early : ∀ p, s.playbook = some p → p.status.phase.Early → s.pods = []
  settled : ∀ p, s.playbook = some p → p.status.phase.Completed → ∀ pod ∈ s.pods, pod.Settled

/-- What a reconcile knows about the objects. -/
structure InFlight (s : Cluster) (r : Reconcile) : Prop where
  behind : ∀ p, s.playbook = some p → p.status.phase = r.before.status.phase ∨
    r.before.status.phase = .running ∧ p.status.phase.Completed
  held : r.next ≠ .patchStatus → playbookCompletedFinalizer ∈ r.before.finalizers →
    ∃ p, s.playbook = some p ∧ playbookCompletedFinalizer ∈ p.finalizers
  finalizers : r.playbook.finalizers = r.before.finalizers ∨ playbookCompletedFinalizer ∈ r.playbook.finalizers ∨
    s.pods = []
  running : r.next = .list ∨ r.next = .create → r.before.status.phase = .running ∧
    playbookCompletedFinalizer ∈ r.before.finalizers ∧ r.playbook.finalizers = r.before.finalizers
  free : r.next = .create → s.pods = []
  moves : Moves r.before.status.phase r.playbook.status.phase
  completed : r.playbook.status.phase = r.before.status.phase ∨ ¬ r.playbook.status.phase.Completed ∨
    r.next.Patches ∧ ∀ pod ∈ s.pods, pod.Settled

/-- What holds between the steps. -/
structure Inv (s : Cluster) : Prop where
  owned : s.Owned
  inFlight : ∀ r, s.reconcile = some r → s.InFlight r

/-- A step that creates no pod. -/
structure Follows (s s' : Cluster) : Prop where
  pods : ∀ pod' ∈ s'.pods, ∃ pod ∈ s.pods, pod.Settled → pod'.Settled
  fewer : s'.pods.length ≤ s.pods.length
  created : s'.created = s.created
  gone : s.playbook = none → s'.playbook = none
  phase : ∀ p p', s.playbook = some p → s'.playbook = some p' → Moves p.status.phase p'.status.phase ∧
    (p'.status.phase = p.status.phase ∨ ¬ p'.status.phase.Completed ∨ ∀ pod ∈ s'.pods, pod.Settled)
  kept : ∀ p, s.playbook = some p → playbookCompletedFinalizer ∈ p.finalizers → s.pods = [] ∨
    ∃ p', s'.playbook = some p' ∧ playbookCompletedFinalizer ∈ p'.finalizers

variable {s s' : Cluster} {r r' : Reconcile}

namespace Follows

theorem no_pods (follows : Follows s s') (none : s.pods = []) : s'.pods = [] := by
  have fewer := follows.fewer
  rw [none] at fewer
  exact List.length_eq_zero_iff.mp (Nat.le_zero.mp fewer)

theorem settled (follows : Follows s s') (settled : ∀ pod ∈ s.pods, pod.Settled) : ∀ pod ∈ s'.pods, pod.Settled := by
  intro pod' inside
  obtain ⟨pod, here, still⟩ := follows.pods pod' inside
  exact still (settled pod here)

/-- A playbook after the step was there before. -/
theorem old (follows : Follows s s') {p' : Playbook} (here : s'.playbook = some p') : ∃ p, s.playbook = some p := by
  cases was : s.playbook with
  | none =>
    rw [follows.gone was] at here
    cases here
  | some p => exact ⟨p, rfl⟩

theorem owned (follows : Follows s s') (owned : s.Owned) : s'.Owned where
  onePod := follows.fewer.trans owned.onePod
  held some := by
    have some' : s.pods ≠ [] := fun none => some (follows.no_pods none)
    obtain ⟨p, here, mine⟩ := owned.held some'
    exact (follows.kept p here mine).resolve_left some'
  early p' here' early := by
    obtain ⟨p, here⟩ := follows.old here'
    exact follows.no_pods (owned.early p here ((follows.phase p p' here here').1.early early))
  settled p' here' completed := by
    obtain ⟨p, here⟩ := follows.old here'
    rcases (follows.phase p p' here here').2 with same | not | settled
    · exact follows.settled (owned.settled p here (same ▸ completed))
    · exact absurd completed not
    · exact settled

theorem sound (follows : Follows s s') (owned : s.Owned) : Sound s s' where
  phase p p' here here' := (follows.phase p p' here here').1
  gone := follows.gone
  created grown := absurd follows.created grown
  onePod := follows.fewer.trans owned.onePod
  finalizer p here mine lost := by
    rcases follows.kept p here mine with none | ⟨p', here', mine'⟩
    · exact none
    · exact absurd mine' (lost p' here')

/-- What the reconcile knows stays true. -/
theorem inFlight (follows : Follows s s') (inFlight : s.InFlight r)
    (behind : ∀ p p', s.playbook = some p → s'.playbook = some p' →
      p'.status.phase = p.status.phase ∨ p.status.phase = .running ∧ p'.status.phase.Completed)
    (holds : ∀ p, s.playbook = some p → playbookCompletedFinalizer ∈ p.finalizers →
      ∃ p', s'.playbook = some p' ∧ playbookCompletedFinalizer ∈ p'.finalizers) : s'.InFlight r where
  behind p' here' := by
    obtain ⟨p, here⟩ := follows.old here'
    rcases behind p p' here here' with same | ⟨running, completed⟩
    · rw [same]
      exact inFlight.behind p here
    · rcases inFlight.behind p here with same | ⟨before, -⟩
      · exact .inr ⟨same.symm.trans running, completed⟩
      · exact .inr ⟨before, completed⟩
  held early mine := by
    obtain ⟨p, here, mine⟩ := inFlight.held early mine
    exact holds p here mine
  finalizers := inFlight.finalizers.imp_right (Or.imp_right follows.no_pods)
  running := inFlight.running
  free next := follows.no_pods (inFlight.free next)
  moves := inFlight.moves
  completed := inFlight.completed.imp_right (Or.imp_right (And.imp_right follows.settled))

/-- The objects are as they were. -/
theorem same (playbook : s'.playbook = s.playbook) (pods : s'.pods = s.pods) (created : s'.created = s.created) :
    Follows s s' where
  pods pod inside := ⟨pod, pods ▸ inside, id⟩
  fewer := by rw [pods]
  created := created
  gone none := playbook.trans none
  phase p p' here here' := by
    cases here.symm.trans (playbook.symm.trans here')
    exact ⟨.stays _, .inl rfl⟩
  kept p here mine := .inr ⟨p, playbook.trans here, mine⟩

/-- The pods change, and the playbook does not. -/
theorem of_pods {pods : List Pod} (each : ∀ pod' ∈ pods, ∃ pod ∈ s.pods, pod.Settled → pod'.Settled)
    (fewer : pods.length ≤ s.pods.length) : Follows s { s with pods := pods } where
  pods := each
  fewer := fewer
  created := rfl
  gone none := none
  phase p p' here here' := by
    cases here.symm.trans here'
    exact ⟨.stays _, .inl rfl⟩
  kept p here mine := .inr ⟨p, here, mine⟩

/-- The playbook changes in what is no status of it, and the pods do not. -/
theorem of_playbook {playbook : Option Playbook} (gone : s.playbook = none → playbook = none)
    (status : ∀ p p', s.playbook = some p → playbook = some p' → p'.status = p.status)
    (kept : ∀ p, s.playbook = some p → playbookCompletedFinalizer ∈ p.finalizers → s.pods = [] ∨
      ∃ p', playbook = some p' ∧ playbookCompletedFinalizer ∈ p'.finalizers) :
    Follows s { s with playbook := playbook } where
  pods pod inside := ⟨pod, inside, id⟩
  fewer := le_rfl
  created := rfl
  gone := gone
  phase p p' here here' := by
    rw [status p p' here here']
    exact ⟨.stays _, .inl rfl⟩
  kept := kept

end Follows

namespace Inv

/-- The reconcile goes on, and the objects are as they were. -/
theorem goes (inv : Inv s) (knows : s.InFlight r) :
    Inv { s with reconcile := some r } ∧ Sound s { s with reconcile := some r } := by
  have follows : Follows s { s with reconcile := some r } := .same rfl rfl rfl
  refine ⟨⟨follows.owned inv.owned, fun r' running => ?_⟩, follows.sound inv.owned⟩
  cases running
  exact ⟨knows.behind, knows.held, knows.finalizers, knows.running, knows.free, knows.moves, knows.completed⟩

/-- Another party takes a step. -/
theorem follows (inv : Inv s) (follows : Follows s s') (reconcile : s'.reconcile = s.reconcile)
    (behind : ∀ p p', s.playbook = some p → s'.playbook = some p' →
      p'.status.phase = p.status.phase ∨ p.status.phase = .running ∧ p'.status.phase.Completed)
    (holds : ∀ p, s.playbook = some p → playbookCompletedFinalizer ∈ p.finalizers →
      ∃ p', s'.playbook = some p' ∧ playbookCompletedFinalizer ∈ p'.finalizers) : Inv s' ∧ Sound s s' :=
  ⟨⟨follows.owned inv.owned, fun r running =>
    follows.inFlight (inv.inFlight r (reconcile.symm.trans running)) behind holds⟩, follows.sound inv.owned⟩

/-- The pods change, and nothing else. -/
theorem of_pods (inv : Inv s) {pods : List Pod}
    (each : ∀ pod' ∈ pods, ∃ pod ∈ s.pods, pod.Settled → pod'.Settled) (fewer : pods.length ≤ s.pods.length) :
    Inv { s with pods := pods } ∧ Sound s { s with pods := pods } := by
  refine inv.follows (.of_pods each fewer) rfl (fun p p' here here' => ?_) (fun p here mine => ⟨p, here, mine⟩)
  cases here.symm.trans here'
  exact .inl rfl

/-- A change of the playbook that is none of its status and keeps the finalizer. -/
theorem of_playbook (inv : Inv s) {playbook : Option Playbook} (gone : s.playbook = none → playbook = none)
    (status : ∀ p p', s.playbook = some p → playbook = some p' → p'.status = p.status)
    (holds : ∀ p, s.playbook = some p → playbookCompletedFinalizer ∈ p.finalizers →
      ∃ p', playbook = some p' ∧ playbookCompletedFinalizer ∈ p'.finalizers) :
    Inv { s with playbook := playbook } ∧ Sound s { s with playbook := playbook } :=
  inv.follows (.of_playbook gone status fun p here mine => .inr (holds p here mine)) rfl
    (fun p p' here here' => .inl (by rw [status p p' here here'])) holds

end Inv

/-! What the other parties do. -/

theorem observe_settled {suffix : Nat} {status : PodStatus} {pod : Pod} (settled : pod.Settled) :
    (pod.observe suffix status).Settled := by
  unfold Pod.observe
  split
  · next changes => exact .inr (settled.resolve_left changes.2)
  · exact settled

theorem Inv.podStatus (inv : Inv s) (suffix : Nat) (status : PodStatus) :
    Inv { s with pods := s.pods.map (Pod.observe suffix status) } ∧
      Sound s { s with pods := s.pods.map (Pod.observe suffix status) } := by
  refine inv.of_pods (fun pod' inside => ?_) (by rw [List.length_map])
  obtain ⟨pod, here, rfl⟩ := List.mem_map.mp inside
  exact ⟨pod, here, observe_settled⟩

theorem Inv.podRemoved (inv : Inv s) (keep : Pod → Bool) :
    Inv { s with pods := s.pods.filter keep } ∧ Sound s { s with pods := s.pods.filter keep } :=
  inv.of_pods (fun pod inside => ⟨pod, List.mem_of_mem_filter inside, id⟩) (List.length_filter_le keep s.pods)

theorem remains_eq_some {p p' : Playbook} (remains : p.remains = some p') : p' = p := by
  unfold Playbook.remains at remains
  split at remains
  · cases remains
  · cases remains
    rfl

theorem remains_of_mem {p : Playbook} {finalizer : String} (mine : finalizer ∈ p.finalizers) : p.remains = some p := by
  unfold Playbook.remains
  rw [if_neg]
  rintro ⟨-, none⟩
  rw [none] at mine
  cases mine

theorem setFinalizers_status {p p' : Playbook} {finalizers : List String}
    (set : p.setFinalizers finalizers = some p') : p'.status = p.status := by
  unfold Playbook.setFinalizers at set
  split at set
  · cases set
    rfl
  · rw [remains_eq_some set]

/-- A finalizer that is set, or one that was there if the request is refused, keeps the object. -/
theorem setFinalizers_kept {p : Playbook} {finalizers : List String} {finalizer : String}
    (mine : finalizer ∈ p.finalizers) (set : finalizer ∈ finalizers) :
    ∃ p', p.setFinalizers finalizers = some p' ∧ finalizer ∈ p'.finalizers := by
  unfold Playbook.setFinalizers
  split
  · exact ⟨p, rfl, mine⟩
  · exact ⟨_, remains_of_mem set, set⟩

theorem Inv.playbookDeleted (inv : Inv s) :
    Inv { s with playbook := s.playbook.bind Playbook.delete } ∧
      Sound s { s with playbook := s.playbook.bind Playbook.delete } := by
  refine inv.of_playbook (fun none => by rw [none]; rfl) (fun p p' here here' => ?_) (fun p here mine => ?_)
  · rw [here] at here'
    rw [remains_eq_some here']
  · rw [here]
    exact ⟨_, remains_of_mem mine, mine⟩

theorem Inv.finalizers (inv : Inv s) (finalizers : List String) :
    Inv { s with playbook := s.playbook.bind (Playbook.setOthers finalizers) } ∧
      Sound s { s with playbook := s.playbook.bind (Playbook.setOthers finalizers) } := by
  refine inv.of_playbook (fun none => by rw [none]; rfl) (fun p p' here here' => ?_) (fun p here mine => ?_)
  · rw [here, Option.bind_some, Playbook.setOthers] at here'
    split at here'
    · exact setFinalizers_status here'
    · cases here'
      rfl
  · rw [here, Option.bind_some, Playbook.setOthers]
    split
    · next same => exact setFinalizers_kept mine (same.mpr mine)
    · exact ⟨p, rfl, mine⟩

/-- While a pod can still set the phase, the phase is running. -/
theorem Owned.running (owned : s.Owned) {pod : Pod} (inside : pod ∈ s.pods) (unsettled : ¬ pod.Settled) {p : Playbook}
    (here : s.playbook = some p) : p.status.phase = .running := by
  have late : ¬ p.status.phase.Early := fun early => List.ne_nil_of_mem inside (owned.early p here early)
  have runs : ¬ p.status.phase.Completed := fun completed => unsettled (owned.settled p here completed pod inside)
  cases phase : p.status.phase with
  | new => exact absurd (.inl phase) late
  | pending => exact absurd (.inr phase) late
  | running => rfl
  | failed => exact absurd (.inl phase) runs
  | succeeded => exact absurd (.inr phase) runs

theorem Owned.only (owned : s.Owned) {pod pod' : Pod} (inside : pod ∈ s.pods) (inside' : pod' ∈ s.pods) :
    pod' = pod := by
  obtain ⟨one, single⟩ := List.length_eq_one_iff.mp
    (Nat.le_antisymm owned.onePod (List.length_pos_of_mem inside))
  rw [single] at inside inside'
  rw [List.mem_singleton.mp inside, List.mem_singleton.mp inside']

theorem executorStatus_moves (status : PlaybookStatus) (err : Option String) :
    Moves .running (executorStatus status err).phase ∧ (executorStatus status err).phase.Completed := by
  cases err with
  | none => exact ⟨.succeeded, .inr rfl⟩
  | some err => exact ⟨.failed, .inl rfl⟩

theorem Inv.executor (inv : Inv s) {suffix : Nat} {err : Option String} {pod : Pod} (inside : pod ∈ s.pods)
    (named : pod.suffix = suffix) (unsettled : ¬ pod.Settled)
    (after : s' = { s with
      playbook := s.playbook.map fun p => { p with status := executorStatus p.status err },
      pods := s.pods.map (Pod.report suffix) }) : Inv s' ∧ Sound s s' := by
  subst after
  have settles : ∀ pod' ∈ s.pods.map (Pod.report suffix), pod'.Settled := by
    intro pod' inside'
    obtain ⟨pod'', here, rfl⟩ := List.mem_map.mp inside'
    rw [inv.owned.only inside here, Pod.report, if_pos named]
    exact .inr rfl
  have set : ∀ p p', s.playbook = some p →
      (s.playbook.map fun p => { p with status := executorStatus p.status err }) = some p' →
        p' = { p with status := executorStatus p.status err } := by
    intro p p' here here'
    rw [here] at here'
    cases here'
    rfl
  refine inv.follows ⟨fun pod' inside' => ⟨pod, inside, fun _ => settles pod' inside'⟩, by simp, rfl,
    fun none => by simp [none], fun p p' here here' => ?_, fun p here mine => .inr ?_⟩ rfl
    (fun p p' here here' => ?_) (fun p here mine => ?_)
  · rw [set p p' here here', inv.owned.running inside unsettled here]
    exact ⟨(executorStatus_moves p.status err).1, .inr (.inr settles)⟩
  · exact ⟨{ p with status := executorStatus p.status err }, by simp [here], mine⟩
  · rw [set p p' here here']
    exact .inr ⟨inv.owned.running inside unsettled here, (executorStatus_moves p.status err).2⟩
  · exact ⟨{ p with status := executorStatus p.status err }, by simp [here], mine⟩

/-! The steps of the reconcile. -/

namespace InFlight

/-- The reconcile goes on from what it knows. -/
theorem goes (knows : s.InFlight r) (early : r.next ≠ .patchStatus) (before : r'.before = r.before)
    (finalizers : r'.playbook.finalizers = r.before.finalizers ∨
      playbookCompletedFinalizer ∈ r'.playbook.finalizers ∨ s.pods = [])
    (running : r'.next = .list ∨ r'.next = .create → r.before.status.phase = .running ∧
      playbookCompletedFinalizer ∈ r.before.finalizers ∧ r'.playbook.finalizers = r.before.finalizers)
    (free : r'.next = .create → s.pods = [])
    (moves : Moves r.before.status.phase r'.playbook.status.phase)
    (completed : r'.playbook.status.phase = r.before.status.phase ∨ ¬ r'.playbook.status.phase.Completed ∨
      r'.next.Patches ∧ ∀ pod ∈ s.pods, pod.Settled) : s.InFlight r' where
  behind := before ▸ knows.behind
  held _ := before ▸ knows.held early
  finalizers := before ▸ finalizers
  running := before ▸ running
  free := free
  moves := before ▸ moves
  completed := before ▸ completed

/-- On to the next request, with the playbook as it is. -/
theorem goes_next (knows : s.InFlight r) (early : ¬ r.next.Patches) {next : Next}
    (running : next = .list ∨ next = .create → r.before.status.phase = .running ∧
      playbookCompletedFinalizer ∈ r.before.finalizers ∧ r.playbook.finalizers = r.before.finalizers)
    (free : next = .create → s.pods = []) : s.InFlight { r with next := next } :=
  knows.goes (fun last => early (.inr last)) rfl knows.finalizers running free knows.moves
    (knows.completed.imp_right fun rest => .inl (rest.resolve_right fun late => early late.1))

theorem finish_before (playbook : Playbook) (retErr : Option String) :
    (r.finish playbook retErr).before = r.before ∧ (r.finish playbook retErr).next = .listStatus ∧
      (r.finish playbook retErr).playbook.finalizers = playbook.finalizers ∧
      (r.finish playbook retErr).playbook.status.phase = playbook.status.phase := by
  cases retErr <;> exact ⟨rfl, rfl, rfl, rfl⟩

/-- On to `reconcileStatus`. -/
theorem finish (knows : s.InFlight r) (early : ¬ r.next.Patches) {playbook : Playbook} (retErr : Option String)
    (finalizers : playbook.finalizers = r.before.finalizers ∨ playbookCompletedFinalizer ∈ playbook.finalizers ∨
      s.pods = [])
    (moves : Moves r.before.status.phase playbook.status.phase)
    (unsettled : playbook.status.phase = r.before.status.phase ∨ ¬ playbook.status.phase.Completed) :
    s.InFlight (r.finish playbook retErr) := by
  obtain ⟨before, next, same, phase⟩ := finish_before (r := r) playbook retErr
  refine knows.goes (fun last => early (.inr last)) before ?_ ?_ ?_ ?_ ?_
  · rw [same]
    exact finalizers
  · rw [next]
    simp
  · rw [next]
    simp
  · rw [phase]
    exact moves
  · rw [phase]
    exact unsettled.imp_right .inl

/-- On to `reconcileStatus` with the playbook as it is. -/
theorem finish_same (knows : s.InFlight r) (early : ¬ r.next.Patches) (retErr : Option String) :
    s.InFlight (r.finish r.playbook retErr) :=
  knows.finish early retErr knows.finalizers knows.moves
    (knows.completed.imp_right fun rest => rest.resolve_right fun late => early late.1)

/-- `Get`, up to the next request. -/
theorem start {p : Playbook} (here : s.playbook = some p) :
    s.InFlight (Controllers.reconcile p) := by
  have base : s.InFlight ⟨p, p, .listStatus⟩ := by
    refine ⟨fun p' here' => ?_, fun _ mine => ⟨p, here, mine⟩, .inl rfl, by simp, by simp, .stays _, .inl rfl⟩
    cases here.symm.trans here'
    exact .inl rfl
  have early : ¬ Next.Patches .listStatus := by simp [Next.Patches]
  unfold Controllers.reconcile
  split
  · next new =>
    refine base.finish early none (.inr (.inl ?_)) ?_ ?_
    · simp [Playbook.addFinalizer, new.2]
    · simp only [Playbook.addFinalizer, if_neg new.2]
      exact .stays _
    · exact .inl (by simp [Playbook.addFinalizer, new.2])
  · next old =>
    split
    · exact base.goes_next early (by simp) (by simp)
    · next alive =>
      have mine : playbookCompletedFinalizer ∈ p.finalizers := by
        by_contra missing
        exact old ⟨by simpa using alive, missing⟩
      cases phase : p.status.phase with
      | new =>
        exact base.finish early none (.inl rfl) (phase ▸ .pending)
          (.inr (by simp [Playbook.setPhase, PlaybookPhase.Completed]))
      | pending =>
        exact base.finish early none (.inl rfl) (phase ▸ .running)
          (.inr (by simp [Playbook.setPhase, PlaybookPhase.Completed]))
      | running => exact base.goes_next early (fun _ => ⟨phase, mine, rfl⟩) (by simp)
      | failed => exact base.finish_same early none
      | succeeded => exact base.finish_same early none

theorem dealRunningPlaybook (knows : s.InFlight r) (next : r.next = .list) {error : Option APIError}
    (answer : ¬ ∃ err ∈ error, err.notFound = true ∧ s.pods ≠ []) :
    s.InFlight (r.dealRunningPlaybook s.pods error) := by
  have early : ¬ r.next.Patches := by simp [next, Next.Patches]
  have running := knows.running (.inl next)
  cases error with
  | none =>
    simp only [Reconcile.dealRunningPlaybook]
    split
    · exact knows.finish_same early none
    · next empty => exact knows.goes_next early (fun _ => running) (fun _ => not_not.mp empty)
  | some err =>
    simp only [Reconcile.dealRunningPlaybook]
    split
    · next missing =>
      refine knows.goes_next early (fun _ => running) (fun _ => ?_)
      by_contra some
      exact answer ⟨err, rfl, missing, some⟩
    · exact knows.finish_same early _

theorem reconcileDelete (knows : s.InFlight r) (next : r.next = .listOwned) (error : Option APIError) :
    s.InFlight (r.reconcileDelete s.pods error) := by
  have early : ¬ r.next.Patches := by simp [next, Next.Patches]
  cases error with
  | some err =>
    simp only [Reconcile.reconcileDelete]
    exact knows.finish_same early _
  | none =>
    simp only [Reconcile.reconcileDelete]
    split
    · next none =>
      exact knows.finish early _ (.inr (.inr none)) knows.moves
        (knows.completed.imp_right fun rest => rest.resolve_right fun late => early late.1)
    · split
      · exact knows.goes_next early (by simp) (by simp)
      · exact knows.finish_same early none

theorem deleted (knows : s.InFlight r) (early : ¬ r.next.Patches) (items : List Nat) (error : Option String) :
    s.InFlight (r.deleted items error) := by
  cases error with
  | some text =>
    simp only [Reconcile.deleted]
    exact knows.finish_same early _
  | none =>
    simp only [Reconcile.deleted]
    split
    · exact knows.finish_same early none
    · exact knows.goes_next early (by simp) (by simp)

/-- The phase that the reconcile got is running where a pod completes a playbook. -/
theorem before_running (knows : s.InFlight r) (owned : s.Owned) {pod : Pod} (inside : pod ∈ s.pods)
    (runs : ¬ r.playbook.status.phase.Completed) : r.before.status.phase = .running := by
  obtain ⟨p, here, -⟩ := owned.held (List.ne_nil_of_mem inside)
  rcases knows.behind p here with same | ⟨running, -⟩
  · have late : ¬ r.before.status.phase.Early := fun early =>
      List.ne_nil_of_mem inside (owned.early p here (same ▸ early))
    have incomplete : ¬ r.before.status.phase.Completed := by
      intro completed
      rw [knows.moves.completed completed] at runs
      exact runs completed
    cases phase : r.before.status.phase with
    | new => exact absurd (.inl phase) late
    | pending => exact absurd (.inr phase) late
    | running => rfl
    | failed => exact absurd (.inl phase) incomplete
    | succeeded => exact absurd (.inr phase) incomplete
  · exact running

theorem podResult_cases (playbook : Playbook) (pod : Pod) :
    (podResult playbook pod).finalizers = playbook.finalizers ∧ (podResult playbook pod = playbook ∨
      pod.status.phase.Ended ∧ Moves .running (podResult playbook pod).status.phase) := by
  cases phase : pod.status.phase with
  | pending | running | unknown => simp [podResult, phase]
  | succeeded =>
    simp only [podResult, phase]
    exact ⟨rfl, .inr ⟨.inl rfl, .succeeded⟩⟩
  | failed =>
    simp only [podResult, phase]
    exact ⟨trivial, .inr ⟨.inr rfl, .failed⟩⟩

theorem reconcileStatus (knows : s.InFlight r) (owned : s.Owned) (next : r.next = .listStatus)
    (error : Option APIError) : s.InFlight (r.reconcileStatus s.pods error) := by
  have early : ¬ r.next.Patches := by simp [next, Next.Patches]
  have on : s.InFlight { r with next := .patch } := knows.goes_next early (by simp) (by simp)
  cases error with
  | some err => exact on
  | none =>
    simp only [Reconcile.reconcileStatus]
    split
    · next pod single =>
      split
      · exact on
      · next runs =>
        have inside : pod ∈ s.pods := by rw [single]; exact List.mem_singleton_self pod
        obtain ⟨finalizers, same | ⟨ended, moves⟩⟩ := podResult_cases r.playbook pod
        · rw [same]
          exact on
        · refine knows.goes (fun last => early (.inr last)) rfl ?_ (by simp) (by simp) ?_ (.inr (.inr ⟨.inl rfl, ?_⟩))
          · rw [finalizers]
            exact knows.finalizers
          · rw [knows.before_running owned inside runs]
            exact moves
          · intro pod' inside'
            rw [owned.only inside inside']
            exact .inl ended
    · exact on

end InFlight

theorem Inv.get (inv : Inv s) {answered : Bool} (taken : s.step (.get answered) = some s') : Inv s' ∧ Sound s s' := by
  have same : Inv s ∧ Sound s s := ⟨inv, (Follows.same rfl rfl rfl).sound inv.owned⟩
  simp only [step] at taken
  split at taken
  · next here =>
    cases answered with
    | false =>
      cases taken
      exact same
    | true =>
      cases taken
      exact inv.goes (InFlight.start here)
  · cases taken
    exact same
  · cases taken

theorem Inv.list (inv : Inv s) {error : Option APIError} (taken : s.step (.list error) = some s') :
    Inv s' ∧ Sound s s' := by
  obtain ⟨r, flying, taken⟩ := Option.bind_eq_some_iff.mp taken
  have knows := inv.inFlight r flying
  unfold listStep at taken
  split at taken
  · cases taken
  · next answer =>
    cases next : r.next with
    | list =>
      rw [next] at taken
      cases taken
      exact inv.goes (knows.dealRunningPlaybook next answer)
    | listOwned =>
      rw [next] at taken
      cases taken
      exact inv.goes (knows.reconcileDelete next error)
    | listStatus =>
      rw [next] at taken
      cases taken
      exact inv.goes (knows.reconcileStatus inv.owned next error)
    | create | delete | patch | patchStatus =>
      rw [next] at taken
      cases taken

theorem Inv.delete (inv : Inv s) {error : Option String} (taken : s.step (.delete error) = some s') :
    Inv s' ∧ Sound s s' := by
  simp only [step] at taken
  split at taken
  · next before playbook item items flying =>
    split at taken
    · cases taken
    · cases taken
      have knows := inv.inFlight _ flying
      have on : s.InFlight ⟨before, playbook, .listStatus⟩ :=
        knows.goes_next (by simp [Next.Patches]) (by simp) (by simp)
      exact inv.goes (on.deleted (by simp [Next.Patches]) items error)
  · cases taken

/-- A pod is created. -/
theorem Inv.created (inv : Inv s) (flying : s.reconcile = some r) (next : r.next = .create) (error : Option String)
    {p : Playbook} (here : s.playbook = some p) (held : playbookCompletedFinalizer ∈ p.finalizers)
    (runs : p.status.phase = .running)
    (after : s' = { s with
      pods := s.pods ++ [s.newPod], created := s.created + 1, reconcile := some (r.created error) }) :
    Inv s' ∧ Sound s s' := by
  subst after
  have knows := inv.inFlight r flying
  have free := knows.free next
  have finished : s.InFlight (r.created error) := knows.finish_same (by simp [next, Next.Patches]) _
  obtain ⟨before, next', finalizers, phase⟩ := InFlight.finish_before (r := r) r.playbook
    (error.map fun text => "failed to create pod of playbook " ++ r.playbook.key ++ ": " ++ text)
  have only : (s.pods ++ [s.newPod]).length ≤ 1 := by simp [free]
  refine ⟨⟨⟨only, fun _ => ⟨p, here, held⟩, fun p' here' early => ?_, fun p' here' completed => ?_⟩,
    fun r' flying' => ?_⟩, ⟨fun p₁ p₂ here₁ here₂ => ?_, id, fun _ => ⟨free, p, here, runs⟩, only,
    fun _ _ _ _ => free⟩⟩
  · cases here.symm.trans here'
    rw [runs] at early
    rcases early with h | h <;> cases h
  · cases here.symm.trans here'
    rw [runs] at completed
    rcases completed with h | h <;> cases h
  · cases flying'
    refine ⟨finished.behind, finished.held, .inl ?_, by simp [Reconcile.created, next'],
      by simp [Reconcile.created, next'], finished.moves, finished.completed.imp_right fun rest => .inl ?_⟩
    · exact finalizers.trans ((knows.running (.inr next)).2.2.trans (congrArg _ before).symm)
    · refine rest.resolve_right fun late => ?_
      have patches := late.1
      simp [Reconcile.created, next', Next.Patches] at patches
  · cases here₁.symm.trans here₂
    exact .stays _

/-- A pod is created soundly just if the phase is the one that the reconcile got. -/
theorem Inv.create (inv : Inv s) {reply : Reply} (taken : s.step (.create reply) = some s') :
    (Fresh s (.create reply) → Inv s' ∧ Sound s s') ∧ (Sound s s' → Fresh s (.create reply)) := by
  simp only [step] at taken
  split at taken
  · next r flying =>
    split at taken
    · next next =>
      cases taken
      have knows := inv.inFlight r flying
      obtain ⟨running, mine, -⟩ := knows.running (.inr next)
      obtain ⟨p, here, held⟩ := knows.held (by simp [next]) mine
      cases reply with
      | refused text =>
        refine ⟨fun _ => inv.goes (knows.finish_same (by simp [next, Next.Patches]) _), fun _ applied => ?_⟩
        cases applied
      | ok =>
        refine ⟨fun fresh => inv.created flying next none here held ((fresh trivial r p flying next here).trans running)
          rfl, fun sound _ r' p' flying' _ here' => ?_⟩
        cases flying.symm.trans flying'
        obtain ⟨-, p'', here'', runs⟩ := sound.created (Nat.succ_ne_self s.created)
        cases here'.symm.trans here''
        exact runs.trans running.symm
      | lost text =>
        refine ⟨fun fresh => inv.created flying next (some text) here held
          ((fresh trivial r p flying next here).trans running) rfl, fun sound _ r' p' flying' _ here' => ?_⟩
        cases flying.symm.trans flying'
        obtain ⟨-, p'', here'', runs⟩ := sound.created (Nat.succ_ne_self s.created)
        cases here'.symm.trans here''
        exact runs.trans running.symm
    · cases taken
  · cases taken

theorem patchMetadata_status {r : Reconcile} {p p' : Playbook} (patched : r.patchMetadata p = some p') :
    p'.status = p.status := by
  rw [Reconcile.patchMetadata] at patched
  split at patched
  · cases patched
    rfl
  · exact setFinalizers_status patched

/-- The patch of the metadata. -/
theorem Inv.patch (inv : Inv s) {applied : Bool} (taken : s.step (.patch applied) = some s') :
    Inv s' ∧ Sound s s' := by
  simp only [step] at taken
  split at taken
  · next r flying =>
    split at taken
    · next next =>
      cases taken
      have knows := inv.inFlight r flying
      have status : ∀ p p', s.playbook = some p →
          (if applied = true then s.playbook.bind r.patchMetadata else s.playbook) = some p' →
            p'.status = p.status := by
        intro p p' here here'
        rw [here] at here'
        split at here'
        · exact patchMetadata_status here'
        · cases here'
          rfl
      have follows : Follows s { s with
          playbook := if applied = true then s.playbook.bind r.patchMetadata else s.playbook,
          reconcile := some { r with next := .patchStatus } } := by
        refine ⟨fun pod inside => ⟨pod, inside, id⟩, le_rfl, rfl, fun none => ?_, fun p p' here here' => ?_,
          fun p here mine => ?_⟩
        · simp [none]
        · rw [status p p' here here']
          exact ⟨.stays _, .inl rfl⟩
        · rw [here]
          split
          · rw [Option.bind_some, Reconcile.patchMetadata]
            split
            · exact .inr ⟨p, rfl, mine⟩
            · next changed =>
              rcases knows.finalizers.resolve_left changed with set | none
              · exact .inr (setFinalizers_kept mine set)
              · exact .inl none
          · exact .inr ⟨p, rfl, mine⟩
      refine ⟨⟨follows.owned inv.owned, fun r' flying' => ?_⟩, follows.sound inv.owned⟩
      cases flying'
      refine ⟨fun p' here' => ?_, by simp, knows.finalizers, by simp, by simp, knows.moves,
        knows.completed.imp_right (Or.imp_right fun late => ⟨.inr rfl, late.2⟩)⟩
      obtain ⟨p, here⟩ := follows.old here'
      rw [status p p' here here']
      exact knows.behind p here
    · cases taken
  · cases taken

/-- The patch of the status is sound just if it is fresh. -/
theorem Inv.patchStatus (inv : Inv s) {applied : Bool} (taken : s.step (.patchStatus applied) = some s') :
    (Fresh s (.patchStatus applied) → Inv s' ∧ Sound s s') ∧ (Sound s s' → Fresh s (.patchStatus applied)) := by
  simp only [step] at taken
  split at taken
  · next r flying =>
    split at taken
    · next next =>
      cases taken
      have knows := inv.inFlight r flying
      cases applied with
      | false =>
        have follows : Follows s { s with reconcile := none } := .same rfl rfl rfl
        refine ⟨fun _ => ⟨⟨follows.owned inv.owned, by simp⟩, follows.sound inv.owned⟩, fun _ applied => ?_⟩
        cases applied
      | true =>
        have set : ∀ p, s.playbook = some p →
            (s.playbook.map fun p : Playbook => { p with status := r.patchedStatus p.status }) =
              some { p with status := r.patchedStatus p.status } := by
          intro p here
          rw [here]
          rfl
        constructor
        · intro fresh
          have follows : Follows s { s with
              playbook := s.playbook.map fun p : Playbook => { p with status := r.patchedStatus p.status },
              reconcile := none } := by
            refine ⟨fun pod inside => ⟨pod, inside, id⟩, le_rfl, rfl, fun none => by simp [none],
              fun p p' here here' => ?_, fun p here mine => .inr ⟨_, set p here, mine⟩⟩
            cases (set p here).symm.trans here'
            by_cases same : r.playbook.status.phase = r.before.status.phase
            · have kept : (r.patchedStatus p.status).phase = p.status.phase := if_pos same
              rw [kept]
              exact ⟨.stays _, .inl rfl⟩
            · have written : (r.patchedStatus p.status).phase = r.playbook.status.phase := if_neg same
              rw [written]
              rcases fresh rfl r p flying next here same with old | new
              · rw [old]
                exact ⟨knows.moves, .inr ((knows.completed.resolve_left same).imp_right And.right)⟩
              · rw [new]
                exact ⟨.stays _, .inl rfl⟩
          exact ⟨⟨follows.owned inv.owned, by simp⟩, follows.sound inv.owned⟩
        · intro sound _ r' p flying' _ here changed
          cases flying.symm.trans flying'
          have moves := sound.phase p _ here (set p here)
          have written : (r.patchedStatus p.status).phase = r.playbook.status.phase := if_neg changed
          rcases knows.behind p here with same | ⟨-, completed⟩
          · exact .inl same
          · exact .inr ((moves.completed completed).symm.trans written)
    · cases taken
  · cases taken

/-- A step is sound just if it is fresh, and then the invariant holds after it. -/
theorem Inv.step (inv : Inv s) {a : Act} (taken : s.step a = some s') :
    (Fresh s a → Inv s' ∧ Sound s s') ∧ (Sound s s' → Fresh s a) := by
  have always : Inv s' ∧ Sound s s' → Fresh s a → (Fresh s a → Inv s' ∧ Sound s s') ∧ (Sound s s' → Fresh s a) :=
    fun both fresh => ⟨fun _ => both, fun _ => fresh⟩
  cases a with
  | get answered => exact always (inv.get taken) trivial
  | list error => exact always (inv.list taken) trivial
  | create reply => exact inv.create taken
  | delete error => exact always (inv.delete taken) trivial
  | patch applied => exact always (inv.patch taken) trivial
  | patchStatus applied => exact inv.patchStatus taken
  | podStatus suffix status =>
    cases taken
    exact always (inv.podStatus suffix status) trivial
  | podRemoved suffix =>
    cases taken
    exact always (inv.podRemoved _) trivial
  | executor suffix err =>
    simp only [Cluster.step] at taken
    split at taken
    · next runs =>
      obtain ⟨pod, inside, named, runs, silent⟩ := runs
      cases taken
      have unsettled : ¬ pod.Settled := by
        rintro (ended | reported)
        · exact runs ended
        · simp [silent] at reported
      exact always (inv.executor inside named unsettled rfl) trivial
    · cases taken
  | playbookDeleted =>
    cases taken
    exact always inv.playbookDeleted trivial
  | finalizers finalizers =>
    cases taken
    exact always (inv.finalizers finalizers) trivial

/-- An action that is not enabled is none of the two that can fail to be fresh. -/
theorem fresh_of_disabled {a : Act} (disabled : s.step a = none) : Fresh s a := by
  cases a with
  | create reply =>
    intro _ r p flying next
    simp [Cluster.step, flying, next] at disabled
  | patchStatus applied =>
    intro _ r p flying next
    simp [Cluster.step, flying, next] at disabled
  | _ => trivial

/-- A playbook that was just created, with an empty status and no pods. -/
def new (playbook : Playbook) : Cluster := ⟨some { playbook with status := ⟨.new, "", ""⟩ }, [], 0, none⟩

theorem Inv.new (playbook : Playbook) : Inv (Cluster.new playbook) := by
  refine ⟨⟨by simp [Cluster.new], by simp [Cluster.new], fun _ _ _ => rfl, fun p here completed => ?_⟩,
    by simp [Cluster.new]⟩
  cases here
  rcases completed with h | h <;> cases h

/-- Every step that is taken is sound. -/
def TakenSoundly (s : Cluster) (a : Act) : Prop := ∀ s', s.step a = some s' → Sound s s'

theorem Inv.fresh_iff (inv : Inv s) (a : Act) : Fresh s a ↔ TakenSoundly s a := by
  constructor
  · intro fresh s' taken
    exact ((inv.step taken).1 fresh).2
  · intro soundly
    cases taken : s.step a with
    | none => exact fresh_of_disabled taken
    | some s' => exact (inv.step taken).2 (soundly s' taken)

/-- In a run of sound steps the phase of a completed playbook is never left. -/
theorem completed_kept {t : Cluster} {acts : List Act} {p q : Playbook} (sound : Along Cluster.step TakenSoundly s acts)
    (ran : run Cluster.step s acts = some t) (here : s.playbook = some p) (completed : p.status.phase.Completed)
    (there : t.playbook = some q) : q.status.phase = p.status.phase := by
  have keeps : ∀ s a s', (∀ q, Cluster.playbook s = some q → q.status.phase = p.status.phase) → TakenSoundly s a →
      Cluster.step s a = some s' → ∀ q, s'.playbook = some q → q.status.phase = p.status.phase := by
    intro s a s' same soundly taken q' there'
    have step := soundly s' taken
    cases was : s.playbook with
    | none =>
      rw [step.gone was] at there'
      cases there'
    | some q =>
      have before := same q was
      rw [(step.phase q q' was there').completed (before ▸ completed), before]
  refine @Along.invariant _ _ _ _ (fun s => ∀ q, s.playbook = some q → q.status.phase = p.status.phase) keeps s t acts
    (fun q here' => ?_) sound ran q there
  cases here.symm.trans here'
  rfl

/-- From a new playbook, in any interleaving, all steps are sound just if all are fresh; and then the phase of a
completed playbook is never left. -/
theorem phases_sound (playbook : Playbook) (acts : List Act) :
    (Along Cluster.step TakenSoundly (new playbook) acts ↔ Along Cluster.step Fresh (new playbook) acts) ∧
      (Along Cluster.step Fresh (new playbook) acts → ∀ before after t u p q, acts = before ++ after →
        run Cluster.step (new playbook) before = some t → run Cluster.step t after = some u →
        t.playbook = some p → p.status.phase.Completed → u.playbook = some q → q.status.phase = p.status.phase) := by
  have keeps : ∀ s a s', Inv s → Fresh s a → Cluster.step s a = some s' → Inv s' :=
    fun s a s' inv fresh taken => ((inv.step taken).1 fresh).1
  have soundly : Along Cluster.step Fresh (new playbook) acts → Along Cluster.step TakenSoundly (new playbook) acts :=
    Along.strengthen keeps (fun s a inv => (inv.fresh_iff a).mp) (Inv.new playbook)
  refine ⟨⟨Along.strengthen (fun s a s' inv sound => keeps s a s' inv ((inv.fresh_iff a).mpr sound))
    (fun s a inv => (inv.fresh_iff a).mpr) (Inv.new playbook), soundly⟩, ?_⟩
  intro fresh before after t u p q split first second here completed there
  subst split
  exact completed_kept ((soundly fresh).rest first) second here completed there

/-- A reconcile without a failed request. -/
def quiet : List Act := [.get true, .list none, .patch true, .patchStatus true]

def upgrade : Playbook := ⟨"upgrade", "default", [], false, ⟨.new, "", ""⟩⟩

/-- The second reconcile moves the phase to pending. -/
theorem phases_sound_upgrade : ∃ t, run Cluster.step (new upgrade) (quiet ++ quiet) = some t ∧
    t.playbook = some ⟨"upgrade", "default", [playbookCompletedFinalizer], false, ⟨.pending, "", ""⟩⟩ ∧
    Along Cluster.step TakenSoundly (new upgrade) (quiet ++ quiet) := by
  refine ⟨_, rfl, by decide, (phases_sound upgrade (quiet ++ quiet)).1.mpr ?_⟩
  simp [quiet, Along, Fresh, Cluster.step, listStep, new, upgrade, Controllers.reconcile, Reconcile.finish,
    Playbook.addFinalizer, Reconcile.reconcileStatus, Reconcile.patchMetadata, Playbook.setFinalizers,
    Playbook.remains, Reconcile.patchedStatus, merged, Playbook.setPhase]

/-- The pod runs, and the executor completes the playbook after a reconcile got it. -/
def completing : List Act :=
  quiet ++ quiet ++ quiet ++
    [.get true, .list none, .create .ok, .list none, .patch true, .patchStatus true, .get true, .executor 0 none]

/-- Then the pod is evicted, and the reconcile patches what it makes of that. -/
def evicted : List Act :=
  [.podStatus 0 ⟨.failed, "evicted", []⟩, .list none, .list none, .patch true, .patchStatus true]

theorem succeeded_left : ∃ t u, run Cluster.step (new upgrade) completing = some t ∧
    run Cluster.step t evicted = some u ∧ t.playbook.map (fun p => p.status.phase) = some .succeeded ∧
    u.playbook.map (fun p => p.status.phase) = some .failed :=
  ⟨_, _, rfl, rfl, by decide, by decide⟩

end Cluster

end KubeKey.Controllers
