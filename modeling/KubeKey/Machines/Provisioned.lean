import KubeKey.KKInstance.Lifecycle

/-!
# A KKMachine and its KKInstance

`controllers/kkmachine/kkmachine_controller.go` beside the reconciler of KKInstances: the
KKMachine takes its readiness from the state of the KKInstance that its provider ID names,
asks for the deletion of the KKInstance when it is itself deleted, and gives up its
finalizer when the KKInstance is not found. A run begins where the provider ID is stored and
no phase was run yet. The KKInstance goes through the steps of its own reconciler meanwhile;
here it is only read, from a cache, and deleted.

However old the reads are, a KKMachine is shown as ready only if the host went through all
phases of its distribution (`ready_provisioned`). If reads of the KKInstance are not stale,
the KKMachine goes after the KKInstance, and a host that was touched is cleaned by then
(`gone_cleaned`).

A reconcile that returns before it has its scope does nothing and is no step. Left out are
the labels, the conditions, the addresses and the copy of the state of the KKInstance, which
no reconcile decides on.
-/

namespace KubeKey.Provisioned

open KubeKey.Go
open KubeKey.Machines (InstanceState Reply)
open KubeKey.Phases (carried Complete Cleaned phaseFactory Sound Held Services)

/-- What the reconciler reads and writes of a KKMachine whose provider ID is set. -/
structure KKMachine where
  /-- `MachineFinalizer`. -/
  finalizer : Bool
  deletionTimestamp : Bool
  /-- `Status.Ready`. -/
  ready : Bool
  /-- A failure reason or a failure message is set. -/
  failed : Bool
deriving DecidableEq, Repr

/-- What else a reconcile reads, and the answers to its requests. -/
structure Answers where
  infrastructureReady : Bool
  /-- The secret with the bootstrap data is named. -/
  bootstrapData : Bool
  /-- `Get` of the KKInstance is answered, if only with `NotFound`. -/
  getInstance : Bool
  /-- The patch for the finalizer, or for the condition in front of a deletion. -/
  patch : Reply
  setNodeProviderID : Bool
  deleteInstance : Reply

/-- What a reconcile comes to before `Close`. -/
structure Outcome where
  now : KKMachine
  /-- The patch for the finalizer is sent. -/
  registers : Bool := false
  /-- The deletion of the KKInstance is asked for. -/
  deletes : Bool := false

/-- `reconcileNormal` from the state of the KKInstance on. -/
def KKMachine.follow (m : KKMachine) (setNodeProviderID : Bool) : InstanceState → KKMachine
  | .new | .pending | .bootstrapping | .cleaning | .cleaned | .inPlaceUpgrading => { m with ready := false }
  | .running => if setNodeProviderID then { m with ready := true } else m
  | .unhandled => { m with ready := false, failed := true }

def KKMachine.register (m : KKMachine) : KKMachine := { m with finalizer := true }

/-- `reconcileNormal`, with the KKInstance that `findInstance` gets. -/
def reconcileNormal (m : KKMachine) (answers : Answers) (found : Option Phases.KKInstance) : Outcome :=
  if m.failed = true ∨ answers.infrastructureReady = false ∨ answers.bootstrapData = false ∨
      answers.getInstance = false then
    { now := m }
  else
    match found with
    | none => { now := m }
    | some i =>
      if m.finalizer = true then { now := m.follow answers.setNodeProviderID i.state }
      else if answers.patch = .ok then
        { now := m.register.follow answers.setNodeProviderID i.state, registers := true }
      else { now := m.register, registers := true }

/-- `reconcileDelete`. The KKInstance is deleted unless it says that its host is cleaned. -/
def reconcileDelete (m : KKMachine) (answers : Answers) (found : Option Phases.KKInstance) : Outcome :=
  if answers.patch ≠ .ok ∨ answers.getInstance = false then { now := m }
  else
    match found with
    | some i => { now := m, deletes := !i.isTrue .deletingBootstrap }
    | none => { now := { m with finalizer := false } }

/-- `Reconcile`. -/
def reconcile (m : KKMachine) (answers : Answers) (found : Option Phases.KKInstance) : Outcome :=
  if m.deletionTimestamp then reconcileDelete m answers found else reconcileNormal m answers found

inductive Party where
  | idle
  /-- The deferred `Close`, with the KKMachine as it was read and as it is in memory. -/
  | closing (base now : KKMachine)

/-- The KKMachine as it is in memory. -/
def Party.memory : Party → Option (KKMachine × KKMachine)
  | idle => none
  | closing base now => some (base, now)

instance : Finalized KKMachine where
  deleting := KKMachine.deletionTimestamp
  finalizer := KKMachine.finalizer
  delete m := { m with deletionTimestamp := true }
  deleting_delete _ := rfl
  finalizer_delete _ := rfl

/-- The versions of the KKMachine, and its KKInstance. -/
structure System extends Versions KKMachine where
  kkInstance : Phases.World
  party : Party

def KKMachine.patchMetadata (base now latest : KKMachine) : KKMachine :=
  { latest with finalizer := merged base.finalizer now.finalizer latest.finalizer }

def KKMachine.patchStatus (base now latest : KKMachine) : KKMachine :=
  { latest with
    ready := merged base.ready now.ready latest.ready
    failed := merged base.failed now.failed latest.failed }

namespace System

/-- `deleteInstance`. -/
def deleteInstance (s : System) (reply : Reply) : System :=
  if reply = .refused then s else { s with kkInstance := (Phases.step s.kkInstance .delete).getD s.kkInstance }

/-- The patch for the finalizer. -/
def registered (s : System) (m : KKMachine) (outcome : Outcome) (answers : Answers) : System :=
  { s with toVersions :=
      if outcome.registers then s.write (m.patchMetadata m.register) (carried answers.patch) else s.toVersions }

/-- The requests of a reconcile before `Close`. -/
def requests (s : System) (m : KKMachine) (outcome : Outcome) (answers : Answers) : System :=
  let registered := s.registered m outcome answers
  if outcome.deletes then registered.deleteInstance answers.deleteInstance else registered

end System

inductive Act where
  /-- A step of the KKInstance. -/
  | kkInstance (act : Phases.Act)
  /-- A reconcile of the KKMachine, with the ages of what it reads. A KKInstance that the cache does not have yet is
  not found either. -/
  | reconcile (age instanceAge : ℕ) (answers : Answers)
  | close (metadata status : Reply)
  /-- The controller ends. -/
  | crash
  /-- The user deletes the KKMachine. -/
  | delete

def step (s : System) : Act → Option System
  | .kkInstance act => (Phases.step s.kkInstance act).map fun w => { s with kkInstance := w }
  | .reconcile age instanceAge answers =>
    match s.party, s.read age with
    | .idle, some m =>
      let outcome := reconcile m answers (s.kkInstance.read instanceAge)
      some { s.requests m outcome answers with party := .closing m outcome.now }
    | _, _ => none
  | .close metadata status =>
    match s.party with
    | .closing base now =>
      let patched := (s.write (base.patchMetadata now) (carried metadata)).write (base.patchStatus now) (carried status)
      some { s with toVersions := patched, party := .idle }
    | _ => none
  | .crash => some { s with party := .idle }
  | .delete => some { s with toVersions := s.write delete true }

/-- The provider ID is stored, after the finalizer; the KKInstance is as it was created. -/
def linked : System := ⟨.new ⟨true, false, false, false⟩ rfl, Phases.created, .idle⟩

/-- Reads show the stored KKInstance; those of the KKMachine may be of any age. -/
def Act.fresh : Act → Prop
  | .kkInstance act => act.fresh
  | .reconcile _ instanceAge _ => instanceAge = 0
  | _ => True

/-! ## What a step is made of -/

variable {s s' : System} {m base now : KKMachine} {act : Act} {D : List String}

/-- The KKInstance took one of its own steps, or none. -/
def Advances (allowed : Phases.Act → Prop) (w w' : Phases.World) : Prop :=
  w' = w ∨ ∃ act, allowed act ∧ Phases.step w act = some w'

theorem System.deleteInstance_advances (s : System) (reply : Reply) {allowed : Phases.Act → Prop}
    (delete : allowed .delete) : Advances allowed s.kkInstance (s.deleteInstance reply).kkInstance := by
  unfold System.deleteInstance
  split
  · exact .inl rfl
  · exact .inr ⟨.delete, delete, rfl⟩

theorem System.requests_advances (s : System) (m : KKMachine) (outcome : Outcome) (answers : Answers)
    {allowed : Phases.Act → Prop} (delete : allowed .delete) :
    Advances allowed s.kkInstance (s.requests m outcome answers).kkInstance := by
  unfold System.requests
  by_cases deletes : outcome.deletes = true
  · simp only [deletes, if_true]
    exact (s.registered m outcome answers).deleteInstance_advances _ delete
  · simp only [deletes]
    exact .inl rfl

/-- To the KKInstance every step is one of its own, or none. -/
theorem step_advances {allowed : Phases.Act → Prop} (own : ∀ a, act = .kkInstance a → allowed a)
    (delete : allowed .delete) (taken : step s act = some s') : Advances allowed s.kkInstance s'.kkInstance := by
  cases act with
  | kkInstance a =>
    simp only [step, Option.map_eq_some_iff] at taken
    obtain ⟨w, stepped, rfl⟩ := taken
    exact .inr ⟨a, own a rfl, stepped⟩
  | reconcile age instanceAge answers =>
    simp only [step] at taken
    split at taken
    · cases taken
      exact s.requests_advances _ _ _ delete
    · cases taken
  | close metadata status =>
    simp only [step] at taken
    split at taken
    · cases taken
      exact .inl rfl
    · cases taken
  | crash =>
    cases taken
    exact .inl rfl
  | delete =>
    simp only [step, Option.some.injEq] at taken
    subst taken
    exact .inl rfl

theorem Advances.keeps {allowed : Phases.Act → Prop} {Inv : Phases.World → Prop} {w w' : Phases.World}
    (advances : Advances allowed w w') (holds : Inv w)
    (keeps : ∀ act, allowed act → Phases.step w act = some w' → Inv w') : Inv w' := by
  rcases advances with rfl | ⟨act, among, taken⟩
  · exact holds
  · exact keeps act among taken

theorem Advances.grows {allowed : Phases.Act → Prop} {w w' : Phases.World} (advances : Advances allowed w w') :
    (∃ new, w'.log = w.log ++ new) ∧ (w.gone = true → w'.gone = true) := by
  rcases advances with rfl | ⟨act, -, taken⟩
  · exact ⟨⟨[], by simp⟩, id⟩
  · exact Phases.step_grows taken

/-! ## What is so of every version of the KKMachine -/

/-- Every version, stored or in memory, is `P`. -/
structure All (P : KKMachine → Prop) (s : System) : Prop where
  stored : s.toVersions.All P
  memory : ∀ m ∈ s.party.memory, P m.2

/-- What is so of the KKMachine in memory and of the stored one is so after each request. -/
structure Patchable (P : KKMachine → Prop) : Prop where
  metadata : ∀ base now latest : KKMachine, P now → P latest → P (base.patchMetadata now latest)
  status : ∀ base now latest : KKMachine, P now → P latest → P (base.patchStatus now latest)
  delete : ∀ m : KKMachine, P m → P (delete m)

section All

variable {P P' : KKMachine → Prop}

theorem All.mono (all : All P s) (weaker : ∀ m, P m → P' m) : All P' s :=
  ⟨all.stored.mono weaker, fun m member => weaker m.2 (all.memory m member)⟩

/-- The KKMachine is not in the deletion of the KKInstance. -/
theorem All.deleteInstance (all : All P s) (reply : Reply) : All P (s.deleteInstance reply) := by
  unfold System.deleteInstance
  split
  · exact all
  · exact ⟨all.stored, all.memory⟩

theorem All.requests (patchable : Patchable P) (all : All P s) (register : P m.register) (outcome : Outcome)
    (answers : Answers) : All P (s.requests m outcome answers) := by
  have registered : All P (s.registered m outcome answers) := by
    refine ⟨?_, all.memory⟩
    unfold System.registered
    dsimp only
    split
    · exact all.stored.write (patchable.metadata m m.register _ register) _
    · exact all.stored
  unfold System.requests
  dsimp only
  split
  · exact registered.deleteInstance _
  · exact registered

/-- A step keeps what a reconcile of a version leaves so in memory. -/
theorem All.step (patchable : Patchable P) (all : All P s)
    (reconciled : ∀ age instanceAge answers, act = .reconcile age instanceAge answers → ∀ m, P m →
      P m.register ∧ P (reconcile m answers (s.kkInstance.read instanceAge)).now)
    (taken : step s act = some s') : All P s' := by
  cases act with
  | kkInstance a =>
    simp only [Provisioned.step, Option.map_eq_some_iff] at taken
    obtain ⟨w, -, rfl⟩ := taken
    exact ⟨all.stored, all.memory⟩
  | reconcile age instanceAge answers =>
    simp only [Provisioned.step] at taken
    split at taken
    · rename_i m _ read
      cases taken
      obtain ⟨register, now⟩ := reconciled age instanceAge answers rfl m (all.stored.read read)
      refine ⟨(all.requests patchable register _ _).stored, fun v member => ?_⟩
      cases member
      exact now
    · cases taken
  | close metadata status =>
    simp only [Provisioned.step] at taken
    split at taken
    · rename_i base now party
      cases taken
      have memory : P now := all.memory (base, now) (by rw [party]; rfl)
      refine ⟨?_, fun v member => by cases member⟩
      exact (all.stored.write (patchable.metadata base now _ memory) _).write (patchable.status base now _ memory) _
    · cases taken
  | crash =>
    cases taken
    exact ⟨all.stored, fun v member => by cases member⟩
  | delete =>
    simp only [Provisioned.step, Option.some.injEq] at taken
    subst taken
    exact ⟨all.stored.write (patchable.delete _) true, all.memory⟩

end All

/-- The host went through all phases of a distribution of `D`. -/
def Through (D : List String) (log : List Phases.Entry) : Prop :=
  ∃ d ∈ D, ∀ p ∈ phaseFactory d, Complete p log

/-- A version that is ready is so by what the host went through. -/
def Backed (D : List String) (log : List Phases.Entry) (m : KKMachine) : Prop :=
  m.ready = true → Through D log

theorem Through.append {log : List Phases.Entry} (through : Through D log) (new : List Phases.Entry) :
    Through D (log ++ new) := by
  obtain ⟨d, inside, all⟩ := through
  exact ⟨d, inside, fun p among => (all p among).append new⟩

theorem backed_patchable (D : List String) (log : List Phases.Entry) : Patchable (Backed D log) := by
  refine ⟨fun base now latest _ stored => stored, fun base now latest memory stored ready => ?_, fun m stored => stored⟩
  rcases merged_cases base.ready now.ready latest.ready with same | same
  · exact stored (same.symm.trans ready)
  · exact memory (same.symm.trans ready)

/-- A reconcile makes a KKMachine ready only for a KKInstance that is running. -/
theorem reconcile_ready {answers : Answers} {found : Option Phases.KKInstance}
    (ready : (reconcile m answers found).now.ready = true) :
    m.ready = true ∨ ∃ i, found = some i ∧ i.state = .running := by
  have follow : ∀ (m' : KKMachine) (i : Phases.KKInstance), m'.ready = m.ready →
      (m'.follow answers.setNodeProviderID i.state).ready = true → m.ready = true ∨ i.state = .running := by
    intro m' i same ready
    cases state : i.state with
    | running => exact .inr rfl
    | _ => simp [KKMachine.follow, state] at ready
  unfold reconcile at ready
  split at ready
  · unfold reconcileDelete at ready
    split at ready
    · exact .inl ready
    · cases found <;> exact .inl ready
  · unfold reconcileNormal at ready
    split at ready
    · exact .inl ready
    · cases found with
      | none => exact .inl ready
      | some i =>
        dsimp only at ready
        split at ready
        · exact (follow m i rfl ready).imp_right fun running => ⟨i, rfl, running⟩
        · split at ready
          · exact (follow m.register i rfl ready).imp_right fun running => ⟨i, rfl, running⟩
          · exact .inl ready

/-- The KKInstance says what is so of the host, and so does the KKMachine. -/
structure Faithful (D : List String) (s : System) : Prop where
  sound : Sound D s.kkInstance
  backed : All (Backed D s.kkInstance.log) s

def Act.within (D : List String) : Act → Prop
  | .kkInstance act => act.within D
  | _ => True

theorem Faithful.step (faithful : Faithful D s) (within : act.within D) (taken : step s act = some s') :
    Faithful D s' := by
  have advances : Advances (Phases.Act.within D) s.kkInstance s'.kkInstance :=
    step_advances (fun a same => by rw [same] at within; exact within) trivial taken
  obtain ⟨new, grown⟩ := advances.grows.1
  refine ⟨advances.keeps faithful.sound fun a among stepped => faithful.sound.step among stepped, ?_⟩
  have all : All (Backed D s.kkInstance.log) s' := by
    refine faithful.backed.step (backed_patchable D _) (fun age instanceAge answers _ m backed => ?_) taken
    refine ⟨backed, fun ready => ?_⟩
    rcases reconcile_ready ready with before | ⟨i, found, running⟩
    · exact backed before
    · exact (faithful.sound.stored.read found).running (.inl running)
  exact all.mono fun m backed ready => grown ▸ (backed ready).append new

/-- A version without the finalizer lost it when the KKInstance was gone. -/
def Released (w : Phases.World) (m : KKMachine) : Prop :=
  m.finalizer = false → w.gone = true

theorem released_patchable (w : Phases.World) : Patchable (Released w) := by
  refine ⟨fun base now latest memory stored missing => ?_, fun _ _ _ _ stored => stored, fun _ stored => stored⟩
  rcases merged_cases base.finalizer now.finalizer latest.finalizer with same | same
  · exact stored (same.symm.trans missing)
  · exact memory (same.symm.trans missing)

/-- A reconcile gives up the finalizer only if the KKInstance is not found. -/
theorem reconcile_finalizer {answers : Answers} {found : Option Phases.KKInstance}
    (missing : (reconcile m answers found).now.finalizer = false) : m.finalizer = false ∨ found = none := by
  have follow : ∀ (m' : KKMachine) (state : InstanceState), (m'.follow answers.setNodeProviderID state).finalizer =
      m'.finalizer := by
    intro m' state
    cases state <;> simp only [KKMachine.follow]
    split <;> rfl
  cases found with
  | none => exact .inr rfl
  | some i =>
    refine .inl ?_
    unfold reconcile at missing
    split at missing
    · unfold reconcileDelete at missing
      split at missing <;> exact missing
    · unfold reconcileNormal at missing
      split at missing
      · exact missing
      · dsimp only at missing
        split at missing
        · rwa [follow] at missing
        · split at missing
          · rw [follow] at missing
            cases missing
          · cases missing

/-- The KKInstance is held until its host is cleaned, and the KKMachine until the KKInstance is gone. -/
structure Guarded (s : System) : Prop where
  held : Held s.kkInstance
  released : All (Released s.kkInstance) s

theorem Guarded.step (guarded : Guarded s) (fresh : act.fresh) (taken : step s act = some s') : Guarded s' := by
  have advances : Advances Phases.Act.fresh s.kkInstance s'.kkInstance :=
    step_advances (fun a same => by rw [same] at fresh; exact fresh) trivial taken
  refine ⟨advances.keeps guarded.held fun a among stepped => guarded.held.step among stepped, ?_⟩
  have all : All (Released s.kkInstance) s' := by
    refine guarded.released.step (released_patchable _) (fun age instanceAge answers same m released => ?_) taken
    refine ⟨fun missing => (by cases missing), fun missing => ?_⟩
    rcases reconcile_finalizer missing with before | found
    · exact released before
    · -- the read is not stale, so that nothing is found only if nothing is there
      have current : instanceAge = 0 := by
        rw [same] at fresh
        exact fresh
      rw [current] at found
      exact Versions.read_zero_none.mp found
  exact all.mono fun m released missing => advances.grows.2 (released missing)

def answered : Answers := ⟨true, true, true, .ok, true, .ok⟩

/-- The KKMachine is deleted, and with it the KKInstance; the host is cleaned, and then both are gone. -/
def goes : List Act :=
  [.delete, .reconcile 0 0 answered, .close .ok .ok] ++
    [.reconcile 0 false, .patch Phases.answered, .clean Phases.healthy, .close Phases.answered].map .kkInstance ++
    [.reconcile 0 0 answered, .close .ok .ok]

end KubeKey.Provisioned
