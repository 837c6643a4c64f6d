import KubeKey.Go.Goroutine

/-!
# The playbook reconciler

`pkg/controllers/core/playbook_controller.go`: a reconcile gets the playbook, moves its
phase on or makes or deletes its pod, takes the result of the pod into the status and
patches what differs from the playbook it got. Each request is a step of its own and may
fail; between two of them the pod changes, the executor in it sets the phase, the playbook
is deleted, and pods are removed. One reconcile runs at a time.

The metadata and the status are patched by two requests, the metadata first. A `Delete` of
a pod marks it; that it is gone is an event of its own.
-/

namespace KubeKey.Controllers

open KubeKey.Go

/-- `PlaybookPhase`; `new` is the empty string. -/
inductive PlaybookPhase where
  | new
  | pending
  | running
  | failed
  | succeeded
deriving DecidableEq, Repr

namespace PlaybookPhase

/-- The playbook has completed. -/
def Completed (phase : PlaybookPhase) : Prop := phase = .failed ∨ phase = .succeeded

instance (phase : PlaybookPhase) : Decidable phase.Completed :=
  inferInstanceAs (Decidable (_ ∨ _))

end PlaybookPhase

def playbookFailedReasonUnknown : String := "unknown"

def playbookFailedReasonPodFailed : String := "pod executor failed"

def playbookFailedReasonTaskFailed : String := "task executor failed"

structure PlaybookStatus where
  phase : PlaybookPhase
  failureReason : String
  failureMessage : String
deriving DecidableEq, Repr

structure Playbook where
  name : String
  ns : String
  finalizers : List String
  /-- The deletion timestamp is set. -/
  deleting : Bool
  status : PlaybookStatus
deriving DecidableEq, Repr

def playbookCompletedFinalizer : String := "kubekey.kubesphere.io/playbook-completed"

def podPlaybookLabel : String := "kubekey.kubesphere.io/playbook"

def executorContainer : String := "executor"

/-- `controllerutil.AddFinalizer`. -/
def Playbook.addFinalizer (playbook : Playbook) : Playbook :=
  if playbookCompletedFinalizer ∈ playbook.finalizers then playbook
  else { playbook with finalizers := playbook.finalizers ++ [playbookCompletedFinalizer] }

/-- `controllerutil.RemoveFinalizer`. -/
def Playbook.removeFinalizer (playbook : Playbook) : Playbook :=
  { playbook with finalizers := playbook.finalizers.filter (· ≠ playbookCompletedFinalizer) }

def Playbook.setPhase (playbook : Playbook) (phase : PlaybookPhase) : Playbook :=
  { playbook with status := { playbook.status with phase := phase } }

inductive PodPhase where
  | pending
  | running
  | succeeded
  | failed
  | unknown
deriving DecidableEq, Repr

/-- All containers of the pod have terminated. -/
def PodPhase.Ended (phase : PodPhase) : Prop := phase = .succeeded ∨ phase = .failed

instance (phase : PodPhase) : Decidable phase.Ended :=
  inferInstanceAs (Decidable (_ ∨ _))

structure ContainerStateTerminated where
  reason : String
  message : String
deriving DecidableEq, Repr

structure ContainerStatus where
  name : String
  terminated : Option ContainerStateTerminated
deriving DecidableEq, Repr

structure PodStatus where
  phase : PodPhase
  message : String
  containerStatuses : List ContainerStatus
deriving DecidableEq, Repr

/-- A pod that carries the label of the playbook and is owned by it. -/
structure Pod where
  /-- What is generated behind the name of the playbook. -/
  suffix : Nat
  status : PodStatus
  /-- The executor in the pod has set the phase of the playbook. -/
  reported : Bool
deriving DecidableEq, Repr

/-- The answer to a request that failed. -/
structure APIError where
  notFound : Bool
  text : String
deriving DecidableEq, Repr

/-- The answer to a write; a write with a lost answer was carried out. -/
inductive Reply where
  | ok
  | refused (text : String)
  | lost (text : String)
deriving DecidableEq, Repr

/-- The request that a reconcile makes next. -/
inductive Next where
  /-- `dealRunningPlaybook` lists the pods with the label. -/
  | list
  /-- `dealRunningPlaybook` creates the pod. -/
  | create
  /-- `reconcileDelete` lists the owned pods. -/
  | listOwned
  /-- `reconcileDelete` deletes the pods. -/
  | delete (items : List Nat)
  /-- `reconcileStatus` lists the owned pods. -/
  | listStatus
  | patch
  | patchStatus
deriving DecidableEq, Repr

/-- A reconcile: the playbook that `Get` returned, and what the reconcile makes of it. -/
structure Reconcile where
  before : Playbook
  playbook : Playbook
  next : Next
deriving DecidableEq, Repr

/-- The deferred function sets the failure and goes on with `reconcileStatus`. -/
def Reconcile.finish (r : Reconcile) (playbook : Playbook) (retErr : Option String) : Reconcile :=
  match retErr with
  | none => { r with playbook := playbook, next := .listStatus }
  | some err =>
    let reason := if playbook.status.failureReason = "" then playbookFailedReasonUnknown
      else playbook.status.failureReason
    let status := { playbook.status with failureReason := reason, failureMessage := err }
    { r with playbook := { playbook with status := status }, next := .listStatus }

/-- `Reconcile` from the playbook it gets to its next request. -/
def reconcile (playbook : Playbook) : Reconcile :=
  let r : Reconcile := ⟨playbook, playbook, .listStatus⟩
  if playbook.deleting = false ∧ playbookCompletedFinalizer ∉ playbook.finalizers then
    r.finish playbook.addFinalizer none
  else if playbook.deleting = true then { r with next := .listOwned }
  else
    -- `reconcileNormal`
    match playbook.status.phase with
    | .new => r.finish (playbook.setPhase .pending) none
    | .pending => r.finish (playbook.setPhase .running) none
    | .running => { r with next := .list }
    | .failed | .succeeded => r.finish playbook none

/-- `%q` of the object key. -/
def Playbook.key (playbook : Playbook) : String := "\"" ++ playbook.ns ++ "/" ++ playbook.name ++ "\""

/-- The answer to the list in `dealRunningPlaybook`. -/
def Reconcile.dealRunningPlaybook (r : Reconcile) (pods : List Pod) : Option APIError → Reconcile
  | some err =>
    if err.notFound then { r with next := .create }
    else r.finish r.playbook
      (some ("failed to list pod with label " ++ podPlaybookLabel ++ "=" ++ r.playbook.name ++ ": " ++ err.text))
  | none => if pods ≠ [] then r.finish r.playbook none else { r with next := .create }

/-- The answer to `Create`. -/
def Reconcile.created (r : Reconcile) (error : Option String) : Reconcile :=
  r.finish r.playbook (error.map fun text => "failed to create pod of playbook " ++ r.playbook.key ++ ": " ++ text)

/-- The answer to the list in `reconcileDelete`. -/
def Reconcile.reconcileDelete (r : Reconcile) (pods : List Pod) : Option APIError → Reconcile
  | some err => r.finish r.playbook (some ("failed to list object %q: " ++ err.text))
  | none =>
    if pods = [] then r.finish r.playbook.removeFinalizer none
    else if r.playbook.status.phase.Completed then { r with next := .delete (pods.map Pod.suffix) }
    else r.finish r.playbook none

/-- The answer to a `Delete`. -/
def Reconcile.deleted (r : Reconcile) (items : List Nat) : Option String → Reconcile
  | some text => r.finish r.playbook (some ("failed to delete pod for " ++ r.playbook.key ++ ": " ++ text))
  | none => if items = [] then r.finish r.playbook none else { r with next := .delete items }

/-- The message of a failed pod: the last executor container that terminated has its say. -/
def failureMessage (status : PodStatus) : String :=
  status.containerStatuses.foldl (fun message cs =>
    if cs.name = executorContainer then
      (cs.terminated.map fun t => t.reason ++ ": " ++ t.message).getD message
    else message) status.message

/-- The switch of `reconcileStatus`. -/
def podResult (playbook : Playbook) (pod : Pod) : Playbook :=
  match pod.status.phase with
  | .failed =>
    { playbook with status := ⟨.failed, playbookFailedReasonPodFailed, failureMessage pod.status⟩ }
  | .succeeded => playbook.setPhase .succeeded
  | .pending | .running | .unknown => playbook

/-- `reconcileStatus`, and on to the patches. -/
def Reconcile.reconcileStatus (r : Reconcile) (pods : List Pod) : Option APIError → Reconcile
  | some _ => { r with next := .patch }
  | none =>
    match pods with
    | [pod] =>
      if r.playbook.status.phase.Completed then { r with next := .patch }
      else { r with playbook := podResult r.playbook pod, next := .patch }
    | _ => { r with next := .patch }

/-- The objects, and the reconcile that runs. -/
structure Cluster where
  playbook : Option Playbook
  pods : List Pod
  /-- The pods that were created so far. -/
  created : Nat
  reconcile : Option Reconcile
deriving DecidableEq, Repr

/-- The requests of the reconcile with their answers, and what the other parties do. -/
inductive Act where
  | get (answered : Bool)
  | list (error : Option APIError)
  | create (reply : Reply)
  | delete (error : Option String)
  | patch (applied : Bool)
  | patchStatus (applied : Bool)
  | podStatus (suffix : Nat) (status : PodStatus)
  | podRemoved (suffix : Nat)
  /-- The executor sets the phase, with the error if it failed. -/
  | executor (suffix : Nat) (err : Option String)
  | playbookDeleted
  /-- Others set their finalizers. -/
  | finalizers (finalizers : List String)
deriving Repr

/-- An object that is being deleted goes with its last finalizer. -/
def Playbook.remains (playbook : Playbook) : Option Playbook :=
  if playbook.deleting = true ∧ playbook.finalizers = [] then none else some playbook

/-- The finalizers of an object; none is added to one that is being deleted. -/
def Playbook.setFinalizers (playbook : Playbook) (finalizers : List String) : Option Playbook :=
  if playbook.deleting = true ∧ ¬ finalizers ⊆ playbook.finalizers then some playbook
  else { playbook with finalizers := finalizers }.remains

/-- A user deletes the playbook. -/
def Playbook.delete (playbook : Playbook) : Option Playbook := { playbook with deleting := true }.remains

/-- Other controllers set their finalizers and leave the one of this controller alone. -/
def Playbook.setOthers (finalizers : List String) (playbook : Playbook) : Option Playbook :=
  if playbookCompletedFinalizer ∈ finalizers ↔ playbookCompletedFinalizer ∈ playbook.finalizers then
    playbook.setFinalizers finalizers
  else some playbook

/-- The merge patch of the metadata. -/
def Reconcile.patchMetadata (r : Reconcile) (stored : Playbook) : Option Playbook :=
  if r.playbook.finalizers = r.before.finalizers then some stored
  else stored.setFinalizers r.playbook.finalizers

/-- A field of a merge patch: written if it differs. -/
def merged {α : Type*} [DecidableEq α] (before after stored : α) : α := if after = before then stored else after

/-- The merge patch of the status. -/
def Reconcile.patchedStatus (r : Reconcile) (stored : PlaybookStatus) : PlaybookStatus where
  phase := merged r.before.status.phase r.playbook.status.phase stored.phase
  failureReason := merged r.before.status.failureReason r.playbook.status.failureReason stored.failureReason
  failureMessage := merged r.before.status.failureMessage r.playbook.status.failureMessage stored.failureMessage

/-- The status of a pod changes until its containers have terminated. -/
def Pod.observe (suffix : Nat) (status : PodStatus) (pod : Pod) : Pod :=
  if pod.suffix = suffix ∧ ¬ pod.status.phase.Ended then { pod with status := status } else pod

def Pod.report (suffix : Nat) (pod : Pod) : Pod :=
  if pod.suffix = suffix then { pod with reported := true } else pod

/-- The status that the executor leaves. -/
def executorStatus (status : PlaybookStatus) : Option String → PlaybookStatus
  | some err => ⟨.failed, playbookFailedReasonTaskFailed, err⟩
  | none => { status with phase := .succeeded }

namespace Cluster

/-- A pod as it is created. -/
def newPod (s : Cluster) : Pod := ⟨s.created, ⟨.pending, "", []⟩, false⟩

/-- An answered list. `NotFound` is an answer only where there is nothing to list. -/
def listStep (s : Cluster) (error : Option APIError) (r : Reconcile) : Option Cluster :=
  if ∃ err ∈ error, err.notFound = true ∧ s.pods ≠ [] then none
  else
    match r.next with
    | .list => some { s with reconcile := some (r.dealRunningPlaybook s.pods error) }
    | .listOwned => some { s with reconcile := some (r.reconcileDelete s.pods error) }
    | .listStatus => some { s with reconcile := some (r.reconcileStatus s.pods error) }
    | _ => none

def createStep (s : Cluster) (r : Reconcile) : Reply → Cluster
  | .refused text => { s with reconcile := some (r.created (some text)) }
  | .ok => { s with pods := s.pods ++ [s.newPod], created := s.created + 1, reconcile := some (r.created none) }
  | .lost text =>
    { s with pods := s.pods ++ [s.newPod], created := s.created + 1, reconcile := some (r.created (some text)) }

/-- A step of the reconcile, of the pods, of the executor or of the users. -/
def step (s : Cluster) : Act → Option Cluster
  | .get answered =>
    match s.reconcile, s.playbook with
    | none, some playbook =>
      some (if answered then { s with reconcile := some (Controllers.reconcile playbook) } else s)
    | none, none => some s
    | some _, _ => none
  | .list error => s.reconcile.bind (s.listStep error)
  | .create reply =>
    match s.reconcile with
    | some r => if r.next = .create then some (s.createStep r reply) else none
    | none => none
  | .delete error =>
    match s.reconcile with
    | some ⟨before, playbook, .delete (item :: items)⟩ =>
      -- a pod that is gone is not found
      if error = none ∧ item ∉ s.pods.map Pod.suffix then none
      else some { s with reconcile := some (Reconcile.deleted ⟨before, playbook, .listStatus⟩ items error) }
    | _ => none
  | .patch applied =>
    match s.reconcile with
    | some r =>
      if r.next = .patch then
        let playbook := if applied then s.playbook.bind r.patchMetadata else s.playbook
        some { s with playbook := playbook, reconcile := some { r with next := .patchStatus } }
      else none
    | none => none
  | .patchStatus applied =>
    match s.reconcile with
    | some r =>
      if r.next = .patchStatus then
        let patched (p : Playbook) : Playbook := { p with status := r.patchedStatus p.status }
        some { s with playbook := if applied then s.playbook.map patched else s.playbook, reconcile := none }
      else none
    | none => none
  | .podStatus suffix status => some { s with pods := s.pods.map (Pod.observe suffix status) }
  | .podRemoved suffix => some { s with pods := s.pods.filter fun pod => pod.suffix ≠ suffix }
  | .executor suffix err =>
    if ∃ pod ∈ s.pods, pod.suffix = suffix ∧ ¬ pod.status.phase.Ended ∧ pod.reported = false then
      let playbook := s.playbook.map fun p => { p with status := executorStatus p.status err }
      some { s with playbook := playbook, pods := s.pods.map (Pod.report suffix) }
    else none
  | .playbookDeleted => some { s with playbook := s.playbook.bind Playbook.delete }
  | .finalizers finalizers => some { s with playbook := s.playbook.bind (Playbook.setOthers finalizers) }

end Cluster

end KubeKey.Controllers
