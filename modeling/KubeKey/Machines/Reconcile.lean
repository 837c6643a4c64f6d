import KubeKey.Go.Goroutine
import KubeKey.Go.Map

/-!
# The KKMachine reconciler

`controllers/kkmachine`: a reconcile of a KKMachine finds the KKInstance that its provider
ID names; if it has no provider ID, it creates one for the first node of its roles whose
internal address no KKInstance has. The provider ID is a field in memory until the deferred
`Close` patches the KKMachine. Reconciles run one at a time, so each is one step, with the
answers to its requests as input; KKMachines come and go between them.

`NewProviderID` is of another package: it is a parameter, and only the empty text is an
empty provider ID to it.
-/

namespace KubeKey.Machines

open KubeKey.Go

/-- A node of the KKCluster; the spec of a KKInstance is a copy. -/
structure InstanceInfo where
  name : String
  internalAddress : String
  roles : List String
deriving DecidableEq, Repr

structure KKCluster where
  name : String
  labels : GoMap String
  instances : List InstanceInfo

/-- `Status.State`; `unhandled` is any text that the reconciler does not know. -/
inductive InstanceState where
  | new
  | pending
  | bootstrapping
  | running
  | inPlaceUpgrading
  | cleaning
  | cleaned
  | unhandled
deriving DecidableEq, Repr

structure KKInstance where
  name : String
  spec : InstanceInfo
  labels : GoMap String
  /-- The KKMachine that is the controlling owner. -/
  controller : Option Nat
  /-- The KKCluster among the owners. -/
  cluster : Option String
  state : InstanceState

structure KKMachine where
  uid : Nat
  roles : List String
  providerID : Option String
  instanceID : Option String
  /-- `MachineFinalizer`. -/
  finalizer : Bool
  deleting : Bool
  /-- A failure reason is set. -/
  failed : Bool
deriving DecidableEq, Repr

/-- The answer to a write; a write with a lost answer was carried out. -/
inductive Reply where
  | ok
  | refused
  | lost
deriving DecidableEq, Repr

/-- What a write that is answered so makes of the stored value. -/
def Reply.write {α : Type*} (reply : Reply) (stored written : α) : α :=
  if reply = .refused then stored else written

/-- What a reconcile reads of the Machine and the Cluster. -/
structure Reads where
  infrastructureReady : Bool
  /-- The secret with the bootstrap data is named. -/
  bootstrapData : Bool
  version : Bool
  machineLabels : GoMap String

/-- The answers to the requests of a reconcile. -/
structure Answers where
  getInstance : Bool
  patch : Reply
  listInstances : Bool
  create : Reply
  /-- The final patch of the spec and the metadata. -/
  close : Reply
  /-- The final patch of the status. -/
  closeStatus : Reply

/-- The errors of `NewProviderID`. -/
inductive ProviderIDError where
  | empty
  | invalid
deriving DecidableEq, Repr

inductive FindError where
  | notFound
  | other
deriving DecidableEq, Repr

/-- `findInstance`. -/
def findInstance (newProviderID : String → Except ProviderIDError String) (kkMachine : KKMachine)
    (instances : List KKInstance) (answered : Bool) : Except FindError (Option KKInstance) :=
  match newProviderID (kkMachine.providerID.getD "") with
  | .error .empty => .ok none
  | .error .invalid => .error .other
  | .ok id =>
    if answered = false then .error .other
    else
      match instances.find? fun i => i.name = id with
      | none => .error .notFound
      | some i => .ok (some i)

/-- `GetInstancesSpecByRole`. -/
def getInstancesSpecByRole (cluster : KKCluster) (role : String) : List InstanceInfo :=
  cluster.instances.flatMap fun info => (info.roles.filter (· = role)).map fun _ => info

/-- `client.MatchingLabels`. -/
def matchingLabels (selector labels : GoMap String) : Bool :=
  selector.entries.all fun e => labels.get? e.1 = some e.2

/-- `shouldExcludeInstance`. -/
def shouldExcludeInstance (cluster : KKCluster) (i : KKInstance) : Bool :=
  i.controller.isSome && i.cluster ≠ some cluster.name

/-- `AllInstances`. -/
def allInstances (cluster : KKCluster) (instances : List KKInstance) : List KKInstance :=
  (instances.filter fun i => matchingLabels cluster.labels i.labels).filter fun i => !shouldExcludeInstance cluster i

/-- `getUnassignedInstanceSpec`. -/
def getUnassignedInstanceSpec (cluster : KKCluster) (roles : List String) (instances : List KKInstance) :
    Option InstanceInfo :=
  (roles.flatMap (getInstancesSpecByRole cluster)).find? fun spec =>
    spec.internalAddress ∉ instances.map fun i => i.spec.internalAddress

def kkClusterLabelName : String := "infrastructure.cluster.x-k8s.io/kkcluster-name"

/-- What `createInstance` comes to. -/
inductive Creation where
  /-- The version is not set, which is recorded as a failure of the KKMachine. -/
  | failed
  | error
  /-- The KKInstance is created, and the answer arrives or not. -/
  | created (kkInstance : KKInstance) (answered : Bool)

/-- `createInstance`. `Create` is refused if there is a KKInstance of that name. -/
def createInstance (cluster : KKCluster) (kkMachine : KKMachine) (reads : Reads) (answers : Answers)
    (instances : List KKInstance) : Creation :=
  if reads.version = false then .failed
  else if answers.listInstances = false then .error
  else
    match getUnassignedInstanceSpec cluster kkMachine.roles (allInstances cluster instances) with
    | none => .error
    | some spec =>
      if answers.create = .refused ∨ spec.name ∈ instances.map KKInstance.name then .error
      else
        .created ⟨spec.name, spec, reads.machineLabels.put kkClusterLabelName cluster.name, some kkMachine.uid,
          some cluster.name, .new⟩ (answers.create = .ok)

/-- `SetProviderID`, `SetInstanceID`, and the state of the instance, which is a failure if it is not handled. -/
def KKMachine.assign (kkMachine : KKMachine) (clusterName : String) (i : KKInstance) : KKMachine :=
  { kkMachine with
    providerID := some ("kk:///" ++ clusterName ++ "/" ++ i.name), instanceID := some i.name,
    failed := kkMachine.failed || i.state = .unhandled }

/-- What a reconcile leaves before `Close`: the KKMachine in memory, the stored one, and the KKInstance it created. -/
structure Body where
  kkMachine : KKMachine
  stored : KKMachine
  created : Option KKInstance

/-- `reconcileNormal` after an instance was looked for. The patch of the conditions in front of `createInstance`
changes none of the fields here. -/
def assignInstance (cluster : KKCluster) (clusterName : String) (kkMachine stored : KKMachine) (reads : Reads)
    (answers : Answers) (instances : List KKInstance) : Option KKInstance → Body
  | some i => ⟨kkMachine.assign clusterName i, stored, none⟩
  | none =>
    match createInstance cluster kkMachine reads answers instances with
    | .failed => ⟨{ kkMachine with failed := true }, stored, none⟩
    | .error => ⟨kkMachine, stored, none⟩
    | .created i true => ⟨kkMachine.assign clusterName i, stored, some i⟩
    | .created i false => ⟨kkMachine, stored, some i⟩

/-- `reconcileNormal`. -/
def reconcileNormal (newProviderID : String → Except ProviderIDError String) (cluster : KKCluster)
    (clusterName : String) (kkMachine : KKMachine) (reads : Reads) (answers : Answers) (instances : List KKInstance) :
    Body :=
  if kkMachine.failed = true ∨ reads.infrastructureReady = false ∨ reads.bootstrapData = false then
    ⟨kkMachine, kkMachine, none⟩
  else
    match findInstance newProviderID kkMachine instances answers.getInstance with
    | .error _ => ⟨kkMachine, kkMachine, none⟩
    | .ok found =>
      let withFinalizer := { kkMachine with finalizer := true }
      if kkMachine.finalizer = true then
        assignInstance cluster clusterName withFinalizer kkMachine reads answers instances found
      else if answers.patch = .ok then
        assignInstance cluster clusterName withFinalizer withFinalizer reads answers instances found
      else ⟨withFinalizer, answers.patch.write kkMachine withFinalizer, none⟩

/-- `reconcileDelete`. The deletion of an instance that is found marks it; that it is gone is an event of its own. -/
def reconcileDelete (newProviderID : String → Except ProviderIDError String) (kkMachine : KKMachine)
    (answers : Answers) (instances : List KKInstance) : Body :=
  if answers.patch ≠ .ok then ⟨kkMachine, kkMachine, none⟩
  else
    match findInstance newProviderID kkMachine instances answers.getInstance with
    | .error .other => ⟨kkMachine, kkMachine, none⟩
    | .ok (some _) => ⟨kkMachine, kkMachine, none⟩
    | .error .notFound | .ok none => ⟨{ kkMachine with finalizer := false }, kkMachine, none⟩

/-- `Close`: the two patches. -/
def Body.close (body : Body) (answers : Answers) : KKMachine :=
  { answers.close.write body.stored body.kkMachine with
    failed := answers.closeStatus.write body.stored.failed body.kkMachine.failed }

structure System where
  kkMachines : List KKMachine
  instances : List KKInstance
  /-- Every creation of a KKInstance so far, with the KKMachine it was for. -/
  creations : List (Nat × String)
  /-- The KKMachines that were created so far. -/
  uids : Nat

/-- Reconciles, and what happens between them. -/
inductive Act where
  | reconcile (uid : Nat) (reads : Reads) (answers : Answers)
  | machineCreated (roles : List String)
  | machineDeleted (uid : Nat)
  | instanceState (name : String) (state : InstanceState)
  | instanceRemoved (name : String)

namespace System

/-- `Reconcile` of a KKMachine that was read. -/
def body (newProviderID : String → Except ProviderIDError String) (cluster : KKCluster) (clusterName : String)
    (s : System) (kkMachine : KKMachine) (reads : Reads) (answers : Answers) : Body :=
  if kkMachine.deleting then reconcileDelete newProviderID kkMachine answers s.instances
  else reconcileNormal newProviderID cluster clusterName kkMachine reads answers s.instances

/-- A KKMachine is stored; one that is being deleted goes with its finalizer. -/
def store (kkMachines : List KKMachine) (kkMachine : KKMachine) : List KKMachine :=
  (kkMachines.map fun k => if k.uid = kkMachine.uid then kkMachine else k).filter fun k =>
    !(k.deleting && !k.finalizer)

def step (newProviderID : String → Except ProviderIDError String) (cluster : KKCluster) (clusterName : String)
    (s : System) : Act → Option System
  | .reconcile uid reads answers =>
    (s.kkMachines.find? fun k => k.uid = uid).map fun kkMachine =>
      let body := s.body newProviderID cluster clusterName kkMachine reads answers
      { s with
        kkMachines := store s.kkMachines (body.close answers),
        instances := s.instances ++ body.created.toList,
        creations := s.creations ++ body.created.toList.map fun i => (uid, i.name) }
  | .machineCreated roles =>
    some { s with
      kkMachines := s.kkMachines ++ [⟨s.uids, roles, none, none, false, false, false⟩], uids := s.uids + 1 }
  | .machineDeleted uid =>
    (s.kkMachines.find? fun k => k.uid = uid).map fun kkMachine =>
      { s with kkMachines := store s.kkMachines { kkMachine with deleting := true } }
  | .instanceState name state =>
    some { s with instances := s.instances.map fun i => if i.name = name then { i with state := state } else i }
  | .instanceRemoved name => some { s with instances := s.instances.filter fun i => i.name ≠ name }

end System

end KubeKey.Machines
