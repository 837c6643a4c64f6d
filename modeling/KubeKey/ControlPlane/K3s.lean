import KubeKey.Go.Goroutine
import KubeKey.Go.Map

/-!
# The K3s control plane

`controlplane/k3s`: a reconcile of a K3sControlPlane that is not being deleted lists the
control plane machines, updates their conditions and then upgrades, initialises, scales up
or scales down, each of which makes at most one write to a Machine. The reconcile is a
function from what it reads and the answers it gets to its writes; spec changes, changes of
the machines and their removal come between reconciles.

The filters of the cluster API's collections package are written out; the choice of the
oldest machine and of the failure domains is a parameter.
-/

namespace KubeKey.ControlPlane

open KubeKey.Go

/-- `ConditionStatus`. -/
inductive ConditionStatus where
  | conditionTrue
  | conditionFalse
  | conditionUnknown
deriving DecidableEq, Repr

/-- The controlling owner of a machine. -/
inductive Controller where
  | none
  | kcp
  | other
deriving DecidableEq, Repr

/-- The infrastructure object that a machine refers to. -/
structure InfraObject where
  annotations : GoMap String
  labels : GoMap String

structure Machine where
  name : String
  controller : Controller
  /-- The deletion timestamp is set. -/
  deleting : Bool
  creationTimestamp : Int
  version : Option String
  annotations : GoMap String
  labels : GoMap String
  failureDomain : Option String
  /-- `MachineAgentHealthyCondition`. -/
  agentHealthy : Option ConditionStatus
  /-- `none` if it is not found. -/
  infra : Option InfraObject

structure RolloutStrategy where
  /-- The type is `RollingUpdateStrategyType`. -/
  rolling : Bool
  /-- What `MaxSurge.IntValue()` returns, `none` if there is no `RollingUpdate`. -/
  maxSurge : Option Int

/-- The spec of a K3sControlPlane. -/
structure K3sControlPlane where
  clusterName : String
  replicas : Int32
  version : String
  templateAnnotations : GoMap String
  templateLabels : GoMap String
  infrastructureRefName : String
  infrastructureRefGroupKind : String
  /-- The JSON text of the server configuration. -/
  serverConfiguration : String
  rolloutAfter : Option Int
  rolloutStrategy : Option RolloutStrategy

/-- The choices of the cluster API's packages. -/
structure Picks where
  oldest : List Machine → Option Machine
  oldest_mem : ∀ {machines : List Machine} {m : Machine}, oldest machines = some m → m ∈ machines
  /-- `failuredomains.PickMost`. -/
  pickMost : List String → List Machine → List Machine → Option String
  /-- `failuredomains.PickFewest`. -/
  pickFewest : List String → List Machine → Option String

/-- The answer to a write; a write with a lost answer was carried out. -/
inductive Reply where
  | ok
  | refused
  | lost
deriving DecidableEq, Repr

/-- What a reconcile reads beside the control plane and its machines, and the answers to its requests. -/
structure Reads where
  /-- Nothing in front of the list of the machines makes the reconcile return. -/
  prepared : Bool
  /-- The list of the machines is answered. -/
  listed : Bool
  /-- `NewControlPlane` succeeds. -/
  newControlPlane : Bool
  /-- The conditions that `UpdateAgentConditions` comes to, `none` if the cluster is not initialised. -/
  observed : Option (Machine → Option ConditionStatus)
  /-- The conditions are patched. -/
  patched : Bool
  reconciliationTime : Int
  /-- The failure domains of the cluster that are for control planes. -/
  failureDomains : List String
  /-- The second list of the owned machines, in `initializeControlPlane`, is answered. -/
  listedAgain : Bool
  cloneTemplate : Reply
  generateConfig : Reply
  createMachine : Reply
  /-- The name that is generated for the machine. -/
  generatedName : String
  deleteMachine : Reply

/-- Which path creates a machine. -/
inductive Path where
  | init
  | join
deriving DecidableEq, Repr

/-- The writes of a reconcile. -/
inductive Write where
  | cloneTemplate
  | generateConfig
  | createMachine (path : Path) (failureDomain : Option String)
  | cleanupTemplate
  | cleanupConfig
  | deleteMachine (name : String)
deriving DecidableEq, Repr

def Write.ofMachine : Write → Bool
  | .createMachine .. | .deleteMachine _ => true
  | _ => false

/-- `isSubsetMapOf`. -/
def isSubsetMapOf (base existing : GoMap String) : Bool :=
  base.entries.all fun e => existing.get? e.1 = some e.2

/-- `matchMachineTemplateMetadata`. -/
def matchMachineTemplateMetadata (kcp : K3sControlPlane) (annotations labels : GoMap String) : Bool :=
  isSubsetMapOf kcp.templateAnnotations annotations && isSubsetMapOf kcp.templateLabels labels

def templateClonedFromNameAnnotation : String := "cluster.x-k8s.io/cloned-from-name"

def templateClonedFromGroupKindAnnotation : String := "cluster.x-k8s.io/cloned-from-groupkind"

def k3sServerConfigurationAnnotation : String := "controlplane.cluster.x-k8s.io/k3s-server-configuration"

def clusterLabelName : String := "cluster.x-k8s.io/cluster-name"

def machineControlPlaneLabelName : String := "cluster.x-k8s.io/control-plane"

def deleteMachineAnnotation : String := "cluster.x-k8s.io/delete-machine"

/-- `MatchesTemplateClonedFrom`. What cannot be found out is no mismatch. -/
def matchesTemplateClonedFrom (kcp : K3sControlPlane) (machine : Machine) : Bool :=
  match machine.infra with
  | none => true
  | some infraObj =>
    match infraObj.annotations.get? templateClonedFromNameAnnotation,
      infraObj.annotations.get? templateClonedFromGroupKindAnnotation with
    | some clonedFromName, some clonedFromGroupKind =>
      clonedFromName = kcp.infrastructureRefName && clonedFromGroupKind = kcp.infrastructureRefGroupKind &&
        matchMachineTemplateMetadata kcp infraObj.annotations infraObj.labels
    | _, _ => true

/-- `MatchesMachineSpec`. -/
def matchesMachineSpec (kcp : K3sControlPlane) (machine : Machine) : Bool :=
  matchMachineTemplateMetadata kcp machine.annotations machine.labels && machine.version = some kcp.version &&
    matchesTemplateClonedFrom kcp machine

/-- `collections.ShouldRolloutAfter`. -/
def shouldRolloutAfter (kcp : K3sControlPlane) (reconciliationTime : Int) (machine : Machine) : Bool :=
  match kcp.rolloutAfter with
  | none => false
  | some rolloutAfter => machine.creationTimestamp < rolloutAfter && rolloutAfter < reconciliationTime

/-- `MachinesNeedingRollout`. -/
def machinesNeedingRollout (kcp : K3sControlPlane) (reconciliationTime : Int) (machines : List Machine) :
    List Machine :=
  (machines.filter fun m => !m.deleting).filter fun m =>
    shouldRolloutAfter kcp reconciliationTime m || !matchesMachineSpec kcp m

/-- `UpToDateMachines`. -/
def upToDateMachines (kcp : K3sControlPlane) (reconciliationTime : Int) (machines : List Machine) : List Machine :=
  machines.filter fun m => !shouldRolloutAfter kcp reconciliationTime m && matchesMachineSpec kcp m

/-- `NextFailureDomainForScaleUp`. -/
def nextFailureDomainForScaleUp (picks : Picks) (kcp : K3sControlPlane) (reads : Reads) (machines : List Machine) :
    Option String :=
  if reads.failureDomains = [] then none
  else picks.pickFewest reads.failureDomains (upToDateMachines kcp reads.reconciliationTime machines)

/-- `FailureDomainWithMostMachines`. -/
def failureDomainWithMostMachines (picks : Picks) (reads : Reads) (all machines : List Machine) : Option String :=
  let notInFailureDomains := machines.filter fun m => m.failureDomain ∉ reads.failureDomains.map some
  if notInFailureDomains ≠ [] then (picks.oldest notInFailureDomains).bind Machine.failureDomain
  else picks.pickMost reads.failureDomains all machines

/-- `MachineInFailureDomainWithMostMachines`. -/
def machineInFailureDomainWithMostMachines (picks : Picks) (reads : Reads) (all machines : List Machine) :
    Option Machine :=
  let fd := failureDomainWithMostMachines picks reads all machines
  picks.oldest (machines.filter fun m => m.failureDomain = fd)

/-- `MachineWithDeleteAnnotation`. -/
def machineWithDeleteAnnotation (machines : List Machine) : List Machine :=
  machines.filter fun m => (m.annotations.get? deleteMachineAnnotation).isSome

/-- `selectMachineForScaleDown`, `none` for its error. -/
def selectMachineForScaleDown (picks : Picks) (reads : Reads) (machines outdatedMachines : List Machine) :
    Option Machine :=
  let candidates :=
    if machineWithDeleteAnnotation outdatedMachines ≠ [] then machineWithDeleteAnnotation outdatedMachines
    else if machineWithDeleteAnnotation machines ≠ [] then machineWithDeleteAnnotation machines
    else if outdatedMachines ≠ [] then outdatedMachines
    else machines
  machineInFailureDomainWithMostMachines picks reads machines candidates

/-- `preflightCheckCondition` of the agent condition. -/
def preflightCheckCondition (machine : Machine) : Bool :=
  match machine.agentHealthy with
  | none | some .conditionFalse | some .conditionUnknown => false
  | some .conditionTrue => true

/-- `preflightChecks`: whether the reconcile goes on. -/
def preflightChecks (machines excludeFor : List Machine) : Bool :=
  if machines = [] then true
  else if machines.any Machine.deleting then false
  else machines.all fun m => excludeFor.any (fun excluded => m.name = excluded.name) || preflightCheckCondition m

/-- `cloneConfigsAndGenerateMachine`. After an error what was generated is cleaned up. -/
def cloneConfigsAndGenerateMachine (reads : Reads) (path : Path) (failureDomain : Option String) : List Write :=
  if reads.cloneTemplate ≠ .ok then [.cloneTemplate]
  else if reads.generateConfig ≠ .ok then [.cloneTemplate, .generateConfig, .cleanupTemplate]
  else if reads.createMachine ≠ .ok then
    [.cloneTemplate, .generateConfig, .createMachine path failureDomain, .cleanupTemplate, .cleanupConfig]
  else [.cloneTemplate, .generateConfig, .createMachine path failureDomain]

/-- `initializeControlPlane`. The second list is of the owned machines as they are now, which are the same. -/
def initializeControlPlane (picks : Picks) (kcp : K3sControlPlane) (reads : Reads) (machines : List Machine) :
    List Write :=
  if reads.listedAgain = false ∨ 0 < machines.length then []
  else cloneConfigsAndGenerateMachine reads .init (nextFailureDomainForScaleUp picks kcp reads machines)

/-- `scaleUpControlPlane`. -/
def scaleUpControlPlane (picks : Picks) (kcp : K3sControlPlane) (reads : Reads) (machines : List Machine) :
    List Write :=
  if preflightChecks machines [] then
    cloneConfigsAndGenerateMachine reads .join (nextFailureDomainForScaleUp picks kcp reads machines)
  else []

/-- `scaleDownControlPlane`. -/
def scaleDownControlPlane (picks : Picks) (reads : Reads) (machines outdatedMachines : List Machine) : List Write :=
  match selectMachineForScaleDown picks reads machines outdatedMachines with
  | none => []
  | some machineToDelete =>
    if preflightChecks machines [machineToDelete] then [.deleteMachine machineToDelete.name] else []

/-- The sum of 32-bit integers, which wraps around. -/
def maxNodes (replicas : Int32) (maxSurge : Int) : Int32 := replicas + Int32.ofInt maxSurge

/-- `upgradeControlPlane`. -/
def upgradeControlPlane (picks : Picks) (kcp : K3sControlPlane) (reads : Reads)
    (machines machinesRequireUpgrade : List Machine) : List Write :=
  match kcp.rolloutStrategy with
  | some ⟨true, some maxSurge⟩ =>
    if Int32.ofNat machines.length < maxNodes kcp.replicas maxSurge then scaleUpControlPlane picks kcp reads machines
    else scaleDownControlPlane picks reads machines machinesRequireUpgrade
  | _ => []

/-- `reconcile` of the owned machines with their conditions. -/
def reconcileMachines (picks : Picks) (kcp : K3sControlPlane) (reads : Reads) (ownedMachines : List Machine) :
    List Write :=
  let needRollout := machinesNeedingRollout kcp reads.reconciliationTime ownedMachines
  let numMachines : Int := ownedMachines.length
  let desiredReplicas := kcp.replicas.toInt
  if needRollout ≠ [] then upgradeControlPlane picks kcp reads ownedMachines needRollout
  else if numMachines < desiredReplicas ∧ numMachines = 0 then initializeControlPlane picks kcp reads ownedMachines
  else if numMachines < desiredReplicas ∧ 0 < numMachines then scaleUpControlPlane picks kcp reads ownedMachines
  else if desiredReplicas < numMachines then scaleDownControlPlane picks reads ownedMachines []
  else []

/-- The machines after `reconcileControlPlaneConditions`. -/
def Reads.observe (reads : Reads) (machines : List Machine) : List Machine :=
  match reads.observed with
  | none => machines
  | some observed => machines.map fun m => { m with agentHealthy := observed m }

/-- The owned machines that `reconcile` goes on with. Machines without a controller are adopted first, and with machines
of another controller nothing is done. -/
def ownedMachines (reads : Reads) (controlPlaneMachines : List Machine) : Option (List Machine) :=
  if reads.prepared = false ∨ reads.listed = false then none
  else if controlPlaneMachines.any fun m => m.controller = .none then none
  else if (controlPlaneMachines.filter fun m => m.controller = .kcp).length ≠ controlPlaneMachines.length then none
  else if reads.newControlPlane = false then none
  else if reads.observed.isSome ∧ reads.patched = false then none
  else some (reads.observe controlPlaneMachines)

/-- `generateMachine`. -/
def generateMachine (kcp : K3sControlPlane) (reads : Reads) (failureDomain : Option String) : Machine where
  name := reads.generatedName
  controller := .kcp
  deleting := false
  creationTimestamp := reads.reconciliationTime
  version := some kcp.version
  annotations := kcp.templateAnnotations.put k3sServerConfigurationAnnotation kcp.serverConfiguration
  labels := (kcp.templateLabels.put clusterLabelName kcp.clusterName).put machineControlPlaneLabelName ""
  failureDomain := failureDomain
  agentHealthy := none
  infra := none

structure System where
  kcp : K3sControlPlane
  /-- The control plane machines of the cluster. -/
  machines : List Machine

/-- Reconciles, and what happens between them. -/
inductive Act where
  | reconcile (reads : Reads)
  | specChanged (kcp : K3sControlPlane)
  | machineChanged (machine : Machine)
  | machineAdded (machine : Machine)
  | machineRemoved (name : String)

/-- A write is carried out. A name that is taken is refused. -/
def Write.carryOut (kcp : K3sControlPlane) (reads : Reads) (machines : List Machine) : Write → List Machine
  | .createMachine _ failureDomain =>
    if reads.createMachine = .refused ∨ reads.generatedName ∈ machines.map Machine.name then machines
    else machines ++ [generateMachine kcp reads failureDomain]
  | .deleteMachine name =>
    if reads.deleteMachine = .refused then machines
    else machines.map fun m => if m.name = name then { m with deleting := true } else m
  | .cloneTemplate | .generateConfig | .cleanupTemplate | .cleanupConfig => machines

def System.step (picks : Picks) (s : System) : Act → Option System
  | .reconcile reads =>
    match ownedMachines reads s.machines with
    | none => some s
    | some machines =>
      let writes := reconcileMachines picks s.kcp reads machines
      some { s with machines := writes.foldl (Write.carryOut s.kcp reads) machines }
  | .specChanged kcp => some { s with kcp := kcp }
  | .machineChanged machine =>
    some { s with machines := s.machines.map fun m => if m.name = machine.name then machine else m }
  | .machineAdded machine =>
    if machine.name ∈ s.machines.map Machine.name then none
    else some { s with machines := s.machines ++ [machine] }
  | .machineRemoved name => some { s with machines := s.machines.filter fun m => m.name ≠ name }

end KubeKey.ControlPlane
