import KubeKey.Go.Goroutine
import KubeKey.Variable.Inventory

/-!
# The inventory reconciler

`pkg/controllers/infrastructure/inventory_controller.go` from the point where the
inventory is ready: the group of the control plane and the one of the workers are filled
from the KKMachines, hosts are selected for the machines that have none, and
`setProviderID` writes the selected hosts into the machines. A reconcile reads the
inventory, syncs the two groups one after the other and patches the inventory; the
objects may change in between, and every request may fail.

The update of a machine carries the resource version that the list was read with, so a
second update from the same list is a conflict.
-/

namespace KubeKey.Infrastructure

open KubeKey.Go KubeKey.Variable

/-- `strings.TrimPrefix`. -/
def trimPrefix (s p : String) : String :=
  if p.toList.isPrefixOf s.toList then String.ofList (s.toList.drop p.toList.length) else s

/-- `Host2ProviderID`. -/
def host2ProviderID (clusterName host : String) : String := "kk://" ++ clusterName ++ "/" ++ host

/-- `ProviderID2Host`. -/
def providerID2Host (clusterName : String) (providerID : Option String) : String :=
  trimPrefix (providerID.getD "") ("kk://" ++ clusterName ++ "/")

/-- The label that lists a machine. -/
inductive MachineGroup where
  | controlPlane
  | worker
deriving DecidableEq, Repr

structure KKMachine where
  name : String
  group : MachineGroup
  providerID : Option String
  resourceVersion : Nat
deriving DecidableEq, Repr

/-- `Update`: the object replaces the stored one of the same resource version. -/
def update (answered : String → Bool) (obj : KKMachine) (api : List KKMachine) : Option (List KKMachine) :=
  match api.find? fun m => m.name = obj.name with
  | none => none
  | some stored =>
    if answered obj.name = true ∧ stored.resourceVersion = obj.resourceVersion then
      some (api.map fun m =>
        if m.name = obj.name then { obj with resourceVersion := obj.resourceVersion + 1 } else m)
    else none

/-- The inner loop of `setProviderID`, over the machines. The loop variable is a copy: the list keeps its machines. -/
def setHost (clusterName host : String) (answered : String → Bool) :
    List KKMachine → List KKMachine → Bool × List KKMachine
  | [], api => (true, api)
  | kkmachine :: items, api =>
    if kkmachine.providerID.isSome then setHost clusterName host answered items api
    else
      match update answered { kkmachine with providerID := some (host2ProviderID clusterName host) } api with
      | none => (false, api)
      | some api => setHost clusterName host answered items api

/-- `setProviderID`: whether it succeeds, and the machines it leaves. -/
def setProviderID (clusterName : String) (kkmachineList : List KKMachine) (answered : String → Bool) :
    List String → List KKMachine → Bool × List KKMachine
  | [], api => (true, api)
  | host :: availableHosts, api =>
    match setHost clusterName host answered kkmachineList api with
    | (false, api) => (false, api)
    | (true, api) => setProviderID clusterName kkmachineList answered availableHosts api

/-- The group names, from the environment of the controller. -/
structure GroupNames where
  controlPlane : String
  worker : String

def GroupNames.of (names : GroupNames) : MachineGroup → String
  | .controlPlane => names.controlPlane
  | .worker => names.worker

def defaultClusterGroup : String := "k8s_cluster"

/-- `inventory.Spec.Groups[groupName]`, the zero value if there is none. -/
def groupOf (inventory : InventorySpec) (groupName : String) : InventoryGroup :=
  (inventory.groups.get? groupName).getD ⟨[], [], .empty⟩

def setHosts (inventory : InventorySpec) (groupName : String) (hosts : List String) : InventorySpec :=
  { inventory with groups := inventory.groups.put groupName { groupOf inventory groupName with hosts := hosts } }

/-- What `RandomSelector` meets: the order the hosts are shuffled into, and what the array of the ungrouped hosts holds
behind them. -/
structure Selection where
  shuffleHosts : List String → List String
  spare : List String

/-- `RandomSelector`: the selected hosts and the inventory with them in the group, `none` if it panics. A group that
contains itself overflows the stack of `ConvertGroup`. -/
def randomSelector (selection : Selection) (groupName : String) (remain : Int) (inventory : InventorySpec) :
    Option (List String × InventorySpec) :=
  if 0 < remain then
    match (convertGroup inventory).map fun groups => groups.get? variableUnGrouped with
    | none => none
    | some none => some ([], inventory)
    | some (some ungrouped) =>
      let array := selection.shuffleHosts ungrouped ++ selection.spare
      if array.length < remain.toNat then none
      else
        let availableHosts := array.take remain.toNat
        some (availableHosts, setHosts inventory groupName ((groupOf inventory groupName).hosts ++ availableHosts))
  else some ([], inventory)

/-- What a sync of a group reads and meets. -/
structure SyncInput where
  /-- The replicas of the control plane or the machine deployment, `none` if they are not a number. -/
  replicas : Option Int
  /-- The machines of the group, `none` if they cannot be listed. -/
  machineList : Option Nat
  /-- The KKMachines can be listed. -/
  listed : Bool
  selection : Selection
  answered : String → Bool

/-- Where a sync comes to: an error, nothing to do yet, a panic, or the call of `setProviderID`. -/
inductive Sync where
  | error
  | waiting
  | panic (inventory : InventorySpec)
  | selected (kkmachineList : List KKMachine) (hosts : List String) (inventory : InventorySpec)

/-- `syncInventoryControlPlaneGroups` and `syncInventoryWorkerGroups` up to the call of `setProviderID`. Only the
replicas of a control plane have to be odd. -/
def syncGroup (names : GroupNames) (clusterName : String) (group : MachineGroup) (input : SyncInput)
    (inventory : InventorySpec) (api : List KKMachine) : Sync :=
  match input.replicas with
  | none => .error
  | some groupNum =>
    -- the remainder of an int64 has the sign of the number
    if group = .controlPlane ∧ groupNum.tmod 2 ≠ 1 then .error
    else
      match input.machineList with
      | none => .error
      | some machines =>
        if (machines : Int) ≠ groupNum then .waiting
        else if input.listed = false then .error
        else
          let kkmachineList := api.filter fun m => m.group = group
          let existHosts := kkmachineList.filterMap fun m =>
            m.providerID.map fun id => providerID2Host clusterName (some id)
          if machines < existHosts.length then .waiting
          else
            let inventory := setHosts inventory (names.of group) existHosts
            match randomSelector input.selection (names.of group) ((machines : Int) - existHosts.length) inventory with
            | none => .panic inventory
            | some (hosts, inventory) => .selected kkmachineList hosts inventory

/-- What a reconcile does next. -/
inductive Stage where
  | idle
  | sync (group : MachineGroup) (inventory : InventorySpec)
  | patch (inventory : InventorySpec)

/-- The objects of a cluster and where the reconciler of its inventory is. -/
structure Cluster where
  machines : List KKMachine
  inventory : InventorySpec
  stage : Stage

/-- The steps of the reconciler, and what else happens to the objects. -/
inductive Act where
  | reconcile
  | sync (input : SyncInput)
  | patch (answered : Bool)
  | machineCreated (name : String) (group : MachineGroup)
  | machineDeleted (name : String)
  /-- Another controller writes to a machine, and leaves its provider ID alone. -/
  | machineUpdated (name : String)
  /-- Somebody edits the inventory. -/
  | inventoryEdited (inventory : InventorySpec)

namespace Cluster

/-- The end of a sync that found what `setProviderID` has to do or not. -/
def settle (names : GroupNames) (s : Cluster) (group : MachineGroup) (ok : Bool) (inventory : InventorySpec)
    (machines : List KKMachine) : Cluster :=
  if ok = false then { s with machines := machines, stage := .patch inventory }
  else
    match group with
    | .controlPlane => { s with machines := machines, stage := .sync .worker inventory }
    | .worker =>
      { s with
        machines := machines
        stage := .patch { inventory with
          groups := inventory.groups.put defaultClusterGroup ⟨[names.controlPlane, names.worker], [], .empty⟩ } }

/-- A sync of one group. -/
def syncStep (names : GroupNames) (clusterName : String) (s : Cluster) (group : MachineGroup)
    (inventory : InventorySpec) (input : SyncInput) : Cluster :=
  match syncGroup names clusterName group input inventory s.machines with
  | .error => s.settle names group false inventory s.machines
  | .waiting => s.settle names group true inventory s.machines
  -- the deferred patch runs on a panic too
  | .panic inventory => s.settle names group false inventory s.machines
  | .selected kkmachineList hosts inventory =>
    let set := setProviderID clusterName kkmachineList input.answered hosts s.machines
    s.settle names group set.1 inventory set.2

def step (names : GroupNames) (clusterName : String) (s : Cluster) : Act → Option Cluster
  | .reconcile =>
    match s.stage with
    | .idle => some { s with stage := .sync .controlPlane s.inventory }
    | _ => none
  | .sync input =>
    match s.stage with
    | .sync group inventory => some (s.syncStep names clusterName group inventory input)
    | _ => none
  | .patch answered =>
    match s.stage with
    | .patch inventory => some { s with inventory := if answered then inventory else s.inventory, stage := .idle }
    | _ => none
  | .machineCreated name group =>
    if name ∈ s.machines.map KKMachine.name then none
    else some { s with machines := s.machines ++ [⟨name, group, none, 0⟩] }
  | .machineDeleted name => some { s with machines := s.machines.filter fun m => m.name ≠ name }
  | .machineUpdated name =>
    some { s with machines := s.machines.map fun m =>
      if m.name = name then { m with resourceVersion := m.resourceVersion + 1 } else m }
  | .inventoryEdited inventory => some { s with inventory := inventory }

end Cluster

end KubeKey.Infrastructure
