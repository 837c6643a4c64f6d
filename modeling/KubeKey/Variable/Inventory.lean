import KubeKey.Go.Literal

/-!
# Inventories and group expansion

`api/core/v1/inventory_types.go`, `pkg/variable/helper.go`. A `RawExtension` is
modelled by what its bytes decode to. The entries of a Go map are visited in the
order of the model's list: one of the orders `range` may take.
-/

namespace KubeKey.Variable

open KubeKey.Go

/-- `runtime.RawExtension`: no bytes, a JSON object, or bytes that are not one. -/
inductive RawExtension where
  | empty
  | object (entries : List (String × Lit))
  | invalid

/-- `Extension2Variables`. Bytes that do not unmarshal leave the map nil. -/
def extension2Variables : RawExtension → Heap → Val × Heap
  | .empty, h => (Lit.map .any []).alloc h
  | .object entries, h => (Lit.map .any entries).alloc h
  | .invalid, h => (.nilMap .any, h)

/-- The variables an extension stands for. -/
def RawExtension.view : RawExtension → DeepView
  | .object entries => (Lit.map .any entries).view
  | _ => (Lit.map .any []).view

structure InventoryGroup where
  groups : List String
  hosts : List String
  vars : RawExtension

structure InventorySpec where
  hosts : GoMap RawExtension
  vars : RawExtension
  groups : GoMap InventoryGroup

def variableLocalHost : String := "localhost"
def variableIPv4 : String := "internal_ipv4"
def variableIPv6 : String := "internal_ipv6"
def variableGroups : String := "groups"
def variableInventoryName : String := "inventory_hostname"
def variableHostName : String := "hostname"
def variableGlobalHosts : String := "hostvars"
def variableGroupsAll : String := "all"
def variableUnGrouped : String := "ungrouped"
def variableOS : String := "os"
def variableOSHostName : String := "hostname"
def variableItem : String := "item"

/-- Append a string that is not there yet. -/
def addUnique (mg : List String) (v : String) : List String := if v ∈ mg then mg else mg ++ [v]

/-- `CombineSlice`. -/
def combineSlice (g1 g2 : List String) : List String := (g1 ++ g2).foldl addUnique []

/-- `hostsInGroup`. The code has no depth bound: it does not return on a group that contains itself.
Without such a group the recursion is at most as deep as there are groups. -/
def hostsInGroup (inv : InventorySpec) : Nat → String → Option (List String)
  | 0, _ => none
  | fuel + 1, groupName =>
    match inv.groups.get? groupName with
    | some v => do
      let hosts ← v.groups.foldlM (fun hosts cg => do
        let sub ← hostsInGroup inv fuel cg
        some (combineSlice sub hosts)) []
      some (combineSlice hosts v.hosts)
    | none => some []

/-- One round of the group loop of `ConvertGroup`: the group's hosts leave `ungrouped`. -/
def convertGroupStep (inv : InventorySpec) (acc : GoMap (List String) × List String) (gn : String) :
    Option (GoMap (List String) × List String) := do
  let hosts ← hostsInGroup inv (inv.groups.entries.length + 1) gn
  some (acc.1.put gn hosts, hosts.foldl (fun u v => if v ∈ u then u.erase v else u) acc.2)

/-- `ConvertGroup`. -/
def convertGroup (inv : InventorySpec) : Option (GoMap (List String)) := do
  let hosts := inv.hosts.keys
  let all := if variableLocalHost ∈ hosts then hosts else hosts ++ [variableLocalHost]
  let (groups, ungrouped) ← inv.groups.keys.foldlM (convertGroupStep inv)
    (GoMap.empty.put variableGroupsAll all, hosts)
  some (groups.put variableUnGrouped ungrouped)

/-- A `map[string][]string` as a literal. -/
def groupsLit (groups : GoMap (List String)) : Lit :=
  .map (.slice .string) (groups.entries.map fun e => (e.1, .slice .string (e.2.map fun s => .scalar (.str s))))

/-- Decoding an extension places the variables it stands for. -/
theorem extension2Variables_placed (ext : RawExtension) {h : Heap} (closed : h.Closed) :
    Placed h ext.view (extension2Variables ext h).1 (extension2Variables ext h).2 := by
  cases ext with
  | empty => exact Lit.alloc_placed (.map .any []) h closed
  | object entries => exact Lit.alloc_placed (.map .any entries) h closed
  | invalid =>
    refine ⟨Heap.Grows.refl h, closed, trivial, ?_, fun label r => ⟨label, SameBelow.refl _ _, ?_⟩⟩
    · funext p
      cases p with
      | nil => rfl
      | cons s p => cases s <;> rfl
    · exact LabelledAt.of_leaf (by simp [extension2Variables])

end KubeKey.Variable
