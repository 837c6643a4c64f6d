import KubeKey.Variable.Combine
import KubeKey.Variable.Inventory

/-!
# `GetAllVariable`

`pkg/variable/variable_get.go`. The variables of a host are six layers folded
by `CombineVariables`, then completed in place by `defaultHostVariable`, then
overlaid with the built-in `hostvars` and `groups`. The result is a new map whose
nested containers are shared with the store wherever a single layer provides them.
-/

namespace KubeKey.Variable

open KubeKey.Go

/-- The variables of one host, two values of type `map[string]any`. -/
structure HostVars where
  remoteVars : Val
  runtimeVars : Val
deriving DecidableEq

/-- The in-memory data of a playbook's variables. -/
structure Value where
  config : RawExtension
  inventory : InventorySpec
  hosts : GoMap HostVars
  result : Val

/-- The entries of a value of type `map[string]any`, as a type assertion yields them. -/
def asAnyMap (h : Heap) : Val → Option (GoMap Val)
  | .nilMap .any => some .empty
  | .ref l => match h.get? l with
    | some (.map .any m) => some m
    | _ => none
  | _ => none

/-- `m[k] = v` unless the key is present. -/
def putAbsent (h : Heap) (l : Nat) (k : String) (v : Val) : Heap :=
  if (h.child (.ref l) (.key k)).isSome then h else h.setChild l (.key k) v

/-- The closure `defaultHostVariable`, on the host's freshly merged map at `l`. -/
def defaultHostVariable (localIP : String → String) (hostname : String) (l : Nat) (h : Heap) : Heap :=
  let h := if hostname = variableLocalHost then
      putAbsent (putAbsent h l variableIPv4 (.scalar (.str (localIP variableIPv4)))) l variableIPv6
        (.scalar (.str (localIP variableIPv6)))
    else h
  let h := match (h.child (.ref l) (.key variableOS)).bind (asAnyMap h) with
    | some osd => h.setChild l (.key variableHostName) ((osd.get? variableOSHostName).getD .null)
    | none => h
  putAbsent (putAbsent h l variableInventoryName (.scalar (.str hostname))) l variableHostName
    (.scalar (.str hostname))

/-- Merge the variables of an extension over `hostVars`. -/
def combineExtension (ext : RawExtension) (hostVars : Val) (h : Heap) : Option (Val × Heap) :=
  let (vars, h) := extension2Variables ext h
  combineVariables hostVars vars h

/-- The layers of one host in the order of the source: groups, remote, runtime, inventory, host, config. -/
def combineLayers (val : Value) (hostname : String) (hv : HostVars) (h : Heap) : Option (Val × Heap) := do
  let (l, h) := h.alloc (.map .any .empty)
  let (hostVars, h) ← val.inventory.groups.entries.foldlM (fun (acc : Val × Heap) g =>
    if hostname ∈ g.2.hosts then combineExtension g.2.vars acc.1 acc.2 else some acc) (.ref l, h)
  let (hostVars, h) ← combineVariables hostVars hv.remoteVars h
  let (hostVars, h) ← combineVariables hostVars hv.runtimeVars h
  let (hostVars, h) ← combineExtension val.inventory.vars hostVars h
  let (hostVars, h) ← combineExtension ((val.inventory.hosts.get? hostname).getD .empty) hostVars h
  combineExtension val.config hostVars h

/-- The variables of one host, with the defaults filled in. -/
def hostVariable (localIP : String → String) (val : Value) (hostname : String) (hv : HostVars) (h : Heap) :
    Option (Val × Heap) := do
  let (hostVars, h) ← combineLayers val hostname hv h
  match hostVars with
  | .ref l => some (.ref l, defaultHostVariable localIP hostname l h)
  | _ => none

/-- The closure `getHostsVariable`: `globalHosts`. -/
def getHostsVariable (localIP : String → String) (val : Value) (h : Heap) : Option (GoMap Val × Heap) :=
  val.hosts.entries.foldlM (fun (acc : GoMap Val × Heap) e => do
    let (hostVars, h) ← hostVariable localIP val e.1 e.2 acc.2
    some (acc.1.put e.1 hostVars, h)) (.empty, h)

/-- `GetAllVariable(hostname)`. A host that is not in the store gets an empty map. -/
def getAllVariable (localIP : String → String) (val : Value) (hostname : String) (h : Heap) :
    Option (Val × Heap) := do
  let (globalHosts, h) ← getHostsVariable localIP val h
  let (hosts, h) := h.alloc (.map .any globalHosts)
  match globalHosts.get? hostname with
  | none =>
    let (l, h) := h.alloc (.map .any .empty)
    some (.ref l, h)
  | some hostVars =>
    let (l, h) := h.alloc (.map .any (GoMap.empty.put variableGlobalHosts (.ref hosts)))
    let (hostVars, h) ← combineVariables hostVars (.ref l) h
    let groups ← convertGroup val.inventory
    let (vars, h) := (Lit.map .any [(variableGroups, groupsLit groups)]).alloc h
    combineVariables hostVars vars h

end KubeKey.Variable
