import KubeKey.Go.Map

/-!
# The runtime of the legacy `kk`

`BaseRuntime` of `cmd/kk/pkg/core/connector/runtime.go`: the hosts of the cluster, the
hosts of each role and the hosts that were given up. The host lists are slices, and the
tasks of a module hold on to them while `DeleteHost` compacts them in place, so the
arrays behind the slices are part of the state. A panic is `none`.
-/

namespace KubeKey.Core

open KubeKey.Go

/-- `connector.Host`, as far as the tasks read it. -/
structure Host where
  name : String
  address : String
  roles : List String
deriving DecidableEq, Repr

/-- A `[]Host` that starts at the front of its array. -/
structure Slice where
  array : Nat
  len : Nat
deriving DecidableEq, Repr

/-- `BaseRuntime`. An entry of an array is `none` where the source has a nil host. -/
structure BaseRuntime where
  ignoreErr : Bool
  arrays : Nat → List (Option Host)
  allHosts : Slice
  roleHosts : GoMap Slice
  deprecatedHosts : List String

namespace BaseRuntime

/-- `NewBaseRuntime`. -/
def new (ignoreErr : Bool) : BaseRuntime := ⟨ignoreErr, fun _ => [], ⟨0, 0⟩, .empty, []⟩

/-- What a slice holds now. -/
def hosts (b : BaseRuntime) (s : Slice) : List (Option Host) := (b.arrays s.array).take s.len

/-- `HostIsDeprecated`. -/
def hostIsDeprecated (b : BaseRuntime) (host : Host) : Bool := b.deprecatedHosts.contains host.name

/-- The loops of `GetAllHosts` and `Execute` pass over nil and deprecated hosts. -/
def skips (b : BaseRuntime) : Option Host → Bool
  | none => true
  | some host => b.hostIsDeprecated host

/-- `GetAllHosts`: the content of a fresh slice. -/
def getAllHosts (b : BaseRuntime) : List (Option Host) := (b.hosts b.allHosts).filter fun h => !b.skips h

/-- `GetHostsByRole`: the slice itself; `none` is the empty literal. -/
def getHostsByRole (b : BaseRuntime) (role : String) : Option Slice := b.roleHosts.get? role

end BaseRuntime

/-- The loop that moves the hosts of another name to the front, from index `j` with `i` hosts kept. -/
def compactLoop (name : String) : (remaining j i : Nat) → List (Option Host) → Option (Nat × List (Option Host))
  | 0, _, i, cells => some (i, cells)
  | remaining + 1, j, i, cells =>
    match cells[j]? with
    | some (some host) =>
      if host.name ≠ name then compactLoop name remaining (j + 1) (i + 1) (cells.set i (some host))
      else compactLoop name remaining (j + 1) i cells
    | _ => none

namespace BaseRuntime

/-- The array of a slice, replaced. -/
def setArray (b : BaseRuntime) (array : Nat) (cells : List (Option Host)) : BaseRuntime :=
  { b with arrays := fun a => if a = array then cells else b.arrays a }

/-- One round of `RoleMapDelete`. -/
def roleDelete (host : Host) (b : BaseRuntime) (entry : String × Slice) : Option BaseRuntime := do
  let (i, cells) ← compactLoop host.name entry.2.len 0 0 (b.arrays entry.2.array)
  pure { b.setArray entry.2.array cells with roleHosts := b.roleHosts.put entry.1 { entry.2 with len := i } }

/-- `RoleMapDelete`. -/
def roleMapDelete (b : BaseRuntime) (host : Host) : Option BaseRuntime :=
  b.roleHosts.entries.foldlM (roleDelete host) b

/-- `DeleteHost`: the write of nil behind the kept hosts is out of range if every host was kept. -/
def deleteHost (b : BaseRuntime) (host : Host) : Option BaseRuntime := do
  let (i, cells) ← compactLoop host.name b.allHosts.len 0 0 (b.arrays b.allHosts.array)
  if i < b.allHosts.len then
    let b ← { b.setArray b.allHosts.array (cells.set i none) with
      allHosts := { b.allHosts with len := i } }.roleMapDelete host
    pure { b with deprecatedHosts := host.name :: b.deprecatedHosts }
  else none

/-- `AppendHost`. Nobody else holds the slice yet, so the array can be taken to end with it. -/
def appendHost (b : BaseRuntime) (host : Host) : BaseRuntime :=
  { b.setArray b.allHosts.array (b.hosts b.allHosts ++ [some host]) with
    allHosts := { b.allHosts with len := b.allHosts.len + 1 } }

/-- One round of `AppendRoleMap`. The first host of a role gets an array of its own. -/
def appendRole (host : Host) (b : BaseRuntime) (role : String) : BaseRuntime :=
  match b.roleHosts.get? role with
  | some s =>
    { b.setArray s.array (b.hosts s ++ [some host]) with roleHosts := b.roleHosts.put role { s with len := s.len + 1 } }
  | none =>
    let array := b.roleHosts.entries.length + 1
    { b.setArray array [some host] with roleHosts := b.roleHosts.put role ⟨array, 1⟩ }

/-- `AppendRoleMap`. -/
def appendRoleMap (b : BaseRuntime) (host : Host) : BaseRuntime := host.roles.foldl (appendRole host) b

/-- `GenerateRoleMap`: the roles of a nil host cannot be read. -/
def generateRoleMap (b : BaseRuntime) : Option BaseRuntime :=
  (b.hosts b.allHosts).foldlM (fun b host => host.map b.appendRoleMap) b

end BaseRuntime

/-- The runtimes that `NewKubeRuntime` builds, which appends every name once, and those that deletions make of them. -/
inductive BaseRuntime.Built : BaseRuntime → Prop where
  | new (ignoreErr : Bool) : Built (.new ignoreErr)
  | append {b : BaseRuntime} {host : Host} (built : Built b) (other : some host.name ∉ (b.getAllHosts.map (·.map Host.name)))
      (alive : b.hostIsDeprecated host = false) : Built ((b.appendHost host).appendRoleMap host)
  | delete {b b' : BaseRuntime} {host : Host} (built : Built b) (deleted : b.deleteHost host = some b') : Built b'

end KubeKey.Core
