import KubeKey.Cluster.Spec
import KubeKey.Core.Deletions

/-!
# The hosts of each role

`GroupHosts` of `apis/kubekey/v1alpha2/cluster_types.go`. The entries of a role are host names or
ranges `node[1:3]`. An entry that has the three characters of a range is taken for one, and the
range is then looked for with a regular expression, wherever in the entry it stands.

The order in which Go ranges over the role groups is an argument: a list of the entries of
`RoleGroups`. The lists of the result hold pointers into `hostMap`, here the names of the hosts.
-/

namespace KubeKey.Cluster

open KubeKey.Go KubeKey.Text.Strings

/-! ## The source -/

/-- The end of the program: `logger.Log.Fatal` with its text, or a panic. -/
inductive Halt where
  | fatal (text : String)
  | panic
deriving DecidableEq, Repr

/-- `Master`. -/
def Role.master : String := "master"

/-- `ControlPlane`. -/
def Role.controlPlane : String := "control-plane"

/-- `Etcd`. -/
def Role.etcd : String := "etcd"

/-- `KubeKey`, the type of an etcd cluster. -/
def kubeKey : String := "kubekey"

/-- A match of a range, between the text before it and the text after it. -/
structure RangeMatch where
  front : List Char
  first : List Char
  last : List Char
  back : List Char
deriving DecidableEq, Repr

/-- A match of the regular expression `\[(\d+)\:(\d+)\]` at the front of the text. -/
def matchHere (s : List Char) : Option RangeMatch :=
  let first := (s.drop 1).takeWhile Char.isDigit
  let rest := (s.drop 1).dropWhile Char.isDigit
  let last := (rest.drop 1).takeWhile Char.isDigit
  let rest' := (rest.drop 1).dropWhile Char.isDigit
  if s.head? = some '[' ∧ first ≠ [] ∧ rest.head? = some ':' ∧ last ≠ [] ∧ rest'.head? = some ']' then
    some ⟨[], first, last, rest'.drop 1⟩
  else none

/-- `FindStringSubmatch`: the leftmost match. -/
def findRange : List Char → Option RangeMatch
  | [] => none
  | c :: cs =>
    match matchHere (c :: cs) with
    | some m => some m
    | none => (findRange cs).map fun m => { m with front := c :: m.front }

/-- The largest `int`. -/
def maxInt : Nat := 2 ^ 63 - 1

/-- An `int` so many rounds of a loop later. -/
def counter (start : Int) (round : Nat) : Int := (start + round + 2 ^ 63) % 2 ^ 64 - 2 ^ 63

/-- `hostVerify`, as the callers use it. -/
def hostVerify (hostMap : GoMap HostCfg) (group hostName : String) : Except Halt String :=
  if (hostMap.get? hostName).isSome then .ok hostName
  else .error (.fatal ("[" ++ hostName ++ "] is in [" ++ group ++ "] group, but not in hosts list"))

/-- `getHostsRange`: without a match there is no submatch to index. No `int` is above the largest one, so a loop up to
it ends at a name that is not declared; so many different names cannot all be. -/
def getHostsRange (hostMap : GoMap HostCfg) (group rangeStr : String) : Except Halt (List String) :=
  match findRange rangeStr.toList with
  | none => .error .panic
  | some m =>
    let start := atoi m.first
    let stop := atoi m.last
    let rounds := if stop = maxInt then hostMap.entries.length + 1 else (stop + 1 - start).toNat
    let hosts := (List.range rounds).mapM fun round =>
      hostVerify hostMap group (String.ofList m.front ++ toString (counter start round))
    if stop = maxInt then hosts.bind fun _ => .error (.fatal "") else hosts

/-- The test for a range in `ParseRolesList`. -/
def bracketed (host : String) : Bool := '[' ∈ host.toList ∧ ']' ∈ host.toList ∧ ':' ∈ host.toList

/-- The hosts of one entry. -/
def entryHosts (hostMap : GoMap HostCfg) (role host : String) : Except Halt (List String) :=
  if bracketed host then getHostsRange hostMap role host else (hostVerify hostMap role host).map ([·])

/-- The lists of the roles, and the roles of the hosts that they point to. -/
structure Groups where
  lists : GoMap (List String)
  roles : String → List String

namespace Groups

/-- Nothing is grouped yet. -/
def empty : Groups := ⟨.empty, fun _ => []⟩

/-- The list of a role, nil if there is none. -/
def list (g : Groups) (role : String) : List String := (g.lists.get? role).getD []

/-- `roleGroupAppend`: `SetRole` and the append. -/
def roleGroupAppend (role : String) (g : Groups) (host : String) : Groups where
  lists := g.lists.put role (g.list role ++ [host])
  roles h := if h = host then g.roles h ++ [role] else g.roles h

end Groups

/-- One round over the names of an entry. -/
def appendName (hostMap : GoMap HostCfg) (role : String) (g : Groups) (hostName : String) : Except Halt Groups :=
  if (hostMap.get? hostName).isSome then .ok (g.roleGroupAppend role hostName)
  else .error (.fatal ("incorrect nodeName under roleGroups/" ++ role ++ " in the configuration file"))

/-- One round over the entries of a role. -/
def parseHost (hostMap : GoMap HostCfg) (role : String) (g : Groups) (host : String) : Except Halt Groups :=
  (entryHosts hostMap role host).bind fun h => h.foldlM (appendName hostMap role) g

/-- `ParseRolesList`. -/
def parseRolesList (hostMap : GoMap HostCfg) (order : List (String × List String)) : Except Halt Groups :=
  order.foldlM (fun g entry => entry.2.foldlM (parseHost hostMap entry.1) g) .empty

namespace ClusterSpec

/-- The map of `GroupHosts` from the names to the hosts. `toHosts` follows the pointer to the timeout. -/
def hostMap (cfg : ClusterSpec) : Except Halt (GoMap HostCfg) :=
  cfg.hosts.foldlM (fun hostMap host =>
    if host.timeout.isSome then .ok (hostMap.put host.name host) else .error .panic) .empty

/-- `GroupHosts`. -/
def groupHosts (cfg : ClusterSpec) (order : List (String × List String)) : Except Halt Groups :=
  cfg.hostMap.bind fun hostMap => (parseRolesList hostMap order).bind fun roleGroups =>
    if roleGroups.list Role.master = [] ∧ roleGroups.list Role.controlPlane = [] then
      .error (.fatal "The number of master/control-plane cannot be 0")
    else if roleGroups.list Role.etcd = [] ∧ cfg.etcd.type = kubeKey then
      .error (.fatal "The number of etcd cannot be 0")
    else .ok ((roleGroups.list Role.controlPlane).foldl (Groups.roleGroupAppend Role.master) roleGroups)

end ClusterSpec

end KubeKey.Cluster
