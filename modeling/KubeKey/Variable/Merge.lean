import KubeKey.Variable.Yaml

/-!
# The variable store

`pkg/variable/variable.go`, `pkg/variable/variable_merge.go`. `Merge` applies a
merge function to a copy of the store and then writes the hosts that changed to
the source, one by one. The copy has its own top-level maps and shares everything
below them. A merge that fails may still have changed the heap, the node it was
rendering and the source, so all of them are returned.
-/

namespace KubeKey.Variable

open KubeKey.Go

/-- What a file holds for a host: the text has no references. -/
structure Snapshot where
  remote : DeepView
  runtime : DeepView

/-- `source.Source`: the data written for each host. -/
inductive Source where
  /-- The memory source keeps the maps themselves. -/
  | memory (data : GoMap HostVars)
  /-- The file source; `none` is a file that was cut short. -/
  | file (data : GoMap (Option Snapshot))

/-- How the file system answers a `Write`. -/
inductive WriteReply where
  | ok
  /-- `os.Create` fails: the file is as before. -/
  | createFailed
  /-- The file is truncated and the data does not reach it. -/
  | writeFailed
deriving DecidableEq

/-- `variable`: the values and the source. -/
structure Store where
  heap : Heap
  value : Value
  source : Source

/-- The functions given to `Merge`. -/
inductive MergeFunc where
  | remote (data : List (String × Lit)) (hostnames : List String)
  | runtime (node : Node) (hosts : List String)
  | hostsRuntime (node : Node) (hostname : String) (hosts : List String)
  | result (result : Lit)

/-- `host{}`. -/
def HostVars.zero : HostVars := ⟨.nilMap .any, .nilMap .any⟩

/-- `maps.Clone`. -/
def cloneMap (v : Val) (h : Heap) : Val × Heap :=
  match v with
  | .ref l => match h.get? l with
    | some o => (.ref h.size, (h.alloc o).2)
    | none => (v, h)
  | _ => (v, h)

/-- The copies of the maps of one host. -/
def cloneHost (hv : HostVars) (h : Heap) : HostVars × Heap :=
  let (remoteVars, h) := cloneMap hv.remoteVars h
  let (runtimeVars, h) := cloneMap hv.runtimeVars h
  (⟨remoteVars, runtimeVars⟩, h)

/-- The loop of `DeepCopy` over the hosts. -/
def cloneHosts : List (String × HostVars) → GoMap HostVars → Heap → GoMap HostVars × Heap
  | [], hosts, h => (hosts, h)
  | (k, hv) :: rest, hosts, h =>
    let (hv, h) := cloneHost hv h
    cloneHosts rest (hosts.put k hv) h

/-- `DeepCopy`. -/
def deepCopy (val : Value) (h : Heap) : Value × Heap :=
  let (result, h) := cloneMap val.result h
  let (hosts, h) := cloneHosts val.hosts.entries .empty h
  ({ val with hosts := hosts, result := result }, h)

/-- A `float64` that is not a number. -/
def isNaN (bits : UInt64) : Bool := bits &&& 0x7FFFFFFFFFFFFFFF > 0x7FF0000000000000

/-- `==` on values without identity. -/
def scalarEqual : Scalar → Scalar → Bool
  | .float64 a, .float64 b => a == b && !isNaN a
  | a, b => a == b

/-- `reflect.DeepEqual`. -/
def deepEqual : Nat → Heap → Val → Val → Bool
  | 0, _, _, _ => false
  | fuel + 1, h, a, b =>
    match a, b with
    | .scalar x, .scalar y => scalarEqual x y
    | .nilMap t, .nilMap t' => t == t'
    | .nilSlice t, .nilSlice t' => t == t'
    | .ref l, .ref l' => l == l' ||
      match h.get? l, h.get? l' with
      | some (.map t m), some (.map t' m') =>
        t == t' && m.entries.length == m'.entries.length &&
          m.entries.all fun e => match m'.get? e.1 with
            | some w => deepEqual fuel h e.2 w
            | none => false
      | some (.slice t xs), some (.slice t' ys) =>
        t == t' && xs.length == ys.length && (xs.zip ys).all fun e => deepEqual fuel h e.1 e.2
      | _, _ => false
    | _, _ => false

/-- `reflect.DeepEqual` on two hosts. -/
def hostEqual (h : Heap) (a b : HostVars) : Bool :=
  deepEqual (h.size + 1) h a.remoteVars b.remoteVars && deepEqual (h.size + 1) h a.runtimeVars b.runtimeVars

/-- `source.Write`. -/
def Source.write (reply : WriteReply) (h : Heap) (hn : String) (hv : HostVars) : Source → Bool × Source
  | .memory data => (true, .memory (data.put hn hv))
  | .file data => match reply with
    | .ok => (true, .file (data.put hn (some ⟨h.view hv.remoteVars, h.view hv.runtimeVars⟩)))
    | .createFailed => (false, .file data)
    | .writeFailed => (false, .file (data.put hn none))

/-- The loop of `syncSource` over the hosts of the store. -/
def syncHosts (io : String → WriteReply) (newHosts : GoMap HostVars) :
    List (String × HostVars) → Store → Except Fault Unit × Store
  | [], store => (.ok (), store)
  | (hn, hv) :: rest, store =>
    let new := (newHosts.get? hn).getD .zero
    if hostEqual store.heap new hv then syncHosts io newHosts rest store
    else
      match store.source.write (io hn) store.heap hn new with
      | (false, source) => (.error (.error (.write hn)), { store with source := source })
      | (true, source) =>
        syncHosts io newHosts rest { store with
          source := source
          value := { store.value with hosts := store.value.hosts.put hn new } }

/-- `syncSource`. -/
def syncSource (io : String → WriteReply) (newVal : Value) (store : Store) : Except Fault Unit × Store :=
  syncHosts io newVal.hosts store.value.hosts.entries
    { store with value := { store.value with result := newVal.result } }

/-- The values a decoded node reaches the heap with; `none` is the nil map. -/
def allocEntries : Option (List (String × Lit)) → Heap → Val × Heap
  | some entries, h => (Lit.map .any entries).alloc h
  | none, h => (.nilMap .any, h)

/-- `hv.RuntimeVars = CombineVariables(hv.RuntimeVars, data)` for one host. -/
def combineRuntime (hostname : String) (data : Val) (val : Value) (h : Heap) : Option (Value × Heap) := do
  let hv := (val.hosts.get? hostname).getD .zero
  let (runtimeVars, h) ← combineVariables hv.runtimeVars data h
  some ({ val with hosts := val.hosts.put hostname { hv with runtimeVars := runtimeVars } }, h)

/-- A node rendered for one host: the decoded map, or the fault; the node and the heap it leaves. -/
def renderFor (env : Env) (val : Value) (hostname : String) (node : Node) (h : Heap) :
    Except Fault (Option (List (String × Lit))) × Node × Heap :=
  match getAllVariable env.localIP val hostname h with
  | none => (.error .diverge, node, h)
  | some (ctx, h) => parseYamlNode env ctx node h

/-- The loop of `MergeRuntimeVariable`. -/
def mergeRuntime (env : Env) : List String → Node → Value → Heap → Except Fault Unit × Node × Value × Heap
  | [], node, val, h => (.ok (), node, val, h)
  | hostname :: rest, node, val, h =>
    match renderFor env val hostname node h with
    | (.error f, node, h) => (.error f, node, val, h)
    | (.ok entries, node, h) =>
      let (data, h) := allocEntries entries h
      match combineRuntime hostname data val h with
      | none => (.error .diverge, node, val, h)
      | some (val, h) => mergeRuntime env rest node val h

/-- The loop of `MergeHostsRuntimeVariable` over its target hosts. -/
def mergeInto (data : Val) : List String → Value → Heap → Except Fault Unit × Value × Heap
  | [], val, h => (.ok (), val, h)
  | hostname :: rest, val, h =>
    match combineRuntime hostname data val h with
    | none => (.error .diverge, val, h)
    | some (val, h) => mergeInto data rest val h

/-- `MergeHostsRuntimeVariable`. -/
def mergeHostsRuntime (env : Env) (node : Node) (hostname : String) (hosts : List String) (val : Value) (h : Heap) :
    Except Fault Unit × Node × Value × Heap :=
  match renderFor env val hostname node h with
  | (.error f, node, h) => (.error f, node, val, h)
  | (.ok entries, node, h) =>
    let (data, h) := allocEntries entries h
    let (r, val, h) := mergeInto data hosts val h
    (r, node, val, h)

/-- The loop of `MergeRemoteVariable`. -/
def mergeRemote (data : Val) (h : Heap) : List String → Value → Except Fault Unit × Value
  | [], val => (.ok (), val)
  | hostname :: rest, val =>
    match val.hosts.get? hostname with
    | none => (.error (.error (.hostNotExist hostname)), val)
    | some hv =>
      if ((asMap h hv.remoteVars).getD .empty).entries.isEmpty then
        mergeRemote data h rest { val with hosts := val.hosts.put hostname { hv with remoteVars := data } }
      else mergeRemote data h rest val

def resultKey : String := "result"

/-- `MergeResultVariable`. -/
def mergeResult (result : Lit) (val : Value) (h : Heap) : Except Fault Unit × Value × Heap :=
  let (data, h) := (Lit.map .any [(resultKey, result)]).alloc h
  match combineVariables val.result data h with
  | none => (.error .diverge, val, h)
  | some (result, h) => (.ok (), { val with result := result }, h)

/-- A merge function applied to the copy: the outcome, the function with the node it leaves, the copy and the heap. -/
def MergeFunc.apply (env : Env) : MergeFunc → Value → Heap → Except Fault Unit × MergeFunc × Value × Heap
  | .remote data hostnames, val, h =>
    let (v, h) := (Lit.map .any data).alloc h
    let (r, val) := mergeRemote v h hostnames val
    (r, .remote data hostnames, val, h)
  | .runtime node hosts, val, h =>
    -- a zero node yields the empty merge function
    if node.isZero then (.ok (), .runtime node hosts, val, h)
    else
      let (r, node, val, h) := mergeRuntime env hosts node val h
      (r, .runtime node hosts, val, h)
  | .hostsRuntime node hostname hosts, val, h =>
    if node.isZero then (.ok (), .hostsRuntime node hostname hosts, val, h)
    else
      let (r, node, val, h) := mergeHostsRuntime env node hostname hosts val h
      (r, .hostsRuntime node hostname hosts, val, h)
  | .result data, val, h =>
    let (r, val, h) := mergeResult data val h
    (r, .result data, val, h)

/-- `Merge`: the outcome, the merge function with the node it leaves, and the store. -/
def merge (env : Env) (io : String → WriteReply) (f : MergeFunc) (store : Store) :
    Except Fault Unit × MergeFunc × Store :=
  let (nv, h) := deepCopy store.value store.heap
  match f.apply env nv h with
  | (.error e, f, _, h) => (.error e, f, { store with heap := h })
  | (.ok _, f, nv, h) =>
    let (r, store) := syncSource io nv { store with heap := h }
    (r, f, store)

/-- One of the two maps that `New` reads back for a host. -/
def readVars (data : List (String × Lit)) (key : String) (h : Heap) : Except Fault (Val × Heap) :=
  match (GoMap.ofList data).get? key with
  | none => .ok (.nilMap .any, h)
  | some (.map .any entries) => .ok ((Lit.map .any entries).alloc h)
  | some _ => .error (.error (.decode "type assertion failed"))

/-- The loop of `New` over the hosts of the inventory. -/
def newHosts : List String → GoMap HostVars → Heap → GoMap HostVars × Heap
  | [], hosts, h => (hosts, h)
  | hostname :: rest, hosts, h =>
    let (remoteVars, h) := h.alloc (.map .any .empty)
    let (runtimeVars, h) := h.alloc (.map .any .empty)
    newHosts rest (hosts.put hostname ⟨.ref remoteVars, .ref runtimeVars⟩) h

/-- The loop of `New` over the data of the source. -/
def loadHosts : List (String × List (String × Lit)) → GoMap HostVars → Heap → Except Fault (GoMap HostVars × Heap)
  | [], hosts, h => .ok (hosts, h)
  | (k, d) :: rest, hosts, h => do
    let (remoteVars, h) ← readVars d "remote" h
    let (runtimeVars, h) ← readVars d "runtime" h
    loadHosts rest (hosts.put k ⟨remoteVars, runtimeVars⟩) h

/-- `New`, on what the source reads. -/
def newVariable (config : RawExtension) (inventory : InventorySpec) (source : Source)
    (data : List (String × List (String × Lit))) : Except Fault Store :=
  match convertGroup inventory with
  | none => .error .diverge
  | some groups => do
    let (hosts, h) := newHosts ((groups.get? variableGroupsAll).getD []) .empty .empty
    let (hosts, h) ← loadHosts data hosts h
    .ok { heap := h, value := ⟨config, inventory, hosts, .nilMap .any⟩, source := source }

end KubeKey.Variable
