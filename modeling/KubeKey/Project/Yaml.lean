import KubeKey.Go.Map

/-!
# Decoding plays, roles and blocks

The `UnmarshalYAML` methods of `api/project/v1`, and what the decoder does around them. A
block is decoded by the first of the keys `include_tasks` and `block` that its mapping lists:
with one of these the unknown fields are not collected, and the map for them stays nil.

The decoder is library code. What it does with the fields that the loader does not read is
given by `Decoder`; the rest follows its documentation: a null leaves the value as it is, a
struct takes the fields of a mapping and of the mappings merged into it, a list takes the
items of a sequence.
-/

namespace KubeKey.Loader

open KubeKey.Go

/-- A node of a yaml document. The keys of a mapping are those that `Content` lists; the fields that come from merge
keys are only seen by the decoder. -/
inductive Yaml where
  | scalar (value : String) (null : Bool)
  | seq (items : List Yaml)
  | map (content merged : List (String × Yaml))
  | alias (name : String) (target : Yaml)

namespace Yaml

/-- `Node.Value`. -/
def value : Yaml → String
  | .scalar value _ => value
  | .alias name _ => name
  | _ => ""

/-- The node that an alias stands for. -/
def resolve : Yaml → Yaml
  | .alias _ target => target.resolve
  | n => n

end Yaml

/-- A value of `UnknownField`: what the field decodes to, or the annotations that the loader adds. -/
inductive Unknown where
  | field (node : Yaml)
  | annotations (relativePath : String)

/-- `Block`, with the fields that the loader does not read in `fields`, and `UnknownField` with `none` for a nil map. -/
inductive Block (α : Type) where
  | mk (fields : α) (includeTasks : String) (unknownField : Option (GoMap Unknown)) (block rescue always : List (Block α))

/-- `Role`. -/
inductive Role (α : Type) where
  | mk (fields : α) (vars : Option Yaml) (role : String) (roleDependency : List (Role α)) (block : List (Block α))

def Role.roleDependency {α : Type} : Role α → List (Role α)
  | .mk _ _ _ roleDependency _ => roleDependency

/-- `Play`. -/
structure Play (α : Type) where
  fields : α
  importPlaybook : String
  hosts : List String
  vars : Option Yaml
  varsFiles : List String
  roles : List (Role α)
  handlers : List (Block α)
  preTasks : List (Block α)
  tasks : List (Block α)
  postTasks : List (Block α)

/-- What the decoder does with the other fields of a struct, and whether a null item of a list is a zero item or is
left out. -/
structure Decoder (α : Type) where
  zero : α
  blockBase : Yaml → Option α
  task : α → Yaml → Option α
  roleInfo : Yaml → Option α
  play : Yaml → Option α
  keepsNull : Bool

/-- `getFieldNames` of `BlockBase` and `Task`. -/
def fieldNames : List String :=
  ["name", "connection", "port", "remote_user", "vars", "environment", "no_log", "run_once", "ignore_errors",
    "check_mode", "diff", "any_errors_fatal", "throttle", "timeout", "debugger", "become", "become_method",
    "become_user", "become_flags", "become_exe", "when", "collections", "tags", "notify", "delegate_to",
    "delegate_facts", "async", "changed_when", "delay", "failed_when", "loop", "loop_control", "poll", "register",
    "register_type", "retries", "until"]

/-- `collectUnknownFields`. -/
def collectUnknownFields (content : List (String × Yaml)) (excludeFields : List String) : GoMap Unknown :=
  .ofList ((content.filter fun e => !excludeFields.contains e.1).map fun e => (e.1, .field e.2))

/-- The first entry with one of the keys that `Block.UnmarshalYAML` looks for. -/
def firstKey (content : List (String × Yaml)) : Option (String × Yaml) :=
  content.find? fun e => e.1 = "include_tasks" ∨ e.1 = "block"

/-- A field of a struct: from the mapping, else from what is merged into it, else as it was. -/
def field {β : Type} (content merged : List (String × Option β)) (key : String) (zero : β) : Option β :=
  match content.lookup key with
  | some decoded => decoded
  | none => (merged.lookup key).getD (some zero)

/-- The items of a list. -/
def items {β : Type} (decoded : List (Option (Option β))) : Option (List β) :=
  (decoded.mapM id).map fun l => l.filterMap id

section Decode

variable {α : Type} (dec : Decoder α)

def Block.zero : Block α := .mk dec.zero "" none [] [] []

def Role.zero : Role α := .mk dec.zero none "" [] []

mutual

/-- An item of a list of blocks: `Block.UnmarshalYAML`, unless it is null. -/
def blockItem : Yaml → Option (Option (Block α))
  | .scalar _ null => if null then some (if dec.keepsNull then some (Block.zero dec) else none) else none
  | .seq _ => none
  | .alias _ target => blockItem target
  | .map content merged =>
    match dec.blockBase (.map content merged) with
    | none => none
    | some fields =>
      match firstKey content with
      | some ("include_tasks", v) => some (some (.mk fields v.value none [] [] []))
      | some _ =>
        let own := blockEntries content
        let others := blockEntries merged
        match field own others "block" [], field own others "rescue" [], field own others "always" [] with
        | some block, some rescue, some always => some (some (.mk fields "" none block rescue always))
        | _, _, _ => none
      | none =>
        (dec.task fields (.map content merged)).map fun fields =>
          some (.mk fields "" (some (collectUnknownFields content fieldNames)) [] [] [])

/-- A list of blocks. -/
def blocks : Yaml → Option (List (Block α))
  | .scalar _ null => if null then some [] else none
  | .seq nodes => items (blockItems nodes)
  | .alias _ target => blocks target
  | .map _ _ => none

def blockItems : List Yaml → List (Option (Option (Block α)))
  | [] => []
  | n :: rest => blockItem n :: blockItems rest

def blockEntries : List (String × Yaml) → List (String × Option (List (Block α)))
  | [] => []
  | (key, n) :: rest => (key, blocks n) :: blockEntries rest

end

/-- A string. -/
def string (n : Yaml) : Option String :=
  match n.resolve with
  | .scalar value null => some (if null then "" else value)
  | _ => none

/-- A list of strings. -/
def strings (n : Yaml) : Option (List String) :=
  match n.resolve with
  | .scalar _ null => if null then some [] else none
  | .seq nodes =>
    items (nodes.map fun n =>
      match n.resolve with
      | .scalar _ true => some (if dec.keepsNull then some "" else none)
      | .scalar value false => some (some value)
      | _ => none)
  | _ => none

/-- `PlayHost.UnmarshalYAML`, unless it is null. -/
def hosts (n : Yaml) : Option (List String) :=
  match n.resolve with
  | .scalar value null => some (if null then [] else [value])
  | .seq nodes => strings dec (.seq nodes)
  | _ => none

/-- The entries of a mapping, each decoded in the same way. -/
def entries {β : Type} (decode : Yaml → Option β) (content : List (String × Yaml)) : List (String × Option β) :=
  content.map fun e => (e.1, decode e.2)

mutual

/-- An item of a list of roles: `Role.UnmarshalYAML`, unless it is null. -/
def roleItem : Yaml → Option (Option (Role α))
  | .scalar value null =>
    if null then some (if dec.keepsNull then some (Role.zero dec) else none)
    else some (some (.mk dec.zero none value [] []))
  | .seq _ => some (some (Role.zero dec))
  | .alias _ target => roleItem target
  | .map content merged =>
    let dependencies := field (roleEntries content) (roleEntries merged) "dependencies" []
    let block := field (blockEntries dec content) (blockEntries dec merged) "block" []
    let role := field (entries string content) (entries string merged) "role" ""
    let vars := field (entries (fun n => some (some n)) content) (entries (fun n => some (some n)) merged) "vars" none
    match dec.roleInfo (.map content merged), vars, role, dependencies, block with
    | some fields, some vars, some role, some dependencies, some block =>
      some (some (.mk fields vars role dependencies block))
    | _, _, _, _, _ => none

/-- A list of roles. -/
def roles : Yaml → Option (List (Role α))
  | .scalar _ null => if null then some [] else none
  | .seq nodes => items (roleItems nodes)
  | .alias _ target => roles target
  | .map _ _ => none

def roleItems : List Yaml → List (Option (Option (Role α)))
  | [] => []
  | n :: rest => roleItem n :: roleItems rest

def roleEntries : List (String × Yaml) → List (String × Option (List (Role α)))
  | [] => []
  | (key, n) :: rest => (key, roles n) :: roleEntries rest

end

/-- An item of a list of plays. -/
def playItem (n : Yaml) : Option (Option (Play α)) :=
  match n.resolve with
  | .scalar _ null =>
    if null then some (if dec.keepsNull then some ⟨dec.zero, "", [], none, [], [], [], [], [], []⟩ else none) else none
  | .seq _ => none
  | .alias _ _ => none
  | .map content merged => do
    let blockList (key : String) := field (entries (blocks dec) content) (entries (blocks dec) merged) key []
    let fields ← dec.play (.map content merged)
    let importPlaybook ← field (entries string content) (entries string merged) "import_playbook" ""
    let hosts ← field (entries (hosts dec) content) (entries (hosts dec) merged) "hosts" []
    let vars ← field (entries (fun n => some (some n)) content) (entries (fun n => some (some n)) merged) "vars" none
    let varsFiles ← field (entries (strings dec) content) (entries (strings dec) merged) "vars_files" []
    let roles ← field (entries (roles dec) content) (entries (roles dec) merged) "roles" []
    let handlers ← blockList "handlers"
    let preTasks ← blockList "pre_tasks"
    let tasks ← blockList "tasks"
    let postTasks ← blockList "post_tasks"
    some (some { fields, importPlaybook, hosts, vars, varsFiles, roles, handlers, preTasks, tasks, postTasks })

/-- A list of plays. -/
def plays (n : Yaml) : Option (List (Play α)) :=
  match n.resolve with
  | .scalar _ null => if null then some [] else none
  | .seq nodes => items (nodes.map (playItem dec))
  | _ => none

end Decode

end KubeKey.Loader
