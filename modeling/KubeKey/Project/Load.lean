import KubeKey.Go.Recursion
import KubeKey.Project.Yaml

/-!
# The project loader

`MarshalPlaybook` of `pkg/project/project.go`. A playbook imports others, its roles depend on
roles, and a block includes task files. The loader follows each of these references by a call
of itself, and keeps no record of the files that it is in the middle of. The body of every
such call is a program of `Fallible`, so nothing is assumed about how deep the calls go.

Writing the annotations of a task into its unknown fields is a call too: the write panics if
the map is nil.
-/

namespace KubeKey.Loader

open KubeKey.Go KubeKey.Go.Fallible

/-! ## Paths -/

/-- The parts between the slashes. -/
def pathParts : List Char → List (List Char)
  | [] => [[]]
  | c :: rest =>
    match pathParts rest with
    | [] => [[c]]
    | part :: later => if c = '/' then [] :: part :: later else (c :: part) :: later

/-- One more part after those that are kept, last first. -/
def keepPart (rooted : Bool) (kept : List (List Char)) (part : List Char) : List (List Char) :=
  if part = [] ∨ part = ['.'] then kept
  else if part = ['.', '.'] then
    match kept with
    | [] => if rooted then [] else [part]
    | last :: before => if last = ['.', '.'] then part :: kept else before
  else part :: kept

/-- `filepath.Clean`. -/
def cleanPath (path : String) : String :=
  let rooted := path.toList.head? = some '/'
  let joined := List.intercalate ['/'] ((pathParts path.toList).foldl (keepPart rooted) []).reverse
  if rooted then String.ofList ('/' :: joined)
  else if joined = [] then "."
  else String.ofList joined

/-- `filepath.Dir`. -/
def dir (path : String) : String := cleanPath (String.ofList (path.toList.reverse.dropWhile (· ≠ '/')).reverse)

/-- `filepath.Join`. -/
def join (elems : List String) : String :=
  match elems.filter (· ≠ "") with
  | [] => ""
  | given => cleanPath ("/".intercalate given)

def projectPlaybooksDir : String := "playbooks"
def projectRolesDir : String := "roles"
def projectRolesMetaDir : String := "meta"
def projectRolesTasksDir : String := "tasks"
def projectRolesDefaultsDir : String := "defaults"

/-- `GetImportPlaybookRelPath`. -/
def getImportPlaybookRelPath (basePlaybook includePlaybook : String) : List String :=
  [join [dir basePlaybook, includePlaybook], join [dir basePlaybook, projectPlaybooksDir, includePlaybook],
    join [projectPlaybooksDir, includePlaybook]]

/-- `GetVarsFilesRelPath`. -/
def getVarsFilesRelPath (basePlaybook varsFile : String) : List String := [join [dir basePlaybook, varsFile]]

/-- `GetRoleRelPath`. -/
def getRoleRelPath (basePlaybook role : String) : List String :=
  [join [dir (dir basePlaybook), projectRolesDir, role], join [dir basePlaybook, projectRolesDir, role],
    join [projectRolesDir, role]]

/-- `main.yaml` or `main.yml` of a directory of a role. -/
def mainFiles (baseRole part : String) : List String := [join [baseRole, part, "main.yaml"], join [baseRole, part, "main.yml"]]

def getRoleMetaRelPath (baseRole : String) : List String := mainFiles baseRole projectRolesMetaDir
def getRoleTaskRelPath (baseRole : String) : List String := mainFiles baseRole projectRolesTasksDir
def getRoleDefaultsRelPath (baseRole : String) : List String := mainFiles baseRole projectRolesDefaultsDir

/-- `GetIncludeTaskRelPath`. -/
def getIncludeTaskRelPath (top source includeTask : String) : List String :=
  [join [source, includeTask], join [source, projectRolesTasksDir, includeTask], join [top, includeTask],
    join [top, projectRolesTasksDir, includeTask]]

/-! ## Files -/

/-- What a file has: no yaml, nothing, or a document. -/
inductive Doc where
  | invalid
  | empty
  | node (n : Yaml)

inductive File where
  | dir
  | file (doc : Doc)

/-- The errors of the loader. -/
inductive LoadErr where
  | readPlaybook (path : String)
  | unmarshalPlaybook (path : String)
  | importPlaybook (name base : String)
  | varsFiles (name base : String)
  | role (name base : String)
  | dependency (role : String) (err : LoadErr)
  | includeTask (name source : String)
  | readFile (path : String)
  | unmarshalFile (path : String)
  | varsFormat
  | hosts

/-- `yaml.Unmarshal`. -/
def unmarshal {β : Type} (decode : Yaml → Option β) (zero : β) : Doc → Option β
  | .invalid => none
  | .empty => some zero
  | .node n => decode n

section Files

variable (fs : GoMap File)

/-- `getPath`: the first path that exists, or the empty path. -/
def getPath (paths : List String) : String := (paths.find? fun path => (fs.get? path).isSome).getD ""

/-- `fs.ReadFile`. -/
def readFile (path : String) (err : LoadErr) : Except LoadErr Doc :=
  match fs.get? path with
  | some (.file doc) => .ok doc
  | _ => .error err

/-- A file read and unmarshalled. -/
def load {β : Type} (decode : Yaml → Option β) (zero : β) (path : String) (read unmarshal_ : LoadErr) :
    Except LoadErr β :=
  match readFile fs path read with
  | .error e => .error e
  | .ok doc =>
    match unmarshal decode zero doc with
    | none => .error unmarshal_
    | some b => .ok b

/-- `CombineMappingNode`. -/
def combineMappingNode (a : Option Yaml) (b : Yaml) : Option Yaml :=
  match a, b with
  | none, b => some b
  | some (.map content merged), .map content' merged' => some (.map (content ++ content') (merged ++ merged'))
  | a, _ => a

/-- The variables of a file, on top of those that are there. -/
def combineFile (vars : Option Yaml) (path : String) : Except LoadErr (Option Yaml) :=
  match readFile fs path (.readFile path) with
  | .error e => .error e
  | .ok .invalid => .error (.unmarshalFile path)
  | .ok .empty => .error .varsFormat
  | .ok (.node (.map content merged)) => .ok (combineMappingNode vars (.map content merged))
  | .ok (.node _) => .ok vars

/-- `dealVarsFiles`. -/
def dealVarsFiles (basePlaybook : String) : List String → Option Yaml → Except LoadErr (Option Yaml)
  | [], vars => .ok vars
  | varsFile :: rest, vars =>
    let file := getPath fs (getVarsFilesRelPath basePlaybook varsFile)
    if file = "" then .error (.varsFiles varsFile basePlaybook)
    else
      match combineFile fs vars file with
      | .error e => .error e
      | .ok vars => dealVarsFiles basePlaybook rest vars

end Files

/-! ## The loader -/

/-- The calls of the loader. -/
inductive Call (α : Type) where
  | loadPlaybook (basePlaybook : String)
  | dealRole (role : Role α) (basePlaybook : String)
  | dealBlock (top source : String) (blocks : List (Block α))
  /-- Writing the annotations into the unknown fields. -/
  | annotate (unknownField : Option (GoMap Unknown)) (top : String)

/-- What a call returns: plays, a role or blocks with all that was loaded for them, or the map that was written. -/
def Out {α : Type} : Call α → Type
  | .loadPlaybook _ => List (Play α)
  | .dealRole _ _ => Role α
  | .dealBlock _ _ _ => List (Block α)
  | .annotate _ _ => GoMap Unknown

abbrev Load (α β : Type) := Fallible LoadErr (Call α) Out β

section Loader

variable {α : Type} (dec : Decoder α) (fs : GoMap File)

/-- The blocks of a task file. -/
def taskFile (path : String) : Except LoadErr (List (Block α)) :=
  load fs (blocks dec) [] path (.readFile path) (.unmarshalFile path)

/-- The dependencies in a meta file. -/
def metaFile (path : String) : Except LoadErr (List (Role α)) :=
  load fs (fun n => (roleItem dec n).map fun role => ((role.map Role.roleDependency).getD [])) [] path (.readFile path)
    (.unmarshalFile path)

mutual

/-- `dealBlock`. -/
def dealBlock (top source : String) : List (Block α) → Load α (List (Block α))
  | [] => pure []
  | b :: rest => do
    let b ← dealOne top source b
    let rest ← dealBlock top source rest
    pure (b :: rest)

/-- The loop body of `dealBlock`. -/
def dealOne (top source : String) : Block α → Load α (Block α)
  | .mk fields includeTasks unknownField block rescue always =>
    if block.isEmpty = false then do
      let block ← dealBlock top source block
      let rescue ← dealBlock top source rescue
      let always ← dealBlock top source always
      pure (.mk fields includeTasks unknownField block rescue always)
    else if includeTasks ≠ "" then
      let includeTask := getPath fs (getIncludeTaskRelPath top source includeTasks)
      if includeTask = "" then throw (.includeTask includeTasks source)
      else do
        let includeBlocks ← ofResult (taskFile dec fs includeTask)
        let includeBlocks : List (Block α) ← invoke (Call.dealBlock top (dir includeTask) includeBlocks)
        pure (.mk fields includeTasks unknownField includeBlocks rescue always)
    else do
      let unknownField : GoMap Unknown ← invoke (Call.annotate unknownField top)
      pure (.mk fields includeTasks (some unknownField) block rescue always)

end

/-- The dependencies in the meta file of a role, dealt with. -/
def dealDependencies (baseRole role basePlaybook : String) : Load α (List (Role α)) :=
  let meta_ := getPath fs (getRoleMetaRelPath baseRole)
  if meta_ = "" then pure []
  else do
    let roleMeta ← ofResult (metaFile dec fs meta_)
    each (fun dep => wrap (.dependency role) (invoke (Call.dealRole dep basePlaybook))) roleMeta

/-- The tasks of a role: those of its task file, if there is one. -/
def roleTasks (baseRole : String) (block : List (Block α)) : Except LoadErr (List (Block α)) :=
  let task := getPath fs (getRoleTaskRelPath baseRole)
  if task = "" then .ok block else taskFile dec fs task

/-- The variables of a role, with the defaults of its defaults file. -/
def roleDefaults (baseRole : String) (vars : Option Yaml) : Except LoadErr (Option Yaml) :=
  let defaults := getPath fs (getRoleDefaultsRelPath baseRole)
  if defaults = "" then .ok vars else combineFile fs vars defaults

/-- `dealRole`. -/
def dealRole (basePlaybook : String) : Role α → Load α (Role α)
  | .mk fields vars role roleDependency block =>
    let baseRole := getPath fs (getRoleRelPath basePlaybook role)
    if baseRole = "" then throw (.role role basePlaybook)
    else do
      let dependencies ← dealDependencies dec fs baseRole role basePlaybook
      let block ← ofResult (roleTasks dec fs baseRole block)
      let vars ← ofResult (roleDefaults fs baseRole vars)
      pure (.mk fields vars role (roleDependency ++ dependencies) block)

mutual

/-- `dealRoleTask`. -/
def dealRoleTask (basePlaybook : String) : Role α → Load α (Role α)
  | .mk fields vars role roleDependency block => do
    let roleDependency ← dealRoleTasks basePlaybook roleDependency
    let baseRole := getPath fs (getRoleRelPath basePlaybook role)
    let block ← dealBlock dec fs baseRole (join [baseRole, projectRolesTasksDir]) block
    pure (.mk fields vars role roleDependency block)

def dealRoleTasks (basePlaybook : String) : List (Role α) → Load α (List (Role α))
  | [] => pure []
  | role :: rest => do
    let role ← dealRoleTask basePlaybook role
    let rest ← dealRoleTasks basePlaybook rest
    pure (role :: rest)

end

/-- `dealImportPlaybook`. -/
def dealImportPlaybook (p : Play α) (basePlaybook : String) : Load α (List (Play α)) :=
  if p.importPlaybook = "" then pure []
  else
    let importPlaybook := getPath fs (getImportPlaybookRelPath basePlaybook p.importPlaybook)
    if importPlaybook = "" then throw (.importPlaybook p.importPlaybook basePlaybook)
    else invoke (Call.loadPlaybook importPlaybook)

/-- A role of a play, with its tasks. -/
def dealPlayRole (basePlaybook : String) (role : Role α) : Load α (Role α) := do
  let role : Role α ← invoke (Call.dealRole role basePlaybook)
  dealRoleTask dec fs basePlaybook role

/-- The loop body of `loadPlaybook`: the plays that are imported, and the play itself. -/
def loadPlay (basePlaybook : String) (p : Play α) : Load α (List (Play α)) := do
  let imported ← dealImportPlaybook fs p basePlaybook
  let vars ← ofResult (dealVarsFiles fs basePlaybook p.varsFiles p.vars)
  let preTasks ← dealBlock dec fs (dir basePlaybook) (dir basePlaybook) p.preTasks
  let tasks ← dealBlock dec fs (dir basePlaybook) (dir basePlaybook) p.tasks
  let postTasks ← dealBlock dec fs (dir basePlaybook) (dir basePlaybook) p.postTasks
  let roles ← each (dealPlayRole dec fs basePlaybook) p.roles
  pure (imported ++ [{ p with vars, preTasks, tasks, postTasks, roles }])

/-- The plays of a playbook file. -/
def playbookFile (path : String) : Except LoadErr (List (Play α)) :=
  load fs (plays dec) [] path (.readPlaybook path) (.unmarshalPlaybook path)

/-- `loadPlaybook`. -/
def loadPlaybook (basePlaybook : String) : Load α (List (Play α)) := do
  let plays ← ofResult (playbookFile dec fs basePlaybook)
  let loaded ← each (loadPlay dec fs basePlaybook) plays
  pure loaded.flatten

/-- The body of every call. -/
def body : ∀ c : Call α, Load α (Out c)
  | .loadPlaybook basePlaybook => loadPlaybook dec fs basePlaybook
  | .dealRole role basePlaybook => dealRole dec fs basePlaybook role
  | .dealBlock top source blocks => dealBlock dec fs top source blocks
  | .annotate none _ => ExceptT.mk .panic
  | .annotate (some unknownField) top =>
    (pure (unknownField.put "annotations" (.annotations top)) : Load α (GoMap Unknown))

/-- `Playbook.Validate`: the imports are dropped, and every other play has hosts. -/
def validate : List (Play α) → Except LoadErr (List (Play α))
  | [] => .ok []
  | p :: rest =>
    if p.importPlaybook ≠ "" then validate rest
    else if p.hosts = [] then .error .hosts
    else (validate rest).map (p :: ·)

/-- `MarshalPlaybook`. -/
def marshalPlaybook (basePlaybook : String) : Load α (List (Play α)) := do
  let plays : List (Play α) ← invoke (Call.loadPlaybook basePlaybook)
  ofResult (validate plays)

end Loader

end KubeKey.Loader
