import KubeKey.Go.Literal

/-!
# Plays, roles and blocks

`api/project/v1`. A play as the project loader hands it to the executor: role
references are resolved and included task files are inlined. The fields that no
executor reads are left out.

A `vars` node is held by identity. Rendering rewrites the children of a node, so
its text belongs to the state of a run and not to the tree.
-/

namespace KubeKey.Project

open KubeKey.Go

def alwaysTag : String := "always"
def neverTag : String := "never"
def allTag : String := "all"
def taggedTag : String := "tagged"

/-- `isdisjoint`. -/
def isdisjoint (a b : List String) : Bool := a.all fun s => !b.contains s

/-- `Taggable.IsEnabled`. -/
def isEnabled (tags onlyTags skipTags : List String) : Bool :=
  let shouldRun :=
    if onlyTags.isEmpty then true
    else if tags.contains alwaysTag then true
    else if onlyTags.contains allTag && !tags.contains neverTag then true
    else if onlyTags.contains taggedTag && !tags.contains neverTag then true
    else !isdisjoint onlyTags tags
  if shouldRun && !skipTags.isEmpty then
    if skipTags.contains allTag && (!tags.contains alwaysTag || !skipTags.contains alwaysTag) then false
    else if !isdisjoint skipTags tags then false
    else if skipTags.contains taggedTag then false
    else true
  else shouldRun

/-- `JoinTag`: a child inherits every tag of its parent but `always`. -/
def joinTag (child parent : List String) : List String :=
  parent.foldl (fun tags tag => if tag = alwaysTag ∨ tag ∈ tags then tags else tags ++ [tag]) child

/-- The fields of `Block` other than its sections. -/
structure BlockHead where
  name : String := ""
  vars : Nat := 0
  runOnce : Bool := false
  ignoreErrors : Option Bool := none
  when : List String := []
  tags : List String := []
  delegateTo : String := ""
  failedWhen : List String := []
  loop : Option Lit := none
  register : String := ""
  registerType : String := ""
  retries : Int := 0
  unknownField : GoMap Lit := .empty
  includeTasks : String := ""

/-- `Block`: a task, an included file, or three sections. -/
inductive Block where
  | mk (head : BlockHead) (block rescue always : List Block)

structure RoleHead where
  role : String := ""
  vars : Nat := 0
  ignoreErrors : Option Bool := none
  when : List String := []
  tags : List String := []

/-- `Role`, with the roles it depends on. -/
inductive Role where
  | mk (head : RoleHead) (roleDependency : List Role) (block : List Block)

def Role.head : Role → RoleHead
  | .mk head _ _ => head

/-- One entry of `serial`. -/
inductive SerialItem where
  | int (n : Int)
  | str (s : String)
  | other

structure Play where
  vars : Nat := 0
  runOnce : Bool := false
  ignoreErrors : Option Bool := none
  tags : List String := []
  hosts : List String := []
  gatherFacts : Bool := false
  serial : List SerialItem := []
  preTasks : List Block := []
  roles : List Role := []
  tasks : List Block := []
  postTasks : List Block := []

end KubeKey.Project
