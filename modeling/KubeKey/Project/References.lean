import KubeKey.Project.Load

/-!
# What the loader refers to

The references of a call as the files have them: the playbooks that a playbook imports, the
roles that it uses and the tasks of those, the dependencies in the meta file of a role, the
files that blocks include. `tracked` says that the loader follows nothing else, and that it
has followed all of them when it succeeds.
-/

namespace KubeKey.Loader

open KubeKey.Go KubeKey.Go.Fallible

section References

variable {α : Type} (dec : Decoder α) (fs : GoMap File)

/-- The file that a block includes. -/
def includeRefs (top source includeTasks : String) : Set (Call α) :=
  {d | ∃ file bs, getPath fs (getIncludeTaskRelPath top source includeTasks) = file ∧ file ≠ "" ∧
    taskFile dec fs file = .ok bs ∧ d = .dealBlock top (dir file) bs}

mutual

/-- The references of a list of blocks. -/
def blockRefs (top source : String) : List (Block α) → Set (Call α)
  | [] => ∅
  | b :: rest => oneRefs top source b ∪ blockRefs top source rest

def oneRefs (top source : String) : Block α → Set (Call α)
  | .mk _ includeTasks unknownField block rescue always =>
    if block.isEmpty = false then
      blockRefs top source block ∪ (blockRefs top source rescue ∪ blockRefs top source always)
    else if includeTasks ≠ "" then includeRefs dec fs top source includeTasks
    else {.annotate unknownField top}

end

/-- The roles in the meta file of a role. -/
def dependencyRefs (basePlaybook : String) : Role α → Set (Call α)
  | .mk _ _ role _ _ =>
    {d | ∃ baseRole file deps, getPath fs (getRoleRelPath basePlaybook role) = baseRole ∧ baseRole ≠ "" ∧
      getPath fs (getRoleMetaRelPath baseRole) = file ∧ file ≠ "" ∧ metaFile dec fs file = .ok deps ∧
      ∃ dep ∈ deps, d = .dealRole dep basePlaybook}

mutual

/-- The references of the tasks of a role and of those it depends on. -/
def roleTaskRefs (basePlaybook : String) : Role α → Set (Call α)
  | .mk _ _ role roleDependency block =>
    let baseRole := getPath fs (getRoleRelPath basePlaybook role)
    roleTasksRefs basePlaybook roleDependency ∪
      blockRefs dec fs baseRole (join [baseRole, projectRolesTasksDir]) block

def roleTasksRefs (basePlaybook : String) : List (Role α) → Set (Call α)
  | [] => ∅
  | role :: rest => roleTaskRefs basePlaybook role ∪ roleTasksRefs basePlaybook rest

end

/-- The playbook that a play imports. -/
def importRefs (basePlaybook : String) (p : Play α) : Set (Call α) :=
  {d | p.importPlaybook ≠ "" ∧ ∃ path, getPath fs (getImportPlaybookRelPath basePlaybook p.importPlaybook) = path ∧
    path ≠ "" ∧ d = .loadPlaybook path}

/-- A role of a play, and then its tasks. -/
def playRoleRefs (basePlaybook : String) (role : Role α) : Set (Call α) :=
  {.dealRole role basePlaybook} ∪
    {d | ∃ dealt, Succeeds (body dec fs) (body dec fs (.dealRole role basePlaybook)) dealt ∧
      d ∈ roleTaskRefs dec fs basePlaybook dealt}

/-- The references of a play. -/
def playRefs (basePlaybook : String) (p : Play α) : Set (Call α) :=
  importRefs fs basePlaybook p ∪
    (blockRefs dec fs (dir basePlaybook) (dir basePlaybook) p.preTasks ∪
      (blockRefs dec fs (dir basePlaybook) (dir basePlaybook) p.tasks ∪
        (blockRefs dec fs (dir basePlaybook) (dir basePlaybook) p.postTasks ∪
          {d | ∃ role ∈ p.roles, d ∈ playRoleRefs dec fs basePlaybook role})))

/-- The references of a call. -/
def refs : Call α → Set (Call α)
  | .loadPlaybook basePlaybook =>
    {d | ∃ ps, playbookFile dec fs basePlaybook = .ok ps ∧ ∃ p ∈ ps, d ∈ playRefs dec fs basePlaybook p}
  | .dealRole role basePlaybook => dependencyRefs dec fs basePlaybook role
  | .dealBlock top source blocks => blockRefs dec fs top source blocks
  | .annotate _ _ => ∅

variable {dec fs}

mutual

theorem tracks_dealBlock (top source : String) :
    ∀ bs : List (Block α), Tracks (body dec fs) (dealBlock dec fs top source bs) (blockRefs dec fs top source bs)
  | [] => by
    simp only [dealBlock, blockRefs]
    exact .pure []
  | b :: rest => by
    simp only [dealBlock, blockRefs]
    exact (tracks_dealOne top source b).bind fun _ _ => (tracks_dealBlock top source rest).map _

theorem tracks_dealOne (top source : String) :
    ∀ b : Block α, Tracks (body dec fs) (dealOne dec fs top source b) (oneRefs dec fs top source b)
  | .mk fields includeTasks unknownField block rescue always => by
    simp only [dealOne, oneRefs]
    by_cases sections : block.isEmpty = false
    · rw [if_pos sections, if_pos sections]
      refine (tracks_dealBlock top source block).bind fun _ _ => ?_
      refine (tracks_dealBlock top source rescue).bind fun _ _ => ?_
      exact (tracks_dealBlock top source always).map _
    rw [if_neg sections, if_neg sections]
    by_cases includes : includeTasks ≠ ""
    · rw [if_pos includes, if_pos includes]
      by_cases missing : getPath fs (getIncludeTaskRelPath top source includeTasks) = ""
      · rw [if_pos missing]
        exact .throw _ _
      · rw [if_neg missing]
        refine .read fun bs read => ?_
        have single : includeRefs dec fs top source includeTasks =
            {Call.dealBlock top (dir (getPath fs (getIncludeTaskRelPath top source includeTasks))) bs} := by
          ext d
          simp [includeRefs, missing, read]
        rw [single]
        exact (Tracks.invoke _).map _
    · rw [if_neg includes, if_neg includes]
      exact (Tracks.invoke _).map _

end

theorem tracks_dealDependencies {baseRole role basePlaybook : String} {fields : α} {vars : Option Yaml}
    {roleDependency : List (Role α)} {block : List (Block α)}
    (found : getPath fs (getRoleRelPath basePlaybook role) = baseRole) (exists_ : baseRole ≠ "") :
    Tracks (body dec fs) (dealDependencies dec fs baseRole role basePlaybook)
      (dependencyRefs dec fs basePlaybook (.mk fields vars role roleDependency block)) := by
  unfold dealDependencies
  by_cases missing : getPath fs (getRoleMetaRelPath baseRole) = ""
  · have none : dependencyRefs dec fs basePlaybook (.mk fields vars role roleDependency block) = ∅ := by
      ext d
      simp [dependencyRefs, found, missing]
    simp only [missing, if_true, none]
    exact .pure []
  · simp only [missing, if_false]
    refine .read fun deps read => ?_
    have members : dependencyRefs dec fs basePlaybook (.mk fields vars role roleDependency block) =
        {d | ∃ dep ∈ deps, d ∈ ({Call.dealRole dep basePlaybook} : Set (Call α))} := by
      ext d
      simp [dependencyRefs, found, exists_, missing, read]
    rw [members]
    exact .each fun dep _ => (Tracks.invoke _).wrap _

theorem tracks_dealRole (basePlaybook : String) (role : Role α) :
    Tracks (body dec fs) (dealRole dec fs basePlaybook role) (dependencyRefs dec fs basePlaybook role) := by
  obtain ⟨fields, vars, role, roleDependency, block⟩ := role
  unfold dealRole
  by_cases missing : getPath fs (getRoleRelPath basePlaybook role) = ""
  · simp only [missing, if_true]
    exact .throw _ _
  · simp only [missing, if_false]
    refine (tracks_dealDependencies rfl missing).last fun dependencies _ => ?_
    exact .read fun _ _ => .read fun _ _ => .pure _

mutual

theorem tracks_dealRoleTask (basePlaybook : String) :
    ∀ role : Role α,
      Tracks (body dec fs) (dealRoleTask dec fs basePlaybook role) (roleTaskRefs dec fs basePlaybook role)
  | .mk fields vars role roleDependency block => by
    simp only [dealRoleTask, roleTaskRefs]
    exact (tracks_dealRoleTasks basePlaybook roleDependency).bind fun _ _ => (tracks_dealBlock _ _ block).map _

theorem tracks_dealRoleTasks (basePlaybook : String) :
    ∀ roles : List (Role α),
      Tracks (body dec fs) (dealRoleTasks dec fs basePlaybook roles) (roleTasksRefs dec fs basePlaybook roles)
  | [] => by
    simp only [dealRoleTasks, roleTasksRefs]
    exact .pure []
  | role :: rest => by
    simp only [dealRoleTasks, roleTasksRefs]
    exact (tracks_dealRoleTask basePlaybook role).bind fun _ _ => (tracks_dealRoleTasks basePlaybook rest).map _

end

theorem tracks_dealImportPlaybook (basePlaybook : String) (p : Play α) :
    Tracks (body dec fs) (dealImportPlaybook fs p basePlaybook) (importRefs fs basePlaybook p) := by
  unfold dealImportPlaybook
  by_cases absent : p.importPlaybook = ""
  · have none : importRefs fs basePlaybook p = ∅ := by
      ext d
      simp [importRefs, absent]
    simp only [absent, if_true, none]
    exact .pure []
  by_cases missing : getPath fs (getImportPlaybookRelPath basePlaybook p.importPlaybook) = ""
  · simp only [absent, missing, if_false]
    exact .throw _ _
  · have single : importRefs fs basePlaybook p =
        {Call.loadPlaybook (getPath fs (getImportPlaybookRelPath basePlaybook p.importPlaybook))} := by
      ext d
      simp [importRefs, absent, missing]
    simp only [absent, missing, if_false, single]
    exact .invoke _

theorem tracks_dealPlayRole (basePlaybook : String) (role : Role α) :
    Tracks (body dec fs) (dealPlayRole dec fs basePlaybook role) (playRoleRefs dec fs basePlaybook role) := by
  refine (Tracks.invoke (Call.dealRole role basePlaybook)).bind fun dealt succeeds => ?_
  rw [succeeds_invoke] at succeeds
  have only : {d | ∃ dealt, Succeeds (body dec fs) (body dec fs (.dealRole role basePlaybook)) dealt ∧
      d ∈ roleTaskRefs dec fs basePlaybook dealt} = roleTaskRefs dec fs basePlaybook dealt := by
    ext d
    constructor
    · rintro ⟨dealt', succeeds', inside⟩
      cases succeeds.unique succeeds'
      exact inside
    · intro inside
      exact ⟨dealt, succeeds, inside⟩
  rw [only]
  exact tracks_dealRoleTask basePlaybook dealt

theorem tracks_loadPlay (basePlaybook : String) (p : Play α) :
    Tracks (body dec fs) (loadPlay dec fs basePlaybook p) (playRefs dec fs basePlaybook p) := by
  unfold loadPlay playRefs
  refine (tracks_dealImportPlaybook basePlaybook p).bind fun _ _ => .read fun _ _ => ?_
  refine (tracks_dealBlock _ _ p.preTasks).bind fun _ _ => ?_
  refine (tracks_dealBlock _ _ p.tasks).bind fun _ _ => ?_
  refine (tracks_dealBlock _ _ p.postTasks).bind fun _ _ => ?_
  exact (Tracks.each fun role _ => tracks_dealPlayRole basePlaybook role).map _

/-- The references are what the loader follows. -/
theorem tracked (c : Call α) : Tracks (body dec fs) (body dec fs c) (refs dec fs c) := by
  cases c with
  | loadPlaybook basePlaybook =>
    refine .read fun ps read => ?_
    have members : refs dec fs (.loadPlaybook basePlaybook) = {d | ∃ p ∈ ps, d ∈ playRefs dec fs basePlaybook p} := by
      ext d
      simp [refs, read]
    rw [members]
    exact (Tracks.each fun p _ => tracks_loadPlay basePlaybook p).map _
  | dealRole role basePlaybook => exact tracks_dealRole basePlaybook role
  | dealBlock top source blocks => exact tracks_dealBlock top source blocks
  | annotate unknownField top =>
    cases unknownField with
    | none => exact ⟨fun d made => (by cases made), fun a succeeds => (by cases succeeds)⟩
    | some m => exact .pure _

mutual

theorem quiet_dealBlock (top source : String) : ∀ bs : List (Block α), (dealBlock dec fs top source bs).Quiet
  | [] => .pure []
  | b :: rest => by
    simp only [dealBlock]
    exact (quiet_dealOne top source b).bind fun _ => (quiet_dealBlock top source rest).bind fun _ => .pure _

theorem quiet_dealOne (top source : String) : ∀ b : Block α, (dealOne dec fs top source b).Quiet
  | .mk fields includeTasks unknownField block rescue always => by
    simp only [dealOne]
    split
    · refine (quiet_dealBlock top source block).bind fun _ => (quiet_dealBlock top source rescue).bind fun _ => ?_
      exact (quiet_dealBlock top source always).bind fun _ => .pure _
    · split
      · split
        · exact .throw _
        · exact (Quiet.done _).bind fun _ => (Quiet.invoke _).bind fun _ => .pure _
      · exact (Quiet.invoke _).bind fun _ => .pure _

end

theorem quiet_dealRole (basePlaybook : String) (role : Role α) : (dealRole dec fs basePlaybook role).Quiet := by
  obtain ⟨fields, vars, role, roleDependency, block⟩ := role
  unfold dealRole dealDependencies
  dsimp only
  split
  · exact .throw _
  · refine .bind ?_ fun _ => (Quiet.done _).bind fun _ => (Quiet.done _).bind fun _ => .pure _
    split
    · exact .pure _
    · refine (Quiet.done _).bind fun deps => .each (fun dep => ?_) deps
      exact Quiet.wrap (Quiet.invoke _) _

mutual

theorem quiet_dealRoleTask (basePlaybook : String) : ∀ role : Role α, (dealRoleTask dec fs basePlaybook role).Quiet
  | .mk fields vars role roleDependency block => by
    simp only [dealRoleTask]
    exact (quiet_dealRoleTasks basePlaybook roleDependency).bind fun _ =>
      (quiet_dealBlock _ _ block).bind fun _ => .pure _

theorem quiet_dealRoleTasks (basePlaybook : String) :
    ∀ roles : List (Role α), (dealRoleTasks dec fs basePlaybook roles).Quiet
  | [] => .pure []
  | role :: rest => by
    simp only [dealRoleTasks]
    exact (quiet_dealRoleTask basePlaybook role).bind fun _ =>
      (quiet_dealRoleTasks basePlaybook rest).bind fun _ => .pure _

end

theorem quiet_dealImportPlaybook (basePlaybook : String) (p : Play α) :
    (dealImportPlaybook fs p basePlaybook).Quiet := by
  unfold dealImportPlaybook
  by_cases absent : p.importPlaybook = ""
  · simp only [absent, if_true]
    exact .pure _
  by_cases missing : getPath fs (getImportPlaybookRelPath basePlaybook p.importPlaybook) = ""
  · simp only [absent, missing, if_false]
    exact .throw _
  · simp only [absent, missing, if_false]
    exact .invoke _

theorem quiet_dealPlayRole (basePlaybook : String) (role : Role α) :
    (dealPlayRole dec fs basePlaybook role).Quiet :=
  (Quiet.invoke (Call.dealRole role basePlaybook)).bind fun dealt : Role α => quiet_dealRoleTask basePlaybook dealt

theorem quiet_loadPlay (basePlaybook : String) (p : Play α) : (loadPlay dec fs basePlaybook p).Quiet := by
  unfold loadPlay
  refine (quiet_dealImportPlaybook basePlaybook p).bind fun _ => (Quiet.done _).bind fun _ => ?_
  refine (quiet_dealBlock _ _ _).bind fun _ => (quiet_dealBlock _ _ _).bind fun _ => ?_
  exact (quiet_dealBlock _ _ _).bind fun _ => (Quiet.each (quiet_dealPlayRole basePlaybook) _).bind fun _ => .pure _

/-- Nothing panics but a write to a nil map. -/
theorem eq_annotate_of_loud {c : Call α} (loud : ¬ (body dec fs c).Quiet) : ∃ top, c = .annotate none top := by
  cases c with
  | loadPlaybook basePlaybook =>
    refine absurd ?_ loud
    exact (Quiet.done _).bind fun ps => (Quiet.each (quiet_loadPlay basePlaybook) ps).bind fun _ => .pure _
  | dealRole role basePlaybook => exact absurd (quiet_dealRole basePlaybook role) loud
  | dealBlock top source blocks => exact absurd (quiet_dealBlock top source blocks) loud
  | annotate unknownField top =>
    cases unknownField with
    | none => exact ⟨top, rfl⟩
    | some m => exact absurd (Quiet.pure _) loud

end References

end KubeKey.Loader
