import KubeKey.Controllers.Playbook
import KubeKey.Go.Versions

/-!
# The playbooks of a machine

`pkg/controllers/infrastructure/kkmachine_controller.go`: a KKMachine has its node added by
one playbook and deleted by another. Their names stand in two annotations; a playbook is
created only when all that the machine owns have completed, and the machine keeps its
finalizer until its node is deleted.

A reconcile is taken apart into its requests. Reads come from a cache, which may be behind;
writes may be refused, or carried out without an answer; the controller may end between any
two requests; playbooks go their own way meanwhile. What holds in every run: at most one
playbook of the machine is not completed (`one_active`), and a machine is ready only when a
playbook that adds its node succeeded (`ready_added`). A machine that had a playbook
recorded is gone only after its node was deleted (`deleted_before_gone`).

Left out: the contents of the playbooks, the events, the version and the provider ID of the
machine, and a machine without a map of annotations, on which the controller panics.
-/

namespace KubeKey.NodePlaybooks

open KubeKey.Go
open KubeKey.Controllers (PlaybookPhase Reply)

inductive PlaybookKind where
  | addNode
  | deleteNode
deriving DecidableEq, Repr

/-- A playbook that the machine owns; its name is generated. -/
structure Playbook where
  name : ℕ
  kind : PlaybookKind
  phase : PlaybookPhase := .new
  /-- The deletion timestamp is set. -/
  deleting : Bool := false
deriving DecidableEq, Repr

structure KKMachine where
  /-- `AddNodePlaybookAnnotation`. -/
  addNode : Option ℕ := none
  /-- `DeleteNodePlaybookAnnotation`. -/
  deleteNode : Option ℕ := none
  finalizer : Bool := false
  deleting : Bool := false
  ready : Bool := false
  /-- `FailureReason` and `FailureMessage`, which names the playbook. -/
  failure : Option ℕ := none
deriving DecidableEq, Repr

/-- What a reconcile finds before it comes to the playbooks: a paused cluster, a machine without a provider ID or
without bootstrap data, or neither. -/
inductive Gate where
  | paused
  | waits
  | goes
deriving DecidableEq, Repr

/-- The next request of the reconcile, with the machine as it was read and as it is in memory. -/
inductive Party where
  | idle
  /-- `reconcileNormal` gets the playbook that adds the node. -/
  | checking (base now : KKMachine) (name : ℕ)
  /-- `reconcileDelete` gets the playbook that adds the node. -/
  | removal (base now : KKMachine)
  /-- `reconcileDelete` gets the playbook that deletes the node. -/
  | removalAfter (base now : KKMachine) (addNodePlaybook : Option Playbook)
  /-- `ifPlaybookCompleted`. -/
  | listing (base now : KKMachine) (kind : PlaybookKind)
  | creating (base now : KKMachine) (kind : PlaybookKind)
  | removing (base now : KKMachine) (name : ℕ)
  | patching (base now : KKMachine)
  | patchingStatus (base now : KKMachine)
deriving DecidableEq, Repr

instance : Finalized KKMachine where
  deleting := KKMachine.deleting
  finalizer := KKMachine.finalizer
  delete m := { m with deleting := true }
  deleting_delete _ := rfl
  finalizer_delete _ := rfl

/-- The versions of the machine, its playbooks, and the reconcile that is under way. -/
structure World extends Versions KKMachine where
  playbooks : List Playbook := []
  past : List (List Playbook) := []
  /-- The playbooks that were created, by their names. -/
  created : List PlaybookKind := []
  /-- The playbooks that succeeded. -/
  succeeded : List ℕ := []
  party : Party := .idle

/-- A new machine. -/
def start : World := { toVersions := .new {} rfl }

/-! ## The functions of the controller -/

/-- `ifPlaybookCompleted`. -/
def ifPlaybookCompleted (playbooks : List Playbook) : Bool := playbooks.all fun p => p.phase.Completed

/-- `createAddNodePlaybook` and `createDeleteNodePlaybook` record the name. -/
def KKMachine.record (m : KKMachine) (name : ℕ) : PlaybookKind → KKMachine
  | .addNode => { m with addNode := some name }
  | .deleteNode => { m with deleteNode := some name }

/-- `Reconcile` up to its first request for a playbook. -/
def begin (m : KKMachine) (gate : Gate) : Party :=
  if gate = .paused then .patching m m
  else if !m.deleting && !m.finalizer then .patching m { m with finalizer := true }
  else if m.deleting then .removal m m
  else if gate = .waits then .patching m m
  else match m.addNode with
    | none => .listing m { m with ready := false, failure := none } .addNode
    | some name => .checking m m name

/-- The status that `reconcileNormal` takes from the playbook. -/
def KKMachine.checked (m : KKMachine) (name : ℕ) : Option Playbook → KKMachine
  | none => m
  | some playbook =>
    match playbook.phase with
    | .succeeded => { m with ready := true, failure := none }
    | .failed => { m with ready := false, failure := some name }
    | _ => m

/-- `reconcileDelete` after `getPlaybook`. -/
def reconcileDelete (base now : KKMachine) (addNodePlaybook delNodePlaybook : Option Playbook) : Party :=
  let release :=
    if addNodePlaybook = none ∧ delNodePlaybook = none then .patching base { now with finalizer := false }
    else .patching base now
  match base.addNode, base.deleteNode with
  | none, none => .patching base { now with finalizer := false }
  | some _, none =>
    if addNodePlaybook.all fun p => p.phase.Completed then .listing base now .deleteNode else .patching base now
  | some _, some _ =>
    match addNodePlaybook.filter fun p => !p.deleting, delNodePlaybook.filter fun p => !p.deleting with
    | some p, _ => .removing base now p.name
    | none, some p => if p.phase = .succeeded then .removing base now p.name else .patching base now
    | none, none => release
  | none, some _ => release

/-! ## Steps -/

/-- The request of the patch for the metadata. -/
def KKMachine.patchMetadata (base now latest : KKMachine) : KKMachine :=
  { latest with
    addNode := merged base.addNode now.addNode latest.addNode
    deleteNode := merged base.deleteNode now.deleteNode latest.deleteNode
    finalizer := merged base.finalizer now.finalizer latest.finalizer }

/-- The request of the patch for the status. -/
def KKMachine.patchStatus (base now latest : KKMachine) : KKMachine :=
  { latest with
    ready := merged base.ready now.ready latest.ready
    failure := merged base.failure now.failure latest.failure }

def carried : Reply → Bool
  | .refused _ => false
  | .ok | .lost _ => true

namespace World

def setPlaybooks (w : World) (playbooks : List Playbook) : World :=
  { w with playbooks := playbooks, past := w.playbooks :: w.past }

/-- A new playbook, named by the number of those before it. -/
def createPlaybook (w : World) (kind : PlaybookKind) : World :=
  { w.setPlaybooks (w.playbooks ++ [{ name := w.created.length, kind := kind }]) with
    created := w.created ++ [kind] }

def deletePlaybook (w : World) (name : ℕ) : World :=
  w.setPlaybooks (w.playbooks.map fun p => if p.name = name then { p with deleting := true } else p)

def setPhase (w : World) (name : ℕ) (phase : PlaybookPhase) : World :=
  { w.setPlaybooks (w.playbooks.map fun p => if p.name = name then { p with phase := phase } else p) with
    succeeded := if phase = .succeeded then name :: w.succeeded else w.succeeded }

/-- The playbooks that the cache shows. -/
def readPlaybooks (w : World) (age : ℕ) : Option (List Playbook) := (w.playbooks :: w.past)[age]?

/-- `Get` of the playbook of that name. -/
def getPlaybook (w : World) (age name : ℕ) : Option (Option Playbook) :=
  (w.readPlaybooks age).map fun playbooks => playbooks.find? fun p => p.name = name

/-- `getPlaybook` for one annotation: there is no request without a name. -/
def getRecorded (w : World) (age : ℕ) : Option ℕ → Option (Option Playbook)
  | none => some none
  | some name => w.getPlaybook age name

end World

inductive Act where
  /-- A reconcile begins and reads the machine. -/
  | reconcile (age : ℕ) (gate : Gate)
  /-- A playbook is read, or the request fails. -/
  | get (age : ℕ) (ok : Bool)
  | list (age : ℕ) (ok : Bool)
  | create (reply : Reply)
  | remove (reply : Reply)
  | patch (reply : Reply)
  | patchStatus (reply : Reply)
  /-- The controller ends, and starts again. -/
  | crash
  /-- A playbook goes on. -/
  | phase (name : ℕ) (phase : PlaybookPhase)
  /-- A playbook that is being deleted is gone. -/
  | vanish (name : ℕ)
  /-- The machine is deleted. -/
  | delete
  /-- Someone else deletes a playbook. -/
  | withdraw (name : ℕ)
  /-- The garbage collector deletes a playbook of a machine that is gone. -/
  | collect (name : ℕ)
deriving DecidableEq, Repr

/-- A completed playbook stays completed. -/
def Forward (w : World) (name : ℕ) (phase : PlaybookPhase) : Prop :=
  ∀ p ∈ w.playbooks, p.name = name → p.phase.Completed → phase.Completed

instance (w : World) (name : ℕ) (phase : PlaybookPhase) : Decidable (Forward w name phase) :=
  inferInstanceAs (Decidable (∀ p ∈ w.playbooks, p.name = name → p.phase.Completed → phase.Completed))

def step (w : World) : Act → Option World
  | .reconcile age gate =>
    match w.party with
    | .idle => (w.read age).map fun m => { w with party := begin m gate }
    | _ => none
  | .get age ok =>
    match w.party with
    | .checking base now name =>
      if !ok then some { w with party := .patching base now }
      else (w.getPlaybook age name).map fun found => { w with party := .patching base (now.checked name found) }
    | .removal base now =>
      if !ok then some { w with party := .patching base now }
      else (w.getRecorded age base.addNode).map fun found => { w with party := .removalAfter base now found }
    | .removalAfter base now add =>
      if !ok then some { w with party := .patching base now }
      else (w.getRecorded age base.deleteNode).map fun found => { w with party := reconcileDelete base now add found }
    | _ => none
  | .list age ok =>
    match w.party with
    | .listing base now kind =>
      if !ok then some { w with party := .patching base now }
      else (w.readPlaybooks age).map fun playbooks =>
        { w with party := if ifPlaybookCompleted playbooks then .creating base now kind else .patching base now }
    | _ => none
  | .create reply =>
    match w.party with
    | .creating base now kind =>
      match reply with
      | .ok => some { w.createPlaybook kind with party := .patching base (now.record w.created.length kind) }
      | .refused _ => some { w with party := .patching base now }
      | .lost _ => some { w.createPlaybook kind with party := .patching base now }
    | _ => none
  | .remove reply =>
    match w.party with
    | .removing base now name =>
      some { (if carried reply then w.deletePlaybook name else w) with party := .patching base now }
    | _ => none
  | .patch reply =>
    match w.party with
    | .patching base now =>
      some { w with
        toVersions := w.write (base.patchMetadata now) (carried reply), party := .patchingStatus base now }
    | _ => none
  | .patchStatus reply =>
    match w.party with
    | .patchingStatus base now =>
      some { w with toVersions := w.write (base.patchStatus now) (carried reply), party := .idle }
    | _ => none
  | .crash => some { w with party := .idle }
  | .phase name phase =>
    if name ∈ w.playbooks.map (·.name) ∧ Forward w name phase then some (w.setPhase name phase) else none
  | .vanish name =>
    if ∀ p ∈ w.playbooks, p.name = name → p.deleting = true then
      some (w.setPlaybooks (w.playbooks.filter fun p => p.name ≠ name))
    else none
  | .delete => some { w with toVersions := w.write delete true }
  | .withdraw name => some (w.deletePlaybook name)
  | .collect name => if w.gone then some (w.deletePlaybook name) else none

/-- The reconcile comes to no answer that it could go on with, and has changed nothing. -/
def Act.Fails : Act → Prop
  | .get _ ok | .list _ ok => ok = false
  | .create reply | .remove reply => carried reply = false
  | _ => False

/-- The reconcile is about to read, create or delete a playbook. -/
inductive Party.Asks (base now : KKMachine) : Party → Prop where
  | checking (name : ℕ) : Asks base now (.checking base now name)
  | removal : Asks base now (.removal base now)
  | removalAfter (add : Option Playbook) : Asks base now (.removalAfter base now add)
  | listing (kind : PlaybookKind) : Asks base now (.listing base now kind)
  | creating (kind : PlaybookKind) : Asks base now (.creating base now kind)
  | removing (name : ℕ) : Asks base now (.removing base now name)

/-- What a step does, by what it finds. -/
inductive Taken (w : World) : Act → World → Prop where
  | reconcile {age : ℕ} {m : KKMachine} (gate : Gate) (party : w.party = .idle) (read : w.read age = some m) :
    Taken w (.reconcile age gate) { w with party := begin m gate }
  | failed {act : Act} {base now : KKMachine} (fails : act.Fails) (party : w.party.Asks base now) :
    Taken w act { w with party := .patching base now }
  | checked {age name : ℕ} {base now : KKMachine} {found : Option Playbook}
      (party : w.party = .checking base now name) (got : w.getPlaybook age name = some found) :
    Taken w (.get age true) { w with party := .patching base (now.checked name found) }
  | gotAdd {age : ℕ} {base now : KKMachine} {found : Option Playbook} (party : w.party = .removal base now)
      (got : w.getRecorded age base.addNode = some found) :
    Taken w (.get age true) { w with party := .removalAfter base now found }
  | gotDelete {age : ℕ} {base now : KKMachine} {add found : Option Playbook}
      (party : w.party = .removalAfter base now add) (got : w.getRecorded age base.deleteNode = some found) :
    Taken w (.get age true) { w with party := reconcileDelete base now add found }
  | listed {age : ℕ} {base now : KKMachine} {kind : PlaybookKind} {playbooks : List Playbook}
      (party : w.party = .listing base now kind) (read : w.readPlaybooks age = some playbooks) :
    Taken w (.list age true)
      { w with party := if ifPlaybookCompleted playbooks then .creating base now kind else .patching base now }
  | created {base now : KKMachine} {kind : PlaybookKind} (party : w.party = .creating base now kind) :
    Taken w (.create .ok) { w.createPlaybook kind with party := .patching base (now.record w.created.length kind) }
  | createdUnseen {base now : KKMachine} {kind : PlaybookKind} {error : String}
      (party : w.party = .creating base now kind) :
    Taken w (.create (.lost error)) { w.createPlaybook kind with party := .patching base now }
  | removed {base now : KKMachine} {name : ℕ} {reply : Reply} (party : w.party = .removing base now name)
      (carried : carried reply = true) :
    Taken w (.remove reply) { w.deletePlaybook name with party := .patching base now }
  | patched {base now : KKMachine} (reply : Reply) (party : w.party = .patching base now) :
    Taken w (.patch reply)
      { w with toVersions := w.write (base.patchMetadata now) (carried reply), party := .patchingStatus base now }
  | patchedStatus {base now : KKMachine} (reply : Reply) (party : w.party = .patchingStatus base now) :
    Taken w (.patchStatus reply)
      { w with toVersions := w.write (base.patchStatus now) (carried reply), party := .idle }
  | crashed : Taken w .crash { w with party := .idle }
  | phase {name : ℕ} {phase : PlaybookPhase} (forward : Forward w name phase) :
    Taken w (.phase name phase) (w.setPhase name phase)
  | vanished {name : ℕ} (deleting : ∀ p ∈ w.playbooks, p.name = name → p.deleting = true) :
    Taken w (.vanish name) (w.setPlaybooks (w.playbooks.filter fun p => p.name ≠ name))
  | deleted : Taken w .delete { w with toVersions := w.write delete true }
  | withdrawn (name : ℕ) : Taken w (.withdraw name) (w.deletePlaybook name)
  | collected (name : ℕ) (gone : w.gone = true) : Taken w (.collect name) (w.deletePlaybook name)

theorem taken_of_step {w w' : World} {act : Act} (taken : step w act = some w') : Taken w act w' := by
  cases act with
  | reconcile age gate =>
    simp only [step] at taken
    split at taken
    · rename_i party
      obtain ⟨m, read, rfl⟩ := Option.map_eq_some_iff.mp taken
      exact .reconcile gate party read
    · cases taken
  | get age ok =>
    -- a failed request is the same wherever the reconcile is
    have failed : ∀ {base now}, w.party.Asks base now → ok = false →
        Taken w (.get age ok) { w with party := .patching base now } := fun party fails => .failed fails party
    simp only [step] at taken
    cases ok with
    | false =>
      split at taken <;> rename_i party <;> cases taken
      · exact failed (party ▸ .checking _) rfl
      · exact failed (party ▸ .removal) rfl
      · exact failed (party ▸ .removalAfter _) rfl
    | true =>
      split at taken
      · rename_i party
        obtain ⟨found, got, rfl⟩ := Option.map_eq_some_iff.mp taken
        exact .checked party got
      · rename_i party
        obtain ⟨found, got, rfl⟩ := Option.map_eq_some_iff.mp taken
        exact .gotAdd party got
      · rename_i party
        obtain ⟨found, got, rfl⟩ := Option.map_eq_some_iff.mp taken
        exact .gotDelete party got
      · cases taken
  | list age ok =>
    simp only [step] at taken
    split at taken
    · rename_i party
      cases ok with
      | false =>
        cases taken
        exact .failed rfl (party ▸ .listing _)
      | true =>
        obtain ⟨playbooks, read, rfl⟩ := Option.map_eq_some_iff.mp taken
        exact .listed party read
    · cases taken
  | create reply =>
    simp only [step] at taken
    split at taken
    · rename_i party
      cases reply <;> cases taken
      · exact .created party
      · exact .failed rfl (party ▸ .creating _)
      · exact .createdUnseen party
    · cases taken
  | remove reply =>
    simp only [step] at taken
    split at taken
    · rename_i party
      cases taken
      split
      · next applied => exact .removed party applied
      · next refused => exact .failed (Bool.eq_false_iff.mpr refused) (party ▸ .removing _)
    · cases taken
  | patch reply =>
    simp only [step] at taken
    split at taken <;> cases taken
    rename_i party
    exact .patched reply party
  | patchStatus reply =>
    simp only [step] at taken
    split at taken <;> cases taken
    rename_i party
    exact .patchedStatus reply party
  | crash =>
    cases taken
    exact .crashed
  | phase name phase =>
    simp only [step] at taken
    split at taken <;> cases taken
    next guard => exact .phase guard.2
  | vanish name =>
    simp only [step] at taken
    split at taken <;> cases taken
    next deleting => exact .vanished deleting
  | delete =>
    cases taken
    exact .deleted
  | withdraw name =>
    cases taken
    exact .withdrawn name
  | collect name =>
    simp only [step] at taken
    split at taken <;> cases taken
    next gone => exact .collected name gone

/-! ## One playbook at a time -/

/-- The playbooks that have not completed. -/
def World.active (w : World) : ℕ := w.playbooks.countP fun p => !p.phase.Completed

/-- The playbooks are listed as they are. -/
def Act.listsCurrent : Act → Prop
  | .list age _ => age = 0
  | _ => True

instance : DecidablePred Act.listsCurrent
  | .list age _ => inferInstanceAs (Decidable (age = 0))
  | .reconcile _ _ | .get _ _ | .create _ | .remove _ | .patch _ | .patchStatus _ | .crash | .phase _ _ | .vanish _
  | .delete | .withdraw _ | .collect _ => isTrue trivial

/-- At most one playbook has not completed, and none when another one is created. -/
structure Single (w : World) : Prop where
  one : w.active ≤ 1
  creating : ∀ base now kind, w.party = .creating base now kind → w.active = 0

theorem begin_ne_creating {m base now : KKMachine} {gate : Gate} {kind : PlaybookKind} :
    begin m gate ≠ .creating base now kind := by
  unfold begin
  repeat' split
  all_goals exact fun same => by cases same

theorem reconcileDelete_ne_creating {m m' base now : KKMachine} {add del : Option Playbook} {kind : PlaybookKind} :
    reconcileDelete m m' add del ≠ .creating base now kind := by
  unfold reconcileDelete
  dsimp only
  repeat' split
  all_goals exact fun same => by cases same

theorem countP_map_le {playbooks : List Playbook} {f : Playbook → Playbook}
    (keeps : ∀ p ∈ playbooks, p.phase.Completed → (f p).phase.Completed) :
    (playbooks.map f).countP (fun p => !p.phase.Completed) ≤ playbooks.countP fun p => !p.phase.Completed := by
  rw [List.countP_map]
  refine List.countP_mono_left fun p member active => ?_
  simp only [Function.comp_apply, Bool.not_eq_true', decide_eq_false_iff_not] at active ⊢
  exact fun completed => active (keeps p member completed)

@[simp] theorem World.active_party (w : World) (party : Party) :
    ({ w with party := party } : World).active = w.active := rfl

theorem World.active_deletePlaybook_le (w : World) (name : ℕ) : (w.deletePlaybook name).active ≤ w.active := by
  refine countP_map_le fun p _ completed => ?_
  split <;> exact completed

theorem World.active_setPhase_le {w : World} {name : ℕ} {phase : PlaybookPhase} (forward : Forward w name phase) :
    (w.setPhase name phase).active ≤ w.active := by
  refine countP_map_le fun p member completed => ?_
  split
  · rename_i same
    exact forward p member same completed
  · exact completed

theorem World.active_createPlaybook (w : World) (kind : PlaybookKind) :
    (w.createPlaybook kind).active = w.active + 1 := by
  simp only [World.active, World.createPlaybook, World.setPlaybooks, List.countP_append]
  rfl

/-- A step that creates nothing and does not come to a creation. -/
theorem Single.fewer {w w' : World} (single : Single w) (fewer : w'.active ≤ w.active)
    (party : ∀ base now kind, w'.party = .creating base now kind → w.party = .creating base now kind) : Single w' :=
  ⟨fewer.trans single.one, fun base now kind creating => by
    have none := single.creating base now kind (party base now kind creating)
    omega⟩

theorem Single.step {w w' : World} (single : Single w) {act : Act} (current : act.listsCurrent)
    (taken : step w act = some w') : Single w' := by
  cases taken_of_step taken with
  | reconcile gate party read =>
    exact single.fewer le_rfl fun _ _ _ creating => absurd creating begin_ne_creating
  | failed | checked | gotAdd | patched | patchedStatus | crashed =>
    exact single.fewer le_rfl fun _ _ _ creating => by cases creating
  | gotDelete party got =>
    exact single.fewer le_rfl fun _ _ _ creating => absurd creating reconcileDelete_ne_creating
  | listed party read =>
    cases (current : _ = 0)
    cases read
    split
    · next completed =>
      refine ⟨single.one, fun _ _ _ _ => List.countP_eq_zero.mpr fun p member => ?_⟩
      simpa using List.all_eq_true.mp completed p member
    · exact single.fewer le_rfl fun _ _ _ creating => by cases creating
  | created party | createdUnseen party =>
    have none := single.creating _ _ _ party
    exact ⟨by simp [World.active_createPlaybook, none], fun _ _ _ creating => by cases creating⟩
  | removed party => exact single.fewer (w.active_deletePlaybook_le _) fun _ _ _ creating => by cases creating
  | phase forward => exact single.fewer (World.active_setPhase_le forward) fun _ _ _ creating => creating
  | vanished => exact single.fewer List.filter_sublist.countP_le fun _ _ _ creating => creating
  | deleted => exact single.fewer le_rfl fun _ _ _ creating => creating
  | withdrawn name | collected name =>
    exact single.fewer (w.active_deletePlaybook_le name) fun _ _ _ creating => creating

/-- A new machine gets its finalizer, its node is added, and it is ready. -/
def added : List Act :=
  [.reconcile 0 .goes, .patch .ok, .patchStatus .ok,
    .reconcile 0 .goes, .list 0 true, .create .ok, .patch .ok, .patchStatus .ok, .phase 0 .running, .phase 0 .succeeded,
    .reconcile 0 .goes, .get 0 true, .patch .ok, .patchStatus .ok]

/-- The machine is deleted: its node is deleted, both playbooks go, and then the machine. -/
def deleted : List Act :=
  [.delete,
    .reconcile 0 .goes, .get 0 true, .get 0 true, .list 0 true, .create .ok, .patch .ok, .patchStatus .ok,
    .phase 1 .succeeded,
    .reconcile 0 .goes, .get 0 true, .get 0 true, .remove .ok, .patch .ok, .patchStatus .ok, .vanish 0,
    .reconcile 0 .goes, .get 0 true, .get 0 true, .remove .ok, .patch .ok, .patchStatus .ok, .vanish 1,
    .reconcile 0 .goes, .get 0 true, .get 0 true, .patch .ok, .patchStatus .ok]

def afterAdded : World := (run step start added).getD start

def afterDeleted : World := (run step start (added ++ deleted)).getD start

theorem added_run : run step start added = some afterAdded := rfl

theorem deleted_run : run step start (added ++ deleted) = some afterDeleted := rfl

/-- At most one playbook of the machine has not completed, whatever is lost and wherever the controller ends, as long as
the playbooks are listed as they are. -/
theorem one_active {acts : List Act} (current : ∀ act ∈ acts, act.listsCurrent) {w : World}
    (ran : run step start acts = some w) : w.active ≤ 1 := by
  have new : Single start := ⟨by decide, fun _ _ _ creating => by cases creating⟩
  have kept : Single w := (along_of_forall current).invariant
    (fun _ _ _ single current taken => single.step current taken) new ran
  exact kept.one

theorem one_active_deleted : afterDeleted.created.length = 2 ∧ afterDeleted.active ≤ 1 :=
  ⟨by decide, one_active (by decide) deleted_run⟩

/-! ## What is stored is so -/

/-- The machine as it was read and as it is in memory. -/
def Party.memory : Party → Option (KKMachine × KKMachine)
  | .idle => none
  | .checking base now _ | .removal base now | .removalAfter base now _ | .listing base now _ | .creating base now _
  | .removing base now _ | .patching base now | .patchingStatus base now => some (base, now)

/-- The annotations name playbooks of their kinds, and a ready machine had its node added. -/
structure Tells (created : List PlaybookKind) (succeeded : List ℕ) (m : KKMachine) : Prop where
  addNode : ∀ name, m.addNode = some name → created[name]? = some .addNode
  deleteNode : ∀ name, m.deleteNode = some name → created[name]? = some .deleteNode
  ready : m.ready = true → ∃ name ∈ succeeded, created[name]? = some .addNode

abbrev World.Tells (w : World) (m : KKMachine) : Prop := NodePlaybooks.Tells w.created w.succeeded m

/-- What holds between the steps, however old the reads are. -/
structure Known (w : World) : Prop where
  kinds : ∀ playbooks ∈ w.playbooks :: w.past, ∀ p ∈ playbooks, w.created[p.name]? = some p.kind
  succeeded : ∀ playbooks ∈ w.playbooks :: w.past, ∀ p ∈ playbooks, p.phase = .succeeded → p.name ∈ w.succeeded
  machines : w.All w.Tells
  memory : ∀ base now, w.party.memory = some (base, now) → w.Tells base ∧ w.Tells now
  checking : ∀ base now name, w.party = .checking base now name → w.created[name]? = some .addNode

/-- More playbooks were created, more of them succeeded. -/
structure Grows (created : List PlaybookKind) (succeeded : List ℕ) (created' : List PlaybookKind)
    (succeeded' : List ℕ) : Prop where
  created : ∀ (name : ℕ) (kind : PlaybookKind), created[name]? = some kind → created'[name]? = some kind
  succeeded : ∀ name ∈ succeeded, name ∈ succeeded'

theorem Tells.grows {created created' : List PlaybookKind} {succeeded succeeded' : List ℕ} {m : KKMachine}
    (tells : Tells created succeeded m) (grows : Grows created succeeded created' succeeded') :
    Tells created' succeeded' m where
  addNode name recorded := grows.created _ _ (tells.addNode name recorded)
  deleteNode name recorded := grows.created _ _ (tells.deleteNode name recorded)
  ready ready := by
    obtain ⟨name, succeeded, kind⟩ := tells.ready ready
    exact ⟨name, grows.succeeded name succeeded, grows.created _ _ kind⟩

variable {w w' : World} {base now m : KKMachine}

theorem World.getPlaybook_mem {age name : ℕ} {p : Playbook} (got : w.getPlaybook age name = some (some p)) :
    p.name = name ∧ ∃ playbooks ∈ w.playbooks :: w.past, p ∈ playbooks := by
  obtain ⟨playbooks, read, found⟩ := Option.map_eq_some_iff.mp got
  exact ⟨by simpa using List.find?_some found, playbooks, List.mem_of_getElem? read, List.mem_of_find?_eq_some found⟩

theorem Tells.patchMetadata {latest : KKMachine} (stored : w.Tells latest) (told : w.Tells now) :
    w.Tells (base.patchMetadata now latest) where
  addNode name recorded := by
    rcases merged_cases base.addNode now.addNode latest.addNode with same | same
    · exact stored.addNode name (same ▸ recorded)
    · exact told.addNode name (same ▸ recorded)
  deleteNode name recorded := by
    rcases merged_cases base.deleteNode now.deleteNode latest.deleteNode with same | same
    · exact stored.deleteNode name (same ▸ recorded)
    · exact told.deleteNode name (same ▸ recorded)
  ready := stored.ready

theorem Tells.patchStatus {latest : KKMachine} (stored : w.Tells latest) (told : w.Tells now) :
    w.Tells (base.patchStatus now latest) where
  addNode := stored.addNode
  deleteNode := stored.deleteNode
  ready ready := by
    rcases merged_cases base.ready now.ready latest.ready with same | same
    · exact stored.ready (same ▸ ready)
    · exact told.ready (same ▸ ready)

/-- A step of the reconcile that stores nothing. -/
theorem Known.withParty (known : Known w) {party : Party}
    (memory : ∀ base now, party.memory = some (base, now) → w.Tells base ∧ w.Tells now)
    (checking : ∀ base now name, party = .checking base now name → w.created[name]? = some .addNode) :
    Known { w with party := party } :=
  ⟨known.kinds, known.succeeded, known.machines, memory, checking⟩

/-- The reconcile goes on with what it has. -/
theorem Known.toPatch (known : Known w) (base_ : w.Tells base) (now_ : w.Tells now) :
    Known { w with party := .patching base now } := by
  refine known.withParty (fun _ _ same => ?_) fun _ _ _ same => by cases same
  cases same
  exact ⟨base_, now_⟩

/-- A request for the machine. -/
theorem Known.write (known : Known w) {change : KKMachine → KKMachine} (told : w.Tells (change w.latest))
    (carried : Bool) : Known { w with toVersions := w.write change carried } :=
  ⟨known.kinds, known.succeeded, known.machines.write (fun _ => told) carried, known.memory, known.checking⟩

/-- The playbooks change: what they are and which of them succeeded is known. -/
theorem Known.withPlaybooks (known : Known w) {playbooks : List Playbook} {created : List PlaybookKind}
    {succeeded : List ℕ} (grows : Grows w.created w.succeeded created succeeded)
    (kinds : ∀ p ∈ playbooks, created[p.name]? = some p.kind)
    (ended : ∀ p ∈ playbooks, p.phase = .succeeded → p.name ∈ succeeded) :
    Known { w with
      playbooks := playbooks, past := w.playbooks :: w.past, created := created, succeeded := succeeded } where
  kinds playbooks' member p inside := by
    rcases List.mem_cons.mp member with rfl | before
    · exact kinds p inside
    · exact grows.created _ _ (known.kinds playbooks' before p inside)
  succeeded playbooks' member p inside done := by
    rcases List.mem_cons.mp member with rfl | before
    · exact ended p inside done
    · exact grows.succeeded _ (known.succeeded playbooks' before p inside done)
  machines := known.machines.mono fun m told => told.grows ⟨grows.created, grows.succeeded⟩
  memory base now same := ⟨(known.memory base now same).1.grows ⟨grows.created, grows.succeeded⟩,
    (known.memory base now same).2.grows ⟨grows.created, grows.succeeded⟩⟩
  checking base now name same := grows.created _ _ (known.checking base now name same)

theorem Known.deletePlaybook (known : Known w) (name : ℕ) : Known (w.deletePlaybook name) := by
  refine known.withPlaybooks ⟨fun _ _ kind => kind, fun _ member => member⟩ (fun p member => ?_) fun p member => ?_
  · obtain ⟨p', before, rfl⟩ := List.mem_map.mp member
    have kind := known.kinds _ List.mem_cons_self p' before
    split <;> exact kind
  · obtain ⟨p', before, rfl⟩ := List.mem_map.mp member
    have done := known.succeeded _ List.mem_cons_self p' before
    split <;> exact done

theorem Known.setPhase (known : Known w) (name : ℕ) (phase : PlaybookPhase) : Known (w.setPhase name phase) := by
  refine known.withPlaybooks ⟨fun _ _ kind => kind, fun other member => ?_⟩ (fun p member => ?_) fun p member => ?_
  · split
    · exact List.mem_cons_of_mem _ member
    · exact member
  · obtain ⟨p', before, rfl⟩ := List.mem_map.mp member
    have kind := known.kinds _ List.mem_cons_self p' before
    split <;> exact kind
  · obtain ⟨p', before, rfl⟩ := List.mem_map.mp member
    have done := known.succeeded _ List.mem_cons_self p' before
    split
    · rename_i same
      intro succeeded
      dsimp only at succeeded ⊢
      rw [if_pos succeeded, same]
      exact List.mem_cons_self
    · intro succeeded
      split
      · exact List.mem_cons_of_mem _ (done succeeded)
      · exact done succeeded

theorem created_grows (w : World) (kind : PlaybookKind) :
    Grows w.created w.succeeded (w.created ++ [kind]) w.succeeded := by
  refine ⟨fun name kind' found => ?_, fun _ member => member⟩
  obtain ⟨bound, -⟩ := List.getElem?_eq_some_iff.mp found
  rw [List.getElem?_append_left bound]
  exact found

theorem Known.createPlaybook (known : Known w) (kind : PlaybookKind) : Known (w.createPlaybook kind) := by
  refine known.withPlaybooks (created_grows w kind) (fun p member => ?_) fun p member => ?_
  · rcases List.mem_append.mp member with before | new
    · exact (created_grows w kind).created _ _ (known.kinds _ List.mem_cons_self p before)
    · cases List.mem_singleton.mp new
      simp
  · rcases List.mem_append.mp member with before | new
    · exact known.succeeded _ List.mem_cons_self p before
    · cases List.mem_singleton.mp new
      exact fun succeeded => by cases succeeded

theorem World.Tells.unready (told : w.Tells m) (failure : Option ℕ) :
    w.Tells { m with ready := false, failure := failure } :=
  ⟨told.addNode, told.deleteNode, fun ready => by cases ready⟩

theorem World.Tells.withFinalizer (told : w.Tells m) (finalizer : Bool) : w.Tells { m with finalizer := finalizer } :=
  ⟨told.addNode, told.deleteNode, told.ready⟩

theorem Known.begin (known : Known w) (told : w.Tells m) (gate : Gate) :
    Known { w with party := NodePlaybooks.begin m gate } := by
  unfold NodePlaybooks.begin
  split
  · exact known.toPatch told told
  split
  · exact known.toPatch told (World.Tells.withFinalizer told true)
  split
  · refine known.withParty (fun _ _ same => ?_) fun _ _ _ same => by cases same
    cases same
    exact ⟨told, told⟩
  split
  · exact known.toPatch told told
  split
  · refine known.withParty (fun _ _ same => ?_) fun _ _ _ same => by cases same
    cases same
    exact ⟨told, World.Tells.unready told none⟩
  · rename_i name recorded
    refine known.withParty (fun _ _ same => ?_) fun _ _ _ same => ?_
    · cases same
      exact ⟨told, told⟩
    · cases same
      exact told.addNode name recorded

theorem Known.reconcileDelete (known : Known w) (base_ : w.Tells base) (now_ : w.Tells now)
    (add del : Option Playbook) : Known { w with party := NodePlaybooks.reconcileDelete base now add del } := by
  have release := known.toPatch base_ (World.Tells.withFinalizer now_ false)
  have wait := known.toPatch base_ now_
  have goes : ∀ party : Party, party.memory = some (base, now) → (∀ base now name, party ≠ .checking base now name) →
      Known { w with party := party } := by
    intro party memory apart
    refine known.withParty (fun base' now' same => ?_) fun _ _ _ same => absurd same (apart _ _ _)
    cases memory.symm.trans same
    exact ⟨base_, now_⟩
  unfold NodePlaybooks.reconcileDelete
  dsimp only
  split
  · exact release
  · split
    · exact goes _ rfl fun _ _ _ same => by cases same
    · exact wait
  · split
    · exact goes _ rfl fun _ _ _ same => by cases same
    · split
      · exact goes _ rfl fun _ _ _ same => by cases same
      · exact wait
    · split
      · exact release
      · exact wait
  · split
    · exact release
    · exact wait

/-- The status that a playbook which the cache shows gives to the machine. -/
theorem Known.checked (known : Known w) (told : w.Tells m) {age name : ℕ} (kind : w.created[name]? = some .addNode)
    {found : Option Playbook} (got : w.getPlaybook age name = some found) : w.Tells (m.checked name found) := by
  cases found with
  | none => exact told
  | some p =>
    obtain ⟨same, playbooks, version, inside⟩ := World.getPlaybook_mem got
    unfold KKMachine.checked
    dsimp only
    split
    · rename_i succeeded
      have done := known.succeeded playbooks version p inside succeeded
      exact ⟨told.addNode, told.deleteNode, fun _ => ⟨name, same ▸ done, kind⟩⟩
    · exact World.Tells.unready told _
    · exact told

theorem Party.Asks.memory {party : Party} (asks : party.Asks base now) : party.memory = some (base, now) := by
  cases asks <;> rfl

theorem Known.step (known : Known w) {act : Act} (taken : step w act = some w') : Known w' := by
  cases taken_of_step taken with
  | reconcile gate party read => exact known.begin (known.machines.read read) gate
  | failed fails party =>
    obtain ⟨base_, now_⟩ := known.memory _ _ party.memory
    exact known.toPatch base_ now_
  | checked party got =>
    obtain ⟨base_, now_⟩ := known.memory _ _ (by rw [party]; rfl)
    exact known.toPatch base_ (known.checked now_ (known.checking _ _ _ party) got)
  | gotAdd party got =>
    obtain ⟨base_, now_⟩ := known.memory _ _ (by rw [party]; rfl)
    refine known.withParty (fun _ _ same => ?_) fun _ _ _ same => by cases same
    cases same
    exact ⟨base_, now_⟩
  | @gotDelete _ base now add found party got =>
    obtain ⟨base_, now_⟩ := known.memory base now (by rw [party]; rfl)
    exact known.reconcileDelete base_ now_ add found
  | listed party read =>
    obtain ⟨base_, now_⟩ := known.memory _ _ (by rw [party]; rfl)
    split
    · refine known.withParty (fun _ _ same => ?_) fun _ _ _ same => by cases same
      cases same
      exact ⟨base_, now_⟩
    · exact known.toPatch base_ now_
  | @created base now kind party =>
    obtain ⟨base_, now_⟩ := known.memory base now (by rw [party]; rfl)
    have more := created_grows w kind
    refine (known.createPlaybook kind).toPatch (base_.grows more) ?_
    have grown := now_.grows more
    have new : (w.created ++ [kind])[w.created.length]? = some kind := by simp
    cases kind with
    | addNode =>
      refine ⟨fun name same => ?_, grown.deleteNode, grown.ready⟩
      cases same
      exact new
    | deleteNode =>
      refine ⟨grown.addNode, fun name same => ?_, grown.ready⟩
      cases same
      exact new
  | @createdUnseen base now kind error party =>
    obtain ⟨base_, now_⟩ := known.memory base now (by rw [party]; rfl)
    have more := created_grows w kind
    exact (known.createPlaybook kind).toPatch (base_.grows more) (now_.grows more)
  | @removed base now name reply party =>
    obtain ⟨base_, now_⟩ := known.memory base now (by rw [party]; rfl)
    exact (known.deletePlaybook name).toPatch base_ now_
  | @patched base now reply party =>
    obtain ⟨base_, now_⟩ := known.memory base now (by rw [party]; rfl)
    refine (known.write (known.machines.latest.patchMetadata now_) (carried reply)).withParty (fun _ _ same => ?_)
      fun _ _ _ same => by cases same
    cases same
    exact ⟨base_, now_⟩
  | @patchedStatus base now reply party =>
    obtain ⟨-, now_⟩ := known.memory base now (by rw [party]; rfl)
    exact (known.write (known.machines.latest.patchStatus now_) (carried reply)).withParty
      (fun _ _ same => by cases same) fun _ _ _ same => by cases same
  | crashed => exact known.withParty (fun _ _ same => by cases same) fun _ _ _ same => by cases same
  | phase => exact known.setPhase _ _
  | vanished =>
    refine known.withPlaybooks ⟨fun _ _ kind => kind, fun _ member => member⟩ (fun p member => ?_) fun p member => ?_
    · exact known.kinds _ List.mem_cons_self p (List.mem_filter.mp member).1
    · exact known.succeeded _ List.mem_cons_self p (List.mem_filter.mp member).1
  | deleted =>
    have told := known.machines.latest
    exact known.write ⟨told.addNode, told.deleteNode, told.ready⟩ true
  | withdrawn name | collected name => exact known.deletePlaybook name

theorem start_known : Known start where
  kinds playbooks member p inside := by
    cases List.mem_singleton.mp member
    cases inside
  succeeded playbooks member p inside := by
    cases List.mem_singleton.mp member
    cases inside
  machines := Versions.new_all rfl
    ⟨fun _ same => (by cases same), fun _ same => (by cases same), fun same => (by cases same)⟩
  memory _ _ same := by cases same
  checking _ _ _ same := by cases same

theorem run_known {acts : List Act} (ran : run step start acts = some w) : Known w :=
  (along_true step start acts).invariant (fun _ _ _ known _ taken => known.step taken) start_known ran

/-- A machine that was ever stored as ready had its node added by a playbook that succeeded, however old the reads are
and whatever is lost. -/
theorem ready_added {acts : List Act} (ran : run step start acts = some w) {m : KKMachine}
    (stored : m ∈ w.all) (ready : m.ready = true) :
    ∃ name ∈ w.succeeded, w.created[name]? = some .addNode :=
  ((run_known ran).machines.stored m stored).ready ready

theorem ready_added_machine :
    afterAdded.latest.ready = true ∧ ∃ name ∈ afterAdded.succeeded, afterAdded.created[name]? = some .addNode :=
  ⟨by decide, ready_added added_run afterAdded.latest_mem (by decide)⟩

/-! ## The node is deleted before the machine -/

/-- Reads are current, and nobody else deletes the playbooks of a machine that is there. -/
def Act.fresh : Act → Prop
  | .reconcile age _ | .get age _ => age = 0
  | .withdraw _ => False
  | _ => True

instance : DecidablePred Act.fresh
  | .reconcile age _ | .get age _ => inferInstanceAs (Decidable (age = 0))
  | .withdraw _ => isFalse id
  | .list _ _ | .create _ | .remove _ | .patch _ | .patchStatus _ | .crash | .phase _ _ | .vanish _ | .delete
  | .collect _ => isTrue trivial

/-- The node was deleted by a playbook. -/
def World.NodeDeleted (w : World) : Prop := ∃ name ∈ w.succeeded, w.created[name]? = some .deleteNode

/-- No playbook is recorded, or the node was deleted. -/
def World.Free (w : World) (m : KKMachine) : Prop := m.addNode = none ∧ m.deleteNode = none ∨ w.NodeDeleted

/-- The playbook is there, or it succeeded. -/
def World.Kept (w : World) (name : ℕ) : Prop := (∃ p ∈ w.playbooks, p.name = name) ∨ name ∈ w.succeeded

/-- The machine that a reconcile has read, against the stored one, and what it makes of it. -/
structure Flight (w : World) (base now : KKMachine) : Prop where
  addNode : base.addNode = w.latest.addNode
  deleteNode : base.deleteNode = w.latest.deleteNode
  finalizer : base.finalizer = w.latest.finalizer
  deleting : base.deleting = true → w.latest.deleting = true
  kept : ∀ name, now.deleteNode = some name → w.Kept name
  bare : base.finalizer = false → now.addNode = base.addNode ∧ now.deleteNode = base.deleteNode
  release : now.finalizer = false → base.finalizer = true → base.deleting = true ∧ w.Free base

/-- What a reconcile knows at its next request. -/
def InFlight (w : World) : Party → Prop
  | .idle | .patchingStatus _ _ => True
  | .checking base now _ | .patching base now => Flight w base now
  | .removal base now => Flight w base now ∧ base.deleting = true
  | .removalAfter base now add =>
    Flight w base now ∧ base.deleting = true ∧ ∀ p ∈ add, w.created[p.name]? = some .addNode
  | .listing base now _ | .creating base now _ => Flight w base now ∧ base.finalizer = true
  | .removing base now name => Flight w base now ∧ (w.created[name]? = some .addNode ∨ name ∈ w.succeeded)

/-- What holds while the machine is there. -/
structure Live (w : World) : Prop where
  unheld : w.latest.finalizer = false → w.latest.addNode = none ∧ w.latest.deleteNode = none
  marked : ∀ p ∈ w.playbooks, p.deleting = true → p.kind = .deleteNode → p.name ∈ w.succeeded
  recorded : ∀ name, w.latest.deleteNode = some name → w.Kept name
  flight : InFlight w w.party

structure Held (w : World) : Prop where
  known : Known w
  gone : w.gone = true → w.Free w.latest
  live : w.gone = false → Live w

/-- What changes beside the reconcile and takes nothing from it. -/
structure Onward (w w' : World) : Prop where
  addNode : w'.latest.addNode = w.latest.addNode
  deleteNode : w'.latest.deleteNode = w.latest.deleteNode
  finalizer : w'.latest.finalizer = w.latest.finalizer
  deleting : w.latest.deleting = true → w'.latest.deleting = true
  grows : Grows w.created w.succeeded w'.created w'.succeeded
  kept : ∀ name, w.created[name]? = some .deleteNode → w.Kept name → w'.Kept name

theorem World.NodeDeleted.grows (deleted : w.NodeDeleted)
    (grows : Grows w.created w.succeeded w'.created w'.succeeded) : w'.NodeDeleted := by
  obtain ⟨name, succeeded, kind⟩ := deleted
  exact ⟨name, grows.succeeded name succeeded, grows.created _ _ kind⟩

theorem World.Free.grows (free : w.Free m) (grows : Grows w.created w.succeeded w'.created w'.succeeded) :
    w'.Free m :=
  free.imp id fun deleted => deleted.grows grows

theorem Flight.onward (flight : Flight w base now) (told : w.Tells now) (onward : Onward w w') :
    Flight w' base now where
  addNode := flight.addNode.trans onward.addNode.symm
  deleteNode := flight.deleteNode.trans onward.deleteNode.symm
  finalizer := flight.finalizer.trans onward.finalizer.symm
  deleting same := onward.deleting (flight.deleting same)
  kept name recorded := onward.kept name (told.deleteNode name recorded) (flight.kept name recorded)
  bare := flight.bare
  release unset set := ⟨(flight.release unset set).1, (flight.release unset set).2.grows onward.grows⟩

theorem InFlight.onward {party : Party} (flight : InFlight w party)
    (told : ∀ base now, party.memory = some (base, now) → w.Tells now) (onward : Onward w w') : InFlight w' party := by
  cases party with
  | idle => trivial
  | patchingStatus => trivial
  | checking base now => exact Flight.onward flight (told base now rfl) onward
  | patching base now => exact Flight.onward flight (told base now rfl) onward
  | removal base now => exact ⟨flight.1.onward (told base now rfl) onward, flight.2⟩
  | removalAfter base now =>
    exact ⟨flight.1.onward (told base now rfl) onward, flight.2.1,
      fun p member => onward.grows.created _ _ (flight.2.2 p member)⟩
  | listing base now => exact ⟨flight.1.onward (told base now rfl) onward, flight.2⟩
  | creating base now => exact ⟨flight.1.onward (told base now rfl) onward, flight.2⟩
  | removing base now name =>
    exact ⟨flight.1.onward (told base now rfl) onward,
      flight.2.imp (onward.grows.created _ _) (onward.grows.succeeded name)⟩

/-- The playbooks of a machine change beside its reconcile. -/
theorem Held.onward (held : Held w) (known : Known w')
    (grows : Grows w.created w.succeeded w'.created w'.succeeded) (versions : w'.toVersions = w.toVersions)
    (party : w'.party = w.party)
    (kept : w.gone = false → ∀ name, w.created[name]? = some .deleteNode → w.Kept name → w'.Kept name)
    (marked : w.gone = false → ∀ p ∈ w'.playbooks, p.deleting = true → p.kind = .deleteNode → p.name ∈ w'.succeeded) :
    Held w' := by
  refine ⟨known, fun there => ?_, fun there => ?_⟩
  · rw [versions] at there ⊢
    exact (held.gone there).grows grows
  · rw [versions] at there
    have live := held.live there
    have onward : Onward w w' :=
      ⟨by rw [versions], by rw [versions], by rw [versions], by rw [versions]; exact id, grows, kept there⟩
    refine ⟨by rw [versions]; exact live.unheld, marked there, fun name recorded => ?_, ?_⟩
    · rw [versions] at recorded
      exact onward.kept name (held.known.machines.latest.deleteNode name recorded) (live.recorded name recorded)
    · rw [party]
      exact live.flight.onward (fun base now same => (held.known.memory base now same).2) onward

/-- The reconcile goes on. -/
theorem Held.withParty (held : Held w) {party : Party} (known : Known { w with party := party })
    (flight : w.gone = false → InFlight w party) : Held { w with party := party } := by
  refine ⟨known, held.gone, fun there => ?_⟩
  have live := held.live there
  refine ⟨live.unheld, live.marked, live.recorded, ?_⟩
  exact (flight there).onward (fun base now same => (known.memory base now same).2)
    ⟨rfl, rfl, rfl, id, ⟨fun _ _ kind => kind, fun _ member => member⟩, fun _ _ kept => kept⟩

/-- The machine as it is read now. -/
theorem Live.read (live : Live w) : Flight w w.latest w.latest :=
  ⟨rfl, rfl, rfl, id, live.recorded, fun _ => ⟨rfl, rfl⟩, fun unset set => by rw [set] at unset; cases unset⟩

/-- A change of the status. -/
theorem Flight.status (flight : Flight w base now) (ready : Bool) (failure : Option ℕ) :
    Flight w base { now with ready := ready, failure := failure } :=
  ⟨flight.addNode, flight.deleteNode, flight.finalizer, flight.deleting, flight.kept, flight.bare, flight.release⟩

theorem Flight.checked (flight : Flight w base now) (name : ℕ) (found : Option Playbook) :
    Flight w base (now.checked name found) := by
  cases found with
  | none => exact flight
  | some p =>
    unfold KKMachine.checked
    dsimp only
    split
    · exact flight.status true none
    · exact flight.status false (some name)
    · exact flight

/-- The finalizer is taken from the machine. -/
theorem Flight.released (flight : Flight w base now) (deleting : base.deleting = true) (free : w.Free base) :
    Flight w base { now with finalizer := false } :=
  ⟨flight.addNode, flight.deleteNode, flight.finalizer, flight.deleting, flight.kept, flight.bare,
    fun _ _ => ⟨deleting, free⟩⟩

theorem Live.begin (live : Live w) (gate : Gate) : InFlight w (NodePlaybooks.begin w.latest gate) := by
  have read := live.read
  unfold NodePlaybooks.begin
  split
  · exact read
  split
  · rename_i plain
    refine ⟨rfl, rfl, rfl, id, read.kept, fun _ => ⟨rfl, rfl⟩, fun unset => by cases unset⟩
  split
  · rename_i deleting
    exact ⟨read, deleting⟩
  split
  · exact read
  rename_i bare deleting _
  have set : w.latest.finalizer = true := by
    by_contra unset
    simp [deleting, unset] at bare
  split
  · exact ⟨read.status false none, set⟩
  · exact read

/-- A playbook that is not found any more has succeeded. -/
theorem Live.notFound (live : Live w) (flight : Flight w base now) {name : ℕ} (recorded : base.deleteNode = some name)
    (got : w.getPlaybook 0 name = some none) : name ∈ w.succeeded := by
  rw [flight.deleteNode] at recorded
  rcases live.recorded name recorded with ⟨p, member, same⟩ | done
  · obtain ⟨playbooks, read, missing⟩ := Option.map_eq_some_iff.mp got
    cases read
    have absent := List.find?_eq_none.mp missing p member
    exact absurd same (by simpa using absent)
  · exact done

theorem Live.reconcileDelete (live : Live w) (known : Known w) (there : w.gone = false) {add found : Option Playbook}
    (flight : InFlight w (.removalAfter base now add)) (told : w.Tells base)
    (got : w.getRecorded 0 base.deleteNode = some found) :
    InFlight w (NodePlaybooks.reconcileDelete base now add found) := by
  obtain ⟨flight, deleting, named⟩ := flight
  have release : (∀ name, base.deleteNode = some name → found = none → w.Free base) → base.deleteNode ≠ none →
      InFlight w (if add = none ∧ found = none then .patching base { now with finalizer := false }
        else .patching base now) := by
    intro free recorded
    split
    · rename_i both
      obtain ⟨name, same⟩ := Option.ne_none_iff_exists'.mp recorded
      exact flight.released deleting (free name same both.2)
    · exact flight
  have free : ∀ name, base.deleteNode = some name → found = none → w.Free base := by
    rintro name same rfl
    rw [same] at got
    exact .inr ⟨name, live.notFound flight same got, told.deleteNode name same⟩
  unfold NodePlaybooks.reconcileDelete
  dsimp only
  split
  · rename_i noAdd noDelete
    exact flight.released deleting (.inl ⟨noAdd, noDelete⟩)
  · split
    · exact ⟨flight, flight.finalizer.trans (w.held there (flight.deleting deleting))⟩
    · exact flight
  · rename_i recorded
    split
    · rename_i p here
      exact ⟨flight, .inl (named p (Option.filter_eq_some_iff.mp here).1)⟩
    · rename_i p _ here
      split
      · rename_i succeeded
        rw [(Option.filter_eq_some_iff.mp here).1, recorded] at got
        obtain ⟨-, playbooks, version, inside⟩ := World.getPlaybook_mem got
        exact ⟨flight, .inr (known.succeeded playbooks version p inside succeeded)⟩
      · exact flight
    · exact release free (by simp [recorded])
  · rename_i recorded
    exact release free (by simp [recorded])

/-- Nobody else writes what the reconcile patches. -/
theorem Flight.patchMetadata (flight : Flight w base now) :
    base.patchMetadata now w.latest =
      { w.latest with addNode := now.addNode, deleteNode := now.deleteNode, finalizer := now.finalizer } := by
  rw [KKMachine.patchMetadata, merged_current flight.addNode, merged_current flight.deleteNode,
    merged_current flight.finalizer]

/-- The machine that the reconcile made is stored, or is gone. -/
theorem Held.patched (held : Held w) (there : w.gone = false) (flight : Flight w base now)
    (known : Known { w with
      toVersions := w.store (base.patchMetadata now w.latest), party := .patchingStatus base now }) :
    Held { w with toVersions := w.store (base.patchMetadata now w.latest), party := .patchingStatus base now } := by
  have live := held.live there
  rw [flight.patchMetadata] at known ⊢
  generalize new : { w.latest with addNode := now.addNode, deleteNode := now.deleteNode, finalizer := now.finalizer } =
    patched at known ⊢
  have marked : Go.deleting patched = w.latest.deleting := by rw [← new]; rfl
  have taken : Go.finalizer patched = now.finalizer := by rw [← new]; rfl
  rcases w.store_cases patched with ⟨same, unheld, missing⟩ | ⟨stays, same⟩ <;> rw [same] at known ⊢
  · -- the finalizer was taken from a machine that had it
    rw [marked] at unheld
    rw [taken] at missing
    obtain ⟨-, free⟩ := flight.release missing (flight.finalizer.trans (w.held there unheld))
    refine ⟨known, fun _ => ?_, fun there => by cases there⟩
    rw [World.Free, flight.addNode, flight.deleteNode] at free
    exact free
  · rw [marked, taken] at stays
    refine ⟨known, fun gone => ?_, fun _ => ⟨fun unset => ?_, live.marked, ?_, trivial⟩⟩
    · rw [there] at gone
      cases gone
    · dsimp only at unset ⊢
      subst new
      dsimp only at unset ⊢
      cases set : base.finalizer with
      | true =>
        have removed := stays (flight.deleting (flight.release unset set).1)
        rw [unset] at removed
        cases removed
      | false =>
        obtain ⟨sameAdd, sameDelete⟩ := flight.bare set
        rw [sameAdd, sameDelete, flight.addNode, flight.deleteNode]
        exact live.unheld (flight.finalizer ▸ set)
    · subst new
      exact flight.kept

/-- The status of a machine that is there is stored. -/
theorem Held.patchedStatus (held : Held w) (carried : Bool)
    (known : Known { w with toVersions := w.write (base.patchStatus now) carried, party := .idle }) :
    Held { w with toVersions := w.write (base.patchStatus now) carried, party := .idle } := by
  obtain ⟨aside, latest⟩ := w.write_aside (base.patchStatus now) rfl rfl carried
  generalize w.write (base.patchStatus now) carried = v at known aside latest
  have addNode : v.latest.addNode = w.latest.addNode := by
    rcases latest with same | same <;> rw [same]
    rfl
  have deleteNode : v.latest.deleteNode = w.latest.deleteNode := by
    rcases latest with same | same <;> rw [same]
    rfl
  refine ⟨known, fun gone => ?_, fun there => ?_⟩
  · have free := held.gone (aside.gone ▸ gone)
    rw [World.Free, ← addNode, ← deleteNode] at free
    exact free
  · have live := held.live (aside.gone ▸ there)
    refine ⟨fun unset => ?_, live.marked, fun name recorded => ?_, trivial⟩
    · rw [addNode, deleteNode]
      exact live.unheld (aside.finalizer.symm.trans unset)
    · exact live.recorded name (deleteNode ▸ recorded)

theorem Held.deleted (held : Held w) (known : Known { w with toVersions := w.write delete true }) :
    Held { w with toVersions := w.write delete true } := by
  rcases w.write_cases delete true with ⟨same, -⟩ | ⟨there, -, same⟩
  · exact same.symm ▸ held
  have live := held.live there
  rcases w.store_cases (delete w.latest) with ⟨stored, -, unheld⟩ | ⟨stays, stored⟩ <;>
    rw [same, stored] at known ⊢
  · exact ⟨known, fun _ => .inl (live.unheld unheld), fun there => by cases there⟩
  · refine ⟨known, fun gone => ?_, fun _ => ⟨live.unheld, live.marked, live.recorded, ?_⟩⟩
    · rw [there] at gone
      cases gone
    · exact live.flight.onward (fun base now same => (held.known.memory base now same).2)
        ⟨rfl, rfl, rfl, fun _ => rfl, ⟨fun _ _ kind => kind, fun _ member => member⟩, fun _ _ kept => kept⟩

/-! ### Playbooks that change -/

theorem World.Kept.map {name : ℕ} (kept : w.Kept name) {f : Playbook → Playbook} (names : ∀ p, (f p).name = p.name)
    {succeeded : List ℕ} (more : ∀ name ∈ w.succeeded, name ∈ succeeded) :
    (∃ p ∈ w.playbooks.map f, p.name = name) ∨ name ∈ succeeded := by
  rcases kept with ⟨p, member, same⟩ | done
  · exact .inl ⟨f p, List.mem_map_of_mem member, (names p).trans same⟩
  · exact .inr (more name done)

/-- A playbook of the machine is deleted that is no delete-node playbook, or one that succeeded. -/
theorem Held.deletePlaybook (held : Held w) {name : ℕ}
    (permitted : w.gone = false → w.created[name]? = some .addNode ∨ name ∈ w.succeeded) :
    Held (w.deletePlaybook name) := by
  have names : ∀ p : Playbook, (if p.name = name then { p with deleting := true } else p).name = p.name := by
    intro p
    split <;> rfl
  refine held.onward (held.known.deletePlaybook name) ⟨fun _ _ kind => kind, fun _ member => member⟩ rfl rfl
    (fun _ _ _ kept => kept.map names fun _ member => member) fun there p member deleting kind => ?_
  obtain ⟨p', before, rfl⟩ := List.mem_map.mp member
  split at deleting
  · rename_i same
    rw [if_pos same] at kind ⊢
    rcases permitted there with other | done
    · have known := held.known.kinds _ List.mem_cons_self p' before
      rw [same, other, kind] at known
      cases known
    · exact same ▸ done
  · rename_i other
    rw [if_neg other] at kind ⊢
    exact (held.live there).marked p' before deleting kind

theorem Held.setPhase (held : Held w) (name : ℕ) (phase : PlaybookPhase) : Held (w.setPhase name phase) := by
  have names : ∀ p : Playbook, (if p.name = name then { p with phase := phase } else p).name = p.name := by
    intro p
    split <;> rfl
  have more : ∀ other ∈ w.succeeded, other ∈ (w.setPhase name phase).succeeded := by
    intro other member
    dsimp only [World.setPhase]
    split
    · exact List.mem_cons_of_mem _ member
    · exact member
  refine held.onward (held.known.setPhase name phase) ⟨fun _ _ kind => kind, more⟩ rfl rfl
    (fun _ _ _ kept => kept.map names more) fun there p member deleting kind => ?_
  obtain ⟨p', before, rfl⟩ := List.mem_map.mp member
  have marked := (held.live there).marked p' before
  rw [names]
  split at deleting
  · rename_i same
    rw [if_pos same] at kind
    exact more _ (marked deleting kind)
  · rename_i other
    rw [if_neg other] at kind
    exact more _ (marked deleting kind)

theorem Held.vanish (held : Held w) {name : ℕ}
    (deleting : ∀ p ∈ w.playbooks, p.name = name → p.deleting = true)
    (known : Known (w.setPlaybooks (w.playbooks.filter fun p => p.name ≠ name))) :
    Held (w.setPlaybooks (w.playbooks.filter fun p => p.name ≠ name)) := by
  refine held.onward known ⟨fun _ _ kind => kind, fun _ member => member⟩ rfl rfl (fun there other kind kept => ?_)
    fun there p member => (held.live there).marked p (List.mem_filter.mp member).1
  rcases kept with ⟨p, member, same⟩ | done
  · by_cases here : p.name = name
    · -- it was being deleted, so it succeeded
      have kinds := held.known.kinds _ List.mem_cons_self p member
      rw [same, kind] at kinds
      have marked := (held.live there).marked p member (deleting p member here) (Option.some.inj kinds).symm
      exact .inr (same ▸ marked)
    · exact .inl ⟨p, List.mem_filter.mpr ⟨member, by simpa using here⟩, same⟩
  · exact .inr done

theorem Held.createPlaybook (held : Held w) (kind : PlaybookKind) : Held (w.createPlaybook kind) := by
  refine held.onward (held.known.createPlaybook kind) (created_grows w kind) rfl rfl (fun _ name _ kept => ?_)
    fun there p member deleting kind => ?_
  · exact kept.imp (fun ⟨p, member, same⟩ => ⟨p, List.mem_append_left _ member, same⟩) id
  · rcases List.mem_append.mp member with before | new
    · exact (held.live there).marked p before deleting kind
    · cases List.mem_singleton.mp new
      cases deleting

/-- A playbook that was created is recorded. -/
theorem Flight.record (flight : Flight w base now) (set : base.finalizer = true) {name : ℕ} (kept : w.Kept name)
    (kind : PlaybookKind) : Flight w base (now.record name kind) := by
  have bare : base.finalizer = false → (now.record name kind).addNode = base.addNode ∧
      (now.record name kind).deleteNode = base.deleteNode := by
    intro unset
    rw [set] at unset
    cases unset
  cases kind with
  | addNode =>
    exact ⟨flight.addNode, flight.deleteNode, flight.finalizer, flight.deleting, flight.kept, bare, flight.release⟩
  | deleteNode =>
    refine ⟨flight.addNode, flight.deleteNode, flight.finalizer, flight.deleting, fun other same => ?_, bare,
      flight.release⟩
    cases same
    exact kept

theorem Held.flight (held : Held w) {party : Party} (same : w.party = party) (there : w.gone = false) :
    InFlight w party :=
  same ▸ (held.live there).flight

/-- A reconcile that ends early knows what it knew. -/
theorem Party.Asks.flight {party : Party} (asks : party.Asks base now) (flight : InFlight w party) :
    Flight w base now := by
  cases asks with
  | checking => exact flight
  | removal | removalAfter | listing | creating | removing => exact flight.1

theorem Held.flight_createPlaybook {kind : PlaybookKind} (held : Held w) (party : w.party = .creating base now kind)
    (there : w.gone = false) : Flight (w.createPlaybook kind) base now := by
  obtain ⟨-, told⟩ := held.known.memory base now (by rw [party]; rfl)
  exact (held.flight party there).1.onward told ⟨rfl, rfl, rfl, id, created_grows w kind, fun name _ kept =>
    kept.imp (fun ⟨p, member, same⟩ => ⟨p, List.mem_append_left _ member, same⟩) id⟩

theorem Held.step (held : Held w) {act : Act} (fresh : act.fresh) (taken : step w act = some w') : Held w' := by
  have known' := held.known.step taken
  cases taken_of_step taken with
  | reconcile gate party read =>
    cases (fresh : _ = 0)
    refine held.withParty known' fun there => ?_
    obtain ⟨-, rfl⟩ := Versions.read_zero.mp read
    exact (held.live there).begin gate
  | failed fails party => exact held.withParty known' fun there => party.flight (held.live there).flight
  | @checked _ name base now found party got =>
    exact held.withParty known' fun there => (held.flight party there).checked name found
  | @gotAdd _ base now found party got =>
    obtain ⟨told, -⟩ := held.known.memory base now (by rw [party]; rfl)
    have flight := held.flight party
    refine held.withParty known' fun there => ⟨(flight there).1, (flight there).2, ?_⟩
    rintro p rfl
    cases recorded : base.addNode with
    | none =>
      rw [recorded] at got
      cases got
    | some name =>
      rw [recorded] at got
      exact (World.getPlaybook_mem got).1 ▸ told.addNode name recorded
  | @gotDelete _ base now add found party got =>
    cases (fresh : _ = 0)
    obtain ⟨told, -⟩ := held.known.memory base now (by rw [party]; rfl)
    exact held.withParty known' fun there =>
      (held.live there).reconcileDelete held.known there (held.flight party there) told got
  | listed party read =>
    have flight := held.flight party
    refine held.withParty known' fun there => ?_
    split
    · exact flight there
    · exact (flight there).1
  | created party =>
    refine (held.createPlaybook _).withParty known' fun there => ?_
    refine (held.flight_createPlaybook party there).record (held.flight party there).2 (.inl ?_) _
    exact ⟨_, List.mem_append_right _ (List.mem_singleton_self _), rfl⟩
  | createdUnseen party => exact (held.createPlaybook _).withParty known' (held.flight_createPlaybook party)
  | @removed base now name reply party =>
    obtain ⟨-, told⟩ := held.known.memory base now (by rw [party]; rfl)
    have flight := held.flight party
    have deleted := held.deletePlaybook fun there => (flight there).2
    refine deleted.withParty known' fun there => ?_
    have names : ∀ p : Playbook, (if p.name = name then { p with deleting := true } else p).name = p.name := by
      intro p
      split <;> rfl
    exact (flight there).1.onward told ⟨rfl, rfl, rfl, id, ⟨fun _ _ kind => kind, fun _ member => member⟩,
      fun _ _ kept => kept.map names fun _ member => member⟩
  | @patched base now reply party =>
    rcases w.write_cases (base.patchMetadata now) (carried reply) with ⟨same, -⟩ | ⟨there, -, same⟩
    · rw [same] at known' ⊢
      exact held.withParty known' fun _ => trivial
    · rw [same] at known' ⊢
      exact held.patched there (held.flight party there) known'
  | patchedStatus reply party => exact held.patchedStatus (carried reply) known'
  | crashed => exact held.withParty known' fun _ => trivial
  | phase => exact held.setPhase _ _
  | vanished deleting => exact held.vanish deleting known'
  | deleted => exact held.deleted known'
  | withdrawn => exact absurd fresh id
  | collected name gone =>
    refine held.deletePlaybook fun there => ?_
    rw [gone] at there
    cases there

theorem start_held : Held start :=
  ⟨start_known, fun gone => (by cases gone), fun _ => ⟨fun _ => ⟨rfl, rfl⟩, fun _ member => (by cases member),
    fun _ recorded => (by cases recorded), trivial⟩⟩

/-- A machine for which a playbook was recorded is gone only after a playbook that deletes its node succeeded. -/
theorem deleted_before_gone {acts : List Act} (fresh : ∀ act ∈ acts, act.fresh) (ran : run step start acts = some w)
    (gone : w.gone = true) : w.latest.addNode = none ∧ w.latest.deleteNode = none ∨ w.NodeDeleted := by
  have held : Held w := (along_of_forall fresh).invariant
    (fun _ _ _ held fresh taken => held.step fresh taken) start_held ran
  exact held.gone gone

theorem deleted_before_gone_machine :
    afterDeleted.latest.addNode = none ∧ afterDeleted.latest.deleteNode = none ∨ afterDeleted.NodeDeleted :=
  deleted_before_gone (by decide) deleted_run (by decide)

end KubeKey.NodePlaybooks
