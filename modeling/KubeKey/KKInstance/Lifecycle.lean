import KubeKey.KKInstance.Phases
import KubeKey.Go.Goroutine
import KubeKey.Go.Versions

/-!
# The life of a KKInstance

`controllers/kkinstance/kkinstance_controller.go`: a reconcile reads the KKInstance, makes
sure of the finalizer, runs the phases of the distribution in memory and on the host, and
patches what has changed when it returns. A KKInstance with a deletion timestamp is cleaned
instead, and then loses the finalizer. The user may delete the object between any two
requests, a patch may be refused or its answer lost in each of its three parts, and the
controller may end at any time. One reconcile of an object runs at a time.

The reads come from a cache. A run is `fresh` if each of them shows the object as it is
stored; in the other runs a read may show any former version of it.

What the stored object says is so on the host in every run (`stored_shown`), and a phase is
begun only after those before it went through (`phases_in_order`). In the fresh runs a phase
that is stored as done is not begun again (`done_once`), and an object whose host was touched
goes only after the host was cleaned (`cleaned_before_gone`).
-/

namespace KubeKey.Phases

open KubeKey.Go
open KubeKey.Machines (InstanceState Reply)

/-- Where the reconcile is, with the object as it was read and as it is in memory. -/
inductive Party where
  | idle
  /-- `reconcileNormal` sends the finalizer. -/
  | registering (base now : KKInstance)
  /-- `reconcileNormal` is about to run the phases. -/
  | working (base now : KKInstance)
  /-- `reconcileDelete` sends the condition of the cleaning. -/
  | marking (base now : KKInstance)
  /-- `reconcileDelete` is about to clean the host. -/
  | cleaning (base now : KKInstance)
  /-- The deferred `Close`. -/
  | closing (base now : KKInstance)

/-- The object as it was read and as it is in memory. -/
def Party.memory : Party → Option (KKInstance × KKInstance)
  | idle => none
  | registering base now | working base now | marking base now | cleaning base now | closing base now =>
    some (base, now)

instance : Finalized KKInstance where
  deleting := KKInstance.deletionTimestamp
  finalizer := KKInstance.finalizer
  delete o := { o with deletionTimestamp := true }
  deleting_delete _ := rfl
  finalizer_delete _ := rfl

structure World extends Versions KKInstance where
  log : List Entry
  party : Party

/-- The answers to the three requests of a patch. -/
structure PatchReply where
  conditions : Reply
  metadata : Reply
  status : Reply
deriving DecidableEq, Repr

def PatchReply.isOk (reply : PatchReply) : Bool :=
  reply.conditions = .ok && reply.metadata = .ok && reply.status = .ok

/-- The request was carried out. -/
def carried (reply : Reply) : Bool := reply ≠ .refused

def KKInstance.patchConditions (base now latest : KKInstance) : KKInstance :=
  { latest with condition := fun p => merged (base.condition p) (now.condition p) (latest.condition p) }

def KKInstance.patchMetadata (base now latest : KKInstance) : KKInstance :=
  { latest with finalizer := merged base.finalizer now.finalizer latest.finalizer }

def KKInstance.patchStatus (base now latest : KKInstance) : KKInstance :=
  { latest with state := merged base.state now.state latest.state }

/-- `PatchObject`. -/
def patchVersions (v : Versions KKInstance) (base now : KKInstance) (reply : PatchReply) : Versions KKInstance :=
  ((v.write (base.patchConditions now) (carried reply.conditions)).write (base.patchMetadata now)
    (carried reply.metadata)).write (base.patchStatus now) (carried reply.status)

def World.patchObject (w : World) (base now : KKInstance) (reply : PatchReply) : World :=
  { w with toVersions := patchVersions w.toVersions base now reply }

/-- The beginning of `reconcileNormal` and of `reconcileDelete`. -/
def begin (o : KKInstance) (paused : Bool) : Party :=
  if o.deletionTimestamp then
    if paused then .closing o o
    else
      match o.condition .deletingBootstrap with
      | none => .marking o (o.markFalse .deletingBootstrap "Cleaning" "Info" "Cleaning the node before deletion")
      | some _ => .marking o o
  else if o.failed then .closing o o
  else if o.finalizer then .working o o
  else .registering o { o with finalizer := true }

/-- The phases of `reconcileNormal` and the state after them; `upgrading` says that the in-place upgrade follows. -/
def reconcilePhases (distribution : String) (svc : Services) (upgrading : Bool) (o : KKInstance) (log : List Entry) :
    Report :=
  let report := runPhases svc (phaseFactory distribution) o log
  match report.result with
  | .ok => { report with object := report.object.setState (if upgrading then .inPlaceUpgrading else .running) }
  | _ => report

/-- `reconcileDelete` after its patch. -/
def reconcileClean (svc : Services) (o : KKInstance) (log : List Entry) : Report :=
  let report := reconcileDeletingBootstrap svc o log
  match report.result with
  | .ok =>
    let object := (report.object.markTrue .deletingBootstrap).setState .cleaned
    { report with object := { object with finalizer := false } }
  | _ => report

/-- The memory of a controller that ends is lost. -/
def World.report (w : World) (base : KKInstance) (report : Report) : World :=
  { w with log := report.log, party := if report.result = .crashed then .idle else .closing base report.object }

/-- What happens next: a step of the reconcile with what answers it, or one of the others. -/
inductive Act where
  /-- The reconcile gets the object; `paused` is the annotation. -/
  | reconcile (age : ℕ) (paused : Bool)
  | patch (reply : PatchReply)
  | work (distribution : String) (svc : Services) (upgrading : Bool)
  | clean (svc : Services)
  | close (reply : PatchReply)
  /-- The controller ends. -/
  | crash
  /-- The user deletes the object. -/
  | delete

def step (w : World) : Act → Option World
  | .reconcile age paused =>
    match w.party, w.read age with
    | .idle, some o => some { w with party := begin o paused }
    | _, _ => none
  | .patch reply =>
    match w.party with
    | .registering base now =>
      let w' := w.patchObject base now reply
      some { w' with party := if reply.isOk && !w'.gone then .working base now else .closing base now }
    | .marking base now =>
      let w' := w.patchObject base now reply
      some { w' with party := if reply.isOk && !w'.gone then .cleaning base now else .closing base now }
    | _ => none
  | .work distribution svc upgrading =>
    match w.party with
    | .working base now => some (w.report base (reconcilePhases distribution svc upgrading now w.log))
    | _ => none
  | .clean svc =>
    match w.party with
    | .cleaning base now => some (w.report base (reconcileClean svc now w.log))
    | _ => none
  | .close reply =>
    match w.party with
    | .closing base now => some { w.patchObject base now reply with party := .idle }
    | _ => none
  | .crash => some { w with party := .idle }
  | .delete => some { w with toVersions := w.write delete true }

/-- What a step does, by what it finds. -/
inductive Taken (w : World) : Act → World → Prop where
  | reconcile {age : ℕ} {o : KKInstance} (paused : Bool) (party : w.party = .idle) (read : w.read age = some o) :
    Taken w (.reconcile age paused) { w with party := begin o paused }
  | registered {base now : KKInstance} (reply : PatchReply) (party : w.party = .registering base now) :
    Taken w (.patch reply) { w.patchObject base now reply with
      party := if reply.isOk && !(w.patchObject base now reply).gone then .working base now else .closing base now }
  | marked {base now : KKInstance} (reply : PatchReply) (party : w.party = .marking base now) :
    Taken w (.patch reply) { w.patchObject base now reply with
      party := if reply.isOk && !(w.patchObject base now reply).gone then .cleaning base now else .closing base now }
  | worked {base now : KKInstance} (distribution : String) (svc : Services) (upgrading : Bool)
      (party : w.party = .working base now) :
    Taken w (.work distribution svc upgrading) (w.report base (reconcilePhases distribution svc upgrading now w.log))
  | cleaned {base now : KKInstance} (svc : Services) (party : w.party = .cleaning base now) :
    Taken w (.clean svc) (w.report base (reconcileClean svc now w.log))
  | closed {base now : KKInstance} (reply : PatchReply) (party : w.party = .closing base now) :
    Taken w (.close reply) { w.patchObject base now reply with party := .idle }
  | crashed : Taken w .crash { w with party := .idle }
  | deleted : Taken w .delete { w with toVersions := w.write delete true }

theorem taken_of_step {w w' : World} {act : Act} (taken : step w act = some w') : Taken w act w' := by
  cases act with
  | reconcile age paused =>
    simp only [step] at taken
    split at taken <;> cases taken
    rename_i o party read
    exact .reconcile paused party read
  | patch reply =>
    simp only [step] at taken
    split at taken <;> cases taken <;> rename_i base now party
    · exact .registered reply party
    · exact .marked reply party
  | work distribution svc upgrading =>
    simp only [step] at taken
    split at taken <;> cases taken
    rename_i base now party
    exact .worked distribution svc upgrading party
  | clean svc =>
    simp only [step] at taken
    split at taken <;> cases taken
    rename_i base now party
    exact .cleaned svc party
  | close reply =>
    simp only [step] at taken
    split at taken <;> cases taken
    rename_i base now party
    exact .closed reply party
  | crash =>
    cases taken
    exact .crashed
  | delete =>
    cases taken
    exact .deleted

/-- The KKMachine controller has created the KKInstance. -/
def created : World := ⟨.new ⟨fun _ => none, .new, false, false, false⟩ rfl, [], .idle⟩

/-- Reads show the stored object. -/
def Act.fresh : Act → Prop
  | .reconcile age _ => age = 0
  | _ => True

/-! ## Order and what is shown -/

/-- An entry of a phase comes after complete runs of all phases before it, in a distribution of `D`. -/
def Ordered (D : List String) (log : List Entry) : Prop :=
  ∀ before e after, log = before ++ e :: after → e.action.phase ≠ .deletingBootstrap →
    ∃ d ∈ D, ∃ past future, phaseFactory d = past ++ e.action.phase :: future ∧ ∀ q ∈ past, Complete q before

/-- What the object says of the host is so. -/
structure Shown (D : List String) (log : List Entry) (o : KKInstance) : Prop where
  conditions : ∀ p, o.isTrue p → Complete p log
  running : o.state = .running ∨ o.state = .inPlaceUpgrading → ∃ d ∈ D, ∀ p ∈ phaseFactory d, Complete p log
  cleaned : o.state = .cleaned → Complete .deletingBootstrap log

variable {D : List String} {log new : List Entry} {o base now : KKInstance} {w w' : World}

theorem Shown.append (shown : Shown D log o) (new : List Entry) : Shown D (log ++ new) o := by
  refine ⟨fun p isTrue => (shown.conditions p isTrue).append new, fun running => ?_,
    fun cleaned => (shown.cleaned cleaned).append new⟩
  obtain ⟨d, inside, all⟩ := shown.running running
  exact ⟨d, inside, fun p among => (all p among).append new⟩

theorem Ordered.append {p : Phase} (ordered : Ordered D log) (of : ∀ e ∈ new, e.action.phase = p)
    (past : p ≠ .deletingBootstrap →
      ∃ d ∈ D, ∃ past future, phaseFactory d = past ++ p :: future ∧ ∀ q ∈ past, Complete q log) :
    Ordered D (log ++ new) := by
  have here : ∀ before e after, log ++ new = log ++ before ++ e :: after → e ∈ new →
      e.action.phase ≠ .deletingBootstrap → ∃ d ∈ D, ∃ past future,
        phaseFactory d = past ++ e.action.phase :: future ∧ ∀ q ∈ past, Complete q (log ++ before) := by
    intro before e after _ inside provision
    rw [of e inside] at provision ⊢
    obtain ⟨d, among, past, future, split, all⟩ := past provision
    exact ⟨d, among, past, future, split, fun q member => (all q member).append before⟩
  intro before e after split provision
  rcases List.append_eq_append_iff.mp split with ⟨more, rfl, rest⟩ | ⟨more, rfl, rest⟩
  · exact here more e after split (by simp [rest]) provision
  · cases more with
    | nil =>
      have := here [] e after (by simpa using split) (by simp only [List.nil_append] at rest; simp [← rest])
      simpa using this provision
    | cons first more =>
      obtain ⟨rfl, -⟩ : e = first ∧ after = more ++ new := by simpa using rest
      exact ordered before e more rfl provision

/-- What the loop over the phases does; `rest` are the phases of the distribution that are left. -/
structure Worked (D : List String) (rest : List Phase) (o : KKInstance) (log : List Entry) (report : Report) :
    Prop where
  ordered : Ordered D report.log
  conditions : report.result ≠ .crashed → ∀ p, report.object.isTrue p → Complete p report.log
  complete : report.result = .ok → ∀ p ∈ rest, Complete p report.log
  grown : ∃ new, report.log = log ++ new
  state : report.object.state = o.state ∨ report.object.state = .bootstrapping ∨ report.object.state = .cleaning

theorem runPhases_worked {d : String} (inside : d ∈ D) (svc : Services) {past rest : List Phase}
    (all : phaseFactory d = past ++ rest) (ordered : Ordered D log) (conditions : ∀ p, o.isTrue p → Complete p log)
    (complete : ∀ p ∈ past, Complete p log) : Worked D rest o log (runPhases svc rest o log) := by
  induction rest generalizing past o log with
  | nil =>
    exact ⟨ordered, fun _ => conditions, fun _ p member => absurd member List.not_mem_nil,
      ⟨[], by simp [runPhases]⟩, .inl rfl⟩
  | cons p rest ih =>
    have reconciled := reconcile_reconciled p svc o log
    simp only [runPhases]
    generalize p.reconcile svc o log = report at reconciled ⊢
    obtain ⟨new, grown, of, through, skipped⟩ := reconciled.grown
    -- the entries of this phase are in order, and what the object then says is so
    have ordered' : Ordered D report.log :=
      grown ▸ ordered.append of fun _ => ⟨d, inside, past, rest, all, complete⟩
    have here : report.result = .ok → Complete p report.log := by
      intro ok
      rw [grown]
      rcases through ok with isRun | ⟨-, -, isTrue⟩
      · exact isRun.complete log
      · exact (conditions p isTrue).append new
    have conditions' : report.result ≠ .crashed → ∀ q, report.object.isTrue q → Complete q report.log := by
      intro returned q isTrue
      by_cases same : q = p
      · subst same
        rw [reconciled.condition returned] at isTrue
        exact here (of_decide_eq_true isTrue)
      · rw [reconciled.isTrue same] at isTrue
        exact grown ▸ (conditions q isTrue).append new
    have stops : report.result ≠ .ok → Worked D (p :: rest) o log report := fun failed =>
      ⟨ordered', conditions', fun ok => absurd ok failed, ⟨new, grown⟩, reconciled.state⟩
    cases ended : report.result with
    | ok =>
      have next : phaseFactory d = (past ++ [p]) ++ rest := by simp [all]
      have later := ih next ordered' (conditions' (by simp [ended])) (by
        intro q member
        rcases List.mem_append.mp member with member | member
        · exact grown ▸ (complete q member).append new
        · rw [List.mem_singleton.mp member]
          exact here ended)
      obtain ⟨more, grown'⟩ := later.grown
      refine ⟨later.ordered, later.conditions, fun ok q member => ?_, ⟨new ++ more, ?_⟩, ?_⟩
      · rcases List.mem_cons.mp member with rfl | member
        · exact grown' ▸ (here ended).append more
        · exact later.complete ok q member
      · rw [grown', grown, List.append_assoc]
      · rcases later.state with same | other
        · rw [same]
          exact reconciled.state
        · exact .inr other
    | error message => exact stops (by simp [ended])
    | crashed => exact stops (by simp [ended])

/-- The phases are in order, and what any version of the object says, stored or in memory, is so. -/
structure Sound (D : List String) (w : World) : Prop where
  ordered : Ordered D w.log
  stored : w.All (Shown D w.log)
  memory : ∀ m ∈ w.party.memory, Shown D w.log m.2

/-- A patch stores in each field what was there or what is in memory. -/
theorem Sound.patchObject (sound : Sound D w) (shown : Shown D w.log now) (reply : PatchReply) :
    Sound D (w.patchObject base now reply) := by
  refine ⟨sound.ordered, ?_, sound.memory⟩
  refine ((sound.stored.write (fun latest => ⟨fun p isTrue => ?_, latest.running, latest.cleaned⟩) _).write
    (fun latest => ⟨latest.conditions, latest.running, latest.cleaned⟩) _).write (fun latest => ?_) _
  · simp only [KKInstance.isTrue, KKInstance.patchConditions] at isTrue
    rcases merged_cases (base.condition p) (now.condition p) (w.latest.condition p) with same | same
    · exact latest.conditions p (by rw [KKInstance.isTrue, ← same]; exact isTrue)
    · exact shown.conditions p (by rw [KKInstance.isTrue, ← same]; exact isTrue)
  · have either := merged_cases base.state now.state
      ((w.write (base.patchConditions now) (carried reply.conditions)).write (base.patchMetadata now)
        (carried reply.metadata)).latest.state
    rcases either with same | same
    · refine ⟨latest.conditions, fun running => ?_, fun cleaned => ?_⟩
      · exact latest.running (by rw [← same]; exact running)
      · exact latest.cleaned (by rw [← same]; exact cleaned)
    · refine ⟨latest.conditions, fun running => ?_, fun cleaned => ?_⟩
      · exact shown.running (by rw [← same]; exact running)
      · exact shown.cleaned (by rw [← same]; exact cleaned)

/-- The party goes on with an object that says what is so. -/
theorem Sound.withParty (sound : Sound D w) {party : Party} (memory : ∀ m ∈ party.memory, Shown D w.log m.2) :
    Sound D { w with party := party } :=
  ⟨sound.ordered, sound.stored, memory⟩

theorem begin_memory {paused : Bool} {m : KKInstance × KKInstance} (member : m ∈ (begin o paused).memory) :
    m.2.state = o.state ∧ ∀ p, m.2.isTrue p → o.isTrue p := by
  unfold begin at member
  split at member
  · split at member
    · cases member
      exact ⟨rfl, fun p => id⟩
    · split at member
      · cases member
        refine ⟨rfl, fun p isTrue => ?_⟩
        simp only [KKInstance.markFalse_isTrue, Bool.and_eq_true] at isTrue
        exact isTrue.2
      · cases member
        exact ⟨rfl, fun p => id⟩
  · split at member
    · cases member
      exact ⟨rfl, fun p => id⟩
    · split at member <;> cases member <;> exact ⟨rfl, fun p => id⟩

/-- What the host was made to do and what the object in memory then says. -/
theorem Sound.report (sound : Sound D w) {report : Report} (ordered : Ordered D report.log)
    (grown : ∃ new, report.log = w.log ++ new) (shown : report.result ≠ .crashed → Shown D report.log report.object) :
    Sound D (w.report base report) := by
  obtain ⟨new, added⟩ := grown
  refine ⟨ordered, ?_, fun m member => ?_⟩
  · exact (show (w.report base report).log = _ from added) ▸ sound.stored.mono fun o shown => shown.append new
  · by_cases crashed : report.result = .crashed
    · simp [World.report, crashed, Party.memory] at member
    · simp only [World.report, if_neg crashed, Party.memory, Option.mem_def, Option.some.injEq] at member
      rw [← member]
      exact shown crashed

/-- Phases leave the state as it is, or set one that says nothing of the host. -/
theorem Shown.next {log' : List Entry} {o' : KKInstance} (shown : Shown D log o) (grown : log' = log ++ new)
    (conditions : ∀ p, o'.isTrue p → Complete p log')
    (state : o'.state = o.state ∨ o'.state = .bootstrapping ∨ o'.state = .cleaning) : Shown D log' o' := by
  refine ⟨conditions, fun running => ?_, fun cleaned => ?_⟩
  · rcases state with same | same | same <;> rw [same] at running
    · exact grown ▸ (shown.append new).running running
    · rcases running with running | running <;> cases running
    · rcases running with running | running <;> cases running
  · rcases state with same | same | same <;> rw [same] at cleaned
    · exact grown ▸ (shown.append new).cleaned cleaned
    · cases cleaned
    · cases cleaned

/-- The phases of `reconcileNormal` keep the order, and the object in memory says what is so. -/
theorem reconcilePhases_sound {d : String} (inside : d ∈ D) (svc : Services) (upgrading : Bool)
    (ordered : Ordered D log) (shown : Shown D log o) :
    let report := reconcilePhases d svc upgrading o log
    Ordered D report.log ∧ (∃ new, report.log = log ++ new) ∧
      (report.result ≠ .crashed → Shown D report.log report.object) := by
  have worked : Worked D (phaseFactory d) o log (runPhases svc (phaseFactory d) o log) :=
    runPhases_worked inside svc (List.nil_append _).symm ordered shown.conditions (by simp)
  simp only [reconcilePhases]
  generalize runPhases svc (phaseFactory d) o log = report at worked
  obtain ⟨new, grown⟩ := worked.grown
  cases ended : report.result with
  | ok =>
    refine ⟨worked.ordered, ⟨new, grown⟩, fun returned => ⟨worked.conditions (by simp [ended]), fun _ => ?_, ?_⟩⟩
    · exact ⟨d, inside, worked.complete ended⟩
    · cases upgrading <;> intro cleaned <;> cases cleaned
  | error message =>
    exact ⟨worked.ordered, ⟨new, grown⟩, fun returned => shown.next grown (worked.conditions returned) worked.state⟩
  | crashed => exact ⟨worked.ordered, ⟨new, grown⟩, fun returned => absurd ended returned⟩

/-- The same of the cleaning. -/
theorem reconcileClean_sound (svc : Services) (ordered : Ordered D log) (shown : Shown D log o) :
    let report := reconcileClean svc o log
    Ordered D report.log ∧ (∃ new, report.log = log ++ new) ∧
      (report.result ≠ .crashed → Shown D report.log report.object) := by
  have reconciled := reconcile_reconciled .deletingBootstrap svc o log
  simp only [reconcileClean]
  simp only [Phase.reconcile] at reconciled
  generalize reconcileDeletingBootstrap svc o log = report at reconciled
  obtain ⟨new, grown, of, through, -⟩ := reconciled.grown
  have ordered' : Ordered D report.log := grown ▸ ordered.append of fun provision => absurd rfl provision
  have complete : report.result = .ok → Complete .deletingBootstrap report.log := by
    intro ok
    rcases through ok with isRun | ⟨-, provision, -⟩
    · exact grown ▸ isRun.complete log
    · exact absurd rfl provision
  have conditions : report.result ≠ .crashed → ∀ p, report.object.isTrue p → Complete p report.log := by
    intro returned p isTrue
    by_cases same : p = .deletingBootstrap
    · subst same
      rw [reconciled.condition returned] at isTrue
      exact complete (of_decide_eq_true isTrue)
    · rw [reconciled.isTrue same] at isTrue
      exact grown ▸ (shown.conditions p isTrue).append new
  cases ended : report.result with
  | ok =>
    refine ⟨ordered', ⟨new, grown⟩, fun _ => ⟨fun p isTrue => ?_, fun running => ?_, fun _ => complete ended⟩⟩
    · have either : p = .deletingBootstrap ∨ report.object.isTrue p = true := by
        have := KKInstance.markTrue_isTrue report.object .deletingBootstrap p
        simpa [KKInstance.isTrue, KKInstance.setState] using this.symm.trans isTrue
      rcases either with rfl | isTrue
      · exact complete ended
      · exact conditions (by simp [ended]) p isTrue
    · rcases running with running | running <;> cases running
  | error message =>
    exact ⟨ordered', ⟨new, grown⟩, fun returned => shown.next grown (conditions returned) reconciled.state⟩
  | crashed => exact ⟨ordered', ⟨new, grown⟩, fun returned => absurd ended returned⟩

/-- The distribution of the KKCluster is one of `D` when phases are run. -/
def Act.within (D : List String) : Act → Prop
  | .work distribution _ _ => distribution ∈ D
  | _ => True

theorem Sound.step {act : Act} (sound : Sound D w) (within : act.within D) (taken : step w act = some w') :
    Sound D w' := by
  cases taken_of_step taken with
  | reconcile paused party read =>
    have shown := sound.stored.read read
    refine sound.withParty fun m member => ?_
    obtain ⟨state, isTrue⟩ := begin_memory member
    exact ⟨fun p now => shown.conditions p (isTrue p now), fun running => shown.running (state ▸ running),
      fun cleaned => shown.cleaned (state ▸ cleaned)⟩
  | @registered base now reply party | @marked base now reply party =>
    have shown := sound.memory (base, now) (by simp [party, Party.memory])
    refine (sound.patchObject shown reply).withParty fun m member => ?_
    have same : m = (base, now) := by
      split at member <;> exact (Option.some.inj member).symm
    rw [same]
    exact shown
  | @worked base now distribution svc upgrading party =>
    have shown := sound.memory (base, now) (by simp [party, Party.memory])
    obtain ⟨ordered, grown, shown⟩ := reconcilePhases_sound within svc upgrading sound.ordered shown
    exact sound.report ordered grown shown
  | @cleaned base now svc party =>
    have shown := sound.memory (base, now) (by simp [party, Party.memory])
    obtain ⟨ordered, grown, shown⟩ := reconcileClean_sound svc sound.ordered shown
    exact sound.report ordered grown shown
  | @closed base now reply party =>
    have shown := sound.memory (base, now) (by simp [party, Party.memory])
    exact (sound.patchObject shown reply).withParty fun m member => by cases member
  | crashed => exact sound.withParty fun m member => by cases member
  | deleted =>
    refine ⟨sound.ordered, sound.stored.write (fun shown => ?_) true, sound.memory⟩
    exact ⟨shown.conditions, shown.running, shown.cleaned⟩

/-- The last thing done on the host was to clean it, from the first action to the last. -/
def Cleaned (log : List Entry) : Prop :=
  ∃ before run, log = before ++ run ∧ IsRun .deletingBootstrap run

section Patched

variable {v v' : Versions KKInstance}

/-- What a patch does to the stored object. -/
structure Patched (base now : KKInstance) (reply : PatchReply) (v v' : Versions KKInstance) : Prop where
  timestamp : v'.latest.deletionTimestamp = v.latest.deletionTimestamp
  condition : ∀ p, v'.latest.condition p = v.latest.condition p ∨ v'.latest.condition p = now.condition p
  unchanged : ∀ p, now.condition p = base.condition p → v'.latest.condition p = v.latest.condition p
  /-- The object goes by the loss of its finalizer only. -/
  there : v'.gone = v.gone ∧ (v'.latest.finalizer = true ∨ v'.latest.finalizer = v.latest.finalizer ∨
      now.finalizer = false ∧ base.finalizer = true ∧ v.latest.deletionTimestamp = false) ∨
    v'.gone = true ∧ now.finalizer = false ∧ base.finalizer = true
  registered : reply.isOk = true → v'.gone = false → now.finalizer = true → base.finalizer = false →
    v'.latest.finalizer = true

theorem eq_true_of_ne_false {a b : Bool} (different : a ≠ b) (missing : a = false) : b = true := by
  cases b with
  | false => exact absurd missing different
  | true => rfl

/-- The request for the finalizer alone. -/
theorem patchMetadata_patched (v : Versions KKInstance) (base now : KKInstance) (reply : PatchReply) :
    Patched base now reply v (v.write (base.patchMetadata now) (carried reply.metadata)) := by
  rcases v.write_cases (base.patchMetadata now) (carried reply.metadata) with ⟨same, refused⟩ | ⟨there, -, same⟩ <;>
    rw [same]
  · refine ⟨rfl, fun p => .inl rfl, fun p _ => rfl, .inl ⟨rfl, .inr (.inl rfl)⟩, fun ok there _ _ => ?_⟩
    rcases refused with gone | refused
    · rw [gone] at there
      cases there
    · have refused' : reply.metadata = .refused := by simpa [carried] using refused
      simp [PatchReply.isOk, refused'] at ok
  rcases v.store_cases (base.patchMetadata now v.latest) with ⟨stored, marked, missing⟩ | ⟨kept, stored⟩ <;>
    rw [stored]
  · -- the finalizer that kept the object is taken from it
    have removed : now.finalizer = false ∧ base.finalizer = true := by
      have before : v.latest.finalizer = true := v.held there marked
      simp only [finalizer, KKInstance.patchMetadata, merged] at missing
      split at missing
      · rw [before] at missing
        cases missing
      · rename_i different
        exact ⟨missing, eq_true_of_ne_false different missing⟩
    refine ⟨rfl, fun p => .inl rfl, fun p _ => rfl, .inr ⟨rfl, removed⟩, fun _ gone => ?_⟩
    cases gone
  · refine ⟨rfl, fun p => .inl rfl, fun p _ => rfl, .inl ⟨rfl, ?_⟩, fun _ _ set unset => ?_⟩
    · simp only [finalizer, deleting, KKInstance.patchMetadata, merged] at kept ⊢
      by_cases equal : now.finalizer = base.finalizer
      · exact .inr (.inl (if_pos equal))
      · rw [if_neg equal] at kept ⊢
        cases set : now.finalizer with
        | true => exact .inl rfl
        | false =>
          refine .inr (.inr ⟨rfl, eq_true_of_ne_false equal set, Bool.eq_false_iff.mpr fun marked => ?_⟩)
          rw [set] at kept
          cases kept marked
    · simp [KKInstance.patchMetadata, merged, set, unset]

theorem patchVersions_patched (v : Versions KKInstance) (base now : KKInstance) (reply : PatchReply) :
    Patched base now reply v (patchVersions v base now reply) := by
  unfold patchVersions
  obtain ⟨aside, latest⟩ := v.write_aside (base.patchConditions now) rfl rfl (carried reply.conditions)
  generalize v.write (base.patchConditions now) (carried reply.conditions) = first at aside latest
  have metadata := patchMetadata_patched first base now reply
  generalize first.write (base.patchMetadata now) (carried reply.metadata) = second at metadata
  obtain ⟨aside', latest'⟩ := second.write_aside (base.patchStatus now) rfl rfl (carried reply.status)
  generalize second.write (base.patchStatus now) (carried reply.status) = third at aside' latest'
  have timestamp : first.latest.deletionTimestamp = v.latest.deletionTimestamp := aside.deleting
  have timestamp' : third.latest.deletionTimestamp = second.latest.deletionTimestamp := aside'.deleting
  have held : first.latest.finalizer = v.latest.finalizer := aside.finalizer
  have held' : third.latest.finalizer = second.latest.finalizer := aside'.finalizer
  -- only the first request writes conditions
  have condition : ∀ p, third.latest.condition p = second.latest.condition p := by
    intro p
    rcases latest' with same | same <;> rw [same]
    rfl
  refine ⟨(timestamp'.trans metadata.timestamp).trans timestamp, fun p => ?_, fun p equal => ?_, ?_, fun ok there => ?_⟩
  · rw [condition]
    rcases metadata.condition p with same | same
    · rw [same]
      rcases latest with same | same <;> rw [same]
      · exact .inl rfl
      · exact merged_cases _ _ _
    · exact .inr same
  · rw [condition, metadata.unchanged p equal]
    rcases latest with same | same <;> rw [same]
    exact merged_unchanged equal
  · rw [aside'.gone, held', ← aside.gone, ← held, ← timestamp]
    exact metadata.there
  · rw [aside'.gone] at there
    rw [held']
    exact metadata.registered ok there

end Patched

/-- Two objects have the same conditions, but for the one of the cleaning. -/
def Agree (a b : KKInstance) : Prop :=
  ∀ p ≠ .deletingBootstrap, a.condition p = b.condition p

theorem Agree.isTrue {a b : KKInstance} (agree : Agree a b) {p : Phase} (provision : p ≠ .deletingBootstrap) :
    a.isTrue p = b.isTrue p := by
  rw [KKInstance.isTrue, KKInstance.isTrue, agree p provision]

/-- How the object in memory stands to the stored one, at each place of the reconcile. -/
def InFlight (w : World) : Party → Prop
  | .idle => True
  | .registering base now =>
    now.finalizer = true ∧ base.finalizer = false ∧ Agree now base ∧ Agree w.latest base
  | .working base now =>
    w.gone = false ∧ w.latest.finalizer = true ∧ now.finalizer = true ∧ Agree now base ∧ Agree w.latest base
  | .marking base now | .cleaning base now =>
    w.gone = false ∧ w.latest.deletionTimestamp = true ∧ now.finalizer = true ∧ Agree now base ∧ Agree w.latest base
  | .closing base now =>
    (∀ p ≠ .deletingBootstrap, base.isTrue p → now.isTrue p) ∧ Agree w.latest base ∧
      (now.finalizer = false → base.finalizer = true →
        Cleaned w.log ∧ (w.gone = false → w.latest.deletionTimestamp = true))

theorem InFlight.withParty (party party' : Party) : InFlight { w with party := party' } party ↔ InFlight w party := by
  cases party <;> exact Iff.rfl

/-- What the finalizer is for. -/
structure Held (w : World) : Prop where
  host : w.log ≠ [] → w.gone = false ∧ w.latest.finalizer = true ∨ w.gone = true ∧ Cleaned w.log
  inFlight : InFlight w w.party

theorem created_held : Held created := ⟨fun touched => absurd rfl touched, trivial⟩

/-- A true condition of the stored object is true in memory. -/
theorem Held.memory (held : Held w) {p : Phase} (provision : p ≠ .deletingBootstrap) (isTrue : w.latest.isTrue p) :
    ∀ m ∈ w.party.memory, m.2.isTrue p := by
  intro m member
  have inFlight := held.inFlight
  have agreed : ∀ {base now : KKInstance}, Agree now base → Agree w.latest base → now.isTrue p := by
    intro base now agree agree'
    rw [agree.isTrue provision, ← agree'.isTrue provision]
    exact isTrue
  cases party : w.party <;> rw [party] at member inFlight <;> cases member
  · exact agreed inFlight.2.2.1 inFlight.2.2.2
  · exact agreed inFlight.2.2.2.1 inFlight.2.2.2.2
  · exact agreed inFlight.2.2.2.1 inFlight.2.2.2.2
  · exact agreed inFlight.2.2.2.1 inFlight.2.2.2.2
  · exact inFlight.1 p provision (by rw [← inFlight.2.1.isTrue provision]; exact isTrue)

/-- A patch that takes the finalizer only from a cleaned host. -/
theorem Held.patched {reply : PatchReply} {party : Party} (held : Held w)
    (removes : now.finalizer = false → base.finalizer = true →
      Cleaned w.log ∧ (w.gone = false → w.latest.deletionTimestamp = true))
    (inFlight : ∀ w', w' = w.patchObject base now reply → Patched base now reply w.toVersions w'.toVersions →
      InFlight w' party) : Held { w.patchObject base now reply with party := party } := by
  have patched := patchVersions_patched w.toVersions base now reply
  refine ⟨fun touched => ?_, (InFlight.withParty _ _).mpr (inFlight _ rfl patched)⟩
  rcases patched.there with ⟨gone, kept⟩ | ⟨gone, unset, set⟩
  · rcases held.host touched with ⟨there, finalizer⟩ | cleaned
    · refine .inl ⟨gone.trans there, ?_⟩
      rcases kept with set | same | ⟨unset, set, alive⟩
      · exact set
      · exact same.trans finalizer
      · rw [(removes unset set).2 there] at alive
        cases alive
    · exact .inr ⟨gone.trans cleaned.1, cleaned.2⟩
  · exact .inr ⟨gone, (removes unset set).1⟩

theorem begin_inFlight (there : w.gone = false) (paused : Bool) :
    InFlight w (begin w.latest paused) := by
  unfold begin
  split
  · rename_i marked
    split
    · exact ⟨fun _ _ => id, fun _ _ => rfl, fun unset set => absurd (unset.symm.trans set) (by decide)⟩
    · have held : w.latest.finalizer = true := w.held there marked
      split
      · refine ⟨there, marked, held, fun p provision => ?_, fun _ _ => rfl⟩
        exact if_neg provision
      · exact ⟨there, marked, held, fun _ _ => rfl, fun _ _ => rfl⟩
  · split
    · exact ⟨fun _ _ => id, fun _ _ => rfl, fun unset set => absurd (unset.symm.trans set) (by decide)⟩
    · split
      · rename_i finalizer
        exact ⟨there, finalizer, finalizer, fun _ _ => rfl, fun _ _ => rfl⟩
      · rename_i finalizer
        exact ⟨rfl, Bool.eq_false_iff.mpr finalizer, fun _ _ => rfl, fun _ _ => rfl⟩

theorem Patched.agree {v v' : Versions KKInstance} {reply : PatchReply} (patched : Patched base now reply v v')
    (agree : Agree now base) (agree' : Agree v.latest base) : Agree v'.latest base := by
  intro p provision
  rw [patched.unchanged p (agree p provision)]
  exact agree' p provision

/-- The close of a reconcile whose object still has its finalizer. -/
theorem InFlight.closing (kept : ∀ p ≠ .deletingBootstrap, base.isTrue p → now.isTrue p)
    (agree : Agree w.latest base) (finalizer : now.finalizer = true) : InFlight w (.closing base now) :=
  ⟨kept, agree, fun unset => by rw [finalizer] at unset; cases unset⟩

theorem Agree.kept (agree : Agree now base) : ∀ p ≠ .deletingBootstrap, base.isTrue p → now.isTrue p := by
  intro p provision isTrue
  rw [agree.isTrue provision]
  exact isTrue

theorem Held.report (there : w.gone = false) (finalizer : w.latest.finalizer = true) {report : Report}
    (inFlight : report.result ≠ .crashed →
      InFlight { w with log := report.log, party := .idle } (.closing base report.object)) :
    Held (w.report base report) := by
  refine ⟨fun _ => .inl ⟨there, finalizer⟩, ?_⟩
  by_cases crashed : report.result = .crashed
  · simp only [World.report, if_pos crashed]
    trivial
  · simp only [World.report, if_neg crashed]
    exact inFlight crashed

/-- A condition that is true stays so, and nothing is done for its phase. -/
theorem runPhases_kept (svc : Services) (phases : List Phase) (o : KKInstance) (log : List Entry) :
    let report := runPhases svc phases o log
    report.object.finalizer = o.finalizer ∧ ∃ new, report.log = log ++ new ∧
      ∀ p ≠ .deletingBootstrap, o.isTrue p → (∀ e ∈ new, e.action.phase ≠ p) ∧ report.object.isTrue p := by
  induction phases generalizing o log with
  | nil => exact ⟨rfl, [], by simp [runPhases], fun p _ isTrue => ⟨by simp, isTrue⟩⟩
  | cons p rest ih =>
    have reconciled := reconcile_reconciled p svc o log
    simp only [runPhases]
    generalize p.reconcile svc o log = report at reconciled ⊢
    obtain ⟨new, grown, of, -, skipped⟩ := reconciled.grown
    have kept : ∀ q ≠ .deletingBootstrap, o.isTrue q →
        (∀ e ∈ new, e.action.phase ≠ q) ∧ report.object.isTrue q := by
      intro q provision isTrue
      by_cases same : q = p
      · subst same
        obtain ⟨rfl, ok⟩ := skipped provision isTrue
        refine ⟨by simp, ?_⟩
        rw [reconciled.condition (by simp [ok]), ok]
        rfl
      · refine ⟨fun e member phase => same (phase.symm.trans (of e member)), ?_⟩
        rw [reconciled.isTrue same]
        exact isTrue
    cases report.result with
    | ok =>
      obtain ⟨finalizer, more, grown', kept'⟩ := ih report.object report.log
      refine ⟨finalizer.trans reconciled.finalizer, new ++ more, ?_, fun q provision isTrue => ?_⟩
      · rw [grown', grown, List.append_assoc]
      · have first := kept q provision isTrue
        have second := kept' q provision first.2
        refine ⟨fun e member => ?_, second.2⟩
        exact (List.mem_append.mp member).elim (first.1 e) (second.1 e)
    | error message => exact ⟨reconciled.finalizer, new, grown, kept⟩
    | crashed => exact ⟨reconciled.finalizer, new, grown, kept⟩

theorem reconcilePhases_kept (d : String) (svc : Services) (upgrading : Bool) (o : KKInstance) (log : List Entry) :
    let report := reconcilePhases d svc upgrading o log
    report.object.finalizer = o.finalizer ∧ ∃ new, report.log = log ++ new ∧
      ∀ p ≠ .deletingBootstrap, o.isTrue p → (∀ e ∈ new, e.action.phase ≠ p) ∧ report.object.isTrue p := by
  obtain ⟨finalizer, grown⟩ := runPhases_kept svc (phaseFactory d) o log
  simp only [reconcilePhases]
  split
  · exact ⟨finalizer, grown⟩
  · exact ⟨finalizer, grown⟩

/-- What the cleaning leaves in memory. -/
theorem reconcileClean_kept (svc : Services) (o : KKInstance) (log : List Entry) :
    let report := reconcileClean svc o log
    (∃ new, report.log = log ++ new ∧ ∀ e ∈ new, e.action.phase = .deletingBootstrap) ∧
      (∀ p ≠ .deletingBootstrap, o.isTrue p → report.object.isTrue p) ∧
      (report.object.finalizer = o.finalizer ∨ Cleaned report.log) := by
  have reconciled := reconcile_reconciled .deletingBootstrap svc o log
  simp only [reconcileClean]
  simp only [Phase.reconcile] at reconciled
  generalize reconcileDeletingBootstrap svc o log = report at reconciled
  obtain ⟨new, grown, of, through, -⟩ := reconciled.grown
  have kept : ∀ p ≠ .deletingBootstrap, o.isTrue p → report.object.isTrue p := by
    intro p provision isTrue
    rw [reconciled.isTrue provision]
    exact isTrue
  cases ended : report.result with
  | ok =>
    refine ⟨⟨new, grown, of⟩, fun p provision isTrue => ?_, .inr ?_⟩
    · have := KKInstance.markTrue_isTrue report.object .deletingBootstrap p
      rw [kept p provision isTrue, Bool.or_true] at this
      exact this
    · rcases through ended with isRun | ⟨-, provision, -⟩
      · exact ⟨log, new, grown, isRun⟩
      · exact absurd rfl provision
  | error message => exact ⟨⟨new, grown, of⟩, kept, .inl reconciled.finalizer⟩
  | crashed => exact ⟨⟨new, grown, of⟩, kept, .inl reconciled.finalizer⟩

/-- What no step undoes: the log only grows, and an object that is gone stays so. -/
theorem step_grows {act : Act} (taken : step w act = some w') :
    (∃ new, w'.log = w.log ++ new) ∧ (w.gone = true → w'.gone = true) := by
  have patched : ∀ (base now : KKInstance) (reply : PatchReply) (party : Party),
      let w' := { w.patchObject base now reply with party := party }
      (∃ new, w'.log = w.log ++ new) ∧ (w.gone = true → w'.gone = true) := by
    intro base now reply party
    refine ⟨⟨[], (List.append_nil _).symm⟩, fun gone => ?_⟩
    simp only [World.patchObject, patchVersions, Versions.write_gone gone]
    exact gone
  cases taken_of_step taken with
  | reconcile | crashed => exact ⟨⟨[], (List.append_nil _).symm⟩, id⟩
  | registered | marked | closed => exact patched _ _ _ _
  | @worked base now distribution svc upgrading party =>
    obtain ⟨-, new, grown, -⟩ := reconcilePhases_kept distribution svc upgrading now w.log
    exact ⟨⟨new, grown⟩, id⟩
  | @cleaned base now svc party =>
    obtain ⟨⟨new, grown, -⟩, -⟩ := reconcileClean_kept svc now w.log
    exact ⟨⟨new, grown⟩, id⟩
  | deleted =>
    refine ⟨⟨[], (List.append_nil _).symm⟩, fun gone => ?_⟩
    rw [Versions.write_gone gone]
    exact gone

/-- Without a finalizer nothing is about to be done on the host. -/
theorem InFlight.removed {party : Party} (inFlight : InFlight w party) (missing : w.latest.finalizer = false) :
    InFlight { w with toVersions := w.remove } party := by
  have contra : ∀ {P : Prop}, w.latest.finalizer = true → P := by
    intro P finalizer
    rw [missing] at finalizer
    cases finalizer
  cases party with
  | idle => trivial
  | registering base now => exact inFlight
  | working base now => exact contra inFlight.2.1
  | marking base now => exact contra (w.held inFlight.1 inFlight.2.1)
  | cleaning base now => exact contra (w.held inFlight.1 inFlight.2.1)
  | closing base now =>
    obtain ⟨kept, agree, removes⟩ := inFlight
    exact ⟨kept, agree, fun unset set => ⟨(removes unset set).1, fun gone => by cases gone⟩⟩

/-- The deletion timestamp is set. -/
theorem InFlight.deleted {party : Party} (inFlight : InFlight w party) {v : Versions KKInstance}
    (gone : v.gone = w.gone) (marked : v.latest = delete w.latest) : InFlight { w with toVersions := v } party := by
  obtain ⟨latest, earlier, there, held⟩ := v
  cases marked
  cases gone
  cases party with
  | idle => trivial
  | registering base now => exact inFlight
  | working base now => exact inFlight
  | marking base now => exact ⟨inFlight.1, rfl, inFlight.2.2⟩
  | cleaning base now => exact ⟨inFlight.1, rfl, inFlight.2.2⟩
  | closing base now =>
    obtain ⟨kept, agree, removes⟩ := inFlight
    exact ⟨kept, agree, fun unset set => ⟨(removes unset set).1, fun _ => rfl⟩⟩

theorem Held.deleted (held : Held w) : Held { w with toVersions := w.write delete true } := by
  rcases w.write_cases delete true with ⟨same, -⟩ | ⟨there, -, same⟩
  · exact same.symm ▸ held
  have host : w.log ≠ [] → w.latest.finalizer = true := by
    intro touched
    rcases held.host touched with ⟨-, finalizer⟩ | ⟨gone, -⟩
    · exact finalizer
    · rw [there] at gone
      cases gone
  rcases w.store_cases (delete w.latest) with ⟨stored, -, missing⟩ | ⟨kept, stored⟩ <;> rw [same, stored]
  · -- without a finalizer nothing was done on the host
    refine ⟨fun touched => ?_, (InFlight.withParty _ _).mpr (held.inFlight.removed missing)⟩
    rw [show w.latest.finalizer = false from missing] at host
    cases host touched
  · exact ⟨fun touched => .inl ⟨there, host touched⟩, held.inFlight.deleted rfl rfl⟩

theorem Held.step {act : Act} (held : Held w) (fresh : act.fresh) (taken : step w act = some w') : Held w' := by
  have inFlight := held.inFlight
  cases taken_of_step taken with
  | reconcile paused party read =>
    cases fresh
    obtain ⟨there, rfl⟩ := Versions.read_zero.mp read
    exact ⟨held.host, (InFlight.withParty _ _).mpr (begin_inFlight there paused)⟩
  | registered reply party =>
    rw [party] at inFlight
    obtain ⟨set, unset, agree, agree'⟩ := inFlight
    refine held.patched (fun missing => by rw [set] at missing; cases missing) fun w' same patched => ?_
    have agree'' := patched.agree agree agree'
    rw [← same]
    split
    · rename_i ok
      rw [Bool.and_eq_true, Bool.not_eq_true'] at ok
      exact ⟨ok.2, patched.registered ok.1 ok.2 set unset, set, agree, agree''⟩
    · exact .closing agree.kept agree'' set
  | marked reply party =>
    rw [party] at inFlight
    obtain ⟨there, deleting, set, agree, agree'⟩ := inFlight
    refine held.patched (fun missing => by rw [set] at missing; cases missing) fun w' same patched => ?_
    have agree'' := patched.agree agree agree'
    rw [← same]
    split
    · rename_i ok
      rw [Bool.and_eq_true, Bool.not_eq_true'] at ok
      exact ⟨ok.2, patched.timestamp.trans deleting, set, agree, agree''⟩
    · exact .closing agree.kept agree'' set
  | @worked base now distribution svc upgrading party =>
    rw [party] at inFlight
    obtain ⟨there, finalizer, set, agree, agree'⟩ := inFlight
    refine Held.report there finalizer fun _ => ?_
    obtain ⟨same, new, grown, kept⟩ := reconcilePhases_kept distribution svc upgrading now w.log
    refine .closing (fun p provision isTrue => ?_) agree' (same.trans set)
    exact (kept p provision (agree.kept p provision isTrue)).2
  | @cleaned base now svc party =>
    rw [party] at inFlight
    obtain ⟨there, deleting, set, agree, agree'⟩ := inFlight
    refine Held.report there (w.held there deleting) fun _ => ?_
    obtain ⟨-, kept, finalizer⟩ := reconcileClean_kept svc now w.log
    refine ⟨fun p provision isTrue => kept p provision (agree.kept p provision isTrue), agree', fun unset _ => ?_⟩
    rcases finalizer with same | cleaned
    · rw [same, set] at unset
      cases unset
    · exact ⟨cleaned, fun _ => deleting⟩
  | closed reply party =>
    rw [party] at inFlight
    exact held.patched inFlight.2.2 fun _ _ _ => trivial
  | crashed => exact ⟨held.host, trivial⟩
  | deleted => exact held.deleted

theorem run_held {acts : List Act} (fresh : ∀ act ∈ acts, act.fresh) (held : Held w) (ran : run step w acts = some w') :
    Held w' :=
  (along_of_forall fresh).invariant (fun _ _ _ held fresh taken => held.step fresh taken) held ran

/-- If anything was done on the host, the object is there with its finalizer until the host is
cleaned, and that is the last thing done. -/
theorem cleaned_before_gone {acts : List Act} (fresh : ∀ act ∈ acts, act.fresh)
    (ran : run step created acts = some w) (touched : w.log ≠ []) :
    w.gone = false ∧ w.latest.finalizer = true ∨ w.gone = true ∧ Cleaned w.log :=
  (run_held fresh created_held ran).host touched

/-- The phase is stored as done, and nothing was done for it since the log was `old`. -/
structure Once (p : Phase) (old : List Entry) (w : World) : Prop where
  stored : w.latest.isTrue p
  log : ∃ more, w.log = old ++ more ∧ ∀ e ∈ more, e.action.phase ≠ p

theorem Patched.isTrue {v v' : Versions KKInstance} {reply : PatchReply} (patched : Patched base now reply v v')
    {p : Phase} (stored : v.latest.isTrue p) (memory : now.isTrue p) : v'.latest.isTrue p := by
  rcases patched.condition p with same | same <;> rw [KKInstance.isTrue, same]
  · exact stored
  · exact memory

theorem Once.patched {p : Phase} {old : List Entry} {reply : PatchReply} {party : Party} (once : Once p old w)
    (memory : now.isTrue p) : Once p old { w.patchObject base now reply with party := party } :=
  ⟨(patchVersions_patched w.toVersions base now reply).isTrue once.stored memory, once.log⟩

theorem Once.report {p : Phase} {old new : List Entry} {report : Report} (once : Once p old w)
    (grown : report.log = w.log ++ new) (none : ∀ e ∈ new, e.action.phase ≠ p) : Once p old (w.report base report) := by
  obtain ⟨more, log, others⟩ := once.log
  refine ⟨once.stored, more ++ new, ?_, fun e member => ?_⟩
  · rw [← List.append_assoc, ← log]
    exact grown
  · exact (List.mem_append.mp member).elim (others e) (none e)

theorem Once.step {p : Phase} {old : List Entry} {act : Act} (provision : p ≠ .deletingBootstrap)
    (once : Once p old w) (held : Held w) (fresh : act.fresh) (taken : step w act = some w') : Once p old w' := by
  have memory := held.memory provision once.stored
  cases taken_of_step taken with
  | reconcile | crashed => exact ⟨once.stored, once.log⟩
  | @registered base now reply party | @marked base now reply party | @closed base now reply party =>
    exact once.patched (memory (base, now) (by simp [party, Party.memory]))
  | @worked base now distribution svc upgrading party =>
    obtain ⟨-, new, grown, kept⟩ := reconcilePhases_kept distribution svc upgrading now w.log
    exact once.report grown (kept p provision (memory (base, now) (by simp [party, Party.memory]))).1
  | @cleaned base now svc party =>
    obtain ⟨⟨new, grown, of⟩, -⟩ := reconcileClean_kept svc now w.log
    exact once.report grown fun e member same => provision (same.symm.trans (of e member))
  | deleted =>
    refine ⟨?_, once.log⟩
    rcases w.write_cases delete true with ⟨same, -⟩ | ⟨-, -, same⟩
    · exact same.symm ▸ once.stored
    · rcases w.store_cases (delete w.latest) with ⟨stored, -⟩ | ⟨kept, stored⟩ <;> rw [same, stored] <;>
        exact once.stored

/-- Once the condition of a phase is stored as true it stays so, and nothing is done for the phase any more. -/
theorem done_once {p : Phase} (provision : p ≠ .deletingBootstrap) {first then' : List Act}
    (fresh : ∀ act ∈ first ++ then', act.fresh) (ran : run step created first = some w) (stored : w.latest.isTrue p)
    (ran' : run step w then' = some w') :
    w'.latest.isTrue p ∧ ∃ more, w'.log = w.log ++ more ∧ ∀ e ∈ more, e.action.phase ≠ p := by
  have held := run_held (fun act member => fresh act (List.mem_append_left _ member)) created_held ran
  have start : Held w ∧ Once p w.log w := ⟨held, stored, [], by simp, by simp⟩
  have keeps : ∀ u act v, Held u ∧ Once p w.log u → act.fresh → step u act = some v → Held v ∧ Once p w.log v :=
    fun u act v both fresh taken => ⟨both.1.step fresh taken, both.2.step provision both.1 fresh taken⟩
  have both : Held w' ∧ Once p w.log w' :=
    (along_of_forall fun act member => fresh act (List.mem_append_right _ member)).invariant keeps start ran'
  exact ⟨both.2.stored, both.2.log⟩

/-- Everything goes through; the container manager is there. -/
def healthy : Services := ⟨fun _ _ => .ok, fun _ => true, fun _ => ["kubeadm join"]⟩

def answered : PatchReply := ⟨.ok, .ok, .ok⟩

/-- A reconcile that provisions the host. -/
def provisioned : List Act :=
  [.reconcile 0 false, .patch answered, .work "kubernetes" healthy false, .close answered]

/-- The object is deleted, and a reconcile cleans the host. -/
def removed : List Act :=
  [.delete, .reconcile 0 false, .patch answered, .clean healthy, .close answered]

theorem removed_fresh : ∀ act ∈ provisioned ++ removed, act.fresh := by
  intro act member
  simp only [provisioned, removed, List.cons_append, List.nil_append, List.mem_cons, List.not_mem_nil,
    or_false] at member
  rcases member with rfl | rfl | rfl | rfl | rfl | rfl | rfl | rfl | rfl <;> first | rfl | trivial

theorem cleaned_before_gone_removed :
    ∃ w, run step created (provisioned ++ removed) = some w ∧ w.gone = true ∧
      (w.gone = false ∧ w.latest.finalizer = true ∨ w.gone = true ∧ Cleaned w.log) :=
  ⟨_, rfl, rfl, cleaned_before_gone removed_fresh rfl (by decide)⟩

theorem done_once_removed :
    ∃ w w', run step created provisioned = some w ∧ run step w removed = some w' ∧ w.latest.isTrue .provisioning ∧
      w'.latest.isTrue .provisioning ∧ ∃ more, w'.log = w.log ++ more ∧ ∀ e ∈ more, e.action.phase ≠ .provisioning :=
  ⟨_, _, rfl, rfl, rfl, done_once (by decide) removed_fresh rfl rfl rfl⟩

end KubeKey.Phases
