import KubeKey.Machines.Reconcile

/-!
# The phases of a KKInstance

`controllers/kkinstance/kkinstance_controller_phase.go`: each phase does a few things on the
host in order, up to the first error, and leaves its outcome in a condition. A phase whose
condition is true already does nothing. The phase that cleans the host before deletion has
no such check.

What is done on the host is a log of actions with their results. An action succeeds, fails
with an error or never returns, because the controller ends while it runs; which of them is
decided from the log so far. `IsRun` says which entries a phase leaves that went through.
-/

namespace KubeKey.Phases

open KubeKey.Machines (InstanceState)

/-- A phase, by its condition. -/
inductive Phase where
  | bootstrap
  | repository
  | binaryService
  | containerManager
  | provisioning
  | deletingBootstrap
deriving DecidableEq, Repr

/-- What a phase does on the host or asks for. -/
inductive Action where
  | addUsers
  | setHostname
  | createDirectory
  | resetTmpDirectory
  | execInitScript
  | check
  | get
  | mountISO
  | umountISO
  | updateAndInstall
  | download
  /-- `IsExist` of the container manager, with its answer. -/
  | isExist (answer : Bool)
  | getManager
  | install
  | getRawBootstrapDataWithFormat
  /-- `RawBootstrapDataToProvisioningCommands`, with the commands it returns. -/
  | rawBootstrapDataToProvisioningCommands (commands : List String)
  | sudoCmd (command : String)
  | kubeadmReset
  | resetNetwork
  | removeFiles
  | daemonReload
  | uninstallK3s
deriving DecidableEq, Repr

/-- The phase an action is part of. -/
def Action.phase : Action → Phase
  | addUsers | setHostname | createDirectory | resetTmpDirectory | execInitScript => .bootstrap
  | check | get | mountISO | umountISO | updateAndInstall => .repository
  | download => .binaryService
  | isExist _ | getManager | install => .containerManager
  | getRawBootstrapDataWithFormat | rawBootstrapDataToProvisioningCommands _ | sudoCmd _ => .provisioning
  | kubeadmReset | resetNetwork | removeFiles | daemonReload | uninstallK3s => .deletingBootstrap

/-- How an action or a phase ends. -/
inductive Result where
  | ok
  | error (message : String)
  /-- The controller ends before the result is there. -/
  | crashed
deriving DecidableEq, Repr

structure Entry where
  action : Action
  result : Result
deriving DecidableEq, Repr

/-- An action that went through. -/
def Entry.done (action : Action) : Entry := ⟨action, .ok⟩

/-- `clusterv1.Condition`. -/
structure Condition where
  status : Bool
  reason : String
  severity : String
  message : String
deriving DecidableEq, Repr

/-- What the reconciler reads and writes of a KKInstance. -/
structure KKInstance where
  condition : Phase → Option Condition
  state : InstanceState
  /-- `InstanceFinalizer`. -/
  finalizer : Bool
  deletionTimestamp : Bool
  /-- A failure reason or a failure message is set. -/
  failed : Bool

namespace KKInstance

/-- `conditions.IsTrue`. -/
def isTrue (o : KKInstance) (p : Phase) : Bool :=
  (o.condition p).any (·.status)

def setCondition (o : KKInstance) (p : Phase) (c : Condition) : KKInstance :=
  { o with condition := fun q => if q = p then some c else o.condition q }

/-- `conditions.MarkTrue`. -/
def markTrue (o : KKInstance) (p : Phase) : KKInstance :=
  o.setCondition p ⟨true, "", "", ""⟩

/-- `conditions.MarkFalse`. -/
def markFalse (o : KKInstance) (p : Phase) (reason severity message : String) : KKInstance :=
  o.setCondition p ⟨false, reason, severity, message⟩

def setState (o : KKInstance) (state : InstanceState) : KKInstance := { o with state := state }

@[simp] theorem setState_condition (o : KKInstance) (state : InstanceState) :
    (o.setState state).condition = o.condition := rfl
@[simp] theorem setState_isTrue (o : KKInstance) (state : InstanceState) (p : Phase) :
    (o.setState state).isTrue p = o.isTrue p := rfl
@[simp] theorem markTrue_state (o : KKInstance) (p : Phase) : (o.markTrue p).state = o.state := rfl
@[simp] theorem markFalse_state (o : KKInstance) (p : Phase) (reason severity message : String) :
    (o.markFalse p reason severity message).state = o.state := rfl

@[simp] theorem markTrue_isTrue (o : KKInstance) (p q : Phase) :
    (o.markTrue p).isTrue q = (decide (q = p) || o.isTrue q) := by
  by_cases same : q = p <;> simp [markTrue, setCondition, isTrue, same]

@[simp] theorem markFalse_isTrue (o : KKInstance) (p q : Phase) (reason severity message : String) :
    (o.markFalse p reason severity message).isTrue q = (decide (q ≠ p) && o.isTrue q) := by
  by_cases same : q = p <;> simp [markFalse, setCondition, isTrue, same]

end KKInstance

/-- The host and what else answers the actions, from the log so far. -/
structure Services where
  call : List Entry → Action → Result
  isExist : List Entry → Bool
  commands : List Entry → List String

/-- The error of a phase, from the error of an action. -/
def Action.wrap : Action → String → String
  | rawBootstrapDataToProvisioningCommands _, message => "failed to join a control plane node with kubeadm: " ++ message
  | sudoCmd _, message => "failed to run cloud config: " ++ message
  | _, message => message

/-- The actions in order, up to the first that does not go through. -/
def perform (svc : Services) : List Action → List Entry → List Entry × Result
  | [], log => (log, .ok)
  | action :: rest, log =>
    match svc.call log action with
    | .ok => perform svc rest (log ++ [.done action])
    | .error message => (log ++ [⟨action, .error message⟩], .error (action.wrap message))
    | .crashed => (log ++ [⟨action, .crashed⟩], .crashed)

/-- One part of a phase after another. -/
def andThen (first : List Entry × Result) (second : List Entry → List Entry × Result) : List Entry × Result :=
  match first with
  | (log, .ok) => second log
  | (log, other) => (log, other)

/-- What a phase leaves: the object in memory, the log and its error. -/
structure Report where
  object : KKInstance
  log : List Entry
  result : Result

/-- The deferred function of every phase. -/
def deferred (p : Phase) (reason severity : String) (o : KKInstance) (body : List Entry × Result) : Report :=
  match body.2 with
  | .ok => ⟨o.markTrue p, body.1, .ok⟩
  | .error message => ⟨o.markFalse p reason severity message, body.1, .error message⟩
  | .crashed => ⟨o, body.1, .crashed⟩

/-- A phase that is skipped once its condition is true. -/
def phase (p : Phase) (reason severity : String) (o entered : KKInstance) (log : List Entry)
    (body : List Entry → List Entry × Result) : Report :=
  if o.isTrue p then deferred p reason severity o (log, .ok)
  else deferred p reason severity entered (body log)

/-- `reconcileBootstrap`. -/
def reconcileBootstrap (svc : Services) (o : KKInstance) (log : List Entry) : Report :=
  phase .bootstrap "InitOSFailed" "Warning" o (o.setState .bootstrapping) log
    (perform svc [.addUsers, .setHostname, .createDirectory, .resetTmpDirectory, .execInitScript])

/-- The deferred `UmountISO`, whose error is dropped. -/
def umount (svc : Services) (body : List Entry × Result) : List Entry × Result :=
  match body.2 with
  | .crashed => body
  | result =>
    match perform svc [.umountISO] body.1 with
    | (log, .crashed) => (log, .crashed)
    | (log, _) => (log, result)

/-- `reconcileRepository`. The image is unmounted also if it could not be mounted. -/
def reconcileRepository (svc : Services) (o : KKInstance) (log : List Entry) : Report :=
  phase .repository "InstanceRepositoryFailed" "Warning" o o log fun log =>
    andThen (perform svc [.check, .get] log) fun log => umount svc (perform svc [.mountISO, .updateAndInstall] log)

/-- `reconcileBinaryService`. -/
def reconcileBinaryService (svc : Services) (o : KKInstance) (log : List Entry) : Report :=
  phase .binaryService "GetBinaryFailed" "Error" o o log (perform svc [.download])

/-- `reconcileContainerManager`. -/
def reconcileContainerManager (svc : Services) (o : KKInstance) (log : List Entry) : Report :=
  phase .containerManager "InstallCRIFailed" "Error" o o log fun log =>
    if svc.isExist log then (log ++ [.done (.isExist true)], .ok)
    else perform svc [.getManager, .install] (log ++ [.done (.isExist false)])

/-- `reconcileProvisioning`. -/
def reconcileProvisioning (svc : Services) (o : KKInstance) (log : List Entry) : Report :=
  phase .provisioning "RunCloudConfigFailed" "Error" o o log fun log =>
    andThen (perform svc [.getRawBootstrapDataWithFormat] log) fun log =>
      let commands := svc.commands log
      perform svc (.rawBootstrapDataToProvisioningCommands commands :: commands.map .sudoCmd) log

/-- `reconcileDeletingBootstrap`. -/
def reconcileDeletingBootstrap (svc : Services) (o : KKInstance) (log : List Entry) : Report :=
  deferred .deletingBootstrap "ClearEnvironmentFailed" "Warning" (o.setState .cleaning)
    (perform svc [.kubeadmReset, .resetNetwork, .removeFiles, .daemonReload, .uninstallK3s] log)

/-- The method of a phase. -/
def Phase.reconcile : Phase → Services → KKInstance → List Entry → Report
  | bootstrap => reconcileBootstrap
  | repository => reconcileRepository
  | binaryService => reconcileBinaryService
  | containerManager => reconcileContainerManager
  | provisioning => reconcileProvisioning
  | deletingBootstrap => reconcileDeletingBootstrap

/-- `phaseFactory`. -/
def phaseFactory (distribution : String) : List Phase :=
  if distribution = "kubernetes" then [.bootstrap, .repository, .binaryService, .containerManager, .provisioning]
  else if distribution = "k3s" then [.bootstrap, .repository, .binaryService, .provisioning]
  else []

/-- The loop of `reconcileNormal`: `PollImmediate` gives up at the first error of a phase. -/
def runPhases (svc : Services) : List Phase → KKInstance → List Entry → Report
  | [], o, log => ⟨o, log, .ok⟩
  | p :: rest, o, log =>
    let report := p.reconcile svc o log
    match report.result with
    | .ok => runPhases svc rest report.object report.log
    | _ => report

/-- The entries of a phase that went through from its first action to its last. -/
def IsRun : Phase → List Entry → Prop
  | .bootstrap, run =>
    run = [Action.addUsers, .setHostname, .createDirectory, .resetTmpDirectory, .execInitScript].map Entry.done
  | .repository, run =>
    ∃ unmounted, run = [Action.check, .get, .mountISO, .updateAndInstall].map Entry.done ++ [⟨.umountISO, unmounted⟩]
  | .binaryService, run => run = [.done .download]
  | .containerManager, run =>
    run = [.done (.isExist true)] ∨ run = [Action.isExist false, .getManager, .install].map Entry.done
  | .provisioning, run =>
    ∃ commands : List String, run = (Action.getRawBootstrapDataWithFormat ::
      .rawBootstrapDataToProvisioningCommands commands :: commands.map .sudoCmd).map Entry.done
  | .deletingBootstrap, run =>
    run = [Action.kubeadmReset, .resetNetwork, .removeFiles, .daemonReload, .uninstallK3s].map Entry.done

/-- The log has a run of the phase that went through. -/
def Complete (p : Phase) (log : List Entry) : Prop :=
  ∃ before run after, log = before ++ run ++ after ∧ IsRun p run

/-! ## What a phase leaves -/

theorem Complete.append {p : Phase} {log : List Entry} (complete : Complete p log) (more : List Entry) :
    Complete p (log ++ more) := by
  obtain ⟨before, run, after, rfl, isRun⟩ := complete
  exact ⟨before, run, after ++ more, by simp, isRun⟩

theorem IsRun.complete {p : Phase} {run : List Entry} (isRun : IsRun p run) (log : List Entry) :
    Complete p (log ++ run) :=
  ⟨log, run, [], by simp, isRun⟩

/-- A part of a phase adds entries for the actions in `within`; if it goes through, they are as in `run`. -/
def Adds (within : Action → Prop) (run : List Entry → Prop) (log : List Entry) (body : List Entry × Result) : Prop :=
  ∃ new, body.1 = log ++ new ∧ (∀ e ∈ new, within e.action) ∧ (body.2 = .ok → run new)

theorem perform_adds (svc : Services) (actions : List Action) (log : List Entry) :
    Adds (· ∈ actions) (· = actions.map .done) log (perform svc actions log) := by
  induction actions generalizing log with
  | nil => exact ⟨[], by simp [perform], by simp, fun _ => rfl⟩
  | cons action rest ih =>
    cases called : svc.call log action with
    | ok =>
      obtain ⟨new, added, within, run⟩ := ih (log ++ [.done action])
      refine ⟨.done action :: new, by simp [perform, called, added], ?_, ?_⟩
      · intro e inside
        rcases List.mem_cons.mp inside with rfl | inside
        · exact List.mem_cons_self
        · exact List.mem_cons_of_mem _ (within e inside)
      · intro ok
        rw [perform, called] at ok
        rw [run ok, List.map_cons]
    | error message =>
      refine ⟨[⟨action, .error message⟩], by simp [perform, called], by simp, fun ok => ?_⟩
      simp [perform, called] at ok
    | crashed =>
      refine ⟨[⟨action, .crashed⟩], by simp [perform, called], by simp, fun ok => ?_⟩
      simp [perform, called] at ok

theorem Adds.mono {within within' : Action → Prop} {run run' : List Entry → Prop} {log : List Entry}
    {body : List Entry × Result} (adds : Adds within run log body) (wider : ∀ a, within a → within' a)
    (weaker : ∀ new, run new → run' new) : Adds within' run' log body := by
  obtain ⟨new, added, all, through⟩ := adds
  exact ⟨new, added, fun e inside => wider _ (all e inside), fun ok => weaker new (through ok)⟩

/-- The entries of the second part come after those of the first. -/
theorem Adds.andThen {within : Action → Prop} {run run' : List Entry → Prop} {log : List Entry}
    {first : List Entry × Result} {second : List Entry → List Entry × Result} (adds : Adds within run log first)
    (next : ∀ log, Adds within run' log (second log)) :
    Adds within (fun new => ∃ before after, new = before ++ after ∧ run before ∧ run' after) log
      (andThen first second) := by
  obtain ⟨new, added, all, through⟩ := adds
  obtain ⟨logged, result⟩ := first
  cases result with
  | ok =>
    obtain ⟨more, added', all', through'⟩ := next logged
    refine ⟨new ++ more, ?_, ?_, fun ok => ⟨new, more, rfl, through rfl, through' ok⟩⟩
    · simp only [Phases.andThen, added']
      rw [show logged = log ++ new from added, List.append_assoc]
    · intro e inside
      exact (List.mem_append.mp inside).elim (all e) (all' e)
  | error message => exact ⟨new, added, all, fun ok => by cases ok⟩
  | crashed => exact ⟨new, added, all, fun ok => by cases ok⟩

/-- The image is unmounted after whatever was done with it. -/
theorem Adds.umount {within : Action → Prop} {run : List Entry → Prop} {log : List Entry} {svc : Services}
    {body : List Entry × Result} (adds : Adds within run log body) (inside : within .umountISO) :
    Adds within (fun new => ∃ before unmounted, new = before ++ [⟨.umountISO, unmounted⟩] ∧ run before) log
      (umount svc body) := by
  obtain ⟨new, added, all, through⟩ := adds
  obtain ⟨logged, result⟩ := body
  have grown : ∀ result', logged ++ [⟨.umountISO, result'⟩] = log ++ (new ++ [⟨.umountISO, result'⟩]) := by
    intro result'
    rw [show logged = log ++ new from added, List.append_assoc]
  have all' : ∀ result', ∀ e ∈ new ++ [(⟨.umountISO, result'⟩ : Entry)], within e.action := by
    intro result' e member
    rcases List.mem_append.mp member with member | member
    · exact all e member
    · rw [List.mem_singleton.mp member]
      exact inside
  by_cases ended : result = .crashed
  · subst ended
    exact ⟨new, added, all, fun ok => by cases ok⟩
  · cases called : svc.call logged .umountISO with
    | ok =>
      refine ⟨new ++ [⟨.umountISO, .ok⟩], ?_, all' .ok, fun ok => ⟨new, .ok, rfl, through ?_⟩⟩
      · cases result <;> simp_all [Phases.umount, perform, Entry.done]
      · cases result <;> simp_all [Phases.umount, perform]
    | error message =>
      refine ⟨new ++ [⟨.umountISO, .error message⟩], ?_, all' _, fun ok => ⟨new, .error message, rfl, through ?_⟩⟩
      · cases result <;> simp_all [Phases.umount, perform]
      · cases result <;> simp_all [Phases.umount, perform]
    | crashed =>
      refine ⟨new ++ [⟨.umountISO, .crashed⟩], ?_, all' _, fun ok => ⟨new, .crashed, rfl, through ?_⟩⟩
      · cases result <;> simp_all [Phases.umount, perform]
      · cases result <;> simp_all [Phases.umount, perform]

/-- What a phase does to the log and to the object in memory. -/
structure Reconciled (p : Phase) (o : KKInstance) (log : List Entry) (report : Report) : Prop where
  /-- The entries are of the phase: a run, if the phase went through without being skipped. -/
  grown : ∃ new, report.log = log ++ new ∧ (∀ e ∈ new, e.action.phase = p) ∧
    (report.result = .ok → IsRun p new ∨ new = [] ∧ p ≠ .deletingBootstrap ∧ o.isTrue p) ∧
    (p ≠ .deletingBootstrap → o.isTrue p → new = [] ∧ report.result = .ok)
  condition : report.result ≠ .crashed → report.object.isTrue p = decide (report.result = .ok)
  others : ∀ q ≠ p, report.object.condition q = o.condition q
  state : report.object.state = o.state ∨ report.object.state = .bootstrapping ∨ report.object.state = .cleaning
  finalizer : report.object.finalizer = o.finalizer

theorem Reconciled.isTrue {p q : Phase} {o : KKInstance} {log : List Entry} {report : Report}
    (reconciled : Reconciled p o log report) (different : q ≠ p) : report.object.isTrue q = o.isTrue q := by
  rw [KKInstance.isTrue, KKInstance.isTrue, reconciled.others q different]

theorem deferred_log (p : Phase) (reason severity : String) (o : KKInstance) (body : List Entry × Result) :
    (deferred p reason severity o body).log = body.1 ∧ (deferred p reason severity o body).result = body.2 := by
  obtain ⟨log, result⟩ := body
  cases result <;> exact ⟨rfl, rfl⟩

theorem deferred_isTrue (p : Phase) (reason severity : String) (o : KKInstance) {body : List Entry × Result}
    (returned : body.2 ≠ .crashed) :
    (deferred p reason severity o body).object.isTrue p = decide (body.2 = .ok) := by
  obtain ⟨log, result⟩ := body
  cases result with
  | ok => simp [deferred]
  | error message => simp [deferred]
  | crashed => exact absurd rfl returned

theorem deferred_others (p : Phase) (reason severity : String) (o : KKInstance) (body : List Entry × Result) :
    (∀ q ≠ p, (deferred p reason severity o body).object.condition q = o.condition q) ∧
    (deferred p reason severity o body).object.state = o.state ∧
    (deferred p reason severity o body).object.finalizer = o.finalizer := by
  obtain ⟨log, result⟩ := body
  cases result with
  | ok => exact ⟨fun q different => if_neg different, rfl, rfl⟩
  | error message => exact ⟨fun q different => if_neg different, rfl, rfl⟩
  | crashed => exact ⟨fun q _ => rfl, rfl, rfl⟩

/-- A phase with a check, from what its body does. -/
theorem phase_reconciled {p : Phase} {reason severity : String} {o entered : KKInstance} {log : List Entry}
    {body : List Entry → List Entry × Result} (provision : p ≠ .deletingBootstrap)
    (enters : entered = o ∨ entered = o.setState .bootstrapping)
    (adds : Adds (·.phase = p) (IsRun p) log (body log)) :
    Reconciled p o log (phase p reason severity o entered log body) := by
  by_cases already : o.isTrue p = true
  · rw [phase, if_pos already]
    obtain ⟨others, state, finalizer⟩ := deferred_others p reason severity o (log, .ok)
    exact ⟨⟨[], by simp [deferred], by simp, fun _ => .inr ⟨rfl, provision, already⟩, fun _ _ => ⟨rfl, rfl⟩⟩,
      fun _ => by simp [deferred], others, .inl state, finalizer⟩
  · rw [phase, if_neg already]
    obtain ⟨new, added, within, through⟩ := adds
    obtain ⟨logged, result⟩ := deferred_log p reason severity entered (body log)
    obtain ⟨others, state, finalizer⟩ := deferred_others p reason severity entered (body log)
    refine ⟨⟨new, logged.trans added, within, fun ok => .inl (through (result.symm.trans ok)),
      fun _ isTrue => absurd isTrue already⟩, fun returned => ?_, fun q different => ?_, ?_, ?_⟩
    · rw [result] at returned ⊢
      exact deferred_isTrue p reason severity entered returned
    · rcases enters with rfl | rfl <;> exact others q different
    · rcases enters with rfl | rfl
      · exact .inl state
      · exact .inr (.inl state)
    · rcases enters with rfl | rfl <;> exact finalizer

theorem perform_phase {svc : Services} {actions : List Action} {p : Phase} {log : List Entry}
    (all : ∀ a ∈ actions, a.phase = p) :
    Adds (·.phase = p) (· = actions.map .done) log (perform svc actions log) :=
  (perform_adds svc actions log).mono all fun _ run => run

/-- Every phase keeps to `Reconciled`. -/
theorem reconcile_reconciled (p : Phase) (svc : Services) (o : KKInstance) (log : List Entry) :
    Reconciled p o log (p.reconcile svc o log) := by
  cases p with
  | bootstrap =>
    exact phase_reconciled (by decide) (.inr rfl) (perform_phase (by decide))
  | repository =>
    simp only [Phase.reconcile, reconcileRepository]
    refine phase_reconciled (by decide) (.inl rfl) ?_
    have first : Adds (·.phase = .repository) (· = [Action.check, .get].map .done) log
        (perform svc [.check, .get] log) := perform_phase (by decide)
    have second : ∀ log, Adds (·.phase = .repository) _ log
        (umount svc (perform svc [.mountISO, .updateAndInstall] log)) :=
      fun log => (perform_phase (by decide)).umount rfl
    refine (first.andThen second).mono (fun _ => id) ?_
    rintro _ ⟨_, _, rfl, rfl, _, unmounted, rfl, rfl⟩
    exact ⟨unmounted, rfl⟩
  | binaryService =>
    exact phase_reconciled (by decide) (.inl rfl) (perform_phase (by decide))
  | containerManager =>
    simp only [Phase.reconcile, reconcileContainerManager]
    refine phase_reconciled (by decide) (.inl rfl) ?_
    by_cases exists' : svc.isExist log = true
    · rw [if_pos exists']
      exact ⟨[.done (.isExist true)], rfl, by simp [Entry.done, Action.phase], fun _ => .inl rfl⟩
    · rw [if_neg exists']
      obtain ⟨new, added, within, through⟩ : Adds (·.phase = .containerManager) _ _
        (perform svc [.getManager, .install] (log ++ [.done (.isExist false)])) := perform_phase (by decide)
      refine ⟨.done (.isExist false) :: new, by rw [added, List.append_assoc]; rfl, ?_, fun ok => .inr ?_⟩
      · intro e inside
        rcases List.mem_cons.mp inside with rfl | inside
        · rfl
        · exact within e inside
      · rw [through ok]
        rfl
  | provisioning =>
    simp only [Phase.reconcile, reconcileProvisioning]
    refine phase_reconciled (by decide) (.inl rfl) ?_
    have first : Adds (·.phase = .provisioning) (· = [Action.getRawBootstrapDataWithFormat].map .done) log
        (perform svc [.getRawBootstrapDataWithFormat] log) := perform_phase (by decide)
    have second : ∀ log, Adds (·.phase = .provisioning)
        (fun new => ∃ commands : List String,
          new = (Action.rawBootstrapDataToProvisioningCommands commands :: commands.map .sudoCmd).map .done) log
        (perform svc (.rawBootstrapDataToProvisioningCommands (svc.commands log) ::
          (svc.commands log).map .sudoCmd) log) := by
      intro log
      refine (perform_phase ?_).mono (fun _ => id) fun new run => ⟨svc.commands log, run⟩
      intro a inside
      rcases List.mem_cons.mp inside with rfl | inside
      · rfl
      · obtain ⟨command, -, rfl⟩ := List.mem_map.mp inside
        rfl
    refine (first.andThen second).mono (fun _ => id) ?_
    rintro _ ⟨_, _, rfl, rfl, commands, rfl⟩
    exact ⟨commands, rfl⟩
  | deletingBootstrap =>
    obtain ⟨new, added, within, through⟩ : Adds (·.phase = .deletingBootstrap) _ log
      (perform svc [.kubeadmReset, .resetNetwork, .removeFiles, .daemonReload, .uninstallK3s] log) :=
        perform_phase (by decide)
    let body := perform svc [.kubeadmReset, .resetNetwork, .removeFiles, .daemonReload, .uninstallK3s] log
    obtain ⟨logged, result⟩ :=
      deferred_log .deletingBootstrap "ClearEnvironmentFailed" "Warning" (o.setState .cleaning) body
    obtain ⟨others, state, finalizer⟩ :=
      deferred_others .deletingBootstrap "ClearEnvironmentFailed" "Warning" (o.setState .cleaning) body
    refine ⟨⟨new, logged.trans added, within, fun ok => .inl (through (result.symm.trans ok)),
      fun provision => absurd rfl provision⟩, fun returned => ?_, others, .inr (.inr state), finalizer⟩
    rw [show ((Phase.deletingBootstrap.reconcile svc o log).result) = body.2 from result] at returned ⊢
    exact deferred_isTrue _ _ _ _ returned

end KubeKey.Phases
