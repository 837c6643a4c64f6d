import KubeKey.Go.Goroutine

/-!
# In-place upgrades of control planes

`controllers/kkinstance`: `kubeadmUpgrade` sends the reconcile of a control plane to
`inPlaceUpgradeControlPlane`, which runs `kubeadm upgrade apply` under the lock ConfigMap of
the cluster, or to `inPlaceUpgradeScaleUp`, which releases the lock and runs
`kubeadm upgrade node`. The reconciles of any number of instances interleave request by
request, one at a time for each instance. The versions that a list of machines shows are
part of the action: the machines are read one by one while others change them.

`Lock` looks for the holder among the Machines, where it is a KKInstance, and `Unlock`
deletes whatever lock it finds. So the lock of an instance that is still upgrading can be
released, by an instance that takes it for missing, by one whose own upgrade failed and by
one that scales up. In the runs in which no deletion meets such a lock the upgrades
exclude each other (`upgrades_exclusive`).
-/

namespace KubeKey.KKInstance

open KubeKey.Go

/-- The lock ConfigMap: the instance name in its lock information, `none` if that does not decode. -/
structure ConfigMap where
  kkInstanceName : Option String
deriving DecidableEq, Repr

/-- Which call of `Unlock` it is. -/
inductive Caller where
  /-- `inPlaceUpgradeControlPlane` after an error. -/
  | failed
  /-- `Lock`, for a holder that cannot be found. -/
  | stale
  /-- `inPlaceUpgradeScaleUp`. -/
  | scaleUp
deriving DecidableEq, Repr

/-- What the reconcile of an instance does next. -/
inductive Party where
  | idle
  /-- `kubeadmUpgrade` lists the machines; the machine of the instance has the new version already. -/
  | counting (upgraded : Bool)
  /-- `inPlaceUpgradeControlPlane` lists the control planes of the new version. -/
  | confirming
  /-- `Lock` gets the ConfigMap. -/
  | reading
  /-- `Lock` gets the Machine with the name that is in the ConfigMap. -/
  | checking (holder : String)
  /-- `Lock` creates the ConfigMap. -/
  | creating
  /-- `kubeadm upgrade apply` runs. -/
  | applying
  | patching
  /-- `Unlock` gets the ConfigMap. -/
  | releasing (caller : Caller)
  /-- `Unlock` deletes the ConfigMap. -/
  | deleting (caller : Caller)
  /-- `kubeadm upgrade node` runs. -/
  | upgradingNode
  | patchingNode
deriving DecidableEq, Repr

/-- Where the caller of `Unlock` goes on. -/
def Caller.returns : Caller → Party
  | .failed | .stale => .idle
  | .scaleUp => .upgradingNode

/-- The objects of the cluster and where the reconcile of every instance is. -/
structure Cluster where
  configMap : Option ConfigMap
  /-- The KKInstances. -/
  present : String → Bool
  /-- The Machines. -/
  machine : String → Bool
  party : String → Party

/-- The requests of an instance with their answers, the ends of the commands, and what others do. -/
inductive Request where
  | reconcile (kkInstance : String) (upgraded : Bool)
  | getMachines (kkInstance : String) (versions : Option (List Bool))
  | getConfigMap (kkInstance : String) (answered : Bool)
  | getMachine (kkInstance : String) (answered : Bool)
  | create (kkInstance : String) (answered : Bool)
  | delete (kkInstance : String) (answered : Bool)
  | command (kkInstance : String) (succeeded : Bool)
  | patchMachine (kkInstance : String) (answered : Bool)
  | instanceCreated (kkInstance : String)
  | instanceDeleted (kkInstance : String)
  | machineCreated (machine : String)
  | machineDeleted (machine : String)
deriving Repr

/-- `kubeadmUpgrade` of a control plane, by the versions of the control planes: whether each is the new one. -/
def kubeadmUpgrade (upgraded : Bool) (versions : List Bool) : Party :=
  let desiredCPReplicas := versions.length
  let numMachines := versions.count true
  if numMachines < desiredCPReplicas ∧ numMachines = 0 then .confirming
  else if numMachines < desiredCPReplicas ∧ 0 < numMachines then
    -- `inPlaceUpgradeScaleUp`
    if upgraded then .idle else .releasing .scaleUp
  else .idle

/-- `inPlaceUpgradeControlPlane` goes on to `Lock` if no control plane has the new version. -/
def inPlaceUpgradeControlPlane (versions : List Bool) : Party :=
  if 0 < versions.count true then .idle else .reading

namespace Cluster

/-- No reconcile has started yet. -/
def new (configMap : Option ConfigMap) (present machine : String → Bool) : Cluster :=
  ⟨configMap, present, machine, fun _ => .idle⟩

/-- The reconcile of the instance goes on. -/
def goes (s : Cluster) (kkInstance : String) (p : Party) : Cluster :=
  { s with party := Function.update s.party kkInstance p }

/-- The machines are listed, by `kubeadmUpgrade` or by `inPlaceUpgradeControlPlane`. -/
def getMachines (s : Cluster) (kkInstance : String) (versions : Option (List Bool)) : Option Cluster :=
  match s.party kkInstance with
  | .counting upgraded => some (s.goes kkInstance ((versions.map (kubeadmUpgrade upgraded)).getD .idle))
  | .confirming => some (s.goes kkInstance ((versions.map inPlaceUpgradeControlPlane).getD .idle))
  | _ => none

/-- `Get` of the ConfigMap, by `Lock` or by `Unlock`. -/
def getConfigMap (s : Cluster) (kkInstance : String) (answered : Bool) : Option Cluster :=
  match s.party kkInstance with
  | .reading =>
    if answered = false then some (s.goes kkInstance .idle)
    else
      match s.configMap with
      | none => some (s.goes kkInstance .creating)
      | some ⟨none⟩ => some (s.goes kkInstance .idle)
      | some ⟨some holder⟩ =>
        if holder = kkInstance then some (s.goes kkInstance .applying)
        else some (s.goes kkInstance (.checking holder))
  | .releasing caller =>
    if answered = true ∧ s.configMap ≠ none then some (s.goes kkInstance (.deleting caller))
    else some (s.goes kkInstance caller.returns)
  | _ => none

/-- `Get` of the Machine that has the name of the holder. -/
def getMachine (s : Cluster) (kkInstance : String) (answered : Bool) : Option Cluster :=
  match s.party kkInstance with
  | .checking holder =>
    if answered = true ∧ s.machine holder = false then some (s.goes kkInstance (.releasing .stale))
    else some (s.goes kkInstance .idle)
  | _ => none

/-- `Create` of the ConfigMap fails if there is one. -/
def create (s : Cluster) (kkInstance : String) (answered : Bool) : Option Cluster :=
  match s.party kkInstance with
  | .creating =>
    if answered = true ∧ s.configMap = none then
      some ({ s with configMap := some ⟨some kkInstance⟩ }.goes kkInstance .applying)
    else some (s.goes kkInstance .idle)
  | _ => none

/-- `Delete` of the ConfigMap by its name. -/
def delete (s : Cluster) (kkInstance : String) (answered : Bool) : Option Cluster :=
  match s.party kkInstance with
  | .deleting caller =>
    if answered = true then some ({ s with configMap := none }.goes kkInstance caller.returns)
    else some (s.goes kkInstance caller.returns)
  | _ => none

/-- The command on the node ends. -/
def command (s : Cluster) (kkInstance : String) (succeeded : Bool) : Option Cluster :=
  match s.party kkInstance with
  | .applying => some (s.goes kkInstance (if succeeded then .patching else .releasing .failed))
  | .upgradingNode => some (s.goes kkInstance (if succeeded then .patchingNode else .idle))
  | _ => none

/-- `patchMachineSpecVersion`. -/
def patchMachine (s : Cluster) (kkInstance : String) (answered : Bool) : Option Cluster :=
  match s.party kkInstance with
  | .patching => some (s.goes kkInstance (if answered then .idle else .releasing .failed))
  | .patchingNode => some (s.goes kkInstance .idle)
  | _ => none

/-- A step of an instance, or of another party. -/
def step (s : Cluster) : Request → Option Cluster
  | .reconcile kkInstance upgraded =>
    if s.present kkInstance = true ∧ s.party kkInstance = .idle then some (s.goes kkInstance (.counting upgraded))
    else none
  | .getMachines kkInstance versions => s.getMachines kkInstance versions
  | .getConfigMap kkInstance answered => s.getConfigMap kkInstance answered
  | .getMachine kkInstance answered => s.getMachine kkInstance answered
  | .create kkInstance answered => s.create kkInstance answered
  | .delete kkInstance answered => s.delete kkInstance answered
  | .command kkInstance succeeded => s.command kkInstance succeeded
  | .patchMachine kkInstance answered => s.patchMachine kkInstance answered
  | .instanceCreated kkInstance =>
    if s.party kkInstance = .idle then some { s with present := Function.update s.present kkInstance true } else none
  | .instanceDeleted kkInstance => some { s with present := Function.update s.present kkInstance false }
  | .machineCreated machine => some { s with machine := Function.update s.machine machine true }
  | .machineDeleted machine => some { s with machine := Function.update s.machine machine false }

/-- The instance exists, has obtained the lock and has not finished its `kubeadm upgrade apply`. -/
def Upgrading (s : Cluster) (kkInstance : String) : Prop :=
  s.present kkInstance = true ∧ s.party kkInstance = .applying

/-- At most one control plane is being upgraded. -/
def Exclusive (s : Cluster) : Prop := ∀ m m', s.Upgrading m → s.Upgrading m' → m = m'

/-- A `Lock` that returns true in the step does so while no other instance is upgrading. -/
def LocksAlone (s s' : Cluster) : Prop :=
  ∀ m, s.party m ≠ .applying → s'.party m = .applying → ∀ m', ¬ s.Upgrading m'

/-- The condition on a step: a deletion does not meet the lock of an instance that is upgrading. -/
def Releasable (s : Cluster) : Request → Prop
  | .delete _ true => ∀ holder, s.configMap = some ⟨some holder⟩ → ¬ s.Upgrading holder
  | _ => True

/-- Who is upgrading is in the ConfigMap. -/
def Held (s : Cluster) : Prop := ∀ m, s.Upgrading m → s.configMap = some ⟨some m⟩

namespace Held

variable {s s' : Cluster} {r : Request}

theorem new (configMap : Option ConfigMap) (present machine : String → Bool) :
    Held (Cluster.new configMap present machine) := by
  rintro m ⟨-, applying⟩
  cases applying

theorem exclusive (held : Held s) : s.Exclusive := by
  intro m m' upgrading upgrading'
  have same := (held m upgrading).symm.trans (held m' upgrading')
  simpa using same

/-- A reconcile goes on to something else than the upgrade. -/
theorem goes (held : Held s) {kkInstance : String} {p : Party} (other : p ≠ .applying) :
    Held (s.goes kkInstance p) ∧ LocksAlone s (s.goes kkInstance p) := by
  constructor
  · rintro m ⟨here, applying⟩
    by_cases same : m = kkInstance
    · subst same
      exact absurd (by simpa [Cluster.goes] using applying) other
    · exact held m ⟨here, by simpa [Cluster.goes, same] using applying⟩
  · intro m before after
    by_cases same : m = kkInstance
    · subst same
      exact absurd (by simpa [Cluster.goes] using after) other
    · exact absurd (by simpa [Cluster.goes, same] using after) before

/-- `Lock` returns true for the instance in the ConfigMap. -/
theorem locks (held : Held s) {kkInstance : String} (idle : s.party kkInstance ≠ .applying)
    (named : s.configMap = some ⟨some kkInstance⟩) :
    Held (s.goes kkInstance .applying) ∧ LocksAlone s (s.goes kkInstance .applying) := by
  constructor
  · rintro m ⟨here, applying⟩
    by_cases same : m = kkInstance
    · subst same
      exact named
    · exact held m ⟨here, by simpa [Cluster.goes, same] using applying⟩
  · intro m before after m' upgrading
    have holder : m' = kkInstance := by
      have same := (held m' upgrading).symm.trans named
      simpa using same
    subst holder
    exact idle upgrading.2

/-- A step that changes neither the lock nor a reconcile, and creates no instance that is upgrading. -/
theorem frame (held : Held s) (configMap : s'.configMap = s.configMap) (party : s'.party = s.party)
    (present : ∀ m, s'.present m = true → s.party m = .applying → s.present m = true) :
    Held s' ∧ LocksAlone s s' := by
  constructor
  · rintro m ⟨here, applying⟩
    rw [party] at applying
    rw [configMap]
    exact held m ⟨present m here applying, applying⟩
  · intro m before after
    rw [party] at after
    exact absurd after before

theorem kubeadmUpgrade_ne (upgraded : Bool) (versions : List Bool) : kubeadmUpgrade upgraded versions ≠ .applying := by
  unfold kubeadmUpgrade
  simp only
  split
  · simp
  · split
    · split <;> simp
    · simp

theorem returns_ne (caller : Caller) : caller.returns ≠ .applying := by
  cases caller <;> simp [Caller.returns]

theorem getMachines (held : Held s) {kkInstance : String} {versions : Option (List Bool)}
    (taken : s.getMachines kkInstance versions = some s') : Held s' ∧ LocksAlone s s' := by
  unfold Cluster.getMachines at taken
  split at taken
  · next upgraded here =>
    cases taken
    cases versions with
    | none => exact held.goes (by simp)
    | some versions => exact held.goes (kubeadmUpgrade_ne upgraded versions)
  · cases taken
    cases versions with
    | none => exact held.goes (by simp)
    | some versions =>
      refine held.goes ?_
      simp only [Option.map_some, Option.getD_some, inPlaceUpgradeControlPlane]
      split <;> simp
  · cases taken

theorem getConfigMap (held : Held s) {kkInstance : String} {answered : Bool}
    (taken : s.getConfigMap kkInstance answered = some s') : Held s' ∧ LocksAlone s s' := by
  unfold Cluster.getConfigMap at taken
  split at taken
  · next reading =>
    split at taken
    · cases taken
      exact held.goes (by simp)
    · split at taken
      · cases taken
        exact held.goes (by simp)
      · cases taken
        exact held.goes (by simp)
      · next holder named =>
        split at taken
        · next same =>
          cases taken
          exact held.locks (by simp [reading]) (same ▸ named)
        · cases taken
          exact held.goes (by simp)
  · next caller here =>
    split at taken
    · cases taken
      exact held.goes (by simp)
    · cases taken
      exact held.goes (returns_ne caller)
  · cases taken

theorem getMachine (held : Held s) {kkInstance : String} {answered : Bool}
    (taken : s.getMachine kkInstance answered = some s') : Held s' ∧ LocksAlone s s' := by
  unfold Cluster.getMachine at taken
  split at taken
  · split at taken
    · cases taken
      exact held.goes (by simp)
    · cases taken
      exact held.goes (by simp)
  · cases taken

theorem create (held : Held s) {kkInstance : String} {answered : Bool}
    (taken : s.create kkInstance answered = some s') : Held s' ∧ LocksAlone s s' := by
  unfold Cluster.create at taken
  split at taken
  · next creating =>
    split at taken
    · next free =>
      cases taken
      -- with no ConfigMap nobody is upgrading
      have nobody : ∀ m, ¬ s.Upgrading m := by
        intro m upgrading
        have named := held m upgrading
        rw [free.2] at named
        cases named
      refine ⟨?_, fun _ _ _ => nobody⟩
      rintro m ⟨here, applying⟩
      by_cases same : m = kkInstance
      · rw [same]
        rfl
      · exact absurd ⟨here, by simpa [Cluster.goes, same] using applying⟩ (nobody m)
    · cases taken
      exact held.goes (by simp)
  · cases taken

theorem delete (held : Held s) {kkInstance : String} {answered : Bool}
    (releasable : Releasable s (.delete kkInstance answered)) (taken : s.delete kkInstance answered = some s') :
    Held s' ∧ LocksAlone s s' := by
  unfold Cluster.delete at taken
  split at taken
  · next caller here =>
    cases answered with
    | false =>
      cases taken
      exact held.goes (returns_ne caller)
    | true =>
      cases taken
      -- who is upgrading is in the ConfigMap, and the deletion does not meet it
      have nobody : ∀ m, ¬ s.Upgrading m :=
        fun m upgrading => releasable m (held m upgrading) upgrading
      have free : Held { s with configMap := none } := fun m upgrading => absurd upgrading (nobody m)
      exact free.goes (returns_ne caller)
  · cases taken

theorem command (held : Held s) {kkInstance : String} {succeeded : Bool}
    (taken : s.command kkInstance succeeded = some s') : Held s' ∧ LocksAlone s s' := by
  unfold Cluster.command at taken
  split at taken
  · cases taken
    cases succeeded <;> exact held.goes (by simp)
  · cases taken
    cases succeeded <;> exact held.goes (by simp)
  · cases taken

theorem patchMachine (held : Held s) {kkInstance : String} {answered : Bool}
    (taken : s.patchMachine kkInstance answered = some s') : Held s' ∧ LocksAlone s s' := by
  unfold Cluster.patchMachine at taken
  split at taken
  · cases taken
    cases answered <;> exact held.goes (by simp)
  · cases taken
    exact held.goes (by simp)
  · cases taken

/-- A step that deletes no lock of an instance that is upgrading. -/
theorem step (held : Held s) (releasable : Releasable s r) (taken : s.step r = some s') :
    Held s' ∧ LocksAlone s s' := by
  cases r with
  | reconcile kkInstance upgraded =>
    simp only [Cluster.step] at taken
    split at taken
    · cases taken
      exact held.goes (by simp)
    · cases taken
  | getMachines kkInstance versions => exact held.getMachines taken
  | getConfigMap kkInstance answered => exact held.getConfigMap taken
  | getMachine kkInstance answered => exact held.getMachine taken
  | create kkInstance answered => exact held.create taken
  | delete kkInstance answered => exact held.delete releasable taken
  | command kkInstance succeeded => exact held.command taken
  | patchMachine kkInstance answered => exact held.patchMachine taken
  | instanceCreated kkInstance =>
    simp only [Cluster.step] at taken
    split at taken
    · next idle =>
      cases taken
      refine held.frame rfl rfl fun m here applying => ?_
      by_cases same : m = kkInstance
      · subst same
        simp [idle] at applying
      · simpa [same] using here
    · cases taken
  | instanceDeleted kkInstance =>
    cases taken
    refine held.frame rfl rfl fun m here _ => ?_
    by_cases same : m = kkInstance
    · subst same
      simp at here
    · simpa [same] using here
  | machineCreated machine =>
    cases taken
    exact held.frame rfl rfl fun m here _ => here
  | machineDeleted machine =>
    cases taken
    exact held.frame rfl rfl fun m here _ => here

end Held

/-- In every run in which no deletion meets the lock of an instance that is upgrading, at most one control plane is
being upgraded at any time, and no `Lock` returns true while another instance is upgrading. -/
theorem upgrades_exclusive (configMap : Option ConfigMap) (present machine : String → Bool) (requests : List Request)
    (s : Cluster) (releasable : Along Cluster.step Releasable (new configMap present machine) requests)
    (ran : run Cluster.step (new configMap present machine) requests = some s) :
    s.Exclusive ∧ Along Cluster.step (fun s r => ∀ s', s.step r = some s' → LocksAlone s s')
      (new configMap present machine) requests := by
  have keeps : ∀ s r s', Held s → Releasable s r → Cluster.step s r = some s' → Held s' :=
    fun s r s' held releasable taken => (held.step releasable taken).1
  exact ⟨(Along.invariant keeps (Held.new configMap present machine) releasable ran).exclusive,
    Along.strengthen keeps (fun s r held releasable s' taken => (held.step releasable taken).2)
      (Held.new configMap present machine) releasable⟩

/-- Neither of two control planes has the new version. -/
def twoOld : Option (List Bool) := some [false, false]

/-- The first instance obtains the lock and upgrades. -/
def first : List Request :=
  [.reconcile "cp1" false, .getMachines "cp1" twoOld, .getMachines "cp1" twoOld, .getConfigMap "cp1" true,
   .create "cp1" true]

/-- The second finds no Machine of that name, and releases the lock. -/
def second : List Request :=
  [.reconcile "cp2" false, .getMachines "cp2" twoOld, .getMachines "cp2" twoOld, .getConfigMap "cp2" true,
   .getMachine "cp2" true, .getConfigMap "cp2" true, .delete "cp2" true]

/-- Then it obtains the lock. -/
def third : List Request :=
  [.reconcile "cp2" false, .getMachines "cp2" twoOld, .getMachines "cp2" twoOld, .getConfigMap "cp2" true,
   .create "cp2" true]

def controlPlanes (m : String) : Bool := m = "cp1" ∨ m = "cp2"

/-- The Machines of the control planes have names of their own. -/
def machines (m : String) : Bool := m = "cp1-machine" ∨ m = "cp2-machine"

theorem upgrades_exclusive_first :
    ∃ s, run Cluster.step (new none controlPlanes machines) first = some s ∧ s.party "cp1" = .applying ∧
      s.Exclusive := by
  refine ⟨_, rfl, by decide, (upgrades_exclusive none controlPlanes machines first _ ?_ rfl).1⟩
  simp [first, Along, Releasable]

/-- Both control planes are being upgraded. -/
theorem both_upgrading :
    ∃ s, run Cluster.step (new none controlPlanes machines) (first ++ second ++ third) = some s ∧ ¬ s.Exclusive := by
  refine ⟨_, rfl, fun exclusive => ?_⟩
  have same := exclusive "cp1" "cp2" ⟨by decide, by decide⟩ ⟨by decide, by decide⟩
  revert same
  decide

end Cluster

end KubeKey.KKInstance
