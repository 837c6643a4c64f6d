import KubeKey.Infrastructure.HostSelector
import KubeKey.Infrastructure.ProviderID

/-!
# The two groups stay apart

A sync sets the hosts of its group to those of its machines and appends selected hosts, which were
in no group. So a host comes into both groups only if a machine of one has a host of the other. As
long as the hosts of the machines are in their groups (`Held`), that does not happen: a sync that
gives a host to a machine has put it into the group. Hence the inventory has to be stored after it.

The argument does not depend on what it means to be in a group (`Belongs`): to be listed in it, or
to be found when it is expanded, if neither group contains the other.
-/

namespace KubeKey.Infrastructure

open KubeKey.Go KubeKey.Variable

/-! ## The call of a selector -/

/-- The hosts of the machines of a group. -/
def existHosts (clusterName : String) (group : MachineGroup) (api : List KKMachine) : List String :=
  (api.filter fun m => m.group = group).filterMap fun m =>
    m.providerID.map fun id => providerID2Host clusterName (some id)

/-- The sync comes to the selector, for so many hosts. -/
structure Asks (clusterName : String) (group : MachineGroup) (input : SyncInput) (api : List KKMachine) (remain : Int) :
    Prop where
  asked : ∃ machines : Nat, input.replicas = some (machines : Int) ∧ input.machineList = some machines ∧
    (existHosts clusterName group api).length ≤ machines ∧
      remain = (machines : Int) - (existHosts clusterName group api).length ∧
        (group = .controlPlane → (machines : Int).tmod 2 = 1)
  listed : input.listed = true

/-- What a call of `RandomSelector` meets. -/
def Selection.Real (selection : Selection) (inventory : InventorySpec) : Prop :=
  ∃ rand, ∃ order : GroupOrder, order.Of inventory ∧ ∀ groupName remain,
    randomSelector selection groupName remain inventory =
      HostSelector.randomSelector rand order groupName remain inventory

/-- Every answer of `rand.Int` is met in some call. -/
theorem Selection.real (inventory : InventorySpec) (rand : (i : Nat) → Option (Fin (i + 1))) :
    (⟨HostSelector.shuffleHosts rand, HostSelector.spare inventory (HostSelector.ungrouped inventory)⟩ :
      Selection).Real inventory := by
  refine ⟨rand, .listed inventory, GroupOrder.listed_of inventory, fun groupName remain => ?_⟩
  unfold randomSelector HostSelector.randomSelector HostSelector.select
  have same : convertGroup inventory = convertGroupIn inventory (GroupOrder.listed inventory).hosts
    (GroupOrder.listed inventory).names := rfl
  rw [← same]
  split
  · cases run : convertGroup inventory with
    | none => rfl
    | some groups =>
      have acyclic : AcyclicGroups inventory := convertGroup_isSome_iff.mp (by rw [run]; rfl)
      obtain ⟨groups', run', entry⟩ := convertGroupIn_entry acyclic (GroupOrder.listed_of inventory)
      rw [← same, run, Option.some.injEq] at run'
      subst run'
      have ungrouped : groups.get? variableUnGrouped = some (HostSelector.ungrouped inventory) := by
        rw [entry, groupEntry, if_pos rfl]
        rfl
      rw [Option.map_some, ungrouped]
  · rfl

section Sync
variable {names : GroupNames} {clusterName : String} {group : MachineGroup} {input : SyncInput}
  {inventory : InventorySpec} {api : List KKMachine}

theorem syncGroup_asks {remain : Int} (asks : Asks clusterName group input api remain) :
    syncGroup names clusterName group input inventory api =
      match randomSelector input.selection (names.of group) remain
          (setHosts inventory (names.of group) (existHosts clusterName group api)) with
      | none => .panic (setHosts inventory (names.of group) (existHosts clusterName group api))
      | some (hosts, inventory) => .selected (api.filter fun m => m.group = group) hosts inventory := by
  obtain ⟨⟨machines, replicas, machineList, enough, rfl, odd⟩, listed⟩ := asks
  have replicas_ok : ¬ (group = .controlPlane ∧ (machines : Int).tmod 2 ≠ 1) := fun even => even.2 (odd even.1)
  unfold syncGroup
  rw [replicas]
  dsimp only
  rw [if_neg replicas_ok, machineList]
  dsimp only
  rw [if_neg (not_not.mpr rfl), listed, if_neg (by simp)]
  exact if_neg (not_lt.mpr enough)

theorem syncGroup_silent (silent : ∀ remain, ¬ Asks clusterName group input api remain) :
    syncGroup names clusterName group input inventory api = .error ∨
      syncGroup names clusterName group input inventory api = .waiting := by
  unfold syncGroup
  split
  · exact .inl rfl
  · next groupNum replicas =>
    split
    · exact .inl rfl
    · next odd =>
      split
      · exact .inl rfl
      · next machines machineList =>
        split
        · exact .inr rfl
        · next same =>
          split
          · exact .inl rfl
          · next listed =>
            dsimp only
            split
            · exact .inr rfl
            · next enough =>
              rw [ne_eq, not_not] at same
              subst same
              exact absurd ⟨⟨machines, replicas, machineList, not_lt.mp enough, rfl,
                fun here => not_not.mp fun even => odd ⟨here, even⟩⟩, Bool.not_eq_false _ ▸ listed⟩ (silent _)

end Sync

/-! ## To be in a group -/

/-- The group that a whole sync leaves behind for the cluster. -/
def withCluster (names : GroupNames) (inventory : InventorySpec) : InventorySpec :=
  { inventory with
    groups := inventory.groups.put defaultClusterGroup ⟨[names.controlPlane, names.worker], [], .empty⟩ }

/-- What the argument needs of being in the control-plane or the worker group. -/
structure Belongs (names : GroupNames) where
  valid : InventorySpec → Prop
  holds : InventorySpec → MachineGroup → String → Prop
  listed : ∀ {inventory group host}, host ∈ (groupOf inventory (names.of group)).hosts → holds inventory group host
  grouped : ∀ {inventory group host}, holds inventory group host → ∃ gn, HasHost inventory gn host
  set : ∀ {inventory group hosts host}, holds (setHosts inventory (names.of group) hosts) group host →
    host ∈ hosts ∨ holds inventory group host
  other : ∀ {inventory group group' hosts host}, valid inventory → group' ≠ group →
    (holds (setHosts inventory (names.of group) hosts) group' host ↔ holds inventory group' host)
  cluster : ∀ {inventory group host}, valid inventory →
    (holds (withCluster names inventory) group host ↔ holds inventory group host)
  valid_set : ∀ {inventory group hosts}, valid inventory → valid (setHosts inventory (names.of group) hosts)
  valid_cluster : ∀ {inventory}, valid inventory → valid (withCluster names inventory)

/-- Three groups. -/
structure GroupNames.Apart (names : GroupNames) : Prop where
  other : names.controlPlane ≠ names.worker
  cluster : ∀ group, names.of group ≠ defaultClusterGroup

theorem GroupNames.Apart.of_ne {names : GroupNames} (apart : names.Apart) {group group' : MachineGroup}
    (other : group' ≠ group) : names.of group' ≠ names.of group := by
  cases group <;> cases group'
  · exact absurd rfl other
  · exact apart.other.symm
  · exact apart.other
  · exact absurd rfl other

theorem groupOf_setHosts_ne {inventory : InventorySpec} {groupName gn : String} (hosts : List String)
    (other : gn ≠ groupName) : groupOf (setHosts inventory groupName hosts) gn = groupOf inventory gn := by
  rw [groupOf, setHosts, GoMap.get?_put_ne _ _ other, groupOf]

theorem groupOf_withCluster {names : GroupNames} {inventory : InventorySpec} {gn : String}
    (other : gn ≠ defaultClusterGroup) : groupOf (withCluster names inventory) gn = groupOf inventory gn := by
  rw [groupOf, withCluster, GoMap.get?_put_ne _ _ other, groupOf]

theorem mem_groupOf {inventory : InventorySpec} {gn host : String} :
    host ∈ (groupOf inventory gn).hosts ↔ ∃ v, inventory.groups.get? gn = some v ∧ host ∈ v.hosts := by
  unfold groupOf
  cases inventory.groups.get? gn <;> simp

/-- To be listed in the group. -/
def listedIn (names : GroupNames) (apart : names.Apart) : Belongs names where
  valid _ := True
  holds inventory group host := host ∈ (groupOf inventory (names.of group)).hosts
  listed inside := inside
  grouped inside := by
    obtain ⟨v, found, inside⟩ := mem_groupOf.mp inside
    exact ⟨_, _, v, .refl, found, inside⟩
  set inside := by
    rw [HostSelector.groupOf_setHosts] at inside
    exact .inl inside
  other _ different := by rw [groupOf_setHosts_ne _ (apart.of_ne different)]
  cluster _ := by rw [groupOf_withCluster (apart.cluster _)]
  valid_set _ := trivial
  valid_cluster _ := trivial

section Refers
variable {names : GroupNames} {inventory : InventorySpec} {group group' : MachineGroup} {hosts : List String}
  {host gn gn' : String}

theorem refers_iff : Refers inventory gn gn' ↔ gn' ∈ (groupOf inventory gn).groups := by
  unfold Refers groupOf
  cases inventory.groups.get? gn <;> simp

theorem hasHost_groupOf : HasHost inventory gn host ↔
    ∃ cg, Relation.ReflTransGen (Refers inventory) gn cg ∧ host ∈ (groupOf inventory cg).hosts := by
  unfold HasHost
  simp only [mem_groupOf]
  constructor
  · rintro ⟨cg, v, path, found, inside⟩
    exact ⟨cg, path, v, found, inside⟩
  · rintro ⟨cg, path, v, found, inside⟩
    exact ⟨cg, v, path, found, inside⟩

theorem refers_setHosts (inventory : InventorySpec) (groupName : String) (hosts : List String) :
    Refers (setHosts inventory groupName hosts) = Refers inventory := by
  funext gn gn'
  rw [eq_iff_iff, refers_iff, refers_iff]
  by_cases same : gn = groupName
  · rw [same, HostSelector.groupOf_setHosts]
  · rw [groupOf_setHosts_ne hosts same]

/-- No group of machines leads to the other or to the group of the cluster. -/
structure Unnested (names : GroupNames) (inventory : InventorySpec) : Prop where
  other : ∀ group group', group ≠ group' →
    ¬ Relation.ReflTransGen (Refers inventory) (names.of group) (names.of group')
  cluster : ∀ group, ¬ Relation.ReflTransGen (Refers inventory) (names.of group) defaultClusterGroup

theorem Unnested.apart (unnested : Unnested names inventory) : names.Apart where
  other same := by
    refine unnested.other .controlPlane .worker (by decide) ?_
    show Relation.ReflTransGen _ names.controlPlane names.worker
    rw [same]
  cluster group same := by
    refine unnested.cluster group ?_
    rw [same]

theorem reaches_withCluster (away : ¬ Relation.ReflTransGen (Refers inventory) gn defaultClusterGroup) :
    Relation.ReflTransGen (Refers (withCluster names inventory)) gn gn' ↔
      Relation.ReflTransGen (Refers inventory) gn gn' := by
  constructor
  · intro path
    induction path with
    | refl => exact .refl
    | tail _ last ih =>
      refine ih.tail ?_
      rw [refers_iff, groupOf_withCluster fun same => away (same ▸ ih)] at last
      exact refers_iff.mpr last
  · intro path
    induction path with
    | refl => exact .refl
    | tail front last ih =>
      refine ih.tail (refers_iff.mpr ?_)
      rw [groupOf_withCluster fun same => away (same ▸ front)]
      exact refers_iff.mp last

/-- To be found when the group is expanded. -/
def foundIn (names : GroupNames) : Belongs names where
  valid := Unnested names
  holds inventory group host := HasHost inventory (names.of group) host
  listed inside := hasHost_groupOf.mpr ⟨_, .refl, inside⟩
  grouped has := ⟨_, has⟩
  set {inventory group hosts host} has := by
    obtain ⟨cg, path, inside⟩ := hasHost_groupOf.mp has
    rw [refers_setHosts] at path
    by_cases same : cg = names.of group
    · rw [same, HostSelector.groupOf_setHosts] at inside
      exact .inl inside
    · rw [groupOf_setHosts_ne _ same] at inside
      exact .inr (hasHost_groupOf.mpr ⟨cg, path, inside⟩)
  other {inventory group group' hosts host} unnested different := by
    rw [hasHost_groupOf, hasHost_groupOf, refers_setHosts]
    refine exists_congr fun cg => and_congr_right fun path => ?_
    have away : cg ≠ names.of group := fun same => unnested.other group' group different (same ▸ path)
    rw [groupOf_setHosts_ne hosts away]
  cluster {inventory group host} unnested := by
    rw [hasHost_groupOf, hasHost_groupOf]
    refine exists_congr fun cg => ?_
    rw [reaches_withCluster (unnested.cluster group)]
    refine and_congr_right fun path => ?_
    rw [groupOf_withCluster fun same => unnested.cluster group (same ▸ path)]
  valid_set unnested := by
    constructor
    · rw [refers_setHosts]
      exact unnested.other
    · rw [refers_setHosts]
      exact unnested.cluster
  valid_cluster unnested := by
    refine ⟨fun group group' different path => ?_, fun group path => ?_⟩
    · exact unnested.other group group' different ((reaches_withCluster (unnested.cluster group)).mp path)
    · exact unnested.cluster group ((reaches_withCluster (unnested.cluster group)).mp path)

end Refers

/-! ## Runs -/

theorem mem_existHosts {clusterName : String} {group : MachineGroup} {api : List KKMachine} {host : String} :
    host ∈ existHosts clusterName group api ↔
      ∃ m ∈ api, m.group = group ∧ ∃ id, m.providerID = some id ∧ providerID2Host clusterName (some id) = host := by
  simp only [existHosts, List.mem_filterMap, List.mem_filter, decide_eq_true_eq, Option.map_eq_some_iff, and_assoc]

/-- What `setProviderID` gives to the machines of a group are hosts of its list. -/
theorem existHosts_setProviderID {clusterName host : String} {group group' : MachineGroup} {api : List KKMachine}
    (distinct : (api.map KKMachine.name).Nodup) (answered : String → Bool) (hosts : List String)
    (inside : host ∈ existHosts clusterName group'
      (setProviderID clusterName (api.filter fun m => m.group = group) answered hosts api).2) :
    host ∈ existHosts clusterName group' api ∨ group' = group ∧ host ∈ hosts := by
  cases hosts with
  | nil => exact .inl inside
  | cons first hosts =>
    have fresh := fresh_filter distinct fun m => m.group = group
    rw [setProviderID_cons fresh] at inside
    obtain ⟨m, stored, here, id, set, same⟩ := mem_existHosts.mp inside
    obtain ⟨old, before, -, rfl⟩ := mem_assign.mp stored
    split at here
    · next reached =>
      rw [if_pos reached] at set
      have listed := (unset_of_reached fresh before reached).1
      rw [List.mem_filter, decide_eq_true_eq] at listed
      cases set
      rw [providerID2Host_host2ProviderID] at same
      exact .inr ⟨here.symm.trans listed.2, same ▸ List.mem_cons_self⟩
    · next other =>
      rw [if_neg other] at set
      exact .inl (mem_existHosts.mpr ⟨old, before, here, id, set, same⟩)

namespace Cluster

variable {names : GroupNames} {clusterName : String} {s s' : Cluster} {a : Act}

/-- The inventory that the reconciler works on. -/
def current (s : Cluster) : InventorySpec :=
  match s.stage with
  | .idle => s.inventory
  | .sync _ inventory => inventory
  | .patch inventory => inventory

/-- The steps of reconciles whose selections can be met and whose inventory is stored, and of the machines that come
and go. -/
def Orderly (names : GroupNames) (clusterName : String) (s : Cluster) : Act → Prop
  | .sync input => ∀ group inventory, s.stage = .sync group inventory →
      ∀ remain, Asks clusterName group input s.machines remain →
        input.selection.Real (setHosts inventory (names.of group) (existHosts clusterName group s.machines)) ∧
          HostSelector.Enough remain
            (setHosts inventory (names.of group) (existHosts clusterName group s.machines))
  | .patch answered => answered = true
  | .inventoryEdited _ => False
  | _ => True

/-- The call of the selector in a sync does what it is for. -/
def Selected (names : GroupNames) (clusterName : String) (s : Cluster) : Act → Prop
  | .sync input => ∀ group inventory, s.stage = .sync group inventory →
      ∀ remain, Asks clusterName group input s.machines remain → ∃ hosts inventory',
        syncGroup names clusterName group input inventory s.machines =
          .selected (s.machines.filter fun m => m.group = group) hosts inventory' ∧
        HostSelector.Selects (names.of group) remain
          (setHosts inventory (names.of group) (existHosts clusterName group s.machines)) hosts inventory'
  | _ => True

/-- The hosts of the machines are in their groups, and only these hosts are in both groups. -/
structure Held (belongs : Belongs names) (clusterName : String) (both : String → Prop) (inventory : InventorySpec)
    (machines : List KKMachine) : Prop where
  valid : belongs.valid inventory
  held : ∀ group, ∀ h ∈ existHosts clusterName group machines, belongs.holds inventory group h
  apart : ∀ h, (∀ group, belongs.holds inventory group h) → both h

/-- The invariant of a run: also the stored inventory has no other hosts in both groups. -/
structure Holding (belongs : Belongs names) (clusterName : String) (both : String → Prop) (s : Cluster) : Prop where
  names : (s.machines.map KKMachine.name).Nodup
  current : Held belongs clusterName both s.current s.machines
  stored : ∀ h, (∀ group, belongs.holds s.inventory group h) → both h

section Held
variable {belongs : Belongs names} {both : String → Prop} {inventory inventory' : InventorySpec}
  {machines machines' : List KKMachine} {group : MachineGroup}

/-- Machines that have no new hosts. -/
theorem Held.mono (held : Held belongs clusterName both inventory machines)
    (fewer : ∀ group, ∀ h ∈ existHosts clusterName group machines', h ∈ existHosts clusterName group machines) :
    Held belongs clusterName both inventory machines' :=
  ⟨held.valid, fun group h inside => held.held group h (fewer group h inside), held.apart⟩

theorem Held.withCluster (held : Held belongs clusterName both inventory machines) :
    Held belongs clusterName both (withCluster names inventory) machines where
  valid := belongs.valid_cluster held.valid
  held group h inside := (belongs.cluster held.valid).mpr (held.held group h inside)
  apart h inside := held.apart h fun group => (belongs.cluster held.valid).mp (inside group)

/-- The hosts of a group become those of its machines. -/
theorem Held.exist (held : Held belongs clusterName both inventory machines) (group : MachineGroup) :
    Held belongs clusterName both
      (setHosts inventory (names.of group) (existHosts clusterName group machines)) machines where
  valid := belongs.valid_set held.valid
  held group' h inside := by
    by_cases same : group' = group
    · subst same
      refine belongs.listed ?_
      rw [HostSelector.groupOf_setHosts]
      exact inside
    · exact (belongs.other held.valid same).mpr (held.held group' h inside)
  apart h inside := by
    refine held.apart h fun group' => ?_
    by_cases same : group' = group
    · subst same
      exact (belongs.set (inside group')).elim (held.held group' h) id
    · exact (belongs.other held.valid same).mp (inside group')

/-- Hosts of no group are appended to a group, and given to its machines. -/
theorem Held.append (held : Held belongs clusterName both inventory machines) {hosts : List String}
    (listed : ∀ h ∈ existHosts clusterName group machines, h ∈ (groupOf inventory (names.of group)).hosts)
    (free : ∀ h ∈ hosts, ∀ gn, ¬ HasHost inventory gn h)
    (given : ∀ group', ∀ h ∈ existHosts clusterName group' machines',
      h ∈ existHosts clusterName group' machines ∨ group' = group ∧ h ∈ hosts) :
    Held belongs clusterName both
      (setHosts inventory (names.of group) ((groupOf inventory (names.of group)).hosts ++ hosts)) machines' where
  valid := belongs.valid_set held.valid
  held group' h inside := by
    by_cases same : group' = group
    · subst same
      refine belongs.listed ?_
      rw [HostSelector.groupOf_setHosts]
      exact List.mem_append.mpr ((given group' h inside).imp (listed h) And.right)
    · refine (belongs.other held.valid same).mpr (held.held group' h ?_)
      exact (given group' h inside).resolve_right fun other => same other.1
  apart h inside := by
    have before : ∀ group', group' ≠ group → belongs.holds inventory group' h := fun group' different =>
      (belongs.other held.valid different).mp (inside group')
    have here : belongs.holds inventory group h := by
      rcases belongs.set (inside group) with there | there
      · rcases List.mem_append.mp there with old | new
        · exact belongs.listed old
        · obtain ⟨group', different⟩ : ∃ group' : MachineGroup, group' ≠ group := by
            cases group
            · exact ⟨.worker, by decide⟩
            · exact ⟨.controlPlane, by decide⟩
          obtain ⟨gn, has⟩ := belongs.grouped (before group' different)
          exact absurd has (free h new gn)
      · exact there
    refine held.apart h fun group' => ?_
    by_cases same : group' = group
    · exact same ▸ here
    · exact before group' same

theorem current_settle (s : Cluster) (group : MachineGroup) (ok : Bool) :
    (s.settle names group ok inventory machines).current = inventory ∨
      (s.settle names group ok inventory machines).current = Infrastructure.withCluster names inventory := by
  unfold settle
  split
  · exact .inl rfl
  · cases group
    · exact .inl rfl
    · exact .inr rfl

theorem settle_inventory (s : Cluster) (group : MachineGroup) (ok : Bool) :
    (s.settle names group ok inventory machines).inventory = s.inventory := by
  unfold settle
  split
  · rfl
  · split <;> rfl

end Held

section Invariant
variable {belongs : Belongs names} {both : String → Prop}

/-- Where a sync leaves the inventory and the machines. -/
theorem Holding.settle (holding : Holding belongs clusterName both s) {inventory : InventorySpec}
    {machines : List KKMachine} (unique : (machines.map KKMachine.name).Nodup)
    (held : Held belongs clusterName both inventory machines) (group : MachineGroup) (ok : Bool) :
    Holding belongs clusterName both (s.settle names group ok inventory machines) where
  names := by rwa [settle_machines]
  current := by
    rw [settle_machines]
    rcases @current_settle names inventory machines s group ok with same | same
    · rw [same]
      exact held
    · rw [same]
      exact held.withCluster
  stored := by
    rw [settle_inventory]
    exact holding.stored

/-- What the selector returns in a sync. -/
theorem selected_of_orderly {input : SyncInput} {group : MachineGroup} {inventory : InventorySpec} {remain : Int}
    (real : input.selection.Real inventory) (enough : HostSelector.Enough remain inventory) :
    ∃ hosts inventory', randomSelector input.selection (names.of group) remain inventory = some (hosts, inventory') ∧
      HostSelector.Selects (names.of group) remain inventory hosts inventory' ∧
        (hosts = [] ∧ inventory' = inventory ∨ inventory' =
          setHosts inventory (names.of group) ((groupOf inventory (names.of group)).hosts ++ hosts)) := by
  obtain ⟨rand, order, of, same⟩ := real
  obtain ⟨hosts, inventory', selected, selects⟩ :=
    (HostSelector.select_iff (HostSelector.shuffleHosts_perm rand) of).mpr enough
  exact ⟨hosts, inventory', (same _ _).trans selected, selects, HostSelector.select_cases selected⟩

theorem Holding.sync (holding : Holding belongs clusterName both s) {group : MachineGroup} {inventory : InventorySpec}
    {input : SyncInput} (here : s.stage = .sync group inventory) (orderly : s.Orderly names clusterName (.sync input)) :
    Holding belongs clusterName both (s.syncStep names clusterName group inventory input) := by
  have held : Held belongs clusterName both inventory s.machines := by
    have current := holding.current
    rwa [Cluster.current, here] at current
  unfold syncStep
  by_cases asks : ∃ remain, Asks clusterName group input s.machines remain
  · obtain ⟨remain, asks⟩ := asks
    obtain ⟨real, enough⟩ := orderly group inventory here remain asks
    obtain ⟨hosts, inventory', selected, selects, form⟩ := @selected_of_orderly names input group _ remain real enough
    rw [syncGroup_asks asks, selected]
    have given := fun group' h => @existHosts_setProviderID clusterName h group group' s.machines holding.names
      input.answered hosts
    have unique : ((setProviderID clusterName (s.machines.filter fun m => m.group = group) input.answered hosts
        s.machines).2.map KKMachine.name).Nodup := by
      rw [names_setProviderID (fresh_filter holding.names _)]
      exact holding.names
    have exist := held.exist group
    refine holding.settle unique ?_ group _
    rcases form with ⟨rfl, rfl⟩ | rfl
    · exact exist.mono fun group' h inside => (given group' h inside).resolve_right fun new =>
        absurd new.2 List.not_mem_nil
    · refine exist.append (fun h inside => ?_) selects.free given
      rw [HostSelector.groupOf_setHosts]
      exact inside
  · rw [not_exists] at asks
    rcases @syncGroup_silent names clusterName group input inventory s.machines asks with silent | silent
    · rw [silent]
      exact holding.settle holding.names held group false
    · rw [silent]
      exact holding.settle holding.names held group true

theorem Holding.step (holding : Holding belongs clusterName both s) (orderly : s.Orderly names clusterName a)
    (taken : s.step names clusterName a = some s') : Holding belongs clusterName both s' := by
  cases a with
  | reconcile =>
    simp only [Cluster.step] at taken
    split at taken
    · next idle =>
      cases taken
      have current := holding.current
      rw [Cluster.current, idle] at current
      exact ⟨holding.names, current, holding.stored⟩
    · cases taken
  | sync input =>
    simp only [Cluster.step] at taken
    split at taken
    · next group inventory here =>
      cases taken
      exact holding.sync here orderly
    · cases taken
  | patch answered =>
    simp only [Cluster.step] at taken
    split at taken
    · next inventory here =>
      cases taken
      have current := holding.current
      rw [Cluster.current, here] at current
      cases (show answered = true from orderly)
      exact ⟨holding.names, current, current.apart⟩
    · cases taken
  | machineCreated name group =>
    simp only [Cluster.step] at taken
    split at taken
    · cases taken
    · next new =>
      cases taken
      refine ⟨?_, holding.current.mono fun group' h inside => ?_, holding.stored⟩
      · rw [List.map_append, List.nodup_append]
        refine ⟨holding.names, List.nodup_singleton _, fun n old n' created same => new ?_⟩
        have named : n' = name := List.mem_singleton.mp created
        rw [← named, ← same]
        exact old
      · obtain ⟨m, stored, there, id, set, same⟩ := mem_existHosts.mp inside
        rcases List.mem_append.mp stored with old | created
        · exact mem_existHosts.mpr ⟨m, old, there, id, set, same⟩
        · rw [List.mem_singleton.mp created] at set
          cases set
  | machineDeleted name =>
    cases taken
    refine ⟨holding.names.sublist (List.filter_sublist.map _), holding.current.mono fun group' h inside => ?_,
      holding.stored⟩
    obtain ⟨m, stored, rest⟩ := mem_existHosts.mp inside
    exact mem_existHosts.mpr ⟨m, List.mem_of_mem_filter stored, rest⟩
  | machineUpdated name =>
    cases taken
    have same : ∀ m : KKMachine,
        (if m.name = name then { m with resourceVersion := m.resourceVersion + 1 } else m).name = m.name ∧
          (if m.name = name then { m with resourceVersion := m.resourceVersion + 1 } else m).group = m.group ∧
          (if m.name = name then { m with resourceVersion := m.resourceVersion + 1 } else m).providerID =
            m.providerID := by
      intro m
      split <;> exact ⟨rfl, rfl, rfl⟩
    refine ⟨?_, holding.current.mono fun group' h inside => ?_, holding.stored⟩
    · have kept := List.map_congr_left (l := s.machines) fun m _ => (same m).1
      rw [List.map_map]
      exact (congrArg List.Nodup kept).mpr holding.names
    · obtain ⟨m, stored, there, id, set, host⟩ := mem_existHosts.mp inside
      obtain ⟨old, before, rfl⟩ := List.mem_map.mp stored
      exact mem_existHosts.mpr ⟨old, before, (same old).2.1.symm.trans there, id, (same old).2.2.symm.trans set, host⟩
  | inventoryEdited inventory => exact absurd orderly id

theorem Orderly.selected (orderly : s.Orderly names clusterName a) : s.Selected names clusterName a := by
  cases a with
  | sync input =>
    intro group inventory here remain asks
    obtain ⟨real, enough⟩ := orderly group inventory here remain asks
    obtain ⟨hosts, inventory', selected, selects, -⟩ := @selected_of_orderly names input group _ remain real enough
    refine ⟨hosts, inventory', ?_, selects⟩
    rw [syncGroup_asks asks, selected]
  | _ => trivial

end Invariant

/-- The stored inventory of every state, and the one in the reconciler, have only those hosts in both groups that were
in both in the beginning, and every selector call in between does what it is for. -/
def KeepsApart (belongs : Belongs names) (clusterName : String) (s : Cluster) : Prop :=
  ∀ acts t, Along (Cluster.step names clusterName) (Orderly names clusterName) s acts →
    run (Cluster.step names clusterName) s acts = some t →
      (∀ inventory ∈ [t.inventory, t.current], ∀ h, (∀ group, belongs.holds inventory group h) →
        ∀ group, belongs.holds s.inventory group h) ∧
      Along (Cluster.step names clusterName) (Selected names clusterName) s acts

/-- No reconcile is under way, and the hosts of the machines are in their groups. -/
structure Settled (belongs : Belongs names) (clusterName : String) (s : Cluster) : Prop where
  idle : s.stage = .idle
  names : (s.machines.map KKMachine.name).Nodup
  valid : belongs.valid s.inventory
  held : ∀ group, ∀ h ∈ existHosts clusterName group s.machines, belongs.holds s.inventory group h

theorem Settled.keepsApart {belongs : Belongs names} (settled : s.Settled belongs clusterName) :
    s.KeepsApart belongs clusterName := by
  intro acts t along ran
  have start : Holding belongs clusterName (fun h => ∀ group, belongs.holds s.inventory group h) s := by
    refine ⟨settled.names, ?_, fun h both => both⟩
    rw [Cluster.current, settled.idle]
    exact ⟨settled.valid, settled.held, fun h both => both⟩
  have done := Along.invariant (fun s a s' holding orderly taken => Holding.step holding orderly taken) start along ran
  refine ⟨?_, Along.strengthen (fun s a s' holding orderly taken => Holding.step holding orderly taken)
    (fun s a _ orderly => Orderly.selected orderly) start along⟩
  rw [List.forall_mem_cons, List.forall_mem_singleton]
  exact ⟨done.stored, done.current.apart⟩

end Cluster

/-- A call of a selector is safe exactly if enough hosts without a group can be found. In a run of reconciles whose
calls are so and whose inventory is stored, no other host gets into both groups. -/
theorem selectors_safe (names : GroupNames) (clusterName : String) :
    (∀ (inventory : InventorySpec) (order : GroupOrder) (groupName : String) (remain : Int), order.Of inventory →
      ((∃ hosts inventory', HostSelector.sequenceSelector order groupName remain inventory = some (hosts, inventory') ∧
          HostSelector.Selects groupName remain inventory hosts inventory') ↔ HostSelector.Enough remain inventory) ∧
      ∀ rand, (∃ hosts inventory',
          HostSelector.randomSelector rand order groupName remain inventory = some (hosts, inventory') ∧
          HostSelector.Selects groupName remain inventory hosts inventory') ↔ HostSelector.Enough remain inventory) ∧
    (∀ (apart : names.Apart) (s : Cluster), s.Settled (listedIn names apart) clusterName →
      s.KeepsApart (listedIn names apart) clusterName) ∧
    ∀ s : Cluster, s.Settled (foundIn names) clusterName → s.KeepsApart (foundIn names) clusterName := by
  refine ⟨fun inventory order groupName remain of => ⟨?_, fun rand => ?_⟩, fun apart s settled => ?_,
    fun s settled => ?_⟩
  · exact HostSelector.select_iff List.Perm.refl of
  · exact HostSelector.select_iff (HostSelector.shuffleHosts_perm rand) of
  · exact settled.keepsApart
  · exact settled.keepsApart

/-- Groups of hosts only. -/
theorem acyclic_of_flat {inventory : InventorySpec} (flat : ∀ gn, (groupOf inventory gn).groups = []) :
    AcyclicGroups inventory := by
  intro gn cycle
  obtain ⟨c, refers, -⟩ := Relation.TransGen.head'_iff.mp cycle
  rw [refers_iff, flat gn] at refers
  exact absurd refers List.not_mem_nil

/-- The selection of a reconcile of `oneMachine`. -/
def oneSelection : SyncInput :=
  { answeredSync 1 with selection := ⟨HostSelector.shuffleHosts fun _ => none,
      HostSelector.spare (setHosts oneMachine.inventory groupNames.controlPlane [])
        (HostSelector.ungrouped (setHosts oneMachine.inventory groupNames.controlPlane []))⟩ }

theorem flat_setHosts (gn : String) :
    (groupOf (setHosts oneMachine.inventory groupNames.controlPlane []) gn).groups = [] := by
  by_cases same : gn = groupNames.controlPlane
  · rw [same]
    rfl
  · rw [groupOf_setHosts_ne [] same]
    rfl

theorem not_hasHost_oneMachine (gn h : String) : ¬ HasHost oneMachine.inventory gn h := by
  intro has
  obtain ⟨cg, -, inside⟩ := hasHost_groupOf.mp has
  exact absurd inside List.not_mem_nil

theorem unnested_oneMachine : Unnested groupNames oneMachine.inventory := by
  have stays : ∀ gn gn', gn ≠ gn' → ¬ Relation.ReflTransGen (Refers oneMachine.inventory) gn gn' := by
    intro gn gn' other path
    rcases path.cases_head with same | ⟨c, refers, -⟩
    · exact other same
    · exact absurd (refers_iff.mp refers) List.not_mem_nil
  refine ⟨fun group group' other => stays _ _ ?_, fun group => stays _ _ ?_⟩
  · cases group <;> cases group' <;> first | exact absurd rfl other | decide
  · cases group <;> decide

theorem orderly_oneMachine : Along (Cluster.step groupNames "c") (Cluster.Orderly groupNames "c") oneMachine
    [.reconcile, .sync oneSelection] := by
  refine ⟨trivial, fun s' taken => ?_⟩
  cases taken
  refine ⟨fun group inventory here remain asks => ?_, fun _ _ => trivial⟩
  cases here
  obtain ⟨⟨machines, replicas, -, -, rfl, -⟩, -⟩ := asks
  have one : machines = 1 := (Int.ofNat.inj (Option.some.inj replicas)).symm
  subst one
  exact ⟨Selection.real _ _, .inr ⟨acyclic_of_flat flat_setHosts, by decide⟩⟩

theorem selectors_safe_oneMachine :
    (∃ hosts inventory', HostSelector.sequenceSelector (.listed oneMachine.inventory) "kube_worker" 1
        oneMachine.inventory = some (hosts, inventory') ∧
      HostSelector.Selects "kube_worker" 1 oneMachine.inventory hosts inventory') ∧
    ∃ t, run (Cluster.step groupNames "c") oneMachine [.reconcile, .sync oneSelection] = some t ∧
      ∀ h, ¬ ∀ group, HasHost t.current (groupNames.of group) h := by
  obtain ⟨calls, -, found⟩ := selectors_safe groupNames "c"
  refine ⟨(calls oneMachine.inventory _ "kube_worker" 1 (GroupOrder.listed_of _)).1.mpr
    (.inr ⟨acyclic_of_flat fun _ => rfl, by decide⟩), _, rfl, fun h both => ?_⟩
  have settled : oneMachine.Settled (foundIn groupNames) "c" := by
    refine ⟨rfl, by decide, unnested_oneMachine, fun group h inside => ?_⟩
    obtain ⟨m, stored, -, id, set, -⟩ := mem_existHosts.mp inside
    rw [List.mem_singleton.mp stored] at set
    cases set
  have kept := (found oneMachine settled _ _ orderly_oneMachine rfl).1
  exact not_hasHost_oneMachine _ h (kept _ (List.mem_cons_of_mem _ List.mem_cons_self) h both .worker)

/-- More hosts than the inventory has. -/
theorem sequenceSelector_panics :
    ¬ ∃ hosts inventory', HostSelector.sequenceSelector (.listed oneMachine.inventory) "kube_worker" 2
        oneMachine.inventory = some (hosts, inventory') ∧
      HostSelector.Selects "kube_worker" 2 oneMachine.inventory hosts inventory' := by
  rintro ⟨hosts, inventory', selected, -⟩
  have panics : HostSelector.sequenceSelector (.listed oneMachine.inventory) "kube_worker" 2
      oneMachine.inventory = none := rfl
  rw [panics] at selected
  cases selected

end KubeKey.Infrastructure
