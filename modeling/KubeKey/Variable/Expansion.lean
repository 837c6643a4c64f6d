import KubeKey.Variable.Groups
import KubeKey.Variable.Independence

/-!
# `ConvertGroup`

`pkg/variable/helper.go`, `pkg/variable/variable.go`. The map from the names of the groups to
their hosts has two more names, `all` and `ungrouped`, and the maps of the inventory are
visited in any order. `ConvertGroup` returns if and only if no group contains itself
(`convertGroupIn_isSome_iff`); then it is a map of the partition that its comment promises,
except where the inventory has groups of these two names itself (`convertGroup_partitions_iff`).
-/

namespace KubeKey.Variable

open KubeKey.Go

/-- The orders in which one call of `ConvertGroup` visits the hosts and the groups of the inventory. -/
structure GroupOrder where
  hosts : List String
  names : List String

/-- The orders that a call may take. -/
structure GroupOrder.Of (inv : InventorySpec) (order : GroupOrder) : Prop where
  hosts : order.hosts.Perm inv.hosts.keys
  names : order.names.Perm inv.groups.keys

/-- The order of the lists that stand for the maps. -/
def GroupOrder.listed (inv : InventorySpec) : GroupOrder := ⟨inv.hosts.keys, inv.groups.keys⟩

theorem GroupOrder.listed_of (inv : InventorySpec) : (GroupOrder.listed inv).Of inv :=
  ⟨List.Perm.refl _, List.Perm.refl _⟩

/-! ## When it returns -/

theorem acyclicGroups_iff {inv : InventorySpec} : AcyclicGroups inv ↔ ∀ gn ∈ inv.groups.keys, Acyclic (Refers inv) gn := by
  constructor
  · exact fun acyclic gn _ d _ => acyclic d
  · intro acyclic gn cycle
    obtain ⟨c, refers, _⟩ := Relation.TransGen.head'_iff.1 cycle
    exact acyclic gn (by simpa using refers.mem) gn .refl cycle

theorem hostsInGroup_isSome_iff {inv : InventorySpec} {groupName : String} :
    (hostsInGroup inv (inv.groups.entries.length + 1) groupName).isSome ↔ Acyclic (Refers inv) groupName :=
  ⟨(hostsInGroup_unfolds inv).acyclic, hostsInGroup_enough⟩

theorem expands_iff {inv : InventorySpec} : Expands inv inv.groups.keys ↔ AcyclicGroups inv := by
  rw [acyclicGroups_iff]
  exact forall₂_congr fun gn _ => hostsInGroup_isSome_iff

theorem hostsOf_spec {inv : InventorySpec} (acyclic : AcyclicGroups inv) (groupName : String) :
    (hostsOf inv groupName).Nodup ∧ ∀ h, h ∈ hostsOf inv groupName ↔ HasHost inv groupName h := by
  obtain ⟨hosts, run⟩ := hostsInGroup_returns acyclic groupName
  rw [hostsOf, run]
  exact hostsInGroup_spec run

/-- `ConvertGroup` returns, in every order, exactly if no group contains itself. -/
theorem convertGroupIn_isSome_iff {inv : InventorySpec} {order : GroupOrder} (of : order.Of inv) :
    (convertGroupIn inv order.hosts order.names).isSome ↔ AcyclicGroups inv := by
  rw [← expands_iff]
  constructor
  · intro returns
    obtain ⟨groups, run⟩ := Option.isSome_iff_exists.1 returns
    obtain ⟨s, loop, _⟩ := Option.bind_eq_some_iff.1 run
    exact fun gn member => expands_of_loop loop gn (of.names.mem_iff.2 member)
  · intro expands
    have distinct : order.hosts.Nodup := of.hosts.nodup_iff.2 inv.hosts.distinct
    obtain ⟨groups, run, _⟩ := convertGroupIn_spec expands distinct of.names
    rw [run]
    rfl

theorem convertGroup_isSome_iff {inv : InventorySpec} : (convertGroup inv).isSome ↔ AcyclicGroups inv :=
  convertGroupIn_isSome_iff (GroupOrder.listed_of inv)

/-! ## What it returns -/

/-- The expanded groups, in every order. -/
theorem convertGroupIn_entry {inv : InventorySpec} (acyclic : AcyclicGroups inv) {order : GroupOrder}
    (of : order.Of inv) : ∃ groups, convertGroupIn inv order.hosts order.names = some groups ∧
      ∀ k, groups.get? k = groupEntry inv order.hosts k :=
  convertGroupIn_spec (expands_iff.2 acyclic) (of.hosts.nodup_iff.2 inv.hosts.distinct) of.names

theorem isUngrouped_iff {inv : InventorySpec} (acyclic : AcyclicGroups inv) {h : String} :
    isUngrouped inv inv.groups.keys h = true ↔ ∀ gn ∈ inv.groups.keys, ¬ HasHost inv gn h := by
  simp only [isUngrouped, List.all_eq_true, decide_eq_true_eq, (hostsOf_spec acyclic _).2]

theorem mem_allHosts {hosts : List String} {h : String} : h ∈ allHosts hosts ↔ h ∈ hosts ∨ h = variableLocalHost := by
  unfold allHosts
  split
  · next inside =>
    constructor
    · exact .inl
    · rintro (listed | rfl)
      · exact listed
      · exact inside
  · simp

theorem nodup_allHosts {hosts : List String} (distinct : hosts.Nodup) : (allHosts hosts).Nodup := by
  unfold allHosts
  split
  · exact distinct
  · next absent => exact List.nodup_append.2 ⟨distinct, List.nodup_singleton _, by
      intro a inside b single same
      rw [List.mem_singleton.1 single] at same
      exact absent (same ▸ inside)⟩

/-- The map that `ConvertGroup` is to return. -/
structure Partitions (inv : InventorySpec) (groups : GoMap (List String)) : Prop where
  all : ∃ all, groups.get? variableGroupsAll = some all ∧ all.Nodup ∧
    ∀ h, h ∈ all ↔ h ∈ inv.hosts.keys ∨ h = variableLocalHost
  named : ∀ gn ∈ inv.groups.keys, groups.get? gn = some (hostsOf inv gn)
  ungrouped : ∃ ungrouped, groups.get? variableUnGrouped = some ungrouped ∧ ungrouped.Nodup ∧
    ∀ h, h ∈ ungrouped ↔ h ∈ inv.hosts.keys ∧ ∀ gn ∈ inv.groups.keys, h ∉ hostsOf inv gn

/-- A group of the inventory that is called `all` has all hosts, and one called `ungrouped` has none, nor is there a
host without a group then. -/
structure ReservedNames (inv : InventorySpec) : Prop where
  all : variableGroupsAll ∈ inv.groups.keys →
    ∀ h, HasHost inv variableGroupsAll h ↔ h ∈ inv.hosts.keys ∨ h = variableLocalHost
  ungrouped : variableUnGrouped ∈ inv.groups.keys → (∀ h, ¬ HasHost inv variableUnGrouped h) ∧
    ∀ h ∈ inv.hosts.keys, ∃ gn ∈ inv.groups.keys, HasHost inv gn h

section Partitions
variable {inv : InventorySpec} {order : GroupOrder} {groups : GoMap (List String)}

/-- The hosts that are left in the end are those of no group. -/
theorem mem_ungrouped_iff (acyclic : AcyclicGroups inv) (of : order.Of inv) {h : String} :
    h ∈ order.hosts.filter (isUngrouped inv inv.groups.keys) ↔
      h ∈ inv.hosts.keys ∧ ∀ gn ∈ inv.groups.keys, ¬ HasHost inv gn h := by
  rw [List.mem_filter, isUngrouped_iff acyclic, of.hosts.mem_iff]

theorem partitions_of_reserved (acyclic : AcyclicGroups inv) (of : order.Of inv)
    (entry : ∀ k, groups.get? k = groupEntry inv order.hosts k) (reserved : ReservedNames inv) :
    Partitions inv groups where
  all := by
    rw [entry]
    have other : variableGroupsAll ≠ variableUnGrouped := by decide
    rw [groupEntry, if_neg other]
    by_cases taken : variableGroupsAll ∈ inv.groups.keys
    · rw [if_pos taken]
      obtain ⟨distinct, mem⟩ := hostsOf_spec acyclic variableGroupsAll
      exact ⟨_, rfl, distinct, fun h => (mem h).trans (reserved.all taken h)⟩
    · rw [if_neg taken, if_pos rfl]
      refine ⟨_, rfl, nodup_allHosts (of.hosts.nodup_iff.2 inv.hosts.distinct), fun h => ?_⟩
      rw [mem_allHosts, of.hosts.mem_iff]
  named gn member := by
    rw [entry, groupEntry]
    by_cases same : gn = variableUnGrouped
    · -- the list of the hosts without a group takes the place of the user's group
      subst same
      rw [if_pos rfl]
      obtain ⟨noHost, grouped⟩ := reserved.ungrouped member
      have left : order.hosts.filter (isUngrouped inv inv.groups.keys) = [] := by
        apply List.eq_nil_iff_forall_not_mem.2
        intro h inside
        obtain ⟨known, free⟩ := (mem_ungrouped_iff acyclic of).1 inside
        obtain ⟨gn, listed, has⟩ := grouped h known
        exact free gn listed has
      have empty : hostsOf inv variableUnGrouped = [] := by
        apply List.eq_nil_iff_forall_not_mem.2
        intro h inside
        exact noHost h (((hostsOf_spec acyclic _).2 h).1 inside)
      rw [left, empty]
    · rw [if_neg same, if_pos member]
  ungrouped := by
    rw [entry, groupEntry, if_pos rfl]
    refine ⟨_, rfl, (of.hosts.nodup_iff.2 inv.hosts.distinct).filter _, fun h => ?_⟩
    rw [mem_ungrouped_iff acyclic of]
    simp only [(hostsOf_spec acyclic _).2]

theorem reserved_of_partitions (acyclic : AcyclicGroups inv) (of : order.Of inv)
    (entry : ∀ k, groups.get? k = groupEntry inv order.hosts k) (partitions : Partitions inv groups) :
    ReservedNames inv where
  all taken h := by
    obtain ⟨all, stored, _, mem⟩ := partitions.all
    rw [partitions.named variableGroupsAll taken] at stored
    cases stored
    rw [← (hostsOf_spec acyclic variableGroupsAll).2 h]
    exact mem h
  ungrouped taken := by
    have stored := partitions.named variableUnGrouped taken
    rw [entry, groupEntry, if_pos rfl, Option.some.injEq] at stored
    -- a host of this group is not left over, so the two lists have no host
    have none : ∀ h, h ∉ hostsOf inv variableUnGrouped := by
      intro h inside
      have left : h ∈ order.hosts.filter (isUngrouped inv inv.groups.keys) := by rwa [stored]
      exact ((mem_ungrouped_iff acyclic of).1 left).2 variableUnGrouped taken
        (((hostsOf_spec acyclic _).2 h).1 inside)
    refine ⟨fun h has => none h (((hostsOf_spec acyclic _).2 h).2 has), fun h known => ?_⟩
    by_contra free
    push Not at free
    have left : h ∈ order.hosts.filter (isUngrouped inv inv.groups.keys) := (mem_ungrouped_iff acyclic of).2 ⟨known, free⟩
    rw [stored] at left
    exact none h left

end Partitions

/-- `ConvertGroup` partitions the hosts, in every order, exactly if the reserved names are kept. -/
theorem convertGroup_partitions_iff {inv : InventorySpec} (acyclic : AcyclicGroups inv) :
    (∀ order : GroupOrder, order.Of inv → ∃ groups, convertGroupIn inv order.hosts order.names = some groups ∧
      Partitions inv groups) ↔ ReservedNames inv := by
  constructor
  · intro partitions
    have of := GroupOrder.listed_of inv
    obtain ⟨groups, run, here⟩ := partitions _ of
    obtain ⟨groups', run', entry⟩ := convertGroupIn_entry acyclic of
    rw [run] at run'
    cases run'
    exact reserved_of_partitions acyclic of entry here
  · intro reserved order of
    obtain ⟨groups, run, entry⟩ := convertGroupIn_entry acyclic of
    exact ⟨groups, run, partitions_of_reserved acyclic of entry reserved⟩

theorem convertGroup_partitions_iff_sharedHost : AcyclicGroups sharedHost ∧
    ((∀ order : GroupOrder, order.Of sharedHost → ∃ groups,
      convertGroupIn sharedHost order.hosts order.names = some groups ∧ Partitions sharedHost groups) ↔
        ReservedNames sharedHost) :=
  ⟨sharedHost_acyclic, convertGroup_partitions_iff sharedHost_acyclic⟩

/-- An inventory with a group called `all` that has one of its two hosts. -/
def ownAll : InventorySpec where
  hosts := (GoMap.empty.put "node1" .empty).put "node2" .empty
  vars := .empty
  groups := GoMap.empty.put "all" ⟨[], ["node1"], .empty⟩

theorem ownAll_acyclic : AcyclicGroups ownAll := by
  have leaf : ∀ g c, ¬ Refers ownAll g c := by
    rintro g c ⟨v, found, member⟩
    have entry : (g, v) = ("all", ⟨[], ["node1"], .empty⟩) := List.mem_singleton.1 (GoMap.get?_eq_some_iff.1 found)
    cases entry
    cases member
  intro g cycle
  obtain ⟨c, refers, _⟩ := Relation.TransGen.head'_iff.1 cycle
  exact leaf g c refers

theorem all_loses_node2 : AcyclicGroups ownAll ∧ (GroupOrder.listed ownAll).Of ownAll ∧
    ¬ ∃ groups, convertGroupIn ownAll ["node1", "node2"] ["all"] = some groups ∧ Partitions ownAll groups := by
  refine ⟨ownAll_acyclic, GroupOrder.listed_of ownAll, ?_⟩
  rintro ⟨groups, run, partitions⟩
  obtain ⟨all, stored, _, mem⟩ := partitions.all
  have known : (convertGroupIn ownAll ["node1", "node2"] ["all"]).bind (fun groups => groups.get? "all") =
      some ["node1"] := by decide
  rw [run] at known
  have same : all = ["node1"] := Option.some.inj (stored.symm.trans known)
  have inside : "node2" ∈ all := (mem "node2").2 (.inl (by decide))
  rw [same] at inside
  exact absurd inside (by decide)

/-- Two orders give each group the same hosts. -/
theorem groupEntry_perm {inv : InventorySpec} {hosts hosts' : List String} (perm : hosts.Perm hosts') {k : String}
    {gv : List String} (entry : groupEntry inv hosts k = some gv) :
    ∃ gv', groupEntry inv hosts' k = some gv' ∧ gv.Perm gv' := by
  unfold groupEntry at entry ⊢
  split
  · next ungrouped =>
    rw [if_pos ungrouped] at entry
    cases entry
    exact ⟨_, rfl, perm.filter _⟩
  · next named =>
    rw [if_neg named] at entry
    split
    · next inside =>
      rw [if_pos inside] at entry
      cases entry
      exact ⟨_, rfl, List.Perm.refl _⟩
    · next other =>
      rw [if_neg other] at entry
      split at entry
      · next all =>
        cases entry
        refine ⟨_, if_pos all, ?_⟩
        unfold allHosts
        simp only [perm.mem_iff]
        split
        · exact perm
        · exact perm.append_right _
      · cases entry

/-- The lists that a name may expand to. -/
def expansions (inv : InventorySpec) (k : String) : Set (List String) :=
  {gv | ∃ order : GroupOrder, order.Of inv ∧
    ∃ groups, convertGroupIn inv order.hosts order.names = some groups ∧ groups.get? k = some gv}

/-- They differ in the order of the hosts only. -/
theorem expansions_perm {inv : InventorySpec} (acyclic : AcyclicGroups inv) {k : String} {gv : List String}
    (expansion : gv ∈ expansions inv k) {order : GroupOrder} (of : order.Of inv) :
    ∃ gv', groupEntry inv order.hosts k = some gv' ∧ gv.Perm gv' := by
  obtain ⟨order', of', groups, run, stored⟩ := expansion
  obtain ⟨groups', run', entry⟩ := convertGroupIn_entry acyclic of'
  rw [run] at run'
  cases run'
  rw [entry] at stored
  exact groupEntry_perm (of'.hosts.trans of.hosts.symm) stored

end KubeKey.Variable
