import KubeKey.Go.Fuel
import KubeKey.Go.Range
import KubeKey.Variable.Inventory

/-!
# The hosts of a group

`pkg/variable/helper.go`, `api/core/v1/inventory_types.go`. Two functions expand a group to its
hosts. `hostsInGroup` joins what the groups below it expand to, and does not return on a group
that leads to a cycle. `GetHostsFromGroup` marks the groups and the hosts it has met in two
sets that all its calls share, and leaves out the hosts that the inventory does not have.

What both are for is `HasHost`: the host is listed in a group that is reached from this one.
The invariant of the marks is `Finished`: of a group that is marked, and is not one that the
walk is still in, every host is marked.
-/

namespace KubeKey.Variable

open KubeKey.Go

/-- The group `groupName` of the inventory names the group `cg`. -/
def Refers (inv : InventorySpec) (groupName cg : String) : Prop :=
  ∃ v, inv.groups.get? groupName = some v ∧ cg ∈ v.groups

/-- No group contains itself, directly or through other groups. -/
def AcyclicGroups (inv : InventorySpec) : Prop := ∀ groupName, ¬ Relation.TransGen (Refers inv) groupName groupName

/-- The host is listed in the group, or in one that is reached from it. -/
def HasHost (inv : InventorySpec) (groupName hostname : String) : Prop :=
  ∃ cg v, Relation.ReflTransGen (Refers inv) groupName cg ∧ inv.groups.get? cg = some v ∧ hostname ∈ v.hosts

theorem hasHost_iff {inv : InventorySpec} {groupName hostname : String} :
    HasHost inv groupName hostname ↔ ∃ v, inv.groups.get? groupName = some v ∧
      ((∃ cg ∈ v.groups, HasHost inv cg hostname) ∨ hostname ∈ v.hosts) := by
  constructor
  · rintro ⟨cg, w, path, stored, listed⟩
    obtain rfl | ⟨next, ⟨v, found, member⟩, rest⟩ := path.cases_head
    · exact ⟨w, stored, .inr listed⟩
    · exact ⟨v, found, .inl ⟨next, member, cg, w, rest, stored, listed⟩⟩
  · rintro ⟨v, found, ⟨cg, member, c, w, path, stored, listed⟩ | listed⟩
    · exact ⟨c, w, .head ⟨v, found, member⟩ path, stored, listed⟩
    · exact ⟨groupName, v, .refl, found, listed⟩

/-- Only groups of the inventory refer to others. -/
theorem Refers.mem {inv : InventorySpec} {groupName cg : String} (refers : Refers inv groupName cg) :
    groupName ∈ inv.groups.keys.toFinset := by
  obtain ⟨v, found, _⟩ := refers
  rw [List.mem_toFinset, ← GoMap.get?_isSome_iff, found]
  rfl

theorem card_groups (inv : InventorySpec) : inv.groups.keys.toFinset.card = inv.groups.entries.length := by
  have distinct : inv.groups.keys.Nodup := inv.groups.distinct
  rw [List.toFinset_card_of_nodup distinct, GoMap.keys, List.length_map]

/-! ## `hostsInGroup` -/

theorem mem_addUnique {mg : List String} {v h : String} : h ∈ addUnique mg v ↔ h ∈ mg ∨ h = v := by
  unfold addUnique
  split
  · next inside =>
    constructor
    · exact .inl
    · rintro (old | rfl)
      · exact old
      · exact inside
  · simp

theorem nodup_addUnique {mg : List String} (distinct : mg.Nodup) (v : String) : (addUnique mg v).Nodup := by
  unfold addUnique
  split
  · exact distinct
  · next absent => exact List.nodup_append.2 ⟨distinct, List.nodup_singleton v, by
      intro a inside b single same
      rw [List.mem_singleton.1 single] at same
      exact absent (same ▸ inside)⟩

theorem foldl_addUnique (g : List String) : ∀ {mg : List String}, mg.Nodup →
    (g.foldl addUnique mg).Nodup ∧ ∀ h, h ∈ g.foldl addUnique mg ↔ h ∈ mg ∨ h ∈ g := by
  induction g with
  | nil =>
    intro mg distinct
    exact ⟨distinct, by simp⟩
  | cons v g ih =>
    intro mg distinct
    obtain ⟨nodup, mem⟩ := ih (nodup_addUnique distinct v)
    refine ⟨nodup, fun h => ?_⟩
    rw [List.foldl_cons, mem, mem_addUnique, List.mem_cons, or_assoc]

theorem nodup_combineSlice (g1 g2 : List String) : (combineSlice g1 g2).Nodup :=
  (foldl_addUnique (g1 ++ g2) List.nodup_nil).1

@[simp] theorem mem_combineSlice {g1 g2 : List String} {h : String} : h ∈ combineSlice g1 g2 ↔ h ∈ g1 ∨ h ∈ g2 := by
  unfold combineSlice
  rw [(foldl_addUnique (g1 ++ g2) List.nodup_nil).2]
  simp

/-- One level of `hostsInGroup`. -/
def hostsInGroupBody (inv : InventorySpec) (call : String → Option (List String)) (groupName : String) :
    Option (List String) :=
  match inv.groups.get? groupName with
  | some v => do
    let hosts ← v.groups.foldlM (fun hosts cg => do
      let sub ← call cg
      some (combineSlice sub hosts)) []
    some (combineSlice hosts v.hosts)
  | none => some []

theorem hostsInGroup_unfolds (inv : InventorySpec) :
    Unfolds (Refers inv) (hostsInGroupBody inv) (hostsInGroup inv) where
  zero _ := rfl
  succ _ _ := rfl
  keeps x y keeps groupName hosts run := by
    unfold hostsInGroupBody at run ⊢
    cases found : inv.groups.get? groupName with
    | none => simpa only [found] using run
    | some v =>
      simp only [found] at run ⊢
      obtain ⟨sub, loop, rest⟩ := Option.bind_eq_some_iff.1 run
      refine Option.bind_eq_some_iff.2 ⟨sub, foldlM_keeps ?_ loop, rest⟩
      intro s cg s' round
      obtain ⟨hosts, call, join⟩ := Option.bind_eq_some_iff.1 round
      exact Option.bind_eq_some_iff.2 ⟨hosts, keeps cg hosts call, join⟩
  ends_iff x groupName := by
    unfold hostsInGroupBody Refers
    cases found : inv.groups.get? groupName with
    | none => simp
    | some v =>
      have ends : ∀ o : Option (List String), (o.bind fun hosts => some (combineSlice hosts v.hosts)).isSome ↔
          o.isSome := fun o => by cases o <;> rfl
      refine (ends _).trans ((foldlM_isSome_iff (x := x) fun s cg => ?_).trans (by simp))
      cases x cg <;> rfl

/-- The fuel of `ConvertGroup` is enough for every group that leads to no cycle. -/
theorem hostsInGroup_enough {inv : InventorySpec} {groupName : String} (acyclic : Acyclic (Refers inv) groupName) :
    (hostsInGroup inv (inv.groups.entries.length + 1) groupName).isSome := by
  rw [← card_groups]
  exact (hostsInGroup_unfolds inv).enough inv.groups.keys.toFinset acyclic fun _ _ _ refers => refers.mem

/-- Without a cycle every name expands, also one that is no group. -/
theorem hostsInGroup_returns {inv : InventorySpec} (acyclic : AcyclicGroups inv) (groupName : String) :
    ∃ hosts, hostsInGroup inv (inv.groups.entries.length + 1) groupName = some hosts :=
  Option.isSome_iff_exists.1 (hostsInGroup_enough fun d _ => acyclic d)

/-- A group that expands has each of its hosts once. -/
theorem hostsInGroup_spec {inv : InventorySpec} {fuel : ℕ} {groupName : String} {hosts : List String}
    (run : hostsInGroup inv fuel groupName = some hosts) : hosts.Nodup ∧ ∀ h, h ∈ hosts ↔ HasHost inv groupName h := by
  induction fuel generalizing groupName hosts with
  | zero => cases run
  | succ fuel ih =>
    rw [(hostsInGroup_unfolds inv).succ, hostsInGroupBody] at run
    cases found : inv.groups.get? groupName with
    | none =>
      simp only [found, Option.some.injEq] at run
      subst run
      exact ⟨List.nodup_nil, fun h => by
        rw [hasHost_iff]
        simp [found]⟩
    | some v =>
      simp only [found] at run
      obtain ⟨sub, loop, rest⟩ := Option.bind_eq_some_iff.1 run
      cases rest
      have joined : sub.Nodup ∧ ∀ h, h ∈ sub ↔ ∃ cg ∈ v.groups, HasHost inv cg h := by
        have rounds : Loop (fun hosts cg hosts' => ∃ sub, hostsInGroup inv fuel cg = some sub ∧
            hosts' = combineSlice sub hosts) v.groups [] sub := by
          refine Loop.ofFold (fun s cg s' round => ?_) loop
          obtain ⟨below, call, join⟩ := Option.bind_eq_some_iff.1 round
          exact ⟨below, call, (Option.some.inj join).symm⟩
        refine rounds.invariant (I := fun done sub => sub.Nodup ∧ ∀ h, h ∈ sub ↔ ∃ cg ∈ done, HasHost inv cg h)
          ?_ ⟨List.nodup_nil, by simp⟩
        rintro done cg _ s _ _ ⟨_, mem⟩ ⟨below, call, rfl⟩
        refine ⟨nodup_combineSlice below s, fun h => ?_⟩
        rw [mem_combineSlice, (ih call).2 h, mem h]
        simp [or_and_right, exists_or, or_comm]
      refine ⟨nodup_combineSlice sub v.hosts, fun h => ?_⟩
      rw [mem_combineSlice, joined.2 h, hasHost_iff]
      simp [found]

/-! ## `GetHostsFromGroup` -/

/-- The sets `unavailableHosts` and `unavailableGroups`. -/
structure Unavailable where
  hosts : List String := []
  groups : List String := []

namespace Unavailable

/-- `unavailableHosts[hostname] = struct{}{}`. -/
def addHost (u : Unavailable) (hostname : String) : Unavailable := { u with hosts := hostname :: u.hosts }

/-- `unavailableGroups[groupName] = struct{}{}`. -/
def addGroup (u : Unavailable) (groupName : String) : Unavailable := { u with groups := groupName :: u.groups }

@[simp] theorem addHost_hosts (u : Unavailable) (h : String) : (u.addHost h).hosts = h :: u.hosts := rfl

@[simp] theorem addHost_groups (u : Unavailable) (h : String) : (u.addHost h).groups = u.groups := rfl

@[simp] theorem addGroup_hosts (u : Unavailable) (g : String) : (u.addGroup g).hosts = u.hosts := rfl

@[simp] theorem addGroup_groups (u : Unavailable) (g : String) : (u.addGroup g).groups = g :: u.groups := rfl

end Unavailable

/-- One round of the loop over the hosts of a group: `validHosts` and the sets. -/
def validHost (inv : InventorySpec) (acc : List String × Unavailable) (hostname : String) : List String × Unavailable :=
  if hostname ∈ inv.hosts.keys then
    if hostname ∈ acc.2.hosts then acc else (acc.1 ++ [hostname], acc.2.addHost hostname)
  else acc

/-- `GetHostsFromGroup`: the hosts, and the sets as the call leaves them. -/
def getHostsFromGroup (inv : InventorySpec) : Nat → String → Unavailable → Option (List String × Unavailable)
  | 0, _, _ => none
  | fuel + 1, groupName, u =>
    match inv.groups.get? groupName with
    | none => some ([], u)
    | some v => do
      let (hosts, u) ← v.groups.foldlM (fun (acc : List String × Unavailable) cg =>
        if cg ∈ acc.2.groups then some acc
        else do
          let (sub, u) ← getHostsFromGroup inv fuel cg (acc.2.addGroup cg)
          some (acc.1 ++ sub, u)) ([], u.addGroup groupName)
      let (validHosts, u) := v.hosts.foldl (validHost inv) ([], u)
      some (hosts ++ validHosts, u)

section Walk
variable {inv : InventorySpec}

/-- What a part of the walk adds to the sets: the hosts that it returns, each once, and some groups. -/
structure Adds (inv : InventorySpec) (u : Unavailable) (hosts : List String) (u' : Unavailable) : Prop where
  distinct : hosts.Nodup
  fresh : ∀ h ∈ hosts, h ∉ u.hosts
  known : ∀ h ∈ hosts, h ∈ inv.hosts.keys
  marked : ∀ h, h ∈ u'.hosts ↔ h ∈ u.hosts ∨ h ∈ hosts
  groups : ∀ g ∈ u.groups, g ∈ u'.groups

theorem Adds.nothing (u : Unavailable) : Adds inv u [] u :=
  ⟨List.nodup_nil, by simp, by simp, by simp, fun _ inside => inside⟩

/-- A group that is marked adds no host. -/
theorem Adds.addGroup (u : Unavailable) (g : String) : Adds inv u [] (u.addGroup g) :=
  ⟨List.nodup_nil, by simp, by simp, by simp, fun _ inside => List.mem_cons_of_mem _ inside⟩

theorem Adds.trans {u₁ u₂ u₃ : Unavailable} {hosts hosts' : List String} (first : Adds inv u₁ hosts u₂)
    (second : Adds inv u₂ hosts' u₃) : Adds inv u₁ (hosts ++ hosts') u₃ where
  distinct := by
    refine List.nodup_append.2 ⟨first.distinct, second.distinct, ?_⟩
    rintro a inside _ later rfl
    exact second.fresh a later ((first.marked a).2 (.inr inside))
  fresh h inside old := by
    obtain here | later := List.mem_append.1 inside
    · exact first.fresh h here old
    · exact second.fresh h later ((first.marked h).2 (.inl old))
  known h inside := by
    obtain here | later := List.mem_append.1 inside
    · exact first.known h here
    · exact second.known h later
  marked h := by rw [second.marked, first.marked, List.mem_append, or_assoc]
  groups g inside := second.groups g (first.groups g inside)

/-- The loop over the hosts of a group marks those that the inventory has. -/
theorem foldl_validHost (inv : InventorySpec) (l : List String) : ∀ acc : List String × Unavailable,
    ∃ hosts u, l.foldl (validHost inv) acc = (acc.1 ++ hosts, u) ∧ Adds inv acc.2 hosts u ∧
      (∀ h ∈ l, h ∈ inv.hosts.keys → h ∈ u.hosts) ∧ (∀ h ∈ hosts, h ∈ l) ∧ u.groups = acc.2.groups := by
  induction l with
  | nil => exact fun acc => ⟨[], acc.2, by simp, .nothing _, by simp, by simp, rfl⟩
  | cons h l ih =>
    intro acc
    rw [List.foldl_cons]
    -- what the first round adds
    have first : ∃ hosts u, validHost inv acc h = (acc.1 ++ hosts, u) ∧ Adds inv acc.2 hosts u ∧
        (h ∈ inv.hosts.keys → h ∈ u.hosts) ∧ (∀ h' ∈ hosts, h' = h) ∧ u.groups = acc.2.groups := by
      unfold validHost
      split
      · next known =>
        split
        · next old => exact ⟨[], acc.2, by simp, .nothing _, fun _ => old, by simp, rfl⟩
        · next fresh =>
          refine ⟨[h], acc.2.addHost h, rfl, ⟨List.nodup_singleton h, ?_, ?_, ?_, ?_⟩, by simp, by simp, rfl⟩
          · simpa using fresh
          · simpa using known
          · simp [or_comm]
          · simp
      · next unknown => exact ⟨[], acc.2, by simp, .nothing _, fun known => absurd known unknown, by simp, rfl⟩
    obtain ⟨hosts, u, eq, adds, here, only, kept⟩ := first
    rw [eq]
    obtain ⟨hosts', u', eq', adds', later, only', kept'⟩ := ih (acc.1 ++ hosts, u)
    refine ⟨hosts ++ hosts', u', ?_, adds.trans adds', ?_, ?_, kept'.trans kept⟩
    · rw [eq', List.append_assoc]
    · intro h' inside known
      obtain rfl | inside := List.mem_cons.1 inside
      · exact (adds'.marked h').2 (.inl (here known))
      · exact later h' inside known
    · intro h' inside
      obtain inside | inside := List.mem_append.1 inside
      · rw [only h' inside]
        exact List.mem_cons_self
      · exact List.mem_cons_of_mem _ (only' h' inside)

/-- One round of the loop over the groups of a group. -/
def Visit (inv : InventorySpec) (fuel : Nat) (acc : List String × Unavailable) (cg : String)
    (acc' : List String × Unavailable) : Prop :=
  (cg ∈ acc.2.groups ∧ acc' = acc) ∨
    (cg ∉ acc.2.groups ∧ ∃ sub u, getHostsFromGroup inv fuel cg (acc.2.addGroup cg) = some (sub, u) ∧
      acc' = (acc.1 ++ sub, u))

theorem getHostsFromGroup_cases {fuel : Nat} {groupName : String} {u u' : Unavailable} {hosts : List String}
    (run : getHostsFromGroup inv (fuel + 1) groupName u = some (hosts, u')) :
    (inv.groups.get? groupName = none ∧ hosts = [] ∧ u' = u) ∨
      ∃ v below u₁ valid, inv.groups.get? groupName = some v ∧
        Loop (Visit inv fuel) v.groups ([], u.addGroup groupName) (below, u₁) ∧
        v.hosts.foldl (validHost inv) ([], u₁) = (valid, u') ∧ hosts = below ++ valid := by
  rw [getHostsFromGroup] at run
  cases found : inv.groups.get? groupName with
  | none =>
    simp only [found, Option.some.injEq, Prod.mk.injEq] at run
    exact .inl ⟨rfl, run.1.symm, run.2.symm⟩
  | some v =>
    simp only [found] at run
    obtain ⟨⟨below, u₁⟩, loop, rest⟩ := Option.bind_eq_some_iff.1 run
    refine .inr ⟨v, below, u₁, (v.hosts.foldl (validHost inv) ([], u₁)).1, rfl, Loop.ofFold ?_ loop, ?_, ?_⟩
    · intro acc cg acc' round
      split at round
      · next marked => exact .inl ⟨marked, (Option.some.inj round).symm⟩
      · next fresh =>
        obtain ⟨⟨sub, u₂⟩, call, join⟩ := Option.bind_eq_some_iff.1 round
        exact .inr ⟨fresh, sub, u₂, call, (Option.some.inj join).symm⟩
    · cases rest
      rfl
    · cases rest
      rfl

/-- A call adds the hosts that it returns. -/
theorem getHostsFromGroup_adds {fuel : Nat} {groupName : String} {u u' : Unavailable} {hosts : List String}
    (run : getHostsFromGroup inv fuel groupName u = some (hosts, u')) :
    Adds inv u hosts u' ∧ ∀ h ∈ hosts, HasHost inv groupName h := by
  induction fuel generalizing groupName u u' hosts with
  | zero => cases run
  | succ fuel ih =>
    obtain ⟨_, rfl, rfl⟩ | ⟨v, below, u₁, valid, found, loop, own, rfl⟩ := getHostsFromGroup_cases run
    · exact ⟨.nothing _, by simp⟩
    have groups : Adds inv u below u₁ ∧ ∀ h ∈ below, ∃ cg ∈ v.groups, HasHost inv cg h := by
      have start : Adds inv u [] (u.addGroup groupName) ∧ ∀ h ∈ ([] : List String), ∃ cg ∈ v.groups, HasHost inv cg h :=
        ⟨.addGroup u groupName, by simp⟩
      refine loop.invariant (I := fun _ acc => Adds inv u acc.1 acc.2 ∧ ∀ h ∈ acc.1, ∃ cg ∈ v.groups, HasHost inv cg h)
        ?_ start
      rintro done cg rest acc acc' split ⟨adds, has⟩ (⟨_, rfl⟩ | ⟨_, sub, u₂, call, rfl⟩)
      · exact ⟨adds, has⟩
      obtain ⟨more, below⟩ := ih call
      refine ⟨adds.trans ((Adds.addGroup acc.2 cg).trans more), fun h inside => ?_⟩
      obtain old | new := List.mem_append.1 inside
      · exact has h old
      · exact ⟨cg, by simp [← split], below h new⟩
    obtain ⟨hosts, u₃, eq, adds, _, listed, _⟩ := foldl_validHost inv v.hosts ([], u₁)
    rw [own] at eq
    cases eq
    refine ⟨groups.1.trans adds, fun h inside => ?_⟩
    rw [hasHost_iff]
    obtain below | valid := List.mem_append.1 inside
    · exact ⟨v, found, .inl (groups.2 h below)⟩
    · exact ⟨v, found, .inr (listed h valid)⟩

/-- Every host of a group that is marked is marked, but for the groups that the walk is still in. -/
def Finished (inv : InventorySpec) (within : Set String) (u : Unavailable) : Prop :=
  ∀ g ∈ u.groups, g ∉ within → ∀ h ∈ inv.hosts.keys, HasHost inv g h → h ∈ u.hosts

/-- A call leaves no host of its group unmarked. -/
theorem getHostsFromGroup_finished (acyclic : AcyclicGroups inv) {fuel : Nat} {groupName : String} {u u' : Unavailable}
    {hosts : List String} (run : getHostsFromGroup inv fuel groupName u = some (hosts, u')) {within : Set String}
    (above : ∀ g ∈ within, ¬ Relation.ReflTransGen (Refers inv) groupName g)
    (finished : Finished inv (insert groupName within) u) :
    Finished inv within u' ∧ ∀ h ∈ inv.hosts.keys, HasHost inv groupName h → h ∈ u'.hosts := by
  induction fuel generalizing groupName u u' hosts within with
  | zero => cases run
  | succ fuel ih =>
    obtain ⟨found, rfl, rfl⟩ | ⟨v, below, u₁, valid, found, loop, own, rfl⟩ := getHostsFromGroup_cases run
    · have none : ∀ h, ¬ HasHost inv groupName h := by
        intro h has
        rw [hasHost_iff] at has
        simp [found] at has
      refine ⟨fun g marked other h known has => ?_, fun h _ has => absurd has (none h)⟩
      by_cases same : g = groupName
      · exact absurd (same ▸ has) (none h)
      · exact finished g marked (by simp [same, other]) h known has
    -- the walk is not in a group that is named here
    have outside : ∀ cg ∈ v.groups, ∀ g ∈ insert groupName within, ¬ Relation.ReflTransGen (Refers inv) cg g := by
      intro cg member g inside path
      have refers : Refers inv groupName cg := ⟨v, found, member⟩
      obtain rfl | inside := inside
      · exact acyclic g (Relation.TransGen.head' refers path)
      · exact above g inside (.head refers path)
    have groups : Finished inv (insert groupName within) u₁ ∧
        ∀ cg ∈ v.groups, ∀ h ∈ inv.hosts.keys, HasHost inv cg h → h ∈ u₁.hosts := by
      have start : Finished inv (insert groupName within) (u.addGroup groupName) := by
        intro g marked other
        obtain rfl | marked := List.mem_cons.1 marked
        · exact absurd (Set.mem_insert g within) other
        · exact finished g marked other
      refine loop.invariant (I := fun done acc => Finished inv (insert groupName within) acc.2 ∧
        ∀ cg ∈ done, ∀ h ∈ inv.hosts.keys, HasHost inv cg h → h ∈ acc.2.hosts) ?_ ⟨start, by simp⟩
      rintro done cg rest acc acc' split ⟨finished, before⟩ visit
      have member : cg ∈ v.groups := by simp [← split]
      obtain ⟨marked, rfl⟩ | ⟨fresh, sub, u₂, call, rfl⟩ := visit
      · refine ⟨finished, fun c inside h known has => ?_⟩
        obtain inside | inside := List.mem_append.1 inside
        · exact before c inside h known has
        · rw [List.mem_singleton.1 inside] at has
          exact finished cg marked (fun within => outside cg member cg within .refl) h known has
      · have entered : Finished inv (insert cg (insert groupName within)) (acc.2.addGroup cg) := by
          intro g marked other
          obtain rfl | marked := List.mem_cons.1 marked
          · exact absurd (Set.mem_insert g _) other
          · exact finished g marked (fun inside => other (Set.mem_insert_of_mem cg inside))
        obtain ⟨finished', here⟩ := ih call (outside cg member) entered
        have adds := (getHostsFromGroup_adds call).1
        refine ⟨finished', fun c inside h known has => ?_⟩
        obtain inside | inside := List.mem_append.1 inside
        · exact (adds.marked h).2 (.inl (before c inside h known has))
        · rw [List.mem_singleton.1 inside] at has
          exact here h known has
    obtain ⟨hosts, u₃, eq, adds, marked, _, kept⟩ := foldl_validHost inv v.hosts ([], u₁)
    rw [own] at eq
    cases eq
    have here : ∀ h ∈ inv.hosts.keys, HasHost inv groupName h → h ∈ u'.hosts := by
      intro h known has
      obtain ⟨w, stored, has⟩ := hasHost_iff.1 has
      rw [found] at stored
      cases stored
      obtain ⟨cg, member, has⟩ | listed := has
      · exact (adds.marked h).2 (.inl (groups.2 cg member h known has))
      · exact marked h listed known
    refine ⟨fun g inside other h known has => ?_, here⟩
    by_cases same : g = groupName
    · exact here h known (same ▸ has)
    · rw [kept] at inside
      exact (adds.marked h).2 (.inl (groups.1 g inside (by simp [same, other]) h known has))

/-- One level of `GetHostsFromGroup`. -/
def getHostsFromGroupBody (inv : InventorySpec) (call : String × Unavailable → Option (List String × Unavailable))
    (a : String × Unavailable) : Option (List String × Unavailable) :=
  match inv.groups.get? a.1 with
  | none => some ([], a.2)
  | some v => do
    let (hosts, u) ← v.groups.foldlM (fun (acc : List String × Unavailable) cg =>
      if cg ∈ acc.2.groups then some acc
      else do
        let (sub, u) ← call (cg, acc.2.addGroup cg)
        some (acc.1 ++ sub, u)) ([], a.2.addGroup a.1)
    let (validHosts, u) := v.hosts.foldl (validHost inv) ([], u)
    some (hosts ++ validHosts, u)

theorem getHostsFromGroup_levels (inv : InventorySpec) :
    Levels (getHostsFromGroupBody inv) fun fuel a => getHostsFromGroup inv fuel a.1 a.2 where
  zero _ := rfl
  succ _ _ := rfl
  keeps x y keeps a r run := by
    unfold getHostsFromGroupBody at run ⊢
    cases found : inv.groups.get? a.1 with
    | none => simpa only [found] using run
    | some v =>
      simp only [found] at run ⊢
      obtain ⟨s, loop, rest⟩ := Option.bind_eq_some_iff.1 run
      refine Option.bind_eq_some_iff.2 ⟨s, foldlM_keeps ?_ loop, rest⟩
      intro s cg s' round
      split at round
      · next marked => rwa [if_pos marked]
      · next fresh =>
        rw [if_neg fresh]
        obtain ⟨sub, call, join⟩ := Option.bind_eq_some_iff.1 round
        exact Option.bind_eq_some_iff.2 ⟨sub, keeps _ sub call, join⟩

/-- The groups of the inventory that are not marked. -/
def unmarked (inv : InventorySpec) (u : Unavailable) : Nat := (inv.groups.keys.toFinset \ u.groups.toFinset).card

theorem unmarked_le {u u' : Unavailable} (more : ∀ g ∈ u.groups, g ∈ u'.groups) : unmarked inv u' ≤ unmarked inv u := by
  apply Finset.card_le_card
  apply Finset.sdiff_subset_sdiff (Finset.Subset.refl _)
  intro g inside
  rw [List.mem_toFinset] at inside ⊢
  exact more g inside

theorem unmarked_addGroup {u : Unavailable} {g : String} (inside : g ∈ inv.groups.keys) (fresh : g ∉ u.groups) :
    unmarked inv (u.addGroup g) < unmarked inv u := by
  apply Finset.card_lt_card
  rw [Finset.ssubset_iff_of_subset]
  · refine ⟨g, ?_, ?_⟩
    · simp [inside, fresh]
    · simp
  · apply Finset.sdiff_subset_sdiff (Finset.Subset.refl _)
    intro g' old
    simp only [List.mem_toFinset, Unavailable.addGroup_groups, List.mem_cons] at old ⊢
    exact .inr old

/-- Every call below the first marks a group, so the calls are at most as deep as there are groups to mark. -/
theorem getHostsFromGroup_ends : ∀ {fuel : Nat} {groupName : String} {u : Unavailable},
    (groupName ∈ inv.groups.keys → unmarked inv (u.addGroup groupName) + 2 ≤ fuel) → 1 ≤ fuel →
      ∃ r, getHostsFromGroup inv fuel groupName u = some r := by
  intro fuel
  induction fuel with
  | zero =>
    intro groupName u _ positive
    exact absurd positive (by omega)
  | succ fuel ih =>
    intro groupName u enough _
    rw [getHostsFromGroup]
    cases found : inv.groups.get? groupName with
    | none => exact ⟨_, rfl⟩
    | some v =>
      have bound := enough (GoMap.get?_isSome_iff.1 (by rw [found]; rfl))
      have loop : ∃ s, v.groups.foldlM (fun (acc : List String × Unavailable) cg =>
          if cg ∈ acc.2.groups then some acc
          else do
            let (sub, u) ← getHostsFromGroup inv fuel cg (acc.2.addGroup cg)
            some (acc.1 ++ sub, u)) ([], u.addGroup groupName) = some s := by
        refine foldlM_ends (I := fun acc => unmarked inv acc.2 ≤ unmarked inv (u.addGroup groupName)) ?_
          (Nat.le_refl _)
        intro acc below cg member
        by_cases marked : cg ∈ acc.2.groups
        · exact ⟨acc, if_pos marked, below⟩
        have again : unmarked inv ((acc.2.addGroup cg).addGroup cg) ≤ unmarked inv (acc.2.addGroup cg) :=
          unmarked_le fun g inside => List.mem_cons_of_mem _ inside
        obtain ⟨⟨sub, u'⟩, call⟩ := @ih cg (acc.2.addGroup cg) (fun key => by
          have fewer := unmarked_addGroup key marked
          omega) (by omega)
        refine ⟨(acc.1 ++ sub, u'), ?_, ?_⟩
        · rw [if_neg marked, call]
          rfl
        · have adds := (getHostsFromGroup_adds call).1
          have fewer : unmarked inv u' ≤ unmarked inv acc.2 :=
            unmarked_le fun g inside => adds.groups g (List.mem_cons_of_mem _ inside)
          exact Nat.le_trans fewer below
      obtain ⟨s, loop⟩ := loop
      simp only [loop]
      exact ⟨_, rfl⟩

end Walk

/-- The two expansions of a group agree on the hosts that the inventory has. -/
theorem getHostsFromGroup_eq_hostsInGroup {inv : InventorySpec} (acyclic : AcyclicGroups inv) (groupName : String) :
    ∃ expanded hosts unavailable,
      (∀ fuel, inv.groups.entries.length < fuel → hostsInGroup inv fuel groupName = some expanded) ∧
      (∀ fuel, inv.groups.entries.length < fuel → getHostsFromGroup inv fuel groupName {} = some (hosts, unavailable)) ∧
      expanded.Nodup ∧ hosts.Nodup ∧ ∀ h, h ∈ hosts ↔ h ∈ expanded ∧ h ∈ inv.hosts.keys := by
  obtain ⟨expanded, run⟩ := hostsInGroup_returns acyclic groupName
  have walks : ∃ r, getHostsFromGroup inv (inv.groups.entries.length + 1) groupName {} = some r := by
    refine getHostsFromGroup_ends (fun key => ?_) (Nat.le_add_left 1 _)
    have fewer : unmarked inv (Unavailable.addGroup {} groupName) < unmarked inv {} := unmarked_addGroup key (by simp)
    have all : unmarked inv {} = inv.groups.entries.length := by simp [unmarked, card_groups]
    omega
  obtain ⟨⟨hosts, unavailable⟩, walk⟩ := walks
  refine ⟨expanded, hosts, unavailable, fun fuel more => (hostsInGroup_unfolds inv).more more run,
    fun fuel more => (getHostsFromGroup_levels inv).more (a := (groupName, {})) more walk, (hostsInGroup_spec run).1,
    (getHostsFromGroup_adds walk).1.distinct, fun h => ?_⟩
  obtain ⟨adds, has⟩ := getHostsFromGroup_adds walk
  have finished : Finished inv ∅ unavailable ∧ _ :=
    getHostsFromGroup_finished acyclic walk (by simp) (by simp [Finished])
  rw [(hostsInGroup_spec run).2 h]
  constructor
  · intro inside
    exact ⟨has h inside, adds.known h inside⟩
  · rintro ⟨has, known⟩
    have marked := (adds.marked h).1 (finished.2 h known has)
    simpa using marked

/-- A group with a host of its own that the group below it has as well, and one that the inventory does not have. -/
def sharedHost : InventorySpec where
  hosts := (GoMap.empty.put "node1" .empty).put "node2" .empty
  vars := .empty
  groups := (GoMap.empty.put "workers" ⟨["masters", "masters"], ["node1", "node3"], .empty⟩).put "masters"
    ⟨[], ["node2", "node1"], .empty⟩

theorem sharedHost_acyclic : AcyclicGroups sharedHost := by
  have leaf : ∀ g, ¬ Refers sharedHost "masters" g := by
    rintro g ⟨v, found, member⟩
    have here : v = ⟨[], ["node2", "node1"], .empty⟩ := Option.some.inj (found.symm.trans rfl)
    rw [here] at member
    cases member
  have root : ∀ g c, Refers sharedHost g c → g = "workers" ∧ c = "masters" := by
    rintro g c ⟨v, found, member⟩
    have entry : (g, v) = ("workers", ⟨["masters", "masters"], ["node1", "node3"], .empty⟩) ∨
        (g, v) = ("masters", ⟨[], ["node2", "node1"], .empty⟩) := List.mem_pair.1 (GoMap.get?_eq_some_iff.1 found)
    obtain here | here := entry
    · cases here
      simpa using member
    · cases here
      cases member
  intro g cycle
  obtain ⟨c, first, rest⟩ := (Relation.TransGen.head'_iff).1 cycle
  obtain ⟨rfl, rfl⟩ := root g c first
  obtain same | ⟨d, next, _⟩ := rest.cases_head
  · exact absurd same (by decide)
  · exact leaf d next

theorem getHostsFromGroup_eq_hostsInGroup_workers : AcyclicGroups sharedHost ∧
    ∃ expanded hosts unavailable,
      (∀ fuel, sharedHost.groups.entries.length < fuel → hostsInGroup sharedHost fuel "workers" = some expanded) ∧
      (∀ fuel, sharedHost.groups.entries.length < fuel →
        getHostsFromGroup sharedHost fuel "workers" {} = some (hosts, unavailable)) ∧
      expanded.Nodup ∧ hosts.Nodup ∧ ∀ h, h ∈ hosts ↔ h ∈ expanded ∧ h ∈ sharedHost.hosts.keys :=
  ⟨sharedHost_acyclic, getHostsFromGroup_eq_hostsInGroup sharedHost_acyclic "workers"⟩

example : (getHostsFromGroup sharedHost 3 "workers" {}).map Prod.fst = some ["node2", "node1"] := by decide

end KubeKey.Variable
