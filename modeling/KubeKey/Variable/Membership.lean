import KubeKey.Variable.Expansion

/-!
# Who gets the variables of a group

`docs/zh/201-variable.md` has the variables of a group apply to all hosts in the group. Which
hosts these are `ConvertGroup` says, and it counts the hosts of the groups below. The loop of
`getHostsVariable` takes the groups that list the host themselves.

Where a group alone defines a variable (`ShowsAlone`), the context of a host shows whether the
code counts it as a member. It agrees with `ConvertGroup` exactly where every such group lists
the hosts that it has (`ListedDirectly`).
-/

namespace KubeKey.Variable

open KubeKey.Go

/-- The host is one of the group, as `ConvertGroup` has it: the name `ungrouped` is for hosts without a group. -/
def IsMember (inv : InventorySpec) (groupName hostname : String) : Prop :=
  if groupName = variableUnGrouped then hostname ∈ inv.hosts.keys ∧ ∀ gn ∈ inv.groups.keys, ¬ HasHost inv gn hostname
  else HasHost inv groupName hostname

/-- At this path the variables of the group hold a value, and nothing else does: no other group that has the host, no
layer above the groups, and no default with the same value. -/
structure ShowsAlone (localIP : String → String) (val : Value) (hostname : String) (remote runtime : DeepView)
    (groupName : String) (v : InventoryGroup) (p : Path) : Prop where
  held : (v.vars.view p).isSome
  groups : ∀ g w, val.inventory.groups.get? g = some w → g ≠ groupName → HasHost val.inventory g hostname →
    w.vars.view.decides Shape.opens p = false
  upper : defines (upperLayers val hostname remote runtime) p = false
  default : defaultsView localIP hostname p ≠ v.vars.view p

/-- The context includes the variables of exactly the groups that have the host in the expanded groups. -/
def MembersSee (localIP : String → String) (val : Value) (hostname : String) (remote runtime ctx : DeepView)
    (groups : GoMap (List String)) : Prop :=
  ∀ g v, val.inventory.groups.get? g = some v → ∀ k p, ¬ SystemName k →
    ShowsAlone localIP val hostname remote runtime g v (.key k :: p) →
      (ctx (.key k :: p) = v.vars.view (.key k :: p) ↔ ∃ hosts, groups.get? g = some hosts ∧ hostname ∈ hosts)

/-- A group that alone defines some variable lists the host if and only if it has it. -/
def ListedDirectly (localIP : String → String) (val : Value) (hostname : String) (remote runtime : DeepView) : Prop :=
  ∀ g v, val.inventory.groups.get? g = some v →
    (∃ k p, ¬ SystemName k ∧ ShowsAlone localIP val hostname remote runtime g v (.key k :: p)) →
      (hostname ∈ v.hosts ↔ IsMember val.inventory g hostname)

/-- Membership in the expanded groups. -/
theorem isMember_iff {inv : InventorySpec} (acyclic : AcyclicGroups inv) {order : GroupOrder} (of : order.Of inv)
    {g hostname : String} (named : g ∈ inv.groups.keys) :
    (∃ hosts, groupEntry inv order.hosts g = some hosts ∧ hostname ∈ hosts) ↔ IsMember inv g hostname := by
  unfold groupEntry IsMember
  by_cases ungrouped : g = variableUnGrouped
  · simp only [if_pos ungrouped, Option.some.injEq, exists_eq_left', mem_ungrouped_iff acyclic of]
  · simp only [if_neg ungrouped, if_pos named, Option.some.injEq, exists_eq_left', (hostsOf_spec acyclic g).2]

section
variable {localIP : String → String} {val : Value} {hostname : String} {h : Heap} {hv : HostVars} {g : String}
  {v : InventoryGroup} {k : String} {p : Path}

/-- A group that lists the host is the only one of its groups that decides the path. -/
theorem ShowsAlone.layered_groups {remote runtime : DeepView}
    (alone : ShowsAlone localIP val hostname remote runtime g v (.key k :: p))
    (found : val.inventory.groups.get? g = some v) :
    (hostname ∈ v.hosts → defines (groupLayers val hostname) (.key k :: p) = true ∧
      layered (groupLayers val hostname) (.key k :: p) = v.vars.view (.key k :: p)) ∧
    (hostname ∉ v.hosts → defines (groupLayers val hostname) (.key k :: p) = false) := by
  have others : ∀ g' w, (g', w) ∈ val.inventory.groups.entries → hostname ∈ w.hosts → g' ≠ g →
      w.vars.view.decides Shape.opens (.key k :: p) = false := by
    intro g' w entry listed other
    have stored := GoMap.get?_eq_some_iff.2 entry
    exact alone.groups g' w stored other (hasHost_iff.2 ⟨w, stored, .inr listed⟩)
  constructor
  · intro listed
    have decides : v.vars.view.decides Shape.opens (.key k :: p) = true :=
      View.decides_of_some (rawExtension_prefixClosed v.vars) alone.held
    have defined : defines (groupLayers val hostname) (.key k :: p) = true := by
      refine List.any_eq_true.2 ⟨v.vars.view, List.mem_map.2 ⟨(g, v), ?_, rfl⟩, decides⟩
      exact List.mem_filter.2 ⟨GoMap.get?_eq_some_iff.1 found, by simpa using listed⟩
    refine ⟨defined, View.stack_of_agree (fun a member decided => ?_) defined⟩
    obtain ⟨⟨g', w⟩, inside, rfl⟩ := List.mem_map.1 member
    obtain ⟨entry, has⟩ := List.mem_filter.1 inside
    by_cases same : g' = g
    · subst same
      have stored := GoMap.get?_eq_some_iff.2 entry
      rw [found] at stored
      cases stored
      rfl
    · have undecided := others g' w entry (by simpa using has) same
      dsimp only at decided
      rw [undecided] at decided
      cases decided
  · intro unlisted
    refine List.any_eq_false.2 fun a member => ?_
    obtain ⟨⟨g', w⟩, inside, rfl⟩ := List.mem_map.1 member
    obtain ⟨entry, has⟩ := List.mem_filter.1 inside
    have listed : hostname ∈ w.hosts := by simpa using has
    have other : g' ≠ g := by
      rintro rfl
      have stored := GoMap.get?_eq_some_iff.2 entry
      rw [found] at stored
      cases stored
      exact unlisted listed
    simpa using others g' w entry listed other

/-- The context shows the variable exactly if the group lists the host. -/
theorem hostView_eq_iff (ok : hv.Ok h) (found : val.inventory.groups.get? g = some v)
    (alone : ShowsAlone localIP val hostname (h.view hv.remoteVars) (h.view hv.runtimeVars) g v (.key k :: p)) :
    hostView localIP val hostname (h.view hv.remoteVars) (h.view hv.runtimeVars) (.key k :: p) =
      v.vars.view (.key k :: p) ↔ hostname ∈ v.hosts := by
  have layers : hostLayers val hostname (h.view hv.remoteVars) (h.view hv.runtimeVars) =
      groupLayers val hostname ++ upperLayers val hostname (h.view hv.remoteVars) (h.view hv.runtimeVars) := rfl
  by_cases listed : hostname ∈ v.hosts
  · obtain ⟨defined, shown⟩ := (alone.layered_groups found).1 listed
    have whole : defines (hostLayers val hostname (h.view hv.remoteVars) (h.view hv.runtimeVars)) (.key k :: p) = true := by
      rw [layers, defines_append, defined, Bool.true_or]
    rw [hostView_of_defined localIP val hostname ok whole, layers, layered_append, alone.upper]
    exact ⟨fun _ => listed, fun _ => shown⟩
  · refine ⟨fun shown => absurd shown ?_, fun inside => absurd inside listed⟩
    have undefined : defines (hostLayers val hostname (h.view hv.remoteVars) (h.view hv.runtimeVars)) (.key k :: p) =
        false := by
      rw [layers, defines_append, (alone.layered_groups found).2 listed, alone.upper]
      rfl
    have nothing : layered (hostLayers val hostname (h.view hv.remoteVars) (h.view hv.runtimeVars)) (.key k :: p) =
        none := by
      rw [layered, View.stack_of_not_anyDecides undefined]
      rfl
    rw [hostView, overlay]
    intro same
    cases decided : (layered (hostLayers val hostname (h.view hv.remoteVars) (h.view hv.runtimeVars))).decides
        Shape.opens (.key k :: p) with
    | true =>
      rw [View.overlay_of_decides decided, nothing] at same
      have held := alone.held
      rw [← same] at held
      cases held
    | false =>
      rw [View.overlay_of_not_decides decided] at same
      exact alone.default same

end

/-- `GetAllVariable` includes the variables of the groups that `ConvertGroup` puts the host in, exactly if each group
that alone defines a variable lists the host or does not have it. -/
theorem getAllVariable_members_iff {h : Heap} {val : Value} (ok : val.Ok h) (localIP : String → String)
    {hostname : String} {hv : HostVars} (known : val.hosts.get? hostname = some hv) {order : GroupOrder}
    (of : order.Of val.inventory) :
    ∃ ctx h' groups, getAllVariable localIP val hostname h = some (ctx, h') ∧
      convertGroupIn val.inventory order.hosts order.names = some groups ∧
      (MembersSee localIP val hostname (h.view hv.remoteVars) (h.view hv.runtimeVars) (h'.view ctx) groups ↔
        ListedDirectly localIP val hostname (h.view hv.remoteVars) (h.view hv.runtimeVars)) := by
  have acyclic : AcyclicGroups val.inventory := convertGroup_isSome_iff.1 ok.expands
  obtain ⟨l, h', run, context⟩ := getAllVariable_built ok localIP hostname
  obtain ⟨groups, expanded, entry⟩ := convertGroupIn_entry acyclic of
  refine ⟨.ref l, h', groups, run, expanded, ?_⟩
  have hostOk := ok.hosts hostname hv known
  have seen : ∀ k p, ¬ SystemName k → h'.view (.ref l) (.key k :: p) =
      hostView localIP val hostname (h.view hv.remoteVars) (h.view hv.runtimeVars) (.key k :: p) := by
    intro k p own
    refine context.view hv known k p ?_ fun same => own (Or.inr (Or.inr same))
    exact fun reserved => own (reserved.elim Or.inl fun name => Or.inr (Or.inl name))
  have member : ∀ g v, val.inventory.groups.get? g = some v →
      ((∃ hosts, groups.get? g = some hosts ∧ hostname ∈ hosts) ↔ IsMember val.inventory g hostname) := by
    intro g v found
    rw [entry]
    exact isMember_iff acyclic of (GoMap.get?_isSome_iff.1 (by rw [found]; rfl))
  constructor
  · rintro see g v found ⟨k, p, own, alone⟩
    have here := see g v found k p own alone
    rwa [seen k p own, hostView_eq_iff hostOk found alone, member g v found] at here
  · intro listed g v found k p own alone
    rw [seen k p own, hostView_eq_iff hostOk found alone, member g v found]
    exact listed g v found ⟨k, p, own, alone⟩

/-- A group with a variable and no host of its own, over a group with one host. -/
def nestedInventory : InventorySpec where
  hosts := GoMap.empty.put "node1" .empty
  vars := .empty
  groups := (GoMap.empty.put "cluster" ⟨["workers"], [], .object [("x", .scalar (.str "group"))]⟩).put "workers"
    ⟨[], ["node1"], .empty⟩

/-- What `New` makes of it. -/
def nestedStore : Store where
  heap := ⟨List.replicate 4 (.map .any .empty)⟩
  value := ⟨.empty, nestedInventory, (GoMap.empty.put "node1" ⟨.ref 0, .ref 1⟩).put "localhost" ⟨.ref 2, .ref 3⟩,
    .nilMap .any⟩
  source := .memory .empty

theorem nestedStore_new : newVariable .empty nestedInventory (.memory .empty) [] = .ok nestedStore := rfl

theorem nestedStore_ok : nestedStore.value.Ok nestedStore.heap :=
  (newVariable_ok (show Source.isFresh (.memory .empty) from rfl) nestedStore_new).valueOk

theorem getAllVariable_members_iff_node1 : nestedStore.value.Ok nestedStore.heap ∧
    nestedStore.value.hosts.get? "node1" = some ⟨.ref 0, .ref 1⟩ ∧
    (GroupOrder.listed nestedInventory).Of nestedInventory ∧
    ∃ ctx h' groups, getAllVariable id nestedStore.value "node1" nestedStore.heap = some (ctx, h') ∧
      convertGroupIn nestedInventory ["node1"] ["cluster", "workers"] = some groups ∧
      (MembersSee id nestedStore.value "node1" (nestedStore.heap.view (.ref 0)) (nestedStore.heap.view (.ref 1))
          (h'.view ctx) groups ↔
        ListedDirectly id nestedStore.value "node1" (nestedStore.heap.view (.ref 0))
          (nestedStore.heap.view (.ref 1))) :=
  have known : nestedStore.value.hosts.get? "node1" = some ⟨.ref 0, .ref 1⟩ := rfl
  have of := GroupOrder.listed_of nestedInventory
  ⟨nestedStore_ok, known, of, getAllVariable_members_iff nestedStore_ok id known of⟩

theorem cluster_vars_missing : ∃ ctx h' groups,
    getAllVariable id nestedStore.value "node1" nestedStore.heap = some (ctx, h') ∧
      convertGroupIn nestedInventory ["node1"] ["cluster", "workers"] = some groups ∧
      ¬ MembersSee id nestedStore.value "node1" (nestedStore.heap.view (.ref 0)) (nestedStore.heap.view (.ref 1))
        (h'.view ctx) groups := by
  have run : (getAllVariable id nestedStore.value "node1" nestedStore.heap).map (fun r => r.2.view r.1 [.key "x"]) =
      some none := by decide +kernel
  obtain ⟨⟨ctx, h'⟩, got, seen⟩ := Option.map_eq_some_iff.1 run
  have expanded : (convertGroupIn nestedInventory ["node1"] ["cluster", "workers"]).bind (fun g => g.get? "cluster") =
      some ["node1"] := by decide +kernel
  obtain ⟨groups, expand, stored⟩ := Option.bind_eq_some_iff.1 expanded
  refine ⟨ctx, h', groups, got, expand, fun see => ?_⟩
  have alone : ShowsAlone id nestedStore.value "node1" (nestedStore.heap.view (.ref 0)) (nestedStore.heap.view (.ref 1))
      "cluster" ⟨["workers"], [], .object [("x", .scalar (.str "group"))]⟩ [.key "x"] := by
    refine ⟨by decide +kernel, fun g w found other _ => ?_, by decide +kernel, by decide +kernel⟩
    have entry : (g, w) = ("cluster", ⟨["workers"], [], .object [("x", .scalar (.str "group"))]⟩) ∨
        (g, w) = ("workers", ⟨[], ["node1"], .empty⟩) := List.mem_pair.1 (GoMap.get?_eq_some_iff.1 found)
    obtain same | same := entry
    · cases same
      exact absurd rfl other
    · cases same
      decide +kernel
  have here := (see "cluster" _ rfl "x" [] (by unfold SystemName; decide) alone).2 ⟨_, stored, by decide⟩
  simp only at seen
  rw [seen] at here
  exact absurd here (by decide +kernel)

end KubeKey.Variable
