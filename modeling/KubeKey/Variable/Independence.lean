import Mathlib.Data.List.Nodup
import KubeKey.Variable.Outcome
import KubeKey.Variable.Precedence

/-!
# Whether the order shows

Two calls of `GetAllVariable` on the same store may visit its maps in different
orders. The comment on `getHostsVariable` speaks of variables combined "in a
specific order", but the groups of a host are merged in the order of a `range`
over a map, and the lists `groups.all` and `groups.ungrouped` have the order of a
`range` over the inventory's hosts.

The order does not show exactly where the groups of each host agree on what no
layer above them decides, and where these two lists have no two hosts in the order
of the loop (`OrderSettled`).
-/

namespace KubeKey.Variable

open KubeKey.Go

/-- In every order `GetAllVariable` returns, and it always returns the same deep value. -/
def OrderIndependent (localIP : String → String) (val : Value) (hostname : String) (h : Heap) : Prop :=
  ∃ w, ∀ orders : Orders, orders.Of val →
    Yields (AnyOrder.GetAllVariable localIP val orders hostname h) fun out => out.2.view out.1 = w

section Groups
variable {inv : InventorySpec}

/-- The hosts of a group that expands. -/
def hostsOf (inv : InventorySpec) (groupName : String) : List String :=
  (hostsInGroup inv (inv.groups.entries.length + 1) groupName).getD []

/-- Every group named expands. -/
def Expands (inv : InventorySpec) (groupNames : List String) : Prop :=
  ∀ gn ∈ groupNames, (hostsInGroup inv (inv.groups.entries.length + 1) gn).isSome

/-- The host is in none of the groups. -/
def isUngrouped (inv : InventorySpec) (groupNames : List String) (hostname : String) : Bool :=
  groupNames.all fun gn => decide (hostname ∉ hostsOf inv gn)

/-- The list `all`, from the inventory's hosts. -/
def allHosts (hosts : List String) : List String :=
  if variableLocalHost ∈ hosts then hosts else hosts ++ [variableLocalHost]

/-- The hosts of a group leave the list. -/
theorem foldl_erase_eq_filter (hosts : List String) : ∀ {ungrouped : List String}, ungrouped.Nodup →
    hosts.foldl (fun u v => if v ∈ u then u.erase v else u) ungrouped =
      ungrouped.filter fun v => decide (v ∉ hosts) := by
  intro ungrouped distinct
  have step : (fun (u : List String) v => if v ∈ u then u.erase v else u) = List.erase := by
    funext u v
    split
    · rfl
    · next absent => rw [List.erase_of_not_mem absent]
  rw [step, ← List.diff_eq_foldl, distinct.sdiff_eq_filter]

/-- The loop of `ConvertGroup` over groups that expand. -/
theorem foldlM_convertGroupStep (names : List String) : Expands inv names →
    ∀ acc : GoMap (List String) × List String, acc.2.Nodup →
      ∃ groups, names.foldlM (convertGroupStep inv) acc = some (groups, acc.2.filter (isUngrouped inv names)) ∧
        ∀ k, groups.get? k = if k ∈ names then some (hostsOf inv k) else acc.1.get? k := by
  induction names with
  | nil =>
    intro _ acc _
    refine ⟨acc.1, ?_, fun k => by simp⟩
    rw [show isUngrouped inv [] = fun _ => true from rfl, List.filter_true]
    rfl
  | cons gn names ih =>
    intro expands acc distinct
    obtain ⟨hosts, expanded⟩ := Option.isSome_iff_exists.1 (expands gn (by simp))
    have here : hostsOf inv gn = hosts := by simp [hostsOf, expanded]
    have first : convertGroupStep inv acc gn =
        some (acc.1.put gn (hostsOf inv gn), acc.2.filter fun v => decide (v ∉ hostsOf inv gn)) := by
      simp only [convertGroupStep, expanded, here, Option.bind_eq_bind, Option.bind_some,
        foldl_erase_eq_filter hosts distinct]
    obtain ⟨groups, rest, found⟩ := ih (fun gn' member => expands gn' (by simp [member]))
      (acc.1.put gn (hostsOf inv gn), acc.2.filter fun v => decide (v ∉ hostsOf inv gn)) (distinct.filter _)
    refine ⟨groups, ?_, fun k => ?_⟩
    · rw [List.foldlM_cons, first, Option.bind_eq_bind, Option.bind_some, rest, List.filter_filter]
      congr 3
      funext v
      simp [isUngrouped, Bool.and_comm]
    · rw [found k, GoMap.get?_put]
      by_cases same : k = gn
      · simp [same]
      · simp [same]

/-- The expanded groups: two of them depend on the order of the hosts. -/
def groupEntry (inv : InventorySpec) (hosts : List String) (k : String) : Option (List String) :=
  if k = variableUnGrouped then some (hosts.filter (isUngrouped inv inv.groups.keys))
  else if k ∈ inv.groups.keys then some (hostsOf inv k)
  else if k = variableGroupsAll then some (allHosts hosts)
  else none

theorem convertGroupIn_spec {hosts names : List String} (expands : Expands inv inv.groups.keys) (distinct : hosts.Nodup)
    (perm : names.Perm inv.groups.keys) :
    ∃ groups, convertGroupIn inv hosts names = some groups ∧ ∀ k, groups.get? k = groupEntry inv hosts k := by
  obtain ⟨groups, loop, found⟩ := foldlM_convertGroupStep names (fun gn member => expands gn (perm.mem_iff.1 member))
    (GoMap.empty.put variableGroupsAll (allHosts hosts), hosts) distinct
  have same : isUngrouped inv names = isUngrouped inv inv.groups.keys := by
    funext v
    rw [Bool.eq_iff_iff, isUngrouped, isUngrouped, List.all_eq_true, List.all_eq_true]
    simp only [perm.mem_iff]
  refine ⟨groups.put variableUnGrouped (hosts.filter (isUngrouped inv names)), ?_, fun k => ?_⟩
  · unfold convertGroupIn
    simp only [allHosts] at loop
    simp only [loop, Option.bind_eq_bind, Option.bind_some]
  · rw [GoMap.get?_put, found k, GoMap.get?_put, same]
    simp only [perm.mem_iff]
    rfl

/-- A group that does not expand keeps the loop of `ConvertGroup` from returning. -/
theorem expands_of_loop {names : List String} {acc s : GoMap (List String) × List String}
    (loop : names.foldlM (convertGroupStep inv) acc = some s) : Expands inv names := by
  induction names generalizing acc with
  | nil =>
    intro gn member
    cases member
  | cons gn names ih =>
    obtain ⟨s₁, first, rest⟩ := Option.bind_eq_some_iff.1 loop
    obtain ⟨hosts, expanded, _⟩ := Option.bind_eq_some_iff.1 first
    intro gn' member
    obtain rfl | later := List.mem_cons.1 member
    · rw [expanded]
      rfl
    · exact ih rest gn' later

/-- The groups of a store expand whenever `ConvertGroup` returns. -/
theorem expands_of_convertGroup (returns : (convertGroup inv).isSome) : Expands inv inv.groups.keys := by
  obtain ⟨groups, run⟩ := Option.isSome_iff_exists.1 returns
  obtain ⟨s, loop, _⟩ := Option.bind_eq_some_iff.1 run
  exact expands_of_loop loop

end Groups

/-- The layers of a host above its groups. -/
def upperLayers (val : Value) (hostname : String) (remote runtime : DeepView) : List DeepView :=
  [remote, runtime, val.inventory.vars.view, ((val.inventory.hosts.get? hostname).getD .empty).view, val.config.view]

/-- Where no layer above the groups of a host decides a path, those of its groups that decide it agree. -/
def Uncontested (val : Value) (hostname : String) (remote runtime : DeepView) (p : Path) : Prop :=
  defines (upperLayers val hostname remote runtime) p = false →
    ∀ a ∈ groupLayers val hostname, ∀ b ∈ groupLayers val hostname,
      a.decides Shape.opens p = true → b.decides Shape.opens p = true → a p = b p

/-- The host takes its `hostname` from `os`. -/
def NamedByOS (val : Value) (hostname : String) (remote runtime : DeepView) : Prop :=
  layered (hostLayers val hostname remote runtime) [.key variableOS] = some .map

/-- The order of the loops does not show. Below `hostname` the groups may differ if `os` gives the name. -/
structure OrderSettled (h : Heap) (val : Value) : Prop where
  facts : OSFacts h val
  vars : ∀ hostname hv, val.hosts.get? hostname = some hv → ∀ k p,
    (k = variableHostName → ¬ NamedByOS val hostname (h.view hv.remoteVars) (h.view hv.runtimeVars)) →
      Uncontested val hostname (h.view hv.remoteVars) (h.view hv.runtimeVars) (.key k :: p)
  all : variableGroupsAll ∈ val.inventory.groups.keys ∨ val.inventory.hosts.keys.length ≤ 1
  ungrouped : (val.inventory.hosts.keys.filter (isUngrouped val.inventory val.inventory.groups.keys)).length ≤ 1

section Layers
variable {val : Value} {gs : List (String × InventoryGroup)} {hostname : String} {remote runtime : DeepView} {p : Path}

/-- The group layers in the order `gs`. -/
def orderedGroups (gs : List (String × InventoryGroup)) (hostname : String) : List DeepView :=
  (gs.filter fun g => hostname ∈ g.2.hosts).map fun g => g.2.vars.view

theorem layered_orderedLayers (val : Value) (gs : List (String × InventoryGroup)) (hostname : String)
    (remote runtime : DeepView) (p : Path) :
    layered (orderedLayers val gs hostname remote runtime) p =
      if defines (upperLayers val hostname remote runtime) p then layered (upperLayers val hostname remote runtime) p
      else layered (orderedGroups gs hostname) p :=
  layered_append (orderedGroups gs hostname) (upperLayers val hostname remote runtime) p

theorem orderedGroups_perm (visits : val.inventory.groups.Visits gs) (hostname : String) :
    (orderedGroups gs hostname).Perm (groupLayers val hostname) :=
  (List.Perm.filter _ visits).map _

/-- Where the groups agree their order does not show. -/
theorem Uncontested.layered_eq (uncontested : Uncontested val hostname remote runtime p)
    (visits : val.inventory.groups.Visits gs) :
    layered (orderedLayers val gs hostname remote runtime) p = layered (hostLayers val hostname remote runtime) p := by
  have listed := layered_orderedLayers val val.inventory.groups.entries hostname remote runtime p
  rw [layered_orderedLayers]
  refine Eq.trans ?_ listed.symm
  split
  · rfl
  · next undecided =>
    refine (View.stack_perm (orderedGroups_perm visits hostname).symm ?_).symm
    exact uncontested (by simpa using undecided)

/-- The layers merged last. -/
theorem layered_config (val : Value) (gs : List (String × InventoryGroup)) (hostname : String)
    (remote runtime : DeepView) :
    ∃ w, layered (orderedLayers val gs hostname remote runtime) = overlay w val.config.view := by
  have last : orderedLayers val gs hostname remote runtime = (orderedGroups gs hostname ++
      [remote, runtime, val.inventory.vars.view, ((val.inventory.hosts.get? hostname).getD .empty).view]) ++
        [val.config.view] := by
    rw [List.append_assoc]
    rfl
  rw [last, layered, View.stack, List.foldl_append]
  exact ⟨_, rfl⟩

theorem layered_root (val : Value) (gs : List (String × InventoryGroup)) (hostname : String)
    (remote runtime : DeepView) : layered (orderedLayers val gs hostname remote runtime) [] = some .map := by
  obtain ⟨w, last⟩ := layered_config val gs hostname remote runtime
  rw [last]
  exact overlay_root (rawExtension_root _)

theorem layered_idx (val : Value) (gs : List (String × InventoryGroup)) (hostname : String) (remote runtime : DeepView)
    (i : Nat) (p : Path) :
    layered (orderedLayers val gs hostname remote runtime) (.idx i :: p) = val.config.view (.idx i :: p) := by
  obtain ⟨w, last⟩ := layered_config val gs hostname remote runtime
  rw [last]
  exact View.overlay_of_decides (View.decides_cons_shut (rawExtension_root _) rfl p)

/-- `defaultHostVariable` reads nothing below `hostname` when `os` is a map. -/
theorem namedView_congr (localIP : String → String) {w w' : DeepView} (root : w [] = some .map)
    (root' : w' [] = some .map) (idx : ∀ i p, w (.idx i :: p) = w' (.idx i :: p))
    (same : ∀ k p, (k = variableHostName → w [.key variableOS] ≠ some .map) → w (.key k :: p) = w' (.key k :: p)) :
    namedView localIP hostname w = namedView localIP hostname w' := by
  have notName : variableOS = variableHostName → w [.key variableOS] ≠ some .map := fun name => absurd name (by decide)
  have os : w [.key variableOS] = w' [.key variableOS] := same _ _ notName
  funext p
  match p with
  | [] => rw [namedView, namedView, root, root']
  | .idx i :: p => exact idx i p
  | .key k :: p =>
    rw [namedView, namedView, ← os]
    by_cases named : k = variableHostName ∧ w [.key variableOS] = some .map
    · rw [if_pos named, if_pos named, same _ _ notName, same _ _ notName]
    · rw [if_neg named, if_neg named]
      exact overlay_key root root' rfl (funext fun q => same _ _ fun name map => named ⟨name, map⟩)

end Layers

section Sufficient
variable {h : Heap} {val : Value} {orders : Orders}

theorem OrderSettled.hostViews_eq (settled : OrderSettled h val) (orderly : orders.Of val) (localIP : String → String) :
    hostViews localIP val orders h = hostViews localIP val (Orders.listed val) h := by
  funext hostname
  unfold hostViews
  cases known : val.hosts.get? hostname with
  | none => rfl
  | some hv =>
    have vars := settled.vars hostname hv known
    have os := (vars variableOS [] fun name => absurd name (by decide)).layered_eq (orderly.groups hostname)
    rw [Option.map_some, Option.map_some]
    congr 1
    refine namedView_congr localIP (layered_root _ _ _ _ _) (layered_root _ _ _ _ _) (fun i p => ?_)
      fun k p notNamed => ?_
    · rw [layered_idx, layered_idx]
    · exact (vars k p fun name named => notNamed name (os.trans named)).layered_eq (orderly.groups hostname)

/-- The same lists, when at most one host is listed. -/
theorem perm_eq_of_length_le_one {α : Type} {l l' : List α} (perm : l.Perm l') (short : l'.length ≤ 1) : l = l' := by
  match l', short with
  | [], _ => exact perm.eq_nil
  | [a], _ => exact List.perm_singleton.1 perm

theorem OrderSettled.groupEntry_eq (settled : OrderSettled h val) (orderly : orders.Of val) (k : String) :
    groupEntry val.inventory (orders.all.map Prod.fst) k = groupEntry val.inventory val.inventory.hosts.keys k := by
  have perm : (orders.all.map Prod.fst).Perm val.inventory.hosts.keys := orderly.all.map _
  unfold groupEntry
  rw [perm_eq_of_length_le_one (perm.filter _) settled.ungrouped]
  rcases settled.all with named | few
  · by_cases all : k = variableGroupsAll
    · subst all
      rw [if_pos named, if_pos named]
    · rw [if_neg all, if_neg all]
  · rw [perm_eq_of_length_le_one perm few]

/-- A `map[string][]string`, entry by entry. -/
theorem groupsLit_view (groups : GoMap (List String)) :
    (groupsLit groups).view = mapView fun k =>
      (groups.get? k).map fun hosts => (Lit.slice .string (hosts.map fun s => .scalar (.str s))).view := by
  funext p
  match p with
  | [] => rfl
  | .idx i :: p => rfl
  | .key k :: p =>
    have keys : (groups.entries.map fun e =>
        (e.1, Lit.slice .string (e.2.map fun s => .scalar (.str s)))).map Prod.fst = groups.entries.map Prod.fst := by
      rw [List.map_map]
      rfl
    simp only [groupsLit, Lit.view, Lit.child, mapView]
    cases stored : groups.get? k with
    | some hosts =>
      have distinct := groups.distinct
      rw [← keys] at distinct
      have member := List.mem_map_of_mem (f := fun e : String × List String =>
        (e.1, Lit.slice .string (e.2.map fun s => .scalar (.str s)))) (GoMap.get?_eq_some_iff.1 stored)
      rw [GoMap.get?_ofList distinct member]
      rfl
    | none =>
      have absent : k ∉ groups.entries.map Prod.fst := fun member => by
        have found := GoMap.get?_isSome_iff.2 member
        rw [stored] at found
        cases found
      rw [GoMap.ofList, GoMap.get?_foldl_put_of_not_mem (keys ▸ absent)]
      rfl

theorem wrappedGroups_view (groups : GoMap (List String)) :
    (Lit.map .any [(variableGroups, groupsLit groups)]).view =
      mapView fun k => if k = variableGroups then some (groupsLit groups).view else none := by
  funext p
  match p with
  | [] => rfl
  | .idx i :: p => rfl
  | .key k :: p =>
    simp only [Lit.view, Lit.child, GoMap.ofList, List.foldl_cons, List.foldl_nil, GoMap.get?_put, GoMap.get?_empty,
      mapView]
    split <;> rfl

theorem contextView_congr {views : String → Option DeepView} {groups groups' : GoMap (List String)}
    (same : ∀ k, groups.get? k = groups'.get? k) (hostname : String) :
    contextView views groups hostname = contextView views groups' hostname := by
  simp only [contextView, wrappedGroups_view, groupsLit_view, same]

/-- A settled store gives the same value in every order. -/
theorem OrderSettled.orderIndependent (settled : OrderSettled h val) (ok : val.Ok h) (localIP : String → String)
    (hostname : String) : OrderIndependent localIP val hostname h := by
  have expands := expands_of_convertGroup ok.expands
  obtain ⟨listed, _, listedEntry⟩ := convertGroupIn_spec expands val.inventory.hosts.distinct (List.Perm.refl _)
  refine ⟨contextView (hostViews localIP val (Orders.listed val) h) listed hostname, fun orders orderly => ?_⟩
  obtain ⟨groups, expanded, entry⟩ := convertGroupIn_spec expands orderly.all.distinct (orderly.names.map Prod.fst)
  refine (getAllVariable_yields ok settled.facts localIP orderly expanded hostname).mono fun out seen => ?_
  rw [seen, settled.hostViews_eq orderly]
  refine contextView_congr (fun k => ?_) hostname
  rw [entry k, listedEntry k, settled.groupEntry_eq orderly]
  rfl

end Sufficient

section Necessary
variable {h : Heap} {val : Value} {orders : Orders} {localIP : String → String} {hostname : String}

/-- Below `hostvars` the context shows the variables of each host, unless a variable has that name. -/
theorem contextView_hostvars {views : String → Option DeepView} {groups : GoMap (List String)} {w v : DeepView}
    (own : views hostname = some w) (unnamed : ∀ q, w (.key variableGlobalHosts :: q) = none) {name : String}
    (host : views name = some v) (closed : v.PrefixClosed) (p : Path) :
    contextView views groups hostname (.key variableGlobalHosts :: .key name :: p) = v p := by
  have lower : w.sub (.key variableGlobalHosts) = fun _ => none := funext unnamed
  have upper : (mapView fun k => if k = variableGlobalHosts then some (mapView views) else none).sub
      (.key variableGlobalHosts) = mapView views := by
    funext q
    simp [View.sub, mapView]
  have below : (mapView views).sub (.key name) = v := by
    funext q
    simp [View.sub, mapView, host]
  have hosts := sub_overlay_key (a := w)
    (b := mapView fun k => if k = variableGlobalHosts then some (mapView views) else none) rfl variableGlobalHosts
  rw [lower, upper] at hosts
  have here := sub_overlay_key (a := fun _ => none) (b := mapView views) rfl name
  have nothing : View.sub (fun _ => none : DeepView) (.key name) = fun _ => none := rfl
  rw [below, nothing, overlay_none_left closed] at here
  simp only [contextView, own]
  rw [overlay_key_absent rfl]
  · exact (congrFun hosts (.key name :: p)).trans (congrFun here p)
  · intro q
    rw [wrappedGroups_view]
    rfl

/-- Below `groups` the context shows the expanded groups. -/
theorem contextView_groups {views : String → Option DeepView} {groups : GoMap (List String)} {w : DeepView}
    (own : views hostname = some w) {k : String} {hosts : List String} (stored : groups.get? k = some hosts) (i : Nat) :
    contextView views groups hostname [.key variableGroups, .key k, .idx i] =
      hosts[i]?.map fun s => .scalar (.str s) := by
  have shape : (Lit.map .any [(variableGroups, groupsLit groups)]).view [.key variableGroups, .key k] =
      some (.slice hosts.length) := by
    rw [wrappedGroups_view, groupsLit_view]
    simp [mapView, stored, Lit.view, Lit.shape]
  have decided : View.decides Shape.opens (Lit.map .any [(variableGroups, groupsLit groups)]).view
      [.key variableGroups, .key k, .idx i] = true :=
    View.decides_below (Lit.view_prefixClosed _) shape rfl []
  simp only [contextView, own]
  rw [overlay, View.overlay_of_decides decided, wrappedGroups_view, groupsLit_view]
  simp only [mapView, stored, if_true, Option.bind_some, Option.map_some, Lit.view, Lit.child, List.getElem?_map]
  cases hosts[i]? <;> rfl

/-- What is seen of each host is a value of the heap. -/
theorem hostViews_prefixClosed (ok : val.Ok h) (facts : OSFacts h val) (orderly : orders.Of val) {name : String}
    {v : DeepView} (host : hostViews localIP val orders h name = some v) : v.PrefixClosed := by
  have yields := getHostsVariable_yields ok facts localIP orderly
  obtain ⟨acc, run⟩ := yields.returns
  rw [← (yields.always acc run).entry orderly name] at host
  obtain ⟨c, _, rfl⟩ := Option.map_eq_some_iff.1 host
  exact Heap.view_prefixClosed _ _

/-- No layer of the host defines a variable of this name. -/
def Unnamed (h : Heap) (val : Value) (hostname k : String) : Prop :=
  ∀ hv, val.hosts.get? hostname = some hv →
    ∀ a ∈ hostLayers val hostname (h.view hv.remoteVars) (h.view hv.runtimeVars), a [.key k] = none

theorem mem_orderedLayers {gs : List (String × InventoryGroup)} {remote runtime a : DeepView}
    (visits : val.inventory.groups.Visits gs) :
    a ∈ orderedLayers val gs hostname remote runtime ↔ a ∈ hostLayers val hostname remote runtime :=
  ((orderedGroups_perm visits hostname).append_right (upperLayers val hostname remote runtime)).mem_iff

theorem orderedLayers_prefixClosed {gs : List (String × InventoryGroup)} (visits : val.inventory.groups.Visits gs)
    {hv : HostVars} (ok : hv.Ok h) :
    (layered (orderedLayers val gs hostname (h.view hv.remoteVars) (h.view hv.runtimeVars))).PrefixClosed :=
  View.PrefixClosed.stack (Lit.view_prefixClosed _) fun a member =>
    (hostLayers_wellFormed val hostname ok a ((mem_orderedLayers visits).1 member)).1

/-- A variable that no layer defines is not there. -/
theorem Unnamed.absent {hv : HostVars} (unnamed : Unnamed h val hostname variableGlobalHosts)
    (known : val.hosts.get? hostname = some hv) (ok : hv.Ok h) {gs : List (String × InventoryGroup)}
    (visits : val.inventory.groups.Visits gs) (q : Path) :
    orderedView localIP val gs hostname (h.view hv.remoteVars) (h.view hv.runtimeVars) (.key variableGlobalHosts :: q) =
      none := by
  have nothing : ∀ q, layered (orderedLayers val gs hostname (h.view hv.remoteVars) (h.view hv.runtimeVars))
      (.key variableGlobalHosts :: q) = none := by
    intro q
    have undecided : defines (orderedLayers val gs hostname (h.view hv.remoteVars) (h.view hv.runtimeVars))
        (.key variableGlobalHosts :: q) = false := by
      refine List.any_eq_false.2 fun a member => ?_
      have inside := (mem_orderedLayers visits).1 member
      obtain ⟨closed, root⟩ := hostLayers_wellFormed val hostname ok a inside
      have missing : a.sub (.key variableGlobalHosts) = fun _ => none := by
        funext r
        exact closed [.key variableGlobalHosts] r (unnamed hv known a inside)
      rw [View.decides_cons_open root rfl, missing, View.decides_empty]
      simp
    rw [layered, View.stack_of_not_anyDecides undecided]
    rfl
  rw [orderedView, namedView, if_neg fun both => absurd both.1 (by decide),
    overlay_key_absent (layered_root _ _ _ _ _) nothing]
  cases q with
  | nil =>
    have other : variableGlobalHosts ≠ variableHostName := by decide
    simp only [namesView, if_neg other, defaultValue]
    rw [if_neg fun both => absurd both.2 (by decide), if_neg (by decide)]
    rfl
  | cons s q => rfl

/-- What one deep value for all orders says about the host variables. -/
theorem seen_hostvars {w : DeepView} (ok : val.Ok h) (facts : OSFacts h val)
    (unnamed : Unnamed h val hostname variableGlobalHosts) {own : HostVars} (known : val.hosts.get? hostname = some own)
    (same : ∀ orders : Orders, orders.Of val →
      Yields (AnyOrder.GetAllVariable localIP val orders hostname h) fun out => out.2.view out.1 = w)
    (orderly : orders.Of val) {name : String} {hv : HostVars} (host : val.hosts.get? name = some hv) (p : Path) :
    orderedView localIP val (orders.groups name) name (h.view hv.remoteVars) (h.view hv.runtimeVars) p =
      w (.key variableGlobalHosts :: .key name :: p) := by
  obtain ⟨groups, expanded, _⟩ := convertGroupIn_spec (expands_of_convertGroup ok.expands) orderly.all.distinct
    (orderly.names.map Prod.fst)
  have yields := getAllVariable_yields ok facts localIP orderly expanded hostname
  obtain ⟨out, run⟩ := yields.returns
  rw [← (same orders orderly).always out run, yields.always out run]
  have here : hostViews localIP val orders h name = some
      (orderedView localIP val (orders.groups name) name (h.view hv.remoteVars) (h.view hv.runtimeVars)) := by
    rw [hostViews, host, Option.map_some]
  refine (contextView_hostvars (by rw [hostViews, known, Option.map_some]) ?_ here
    (hostViews_prefixClosed ok facts orderly here) p).symm
  exact unnamed.absent known (ok.hosts hostname own known) (orderly.groups hostname)

/-- What one deep value for all orders says about the lists of hosts. -/
theorem seen_groups {w : DeepView} (ok : val.Ok h) (facts : OSFacts h val) {own : HostVars}
    (known : val.hosts.get? hostname = some own)
    (same : ∀ orders : Orders, orders.Of val →
      Yields (AnyOrder.GetAllVariable localIP val orders hostname h) fun out => out.2.view out.1 = w)
    (orderly : orders.Of val) {k : String} {hosts : List String}
    (entry : groupEntry val.inventory (orders.all.map Prod.fst) k = some hosts) (i : Nat) :
    hosts[i]?.map (fun s => Shape.scalar (.str s)) = w [.key variableGroups, .key k, .idx i] := by
  obtain ⟨groups, expanded, found⟩ := convertGroupIn_spec (expands_of_convertGroup ok.expands) orderly.all.distinct
    (orderly.names.map Prod.fst)
  have yields := getAllVariable_yields ok facts localIP orderly expanded hostname
  obtain ⟨out, run⟩ := yields.returns
  rw [← (same orders orderly).always out run, yields.always out run]
  exact (contextView_groups (by rw [hostViews, known, Option.map_some]) ((found k).trans entry) i).symm

/-- The group that comes last gives what no higher layer decides. -/
theorem layered_last {front : List (String × InventoryGroup)} {g : String × InventoryGroup}
    (member : hostname ∈ g.2.hosts) {remote runtime : DeepView} {p : Path} (undecided : defines (upperLayers val hostname remote runtime) p = false)
    (decided : g.2.vars.view.decides Shape.opens p = true) :
    layered (orderedLayers val (front ++ [g]) hostname remote runtime) p = g.2.vars.view p := by
  have last : orderedGroups (front ++ [g]) hostname = orderedGroups front hostname ++ [g.2.vars.view] := by
    rw [orderedGroups, List.filter_append, List.map_append, List.filter_cons_of_pos (by simpa using member)]
    rfl
  rw [layered_orderedLayers, if_neg (by simp [undecided]), last, layered, View.stack, List.foldl_append]
  exact View.overlay_of_decides decided

/-- The defaults do not show where a variable is found. -/
theorem namedView_of_found {w : DeepView} (closed : w.PrefixClosed) {k : String} {p : Path}
    (notNamed : k = variableHostName → w [.key variableOS] ≠ some .map) (found : p = [] → (w [.key k]).isSome) :
    namedView localIP hostname w (.key k :: p) = w (.key k :: p) := by
  rw [namedView, if_neg fun both => notNamed both.1 both.2]
  cases decided : w.decides Shape.opens (.key k :: p) with
  | true => exact View.overlay_of_decides decided
  | false =>
    have absent : w (.key k :: p) = none := View.none_of_not_decides closed decided
    rw [overlay, View.overlay_of_not_decides decided, absent]
    cases p with
    | nil =>
      have held := found rfl
      rw [absent] at held
      cases held
    | cons s p => rfl

/-- One deep value for all orders shows what each group decides below the higher layers. -/
theorem seen_group {w : DeepView} {name : String} {hv : HostVars} (ok : hv.Ok h)
    (shown : ∀ orders : Orders, orders.Of val → ∀ p,
      orderedView localIP val (orders.groups name) name (h.view hv.remoteVars) (h.view hv.runtimeVars) p = w p)
    {k : String} {p : Path}
    (notNamed : ∀ gs, val.inventory.groups.Visits gs → k = variableHostName →
      layered (orderedLayers val gs name (h.view hv.remoteVars) (h.view hv.runtimeVars)) [.key variableOS] ≠ some .map)
    (undecided : defines (upperLayers val name (h.view hv.remoteVars) (h.view hv.runtimeVars)) (.key k :: p) = false)
    {a : DeepView} (member : a ∈ groupLayers val name) (decided : a.decides Shape.opens (.key k :: p) = true) :
    a (.key k :: p) = w (.key k :: p) := by
  obtain ⟨g, inside, rfl⟩ := List.mem_map.1 member
  obtain ⟨entry, lists⟩ := List.mem_filter.1 inside
  obtain ⟨front, visits⟩ := GoMap.Visits.exists_last entry
  have last : layered (orderedLayers val (front ++ [g]) name (h.view hv.remoteVars) (h.view hv.runtimeVars))
      (.key k :: p) = g.2.vars.view (.key k :: p) := layered_last (by simpa using lists) undecided decided
  rw [← shown { Orders.listed val with groups := fun _ => front ++ [g] }
    { Orders.listed_of val with groups := fun _ => visits }, orderedView, namedView_of_found
      (orderedLayers_prefixClosed visits ok) (notNamed _ visits), last]
  rintro rfl
  rw [last]
  rwa [View.decides_cons_open (rawExtension_root _) rfl] at decided

theorem vars_of_orderIndependent {w : DeepView} {name : String} {hv : HostVars} (ok : hv.Ok h)
    (shown : ∀ orders : Orders, orders.Of val → ∀ p,
      orderedView localIP val (orders.groups name) name (h.view hv.remoteVars) (h.view hv.runtimeVars) p = w p)
    (k : String) (p : Path)
    (notNamed : k = variableHostName → ¬ NamedByOS val name (h.view hv.remoteVars) (h.view hv.runtimeVars)) :
    Uncontested val name (h.view hv.remoteVars) (h.view hv.runtimeVars) (.key k :: p) := by
  have agree : ∀ k p, (∀ gs, val.inventory.groups.Visits gs → k = variableHostName →
      layered (orderedLayers val gs name (h.view hv.remoteVars) (h.view hv.runtimeVars)) [.key variableOS] ≠
        some .map) → Uncontested val name (h.view hv.remoteVars) (h.view hv.runtimeVars) (.key k :: p) := by
    intro k p other undecided a first b second decidesA decidesB
    exact (seen_group ok shown other undecided first decidesA).trans
      (seen_group ok shown other undecided second decidesB).symm
  -- what `os` is does not depend on the order, so neither does where the name comes from
  have os := agree variableOS [] fun _ _ named => absurd named (by decide)
  exact agree k p fun gs visits named map => notNamed named ((os.layered_eq visits).symm.trans map)

theorem length_le_one_of_same {l : List String} (distinct : l.Nodup) (same : ∀ x ∈ l, ∀ y ∈ l, x = y) :
    l.length ≤ 1 := by
  match l with
  | [] => exact Nat.zero_le 1
  | [_] => exact Nat.le_refl 1
  | x :: y :: rest =>
    have equal := same x (by simp) y (by simp)
    rw [List.nodup_cons] at distinct
    exact absurd (by simp [equal]) distinct.1

/-- The order in which an entry of the inventory's hosts comes first. -/
theorem exists_first_host {x : String} (member : x ∈ val.inventory.hosts.keys) :
    ∃ orders : Orders, orders.Of val ∧ ∃ rest, orders.all.map Prod.fst = x :: rest := by
  obtain ⟨e, entry, rfl⟩ := List.mem_map.1 member
  obtain ⟨rest, visits⟩ := GoMap.Visits.exists_first entry
  exact ⟨{ Orders.listed val with all := e :: rest }, { Orders.listed_of val with all := visits }, _, rfl⟩

/-- A list of hosts that shows which host comes first names at most one host. -/
theorem few_of_shown {w : DeepView} {k : String}
    (shown : ∀ orders : Orders, orders.Of val → ∀ hosts,
      groupEntry val.inventory (orders.all.map Prod.fst) k = some hosts → hosts[0]?.map (fun s => Shape.scalar (.str s)) = w [.key variableGroups, .key k, .idx 0])
    {names : List String} (distinct : names.Nodup) (listed : ∀ x ∈ names, x ∈ val.inventory.hosts.keys)
    (first : ∀ x ∈ names, ∀ rest, ∃ hosts, groupEntry val.inventory (x :: rest) k = some (x :: hosts)) :
    names.length ≤ 1 := by
  have seen : ∀ x ∈ names, w [.key variableGroups, .key k, .idx 0] = some (.scalar (.str x)) := by
    intro x member
    obtain ⟨orders, orderly, rest, order⟩ := exists_first_host (listed x member)
    obtain ⟨hosts, entry⟩ := first x member rest
    rw [← shown orders orderly (x :: hosts) (order ▸ entry)]
    rfl
  refine length_le_one_of_same distinct fun x memberX y memberY => ?_
  have equal := (seen x memberX).symm.trans (seen y memberY)
  simpa using equal

end Necessary

/-- `GetAllVariable` returns the same value in every order if the store is settled. If no layer of the host is named
`hostvars`, it does so only then. -/
theorem getAllVariable_orderIndependent {h : Heap} {val : Value} (ok : val.Ok h) (localIP : String → String)
    {hostname : String} {own : HostVars} (known : val.hosts.get? hostname = some own) :
    (OrderSettled h val → OrderIndependent localIP val hostname h) ∧
      (OSFacts h val → Unnamed h val hostname variableGlobalHosts → OrderIndependent localIP val hostname h →
        OrderSettled h val) := by
  refine ⟨fun settled => settled.orderIndependent ok localIP hostname, fun facts unnamed independent => ?_⟩
  obtain ⟨w, same⟩ := independent
  have lists : ∀ k (orders : Orders), orders.Of val → ∀ hosts,
      groupEntry val.inventory (orders.all.map Prod.fst) k = some hosts →
        hosts[0]?.map (fun s => Shape.scalar (.str s)) = w [.key variableGroups, .key k, .idx 0] :=
    fun k orders orderly hosts entry => seen_groups ok facts known same orderly entry 0
  refine ⟨facts, fun name hv host => ?_, ?_, ?_⟩
  · exact vars_of_orderIndependent (ok.hosts name hv host)
      fun orders orderly p => seen_hostvars ok facts unnamed known same orderly host p
  · by_cases named : variableGroupsAll ∈ val.inventory.groups.keys
    · exact Or.inl named
    · refine Or.inr (few_of_shown (lists variableGroupsAll) val.inventory.hosts.distinct (fun _ member => member) ?_)
      intro x _ rest
      rw [groupEntry, if_neg (by decide), if_neg named, if_pos rfl, allHosts]
      split
      · exact ⟨rest, rfl⟩
      · exact ⟨rest ++ [variableLocalHost], rfl⟩
  · refine few_of_shown (lists variableUnGrouped) (val.inventory.hosts.distinct.filter _)
      (fun x member => (List.mem_filter.1 member).1) ?_
    intro x member rest
    rw [groupEntry, if_pos rfl, List.filter_cons_of_pos (List.mem_filter.1 member).2]
    exact ⟨_, rfl⟩

/-- A host in two groups that set the same variable. -/
def twoGroups (x y : String) : InventorySpec where
  hosts := GoMap.empty.put "node1" .empty
  vars := .empty
  groups := (GoMap.empty.put "masters" ⟨[], ["node1"], .object [("x", .scalar (.str x))]⟩).put "workers"
    ⟨[], ["node1"], .object [("x", .scalar (.str y))]⟩

/-- What `New` makes of it. -/
def twoGroupsStore (x y : String) : Store where
  heap := ⟨List.replicate 4 (.map .any .empty)⟩
  value := ⟨.empty, twoGroups x y, (GoMap.empty.put "node1" ⟨.ref 0, .ref 1⟩).put "localhost" ⟨.ref 2, .ref 3⟩,
    .nilMap .any⟩
  source := .memory .empty

theorem twoGroupsStore_new (x y : String) :
    newVariable .empty (twoGroups x y) (.memory .empty) [] = .ok (twoGroupsStore x y) := rfl

theorem twoGroupsStore_ok (x y : String) : (twoGroupsStore x y).value.Ok (twoGroupsStore x y).heap :=
  (newVariable_ok (show Source.isFresh (.memory .empty) from rfl) (twoGroupsStore_new x y)).valueOk

theorem twoGroupsStore_child (x y : String) (l : Nat) (k : String) :
    (twoGroupsStore x y).heap.child (.ref l) (.key k) = none := by
  simp only [twoGroupsStore, Heap.child, Heap.deref, Heap.get?, List.getElem?_replicate]
  split <;> rfl

theorem twoGroupsStore_hosts {x y hostname : String} {hv : HostVars}
    (known : (twoGroupsStore x y).value.hosts.get? hostname = some hv) :
    ∃ l l', hv = ⟨.ref l, .ref l'⟩ := by
  simp only [twoGroupsStore, GoMap.get?_put, GoMap.get?_empty] at known
  split at known
  · exact ⟨2, 3, (Option.some.inj known).symm⟩
  · split at known
    · exact ⟨0, 1, (Option.some.inj known).symm⟩
    · cases known

theorem twoGroupsStore_facts (x y : String) : OSFacts (twoGroupsStore x y).heap (twoGroupsStore x y).value where
  groups := by
    intro name g stored
    simp only [twoGroupsStore, twoGroups, GoMap.get?_put, GoMap.get?_empty] at stored
    split at stored
    · cases stored
      intro t es member
      simp at member
    · split at stored
      · cases stored
        intro t es member
        simp at member
      · cases stored
  inventory := trivial
  host := by
    intro name ext stored
    simp only [twoGroupsStore, twoGroups, GoMap.get?_put, GoMap.get?_empty] at stored
    split at stored
    · cases stored
      trivial
    · cases stored
  config := trivial
  remote := by
    intro hostname hv known c step
    obtain ⟨l, l', rfl⟩ := twoGroupsStore_hosts known
    rw [twoGroupsStore_child] at step
    cases step
  runtime := by
    intro hostname hv known c step
    obtain ⟨l, l', rfl⟩ := twoGroupsStore_hosts known
    rw [twoGroupsStore_child] at step
    cases step

/-- Groups that set the same value leave nothing to the order. -/
theorem twoGroupsStore_settled (x : String) : OrderSettled (twoGroupsStore x x).heap (twoGroupsStore x x).value where
  facts := twoGroupsStore_facts x x
  vars := by
    intro hostname hv _ k p _ _ a first b second _ _
    have same : ∀ c ∈ groupLayers (twoGroupsStore x x).value hostname,
        c = (RawExtension.object [("x", .scalar (.str x))]).view := by
      intro c member
      obtain ⟨g, inside, rfl⟩ := List.mem_map.1 member
      have stored := GoMap.get?_eq_some_iff.2 (List.mem_filter.1 inside).1
      simp only [twoGroupsStore, twoGroups, GoMap.get?_put, GoMap.get?_empty] at stored
      split at stored
      · rw [← Option.some.inj stored]
      · split at stored
        · rw [← Option.some.inj stored]
        · cases stored
    rw [same a first, same b second]
  all := Or.inr (Nat.le_refl 1)
  ungrouped := List.length_filter_le _ _

theorem getAllVariable_orderIndependent_node1 : (twoGroupsStore "a" "a").value.Ok (twoGroupsStore "a" "a").heap ∧
    (twoGroupsStore "a" "a").value.hosts.get? "node1" = some ⟨.ref 0, .ref 1⟩ ∧
    OrderSettled (twoGroupsStore "a" "a").heap (twoGroupsStore "a" "a").value ∧
    Unnamed (twoGroupsStore "a" "a").heap (twoGroupsStore "a" "a").value "node1" variableGlobalHosts ∧
    OrderIndependent id (twoGroupsStore "a" "a").value "node1" (twoGroupsStore "a" "a").heap := by
  have ok := twoGroupsStore_ok "a" "a"
  have known : (twoGroupsStore "a" "a").value.hosts.get? "node1" = some ⟨.ref 0, .ref 1⟩ := rfl
  have settled := twoGroupsStore_settled "a"
  refine ⟨ok, known, settled, fun hv stored => ?_, (getAllVariable_orderIndependent ok id known).1 settled⟩
  rw [known] at stored
  cases stored
  decide +kernel

/-- The groups in the other order. -/
def swappedOrders (x y : String) : Orders :=
  { Orders.listed (twoGroupsStore x y).value with groups := fun _ => (twoGroups x y).groups.entries.reverse }

theorem swappedOrders_of (x y : String) : (swappedOrders x y).Of (twoGroupsStore x y).value :=
  { Orders.listed_of (twoGroupsStore x y).value with groups := fun _ => List.reverse_perm _ }

/-- Two groups set `x`: one run returns the value of the first, another that of the second. -/
theorem twoGroups_disagree :
    ¬ OrderIndependent id (twoGroupsStore "a" "b").value "node1" (twoGroupsStore "a" "b").heap := by
  rintro ⟨w, same⟩
  have expanded : convertGroupIn (twoGroups "a" "b") ["node1"] ["masters", "workers"] =
      some ((convertGroup (twoGroups "a" "b")).getD .empty) := by decide +kernel
  have listed := getAllVariable_yields (twoGroupsStore_ok "a" "b") (twoGroupsStore_facts "a" "b") id
    (Orders.listed_of _) expanded "node1"
  have swapped := getAllVariable_yields (twoGroupsStore_ok "a" "b") (twoGroupsStore_facts "a" "b") id
    (swappedOrders_of "a" "b") expanded "node1"
  obtain ⟨out, run⟩ := listed.returns
  obtain ⟨out', run'⟩ := swapped.returns
  have agree := ((same _ (Orders.listed_of _)).always out run).trans
    ((same _ (swappedOrders_of "a" "b")).always out' run').symm
  rw [listed.always out run, swapped.always out' run'] at agree
  have differ : contextView (hostViews id (twoGroupsStore "a" "b").value (Orders.listed (twoGroupsStore "a" "b").value)
        (twoGroupsStore "a" "b").heap) ((convertGroup (twoGroups "a" "b")).getD .empty) "node1" [.key "x"] ≠
      contextView (hostViews id (twoGroupsStore "a" "b").value (swappedOrders "a" "b") (twoGroupsStore "a" "b").heap)
        ((convertGroup (twoGroups "a" "b")).getD .empty) "node1" [.key "x"] := by decide +kernel
  exact differ (congrFun agree [.key "x"])

end KubeKey.Variable
