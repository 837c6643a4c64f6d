import Mathlib.Data.List.TakeWhile
import KubeKey.Infrastructure.Inventory

/-!
# Which machine gets which host

`setProviderID` tries every selected host on every machine of the list that had no
provider ID when the list was read. The first host therefore goes to all of them, up to
one whose update is refused, and no other host goes anywhere: the list still has the old
resource versions (`setProviderID_cons`). The hosts end up one to a machine just if the
first is the only one that lacks a machine and there is one machine to give it to
(`assigns_iff`).
-/

namespace KubeKey.Infrastructure

open KubeKey.Go KubeKey.Variable

theorem trimPrefix_append (p s : String) : trimPrefix (p ++ s) p = s := by
  have front : p.toList.isPrefixOf (p ++ s).toList = true := by
    rw [List.isPrefixOf_iff_prefix, String.toList_append]
    exact List.prefix_append _ _
  rw [trimPrefix, if_pos front, String.toList_append, List.drop_left, String.ofList_toList]

theorem providerID2Host_host2ProviderID (clusterName host : String) :
    providerID2Host clusterName (some (host2ProviderID clusterName host)) = host :=
  trimPrefix_append _ _

theorem host2ProviderID_injective (clusterName : String) : Function.Injective (host2ProviderID clusterName) :=
  Function.LeftInverse.injective (g := fun id => providerID2Host clusterName (some id))
    (providerID2Host_host2ProviderID clusterName)

/-- A list of machines that was just read. -/
structure Fresh (items api : List KKMachine) : Prop where
  stored : ∀ m ∈ items, m ∈ api
  once : (items.map KKMachine.name).Nodup
  distinct : (api.map KKMachine.name).Nodup

/-- The machines that get an ID, by their names. -/
def assign (id : String) (names : List String) (api : List KKMachine) : List KKMachine :=
  api.map fun m =>
    if m.name ∈ names then { m with providerID := some id, resourceVersion := m.resourceVersion + 1 } else m

def unassigned (items : List KKMachine) : List KKMachine := items.filter fun m => m.providerID.isNone

/-- The machines without a provider ID up to the first whose update is refused. -/
def reached (answered : String → Bool) (items : List KKMachine) : List KKMachine :=
  (unassigned items).takeWhile fun m => answered m.name

section Loops
variable {clusterName host id : String} {answered : String → Bool} {items api api' : List KKMachine} {m : KKMachine}

theorem eq_of_name (distinct : (api.map KKMachine.name).Nodup) {m m' : KKMachine} (inside : m ∈ api)
    (inside' : m' ∈ api) (same : m.name = m'.name) : m = m' :=
  List.inj_on_of_nodup_map distinct inside inside' same

theorem find_stored (distinct : (api.map KKMachine.name).Nodup) (stored : m ∈ api) {name : String}
    (named : m.name = name) : (api.find? fun m => m.name = name) = some m := by
  cases found : api.find? fun m => m.name = name with
  | none => exact absurd named (by simpa using List.find?_eq_none.mp found m stored)
  | some m' =>
    have same : m'.name = name := by simpa using List.find?_some found
    exact congrArg some (eq_of_name distinct (List.mem_of_find?_eq_some found) stored (same.trans named.symm))

@[simp] theorem assign_nil (id : String) (api : List KKMachine) : assign id [] api = api := by
  simp [assign]

@[simp] theorem names_assign (id : String) (names : List String) (api : List KKMachine) :
    (assign id names api).map KKMachine.name = api.map KKMachine.name := by
  rw [assign, List.map_map]
  refine List.map_congr_left fun m _ => ?_
  simp only [Function.comp_apply]
  split <;> rfl

/-- The update of a machine that was just read goes through unless it is refused. -/
theorem update_stored (distinct : (api.map KKMachine.name).Nodup) (stored : m ∈ api) :
    update answered { m with providerID := some id } api =
      if answered m.name then some (assign id [m.name] api) else none := by
  simp only [update, find_stored distinct stored rfl, and_true]
  split
  · refine congrArg some (List.map_congr_left fun m' inside => ?_)
    by_cases same : m'.name = m.name
    · rw [if_pos same, if_pos (by simpa using same), eq_of_name distinct inside stored same]
    · rw [if_neg same, if_neg (by simpa using same)]
  · rfl

theorem assign_assign (id name : String) (names : List String) (api : List KKMachine) (other : name ∉ names) :
    assign id names (assign id [name] api) = assign id (name :: names) api := by
  rw [assign, assign, assign, List.map_map]
  refine List.map_congr_left fun m _ => ?_
  by_cases same : m.name = name
  · subst same
    simp [other]
  · simp [same]

theorem Fresh.tail {m : KKMachine} {items : List KKMachine} (fresh : Fresh (m :: items) api) : Fresh items api :=
  ⟨fun m' inside => fresh.stored m' (List.mem_cons_of_mem _ inside), (List.nodup_cons.mp fresh.once).2, fresh.distinct⟩

/-- The other machines of the list stay as they were read. -/
theorem Fresh.assign {m : KKMachine} {items : List KKMachine} (fresh : Fresh (m :: items) api) :
    Fresh items (assign id [m.name] api) where
  stored m' inside := by
    refine List.mem_map.mpr ⟨m', fresh.stored m' (List.mem_cons_of_mem _ inside), if_neg fun same => ?_⟩
    rw [List.mem_singleton] at same
    exact (List.nodup_cons.mp fresh.once).1 (same ▸ List.mem_map_of_mem inside)
  once := (List.nodup_cons.mp fresh.once).2
  distinct := by
    rw [names_assign]
    exact fresh.distinct

theorem unassigned_cons_of_set (set : m.providerID.isSome) : unassigned (m :: items) = unassigned items :=
  List.filter_cons_of_neg (by simpa [Option.isSome_iff_ne_none] using set)

theorem unassigned_cons_of_unset (unset : ¬ m.providerID.isSome) : unassigned (m :: items) = m :: unassigned items :=
  List.filter_cons_of_pos (by simpa [Option.isNone_iff_eq_none] using unset)

/-- The inner loop on a fresh list gives the host to every machine that it reaches. -/
theorem setHost_eq (fresh : Fresh items api) :
    setHost clusterName host answered items api =
      ((unassigned items).all fun m => answered m.name,
        assign (host2ProviderID clusterName host) ((reached answered items).map KKMachine.name) api) := by
  induction items generalizing api with
  | nil => simp [setHost, unassigned, reached]
  | cons m items ih =>
    rw [setHost]
    by_cases set : m.providerID.isSome
    · rw [if_pos set, ih fresh.tail, reached, reached, unassigned_cons_of_set set]
    · rw [if_neg set, update_stored fresh.distinct (fresh.stored m List.mem_cons_self), reached,
        unassigned_cons_of_unset set]
      cases ok : answered m.name with
      | false => simp [ok]
      | true =>
        have other : m.name ∉ ((unassigned items).takeWhile fun m => answered m.name).map KKMachine.name := by
          intro again
          obtain ⟨m', inside, same⟩ := List.mem_map.mp again
          have member : m' ∈ items := List.mem_of_mem_filter ((List.takeWhile_sublist _).subset inside)
          exact (List.nodup_cons.mp fresh.once).1 (same ▸ List.mem_map_of_mem member)
        simp only [if_true, ih fresh.assign, List.all_cons, ok, Bool.true_and, List.takeWhile_cons, List.map_cons,
          reached]
        rw [assign_assign _ _ _ _ other]

theorem setHost_of_assigned (none : unassigned items = []) :
    setHost clusterName host answered items api = (true, api) := by
  induction items generalizing api with
  | nil => rfl
  | cons m items ih =>
    rw [unassigned, List.filter_cons] at none
    split at none
    · cases none
    · next set =>
      rw [setHost, if_pos (by simpa [Option.isSome_iff_ne_none] using set), ih none]

/-- A machine of the list that was written to since is in conflict. -/
theorem setHost_conflict (distinct : (api.map KKMachine.name).Nodup) (some : unassigned items ≠ [])
    (written : ∀ m ∈ unassigned items, ∃ m' ∈ api, m'.name = m.name ∧ m'.resourceVersion ≠ m.resourceVersion) :
    setHost clusterName host answered items api = (false, api) := by
  induction items with
  | nil => exact absurd rfl some
  | cons m items ih =>
    rw [setHost]
    by_cases set : m.providerID.isSome
    · rw [unassigned_cons_of_set set] at some written
      rw [if_pos set, ih some written]
    · rw [unassigned_cons_of_unset set] at written
      obtain ⟨m', stored, named, old⟩ := written m List.mem_cons_self
      rw [if_neg set, update, find_stored distinct stored named]
      simp [old]

/-- The first host goes to every machine that is reached, and no other host to any. -/
theorem setProviderID_cons (fresh : Fresh items api) (hosts : List String) :
    (setProviderID clusterName items answered (host :: hosts) api).2 =
      assign (host2ProviderID clusterName host) ((reached answered items).map KKMachine.name) api := by
  rw [setProviderID, setHost_eq fresh]
  cases all : (unassigned items).all fun m => answered m.name with
  | false => rfl
  | true =>
    by_cases none : unassigned items = []
    · have nobody : reached answered items = [] := by rw [reached, none]; rfl
      rw [nobody]
      simp only [List.map_nil, assign_nil]
      clear all fresh
      induction hosts with
      | nil => rfl
      | cons host hosts ih => rw [setProviderID, setHost_of_assigned none, ih]
    · cases hosts with
      | nil => rfl
      | cons host' hosts =>
        have every : reached answered items = unassigned items :=
          List.takeWhile_eq_self_iff.mpr (by simpa using all)
        show (setProviderID clusterName items answered (host' :: hosts) (assign _ _ api)).2 = _
        rw [setProviderID, setHost_conflict]
        · rw [names_assign]
          exact fresh.distinct
        · exact none
        · intro m inside
          have stored := fresh.stored m (List.mem_of_mem_filter inside)
          refine ⟨_, List.mem_map_of_mem stored, ?_⟩
          rw [every, if_pos (List.mem_map_of_mem inside)]
          exact ⟨rfl, Nat.succ_ne_self _⟩

end Loops

/-- No machine has the ID of the host. -/
def Free (clusterName : String) (api : List KKMachine) (host : String) : Prop :=
  ∀ m ∈ api, m.providerID ≠ some (host2ProviderID clusterName host)

/-- Distinct machines have distinct provider IDs. -/
def IDsDistinct (api : List KKMachine) : Prop :=
  ∀ m ∈ api, ∀ m' ∈ api, ∀ id, m.providerID = some id → m'.providerID = some id → m.name = m'.name

/-- What `setProviderID` is for. -/
structure Assigns (clusterName : String) (items : List KKMachine) (hosts : List String) (api api' : List KKMachine) :
    Prop where
  distinct : IDsDistinct api'
  given : ∀ h ∈ hosts, Free clusterName api h → ∃ m ∈ items, m.providerID = none ∧
    ∀ m' ∈ api', m'.providerID = some (host2ProviderID clusterName h) ↔ m'.name = m.name
  kept : ∀ m ∈ api, ∀ id, m.providerID = some id → ∃ m' ∈ api', m'.name = m.name ∧ m'.providerID = some id

/-- At most one machine is reached, the first host is free if one is, and it is the only free one. -/
def Fits (clusterName : String) (items : List KKMachine) (answered : String → Bool) (hosts : List String)
    (api : List KKMachine) : Prop :=
  ∀ host rest, hosts = host :: rest →
    (reached answered items).length ≤ 1 ∧ (reached answered items ≠ [] → Free clusterName api host) ∧
      ∀ h ∈ hosts, Free clusterName api h → h = host ∧ reached answered items ≠ []

section Assign
variable {clusterName host id : String} {answered : String → Bool} {items api : List KKMachine} {m : KKMachine}
  {names hosts : List String}

theorem mem_assign : m ∈ assign id names api ↔ ∃ old ∈ api, m.name = old.name ∧
    m = if old.name ∈ names then { old with providerID := some id, resourceVersion := old.resourceVersion + 1 }
      else old := by
  simp only [assign, List.mem_map]
  constructor
  · rintro ⟨old, stored, rfl⟩
    refine ⟨old, stored, ?_, rfl⟩
    split <;> rfl
  · rintro ⟨old, stored, -, rfl⟩
    exact ⟨old, stored, rfl⟩

theorem mem_reached (inside : m ∈ reached answered items) : m ∈ items ∧ m.providerID = none := by
  have unset := (List.takeWhile_sublist _).subset inside
  rw [unassigned, List.mem_filter, Option.isNone_iff_eq_none] at unset
  exact unset

/-- Of a fresh list only machines without an ID are reached. -/
theorem unset_of_reached (fresh : Fresh items api) (stored : m ∈ api)
    (named : m.name ∈ (reached answered items).map KKMachine.name) : m ∈ items ∧ m.providerID = none := by
  obtain ⟨m', inside, same⟩ := List.mem_map.mp named
  have unset := mem_reached inside
  rwa [eq_of_name fresh.distinct (fresh.stored m' unset.1) stored same] at unset

theorem assign_kept (fresh : Fresh items api) (stored : m ∈ api) {old : String} (set : m.providerID = some old) :
    m ∈ assign id ((reached answered items).map KKMachine.name) api := by
  refine mem_assign.mpr ⟨m, stored, rfl, (if_neg fun named => ?_).symm⟩
  have unset := (unset_of_reached fresh stored named).2
  rw [set] at unset
  cases unset

/-- A machine that is reached has the host afterwards. -/
theorem assign_reached (id : String) (fresh : Fresh items api) (inside : m ∈ reached answered items) :
    ∃ m' ∈ assign id ((reached answered items).map KKMachine.name) api, m'.name = m.name ∧ m'.providerID = some id := by
  have stored := fresh.stored m (mem_reached inside).1
  refine ⟨_, mem_assign.mpr ⟨m, stored, ?_, (if_pos (List.mem_map_of_mem inside)).symm⟩, rfl, rfl⟩
  rfl

/-- A machine with an ID afterwards had it before, or it is reached and it is the new one. -/
theorem set_of_assign (inside : m ∈ assign id names api) {new : String} (set : m.providerID = some new) :
    m ∈ api ∧ m.name ∉ names ∨ m.name ∈ names ∧ new = id := by
  obtain ⟨old, stored, same, made⟩ := mem_assign.mp inside
  rw [same]
  by_cases named : old.name ∈ names
  · rw [if_pos named] at made
    subst made
    cases set
    exact .inr ⟨named, rfl⟩
  · rw [if_neg named] at made
    subst made
    exact .inl ⟨stored, named⟩

/-- At most one machine is reached. -/
theorem same_of_reached (few : (reached answered items).length ≤ 1) {a b : String}
    (first : a ∈ (reached answered items).map KKMachine.name)
    (second : b ∈ (reached answered items).map KKMachine.name) : a = b := by
  match found : reached answered items, few with
  | [], _ => simp [found] at first
  | [m], _ =>
    rw [found, List.map_singleton, List.mem_singleton] at first second
    rw [first, second]

end Assign

section Injective
variable {clusterName host : String} {answered : String → Bool} {items api : List KKMachine} {hosts : List String}

/-- Two machines that are reached would share the host. -/
theorem few_of_distinct (fresh : Fresh items api) (id : String)
    (distinct : IDsDistinct (assign id ((reached answered items).map KKMachine.name) api)) :
    (reached answered items).length ≤ 1 := by
  match found : reached answered items with
  | [] => simp
  | [m] => simp
  | m :: m' :: rest =>
    exfalso
    obtain ⟨a, inside, named, set⟩ := assign_reached id fresh (show m ∈ reached answered items by simp [found])
    obtain ⟨b, inside', named', set'⟩ := assign_reached id fresh (show m' ∈ reached answered items by simp [found])
    have same := distinct a inside b inside' _ set set'
    have once : ((reached answered items).map KKMachine.name).Nodup :=
      fresh.once.sublist (((List.takeWhile_sublist _).trans List.filter_sublist).map _)
    rw [found, List.map_cons, List.nodup_cons] at once
    exact once.1 (by simp [← named, ← named', same])

/-- A machine that is reached would share the host with the one that has it. -/
theorem free_of_distinct (fresh : Fresh items api)
    (distinct : IDsDistinct (assign (host2ProviderID clusterName host)
      ((reached answered items).map KKMachine.name) api))
    (some : reached answered items ≠ []) : Free clusterName api host := by
  intro m stored set
  obtain ⟨a, inside⟩ := List.exists_mem_of_ne_nil _ some
  obtain ⟨b, assigned, named, got⟩ := assign_reached (host2ProviderID clusterName host) fresh inside
  have same := distinct m (assign_kept fresh stored set) b assigned _ set got
  have here : m.name ∈ (reached answered items).map KKMachine.name := by
    rw [same, named]
    exact List.mem_map_of_mem inside
  have unset := (unset_of_reached fresh stored here).2
  rw [set] at unset
  cases unset

/-- No other host is given to anyone. -/
theorem fits_of_assigns (fresh : Fresh items api)
    (assigns : Assigns clusterName items (host :: hosts) api
      (assign (host2ProviderID clusterName host) ((reached answered items).map KKMachine.name) api)) :
    IDsDistinct api ∧ Fits clusterName items answered (host :: hosts) api := by
  refine ⟨fun m stored m' stored' id set set' =>
    assigns.distinct m (assign_kept fresh stored set) m' (assign_kept fresh stored' set') id set set', ?_⟩
  rintro _ _ ⟨⟩
  refine ⟨few_of_distinct fresh _ assigns.distinct, free_of_distinct fresh assigns.distinct, fun h inside free => ?_⟩
  obtain ⟨m, member, -, given⟩ := assigns.given h inside free
  obtain ⟨m', assigned, named⟩ : ∃ m' ∈ assign (host2ProviderID clusterName host)
      ((reached answered items).map KKMachine.name) api, m'.name = m.name :=
    ⟨_, mem_assign.mpr ⟨m, fresh.stored m member, by split <;> rfl, rfl⟩, by split <;> rfl⟩
  have set := (given m' assigned).mpr named
  rcases set_of_assign assigned set with ⟨stored, -⟩ | ⟨reached, same⟩
  · exact absurd set (free m' stored)
  · refine ⟨host2ProviderID_injective clusterName same, fun none => ?_⟩
    rw [none] at reached
    cases reached

theorem assigns_of_fits (fresh : Fresh items api) (distinct : IDsDistinct api)
    (fits : Fits clusterName items answered (host :: hosts) api) :
    Assigns clusterName items (host :: hosts) api
      (assign (host2ProviderID clusterName host) ((reached answered items).map KKMachine.name) api) := by
  obtain ⟨few, free, only⟩ := fits host hosts rfl
  refine ⟨fun m inside m' inside' id set set' => ?_, fun h inside free' => ?_, fun m stored id set =>
    ⟨m, assign_kept fresh stored set, rfl, set⟩⟩
  · rcases set_of_assign inside set with ⟨stored, -⟩ | ⟨reached, new⟩ <;>
      rcases set_of_assign inside' set' with ⟨stored', -⟩ | ⟨reached', new'⟩
    · exact distinct m stored m' stored' id set set'
    · subst new'
      exact absurd set (free (fun none => by simp [none] at reached') m stored)
    · subst new
      exact absurd set' (free (fun none => by simp [none] at reached) m' stored')
    · exact same_of_reached few reached reached'
  · obtain ⟨rfl, some⟩ := only h inside free'
    obtain ⟨m, here⟩ := List.exists_mem_of_ne_nil _ some
    refine ⟨m, (mem_reached here).1, (mem_reached here).2, fun m' assigned => ?_⟩
    constructor
    · intro set
      rcases set_of_assign assigned set with ⟨stored, -⟩ | ⟨reached, -⟩
      · exact absurd set (free' m' stored)
      · exact same_of_reached few reached (List.mem_map_of_mem here)
    · intro named
      obtain ⟨old, stored, same, made⟩ := mem_assign.mp assigned
      rw [if_pos (by rw [← same, named]; exact List.mem_map_of_mem here)] at made
      rw [made]

end Injective

/-- `setProviderID` on a fresh list gives the hosts to the machines injectively just if the hosts fit. -/
theorem assigns_iff {clusterName : String} {items api : List KKMachine} (answered : String → Bool) (hosts : List String)
    (fresh : Fresh items api) :
    Assigns clusterName items hosts api (setProviderID clusterName items answered hosts api).2 ↔
      IDsDistinct api ∧ Fits clusterName items answered hosts api := by
  cases hosts with
  | nil =>
    constructor
    · intro assigns
      exact ⟨assigns.distinct, fun host rest split => by cases split⟩
    · rintro ⟨distinct, -⟩
      exact ⟨distinct, by simp, fun m stored id set => ⟨m, stored, rfl, set⟩⟩
  | cons host hosts =>
    rw [setProviderID_cons fresh]
    exact ⟨fits_of_assigns fresh, fun both => assigns_of_fits fresh both.1 both.2⟩

/-- The machines of one group are a fresh list. -/
theorem fresh_filter {api : List KKMachine} (distinct : (api.map KKMachine.name).Nodup) (listed : KKMachine → Bool) :
    Fresh (api.filter listed) api where
  stored _ inside := List.mem_of_mem_filter inside
  once := distinct.sublist (List.filter_sublist.map _)
  distinct := distinct

theorem listed_of_selected {names : GroupNames} {clusterName : String} {group : MachineGroup} {input : SyncInput}
    {inventory inventory' : InventorySpec} {api items : List KKMachine} {hosts : List String}
    (selected : syncGroup names clusterName group input inventory api = .selected items hosts inventory') :
    items = api.filter fun m => m.group = group := by
  unfold syncGroup at selected
  split at selected
  · cases selected
  · split at selected
    · cases selected
    · split at selected
      · cases selected
      · split at selected
        · cases selected
        · split at selected
          · cases selected
          · simp only at selected
            split at selected
            · cases selected
            · split at selected
              · cases selected
              · cases selected
                rfl

namespace Cluster

variable {names : GroupNames} {clusterName : String} {s s' : Cluster} {a : Act}

/-- The condition on a step: what a sync selects fits. -/
def Fitting (names : GroupNames) (clusterName : String) (s : Cluster) : Act → Prop
  | .sync input =>
    ∀ group inventory items hosts inventory', s.stage = .sync group inventory →
      syncGroup names clusterName group input inventory s.machines = .selected items hosts inventory' →
      Fits clusterName items input.answered hosts s.machines
  | _ => True

/-- A sync assigns what it selects, and no step takes an ID away from a machine that it does not delete. -/
structure Assigned (names : GroupNames) (clusterName : String) (s : Cluster) (a : Act) (s' : Cluster) : Prop where
  selected : ∀ input group inventory items hosts inventory', a = .sync input → s.stage = .sync group inventory →
    syncGroup names clusterName group input inventory s.machines = .selected items hosts inventory' →
    Assigns clusterName items hosts s.machines s'.machines
  kept : ∀ m ∈ s.machines, ∀ id, m.providerID = some id → a ≠ .machineDeleted m.name →
    ∃ m' ∈ s'.machines, m'.name = m.name ∧ m'.providerID = some id

/-- Machines have names and provider IDs of their own. -/
structure Distinct (s : Cluster) : Prop where
  names : (s.machines.map KKMachine.name).Nodup
  ids : IDsDistinct s.machines

theorem settle_machines (names : GroupNames) (s : Cluster) (group : MachineGroup) (ok : Bool)
    (inventory : InventorySpec) (machines : List KKMachine) :
    (s.settle names group ok inventory machines).machines = machines := by
  unfold settle
  split
  · rfl
  · split <;> rfl

/-- A sync leaves the machines alone, or it calls `setProviderID`. -/
theorem sync_cases (names : GroupNames) (clusterName : String) (s : Cluster) (group : MachineGroup)
    (inventory : InventorySpec) (input : SyncInput) :
    (s.syncStep names clusterName group inventory input).machines = s.machines ∧
        (∀ items hosts inventory', syncGroup names clusterName group input inventory s.machines ≠
          .selected items hosts inventory') ∨
      ∃ items hosts inventory', syncGroup names clusterName group input inventory s.machines =
          .selected items hosts inventory' ∧
        (s.syncStep names clusterName group inventory input).machines =
          (setProviderID clusterName items input.answered hosts s.machines).2 := by
  unfold syncStep
  cases syncGroup names clusterName group input inventory s.machines with
  | error => exact .inl ⟨settle_machines .., by simp⟩
  | waiting => exact .inl ⟨settle_machines .., by simp⟩
  | panic inventory => exact .inl ⟨settle_machines .., by simp⟩
  | selected items hosts inventory' => exact .inr ⟨items, hosts, inventory', rfl, settle_machines ..⟩

theorem names_setProviderID {items api : List KKMachine} (fresh : Fresh items api) (answered : String → Bool)
    (hosts : List String) : (setProviderID clusterName items answered hosts api).2.map KKMachine.name =
      api.map KKMachine.name := by
  cases hosts with
  | nil => rfl
  | cons host hosts => rw [setProviderID_cons fresh, names_assign]

/-- A sync whose hosts fit assigns them, and keeps the machines distinct. -/
theorem Distinct.sync (distinct : Distinct s) {group : MachineGroup} {inventory : InventorySpec} {input : SyncInput}
    (here : s.stage = .sync group inventory) (fits : Fitting names clusterName s (.sync input)) :
    Distinct (s.syncStep names clusterName group inventory input) ∧
      Assigned names clusterName s (.sync input) (s.syncStep names clusterName group inventory input) := by
  rcases sync_cases names clusterName s group inventory input with
    ⟨same, none⟩ | ⟨items, hosts, inventory', selected, set⟩
  · refine ⟨⟨by rw [same]; exact distinct.names, by rw [same]; exact distinct.ids⟩, ⟨?_, ?_⟩⟩
    · intro input' group' inventory₁ items hosts inventory' call here' selected
      cases call
      cases here.symm.trans here'
      exact absurd selected (none items hosts inventory')
    · intro m stored id some _
      rw [same]
      exact ⟨m, stored, rfl, some⟩
  · have fresh : Fresh items s.machines := by
      rw [listed_of_selected selected]
      exact fresh_filter distinct.names _
    have assigns := (assigns_iff input.answered hosts fresh).mpr
      ⟨distinct.ids, fits group inventory items hosts inventory' here selected⟩
    rw [← set] at assigns
    refine ⟨⟨?_, assigns.distinct⟩, ⟨?_, fun m stored id some _ => assigns.kept m stored id some⟩⟩
    · rw [set, names_setProviderID fresh]
      exact distinct.names
    · intro input' group' inventory₁ items' hosts' inventory₂ call here' selected'
      cases call
      cases here.symm.trans here'
      cases selected.symm.trans selected'
      exact assigns

/-- A new machine has a new name and no provider ID. -/
theorem Distinct.added (distinct : Distinct s) {new : KKMachine} (absent : new.name ∉ s.machines.map KKMachine.name)
    (unset : new.providerID = none) :
    ((s.machines ++ [new]).map KKMachine.name).Nodup ∧ IDsDistinct (s.machines ++ [new]) := by
  constructor
  · rw [List.map_append, List.map_singleton, List.nodup_append]
    refine ⟨distinct.names, List.nodup_singleton _, fun n old n' created same => absent ?_⟩
    rw [← List.mem_singleton.mp created, ← same]
    exact old
  · intro m inside m' inside' id set set'
    rcases List.mem_append.mp inside with stored | created
    · rcases List.mem_append.mp inside' with stored' | created
      · exact distinct.ids m stored m' stored' id set set'
      · rw [List.mem_singleton.mp created, unset] at set'
        cases set'
    · rw [List.mem_singleton.mp created, unset] at set
      cases set

/-- Machines that keep their names and provider IDs stay distinct. -/
theorem Distinct.updated (distinct : Distinct s) {f : KKMachine → KKMachine}
    (same : ∀ m, (f m).name = m.name ∧ (f m).providerID = m.providerID) :
    ((s.machines.map f).map KKMachine.name).Nodup ∧ IDsDistinct (s.machines.map f) := by
  constructor
  · rw [List.map_map, show KKMachine.name ∘ f = KKMachine.name from funext fun m => (same m).1]
    exact distinct.names
  · intro m inside m' inside' id set set'
    obtain ⟨old, stored, rfl⟩ := List.mem_map.mp inside
    obtain ⟨old', stored', rfl⟩ := List.mem_map.mp inside'
    rw [(same old).2] at set
    rw [(same old').2] at set'
    rw [(same old).1, (same old').1]
    exact distinct.ids old stored old' stored' id set set'

/-- What a step that selects fitting hosts does. -/
theorem Distinct.step (distinct : Distinct s) (fits : Fitting names clusterName s a)
    (taken : s.step names clusterName a = some s') : Distinct s' ∧ Assigned names clusterName s a s' := by
  have unchanged : ∀ {s' : Cluster}, s'.machines = s.machines → (∀ input, a ≠ .sync input) →
      Distinct s' ∧ Assigned names clusterName s a s' := by
    intro s' same other
    refine ⟨⟨by rw [same]; exact distinct.names, by rw [same]; exact distinct.ids⟩,
      ⟨fun input _ _ _ _ _ call => absurd call (other input), fun m stored id some _ => ?_⟩⟩
    rw [same]
    exact ⟨m, stored, rfl, some⟩
  cases a with
  | reconcile =>
    simp only [Cluster.step] at taken
    split at taken
    · cases taken
      exact unchanged rfl (by simp)
    · cases taken
  | sync input =>
    simp only [Cluster.step] at taken
    split at taken
    · next group inventory here =>
      cases taken
      exact distinct.sync here fits
    · cases taken
  | patch answered =>
    simp only [Cluster.step] at taken
    split at taken
    · cases taken
      exact unchanged rfl (by simp)
    · cases taken
  | machineCreated name group =>
    simp only [Cluster.step] at taken
    split at taken
    · cases taken
    · next new =>
      cases taken
      obtain ⟨names, ids⟩ := @Distinct.added s distinct ⟨name, group, none, 0⟩ new rfl
      exact ⟨⟨names, ids⟩, ⟨by simp, fun m stored id some _ => ⟨m, List.mem_append_left _ stored, rfl, some⟩⟩⟩
  | machineDeleted name =>
    cases taken
    refine ⟨⟨distinct.names.sublist (List.filter_sublist.map _), fun m inside m' inside' =>
      distinct.ids m (List.mem_of_mem_filter inside) m' (List.mem_of_mem_filter inside')⟩, ⟨by simp, ?_⟩⟩
    intro m stored id some other
    exact ⟨m, List.mem_filter.mpr ⟨stored, by simpa using fun same => other (by rw [same])⟩, rfl, some⟩
  | machineUpdated name =>
    cases taken
    have same : ∀ m : KKMachine,
        (if m.name = name then { m with resourceVersion := m.resourceVersion + 1 } else m).name = m.name ∧
          (if m.name = name then { m with resourceVersion := m.resourceVersion + 1 } else m).providerID =
            m.providerID := by
      intro m
      split <;> exact ⟨rfl, rfl⟩
    obtain ⟨names, ids⟩ := distinct.updated same
    exact ⟨⟨names, ids⟩, ⟨by simp, fun m stored id some _ =>
      ⟨_, List.mem_map_of_mem stored, (same m).1, (same m).2.trans some⟩⟩⟩
  | inventoryEdited inventory =>
    cases taken
    exact unchanged rfl (by simp)

end Cluster

/-- Hosts and provider IDs translate into each other. A call of `setProviderID` assigns the selected hosts injectively
just if they fit, and so does every reconcile of a run in which what is selected fits. -/
theorem hosts_assigned_injectively (names : GroupNames) (clusterName : String) :
    (∀ host, providerID2Host clusterName (some (host2ProviderID clusterName host)) = host) ∧
      (∀ items api answered hosts, Fresh items api →
        (Assigns clusterName items hosts api (setProviderID clusterName items answered hosts api).2 ↔
          IDsDistinct api ∧ Fits clusterName items answered hosts api)) ∧
      ∀ (s t : Cluster) (acts : List Act), s.Distinct →
        Along (Cluster.step names clusterName) (Cluster.Fitting names clusterName) s acts →
        run (Cluster.step names clusterName) s acts = some t →
        t.Distinct ∧ Along (Cluster.step names clusterName) (fun s a => ∀ s', s.step names clusterName a = some s' →
          Cluster.Assigned names clusterName s a s') s acts := by
  refine ⟨providerID2Host_host2ProviderID clusterName, fun items api answered hosts fresh =>
    assigns_iff answered hosts fresh, fun s t acts distinct fitting ran => ?_⟩
  have keeps : ∀ s a s', Cluster.Distinct s → Cluster.Fitting names clusterName s a →
      s.step names clusterName a = some s' → s'.Distinct :=
    fun s a s' distinct fits taken => (distinct.step fits taken).1
  exact ⟨Along.invariant keeps distinct fitting ran, Along.strengthen keeps
    (fun s a distinct fits s' taken => (distinct.step fits taken).2) distinct fitting⟩

/-- A control plane of one machine, and one host. -/
def oneMachine : Cluster :=
  ⟨[⟨"m1", .controlPlane, none, 0⟩], ⟨GoMap.empty.put "node1" .empty, .empty, .empty⟩, .idle⟩

def groupNames : GroupNames := ⟨"kube_control_plane", "kube_worker"⟩

/-- All requests for a group of the given size are answered. -/
def answeredSync (size : Nat) : SyncInput := ⟨some size, some size, true, ⟨id, []⟩, fun _ => true⟩

/-- The machine gets the host in the first reconcile. -/
theorem oneMachine_assigned : ∃ t, run (Cluster.step groupNames "c") oneMachine
      [.reconcile, .sync (answeredSync 1), .sync (answeredSync 0), .patch true] = some t ∧
    t.machines = [⟨"m1", .controlPlane, some "kk://c/node1", 1⟩] ∧ t.Distinct := by
  refine ⟨_, rfl, by decide, ((hosts_assigned_injectively groupNames "c").2.2 oneMachine _
    [.reconcile, .sync (answeredSync 1), .sync (answeredSync 0), .patch true] ⟨by decide, ?_⟩ ?_ rfl).1⟩
  · intro m inside m' inside' id set
    rw [List.mem_singleton.mp inside] at set
    cases set
  · refine ⟨trivial, fun _ taken => ?_⟩
    cases taken
    refine ⟨fun group inventory items hosts inventory' here selected => ?_, fun _ taken => ?_⟩
    · cases here
      cases selected
      intro host rest split
      cases split
      refine ⟨by decide, fun _ m stored => ?_, fun h inside _ =>
        ⟨List.mem_singleton.mp (show h ∈ ["node1"] from inside), by decide⟩⟩
      rw [List.mem_singleton.mp stored]
      simp
    · cases taken
      refine ⟨fun group inventory items hosts inventory' here selected => ?_, fun _ taken => ?_⟩
      · cases here
        cases selected
        intro host rest split
        cases split
      · cases taken
        exact ⟨trivial, fun _ _ => trivial⟩

/-- Two machines without a provider ID. -/
def twoMachines : List KKMachine := [⟨"m1", .worker, none, 0⟩, ⟨"m2", .worker, none, 0⟩]

/-- Both get the first of two hosts. -/
theorem twoMachines_share : ¬ Assigns "c" twoMachines ["node1", "node2"] twoMachines
    (setProviderID "c" twoMachines (fun _ => true) ["node1", "node2"] twoMachines).2 := by
  intro assigns
  have same := assigns.distinct ⟨"m1", .worker, some "kk://c/node1", 1⟩ (by decide)
    ⟨"m2", .worker, some "kk://c/node1", 1⟩ (by decide) "kk://c/node1" rfl rfl
  revert same
  decide

end KubeKey.Infrastructure
