import KubeKey.Core.Hosts

/-!
# Deletions, one after the other

A cluster whose hosts are appended and whose role map is then generated has every host in the
list of all hosts once and in the list of a role as often as the host has the role
(`generated`). A deletion takes the host out of all these lists and leaves the others where they
are, in their order. It goes wrong for a host that is not in the list of all hosts: the compacting
loop keeps every host, and the nil that is written behind them is out of range.
-/

namespace KubeKey.Core

open KubeKey.Go

/-- The host has another name than those that are deleted. -/
def Host.stays (deleted : List Host) (h : Host) : Bool := h.name ∉ deleted.map Host.name

theorem Host.stays_iff {deleted : List Host} {h : Host} : h.stays deleted = true ↔ ∀ d ∈ deleted, h.name ≠ d.name := by
  rw [Host.stays, decide_eq_true_iff, List.mem_map, not_exists]
  exact forall_congr' fun d => ⟨fun apart inside same => apart ⟨inside, same.symm⟩,
    fun apart found => apart found.1 found.2.symm⟩

theorem Host.filter_stays_nil (hosts : List Host) : hosts.filter (Host.stays []) = hosts :=
  List.filter_eq_self.mpr fun _ _ => Host.stays_iff.mpr fun _ inside => absurd inside List.not_mem_nil

theorem Host.filter_stays (d : Host) (deleted hosts : List Host) :
    (hosts.filter (Host.other d.name)).filter (Host.stays deleted) = hosts.filter (Host.stays (d :: deleted)) := by
  rw [List.filter_filter]
  refine List.filter_congr fun h _ => ?_
  rw [Bool.eq_iff_iff, Bool.and_eq_true, Host.stays_iff, Host.stays_iff, List.forall_mem_cons, and_comm]
  simp [Host.other]

namespace BaseRuntime

variable {b b' : BaseRuntime} {host : Host}

/-- The runtime of a cluster with these hosts. -/
def generate (ignoreErr : Bool) (hosts : List Host) : Option BaseRuntime :=
  (hosts.foldl appendHost (new ignoreErr)).generateRoleMap

/-- `DeleteHost` for one host after the other. -/
def deleteHosts (b : BaseRuntime) (hosts : List Host) : Option BaseRuntime := hosts.foldlM deleteHost b

/-- What the result of `GetHostsByRole` holds now. -/
def hostsByRole (b : BaseRuntime) (role : String) : List (Option Host) := (b.getHostsByRole role).elim [] b.hosts

/-- The hosts of a role. -/
def roleList (b : BaseRuntime) (role : String) : List Host := (b.roleHosts.get? role).elim [] b.list

theorem WellFormed.hostsByRole (wf : b.WellFormed) (role : String) :
    b.hostsByRole role = (b.roleList role).map some := by
  unfold BaseRuntime.hostsByRole getHostsByRole roleList
  cases found : b.roleHosts.get? role with
  | none => rfl
  | some s => exact (wf.roles role s found).1.1

/-! ## The cluster -/

/-- A host is appended to the list of one role. -/
theorem Numbered.roleList_appendRole (num : b.Numbered) (role r : String) :
    (b.appendRole host role).roleList r = b.roleList r ++ if r = role then [host] else [] := by
  unfold BaseRuntime.appendRole
  split
  · next s found =>
    obtain ⟨full, -⟩ := num.roles role s found
    have array : (b.setArray s.array (b.hosts s ++ [some host])).arrays s.array = (b.list s ++ [host]).map some := by
      simp [setArray, full.1]
    unfold roleList
    dsimp only
    rw [GoMap.get?_put]
    split
    · next same =>
      subst same
      rw [found, Option.elim_some, Option.elim_some]
      refine (full_of_array (s := { s with len := s.len + 1 }) [] (array.trans (List.append_nil _).symm) ?_).2
      rw [List.length_append, full.2]
      rfl
    · next other =>
      rw [List.append_nil]
      cases found' : b.roleHosts.get? r with
      | none => rfl
      | some s' =>
        have away : s'.array ≠ s.array := fun same => other (num.apart r role s' s found' found same)
        exact (hosts_of_arrays_ne (a := s.array) (fun c apart => by simp [setArray, apart]) away).2
  · next absent =>
    unfold roleList
    dsimp only
    rw [GoMap.get?_put]
    split
    · next same =>
      subst same
      rw [absent, Option.elim_some, Option.elim_none, List.nil_append]
      have array : (b.setArray (b.roleHosts.entries.length + 1) [some host]).arrays (b.roleHosts.entries.length + 1) =
          [host].map some ++ [] := by
        simp [setArray]
      exact (full_of_array (s := ⟨b.roleHosts.entries.length + 1, 1⟩) [] array rfl).2
    · next other =>
      rw [List.append_nil]
      cases found' : b.roleHosts.get? r with
      | none => rfl
      | some s' =>
        have away : s'.array ≠ b.roleHosts.entries.length + 1 := by
          have below := num.bounded r s' found'
          omega
        exact (hosts_of_arrays_ne (a := b.roleHosts.entries.length + 1)
          (fun c apart => by simp [setArray, apart]) away).2

/-- What `AppendRoleMap` does to the lists. -/
structure RolesAppended (b b' : BaseRuntime) (lists : String → List Host) : Prop where
  numbered : b'.Numbered
  allHosts : b'.allHosts = b.allHosts
  all : b'.list b.allHosts = b.list b.allHosts
  roles : ∀ r, b'.roleList r = b.roleList r ++ lists r

theorem RolesAppended.trans {b'' : BaseRuntime} {lists lists' : String → List Host} (first : RolesAppended b b' lists)
    (second : RolesAppended b' b'' lists') : RolesAppended b b'' fun r => lists r ++ lists' r where
  numbered := second.numbered
  allHosts := second.allHosts.trans first.allHosts
  all := by
    have all := second.all
    rw [first.allHosts] at all
    exact all.trans first.all
  roles r := by rw [second.roles, first.roles, List.append_assoc]

theorem Numbered.list_appendRole (num : b.Numbered) (role : String) :
    (b.appendRole host role).list b.allHosts = b.list b.allHosts := by
  unfold BaseRuntime.appendRole
  split
  · next s found =>
    have away := (num.roles role s found).2.symm
    exact (hosts_of_arrays_ne (a := s.array) (fun c apart => by simp [setArray, apart]) away).2
  · refine (hosts_of_arrays_ne (a := b.roleHosts.entries.length + 1) (fun c apart => by simp [setArray, apart]) ?_).2
    rw [num.zero]
    exact (Nat.succ_ne_zero _).symm

theorem Numbered.rolesAppended (num : b.Numbered) (inside : host.name ∈ b.names b.allHosts) (roles : List String) :
    RolesAppended b (roles.foldl (BaseRuntime.appendRole host) b) fun r => List.replicate (roles.count r) host := by
  induction roles generalizing b with
  | nil => exact ⟨num, rfl, rfl, fun r => (List.append_nil _).symm⟩
  | cons role roles ih =>
    obtain ⟨num', allHosts, names⟩ := num.appendRole inside role
    have first : RolesAppended b (b.appendRole host role) fun r => if r = role then [host] else [] :=
      ⟨num', allHosts, num.list_appendRole role, num.roleList_appendRole role⟩
    have both := first.trans (ih num' (by rw [allHosts, names]; exact inside))
    refine ⟨both.numbered, both.allHosts, both.all, fun r => ?_⟩
    rw [List.foldl_cons, both.roles r]
    by_cases same : r = role
    · subst same
      rw [if_pos rfl, List.count_cons_self, List.replicate_succ, List.singleton_append]
    · rw [if_neg same, List.nil_append, List.count_cons_of_ne (Ne.symm same)]

theorem Numbered.foldlM_appendRoleMap (num : b.Numbered) {hosts : List Host}
    (inside : ∀ h ∈ hosts, h.name ∈ b.names b.allHosts) :
    ∃ b', (hosts.map some).foldlM (fun b host => host.map b.appendRoleMap) b = some b' ∧
      RolesAppended b b' fun r => hosts.flatMap fun h => List.replicate (h.roles.count r) h := by
  induction hosts generalizing b with
  | nil => exact ⟨b, rfl, num, rfl, rfl, fun r => (List.append_nil _).symm⟩
  | cons h hosts ih =>
    have first : RolesAppended b (b.appendRoleMap h) _ := num.rolesAppended (inside h List.mem_cons_self) h.roles
    have inside' : ∀ h' ∈ hosts, h'.name ∈ (b.appendRoleMap h).names (b.appendRoleMap h).allHosts := by
      intro h' there
      rw [names, first.allHosts, first.all]
      exact inside h' (List.mem_cons_of_mem _ there)
    obtain ⟨b', ran, rest⟩ := ih first.numbered inside'
    exact ⟨b', ran, first.trans rest⟩

/-- The cluster so far: these are the hosts, and no role and no deletion is known. -/
structure Appended (b : BaseRuntime) (hosts : List Host) : Prop where
  numbered : b.Numbered
  all : b.list b.allHosts = hosts
  roleHosts : b.roleHosts = .empty
  deprecatedHosts : b.deprecatedHosts = []

theorem Appended.append {done : List Host} (appended : b.Appended done) {hosts : List Host}
    (distinct : ((done ++ hosts).map Host.name).Nodup) : (hosts.foldl appendHost b).Appended (done ++ hosts) := by
  induction hosts generalizing b done with
  | nil => simpa using appended
  | cons h hosts ih =>
    have other : h.name ∉ b.names b.allHosts := by
      rw [names, appended.all]
      rw [List.map_append, List.map_cons, List.nodup_append] at distinct
      exact fun there => distinct.2.2 _ there _ List.mem_cons_self rfl
    have alive : b.hostIsDeprecated h = false := by
      rw [hostIsDeprecated, appended.deprecatedHosts]
      rfl
    have next : (b.appendHost h).Appended (done ++ [h]) :=
      ⟨appended.numbered.appendHost other alive, by rw [(list_appendHost appended.numbered h).2, appended.all],
        appended.roleHosts, appended.deprecatedHosts⟩
    rw [List.append_cons] at distinct ⊢
    exact ih next distinct

theorem new_appended (ignoreErr : Bool) : (new ignoreErr).Appended [] :=
  ⟨(Built.new ignoreErr).numbered, rfl, rfl, rfl⟩

/-- The lists of a cluster. -/
structure Lists (b : BaseRuntime) (hosts : List Host) (lists : String → List Host) : Prop where
  numbered : b.Numbered
  all : b.list b.allHosts = hosts
  roles : ∀ role, b.roleList role = lists role

/-- Every host is in the list of a role as often as it has the role. -/
theorem generated (ignoreErr : Bool) {hosts : List Host} (distinct : (hosts.map Host.name).Nodup) :
    ∃ b, generate ignoreErr hosts = some b ∧
      b.Lists hosts fun role => hosts.flatMap fun h => List.replicate (h.roles.count role) h := by
  have appended : (hosts.foldl appendHost (new ignoreErr)).Appended hosts := (new_appended ignoreErr).append distinct
  have inside : ∀ h ∈ hosts, h.name ∈ (hosts.foldl appendHost (new ignoreErr)).names
      (hosts.foldl appendHost (new ignoreErr)).allHosts := by
    intro h there
    rw [names, appended.all]
    exact List.mem_map_of_mem there
  obtain ⟨b, ran, done⟩ := appended.numbered.foldlM_appendRoleMap inside
  refine ⟨b, ?_, done.numbered, by rw [done.allHosts, done.all, appended.all], fun role => ?_⟩
  · rw [generate, generateRoleMap, appended.numbered.all.1, appended.all]
    exact ran
  · rw [done.roles, roleList, appended.roleHosts]
    rfl

theorem Lists.getAllHosts {hosts : List Host} {lists : String → List Host} (of : b.Lists hosts lists) :
    b.getAllHosts = hosts.map some := by rw [of.numbered.getAllHosts, of.all]

theorem Lists.hostsByRole {hosts : List Host} {lists : String → List Host} (of : b.Lists hosts lists) (role : String) :
    b.hostsByRole role = (lists role).map some := by rw [of.numbered.toWellFormed.hostsByRole, of.roles]

/-! ## Deletions -/

section Deletion
variable {hosts : List Host} {lists : String → List Host}

/-- One deletion. -/
theorem Lists.deleteHost (of : b.Lists hosts lists) (inside : host.name ∈ hosts.map Host.name) :
    ∃ b', b.deleteHost host = some b' ∧
      b'.Lists (hosts.filter (Host.other host.name)) fun role => (lists role).filter (Host.other host.name) := by
  have inside' : host.name ∈ b.names b.allHosts := by rwa [names, of.all]
  obtain ⟨b', ran, deleted⟩ := deleteHost_spec of.numbered.toWellFormed inside'
  refine ⟨b', ran, of.numbered.deleted deleted, by rw [deleted.all.2, kept, of.all], fun role => ?_⟩
  rw [← of.roles role, roleList, roleList]
  cases found : b.roleHosts.get? role with
  | none => rw [deleted.noRole role found, Option.elim_none, Option.elim_none, List.filter_nil]
  | some s =>
    obtain ⟨s', found', -, -, list⟩ := deleted.role_list found
    rw [found', Option.elim_some, Option.elim_some, list, kept]

theorem Lists.deleteHost_absent (of : b.Lists hosts lists) (absent : host.name ∉ hosts.map Host.name) :
    b.deleteHost host = none := by
  rw [deleteHost_eq of.numbered.all, if_neg]
  rwa [names, of.all]

/-- Deletions of different hosts that are there. -/
theorem Lists.deleteHosts (of : b.Lists hosts lists) {deleted : List Host} (once : (deleted.map Host.name).Nodup)
    (inside : ∀ d ∈ deleted, d.name ∈ hosts.map Host.name) :
    ∃ b', b.deleteHosts deleted = some b' ∧
      b'.Lists (hosts.filter (Host.stays deleted)) fun role => (lists role).filter (Host.stays deleted) := by
  induction deleted generalizing b hosts lists with
  | nil =>
    exact ⟨b, rfl, of.numbered, by rw [of.all, Host.filter_stays_nil],
      fun role => by rw [of.roles, Host.filter_stays_nil]⟩
  | cons d deleted ih =>
    obtain ⟨fresh, once⟩ := List.nodup_cons.mp once
    obtain ⟨b', ran, of'⟩ := of.deleteHost (inside d List.mem_cons_self)
    have inside' : ∀ d' ∈ deleted, d'.name ∈ (hosts.filter (Host.other d.name)).map Host.name := by
      intro d' there
      obtain ⟨h, known, same⟩ := List.mem_map.mp (inside d' (List.mem_cons_of_mem _ there))
      have other : h.name ≠ d.name := fun name => fresh (name ▸ same ▸ List.mem_map_of_mem there)
      exact List.mem_map.mpr ⟨h, List.mem_filter.mpr ⟨known, by simpa [Host.other] using other⟩, same⟩
    obtain ⟨b'', ran', of''⟩ := ih of' once inside'
    refine ⟨b'', ?_, ?_⟩
    · rw [BaseRuntime.deleteHosts, List.foldlM_cons, ran]
      exact ran'
    · simp only [Host.filter_stays] at of''
      exact of''

/-- Deletions that do not panic are of different hosts that are there. -/
theorem Lists.deleted_once (of : b.Lists hosts lists) {deleted : List Host} (ran : b.deleteHosts deleted = some b') :
    (deleted.map Host.name).Nodup ∧ ∀ d ∈ deleted, d.name ∈ hosts.map Host.name := by
  induction deleted generalizing b hosts lists with
  | nil => exact ⟨List.nodup_nil, fun d inside => absurd inside List.not_mem_nil⟩
  | cons d deleted ih =>
    by_cases inside : d.name ∈ hosts.map Host.name
    · obtain ⟨b₁, first, of'⟩ := of.deleteHost inside
      rw [BaseRuntime.deleteHosts, List.foldlM_cons, first] at ran
      obtain ⟨once, there⟩ := ih of' ran
      have left : ∀ d' ∈ deleted, d'.name ∈ hosts.map Host.name ∧ d'.name ≠ d.name := by
        intro d' member
        obtain ⟨h, known, same⟩ := List.mem_map.mp (there d' member)
        obtain ⟨known, other⟩ := List.mem_filter.mp known
        rw [← same]
        exact ⟨List.mem_map_of_mem known, by simpa [Host.other] using other⟩
      refine ⟨List.nodup_cons.mpr ⟨?_, once⟩, ?_⟩
      · intro again
        obtain ⟨d', member, same⟩ := List.mem_map.mp again
        exact (left d' member).2 same
      · intro d' member
        rcases List.mem_cons.mp member with rfl | member
        · exact inside
        · exact (left d' member).1
    · rw [BaseRuntime.deleteHosts, List.foldlM_cons, of.deleteHost_absent inside] at ran
      cases ran

end Deletion

/-- The hosts that stay among those that were read from a list. -/
def staying (deleted : List Host) (hosts : List (Option Host)) : List (Option Host) :=
  hosts.filter fun h => h.any (Host.stays deleted)

theorem staying_some (deleted hosts : List Host) :
    staying deleted (hosts.map some) = (hosts.filter (Host.stays deleted)).map some := by
  rw [staying, List.filter_map]
  rfl

/-- After the deletions of a cluster, every list holds the hosts that were not deleted, as before. -/
def Consistent (ignoreErr : Bool) (hosts deleted : List Host) : Prop :=
  ∃ b b', generate ignoreErr hosts = some b ∧ b.deleteHosts deleted = some b' ∧
    b'.getAllHosts = staying deleted b.getAllHosts ∧
      ∀ role, b'.hostsByRole role = staying deleted (b.hostsByRole role)

/-- The lists are consistent exactly as long as every deletion is of a host of the cluster that was not deleted
before. -/
theorem consistent_iff (ignoreErr : Bool) {hosts : List Host} (distinct : (hosts.map Host.name).Nodup)
    (deleted : List Host) : Consistent ignoreErr hosts deleted ↔
      (deleted.map Host.name).Nodup ∧ ∀ d ∈ deleted, d.name ∈ hosts.map Host.name := by
  obtain ⟨b, built, of⟩ := generated ignoreErr distinct
  constructor
  · rintro ⟨b₀, b', built', ran, -⟩
    rw [built, Option.some.injEq] at built'
    subst built'
    exact of.deleted_once ran
  · rintro ⟨once, inside⟩
    obtain ⟨b', ran, of'⟩ := of.deleteHosts once inside
    refine ⟨b, b', built, ran, ?_, fun role => ?_⟩
    · rw [of.getAllHosts, of'.getAllHosts, staying_some]
    · rw [of.hostsByRole, of'.hostsByRole, staying_some]

theorem consistent_one :
    Consistent true [⟨"node1", "10.0.0.1", ["etcd", "k8s"]⟩, ⟨"node2", "10.0.0.2", ["k8s"]⟩]
      [⟨"node1", "10.0.0.1", []⟩] :=
  (consistent_iff true (by decide) _).2 (by decide)

/-- The second deletion of a host panics, also when hosts are left. -/
theorem deleteHosts_twice :
    ¬ Consistent true [⟨"node1", "10.0.0.1", ["k8s"]⟩, ⟨"node2", "10.0.0.2", ["k8s"]⟩]
      [⟨"node1", "10.0.0.1", ["k8s"]⟩, ⟨"node1", "10.0.0.1", ["k8s"]⟩] := by
  rintro ⟨b, b', built, ran, -⟩
  have same : (generate true [⟨"node1", "10.0.0.1", ["k8s"]⟩, ⟨"node2", "10.0.0.2", ["k8s"]⟩]).bind
      (·.deleteHosts [⟨"node1", "10.0.0.1", ["k8s"]⟩, ⟨"node1", "10.0.0.1", ["k8s"]⟩]) = some b' := by
    rw [built]
    exact ran
  cases same

end BaseRuntime

end KubeKey.Core
