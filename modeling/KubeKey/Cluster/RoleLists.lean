import KubeKey.Cluster.Ranges
import Mathlib.Data.List.Perm.Basic

/-!
# The lists are exact

The program ends with an error when an entry names no declared hosts or a group that must not be
empty is, and otherwise the list of a role has each of its hosts once (`exactly_iff`), unless an
entry is read as something else than what it names. A host that is named twice is twice in the list.

Only the refusal of an entry stops the loop over a role, and any role can come first. So what every
order of the roles does is decided by each role alone.
-/

namespace KubeKey.Cluster

open KubeKey.Go KubeKey.Core

/-! ## What is expected -/

namespace ClusterSpec

/-- The names of the declared hosts. -/
def declared (cfg : ClusterSpec) : List String := cfg.hosts.map (·.name)

/-- The entries of a role. -/
def entries (cfg : ClusterSpec) (role : String) : List String := (cfg.roleGroups.get? role).getD []

/-- What a role's entries stand for, one after the other. -/
def under (cfg : ClusterSpec) (hosts : String → List String) (role : String) : List String :=
  (cfg.entries role).flatMap hosts

/-- The control-plane hosts are masters too. -/
def withControlPlane (lists : String → List String) (role : String) : List String :=
  lists role ++ if role = Role.master then lists Role.controlPlane else []

/-- The hosts of a role, as often as they are named. -/
def hostsOf (cfg : ClusterSpec) (role : String) : List String :=
  withControlPlane (cfg.under fun e => (named cfg.declared e).getD []) role

/-- No master, or no host for an etcd that `kk` installs. -/
def Lacking (cfg : ClusterSpec) (lists : String → List String) : Prop :=
  lists Role.master = [] ∧ lists Role.controlPlane = [] ∨ lists Role.etcd = [] ∧ cfg.etcd.type = kubeKey

/-- An entry is neither a declared host nor a range of declared hosts. -/
def Unknown (cfg : ClusterSpec) : Prop := ∃ role, ∃ e ∈ cfg.entries role, named cfg.declared e = none

/-- The configuration is wrong. -/
def Wrong (cfg : ClusterSpec) : Prop :=
  cfg.Unknown ∨ cfg.Lacking (cfg.under fun e => (named cfg.declared e).getD [])

end ClusterSpec

/-- A host with the roles that it was given. -/
def Groups.host (g : Groups) (cfg : HostCfg) : Core.Host := ⟨cfg.name, cfg.address, g.roles cfg.name⟩

/-- The lists of the runtime, built from the hosts' roles, are those of the groups in some order. -/
def Groups.Agrees (g : Groups) : Prop :=
  ∀ (ignoreErr : Bool) (hosts : List HostCfg), (hosts.map (·.name)).Nodup →
    (∀ role, ∀ h ∈ g.list role, h ∈ hosts.map (·.name)) →
      ∃ b, BaseRuntime.generate ignoreErr (hosts.map g.host) = some b ∧
        ∀ role, ((b.hostsByRole role).map (·.map Host.name)).Perm ((g.list role).map some)

namespace ClusterSpec

/-- In every order of the role groups: no panic, an error exactly for a wrong configuration, and else the list of each
role has each of its hosts once, in agreement with the runtime. -/
structure GroupsExactly (cfg : ClusterSpec) (order : List (String × List String)) : Prop where
  runs : cfg.groupHosts order ≠ .error .panic
  fatal : (∃ text, cfg.groupHosts order = .error (.fatal text)) ↔ cfg.Wrong
  once : ∀ g, cfg.groupHosts order = .ok g → ∀ role, (g.list role).Nodup
  hosts : ∀ g, cfg.groupHosts order = .ok g → ∀ role host, host ∈ g.list role ↔ host ∈ cfg.hostsOf role
  agrees : ∀ g, cfg.groupHosts order = .ok g → g.Agrees

/-- What the lists are exact for. -/
structure Clear (cfg : ClusterSpec) : Prop where
  timeouts : ∀ host ∈ cfg.hosts, host.timeout.isSome = true
  refused : cfg.Wrong →
    (∀ role front e back, cfg.entries role = front ++ e :: back → Garbled e →
      ∃ e' ∈ front, Rejected cfg.declared e') ∧
      (cfg.Lacking (cfg.under reads) ∨ ∃ role, ∃ e ∈ cfg.entries role, Rejected cfg.declared e)
  accepted : ¬ cfg.Wrong →
    (∀ role, ∀ e ∈ cfg.entries role, Plain cfg.declared e) ∧ ∀ role, (cfg.hostsOf role).Nodup

end ClusterSpec

section Reading
variable {hostMap : GoMap HostCfg} {declared : List String}

/-! ## The lists of the groups -/

namespace Groups

variable (g : Groups) (role : String)

theorem list_roleGroupAppend (host r : String) :
    (g.roleGroupAppend role host).list r = g.list r ++ if r = role then [host] else [] := by
  unfold roleGroupAppend
  rw [list, GoMap.get?_put]
  split
  · next same => rw [same, Option.getD_some]
  · rw [List.append_nil, list]

/-- The lists after several appends to one of them. -/
theorem list_appends (hosts : List String) (r : String) :
    (hosts.foldl (roleGroupAppend role) g).list r = g.list r ++ if r = role then hosts else [] := by
  induction hosts generalizing g with
  | nil => rw [ite_self, List.append_nil, List.foldl_nil]
  | cons h hosts ih =>
    rw [List.foldl_cons, ih, list_roleGroupAppend, List.append_assoc]
    split
    · rw [List.singleton_append]
    · rw [List.append_nil]

/-- A host has a role as often as it is in the list of the role. -/
def Counted (g : Groups) : Prop := ∀ role host, (g.roles host).count role = (g.list role).count host

variable {g}

theorem Counted.roleGroupAppend (counted : g.Counted) (host : String) : (g.roleGroupAppend role host).Counted := by
  intro r h
  rw [list_roleGroupAppend, List.count_append, ← counted r h]
  unfold Groups.roleGroupAppend
  dsimp only
  by_cases here : h = host
  · rw [if_pos here, List.count_append]
    by_cases same : r = role
    · rw [if_pos same, here, same, List.count_cons_self, List.count_cons_self]
      rfl
    · rw [if_neg same, List.count_cons_of_ne (Ne.symm same)]
      rfl
  · rw [if_neg here]
    by_cases same : r = role
    · rw [if_pos same, List.count_cons_of_ne (Ne.symm here)]
      rfl
    · rw [if_neg same]
      rfl

theorem Counted.appends (counted : g.Counted) (hosts : List String) :
    (hosts.foldl (Groups.roleGroupAppend role) g).Counted := by
  induction hosts generalizing g with
  | nil => exact counted
  | cons h hosts ih => exact ih (counted.roleGroupAppend role h)

theorem count_flatMap_replicate {names : List String} (distinct : names.Nodup) (times : String → Nat) (name : String) :
    (names.flatMap fun n => List.replicate (times n) n).count name = if name ∈ names then times name else 0 := by
  induction names with
  | nil => rfl
  | cons n names ih =>
    obtain ⟨fresh, distinct⟩ := List.nodup_cons.mp distinct
    rw [List.flatMap_cons, List.count_append, ih distinct, List.count_replicate]
    by_cases here : n = name
    · subst here
      rw [if_neg fresh, if_pos List.mem_cons_self, beq_self_eq_true, if_pos rfl, Nat.add_zero]
    · have apart : (n == name) = false := beq_false_of_ne here
      have member : (name ∈ n :: names) = (name ∈ names) := by
        rw [List.mem_cons, eq_iff_iff]
        exact or_iff_right (Ne.symm here)
      simp only [apart, member, Bool.false_eq_true, if_false, Nat.zero_add]

/-- The lists that the runtime builds from the roles. -/
theorem Counted.agrees (counted : g.Counted) : g.Agrees := by
  intro ignoreErr hosts distinct covers
  have names : (hosts.map g.host).map Host.name = hosts.map (·.name) := by
    rw [List.map_map]
    rfl
  obtain ⟨b, built, lists⟩ := @BaseRuntime.generated ignoreErr (hosts.map g.host) (names ▸ distinct)
  refine ⟨b, built, fun role => ?_⟩
  have read : (b.hostsByRole role).map (·.map Host.name) =
      ((hosts.map (·.name)).flatMap fun n => List.replicate ((g.roles n).count role) n).map some := by
    rw [lists.hostsByRole, List.map_map, ← names, List.flatMap_map, List.map_flatMap, List.map_flatMap,
      List.flatMap_map, List.flatMap_map]
    refine List.flatMap_congr fun h _ => ?_
    rw [List.map_replicate, List.map_replicate]
    rfl
  rw [read]
  refine List.Perm.map some (List.perm_iff_count.mpr fun name => ?_)
  rw [count_flatMap_replicate distinct, counted role name]
  split
  · rfl
  · next outside => exact (List.count_eq_zero.mpr fun inside => outside (covers role name inside)).symm

end Groups

/-! ## Parsing -/

theorem Declares.foldlM_appendName (declares : Declares hostMap declared) (role : String) (g : Groups)
    {hosts : List String} (inside : ∀ h ∈ hosts, h ∈ declared) :
    hosts.foldlM (appendName hostMap role) g = .ok (hosts.foldl (Groups.roleGroupAppend role) g) := by
  induction hosts generalizing g with
  | nil => rfl
  | cons h hosts ih =>
    have here : appendName hostMap role g h = .ok (g.roleGroupAppend role h) :=
      if_pos ((declares h).mpr (inside h List.mem_cons_self))
    rw [List.foldlM_cons, here]
    exact ih (g.roleGroupAppend role h) fun h' there => inside h' (List.mem_cons_of_mem _ there)

theorem parseHost_garbled (role : String) (g : Groups) {e : String} (garbled : Garbled e) :
    parseHost hostMap role g e = .error .panic := by
  rw [parseHost, entryHosts_garbled garbled]
  rfl

theorem Declares.parseHost_rejected (declares : Declares hostMap declared) (role : String) (g : Groups) {e : String}
    (rejected : Rejected declared e) : ∃ text, parseHost hostMap role g e = .error (.fatal text) := by
  obtain ⟨text, refused⟩ := declares.entryHosts_rejected role rejected
  exact ⟨text, by rw [parseHost, refused]; rfl⟩

theorem Declares.parseHost_fine (declares : Declares hostMap declared) (role : String) (g : Groups) {e : String}
    (fine : Fine declared e) :
    parseHost hostMap role g e = .ok ((reads e).foldl (Groups.roleGroupAppend role) g) := by
  rw [parseHost, declares.entryHosts_fine fine]
  exact declares.foldlM_appendName role g fine.reads_declared

/-- The loop over the entries of a role meets brackets without a range. -/
def Panics (declared es : List String) : Prop :=
  ∃ front e back, es = front ++ e :: back ∧ Garbled e ∧ ∀ e' ∈ front, ¬ Rejected declared e'

theorem not_panics_nil : ¬ Panics declared [] := by
  rintro ⟨front, e, back, split, -⟩
  cases front <;> cases split

theorem panics_cons {e : String} {es : List String} :
    Panics declared (e :: es) ↔ Garbled e ∨ ¬ Rejected declared e ∧ Panics declared es := by
  constructor
  · rintro ⟨front, e', back, split, garbled, clean⟩
    cases front with
    | nil => exact .inl ((List.cons.inj split).1 ▸ garbled)
    | cons d front =>
      obtain ⟨rfl, rest⟩ := List.cons.inj split
      exact .inr ⟨clean _ List.mem_cons_self, front, e', back, rest, garbled,
        fun e'' there => clean e'' (List.mem_cons_of_mem _ there)⟩
  · rintro (garbled | ⟨kept, front, e', back, rfl, garbled, clean⟩)
    · exact ⟨[], e, es, rfl, garbled, fun _ there => absurd there List.not_mem_nil⟩
    · exact ⟨e :: front, e', back, rfl, garbled, List.forall_mem_cons.mpr ⟨kept, clean⟩⟩

/-- Entries of which none stops the loop. -/
theorem fine_of_not_panics {es : List String} (runs : ¬ Panics declared es) (kept : ∀ e ∈ es, ¬ Rejected declared e) :
    ∀ e ∈ es, Fine declared e := by
  intro e there
  refine ⟨fun garbled => runs ?_, kept e there⟩
  obtain ⟨front, back, rfl⟩ := List.append_of_mem there
  exact ⟨front, e, back, rfl, garbled, fun e' before => kept e' (List.mem_append_left _ before)⟩

section Role
variable {es : List String} (declares : Declares hostMap declared) (role : String) (g : Groups)
include declares

theorem Declares.parseRole_fine (fine : ∀ e ∈ es, Fine declared e) :
    es.foldlM (parseHost hostMap role) g = .ok ((es.flatMap reads).foldl (Groups.roleGroupAppend role) g) := by
  induction es generalizing g with
  | nil => rfl
  | cons e es ih =>
    obtain ⟨here, rest⟩ := List.forall_mem_cons.mp fine
    rw [List.foldlM_cons, declares.parseHost_fine role g here, List.flatMap_cons, List.foldl_append]
    exact ih _ rest

theorem Declares.parseRole_panics (panics : Panics declared es) :
    es.foldlM (parseHost hostMap role) g = .error .panic := by
  induction es generalizing g with
  | nil => exact absurd panics not_panics_nil
  | cons e es ih =>
    rw [List.foldlM_cons]
    by_cases garbled : Garbled e
    · rw [parseHost_garbled role g garbled]
      rfl
    · obtain ⟨kept, rest⟩ := (panics_cons.mp panics).resolve_left garbled
      rw [declares.parseHost_fine role g ⟨garbled, kept⟩]
      exact ih _ rest

theorem Declares.parseRole_rejected (runs : ¬ Panics declared es) (rejected : ∃ e ∈ es, Rejected declared e) :
    ∃ text, es.foldlM (parseHost hostMap role) g = .error (.fatal text) := by
  induction es generalizing g with
  | nil =>
    obtain ⟨e, there, -⟩ := rejected
    exact absurd there List.not_mem_nil
  | cons e es ih =>
    rw [panics_cons, not_or, not_and] at runs
    rw [List.foldlM_cons]
    by_cases here : Rejected declared e
    · obtain ⟨text, refused⟩ := declares.parseHost_rejected role g here
      exact ⟨text, by rw [refused]; rfl⟩
    · have rest : ∃ e ∈ es, Rejected declared e := by
        obtain ⟨e', there, refused⟩ := rejected
        rcases List.mem_cons.mp there with rfl | there
        · exact absurd refused here
        · exact ⟨e', there, refused⟩
      rw [declares.parseHost_fine role g ⟨runs.1, here⟩]
      exact ih _ (runs.2 here) rest

end Role

section Roles
variable {order : List (String × List String)} (declares : Declares hostMap declared) (g : Groups)
include declares

theorem Declares.parseRoles_rejected (runs : ∀ entry ∈ order, ¬ Panics declared entry.2)
    (rejected : ∃ entry ∈ order, ∃ e ∈ entry.2, Rejected declared e) :
    ∃ text, order.foldlM (fun g entry => entry.2.foldlM (parseHost hostMap entry.1) g) g = .error (.fatal text) := by
  induction order generalizing g with
  | nil =>
    obtain ⟨entry, there, -⟩ := rejected
    exact absurd there List.not_mem_nil
  | cons entry order ih =>
    obtain ⟨runs, runs'⟩ := List.forall_mem_cons.mp runs
    rw [List.foldlM_cons]
    by_cases here : ∃ e ∈ entry.2, Rejected declared e
    · obtain ⟨text, refused⟩ := declares.parseRole_rejected entry.1 g runs here
      exact ⟨text, by rw [refused]; rfl⟩
    · have rest : ∃ entry ∈ order, ∃ e ∈ entry.2, Rejected declared e := by
        obtain ⟨entry', there, refused⟩ := rejected
        rcases List.mem_cons.mp there with rfl | there
        · exact absurd refused here
        · exact ⟨entry', there, refused⟩
      have fine := fine_of_not_panics runs fun e there refused => here ⟨e, there, refused⟩
      rw [declares.parseRole_fine entry.1 g fine]
      exact ih _ runs' rest

/-- The lists of groups that are read to their end. -/
theorem Declares.parseRoles_fine (distinct : (order.map Prod.fst).Nodup)
    (fine : ∀ entry ∈ order, ∀ e ∈ entry.2, Fine declared e) (counted : g.Counted) :
    ∃ g', order.foldlM (fun g entry => entry.2.foldlM (parseHost hostMap entry.1) g) g = .ok g' ∧ g'.Counted ∧
      ∀ role, g'.list role = g.list role ++ ((order.lookup role).getD []).flatMap reads := by
  induction order generalizing g with
  | nil => exact ⟨g, rfl, counted, fun role => (List.append_nil _).symm⟩
  | cons entry order ih =>
    obtain ⟨name, es⟩ := entry
    obtain ⟨fresh, distinct⟩ := List.nodup_cons.mp distinct
    obtain ⟨here, rest⟩ := List.forall_mem_cons.mp fine
    obtain ⟨g', parsed, counted', lists⟩ := ih _ distinct rest (counted.appends name (es.flatMap reads))
    refine ⟨g', ?_, counted', fun role => ?_⟩
    · rw [List.foldlM_cons, declares.parseRole_fine name g here]
      exact parsed
    · rw [lists role, Groups.list_appends, lookup_cons_if]
      split
      · next same =>
        have absent : order.lookup role = none := by
          rw [List.lookup_eq_none_iff]
          intro entry there
          exact bne_iff_ne.mpr fun equal : role = entry.1 =>
            fresh (List.mem_map.mpr ⟨entry, there, by rw [← equal, same]⟩)
        rw [absent, Option.getD_none, List.flatMap_nil, List.append_nil, Option.getD_some]
      · rw [List.append_nil]

end Roles

end Reading

/-! ## The groups of a cluster -/

theorem hostMap_declares {hosts : List HostCfg} (timeouts : ∀ host ∈ hosts, host.timeout.isSome = true)
    (start : GoMap HostCfg) : ∃ hostMap, hosts.foldlM (fun hostMap host =>
      if host.timeout.isSome then .ok (hostMap.put host.name host) else (.error .panic : Except Halt (GoMap HostCfg)))
        start = .ok hostMap ∧
      ∀ name, (hostMap.get? name).isSome = true ↔ (start.get? name).isSome = true ∨ name ∈ hosts.map (·.name) := by
  induction hosts generalizing start with
  | nil => exact ⟨start, rfl, fun name => by simp⟩
  | cons host hosts ih =>
    obtain ⟨here, rest⟩ := List.forall_mem_cons.mp timeouts
    obtain ⟨hostMap, built, known⟩ := ih rest (start.put host.name host)
    refine ⟨hostMap, ?_, fun name => ?_⟩
    · rw [List.foldlM_cons, if_pos here]
      exact built
    · rw [known name, GoMap.get?_put, List.map_cons, List.mem_cons]
      split
      · next same => simp [same]
      · next other => simp [other]

theorem hostMap_panics {hosts : List HostCfg} (missing : ¬ ∀ host ∈ hosts, host.timeout.isSome = true)
    (start : GoMap HostCfg) : hosts.foldlM (fun hostMap host =>
      if host.timeout.isSome then .ok (hostMap.put host.name host) else (.error .panic : Except Halt (GoMap HostCfg)))
        start = .error .panic := by
  induction hosts generalizing start with
  | nil => exact absurd (fun _ there => absurd there List.not_mem_nil) missing
  | cons host hosts ih =>
    rw [List.foldlM_cons]
    split
    · next here => exact ih (fun rest => missing (List.forall_mem_cons.mpr ⟨here, rest⟩)) _
    · rfl

namespace ClusterSpec

variable {cfg : ClusterSpec} {order : List (String × List String)}

theorem mem_entries {role : String} {es : List String} (there : (role, es) ∈ cfg.roleGroups.entries) :
    cfg.entries role = es := by
  rw [entries, GoMap.get?, lookup_of_mem cfg.roleGroups.distinct there, Option.getD_some]

theorem lookup_order (perm : order.Perm cfg.roleGroups.entries) (role : String) :
    (order.lookup role).getD [] = cfg.entries role := by
  have distinct : (order.map Prod.fst).Nodup := (perm.map Prod.fst).nodup_iff.mpr cfg.roleGroups.distinct
  cases found : order.lookup role with
  | some es => exact (mem_entries (perm.mem_iff.mp (mem_of_lookup found))).symm
  | none =>
    cases there : cfg.roleGroups.entries.lookup role with
    | none => rw [entries, GoMap.get?, there]
    | some es =>
      rw [lookup_of_mem distinct (perm.mem_iff.mpr (mem_of_lookup there))] at found
      cases found

/-- What holds of the entries of every role holds of those in the order. -/
theorem forall_order {p : List String → Prop} (perm : order.Perm cfg.roleGroups.entries)
    (all : ∀ role, p (cfg.entries role)) : ∀ entry ∈ order, p entry.2 := by
  rintro ⟨role, es⟩ there
  rw [← mem_entries (perm.mem_iff.mp there)]
  exact all role

theorem exists_order {p : List String → Prop} (perm : order.Perm cfg.roleGroups.entries) {role : String}
    (empty : ¬ p []) (holds : p (cfg.entries role)) : ∃ entry ∈ order, entry.2 = cfg.entries role := by
  rw [← lookup_order perm role] at *
  cases found : order.lookup role with
  | none =>
    rw [found, Option.getD_none] at holds
    exact absurd holds empty
  | some es => exact ⟨(role, es), mem_of_lookup found, rfl⟩

/-- An entry that is read as what it names. -/
theorem named_reads {e : String} (plain : Plain cfg.declared e) (known : named cfg.declared e ≠ none) :
    named cfg.declared e = some (reads e) ∧ Fine cfg.declared e := by
  unfold named at known ⊢
  by_cases range : bracketed e = true
  · obtain ⟨other, ends⟩ := plain.resolve_left (by simp [range])
    rw [if_neg other] at known ⊢
    cases found : findRange e.toList with
    | none =>
      rw [found, Option.bind_none] at known
      exact absurd rfl known
    | some m =>
      have same : reads e = rangeNames m := by rw [reads, if_pos range, found, Option.elim_some]
      rw [found, Option.bind_some] at known
      rw [Option.bind_some]
      split at known
      · next inside =>
        rw [if_pos inside, same]
        refine ⟨rfl, fun garbled => ?_, ?_⟩
        · have none_ := garbled.2
          rw [found] at none_
          cases none_
        · rintro (endless | ⟨h, there, absent⟩)
          · exact ends endless
          · exact absent (inside.2 h (same ▸ there))
      · exact absurd rfl known
  · have none_ : findRange e.toList = none := by
      cases found : findRange e.toList with
      | none => rfl
      | some m => exact absurd (bracketed_of_findRange found) range
    rw [none_] at known ⊢
    split at known
    · next here =>
      have same : reads e = [e] := if_neg range
      rw [if_pos here, same]
      refine ⟨rfl, fun garbled => range garbled.1, ?_⟩
      rintro (⟨m, found, -⟩ | ⟨h, there, absent⟩)
      · rw [none_] at found
        cases found
      · rw [same, List.mem_singleton] at there
        exact absent (there ▸ here)
    · exact absurd rfl known

/-- The lists that are read are those that are named. -/
theorem under_reads (plain : ∀ role, ∀ e ∈ cfg.entries role, Plain cfg.declared e) (known : ¬ cfg.Unknown) :
    (cfg.under fun e => (named cfg.declared e).getD []) = cfg.under reads ∧
      ∀ role, ∀ e ∈ cfg.entries role, Fine cfg.declared e := by
  have each : ∀ role, ∀ e ∈ cfg.entries role,
      named cfg.declared e = some (reads e) ∧ Fine cfg.declared e := fun role e there =>
    named_reads (plain role e there) fun none_ => known ⟨role, e, there, none_⟩
  refine ⟨funext fun role => List.flatMap_congr fun e there => ?_, fun role e there => (each role e there).2⟩
  rw [(each role e there).1, Option.getD_some]

/-- A declared name that is taken for a range is in none of the lists. -/
theorem not_mem_reads {role e : String} {m : RangeMatch} (found : findRange e.toList = some m) :
    e ∉ withControlPlane (cfg.under reads) role := by
  have absent : ∀ role, e ∉ cfg.under reads role := by
    intro role there
    obtain ⟨e', -, read⟩ := List.mem_flatMap.mp there
    rw [findRange_reads read (bracketed_of_findRange found)] at found
    cases found
  intro there
  rcases List.mem_append.mp there with there | there
  · exact absent role there
  · split at there
    · exact absent Role.controlPlane there
    · exact absurd there List.not_mem_nil

theorem mem_hostsOf {role e : String} (there : e ∈ cfg.entries role) (known : e ∈ cfg.declared) :
    e ∈ cfg.hostsOf role :=
  List.mem_append_left _ (List.mem_flatMap.mpr ⟨e, there, by rw [named, if_pos known]; exact List.mem_singleton_self e⟩)

section Timeouts
variable (timeouts : ∀ host ∈ cfg.hosts, host.timeout.isSome = true)
include timeouts

theorem hostMap_eq : ∃ hostMap, cfg.hostMap = .ok hostMap ∧ Declares hostMap cfg.declared := by
  obtain ⟨hostMap, built, known⟩ := hostMap_declares timeouts .empty
  refine ⟨hostMap, built, fun name => (known name).trans ?_⟩
  simp [declared]

theorem groupHosts_rejected (perm : order.Perm cfg.roleGroups.entries)
    (runs : ∀ role, ¬ Panics cfg.declared (cfg.entries role))
    (rejected : ∃ role, ∃ e ∈ cfg.entries role, Rejected cfg.declared e) :
    ∃ text, cfg.groupHosts order = .error (.fatal text) := by
  obtain ⟨hostMap, built, declares⟩ := hostMap_eq timeouts
  obtain ⟨role, refused⟩ := rejected
  have inside : ∃ entry ∈ order, ∃ e ∈ entry.2, Rejected cfg.declared e := by
    obtain ⟨entry, there, same⟩ := @exists_order cfg order (fun es => ∃ e ∈ es, Rejected cfg.declared e) perm role
      (by simp) refused
    exact ⟨entry, there, same ▸ refused⟩
  have runs' := @forall_order cfg order (fun es => ¬ Panics cfg.declared es) perm runs
  obtain ⟨text, halts⟩ := declares.parseRoles_rejected .empty runs' inside
  exact ⟨text, by rw [groupHosts, built, Except.bind, parseRolesList, halts]; rfl⟩

/-- Some order of the roles meets the brackets first. -/
theorem groupHosts_panics {role : String} (panics : Panics cfg.declared (cfg.entries role)) :
    ∃ order, order.Perm cfg.roleGroups.entries ∧ cfg.groupHosts order = .error .panic := by
  obtain ⟨hostMap, built, declares⟩ := hostMap_eq timeouts
  obtain ⟨entry, there, same⟩ := exists_order (List.Perm.refl _) not_panics_nil panics
  obtain ⟨front, back, split⟩ := List.append_of_mem there
  refine ⟨entry :: (front ++ back), ?_, ?_⟩
  · rw [split]
    exact List.perm_middle.symm
  · rw [groupHosts, built, Except.bind, parseRolesList, List.foldlM_cons,
      declares.parseRole_panics entry.1 .empty (same ▸ panics)]
    rfl

/-- The groups when every entry is read to its end. -/
theorem parseRolesList_fine (perm : order.Perm cfg.roleGroups.entries)
    (fine : ∀ role, ∀ e ∈ cfg.entries role, Fine cfg.declared e) :
    ∃ hostMap g, cfg.hostMap = .ok hostMap ∧ parseRolesList hostMap order = .ok g ∧ g.Counted ∧
      g.list = cfg.under reads := by
  obtain ⟨hostMap, built, declares⟩ := hostMap_eq timeouts
  have distinct : (order.map Prod.fst).Nodup := (perm.map Prod.fst).nodup_iff.mpr cfg.roleGroups.distinct
  have inside : ∀ entry ∈ order, ∀ e ∈ entry.2, Fine cfg.declared e :=
    @forall_order cfg order (fun es => ∀ e ∈ es, Fine cfg.declared e) perm fine
  obtain ⟨g, parsed, counted, lists⟩ := declares.parseRoles_fine .empty distinct inside fun role host => rfl
  refine ⟨hostMap, g, built, parsed, counted, funext fun role => ?_⟩
  rw [lists role, lookup_order perm role]
  rfl

theorem groupHosts_lacking (perm : order.Perm cfg.roleGroups.entries)
    (fine : ∀ role, ∀ e ∈ cfg.entries role, Fine cfg.declared e) (lacking : cfg.Lacking (cfg.under reads)) :
    ∃ text, cfg.groupHosts order = .error (.fatal text) := by
  obtain ⟨hostMap, g, built, parsed, -, lists⟩ := parseRolesList_fine timeouts perm fine
  rw [groupHosts, built, Except.bind, parsed, Except.bind]
  rw [lists]
  split
  · exact ⟨_, rfl⟩
  · next masters =>
    rw [if_pos (lacking.resolve_left masters)]
    exact ⟨_, rfl⟩

theorem groupHosts_fine (perm : order.Perm cfg.roleGroups.entries)
    (fine : ∀ role, ∀ e ∈ cfg.entries role, Fine cfg.declared e) (enough : ¬ cfg.Lacking (cfg.under reads)) :
    ∃ g, cfg.groupHosts order = .ok g ∧ g.Counted ∧ g.list = withControlPlane (cfg.under reads) := by
  obtain ⟨hostMap, g, built, parsed, counted, lists⟩ := parseRolesList_fine timeouts perm fine
  rw [Lacking, not_or] at enough
  refine ⟨(g.list Role.controlPlane).foldl (Groups.roleGroupAppend Role.master) g, ?_, counted.appends _ _,
    funext fun role => ?_⟩
  · rw [groupHosts, built, Except.bind, parsed, Except.bind]
    rw [if_neg (lists ▸ enough.1), if_neg (lists ▸ enough.2)]
  · rw [Groups.list_appends, lists, withControlPlane]

/-- The lists of a clear configuration. -/
theorem Clear.exactly (clear : cfg.Clear) (perm : order.Perm cfg.roleGroups.entries) : cfg.GroupsExactly order := by
  by_cases wrong : cfg.Wrong
  · obtain ⟨preceded, reason⟩ := clear.refused wrong
    have runs : ∀ role, ¬ Panics cfg.declared (cfg.entries role) := by
      rintro role ⟨front, e, back, split, garbled, clean⟩
      obtain ⟨e', there, refused⟩ := preceded role front e back split garbled
      exact clean e' there refused
    have halts : ∃ text, cfg.groupHosts order = .error (.fatal text) := by
      by_cases rejected : ∃ role, ∃ e ∈ cfg.entries role, Rejected cfg.declared e
      · exact groupHosts_rejected timeouts perm runs rejected
      · have fine : ∀ role, ∀ e ∈ cfg.entries role, Fine cfg.declared e := fun role =>
          fine_of_not_panics (runs role) fun e there refused => rejected ⟨role, e, there, refused⟩
        exact groupHosts_lacking timeouts perm fine (reason.resolve_right rejected)
    obtain ⟨text, halted⟩ := halts
    refine ⟨?_, ⟨fun _ => wrong, fun _ => ⟨text, halted⟩⟩, fun g ran => ?_, fun g ran => ?_, fun g ran => ?_⟩
    · rw [halted]
      intro same
      cases same
    all_goals
      rw [halted] at ran
      cases ran
  · obtain ⟨plain, once⟩ := clear.accepted wrong
    obtain ⟨same, fine⟩ := under_reads plain fun unknown => wrong (.inl unknown)
    have enough : ¬ cfg.Lacking (cfg.under reads) := fun lacking => wrong (.inr (same.symm ▸ lacking))
    obtain ⟨g, ran, counted, lists⟩ := groupHosts_fine timeouts perm fine enough
    have lists' : g.list = cfg.hostsOf := by
      rw [lists, ← same]
      rfl
    refine ⟨?_, ⟨?_, fun bad => absurd bad wrong⟩, fun g' ran' => ?_, fun g' ran' => ?_, fun g' ran' => ?_⟩
    · rw [ran]
      intro same
      cases same
    · rintro ⟨text, halted⟩
      rw [ran] at halted
      cases halted
    all_goals
      rw [ran, Except.ok.injEq] at ran'
      subst ran'
    · rw [lists']
      exact once
    · rw [lists']
      exact fun role host => Iff.rfl
    · exact counted.agrees

end Timeouts

theorem exists_of_foldlM_ok {σ ε β : Type} {f : σ → β → Except ε σ} {l : List β} {s s' : σ}
    (ran : l.foldlM f s = .ok s') : ∀ b ∈ l, ∃ t t', f t b = .ok t' := by
  induction l generalizing s with
  | nil => exact fun _ there => absurd there List.not_mem_nil
  | cons b l ih =>
    rw [List.foldlM_cons] at ran
    cases here : f s b with
    | error e =>
      rw [here] at ran
      cases ran
    | ok t =>
      rw [here] at ran
      exact List.forall_mem_cons.mpr ⟨⟨s, t, here⟩, ih ran⟩

/-- Where the hosts are grouped, every entry is read to its end and no list is lacking. -/
theorem groupHosts_ok (perm : order.Perm cfg.roleGroups.entries) {g : Groups} (ran : cfg.groupHosts order = .ok g) :
    (∀ host ∈ cfg.hosts, host.timeout.isSome = true) ∧ (∀ role, ∀ e ∈ cfg.entries role, Fine cfg.declared e) ∧
      ¬ cfg.Lacking (cfg.under reads) := by
  have timeouts : ∀ host ∈ cfg.hosts, host.timeout.isSome = true := by
    by_contra missing
    rw [groupHosts, hostMap, hostMap_panics missing] at ran
    cases ran
  obtain ⟨hostMap, built, declares⟩ := hostMap_eq timeouts
  have fine : ∀ role, ∀ e ∈ cfg.entries role, Fine cfg.declared e := by
    intro role e there
    cases parsed : parseRolesList hostMap order with
    | error halt =>
      rw [groupHosts, built, Except.bind, parsed] at ran
      cases ran
    | ok g' =>
      obtain ⟨entry, inside, same⟩ := @exists_order cfg order (fun es => e ∈ es) perm role List.not_mem_nil there
      obtain ⟨t, t', role_⟩ := exists_of_foldlM_ok parsed entry inside
      obtain ⟨u, u', host⟩ := exists_of_foldlM_ok role_ e (same ▸ there)
      refine ⟨fun garbled => ?_, fun rejected => ?_⟩
      · rw [parseHost_garbled entry.1 u garbled] at host
        cases host
      · obtain ⟨text, refused⟩ := declares.parseHost_rejected entry.1 u rejected
        rw [refused] at host
        cases host
  refine ⟨timeouts, fine, fun lacking => ?_⟩
  obtain ⟨text, refused⟩ := groupHosts_lacking timeouts perm fine lacking
  rw [refused] at ran
  cases ran

/-- The lists do not depend on the order of the role groups, and the roles of a host only as to theirs. -/
theorem groupHosts_order {order' : List (String × List String)} (perm : order.Perm cfg.roleGroups.entries)
    (perm' : order'.Perm cfg.roleGroups.entries) {g : Groups} (ran : cfg.groupHosts order = .ok g) :
    ∃ g', cfg.groupHosts order' = .ok g' ∧ g'.list = g.list ∧ ∀ host, (g'.roles host).Perm (g.roles host) := by
  obtain ⟨timeouts, fine, enough⟩ := groupHosts_ok perm ran
  obtain ⟨g₁, ran₁, counted₁, lists₁⟩ := groupHosts_fine timeouts perm fine enough
  obtain ⟨g₂, ran₂, counted₂, lists₂⟩ := groupHosts_fine timeouts perm' fine enough
  rw [ran] at ran₁
  cases ran₁
  refine ⟨g₂, ran₂, lists₂.trans lists₁.symm, fun host => List.perm_iff_count.mpr fun role => ?_⟩
  rw [counted₂ role host, counted₁ role host, lists₂, lists₁]

/-- The lists are exact in every order of the role groups for a clear configuration, and for no other. -/
theorem exactly_iff (cfg : ClusterSpec) :
    (∀ order, order.Perm cfg.roleGroups.entries → cfg.GroupsExactly order) ↔ cfg.Clear := by
  constructor
  · intro exact_
    have timeouts : ∀ host ∈ cfg.hosts, host.timeout.isSome = true := by
      by_contra missing
      refine (exact_ _ (List.Perm.refl _)).runs ?_
      rw [groupHosts, hostMap, hostMap_panics missing]
      rfl
    have runs : ∀ role, ¬ Panics cfg.declared (cfg.entries role) := by
      intro role panics
      obtain ⟨order, perm, panicked⟩ := groupHosts_panics timeouts panics
      exact (exact_ order perm).runs panicked
    have here := exact_ _ (List.Perm.refl _)
    have fine_of : (¬ ∃ role, ∃ e ∈ cfg.entries role, Rejected cfg.declared e) →
        ∀ role, ∀ e ∈ cfg.entries role, Fine cfg.declared e := fun kept role =>
      fine_of_not_panics (runs role) fun e there refused => kept ⟨role, e, there, refused⟩
    refine ⟨timeouts, fun wrong => ⟨fun role front e back split garbled => ?_, ?_⟩, fun right => ?_⟩
    · by_contra clean
      exact runs role ⟨front, e, back, split, garbled, fun e' there refused => clean ⟨e', there, refused⟩⟩
    · by_contra neither
      rw [not_or] at neither
      obtain ⟨g, ran, -⟩ := groupHosts_fine timeouts (List.Perm.refl _) (fine_of neither.2) neither.1
      obtain ⟨text, halted⟩ := here.fatal.mpr wrong
      rw [ran] at halted
      cases halted
    · have kept : ¬ ∃ role, ∃ e ∈ cfg.entries role, Rejected cfg.declared e := fun rejected =>
        right (here.fatal.mp (groupHosts_rejected timeouts (List.Perm.refl _) runs rejected))
      have fine := fine_of kept
      have enough : ¬ cfg.Lacking (cfg.under reads) := fun lacking =>
        right (here.fatal.mp (groupHosts_lacking timeouts (List.Perm.refl _) fine lacking))
      obtain ⟨g, ran, -, lists⟩ := groupHosts_fine timeouts (List.Perm.refl _) fine enough
      have plain : ∀ role, ∀ e ∈ cfg.entries role, Plain cfg.declared e := by
        intro role e there
        by_cases range : bracketed e = true
        · refine .inr ⟨fun known => ?_, fun endless => (fine role e there).2 (.inl endless)⟩
          cases found : findRange e.toList with
          | none => exact (fine role e there).1 ⟨range, found⟩
          | some m =>
            refine not_mem_reads found (?_ : e ∈ withControlPlane (cfg.under reads) role)
            rw [← lists]
            exact (here.hosts g ran role e).mpr (mem_hostsOf there known)
        · exact .inl (Bool.not_eq_true _ ▸ range)
      have same := (under_reads plain fun unknown => right (.inl unknown)).1
      refine ⟨plain, fun role => ?_⟩
      have once := here.once g ran role
      rw [lists, ← same] at once
      exact once
  · exact fun clear order perm => clear.exactly clear.timeouts perm

/-- A cluster of one host that is listed under both names of its role. -/
def twiceNamed : ClusterSpec where
  hosts := [⟨"node1", "10.0.0.1", "10.0.0.1", some 30⟩]
  roleGroups := .ofList [(Role.controlPlane, ["node1"]), (Role.master, ["node1"])]
  controlPlaneEndpoint := ⟨"lb.kubesphere.local", ""⟩
  etcd := ⟨"external"⟩
  kubernetes := ⟨"cluster.local", []⟩
  network := ⟨"10.233.0.0/18"⟩

/-- The host is twice in the list of the masters. -/
theorem not_exactly_twice :
    ¬ ∀ order, order.Perm twiceNamed.roleGroups.entries → twiceNamed.GroupsExactly order := by
  intro exact_
  have here := exact_ _ (List.Perm.refl _)
  cases ran : twiceNamed.groupHosts twiceNamed.roleGroups.entries with
  | error halt =>
    have fine : (twiceNamed.groupHosts twiceNamed.roleGroups.entries).isOk = true := by decide +kernel
    rw [ran] at fine
    cases fine
  | ok g =>
    have lists : (twiceNamed.groupHosts twiceNamed.roleGroups.entries).toOption.map (·.list Role.master) =
        some ["node1", "node1"] := by decide +kernel
    rw [ran] at lists
    have list : g.list Role.master = ["node1", "node1"] := Option.some.inj lists
    have once := here.once g ran Role.master
    rw [list] at once
    exact absurd once (by decide)

end ClusterSpec

end KubeKey.Cluster
