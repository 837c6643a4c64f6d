import Mathlib.Data.List.Nodup
import KubeKey.Core.Runtime

/-!
# What the host lists hold

`DeleteHost` moves the hosts it keeps to the front of their array and shortens the slice;
behind them the array is as it was (`compactLoop_eq`). For the runtimes that are built by
appending hosts this never goes wrong: the lists have arrays of their own, hold no nil and
no host that was deleted, and the hosts of the roles are hosts of the cluster
(`WellFormed`). `Deleted` says all that a deletion does.
-/

namespace KubeKey.Core

open KubeKey.Go

/-- The host has another name. -/
def Host.other (name : String) (h : Host) : Bool := h.name ≠ name

/-- The loop keeps the hosts of another name, in order, in front of what is behind them in the array. -/
theorem compactLoop_eq (name : String) {todo : List Host} {tail cells : List (Option Host)} {i j : Nat} (le : i ≤ j)
    (rest : cells.drop j = todo.map some ++ tail) :
    compactLoop name todo.length j i cells =
      some (i + (todo.filter (Host.other name)).length,
        cells.take i ++ (todo.filter (Host.other name)).map some ++
          cells.drop (i + (todo.filter (Host.other name)).length)) := by
  induction todo generalizing cells i j with
  | nil => simp [compactLoop]
  | cons h todo ih =>
    have here : cells[j]? = some (some h) := by
      rw [← List.head?_drop, rest]
      rfl
    have inside : j < cells.length := (List.getElem?_eq_some_iff.mp here).1
    have after : cells.drop (j + 1) = todo.map some ++ tail := by
      rw [← List.tail_drop, rest]
      rfl
    simp only [List.length_cons, compactLoop, here]
    by_cases keep : h.name ≠ name
    · have kept : Host.other name h = true := by simpa [Host.other] using keep
      have moved : (cells.set i (some h)).drop (j + 1) = todo.map some ++ tail := by
        rw [List.drop_set_of_lt (by omega), after]
      rw [if_pos keep, ih (Nat.succ_le_succ le) moved, List.filter_cons_of_pos kept]
      have front : (cells.set i (some h)).take (i + 1) = cells.take i ++ [some h] := by
        rw [List.take_add_one, List.take_set_of_le (Nat.le_refl i)]
        simp [show i < cells.length by omega]
      have back : ∀ m, (cells.set i (some h)).drop (i + 1 + m) = cells.drop (i + 1 + m) := fun m =>
        List.drop_set_of_lt (by omega)
      rw [front, back]
      simp only [List.length_cons, List.map_cons, List.append_assoc, List.singleton_append, Option.some.injEq,
        Prod.mk.injEq]
      constructor
      · omega
      · rw [show i + 1 + (todo.filter (Host.other name)).length = i + ((todo.filter (Host.other name)).length + 1) by omega]
    · have dropped : Host.other name h = false := by simpa [Host.other] using keep
      rw [if_neg keep, ih (by omega) after, List.filter_cons_of_neg (by simp [dropped])]

namespace BaseRuntime

variable {b b' : BaseRuntime} {s : Slice} {host : Host}

/-- The hosts of a slice. -/
def list (b : BaseRuntime) (s : Slice) : List Host := (b.hosts s).filterMap id

/-- The slice lies in its array and holds no nil. -/
def Full (b : BaseRuntime) (s : Slice) : Prop := b.hosts s = (b.list s).map some ∧ (b.list s).length = s.len

/-- The array of a full slice. -/
theorem Full.array (full : b.Full s) : b.arrays s.array = (b.list s).map some ++ (b.arrays s.array).drop s.len := by
  rw [← full.1]
  exact (List.take_append_drop s.len (b.arrays s.array)).symm

/-- A slice is full if its array starts with hosts. -/
theorem full_of_array {hs : List Host} (tail : List (Option Host)) (array : b.arrays s.array = hs.map some ++ tail)
    (len : hs.length = s.len) : b.Full s ∧ b.list s = hs := by
  have hosts : b.hosts s = hs.map some := by
    rw [BaseRuntime.hosts, array, ← len]
    simp
  have list : b.list s = hs := by
    rw [BaseRuntime.list, hosts]
    simp
  exact ⟨⟨by rw [hosts, list], by rw [list, len]⟩, list⟩

/-- What a deletion leaves of a slice and of its array. -/
def kept (b : BaseRuntime) (s : Slice) (name : String) : List Host := (b.list s).filter (Host.other name)

theorem compactLoop_full (full : b.Full s) (name : String) :
    compactLoop name s.len 0 0 (b.arrays s.array) =
      some ((b.kept s name).length,
        (b.kept s name).map some ++ (b.arrays s.array).drop (b.kept s name).length) := by
  have eq := compactLoop_eq name (i := 0) (Nat.le_refl 0) ((List.drop_zero).trans full.array)
  rw [full.2] at eq
  simpa [kept] using eq

/-- A role list after a deletion: shorter, with the kept hosts moved to the front of its array. -/
def Compacted (b b' : BaseRuntime) (name role : String) (s : Slice) : Prop :=
  b'.roleHosts.get? role = some ⟨s.array, (b.kept s name).length⟩ ∧
    b'.arrays s.array = (b.kept s name).map some ++ (b.arrays s.array).drop (b.kept s name).length

/-- What the loop over some of the roles does. -/
structure RolesDeleted (b b' : BaseRuntime) (name : String) (roles : List (String × Slice)) : Prop where
  compacted : ∀ e ∈ roles, Compacted b b' name e.1 e.2
  arrays : ∀ a, (∀ e ∈ roles, e.2.array ≠ a) → b'.arrays a = b.arrays a
  roleHosts : ∀ r, r ∉ roles.map Prod.fst → b'.roleHosts.get? r = b.roleHosts.get? r
  ignoreErr : b'.ignoreErr = b.ignoreErr
  allHosts : b'.allHosts = b.allHosts
  deprecatedHosts : b'.deprecatedHosts = b.deprecatedHosts

theorem roleDelete_eq {e : String × Slice} (full : b.Full e.2) :
    roleDelete host b e =
      some { b.setArray e.2.array
              ((b.kept e.2 host.name).map some ++ (b.arrays e.2.array).drop (b.kept e.2 host.name).length) with
        roleHosts := b.roleHosts.put e.1 ⟨e.2.array, (b.kept e.2 host.name).length⟩ } := by
  simp [roleDelete, compactLoop_full full]

theorem foldlM_roleDelete (host : Host) {roles : List (String × Slice)} (keys : (roles.map Prod.fst).Nodup)
    (apart : (roles.map fun e => e.2.array).Nodup) (full : ∀ e ∈ roles, b.Full e.2) :
    ∃ b', roles.foldlM (roleDelete host) b = some b' ∧ RolesDeleted b b' host.name roles := by
  induction roles generalizing b with
  | nil => exact ⟨b, rfl, by simp, by simp, by simp, rfl, rfl, rfl⟩
  | cons e roles ih =>
    obtain ⟨freshKey, keys⟩ := List.nodup_cons.mp keys
    obtain ⟨freshArray, apart⟩ := List.nodup_cons.mp apart
    have away : ∀ e' ∈ roles, e'.2.array ≠ e.2.array := by
      intro e' inside same
      exact freshArray (List.mem_map.mpr ⟨e', inside, same⟩)
    generalize first : ({ b.setArray e.2.array
      ((b.kept e.2 host.name).map some ++ (b.arrays e.2.array).drop (b.kept e.2 host.name).length) with
        roleHosts := b.roleHosts.put e.1 ⟨e.2.array, (b.kept e.2 host.name).length⟩ } : BaseRuntime) = b₁
    have arrays : ∀ a, a ≠ e.2.array → b₁.arrays a = b.arrays a := by
      intro a other
      subst first
      simp [setArray, other]
    have hosts : ∀ e' ∈ roles, b₁.hosts e'.2 = b.hosts e'.2 := by
      intro e' inside
      rw [BaseRuntime.hosts, BaseRuntime.hosts, arrays _ (away e' inside)]
    have lists : ∀ e' ∈ roles, b₁.list e'.2 = b.list e'.2 := by
      intro e' inside
      rw [list, list, hosts e' inside]
    have full₁ : ∀ e' ∈ roles, b₁.Full e'.2 := by
      intro e' inside
      rw [Full, hosts e' inside, lists e' inside]
      exact full e' (List.mem_cons_of_mem _ inside)
    obtain ⟨b', ran, done⟩ := ih keys apart full₁
    refine ⟨b', ?_, ?_, ?_, ?_, ?_, ?_, ?_⟩
    · rw [List.foldlM_cons, roleDelete_eq (full e List.mem_cons_self), first]
      exact ran
    · intro e' inside
      rcases List.mem_cons.mp inside with rfl | inside
      · constructor
        · rw [done.roleHosts _ freshKey, ← first]
          simp
        · rw [done.arrays _ fun e'' there => away e'' there, ← first]
          simp [setArray]
      · have compacted := done.compacted e' inside
        rw [Compacted, kept, lists e' inside, arrays _ (away e' inside)] at compacted
        exact compacted
    · intro a other
      rw [done.arrays a fun e' inside => other e' (List.mem_cons_of_mem _ inside)]
      exact arrays a (other e List.mem_cons_self).symm
    · intro r other
      rw [List.map_cons, List.mem_cons, not_or] at other
      rw [done.roleHosts r other.2, ← first]
      exact GoMap.get?_put_ne _ _ other.1
    · rw [done.ignoreErr, ← first]
      rfl
    · rw [done.allHosts, ← first]
      rfl
    · rw [done.deprecatedHosts, ← first]
      rfl

/-- The names of a slice. -/
def names (b : BaseRuntime) (s : Slice) : List String := (b.list s).map Host.name

/-- The host lists are apart from each other and hold hosts of the cluster that were not deleted. -/
structure WellFormed (b : BaseRuntime) : Prop where
  all : b.Full b.allHosts
  roles : ∀ r s, b.roleHosts.get? r = some s → b.Full s ∧ s.array ≠ b.allHosts.array
  apart : ∀ r r' s s', b.roleHosts.get? r = some s → b.roleHosts.get? r' = some s' → s.array = s'.array → r = r'
  inAll : ∀ r s, b.roleHosts.get? r = some s → ∀ n ∈ b.names s, n ∈ b.names b.allHosts
  distinct : (b.names b.allHosts).Nodup
  alive : ∀ h ∈ b.list b.allHosts, b.hostIsDeprecated h = false

/-- All that a deletion does. -/
structure Deleted (b b' : BaseRuntime) (name : String) : Prop where
  all : b'.Full b'.allHosts ∧ b'.list b'.allHosts = b.kept b.allHosts name
  array : b'.allHosts.array = b.allHosts.array
  roles : ∀ r s, b.roleHosts.get? r = some s → Compacted b b' name r s
  noRole : ∀ r, b.roleHosts.get? r = none → b'.roleHosts.get? r = none
  deprecatedHosts : b'.deprecatedHosts = name :: b.deprecatedHosts
  ignoreErr : b'.ignoreErr = b.ignoreErr

theorem mem_kept {n name : String} : n ∈ (b.kept s name).map Host.name ↔ n ∈ b.names s ∧ n ≠ name := by
  simp only [kept, names, List.mem_map, List.mem_filter, Host.other, ne_eq, decide_not, Bool.not_eq_eq_eq_not,
    Bool.not_true, decide_eq_false_iff_not]
  constructor
  · rintro ⟨h, ⟨inside, other⟩, rfl⟩
    exact ⟨⟨h, inside, rfl⟩, other⟩
  · rintro ⟨⟨h, inside, rfl⟩, other⟩
    exact ⟨h, ⟨inside, other⟩, rfl⟩

/-- A deletion removes fewer hosts than there are if the name is not among them. -/
theorem kept_length_lt (full : b.Full s) (name : String) : (b.kept s name).length < s.len ↔ name ∈ b.names s := by
  rw [← full.2, kept, List.length_filter_lt_length_iff_exists]
  simp [names, Host.other]

theorem entries_nodup (m : GoMap Slice) (apart : ∀ r r' s s', m.get? r = some s → m.get? r' = some s' →
    s.array = s'.array → r = r') : (m.entries.map fun e => e.2.array).Nodup := by
  have distinct := m.distinct
  have pairs : ∀ e ∈ m.entries, ∀ e' ∈ m.entries, e.2.array = e'.2.array → e.1 = e'.1 := by
    intro e inside e' inside'
    exact apart e.1 e'.1 e.2 e'.2 (GoMap.get?_eq_some_iff.mpr inside) (GoMap.get?_eq_some_iff.mpr inside')
  generalize m.entries = l at distinct pairs
  induction l with
  | nil => exact List.nodup_nil
  | cons e l ih =>
    obtain ⟨fresh, rest⟩ := List.nodup_cons.mp distinct
    refine List.nodup_cons.mpr ⟨?_, ih rest fun e inside e' inside' =>
      pairs e (List.mem_cons_of_mem _ inside) e' (List.mem_cons_of_mem _ inside')⟩
    intro again
    obtain ⟨e', inside, same⟩ := List.mem_map.mp again
    have key := pairs e' (List.mem_cons_of_mem _ inside) e List.mem_cons_self same
    exact fresh (key ▸ List.mem_map_of_mem inside)

/-- The runtime after the first loop of `DeleteHost`. -/
def shortened (b : BaseRuntime) (name : String) : BaseRuntime :=
  { b.setArray b.allHosts.array
      ((b.kept b.allHosts name).map some ++
        ((b.arrays b.allHosts.array).drop (b.kept b.allHosts name).length).set 0 none) with
    allHosts := { b.allHosts with len := (b.kept b.allHosts name).length } }

theorem shortened_arrays {name : String} {a : Nat} (other : a ≠ b.allHosts.array) :
    (b.shortened name).arrays a = b.arrays a := by
  simp [shortened, setArray, other]

/-- The role lists do not see the first loop. -/
theorem shortened_hosts (wf : b.WellFormed) (name : String) {r : String} (found : b.roleHosts.get? r = some s) :
    (b.shortened name).hosts s = b.hosts s ∧ (b.shortened name).list s = b.list s := by
  have hosts : (b.shortened name).hosts s = b.hosts s := by
    rw [BaseRuntime.hosts, BaseRuntime.hosts, shortened_arrays (wf.roles r s found).2]
  exact ⟨hosts, by rw [list, list, hosts]⟩

theorem deleteHost_eq (full : b.Full b.allHosts) (host : Host) :
    b.deleteHost host =
      if host.name ∈ b.names b.allHosts then
        ((b.shortened host.name).roleMapDelete host).map fun b =>
          { b with deprecatedHosts := host.name :: b.deprecatedHosts }
      else none := by
  have lt := kept_length_lt full host.name
  have set : ((b.kept b.allHosts host.name).map some ++
      (b.arrays b.allHosts.array).drop (b.kept b.allHosts host.name).length).set
        (b.kept b.allHosts host.name).length none =
      (b.kept b.allHosts host.name).map some ++
        ((b.arrays b.allHosts.array).drop (b.kept b.allHosts host.name).length).set 0 none := by
    simp
  simp only [deleteHost, compactLoop_full full, Option.bind_eq_bind, Option.bind_some, set]
  by_cases inside : host.name ∈ b.names b.allHosts
  · rw [if_pos inside, if_pos (lt.mpr inside), Option.map_eq_bind]
    rfl
  · rw [if_neg inside, if_neg fun less => inside (lt.mp less)]

/-- A deletion succeeds if the name is one of the cluster's. -/
theorem deleteHost_spec (wf : b.WellFormed) (inside : host.name ∈ b.names b.allHosts) :
    ∃ b', b.deleteHost host = some b' ∧ Deleted b b' host.name := by
  have found : ∀ e ∈ (b.shortened host.name).roleHosts.entries, b.roleHosts.get? e.1 = some e.2 := fun e there =>
    GoMap.get?_eq_some_iff.mpr there
  have full : ∀ e ∈ (b.shortened host.name).roleHosts.entries, (b.shortened host.name).Full e.2 := by
    intro e there
    obtain ⟨hosts, list⟩ := shortened_hosts wf host.name (found e there)
    rw [Full, hosts, list]
    exact (wf.roles _ _ (found e there)).1
  obtain ⟨b', ran, done⟩ := foldlM_roleDelete host (b.shortened host.name).roleHosts.distinct
    (entries_nodup _ wf.apart) full
  refine ⟨{ b' with deprecatedHosts := host.name :: b'.deprecatedHosts }, ?_, ?_, ?_, ?_, ?_, ?_, ?_⟩
  · rw [deleteHost_eq wf.all, if_pos inside, roleMapDelete, ran]
    rfl
  · have array : b'.arrays b'.allHosts.array = (b.kept b.allHosts host.name).map some ++
        ((b.arrays b.allHosts.array).drop (b.kept b.allHosts host.name).length).set 0 none := by
      rw [done.allHosts]
      refine (done.arrays _ fun e there => (wf.roles _ _ (found e there)).2).trans ?_
      simp [shortened, setArray]
    refine full_of_array (b := { b' with deprecatedHosts := _ }) _ array ?_
    show _ = b'.allHosts.len
    rw [done.allHosts]
    rfl
  · show b'.allHosts.array = _
    rw [done.allHosts]
    rfl
  · intro r s found
    have compacted := done.compacted (r, s) (GoMap.get?_eq_some_iff.mp found)
    rw [Compacted, kept, (shortened_hosts wf host.name found).2, shortened_arrays (wf.roles r s found).2] at compacted
    exact compacted
  · intro r absent
    refine (done.roleHosts r fun there => ?_).trans absent
    have known := GoMap.get?_isSome_iff.mpr there
    rw [show (b.shortened host.name).roleHosts.get? r = none from absent] at known
    cases known
  · show host.name :: b'.deprecatedHosts = _
    rw [done.deprecatedHosts]
    rfl
  · show b'.ignoreErr = _
    rw [done.ignoreErr]
    rfl

/-- The hosts of a role after a deletion. -/
theorem Deleted.role_list {name r : String} {s : Slice} (deleted : Deleted b b' name)
    (found : b.roleHosts.get? r = some s) :
    ∃ s', b'.roleHosts.get? r = some s' ∧ s'.array = s.array ∧ b'.Full s' ∧ b'.list s' = b.kept s name := by
  obtain ⟨found', array⟩ := deleted.roles r s found
  have full := full_of_array (b := b') (s := ⟨s.array, (b.kept s name).length⟩) _ array rfl
  exact ⟨_, found', rfl, full.1, full.2⟩

/-- A role of the runtime after a deletion is a role of the runtime before. -/
theorem Deleted.role_before {name r : String} {s' : Slice} (deleted : Deleted b b' name)
    (found : b'.roleHosts.get? r = some s') :
    ∃ s, b.roleHosts.get? r = some s ∧ s'.array = s.array ∧ b'.Full s' ∧ b'.list s' = b.kept s name := by
  cases before : b.roleHosts.get? r with
  | none =>
    rw [deleted.noRole r before] at found
    cases found
  | some s =>
    obtain ⟨s'', found'', rest⟩ := deleted.role_list before
    rw [found''] at found
    cases found
    exact ⟨s, rfl, rest⟩

/-- Deletions keep the runtime well formed. -/
theorem WellFormed.deleted {name : String} (wf : b.WellFormed) (deleted : Deleted b b' name) : b'.WellFormed where
  all := deleted.all.1
  roles r s' found := by
    obtain ⟨s, before, array, full, -⟩ := deleted.role_before found
    refine ⟨full, ?_⟩
    rw [array, deleted.array]
    exact (wf.roles r s before).2
  apart r r' s s' found found' same := by
    obtain ⟨t, before, array, -⟩ := deleted.role_before found
    obtain ⟨t', before', array', -⟩ := deleted.role_before found'
    exact wf.apart r r' t t' before before' (array.symm.trans (same.trans array'))
  inAll r s' found n inside := by
    obtain ⟨s, before, -, -, list⟩ := deleted.role_before found
    rw [names, list, mem_kept] at inside
    rw [names, deleted.all.2, mem_kept]
    exact ⟨wf.inAll r s before n inside.1, inside.2⟩
  distinct := by
    rw [names, deleted.all.2, kept]
    exact wf.distinct.sublist (List.filter_sublist.map Host.name)
  alive h inside := by
    rw [deleted.all.2, kept, List.mem_filter] at inside
    have alive := wf.alive h inside.1
    have other : h.name ≠ name := by simpa [Host.other] using inside.2
    simp only [hostIsDeprecated, deleted.deprecatedHosts, List.contains_cons, Bool.or_eq_false_iff] at alive ⊢
    exact ⟨beq_false_of_ne other, alive⟩

/-- The role lists have the arrays that `appendRole` numbers, and the list of all hosts has the first. -/
structure Numbered (b : BaseRuntime) : Prop extends WellFormed b where
  zero : b.allHosts.array = 0
  bounded : ∀ r s, b.roleHosts.get? r = some s → s.array ≤ b.roleHosts.entries.length

/-- A runtime that differs in one array. -/
theorem hosts_of_arrays_ne {a : Nat} (same : ∀ c, c ≠ a → b'.arrays c = b.arrays c) (other : s.array ≠ a) :
    b'.hosts s = b.hosts s ∧ b'.list s = b.list s := by
  have hosts : b'.hosts s = b.hosts s := by rw [BaseRuntime.hosts, BaseRuntime.hosts, same _ other]
  exact ⟨hosts, by rw [list, list, hosts]⟩

theorem Full.of_arrays_ne {a : Nat} (same : ∀ c, c ≠ a → b'.arrays c = b.arrays c) (other : s.array ≠ a)
    (full : b.Full s) : b'.Full s := by
  obtain ⟨hosts, list⟩ := hosts_of_arrays_ne same other
  rw [Full, hosts, list]
  exact full

theorem length_entries_put (m : GoMap Slice) (r : String) (s : Slice) :
    (m.put r s).entries.length = if (m.get? r).isSome then m.entries.length else m.entries.length + 1 := by
  have keys := congrArg List.length (keys_putEntry r s m.entries)
  rw [List.length_map] at keys
  have known : (m.get? r).isSome ↔ r ∈ m.entries.map Prod.fst := GoMap.get?_isSome_iff
  by_cases there : r ∈ m.entries.map Prod.fst
  · rw [if_pos there, List.length_map] at keys
    rw [if_pos (known.mpr there)]
    exact keys
  · rw [if_neg there, List.length_append, List.length_map] at keys
    rw [if_neg fun some => there (known.mp some)]
    exact keys

/-- A role list that gets another host of the cluster, in its own array. -/
theorem Numbered.grow {r : String} (num : b.Numbered) (hs : List Host)
    (same : ∀ c, c ≠ s.array → b'.arrays c = b.arrays c) (roleHosts : b'.roleHosts = b.roleHosts.put r s)
    (all : b'.allHosts = b.allHosts) (deprecated : b'.deprecatedHosts = b.deprecatedHosts)
    (array : b'.arrays s.array = hs.map some) (len : hs.length = s.len)
    (inAll : ∀ h ∈ hs, h.name ∈ b.names b.allHosts)
    (apart : s.array ≠ 0 ∧ ∀ r' s', b.roleHosts.get? r' = some s' → r' ≠ r → s'.array ≠ s.array)
    (bounded : s.array ≤ b'.roleHosts.entries.length) : b'.Numbered := by
  have full := full_of_array (b := b') (s := s) [] (by rw [array, List.append_nil]) len
  have away : b.allHosts.array ≠ s.array := by
    rw [num.zero]
    exact apart.1.symm
  have allList := (hosts_of_arrays_ne (s := b.allHosts) same away).2
  have get : ∀ r', b'.roleHosts.get? r' = if r' = r then some s else b.roleHosts.get? r' := by
    intro r'
    rw [roleHosts, GoMap.get?_put]
  have grown : b.roleHosts.entries.length ≤ b'.roleHosts.entries.length := by
    rw [roleHosts, length_entries_put]
    split <;> omega
  refine ⟨⟨?_, ?_, ?_, ?_, ?_, ?_⟩, ?_, ?_⟩
  · rw [all]
    exact num.all.of_arrays_ne same away
  · intro r' s' found
    rw [get] at found
    split at found
    · cases found
      rw [all, num.zero]
      exact ⟨full.1, apart.1⟩
    · next other =>
      rw [all]
      obtain ⟨old, outside⟩ := num.roles r' s' found
      exact ⟨old.of_arrays_ne same (apart.2 r' s' found other), outside⟩
  · intro r₁ r₂ s₁ s₂ found₁ found₂ arrays
    rw [get] at found₁ found₂
    split at found₁ <;> split at found₂
    · next eq₁ eq₂ => rw [eq₁, eq₂]
    · next eq₁ other =>
      cases found₁
      exact absurd arrays.symm (apart.2 r₂ s₂ found₂ other)
    · next other eq₂ =>
      cases found₂
      exact absurd arrays (apart.2 r₁ s₁ found₁ other)
    · exact num.apart r₁ r₂ s₁ s₂ found₁ found₂ arrays
  · intro r' s' found n inside
    rw [names, all, allList]
    rw [get] at found
    split at found
    · cases found
      rw [names, full.2] at inside
      obtain ⟨h, there, rfl⟩ := List.mem_map.mp inside
      exact inAll h there
    · next other =>
      rw [names, (hosts_of_arrays_ne same (apart.2 r' s' found other)).2] at inside
      exact num.inAll r' s' found n inside
  · rw [names, all, allList]
    exact num.distinct
  · intro h inside
    rw [all, allList] at inside
    rw [hostIsDeprecated, deprecated]
    exact num.alive h inside
  · rw [all, num.zero]
  · intro r' s' found
    rw [get] at found
    split at found
    · cases found
      exact bounded
    · exact Nat.le_trans (num.bounded r' s' found) grown

theorem Numbered.appendRole (num : b.Numbered) (inside : host.name ∈ b.names b.allHosts) (r : String) :
    (appendRole host b r).Numbered ∧ (appendRole host b r).allHosts = b.allHosts ∧
      (appendRole host b r).names b.allHosts = b.names b.allHosts := by
  unfold BaseRuntime.appendRole
  split
  · next s found =>
    obtain ⟨full, away⟩ := num.roles r s found
    have same : ∀ c, c ≠ s.array → (b.setArray s.array (b.hosts s ++ [some host])).arrays c = b.arrays c := by
      intro c other
      simp [setArray, other]
    have array : (b.setArray s.array (b.hosts s ++ [some host])).arrays s.array = (b.list s ++ [host]).map some := by
      simp [setArray, full.1]
    refine ⟨?_, rfl, ?_⟩
    · refine num.grow (s := { s with len := s.len + 1 }) (b.list s ++ [host]) same rfl rfl rfl array ?_ ?_ ?_ ?_
      · rw [List.length_append, full.2]
        rfl
      · intro h there
        rcases List.mem_append.mp there with old | new
        · exact num.inAll r s found h.name (List.mem_map_of_mem old)
        · rw [List.mem_singleton.mp new]
          exact inside
      · rw [num.zero] at away
        exact ⟨away, fun r' s' found' other same => other (num.apart r' r s' s found' found same)⟩
      · show s.array ≤ (b.roleHosts.put r { s with len := s.len + 1 }).entries.length
        rw [length_entries_put, found]
        exact num.bounded r s found
    · exact congrArg (List.map Host.name) (hosts_of_arrays_ne (s := b.allHosts) same away.symm).2
  · next absent =>
    have same : ∀ c, c ≠ b.roleHosts.entries.length + 1 →
        (b.setArray (b.roleHosts.entries.length + 1) [some host]).arrays c = b.arrays c := by
      intro c other
      simp [setArray, other]
    have array : (b.setArray (b.roleHosts.entries.length + 1) [some host]).arrays (b.roleHosts.entries.length + 1) =
        [host].map some := by
      simp [setArray]
    refine ⟨?_, rfl, ?_⟩
    · refine num.grow (s := ⟨b.roleHosts.entries.length + 1, 1⟩) [host] same rfl rfl rfl array rfl ?_ ?_ ?_
      · intro h there
        rw [List.mem_singleton.mp there]
        exact inside
      · refine ⟨Nat.succ_ne_zero _, fun r' s' found' _ same => ?_⟩
        have below := num.bounded r' s' found'
        rw [same] at below
        exact absurd below (Nat.not_succ_le_self _)
      · show b.roleHosts.entries.length + 1 ≤ (b.roleHosts.put r _).entries.length
        rw [length_entries_put, absent]
        exact Nat.le_refl _
    · refine congrArg (List.map Host.name) (hosts_of_arrays_ne (s := b.allHosts) same ?_).2
      rw [num.zero]
      exact (Nat.succ_ne_zero _).symm

theorem Numbered.appendRoleMap (num : b.Numbered) (inside : host.name ∈ b.names b.allHosts) (roles : List String) :
    (roles.foldl (BaseRuntime.appendRole host) b).Numbered := by
  induction roles generalizing b with
  | nil => exact num
  | cons r roles ih =>
    obtain ⟨num', all, names⟩ := num.appendRole inside r
    exact ih num' (by rw [all, names]; exact inside)

theorem list_appendHost (num : b.Numbered) (host : Host) :
    (b.appendHost host).Full (b.appendHost host).allHosts ∧
      (b.appendHost host).list (b.appendHost host).allHosts = b.list b.allHosts ++ [host] := by
  refine full_of_array [] ?_ ?_
  · simp [appendHost, setArray, num.all.1]
  · rw [List.length_append, num.all.2]
    rfl

theorem Numbered.appendHost (num : b.Numbered) (other : host.name ∉ b.names b.allHosts)
    (alive : b.hostIsDeprecated host = false) : (b.appendHost host).Numbered := by
  obtain ⟨full, list⟩ := list_appendHost num host
  have same : ∀ c, c ≠ b.allHosts.array → (b.appendHost host).arrays c = b.arrays c := by
    intro c other
    simp [BaseRuntime.appendHost, setArray, other]
  refine ⟨⟨full, ?_, num.apart, ?_, ?_, ?_⟩, num.zero, num.bounded⟩
  · intro r s found
    obtain ⟨old, away⟩ := num.roles r s found
    exact ⟨old.of_arrays_ne same away, away⟩
  · intro r s found n inside
    rw [names, (hosts_of_arrays_ne same (num.roles r s found).2).2] at inside
    rw [names, list, List.map_append]
    exact List.mem_append_left _ (num.inAll r s found n inside)
  · rw [names, list, List.map_append]
    refine List.nodup_append.mpr ⟨num.distinct, List.nodup_singleton _, ?_⟩
    intro n old m new same
    rw [List.mem_singleton.mp new] at same
    exact other (same ▸ old)
  · intro h inside
    rw [list] at inside
    rcases List.mem_append.mp inside with old | new
    · exact num.alive h old
    · rw [List.mem_singleton.mp new]
      exact alive

theorem Numbered.deleted {name : String} (num : b.Numbered) (deleted : Deleted b b' name) : b'.Numbered where
  toWellFormed := num.toWellFormed.deleted deleted
  zero := deleted.array.trans num.zero
  bounded r s' found := by
    have keys : b'.roleHosts.entries.length = b.roleHosts.entries.length := by
      have perm : b'.roleHosts.keys.Perm b.roleHosts.keys := by
        refine (List.perm_ext_iff_of_nodup b'.roleHosts.distinct b.roleHosts.distinct).mpr fun r => ?_
        show r ∈ b'.roleHosts.keys ↔ r ∈ b.roleHosts.keys
        rw [← GoMap.get?_isSome_iff, ← GoMap.get?_isSome_iff]
        cases before : b.roleHosts.get? r with
        | none => rw [deleted.noRole r before]
        | some s => simp [(deleted.roles r s before).1]
      have length := perm.length_eq
      rwa [GoMap.keys, GoMap.keys, List.length_map, List.length_map] at length
    obtain ⟨s, before, array, -⟩ := deleted.role_before found
    rw [keys, array]
    exact num.bounded r s before

/-- All hosts are those of the list, because none of them is nil or deprecated. -/
theorem WellFormed.getAllHosts (wf : b.WellFormed) : b.getAllHosts = (b.list b.allHosts).map some := by
  rw [BaseRuntime.getAllHosts, wf.all.1, List.filter_eq_self]
  intro h inside
  obtain ⟨host, there, rfl⟩ := List.mem_map.mp inside
  simp [skips, wf.alive host there]

/-- The runtimes of the program are well formed. -/
theorem Built.numbered (built : b.Built) : b.Numbered := by
  induction built with
  | new ignoreErr =>
    have none : ∀ r s, (BaseRuntime.new ignoreErr).roleHosts.get? r ≠ some s := by simp [BaseRuntime.new]
    refine ⟨⟨⟨rfl, rfl⟩, ?_, ?_, ?_, List.nodup_nil, ?_⟩, rfl, ?_⟩
    · exact fun r s found => absurd found (none r s)
    · exact fun r r' s s' found => absurd found (none r s)
    · exact fun r s found => absurd found (none r s)
    · exact fun h inside => absurd inside (List.not_mem_nil)
    · exact fun r s found => absurd found (none r s)
  | @append b host _ other alive num =>
    have fresh : host.name ∉ b.names b.allHosts := by
      intro inside
      refine other ?_
      rw [num.getAllHosts, List.map_map]
      obtain ⟨h, there, same⟩ := List.mem_map.mp inside
      exact List.mem_map.mpr ⟨h, there, congrArg some same⟩
    refine (num.appendHost fresh alive).appendRoleMap ?_ host.roles
    rw [names, (list_appendHost num host).2, List.map_append]
    exact List.mem_append_right _ (List.mem_singleton_self _)
  | @delete b b' host _ ran num =>
    by_cases inside : host.name ∈ b.names b.allHosts
    · obtain ⟨b'', ran', deleted⟩ := deleteHost_spec num.toWellFormed inside
      rw [ran'] at ran
      cases ran
      exact num.deleted deleted
    · rw [deleteHost_eq num.all, if_neg inside] at ran
      cases ran

end BaseRuntime

end KubeKey.Core
