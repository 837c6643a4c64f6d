import Mathlib.Data.List.Perm.Basic
import KubeKey.Infrastructure.Inventory
import KubeKey.Variable.Expansion

/-!
# The host selectors

`pkg/controllers/infrastructure/inventory_hostselector.go`. Both selectors cut the number that is
asked for off the hosts without a group, in the order of `ConvertGroup` or shuffled, and append them
to the group. The slice of these hosts was made for all hosts of the inventory, and `slices.Delete`
leaves empty names behind what it keeps. So a number above the length of the slice is cut off with
empty names, up to the number of all hosts, and panics from there on (`selects_iff`).
-/

namespace KubeKey.Infrastructure

open KubeKey.Go KubeKey.Variable

namespace HostSelector

/-! ## The source -/

/-- The loop of `shuffleHosts`, from the index down. `rand` is what `rand.Int` answers for an index, `none` for an
error. -/
def shuffleLoop (rand : (i : Nat) → Option (Fin (i + 1))) : Nat → List String → List String
  | 0, hosts => hosts
  | i + 1, hosts =>
    match rand (i + 1) with
    | none => shuffleLoop rand i hosts
    | some j => shuffleLoop rand i (hosts.swap (i + 1) j)

/-- `shuffleHosts`. -/
def shuffleHosts (rand : (i : Nat) → Option (Fin (i + 1))) (hosts : List String) : List String :=
  shuffleLoop rand (hosts.length - 1) hosts

/-- The array of `ungrouped` in `ConvertGroup`, behind the hosts that are left. -/
def spare (inventory : InventorySpec) (ungrouped : List String) : List String :=
  List.replicate (inventory.hosts.entries.length - ungrouped.length) ""

/-- What the selectors have in common: the order of a call of `ConvertGroup`, and what is done with the slice. -/
def select (arrange : List String → List String) (order : GroupOrder) (groupName : String) (remain : Int)
    (inventory : InventorySpec) : Option (List String × InventorySpec) :=
  if 0 < remain then
    match (convertGroupIn inventory order.hosts order.names).map fun groups => groups.get? variableUnGrouped with
    | none => none
    | some none => some ([], inventory)
    | some (some ungrouped) =>
      let array := arrange ungrouped ++ spare inventory ungrouped
      if array.length < remain.toNat then none
      else
        let availableHosts := array.take remain.toNat
        some (availableHosts, setHosts inventory groupName ((groupOf inventory groupName).hosts ++ availableHosts))
  else some ([], inventory)

/-- `SequenceSelector`. -/
def sequenceSelector : GroupOrder → String → Int → InventorySpec → Option (List String × InventorySpec) := select id

/-- `RandomSelector`. -/
def randomSelector (rand : (i : Nat) → Option (Fin (i + 1))) :
    GroupOrder → String → Int → InventorySpec → Option (List String × InventorySpec) := select (shuffleHosts rand)

/-! ## The hosts that are selected -/

theorem shuffleLoop_perm (rand : (i : Nat) → Option (Fin (i + 1))) (i : Nat) (hosts : List String) :
    (shuffleLoop rand i hosts).Perm hosts := by
  induction i generalizing hosts with
  | zero => exact List.Perm.refl hosts
  | succ i ih =>
    rw [shuffleLoop]
    cases rand (i + 1) with
    | none => exact ih hosts
    | some j => exact (ih _).trans (List.swap_perm hosts (i + 1) j)

theorem shuffleHosts_perm (rand : (i : Nat) → Option (Fin (i + 1))) (hosts : List String) :
    (shuffleHosts rand hosts).Perm hosts := shuffleLoop_perm rand _ hosts

/-- The hosts that are in no group. -/
def ungrouped (inventory : InventorySpec) : List String :=
  inventory.hosts.keys.filter (isUngrouped inventory inventory.groups.keys)

/-- The selector returns different hosts of the inventory that were in no group, no more than it was asked for, and
appends them to the group; nothing else changes. -/
structure Selects (groupName : String) (remain : Int) (inventory : InventorySpec)
    (hosts : List String) (inventory' : InventorySpec) : Prop where
  few : (hosts.length : Int) ≤ max remain 0
  distinct : hosts.Nodup
  known : ∀ h ∈ hosts, h ∈ inventory.hosts.keys
  free : ∀ h ∈ hosts, ∀ gn, ¬ HasHost inventory gn h
  grown : groupOf inventory' groupName =
    { groupOf inventory groupName with hosts := (groupOf inventory groupName).hosts ++ hosts }
  kept : ∀ gn, gn ≠ groupName → inventory'.groups.get? gn = inventory.groups.get? gn
  rest : inventory'.hosts = inventory.hosts ∧ inventory'.vars = inventory.vars

/-- So many hosts without a group can be found. -/
def Enough (remain : Int) (inventory : InventorySpec) : Prop :=
  remain ≤ 0 ∨ AcyclicGroups inventory ∧ remain ≤ (ungrouped inventory).length

section Select
variable {inventory : InventorySpec} {order : GroupOrder} {arrange : List String → List String} {groupName : String}
  {remain : Int}

theorem mem_ungrouped (acyclic : AcyclicGroups inventory) {h : String} :
    h ∈ ungrouped inventory ↔ h ∈ inventory.hosts.keys ∧ ∀ gn, ¬ HasHost inventory gn h := by
  rw [ungrouped, List.mem_filter, isUngrouped_iff acyclic]
  refine and_congr_right fun _ => ⟨fun free gn has => ?_, fun free gn _ => free gn⟩
  obtain ⟨v, found, -⟩ := hasHost_iff.mp has
  exact free gn (GoMap.get?_isSome_iff.mp (by rw [found]; rfl)) has

/-- What is cut off the slice. -/
theorem select_eq (acyclic : AcyclicGroups inventory) (of : order.Of inventory) (positive : 0 < remain) :
    ∃ u : List String, u.Perm (ungrouped inventory) ∧ select arrange order groupName remain inventory =
      if (arrange u ++ spare inventory u).length < remain.toNat then none
      else some ((arrange u ++ spare inventory u).take remain.toNat, setHosts inventory groupName
        ((groupOf inventory groupName).hosts ++ (arrange u ++ spare inventory u).take remain.toNat)) := by
  obtain ⟨groups, expanded, entry⟩ := convertGroupIn_entry acyclic of
  refine ⟨order.hosts.filter (isUngrouped inventory inventory.groups.keys), of.hosts.filter _, ?_⟩
  have here : groups.get? variableUnGrouped =
      some (order.hosts.filter (isUngrouped inventory inventory.groups.keys)) := by
    rw [entry, groupEntry, if_pos rfl]
  rw [select, if_pos positive, expanded, Option.map_some, here]

theorem select_none (of : order.Of inventory) (positive : 0 < remain) (cyclic : ¬ AcyclicGroups inventory) :
    select arrange order groupName remain inventory = none := by
  have stuck : convertGroupIn inventory order.hosts order.names = none := by
    rw [← Option.not_isSome_iff_eq_none, convertGroupIn_isSome_iff of]
    exact cyclic
  rw [select, if_pos positive, stuck]
  rfl

theorem groupOf_setHosts (inventory : InventorySpec) (groupName : String) (hosts : List String) :
    groupOf (setHosts inventory groupName hosts) groupName = { groupOf inventory groupName with hosts := hosts } := by
  rw [groupOf, setHosts, GoMap.get?_put_self, Option.getD_some]

theorem selects_of_perm {u : List String} (acyclic : AcyclicGroups inventory) (perm : u.Perm (ungrouped inventory)) :
    Selects groupName remain inventory (u.take remain.toNat)
      (setHosts inventory groupName ((groupOf inventory groupName).hosts ++ u.take remain.toNat)) where
  few := by
    have taken := List.length_take_le remain.toNat u
    omega
  distinct := (perm.nodup_iff.mpr (inventory.hosts.distinct.filter _)).sublist (List.take_sublist _ _)
  known h taken := ((mem_ungrouped acyclic).mp (perm.mem_iff.mp (List.mem_of_mem_take taken))).1
  free h taken := ((mem_ungrouped acyclic).mp (perm.mem_iff.mp (List.mem_of_mem_take taken))).2
  grown := groupOf_setHosts inventory groupName _
  kept _ other := GoMap.get?_put_ne _ _ other
  rest := ⟨rfl, rfl⟩

theorem selects_nothing : Selects groupName remain inventory [] inventory where
  few := le_max_right _ _
  distinct := List.nodup_nil
  known _ inside := absurd inside List.not_mem_nil
  free _ inside := absurd inside List.not_mem_nil
  grown := by rw [List.append_nil]
  kept _ _ := rfl
  rest := ⟨rfl, rfl⟩

/-- What a call does to the inventory. -/
theorem select_cases {hosts : List String} {inventory' : InventorySpec}
    (selected : select arrange order groupName remain inventory = some (hosts, inventory')) :
    hosts = [] ∧ inventory' = inventory ∨
      inventory' = setHosts inventory groupName ((groupOf inventory groupName).hosts ++ hosts) := by
  unfold select at selected
  split at selected
  · split at selected
    · cases selected
    · cases selected
      exact .inl ⟨rfl, rfl⟩
    · dsimp only at selected
      split at selected
      · cases selected
      · cases selected
        exact .inr rfl
  · cases selected
    exact .inl ⟨rfl, rfl⟩

/-- A call is safe exactly if enough hosts without a group can be found. -/
theorem select_iff (arranged : ∀ u : List String, (arrange u).Perm u) (of : order.Of inventory) :
    (∃ hosts inventory', select arrange order groupName remain inventory = some (hosts, inventory') ∧
      Selects groupName remain inventory hosts inventory') ↔ Enough remain inventory := by
  by_cases positive : 0 < remain
  · constructor
    · rintro ⟨hosts, inventory', selected, safe⟩
      by_cases acyclic : AcyclicGroups inventory
      · obtain ⟨u, perm, cut⟩ := @select_eq inventory order arrange groupName remain acyclic of positive
        refine .inr ⟨acyclic, ?_⟩
        by_contra more
        rw [cut] at selected
        split at selected
        · cases selected
        · next long =>
          rw [Option.some.injEq, Prod.mk.injEq] at selected
          obtain ⟨rfl, -⟩ := selected
          -- One empty name at least is cut off with the hosts.
          have sizes : u.length = (ungrouped inventory).length := perm.length_eq
          have size : (arrange u).length = u.length := (arranged u).length_eq
          rw [List.length_append] at long
          have behind : (arrange u ++ spare inventory u).take remain.toNat =
              arrange u ++ (spare inventory u).take (remain.toNat - (arrange u).length) := by
            rw [List.take_append, List.take_of_length_le (by omega)]
          have empty : "" ∈ (spare inventory u).take (remain.toNat - (arrange u).length) := by
            rw [spare, List.take_replicate, List.mem_replicate]
            rw [spare, List.length_replicate] at long
            exact ⟨by omega, rfl⟩
          rw [behind] at safe
          have free := (mem_ungrouped acyclic).mpr
            ⟨safe.known "" (List.mem_append_right _ empty), safe.free "" (List.mem_append_right _ empty)⟩
          have inside : "" ∈ arrange u := (arranged u).mem_iff.mpr (perm.mem_iff.mpr free)
          exact (List.nodup_append.mp safe.distinct).2.2 "" inside "" empty rfl
      · rw [select_none of positive acyclic] at selected
        cases selected
    · intro enough
      obtain ⟨acyclic, enough⟩ := enough.resolve_left (not_le.mpr positive)
      obtain ⟨u, perm, cut⟩ := @select_eq inventory order arrange groupName remain acyclic of positive
      have size : (arrange u).length = (ungrouped inventory).length := ((arranged u).trans perm).length_eq
      have front : (arrange u ++ spare inventory u).take remain.toNat = (arrange u).take remain.toNat :=
        List.take_append_of_le_length (by omega)
      refine ⟨_, _, ?_, selects_of_perm acyclic ((arranged u).trans perm)⟩
      rw [cut, front, if_neg]
      rw [List.length_append]
      omega
  · have none_ : remain ≤ 0 := not_lt.mp positive
    refine ⟨fun _ => .inl none_, fun _ => ⟨[], inventory, ?_, selects_nothing⟩⟩
    rw [select, if_neg positive]

end Select

end HostSelector

end KubeKey.Infrastructure
