import KubeKey.ControlPlane.K3s
import Mathlib.Data.List.Nodup

/-!
# Rolling safety of the K3s control plane

Every reconcile makes at most one write to a Machine, only where no machine is being
deleted, deletes only where all others are healthy, and stays within the bounds of the
rollout (`Safe`). The bound of a rollout is a sum of 32-bit integers: the bounds hold as
long as it does not wrap around (`Fits`).
-/

namespace KubeKey.ControlPlane

open KubeKey.Go

/-- The `maxSurge` of the rollout strategy. -/
def K3sControlPlane.maxSurge (kcp : K3sControlPlane) : Int := (kcp.rolloutStrategy.bind RolloutStrategy.maxSurge).getD 0

/-- The machines left when the named one is gone. -/
def others (machines : List Machine) (name : String) : List Machine := machines.filter fun m => m.name ≠ name

/-- A rollout is going on. -/
def Rollout (kcp : K3sControlPlane) (reconciliationTime : Int) (machines : List Machine) : Prop :=
  machinesNeedingRollout kcp reconciliationTime machines ≠ []

/-- What a reconcile of the owned machines may do. -/
structure Safe (kcp : K3sControlPlane) (reconciliationTime : Int) (machines : List Machine) (writes : List Write) :
    Prop where
  one : (writes.filter Write.ofMachine).length ≤ 1
  initialised : ∀ fd, .createMachine .init fd ∈ writes → machines = []
  joinSettled : ∀ fd, .createMachine .join fd ∈ writes → ∀ m ∈ machines, m.deleting = false
  deleteSettled : ∀ name, .deleteMachine name ∈ writes → ∀ m ∈ machines, m.deleting = false
  healthy : ∀ name, .deleteMachine name ∈ writes → ∀ m ∈ others machines name, m.agentHealthy = some .conditionTrue
  left : ∀ name, .deleteMachine name ∈ writes → ¬ Rollout kcp reconciliationTime machines →
    kcp.replicas.toInt ≤ (others machines name).length
  leftInRollout : ∀ name, .deleteMachine name ∈ writes → Rollout kcp reconciliationTime machines →
    kcp.replicas.toInt + kcp.maxSurge - 1 ≤ (others machines name).length
  joined : ∀ fd, .createMachine .join fd ∈ writes → Rollout kcp reconciliationTime machines →
    (machines.length : Int) + 1 ≤ kcp.replicas.toInt + kcp.maxSurge

/-- The bound of a rollout and the number of machines are 32-bit integers. -/
structure Fits (kcp : K3sControlPlane) (machines : List Machine) : Prop where
  low : -2147483648 ≤ kcp.replicas.toInt + kcp.maxSurge
  high : kcp.replicas.toInt + kcp.maxSurge < 2147483648
  machines : machines.length < 2147483648

theorem maxNodes_toInt {kcp : K3sControlPlane} {machines : List Machine} (fits : Fits kcp machines) :
    (maxNodes kcp.replicas kcp.maxSurge).toInt = kcp.replicas.toInt + kcp.maxSurge := by
  have low := fits.low
  have high := fits.high
  rw [maxNodes, Int32.toInt_add, Int32.toInt_ofInt, Int32.size, Int.add_bmod_bmod]
  exact Int.bmod_eq_of_le (by omega) (by omega)

theorem length_toInt {kcp : K3sControlPlane} {machines : List Machine} (fits : Fits kcp machines) :
    (Int32.ofNat machines.length).toInt = machines.length := by
  have few := fits.machines
  rw [Int32.toInt_ofNat', Int32.size]
  exact Int.bmod_eq_of_le (by omega) (by omega)

/-- The comparison of a rollout is the one of the numbers. -/
theorem lt_maxNodes_iff {kcp : K3sControlPlane} {machines : List Machine} (fits : Fits kcp machines) :
    Int32.ofNat machines.length < maxNodes kcp.replicas kcp.maxSurge ↔
      (machines.length : Int) < kcp.replicas.toInt + kcp.maxSurge := by
  rw [Int32.lt_iff_toInt_lt, maxNodes_toInt fits, length_toInt fits]

/-- Past the preflight checks no machine is being deleted, and all but the excluded ones are healthy. -/
theorem preflightChecks_spec {machines excludeFor : List Machine}
    (passed : preflightChecks machines excludeFor = true) :
    (∀ m ∈ machines, m.deleting = false) ∧ ∀ m ∈ machines, (∀ e ∈ excludeFor, m.name ≠ e.name) →
      m.agentHealthy = some .conditionTrue := by
  unfold preflightChecks at passed
  split at passed
  · next empty => simp [empty]
  · split at passed
    · cases passed
    · next settled =>
      refine ⟨fun m inside => ?_, fun m inside included => ?_⟩
      · by_contra deleting
        exact settled (List.any_eq_true.mpr ⟨m, inside, by simpa using deleting⟩)
      · rcases Bool.or_eq_true_iff.mp (List.all_eq_true.mp passed m inside) with excluded | healthy
        · obtain ⟨e, listed, same⟩ := List.any_eq_true.mp excluded
          exact absurd (by simpa using same) (included e listed)
        · unfold preflightCheckCondition at healthy
          split at healthy
          · cases healthy
          · cases healthy
          · cases healthy
          · assumption

theorem needing_subset {kcp : K3sControlPlane} {reconciliationTime : Int} {machines : List Machine} :
    machinesNeedingRollout kcp reconciliationTime machines ⊆ machines :=
  fun _ inside => List.mem_of_mem_filter (List.mem_of_mem_filter inside)

/-- The machine to delete is an owned one. -/
theorem selectMachineForScaleDown_mem {picks : Picks} {reads : Reads} {machines outdatedMachines : List Machine}
    (outdated : outdatedMachines ⊆ machines) {m : Machine}
    (selected : selectMachineForScaleDown picks reads machines outdatedMachines = some m) : m ∈ machines := by
  have candidate := List.mem_of_mem_filter (picks.oldest_mem selected)
  split at candidate
  · exact outdated (List.mem_of_mem_filter candidate)
  · split at candidate
    · exact List.mem_of_mem_filter candidate
    · split at candidate
      · exact outdated candidate
      · exact candidate

theorem others_length {machines : List Machine} (names : (machines.map Machine.name).Nodup) {m : Machine}
    (inside : m ∈ machines) : (others machines m.name).length + 1 = machines.length := by
  have one : (machines.filter fun n => n.name = m.name).length = 1 := by
    have only : machines.filter (fun n => n.name = m.name) = [m] := by
      refine List.perm_singleton.mp ((List.perm_ext_iff_of_nodup ?_ (List.nodup_singleton m)).mpr fun n => ?_)
      · exact names.of_map.filter _
      · rw [List.mem_filter, List.mem_singleton]
        constructor
        · rintro ⟨here, same⟩
          exact List.inj_on_of_nodup_map names here inside (by simpa using same)
        · rintro rfl
          exact ⟨inside, by simp⟩
    rw [only]
    rfl
  have parts := machines.length_eq_length_filter_add fun n => n.name = m.name
  rw [one] at parts
  have same : machines.filter (fun n => !decide (n.name = m.name)) = others machines m.name :=
    List.filter_congr fun n _ => by simp
  rw [same] at parts
  omega

namespace Safe

variable {kcp : K3sControlPlane} {reads : Reads} {reconciliationTime : Int} {machines : List Machine}

theorem nil : Safe kcp reconciliationTime machines [] := by
  constructor <;> simp

/-- The only write to a machine is its creation. -/
theorem clone_writes (reads : Reads) (path : Path) (fd : Option String) :
    ((cloneConfigsAndGenerateMachine reads path fd).filter Write.ofMachine).length ≤ 1 ∧
      ∀ w ∈ cloneConfigsAndGenerateMachine reads path fd, w.ofMachine = true → w = .createMachine path fd := by
  unfold cloneConfigsAndGenerateMachine
  split
  · simp [Write.ofMachine]
  · split
    · simp [Write.ofMachine]
    · split <;> exact ⟨Nat.le_refl 1, by simp [Write.ofMachine]⟩

/-- A creation. -/
theorem create {path : Path} {fd : Option String} (init : path = .init → machines = [])
    (settled : path = .join → ∀ m ∈ machines, m.deleting = false)
    (joined : path = .join → Rollout kcp reconciliationTime machines →
      (machines.length : Int) + 1 ≤ kcp.replicas.toInt + kcp.maxSurge) :
    Safe kcp reconciliationTime machines (cloneConfigsAndGenerateMachine reads path fd) := by
  obtain ⟨one, only⟩ := clone_writes reads path fd
  have no_delete : ∀ name, .deleteMachine name ∉ cloneConfigsAndGenerateMachine reads path fd := by
    intro name inside
    cases only _ inside rfl
  refine ⟨one, ?_, ?_, ?_, ?_, ?_, ?_, ?_⟩
  · intro fd' inside
    cases only _ inside rfl
    exact init rfl
  · intro fd' inside
    cases only _ inside rfl
    exact settled rfl
  · intro name inside
    exact absurd inside (no_delete name)
  · intro name inside
    exact absurd inside (no_delete name)
  · intro name inside
    exact absurd inside (no_delete name)
  · intro name inside
    exact absurd inside (no_delete name)
  · intro fd' inside
    cases only _ inside rfl
    exact joined rfl

/-- A deletion of a machine that passes the preflight checks. -/
theorem delete (names : (machines.map Machine.name).Nodup) {m : Machine} (inside : m ∈ machines)
    (passed : preflightChecks machines [m] = true)
    (enough : ¬ Rollout kcp reconciliationTime machines → kcp.replicas.toInt < machines.length)
    (enoughInRollout : Rollout kcp reconciliationTime machines → kcp.replicas.toInt + kcp.maxSurge ≤ machines.length) :
    Safe kcp reconciliationTime machines [.deleteMachine m.name] := by
  obtain ⟨settled, healthy⟩ := preflightChecks_spec passed
  have left := others_length names inside
  refine ⟨Nat.le_refl 1, by simp, by simp, fun _ _ => settled, ?_, ?_, ?_, by simp⟩
  · intro name only n other
    cases List.mem_singleton.mp only
    obtain ⟨here, different⟩ := List.mem_filter.mp other
    exact healthy n here fun e excluded => by
      rw [List.mem_singleton.mp excluded]
      simpa using different
  · intro name only calm
    cases List.mem_singleton.mp only
    have more := enough calm
    omega
  · intro name only rollout
    cases List.mem_singleton.mp only
    have more := enoughInRollout rollout
    omega

end Safe

section Reconcile

variable {picks : Picks} {kcp : K3sControlPlane} {reads : Reads} {machines : List Machine}

theorem scaleUp_safe (joined : Rollout kcp reads.reconciliationTime machines →
      (machines.length : Int) + 1 ≤ kcp.replicas.toInt + kcp.maxSurge) :
    Safe kcp reads.reconciliationTime machines (scaleUpControlPlane picks kcp reads machines) := by
  unfold scaleUpControlPlane
  split
  · next passed =>
    exact .create (by simp) (fun _ => (preflightChecks_spec passed).1) (fun _ => joined)
  · exact .nil

theorem scaleDown_safe (names : (machines.map Machine.name).Nodup) {outdatedMachines : List Machine}
    (outdated : outdatedMachines ⊆ machines)
    (enough : ¬ Rollout kcp reads.reconciliationTime machines → kcp.replicas.toInt < machines.length)
    (enoughInRollout : Rollout kcp reads.reconciliationTime machines →
      kcp.replicas.toInt + kcp.maxSurge ≤ machines.length) :
    Safe kcp reads.reconciliationTime machines (scaleDownControlPlane picks reads machines outdatedMachines) := by
  unfold scaleDownControlPlane
  split
  · exact .nil
  · next m selected =>
    split
    · next passed =>
      exact .delete names (selectMachineForScaleDown_mem outdated selected) passed enough enoughInRollout
    · exact .nil

theorem upgrade_safe (names : (machines.map Machine.name).Nodup)
    (rollout : Rollout kcp reads.reconciliationTime machines) (fits : Fits kcp machines) :
    Safe kcp reads.reconciliationTime machines (upgradeControlPlane picks kcp reads machines
      (machinesNeedingRollout kcp reads.reconciliationTime machines)) := by
  unfold upgradeControlPlane
  split
  · next maxSurge strategy =>
    have surge : kcp.maxSurge = maxSurge := by simp [K3sControlPlane.maxSurge, strategy]
    rw [← surge]
    split
    · next less =>
      refine scaleUp_safe fun _ => ?_
      have less := (lt_maxNodes_iff fits).mp less
      omega
    · next most =>
      refine scaleDown_safe names needing_subset (fun calm => absurd rollout calm) fun _ => ?_
      have most := mt (lt_maxNodes_iff fits).mpr most
      omega
  · exact .nil

/-- A reconcile of the owned machines is safe, if the bound of a rollout fits. -/
theorem reconcileMachines_safe (names : (machines.map Machine.name).Nodup)
    (fits : Rollout kcp reads.reconciliationTime machines → Fits kcp machines) :
    Safe kcp reads.reconciliationTime machines (reconcileMachines picks kcp reads machines) := by
  unfold reconcileMachines
  simp only
  split
  · next rollout => exact upgrade_safe names rollout (fits rollout)
  · next calm =>
    split
    · next first =>
      unfold initializeControlPlane
      split
      · exact .nil
      · refine .create (fun _ => ?_) (by simp) (by simp)
        have none := first.2
        exact List.length_eq_zero_iff.mp (by omega)
    · split
      · exact scaleUp_safe fun rollout => absurd rollout calm
      · split
        · next more =>
          exact scaleDown_safe names (List.nil_subset machines) (fun _ => more) fun rollout => absurd rollout calm
        · exact .nil

end Reconcile

namespace System

variable {picks : Picks} {s s' : System} {a : Act}

/-- The condition on a reconcile: in a rollout the bound fits. -/
def Fitting (s : System) : Act → Prop
  | .reconcile reads => ∀ machines, ownedMachines reads s.machines = some machines →
      Rollout s.kcp reads.reconciliationTime machines → Fits s.kcp machines
  | _ => True

/-- The reconcile is safe. -/
def SafeStep (picks : Picks) (s : System) : Act → Prop
  | .reconcile reads => ∀ machines, ownedMachines reads s.machines = some machines →
      Safe s.kcp reads.reconciliationTime machines (reconcileMachines picks s.kcp reads machines)
  | _ => True

/-- The machines have names of their own. -/
def Named (s : System) : Prop := (s.machines.map Machine.name).Nodup

theorem ownedMachines_names {reads : Reads} {controlPlaneMachines machines : List Machine}
    (owned : ownedMachines reads controlPlaneMachines = some machines) :
    machines.map Machine.name = controlPlaneMachines.map Machine.name := by
  have observed : machines = reads.observe controlPlaneMachines := by
    unfold ownedMachines at owned
    repeat' split at owned
    all_goals cases owned
    rfl
  rw [observed]
  unfold Reads.observe
  split
  · rfl
  · rw [List.map_map]
    rfl

theorem nodup_append_name {machines : List Machine} {m : Machine} (names : (machines.map Machine.name).Nodup)
    (new : m.name ∉ machines.map Machine.name) : ((machines ++ [m]).map Machine.name).Nodup := by
  rw [List.map_append, List.map_singleton]
  refine List.nodup_append.mpr ⟨names, List.nodup_singleton _, fun name old name' own => ?_⟩
  rw [List.mem_singleton.mp own]
  exact fun same => new (same ▸ old)

theorem map_names {machines : List Machine} {f : Machine → Machine} (same : ∀ m, (f m).name = m.name) :
    (machines.map f).map Machine.name = machines.map Machine.name := by
  rw [List.map_map]
  exact List.map_congr_left fun m _ => same m

theorem carryOut_names {kcp : K3sControlPlane} {reads : Reads} {machines : List Machine}
    (names : (machines.map Machine.name).Nodup) (w : Write) :
    ((w.carryOut kcp reads machines).map Machine.name).Nodup := by
  cases w with
  | createMachine path fd =>
    simp only [Write.carryOut]
    split
    · exact names
    · next free => exact nodup_append_name names fun taken => free (.inr taken)
  | deleteMachine name =>
    simp only [Write.carryOut]
    split
    · exact names
    · rw [map_names fun m => by split <;> rfl]
      exact names
  | cloneTemplate | generateConfig | cleanupTemplate | cleanupConfig => exact names

theorem foldl_names {kcp : K3sControlPlane} {reads : Reads} (writes : List Write) {machines : List Machine}
    (names : (machines.map Machine.name).Nodup) :
    ((writes.foldl (Write.carryOut kcp reads) machines).map Machine.name).Nodup := by
  induction writes generalizing machines with
  | nil => exact names
  | cons w writes ih => exact ih (carryOut_names names w)

theorem Named.step (named : Named s) (taken : s.step picks a = some s') : Named s' := by
  cases a with
  | reconcile reads =>
    simp only [System.step] at taken
    split at taken
    · cases taken
      exact named
    · next machines owned =>
      cases taken
      refine foldl_names _ ?_
      rw [ownedMachines_names owned]
      exact named
  | specChanged kcp =>
    cases taken
    exact named
  | machineChanged machine =>
    cases taken
    have same : ∀ m : Machine, (if m.name = machine.name then machine else m).name = m.name := by
      intro m
      split
      · next here => exact here.symm
      · rfl
    unfold Named
    rw [map_names same]
    exact named
  | machineAdded machine =>
    simp only [System.step] at taken
    split at taken
    · cases taken
    · next new =>
      cases taken
      exact nodup_append_name named new
  | machineRemoved name =>
    cases taken
    exact named.sublist (List.filter_sublist.map _)

theorem Named.safe (named : Named s) (fitting : Fitting s a) : SafeStep picks s a := by
  cases a with
  | reconcile reads =>
    intro machines owned
    exact reconcileMachines_safe (ownedMachines_names owned ▸ named) (fitting machines owned)
  | specChanged | machineChanged | machineAdded | machineRemoved => trivial

/-- In every run whose rollouts fit, every reconcile is safe. -/
theorem rolling_safe (picks : Picks) (s : System) (named : Named s) (acts : List Act)
    (fitting : Along (System.step picks) Fitting s acts) : Along (System.step picks) (SafeStep picks) s acts :=
  Along.strengthen (fun _ _ _ named _ taken => Named.step named taken)
    (fun _ _ named fitting => Named.safe named fitting) named fitting

/-- Picks the first. -/
def firstPicks : Picks where
  oldest := List.head?
  oldest_mem first := List.mem_of_head? first
  pickMost _ _ _ := none
  pickFewest _ _ := none

/-- A machine of the version before. -/
def outdated : Machine := ⟨"m1", .kcp, false, 0, some "v1.20.0", .empty, .empty, none, some .conditionTrue, none⟩

def kcpOf (replicas : Int32) : K3sControlPlane :=
  ⟨"c", replicas, "v1.21.0", .empty, .empty, "t", "T", "", none, some ⟨true, some 1⟩⟩

def answered : Reads := ⟨true, true, true, none, true, 1, [], true, .ok, .ok, .ok, "m2", .ok⟩

/-- A control plane of one machine is joined by a second one. -/
theorem rolling_safe_join : ((⟨kcpOf 1, [outdated]⟩ : System).step firstPicks (.reconcile answered)).map
      (fun s => s.machines.map Machine.name) = some ["m1", "m2"] ∧
    Along (System.step firstPicks) (SafeStep firstPicks) ⟨kcpOf 1, [outdated]⟩ [.reconcile answered] := by
  refine ⟨by decide, rolling_safe firstPicks ⟨kcpOf 1, [outdated]⟩ (List.nodup_singleton _) [.reconcile answered]
    ⟨fun machines owned _ => ?_, fun _ _ => trivial⟩⟩
  cases owned
  exact ⟨by decide, by decide, by decide⟩

/-- The bound wraps around, and the only machine is deleted. -/
theorem only_machine_deleted :
    reconcileMachines firstPicks (kcpOf 2147483647) answered [outdated] = [.deleteMachine "m1"] ∧
      ¬ SafeStep firstPicks ⟨kcpOf 2147483647, [outdated]⟩ (.reconcile answered) := by
  have deletes : reconcileMachines firstPicks (kcpOf 2147483647) answered [outdated] = [.deleteMachine "m1"] := by
    decide
  refine ⟨deletes, fun safe => ?_⟩
  have bound := (safe [outdated] rfl).leftInRollout "m1" (by rw [deletes]; simp) (by
    intro none
    have length := congrArg List.length none
    revert length
    decide)
  revert bound
  decide

end System

end KubeKey.ControlPlane
