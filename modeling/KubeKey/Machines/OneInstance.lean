import KubeKey.Machines.Reconcile
import Mathlib.Data.List.Nodup

/-!
# One instance per machine

The KKInstances of a KKCluster have internal addresses of their own in every run: a
KKInstance is named after its node, and `Create` refuses a name that is taken. That a
KKMachine has one KKInstance created for it rests on its provider ID, which is stored by
the final patch only (`Persisted`): when the patch, or the answer to `Create`, is lost after
a creation, the next reconcile creates another one.
-/

namespace KubeKey.Machines

open KubeKey.Go

/-- What `createInstance` creates. -/
structure Made (cluster : KKCluster) (kkMachine : KKMachine) (instances : List KKInstance) (i : KKInstance) : Prop where
  info : i.spec ∈ cluster.instances
  name : i.name = i.spec.name
  new : i.name ∉ instances.map KKInstance.name
  controller : i.controller = some kkMachine.uid

theorem mem_instances_of_mem_specs {cluster : KKCluster} {roles : List String} {spec : InstanceInfo}
    (inside : spec ∈ roles.flatMap (getInstancesSpecByRole cluster)) : spec ∈ cluster.instances := by
  obtain ⟨role, -, here⟩ := List.mem_flatMap.mp inside
  obtain ⟨info, listed, copies⟩ := List.mem_flatMap.mp here
  obtain ⟨_, -, rfl⟩ := List.mem_map.mp copies
  exact listed

theorem createInstance_created {cluster : KKCluster} {kkMachine : KKMachine} {reads : Reads} {answers : Answers}
    {instances : List KKInstance} {i : KKInstance} {answered : Bool}
    (created : createInstance cluster kkMachine reads answers instances = .created i answered) :
    Made cluster kkMachine instances i ∧ answered = decide (answers.create = .ok) := by
  unfold createInstance at created
  split at created
  · cases created
  · split at created
    · cases created
    · split at created
      · cases created
      · next spec found =>
        split at created
        · cases created
        · next free =>
          cases created
          exact ⟨⟨mem_instances_of_mem_specs (List.mem_of_find?_eq_some found), rfl,
            fun taken => free (.inr taken), rfl⟩, rfl⟩

/-- The KKMachine has a provider ID. -/
def KKMachine.Linked (kkMachine : KKMachine) : Prop := kkMachine.providerID.getD "" ≠ ""

theorem assign_linked (kkMachine : KKMachine) (clusterName : String) (i : KKInstance) :
    (kkMachine.assign clusterName i).Linked := by
  intro empty
  have length := congrArg String.length empty
  simp [KKMachine.assign, String.length_append] at length

/-- What a reconcile does before `Close`: it creates nothing and keeps a provider ID, or it creates a KKInstance for a
KKMachine without one. -/
inductive Body.Spec (newProviderID : String → Except ProviderIDError String) (cluster : KKCluster)
    (kkMachine : KKMachine) (answers : Answers) (instances : List KKInstance) (body : Body) : Prop where
  | kept (created : body.created = none) (memory : kkMachine.Linked → body.kkMachine.Linked)
  | created (i : KKInstance) (created : body.created = some i) (made : Made cluster kkMachine instances i)
      (empty : newProviderID (kkMachine.providerID.getD "") = .error .empty)
      (answered : answers.create = .ok → body.kkMachine.Linked)

/-- The KKMachine in memory and the stored one are the one that was read, and the stored one has its provider ID. -/
structure Body.Of (kkMachine : KKMachine) (body : Body) : Prop where
  memory : body.kkMachine.uid = kkMachine.uid
  stored : body.stored.uid = kkMachine.uid
  providerID : body.stored.providerID = kkMachine.providerID

section Body

variable {newProviderID : String → Except ProviderIDError String} {cluster : KKCluster} {clusterName : String}
  {kkMachine : KKMachine} {reads : Reads} {answers : Answers} {instances : List KKInstance}

theorem assignInstance_of {memory stored : KKMachine} (found : Option KKInstance)
    (uid : memory.uid = kkMachine.uid) (uid' : stored.uid = kkMachine.uid)
    (providerID : stored.providerID = kkMachine.providerID) :
    (assignInstance cluster clusterName memory stored reads answers instances found).Of kkMachine := by
  cases found with
  | some i => exact ⟨uid, uid', providerID⟩
  | none =>
    simp only [assignInstance]
    split <;> exact ⟨uid, uid', providerID⟩

/-- The instance that was found is assigned, or one is created if there is no provider ID. -/
theorem assignInstance_spec {memory stored : KKMachine} {found : Option KKInstance}
    (uid : memory.uid = kkMachine.uid) (providerID : memory.providerID = kkMachine.providerID)
    (empty : found = none → newProviderID (kkMachine.providerID.getD "") = .error .empty) :
    (assignInstance cluster clusterName memory stored reads answers instances found).Spec newProviderID cluster
      kkMachine answers instances := by
  have keeps : kkMachine.Linked → memory.Linked := by
    intro linked
    rwa [KKMachine.Linked, providerID]
  cases found with
  | some i => exact .kept rfl fun _ => assign_linked memory clusterName i
  | none =>
    simp only [assignInstance]
    cases creation : createInstance cluster memory reads answers instances with
    | failed => exact .kept rfl keeps
    | error => exact .kept rfl keeps
    | created i answered =>
      obtain ⟨made, answer⟩ := createInstance_created creation
      have mine : Made cluster kkMachine instances i := ⟨made.info, made.name, made.new, by rw [made.controller, uid]⟩
      cases answered with
      | true => exact .created i rfl mine (empty rfl) fun _ => assign_linked memory clusterName i
      | false =>
        refine .created i rfl mine (empty rfl) fun ok => ?_
        simp [ok] at answer

theorem findInstance_none {answered : Bool}
    (found : findInstance newProviderID kkMachine instances answered = .ok none) :
    newProviderID (kkMachine.providerID.getD "") = .error .empty := by
  unfold findInstance at found
  split at found
  · next empty => exact empty
  · cases found
  · split at found
    · cases found
    · split at found <;> cases found

theorem reconcileNormal_spec :
    (reconcileNormal newProviderID cluster clusterName kkMachine reads answers instances).Of kkMachine ∧
      (reconcileNormal newProviderID cluster clusterName kkMachine reads answers instances).Spec newProviderID cluster
        kkMachine answers instances := by
  unfold reconcileNormal
  split
  · exact ⟨⟨rfl, rfl, rfl⟩, .kept rfl id⟩
  · split
    · exact ⟨⟨rfl, rfl, rfl⟩, .kept rfl id⟩
    · next found look =>
      have empty : found = none → newProviderID (kkMachine.providerID.getD "") = .error .empty := by
        intro none
        exact findInstance_none (none ▸ look)
      simp only
      split
      · exact ⟨assignInstance_of found rfl rfl rfl, assignInstance_spec rfl rfl empty⟩
      · split
        · exact ⟨assignInstance_of found rfl rfl rfl, assignInstance_spec rfl rfl empty⟩
        · refine ⟨⟨rfl, ?_, ?_⟩, .kept rfl id⟩
          · unfold Reply.write
            split <;> rfl
          · unfold Reply.write
            split <;> rfl

theorem reconcileDelete_spec : (reconcileDelete newProviderID kkMachine answers instances).Of kkMachine ∧
    (reconcileDelete newProviderID kkMachine answers instances).Spec newProviderID cluster kkMachine answers
      instances := by
  unfold reconcileDelete
  split
  · exact ⟨⟨rfl, rfl, rfl⟩, .kept rfl id⟩
  · split <;> exact ⟨⟨rfl, rfl, rfl⟩, .kept rfl id⟩

theorem body_spec (newProviderID : String → Except ProviderIDError String) (cluster : KKCluster) (clusterName : String)
    (s : System) (kkMachine : KKMachine) (reads : Reads) (answers : Answers) :
    (s.body newProviderID cluster clusterName kkMachine reads answers).Of kkMachine ∧
      (s.body newProviderID cluster clusterName kkMachine reads answers).Spec newProviderID cluster kkMachine answers
        s.instances := by
  unfold System.body
  split
  · exact reconcileDelete_spec
  · exact reconcileNormal_spec

theorem close_uid {body : Body} (of : body.Of kkMachine) : (body.close answers).uid = kkMachine.uid := by
  unfold Body.close Reply.write
  split
  · exact of.stored
  · exact of.memory

/-- A provider ID that is stored, or one that is in memory and gets patched. -/
theorem close_linked {body : Body} (stored : answers.close = .refused → body.stored.Linked)
    (memory : answers.close ≠ .refused → body.kkMachine.Linked) : (body.close answers).Linked := by
  unfold Body.close Reply.write
  split
  · next refused => exact stored refused
  · next written => exact memory written

end Body

namespace System

variable {newProviderID : String → Except ProviderIDError String} {cluster : KKCluster} {clusterName : String}
  {s s' : System} {a : Act}

theorem mem_store {kkMachines : List KKMachine} {k kkMachine : KKMachine} (inside : k ∈ store kkMachines kkMachine) :
    k = kkMachine ∨ k ∈ kkMachines ∧ k.uid ≠ kkMachine.uid := by
  obtain ⟨old, here, made⟩ := List.mem_map.mp (List.mem_of_mem_filter inside)
  by_cases same : old.uid = kkMachine.uid
  · rw [if_pos same] at made
    exact .inl made.symm
  · rw [if_neg same] at made
    subst made
    exact .inr ⟨here, same⟩

theorem store_uids (kkMachines : List KKMachine) (kkMachine : KKMachine) :
    (store kkMachines kkMachine).map KKMachine.uid |>.Sublist (kkMachines.map KKMachine.uid) := by
  have same : (kkMachines.map fun k => if k.uid = kkMachine.uid then kkMachine else k).map KKMachine.uid =
      kkMachines.map KKMachine.uid := by
    rw [List.map_map]
    refine List.map_congr_left fun k _ => ?_
    by_cases uid : k.uid = kkMachine.uid <;> simp [uid]
  rw [← same]
  exact List.filter_sublist.map _

/-- Every KKInstance is named after a node of the KKCluster, and the names are distinct. -/
structure Specified (cluster : KKCluster) (s : System) : Prop where
  infos : ∀ i ∈ s.instances, i.spec ∈ cluster.instances ∧ i.name = i.spec.name
  names : (s.instances.map KKInstance.name).Nodup

/-- Nodes with addresses of their own give them to the KKInstances. -/
theorem Specified.addresses (specified : Specified cluster s)
    (distinct : (cluster.instances.map InstanceInfo.internalAddress).Nodup) :
    (s.instances.map fun i => i.spec.internalAddress).Nodup := by
  have names := List.pairwise_map.mp specified.names
  refine List.pairwise_map.mpr (names.imp_of_mem fun {i j} inside inside' different same => different ?_)
  obtain ⟨info, name⟩ := specified.infos i inside
  obtain ⟨info', name'⟩ := specified.infos j inside'
  rw [name, name', List.inj_on_of_nodup_map distinct info info' same]

theorem Specified.step (specified : Specified cluster s)
    (taken : s.step newProviderID cluster clusterName a = some s') : Specified cluster s' := by
  cases a with
  | reconcile uid reads answers =>
    obtain ⟨k, -, rfl⟩ := Option.map_eq_some_iff.mp taken
    simp only
    rcases (body_spec newProviderID cluster clusterName s k reads answers).2 with
      ⟨created, -⟩ | ⟨i, created, made, -, -⟩
    · rw [created]
      simpa using ⟨specified.infos, specified.names⟩
    · rw [created]
      constructor
      · intro j inside
        rcases List.mem_append.mp inside with old | new
        · exact specified.infos j old
        · rw [List.mem_singleton.mp new]
          exact ⟨made.info, made.name⟩
      · have new : ∀ name ∈ s.instances.map KKInstance.name, name ≠ i.name :=
          fun name old same => made.new (same ▸ old)
        simp only [Option.toList_some, List.map_append, List.map_singleton]
        exact List.nodup_append.mpr ⟨specified.names, List.nodup_singleton _,
          fun name old name' own => by rw [List.mem_singleton.mp own]; exact new name old⟩
  | machineCreated roles =>
    cases taken
    exact ⟨specified.infos, specified.names⟩
  | machineDeleted uid =>
    obtain ⟨k, -, rfl⟩ := Option.map_eq_some_iff.mp taken
    exact ⟨specified.infos, specified.names⟩
  | instanceState name state =>
    cases taken
    have same : ∀ i : KKInstance, (if i.name = name then { i with state := state } else i).name = i.name ∧
        (if i.name = name then { i with state := state } else i).spec = i.spec := by
      intro i
      split <;> exact ⟨rfl, rfl⟩
    constructor
    · intro i inside
      obtain ⟨old, here, rfl⟩ := List.mem_map.mp inside
      rw [(same old).1, (same old).2]
      exact specified.infos old here
    · simp only [List.map_map]
      rw [show KKInstance.name ∘ _ = KKInstance.name from funext fun i => (same i).1]
      exact specified.names
  | instanceRemoved name =>
    cases taken
    exact ⟨fun i inside => specified.infos i (List.mem_of_mem_filter inside),
      specified.names.sublist (List.filter_sublist.map _)⟩

/-- A KKMachine that had a KKInstance created has a provider ID, and it is no other one. -/
structure Recorded (s : System) : Prop where
  uids : (s.kkMachines.map KKMachine.uid).Nodup
  fresh : ∀ k ∈ s.kkMachines, k.uid < s.uids
  past : ∀ c ∈ s.creations, c.1 < s.uids
  linked : ∀ c ∈ s.creations, ∀ k ∈ s.kkMachines, k.uid = c.1 → k.Linked
  once : (s.creations.map Prod.fst).Nodup

/-- The condition on a reconcile that creates a KKInstance: the answer to `Create` arrives, and the final patch of the
KKMachine is carried out. -/
def Persisted (newProviderID : String → Except ProviderIDError String) (cluster : KKCluster) (clusterName : String)
    (s : System) : Act → Prop
  | .reconcile uid reads answers =>
    ∀ k ∈ s.kkMachines.find? fun k => k.uid = uid,
      (s.body newProviderID cluster clusterName k reads answers).created ≠ none →
        answers.create = .ok ∧ answers.close ≠ .refused
  | _ => True

theorem Recorded.replace (recorded : Recorded s) {k kkMachine : KKMachine} (here : k ∈ s.kkMachines)
    (uid : kkMachine.uid = k.uid) :
    ((store s.kkMachines kkMachine).map KKMachine.uid).Nodup ∧
      ∀ k' ∈ store s.kkMachines kkMachine, k'.uid < s.uids := by
  refine ⟨recorded.uids.sublist (store_uids s.kkMachines kkMachine), fun k' inside => ?_⟩
  rcases mem_store inside with rfl | ⟨old, -⟩
  · rw [uid]
    exact recorded.fresh k here
  · exact recorded.fresh k' old

/-- A reconcile creates a KKInstance for a KKMachine without a provider ID only, and leaves it with one. -/
theorem Recorded.reconcile {uid : Nat} {reads : Reads} {answers : Answers} (recorded : Recorded s)
    (emptyOnly : ∀ id, newProviderID id = .error .empty → id = "")
    (persisted : Persisted newProviderID cluster clusterName s (.reconcile uid reads answers))
    (taken : s.step newProviderID cluster clusterName (.reconcile uid reads answers) = some s') : Recorded s' := by
  obtain ⟨k, found, rfl⟩ := Option.map_eq_some_iff.mp taken
  have here := List.mem_of_find?_eq_some found
  have named : k.uid = uid := by simpa using List.find?_some found
  obtain ⟨of, spec⟩ := body_spec newProviderID cluster clusterName s k reads answers
  have closed : ((s.body newProviderID cluster clusterName k reads answers).close answers).uid = k.uid := close_uid of
  obtain ⟨uids, fresh⟩ := recorded.replace here closed
  simp only
  rcases spec with ⟨created, memory⟩ | ⟨i, created, made, empty, answered⟩
  · rw [created]
    refine ⟨uids, fresh, by simpa using recorded.past, ?_, by simpa using recorded.once⟩
    intro c past k' inside same
    have past : c ∈ s.creations := by simpa using past
    rcases mem_store inside with rfl | ⟨old, -⟩
    · have linked := recorded.linked c past k here ((close_uid of).symm.trans same)
      refine close_linked (fun _ => ?_) (fun _ => memory linked)
      rwa [KKMachine.Linked, of.providerID]
    · exact recorded.linked c past k' old same
  · rw [created]
    have unlinked : ¬ k.Linked := fun linked => linked (emptyOnly _ empty)
    obtain ⟨ok, written⟩ := persisted k found (by rw [created]; simp)
    refine ⟨uids, fresh, ?_, ?_, ?_⟩
    · intro c past
      rcases List.mem_append.mp past with old | new
      · exact recorded.past c old
      · rw [List.mem_singleton.mp new]
        exact named ▸ recorded.fresh k here
    · intro c past k' inside same
      rcases mem_store inside with rfl | ⟨old, other⟩
      · exact close_linked (fun refused => absurd refused written) (fun _ => answered ok)
      · rcases List.mem_append.mp past with earlier | new
        · exact recorded.linked c earlier k' old same
        · rw [List.mem_singleton.mp new] at same
          exact absurd (same.trans (named.symm.trans (close_uid of).symm)) other
    · simp only [Option.toList_some, List.map_singleton, List.map_append]
      refine List.nodup_append.mpr ⟨recorded.once, List.nodup_singleton _, fun u old u' own same => ?_⟩
      rw [List.mem_singleton.mp own] at same
      obtain ⟨c, past, rfl⟩ := List.mem_map.mp old
      exact unlinked (recorded.linked c past k here (named.trans same.symm))

/-- A new KKMachine has a new UID. -/
theorem Recorded.machineCreated {roles : List String} (recorded : Recorded s)
    (taken : s.step newProviderID cluster clusterName (.machineCreated roles) = some s') : Recorded s' := by
  cases taken
  refine ⟨?_, ?_, fun c past => Nat.lt_succ_of_lt (recorded.past c past), ?_, recorded.once⟩
  · rw [List.map_append, List.map_singleton]
    refine List.nodup_append.mpr ⟨recorded.uids, List.nodup_singleton _, fun u old u' own same => ?_⟩
    obtain ⟨k, here, rfl⟩ := List.mem_map.mp old
    have less := recorded.fresh k here
    rw [List.mem_singleton.mp own] at same
    exact absurd same (Nat.ne_of_lt less)
  · intro k inside
    rcases List.mem_append.mp inside with old | new
    · exact Nat.lt_succ_of_lt (recorded.fresh k old)
    · rw [List.mem_singleton.mp new]
      exact Nat.lt_succ_self _
  · intro c past k inside same
    rcases List.mem_append.mp inside with old | new
    · exact recorded.linked c past k old same
    · rw [List.mem_singleton.mp new] at same
      exact absurd same.symm (Nat.ne_of_lt (recorded.past c past))

theorem Recorded.step (recorded : Recorded s) (emptyOnly : ∀ id, newProviderID id = .error .empty → id = "")
    (persisted : Persisted newProviderID cluster clusterName s a)
    (taken : s.step newProviderID cluster clusterName a = some s') : Recorded s' := by
  cases a with
  | reconcile uid reads answers =>
    exact recorded.reconcile emptyOnly persisted taken
  | machineCreated roles => exact recorded.machineCreated taken
  | machineDeleted uid =>
    obtain ⟨k, found, rfl⟩ := Option.map_eq_some_iff.mp taken
    have here := List.mem_of_find?_eq_some found
    have same : ({ k with deleting := true } : KKMachine).uid = k.uid := rfl
    obtain ⟨uids, fresh⟩ := recorded.replace here same
    refine ⟨uids, fresh, recorded.past, fun c past k' inside same => ?_, recorded.once⟩
    rcases mem_store inside with rfl | ⟨old, -⟩
    · exact recorded.linked c past k here same
    · exact recorded.linked c past k' old same
  | instanceState name state =>
    cases taken
    exact ⟨recorded.uids, recorded.fresh, recorded.past, recorded.linked, recorded.once⟩
  | instanceRemoved name =>
    cases taken
    exact ⟨recorded.uids, recorded.fresh, recorded.past, recorded.linked, recorded.once⟩

/-- Any KKMachines, and no KKInstance yet. -/
structure Started (s : System) : Prop where
  instances : s.instances = []
  creations : s.creations = []
  uids : (s.kkMachines.map KKMachine.uid).Nodup
  fresh : ∀ k ∈ s.kkMachines, k.uid < s.uids

theorem Started.specified (started : Started s) : Specified cluster s :=
  ⟨by simp [started.instances], by simp [started.instances]⟩

theorem Started.recorded (started : Started s) : Recorded s :=
  ⟨started.uids, started.fresh, by simp [started.creations], by simp [started.creations], by simp [started.creations]⟩

/-- In every run the KKInstances have internal addresses of their own, if the nodes do. In every run whose creations
are persisted, each KKMachine has at most one KKInstance created for it. -/
theorem one_instance (newProviderID : String → Except ProviderIDError String)
    (emptyOnly : ∀ id, newProviderID id = .error .empty → id = "") (cluster : KKCluster)
    (distinct : (cluster.instances.map InstanceInfo.internalAddress).Nodup) (clusterName : String) (s t : System)
    (acts : List Act) (started : Started s)
    (ran : run (System.step newProviderID cluster clusterName) s acts = some t) :
    (t.instances.map fun i => i.spec.internalAddress).Nodup ∧
      (Along (System.step newProviderID cluster clusterName) (Persisted newProviderID cluster clusterName) s acts →
        (t.creations.map Prod.fst).Nodup) := by
  have specified : Specified cluster t :=
    run_invariant (fun _ _ _ specified taken => specified.step taken) started.specified ran
  refine ⟨specified.addresses distinct, fun persisted => ?_⟩
  have keeps : ∀ s a s', Recorded s → Persisted newProviderID cluster clusterName s a →
      System.step newProviderID cluster clusterName s a = some s' → Recorded s' :=
    fun s a s' recorded persisted taken => recorded.step emptyOnly persisted taken
  exact (Along.invariant keeps started.recorded persisted ran).once

/-- `NewProviderID` of texts as `SetProviderID` makes them: the ID is behind the last slash. -/
def lastSegment (id : String) : Except ProviderIDError String :=
  if id = "" then .error .empty else .ok (String.ofList (id.toList.reverse.takeWhile (· ≠ '/')).reverse)

/-- Two worker nodes. -/
def twoNodes : KKCluster :=
  ⟨"kk", .empty, [⟨"node1", "10.0.0.1", ["worker"]⟩, ⟨"node2", "10.0.0.2", ["worker"]⟩]⟩

/-- One worker. -/
def oneWorker : System := ⟨[⟨0, ["worker"], none, none, false, false, false⟩], [], [], 1⟩

def ready : Reads := ⟨true, true, true, .empty⟩

def allAnswered : Answers := ⟨true, .ok, true, .ok, .ok, .ok⟩

theorem oneWorker_started : Started oneWorker := ⟨rfl, rfl, by decide, by decide⟩

/-- The second reconcile finds the instance. -/
theorem one_instance_twice : ∃ t, run (System.step lastSegment twoNodes "c") oneWorker
      [.reconcile 0 ready allAnswered, .reconcile 0 ready allAnswered] = some t ∧
    t.creations = [(0, "node1")] ∧ (t.creations.map Prod.fst).Nodup := by
  have emptyOnly : ∀ id, lastSegment id = .error .empty → id = "" := by
    intro id empty
    unfold lastSegment at empty
    split at empty
    · assumption
    · cases empty
  refine ⟨_, rfl, by decide, (one_instance lastSegment emptyOnly twoNodes (by decide) "c" oneWorker _
    [.reconcile 0 ready allAnswered, .reconcile 0 ready allAnswered] oneWorker_started rfl).2 ?_⟩
  refine ⟨fun k found _ => ⟨rfl, by decide⟩, fun _ taken => ?_⟩
  cases taken
  exact ⟨fun k found _ => ⟨rfl, by decide⟩, fun _ _ => trivial⟩

/-- The final patch of the first reconcile fails, and the second reconcile creates another instance. -/
theorem two_instances : ∃ t, run (System.step lastSegment twoNodes "c") oneWorker
      [.reconcile 0 ready { allAnswered with close := .refused }, .reconcile 0 ready allAnswered] = some t ∧
    t.creations = [(0, "node1"), (0, "node2")] :=
  ⟨_, rfl, by decide⟩

end System

end KubeKey.Machines
