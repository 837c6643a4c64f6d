import KubeKey.Variable.Hostnames

/-!
# When the expansion of groups returns

`hostsInGroup` follows the groups that a group names without looking where it has been, and
`ConvertGroup`, `New`, `GetHostnames` and `GetAllVariable` call it for every group of the
inventory. They all return, and give each group the hosts that are reached from it, if and
only if no group contains itself; `ungrouped` is the one name whose group is lost.
-/

namespace KubeKey.Variable

open KubeKey.Go

/-- What is known of the variables of a store apart from its groups. -/
structure Value.HeapOk (h : Heap) (val : Value) : Prop where
  closed : h.Closed
  acyclic : h.Acyclic
  hosts : ∀ name hv, val.hosts.get? name = some hv → hv.Ok h
  resultBelow : val.result.Below h.size
  resultMap : IsMap h val.result

theorem Value.HeapOk.ok {h : Heap} {val : Value} (heapOk : val.HeapOk h) (acyclic : AcyclicGroups val.inventory) :
    val.Ok h :=
  ⟨heapOk.closed, heapOk.acyclic, heapOk.hosts, heapOk.resultBelow, heapOk.resultMap,
    convertGroup_isSome_iff.2 acyclic⟩

/-- Everything that expands the groups of the inventory returns, and each group has the hosts reached from it. -/
structure ExpansionReturns (inv : InventorySpec) : Prop where
  hostsInGroup : ∀ groupName, ∃ fuel hosts, hostsInGroup inv fuel groupName = some hosts ∧
    ∀ h, h ∈ hosts ↔ HasHost inv groupName h
  convertGroup : ∀ order : GroupOrder, order.Of inv → ∃ groups,
    convertGroupIn inv order.hosts order.names = some groups ∧
      ∀ gn ∈ inv.groups.keys, ∃ hosts, groups.get? gn = some hosts ∧ ∀ h, h ∈ hosts ↔ HasHost inv gn h
  new : ∀ config source data, newVariable config inv source data ≠ .error .diverge
  getHostnames : ∀ (env : Env) (val : Value), val.inventory = inv → ∀ names l, CallsFor inv names l →
    getHostnames env val l ≠ .error .diverge
  getAllVariable : ∀ (val : Value) (h : Heap), val.inventory = inv → val.HeapOk h →
    ∀ localIP hostname, (getAllVariable localIP val hostname h).isSome

/-- No group contains itself, and one that is called `ungrouped` has no host, nor is there a host without a group. -/
structure Expandable (inv : InventorySpec) : Prop where
  acyclic : AcyclicGroups inv
  ungrouped : variableUnGrouped ∈ inv.groups.keys → (∀ h, ¬ HasHost inv variableUnGrouped h) ∧
    ∀ h ∈ inv.hosts.keys, ∃ gn ∈ inv.groups.keys, HasHost inv gn h

theorem readVars_ne_diverge (data : List (String × Lit)) (key : String) (h : Heap) :
    readVars data key h ≠ .error .diverge := by
  unfold readVars
  split <;> simp

theorem loadHosts_ne_diverge (data : List (String × List (String × Lit))) :
    ∀ (hosts : GoMap HostVars) (h : Heap), loadHosts data hosts h ≠ .error .diverge := by
  induction data with
  | nil =>
    intro hosts h run
    cases run
  | cons e data ih =>
    obtain ⟨k, d⟩ := e
    intro hosts h run
    simp only [loadHosts, bind, Except.bind] at run
    cases remote : readVars d "remote" h with
    | error e =>
      rw [remote] at run
      cases run
      exact readVars_ne_diverge d "remote" h remote
    | ok r =>
      rw [remote] at run
      dsimp only at run
      cases runtime : readVars d "runtime" r.2 with
      | error e =>
        rw [runtime] at run
        cases run
        exact readVars_ne_diverge d "runtime" r.2 runtime
      | ok r' =>
        rw [runtime] at run
        exact ih _ _ run

/-- `New` returns, with a store or an error, exactly if no group contains itself. -/
theorem newVariable_diverges_iff {config : RawExtension} {inv : InventorySpec} {source : Source}
    {data : List (String × List (String × Lit))} :
    newVariable config inv source data = .error .diverge ↔ ¬ AcyclicGroups inv := by
  rw [← convertGroup_isSome_iff, Option.not_isSome_iff_eq_none]
  unfold newVariable
  cases expanded : convertGroup inv with
  | none => simp
  | some groups =>
    simp only [bind, Except.bind, reduceCtorEq, iff_false]
    intro run
    cases loaded : loadHosts data (newHosts ((groups.get? variableGroupsAll).getD []) .empty .empty).1
        (newHosts ((groups.get? variableGroupsAll).getD []) .empty .empty).2 with
    | error e =>
      rw [loaded] at run
      cases run
      exact loadHosts_ne_diverge _ _ _ loaded
    | ok r =>
      rw [loaded] at run
      cases run

theorem addNames_ne_diverge {env : Env} {val : Value} (acyclic : AcyclicGroups val.inventory) :
    ∀ {names : List String} {l : List (String × PatternCalls)}, CallsFor val.inventory names l →
      ∀ hs, addNames env val l hs ≠ .error .diverge := by
  intro names l calls hs
  by_cases resolve : ∀ n ∈ names, Resolves val.inventory (resolveName env val n)
  · obtain ⟨hs', run⟩ := addNames_ok acyclic resolve calls hs
    rw [run]
    simp
  · obtain ⟨before, n, after, rfl, resolve, stuck⟩ := exists_first_unresolved resolve
    have stops : ∀ here : PatternCalls, here.Of val.inventory → ∀ hs, ∃ f, f ≠ NameFault.diverge ∧
        addName val here (resolveName env val n) hs = .error f := by
      intro here of hs
      by_cases index : IndexFails val.inventory (resolveName env val n)
      · obtain ⟨msg, run⟩ := addName_error acyclic index of hs
        exact ⟨_, by simp, run⟩
      · have draws : DrawsNone val.inventory (resolveName env val n) := by
          by_contra draw
          exact stuck ⟨index, draw⟩
        exact ⟨_, by simp, addName_panics acyclic index draws of hs⟩
    obtain ⟨f, other, run⟩ := addNames_stops acyclic resolve stops calls hs
    rw [run]
    intro same
    cases same
    exact other rfl

/-- The expansion of groups returns, with the hosts reached from each, exactly if the inventory is expandable. -/
theorem expansion_returns_iff (inv : InventorySpec) : ExpansionReturns inv ↔ Expandable inv := by
  constructor
  · intro returns
    have acyclic : AcyclicGroups inv := by
      intro g
      obtain ⟨fuel, hosts, run, _⟩ := returns.hostsInGroup g
      exact (hostsInGroup_unfolds inv).acyclic (by rw [run]; rfl) g .refl
    refine ⟨acyclic, fun taken => ?_⟩
    have of := GroupOrder.listed_of inv
    obtain ⟨groups, run, found⟩ := returns.convertGroup _ of
    obtain ⟨groups', run', entry⟩ := convertGroupIn_entry acyclic of
    rw [run] at run'
    cases run'
    obtain ⟨hosts, stored, mem⟩ := found variableUnGrouped taken
    rw [entry, groupEntry, if_pos rfl, Option.some.injEq] at stored
    have left : ∀ h, HasHost inv variableUnGrouped h ↔
        h ∈ inv.hosts.keys ∧ ∀ gn ∈ inv.groups.keys, ¬ HasHost inv gn h := by
      intro h
      rw [← mem_ungrouped_iff acyclic of, ← mem, stored]
    have none : ∀ h, ¬ HasHost inv variableUnGrouped h := fun h has => ((left h).1 has).2 _ taken has
    refine ⟨none, fun h known => ?_⟩
    by_contra free
    push Not at free
    exact none h ((left h).2 ⟨known, free⟩)
  · rintro ⟨acyclic, ungrouped⟩
    refine ⟨fun groupName => ?_, fun order of => ?_, fun config source data run => ?_, ?_, ?_⟩
    · obtain ⟨hosts, run⟩ := hostsInGroup_returns acyclic groupName
      exact ⟨_, hosts, run, (hostsInGroup_spec run).2⟩
    · obtain ⟨groups, run, entry⟩ := convertGroupIn_entry acyclic of
      refine ⟨groups, run, fun gn member => ?_⟩
      rw [entry, groupEntry]
      by_cases same : gn = variableUnGrouped
      · rw [if_pos same]
        subst same
        obtain ⟨none, grouped⟩ := ungrouped member
        refine ⟨_, rfl, fun h => ?_⟩
        rw [mem_ungrouped_iff acyclic of]
        constructor
        · rintro ⟨known, free⟩
          obtain ⟨gn, listed, has⟩ := grouped h known
          exact absurd has (free gn listed)
        · exact fun has => absurd has (none h)
      · rw [if_neg same, if_pos member]
        exact ⟨_, rfl, (hostsOf_spec acyclic gn).2⟩
    · exact newVariable_diverges_iff.1 run acyclic
    · rintro env val rfl names l calls
      exact addNames_ne_diverge acyclic calls []
    · rintro val h rfl heapOk localIP hostname
      obtain ⟨l, h', run, _⟩ := getAllVariable_built (heapOk.ok acyclic) localIP hostname
      rw [run]
      rfl

/-- An inventory with a group that contains itself. -/
def selfGroup : InventorySpec where
  hosts := GoMap.empty.put "node1" .empty
  vars := .empty
  groups := GoMap.empty.put "workers" ⟨["workers"], ["node1"], .empty⟩

theorem selfGroup_never_returns : (∀ fuel, hostsInGroup selfGroup fuel "workers" = none) ∧
    newVariable .empty selfGroup (.memory .empty) [] = .error .diverge ∧ ¬ ExpansionReturns selfGroup := by
  have refers : Refers selfGroup "workers" "workers" := ⟨⟨["workers"], ["node1"], .empty⟩, rfl, by decide⟩
  have cyclic : ¬ AcyclicGroups selfGroup := fun acyclic => acyclic "workers" (.single refers)
  refine ⟨fun fuel => ?_, newVariable_diverges_iff.2 cyclic, fun returns => ?_⟩
  · rw [← Option.not_isSome_iff_eq_none]
    intro ends
    exact (hostsInGroup_unfolds selfGroup).acyclic ends "workers" .refl (.single refers)
  · obtain ⟨fuel, hosts, run, _⟩ := returns.hostsInGroup "workers"
    exact (hostsInGroup_unfolds selfGroup).acyclic (by rw [run]; rfl) "workers" .refl (.single refers)

end KubeKey.Variable
