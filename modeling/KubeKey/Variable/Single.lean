import KubeKey.Variable.PerHost

/-!
# What a merge leaves of the rest

No merge changes the configuration, the inventory or the names of the hosts
(`merge_static`). A merge of a node into the runtime variables of one host may still write
into the host's remote variables, whose containers the rendering shares, but it leaves
them where the data does not decide (`merge_single_leaves`).
-/

namespace KubeKey.Variable

open KubeKey.Go

/-- The same configuration, inventory and names of hosts. -/
structure Store.Static (store store' : Store) : Prop where
  config : store'.value.config = store.value.config
  inventory : store'.value.inventory = store.value.inventory
  hosts : ∀ name, (store'.value.hosts.get? name).isSome = (store.value.hosts.get? name).isSome

theorem Store.Static.refl (store : Store) : store.Static store := ⟨rfl, rfl, fun _ => rfl⟩

theorem Store.Static.trans {store store' store'' : Store} (first : store.Static store') (second : store'.Static store'') :
    store.Static store'' where
  config := second.config.trans first.config
  inventory := second.inventory.trans first.inventory
  hosts := fun name => (second.hosts name).trans (first.hosts name)

theorem Store.Static.known {store store' : Store} (static : store.Static store') {host : String} {hv : HostVars}
    (known : store.value.hosts.get? host = some hv) : ∃ hv', store'.value.hosts.get? host = some hv' := by
  have same := static.hosts host
  rw [known] at same
  exact Option.isSome_iff_exists.1 same

theorem syncHosts_static (io : String → WriteReply) (newHosts : GoMap HostVars) (entries : List (String × HostVars)) :
    ∀ {store : Store}, (∀ e ∈ entries, (store.value.hosts.get? e.1).isSome) →
      store.Static (syncHosts io newHosts entries store).2 := by
  induction entries with
  | nil => exact fun _ => Store.Static.refl _
  | cons e rest ih =>
    obtain ⟨hn, hv⟩ := e
    intro store known
    have others := fun e member => known e (List.mem_cons_of_mem _ member)
    rw [syncHosts]
    split
    · exact ih others
    · split
      · exact ⟨rfl, rfl, fun _ => rfl⟩
      · next source _ =>
        -- the host that is written is one of the store
        have put : ∀ name, ((store.value.hosts.put hn ((newHosts.get? hn).getD .zero)).get? name).isSome =
            (store.value.hosts.get? name).isSome := by
          intro name
          rw [GoMap.get?_put]
          split
          · next same => rw [same, known (hn, hv) (by simp), Option.isSome_some]
          · rfl
        have step : store.Static { store with
            source := source
            value := { store.value with hosts := store.value.hosts.put hn ((newHosts.get? hn).getD .zero) } } :=
          ⟨rfl, rfl, put⟩
        exact step.trans (ih fun e member => (put e.1).trans (others e member))

/-- A merge keeps the configuration, the inventory and the names of the hosts, also when it fails. -/
theorem merge_static (env : Env) (io : String → WriteReply) (f : MergeFunc) (store : Store) :
    store.Static (merge env io f store).2.2 := by
  rw [merge]
  simp only
  generalize f.apply env (deepCopy store.value store.heap).1 (deepCopy store.value store.heap).2 = outcome
  obtain ⟨r, f', nv, h⟩ := outcome
  cases r with
  | error e => exact ⟨rfl, rfl, fun _ => rfl⟩
  | ok u =>
    have entries : ∀ e ∈ store.value.hosts.entries, (store.value.hosts.get? e.1).isSome := fun e member => by
      rw [GoMap.get?_eq_some_iff.2 member, Option.isSome_some]
    have synced : Store.Static { store with heap := h, value := { store.value with result := nv.result } } _ :=
      syncHosts_static io nv.hosts store.value.hosts.entries entries
    exact ⟨synced.config, synced.inventory, synced.hosts⟩

section Single
variable {env : Env} {io : String → WriteReply} {store store' : Store} {node : Node} {hostname : String} {f' : MergeFunc}

/-- What a successful merge for one host leaves of its variables. -/
theorem merge_single_leaves (ok : store.Ok) (nonzero : node.isZero = false) (parsed : node.parsed = true)
    (plain : node.plain) (merged : merge env io (.runtime node [hostname]) store = (.ok (), f', store'))
    {hv : HostVars} (known : store.value.hosts.get? hostname = some hv) :
    ∃ hv' entries, store'.value.hosts.get? hostname = some hv' ∧
      decodeMap env (ownNode env (deepCopy store.value store.heap).1 hostname node (deepCopy store.value store.heap).2) =
        .ok entries ∧
      store'.heap.view hv'.runtimeVars = overlay (store.heap.view hv.runtimeVars) (dataView entries) ∧
      AgreeOff (dataView entries) (store.heap.view hv.remoteVars) (store'.heap.view hv'.remoteVars) := by
  obtain ⟨hv', entries, known', read, runtime⟩ :=
    merge_rendersEach ok nonzero parsed plain (Or.inr (by simp)) merged hostname (by simp) hv known
  refine ⟨hv', entries, known', read, runtime, ?_⟩
  obtain ⟨copied, tidy⟩ := deepCopy_copied ok.tidy fun v => Or.inl (b := store.source.roots v)
  have expands : (convertGroup (deepCopy store.value store.heap).1.inventory).isSome := by
    rw [copied.inventory]
    exact ok.expands
  obtain ⟨hv₀, stored, same₀⟩ := copied.hosts hostname hv known
  have root : store.roots hv₀.remoteVars ∨ (deepCopy store.value store.heap).1.roots hv₀.remoteVars :=
    Or.inr (Or.inr (Or.inr ⟨hostname, hv₀, stored, Or.inl rfl⟩))
  rw [merge] at merged
  simp only [MergeFunc.apply, nonzero, Bool.false_eq_true, if_false, mergeRuntime] at merged
  -- the walk stores into the containers of the context only where the data decides
  obtain ⟨l, h₀, _, context, same, stores⟩ := renderFor_stores env node (tidy.valueOk (fun _ => Or.inr) expands) hostname
  obtain ⟨tidy₁, _, _⟩ := renderFor_tidy env hostname node tidy (fun _ => Or.inr) expands
  generalize rendered : renderFor env (deepCopy store.value store.heap).1 hostname node
    (deepCopy store.value store.heap).2 = outcome at merged same stores tidy₁
  obtain ⟨result, node₁, h₁⟩ := outcome
  cases result with
  | error f => cases merged
  | ok data =>
    have decoded := renderFor_ok rendered
    rw [read] at decoded
    cases decoded
    have walked := (stores.seen (context.rendering tidy fun _ => Or.inr) (fitting_of_rendered parsed plain same.symm) root).1
    have placed := allocEntries_placed entries tidy₁.closed
    obtain ⟨x, h₃, combine, combined, _⟩ := combineRuntime_leaves (allocEntries_tidy tidy₁ entries) (Or.inr rfl) hostname
    simp only [combine, Prod.mk.injEq] at merged
    obtain ⟨synced, _, rfl⟩ := merged
    have run : syncSource io ((deepCopy store.value store.heap).1.setRuntime hostname (.ref x)) { store with heap := h₃ } =
        (.ok (), (syncSource io ((deepCopy store.value store.heap).1.setRuntime hostname (.ref x))
          { store with heap := h₃ }).2) := Prod.ext synced rfl
    obtain ⟨written, _⟩ := syncHosts_snapshot store.value.hosts.entries store.value.hosts.distinct run
      fun e inside => GoMap.get?_eq_some_iff.2 inside
    obtain ⟨hv₂, final, snapshot⟩ := written (hostname, hv) (GoMap.get?_eq_some_iff.1 known)
    obtain ⟨heap, _, _⟩ := syncSource_roots io ((deepCopy store.value store.heap).1.setRuntime hostname (.ref x))
      { store with heap := h₃ }
    rw [final] at known'
    cases known'
    have kept : ((deepCopy store.value store.heap).1.setRuntime hostname (.ref x)).hosts.get? hostname =
        some { hv₀ with runtimeVars := .ref x } := by simp [Value.setRuntime, stored]
    simp only [kept, Option.getD_some] at snapshot
    have below := tidy₁.below hv₀.remoteVars root
    rw [heap]
    intro p undecided
    calc h₃.view hv'.remoteVars p = h₃.view hv₀.remoteVars p := congrFun (congrArg Snapshot.remote snapshot) p
      _ = h₁.view hv₀.remoteVars p := by
        rw [combined.grows.view placed.closed (below.mono placed.grows.size_le), placed.grows.view tidy₁.closed below]
      _ = (deepCopy store.value store.heap).2.view hv₀.remoteVars p := by
        rw [walked p undecided, context.grows.view tidy.closed (tidy.below _ root)]
      _ = store.heap.view hv.remoteVars p := congrFun (congrArg Snapshot.remote same₀) p

end Single

end KubeKey.Variable
