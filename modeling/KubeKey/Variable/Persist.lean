import KubeKey.Variable.Atomic

/-!
# Memory and source

A change of a host is kept in memory together with its write to the source, so
after merges that all succeed the source should hold what is in memory for every
host that has changed since `New`. The comparison that decides about the write sees
only changes of the copy: a value that the rendering stored into a container of the
store itself is in both. As long as no merge does that, memory and source agree
(`SparingRun.persisted`).
-/

namespace KubeKey.Variable

open KubeKey.Go

/-- Merges that all succeed. -/
inductive MergeRun (env : Env) (start : Store) : Store → Prop where
  | start : MergeRun env start start
  | merge {store store' : Store} {io : String → WriteReply} {f f' : MergeFunc} (run : MergeRun env start store)
      (done : merge env io f store = (.ok (), f', store')) : MergeRun env start store'

/-- Merges that all succeed and store into no container of the store. -/
inductive SparingRun (env : Env) (start : Store) : Store → Prop where
  | start : SparingRun env start start
  | merge {store store' : Store} {io : String → WriteReply} {f f' : MergeFunc} (run : SparingRun env start store)
      (spares : f.Spares env store) (done : merge env io f store = (.ok (), f', store')) : SparingRun env start store'

/-- For every host that differs from what was loaded, the source holds what is in memory. -/
def Persisted (start store : Store) : Prop :=
  ∀ name hv, store.value.hosts.get? name = some hv →
    (start.value.hosts.get? name).map (·.snapshot start.heap) ≠ some (hv.snapshot store.heap) →
      store.source.data store.heap name = some (some (hv.snapshot store.heap))

/-- The source holds the data of the host. -/
def Store.Saved (store : Store) (name : String) : Prop :=
  ∃ hv, store.value.hosts.get? name = some hv ∧
    store.source.data store.heap name = some (some (hv.snapshot store.heap))

theorem Source.data_write_ok {reply : WriteReply} {h : Heap} {hn : String} {hv : HostVars} {source source' : Source}
    (run : source.write reply h hn hv = (true, source')) (name : String) :
    source'.data h name = if name = hn then some (some (hv.snapshot h)) else source.data h name := by
  cases source with
  | memory data =>
    cases run
    simp only [Source.data, GoMap.get?_put]
    split <;> rfl
  | file data =>
    simp only [Source.write] at run
    split at run
    · cases run
      simp only [Source.data, GoMap.get?_put, HostVars.snapshot]
    · cases run
    · cases run

/-- After the loop of `syncSource` a host is as before, or changed and saved. -/
theorem syncHosts_saved {io : String → WriteReply} {newHosts : GoMap HostVars} (entries : List (String × HostVars)) :
    ∀ {store store' : Store}, syncHosts io newHosts entries store = (.ok (), store') → store'.heap = store.heap ∧
      ∀ name, (store'.value.hosts.get? name = store.value.hosts.get? name ∧
        store'.source.data store.heap name = store.source.data store.heap name) ∨ store'.Saved name := by
  induction entries with
  | nil =>
    intro store store' run
    cases run
    exact ⟨rfl, fun _ => Or.inl ⟨rfl, rfl⟩⟩
  | cons e rest ih =>
    intro store store' run
    obtain ⟨hn, hv⟩ := e
    rw [syncHosts] at run
    split at run
    · exact ih run
    · split at run
      · simp at run
      · next source written =>
        obtain ⟨heap, hosts⟩ := ih run
        refine ⟨heap, fun name => ?_⟩
        rcases hosts name with ⟨same, kept⟩ | saved
        · simp only at same kept
          rw [Source.data_write_ok written] at kept
          rw [GoMap.get?_put] at same
          by_cases here : name = hn
          · rw [if_pos here] at same kept
            exact Or.inr ⟨_, same, by rw [heap, kept]⟩
          · rw [if_neg here] at same kept
            exact Or.inl ⟨same, kept⟩
        · exact Or.inr saved

/-- A host is as loaded, or saved. -/
def LoadedOrSaved (start store : Store) (name : String) : Prop :=
  (store.value.hosts.get? name).map (·.snapshot store.heap) =
      (start.value.hosts.get? name).map (·.snapshot start.heap) ∨ store.Saved name

theorem LoadedOrSaved.unchanged {start store store' : Store} {name : String} (before : LoadedOrSaved start store name)
    (unchanged : store.Unchanged store') : LoadedOrSaved start store' name := by
  rcases before with loaded | ⟨hv, known, saved⟩
  · exact Or.inl ((unchanged.hosts name).trans loaded)
  · have same := unchanged.hosts name
    rw [known, Option.map_some, Option.map_eq_some_iff] at same
    obtain ⟨hv', known', view⟩ := same
    exact Or.inr ⟨hv', known', by rw [unchanged.source, saved, view]⟩

/-- One merge. -/
theorem merge_loadedOrSaved {env : Env} {io : String → WriteReply} {f f' : MergeFunc} {start store store' : Store}
    (ok : store.Ok) (spares : f.Spares env store) (done : merge env io f store = (.ok (), f', store')) {name : String}
    (before : LoadedOrSaved start store name) : LoadedOrSaved start store' name := by
  obtain ⟨_, copied, _, agree⟩ := merge_applied env f ok
  have agree := agree spares
  rw [merge] at done
  simp only at done
  generalize f.apply env (deepCopy store.value store.heap).1 (deepCopy store.value store.heap).2 = outcome at agree done
  obtain ⟨r, g, nv, h⟩ := outcome
  have all : Heap.AgreeBelow store.heap.size store.heap h :=
    copied.grows.agree.trans (agree.mono copied.grows.size_le)
  cases r with
  | error e => simp at done
  | ok u =>
    simp only [Prod.mk.injEq] at done
    obtain ⟨synced, _, rfl⟩ := done
    have during : LoadedOrSaved start { store with heap := h } name := before.unchanged (ok.unchanged_of_agree all)
    obtain ⟨heap, hosts⟩ := syncHosts_saved store.value.hosts.entries (Prod.ext synced rfl)
    rcases hosts name with ⟨same, kept⟩ | saved
    · rcases during with loaded | ⟨hv, known, saved⟩
      · refine Or.inl ?_
        rw [syncSource, heap, same]
        exact loaded
      · refine Or.inr ⟨hv, ?_, ?_⟩
        · rw [syncSource, same]
          exact known
        · rw [syncSource, heap, kept]
          exact saved
    · exact Or.inr saved

theorem SparingRun.invariant {env : Env} {start store : Store} (ok : start.Ok) (run : SparingRun env start store) :
    store.Ok ∧ ∀ name, LoadedOrSaved start store name := by
  induction run with
  | start => exact ⟨ok, fun _ => Or.inl rfl⟩
  | @merge store store' io f f' _ spares done ih =>
    obtain ⟨storeOk, before⟩ := ih
    have merged := merge_ok env io f storeOk
    rw [done] at merged
    exact ⟨merged, fun name => merge_loadedOrSaved storeOk spares done (before name)⟩

/-- Memory and source agree after every run in which no merge stores into the store itself. -/
theorem SparingRun.persisted {env : Env} {config : RawExtension} {inventory : InventorySpec} {source : Source}
    {data : List (String × List (String × Lit))} {start store : Store} (fresh : source.isFresh)
    (new : newVariable config inventory source data = .ok start) (run : SparingRun env start store) :
    Persisted start store := by
  obtain ⟨_, invariant⟩ := run.invariant (newVariable_ok fresh new)
  intro name hv known differs
  rcases invariant name with loaded | ⟨hv', known', saved⟩
  · rw [known] at loaded
    exact absurd loaded.symm differs
  · rw [known] at known'
    cases known'
    exact saved

/-- `node1Store` after a merge of a variable that is not nested. -/
def plainStore : Store := (merge plainEnv (fun _ => .ok) (.runtime (mapNode [("b", strNode "x")]) ["node1"]) node1Store).2.2

theorem persisted_node1 : (Source.file .empty).isFresh ∧
    newVariable .empty ⟨GoMap.empty.put "node1" .empty, .empty, .empty⟩ (.file .empty) [] = .ok node1Store ∧
    SparingRun plainEnv node1Store plainStore ∧ Persisted node1Store plainStore := by
  have ok := (node1Store_reachable plainEnv).ok
  have spares : (MergeFunc.runtime (mapNode [("b", strNode "x")]) ["node1"]).Spares plainEnv node1Store := by
    refine Or.inr ⟨sparesFor_flat plainEnv ok.copy "node1" ?_, fun _ _ _ _ _ _ _ => trivial⟩
    intro e member
    have only : e = ([.key "b"], strTag) := by simpa [mapNode, strNode, Node.rootLeaves, Node.leaves,
      entryLeaves, Node.value] using member
    exact ⟨.key "b", by rw [only]⟩
  have done : (merge plainEnv (fun _ => .ok) (.runtime (mapNode [("b", strNode "x")]) ["node1"]) node1Store).1 =
      .ok () := by decide +kernel
  have run : SparingRun plainEnv node1Store plainStore := .merge .start spares (outcome_eq done)
  exact ⟨trivial, node1Store_new, run, SparingRun.persisted (show Source.isFresh (.file .empty) from trivial) node1Store_new run⟩

/-- `sharedStore` after a merge that adds to its map. -/
def unsavedStore : Store :=
  (merge plainEnv (fun _ => .ok) (.runtime (mapNode [("m", mapNode [("k", strNode "x")])]) ["node1"]) sharedStore).2.2

theorem nested_change_not_saved : newVariable .empty ⟨GoMap.empty.put "node1" .empty, .empty, .empty⟩ (.file .empty) [] =
      .ok node1Store ∧ MergeRun plainEnv node1Store unsavedStore ∧ ¬ Persisted node1Store unsavedStore := by
  have first : (merge plainEnv (fun _ => .ok) (.runtime (mapNode [("m", mapNode [])]) ["node1"]) node1Store).1 =
      .ok () := by decide +kernel
  have second : (merge plainEnv (fun _ => .ok) (.runtime (mapNode [("m", mapNode [("k", strNode "x")])]) ["node1"])
      sharedStore).1 = .ok () := by decide +kernel
  have shared : MergeRun plainEnv node1Store sharedStore := .merge .start (outcome_eq first)
  have run : MergeRun plainEnv node1Store unsavedStore := .merge shared (outcome_eq second)
  refine ⟨node1Store_new, run, fun persisted => ?_⟩
  have memory : ((unsavedStore.value.hosts.get? "node1").map (·.snapshot unsavedStore.heap)).map
      (·.runtime [.key "m", .key "k"]) = some (some (.scalar (.str "x"))) := by decide +kernel
  have loaded : ((node1Store.value.hosts.get? "node1").map (·.snapshot node1Store.heap)).map
      (·.runtime [.key "m", .key "k"]) = some none := by decide +kernel
  have saved : (unsavedStore.source.data unsavedStore.heap "node1").map
      (fun s => s.map (·.runtime [.key "m", .key "k"])) = some (some none) := by decide +kernel
  obtain ⟨hv, known⟩ : ∃ hv, unsavedStore.value.hosts.get? "node1" = some hv := by
    cases found : unsavedStore.value.hosts.get? "node1" with
    | some hv => exact ⟨hv, rfl⟩
    | none =>
      rw [found] at memory
      cases memory
  rw [known, Option.map_some, Option.map_some, Option.some.injEq] at memory
  have held := persisted "node1" hv known fun same => by
    rw [same, Option.map_some, memory] at loaded
    cases loaded
  rw [held, Option.map_some, Option.map_some, memory] at saved
  cases saved

end KubeKey.Variable
