import KubeKey.Variable.Reachable

/-!
# Merges that fail

A merge that returns an error should leave the store and the source as they were.
Two things stand against it. The context of a rendering shares containers with the
store, so values stored before the failure may have been stored into the store;
and the hosts are committed one by one around writes that may fail. Without the
first, and if the write that fails is the first of the merge and fails before it
touches the file, a failed merge is not seen (`merge_failed_unchanged`).
-/

namespace KubeKey.Variable

open KubeKey.Go

/-- What the source holds for a host; `some none` is a file cut short. -/
def Source.data (source : Source) (h : Heap) (name : String) : Option (Option Snapshot) :=
  match source with
  | .memory data => (data.get? name).map fun hv => some (hv.snapshot h)
  | .file data => data.get? name

/-- Nothing of the value and the source is seen to differ. -/
structure Store.Unchanged (store store' : Store) : Prop where
  config : store'.value.config = store.value.config
  inventory : store'.value.inventory = store.value.inventory
  hosts : ∀ name, (store'.value.hosts.get? name).map (·.snapshot store'.heap) =
    (store.value.hosts.get? name).map (·.snapshot store.heap)
  result : store'.heap.view store'.value.result = store.heap.view store.value.result
  source : ∀ name, store'.source.data store'.heap name = store.source.data store.heap name

/-- The hosts that `syncSource` writes, in the order of its loop. -/
def changedHosts (h : Heap) (newHosts : GoMap HostVars) (entries : List (String × HostVars)) : List String :=
  (entries.filter fun e => !hostEqual h ((newHosts.get? e.1).getD .zero) e.2).map Prod.fst

/-- The first write fails and leaves its file alone. -/
def FailsFirst (io : String → WriteReply) (written : List String) : Prop :=
  ∃ hn, written.head? = some hn ∧ io hn = .createFailed

/-- The merge function is not `MergeResultVariable`. -/
def MergeFunc.keepsResult : MergeFunc → Bool
  | .result _ => false
  | _ => true

/-- No write of the merge fails, or the first one does, before anything was committed. -/
def MergeFunc.WritesSafely (env : Env) (io : String → WriteReply) (store : Store) (f : MergeFunc) : Prop :=
  ∀ f' nv h, f.apply env (deepCopy store.value store.heap).1 (deepCopy store.value store.heap).2 = (.ok (), f', nv, h) →
    (∀ hn ∈ changedHosts h nv.hosts store.value.hosts.entries, io hn = .ok) ∨
      f.keepsResult = true ∧ FailsFirst io (changedHosts h nv.hosts store.value.hosts.entries)

section Unchanged
variable {store : Store}

theorem snapshot_of_agree {h h' : Heap} (closed : h.Closed) (agree : Heap.AgreeBelow h.size h h') {hosts : GoMap HostVars}
    (below : ∀ v, hostRoots hosts v → v.Below h.size) (name : String) :
    (hosts.get? name).map (·.snapshot h') = (hosts.get? name).map (·.snapshot h) := by
  cases known : hosts.get? name with
  | none => rfl
  | some hv =>
    have same := HostVars.Ok.snapshot_agree closed.below agree (below _ ⟨name, hv, known, Or.inl rfl⟩)
      (below _ ⟨name, hv, known, Or.inr rfl⟩)
    simp only [Option.map_some, same]

/-- A store on a heap that still has all its objects. -/
theorem Store.Ok.unchanged_of_agree (ok : store.Ok) {h : Heap} (agree : Heap.AgreeBelow store.heap.size store.heap h) :
    store.Unchanged { store with heap := h } where
  config := rfl
  inventory := rfl
  hosts := snapshot_of_agree ok.tidy.closed agree fun v root => ok.tidy.below v (Or.inl (Or.inr (Or.inr root)))
  result := Heap.view_agree ok.tidy.closed.below agree (ok.tidy.below _ (Or.inl (Or.inr (Or.inl rfl))))
  source := by
    intro name
    cases kept : store.source with
    | file data => rfl
    | memory data =>
      have below : ∀ v, hostRoots data v → v.Below store.heap.size :=
        fun v root => ok.tidy.below v (Or.inr (by rw [kept]; exact root))
      have same := snapshot_of_agree ok.tidy.closed agree below name
      simp only [Source.data]
      cases known : data.get? name with
      | none => rfl
      | some hv =>
        rw [known] at same
        simpa using same

/-- The result of the copy is committed before the first write. -/
theorem Store.Unchanged.setResult {store' : Store} (unchanged : store.Unchanged store') {result : Val}
    (same : store'.heap.view result = store'.heap.view store'.value.result) :
    store.Unchanged { store' with value := { store'.value with result := result } } where
  config := unchanged.config
  inventory := unchanged.inventory
  hosts := unchanged.hosts
  result := same.trans unchanged.result
  source := unchanged.source

end Unchanged

section Sync
variable {io : String → WriteReply} {newHosts : GoMap HostVars}

theorem changedHosts_cons_equal {h : Heap} {hn : String} {hv : HostVars} {rest : List (String × HostVars)}
    (same : hostEqual h ((newHosts.get? hn).getD .zero) hv = true) :
    changedHosts h newHosts ((hn, hv) :: rest) = changedHosts h newHosts rest := by
  simp [changedHosts, same]

theorem changedHosts_cons_differ {h : Heap} {hn : String} {hv : HostVars} {rest : List (String × HostVars)}
    (differ : ¬ hostEqual h ((newHosts.get? hn).getD .zero) hv = true) :
    changedHosts h newHosts ((hn, hv) :: rest) = hn :: changedHosts h newHosts rest := by
  simp [changedHosts, differ]

theorem Source.write_ok {reply : WriteReply} (ok : reply = .ok) (h : Heap) (hn : String) (hv : HostVars)
    (source : Source) : (source.write reply h hn hv).1 = true := by
  subst ok
  cases source <;> rfl

/-- A write that fails before it touches its file. -/
theorem Source.write_createFailed (h : Heap) (hn : String) (hv : HostVars) (source : Source) :
    (source.write .createFailed h hn hv).1 = true ∨ source.write .createFailed h hn hv = (false, source) := by
  cases source with
  | memory data => exact Or.inl rfl
  | file data => exact Or.inr rfl

/-- A memory source accepts every write. -/
theorem syncHosts_memory (entries : List (String × HostVars)) :
    ∀ {store : Store} {data : GoMap HostVars}, store.source = .memory data →
      (syncHosts io newHosts entries store).1 = .ok () := by
  induction entries with
  | nil => intros; rfl
  | cons e rest ih =>
    intro store data memory
    obtain ⟨hn, hv⟩ := e
    rw [syncHosts]
    split
    · exact ih memory
    · simp only [memory, Source.write]
      exact ih rfl

theorem syncHosts_ok (entries : List (String × HostVars)) : ∀ {store : Store},
    (∀ hn ∈ changedHosts store.heap newHosts entries, io hn = .ok) → (syncHosts io newHosts entries store).1 = .ok () := by
  induction entries with
  | nil => intros; rfl
  | cons e rest ih =>
    intro store accepted
    obtain ⟨hn, hv⟩ := e
    rw [syncHosts]
    split
    · next same =>
      rw [changedHosts_cons_equal same] at accepted
      exact ih accepted
    · next differ =>
      rw [changedHosts_cons_differ differ] at accepted
      have written := Source.write_ok (accepted hn (by simp)) store.heap hn ((newHosts.get? hn).getD .zero) store.source
      split
      · next run =>
        rw [run] at written
        cases written
      · exact ih fun hn member => accepted hn (List.mem_cons_of_mem _ member)

/-- A sync that fails at its first write leaves the store. -/
theorem syncHosts_failsFirst (entries : List (String × HostVars)) : ∀ {store : Store} {fault : Fault},
    FailsFirst io (changedHosts store.heap newHosts entries) →
      (syncHosts io newHosts entries store).1 = .error fault → (syncHosts io newHosts entries store).2 = store := by
  induction entries with
  | nil =>
    intro store fault _ failed
    cases failed
  | cons e rest ih =>
    intro store fault first failed
    obtain ⟨hn, hv⟩ := e
    by_cases same : hostEqual store.heap ((newHosts.get? hn).getD .zero) hv = true
    · rw [changedHosts_cons_equal same] at first
      rw [syncHosts, if_pos same] at failed ⊢
      exact ih first failed
    · obtain ⟨hn', head, reply⟩ := first
      rw [changedHosts_cons_differ same, List.head?_cons, Option.some.injEq] at head
      subst head
      rcases Source.write_createFailed store.heap hn ((newHosts.get? hn).getD .zero) store.source with ok | kept
      · -- only a memory source accepts the write, and it accepts the others as well
        cases source : store.source with
        | memory data =>
          rw [syncHosts_memory _ source] at failed
          cases failed
        | file data =>
          rw [source] at ok
          cases ok
      · rw [syncHosts, if_neg same, reply]
        simp only [kept]

end Sync

section Result
variable (env : Env)

theorem combineRuntime_result {hostname : String} {data : Val} {val val' : Value} {h h' : Heap}
    (run : combineRuntime hostname data val h = some (val', h')) : val'.result = val.result := by
  simp only [combineRuntime, Option.bind_eq_bind, Option.bind_eq_some_iff] at run
  obtain ⟨_, _, built⟩ := run
  cases built
  rfl

theorem mergeInto_result (data : Val) (hosts : List String) : ∀ (val : Value) (h : Heap),
    (mergeInto data hosts val h).2.1.result = val.result := by
  induction hosts with
  | nil => intros; rfl
  | cons hostname rest ih =>
    intro val h
    rw [mergeInto]
    split
    · rfl
    · next run => rw [ih, combineRuntime_result run]

theorem mergeRuntime_result (hosts : List String) : ∀ (node : Node) (val : Value) (h : Heap),
    (mergeRuntime env hosts node val h).2.2.1.result = val.result := by
  induction hosts with
  | nil => intros; rfl
  | cons hostname rest ih =>
    intro node val h
    rw [mergeRuntime]
    split
    · rfl
    · simp only
      split
      · rfl
      · next run => rw [ih, combineRuntime_result run]

theorem mergeRemote_result (data : Val) (h : Heap) (hosts : List String) : ∀ val : Value,
    (mergeRemote data h hosts val).2.result = val.result := by
  induction hosts with
  | nil => intros; rfl
  | cons hostname rest ih =>
    intro val
    rw [mergeRemote]
    split
    · rfl
    · split
      · rw [ih]
      · rw [ih]

/-- Only `MergeResultVariable` changes the result. -/
theorem MergeFunc.apply_result {f : MergeFunc} (keeps : f.keepsResult = true) (val : Value) (h : Heap) :
    (f.apply env val h).2.2.1.result = val.result := by
  cases f with
  | remote data hostnames => exact mergeRemote_result _ _ hostnames val
  | runtime node hosts =>
    rw [MergeFunc.apply]
    split
    · rfl
    · exact mergeRuntime_result env hosts node val h
  | hostsRuntime node hostname hosts =>
    rw [MergeFunc.apply]
    split
    · rfl
    · simp only [mergeHostsRuntime]
      split
      · rfl
      · exact mergeInto_result _ hosts val _
  | result data => cases keeps

end Result

/-- A merge that fails, without having written into the store or its source, is not seen. -/
theorem merge_failed_unchanged {env : Env} {io : String → WriteReply} {f f' : MergeFunc} {store store' : Store}
    {fault : Fault} (ok : store.Ok) (spares : f.Spares env store) (safely : f.WritesSafely env io store)
    (failed : merge env io f store = (.error fault, f', store')) : store.Unchanged store' := by
  obtain ⟨tidy, copied, _, agree⟩ := merge_applied env f ok
  have agree := agree spares
  have kept : f.keepsResult = true → _ := fun keeps =>
    MergeFunc.apply_result env keeps (deepCopy store.value store.heap).1 (deepCopy store.value store.heap).2
  rw [merge] at failed
  simp only at failed
  generalize applied : f.apply env (deepCopy store.value store.heap).1 (deepCopy store.value store.heap).2 = outcome
    at agree failed kept
  obtain ⟨r, g, nv, h⟩ := outcome
  have all : Heap.AgreeBelow store.heap.size store.heap h :=
    copied.grows.agree.trans (agree.mono copied.grows.size_le)
  have unchanged := ok.unchanged_of_agree all
  cases r with
  | error e =>
    cases failed
    exact unchanged
  | ok u =>
    simp only [Prod.mk.injEq] at failed
    obtain ⟨error, _, rfl⟩ := failed
    rcases safely g nv h applied with accepted | ⟨keeps, first⟩
    · rw [syncSource, syncHosts_ok _ accepted] at error
      cases error
    · rw [syncSource, syncHosts_failsFirst _ first error]
      refine unchanged.setResult ?_
      have result : nv.result = (deepCopy store.value store.heap).1.result := kept keeps
      have below := tidy.below _ (Or.inr (Or.inr (Or.inl rfl)))
      calc h.view nv.result = h.view (deepCopy store.value store.heap).1.result := by rw [result]
        _ = (deepCopy store.value store.heap).2.view (deepCopy store.value store.heap).1.result :=
          Heap.view_agree tidy.closed.below agree below
        _ = store.heap.view store.value.result := copied.result
        _ = h.view store.value.result := unchanged.result.symm

def strNode (s : String) : Node := .mk .scalar strTag s []

def mapNode (entries : List (String × Node)) : Node :=
  .mk .mapping "!!map" "" (entries.flatMap fun e => [strNode e.1, e.2])

/-- Libraries that know strings, and no template function. -/
def plainEnv : Env where
  render := fun _ _ => .error "function not defined"
  localIP := fun _ => ""
  parseFloat := fun _ => none
  decodeScalar := fun tag value => if tag = strTag then .ok (.str value) else .error "unsupported tag"
  decodeScalar_ne_null := by
    intro tag value _
    split <;> simp

/-- What `New` makes of an inventory with one host. -/
def node1Store : Store where
  heap := ⟨List.replicate 4 (.map .any .empty)⟩
  value := ⟨.empty, ⟨GoMap.empty.put "node1" .empty, .empty, .empty⟩,
    (GoMap.empty.put "node1" ⟨.ref 0, .ref 1⟩).put "localhost" ⟨.ref 2, .ref 3⟩, .nilMap .any⟩
  source := .file .empty

theorem node1Store_new :
    newVariable .empty ⟨GoMap.empty.put "node1" .empty, .empty, .empty⟩ (.file .empty) [] = .ok node1Store := rfl

theorem node1Store_reachable (env : Env) : Reachable env node1Store :=
  .new (show Source.isFresh (.file .empty) from trivial) node1Store_new

theorem outcome_eq {r : Except Fault Unit × MergeFunc × Store} {e : Except Fault Unit} (outcome : r.1 = e) :
    r = (e, r.2.1, r.2.2) := by
  rw [← outcome]

/-- A template that calls an unknown function. -/
def badTemplate : Node := strNode "\x7b\x7b bad \x7d\x7d"

theorem merge_failed_unchanged_node1 :
    node1Store.Ok ∧ (MergeFunc.runtime (mapNode [("b", badTemplate)]) ["node1"]).Spares plainEnv node1Store ∧
      (MergeFunc.runtime (mapNode [("b", badTemplate)]) ["node1"]).WritesSafely plainEnv (fun _ => .ok) node1Store ∧
      ∃ fault f' store', merge plainEnv (fun _ => .ok) (.runtime (mapNode [("b", badTemplate)]) ["node1"]) node1Store =
          (.error fault, f', store') ∧ node1Store.Unchanged store' := by
  have ok := (node1Store_reachable plainEnv).ok
  have spares : (MergeFunc.runtime (mapNode [("b", badTemplate)]) ["node1"]).Spares plainEnv node1Store := by
    refine Or.inr ⟨sparesFor_flat plainEnv ok.copy "node1" ?_, fun _ _ _ _ _ _ _ => trivial⟩
    intro e member
    have only : e = ([.key "b"], strTag) := by simpa [mapNode, badTemplate, strNode, Node.rootLeaves, Node.leaves,
      entryLeaves, Node.value] using member
    exact ⟨.key "b", by rw [only]⟩
  have safely : (MergeFunc.runtime (mapNode [("b", badTemplate)]) ["node1"]).WritesSafely plainEnv (fun _ => .ok)
      node1Store := fun _ _ _ _ => Or.inl fun _ _ => rfl
  have failed : (merge plainEnv (fun _ => .ok) (.runtime (mapNode [("b", badTemplate)]) ["node1"]) node1Store).1 =
      .error (.error (.template "function not defined")) := by decide +kernel
  exact ⟨ok, spares, safely, _, _, _, outcome_eq failed, merge_failed_unchanged ok spares safely (outcome_eq failed)⟩

/-- A map of the store that the context shares. -/
def sharedStore : Store := (merge plainEnv (fun _ => .ok) (.runtime (mapNode [("m", mapNode [])]) ["node1"]) node1Store).2.2

theorem failed_merge_seen :
    ∃ store io f fault f' store', Reachable plainEnv store ∧
      merge plainEnv io f store = (.error fault, f', store') ∧ ¬ store.Unchanged store' := by
  let f := MergeFunc.runtime (mapNode [("m", mapNode [("k", strNode "x")]), ("b", badTemplate)]) ["node1"]
  have failed : (merge plainEnv (fun _ => .ok) f sharedStore).1 =
      .error (.error (.template "function not defined")) := by decide +kernel
  refine ⟨sharedStore, fun _ => .ok, f, _, _, _, .merge (node1Store_reachable plainEnv) _ _, outcome_eq failed, ?_⟩
  intro unchanged
  have before : ((sharedStore.value.hosts.get? "node1").map (·.snapshot sharedStore.heap)).map
      (·.runtime [.key "m", .key "k"]) = some none := by decide +kernel
  have after : (((merge plainEnv (fun _ => .ok) f sharedStore).2.2.value.hosts.get? "node1").map
      (·.snapshot (merge plainEnv (fun _ => .ok) f sharedStore).2.2.heap)).map (·.runtime [.key "m", .key "k"]) =
      some (some (.scalar (.str "x"))) := by decide +kernel
  rw [unchanged.hosts, before] at after
  simp at after

end KubeKey.Variable
