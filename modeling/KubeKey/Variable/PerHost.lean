import KubeKey.Variable.Atomic
import KubeKey.Variable.Render

/-!
# Variables rendered for each host

`MergeRuntimeVariable` renders its node for one host after the other. The node is
passed by value, but its children are shared, so what is rendered for a host stays
in the node for the hosts and the merges that come later. Each host gets the
rendering of the original node for its own context when the node has no templates,
or when it is rendered for one host while it still has its original text
(`merge_renders`).
-/

namespace KubeKey.Variable

open KubeKey.Go

section Equal

/-- `==` holds of equal scalars only. -/
theorem scalarEqual_eq {a b : Scalar} (equal : scalarEqual a b = true) : a = b := by
  unfold scalarEqual at equal
  split at equal
  · simp only [Bool.and_eq_true, beq_iff_eq] at equal
    rw [equal.1]
  · simpa using equal

/-- Maps of one size, the keys of one among those of the other. -/
theorem get?_none_of_length {m m' : GoMap Val} (length : m.entries.length = m'.entries.length)
    (inside : ∀ e ∈ m.entries, (m'.get? e.1).isSome) {k : String} (absent : m.get? k = none) : m'.get? k = none := by
  have subset : m.keys ⊆ m'.keys := by
    intro k' member
    obtain ⟨e, found, rfl⟩ := List.mem_map.1 member
    exact GoMap.get?_isSome_iff.1 (inside e found)
  have perm : m.keys.Perm m'.keys :=
    (List.Nodup.subperm m.distinct subset).perm_of_length_le (by simp [GoMap.keys, length])
  cases found : m'.get? k with
  | none => rfl
  | some v =>
    have member : k ∈ m'.keys := GoMap.get?_isSome_iff.1 (by simp [found])
    have here := GoMap.get?_isSome_iff.2 (perm.mem_iff.2 member)
    simp [absent] at here

/-- `reflect.DeepEqual` holds of values with the same deep value only. -/
theorem deepEqual_view (fuel : Nat) (h : Heap) : ∀ a b, deepEqual fuel h a b = true → h.view a = h.view b := by
  induction fuel with
  | zero =>
    intro a b equal
    cases equal
  | succ fuel ih =>
    intro a b equal
    unfold deepEqual at equal
    split at equal
    · rw [scalarEqual_eq equal]
    · rw [eq_of_beq equal]
    · rw [eq_of_beq equal]
    · next l l' =>
      rw [Bool.or_eq_true] at equal
      rcases equal with same | deep
      · rw [eq_of_beq same]
      · split at deep
        · next t m t' m' left right =>
          simp only [Bool.and_eq_true, beq_iff_eq, List.all_eq_true] at deep
          obtain ⟨⟨_, length⟩, entries⟩ := deep
          have matched : ∀ e ∈ m.entries, ∃ w, m'.get? e.1 = some w ∧ h.view e.2 = h.view w := by
            intro e member
            have one := entries e member
            split at one
            · next w found => exact ⟨w, found, ih _ _ one⟩
            · cases one
          funext p
          cases p with
          | nil => simp [Heap.view_nil, Heap.shape, left, right, Obj.shape]
          | cons s p =>
            rw [Heap.view_cons, Heap.view_cons, Heap.child_ref left, Heap.child_ref right]
            cases s with
            | idx i => rfl
            | key k =>
              simp only [Obj.child]
              cases stored : m.get? k with
              | some v =>
                obtain ⟨w, found, view⟩ := matched (k, v) (GoMap.get?_eq_some_iff.1 stored)
                rw [found]
                exact congrFun view p
              | none =>
                have absent : m'.get? k = none := get?_none_of_length length (fun e member => by
                  obtain ⟨w, found, _⟩ := matched e member
                  simp [found]) stored
                rw [absent]
        · next t xs t' ys left right =>
          simp only [Bool.and_eq_true, beq_iff_eq, List.all_eq_true] at deep
          obtain ⟨⟨_, length⟩, items⟩ := deep
          funext p
          cases p with
          | nil => simp [Heap.view_nil, Heap.shape, left, right, Obj.shape, length]
          | cons s p =>
            rw [Heap.view_cons, Heap.view_cons, Heap.child_ref left, Heap.child_ref right]
            cases s with
            | key k => rfl
            | idx i =>
              simp only [Obj.child]
              by_cases inside : i < xs.length
              · have other : i < ys.length := by omega
                rw [List.getElem?_eq_getElem inside, List.getElem?_eq_getElem other]
                have pair : (xs[i], ys[i]) ∈ xs.zip ys := by
                  rw [List.mem_iff_getElem]
                  exact ⟨i, by simp [inside, other], by simp⟩
                exact congrFun (ih _ _ (items _ pair)) p
              · rw [List.getElem?_eq_none (Nat.not_lt.1 inside), List.getElem?_eq_none (by omega)]
        · cases deep
    · cases equal

theorem hostEqual_snapshot {h : Heap} {a b : HostVars} (equal : hostEqual h a b = true) : a.snapshot h = b.snapshot h := by
  rw [hostEqual, Bool.and_eq_true] at equal
  rw [HostVars.snapshot, HostVars.snapshot, deepEqual_view _ h _ _ equal.1, deepEqual_view _ h _ _ equal.2]

end Equal

/-- After a successful sync every host has the variables of the copy. -/
theorem syncHosts_snapshot {io : String → WriteReply} {newHosts : GoMap HostVars} (entries : List (String × HostVars))
    (distinct : (entries.map Prod.fst).Nodup) : ∀ {store store' : Store},
    syncHosts io newHosts entries store = (.ok (), store') → (∀ e ∈ entries, store.value.hosts.get? e.1 = some e.2) →
      (∀ e ∈ entries, ∃ hv, store'.value.hosts.get? e.1 = some hv ∧
        hv.snapshot store.heap = ((newHosts.get? e.1).getD .zero).snapshot store.heap) ∧
      ∀ name, name ∉ entries.map Prod.fst → store'.value.hosts.get? name = store.value.hosts.get? name := by
  induction entries with
  | nil =>
    intro store store' run _
    cases run
    exact ⟨by simp, fun _ _ => rfl⟩
  | cons e rest ih =>
    obtain ⟨hn, hv⟩ := e
    rw [List.map_cons, List.nodup_cons] at distinct
    intro store store' run stored
    rw [syncHosts] at run
    split at run
    · next same =>
      obtain ⟨others, outside⟩ := ih distinct.2 run fun e member => stored e (List.mem_cons_of_mem _ member)
      refine ⟨fun e member => ?_, fun name absent => ?_⟩
      · rcases List.mem_cons.1 member with rfl | later
        · refine ⟨hv, ?_, (hostEqual_snapshot same).symm⟩
          rw [outside hn distinct.1]
          exact stored (hn, hv) (by simp)
        · exact others e later
      · rw [List.map_cons, List.mem_cons, not_or] at absent
        exact outside name absent.2
    · split at run
      · simp at run
      · next source written =>
        obtain ⟨others, outside⟩ := ih distinct.2 run fun e member => by
          have other : e.1 ≠ hn := fun same => distinct.1 (same ▸ List.mem_map.2 ⟨e, member, rfl⟩)
          rw [GoMap.get?_put_ne _ _ other]
          exact stored e (List.mem_cons_of_mem _ member)
        refine ⟨fun e member => ?_, fun name absent => ?_⟩
        · rcases List.mem_cons.1 member with rfl | later
          · refine ⟨_, ?_, rfl⟩
            rw [outside hn distinct.1, GoMap.get?_put_self]
          · exact others e later
        · rw [List.map_cons, List.mem_cons, not_or] at absent
          rw [outside name absent.2, GoMap.get?_put_ne _ _ absent.1]

/-- The node rendered for a host: its templates filled in against the host's `GetAllVariable` map, into which the walk
also stores the variables that it has rendered. -/
def ownNode (env : Env) (val : Value) (hostname : String) (node : Node) (h : Heap) : Node :=
  match getAllVariable env.localIP val hostname h with
  | none => node
  | some (ctx, h) => (walkNode env ctx node h).2.1

section Rounds
variable {env : Env} {roots : Val → Prop} {val val' : Value} {hostname : String} {node node' : Node} {h h' : Heap}
  {entries : Option (List (String × Lit))}

theorem renderFor_ok (run : renderFor env val hostname node h = (.ok entries, node', h')) :
    decodeMap env (ownNode env val hostname node h) = .ok entries := by
  rw [renderFor] at run
  rw [ownNode]
  cases got : getAllVariable env.localIP val hostname h with
  | none =>
    rw [got] at run
    cases run
  | some found =>
    rw [got] at run
    exact (parseYamlNode_ok run).1

theorem parseYamlNode_left (env : Env) (ctx : Val) (node : Node) (h : Heap) :
    (parseYamlNode env ctx node h).2.1 = (walkNode env ctx node h).2.2.1 := by
  unfold parseYamlNode
  generalize walkNode env ctx node h = outcome
  obtain ⟨result, done, left, h₁⟩ := outcome
  cases result with
  | error f => rfl
  | ok u =>
    simp only
    split <;> rfl

/-- Without templates every host gets the node itself. -/
theorem ownNode_templateFree (free : node.templateFree = true) : ownNode env val hostname node h = node := by
  rw [ownNode]
  split
  · rfl
  · next ctx h₀ _ => exact (walkNode_templateFree env ctx free h₀).1

/-- A node without templates stays as it is, also when its rendering fails. -/
theorem renderFor_templateFree (env : Env) (val : Value) (hostname : String) (h : Heap) (free : node.templateFree = true) :
    (renderFor env val hostname node h).2.1 = node := by
  rw [renderFor]
  split
  · rfl
  · next ctx h₀ _ =>
    rw [parseYamlNode_left]
    exact (walkNode_templateFree env ctx free h₀).2

theorem mergeRuntime_templateFree (free : node.templateFree = true) (hosts : List String) : ∀ (val : Value) (h : Heap),
    (mergeRuntime env hosts node val h).2.1 = node := by
  induction hosts with
  | nil => intros; rfl
  | cons hostname rest ih =>
    intro val h
    have left := renderFor_templateFree env val hostname h free
    rw [mergeRuntime]
    generalize renderFor env val hostname node h = outcome at left
    obtain ⟨result, node₁, h₁⟩ := outcome
    cases left
    cases result with
    | error f => rfl
    | ok entries =>
      simp only
      split
      · rfl
      · next val₁ h₂ _ => exact ih val₁ h₂

/-- The loop over the hosts, for a node without templates. -/
theorem mergeRuntime_progress {orig : String → Option DeepView} (free : node.templateFree = true)
    (parsed : node.parsed = true) (plain : node.plain) (decoded : decodeMap env node = .ok entries)
    (hosts : List String) : ∀ {val : Value} {h : Heap} {done : List String},
      Tidy (fun v => roots v ∨ val.roots v) h → (convertGroup val.inventory).isSome →
      mergeRuntime env hosts node val h = (.ok (), node', val', h') → Progress orig (dataView entries) done val h →
        Progress orig (dataView entries) (hosts.reverse ++ done) val' h' := by
  induction hosts with
  | nil =>
    intro val h done _ _ run progress
    cases run
    exact progress
  | cons hostname rest ih =>
    intro val h done tidy expands run progress
    obtain ⟨data, node₁, h₁, l, h₃, rendered, tidy₃, round, later⟩ := mergeRuntime_cons tidy expands run
    have left := renderFor_templateFree env val hostname h free
    rw [rendered] at left
    cases left
    have own := renderFor_ok rendered
    rw [ownNode_templateFree free, decoded] at own
    cases own
    have next := ih tidy₃ expands later (round parsed plain orig done progress)
    rwa [List.reverse_cons, List.append_assoc]

/-- What the loop leaves for its hosts, if no host sees what was rendered for another. -/
theorem mergeRuntime_renders {orig : String → Option DeepView} {hosts : List String}
    (tidy : Tidy (fun v => roots v ∨ val.roots v) h) (expands : (convertGroup val.inventory).isSome)
    (parsed : node.parsed = true) (plain : node.plain) (apart : node.templateFree = true ∨ hosts.length ≤ 1)
    (start : ∀ D, Progress orig D [] val h) (run : mergeRuntime env hosts node val h = (.ok (), node', val', h'))
    {name : String} (member : name ∈ hosts) {old : DeepView} (known : orig name = some old) :
    ∃ hv entries, val'.hosts.get? name = some hv ∧ decodeMap env (ownNode env val name node h) = .ok entries ∧
      h'.view hv.runtimeVars = overlay old (dataView entries) := by
  obtain ⟨first, rest, rfl⟩ := List.exists_cons_of_ne_nil (List.ne_nil_of_mem member)
  obtain ⟨entries, node₁, h₁, l, h₃, rendered, _, round, later⟩ := mergeRuntime_cons tidy expands run
  have decoded := renderFor_ok rendered
  suffices ∃ done, name ∈ done ∧ Progress orig (dataView entries) done val' h' ∧
      decodeMap env (ownNode env val name node h) = .ok entries by
    obtain ⟨done, finished, progress, own⟩ := this
    obtain ⟨hv, stored, agree, settled⟩ := progress name old known
    exact ⟨hv, entries, stored, own, eq_overlay agree (settled finished)⟩
  rcases apart with free | single
  · rw [ownNode_templateFree free] at decoded ⊢
    have progress := mergeRuntime_progress free parsed plain decoded (first :: rest) tidy expands run (start _)
    exact ⟨_, by simpa [or_comm] using member, progress, decoded⟩
  · obtain rfl : rest = [] := List.length_eq_zero_iff.1 (by simpa using single)
    obtain rfl : name = first := by simpa using member
    cases later
    exact ⟨[name], by simp, round parsed plain orig [] (start _), decoded⟩

end Rounds

/-- After a merge the runtime variables of each host are those before, with the node as rendered for the host itself merged
over them. -/
def RendersEach (env : Env) (store : Store) (node : Node) (hosts : List String) (store' : Store) : Prop :=
  ∀ name ∈ hosts, ∀ hv, store.value.hosts.get? name = some hv → ∃ hv' entries,
    store'.value.hosts.get? name = some hv' ∧
      decodeMap env (ownNode env (deepCopy store.value store.heap).1 name node (deepCopy store.value store.heap).2) =
        .ok entries ∧
      store'.heap.view hv'.runtimeVars = overlay (store.heap.view hv.runtimeVars) (dataView entries)

section Merge
variable {env : Env} {io : String → WriteReply} {store store' : Store} {node : Node} {hosts : List String} {f' : MergeFunc}

/-- A successful merge whose hosts do not see what was rendered for each other. -/
theorem merge_rendersEach (ok : store.Ok) (nonzero : node.isZero = false) (parsed : node.parsed = true)
    (plain : node.plain) (apart : node.templateFree = true ∨ hosts.length ≤ 1)
    (merged : merge env io (.runtime node hosts) store = (.ok (), f', store')) :
    RendersEach env store node hosts store' := by
  obtain ⟨copied, tidy⟩ := deepCopy_copied ok.tidy fun v => Or.inl (b := store.source.roots v)
  have expands : (convertGroup (deepCopy store.value store.heap).1.inventory).isSome := by
    rw [copied.inventory]
    exact ok.expands
  rw [merge] at merged
  simp only [MergeFunc.apply, nonzero, Bool.false_eq_true, if_false] at merged
  generalize applied : mergeRuntime env hosts node (deepCopy store.value store.heap).1 (deepCopy store.value store.heap).2 =
    outcome at merged
  obtain ⟨result, node', nv, h⟩ := outcome
  cases result with
  | error e => cases merged
  | ok u =>
    simp only [Prod.mk.injEq] at merged
    obtain ⟨synced, _, rfl⟩ := merged
    intro name member hv known
    -- the runtime variables that the copy has at the start of the loop
    let orig := fun name => (store.value.hosts.get? name).map fun hv => store.heap.view hv.runtimeVars
    have start : ∀ D, Progress orig D [] (deepCopy store.value store.heap).1 (deepCopy store.value store.heap).2 := by
      intro D name old before
      obtain ⟨hv, stored, rfl⟩ := Option.map_eq_some_iff.1 before
      obtain ⟨hv', there, same⟩ := copied.hosts name hv stored
      have view := congrArg Snapshot.runtime same
      exact ⟨hv', there, fun p _ => congrFun view p, fun done => absurd done List.not_mem_nil⟩
    obtain ⟨hv', entries, there, decoded, view⟩ := mergeRuntime_renders tidy expands parsed plain apart start applied member
      (Option.map_eq_some_iff.2 ⟨hv, known, rfl⟩)
    have run : syncSource io nv { store with heap := h } = (.ok (), (syncSource io nv { store with heap := h }).2) :=
      Prod.ext synced rfl
    obtain ⟨heap, _, _⟩ := syncSource_roots io nv { store with heap := h }
    obtain ⟨written, _⟩ := syncHosts_snapshot store.value.hosts.entries store.value.hosts.distinct run
      fun e inside => GoMap.get?_eq_some_iff.2 inside
    obtain ⟨hv₂, final, same⟩ := written (name, hv) (GoMap.get?_eq_some_iff.1 known)
    refine ⟨hv₂, entries, final, decoded, ?_⟩
    rw [heap]
    rw [there] at same
    exact (congrArg Snapshot.runtime same).trans view

/-- A merge for one host succeeds if the node can be rendered for it and nothing fails to be written. -/
theorem merge_single_ok (ok : store.Ok) (nonzero : node.isZero = false) (written : ∀ name, io name = .ok)
    (hostname : String) : (merge env io (.runtime node [hostname]) store).1 = .ok () ↔
      (renderFor env (deepCopy store.value store.heap).1 hostname node (deepCopy store.value store.heap).2).1.isOk = true := by
  obtain ⟨copied, tidy⟩ := deepCopy_copied ok.tidy fun v => Or.inl (b := store.source.roots v)
  have expands : (convertGroup (deepCopy store.value store.heap).1.inventory).isSome := by
    rw [copied.inventory]
    exact ok.expands
  obtain ⟨tidy₁, _, _⟩ := renderFor_tidy env hostname node tidy (fun _ => Or.inr) expands
  rw [merge]
  simp only [MergeFunc.apply, nonzero, Bool.false_eq_true, if_false, mergeRuntime]
  generalize renderFor env (deepCopy store.value store.heap).1 hostname node (deepCopy store.value store.heap).2 = outcome
    at tidy₁
  obtain ⟨result, node₁, h₁⟩ := outcome
  cases result with
  | error f => exact ⟨fun done => (by cases done), fun done => (by cases done)⟩
  | ok entries =>
    obtain ⟨l, h₃, combine, _, _⟩ := combineRuntime_leaves (allocEntries_tidy tidy₁ entries) (Or.inr rfl) hostname
    simp only [combine]
    exact ⟨fun _ => rfl, fun _ => syncHosts_ok _ fun name _ => written name⟩

/-- A merge leaves a node without templates as it was, also when it fails. -/
theorem merge_templateFree (env : Env) (io : String → WriteReply) (hosts : List String) (store : Store)
    (free : node.templateFree = true) : (merge env io (.runtime node hosts) store).2.1 = .runtime node hosts := by
  have applied : (MergeFunc.apply env (.runtime node hosts) (deepCopy store.value store.heap).1
      (deepCopy store.value store.heap).2).2.1 = .runtime node hosts := by
    rw [MergeFunc.apply]
    split
    · rfl
    · simp only [mergeRuntime_templateFree free]
  rw [merge]
  simp only
  generalize MergeFunc.apply env (.runtime node hosts) (deepCopy store.value store.heap).1
    (deepCopy store.value store.heap).2 = outcome at applied
  obtain ⟨result, f', nv, h⟩ := outcome
  cases result <;> exact applied

end Merge

/-- A vars node and the store, in the course of a run: the node is merged for lists of hosts, with other merges between. -/
inductive NodeRun (env : Env) (original : Node) : Store → Node → Prop where
  | start {store : Store} (reachable : Reachable env store) : NodeRun env original store original
  | merged {store : Store} {node node' : Node} (run : NodeRun env original store node) (io : String → WriteReply)
      (hosts : List String) (left : (merge env io (.runtime node hosts) store).2.1 = .runtime node' hosts) :
      NodeRun env original (merge env io (.runtime node hosts) store).2.2 node'
  | other {store : Store} {node : Node} (run : NodeRun env original store node) (io : String → WriteReply)
      (f : MergeFunc) : NodeRun env original (merge env io f store).2.2 node

namespace NodeRun
variable {env : Env} {original node : Node} {store : Store}

theorem reachable (run : NodeRun env original store node) : Reachable env store := by
  induction run with
  | start reachable => exact reachable
  | merged _ io hosts _ ih => exact .merge ih io _
  | other _ io f ih => exact .merge ih io f

/-- A node without templates has its original text for the whole run. -/
theorem templateFree (run : NodeRun env original store node) (free : original.templateFree = true) : node = original := by
  induction run with
  | start _ => rfl
  | @merged store node node' _ io hosts left ih =>
    subst ih
    rw [merge_templateFree env io hosts store free] at left
    cases left
    rfl
  | other _ _ _ ih => exact ih

end NodeRun

/-- Libraries whose templates all give the name of the host. -/
def nameEnv : Env where
  render := fun ctx _ => match ctx [.key variableInventoryName] with
    | some (.scalar (.str s)) => .ok s
    | _ => .error "no value"
  localIP := fun _ => ""
  parseFloat := fun _ => none
  decodeScalar := plainEnv.decodeScalar
  decodeScalar_ne_null := plainEnv.decodeScalar_ne_null

end KubeKey.Variable
