import KubeKey.Variable.Invariant
import KubeKey.Variable.Spare

/-!
# Reachable stores

Every store that `New` and any sequence of merges lead to, failed merges included,
satisfies the invariant (`Reachable.tidy`). An operation is described by what it
leaves for the roots that it does not own (`Leaves`), and by a frame: unless the
rendering writes into containers of the store, all that was on the heap before the
merge is still there (`merge_applied`).
-/

namespace KubeKey.Variable

open KubeKey.Go

/-- The maps that the source keeps. -/
def Source.roots : Source → Val → Prop
  | .memory data, v => hostRoots data v
  | .file _, _ => False

/-- The maps that a store keeps. -/
def Store.roots (store : Store) (v : Val) : Prop := store.value.roots v ∨ store.source.roots v

/-- What an operation on the copy `val` leaves, beside the other `roots`. -/
structure Leaves (roots : Val → Prop) (h : Heap) (val val' : Value) (h' : Heap) : Prop where
  tidy : Tidy (fun v => roots v ∨ val'.roots v) h'
  size_le : h.size ≤ h'.size
  inventory : val'.inventory = val.inventory

/-- The value with other runtime variables for one host. -/
def Value.setRuntime (val : Value) (hostname : String) (runtimeVars : Val) : Value :=
  let hv := (val.hosts.get? hostname).getD .zero
  { val with hosts := val.hosts.put hostname { hv with runtimeVars := runtimeVars } }

/-- Rendering the node for the host writes no container below `base`. -/
def SparesFor (env : Env) (base : Nat) (val : Value) (hostname : String) (node : Node) (h : Heap) : Prop :=
  ∀ ctx h', getAllVariable env.localIP val hostname h = some (ctx, h') →
    ∀ e ∈ node.rootVisited env ctx h', Spares base h' ctx e.1

/-- Rendering the node for one host after the other writes no container below `base`. -/
def SparesAll (env : Env) (base : Nat) : List String → Node → Value → Heap → Prop
  | [], _, _, _ => True
  | hostname :: rest, node, val, h =>
    SparesFor env base val hostname node h ∧
      ∀ entries node' h', renderFor env val hostname node h = (.ok entries, node', h') →
        ∀ val' h'', combineRuntime hostname (allocEntries entries h').1 val (allocEntries entries h').2 =
          some (val', h'') → SparesAll env base rest node' val' h''

/-- The renderings of a merge function write no container below `base`. -/
def MergeFunc.SparesOn (env : Env) (base : Nat) (val : Value) (h : Heap) : MergeFunc → Prop
  | .runtime node hosts => node.isZero = true ∨ SparesAll env base hosts node val h
  | .hostsRuntime node hostname _ => node.isZero = true ∨ SparesFor env base val hostname node h
  | _ => True

/-- The renderings of a merge write no container of the store or of the copy. -/
def MergeFunc.Spares (env : Env) (store : Store) (f : MergeFunc) : Prop :=
  f.SparesOn env (deepCopy store.value store.heap).2.size (deepCopy store.value store.heap).1
    (deepCopy store.value store.heap).2

section Render
variable {roots : Val → Prop} {val : Value} {hostname : String} {h : Heap}

theorem IsContext.storable {localIP : String → String} {l : Nat} {h' : Heap} (sound : Sound h)
    (context : IsContext h localIP val hostname l h') : Storable h' (.ref l) where
  closed := context.newest.heapClosed
  acyclic := sound.acyclic.grows sound.closed context.grows
  below := by
    show l < h'.size
    have size := context.newest.size
    omega
  map := by
    obtain ⟨m, object, _⟩ := context.newest.object
    simp [Heap.shape, object, Obj.shape]

/-- Rendering for a host: the context is built and the walk stores into it. -/
theorem renderFor_stores (env : Env) (node : Node) (ok : val.Ok h) (hostname : String) :
    ∃ l h₁, getAllVariable env.localIP val hostname h = some (.ref l, h₁) ∧
      IsContext h env.localIP val hostname l h₁ ∧
      renderFor env val hostname node h = parseYamlNode env (.ref l) node h₁ ∧
      Stores (.ref l) (node.rootVisited env (.ref l) h₁) h₁ (renderFor env val hostname node h).2.2 := by
  obtain ⟨l, h₁, run, context⟩ := getAllVariable_built ok env.localIP hostname
  have render : renderFor env val hostname node h = parseYamlNode env (.ref l) node h₁ := by
    simp only [renderFor, run]
  refine ⟨l, h₁, run, context, render, ?_⟩
  rw [render]
  exact parseYamlNode_stores env (.ref l) node h₁ (context.storable ⟨ok.closed, ok.acyclic⟩)

theorem renderFor_tidy (env : Env) (hostname : String) (node : Node) (tidy : Tidy roots h)
    (own : ∀ v, val.roots v → roots v) (expands : (convertGroup val.inventory).isSome) :
    Tidy roots (renderFor env val hostname node h).2.2 ∧ h.size ≤ (renderFor env val hostname node h).2.2.size ∧
      ∀ base ≤ h.size, SparesFor env base val hostname node h →
        Heap.AgreeBelow base h (renderFor env val hostname node h).2.2 := by
  obtain ⟨l, h₁, run, context, _, stores⟩ := renderFor_stores env node (tidy.valueOk own expands) hostname
  have storable := context.storable tidy.toSound
  refine ⟨(tidy.grows context.grows storable.closed).stores stores,
    Nat.le_trans context.grows.size_le stores.size_le, ?_⟩
  intro base old spares
  refine (context.grows.agree.mono old).trans ?_
  exact stores.agree storable (Nat.le_trans old context.grows.size_le) (spares _ _ run)

end Render

/-- Rendering variables that are not nested writes into the context only. -/
theorem sparesFor_flat (env : Env) {val : Value} {h : Heap} (ok : val.Ok h) (hostname : String) {node : Node}
    (flat : ∀ e ∈ node.rootLeaves, ∃ s, e.1 = [s]) : SparesFor env h.size val hostname node h := by
  intro ctx h' run e member
  obtain ⟨l, h₁, built, context⟩ := getAllVariable_built ok env.localIP hostname
  rw [built] at run
  cases run
  obtain ⟨s, single⟩ := flat e (rootVisited_leaves env _ node _ e member)
  rw [single]
  exact spares_singleton context.fresh s

theorem allocEntries_placed (entries : Option (List (String × Lit))) {h : Heap} (closed : h.Closed) :
    Placed h ((entries.elim baseView) fun es => (Lit.map .any es).view) (allocEntries entries h).1
      (allocEntries entries h).2 := by
  cases entries with
  | some es => exact Lit.alloc_placed (.map .any es) h closed
  | none => exact extension2Variables_placed .invalid closed

theorem allocEntries_root (entries : Option (List (String × Lit))) :
    ((entries.elim baseView) fun es => (Lit.map .any es).view) [] = some .map := by
  cases entries <;> rfl

/-- The data of a merge joins the roots. -/
theorem allocEntries_tidy {roots : Val → Prop} {val : Value} {h : Heap} (tidy : Tidy (fun v => roots v ∨ val.roots v) h)
    (entries : Option (List (String × Lit))) :
    Tidy (fun v => (roots v ∨ v = (allocEntries entries h).1) ∨ val.roots v) (allocEntries entries h).2 :=
  (tidy.placed (allocEntries_placed entries tidy.closed) (allocEntries_root entries)).mono (by tauto)

section Hosts
variable {roots : Val → Prop} {val : Value} {hostname : String} {h : Heap}

theorem hostRoots_put {hosts : GoMap HostVars} {hv : HostVars} {v : Val} (root : hostRoots (hosts.put hostname hv) v) :
    hostRoots hosts v ∨ v = hv.remoteVars ∨ v = hv.runtimeVars := by
  obtain ⟨name, hv', known, here⟩ := root
  rw [GoMap.get?_put] at known
  split at known
  · cases known
    exact Or.inr here
  · exact Or.inl ⟨name, hv', known, here⟩

/-- The maps of a value after one host has changed. -/
theorem roots_put {hv : HostVars} {v : Val}
    (root : ({ val with hosts := val.hosts.put hostname hv } : Value).roots v) :
    val.roots v ∨ v = hv.remoteVars ∨ v = hv.runtimeVars := by
  rcases root with nil | result | host
  · exact Or.inl (Or.inl nil)
  · exact Or.inl (Or.inr (Or.inl result))
  · rcases hostRoots_put host with old | new
    · exact Or.inl (Or.inr (Or.inr old))
    · exact Or.inr new

theorem roots_getD (val : Value) (hostname : String) :
    val.roots ((val.hosts.get? hostname).getD .zero).remoteVars ∧
      val.roots ((val.hosts.get? hostname).getD .zero).runtimeVars := by
  cases known : val.hosts.get? hostname with
  | none => exact ⟨Or.inl rfl, Or.inl rfl⟩
  | some hv => exact ⟨Or.inr (Or.inr ⟨hostname, hv, known, Or.inl rfl⟩), Or.inr (Or.inr ⟨hostname, hv, known, Or.inr rfl⟩)⟩

/-- The variables of a host after a merge, on the heap. -/
theorem combineRuntime_leaves {data : Val} (tidy : Tidy (fun v => roots v ∨ val.roots v) h) (kept : roots data)
    (hostname : String) :
    ∃ l h', combineRuntime hostname data val h = some (val.setRuntime hostname (.ref l), h') ∧
      CombinedTop h ((val.hosts.get? hostname).getD .zero).runtimeVars data l h' ∧
      Leaves roots h val (val.setRuntime hostname (.ref l)) h' := by
  have own := roots_getD val hostname
  obtain ⟨l, h', run, combined, tidy'⟩ := tidy.combine (Or.inr own.2) (Or.inl kept)
  refine ⟨l, h', by simp [combineRuntime, run, Value.setRuntime], combined, ?_, combined.grows.size_le, rfl⟩
  refine tidy'.mono ?_
  rintro v (root | root)
  · exact Or.inl (Or.inl root)
  · rcases roots_put root with old | remote | runtime
    · exact Or.inl (Or.inr old)
    · exact Or.inl (Or.inr (remote ▸ own.1))
    · exact Or.inr runtime

end Hosts

theorem mergeInto_leaves {roots : Val → Prop} {data : Val} (kept : roots data) (hosts : List String) :
    ∀ {val : Value} {h : Heap}, Tidy (fun v => roots v ∨ val.roots v) h →
      Leaves roots h val (mergeInto data hosts val h).2.1 (mergeInto data hosts val h).2.2 ∧
        Heap.AgreeBelow h.size h (mergeInto data hosts val h).2.2 := by
  induction hosts with
  | nil =>
    intro val h tidy
    exact ⟨⟨tidy, Nat.le_refl _, rfl⟩, Heap.AgreeBelow.refl _ _⟩
  | cons hostname rest ih =>
    intro val h tidy
    obtain ⟨l, h', run, combined, leaves⟩ := combineRuntime_leaves tidy kept hostname
    obtain ⟨leaves', agree⟩ := ih leaves.tidy
    simp only [mergeInto, run]
    exact ⟨⟨leaves'.tidy, Nat.le_trans leaves.size_le leaves'.size_le, leaves'.inventory⟩,
      combined.grows.agree.trans (agree.mono leaves.size_le)⟩

theorem mergeRuntime_leaves (env : Env) {roots : Val → Prop} (hosts : List String) :
    ∀ (node : Node) {val : Value} {h : Heap}, Tidy (fun v => roots v ∨ val.roots v) h →
      (convertGroup val.inventory).isSome →
      Leaves roots h val (mergeRuntime env hosts node val h).2.2.1 (mergeRuntime env hosts node val h).2.2.2 ∧
        ∀ base ≤ h.size, SparesAll env base hosts node val h →
          Heap.AgreeBelow base h (mergeRuntime env hosts node val h).2.2.2 := by
  induction hosts with
  | nil =>
    intro node val h tidy _
    exact ⟨⟨tidy, Nat.le_refl _, rfl⟩, fun _ _ _ => Heap.AgreeBelow.refl _ _⟩
  | cons hostname rest ih =>
    intro node val h tidy expands
    obtain ⟨tidy₁, size₁, agree₁⟩ := renderFor_tidy env hostname node tidy (fun _ => Or.inr) expands
    rw [mergeRuntime]
    generalize rendered : renderFor env val hostname node h = outcome at tidy₁ size₁ agree₁
    obtain ⟨result, node', h₁⟩ := outcome
    cases result with
    | error f => exact ⟨⟨tidy₁, size₁, rfl⟩, fun base old spares => agree₁ base old spares.1⟩
    | ok entries =>
      have placed := allocEntries_placed entries tidy₁.closed
      have tidy₂ := allocEntries_tidy tidy₁ entries
      obtain ⟨l, h₃, run, combined, leaves⟩ := combineRuntime_leaves tidy₂ (Or.inr rfl) hostname
      have tidy₃ : Tidy (fun v => roots v ∨ (val.setRuntime hostname (.ref l)).roots v) h₃ :=
        leaves.tidy.mono (by tauto)
      obtain ⟨leaves', agree'⟩ := ih node' tidy₃ expands
      have later : h.size ≤ h₃.size :=
        Nat.le_trans size₁ (Nat.le_trans placed.grows.size_le leaves.size_le)
      simp only [run]
      refine ⟨⟨leaves'.tidy, Nat.le_trans later leaves'.size_le, leaves'.inventory⟩, fun base old spares => ?_⟩
      have first := agree₁ base old spares.1
      have second : Heap.AgreeBelow base h₁ h₃ := (placed.grows.trans combined.grows).agree.mono (Nat.le_trans old size₁)
      exact (first.trans second).trans
        (agree' base (Nat.le_trans old later) (spares.2 entries node' h₁ rendered _ _ run))

theorem mergeHostsRuntime_leaves (env : Env) {roots : Val → Prop} (node : Node) (hostname : String) (hosts : List String)
    {val : Value} {h : Heap} (tidy : Tidy (fun v => roots v ∨ val.roots v) h)
    (expands : (convertGroup val.inventory).isSome) :
    Leaves roots h val (mergeHostsRuntime env node hostname hosts val h).2.2.1
        (mergeHostsRuntime env node hostname hosts val h).2.2.2 ∧
      ∀ base ≤ h.size, SparesFor env base val hostname node h →
        Heap.AgreeBelow base h (mergeHostsRuntime env node hostname hosts val h).2.2.2 := by
  obtain ⟨tidy₁, size₁, agree₁⟩ := renderFor_tidy env hostname node tidy (fun _ => Or.inr) expands
  rw [mergeHostsRuntime]
  generalize renderFor env val hostname node h = outcome at tidy₁ size₁ agree₁
  obtain ⟨result, node', h₁⟩ := outcome
  cases result with
  | error f => exact ⟨⟨tidy₁, size₁, rfl⟩, agree₁⟩
  | ok entries =>
    have placed := allocEntries_placed entries tidy₁.closed
    have tidy₂ := allocEntries_tidy tidy₁ entries
    obtain ⟨leaves, agree⟩ := mergeInto_leaves (Or.inr rfl) hosts tidy₂
    have later := Nat.le_trans size₁ placed.grows.size_le
    refine ⟨⟨leaves.tidy.mono (by tauto), Nat.le_trans later leaves.size_le, leaves.inventory⟩, ?_⟩
    intro base old spares
    have second : Heap.AgreeBelow base h₁ _ := placed.grows.agree.mono (Nat.le_trans old size₁)
    exact ((agree₁ base old spares).trans second).trans (agree.mono (Nat.le_trans old later))

theorem mergeRemote_leaves {roots : Val → Prop} {data : Val} {h : Heap} (kept : roots data) (hosts : List String) :
    ∀ {val : Value}, Tidy (fun v => roots v ∨ val.roots v) h → Leaves roots h val (mergeRemote data h hosts val).2 h := by
  induction hosts with
  | nil =>
    intro val tidy
    exact ⟨tidy, Nat.le_refl _, rfl⟩
  | cons hostname rest ih =>
    intro val tidy
    rw [mergeRemote]
    split
    · exact ⟨tidy, Nat.le_refl _, rfl⟩
    · next hv known =>
      split
      · have tidy' : Tidy (fun v => roots v ∨
            ({ val with hosts := val.hosts.put hostname { hv with remoteVars := data } } : Value).roots v) h := by
          refine tidy.mono ?_
          rintro v (root | root)
          · exact Or.inl root
          · rcases roots_put root with old | remote | runtime
            · exact Or.inr old
            · exact Or.inl (remote ▸ kept)
            · exact Or.inr (Or.inr (Or.inr ⟨hostname, hv, known, Or.inr runtime⟩))
        have leaves := ih tidy'
        exact ⟨leaves.tidy, leaves.size_le, leaves.inventory⟩
      · exact ih tidy

theorem mergeResult_leaves {roots : Val → Prop} (result : Lit) {val : Value} {h : Heap}
    (tidy : Tidy (fun v => roots v ∨ val.roots v) h) :
    Leaves roots h val (mergeResult result val h).2.1 (mergeResult result val h).2.2 ∧
      Heap.AgreeBelow h.size h (mergeResult result val h).2.2 := by
  have placed := Lit.alloc_placed (.map .any [(resultKey, result)]) h tidy.closed
  obtain ⟨l, h', run, combined, tidy'⟩ := (tidy.placed placed rfl).combine
    (Or.inl (Or.inr (Or.inr (Or.inl rfl)))) (Or.inr rfl)
  simp only [mergeResult, run]
  refine ⟨⟨tidy'.mono ?_, (placed.grows.trans combined.grows).size_le, rfl⟩, (placed.grows.trans combined.grows).agree⟩
  rintro v (root | nil | new | host)
  · exact Or.inl (Or.inl (Or.inl root))
  · exact Or.inl (Or.inl (Or.inr (Or.inl nil)))
  · exact Or.inr new
  · exact Or.inl (Or.inl (Or.inr (Or.inr (Or.inr host))))

/-- What a merge function leaves of the copy it is applied to. -/
theorem MergeFunc.apply_leaves (env : Env) {roots : Val → Prop} (f : MergeFunc) {val : Value} {h : Heap}
    (tidy : Tidy (fun v => roots v ∨ val.roots v) h) (expands : (convertGroup val.inventory).isSome) :
    Leaves roots h val (f.apply env val h).2.2.1 (f.apply env val h).2.2.2 ∧
      ∀ base ≤ h.size, f.SparesOn env base val h → Heap.AgreeBelow base h (f.apply env val h).2.2.2 := by
  have unchanged : Leaves roots h val val h := ⟨tidy, Nat.le_refl _, rfl⟩
  cases f with
  | remote data hostnames =>
    have placed := Lit.alloc_placed (.map .any data) h tidy.closed
    have tidy₁ : Tidy (fun v => (roots v ∨ v = ((Lit.map .any data).alloc h).1) ∨ val.roots v)
        ((Lit.map .any data).alloc h).2 := (tidy.placed placed rfl).mono (by tauto)
    have leaves := mergeRemote_leaves (Or.inr rfl) hostnames tidy₁
    exact ⟨⟨leaves.tidy.mono (by tauto), placed.grows.size_le, leaves.inventory⟩,
      fun base old _ => placed.grows.agree.mono old⟩
  | runtime node hosts =>
    rw [MergeFunc.apply]
    split
    · exact ⟨unchanged, fun _ _ _ => Heap.AgreeBelow.refl _ _⟩
    · next notZero =>
      obtain ⟨leaves, agree⟩ := mergeRuntime_leaves env hosts node tidy expands
      exact ⟨leaves, fun base old spares => agree base old (spares.resolve_left notZero)⟩
  | hostsRuntime node hostname hosts =>
    rw [MergeFunc.apply]
    split
    · exact ⟨unchanged, fun _ _ _ => Heap.AgreeBelow.refl _ _⟩
    · next notZero =>
      obtain ⟨leaves, agree⟩ := mergeHostsRuntime_leaves env node hostname hosts tidy expands
      exact ⟨leaves, fun base old spares => agree base old (spares.resolve_left notZero)⟩
  | result data =>
    obtain ⟨leaves, agree⟩ := mergeResult_leaves data tidy
    exact ⟨leaves, fun base old _ => agree.mono old⟩

/-- The deep values of the two maps of a host. -/
def HostVars.snapshot (hv : HostVars) (h : Heap) : Snapshot := ⟨h.view hv.remoteVars, h.view hv.runtimeVars⟩

theorem HostVars.Ok.snapshot_agree {b : Nat} {h h' : Heap} {hv : HostVars} (closed : h.ClosedBelow b)
    (agree : Heap.AgreeBelow b h h') (remote : hv.remoteVars.Below b) (runtime : hv.runtimeVars.Below b) :
    hv.snapshot h' = hv.snapshot h := by
  rw [HostVars.snapshot, HostVars.snapshot, Heap.view_agree closed agree remote, Heap.view_agree closed agree runtime]

section Copy
variable {roots : Val → Prop} {h : Heap}

/-- The copy of a map has its own top and the same entries. -/
theorem cloneMap_tidy {v : Val} (tidy : Tidy roots h) (root : roots v) :
    Heap.Grows h (cloneMap v h).2 ∧ (cloneMap v h).2.view (cloneMap v h).1 = h.view v ∧
      Tidy (fun u => roots u ∨ u = (cloneMap v h).1) (cloneMap v h).2 := by
  have same : Heap.Grows h h ∧ h.view v = h.view v ∧ Tidy (fun u => roots u ∨ u = v) h :=
    ⟨Heap.Grows.refl h, rfl, tidy.mono fun u => by rintro (old | rfl) <;> assumption⟩
  cases v with
  | ref l =>
    simp only [cloneMap]
    cases object : h.get? l with
    | none => exact same
    | some o =>
      have below : o.Below h.size := tidy.closed l o object
      have grows := Heap.grows_alloc below
      have view : (h.alloc o).2.view (.ref h.size) = h.view (.ref l) := by
        funext p
        cases p with
        | nil => simp [Heap.view_nil, Heap.shape, object]
        | cons s p =>
          rw [Heap.view_cons, Heap.view_cons, Heap.child_ref (Heap.get?_alloc_new o), Heap.child_ref object]
          cases inside : o.child s with
          | none => rfl
          | some c => exact congrFun (grows.view tidy.closed (below s c inside)) p
      refine ⟨grows, view, tidy.insert grows (tidy.closed.alloc (below.mono (Nat.le_succ _))) (by simp [Val.Below]) ?_ ?_⟩
      · rw [← tidy.map _ root, ← Heap.view_nil, view]
        rfl
      · intro label labelled
        refine ⟨_, sameBelow_update _ label [], LabelledAt.alloc tidy.closed below fun s c inside => ?_⟩
        exact (Tidy.labelledAt labelled root).child (by rw [Heap.child_ref object, inside])
  | scalar x => exact same
  | nilMap t => exact same
  | nilSlice t => exact same

theorem cloneHost_tidy {hv : HostVars} (tidy : Tidy roots h) (remote : roots hv.remoteVars)
    (runtime : roots hv.runtimeVars) :
    Heap.Grows h (cloneHost hv h).2 ∧ (cloneHost hv h).1.snapshot (cloneHost hv h).2 = hv.snapshot h ∧
      Tidy (fun u => roots u ∨ u = (cloneHost hv h).1.remoteVars ∨ u = (cloneHost hv h).1.runtimeVars)
        (cloneHost hv h).2 := by
  obtain ⟨grows₁, view₁, tidy₁⟩ := cloneMap_tidy tidy remote
  obtain ⟨grows₂, view₂, tidy₂⟩ := cloneMap_tidy tidy₁ (Or.inl runtime)
  refine ⟨grows₁.trans grows₂, ?_, tidy₂.mono (by tauto)⟩
  simp only [HostVars.snapshot, cloneHost, Snapshot.mk.injEq]
  refine ⟨?_, ?_⟩
  · rw [grows₂.view tidy₁.closed (tidy₁.below _ (Or.inr rfl)), view₁]
  · rw [view₂, grows₁.view tidy.closed (tidy.below _ runtime)]

/-- The hosts copied so far. -/
theorem cloneHosts_tidy (rest : List (String × HostVars)) (distinct : (rest.map Prod.fst).Nodup)
    (own : ∀ e ∈ rest, roots e.2.remoteVars ∧ roots e.2.runtimeVars) :
    ∀ {hosts : GoMap HostVars} {h : Heap}, Tidy (fun v => roots v ∨ hostRoots hosts v) h →
      Heap.Grows h (cloneHosts rest hosts h).2 ∧
      Tidy (fun v => roots v ∨ hostRoots (cloneHosts rest hosts h).1 v) (cloneHosts rest hosts h).2 ∧
      (∀ e ∈ rest, ∃ hv, (cloneHosts rest hosts h).1.get? e.1 = some hv ∧
        hv.snapshot (cloneHosts rest hosts h).2 = e.2.snapshot h) ∧
      ∀ name, name ∉ rest.map Prod.fst → (cloneHosts rest hosts h).1.get? name = hosts.get? name := by
  induction rest with
  | nil =>
    intro hosts h tidy
    exact ⟨Heap.Grows.refl h, tidy, by simp, fun _ _ => rfl⟩
  | cons e rest ih =>
    intro hosts h tidy
    obtain ⟨k, hv⟩ := e
    rw [List.map_cons, List.nodup_cons] at distinct
    obtain ⟨remote, runtime⟩ := own (k, hv) (by simp)
    obtain ⟨grows₁, view₁, tidy₁⟩ := cloneHost_tidy tidy (Or.inl remote) (Or.inl runtime)
    have tidy₂ : Tidy (fun v => roots v ∨ hostRoots (hosts.put k (cloneHost hv h).1) v) (cloneHost hv h).2 := by
      refine tidy₁.mono ?_
      rintro v (root | host)
      · exact Or.inl (Or.inl root)
      · rcases hostRoots_put host with old | new
        · exact Or.inl (Or.inr old)
        · exact Or.inr new
    obtain ⟨grows₂, tidy₃, copied, others⟩ := ih distinct.2 (fun e member => own e (by simp [member])) tidy₂
    rw [cloneHosts]
    refine ⟨grows₁.trans grows₂, tidy₃, ?_, ?_⟩
    · intro e member
      rcases List.mem_cons.1 member with rfl | later
      · refine ⟨(cloneHost hv h).1, ?_, ?_⟩
        · rw [others k distinct.1, GoMap.get?_put_self]
        · rw [← view₁]
          exact HostVars.Ok.snapshot_agree tidy₁.closed.below grows₂.agree
            (tidy₁.below _ (Or.inr (Or.inl rfl))) (tidy₁.below _ (Or.inr (Or.inr rfl)))
      · obtain ⟨hv', stored, view⟩ := copied e later
        have below := own e (by simp [later])
        refine ⟨hv', stored, view.trans ?_⟩
        exact HostVars.Ok.snapshot_agree tidy.closed.below grows₁.agree
          (tidy.below _ (Or.inl below.1)) (tidy.below _ (Or.inl below.2))
    · intro name absent
      rw [List.map_cons, List.mem_cons, not_or] at absent
      rw [others name absent.2, GoMap.get?_put_ne hosts _ absent.1]

/-- `nv` in `h'` is a copy of `val` in `h`. -/
structure Copied (h : Heap) (val nv : Value) (h' : Heap) : Prop where
  grows : Heap.Grows h h'
  hosts : ∀ name hv, val.hosts.get? name = some hv →
    ∃ hv', nv.hosts.get? name = some hv' ∧ hv'.snapshot h' = hv.snapshot h
  others : ∀ name, val.hosts.get? name = none → nv.hosts.get? name = none
  result : h'.view nv.result = h.view val.result
  config : nv.config = val.config
  inventory : nv.inventory = val.inventory

theorem deepCopy_copied {val : Value} (tidy : Tidy roots h) (own : ∀ v, val.roots v → roots v) :
    Copied h val (deepCopy val h).1 (deepCopy val h).2 ∧
      Tidy (fun v => roots v ∨ (deepCopy val h).1.roots v) (deepCopy val h).2 := by
  obtain ⟨grows₁, view₁, tidy₁⟩ := cloneMap_tidy tidy (own _ (Or.inr (Or.inl rfl)))
  have hosts : ∀ e ∈ val.hosts.entries, roots e.2.remoteVars ∧ roots e.2.runtimeVars := by
    intro e member
    have known : val.hosts.get? e.1 = some e.2 := GoMap.get?_eq_some_iff.2 member
    exact ⟨own _ (Or.inr (Or.inr ⟨e.1, e.2, known, Or.inl rfl⟩)), own _ (Or.inr (Or.inr ⟨e.1, e.2, known, Or.inr rfl⟩))⟩
  have tidy₂ : Tidy (fun v => (roots v ∨ v = (cloneMap val.result h).1) ∨ hostRoots .empty v) (cloneMap val.result h).2 := by
    refine tidy₁.mono ?_
    rintro v (root | ⟨name, hv, known, _⟩)
    · exact root
    · simp at known
  obtain ⟨grows₂, tidy₃, copied, others⟩ := cloneHosts_tidy val.hosts.entries val.hosts.distinct
    (fun e member => ⟨Or.inl (hosts e member).1, Or.inl (hosts e member).2⟩) tidy₂
  refine ⟨⟨grows₁.trans grows₂, ?_, ?_, ?_, rfl, rfl⟩, tidy₃.mono ?_⟩
  · intro name hv known
    obtain ⟨hv', stored, view⟩ := copied (name, hv) (GoMap.get?_eq_some_iff.1 known)
    have below := hosts (name, hv) (GoMap.get?_eq_some_iff.1 known)
    refine ⟨hv', stored, view.trans ?_⟩
    exact HostVars.Ok.snapshot_agree tidy.closed.below grows₁.agree (tidy.below _ below.1) (tidy.below _ below.2)
  · intro name unknown
    have absent : name ∉ val.hosts.entries.map Prod.fst := by
      intro member
      have found := GoMap.get?_isSome_iff.2 member
      simp [unknown] at found
    exact others name absent
  · exact (grows₂.view tidy₁.closed (tidy₁.below _ (Or.inr rfl))).trans view₁
  · rintro v (root | nil | result | host)
    · exact Or.inl (Or.inl root)
    · exact Or.inl (Or.inl (own v (Or.inl nil)))
    · exact Or.inl (Or.inr result)
    · exact Or.inr host

end Copy

section Sync

/-- `HostVars` of the copy, as `syncSource` reads them. -/
theorem hostRoots_getD (newHosts : GoMap HostVars) (hn : String) {v : Val}
    (root : v = ((newHosts.get? hn).getD .zero).remoteVars ∨ v = ((newHosts.get? hn).getD .zero).runtimeVars) :
    v = .nilMap .any ∨ hostRoots newHosts v := by
  cases known : newHosts.get? hn with
  | none =>
    rw [known] at root
    exact Or.inl (root.elim id id)
  | some hv =>
    rw [known] at root
    exact Or.inr ⟨hn, hv, known, root⟩

theorem Source.write_roots {reply : WriteReply} {h : Heap} {hn : String} {hv : HostVars} {source : Source} {v : Val}
    (root : (source.write reply h hn hv).2.roots v) : source.roots v ∨ v = hv.remoteVars ∨ v = hv.runtimeVars := by
  cases source with
  | memory data => exact hostRoots_put root
  | file data =>
    simp only [Source.write] at root
    split at root <;> exact root.elim

/-- The loop of `syncSource` moves maps of the copy into the store and touches nothing else. -/
theorem syncHosts_roots (io : String → WriteReply) (newHosts : GoMap HostVars) (entries : List (String × HostVars))
    (store : Store) :
    (syncHosts io newHosts entries store).2.heap = store.heap ∧
      (syncHosts io newHosts entries store).2.value.inventory = store.value.inventory ∧
      ∀ v, (syncHosts io newHosts entries store).2.roots v → store.roots v ∨ v = .nilMap .any ∨ hostRoots newHosts v := by
  induction entries generalizing store with
  | nil => exact ⟨rfl, rfl, fun v root => Or.inl root⟩
  | cons e rest ih =>
    obtain ⟨hn, hv⟩ := e
    rw [syncHosts]
    split
    · exact ih store
    · split
      · next source run =>
        refine ⟨rfl, rfl, ?_⟩
        rintro v (value | kept)
        · exact Or.inl (Or.inl value)
        · have written : (store.source.write (io hn) store.heap hn ((newHosts.get? hn).getD .zero)).2.roots v := by
            rw [run]
            exact kept
          rcases Source.write_roots written with old | new
          · exact Or.inl (Or.inr old)
          · exact Or.inr (hostRoots_getD newHosts hn new)
      · next source run =>
        obtain ⟨heap, inventory, moved⟩ := ih { store with
          source := source
          value := { store.value with hosts := store.value.hosts.put hn ((newHosts.get? hn).getD .zero) } }
        refine ⟨heap, inventory, fun v root => ?_⟩
        rcases moved v root with (value | kept) | new
        · rcases roots_put value with old | here
          · exact Or.inl (Or.inl old)
          · exact Or.inr (hostRoots_getD newHosts hn here)
        · have written : (store.source.write (io hn) store.heap hn ((newHosts.get? hn).getD .zero)).2.roots v := by
            rw [run]
            exact kept
          rcases Source.write_roots written with old | here
          · exact Or.inl (Or.inr old)
          · exact Or.inr (hostRoots_getD newHosts hn here)
        · exact Or.inr new

theorem syncSource_roots (io : String → WriteReply) (newVal : Value) (store : Store) :
    (syncSource io newVal store).2.heap = store.heap ∧
      (syncSource io newVal store).2.value.inventory = store.value.inventory ∧
      ∀ v, (syncSource io newVal store).2.roots v → store.roots v ∨ newVal.roots v := by
  obtain ⟨heap, inventory, moved⟩ := syncHosts_roots io newVal.hosts store.value.hosts.entries
    { store with value := { store.value with result := newVal.result } }
  refine ⟨heap, inventory, fun v root => ?_⟩
  rcases moved v root with (⟨nil | result | host⟩ | kept) | nil | host
  · exact Or.inr (Or.inl nil)
  · exact Or.inr (Or.inr (Or.inl result))
  · exact Or.inl (Or.inl (Or.inr (Or.inr host)))
  · exact Or.inl (Or.inr kept)
  · exact Or.inr (Or.inl nil)
  · exact Or.inr (Or.inr (Or.inr host))

end Sync

/-- The invariant of a store. -/
structure Store.Ok (store : Store) : Prop where
  tidy : Tidy store.roots store.heap
  expands : (convertGroup store.value.inventory).isSome

theorem Store.Ok.valueOk {store : Store} (ok : store.Ok) : store.value.Ok store.heap :=
  ok.tidy.valueOk (fun _ => Or.inl) ok.expands

/-- The copy that a merge works on. -/
theorem Store.Ok.copy {store : Store} (ok : store.Ok) :
    (deepCopy store.value store.heap).1.Ok (deepCopy store.value store.heap).2 := by
  obtain ⟨copied, tidy⟩ := deepCopy_copied ok.tidy fun v => Or.inl (b := store.source.roots v)
  refine tidy.valueOk (fun _ => Or.inr) ?_
  rw [copied.inventory]
  exact ok.expands

/-- What a merge does to its copy before it writes to the source. -/
theorem merge_applied (env : Env) (f : MergeFunc) {store : Store} (ok : store.Ok) :
    Tidy (fun v => store.roots v ∨ (deepCopy store.value store.heap).1.roots v) (deepCopy store.value store.heap).2 ∧
    Copied store.heap store.value (deepCopy store.value store.heap).1 (deepCopy store.value store.heap).2 ∧
      Leaves store.roots (deepCopy store.value store.heap).2 (deepCopy store.value store.heap).1
        (f.apply env (deepCopy store.value store.heap).1 (deepCopy store.value store.heap).2).2.2.1
        (f.apply env (deepCopy store.value store.heap).1 (deepCopy store.value store.heap).2).2.2.2 ∧
      (f.Spares env store → Heap.AgreeBelow (deepCopy store.value store.heap).2.size (deepCopy store.value store.heap).2
        (f.apply env (deepCopy store.value store.heap).1 (deepCopy store.value store.heap).2).2.2.2) := by
  obtain ⟨copied, tidy⟩ := deepCopy_copied ok.tidy fun v => Or.inl (b := store.source.roots v)
  have expands : (convertGroup (deepCopy store.value store.heap).1.inventory).isSome := by
    rw [copied.inventory]
    exact ok.expands
  obtain ⟨leaves, agree⟩ := f.apply_leaves env tidy expands
  exact ⟨tidy, copied, leaves, fun spares => agree _ (Nat.le_refl _) spares⟩

/-- A merge keeps the invariant, also when it fails. -/
theorem merge_ok (env : Env) (io : String → WriteReply) (f : MergeFunc) {store : Store} (ok : store.Ok) :
    (merge env io f store).2.2.Ok := by
  obtain ⟨_, _, leaves, _⟩ := merge_applied env f ok
  rw [merge]
  simp only
  generalize f.apply env (deepCopy store.value store.heap).1 (deepCopy store.value store.heap).2 = outcome at leaves
  obtain ⟨r, f', nv, h⟩ := outcome
  cases r with
  | error e => exact ⟨leaves.tidy.mono fun v => Or.inl, ok.expands⟩
  | ok u =>
    obtain ⟨heap, inventory, moved⟩ := syncSource_roots io nv { store with heap := h }
    refine ⟨?_, ?_⟩
    · show Tidy _ (syncSource io nv { store with heap := h }).2.heap
      rw [heap]
      exact leaves.tidy.mono moved
    · show (convertGroup (syncSource io nv { store with heap := h }).2.value.inventory).isSome
      rw [inventory]
      exact ok.expands

section New
variable {roots : Val → Prop}

theorem newHosts_tidy (names : List String) : ∀ {hosts : GoMap HostVars} {h : Heap},
    Tidy (fun v => v = .nilMap .any ∨ hostRoots hosts v) h →
      Tidy (fun v => v = .nilMap .any ∨ hostRoots (newHosts names hosts h).1 v) (newHosts names hosts h).2 := by
  induction names with
  | nil => exact id
  | cons name rest ih =>
    intro hosts h tidy
    have first := tidy.placed (Lit.alloc_placed (.map .any []) h tidy.closed) rfl
    have second := first.placed (Lit.alloc_placed (.map .any []) _ first.closed) rfl
    refine ih (second.mono ?_)
    rintro v (nil | host)
    · exact Or.inl (Or.inl (Or.inl nil))
    · rcases hostRoots_put host with old | remote | runtime
      · exact Or.inl (Or.inl (Or.inr old))
      · exact Or.inl (Or.inr remote)
      · exact Or.inr runtime

theorem readVars_tidy {data : List (String × Lit)} {key : String} {v : Val} {h h' : Heap} (tidy : Tidy roots h)
    (nil : roots (.nilMap .any)) (run : readVars data key h = .ok (v, h')) :
    Heap.Grows h h' ∧ Tidy (fun u => roots u ∨ u = v) h' := by
  unfold readVars at run
  split at run
  · cases run
    exact ⟨Heap.Grows.refl h, tidy.mono fun u => by rintro (old | rfl) <;> assumption⟩
  · next entries _ =>
    cases run
    have placed := Lit.alloc_placed (.map .any entries) h tidy.closed
    exact ⟨placed.grows, tidy.placed placed rfl⟩
  · cases run

theorem loadHosts_tidy (data : List (String × List (String × Lit))) : ∀ {hosts hosts' : GoMap HostVars} {h h' : Heap},
    Tidy (fun v => v = .nilMap .any ∨ hostRoots hosts v) h → loadHosts data hosts h = .ok (hosts', h') →
      Tidy (fun v => v = .nilMap .any ∨ hostRoots hosts' v) h' := by
  induction data with
  | nil =>
    intro hosts hosts' h h' tidy run
    cases run
    exact tidy
  | cons e rest ih =>
    obtain ⟨k, d⟩ := e
    intro hosts hosts' h h' tidy run
    rw [loadHosts] at run
    cases first : readVars d "remote" h with
    | error f => simp [first, bind, Except.bind] at run
    | ok remote =>
      cases second : readVars d "runtime" remote.2 with
      | error f => simp [first, second, bind, Except.bind] at run
      | ok runtime =>
        simp only [first, second, bind, Except.bind] at run
        obtain ⟨_, tidy₁⟩ := readVars_tidy tidy (Or.inl rfl) first
        obtain ⟨_, tidy₂⟩ := readVars_tidy tidy₁ (Or.inl (Or.inl rfl)) second
        refine ih (tidy₂.mono ?_) run
        rintro v (nil | host)
        · exact Or.inl (Or.inl (Or.inl nil))
        · rcases hostRoots_put host with old | new | new
          · exact Or.inl (Or.inl (Or.inr old))
          · exact Or.inl (Or.inr new)
          · exact Or.inr new

/-- A source that holds no maps of the new store. -/
def Source.isFresh : Source → Prop
  | .memory data => data = .empty
  | .file _ => True

theorem newVariable_ok {config : RawExtension} {inventory : InventorySpec} {source : Source}
    {data : List (String × List (String × Lit))} {store : Store} (fresh : source.isFresh)
    (run : newVariable config inventory source data = .ok store) : store.Ok := by
  unfold newVariable at run
  split at run
  · cases run
  · next groups expanded =>
    have empty : Tidy (fun v => v = .nilMap .any ∨ hostRoots .empty v) .empty := by
      refine ⟨⟨Heap.closed_empty, Heap.acyclic_empty⟩, ?_, ?_, fun _ => [], ?_⟩
      · rintro v (rfl | ⟨name, hv, known, _⟩)
        · trivial
        · simp at known
      · rintro v (rfl | ⟨name, hv, known, _⟩)
        · rfl
        · simp at known
      · rintro v p l (rfl | ⟨name, hv, known, _⟩) reached
        · cases p with
          | nil => cases reached
          | cons s p => cases reached
        · simp at known
    have inventoryHosts := newHosts_tidy ((groups.get? variableGroupsAll).getD []) empty
    simp only at run
    cases loaded : loadHosts data (newHosts ((groups.get? variableGroupsAll).getD []) .empty .empty).1
        (newHosts ((groups.get? variableGroupsAll).getD []) .empty .empty).2 with
    | error f => simp [loaded, bind, Except.bind] at run
    | ok result =>
      simp only [loaded, bind, Except.bind, Except.ok.injEq] at run
      subst run
      refine ⟨(loadHosts_tidy data inventoryHosts loaded).mono ?_, by simp [expanded]⟩
      rintro v ((nil | result | host) | kept)
      · exact Or.inl nil
      · exact Or.inl result
      · exact Or.inr host
      · cases source with
        | memory data =>
          obtain ⟨name, hv, known, _⟩ := kept
          rw [show data = .empty from fresh] at known
          simp at known
        | file data => exact kept.elim

end New

/-- The stores that `New` and merges lead to. -/
inductive Reachable (env : Env) : Store → Prop where
  | new {config : RawExtension} {inventory : InventorySpec} {source : Source} {data : List (String × List (String × Lit))}
      {store : Store} (fresh : source.isFresh) (run : newVariable config inventory source data = .ok store) :
      Reachable env store
  | merge {store : Store} (reachable : Reachable env store) (io : String → WriteReply) (f : MergeFunc) :
      Reachable env (merge env io f store).2.2

theorem Reachable.ok {env : Env} {store : Store} (reachable : Reachable env store) : store.Ok := by
  induction reachable with
  | new fresh run => exact newVariable_ok fresh run
  | merge _ io f ih => exact merge_ok env io f ih

end KubeKey.Variable
