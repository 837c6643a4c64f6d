import KubeKey.Executor.Register
import KubeKey.Executor.Task
import KubeKey.Go.Overlay
import KubeKey.Variable.Alike
import KubeKey.Variable.Precedence
import KubeKey.Variable.Single

/-!
# Loop items

`executeModule` and `dealLoop` of `pkg/executor/task_executor.go`, `Extension2Slice` and
`Extension2String` of `pkg/variable/helper.go`. Each item of a loop is written as yaml, read
back, taken for templates and merged into the runtime variables of the host, where the
module finds it as `item`; afterwards null is merged over it.

The invariant of the loop is that of the store (`Store.Ok`), with the host known and the
static variables of the start. One round delivers its item if nothing gets in the item's way
(`Ready`), so a loop does if every round meets that in the state in which it starts
(`loop_delivers`). What the source falls back to for a string that is no JSON array is a
byte slice, which yaml writes as a list of numbers, and a list is no string.
-/

namespace KubeKey.Executor.Loop

open KubeKey.Go KubeKey.Variable KubeKey.Converter KubeKey.Executor.Register

/-! ## The loop -/

/-- `VariableItem`. -/
def variableItem : String := "item"

/-- The libraries behind a loop. -/
structure Libraries extends Decoders where
  /-- `strconv.Unquote`. -/
  unquote : String → Option String
  json_empty : unmarshalJSON "" = none
  /-- A nil is written as a null. -/
  format_null : (yaml.format .null).1 = nullTag

/-- `json.Unmarshal` into a `[]any`: a null gives the nil slice. -/
def Libraries.unmarshalSlice (libs : Libraries) (text : String) : Option (List Lit) :=
  match libs.unmarshalJSON text with
  | some (.slice _ items) => some items
  | some (.scalar .null) => some []
  | _ => none

/-- One merge. -/
def Merges (store store' : Store) : Prop := ∃ env io f, store' = (merge env io f store).2.2

/-- A module. What it does to the variables are merges. -/
structure Module where
  run : Store → Output × Store
  merges : ∀ store, Relation.ReflTransGen Merges store (run store).2

/-- What the task executor works with on one host. -/
structure Execution where
  task : Task
  host : String
  libs : Libraries
  env : Env
  io : String → WriteReply
  module : Module
  /-- `tmpl.ParseBool` on the `failed_when` conditions. -/
  failedWhen : DeepView → Except ErrText Bool
  errText : Fault → ErrText

/-- `tmpl.Parse`. -/
def tmplParse (env : Env) (had : DeepView) (input : String) : Except String String :=
  if isTmplSyntax input then env.render had input else .ok input

/-- `Extension2String`. -/
def extension2String (libs : Libraries) (env : Env) (had : DeepView) (raw : String) : Except String String :=
  if raw = "" then .ok "" else tmplParse env had ((libs.unquote raw).getD raw)

/-- A `[]byte`, as yaml writes it. -/
def bytesLit (text : String) : Lit := .slice .any (text.toUTF8.toList.map fun b => .scalar (.int b.toNat))

/-- `Extension2Slice`. The error of a template is logged, and its text is empty. -/
def extension2Slice (libs : Libraries) (env : Env) (had : DeepView) (raw : String) : List Lit :=
  if raw = "" then []
  else match libs.unmarshalSlice raw with
    | some data => data
    | none =>
      let val := (extension2String libs env had raw).toOption.getD ""
      match libs.unmarshalSlice val with
      | some data => data
      | none => [bytesLit val]

/-- `dealLoop`. -/
def dealLoop (e : Execution) (had : DeepView) : List Lit :=
  match e.task.loop with
  | none => [.scalar .null]
  | some raw => extension2Slice e.libs e.env had raw

/-- A nil item. -/
def isNull : Lit → Bool
  | .scalar .null => true
  | _ => false

/-- What one `executeModule` meets: the answers to its calls, the store that the module runs in if it does, and the
store that is left. -/
structure ItemRun where
  calls : ItemCalls := {}
  seen : Option Store := none
  store : Store

/-- The part of `executeModule` after the item has been set. -/
def callModule (e : Execution) (store : Store) : ItemRun :=
  match getAllVariable e.env.localIP store.value e.host store.heap with
  | none => { calls := { get := .error (e.errText .diverge) }, store := store }
  | some (ha, h) =>
    let (out, after) := e.module.run store
    { calls := { module := (out.stdout, out.stderr), failedWhen := e.failedWhen (h.view ha) }, seen := some store,
      store := after }

/-- The deferred call of `executeModule`. -/
def resetItem (e : Execution) (run : ItemRun) : ItemRun :=
  match convertMap2Node e.libs.yaml [(variableItem, .scalar .null)] with
  | .error err => { run with calls := { run.calls with convertReset := some (e.errText (.error err)) } }
  | .ok node => match merge e.env e.io (.runtime node [e.host]) run.store with
    | (.error f, _, store) =>
      { run with calls := { run.calls with mergeReset := some (e.errText f) }, store := store }
    | (.ok _, _, store) => { run with store := store }

/-- `executeModule`. -/
def executeModule (e : Execution) (item : Lit) (store : Store) : ItemRun :=
  if isNull item then callModule e store
  else match convertMap2Node e.libs.yaml [(variableItem, item)] with
    | .error err => { calls := { convert := some (e.errText (.error err)) }, store := store }
    | .ok node => match merge e.env e.io (.runtime node [e.host]) store with
      | (.error f, _, store) => { calls := { mergeItem := some (e.errText f) }, store := store }
      | (.ok _, _, store) => resetItem e (callModule e store)

/-- What a loop leaves: the stores that the module ran in, the output and the store. -/
structure LoopRun where
  seen : List (Option Store) := []
  out : Output
  store : Store

/-- The loop of `execTaskHost` over the items. -/
def executeItems (e : Execution) : List Lit → Output → Store → LoopRun
  | [], out, store => { out := out, store := store }
  | item :: items, out, store =>
    let run := executeModule e item store
    let out := Executor.executeModule e.task e.host (if isNull item then none else some item) run.calls out
    let rest := executeItems e items out run.store
    { rest with seen := run.seen :: rest.seen }

/-- `execTaskHost` from `dealLoop` on, for the variables that it has got. -/
def execLoop (e : Execution) (had : DeepView) (out : Output) (store : Store) : LoopRun :=
  executeItems e (dealLoop e had) out store

/-! ## What is asked of it -/

/-- A variable is equal to the value. A null may also be missing. -/
def Equals (w : DeepView) (x : Lit) : Prop :=
  (∀ p, AlikeShape (x.view p) (w p)) ∨ isNull x = true ∧ ∀ p, w p = none

/-- The variable `item` as `GetAllVariable` gives it for the host. -/
def itemOf (e : Execution) (store : Store) : Option DeepView :=
  (getAllVariable e.env.localIP store.value e.host store.heap).map fun (ha, h) => fun p => h.view ha (.key variableItem :: p)

/-- The item of the host is the value. -/
def ItemIs (e : Execution) (store : Store) (x : Lit) : Prop := ∃ w, itemOf e store = some w ∧ Equals w x

/-- The items that a loop stands for: those of a list, or of the JSON array that a string renders to, or else the string
that it renders to. -/
inductive Means (e : Execution) (had : DeepView) (raw : String) : List Lit → Prop where
  | list {t : GoType} {items : List Lit} (list : e.libs.unmarshalJSON raw = some (.slice t items)) : Means e had raw items
  | array {s r : String} {t : GoType} {items : List Lit} (string : e.libs.unmarshalJSON raw = some (.scalar (.str s)))
      (rendered : tmplParse e.env had s = .ok r) (list : e.libs.unmarshalJSON r = some (.slice t items)) :
      Means e had raw items
  | text {s r : String} (string : e.libs.unmarshalJSON raw = some (.scalar (.str s)))
      (rendered : tmplParse e.env had s = .ok r) (other : ∀ t items, e.libs.unmarshalJSON r ≠ some (.slice t items)) :
      Means e had raw [.scalar (.str r)]

/-- The module runs once for each item that the loop stands for, in order, with the item as its variable, and afterwards
the item is null again. -/
def Delivers (e : Execution) (had : DeepView) (out : Output) (store : Store) : Prop :=
  ∀ raw items, e.task.loop = some raw → Means e had raw items →
    List.Forall₂ (fun x seen => ∃ s, seen = some s ∧ ItemIs e s x) items (execLoop e had out store).seen ∧
      ItemIs e (execLoop e had out store).store (.scalar .null)

/-! ## What it takes -/

/-- A scalar that reaches the variables as it is. -/
structure Passes (yaml : Yaml) (env : Env) (s : Scalar) : Prop where
  /-- Its text is not taken for a template. -/
  literal : literalText (yaml.format s) = true
  /-- Its text is read by the walk. -/
  parses : (parseScalarValue env (fun _ => none) (yaml.format s).1 (yaml.format s).2).isOk = true
  /-- Its text is decoded to an equal scalar. -/
  reads : ∃ s', readScalar env (yaml.format s) = .ok s' ∧ Alike s s'

/-- The layers of a host over its runtime variables. -/
def staticLayersOver (val : Value) (host : String) : List DeepView := val.inventory.vars.view :: ownLayers val host

/-- Nothing gets in the way of an item. -/
structure Ready (e : Execution) (store : Store) (x : Lit) : Prop where
  passes : ∀ c ∈ scalars x [.key variableItem], Passes e.libs.yaml e.env c.2
  /-- The context has nothing at the paths of the item but containers for them. -/
  taken : ∀ ctx h, contextOf e.env store e.host = some (ctx, h) →
    ∀ c ∈ scalars x [.key variableItem], takes h ctx c.1 = true
  /-- The inventory and the configuration set no `item` over the runtime variables. -/
  unclaimed : ∀ p, defines (staticLayersOver store.value e.host) (.key variableItem :: p) = false
  /-- The groups and the host's own variables hold no `item` that the new one does not replace. -/
  cleared : ∀ hv, store.value.hosts.get? e.host = some hv → ∀ p, x.view.decides Shape.opens p = false →
    store.heap.view hv.runtimeVars (.key variableItem :: p) = none ∧
      store.heap.view hv.remoteVars (.key variableItem :: p) = none ∧
        layered (groupLayers store.value e.host) (.key variableItem :: p) = none

/-- One round can deliver its item. A null is not set, so the item has to be null before and to be left so. -/
def RoundReady (e : Execution) (store : Store) (x : Lit) : Prop :=
  if isNull x then ItemIs e store (.scalar .null) ∧ ItemIs e (executeModule e x store).store (.scalar .null)
  else Ready e store x

/-- Every round can, in the state in which it starts. -/
def RoundsReady (e : Execution) : List Lit → Store → Prop
  | [], _ => True
  | x :: rest, store => RoundReady e store x ∧ RoundsReady e rest (executeModule e x store).store

/-- The source makes the items of the loop that the loop stands for. -/
inductive Lists (e : Execution) (had : DeepView) (raw : String) : List Lit → Prop where
  | list {t : GoType} {items : List Lit} (list : e.libs.unmarshalJSON raw = some (.slice t items)) : Lists e had raw items
  | array {s r : String} {t : GoType} {items : List Lit} (string : e.libs.unmarshalJSON raw = some (.scalar (.str s)))
      (unquoted : e.libs.unquote raw = some s) (rendered : tmplParse e.env had s = .ok r)
      (list : e.libs.unmarshalJSON r = some (.slice t items)) : Lists e had raw items

section Variables
variable {val : Value} {host : String} {remote runtime : DeepView} {q : Path}

/-- What the layers give where none over the runtime variables defines the path. -/
theorem layered_dynamic (unclaimed : defines (staticLayersOver val host) q = false) :
    layered (hostLayers val host remote runtime) q =
      if runtime.decides Shape.opens q then runtime q
      else if remote.decides Shape.opens q then remote q
      else layered (groupLayers val host) q := by
  have dynamic : hostLayers val host remote runtime =
      groupLayers val host ++ ([remote] ++ ([runtime] ++ staticLayersOver val host)) := rfl
  have single : ∀ a : DeepView, defines [a] q = a.decides Shape.opens q := fun a => by simp [View.anyDecides]
  have top : ∀ a : DeepView, a.decides Shape.opens q = true → layered [a] q = a q := fun a decided =>
    View.overlay_of_decides decided
  simp only [dynamic, layered_append, defines_append, unclaimed, Bool.or_false, single]
  cases upper : runtime.decides Shape.opens q with
  | true => simp [top runtime upper]
  | false =>
    cases lower : remote.decides Shape.opens q with
    | true => simp [top remote lower]
    | false => simp

/-- The variable `item` of a host. -/
theorem hostView_item (localIP : String → String) {h : Heap} {hv : HostVars} (ok : hv.Ok h) {p : Path}
    (unclaimed : defines (staticLayersOver val host) (.key variableItem :: p) = false) :
    hostView localIP val host (h.view hv.remoteVars) (h.view hv.runtimeVars) (.key variableItem :: p) =
      if (h.view hv.runtimeVars).decides Shape.opens (.key variableItem :: p) then
        h.view hv.runtimeVars (.key variableItem :: p)
      else if (h.view hv.remoteVars).decides Shape.opens (.key variableItem :: p) then
        h.view hv.remoteVars (.key variableItem :: p)
      else layered (groupLayers val host) (.key variableItem :: p) := by
  rw [← layered_dynamic unclaimed, hostView]
  have wellFormed := hostLayers_wellFormed val host ok
  generalize hostLayers val host (h.view hv.remoteVars) (h.view hv.runtimeVars) = layers at *
  cases decided : (layered layers).decides Shape.opens (.key variableItem :: p) with
  | true => exact View.overlay_of_decides decided
  | false =>
    have closed : (layered layers).PrefixClosed :=
      View.PrefixClosed.stack (Lit.view_prefixClosed _) fun a member => (wellFormed a member).1
    rw [overlay, View.overlay_of_not_decides decided, View.none_of_not_decides closed decided]
    -- the code has no default of this name
    cases p with
    | cons s p => rfl
    | nil =>
      have others : ¬ (variableItem = variableIPv4 ∨ variableItem = variableIPv6) ∧ variableItem ≠ variableInventoryName := by
        decide
      simp [defaultsView, defaultValue, others.1, others.2]

end Variables

section Store
variable {e : Execution} {store store' : Store} {x : Lit} {hv : HostVars}

theorem itemOf_eq (ok : store.Ok) (known : store.value.hosts.get? e.host = some hv) :
    ∃ w, itemOf e store = some w ∧ ∀ p, w p = hostView e.env.localIP store.value e.host
      (store.heap.view hv.remoteVars) (store.heap.view hv.runtimeVars) (.key variableItem :: p) := by
  obtain ⟨l, h', run, context⟩ := getAllVariable_built ok.valueOk e.env.localIP e.host
  refine ⟨_, by rw [itemOf, run]; rfl, fun p => ?_⟩
  exact context.view hv known variableItem p (by unfold Reserved; decide) (by decide)

theorem staticLayersOver_static (static : store.Static store') (host : String) :
    staticLayersOver store'.value host = staticLayersOver store.value host := by
  rw [staticLayersOver, staticLayersOver, ownLayers, ownLayers, static.inventory, static.config]

theorem groupLayers_static (static : store.Static store') (host : String) :
    groupLayers store'.value host = groupLayers store.value host := by
  rw [groupLayers, groupLayers, static.inventory]

/-- What is read back of an item is equal to it. -/
theorem alike_of_passes {yaml : Yaml} {env : Env} {y : Lit} (decoded : Decoded x)
    (passes : ∀ c ∈ scalars x [.key variableItem], Passes yaml env c.2) (read : Redecoded env yaml.format x y) (p : Path) :
    AlikeShape (x.view p) (y.view p) := by
  have here := read p
  cases held : x.view p with
  | none =>
    rw [held] at here
    rw [show y.view p = none from here]
    rfl
  | some d =>
    rw [held] at here
    cases d with
    | scalar s =>
      obtain ⟨s', there, decode⟩ := here
      obtain ⟨s'', decode', alike⟩ := (passes _ (mem_scalars_of_view x [.key variableItem] decoded p s held)).reads
      rw [decode] at decode'
      cases decode'
      rw [there]
      exact alike
    | map =>
      rw [show y.view p = some .map from here]
      rfl
    | slice n =>
      rw [show y.view p = some (.slice n) from here]
      rfl

/-- An item that nothing gets in the way of is merged, and the host has it. -/
theorem Ready.merged (ready : Ready e store x) (ok : store.Ok) (known : store.value.hosts.get? e.host = some hv)
    (written : ∀ name, e.io name = .ok) (decoded : Decoded x) :
    ∃ f' store', merge e.env e.io (.runtime (document e.libs.yaml.format [(variableItem, x)]) [e.host]) store =
      (.ok (), f', store') ∧ ItemIs e store' x := by
  have own : ¬ Reserved variableItem := by unfold Reserved; decide
  have free := fun c member => (ready.passes c member).literal
  have readable : ∀ c ∈ scalars x [.key variableItem], (readScalar e.env (e.libs.yaml.format c.2)).isOk = true := by
    intro c member
    obtain ⟨s', read, _⟩ := (ready.passes c member).reads
    rw [read]
    rfl
  have merged := outcome_eq (merged_ok ok decoded own written free (fun c member => (ready.passes c member).parses)
    readable ready.taken)
  refine ⟨_, _, merged, ?_⟩
  have static := merge_static e.env e.io (.runtime (document e.libs.yaml.format [(variableItem, x)]) [e.host]) store
  have ok' := merge_ok e.env e.io (.runtime (document e.libs.yaml.format [(variableItem, x)]) [e.host]) ok
  obtain ⟨hv', y, known', found, runtime, remote⟩ := merged_view ok decoded own known free merged
  generalize (merge e.env e.io (.runtime (document e.libs.yaml.format [(variableItem, x)]) [e.host]) store).2.2 = store'
    at static ok' known' runtime remote
  have alike : ∀ p, AlikeShape (x.view p) (y.view p) := by
    cases decodeEntries_entryNodes _ _ _ _ found with
    | cons pair _ => exact alike_of_passes decoded ready.passes pair.2
  obtain ⟨w, item, view⟩ := itemOf_eq ok' known'
  have hvOk := ok'.valueOk.hosts e.host hv' known'
  have root : store'.heap.view hv'.runtimeVars [] = some .map := isMap_iff_shape.1 hvOk.runtimeMap
  have below : (store'.heap.view hv'.runtimeVars).sub (.key variableItem) =
      overlay ((store.heap.view hv.runtimeVars).sub (.key variableItem)) y.view := funext runtime
  refine ⟨w, item, Or.inl fun p => ?_⟩
  have unclaimed := ready.unclaimed p
  rw [← staticLayersOver_static static] at unclaimed
  rw [view, hostView_item _ hvOk unclaimed, runtime]
  cases decided : y.view.decides Shape.opens p with
  | true =>
    have upper : (store'.heap.view hv'.runtimeVars).decides Shape.opens (.key variableItem :: p) = true := by
      rw [View.decides_cons_open root rfl, below]
      exact View.decides_overlay decided
    rw [if_pos upper, if_pos rfl]
    exact alike p
  | false =>
    have undecided := (decides_congr alike p).trans decided
    obtain ⟨noRuntime, noRemote, noGroup⟩ := ready.cleared hv known p undecided
    rw [View.none_of_not_decides (Lit.view_prefixClosed x) undecided, remote p decided, noRuntime, noRemote,
      groupLayers_static static, noGroup]
    simp [AlikeShape]

/-- A null stands nowhere in its own way. -/
theorem ready_null (ok : store.Ok) (unclaimed : ∀ p, defines (staticLayersOver store.value e.host) (.key variableItem :: p) = false) :
    Ready e store (.scalar .null) := by
  have only : scalars (.scalar .null) [.key variableItem] = [([.key variableItem], .null)] := rfl
  have tag := e.libs.format_null
  refine ⟨?_, ?_, unclaimed, ?_⟩
  · rw [only, List.forall_mem_singleton]
    refine ⟨?_, ?_, .null, ?_, Or.inl rfl⟩
    · simp [literalText, tag, nullTag, strTag]
    · rw [parseScalarValue, if_pos tag]
      rfl
    · rw [readScalar, if_pos tag]
  · intro ctx h context
    obtain ⟨l, h', run, built⟩ := getAllVariable_built ok.copy e.env.localIP e.host
    rw [contextOf, run] at context
    cases context
    obtain ⟨m, object, _⟩ := built.newest.object
    rw [only, List.forall_mem_singleton, takes_single, element_ref object rfl rfl]
    rfl
  · intro hv _ p undecided
    cases p with
    | nil => cases undecided
    | cons s p =>
      rw [View.decides_cons_shut (show (Lit.scalar .null).view [] = some (.scalar .null) from rfl) rfl] at undecided
      cases undecided

end Store

/-! ## The rounds -/

section Rounds
variable {e : Execution} {store store' : Store} {x : Lit} {hv : HostVars}

theorem ok_of_merges (run : Relation.ReflTransGen Merges store store') (ok : store.Ok) : store'.Ok := by
  induction run with
  | refl => exact ok
  | tail _ step ih =>
    obtain ⟨env, io, f, rfl⟩ := step
    exact merge_ok env io f ih

theorem static_of_merges (run : Relation.ReflTransGen Merges store store') : store.Static store' := by
  induction run with
  | refl => exact .refl store
  | tail _ step ih =>
    obtain ⟨env, io, f, rfl⟩ := step
    exact ih.trans (merge_static env io f _)

theorem merge_merges {env : Env} {io : String → WriteReply} {f f' : MergeFunc} {r : Except Fault Unit}
    (run : merge env io f store = (r, f', store')) : Merges store store' :=
  ⟨env, io, f, by rw [run]⟩

theorem callModule_merges (e : Execution) (store : Store) :
    Relation.ReflTransGen Merges store (callModule e store).store := by
  unfold callModule
  split
  · exact .refl
  · exact e.module.merges store

theorem resetItem_merges (e : Execution) (run : ItemRun) :
    Relation.ReflTransGen Merges run.store (resetItem e run).store := by
  unfold resetItem
  split
  · exact .refl
  · split
    · next merged => exact .single (merge_merges merged)
    · next merged => exact .single (merge_merges merged)

/-- All that one round does to the variables are merges. -/
theorem executeModule_merges (e : Execution) (x : Lit) (store : Store) :
    Relation.ReflTransGen Merges store (executeModule e x store).store := by
  unfold executeModule
  split
  · exact callModule_merges e store
  · split
    · exact .refl
    · split
      · next merged => exact .single (merge_merges merged)
      · next store' merged =>
        have set : Relation.ReflTransGen Merges store store' := .single (merge_merges merged)
        exact (set.trans (callModule_merges e store')).trans (resetItem_merges e _)

theorem callModule_seen (e : Execution) (ok : store.Ok) : (callModule e store).seen = some store := by
  obtain ⟨l, h, run, _⟩ := getAllVariable_built ok.valueOk e.env.localIP e.host
  rw [callModule, run]

/-- The round of an item that nothing gets in the way of. -/
theorem Ready.round (ready : Ready e store x) (ok : store.Ok) (known : store.value.hosts.get? e.host = some hv)
    (written : ∀ name, e.io name = .ok) (decoded : Decoded x) (set : isNull x = false)
    (text : e.libs.yaml.ReadsBack [(variableItem, x)]) (null : e.libs.yaml.ReadsBack [(variableItem, .scalar .null)]) :
    (∃ s, (executeModule e x store).seen = some s ∧ ItemIs e s x) ∧
      ItemIs e (executeModule e x store).store (.scalar .null) := by
  obtain ⟨f₁, store₁, merged, item⟩ := ready.merged ok known written decoded
  have ok₁ := ok_of_merges (.single (merge_merges merged)) ok
  have run := callModule_merges e store₁
  have static := (static_of_merges (.single (merge_merges merged))).trans (static_of_merges run)
  obtain ⟨hv₂, known₂⟩ := static.known known
  -- the module has left the static layers as they are, so the null is not in its own way
  have clean : Ready e (callModule e store₁).store (.scalar .null) :=
    ready_null (ok_of_merges run ok₁) fun p => by rw [staticLayersOver_static static]; exact ready.unclaimed p
  obtain ⟨f₂, store₂, reset, none⟩ := clean.merged (ok_of_merges run ok₁) known₂ written trivial
  have whole : executeModule e x store = { callModule e store₁ with store := store₂ } := by
    simp only [executeModule, set, Bool.false_eq_true, if_false, convertMap2Node_eq text, merged, resetItem,
      convertMap2Node_eq null, reset]
  rw [whole]
  exact ⟨⟨store₁, callModule_seen e ok₁, item⟩, none⟩

/-- The round of an item that meets its condition. -/
theorem RoundReady.delivers (ready : RoundReady e store x) (ok : store.Ok)
    (known : store.value.hosts.get? e.host = some hv) (written : ∀ name, e.io name = .ok) (decoded : Decoded x)
    (text : e.libs.yaml.ReadsBack [(variableItem, x)]) (null : e.libs.yaml.ReadsBack [(variableItem, .scalar .null)]) :
    (∃ s, (executeModule e x store).seen = some s ∧ ItemIs e s x) ∧
      ItemIs e (executeModule e x store).store (.scalar .null) := by
  unfold RoundReady at ready
  cases set : isNull x with
  | false =>
    rw [set] at ready
    exact Ready.round ready ok known written decoded set text null
  | true =>
    rw [set] at ready
    obtain rfl : x = .scalar .null := by
      cases x with
      | scalar s => cases s <;> first | rfl | cases set
      | map t entries => cases set
      | slice t items => cases set
    refine ⟨⟨store, ?_, ready.1⟩, ready.2⟩
    exact callModule_seen e ok

/-- The rounds of a loop, each in the state that the one before has left. -/
theorem executeItems_delivers (written : ∀ name, e.io name = .ok)
    (null : e.libs.yaml.ReadsBack [(variableItem, .scalar .null)]) (items : List Lit) : ∀ (out : Output) {store : Store},
    store.Ok → (∃ hv, store.value.hosts.get? e.host = some hv) →
      (∀ x ∈ items, Decoded x ∧ e.libs.yaml.ReadsBack [(variableItem, x)]) → RoundsReady e items store →
      List.Forall₂ (fun x seen => ∃ s, seen = some s ∧ ItemIs e s x) items (executeItems e items out store).seen ∧
        (items ≠ [] ∨ ItemIs e store (.scalar .null) → ItemIs e (executeItems e items out store).store (.scalar .null)) := by
  induction items with
  | nil => exact fun _ _ _ _ _ _ => ⟨.nil, fun start => start.resolve_left fun nonempty => nonempty rfl⟩
  | cons x rest ih =>
    intro out store ok known each ready
    obtain ⟨hv, known⟩ := known
    obtain ⟨decoded, text⟩ := each x (by simp)
    obtain ⟨here, none⟩ := ready.1.delivers ok known written decoded text null
    have run := executeModule_merges e x store
    have later := fun out => ih out (ok_of_merges run ok) ((static_of_merges run).known known)
      (fun y member => each y (List.mem_cons_of_mem _ member)) ready.2
    exact ⟨.cons here (later _).1, fun _ => (later _).2 (Or.inr none)⟩

end Rounds

theorem decoded_of_mem {items : List Lit} (decoded : DecodedItems items) {x : Lit} (member : x ∈ items) : Decoded x := by
  induction items with
  | nil => cases member
  | cons y rest ih =>
    rcases List.mem_cons.1 member with rfl | later
    · exact decoded.1
    · exact ih decoded.2 later

section Loop
variable {e : Execution} {had : DeepView} {raw : String} {items : List Lit}

theorem Lists.dealLoop (lists : Lists e had raw items) (loop : e.task.loop = some raw) : dealLoop e had = items := by
  have nonempty : raw ≠ "" := by
    rintro rfl
    cases lists with
    | list list =>
      rw [e.libs.json_empty] at list
      cases list
    | array string _ _ _ =>
      rw [e.libs.json_empty] at string
      cases string
  simp only [Loop.dealLoop, loop, extension2Slice, nonempty, if_false]
  cases lists with
  | list list => simp only [Libraries.unmarshalSlice, list]
  | array string unquoted rendered list =>
    simp only [Libraries.unmarshalSlice, string, extension2String, nonempty, if_false, unquoted, Option.getD_some, rendered,
      Except.toOption, list]

end Loop

section Bytes
variable {e : Execution} {had : DeepView} {raw s r : String}

theorem decoded_bytesLit (text : String) : Decoded (bytesLit text) := by
  refine ⟨rfl, ?_⟩
  induction text.toUTF8.toList with
  | nil => trivial
  | cons b rest ih => exact ⟨trivial, ih⟩

theorem dealLoop_decoded (e : Execution) (had : DeepView) : DecodedItems (dealLoop e had) := by
  have listed : ∀ {text items}, e.libs.unmarshalSlice text = some items → DecodedItems items := by
    intro text items read
    unfold Libraries.unmarshalSlice at read
    split at read
    · next decoded =>
      cases read
      exact (e.libs.decoded_json _ _ decoded).2
    · cases read
      trivial
    · cases read
  unfold dealLoop
  split
  · exact ⟨trivial, trivial⟩
  · unfold extension2Slice
    split
    · trivial
    · split
      · next read => exact listed read
      · dsimp only
        split
        · next read => exact listed read
        · exact ⟨decoded_bytesLit _, trivial⟩

/-- A string that renders to no array is given as bytes, unless it renders to null. -/
theorem dealLoop_text (loop : e.task.loop = some raw) (string : e.libs.unmarshalJSON raw = some (.scalar (.str s)))
    (unquoted : e.libs.unquote raw = some s) (rendered : tmplParse e.env had s = .ok r)
    (other : ∀ t items, e.libs.unmarshalJSON r ≠ some (.slice t items)) :
    dealLoop e had = [] ∨ dealLoop e had = [bytesLit r] := by
  have nonempty : raw ≠ "" := by
    rintro rfl
    rw [e.libs.json_empty] at string
    cases string
  have val : (extension2String e.libs e.env had raw).toOption.getD "" = r := by
    rw [extension2String, if_neg nonempty, unquoted, Option.getD_some, rendered]
    rfl
  simp only [dealLoop, loop, extension2Slice, if_neg nonempty, val]
  rw [show e.libs.unmarshalSlice raw = none by rw [Libraries.unmarshalSlice, string]]
  dsimp only
  cases read : e.libs.unmarshalSlice r with
  | none => exact .inr rfl
  | some items =>
    unfold Libraries.unmarshalSlice at read
    split at read
    · next list => exact absurd list (other _ _)
    · cases read
      exact .inl rfl
    · cases read

/-- A list is no string. -/
theorem not_bytes {store : Store} (text : ItemIs e store (.scalar (.str s))) (bytes : ItemIs e store (bytesLit r)) : False := by
  obtain ⟨w, item, equal⟩ := text
  obtain ⟨w', item', equal'⟩ := bytes
  rw [item] at item'
  cases item'
  obtain string | ⟨null, _⟩ := equal
  · obtain list | ⟨null, _⟩ := equal'
    · have top := string []
      have top' := list []
      cases held : w [] with
      | none =>
        rw [held] at top
        cases top
      | some d =>
        rw [held] at top top'
        cases d with
        | scalar t => cases top'
        | map => cases top
        | slice n => cases top
    · cases null
  · cases null

end Bytes

/-- In every run of a loop in which each round starts with nothing in the way of its item, the module gets the items that
the loop stands for if and only if the loop is a list, or a string that renders to a JSON array. -/
theorem delivers_iff {e : Execution} {had : DeepView} {out : Output} {store : Store} {hv : HostVars} {raw : String}
    (ok : store.Ok) (known : store.value.hosts.get? e.host = some hv) (written : ∀ name, e.io name = .ok)
    (loop : e.task.loop = some raw)
    (understood : ∀ s, e.libs.unmarshalJSON raw = some (.scalar (.str s)) → e.libs.unquote raw = some s)
    (text : ∀ x ∈ .scalar .null :: dealLoop e had, e.libs.yaml.ReadsBack [(variableItem, x)])
    (ready : RoundsReady e (dealLoop e had) store)
    (start : dealLoop e had ≠ [] ∨ ItemIs e store (.scalar .null)) :
    Delivers e had out store ↔ ∀ items, Means e had raw items → Lists e had raw items := by
  obtain ⟨each, reset⟩ := executeItems_delivers written (text _ (by simp)) (dealLoop e had) out ok ⟨hv, known⟩
    (fun x member => ⟨decoded_of_mem (dealLoop_decoded e had) member, text x (List.mem_cons_of_mem _ member)⟩) ready
  constructor
  · intro delivers items means
    cases means with
    | list list => exact .list list
    | array string rendered list => exact .array string (understood _ string) rendered list
    | @text s r string rendered other =>
      -- the module has found a list, or was not run
      exfalso
      have found := (delivers raw _ loop (.text string rendered other)).1
      rw [execLoop] at found
      obtain none | bytes := dealLoop_text loop string (understood _ string) rendered other
      · rw [none] at found
        cases found
      · rw [bytes] at found each
        generalize (executeItems e [bytesLit r] out store).seen = seen at found each
        cases found with
        | cons here _ =>
          cases each with
          | cons here' _ =>
            obtain ⟨s₁, rfl, item⟩ := here
            obtain ⟨s₂, same, item'⟩ := here'
            cases same
            exact not_bytes item item'
  · intro lists raw' items loop' means
    rw [loop] at loop'
    cases loop'
    rw [execLoop]
    have same := (lists items means).dealLoop loop
    rw [same] at each reset start ⊢
    exact ⟨each, reset start⟩

/-! ## Two loops -/

/-- The tags and texts of the scalars in them. -/
def loopFormat : Scalar → String × String
  | .str s => (strTag, s)
  | .int i => (intTag, toString i)
  | _ => (nullTag, "null")

/-- Libraries that write and read the texts of three items, and know the loops `["a"]` and `"a"`. -/
def loopLibraries : Libraries where
  yaml := {
    marshal := fun m => match m with
      | [(_, .scalar (.str _))] => .ok "item: a\n"
      | [(_, .slice _ _)] => .ok "item:\n    - 97\n"
      | _ => .ok "item: null\n"
    unmarshal := fun text => .ok (document loopFormat [(variableItem,
      if text = "item: a\n" then .scalar (.str "a")
      else if text = "item:\n    - 97\n" then bytesLit "a"
      else .scalar .null)])
    format := loopFormat
    format_str := fun _ => rfl }
  unmarshalJSON := fun text =>
    if text = "[\"a\"]" then some (.slice .any [.scalar (.str "a")])
    else if text = "\"a\"" then some (.scalar (.str "a"))
    else none
  unmarshalYAML := fun text => some (.scalar (.str text))
  decoded_json := by
    intro text x read
    split at read
    · cases read
      exact ⟨rfl, trivial, trivial⟩
    · split at read
      · cases read
        trivial
      · cases read
  decoded_yaml := by
    intro text x read
    cases read
    trivial
  unquote := fun text => if text = "\"a\"" then some "a" else none
  json_empty := rfl
  format_null := rfl

/-- Libraries that know strings and integers. -/
def loopEnv : Env where
  render := fun _ _ => .error "function not defined"
  localIP := fun _ => ""
  parseFloat := fun _ => none
  decodeScalar := fun tag value =>
    if tag = strTag then .ok (.str value)
    else if tag = intTag then (atoi value).elim (.error "unsupported integer") fun i => .ok (.int i)
    else .error "unsupported tag"
  decodeScalar_ne_null := by
    intro tag value _
    split
    · simp
    · split
      · cases atoi value <;> simp
      · simp

/-- A loop over `raw` with a module that leaves the variables as they are. -/
def loopOver (raw : String) : Execution where
  task := { name := "debug", loop := some raw }
  host := "node1"
  libs := loopLibraries
  env := loopEnv
  io := fun _ => .ok
  module := ⟨fun store => ({}, store), fun _ => .refl⟩
  failedWhen := fun _ => .ok false
  errText := fun _ => ⟨"error", by decide⟩

theorem defines_node1 (p : Path) :
    defines (staticLayersOver node1Store.value "node1") (.key variableItem :: p) = false := by
  have empty : ∀ a : DeepView, a = baseView → a.decides Shape.opens (.key variableItem :: p) = false := by
    rintro a rfl
    rw [View.decides_cons_open (show baseView [] = some .map from rfl) rfl]
    exact View.decides_empty p
  simp only [defines, View.anyDecides, staticLayersOver, ownLayers, List.any_cons, List.any_nil, Bool.or_false,
    Bool.or_eq_false_iff]
  exact ⟨empty _ rfl, empty _ rfl, empty _ rfl⟩

theorem delivers_iff_list : node1Store.Ok ∧ node1Store.value.hosts.get? "node1" = some ⟨.ref 0, .ref 1⟩ ∧
    (Delivers (loopOver "[\"a\"]") (fun _ => none) {} node1Store ↔
      ∀ items, Means (loopOver "[\"a\"]") (fun _ => none) "[\"a\"]" items →
        Lists (loopOver "[\"a\"]") (fun _ => none) "[\"a\"]" items) := by
  have ok := (node1Store_reachable plainEnv).ok
  have items : dealLoop (loopOver "[\"a\"]") (fun _ => none) = [.scalar (.str "a")] := by rfl
  refine ⟨ok, rfl, delivers_iff ok rfl (fun _ => rfl) rfl ?_ ?_ ?_ ?_⟩
  · intro s string
    cases string
  · rw [items]
    simp only [List.forall_mem_cons, List.not_mem_nil, false_implies, implies_true, and_true]
    exact ⟨⟨_, rfl, rfl⟩, ⟨_, rfl, rfl⟩⟩
  · rw [items]
    refine ⟨?_, trivial⟩
    have only : scalars (.scalar (.str "a")) [.key variableItem] = [([.key variableItem], .str "a")] := rfl
    show Ready _ _ _
    refine ⟨?_, ?_, defines_node1, ?_⟩
    · rw [only, List.forall_mem_singleton]
      exact ⟨by decide, by decide, .str "a", rfl, Or.inl rfl⟩
    · intro ctx h context
      have taken : (contextOf loopEnv node1Store "node1").map (fun c => takes c.2 c.1 [.key variableItem]) = some true := by
        decide +kernel
      rw [show contextOf loopEnv node1Store "node1" = some (ctx, h) from context] at taken
      rw [only, List.forall_mem_singleton]
      simpa using taken
    · intro hv known p _
      cases known
      exact ⟨rfl, rfl, rfl⟩
  · rw [items]
    exact Or.inl (by simp)

theorem text_given_as_bytes : ¬ Delivers (loopOver "\"a\"") (fun _ => none) {} node1Store := by
  intro delivers
  have found := (delivers "\"a\"" _ rfl (.text (s := "a") rfl rfl (by intro t items; simp [loopOver, loopLibraries]))).1
  have seen : (execLoop (loopOver "\"a\"") (fun _ => none) {} node1Store).seen.map
      (fun seen => seen.bind fun s => (itemOf (loopOver "\"a\"") s).map fun w => w []) = [some (some (.slice 1))] := by
    decide +kernel
  generalize (execLoop (loopOver "\"a\"") (fun _ => none) {} node1Store).seen = stores at found seen
  cases found with
  | cons here none =>
    cases none
    obtain ⟨s, rfl, w, item, equal⟩ := here
    have top : w [] = some (.slice 1) := by simpa [item] using seen
    obtain string | ⟨null, _⟩ := equal
    · have shape := string []
      rw [top] at shape
      cases shape
    · cases null

end KubeKey.Executor.Loop
