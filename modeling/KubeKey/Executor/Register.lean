import KubeKey.Converter.Map2Node
import KubeKey.Variable.Single

/-!
# Registering the output of a task

`dealRegister` of `pkg/executor/task_executor.go` stores the output of a task on a
host under the name that `register` gives, by a merge of `{register: {stderr, stdout}}`
into the host's runtime variables. On its way the output is written as yaml, read back,
taken for templates, stored into the context and merged over what the name held before.
The variable is exactly the output, and registering does not fail, if none of this gets
in the way (`Registrable`), and for contexts without typed containers only then
(`registers_exactly`).
-/

namespace KubeKey.Executor.Register

open KubeKey.Go KubeKey.Variable KubeKey.Converter

/-- The libraries behind `register_type`. A decoder gives what its target holds afterwards, `none` if it was left alone. -/
structure Decoders where
  yaml : Yaml
  /-- `json.Unmarshal` into an `any`. -/
  unmarshalJSON : String → Option Lit
  /-- `yaml.Unmarshal` into an `any`. -/
  unmarshalYAML : String → Option Lit
  decoded_json : ∀ s x, unmarshalJSON s = some x → Decoded x
  decoded_yaml : ∀ s x, unmarshalYAML s = some x → Decoded x

/-- The fields of a task that say how its output is registered. -/
structure Registration where
  register : String
  registerType : String

/-- The value of stdout: the string itself, or what it decodes to. -/
def stdoutResult (decoders : Decoders) (registerType stdout : String) : Lit :=
  if registerType = "json" then (decoders.unmarshalJSON stdout).getD (.scalar (.str stdout))
  else if registerType = "yaml" ∨ registerType = "yml" then (decoders.unmarshalYAML stdout).getD (.scalar (.str stdout))
  else .scalar (.str stdout)

/-- The registered value. -/
def registered (decoders : Decoders) (registerType stdout stderr : String) : Lit :=
  .map .any [("stderr", .scalar (.str stderr)), ("stdout", stdoutResult decoders registerType stdout)]

/-- `dealRegister`. -/
def dealRegister (decoders : Decoders) (env : Env) (io : String → WriteReply) (task : Registration)
    (stdout stderr host : String) (store : Store) : Except Fault Unit × Store :=
  if task.register = "" then (.ok (), store)
  else
    match convertMap2Node decoders.yaml [(task.register, registered decoders task.registerType stdout stderr)] with
    | .error e => (.error (.error e), store)
    | .ok node =>
      let (r, _, store) := merge env io (.runtime node [host]) store
      (r, store)

/-- The same libraries with another template engine. -/
def withRender (env : Env) (render : DeepView → String → Except String String) : Env := { env with render := render }

/-- Registering does not fail unless a write does, and leaves exactly the output under the name, whatever the template
engine would make of the text. -/
structure RegistersExactly (decoders : Decoders) (env : Env) (task : Registration) (stdout stderr host : String)
    (store : Store) : Prop where
  succeeds : ∀ render io, (∀ name, io name = .ok) →
    (dealRegister decoders (withRender env render) io task stdout stderr host store).1 = .ok ()
  exact : ∀ render io store', dealRegister decoders (withRender env render) io task stdout stderr host store =
      (.ok (), store') → ∃ hv, store'.value.hosts.get? host = some hv ∧
        ∀ p, store'.heap.view hv.runtimeVars (.key task.register :: p) =
          (registered decoders task.registerType stdout stderr).view p

/-- A scalar that reaches the variables as it is. -/
structure Survives (yaml : Yaml) (env : Env) (s : Scalar) : Prop where
  /-- Its text is not taken for a template. -/
  literal : literalText (yaml.format s) = true
  /-- Its text is read by the walk. -/
  parses : (parseScalarValue env (fun _ => none) (yaml.format s).1 (yaml.format s).2).isOk = true
  /-- Its text is decoded to the scalar itself. -/
  reads : readScalar env (yaml.format s) = .ok s

/-- The context that the output is rendered in. -/
def contextOf (env : Env) (store : Store) (host : String) : Option (Val × Heap) :=
  getAllVariable env.localIP (deepCopy store.value store.heap).1 host (deepCopy store.value store.heap).2

/-- Nothing gets in the way of the output. -/
structure Registrable (decoders : Decoders) (env : Env) (task : Registration) (stdout stderr host : String)
    (store : Store) : Prop where
  survives : ∀ e ∈ scalars (registered decoders task.registerType stdout stderr) [.key task.register],
    Survives decoders.yaml env e.2
  /-- The context has nothing at the paths of the output but containers for them. -/
  taken : ∀ ctx h, contextOf env store host = some (ctx, h) →
    ∀ e ∈ scalars (registered decoders task.registerType stdout stderr) [.key task.register], takes h ctx e.1 = true
  /-- The name held nothing that the output does not replace. -/
  cleared : ∀ hv, store.value.hosts.get? host = some hv → ∀ p,
    (registered decoders task.registerType stdout stderr).view.decides Shape.opens p = false →
      store.heap.view hv.runtimeVars (.key task.register :: p) = none

theorem registered_decoded (decoders : Decoders) (registerType stdout stderr : String) :
    Decoded (registered decoders registerType stdout stderr) := by
  have result : Decoded (stdoutResult decoders registerType stdout) := by
    unfold stdoutResult
    split
    · cases decoded : decoders.unmarshalJSON stdout with
      | none => trivial
      | some x => exact decoders.decoded_json stdout x decoded
    · split
      · cases decoded : decoders.unmarshalYAML stdout with
        | none => trivial
        | some x => exact decoders.decoded_yaml stdout x decoded
      · trivial
  exact ⟨rfl, by simp, trivial, result, trivial⟩

section Parse
variable {env : Env}

/-- A text that is not taken for a template is read without the template engine. -/
theorem parseScalarValue_literal {tag text : String} (literal : literalText (tag, text) = true)
    (render : DeepView → String → Except String String) (w w' : DeepView) :
    parseScalarValue (withRender env render) w tag text = parseScalarValue env w' tag text := by
  unfold parseScalarValue
  by_cases str : tag = strTag ∨ tag = ""
  · have plain : isTmplSyntax text = false := by
      simp only [literalText, Bool.or_eq_true, Bool.and_eq_true, decide_eq_true_eq, Bool.not_eq_true'] at literal
      rcases literal with ⟨notStr, notEmpty⟩ | plain
      · exact absurd str (by tauto)
      · exact plain
    simp only [plain, withRender, Bool.false_eq_true, if_false]
  · simp only [str, withRender, if_false]

/-- Without a template engine only a text that is not taken for a template is read. -/
theorem literal_of_parses {tag text : String} {e : String} {w : DeepView}
    (parses : (parseScalarValue (withRender env fun _ _ => .error e) w tag text).isOk = true) :
    literalText (tag, text) = true := by
  by_contra template
  simp only [literalText, Bool.not_eq_true, Bool.or_eq_false_iff, Bool.and_eq_false_iff, decide_eq_false_iff_not,
    not_not, Bool.not_eq_false'] at template
  obtain ⟨str, tmpl⟩ := template
  have notNull : tag ≠ nullTag := by rintro rfl; revert str; decide
  have notBool : tag ≠ boolTag := by rintro rfl; revert str; decide
  have run : parseScalarValue (withRender env fun _ _ => .error e) w tag text = .error (.template e) := by
    simp only [parseScalarValue, notNull, notBool, if_false, str, if_true, tmpl, withRender]
  rw [run] at parses
  cases parses

end Parse

section Walk
variable {env : Env} {yaml : Yaml} {roots : Val → Prop} {l : Nat} {h : Heap} {name : String} {x : Lit}

theorem decoded_single (decoded : Decoded x) : Decoded (.map .any [(name, x)]) :=
  ⟨rfl, by simp, decoded, trivial⟩

theorem scalars_single : scalars (.map .any [(name, x)]) [] = scalars x [.key name] := by
  simp [scalars, entryScalars]

/-- The scalars that are registered, in the registered map. -/
theorem spot_single (decoded : Decoded x) {e : Path × Scalar} (member : e ∈ scalars x [.key name]) :
    ∃ q, e.1 = .key name :: q ∧ Spot x.view q e.2 ∧ Spot (Lit.map .any [(name, x)]).view e.1 e.2 := by
  obtain ⟨q, split, spot⟩ := scalars_spot x [.key name] decoded e.1 e.2 member
  obtain ⟨q', whole, spot'⟩ := scalars_spot (.map .any [(name, x)]) [] (decoded_single decoded) e.1 e.2
    (by rw [scalars_single]; exact member)
  refine ⟨q, split, spot, ?_⟩
  rw [whole]
  exact spot'

/-- The walk over the node of a registered value. -/
theorem walk_ok_iff (rendering : Rendering roots l h) (decoded : Decoded x) (own : ¬ Reserved name)
    (untyped : ∀ e ∈ scalars x [.key name], Untyped h (.ref l) e.1)
    (steady : ∀ e ∈ scalars x [.key name], Steady env (yaml.format e.2).1 (yaml.format e.2).2) :
    (walkNode env (.ref l) (document yaml.format [(name, x)]) h).1 = .ok () ↔
      ∀ e ∈ scalars x [.key name],
        (∀ w, (parseScalarValue env w (yaml.format e.2).1 (yaml.format e.2).2).isOk = true) ∧
          takes h (.ref l) e.1 = true := by
  have ownPath : ∀ e ∈ scalars x [.key name], Own e.1 := by
    intro e member k t first
    obtain ⟨q, split, _⟩ := spot_single decoded member
    rw [split] at first
    cases first
    exact own
  have compatible : ∀ e ∈ scalars x [.key name], ∀ e' ∈ scalars x [.key name], Compatible e.1 e'.1 := by
    intro e member e' member'
    obtain ⟨_, _, _, spot⟩ := spot_single decoded member
    obtain ⟨_, _, _, spot'⟩ := spot_single decoded member'
    exact spot.compatible spot'
  have walk := walkNode_document env (.ref l) yaml.format [(name, x)] h
  rw [show entryScalars [(name, x)] [] = scalars x [.key name] from scalars_single] at walk
  rw [walk, storeScalars_ok_iff (cells yaml.format (scalars x [.key name])) rendering]
  · simp only [cells, List.forall_mem_map]
  · simp only [cells, List.forall_mem_map]
    exact fun e member => ⟨ownPath e member, untyped e member, steady e member⟩
  · simp only [cells, List.forall_mem_map]
    exact compatible

theorem document_nonzero (format : Scalar → String × String) (m : List (String × Lit)) :
    (document format m).isZero = false := rfl

theorem document_parsed (format : Scalar → String × String) (m : List (String × Lit)) :
    (document format m).parsed = true := rfl

theorem document_plain (decoded : Decoded x) (own : ¬ Reserved name) :
    (document yaml.format [(name, x)]).plain := by
  intro e member
  have leaves : (document yaml.format [(name, x)]).rootLeaves =
      (scalars x [.key name]).map fun e => (e.1, (yaml.format e.2).1) := by
    rw [← scalars_single, ← leaves_litNode]
    simp [document, Node.rootLeaves]
  rw [leaves] at member
  obtain ⟨cell, inside, rfl⟩ := List.mem_map.1 member
  obtain ⟨q, split, _⟩ := spot_single decoded inside
  intro k s t first
  rw [split] at first
  cases first
  exact own

theorem document_templateFree (free : ∀ e ∈ scalars x [.key name], literalText (yaml.format e.2) = true) :
    (document yaml.format [(name, x)]).templateFree = true := by
  have node := templateFree_litNode yaml.format (.map .any [(name, x)]) [] (by rw [scalars_single]; exact free)
  simp [document, Node.templateFree, templateFreeAll, node]

theorem decodeMap_document (env : Env) (format : Scalar → String × String) (m : List (String × Lit)) :
    decodeMap env (document format m) = (decodeEntries env (entryNodes format m)).map some := by
  simp only [document, decodeMap, litNode, decodeRoot]
  cases decodeEntries env (entryNodes format m) <;> rfl

end Walk

section Merged
variable {env : Env} {yaml : Yaml} {host name : String} {x : Lit} {store : Store}

/-- The context of the host, ready for a rendering. -/
theorem context_ready (env : Env) (host : String) (ok : store.Ok) : ∃ l h, contextOf env store host = some (.ref l, h) ∧
    Rendering (fun v => store.roots v ∨ (deepCopy store.value store.heap).1.roots v) l h ∧
      ∀ render node, renderFor (withRender env render) (deepCopy store.value store.heap).1 host node
        (deepCopy store.value store.heap).2 = parseYamlNode (withRender env render) (.ref l) node h := by
  obtain ⟨_, tidy⟩ := deepCopy_copied ok.tidy fun v => Or.inl (b := store.source.roots v)
  obtain ⟨l, h, run, context⟩ := getAllVariable_built ok.copy env.localIP host
  refine ⟨l, h, run, context.rendering tidy fun _ => Or.inr, fun render node => ?_⟩
  rw [renderFor, show (withRender env render).localIP = env.localIP from rfl, run]

/-- What a successful merge of a value leaves under the name. -/
theorem merged_view (ok : store.Ok) (decoded : Decoded x) (own : ¬ Reserved name) {hv : HostVars}
    (known : store.value.hosts.get? host = some hv)
    (free : ∀ e ∈ scalars x [.key name], literalText (yaml.format e.2) = true) {io : String → WriteReply}
    {f' : MergeFunc} {store' : Store}
    (merged : merge env io (.runtime (document yaml.format [(name, x)]) [host]) store = (.ok (), f', store')) :
    ∃ hv' y, store'.value.hosts.get? host = some hv' ∧
      decodeEntries env (entryNodes yaml.format [(name, x)]) = .ok [(name, y)] ∧
      (∀ p, store'.heap.view hv'.runtimeVars (.key name :: p) =
        if y.view.decides Shape.opens p then y.view p else store.heap.view hv.runtimeVars (.key name :: p)) ∧
      ∀ p, y.view.decides Shape.opens p = false →
        store'.heap.view hv'.remoteVars (.key name :: p) = store.heap.view hv.remoteVars (.key name :: p) := by
  obtain ⟨hv', entries, known', read, runtime, remote⟩ := merge_single_leaves ok (document_nonzero _ _)
    (document_parsed _ _) (document_plain decoded own) merged known
  rw [ownNode_templateFree (document_templateFree free), decodeMap_document] at read
  cases found : decodeEntries env (entryNodes yaml.format [(name, x)]) with
  | error e =>
    rw [found] at read
    cases read
  | ok ys =>
    rw [found] at read
    cases read
    cases decodeEntries_entryNodes _ _ _ _ found with
    | @cons _ f _ rest pair others =>
      cases others
      obtain ⟨name, y⟩ := f
      obtain ⟨rfl, _⟩ := pair
      have root : (Lit.map .any [(name, y)]).view [] = some .map := rfl
      have below : ∀ p, (Lit.map .any [(name, y)]).view (.key name :: p) = y.view p := by
        intro p
        have step : (Lit.map .any [(name, y)]).child (.key name) = some y := by simp [Lit.child, GoMap.ofList]
        simp only [Lit.view, step, Option.bind_some]
      have decides : ∀ p, (dataView (some [(name, y)])).decides Shape.opens (.key name :: p) =
          y.view.decides Shape.opens p := by
        intro p
        rw [dataView, Option.elim_some, View.decides_cons_open root rfl]
        exact congrArg (fun w => View.decides Shape.opens w p) (funext below)
      refine ⟨hv', y, known', rfl, fun p => ?_, fun p undecided => remote _ (by rw [decides, undecided])⟩
      rw [runtime, overlay]
      cases decided : y.view.decides Shape.opens p with
      | true =>
        rw [View.overlay_of_decides (by rw [decides, decided]), if_pos rfl]
        exact below p
      | false =>
        rw [View.overlay_of_not_decides (by rw [decides, decided])]
        rfl

/-- The merge of a value succeeds if the walk reads its texts, the context takes its paths and the texts are decoded. -/
theorem merged_ok (ok : store.Ok) (decoded : Decoded x) (own : ¬ Reserved name) {io : String → WriteReply}
    (written : ∀ name, io name = .ok) (free : ∀ e ∈ scalars x [.key name], literalText (yaml.format e.2) = true)
    (parses : ∀ e ∈ scalars x [.key name],
      (parseScalarValue env (fun _ => none) (yaml.format e.2).1 (yaml.format e.2).2).isOk = true)
    (reads : ∀ e ∈ scalars x [.key name], (readScalar env (yaml.format e.2)).isOk = true)
    (taken : ∀ ctx h, contextOf env store host = some (ctx, h) → ∀ e ∈ scalars x [.key name], takes h ctx e.1 = true) :
    (merge env io (.runtime (document yaml.format [(name, x)]) [host]) store).1 = .ok () := by
  obtain ⟨l, h, context, rendering, render_eq⟩ := context_ready env host ok
  have same : ∀ e ∈ scalars x [.key name], ∀ w w', parseScalarValue env w (yaml.format e.2).1 (yaml.format e.2).2 =
      parseScalarValue env w' (yaml.format e.2).1 (yaml.format e.2).2 :=
    fun e member => parseScalarValue_literal (free e member) env.render
  have walked : (walkNode env (.ref l) (document yaml.format [(name, x)]) h).1 = .ok () := by
    refine (walk_ok_iff rendering decoded own (fun e member => untyped_of_takes e.1 (taken _ h context e member)) ?_).2 ?_
    · intro e member w w'
      rw [same e member w w']
    · intro e member
      refine ⟨fun w => ?_, taken _ h context e member⟩
      rw [same e member w fun _ => none]
      exact parses e member
  refine (merge_single_ok ok (document_nonzero _ _) written host).2 ?_
  rw [show renderFor env _ host (document yaml.format [(name, x)]) _ = _ from
    render_eq env.render (document yaml.format [(name, x)])]
  have kept := (walkNode_templateFree env (.ref l) (document_templateFree free) h).1
  obtain ⟨ys, decodes⟩ := decodeEntries_entryNodes_ok env yaml.format [(name, x)] [] (by simp) ⟨decoded, trivial⟩ (by
    rw [show entryScalars [(name, x)] [] = scalars x [.key name] from scalars_single]
    exact reads)
  have data := decodeMap_document env yaml.format [(name, x)]
  rw [decodes, ← kept] at data
  show (parseYamlNode env (.ref l) (document yaml.format [(name, x)]) h).1.isOk = true
  unfold parseYamlNode
  generalize walkNode env (.ref l) (document yaml.format [(name, x)]) h = outcome at walked data
  obtain ⟨result, node', left, h'⟩ := outcome
  cases walked
  simp only at data
  simp only [data]
  rfl

end Merged

section Output
variable {decoders : Decoders} {env : Env} {task : Registration} {stdout stderr host : String} {store : Store}

theorem dealRegister_eq (env : Env) (io : String → WriteReply) (named : task.register ≠ "")
    (text : decoders.yaml.ReadsBack [(task.register, registered decoders task.registerType stdout stderr)]) :
    dealRegister decoders env io task stdout stderr host store =
      ((merge env io (.runtime (document decoders.yaml.format
          [(task.register, registered decoders task.registerType stdout stderr)]) [host]) store).1,
        (merge env io (.runtime (document decoders.yaml.format
          [(task.register, registered decoders task.registerType stdout stderr)]) [host]) store).2.2) := by
  rw [dealRegister, if_neg named, convertMap2Node_eq text]

/-- What a successful registration leaves under the name. -/
theorem register_view (ok : store.Ok) (named : task.register ≠ "") (own : ¬ Reserved task.register) {hv : HostVars}
    (known : store.value.hosts.get? host = some hv)
    (text : decoders.yaml.ReadsBack [(task.register, registered decoders task.registerType stdout stderr)])
    (free : ∀ e ∈ scalars (registered decoders task.registerType stdout stderr) [.key task.register],
      literalText (decoders.yaml.format e.2) = true)
    {render : DeepView → String → Except String String} {io : String → WriteReply} {store' : Store}
    (done : dealRegister decoders (withRender env render) io task stdout stderr host store = (.ok (), store')) :
    ∃ hv' y, store'.value.hosts.get? host = some hv' ∧
      decodeEntries (withRender env render) (entryNodes decoders.yaml.format
        [(task.register, registered decoders task.registerType stdout stderr)]) = .ok [(task.register, y)] ∧
      ∀ p, store'.heap.view hv'.runtimeVars (.key task.register :: p) =
        if y.view.decides Shape.opens p then y.view p
        else store.heap.view hv.runtimeVars (.key task.register :: p) := by
  have decoded := registered_decoded decoders task.registerType stdout stderr
  rw [dealRegister_eq _ _ named text, Prod.mk.injEq] at done
  obtain ⟨success, rfl⟩ := done
  obtain ⟨hv', y, known', found, view, _⟩ := merged_view ok decoded own known free (outcome_eq success)
  exact ⟨hv', y, known', found, view⟩

/-- The context has no typed container on the paths of the output. -/
def UntypedContext (decoders : Decoders) (env : Env) (task : Registration) (stdout stderr host : String) (store : Store) :
    Prop :=
  ∀ ctx h, contextOf env store host = some (ctx, h) →
    ∀ e ∈ scalars (registered decoders task.registerType stdout stderr) [.key task.register], Untyped h ctx e.1

theorem Registrable.registersExactly (ok : store.Ok) (named : task.register ≠ "") (own : ¬ Reserved task.register)
    {hv : HostVars} (known : store.value.hosts.get? host = some hv)
    (text : decoders.yaml.ReadsBack [(task.register, registered decoders task.registerType stdout stderr)])
    (registrable : Registrable decoders env task stdout stderr host store) :
    RegistersExactly decoders env task stdout stderr host store := by
  have decoded := registered_decoded decoders task.registerType stdout stderr
  have free := fun e member => (registrable.survives e member).literal
  have reads : ∀ render, decodeEntries (withRender env render) (entryNodes decoders.yaml.format
      [(task.register, registered decoders task.registerType stdout stderr)]) =
        .ok [(task.register, registered decoders task.registerType stdout stderr)] := by
    intro render
    refine decodeEntries_entryNodes_self _ _ _ [] (by simp) ⟨decoded, trivial⟩ ?_
    rw [show entryScalars [(task.register, registered decoders task.registerType stdout stderr)] [] =
      scalars (registered decoders task.registerType stdout stderr) [.key task.register] from scalars_single]
    exact fun e member => (registrable.survives e member).reads
  constructor
  · intro render io written
    rw [dealRegister_eq _ _ named text]
    refine merged_ok ok decoded own written free (fun e member => ?_) (fun e member => ?_) registrable.taken
    · rw [parseScalarValue_literal (free e member) render _ fun _ => none]
      exact (registrable.survives e member).parses
    · rw [show readScalar (withRender env render) (decoders.yaml.format e.2) = .ok e.2 from
        (registrable.survives e member).reads]
      rfl
  · intro render io store' done
    obtain ⟨hv', y, known', found, view⟩ := register_view ok named own known text free done
    rw [reads render] at found
    cases found
    refine ⟨hv', known', fun p => ?_⟩
    rw [view]
    cases decided : (registered decoders task.registerType stdout stderr).view.decides Shape.opens p with
    | true => rfl
    | false =>
      rw [View.none_of_not_decides (Lit.view_prefixClosed _) decided]
      exact registrable.cleared hv known p decided

theorem RegistersExactly.registrable (ok : store.Ok) (named : task.register ≠ "") (own : ¬ Reserved task.register)
    {hv : HostVars} (known : store.value.hosts.get? host = some hv)
    (text : decoders.yaml.ReadsBack [(task.register, registered decoders task.registerType stdout stderr)])
    (untyped : UntypedContext decoders env task stdout stderr host store)
    (exactly : RegistersExactly decoders env task stdout stderr host store) :
    Registrable decoders env task stdout stderr host store := by
  have decoded := registered_decoded decoders task.registerType stdout stderr
  -- a template engine that knows no template
  have success := exactly.succeeds (fun _ _ => .error "no template") (fun _ => .ok) fun _ => rfl
  obtain ⟨l, h, context, rendering, render_eq⟩ := context_ready env host ok
  have rendered := success
  rw [dealRegister_eq _ _ named text] at rendered
  have rendered := (merge_single_ok ok (document_nonzero _ _) (fun _ => rfl) host).1 rendered
  rw [render_eq] at rendered
  have walked : (walkNode (withRender env fun _ _ => .error "no template") (.ref l) (document decoders.yaml.format
      [(task.register, registered decoders task.registerType stdout stderr)]) h).1 = .ok () := by
    unfold parseYamlNode at rendered
    generalize walkNode (withRender env fun _ _ => .error "no template") (.ref l) (document decoders.yaml.format
      [(task.register, registered decoders task.registerType stdout stderr)]) h = outcome at rendered
    obtain ⟨result, node', left, h'⟩ := outcome
    cases result with
    | error f => cases rendered
    | ok u => rfl
  have each := (walk_ok_iff rendering decoded own (untyped _ h context) fun e _ w w' => rfl).1 walked
  have free := fun e member => literal_of_parses ((each e member).1 fun _ => none)
  obtain ⟨hv', y, known', found, view⟩ := register_view ok named own known text free (Prod.ext success rfl)
  obtain ⟨hv'', known'', exact'⟩ := exactly.exact _ _ _ (Prod.ext success rfl)
  rw [known'] at known''
  cases known''
  have related := (decodeEntries_entryNodes _ _ _ _ found)
  cases related with
  | cons pair _ =>
    have same : y.view = (registered decoders task.registerType stdout stderr).view := by
      funext p
      have seen := (view p).symm.trans (exact' p)
      cases decided : y.view.decides Shape.opens p with
      | true =>
        rw [decided, if_pos rfl] at seen
        exact seen
      | false =>
        have absent := View.none_of_not_decides (Lit.view_prefixClosed y) decided
        have reread := pair.2 p
        rw [absent] at reread ⊢
        cases shape : (registered decoders task.registerType stdout stderr).view p with
        | none => rfl
        | some d =>
          rw [shape] at reread
          cases d with
          | scalar s =>
            obtain ⟨_, scalar, _⟩ := reread
            cases scalar
          | map => cases reread
          | slice n => cases reread
    refine ⟨fun e member => ⟨free e member, ?_, ?_⟩, fun ctx h' context' e member => ?_, fun hv₀ known₀ p undecided => ?_⟩
    · rw [← parseScalarValue_literal (free e member) (fun _ _ => .error "no template") (fun _ => none) fun _ => none]
      exact (each e member).1 fun _ => none
    · obtain ⟨q, _, spot, _⟩ := spot_single decoded member
      have reread := pair.2 q
      rw [same] at reread
      simp only [spot.leaf, Reread, Option.some.injEq, Shape.scalar.injEq] at reread
      obtain ⟨s', rfl, read⟩ := reread
      exact read
    · rw [context] at context'
      cases context'
      exact (each e member).2
    · rw [known] at known₀
      cases known₀
      have seen := (view p).symm.trans (exact' p)
      rw [same, undecided] at seen
      rw [View.none_of_not_decides (Lit.view_prefixClosed _) undecided] at seen
      simpa using seen

/-- The output is registered exactly if nothing gets in its way, and, in a context without typed containers, only if. -/
theorem registers_exactly (ok : store.Ok) (named : task.register ≠ "") (own : ¬ Reserved task.register)
    {hv : HostVars} (known : store.value.hosts.get? host = some hv)
    (text : decoders.yaml.ReadsBack [(task.register, registered decoders task.registerType stdout stderr)]) :
    (Registrable decoders env task stdout stderr host store →
        RegistersExactly decoders env task stdout stderr host store) ∧
      (UntypedContext decoders env task stdout stderr host store →
        RegistersExactly decoders env task stdout stderr host store →
          Registrable decoders env task stdout stderr host store) :=
  ⟨Registrable.registersExactly ok named own known text, RegistersExactly.registrable ok named own known text⟩

end Output

/-- A string reaches the variables as it is if and only if it is not taken for a template. -/
theorem survives_str (yaml : Yaml) {env : Env} {s : String} (decodes : env.decodeScalar strTag s = .ok (.str s)) :
    Survives yaml env (.str s) ↔ isTmplSyntax s = false := by
  have literal : literalText (yaml.format (.str s)) = !isTmplSyntax s := by
    rw [yaml.format_str]
    simp [literalText]
  constructor
  · intro survives
    simpa [literal] using survives.literal
  · intro plain
    refine ⟨by rw [literal, plain]; rfl, ?_, ?_⟩
    · rw [yaml.format_str]
      simp [parseScalarValue, strTag, nullTag, boolTag, plain, Except.isOk, Except.toBool]
    · rw [yaml.format_str, readScalar, if_neg (show ¬ strTag = nullTag by decide), decodes]

/-- Libraries that write and read the text of one map. -/
def textOf (text : String) (m : List (String × Lit)) : Decoders where
  yaml := {
    marshal := fun _ => .ok text
    unmarshal := fun _ => .ok (document (fun s => match s with
      | .str s => (strTag, s)
      | _ => (nullTag, "null")) m)
    format := fun s => match s with
      | .str s => (strTag, s)
      | _ => (nullTag, "null")
    format_str := fun _ => rfl }
  unmarshalJSON := fun _ => none
  unmarshalYAML := fun _ => none
  decoded_json := nofun
  decoded_yaml := nofun

/-- `{out: {stderr: "", stdout: ...}}`. -/
def outMap (stdout : String) : List (String × Lit) :=
  [("out", .map .any [("stderr", .scalar (.str "")), ("stdout", .scalar (.str stdout))])]

theorem registers_exactly_hello : node1Store.Ok ∧ ("out" : String) ≠ "" ∧ ¬ Reserved "out" ∧
    node1Store.value.hosts.get? "node1" = some ⟨.ref 0, .ref 1⟩ ∧
    RegistersExactly (textOf "out:\n    stderr: \"\"\n    stdout: hello\n" (outMap "hello")) plainEnv ⟨"out", ""⟩ "hello" ""
      "node1" node1Store := by
  have ok := (node1Store_reachable plainEnv).ok
  have own : ¬ Reserved "out" := by unfold Reserved; decide
  have strings : scalars (registered (textOf "out:\n    stderr: \"\"\n    stdout: hello\n" (outMap "hello")) "" "hello" "")
      [.key "out"] = [([.key "out", .key "stderr"], .str ""), ([.key "out", .key "stdout"], .str "hello")] := by
    simp [registered, stdoutResult, scalars, entryScalars]
  refine ⟨ok, by decide, own, rfl, (registers_exactly ok (by decide) own rfl ⟨_, rfl, rfl⟩).1 ⟨?_, ?_, ?_⟩⟩
  · rw [strings]
    simp only [List.forall_mem_cons, List.not_mem_nil, false_implies, implies_true, and_true]
    exact ⟨(survives_str _ rfl).2 (by decide), (survives_str _ rfl).2 (by decide)⟩
  · rw [strings]
    intro ctx h context
    have taken : (contextOf plainEnv node1Store "node1").map (fun c =>
        takes c.2 c.1 [.key "out", .key "stderr"] && takes c.2 c.1 [.key "out", .key "stdout"]) = some true := by
      decide +kernel
    rw [context, Option.map_some, Option.some.injEq, Bool.and_eq_true] at taken
    simpa using taken
  · intro hv known p _
    cases known
    rfl

theorem template_output_fails : ¬ RegistersExactly
    (textOf "out:\n    stderr: \"\"\n    stdout: '\x7b\x7b .x \x7d\x7d'\n" (outMap "\x7b\x7b .x \x7d\x7d")) plainEnv ⟨"out", ""⟩
    "\x7b\x7b .x \x7d\x7d" "" "node1" node1Store := by
  intro exactly
  have success := exactly.succeeds plainEnv.render (fun _ => .ok) fun _ => rfl
  revert success
  decide +kernel

end KubeKey.Executor.Register
