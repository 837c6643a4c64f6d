import KubeKey.Variable.Filling
import KubeKey.Variable.Single

/-!
# Earlier variables in later templates

`processNode` of `pkg/variable/yaml.go` renders the values of a vars node in their order and
stores each into the context, so that a later template finds what an earlier key was given.
`setContextValue` stores a value only where nothing is, so a variable that was defined before
keeps its old value in the context, while the merge replaces it in the runtime variables. A
later template sees the new value if nothing that was defined before is in its way
(`sees_earlier`).
-/

namespace KubeKey.Variable

open KubeKey.Go

/-- The text is rendered. -/
def isTemplate (tag text : String) : Bool := (tag = strTag || tag = "") && isTmplSyntax text

/-- The keys of a mapping with their values. -/
def entriesOf : List Node → List (String × Node)
  | key :: value :: rest => (key.value, value) :: entriesOf rest
  | _ => []

/-- The node that is walked over: the content of a document, or the node itself. -/
def Node.root : Node → Node
  | .mk .document _ _ [node] => node
  | node => node

/-- The variables of a vars node. -/
def Node.vars (node : Node) : List (String × Node) := entriesOf node.root.content

mutual

/-- The second node is the first one with other texts for its templates. -/
def Node.becomes : Node → Node → Prop
  | .mk .mapping tag value content, node =>
    ∃ content', node = .mk .mapping tag value content' ∧ entriesBecome content content'
  | .mk .sequence tag value content, node =>
    ∃ content', node = .mk .sequence tag value content' ∧ itemsBecome content content'
  | .mk .scalar tag value content, node =>
    ∃ text, node = .mk .scalar tag text content ∧ (isTemplate tag value = false → text = value)
  | .mk kind tag value content, node => node = .mk kind tag value content

def entriesBecome : List Node → List Node → Prop
  | key :: value :: rest, nodes =>
    ∃ value' rest', nodes = key :: value' :: rest' ∧ value.becomes value' ∧ entriesBecome rest rest'
  | content, nodes => nodes = content

def itemsBecome : List Node → List Node → Prop
  | item :: rest, nodes => ∃ item' rest', nodes = item' :: rest' ∧ item.becomes item' ∧ itemsBecome rest rest'
  | [], nodes => nodes = []

end

section Walked
variable (env : Env) (ctx : Val)

theorem parseScalarValue_text {env : Env} {w : DeepView} {tag value text : String} {v : Scalar}
    (run : parseScalarValue env w tag value = .ok (v, text)) (literal : isTemplate tag value = false) :
    text = value := by
  unfold parseScalarValue at run
  repeat' split at run
  all_goals first
    | (cases run; rfl)
    | simp_all [isTemplate]

mutual

/-- A walk that succeeds fills in the templates and leaves the rest. -/
theorem processNode_becomes : ∀ (node : Node) (path : Path) (h : Heap), (processNode env ctx node path h).1 = .ok () →
    node.becomes (processNode env ctx node path h).2.1
  | .mk .mapping tag value content, path, h, done => by
    rw [processNode] at done ⊢
    split at done
    · cases done
    · next even =>
      rw [if_neg even]
      exact ⟨_, rfl, processEntries_becomes content path h done⟩
  | .mk .sequence tag value content, path, h, done => by
    rw [processNode] at done ⊢
    exact ⟨_, rfl, processItems_becomes content 0 path h done⟩
  | .mk .scalar tag value content, path, h, done => by
    rw [processNode] at done ⊢
    cases read : parseScalarValue env (h.view ctx) tag value with
    | error e =>
      rw [read] at done
      cases done
    | ok parsed => exact ⟨parsed.2, rfl, parseScalarValue_text read⟩
  | .mk .zero tag value content, path, h, done => by cases done
  | .mk .document tag value content, path, h, done => by cases done
  | .mk .alias tag value content, path, h, done => by cases done

theorem processEntries_becomes : ∀ (content : List Node) (path : Path) (h : Heap),
    (processEntries env ctx content path h).1 = .ok () →
      entriesBecome content (processEntries env ctx content path h).2.1
  | key :: value :: rest, path, h, done => by
    rw [processEntries] at done ⊢
    split at done
    · cases done
    · next scalar =>
      rw [if_neg scalar]
      have first := processNode_becomes value (path ++ [.key key.value]) h
      generalize processNode env ctx value (path ++ [.key key.value]) h = outcome at done first
      obtain ⟨result, value', h'⟩ := outcome
      cases result with
      | error f => cases done
      | ok u => exact ⟨value', _, rfl, first rfl, processEntries_becomes rest path h' done⟩
  | [], _, _, _ => rfl
  | [_], _, _, _ => rfl

theorem processItems_becomes : ∀ (items : List Node) (i : Nat) (path : Path) (h : Heap),
    (processItems env ctx items i path h).1 = .ok () → itemsBecome items (processItems env ctx items i path h).2.1
  | [], _, _, _, _ => rfl
  | item :: rest, i, path, h, done => by
    rw [processItems] at done ⊢
    have first := processNode_becomes item (path ++ [.idx i]) h
    generalize processNode env ctx item (path ++ [.idx i]) h = outcome at done first
    obtain ⟨result, item', h'⟩ := outcome
    cases result with
    | error f => cases done
    | ok u => exact ⟨item', _, rfl, first rfl, processItems_becomes rest (i + 1) path h' done⟩

end

end Walked

mutual

/-- Other texts change nothing of the structure. -/
theorem Node.becomes.same : ∀ {node node' : Node}, node.becomes node' →
    node'.walkable = node.walkable ∧ node'.filled = node.filled
  | .mk .mapping _ _ content, _, becomes => by
    obtain ⟨content', rfl, become⟩ := becomes
    obtain ⟨length, walkable, filled⟩ := entriesBecome_same become
    have empty : content'.isEmpty = content.isEmpty := by
      cases content <;> cases content' <;> simp_all
    simp only [Node.walkable, Node.filled, length, walkable, filled, empty, and_self]
  | .mk .sequence _ _ content, _, becomes => by
    obtain ⟨content', rfl, become⟩ := becomes
    obtain ⟨length, walkable, filled⟩ := itemsBecome_same become
    have empty : content'.isEmpty = content.isEmpty := by
      cases content <;> cases content' <;> simp_all
    simp only [Node.walkable, Node.filled, walkable, filled, empty, and_self]
  | .mk .scalar _ _ _, _, becomes => by
    obtain ⟨text, rfl, _⟩ := becomes
    exact ⟨rfl, rfl⟩
  | .mk .zero _ _ _, _, becomes => by
    cases becomes
    exact ⟨rfl, rfl⟩
  | .mk .document _ _ _, _, becomes => by
    cases becomes
    exact ⟨rfl, rfl⟩
  | .mk .alias _ _ _, _, becomes => by
    cases becomes
    exact ⟨rfl, rfl⟩

theorem entriesBecome_same : ∀ {content content' : List Node}, entriesBecome content content' →
    content'.length = content.length ∧ entriesWalkable content' = entriesWalkable content ∧
      entriesFilled content' = entriesFilled content
  | key :: value :: rest, _, become => by
    obtain ⟨value', rest', rfl, first, others⟩ := become
    obtain ⟨walkable, filled⟩ := first.same
    obtain ⟨length, walkable', filled'⟩ := entriesBecome_same others
    simp only [List.length_cons, length, entriesWalkable, entriesFilled, walkable, filled, walkable', filled', and_self]
  | [], _, become => by
    cases become
    exact ⟨rfl, rfl, rfl⟩
  | [_], _, become => by
    cases become
    exact ⟨rfl, rfl, rfl⟩

theorem itemsBecome_same : ∀ {items items' : List Node}, itemsBecome items items' →
    items'.length = items.length ∧ itemsWalkable items' = itemsWalkable items ∧ itemsFilled items' = itemsFilled items
  | [], _, become => by
    cases become
    exact ⟨rfl, rfl, rfl⟩
  | item :: rest, _, become => by
    obtain ⟨item', rest', rfl, first, others⟩ := become
    obtain ⟨walkable, filled⟩ := first.same
    obtain ⟨length, walkable', filled'⟩ := itemsBecome_same others
    simp only [List.length_cons, length, itemsWalkable, itemsFilled, walkable, filled, walkable', filled', and_self]

end

section Entries
variable {env : Env}

theorem entryCells_entries (content : List Node) (path : Path) :
    entryCells content path = (entriesOf content).flatMap fun e => e.2.cells (path ++ [.key e.1]) := by
  induction content using entriesOf.induct with
  | case1 key value rest ih => rw [entryCells, entriesOf, List.flatMap_cons, ih]
  | case2 content short => simp [entryCells, entriesOf]

/-- Each variable of a mapping is rendered and decoded on its own. -/
theorem entries_rendered : ∀ {content content' : List Node} {es : List (String × Lit)}, entriesBecome content content' →
    decodeEntries env content' = .ok es →
      (entriesOf content).map Prod.fst = es.map Prod.fst ∧ (entriesOf content').map Prod.fst = es.map Prod.fst ∧
        ∀ k value, (k, value) ∈ entriesOf content → ∃ value' x, (k, value') ∈ entriesOf content' ∧
          value.becomes value' ∧ decodeAny env value' = .ok x ∧ (k, x) ∈ es
  | key :: value :: rest, _, es, become, run => by
    obtain ⟨value', rest', rfl, first, others⟩ := become
    rw [decodeEntries] at run
    split at run
    · cases run
    · obtain ⟨x, decoded, later⟩ := bind_eq_ok run
      obtain ⟨entries, decoded', built⟩ := bind_eq_ok later
      split at built
      · cases built
      · cases built
        obtain ⟨keys, keys', each⟩ := entries_rendered others decoded'
        refine ⟨by simp [entriesOf, keys], by simp [entriesOf, keys'], fun k node member => ?_⟩
        rw [entriesOf, List.mem_cons] at member
        rcases member with here | there
        · rw [Prod.mk.injEq] at here
          obtain ⟨rfl, rfl⟩ := here
          exact ⟨value', x, by simp [entriesOf], first, decoded, by simp⟩
        · obtain ⟨node', y, inside, becomes, read, held⟩ := each k node there
          exact ⟨node', y, by simp [entriesOf, inside], becomes, read, by simp [held]⟩
  | [], _, es, become, run => by
    cases become
    cases run
    simp [entriesOf]
  | [_], _, es, become, run => by
    cases become
    cases run
    simp [entriesOf]

theorem entriesWalkable_mem : ∀ {content : List Node}, entriesWalkable content = true → ∀ {k : String} {value : Node},
    (k, value) ∈ entriesOf content → value.walkable = true
  | key :: value :: rest, walkable, k, node, member => by
    rw [entriesWalkable, Bool.and_eq_true, Bool.and_eq_true] at walkable
    rw [entriesOf, List.mem_cons] at member
    rcases member with here | there
    · rw [Prod.mk.injEq] at here
      rw [here.2]
      exact walkable.1.2
    · exact entriesWalkable_mem walkable.2 there
  | [], _, _, _, member => by cases member
  | [_], _, _, _, member => by cases member

theorem mem_entryCells {content : List Node} {c : Cell} : c ∈ entryCells content [] ↔
    ∃ e ∈ entriesOf content, ∃ q, c.1 = .key e.1 :: q ∧ (q, c.2) ∈ e.2.cells [] := by
  rw [entryCells_entries, List.mem_flatMap]
  refine exists_congr fun e => and_congr_right fun _ => ?_
  have moved : e.2.cells ([] ++ [.key e.1]) = (e.2.cells []).map fun c => ([.key e.1] ++ c.1, c.2) :=
    cells_at e.2 [.key e.1] []
  rw [moved, List.mem_map]
  constructor
  · rintro ⟨⟨q, rest⟩, member, rfl⟩
    exact ⟨q, rfl, member⟩
  · rintro ⟨q, place, member⟩
    exact ⟨(q, c.2), member, Prod.ext place.symm rfl⟩

/-- The scalars of a variable are those below its key. -/
theorem mem_cells_of_key {content : List Node} (distinct : ((entriesOf content).map Prod.fst).Nodup) {k : String}
    {value : Node} (member : (k, value) ∈ entriesOf content) {q : Path} {tag text : String}
    (inside : (.key k :: q, tag, text) ∈ entryCells content []) : (q, tag, text) ∈ value.cells [] := by
  obtain ⟨⟨k', value'⟩, member', q', place, cell⟩ := mem_entryCells.1 inside
  rw [List.cons.injEq, Seg.key.injEq] at place
  obtain ⟨rfl, rfl⟩ := place
  have same : (k, value') = (k, value) := List.inj_on_of_nodup_map distinct member' member rfl
  rw [Prod.mk.injEq] at same
  rw [← same.2]
  exact cell

end Entries

/-- The walk over the scalars renders the template at the path with the context `w`. -/
inductive RendersWith (env : Env) (ctx : Val) (cells : List Cell) (h : Heap) : Path → String → DeepView → Prop where
  | cell {before after done : List Cell} {q : Path} {tag text : String} {h' : Heap}
      (split : cells = before ++ (q, tag, text) :: after) (template : isTemplate tag text = true)
      (walked : walkCells env ctx before h = (.ok (), done, h')) : RendersWith env ctx cells h q text (h'.view ctx)

/-- What comes before an element that is not among the first. -/
theorem append_of_not_mem {α : Type} {xs ys before after : List α} {y : α} (split : xs ++ ys = before ++ y :: after)
    (fresh : y ∉ xs) : ∃ more, before = xs ++ more := by
  rcases List.append_eq_append_iff.1 split with ⟨more, first, _⟩ | ⟨more, first, rest⟩
  · exact ⟨more, first⟩
  · cases more with
    | nil => exact ⟨[], by simpa using first.symm⟩
    | cons z more =>
      rw [List.cons_append, List.cons.injEq] at rest
      exact absurd (by simp [first, rest.1]) fresh

section Rendering
variable {env : Env} {roots : Val → Prop} {l : Nat} {h h' : Heap} {content content' : List Node}
  {es : List (String × Lit)} {earlier later : List (String × Node)} {k k' : String} {value value' : Node} {q : Path}
  {text : String} {w : DeepView}

/-- When a later variable is rendered, the context shows an earlier one merged over `old` if nothing was in its way, and
only then. -/
theorem rendersWith_shown (rendering : Rendering roots l h)
    (run : processEntries env (.ref l) content [] h = (.ok (), content', h'))
    (decoded : decodeEntries env content' = .ok es) (plain : ∀ c ∈ entryCells content [], Plain c.1)
    (order : entriesOf content = earlier ++ (k', value') :: later) (member : (k, value) ∈ earlier) (own : ¬ Reserved k)
    (filled : value.filled = true)
    (each : ∀ q tag text, (q, tag, text) ∈ value.cells [] → Untyped h (.ref l) (.key k :: q) ∧ Reads env tag text)
    (renders : RendersWith env (.ref l) (entryCells content []) h (.key k' :: q) text w) :
    ∃ node x, value.becomes node ∧ decodeAny env node = .ok x ∧ (k, x) ∈ es ∧ ∀ old,
      (∀ p, AlikeShape (w (.key k :: p)) (overlay old x.view p)) ↔ Begun x.view old (entry h (.ref l) k) := by
  have become := processEntries_becomes env (.ref l) content [] h (by rw [run])
  have walkable := walkable_of_processEntries env (.ref l) content [] h (by rw [run])
  have cells := processEntries_cells env (.ref l) content [] h walkable
  rw [run] at become cells
  obtain ⟨keys, keys', rendered⟩ := entries_rendered become decoded
  have distinct := (decodeEntries_fits env content' es [] decoded).1
  have inside : (k, value) ∈ entriesOf content := by
    rw [order]
    exact List.mem_append_left _ member
  obtain ⟨node, x, inside', becomes, read, held⟩ := rendered k value inside
  refine ⟨node, x, becomes, read, held, ?_⟩
  cases renders with
  | @cell before after done _ tag _ h₁ split template walked =>
    -- the scalars of the earlier variables have been walked over
    obtain ⟨more, begins⟩ : ∃ more, before = earlier.flatMap (fun e => e.2.cells ([] ++ [.key e.1])) ++ more := by
      have whole := entryCells_entries content []
      rw [order, List.flatMap_append] at whole
      refine append_of_not_mem (whole.symm.trans split) fun early => ?_
      obtain ⟨e, among, cell⟩ := List.mem_flatMap.1 early
      have moved : e.2.cells ([] ++ [.key e.1]) = (e.2.cells []).map fun c => ([.key e.1] ++ c.1, c.2) :=
        cells_at e.2 [.key e.1] []
      rw [moved, List.mem_map] at cell
      obtain ⟨c, _, place⟩ := cell
      have same : e.1 = k' := by
        have first := congrArg (fun c : Cell => c.1.head?) place
        simpa using first
      rw [← keys, order, List.map_append, List.map_cons, List.nodup_append] at distinct
      exact distinct.2.2 e.1 (List.mem_map_of_mem among) k' (by simp) same
    have early : ∀ q tag text, (q, tag, text) ∈ value.cells [] → (.key k :: q, tag, text) ∈ before := by
      intro q tag text cell
      rw [begins]
      refine List.mem_append_left _ (List.mem_flatMap.2 ⟨(k, value), member, ?_⟩)
      rw [show value.cells ([] ++ [.key k]) = (value.cells []).map fun c => ([.key k] ++ c.1, c.2) from
        cells_at value [.key k] []]
      exact List.mem_map.2 ⟨(q, tag, text), cell, rfl⟩
    have earliest : ∀ c ∈ before, c ∈ entryCells content [] := fun c among => by
      rw [split]
      exact List.mem_append_left _ among
    -- and what is left of them is in the node that is decoded
    obtain ⟨others, left⟩ : ∃ others, entryCells content' [] = done ++ others := by
      rw [split, walkCells_append, walked] at cells
      simp only [thenCells] at cells
      generalize walkCells env (.ref l) ((.key k' :: q, tag, text) :: after) h₁ = outcome at cells
      obtain ⟨result, rest, h₂⟩ := outcome
      simp only [Prod.mk.injEq] at cells
      exact ⟨rest, cells.2.1⟩
    have data : ∀ q tag text, (.key k :: q, tag, text) ∈ done → LeafText env x.view q tag text := by
      intro q tag text among
      have cell := mem_cells_of_key (keys' ▸ distinct) inside' (by rw [left]; exact List.mem_append_left _ among)
      obtain ⟨q', s, here, value, text⟩ := decodeAny_cells node x [] read q tag text cell
      obtain rfl : q = q' := here
      have leaf : (q, tag) ∈ node.leaves [] := by
        rw [leaves_cells]
        exact List.mem_map.2 ⟨_, cell, rfl⟩
      obtain ⟨q', here, fits⟩ := decodeAny_fits env node x [] read q tag leaf
      obtain rfl : q = q' := here
      exact ⟨fits.inner, s, value, text⟩
    obtain ⟨paths, filling, _, arrived⟩ := Filling.walk (Lit.view_whole x) own before walked
      (Filling.of_rendering rendering) (fun c among => by
        obtain ⟨e, _, q', place, _⟩ := mem_entryCells.1 (earliest c among)
        exact ⟨e.1, q', place, plain c (earliest c among)⟩)
      (fun q tag text among => each q tag text (mem_cells_of_key (keys ▸ distinct) inside (earliest _ among))) data
    refine filling.shown_iff (Lit.view_whole x) fun p there => ?_
    obtain ⟨walkable', filled'⟩ := becomes.same
    have nodeWalkable : value.walkable = true := entriesWalkable_mem walkable inside
    obtain ⟨⟨q', tag', text'⟩, cell, starts⟩ := decodeAny_filled node x [] read (walkable'.trans nodeWalkable)
      (filled'.trans filled) p there
    refine ⟨q', ?_, starts⟩
    -- the walk has moved no scalar
    have place : (.key k :: q', tag') ∈ (entryCells content []).map fun c => (c.1, c.2.1) := by
      rw [← walkCells_places env (.ref l) (entryCells content []) h, ← cells]
      exact List.mem_map.2 ⟨(.key k :: q', tag', text'), mem_entryCells.2 ⟨_, inside', q', rfl, cell⟩, rfl⟩
    obtain ⟨⟨q₀, tag₀, text₀⟩, among, same⟩ := List.mem_map.1 place
    rw [Prod.mk.injEq] at same
    obtain ⟨rfl, rfl⟩ := same
    exact arrived q' _ text₀ (early q' _ text₀ (mem_cells_of_key (keys ▸ distinct) inside among))

end Rendering

/-! ### The merge -/

/-- The variables of the host that a merge renders a node with. -/
def renderContext (env : Env) (store : Store) (host : String) : Option (Val × Heap) :=
  getAllVariable env.localIP (deepCopy store.value store.heap).1 host (deepCopy store.value store.heap).2

/-- A template that refers to an earlier variable is rendered with the value that this has in the runtime variables of
the host after the merge. -/
def SeesEarlier (env : Env) (io : String → WriteReply) (refers : String → String → Prop) (node : Node) (host : String)
    (store : Store) : Prop :=
  ∀ f' store' hv' ctx h, merge env io (.runtime node [host]) store = (.ok (), f', store') →
    store'.value.hosts.get? host = some hv' → renderContext env store host = some (ctx, h) →
    ∀ earlier k' value' later, node.vars = earlier ++ (k', value') :: later →
    ∀ q text w, RendersWith env ctx (node.root.cells []) h (.key k' :: q) text w →
    ∀ k value, (k, value) ∈ earlier → refers text k →
    ∀ p, AlikeShape (w (.key k :: p)) (store'.heap.view hv'.runtimeVars (.key k :: p))

/-- Nothing that was defined before is in the way of a new variable. -/
structure Unshadowed (env : Env) (store : Store) (host k : String) (value : Node) : Prop where
  own : ¬ Reserved k
  /-- A container without scalars is not stored. -/
  filled : value.filled = true
  reads : ∀ q tag text, (q, tag, text) ∈ value.cells [] → Reads env tag text
  untyped : ∀ ctx h, renderContext env store host = some (ctx, h) → ∀ q tag text, (q, tag, text) ∈ value.cells [] →
    Untyped h ctx (.key k :: q)
  /-- Whatever its templates render to, the context has at most a beginning of it, and off it what the runtime variables
  have. -/
  clear : ∀ ctx h hv node x, renderContext env store host = some (ctx, h) → store.value.hosts.get? host = some hv →
    value.becomes node → decodeAny env node = .ok x →
      Begun x.view (entry store.heap hv.runtimeVars k) (entry h ctx k)

section Merge
variable {env : Env} {io : String → WriteReply} {store store' : Store} {node : Node} {host : String} {f' : MergeFunc}

/-- The context of the host, ready for a rendering. -/
theorem renderContext_ready (env : Env) (host : String) (node : Node) (ok : store.Ok) :
    ∃ l h, renderContext env store host = some (.ref l, h) ∧
      Rendering (fun v => store.roots v ∨ (deepCopy store.value store.heap).1.roots v) l h ∧
      renderFor env (deepCopy store.value store.heap).1 host node (deepCopy store.value store.heap).2 =
        parseYamlNode env (.ref l) node h := by
  obtain ⟨_, tidy⟩ := deepCopy_copied ok.tidy fun v => Or.inl (b := store.source.roots v)
  obtain ⟨l, h, run, context⟩ := getAllVariable_built ok.copy env.localIP host
  refine ⟨l, h, run, context.rendering tidy fun _ => Or.inr, ?_⟩
  rw [renderFor, run]

/-- A merge that succeeds has rendered its node. -/
theorem merge_single_rendered (nonzero : node.isZero = false)
    (merged : merge env io (.runtime node [host]) store = (.ok (), f', store')) :
    ∃ entries node' h', renderFor env (deepCopy store.value store.heap).1 host node
      (deepCopy store.value store.heap).2 = (.ok entries, node', h') := by
  rw [merge] at merged
  simp only [MergeFunc.apply, nonzero, Bool.false_eq_true, if_false, mergeRuntime] at merged
  generalize renderFor env (deepCopy store.value store.heap).1 host node
    (deepCopy store.value store.heap).2 = outcome at *
  obtain ⟨result, node', h'⟩ := outcome
  cases result with
  | error e => cases merged
  | ok entries => exact ⟨entries, node', h', rfl⟩

/-- The walk over a mapping, which may be the root of a document. -/
theorem parseYamlNode_mapping {ctx : Val} {h h' : Heap} {node' : Node} {entries : Option (List (String × Lit))}
    (mapping : node.root.kind = .mapping) (run : parseYamlNode env ctx node h = (.ok entries, node', h')) :
    ∃ content es h₁, processEntries env ctx node.root.content [] h = (.ok (), content, h₁) ∧
      decodeEntries env content = .ok es ∧ entries = some es := by
  obtain ⟨decoded, _, _⟩ := parseYamlNode_ok run
  have done : (walkNode env ctx node h).1 = .ok () := by
    unfold parseYamlNode at run
    generalize walkNode env ctx node h = outcome at run
    obtain ⟨result, done, left, h₁⟩ := outcome
    cases result with
    | error f => cases run
    | ok u => rfl
  -- both kinds of node are walked over as the mapping
  have walk : ∃ tag value, node.root = .mk .mapping tag value node.root.content ∧
      (walkNode env ctx node h).1 = (processNode env ctx node.root [] h).1 ∧
      decodeMap env (walkNode env ctx node h).2.1 = decodeRoot env (processNode env ctx node.root [] h).2.1 := by
    obtain ⟨kind, tag, value, content⟩ := node
    cases kind with
    | document =>
      obtain ⟨⟨kind, tag', value', content'⟩, rfl⟩ : ∃ dn, content = [dn] := by
        rcases content with _ | ⟨dn, _ | ⟨_, _⟩⟩
        · cases mapping
        · exact ⟨dn, rfl⟩
        · cases mapping
      obtain rfl : kind = .mapping := mapping
      refine ⟨tag', value', rfl, ?_⟩
      simp only [walkNode, walkNode.processDocument, Node.root]
      generalize processNode env ctx (.mk .mapping tag' value' content') [] h = outcome
      obtain ⟨result, dn, h₁⟩ := outcome
      cases result <;> exact ⟨rfl, rfl⟩
    | mapping =>
      refine ⟨tag, value, rfl, rfl, ?_⟩
      have kept := processNode_kind env ctx (.mk .mapping tag value content) [] h
      simp only [walkNode, Node.root]
      generalize processNode env ctx (.mk .mapping tag value content) [] h = outcome at kept
      obtain ⟨result, ⟨kind, _, _, _⟩, h₁⟩ := outcome
      obtain rfl : kind = .mapping := kept
      rfl
    | _ => cases mapping
  obtain ⟨tag, value, root, same, read⟩ := walk
  rw [same, root, processNode] at done
  rw [decoded, root, processNode] at read
  split at done
  · cases done
  · next even =>
    rw [if_neg even] at read
    generalize processEntries env ctx node.root.content [] h = outcome at done read
    obtain ⟨result, content, h₁⟩ := outcome
    cases done
    obtain ⟨es, decodes, built⟩ := bind_eq_ok read.symm
    cases built
    exact ⟨content, es, h₁, rfl, decodes, rfl⟩

theorem rootLeaves_root (mapping : node.root.kind = .mapping) : node.root.leaves [] = node.rootLeaves := by
  obtain ⟨kind, tag, value, content⟩ := node
  cases kind with
  | document =>
    rcases content with _ | ⟨dn, _ | ⟨_, _⟩⟩
    · cases mapping
    · simp [Node.root, Node.rootLeaves]
    · cases mapping
  | _ => rfl

/-- The data of a variable, merged over what the variable was. -/
theorem overlay_entry {es : List (String × Lit)} (distinct : (es.map Prod.fst).Nodup) {k : String} {x : Lit}
    (member : (k, x) ∈ es) (old : DeepView) (p : Path) :
    overlay old (dataView (some es)) (.key k :: p) = overlay (old.sub (.key k)) x.view p := by
  have step : (Lit.map .any es).child (.key k) = some x := GoMap.get?_ofList distinct member
  have sub : (dataView (some es)).sub (.key k) = x.view := lit_sub step
  have below : (overlay old (dataView (some es))).sub (.key k) =
      overlay (old.sub (.key k)) ((dataView (some es)).sub (.key k)) := View.sub_overlay (s := .map) rfl rfl
  rw [sub] at below
  exact congrFun below p

/-- Later templates see the earlier variables that they refer to, if nothing that was defined before is in the way of
these. -/
theorem sees_earlier (ok : store.Ok) (mapping : node.root.kind = .mapping) (plain : node.plain)
    (refers : String → String → Prop)
    (unshadowed : ∀ earlier k' value' later, node.vars = earlier ++ (k', value') :: later →
      ∀ q tag text, (q, tag, text) ∈ value'.cells [] → isTemplate tag text = true →
      ∀ k value, (k, value) ∈ earlier → refers text k → Unshadowed env store host k value) :
    SeesEarlier env io refers node host store := by
  intro f' store' hv' ctx h merged known' context earlier k' value' later order q text w renders k value member refer p
  have nonzero : node.isZero = false := by
    obtain ⟨kind, tag, value, content⟩ := node
    cases kind <;> first | rfl | cases mapping
  have parsed : node.parsed = true := by
    obtain ⟨kind, tag, value, content⟩ := node
    cases kind with
    | document =>
      rcases content with _ | ⟨dn, _ | ⟨_, _⟩⟩
      · cases mapping
      · rfl
      · cases mapping
    | _ => rfl
  have static := merge_static env io (.runtime node [host]) store
  rw [merged] at static
  obtain ⟨hv, known⟩ : ∃ hv, store.value.hosts.get? host = some hv := by
    have same := static.hosts host
    rw [known', Option.isSome_some] at same
    exact Option.isSome_iff_exists.1 same.symm
  -- the node has been rendered in the context, and its data merged over the runtime variables
  obtain ⟨l, h₀, context', rendering, run⟩ := renderContext_ready env host node ok
  rw [context] at context'
  cases context'
  obtain ⟨entries, node', h', rendered⟩ := merge_single_rendered nonzero merged
  obtain ⟨hv'', entries', final, decoded, view⟩ :=
    merge_rendersEach ok nonzero parsed plain (Or.inr (by simp)) merged host (by simp) hv known
  rw [renderFor_ok rendered] at decoded
  cases decoded
  rw [known'] at final
  cases final
  rw [run] at rendered
  obtain ⟨content', es, h₁, walked, read, rfl⟩ := parseYamlNode_mapping mapping rendered
  obtain ⟨tag, value₀, content, root⟩ : ∃ tag value content, node.root = .mk .mapping tag value content := by
    cases root : node.root with
    | mk kind tag value content =>
      rw [root] at mapping
      obtain rfl : kind = .mapping := mapping
      exact ⟨tag, value, content, rfl⟩
  rw [Node.vars, root] at order
  rw [root] at walked renders
  have plainCells : ∀ c ∈ entryCells content [], Plain c.1 := by
    intro c cell
    have leaf : (c.1, c.2.1) ∈ node.root.leaves [] := by
      rw [leaves_cells, root]
      exact List.mem_map.2 ⟨c, cell, rfl⟩
    exact plain _ (rootLeaves_root mapping ▸ leaf)
  -- the template is one of the later variable
  obtain ⟨tag', cell, template⟩ : ∃ tag', (.key k' :: q, tag', text) ∈ entryCells content [] ∧
      isTemplate tag' text = true := by
    cases renders with
    | @cell before after done _ tag' _ h₂ split template _ =>
      refine ⟨tag', ?_, template⟩
      rw [show entryCells content [] = before ++ (.key k' :: q, tag', text) :: after from split]
      simp
  have distinct : ((entriesOf content).map Prod.fst).Nodup := by
    have become := processEntries_becomes env (.ref l) content [] h
      (by rw [show processEntries env _ content [] h = _ from walked])
    rw [show processEntries env _ content [] h = _ from walked] at become
    rw [(entries_rendered become read).1]
    exact (decodeEntries_fits env content' es [] read).1
  have inside := mem_cells_of_key distinct (show (k', value') ∈ entriesOf content by
    rw [show entriesOf content = _ from order]
    simp) cell
  have clear := unshadowed earlier k' value' later (by rw [Node.vars, root]; exact order) q tag' text inside template
    k value member refer
  obtain ⟨node₁, x, becomes, read', held, shown⟩ := rendersWith_shown rendering walked read plainCells order member
    clear.own clear.filled
    (fun q tag text cell => ⟨clear.untyped _ h context q tag text cell, clear.reads q tag text cell⟩) renders
  have seen := (shown (entry store.heap hv.runtimeVars k)).2 (clear.clear _ h hv node₁ x context known becomes read') p
  rw [view, overlay_entry (decodeEntries_fits env content' es [] read).1 held]
  exact seen

end Merge

/-! ### Two merges -/

/-- Libraries whose templates all give the variable `k1`. -/
def firstEnv : Env where
  render := fun ctx _ => match ctx [.key "k1"] with
    | some (.scalar (.str s)) => .ok s
    | _ => .error "no value"
  localIP := fun _ => ""
  parseFloat := fun _ => none
  decodeScalar := plainEnv.decodeScalar
  decodeScalar_ne_null := plainEnv.decodeScalar_ne_null

/-- `{k1: new, k2: "{{ .k1 }}"}`. -/
def newNode : Node := mapNode [("k1", strNode "new"), ("k2", strNode "\x7b\x7b .k1 \x7d\x7d")]

/-- The template refers to `k1`. -/
def refersFirst (text k : String) : Prop := text = "\x7b\x7b .k1 \x7d\x7d" ∧ k = "k1"

theorem newNode_plain : newNode.plain := by
  intro e member
  have only : e = ([.key "k1"], strTag) ∨ e = ([.key "k2"], strTag) := by
    simpa [newNode, mapNode, strNode, Node.rootLeaves, Node.leaves, entryLeaves, Node.value] using member
  intro k s t split
  rcases only with rfl | rfl <;> simp at split

/-- A new string, where the context has nothing. -/
theorem unshadowed_str {store : Store} {host k s : String} (own : ¬ Reserved k) (literal : isTmplSyntax s = false)
    (fresh : ∀ ctx h, renderContext firstEnv store host = some (ctx, h) → h.child ctx (.key k) = none ∧ anyTyped h ctx)
    (unset : ∀ hv, store.value.hosts.get? host = some hv → store.heap.child hv.runtimeVars (.key k) = none) :
    Unshadowed firstEnv store host k (strNode s) where
  own := own
  filled := rfl
  reads := by
    intro q tag text cell w v text' s' read decoded
    simp only [strNode, Node.cells, List.mem_singleton, Prod.mk.injEq] at cell
    obtain ⟨rfl, rfl, rfl⟩ := cell
    have parsed : parseScalarValue firstEnv w strTag text = .ok (.str text, text) := by
      simp [parseScalarValue, strTag, nullTag, boolTag, literal]
    rw [parsed] at read
    cases read
    cases decoded
    exact Or.inl rfl
  untyped := by
    intro ctx h context q tag text cell
    simp only [strNode, Node.cells, List.mem_singleton, Prod.mk.injEq] at cell
    obtain ⟨rfl, rfl, rfl⟩ := cell
    obtain ⟨absent, any⟩ := fresh ctx h context
    intro r t c split goesOn reached
    cases r with
    | nil =>
      cases reached
      exact any
    | cons s₁ r =>
      rw [List.cons_append, List.cons.injEq] at split
      obtain ⟨rfl, split⟩ := split
      rw [Heap.resolve_cons, absent] at reached
      cases reached
  clear := by
    intro ctx h hv node x context known becomes decoded p
    have nothing : entry h ctx k p = none := by
      show h.view ctx (.key k :: p) = none
      rw [Heap.view_cons, (fresh ctx h context).1]
      rfl
    have unset' : entry store.heap hv.runtimeVars k p = none := by
      show store.heap.view hv.runtimeVars (.key k :: p) = none
      rw [Heap.view_cons, unset hv known]
      rfl
    rw [nothing, unset']
    exact ⟨fun _ => .nothing, fun _ => rfl⟩

theorem sees_earlier_first : node1Store.Ok ∧ newNode.root.kind = .mapping ∧ newNode.plain ∧
    Unshadowed firstEnv node1Store "node1" "k1" (strNode "new") ∧
    SeesEarlier firstEnv (fun _ => .ok) refersFirst newNode "node1" node1Store := by
  have ok := (node1Store_reachable firstEnv).ok
  have clear : Unshadowed firstEnv node1Store "node1" "k1" (strNode "new") := by
    refine unshadowed_str (by unfold Reserved; decide) (by decide) (fun ctx h context => ?_) (fun hv known => ?_)
    · have absent : (renderContext firstEnv node1Store "node1").map (fun c => c.2.child c.1 (.key "k1")) =
          some none := by decide +kernel
      rw [context] at absent
      refine ⟨by simpa using absent, ?_⟩
      obtain ⟨l, h', run, built⟩ := getAllVariable_built ok.copy firstEnv.localIP "node1"
      rw [show getAllVariable _ _ _ _ = _ from context] at run
      cases run
      obtain ⟨m, object, _⟩ := built.newest.object
      intro o object'
      rw [object] at object'
      cases object'
      rfl
    · cases known
      decide +kernel
  refine ⟨ok, rfl, newNode_plain, clear, sees_earlier ok rfl newNode_plain refersFirst ?_⟩
  intro earlier k' value' later order q tag text cell template k value member refer
  obtain ⟨_, rfl⟩ := refer
  have both : newNode.vars = [("k1", strNode "new"), ("k2", strNode "\x7b\x7b .k1 \x7d\x7d")] := rfl
  rw [both] at order
  have among : ("k1", value) ∈ [("k1", strNode "new"), ("k2", strNode "\x7b\x7b .k1 \x7d\x7d")] := by
    rw [order]
    exact List.mem_append_left _ member
  have new : value = strNode "new" := by simpa using among
  rw [new]
  exact clear

/-- The store after `{k1: old}` was merged for the host. -/
def oldStore : Store :=
  (merge firstEnv (fun _ => .ok) (.runtime (mapNode [("k1", strNode "old")]) ["node1"]) node1Store).2.2

theorem old_value_rendered : Reachable firstEnv oldStore ∧ newNode.plain ∧
    ¬ SeesEarlier firstEnv (fun _ => .ok) refersFirst newNode "node1" oldStore := by
  have reachable : Reachable firstEnv oldStore := .merge (node1Store_reachable firstEnv) _ _
  refine ⟨reachable, newNode_plain, fun sees => ?_⟩
  have merged : (merge firstEnv (fun _ => .ok) (.runtime newNode ["node1"]) oldStore).1 = .ok () := by decide +kernel
  have final : ((merge firstEnv (fun _ => .ok) (.runtime newNode ["node1"]) oldStore).2.2.value.hosts.get? "node1").map
      (fun hv => (merge firstEnv (fun _ => .ok) (.runtime newNode ["node1"]) oldStore).2.2.heap.view hv.runtimeVars
        [.key "k1"]) = some (some (.scalar (.str "new"))) := by decide +kernel
  obtain ⟨l, h, context, _, _⟩ := renderContext_ready firstEnv "node1" newNode reachable.ok
  have shown : (renderContext firstEnv oldStore "node1").map (fun c =>
      ((walkCells firstEnv c.1 [([.key "k1"], strTag, "new")] c.2).1,
        (walkCells firstEnv c.1 [([.key "k1"], strTag, "new")] c.2).2.2.view c.1 [.key "k1"])) =
      some (.ok (), some (.scalar (.str "old"))) := by decide +kernel
  rw [context] at shown
  simp only [Option.map_some, Option.some.injEq, Prod.mk.injEq] at shown
  obtain ⟨hv', known, new⟩ := Option.map_eq_some_iff.1 final
  have renders : RendersWith firstEnv (.ref l) (newNode.root.cells []) h [.key "k2"] "\x7b\x7b .k1 \x7d\x7d" _ :=
    @RendersWith.cell firstEnv (.ref l) (newNode.root.cells []) h [([.key "k1"], strTag, "new")] [] _ [.key "k2"] strTag
      "\x7b\x7b .k1 \x7d\x7d" _ rfl (by decide) (Prod.ext shown.1 rfl)
  have same := sees _ _ hv' (.ref l) h (outcome_eq merged) known context [("k1", strNode "new")] "k2" _ [] rfl [] _ _
    renders "k1" (strNode "new") (by simp) ⟨rfl, rfl⟩ []
  rw [shown.2, new] at same
  rcases same with equal | ⟨x, number, _⟩
  · exact absurd equal (by decide)
  · cases number

end KubeKey.Variable
