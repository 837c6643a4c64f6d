import KubeKey.Variable.Walk

/-!
# What a walk leaves and what it decodes to

A walk keeps the scalars of a node where they are, with their tags, so what the
walked node decodes to has a scalar at the path of each of them, null exactly
where the tag says so, and the right containers on the way (`decodeMap_fits`). A
node without templates comes back unchanged.
-/

namespace KubeKey.Variable

open KubeKey.Go

/-- What a decoded node stands for. -/
def dataView (entries : Option (List (String × Lit))) : DeepView :=
  entries.elim (Lit.map .any []).view fun es => (Lit.map .any es).view

/-- The position `r` holds a container that the step `s` leads into. -/
def Holds (D : DeepView) (r : Path) : Seg → Prop
  | .key _ => D r = some .map
  | .idx i => ∃ n, i < n ∧ D r = some (.slice n)

/-- `D` has a scalar at `q` as the tag says, below containers. -/
structure Fits (D : DeepView) (q : Path) (tag : String) : Prop where
  inner : ∀ r s t, q = r ++ s :: t → Holds D r s
  leaf : ∃ d, D q = some (.scalar d) ∧ (d = .null → tag = nullTag)

section Keep
variable (env : Env) (ctx : Val)

mutual

/-- A walk moves no scalar and changes no tag. -/
theorem leaves_processNode : ∀ (node : Node) (path : Path) (h : Heap) (path' : Path),
    (processNode env ctx node path h).2.1.leaves path' = node.leaves path'
  | .mk .mapping tag value content, path, h, path' => by
    rw [processNode]
    split
    · rfl
    · simp only [Node.leaves]
      exact entryLeaves_processEntries content path h path'
  | .mk .sequence tag value content, path, h, path' => by
    rw [processNode]
    simp only [Node.leaves]
    exact itemLeaves_processItems content 0 path h path' 0
  | .mk .scalar tag value content, path, h, path' => by
    rw [processNode]
    split <;> rfl
  | .mk .zero tag value content, path, h, path' => rfl
  | .mk .document tag value content, path, h, path' => rfl
  | .mk .alias tag value content, path, h, path' => rfl

theorem entryLeaves_processEntries : ∀ (content : List Node) (path : Path) (h : Heap) (path' : Path),
    entryLeaves (processEntries env ctx content path h).2.1 path' = entryLeaves content path'
  | key :: value :: rest, path, h, path' => by
    rw [processEntries]
    split
    · rfl
    · have first := leaves_processNode value (path ++ [.key key.value]) h (path' ++ [.key key.value])
      generalize processNode env ctx value (path ++ [.key key.value]) h = outcome at first
      obtain ⟨result, value', h'⟩ := outcome
      cases result with
      | ok u =>
        have later := entryLeaves_processEntries rest path h' path'
        simp only [entryLeaves] at later ⊢
        rw [first, later]
      | error f =>
        simp only [entryLeaves]
        rw [first]
  | [], path, h, path' => rfl
  | [_], path, h, path' => rfl

theorem itemLeaves_processItems : ∀ (items : List Node) (i : Nat) (path : Path) (h : Heap) (path' : Path) (j : Nat),
    itemLeaves (processItems env ctx items i path h).2.1 j path' = itemLeaves items j path'
  | [], i, path, h, path', j => rfl
  | item :: rest, i, path, h, path', j => by
    rw [processItems]
    have first := leaves_processNode item (path ++ [.idx i]) h (path' ++ [.idx j])
    generalize processNode env ctx item (path ++ [.idx i]) h = outcome at first
    obtain ⟨result, item', h'⟩ := outcome
    cases result with
    | ok u =>
      have later := itemLeaves_processItems rest (i + 1) path h' path' (j + 1)
      simp only [itemLeaves] at later ⊢
      rw [first, later]
    | error f =>
      simp only [itemLeaves]
      rw [first]

end

mutual

/-- A node without templates is left as it was. -/
theorem processNode_templateFree : ∀ (node : Node) (path : Path) (h : Heap), node.templateFree = true →
    (processNode env ctx node path h).2.1 = node
  | .mk .mapping tag value content, path, h, plain => by
    rw [processNode]
    split
    · rfl
    · simp only [processEntries_templateFree content path h plain]
  | .mk .sequence tag value content, path, h, plain => by
    rw [processNode]
    simp only [processItems_templateFree content 0 path h plain]
  | .mk .scalar tag value content, path, h, plain => by
    rw [processNode]
    have text : ∀ v text, parseScalarValue env (h.view ctx) tag value = .ok (v, text) → text = value := by
      intro v text run
      unfold parseScalarValue at run
      repeat' split at run
      all_goals first
        | (cases run; rfl)
        | simp_all [Node.templateFree]
    split
    · rfl
    · next v t run => simp only [text v t run]
  | .mk .zero tag value content, path, h, plain => rfl
  | .mk .document tag value content, path, h, plain => rfl
  | .mk .alias tag value content, path, h, plain => rfl

theorem processEntries_templateFree : ∀ (content : List Node) (path : Path) (h : Heap),
    entriesTemplateFree content = true → (processEntries env ctx content path h).2.1 = content
  | key :: value :: rest, path, h, plain => by
    simp only [entriesTemplateFree, Bool.and_eq_true] at plain
    rw [processEntries]
    split
    · rfl
    · have first := processNode_templateFree value (path ++ [.key key.value]) h plain.1
      generalize processNode env ctx value (path ++ [.key key.value]) h = outcome at first
      obtain ⟨result, value', h'⟩ := outcome
      simp only at first
      subst first
      cases result with
      | ok u => simp only [processEntries_templateFree rest path h' plain.2]
      | error f => rfl
  | [], path, h, plain => rfl
  | [_], path, h, plain => rfl

theorem processItems_templateFree : ∀ (items : List Node) (i : Nat) (path : Path) (h : Heap),
    templateFreeAll items = true → (processItems env ctx items i path h).2.1 = items
  | [], i, path, h, plain => rfl
  | item :: rest, i, path, h, plain => by
    simp only [templateFreeAll, Bool.and_eq_true] at plain
    rw [processItems]
    have first := processNode_templateFree item (path ++ [.idx i]) h plain.1
    generalize processNode env ctx item (path ++ [.idx i]) h = outcome at first
    obtain ⟨result, item', h'⟩ := outcome
    simp only at first
    subst first
    cases result with
    | ok u => simp only [processItems_templateFree rest (i + 1) path h' plain.2]
    | error f => rfl

end

theorem processDocument_leaves (content : List Node) (h : Heap) :
    ((walkNode.processDocument env ctx content h).2.1.flatMap fun dn => dn.leaves []) =
      content.flatMap fun dn => dn.leaves [] := by
  induction content generalizing h with
  | nil => rfl
  | cons dn rest ih =>
    rw [walkNode.processDocument]
    have first := leaves_processNode env ctx dn [] h []
    generalize processNode env ctx dn [] h = outcome at first
    obtain ⟨result, dn', h'⟩ := outcome
    cases result with
    | ok u => simp only [List.flatMap_cons, first, ih h']
    | error f => simp only [List.flatMap_cons, first]

theorem processDocument_length (content : List Node) (h : Heap) :
    (walkNode.processDocument env ctx content h).2.1.length = content.length := by
  induction content generalizing h with
  | nil => rfl
  | cons dn rest ih =>
    rw [walkNode.processDocument]
    split
    · simp only [List.length_cons, ih]
    · rfl

theorem processDocument_templateFree (content : List Node) (h : Heap) (plain : templateFreeAll content = true) :
    (walkNode.processDocument env ctx content h).2.1 = content := by
  induction content generalizing h with
  | nil => rfl
  | cons dn rest ih =>
    simp only [templateFreeAll, Bool.and_eq_true] at plain
    rw [walkNode.processDocument]
    have first := processNode_templateFree env ctx dn [] h plain.1
    generalize processNode env ctx dn [] h = outcome at first
    obtain ⟨result, dn', h'⟩ := outcome
    simp only at first
    subst first
    cases result with
    | ok u => simp only [ih h' plain.2]
    | error f => rfl

end Keep

/-- A node as the parser makes it: a document has one root. -/
def Node.parsed : Node → Bool
  | .mk .document _ _ content => content.length = 1
  | _ => true

section Root
variable (env : Env) (ctx : Val)

/-- The walk over a node that is not a document. -/
theorem walkNode_eq {node : Node} (root : node.kind ≠ .document) (h : Heap) :
    walkNode env ctx node h = ((processNode env ctx node [] h).1, (processNode env ctx node [] h).2.1,
      .mk node.kind node.tag node.value (processNode env ctx node [] h).2.1.content,
      (processNode env ctx node [] h).2.2) := by
  obtain ⟨kind, tag, value, content⟩ := node
  cases kind <;> first | exact absurd rfl root | rfl

theorem rootLeaves_eq {node : Node} (root : node.kind ≠ .document) : node.rootLeaves = node.leaves [] := by
  obtain ⟨kind, tag, value, content⟩ := node
  cases kind <;> first | exact absurd rfl root | rfl

theorem processNode_kind (node : Node) (path : Path) (h : Heap) :
    (processNode env ctx node path h).2.1.kind = node.kind := by
  obtain ⟨kind, tag, value, content⟩ := node
  cases kind with
  | mapping =>
    rw [processNode]
    split <;> rfl
  | scalar =>
    rw [processNode]
    split <;> rfl
  | _ => rfl

theorem walkNode_kind (node : Node) (h : Heap) : (walkNode env ctx node h).2.1.kind = node.kind := by
  by_cases document : node.kind = .document
  · obtain ⟨kind, tag, value, content⟩ := node
    cases document
    rfl
  · rw [walkNode_eq env ctx document]
    exact processNode_kind env ctx node [] h

theorem rootLeaves_walkNode (node : Node) (h : Heap) : (walkNode env ctx node h).2.1.rootLeaves = node.rootLeaves := by
  by_cases document : node.kind = .document
  · obtain ⟨kind, tag, value, content⟩ := node
    cases document
    exact processDocument_leaves env ctx content h
  · have kept : (processNode env ctx node [] h).2.1.kind ≠ .document := by rwa [processNode_kind]
    rw [walkNode_eq env ctx document, rootLeaves_eq document, rootLeaves_eq kept]
    exact leaves_processNode env ctx node [] h []

theorem parsed_walkNode (node : Node) (h : Heap) : (walkNode env ctx node h).2.1.parsed = node.parsed := by
  have kind := walkNode_kind env ctx node h
  obtain ⟨k, tag, value, content⟩ := node
  by_cases document : k = .document
  · subst document
    show decide ((walkNode.processDocument env ctx content h).2.1.length = 1) = decide (content.length = 1)
    rw [processDocument_length]
  · generalize (walkNode env ctx (.mk k tag value content) h).2.1 = done at kind
    obtain ⟨k', tag', value', content'⟩ := done
    simp only [Node.kind] at kind
    subst kind
    cases k' <;> first | exact absurd rfl document | rfl

/-- Without templates the walked node and the node left to the caller are the node itself. -/
theorem walkNode_templateFree {node : Node} (plain : node.templateFree = true) (h : Heap) :
    (walkNode env ctx node h).2.1 = node ∧ (walkNode env ctx node h).2.2.1 = node := by
  by_cases document : node.kind = .document
  · obtain ⟨kind, tag, value, content⟩ := node
    cases document
    have same := processDocument_templateFree env ctx content h plain
    constructor <;> simp only [walkNode, same]
  · have same := processNode_templateFree env ctx node [] h plain
    rw [walkNode_eq env ctx document]
    refine ⟨same, ?_⟩
    simp only [same]
    cases node
    rfl

end Root

theorem bind_eq_ok {α β : Type} {x : Except Err α} {f : α → Except Err β} {b : β} (run : (x >>= f) = .ok b) :
    ∃ a, x = .ok a ∧ f a = .ok b := by
  cases x with
  | error e => cases run
  | ok a => exact ⟨a, rfl, run⟩

section Fit

theorem Fits.cons {D : DeepView} {s : Seg} {q : Path} {tag : String} (root : Holds D [] s) (below : Fits (D.sub s) q tag) :
    Fits D (s :: q) tag where
  inner := by
    intro r s' t split
    cases r with
    | nil =>
      cases split
      exact root
    | cons s₀ r =>
      rw [List.cons_append, List.cons.injEq] at split
      obtain ⟨rfl, split⟩ := split
      have inside := below.inner r s' t split
      cases s' <;> exact inside
  leaf := below.leaf

theorem lit_sub {x c : Lit} {s : Seg} (step : x.child s = some c) : x.view.sub s = c.view := by
  funext p
  simp only [View.sub, Lit.view, step, Option.bind_some]

mutual

/-- A decoded node has a scalar for every scalar of the node. -/
theorem decodeAny_fits (env : Env) : ∀ (node : Node) (x : Lit) (path : Path), decodeAny env node = .ok x →
    ∀ q tag, (q, tag) ∈ node.leaves path → ∃ q', q = path ++ q' ∧ Fits x.view q' tag
  | .mk .mapping tag value content, x, path, run => by
    rw [decodeAny] at run
    obtain ⟨es, decoded, built⟩ := bind_eq_ok run
    cases built
    intro q tag member
    obtain ⟨distinct, fits⟩ := decodeEntries_fits env content es path decoded
    obtain ⟨k, y, q', inside, rfl, below⟩ := fits q tag member
    have step : (Lit.map .any es).child (.key k) = some y := GoMap.get?_ofList distinct inside
    exact ⟨.key k :: q', rfl, Fits.cons rfl (by rw [lit_sub step]; exact below)⟩
  | .mk .sequence tag value content, x, path, run => by
    rw [decodeAny] at run
    obtain ⟨ys, decoded, built⟩ := bind_eq_ok run
    cases built
    intro q tag member
    obtain ⟨j, y, q', inside, rfl, below⟩ := decodeItems_fits env content ys 0 path decoded q tag member
    rw [Nat.zero_add]
    have step : (Lit.slice .any ys).child (.idx j) = some y := inside
    have bound : j < ys.length := (List.getElem?_eq_some_iff.1 inside).1
    exact ⟨.idx j :: q', rfl, Fits.cons ⟨ys.length, bound, rfl⟩ (by rw [lit_sub step]; exact below)⟩
  | .mk .scalar tag value content, x, path, run => by
    intro q t member
    simp only [Node.leaves, List.mem_singleton, Prod.mk.injEq] at member
    obtain ⟨rfl, rfl⟩ := member
    rw [decodeAny] at run
    have noInner : ∀ r s (p : Path), [] = r ++ s :: p → False := fun r s p split => by simp at split
    split at run
    · next null =>
      cases run
      exact ⟨[], by simp, fun r s p split => (noInner r s p split).elim, .null, rfl, fun _ => null⟩
    · next other =>
      split at run
      · next d decoded =>
        cases run
        refine ⟨[], by simp, fun r s p split => (noInner r s p split).elim, d, rfl, fun null => ?_⟩
        subst null
        exact absurd decoded (env.decodeScalar_ne_null t value other)
      · cases run
  | .mk .zero tag value content, x, path, run => by cases run
  | .mk .document tag value content, x, path, run => by cases run
  | .mk .alias tag value content, x, path, run => by cases run

theorem decodeEntries_fits (env : Env) : ∀ (content : List Node) (es : List (String × Lit)) (path : Path),
    decodeEntries env content = .ok es → (es.map Prod.fst).Nodup ∧
      ∀ q tag, (q, tag) ∈ entryLeaves content path →
        ∃ k y q', (k, y) ∈ es ∧ q = path ++ .key k :: q' ∧ Fits y.view q' tag
  | key :: value :: rest, es, path, run => by
    rw [decodeEntries] at run
    split at run
    · cases run
    · obtain ⟨x, first, later⟩ := bind_eq_ok run
      obtain ⟨entries, others, built⟩ := bind_eq_ok later
      split at built
      · cases built
      · next fresh =>
        cases built
        obtain ⟨distinct, fits⟩ := decodeEntries_fits env rest entries path others
        refine ⟨?_, ?_⟩
        · rw [List.map_cons, List.nodup_cons]
          exact ⟨by simpa using fresh, distinct⟩
        · intro q tag member
          rw [entryLeaves, List.mem_append] at member
          rcases member with here | there
          · obtain ⟨q', rfl, below⟩ := decodeAny_fits env value x _ first q tag here
            exact ⟨key.value, x, q', by simp, by simp, below⟩
          · obtain ⟨k, y, q', inside, split, below⟩ := fits q tag there
            exact ⟨k, y, q', by simp [inside], split, below⟩
  | [], es, path, run => by
    cases run
    exact ⟨List.nodup_nil, fun q tag member => nomatch member⟩
  | [_], es, path, run => by
    cases run
    exact ⟨List.nodup_nil, fun q tag member => nomatch member⟩

theorem decodeItems_fits (env : Env) : ∀ (items : List Node) (ys : List Lit) (i : Nat) (path : Path),
    decodeItems env items = .ok ys → ∀ q tag, (q, tag) ∈ itemLeaves items i path →
      ∃ j y q', ys[j]? = some y ∧ q = path ++ .idx (i + j) :: q' ∧ Fits y.view q' tag
  | [], ys, i, path, run => fun q tag member => nomatch member
  | item :: rest, ys, i, path, run => by
    rw [decodeItems] at run
    obtain ⟨x, first, later⟩ := bind_eq_ok run
    obtain ⟨items, others, built⟩ := bind_eq_ok later
    cases built
    intro q tag member
    rw [itemLeaves, List.mem_append] at member
    rcases member with here | there
    · obtain ⟨q', rfl, below⟩ := decodeAny_fits env item x _ first q tag here
      exact ⟨0, x, q', rfl, by simp, below⟩
    · obtain ⟨j, y, q', inside, rfl, below⟩ := decodeItems_fits env rest items (i + 1) path others q tag there
      exact ⟨j + 1, y, q', inside, by rw [show i + 1 + j = i + (j + 1) by omega], below⟩

end

theorem decodeRoot_fits (env : Env) {node : Node} {entries : Option (List (String × Lit))}
    (run : decodeRoot env node = .ok entries) {q : Path} {tag : String} (member : (q, tag) ∈ node.leaves [])
    (long : q ≠ []) : Fits (dataView entries) q tag := by
  obtain ⟨kind, t, value, content⟩ := node
  cases kind with
  | mapping =>
    rw [decodeRoot] at run
    obtain ⟨es, decoded, built⟩ := bind_eq_ok run
    cases built
    have any : decodeAny env (.mk .mapping t value content) = .ok (.map .any es) := by
      rw [decodeAny, decoded]
      rfl
    obtain ⟨q', rfl, fits⟩ := decodeAny_fits env _ _ [] any q tag member
    exact fits
  | scalar =>
    simp only [Node.leaves, List.mem_singleton, Prod.mk.injEq] at member
    exact absurd member.1 long
  | _ => cases run

/-- What a vars node decodes to has a scalar for every scalar of the node. -/
theorem decodeMap_fits (env : Env) {node : Node} (parsed : node.parsed = true) {entries : Option (List (String × Lit))}
    (run : decodeMap env node = .ok entries) {q : Path} {tag : String} (member : (q, tag) ∈ node.rootLeaves)
    (long : q ≠ []) : Fits (dataView entries) q tag := by
  by_cases document : node.kind = .document
  · obtain ⟨kind, t, value, content⟩ := node
    cases document
    obtain ⟨dn, rfl⟩ : ∃ dn, content = [dn] := List.length_eq_one_iff.1 (by simpa [Node.parsed] using parsed)
    exact decodeRoot_fits env run (by simpa [Node.rootLeaves] using member) long
  · have root : decodeMap env node = decodeRoot env node := by
      obtain ⟨kind, t, value, content⟩ := node
      cases kind <;> first | exact absurd rfl document | rfl
    rw [root] at run
    rw [rootLeaves_eq document] at member
    exact decodeRoot_fits env run member long

end Fit

end KubeKey.Variable
