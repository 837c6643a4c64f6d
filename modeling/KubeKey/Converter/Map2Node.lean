import KubeKey.Variable.Cells

/-!
# Values as vars nodes

`ConvertMap2Node` of `pkg/converter/converter.go` marshals a map and reads the text
back as a node. The node has the containers and the keys of the value, and for each
scalar a tag and a text. A walk over it stores the scalars of the value one after the
other (`processNode_litNode`), and it decodes to a value that differs from the first
one at most in its scalars (`decodeAny_litNode`), and does not if each scalar is read
back as it was (`decodeAny_litNode_self`).
-/

namespace KubeKey.Converter

open KubeKey.Go KubeKey.Variable

mutual

/-- The node of a value; `format` gives the tag and the text of a scalar. -/
def litNode (format : Scalar → String × String) : Lit → Node
  | .scalar s => .mk .scalar (format s).1 (format s).2 []
  | .map _ entries => .mk .mapping "!!map" "" (entryNodes format entries)
  | .slice _ items => .mk .sequence "!!seq" "" (itemNodes format items)

def entryNodes (format : Scalar → String × String) : List (String × Lit) → List Node
  | [] => []
  | (k, x) :: rest => .mk .scalar strTag k [] :: litNode format x :: entryNodes format rest

def itemNodes (format : Scalar → String × String) : List Lit → List Node
  | [] => []
  | x :: rest => litNode format x :: itemNodes format rest

end

mutual

/-- The scalars of a value below `path`, in the order of the node. -/
def scalars : Lit → Path → List (Path × Scalar)
  | .scalar s, path => [(path, s)]
  | .map _ entries, path => entryScalars entries path
  | .slice _ items, path => itemScalars items 0 path

def entryScalars : List (String × Lit) → Path → List (Path × Scalar)
  | [], _ => []
  | (k, x) :: rest, path => scalars x (path ++ [.key k]) ++ entryScalars rest path

def itemScalars : List Lit → Nat → Path → List (Path × Scalar)
  | [], _, _ => []
  | x :: rest, i, path => scalars x (path ++ [.idx i]) ++ itemScalars rest (i + 1) path

end

mutual

/-- A value as a decoder returns it: untyped, and no key given twice. -/
def Decoded : Lit → Prop
  | .scalar _ => True
  | .map t entries => t = .any ∧ (entries.map Prod.fst).Nodup ∧ DecodedEntries entries
  | .slice t items => t = .any ∧ DecodedItems items

def DecodedEntries : List (String × Lit) → Prop
  | [] => True
  | (_, x) :: rest => Decoded x ∧ DecodedEntries rest

def DecodedItems : List Lit → Prop
  | [] => True
  | x :: rest => Decoded x ∧ DecodedItems rest

end

/-- The document that the text of a map is read as. -/
def document (format : Scalar → String × String) (m : List (String × Lit)) : Node :=
  .mk .document "" "" [litNode format (.map .any m)]

/-- The yaml library: writing a map, whose entries stand in the order of its keys, and reading a text. -/
structure Yaml where
  marshal : List (String × Lit) → Except String String
  unmarshal : String → Except String Node
  /-- The tag and the text that a scalar is read back with. -/
  format : Scalar → String × String
  format_str : ∀ s, format (.str s) = (strTag, s)

/-- The text of the map is read as the document of the map. -/
def Yaml.ReadsBack (yaml : Yaml) (m : List (String × Lit)) : Prop :=
  ∃ text, yaml.marshal m = .ok text ∧ yaml.unmarshal text = .ok (document yaml.format m)

/-- `ConvertMap2Node`. -/
def convertMap2Node (yaml : Yaml) (m : List (String × Lit)) : Except Err Node :=
  match yaml.marshal m with
  | .error e => .error (.decode ("failed to marshal map to yaml: " ++ e))
  | .ok text => match yaml.unmarshal text with
    | .error e => .error (.decode ("failed to unmarshal yaml to node: " ++ e))
    | .ok node => .ok node

theorem convertMap2Node_eq {yaml : Yaml} {m : List (String × Lit)} (text : yaml.ReadsBack m) :
    convertMap2Node yaml m = .ok (document yaml.format m) := by
  obtain ⟨text, written, read⟩ := text
  simp only [convertMap2Node, written, read]

section Walk
variable (env : Env) (ctx : Val) (format : Scalar → String × String)

/-- The scalars with the tags and texts that the walk finds. -/
def cells (xs : List (Path × Scalar)) : List (Path × String × String) := xs.map fun e => (e.1, format e.2)

/-- What a walk leaves apart from its node. -/
def withoutNode {α : Type} (r : Except Fault Unit × α × Heap) : Variable.Outcome Unit := (r.1, r.2.2)

theorem entryNodes_length (entries : List (String × Lit)) : (entryNodes format entries).length = 2 * entries.length := by
  induction entries with
  | nil => rfl
  | cons e rest ih =>
    obtain ⟨k, x⟩ := e
    simp only [entryNodes, List.length_cons, ih]
    omega

mutual

/-- A walk over the node of a value stores its scalars one after the other. -/
theorem processNode_litNode : ∀ (x : Lit) (path : Path) (h : Heap),
    withoutNode (processNode env ctx (litNode format x) path h) =
      storeScalars env ctx (cells format (scalars x path)) h
  | .scalar s, path, h => by
    simp only [litNode, processNode, scalars, cells, List.map_cons, List.map_nil, storeScalars]
    cases parseScalarValue env (h.view ctx) (format s).1 (format s).2 with
    | error e => rfl
    | ok read =>
      simp only [withoutNode]
      generalize setContextValue ctx read.1 path h = outcome
      obtain ⟨result, h'⟩ := outcome
      cases result <;> rfl
  | .map t entries, path, h => by
    have even : ¬ (entryNodes format entries).length % 2 ≠ 0 := by
      rw [entryNodes_length]
      omega
    simp only [litNode, processNode, if_neg even, scalars]
    exact processEntries_entryNodes entries path h
  | .slice t items, path, h => by
    simp only [litNode, processNode, scalars]
    exact processItems_itemNodes items 0 path h

theorem processEntries_entryNodes : ∀ (entries : List (String × Lit)) (path : Path) (h : Heap),
    withoutNode (processEntries env ctx (entryNodes format entries) path h) =
      storeScalars env ctx (cells format (entryScalars entries path)) h
  | [], path, h => rfl
  | (k, x) :: rest, path, h => by
    have first := processNode_litNode x (path ++ [.key k]) h
    simp only [entryNodes, processEntries, Node.kind, Node.value, entryScalars, cells, List.map_append,
      ne_eq, not_true_eq_false, if_false]
    rw [storeScalars_append, ← cells, ← first]
    generalize processNode env ctx (litNode format x) (path ++ [.key k]) h = outcome
    obtain ⟨result, node, h'⟩ := outcome
    cases result with
    | error f => rfl
    | ok u => exact processEntries_entryNodes rest path h'

theorem processItems_itemNodes : ∀ (items : List Lit) (i : Nat) (path : Path) (h : Heap),
    withoutNode (processItems env ctx (itemNodes format items) i path h) =
      storeScalars env ctx (cells format (itemScalars items i path)) h
  | [], i, path, h => rfl
  | x :: rest, i, path, h => by
    have first := processNode_litNode x (path ++ [.idx i]) h
    simp only [itemNodes, processItems, itemScalars, cells, List.map_append]
    rw [storeScalars_append, ← cells, ← first]
    generalize processNode env ctx (litNode format x) (path ++ [.idx i]) h = outcome
    obtain ⟨result, node, h'⟩ := outcome
    cases result with
    | error f => rfl
    | ok u => exact processItems_itemNodes rest (i + 1) path h'

end

/-- The walk over a document of a map. -/
theorem walkNode_document (m : List (String × Lit)) (h : Heap) :
    (walkNode env ctx (document format m) h).1 = (storeScalars env ctx (cells format (entryScalars m [])) h).1 := by
  have node := processNode_litNode env ctx format (.map .any m) [] h
  simp only [scalars] at node
  rw [← node, document, walkNode]
  simp only [walkNode.processDocument]
  generalize processNode env ctx (litNode format (.map .any m)) [] h = outcome
  obtain ⟨result, node', h'⟩ := outcome
  cases result <;> rfl

end Walk

/-- A scalar of the deep value at `q`, below containers. -/
structure Spot (D : DeepView) (q : Path) (s : Scalar) : Prop where
  inner : ∀ r n t, q = r ++ n :: t → Holds D r n
  leaf : D q = some (.scalar s)

section Spot
variable {D : DeepView} {q q' : Path} {s s' : Scalar}

theorem Spot.cons {n : Seg} (root : Holds D [] n) (below : Spot (D.sub n) q s) : Spot D (n :: q) s where
  inner := by
    intro r n' t split
    cases r with
    | nil =>
      cases split
      exact root
    | cons n₀ r =>
      rw [List.cons_append, List.cons.injEq] at split
      obtain ⟨rfl, split⟩ := split
      have inside := below.inner r n' t split
      cases n' <;> exact inside
  leaf := below.leaf

theorem not_holds_scalar {r : Path} {n : Seg} (holds : Holds D r n) : D r ≠ some (.scalar s) := by
  cases n with
  | key k =>
    rw [show D r = some .map from holds]
    simp
  | idx i =>
    obtain ⟨_, _, slice⟩ := holds
    rw [slice]
    simp

theorem sameKind_of_holds {r : Path} {n n' : Seg} (holds : Holds D r n) (holds' : Holds D r n') :
    sameKind n n' = true := by
  cases n with
  | key k =>
    cases n' with
    | key k' => rfl
    | idx i =>
      obtain ⟨_, _, slice⟩ := holds'
      rw [show D r = some .map from holds] at slice
      cases slice
  | idx i =>
    obtain ⟨_, _, slice⟩ := holds
    cases n' with
    | key k' =>
      rw [show D r = some .map from holds'] at slice
      cases slice
    | idx i' => rfl

/-- Two scalars of one value are at paths that do not get in each other's way. -/
theorem Spot.compatible (here : Spot D q s) (there : Spot D q' s') : Compatible q q' := by
  intro r n t t' split split'
  cases t with
  | nil =>
    cases t' with
    | nil => exact Or.inl ⟨rfl, rfl⟩
    | cons m u =>
      have leaf := here.leaf
      rw [split] at leaf
      exact absurd leaf (not_holds_scalar (there.inner (r ++ [n]) m u (by rw [split']; simp)))
  | cons m u =>
    have holds := here.inner (r ++ [n]) m u (by rw [split]; simp)
    cases t' with
    | nil =>
      have leaf := there.leaf
      rw [split'] at leaf
      exact absurd leaf (not_holds_scalar holds)
    | cons m' u' =>
      have holds' := there.inner (r ++ [n]) m' u' (by rw [split']; simp)
      exact Or.inr ⟨m, u, m', u', rfl, rfl, sameKind_of_holds holds holds'⟩

end Spot

mutual

/-- The scalars of a value are where the deep value has them. -/
theorem scalars_spot : ∀ (x : Lit) (path : Path), Decoded x → ∀ q s, (q, s) ∈ scalars x path →
    ∃ q', q = path ++ q' ∧ Spot x.view q' s
  | .scalar d, path, _ => by
    intro q s member
    simp only [scalars, List.mem_singleton, Prod.mk.injEq] at member
    obtain ⟨rfl, rfl⟩ := member
    exact ⟨[], by simp, fun r n t split => by simp at split, rfl⟩
  | .map t entries, path, decoded => by
    intro q s member
    obtain ⟨k, x, q', inside, rfl, below⟩ := entryScalars_spot entries path decoded.2.2 q s member
    have step : (Lit.map t entries).child (.key k) = some x := GoMap.get?_ofList decoded.2.1 inside
    exact ⟨.key k :: q', rfl, Spot.cons rfl (by rw [lit_sub step]; exact below)⟩
  | .slice t items, path, decoded => by
    intro q s member
    obtain ⟨j, x, q', inside, rfl, below⟩ := itemScalars_spot items 0 path decoded.2 q s member
    rw [Nat.zero_add]
    have step : (Lit.slice t items).child (.idx j) = some x := inside
    have bound : j < items.length := (List.getElem?_eq_some_iff.1 inside).1
    exact ⟨.idx j :: q', rfl, Spot.cons ⟨items.length, bound, rfl⟩ (by rw [lit_sub step]; exact below)⟩

theorem entryScalars_spot : ∀ (entries : List (String × Lit)) (path : Path), DecodedEntries entries →
    ∀ q s, (q, s) ∈ entryScalars entries path →
      ∃ k x q', (k, x) ∈ entries ∧ q = path ++ .key k :: q' ∧ Spot x.view q' s
  | [], path, _ => fun q s member => nomatch member
  | (k, x) :: rest, path, decoded => by
    intro q s member
    rcases List.mem_append.1 member with here | later
    · obtain ⟨q', rfl, spot⟩ := scalars_spot x (path ++ [.key k]) decoded.1 q s here
      exact ⟨k, x, q', by simp, by simp, spot⟩
    · obtain ⟨k', x', q', inside, split, spot⟩ := entryScalars_spot rest path decoded.2 q s later
      exact ⟨k', x', q', by simp [inside], split, spot⟩

theorem itemScalars_spot : ∀ (items : List Lit) (i : Nat) (path : Path), DecodedItems items →
    ∀ q s, (q, s) ∈ itemScalars items i path →
      ∃ j x q', items[j]? = some x ∧ q = path ++ .idx (i + j) :: q' ∧ Spot x.view q' s
  | [], i, path, _ => fun q s member => nomatch member
  | x :: rest, i, path, decoded => by
    intro q s member
    rcases List.mem_append.1 member with here | later
    · obtain ⟨q', rfl, spot⟩ := scalars_spot x (path ++ [.idx i]) decoded.1 q s here
      exact ⟨0, x, q', rfl, by simp, spot⟩
    · obtain ⟨j, x', q', inside, rfl, spot⟩ := itemScalars_spot rest (i + 1) path decoded.2 q s later
      exact ⟨j + 1, x', q', inside, by rw [show i + 1 + j = i + (j + 1) by omega], spot⟩

end

mutual

/-- The scalars of the deep value are listed. -/
theorem mem_scalars_of_view : ∀ (x : Lit) (path : Path), Decoded x → ∀ p s, x.view p = some (.scalar s) →
    (path ++ p, s) ∈ scalars x path
  | .scalar d, path, _, p, s, held => by
    cases p with
    | nil =>
      cases held
      simp [scalars]
    | cons n p => cases held
  | .map t entries, path, decoded, p, s, held => by
    cases p with
    | nil => cases held
    | cons n p =>
      cases n with
      | idx i => cases held
      | key k =>
        obtain ⟨x, step, below⟩ := Option.bind_eq_some_iff.1 (by simpa only [Lit.view] using held)
        exact mem_entryScalars_of_view entries path decoded.2.2 (mem_of_get?_ofList decoded.2.1 step) below
  | .slice t items, path, decoded, p, s, held => by
    cases p with
    | nil => cases held
    | cons n p =>
      cases n with
      | key k => cases held
      | idx j =>
        obtain ⟨x, step, below⟩ := Option.bind_eq_some_iff.1 (by simpa only [Lit.view] using held)
        have inside := mem_itemScalars_of_view items 0 path decoded.2 step below
        rwa [Nat.zero_add] at inside

theorem mem_entryScalars_of_view : ∀ (entries : List (String × Lit)) (path : Path), DecodedEntries entries →
    ∀ {k x p s}, (k, x) ∈ entries → x.view p = some (.scalar s) → (path ++ .key k :: p, s) ∈ entryScalars entries path
  | [], path, _, k, x, p, s, inside, _ => nomatch inside
  | (k₀, x₀) :: rest, path, decoded, k, x, p, s, inside, held => by
    rcases List.mem_cons.1 inside with here | later
    · rw [Prod.mk.injEq] at here
      obtain ⟨rfl, rfl⟩ := here
      have found := mem_scalars_of_view x (path ++ [.key k]) decoded.1 p s held
      exact List.mem_append_left _ (by simpa using found)
    · exact List.mem_append_right _ (mem_entryScalars_of_view rest path decoded.2 later held)

theorem mem_itemScalars_of_view : ∀ (items : List Lit) (i : Nat) (path : Path), DecodedItems items →
    ∀ {j x p s}, items[j]? = some x → x.view p = some (.scalar s) →
      (path ++ .idx (i + j) :: p, s) ∈ itemScalars items i path
  | [], i, path, _, j, x, p, s, inside, _ => by simp at inside
  | x₀ :: rest, i, path, decoded, j, x, p, s, inside, held => by
    cases j with
    | zero =>
      obtain rfl : x₀ = x := by simpa using inside
      have found := mem_scalars_of_view x₀ (path ++ [.idx i]) decoded.1 p s held
      exact List.mem_append_left _ (by simpa using found)
    | succ j =>
      have found := mem_itemScalars_of_view rest (i + 1) path decoded.2 (j := j) (by simpa using inside) held
      rw [show i + 1 + j = i + (j + 1) by omega] at found
      exact List.mem_append_right _ found

end

section Decode
variable (env : Env) (format : Scalar → String × String)

/-- How the tag and the text of a scalar are read. -/
def readScalar (cell : String × String) : Except Err Scalar :=
  if cell.1 = nullTag then .ok .null
  else match env.decodeScalar cell.1 cell.2 with
    | .ok s => .ok s
    | .error e => .error (.decode e)

theorem decodeAny_scalar (cell : String × String) :
    decodeAny env (.mk .scalar cell.1 cell.2 []) = (readScalar env cell).map .scalar := by
  rw [decodeAny, readScalar]
  split
  · rfl
  · cases env.decodeScalar cell.1 cell.2 <;> rfl

mutual

/-- A value whose scalars are read back as they were decodes to itself. -/
theorem decodeAny_litNode_self : ∀ (x : Lit) (path : Path), Decoded x →
    (∀ e ∈ scalars x path, readScalar env (format e.2) = .ok e.2) → decodeAny env (litNode format x) = .ok x
  | .scalar s, path, _, reads => by
    rw [litNode, decodeAny_scalar, reads (path, s) (by simp [scalars])]
    rfl
  | .map t entries, path, decoded, reads => by
    rw [litNode, decodeAny, decodeEntries_entryNodes_self entries path decoded.2.1 decoded.2.2 reads, decoded.1]
    rfl
  | .slice t items, path, decoded, reads => by
    rw [litNode, decodeAny, decodeItems_itemNodes_self items 0 path decoded.2 reads, decoded.1]
    rfl

theorem decodeEntries_entryNodes_self : ∀ (entries : List (String × Lit)) (path : Path), (entries.map Prod.fst).Nodup →
    DecodedEntries entries → (∀ e ∈ entryScalars entries path, readScalar env (format e.2) = .ok e.2) →
      decodeEntries env (entryNodes format entries) = .ok entries
  | [], path, _, _, _ => rfl
  | (k, x) :: rest, path, distinct, decoded, reads => by
    rw [List.map_cons, List.nodup_cons] at distinct
    have first := decodeAny_litNode_self x (path ++ [.key k]) decoded.1
      fun e member => reads e (List.mem_append_left _ member)
    have later := decodeEntries_entryNodes_self rest path distinct.2 decoded.2
      fun e member => reads e (List.mem_append_right _ member)
    have fresh : (rest.map Prod.fst).contains k = false := by simpa using distinct.1
    simp only [entryNodes, decodeEntries, Node.kind, Node.tag, Node.value, first, later, bind, Except.bind, ne_eq,
      not_true_eq_false, or_self, if_false, fresh, Bool.false_eq_true]

theorem decodeItems_itemNodes_self : ∀ (items : List Lit) (i : Nat) (path : Path), DecodedItems items →
    (∀ e ∈ itemScalars items i path, readScalar env (format e.2) = .ok e.2) →
      decodeItems env (itemNodes format items) = .ok items
  | [], i, path, _, _ => rfl
  | x :: rest, i, path, decoded, reads => by
    have first := decodeAny_litNode_self x (path ++ [.idx i]) decoded.1
      fun e member => reads e (List.mem_append_left _ member)
    have later := decodeItems_itemNodes_self rest (i + 1) path decoded.2
      fun e member => reads e (List.mem_append_right _ member)
    simp only [itemNodes, decodeItems, first, later, bind, Except.bind]

end

/-- What is seen at a position after decoding: the same, or a scalar as it was read. -/
def Reread (before after : Option Shape) : Prop :=
  match before with
  | some (.scalar s) => ∃ s', after = some (.scalar s') ∧ readScalar env (format s) = .ok s'
  | _ => after = before

/-- Two values that differ at most in their scalars. -/
def Redecoded (x y : Lit) : Prop := ∀ p, Reread env format (x.view p) (y.view p)

/-- The maps of two lists with the same keys and related values. -/
theorem get?_ofList_forall₂ {R : Lit → Lit → Prop} {entries ys : List (String × Lit)}
    (related : List.Forall₂ (fun e f => e.1 = f.1 ∧ R e.2 f.2) entries ys) (k : String) :
    ((GoMap.ofList entries).get? k = none ∧ (GoMap.ofList ys).get? k = none) ∨
      ∃ x y, (GoMap.ofList entries).get? k = some x ∧ (GoMap.ofList ys).get? k = some y ∧ R x y := by
  suffices ∀ m m' : GoMap Lit, ((m.get? k = none ∧ m'.get? k = none) ∨
      ∃ x y, m.get? k = some x ∧ m'.get? k = some y ∧ R x y) →
    (((entries.foldl (fun m e => m.put e.1 e.2) m).get? k = none ∧ (ys.foldl (fun m e => m.put e.1 e.2) m').get? k = none) ∨
      ∃ x y, (entries.foldl (fun m e => m.put e.1 e.2) m).get? k = some x ∧
        (ys.foldl (fun m e => m.put e.1 e.2) m').get? k = some y ∧ R x y) from this _ _ (Or.inl ⟨rfl, rfl⟩)
  induction related with
  | nil => exact fun m m' start => start
  | @cons e f _ _ pair _ ih =>
    intro m m' start
    refine ih _ _ ?_
    by_cases here : k = e.1
    · refine Or.inr ⟨e.2, f.2, ?_, ?_, pair.2⟩
      · rw [here, GoMap.get?_put_self]
      · rw [here, pair.1, GoMap.get?_put_self]
    · rw [GoMap.get?_put_ne _ _ here, GoMap.get?_put_ne _ _ (by rw [← pair.1]; exact here)]
      exact start

theorem redecoded_map {t t' : GoType} {entries ys : List (String × Lit)}
    (related : List.Forall₂ (fun e f => e.1 = f.1 ∧ Redecoded env format e.2 f.2) entries ys) :
    Redecoded env format (.map t entries) (.map t' ys) := by
  intro p
  cases p with
  | nil => rfl
  | cons s p =>
    cases s with
    | idx i => rfl
    | key k =>
      simp only [Lit.view, Lit.child]
      rcases get?_ofList_forall₂ related k with ⟨absent, absent'⟩ | ⟨x, y, stored, stored', same⟩
      · rw [absent, absent']
        rfl
      · rw [stored, stored']
        exact same p

theorem redecoded_slice {t t' : GoType} {items ys : List Lit} (related : List.Forall₂ (Redecoded env format) items ys) :
    Redecoded env format (.slice t items) (.slice t' ys) := by
  intro p
  cases p with
  | nil =>
    show some (Shape.slice ys.length) = some (Shape.slice items.length)
    rw [related.length_eq]
  | cons s p =>
    cases s with
    | key k => rfl
    | idx i =>
      simp only [Lit.view, Lit.child]
      by_cases inside : i < items.length
      · have other : i < ys.length := by rw [← related.length_eq]; exact inside
        rw [List.getElem?_eq_getElem inside, List.getElem?_eq_getElem other]
        exact (List.forall₂_iff_get.1 related).2 i inside other p
      · have outside : ys[i]? = none := List.getElem?_eq_none (by rw [← related.length_eq]; exact Nat.not_lt.1 inside)
        rw [List.getElem?_eq_none (Nat.not_lt.1 inside), outside]
        rfl

mutual

/-- What the node of a value decodes to has its containers. -/
theorem decodeAny_litNode : ∀ (x y : Lit), decodeAny env (litNode format x) = .ok y → Redecoded env format x y
  | .scalar s, y, run => by
    rw [litNode, decodeAny_scalar] at run
    cases read : readScalar env (format s) with
    | error e =>
      rw [read] at run
      cases run
    | ok s' =>
      rw [read] at run
      cases run
      intro p
      cases p with
      | nil => exact ⟨s', rfl, read⟩
      | cons n p => rfl
  | .map t entries, y, run => by
    rw [litNode, decodeAny] at run
    obtain ⟨ys, decoded, built⟩ := bind_eq_ok run
    cases built
    exact redecoded_map env format (decodeEntries_entryNodes entries ys decoded)
  | .slice t items, y, run => by
    rw [litNode, decodeAny] at run
    obtain ⟨ys, decoded, built⟩ := bind_eq_ok run
    cases built
    exact redecoded_slice env format (decodeItems_itemNodes items ys decoded)

theorem decodeEntries_entryNodes : ∀ (entries ys : List (String × Lit)),
    decodeEntries env (entryNodes format entries) = .ok ys →
      List.Forall₂ (fun e f => e.1 = f.1 ∧ Redecoded env format e.2 f.2) entries ys
  | [], ys, run => by
    cases run
    exact .nil
  | (k, x) :: rest, ys, run => by
    rw [entryNodes, decodeEntries] at run
    split at run
    · cases run
    · obtain ⟨y, first, later⟩ := bind_eq_ok run
      obtain ⟨entries, others, built⟩ := bind_eq_ok later
      split at built
      · cases built
      · cases built
        exact .cons ⟨rfl, decodeAny_litNode x y first⟩ (decodeEntries_entryNodes rest entries others)

theorem decodeItems_itemNodes : ∀ (items ys : List Lit), decodeItems env (itemNodes format items) = .ok ys →
    List.Forall₂ (Redecoded env format) items ys
  | [], ys, run => by
    cases run
    exact .nil
  | x :: rest, ys, run => by
    rw [itemNodes, decodeItems] at run
    obtain ⟨y, first, later⟩ := bind_eq_ok run
    obtain ⟨items, others, built⟩ := bind_eq_ok later
    cases built
    exact .cons (decodeAny_litNode x y first) (decodeItems_itemNodes rest items others)

end

/-- Decoding keeps the keys. -/
theorem keys_of_redecoded {entries ys : List (String × Lit)}
    (related : List.Forall₂ (fun e f => e.1 = f.1 ∧ Redecoded env format e.2 f.2) entries ys) :
    ys.map Prod.fst = entries.map Prod.fst := by
  induction related with
  | nil => rfl
  | cons pair _ ih => rw [List.map_cons, List.map_cons, ih, pair.1]

mutual

/-- A value whose scalars are all read back is decoded. -/
theorem decodeAny_litNode_ok : ∀ (x : Lit) (path : Path), Decoded x →
    (∀ e ∈ scalars x path, (readScalar env (format e.2)).isOk = true) → ∃ y, decodeAny env (litNode format x) = .ok y
  | .scalar s, path, _, reads => by
    have readable := reads (path, s) (by simp [scalars])
    rw [litNode, decodeAny_scalar]
    cases read : readScalar env (format s) with
    | error e =>
      rw [read] at readable
      cases readable
    | ok s' => exact ⟨.scalar s', rfl⟩
  | .map t entries, path, decoded, reads => by
    obtain ⟨ys, run⟩ := decodeEntries_entryNodes_ok entries path decoded.2.1 decoded.2.2 reads
    exact ⟨.map .any ys, by rw [litNode, decodeAny, run]; rfl⟩
  | .slice t items, path, decoded, reads => by
    obtain ⟨ys, run⟩ := decodeItems_itemNodes_ok items 0 path decoded.2 reads
    exact ⟨.slice .any ys, by rw [litNode, decodeAny, run]; rfl⟩

theorem decodeEntries_entryNodes_ok : ∀ (entries : List (String × Lit)) (path : Path), (entries.map Prod.fst).Nodup →
    DecodedEntries entries → (∀ e ∈ entryScalars entries path, (readScalar env (format e.2)).isOk = true) →
      ∃ ys, decodeEntries env (entryNodes format entries) = .ok ys
  | [], path, _, _, _ => ⟨[], rfl⟩
  | (k, x) :: rest, path, distinct, decoded, reads => by
    rw [List.map_cons, List.nodup_cons] at distinct
    obtain ⟨y, first⟩ := decodeAny_litNode_ok x (path ++ [.key k]) decoded.1
      fun e member => reads e (List.mem_append_left _ member)
    obtain ⟨ys, later⟩ := decodeEntries_entryNodes_ok rest path distinct.2 decoded.2
      fun e member => reads e (List.mem_append_right _ member)
    have keys := keys_of_redecoded env format (decodeEntries_entryNodes env format rest ys later)
    have fresh : (ys.map Prod.fst).contains k = false := by simpa [keys] using distinct.1
    refine ⟨(k, y) :: ys, ?_⟩
    simp only [entryNodes, decodeEntries, Node.kind, Node.tag, Node.value, first, later, bind, Except.bind, ne_eq,
      not_true_eq_false, or_self, if_false, fresh, Bool.false_eq_true]

theorem decodeItems_itemNodes_ok : ∀ (items : List Lit) (i : Nat) (path : Path), DecodedItems items →
    (∀ e ∈ itemScalars items i path, (readScalar env (format e.2)).isOk = true) →
      ∃ ys, decodeItems env (itemNodes format items) = .ok ys
  | [], i, path, _, _ => ⟨[], rfl⟩
  | x :: rest, i, path, decoded, reads => by
    obtain ⟨y, first⟩ := decodeAny_litNode_ok x (path ++ [.idx i]) decoded.1
      fun e member => reads e (List.mem_append_left _ member)
    obtain ⟨ys, later⟩ := decodeItems_itemNodes_ok rest (i + 1) path decoded.2
      fun e member => reads e (List.mem_append_right _ member)
    refine ⟨y :: ys, ?_⟩
    simp only [itemNodes, decodeItems, first, later, bind, Except.bind]

end

end Decode

section Texts
variable (format : Scalar → String × String)

/-- The walk does not take the text for a template. -/
def literalText (cell : String × String) : Bool := (cell.1 ≠ strTag && cell.1 ≠ "") || !isTmplSyntax cell.2

mutual

theorem templateFree_litNode : ∀ (x : Lit) (path : Path), (∀ e ∈ scalars x path, literalText (format e.2) = true) →
    (litNode format x).templateFree = true
  | .scalar s, path, free => free (path, s) (by simp [scalars])
  | .map t entries, path, free => templateFree_entryNodes entries path free
  | .slice t items, path, free => templateFree_itemNodes items 0 path free

theorem templateFree_entryNodes : ∀ (entries : List (String × Lit)) (path : Path),
    (∀ e ∈ entryScalars entries path, literalText (format e.2) = true) →
      entriesTemplateFree (entryNodes format entries) = true
  | [], path, _ => rfl
  | (k, x) :: rest, path, free => by
    rw [entryNodes, entriesTemplateFree, Bool.and_eq_true]
    exact ⟨templateFree_litNode x (path ++ [.key k]) fun e member => free e (List.mem_append_left _ member),
      templateFree_entryNodes rest path fun e member => free e (List.mem_append_right _ member)⟩

theorem templateFree_itemNodes : ∀ (items : List Lit) (i : Nat) (path : Path),
    (∀ e ∈ itemScalars items i path, literalText (format e.2) = true) →
      templateFreeAll (itemNodes format items) = true
  | [], i, path, _ => rfl
  | x :: rest, i, path, free => by
    rw [itemNodes, templateFreeAll, Bool.and_eq_true]
    exact ⟨templateFree_litNode x (path ++ [.idx i]) fun e member => free e (List.mem_append_left _ member),
      templateFree_itemNodes rest (i + 1) path fun e member => free e (List.mem_append_right _ member)⟩

end

mutual

/-- The scalars of the node are those of the value. -/
theorem leaves_litNode : ∀ (x : Lit) (path : Path),
    (litNode format x).leaves path = (scalars x path).map fun e => (e.1, (format e.2).1)
  | .scalar _, _ => rfl
  | .map _ entries, path => entryLeaves_entryNodes entries path
  | .slice _ items, path => itemLeaves_itemNodes items 0 path

theorem entryLeaves_entryNodes : ∀ (entries : List (String × Lit)) (path : Path),
    entryLeaves (entryNodes format entries) path = (entryScalars entries path).map fun e => (e.1, (format e.2).1)
  | [], path => rfl
  | (k, x) :: rest, path => by
    rw [entryNodes, entryLeaves, entryScalars, List.map_append, entryLeaves_entryNodes rest path]
    exact congrArg (· ++ _) (leaves_litNode x (path ++ [.key k]))

theorem itemLeaves_itemNodes : ∀ (items : List Lit) (i : Nat) (path : Path),
    itemLeaves (itemNodes format items) i path = (itemScalars items i path).map fun e => (e.1, (format e.2).1)
  | [], i, path => rfl
  | x :: rest, i, path => by
    rw [itemNodes, itemLeaves, itemScalars, List.map_append, itemLeaves_itemNodes rest (i + 1) path]
    exact congrArg (· ++ _) (leaves_litNode x (path ++ [.idx i]))

end

end Texts

end KubeKey.Converter
