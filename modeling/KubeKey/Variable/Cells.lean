import KubeKey.Variable.Accept
import KubeKey.Variable.Decode

/-!
# The scalars of a vars node

A vars node is, to a walk, the list of its scalars: each with its path, its tag and its text
(`cells`). The walk renders and stores one after the other (`walkCells`), and what it leaves
of the node has the same scalars with the rendered texts (`processNode_cells`). What the node
is decoded to has each scalar at its path, as its text is decoded (`decodeAny_cells`), and if
no container is empty it has nothing else (`decodeAny_filled`).
-/

namespace KubeKey.Variable

open KubeKey.Go

/-- A scalar of a node: its path, its tag and its text. -/
abbrev Cell := Path × String × String

mutual

/-- The scalars of a node in document order. -/
def Node.cells : Node → Path → List Cell
  | .mk .mapping _ _ content, path => entryCells content path
  | .mk .sequence _ _ content, path => itemCells content 0 path
  | .mk .scalar tag value _, path => [(path, tag, value)]
  | _, _ => []

def entryCells : List Node → Path → List Cell
  | key :: value :: rest, path => value.cells (path ++ [.key key.value]) ++ entryCells rest path
  | _, _ => []

def itemCells : List Node → Nat → Path → List Cell
  | [], _, _ => []
  | item :: rest, i, path => item.cells (path ++ [.idx i]) ++ itemCells rest (i + 1) path

end

mutual

/-- A node that a walk can go through: mappings of scalar keys, sequences and scalars. -/
def Node.walkable : Node → Bool
  | .mk .mapping _ _ content => content.length % 2 = 0 && entriesWalkable content
  | .mk .sequence _ _ content => itemsWalkable content
  | .mk .scalar _ _ _ => true
  | _ => false

def entriesWalkable : List Node → Bool
  | key :: value :: rest => key.kind = .scalar && value.walkable && entriesWalkable rest
  | _ => true

def itemsWalkable : List Node → Bool
  | [] => true
  | item :: rest => item.walkable && itemsWalkable rest

end

mutual

/-- No container in the node, itself included, is empty. -/
def Node.filled : Node → Bool
  | .mk .mapping _ _ content => !content.isEmpty && entriesFilled content
  | .mk .sequence _ _ content => !content.isEmpty && itemsFilled content
  | _ => true

def entriesFilled : List Node → Bool
  | _ :: value :: rest => value.filled && entriesFilled rest
  | _ => true

def itemsFilled : List Node → Bool
  | [] => true
  | item :: rest => item.filled && itemsFilled rest

end

mutual

theorem leaves_cells : ∀ (node : Node) (path : Path), node.leaves path = (node.cells path).map fun c => (c.1, c.2.1)
  | .mk .mapping _ _ content, path => entryLeaves_cells content path
  | .mk .sequence _ _ content, path => itemLeaves_cells content 0 path
  | .mk .scalar _ _ _, _ => rfl
  | .mk .zero _ _ _, _ => rfl
  | .mk .document _ _ _, _ => rfl
  | .mk .alias _ _ _, _ => rfl

theorem entryLeaves_cells : ∀ (content : List Node) (path : Path),
    entryLeaves content path = (entryCells content path).map fun c => (c.1, c.2.1)
  | key :: value :: rest, path => by
    rw [entryLeaves, entryCells, List.map_append, leaves_cells value, entryLeaves_cells rest]
  | [], _ => rfl
  | [_], _ => rfl

theorem itemLeaves_cells : ∀ (items : List Node) (i : Nat) (path : Path),
    itemLeaves items i path = (itemCells items i path).map fun c => (c.1, c.2.1)
  | [], _, _ => rfl
  | item :: rest, i, path => by
    rw [itemLeaves, itemCells, List.map_append, leaves_cells item, itemLeaves_cells rest]

end

mutual

/-- The scalars of a node at another place. -/
theorem cells_at : ∀ (node : Node) (path path' : Path),
    node.cells (path ++ path') = (node.cells path').map fun c => (path ++ c.1, c.2)
  | .mk .mapping _ _ content, path, path' => entryCells_at content path path'
  | .mk .sequence _ _ content, path, path' => itemCells_at content 0 path path'
  | .mk .scalar _ _ _, _, _ => rfl
  | .mk .zero _ _ _, _, _ => rfl
  | .mk .document _ _ _, _, _ => rfl
  | .mk .alias _ _ _, _, _ => rfl

theorem entryCells_at : ∀ (content : List Node) (path path' : Path),
    entryCells content (path ++ path') = (entryCells content path').map fun c => (path ++ c.1, c.2)
  | key :: value :: rest, path, path' => by
    rw [entryCells, entryCells, List.map_append, entryCells_at rest path path', List.append_assoc,
      cells_at value path]
  | [], _, _ => rfl
  | [_], _, _ => rfl

theorem itemCells_at : ∀ (items : List Node) (i : Nat) (path path' : Path),
    itemCells items i (path ++ path') = (itemCells items i path').map fun c => (path ++ c.1, c.2)
  | [], _, _, _ => rfl
  | item :: rest, i, path, path' => by
    rw [itemCells, itemCells, List.map_append, itemCells_at rest (i + 1) path path', List.append_assoc,
      cells_at item path]

end

section Walk
variable (env : Env) (ctx : Val)

/-- The walk over scalars: the outcome, the scalars with the texts it leaves, and the heap. -/
def walkCells : List Cell → Heap → Except Fault Unit × List Cell × Heap
  | [], h => (.ok (), [], h)
  | (q, tag, text) :: rest, h =>
    match parseScalarValue env (h.view ctx) tag text with
    | .error e => (.error (.error e), (q, tag, text) :: rest, h)
    | .ok (v, text) =>
      match setContextValue ctx v q h with
      | (.error f, h) => (.error f, (q, tag, text) :: rest, h)
      | (.ok _, h) =>
        let (r, rest, h) := walkCells rest h
        (r, (q, tag, text) :: rest, h)

/-- Continue with other scalars. -/
def thenCells (r : Except Fault Unit × List Cell × Heap) (rest : List Cell) : Except Fault Unit × List Cell × Heap :=
  match r with
  | (.ok _, done, h) =>
    let (r, rest, h) := walkCells env ctx rest h
    (r, done ++ rest, h)
  | (.error f, done, h) => (.error f, done ++ rest, h)

theorem walkCells_append (first second : List Cell) : ∀ h,
    walkCells env ctx (first ++ second) h = thenCells env ctx (walkCells env ctx first h) second := by
  induction first with
  | nil => intro h; rfl
  | cons cell rest ih =>
    obtain ⟨q, tag, text⟩ := cell
    intro h
    rw [List.cons_append, walkCells, walkCells]
    cases parseScalarValue env (h.view ctx) tag text with
    | error e => rfl
    | ok read =>
      obtain ⟨v, text⟩ := read
      dsimp only
      generalize setContextValue ctx v q h = outcome
      obtain ⟨result, h'⟩ := outcome
      cases result with
      | error f => rfl
      | ok u =>
        dsimp only
        rw [ih]
        generalize walkCells env ctx rest h' = outcome
        obtain ⟨result, done, h''⟩ := outcome
        cases result <;> rfl

/-- A walk changes no path and no tag. -/
theorem walkCells_places (cells : List Cell) : ∀ h,
    (walkCells env ctx cells h).2.1.map (fun c => (c.1, c.2.1)) = cells.map fun c => (c.1, c.2.1) := by
  induction cells with
  | nil => intro h; rfl
  | cons cell rest ih =>
    obtain ⟨q, tag, text⟩ := cell
    intro h
    rw [walkCells]
    cases parseScalarValue env (h.view ctx) tag text with
    | error e => rfl
    | ok read =>
      obtain ⟨v, text⟩ := read
      dsimp only
      generalize setContextValue ctx v q h = outcome
      obtain ⟨result, h'⟩ := outcome
      cases result with
      | error f => rfl
      | ok u => simp only [List.map_cons, ih h']

/-- The walk stores the scalars as `storeScalars` does. -/
theorem walkCells_storeScalars (cells : List Cell) : ∀ h,
    ((walkCells env ctx cells h).1, (walkCells env ctx cells h).2.2) = storeScalars env ctx cells h := by
  induction cells with
  | nil => intro h; rfl
  | cons cell rest ih =>
    obtain ⟨q, tag, text⟩ := cell
    intro h
    rw [walkCells, storeScalars]
    cases parseScalarValue env (h.view ctx) tag text with
    | error e => rfl
    | ok read =>
      obtain ⟨v, text⟩ := read
      dsimp only
      generalize setContextValue ctx v q h = outcome
      obtain ⟨result, h'⟩ := outcome
      cases result with
      | error f => rfl
      | ok u => exact ih h'

mutual

/-- A walk over a node is a walk over its scalars. -/
theorem processNode_cells : ∀ (node : Node) (path : Path) (h : Heap), node.walkable = true →
    ((processNode env ctx node path h).1, (processNode env ctx node path h).2.1.cells path,
      (processNode env ctx node path h).2.2) = walkCells env ctx (node.cells path) h
  | .mk .mapping tag value content, path, h, walkable => by
    rw [Node.walkable, Bool.and_eq_true, decide_eq_true_eq] at walkable
    rw [processNode, if_neg (by simp [walkable.1])]
    simp only [Node.cells]
    exact processEntries_cells content path h walkable.2
  | .mk .sequence tag value content, path, h, walkable => by
    rw [processNode]
    simp only [Node.cells]
    exact processItems_cells content 0 path h walkable
  | .mk .scalar tag value content, path, h, _ => by
    rw [processNode, Node.cells, walkCells]
    cases parseScalarValue env (h.view ctx) tag value with
    | error e => rfl
    | ok read =>
      obtain ⟨v, text⟩ := read
      dsimp only
      generalize setContextValue ctx v path h = outcome
      obtain ⟨result, h'⟩ := outcome
      cases result <;> rfl
  | .mk .zero tag value content, path, h, walkable => by cases walkable
  | .mk .document tag value content, path, h, walkable => by cases walkable
  | .mk .alias tag value content, path, h, walkable => by cases walkable

theorem processEntries_cells : ∀ (content : List Node) (path : Path) (h : Heap), entriesWalkable content = true →
    ((processEntries env ctx content path h).1, entryCells (processEntries env ctx content path h).2.1 path,
      (processEntries env ctx content path h).2.2) = walkCells env ctx (entryCells content path) h
  | key :: value :: rest, path, h, walkable => by
    rw [entriesWalkable, Bool.and_eq_true, Bool.and_eq_true, decide_eq_true_eq] at walkable
    obtain ⟨⟨scalar, first⟩, others⟩ := walkable
    have here := processNode_cells value (path ++ [.key key.value]) h first
    rw [processEntries, if_neg (by simp [scalar]), entryCells, walkCells_append, ← here]
    generalize processNode env ctx value (path ++ [.key key.value]) h = outcome
    obtain ⟨result, value', h'⟩ := outcome
    cases result with
    | error f => rfl
    | ok u =>
      simp only [thenCells, ← processEntries_cells rest path h' others, entryCells]
  | [], path, h, _ => rfl
  | [_], path, h, _ => rfl

theorem processItems_cells : ∀ (items : List Node) (i : Nat) (path : Path) (h : Heap), itemsWalkable items = true →
    ((processItems env ctx items i path h).1, itemCells (processItems env ctx items i path h).2.1 i path,
      (processItems env ctx items i path h).2.2) = walkCells env ctx (itemCells items i path) h
  | [], i, path, h, _ => rfl
  | item :: rest, i, path, h, walkable => by
    rw [itemsWalkable, Bool.and_eq_true] at walkable
    have here := processNode_cells item (path ++ [.idx i]) h walkable.1
    rw [processItems, itemCells, walkCells_append, ← here]
    generalize processNode env ctx item (path ++ [.idx i]) h = outcome
    obtain ⟨result, item', h'⟩ := outcome
    cases result with
    | error f => rfl
    | ok u =>
      simp only [thenCells, ← processItems_cells rest (i + 1) path h' walkable.2, itemCells]

end

mutual

/-- A walk that succeeds has gone through all of the node. -/
theorem walkable_of_processNode : ∀ (node : Node) (path : Path) (h : Heap),
    (processNode env ctx node path h).1 = .ok () → node.walkable = true
  | .mk .mapping tag value content, path, h, done => by
    rw [processNode] at done
    split at done
    · cases done
    · next even =>
      rw [Node.walkable, Bool.and_eq_true, decide_eq_true_eq]
      exact ⟨not_not.1 even, walkable_of_processEntries content path h done⟩
  | .mk .sequence tag value content, path, h, done => by
    rw [processNode] at done
    exact walkable_of_processItems content 0 path h done
  | .mk .scalar tag value content, path, h, _ => rfl
  | .mk .zero tag value content, path, h, done => by cases done
  | .mk .document tag value content, path, h, done => by cases done
  | .mk .alias tag value content, path, h, done => by cases done

theorem walkable_of_processEntries : ∀ (content : List Node) (path : Path) (h : Heap),
    (processEntries env ctx content path h).1 = .ok () → entriesWalkable content = true
  | key :: value :: rest, path, h, done => by
    rw [processEntries] at done
    split at done
    · cases done
    · next scalar =>
      have first := walkable_of_processNode value (path ++ [.key key.value]) h
      generalize processNode env ctx value (path ++ [.key key.value]) h = outcome at done first
      obtain ⟨result, value', h'⟩ := outcome
      cases result with
      | error f => cases done
      | ok u =>
        have later := walkable_of_processEntries rest path h' done
        rw [entriesWalkable, first rfl, later, decide_eq_true (not_not.1 scalar)]
        rfl
  | [], path, h, _ => rfl
  | [_], path, h, _ => rfl

theorem walkable_of_processItems : ∀ (items : List Node) (i : Nat) (path : Path) (h : Heap),
    (processItems env ctx items i path h).1 = .ok () → itemsWalkable items = true
  | [], i, path, h, _ => rfl
  | item :: rest, i, path, h, done => by
    rw [processItems] at done
    have first := walkable_of_processNode item (path ++ [.idx i]) h
    generalize processNode env ctx item (path ++ [.idx i]) h = outcome at done first
    obtain ⟨result, item', h'⟩ := outcome
    cases result with
    | error f => cases done
    | ok u => rw [itemsWalkable, first rfl, walkable_of_processItems rest (i + 1) path h' done, Bool.and_self]

end

end Walk

theorem mem_of_get?_ofList {α : Type} {entries : List (String × α)} (distinct : (entries.map Prod.fst).Nodup)
    {k : String} {x : α} (found : (GoMap.ofList entries).get? k = some x) : (k, x) ∈ entries := by
  by_cases inside : k ∈ entries.map Prod.fst
  · obtain ⟨⟨k', x'⟩, member, rfl⟩ := List.mem_map.1 inside
    rw [GoMap.get?_ofList distinct member] at found
    cases found
    exact member
  · rw [GoMap.ofList, GoMap.get?_foldl_put_of_not_mem inside] at found
    cases found

section Decode
variable {env : Env}

mutual

/-- What a node is decoded to has each scalar at its path, as it is decoded on its own. -/
theorem decodeAny_cells : ∀ (node : Node) (x : Lit) (path : Path), decodeAny env node = .ok x →
    ∀ q tag text, (q, tag, text) ∈ node.cells path → ∃ q' s, q = path ++ q' ∧ x.view q' = some (.scalar s) ∧
      decodeAny env (.mk .scalar tag text []) = .ok (.scalar s)
  | .mk .mapping _ _ content, x, path, run => by
    rw [decodeAny] at run
    obtain ⟨es, decoded, built⟩ := bind_eq_ok run
    cases built
    intro q tag text member
    obtain ⟨distinct, _⟩ := decodeEntries_fits env content es path decoded
    obtain ⟨k, y, q', s, inside, rfl, held, read⟩ := decodeEntries_cells content es path decoded q tag text member
    have step : (Lit.map .any es).child (.key k) = some y := GoMap.get?_ofList distinct inside
    exact ⟨.key k :: q', s, rfl, by rw [Lit.view, step]; exact held, read⟩
  | .mk .sequence _ _ content, x, path, run => by
    rw [decodeAny] at run
    obtain ⟨ys, decoded, built⟩ := bind_eq_ok run
    cases built
    intro q tag text member
    obtain ⟨j, y, q', s, inside, rfl, held, read⟩ := decodeItems_cells content ys 0 path decoded q tag text member
    rw [Nat.zero_add]
    have step : (Lit.slice .any ys).child (.idx j) = some y := inside
    exact ⟨.idx j :: q', s, rfl, by rw [Lit.view, step]; exact held, read⟩
  | .mk .scalar _ _ content, x, path, run => by
    intro q tag text member
    simp only [Node.cells, List.mem_singleton, Prod.mk.injEq] at member
    obtain ⟨rfl, rfl, rfl⟩ := member
    have same : decodeAny env (.mk .scalar tag text []) = .ok x := run
    rw [decodeAny] at run
    split at run
    · cases run
      exact ⟨[], .null, by simp, rfl, same⟩
    · split at run
      · next s _ =>
        cases run
        exact ⟨[], s, by simp, rfl, same⟩
      · cases run
  | .mk .zero _ _ content, x, path, run => by cases run
  | .mk .document _ _ content, x, path, run => by cases run
  | .mk .alias _ _ content, x, path, run => by cases run

theorem decodeEntries_cells : ∀ (content : List Node) (es : List (String × Lit)) (path : Path),
    decodeEntries env content = .ok es → ∀ q tag text, (q, tag, text) ∈ entryCells content path →
      ∃ k y q' s, (k, y) ∈ es ∧ q = path ++ .key k :: q' ∧ y.view q' = some (.scalar s) ∧
        decodeAny env (.mk .scalar tag text []) = .ok (.scalar s)
  | key :: value :: rest, es, path, run => by
    rw [decodeEntries] at run
    split at run
    · cases run
    · obtain ⟨x, first, later⟩ := bind_eq_ok run
      obtain ⟨entries, others, built⟩ := bind_eq_ok later
      split at built
      · cases built
      · cases built
        intro q tag text member
        rcases List.mem_append.1 member with here | there
        · obtain ⟨q', s, rfl, held, read⟩ := decodeAny_cells value x _ first q tag text here
          exact ⟨key.value, x, q', s, by simp, by simp, held, read⟩
        · obtain ⟨k, y, q', s, inside, rest⟩ := decodeEntries_cells rest entries path others q tag text there
          exact ⟨k, y, q', s, by simp [inside], rest⟩
  | [], es, path, _ => fun q tag text member => by cases member
  | [_], es, path, _ => fun q tag text member => by cases member

theorem decodeItems_cells : ∀ (items : List Node) (ys : List Lit) (i : Nat) (path : Path),
    decodeItems env items = .ok ys → ∀ q tag text, (q, tag, text) ∈ itemCells items i path →
      ∃ j y q' s, ys[j]? = some y ∧ q = path ++ .idx (i + j) :: q' ∧ y.view q' = some (.scalar s) ∧
        decodeAny env (.mk .scalar tag text []) = .ok (.scalar s)
  | [], ys, i, path, _ => fun q tag text member => by cases member
  | item :: rest, ys, i, path, run => by
    rw [decodeItems] at run
    obtain ⟨x, first, later⟩ := bind_eq_ok run
    obtain ⟨others, decoded, built⟩ := bind_eq_ok later
    cases built
    intro q tag text member
    rcases List.mem_append.1 member with here | there
    · obtain ⟨q', s, rfl, held, read⟩ := decodeAny_cells item x _ first q tag text here
      exact ⟨0, x, q', s, rfl, by simp, held, read⟩
    · obtain ⟨j, y, q', s, inside, rfl, rest⟩ := decodeItems_cells rest others (i + 1) path decoded q tag text there
      exact ⟨j + 1, y, q', s, inside, by rw [show i + 1 + j = i + (j + 1) by omega], rest⟩

end

mutual

/-- What a node without empty containers is decoded to has nothing but its scalars and what leads to them. -/
theorem decodeAny_filled : ∀ (node : Node) (x : Lit) (path : Path), decodeAny env node = .ok x →
    node.walkable = true → node.filled = true → ∀ p, (x.view p).isSome → ∃ c ∈ node.cells path, path ++ p <+: c.1
  | .mk .mapping _ _ content, x, path, run, walkable, filled => by
    rw [decodeAny] at run
    obtain ⟨es, decoded, built⟩ := bind_eq_ok run
    cases built
    rw [Node.walkable, Bool.and_eq_true, decide_eq_true_eq] at walkable
    rw [Node.filled, Bool.and_eq_true] at filled
    obtain ⟨distinct, _⟩ := decodeEntries_fits env content es path decoded
    have entries := decodeEntries_filled content es path decoded walkable.2 filled.2
    intro p held
    cases p with
    | nil =>
      -- the first entry has a scalar
      obtain ⟨key, value, rest, rfl⟩ : ∃ key value rest, content = key :: value :: rest := by
        obtain ⟨even, _⟩ := walkable
        cases content with
        | nil => simp at filled
        | cons key tail =>
          cases tail with
          | nil => simp at even
          | cons value rest => exact ⟨key, value, rest, rfl⟩
      rw [decodeEntries] at decoded
      split at decoded
      · cases decoded
      · obtain ⟨y, first, later⟩ := bind_eq_ok decoded
        obtain ⟨others, _, built⟩ := bind_eq_ok later
        split at built
        · cases built
        · cases built
          have root : (y.view []).isSome := by cases y <;> rfl
          obtain ⟨c, member, starts⟩ := entries key.value y (by simp) [] root
          exact ⟨c, member, by rw [List.append_nil]; exact (List.prefix_append path _).trans starts⟩
    | cons s p =>
      cases s with
      | idx i => cases held
      | key k =>
        obtain ⟨y, step, below⟩ : ∃ y, (Lit.map .any es).child (.key k) = some y ∧ (y.view p).isSome := by
          rw [Lit.view] at held
          cases step : (Lit.map .any es).child (.key k) with
          | none =>
            rw [step] at held
            cases held
          | some y =>
            rw [step] at held
            exact ⟨y, rfl, held⟩
        exact entries k y (mem_of_get?_ofList distinct step) p below
  | .mk .sequence _ _ content, x, path, run, walkable, filled => by
    rw [decodeAny] at run
    obtain ⟨ys, decoded, built⟩ := bind_eq_ok run
    cases built
    rw [Node.filled, Bool.and_eq_true] at filled
    have items := decodeItems_filled content ys 0 path decoded walkable filled.2
    intro p held
    cases p with
    | nil =>
      obtain ⟨item, rest, rfl⟩ := List.exists_cons_of_ne_nil (show content ≠ [] by simpa using filled.1)
      rw [decodeItems] at decoded
      obtain ⟨y, first, later⟩ := bind_eq_ok decoded
      obtain ⟨others, _, built⟩ := bind_eq_ok later
      cases built
      have root : (y.view []).isSome := by cases y <;> rfl
      obtain ⟨c, member, starts⟩ := items 0 y rfl [] root
      exact ⟨c, member, by rw [List.append_nil]; exact (List.prefix_append path _).trans starts⟩
    | cons s p =>
      cases s with
      | key k => cases held
      | idx i =>
        obtain ⟨y, step, below⟩ : ∃ y, ys[i]? = some y ∧ (y.view p).isSome := by
          rw [Lit.view] at held
          cases step : ys[i]? with
          | none =>
            rw [show (Lit.slice .any ys).child (.idx i) = none from step] at held
            cases held
          | some y =>
            rw [show (Lit.slice .any ys).child (.idx i) = some y from step] at held
            exact ⟨y, rfl, held⟩
        obtain ⟨c, member, starts⟩ := items i y step p below
        exact ⟨c, member, by rwa [Nat.zero_add] at starts⟩
  | .mk .scalar tag value content, x, path, run, _, _ => by
    intro p held
    refine ⟨(path, tag, value), by simp [Node.cells], ?_⟩
    rw [decodeAny] at run
    have scalar : ∃ s, x = .scalar s := by
      split at run
      · cases run
        exact ⟨_, rfl⟩
      · split at run
        · cases run
          exact ⟨_, rfl⟩
        · cases run
    obtain ⟨s, rfl⟩ := scalar
    cases p with
    | nil => rw [List.append_nil]
    | cons s p => cases held
  | .mk .zero _ _ content, x, path, run, _, _ => by cases run
  | .mk .document _ _ content, x, path, run, _, _ => by cases run
  | .mk .alias _ _ content, x, path, run, _, _ => by cases run

theorem decodeEntries_filled : ∀ (content : List Node) (es : List (String × Lit)) (path : Path),
    decodeEntries env content = .ok es → entriesWalkable content = true → entriesFilled content = true →
      ∀ k y, (k, y) ∈ es → ∀ p, (y.view p).isSome → ∃ c ∈ entryCells content path, path ++ .key k :: p <+: c.1
  | key :: value :: rest, es, path, run, walkable, filled => by
    rw [decodeEntries] at run
    rw [entriesWalkable, Bool.and_eq_true, Bool.and_eq_true] at walkable
    rw [entriesFilled, Bool.and_eq_true] at filled
    split at run
    · cases run
    · obtain ⟨x, first, later⟩ := bind_eq_ok run
      obtain ⟨entries, others, built⟩ := bind_eq_ok later
      split at built
      · cases built
      · cases built
        intro k y member p held
        rcases List.mem_cons.1 member with here | there
        · rw [Prod.mk.injEq] at here
          obtain ⟨rfl, rfl⟩ := here
          obtain ⟨c, inside, starts⟩ :=
            decodeAny_filled value y (path ++ [.key key.value]) first walkable.1.2 filled.1 p held
          exact ⟨c, List.mem_append_left _ inside, by simpa using starts⟩
        · obtain ⟨c, inside, starts⟩ :=
            decodeEntries_filled rest entries path others walkable.2 filled.2 k y there p held
          exact ⟨c, List.mem_append_right _ inside, starts⟩
  | [], es, path, run, _, _ => by
    cases run
    simp
  | [_], es, path, run, _, _ => by
    cases run
    simp

theorem decodeItems_filled : ∀ (items : List Node) (ys : List Lit) (i : Nat) (path : Path),
    decodeItems env items = .ok ys → itemsWalkable items = true → itemsFilled items = true →
      ∀ j y, ys[j]? = some y → ∀ p, (y.view p).isSome → ∃ c ∈ itemCells items i path, path ++ .idx (i + j) :: p <+: c.1
  | [], ys, i, path, run, _, _ => by
    cases run
    simp
  | item :: rest, ys, i, path, run, walkable, filled => by
    rw [decodeItems] at run
    rw [itemsWalkable, Bool.and_eq_true] at walkable
    rw [itemsFilled, Bool.and_eq_true] at filled
    obtain ⟨x, first, later⟩ := bind_eq_ok run
    obtain ⟨others, decoded, built⟩ := bind_eq_ok later
    cases built
    intro j y member p held
    cases j with
    | zero =>
      obtain rfl : x = y := by simpa using member
      obtain ⟨c, inside, starts⟩ := decodeAny_filled item x (path ++ [.idx i]) first walkable.1 filled.1 p held
      exact ⟨c, List.mem_append_left _ inside, by simpa using starts⟩
    | succ j =>
      obtain ⟨c, inside, starts⟩ :=
        decodeItems_filled rest others (i + 1) path decoded walkable.2 filled.2 j y (by simpa using member) p held
      exact ⟨c, List.mem_append_right _ inside, by rwa [show i + 1 + j = i + (j + 1) by omega] at starts⟩

end

end Decode

end KubeKey.Variable
