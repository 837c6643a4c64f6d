import KubeKey.Go.Label

/-!
# Decoded documents

What a decoder returns: a tree of containers that nobody else holds yet. It is
described by a literal and reaches the heap through `Lit.alloc`, which allocates
one object for each container of the tree.
-/

namespace KubeKey.Go

/-- A decoded value. A key given twice keeps its last value. -/
inductive Lit where
  | scalar (s : Scalar)
  | map (elem : GoType) (entries : List (String × Lit))
  | slice (elem : GoType) (items : List Lit)

/-- `v` is a new tree with the deep value `w`, in a heap that has grown from `h`. -/
structure Placed (h : Heap) (w : DeepView) (v : Val) (h' : Heap) : Prop where
  grows : Heap.Grows h h'
  closed : h'.Closed
  below : v.Below h'.size
  view : h'.view v = w
  labels : ∀ label r, ∃ label', SameBelow h.size label label' ∧ LabelledAt label' h' v r

namespace Lit

def child : Lit → Seg → Option Lit
  | .map _ entries, .key k => (GoMap.ofList entries).get? k
  | .slice _ items, .idx i => items[i]?
  | _, _ => none

def shape : Lit → Shape
  | .scalar s => .scalar s
  | .map _ _ => .map
  | .slice _ items => .slice items.length

/-- The deep value a literal stands for. -/
def view (x : Lit) : DeepView
  | [] => some x.shape
  | s :: p => (x.child s).bind fun c => view c p

theorem view_prefixClosed (x : Lit) : x.view.PrefixClosed := by
  intro p q absent
  induction p generalizing x with
  | nil => cases absent
  | cons s p ih =>
    simp only [List.cons_append, view] at absent ⊢
    cases step : x.child s with
    | none => rfl
    | some c =>
      rw [step] at absent
      exact ih c absent

mutual

/-- Build the value on the heap, innermost containers first. -/
def alloc : Lit → Heap → Val × Heap
  | .scalar s, h => (.scalar s, h)
  | .map t entries, h =>
    let (m, h) := allocEntries entries .empty h
    let (l, h) := h.alloc (.map t m)
    (.ref l, h)
  | .slice t items, h =>
    let (vs, h) := allocItems items h
    let (l, h) := h.alloc (.slice t vs)
    (.ref l, h)

def allocEntries : List (String × Lit) → GoMap Val → Heap → GoMap Val × Heap
  | [], m, h => (m, h)
  | (k, x) :: rest, m, h =>
    let (v, h) := alloc x h
    allocEntries rest (m.put k v) h

def allocItems : List Lit → Heap → List Val × Heap
  | [], h => ([], h)
  | x :: rest, h =>
    let (v, h) := alloc x h
    let (vs, h) := allocItems rest h
    (v :: vs, h)

end

/-- The entries filled so far hold the literals filled so far, each labelled for its key. -/
def Filled (h : Heap) (label : Nat → Path) (r : Path) (m : GoMap Val) (lits : GoMap Lit) : Prop :=
  ∀ k, (m.get? k = none ∧ lits.get? k = none) ∨
    ∃ v x, m.get? k = some v ∧ lits.get? k = some x ∧ v.Below h.size ∧ h.view v = x.view ∧
      LabelledAt label h v (r ++ [.key k])

theorem Filled.grows {h h' : Heap} {label label' : Nat → Path} {r : Path} {m : GoMap Val} {lits : GoMap Lit}
    (filled : Filled h label r m lits) (closed : h.Closed) (grows : Heap.Grows h h')
    (labels : SameBelow h.size label label') : Filled h' label' r m lits := by
  intro k
  rcases filled k with absent | ⟨v, x, stored, literal, below, view, labelled⟩
  · exact Or.inl absent
  · refine Or.inr ⟨v, x, stored, literal, below.mono grows.size_le, ?_, labelled.grows closed grows labels below⟩
    rw [grows.view closed below, view]

theorem Filled.put {h : Heap} {label : Nat → Path} {r : Path} {m : GoMap Val} {lits : GoMap Lit}
    (filled : Filled h label r m lits) {k : String} {v : Val} {x : Lit} (below : v.Below h.size)
    (view : h.view v = x.view) (labelled : LabelledAt label h v (r ++ [.key k])) :
    Filled h label r (m.put k v) (lits.put k x) := by
  intro k'
  by_cases same : k' = k
  · subst same
    exact Or.inr ⟨v, x, GoMap.get?_put_self m k' v, GoMap.get?_put_self lits k' x, below, view, labelled⟩
  · rw [GoMap.get?_put_ne m v same, GoMap.get?_put_ne lits x same]
    exact filled k'

theorem Filled.below {h : Heap} {label : Nat → Path} {r : Path} {m : GoMap Val} {lits : GoMap Lit}
    (filled : Filled h label r m lits) (t : GoType) : (Obj.map t m).Below h.size := by
  intro s c step
  cases s with
  | idx i => simp [Obj.child] at step
  | key k =>
    rcases filled k with ⟨absent, _⟩ | ⟨v, x, stored, _, bound, _⟩
    · simp [Obj.child, absent] at step
    · simp only [Obj.child, stored, Option.some.injEq] at step
      exact step ▸ bound

theorem Filled.view {h : Heap} {label : Nat → Path} {r : Path} {m : GoMap Val} {t : GoType}
    {entries : List (String × Lit)} (closed : h.Closed) (filled : Filled h label r m (GoMap.ofList entries)) :
    (h.alloc (.map t m)).2.view (.ref h.size) = (Lit.map t entries).view := by
  funext p
  cases p with
  | nil => simp [Heap.view_nil, Heap.shape, Obj.shape, Lit.view, Lit.shape]
  | cons s p =>
    rw [Heap.view_cons, Heap.child_ref (Heap.get?_alloc_new _)]
    cases s with
    | idx i => simp [Obj.child, Lit.view, Lit.child]
    | key k =>
      rcases filled k with ⟨absent, literal⟩ | ⟨v, x, stored, literal, bound, view, _⟩
      · simp [Obj.child, Lit.view, Lit.child, absent, literal]
      · simp only [Obj.child, Lit.view, Lit.child, stored, literal, Option.bind_some]
        rw [(Heap.grows_alloc (filled.below t)).view closed bound, view]

theorem Filled.labelled {h : Heap} {label : Nat → Path} {r : Path} {m : GoMap Val} {lits : GoMap Lit}
    (filled : Filled h label r m lits) (t : GoType) :
    ∀ s c, (Obj.map t m).child s = some c → LabelledAt label h c (r ++ [s]) := by
  intro s c step
  cases s with
  | idx i => simp [Obj.child] at step
  | key k =>
    rcases filled k with ⟨absent, _⟩ | ⟨v, x, stored, _, _, _, labelled⟩
    · simp [Obj.child, absent] at step
    · simp only [Obj.child, stored, Option.some.injEq] at step
      exact step ▸ labelled

/-- The array items hold the literals, each labelled for its index from `start` on. -/
structure ItemsFilled (h : Heap) (label : Nat → Path) (r : Path) (start : Nat) (vs : List Val) (items : List Lit) :
    Prop where
  length : vs.length = items.length
  item : ∀ i v x, vs[i]? = some v → items[i]? = some x →
    v.Below h.size ∧ h.view v = x.view ∧ LabelledAt label h v (r ++ [.idx (start + i)])

theorem ItemsFilled.child {h : Heap} {label : Nat → Path} {r : Path} {vs : List Val} {items : List Lit}
    (filled : ItemsFilled h label r 0 vs items) {t : GoType} {s : Seg} {c : Val}
    (step : (Obj.slice t vs).child s = some c) :
    ∃ i x, s = .idx i ∧ items[i]? = some x ∧ c.Below h.size ∧ h.view c = x.view ∧
      LabelledAt label h c (r ++ [s]) := by
  cases s with
  | key k => simp [Obj.child] at step
  | idx i =>
    have inside : i < items.length := filled.length ▸ (List.getElem?_eq_some_iff.1 step).1
    obtain ⟨below, view, labelled⟩ := filled.item i c items[i] step (List.getElem?_eq_getElem inside)
    exact ⟨i, items[i], rfl, List.getElem?_eq_getElem inside, below, view, by simpa using labelled⟩

theorem ItemsFilled.below {h : Heap} {label : Nat → Path} {r : Path} {vs : List Val} {items : List Lit}
    (filled : ItemsFilled h label r 0 vs items) (t : GoType) : (Obj.slice t vs).Below h.size := by
  intro s c step
  obtain ⟨_, _, _, _, bound, _⟩ := filled.child step
  exact bound

theorem ItemsFilled.view {h : Heap} {label : Nat → Path} {r : Path} {vs : List Val} {items : List Lit} {t : GoType}
    (closed : h.Closed) (filled : ItemsFilled h label r 0 vs items) :
    (h.alloc (.slice t vs)).2.view (.ref h.size) = (Lit.slice t items).view := by
  funext p
  cases p with
  | nil => simp [Heap.view_nil, Heap.shape, Obj.shape, Lit.view, Lit.shape, filled.length]
  | cons s p =>
    rw [Heap.view_cons, Heap.child_ref (Heap.get?_alloc_new _)]
    cases step : (Obj.slice t vs).child s with
    | none =>
      cases s with
      | key k => simp [Lit.view, Lit.child]
      | idx i =>
        have outside : items[i]? = none := by
          rw [List.getElem?_eq_none_iff, ← filled.length]
          exact List.getElem?_eq_none_iff.1 step
        simp [Lit.view, Lit.child, outside]
    | some c =>
      obtain ⟨i, x, rfl, literal, below, view, _⟩ := filled.child step
      simp only [Lit.view, Lit.child, literal, Option.bind_some]
      rw [(Heap.grows_alloc (filled.below t)).view closed below, view]

mutual

/-- Allocating a literal only adds objects and yields the deep value it describes. -/
theorem alloc_placed : ∀ (x : Lit) (h : Heap), h.Closed → Placed h x.view (alloc x h).1 (alloc x h).2
  | .scalar s, h, closed => by
    refine ⟨Heap.Grows.refl h, closed, trivial, ?_, fun label r => ⟨label, SameBelow.refl _ _, ?_⟩⟩
    · funext p
      cases p with
      | nil => rfl
      | cons s p => rfl
    · exact LabelledAt.of_leaf (by simp [alloc])
  | .map t entries, h, closed => by
    have filledFor := fun label r => allocEntries_filled entries .empty .empty h label r closed
      (fun k => Or.inl ⟨rfl, rfl⟩)
    obtain ⟨grows, closed', label₀, _, filled₀⟩ := filledFor (fun _ => []) []
    simp only [alloc]
    refine ⟨grows.trans (Heap.grows_alloc (filled₀.below t)), closed'.alloc ((filled₀.below t).mono (Nat.le_succ _)), ?_, ?_, ?_⟩
    · simp [Val.Below]
    · exact filled₀.view closed'
    · intro label r
      obtain ⟨_, _, label₁, same, filled⟩ := filledFor label r
      exact ⟨_, same.trans (sameBelow_update _ label₁ r) grows.size_le,
        LabelledAt.alloc closed' (filled.below t) (filled.labelled t)⟩
  | .slice t items, h, closed => by
    have filledFor := fun label r => allocItems_filled items h label r 0 closed
    obtain ⟨grows, closed', label₀, _, filled₀⟩ := filledFor (fun _ => []) []
    have below := filled₀.below t
    simp only [alloc]
    refine ⟨grows.trans (Heap.grows_alloc below), closed'.alloc (below.mono (Nat.le_succ _)), ?_, ?_, ?_⟩
    · simp [Val.Below]
    · exact filled₀.view closed'
    · intro label r
      obtain ⟨_, _, label₁, same, filled⟩ := filledFor label r
      refine ⟨_, same.trans (sameBelow_update _ label₁ r) grows.size_le, LabelledAt.alloc closed' below ?_⟩
      intro s c step
      obtain ⟨_, _, _, _, _, _, labelled⟩ := filled.child step
      exact labelled

theorem allocEntries_filled : ∀ (entries : List (String × Lit)) (m : GoMap Val) (lits : GoMap Lit) (h : Heap)
    (label : Nat → Path) (r : Path), h.Closed → Filled h label r m lits →
    Heap.Grows h (allocEntries entries m h).2 ∧ (allocEntries entries m h).2.Closed ∧
      ∃ label', SameBelow h.size label label' ∧
        Filled (allocEntries entries m h).2 label' r (allocEntries entries m h).1
          (entries.foldl (fun m e => m.put e.1 e.2) lits)
  | [], m, lits, h, label, r, closed, filled => ⟨Heap.Grows.refl h, closed, label, SameBelow.refl _ _, filled⟩
  | (k, x) :: rest, m, lits, h, label, r, closed, filled => by
    have placed := alloc_placed x h closed
    obtain ⟨label₁, same₁, labelled⟩ := placed.labels label (r ++ [.key k])
    have filled₁ := (filled.grows closed placed.grows same₁).put placed.below placed.view labelled
    obtain ⟨grows, closed', label₂, same₂, filled₂⟩ :=
      allocEntries_filled rest _ _ _ label₁ r placed.closed filled₁
    exact ⟨placed.grows.trans grows, closed', label₂, same₁.trans same₂ placed.grows.size_le, filled₂⟩

theorem allocItems_filled : ∀ (items : List Lit) (h : Heap) (label : Nat → Path) (r : Path) (start : Nat), h.Closed →
    Heap.Grows h (allocItems items h).2 ∧ (allocItems items h).2.Closed ∧
      ∃ label', SameBelow h.size label label' ∧
        ItemsFilled (allocItems items h).2 label' r start (allocItems items h).1 items
  | [], h, label, r, start, closed =>
    ⟨Heap.Grows.refl h, closed, label, SameBelow.refl _ _, ⟨rfl, by simp⟩⟩
  | x :: rest, h, label, r, start, closed => by
    have placed := alloc_placed x h closed
    obtain ⟨label₁, same₁, labelled⟩ := placed.labels label (r ++ [.idx start])
    obtain ⟨grows, closed', label₂, same₂, filled⟩ := allocItems_filled rest _ label₁ r (start + 1) placed.closed
    refine ⟨placed.grows.trans grows, closed', label₂, same₁.trans same₂ placed.grows.size_le,
      ⟨by simp [allocItems, filled.length], ?_⟩⟩
    intro i v y stored literal
    cases i with
    | zero =>
      simp only [allocItems, List.getElem?_cons_zero, Option.some.injEq] at stored literal
      subst stored literal
      refine ⟨placed.below.mono grows.size_le, ?_, labelled.grows placed.closed grows same₂ placed.below⟩
      rw [allocItems, grows.view placed.closed placed.below, placed.view]
    | succ i =>
      simp only [allocItems, List.getElem?_cons_succ] at stored literal
      have item := filled.item i v y stored literal
      rwa [Nat.add_right_comm, Nat.add_assoc] at item

end

end Lit

end KubeKey.Go
