import KubeKey.Variable.Walk

/-!
# Walks that leave the store alone

Storing at a path of the context writes the deepest container on the path, if the
path has no value yet. The containers of the context are new where two layers meet
and the store's own where one layer provides them. `Spares base` says that no
container below `base` would be written; it is a property of the context before the
walk, and the walk keeps it (`StoreStep.spares`), so that the objects below `base`
are the same after it (`Stores.agree`).
-/

namespace KubeKey.Variable

open KubeKey.Go

/-- Storing at the path `q` of the context writes the container at `x`. -/
inductive Writes (h : Heap) (ctx : Val) (q : Path) (x : Nat) : Prop where
  /-- The path has no element below `x`. -/
  | missing {r t : Path} {s : Seg} {o : Obj} (split : q = r ++ s :: t) (reached : h.resolve ctx r = some (.ref x))
      (object : h.get? x = some o) (absent : isMissing o.elem (o.child s) = true)
  /-- The array below `x` is too short for the path. -/
  | short {r t : Path} {s : Seg} {i n : Nat} {o : Obj} {c : Val} (split : q = r ++ s :: .idx i :: t)
      (reached : h.resolve ctx r = some (.ref x)) (object : h.get? x = some o) (stored : o.child s = some c)
      (length : h.shape c = some (.slice n)) (few : n ≤ i)

/-- No container below `base` is written by storing at `q`. -/
def Spares (base : Nat) (h : Heap) (ctx : Val) (q : Path) : Prop := ∀ x, Writes h ctx q x → base ≤ x

/-- A path of one step ends in the context itself. -/
theorem spares_singleton {base : Nat} {h : Heap} {l : Nat} (new : base ≤ l) (s : Seg) : Spares base h (.ref l) [s] := by
  intro x written
  cases written with
  | @missing r t s' o split reached =>
    cases r with
    | nil =>
      cases reached
      exact new
    | cons s₀ r => simp at split
  | @short r t s' i n o c split =>
    have length := congrArg List.length split
    simp only [List.length_append, List.length_cons, List.length_nil] at length
    omega

theorem asSlice_length {h : Heap} {c : Val} {elem : GoType} {items : List Val}
    (slice : asSlice h c = some (elem, items)) : h.shape c = some (.slice items.length) := by
  cases c with
  | ref l => simp [Heap.shape, asSlice_ref slice, Obj.shape]
  | nilSlice t =>
    simp only [asSlice, Option.some.injEq, Prod.mk.injEq] at slice
    obtain ⟨_, rfl⟩ := slice
    rfl
  | scalar x => simp [asSlice] at slice
  | nilMap t => simp [asSlice] at slice

section Put
variable {ctx : Val} {q : Path} {w : Scalar} {h h' : Heap}

/-- A step changes one container at most, and one that storing at its path writes. -/
theorem Put.frame (put : Put ctx q w h h') :
    (∀ l < h.size, h'.get? l = h.get? l) ∨
      ∃ x, Writes h ctx q x ∧ ∀ l < h.size, l ≠ x → h'.get? l = h.get? l := by
  cases put with
  | @fill r s x o split reached object accepts missing =>
    exact Or.inr ⟨x, .missing split reached object missing, fun l _ other => Heap.get?_setChild_ne other _ _⟩
  | @create r t s n x o split reached object accepts missing =>
    refine Or.inr ⟨x, .missing split reached object missing, fun l old other => ?_⟩
    rw [Heap.get?_setChild_ne other, Heap.get?_alloc_old _ old]
  | @grow r t s i x o c elem items split reached object stored slice few =>
    refine Or.inr ⟨x, .short split reached object stored (asSlice_length slice) few, fun l old other => ?_⟩
    rw [Heap.get?_setChild_ne other, Heap.get?_alloc_old _ old]
  | discard below => exact Or.inl fun l old => Heap.get?_alloc_old _ old

theorem Put.agree (put : Put ctx q w h h') {base : Nat} (spares : Spares base h ctx q) (old : base ≤ h.size) :
    Heap.AgreeBelow base h h' := by
  rcases put.frame with same | ⟨x, written, same⟩
  · exact fun l bound => same l (Nat.lt_of_lt_of_le bound old)
  · intro l bound
    have above := spares x written
    exact same l (Nat.lt_of_lt_of_le bound old) (by omega)

/-- A new container is reached only through what it holds. -/
theorem resolve_attached {x : Nat} {s : Seg} {o : Obj} (new : h.size ≠ x) {p : Path} {l : Nat} (old : l < h.size)
    (reached : ((h.alloc o).2.setChild x s (.ref h.size)).resolve (.ref h.size) p = some (.ref l)) :
    ∃ s' d p', p = s' :: p' ∧ o.child s' = some d ∧
      ((h.alloc o).2.setChild x s (.ref h.size)).resolve d p' = some (.ref l) := by
  cases p with
  | nil =>
    cases reached
    exact absurd old (Nat.lt_irrefl _)
  | cons s' p' =>
    obtain ⟨d, step, rest⟩ := Option.bind_eq_some_iff.1 reached
    have object : ((h.alloc o).2.setChild x s (.ref h.size)).get? h.size = some o := by
      rw [Heap.get?_setChild_ne new, Heap.get?_alloc_new]
    rw [Heap.child_ref object] at step
    exact ⟨s', d, p', rfl, step, rest⟩

/-- A container that was there is reached where it was. -/
theorem Put.reflects (put : Put ctx q w h h') (sound : Sound h) {v : Val} (below : v.Below h.size) {p : Path} {l : Nat}
    (old : l < h.size) (reached : h'.resolve v p = some (.ref l)) : h.resolve v p = some (.ref l) := by
  cases put with
  | fill =>
    rcases Heap.resolve_setChild_cases reached with before | ⟨_, t, _, _, further⟩
    · exact before
    · cases t with
      | nil => cases further
      | cons s t => cases further
  | @create r t s n x o split start object accepts missing =>
    have childless : (newContainer n).Below h.size := fun s' c inside => by simp [newContainer_child] at inside
    rcases Heap.resolve_setChild_cases reached with before | ⟨_, t, _, _, further⟩
    · rwa [(Heap.grows_alloc childless).resolve sound.closed below] at before
    · obtain ⟨s', d, _, _, inside, _⟩ := resolve_attached (Nat.ne_of_gt (Heap.get?_lt object)) old further
      simp [newContainer_child] at inside
  | @grow r t s i x o c elem items split start object stored slice few =>
    have content := grown_below sound.closed (sound.closed x o object s c stored) slice i
    have grows := Heap.grows_alloc content
    -- a path through the copy took the array before
    induction hn : p.length using Nat.strong_induction_on generalizing v p with
    | _ n ih =>
      rcases Heap.resolve_setChild_cases reached with before | ⟨r', t', rfl, start', further⟩
      · rwa [grows.resolve sound.closed below] at before
      · rw [grows.resolve sound.closed below] at start'
        obtain ⟨s', d, p', rfl, inside, rest⟩ :=
          resolve_attached (Nat.ne_of_gt (Heap.get?_lt object)) old further
        have shorter : p'.length < n := by
          rw [← hn]
          simp only [List.length_append, List.length_cons]
          omega
        have earlier := ih p'.length shorter (content s' d inside) rest rfl
        have item : h.child c s' = some d := by
          cases s' with
          | key k => simp [grown, Obj.child] at inside
          | idx j =>
            rw [← asSlice_item slice]
            cases d with
            | ref m =>
              obtain ⟨j', same, found⟩ := grown_child_ref inside
              cases same
              exact found
            | _ => cases p' <;> cases rest
        rw [Heap.resolve_append, start', Option.bind_some, Heap.resolve_cons, Heap.child_ref object, stored,
          Option.bind_some, Heap.resolve_cons, item]
        exact earlier
  | discard below' =>
    rwa [(Heap.grows_alloc below').resolve sound.closed below] at reached

/-- What a step leaves to be written at another path was to be written before. -/
theorem Put.spares (put : Put ctx q w h h') (storable : Storable h ctx) {base : Nat} (old : base ≤ h.size)
    (here : Spares base h ctx q) {q' : Path} (there : Spares base h ctx q') : Spares base h' ctx q' := by
  intro x written
  by_cases new : h.size ≤ x
  · omega
  have inside : x < h.size := Nat.not_le.1 new
  -- the object at `x` is the one that the step wrote, or the same as before
  have object : base ≤ x ∨ h'.get? x = h.get? x := by
    rcases put.frame with same | ⟨x', written', same⟩
    · exact Or.inr (same x inside)
    · by_cases equal : x = x'
      · exact Or.inl (equal ▸ here x' written')
      · exact Or.inr (same x inside equal)
  rcases object with above | same
  · exact above
  cases written with
  | missing split reached object absent =>
    rw [same] at object
    exact there x (.missing split (put.reflects storable.toSound storable.below inside reached) object absent)
  | @short r t s i n o c split reached object stored length few =>
    rw [same] at object
    rw [put.shape (storable.closed x o object s c stored)] at length
    exact there x (.short split (put.reflects storable.toSound storable.below inside reached) object stored length few)

end Put

/-- A walk over scalars whose paths spare the objects below `base` leaves them as they are. -/
theorem Stores.agree {ctx : Val} {leaves : List (Path × String)} {h h' : Heap} (stores : Stores ctx leaves h h')
    (storable : Storable h ctx) {base : Nat} (old : base ≤ h.size) (spares : ∀ e ∈ leaves, Spares base h ctx e.1) :
    Heap.AgreeBelow base h h' := by
  suffices Heap.AgreeBelow base h h' ∧ base ≤ h'.size ∧ Storable h' ctx ∧ ∀ e ∈ leaves, Spares base h' ctx e.1 from
    this.1
  induction stores with
  | refl => exact ⟨Heap.AgreeBelow.refl _ _, old, storable, spares⟩
  | tail _ step ih =>
    obtain ⟨agree, size, storable₁, spares₁⟩ := ih
    obtain ⟨q, tag, v, member, _, put⟩ := step
    have here := spares₁ (q, tag) member
    exact ⟨agree.trans (put.agree here size), Nat.le_trans size put.size_le, put.storable storable₁,
      fun e inside => put.spares storable₁ size here (spares₁ e inside)⟩

end KubeKey.Variable
