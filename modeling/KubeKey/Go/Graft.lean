import KubeKey.Go.Label

/-!
# Writes into shared containers

A write to one child of a container is seen from every value that holds the
container. When the containers are labelled by their paths, it is seen at one
path only, and hanging a new container below an old one keeps the labelling
(`Labelled.attach`).

What has to be labelled is given by `counts`: the roots, each with the paths
that matter below it.
-/

namespace KubeKey.Go

namespace Heap
variable {h : Heap} {l : Nat} {s : Seg} {w : Val}

/-- A path after a write: it is as before, or it takes the written child and goes on below the new value. -/
theorem resolve_setChild_cases {v c : Val} {p : Path} (reached : (h.setChild l s w).resolve v p = some c) :
    h.resolve v p = some c ∨
      ∃ r q, p = r ++ s :: q ∧ h.resolve v r = some (.ref l) ∧ (h.setChild l s w).resolve w q = some c := by
  induction p generalizing v with
  | nil => exact Or.inl reached
  | cons s' p ih =>
    obtain ⟨d, step, rest⟩ := Option.bind_eq_some_iff.1 reached
    by_cases here : v = .ref l ∧ s' = s
    · obtain ⟨rfl, rfl⟩ := here
      cases found : h.get? l with
      | none => simp [child, deref, setChild, found] at step
      | some o =>
        cases ok : o.accepts s' with
        | true =>
          rw [child_setChild_self found ok] at step
          cases step
          exact Or.inr ⟨[], p, rfl, rfl, rest⟩
        | false =>
          have same : h.setChild l s' w = h := by
            simp only [setChild, found, Obj.setChild_of_not_accepts ok]
            obtain ⟨bound, inside⟩ := List.getElem?_eq_some_iff.1 found
            simp only [set, ← inside, List.set_getElem_self]
          rw [same] at reached
          exact Or.inl reached
    · rw [child_setChild_ne fun start same => here ⟨start, same⟩] at step
      rcases ih rest with before | ⟨r, q, split, start, below⟩
      · exact Or.inl (by rw [resolve_cons, step]; exact before)
      · refine Or.inr ⟨s' :: r, q, by simp [split], ?_, below⟩
        rw [resolve_cons, step]
        exact start

/-- What is seen through the written child, of a path that does not pass the container before. -/
theorem view_setChild_through {v : Val} {r : Path} (only : ∀ r' t, r = r' ++ t → h.resolve v r' = some (.ref l) → r' = r)
    (reached : h.resolve v r = some (.ref l)) {o : Obj} (object : h.get? l = some o) (ok : o.accepts s = true)
    (p : Path) : (h.setChild l s w).view v (r ++ s :: p) = (h.setChild l s w).view w p := by
  have start : (h.setChild l s w).resolve v r = some (.ref l) := by
    rw [resolve_setChild_of_avoids, reached]
    intro r' q split again
    have same := only r' (s :: q) split again
    have length := congrArg List.length split
    rw [same, List.length_append, List.length_cons] at length
    omega
  rw [view_append start, view_cons, child_setChild_self object ok]
  rfl

/-- What is seen at a path after a write: the same, or what the written child has. -/
theorem view_setChild_at {v : Val} {r p : Path} (only : ∀ r' t, p = r' ++ t → h.resolve v r' = some (.ref l) → r' = r)
    {o : Obj} (object : h.get? l = some o) (ok : o.accepts s = true) :
    (h.setChild l s w).view v p = h.view v p ∨
      ∃ p', p = r ++ s :: p' ∧ h.resolve v r = some (.ref l) ∧
        (h.setChild l s w).view v p = (h.setChild l s w).view w p' := by
  by_cases through : ∃ r' q, p = r' ++ s :: q ∧ h.resolve v r' = some (.ref l)
  · obtain ⟨r', q, rfl, reached⟩ := through
    obtain rfl := only r' (s :: q) rfl reached
    refine Or.inr ⟨q, rfl, reached, view_setChild_through (fun r₁ t split again => ?_) reached object ok q⟩
    exact only r₁ (t ++ s :: q) (by rw [split]; simp) again
  · exact Or.inl (view_setChild_of_avoids fun r' q split reached => through ⟨r', q, split, reached⟩)

/-- The same for a value that holds the container at one path only. -/
theorem view_setChild_cases {v : Val} {r : Path} (only : ∀ p, h.resolve v p = some (.ref l) → p = r) {o : Obj}
    (object : h.get? l = some o) (ok : o.accepts s = true) (p : Path) :
    (h.setChild l s w).view v p = h.view v p ∨
      ∃ p', p = r ++ s :: p' ∧ h.resolve v r = some (.ref l) ∧
        (h.setChild l s w).view v p = (h.setChild l s w).view w p' :=
  view_setChild_at (fun r' _ _ => only r') object ok

end Heap

/-- The paths that count below a root: with a path its prefixes, and everything below its first step. -/
structure Places (counts : Val → Path → Prop) : Prop where
  start : ∀ v p q, counts v (p ++ q) → counts v p
  extend : ∀ v s p q, counts v (s :: p) → counts v (s :: p ++ q)

/-- The containers found from the roots at paths that count have these paths as labels. -/
def Labelled (counts : Val → Path → Prop) (label : Nat → Path) (h : Heap) : Prop :=
  ∀ v p l, counts v p → h.resolve v p = some (.ref l) → label l = p

namespace Labelled
variable {counts : Val → Path → Prop} {label label' : Nat → Path} {h h' : Heap}

theorem mono {counts' : Val → Path → Prop} (labelled : Labelled counts label h)
    (fewer : ∀ v p, counts' v p → counts v p) : Labelled counts' label h :=
  fun v p l here => labelled v p l (fewer v p here)

theorem agree {b : Nat} (labelled : Labelled counts label h) (closed : h.ClosedBelow b)
    (heaps : Heap.AgreeBelow b h h') (labels : SameBelow b label label')
    (below : ∀ v p, counts v p → v.Below b) : Labelled counts label' h' := by
  intro v p l here reached
  rw [Heap.resolve_agree closed heaps (below v p here)] at reached
  rw [labels l (Heap.resolve_below closed (below v p here) reached)]
  exact labelled v p l here reached

theorem grows (labelled : Labelled counts label h) (closed : h.Closed) (grows : Heap.Grows h h')
    (labels : SameBelow h.size label label') (below : ∀ v p, counts v p → v.Below h.size) :
    Labelled counts label' h' :=
  labelled.agree closed.below grows.agree labels below

section Write
variable {x : Nat} {s : Seg} {w : Val}

/-- A written value that is labelled for its new place does not reach the container it is written into. -/
theorem resolve_written {r : Path} (own : label x = r) (value : LabelledAt label h w (r ++ [s])) {q : Path} {c : Val}
    (reached : (h.setChild x s w).resolve w q = some c) : h.resolve w q = some c := by
  rcases Heap.resolve_setChild_cases reached with before | ⟨r', q', _, loop, _⟩
  · exact before
  · have twice := value r' x loop
    rw [own] at twice
    have length := congrArg List.length twice
    simp only [List.length_append, List.length_singleton] at length
    omega

/-- Storing a value that is labelled for the place it is stored at. -/
theorem setChild (labelled : Labelled counts label h) (places : Places counts)
    (value : ∀ v r q, counts v (r ++ s :: q) → h.resolve v r = some (.ref x) → LabelledAt label h w (r ++ [s])) :
    Labelled counts label (h.setChild x s w) := by
  intro v p l here reached
  rcases Heap.resolve_setChild_cases reached with before | ⟨r, q, rfl, start, below⟩
  · exact labelled v p l here before
  · have own := labelled v r x (places.start v r (s :: q) here) start
    have stored := value v r q here start
    have old := resolve_written own stored below
    simpa using stored q l old

/-- Hanging a new container below an old one. -/
theorem attach (labelled : Labelled counts label h) (places : Places counts) (closed : h.Closed)
    (roots : ∀ v p, counts v p → v.Below h.size) {o : Obj} (below : o.Below h.size)
    (children : ∀ v r q, counts v (r ++ s :: q) → h.resolve v r = some (.ref x) →
      ∀ s' c, o.child s' = some c → LabelledAt label h c (r ++ [s, s'])) :
    Labelled counts (Function.update label h.size (label x ++ [s])) ((h.alloc o).2.setChild x s (.ref h.size)) := by
  have grown := Heap.grows_alloc below
  have wider : Labelled counts (Function.update label h.size (label x ++ [s])) (h.alloc o).2 :=
    labelled.grows closed grown (sameBelow_update _ _ _) roots
  refine wider.setChild places ?_
  intro v r q here start
  rw [grown.resolve closed (roots v _ here)] at start
  have own := labelled v r x (places.start v r (s :: q) here) start
  rw [own]
  refine LabelledAt.alloc closed below ?_
  intro s' c inside
  simpa using children v r q here start s' c inside

end Write

end Labelled

end KubeKey.Go
