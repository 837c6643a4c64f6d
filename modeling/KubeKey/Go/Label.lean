import Mathlib.Logic.Function.Basic
import KubeKey.Go.Frame

/-!
# Containers labelled by their path

A value is labelled when every container in it is found at one path only, the
path its label says. Labelled values have no cycle and no container at two
places; values labelled by one labelling may share containers, each at the
same path in all of them. This is the sharing that merging creates: a merge
copies the spine and keeps the references below it where they were.
-/

namespace KubeKey.Go

/-- Every container of `v`, itself placed at `r`, is found at the path its label says. -/
def LabelledAt (label : Nat → Path) (h : Heap) (v : Val) (r : Path) : Prop :=
  ∀ p l, h.resolve v p = some (.ref l) → label l = r ++ p

/-- Two labellings that agree below `b`. -/
def SameBelow (b : Nat) (label label' : Nat → Path) : Prop := ∀ l < b, label' l = label l

theorem SameBelow.refl (b : Nat) (label : Nat → Path) : SameBelow b label label := fun _ _ => rfl

theorem SameBelow.trans {b b' : Nat} {f g k : Nat → Path} (first : SameBelow b f g) (second : SameBelow b' g k)
    (le : b ≤ b') : SameBelow b f k :=
  fun l bound => (second l (Nat.lt_of_lt_of_le bound le)).trans (first l bound)

theorem sameBelow_update (b : Nat) (label : Nat → Path) (r : Path) :
    SameBelow b label (Function.update label b r) :=
  fun _ bound => Function.update_of_ne (Nat.ne_of_lt bound) r label

namespace LabelledAt
variable {label label' : Nat → Path} {h h' : Heap} {v : Val} {r : Path}

theorem child (labelled : LabelledAt label h v r) {s : Seg} {c : Val} (step : h.child v s = some c) :
    LabelledAt label h c (r ++ [s]) := by
  intro p l reached
  have whole : h.resolve v (s :: p) = some (.ref l) := by rw [Heap.resolve_cons, step]; exact reached
  simpa using labelled (s :: p) l whole

theorem agree {b : Nat} (labelled : LabelledAt label h v r) (closed : h.ClosedBelow b)
    (heaps : Heap.AgreeBelow b h h') (labels : SameBelow b label label') (below : v.Below b) :
    LabelledAt label' h' v r := by
  intro p l reached
  rw [Heap.resolve_agree closed heaps below] at reached
  have bound : l < b := Heap.resolve_below closed below reached
  rw [labels l bound]
  exact labelled p l reached

theorem grows (labelled : LabelledAt label h v r) (closed : h.Closed) (grows : Heap.Grows h h')
    (labels : SameBelow h.size label label') (below : v.Below h.size) : LabelledAt label' h' v r :=
  labelled.agree closed.below grows.agree labels below

/-- Anything that is not a container is labelled. -/
theorem of_leaf (leaf : ∀ l, v ≠ .ref l) : LabelledAt label h v r := by
  intro p l reached
  cases p with
  | nil =>
    cases reached
    exact absurd rfl (leaf l)
  | cons s p =>
    obtain ⟨c, step, _⟩ := Option.bind_eq_some_iff.1 reached
    obtain ⟨l', _, same, _⟩ := Heap.child_eq_some step
    exact absurd same (leaf l')

/-- A new container whose children are labelled for their places. -/
theorem alloc {o : Obj} (closed : h.Closed) (below : o.Below h.size)
    (children : ∀ s c, o.child s = some c → LabelledAt label h c (r ++ [s])) :
    LabelledAt (Function.update label h.size r) (h.alloc o).2 (.ref h.size) r := by
  intro p l reached
  cases p with
  | nil =>
    cases reached
    simp
  | cons s p =>
    obtain ⟨c, step, rest⟩ := Option.bind_eq_some_iff.1 reached
    rw [Heap.child_ref (Heap.get?_alloc_new o)] at step
    have child := (children s c step).grows closed (Heap.grows_alloc below)
      (sameBelow_update h.size label r) (below s c step)
    simpa using child p l rest

end LabelledAt

end KubeKey.Go
