import KubeKey.Variable.Context
import KubeKey.Variable.Merge
import KubeKey.Variable.Walk

/-!
# The invariant of the variable store

The maps of a store share containers with each other, with the copy that a merge
works on and with the context of a rendering. All of them, the roots, stay in
order through every operation: nothing dangles, nothing is cyclic, and a container
that two roots share has the same path in both (`Tidy`). Writes into the context
keep this even where they go into the containers of the store.
-/

namespace KubeKey.Variable

open KubeKey.Go

/-- The roots are maps of a heap without cycles, and shared containers have one path. -/
structure Tidy (roots : Val → Prop) (h : Heap) : Prop extends Sound h where
  below : ∀ v, roots v → v.Below h.size
  map : ∀ v, roots v → h.shape v = some .map
  labelled : ∃ label, Labelled (fun v _ => roots v) label h

/-- The maps of some hosts. -/
def hostRoots (hosts : GoMap HostVars) (v : Val) : Prop :=
  ∃ name hv, hosts.get? name = some hv ∧ (v = hv.remoteVars ∨ v = hv.runtimeVars)

/-- The maps a value holds. The nil map stands in for a missing one. -/
def Value.roots (val : Value) (v : Val) : Prop := v = .nilMap .any ∨ v = val.result ∨ hostRoots val.hosts v

section Labels
variable {counts : Val → Path → Prop} {label : Nat → Path} {ctx : Val} {q : Path} {w : Scalar} {h h' : Heap}

/-- The items of an array at a labelled place. -/
theorem labelled_item (labelled : Labelled counts label h) (places : Places counts) {v c : Val} {r t : Path} {s : Seg}
    {x : Nat} {o : Obj} (here : counts v (r ++ s :: t)) (start : h.resolve v r = some (.ref x))
    (object : h.get? x = some o) (stored : o.child s = some c) (j : Nat) {d : Val}
    (item : h.child c (.idx j) = some d) : LabelledAt label h d (r ++ [s, .idx j]) := by
  have parent : counts v (r ++ [s]) := places.start v (r ++ [s]) t (by simpa using here)
  have reached : h.resolve v (r ++ [s, .idx j]) = some d := by
    rw [Heap.resolve_append, start, Option.bind_some, Heap.resolve_cons, Heap.child_ref object, stored]
    simp [Heap.resolve_cons, item]
  intro p l further
  have whole : h.resolve v (r ++ [s, .idx j] ++ p) = some (.ref l) := by
    rw [Heap.resolve_append, reached]
    exact further
  refine labelled v (r ++ [s, .idx j] ++ p) l ?_ whole
  cases r with
  | nil => simpa using places.extend v s [] (.idx j :: p) parent
  | cons s₀ r => simpa using places.extend v s₀ (r ++ [s]) (.idx j :: p) parent

/-- A step keeps the labels and gives one to a new container. -/
theorem Put.labelled (put : Put ctx q w h h') (sound : Sound h) (labelled : Labelled counts label h)
    (places : Places counts) (roots : ∀ v p, counts v p → v.Below h.size) :
    ∃ label', SameBelow h.size label label' ∧ Labelled counts label' h' := by
  cases put with
  | fill => exact ⟨label, SameBelow.refl _ _, labelled.setChild places fun _ _ _ _ _ => LabelledAt.of_leaf (by simp)⟩
  | @create r t s n x o =>
    have childless : (newContainer n).Below h.size := fun s' c inside => by simp [newContainer_child] at inside
    refine ⟨_, sameBelow_update _ _ _, labelled.attach places sound.closed roots childless ?_⟩
    intro _ _ _ _ _ s' c inside
    simp [newContainer_child] at inside
  | @grow r t s i x o c elem items split reached object stored slice =>
    have below := grown_below sound.closed (sound.closed x o object s c stored) slice i
    refine ⟨_, sameBelow_update _ _ _, labelled.attach places sound.closed roots below ?_⟩
    intro v r' q' here start s' d inside
    cases d with
    | ref l =>
      obtain ⟨j, rfl, item⟩ := grown_child_ref inside
      rw [asSlice_item slice] at item
      exact labelled_item labelled places here start object stored j item
    | _ => exact LabelledAt.of_leaf (by simp)
  | discard below =>
    exact ⟨label, SameBelow.refl _ _, labelled.grows sound.closed (Heap.grows_alloc below) (SameBelow.refl _ _) roots⟩

end Labels

theorem places_roots (roots : Val → Prop) : Places fun v (_ : Path) => roots v :=
  ⟨fun _ _ _ here => here, fun _ _ _ _ here => here⟩

namespace Tidy
variable {roots roots' : Val → Prop} {h h' : Heap}

theorem mono (tidy : Tidy roots h) (fewer : ∀ v, roots' v → roots v) : Tidy roots' h where
  toSound := tidy.toSound
  below := fun v root => tidy.below v (fewer v root)
  map := fun v root => tidy.map v (fewer v root)
  labelled := by
    obtain ⟨label, labelled⟩ := tidy.labelled
    exact ⟨label, labelled.mono fun v _ root => fewer v root⟩

theorem grows (tidy : Tidy roots h) (grows : Heap.Grows h h') (closed : h'.Closed) : Tidy roots h' where
  closed := closed
  acyclic := tidy.acyclic.grows tidy.closed grows
  below := fun v root => (tidy.below v root).mono grows.size_le
  map := fun v root => (Heap.shape_agree grows.agree (tidy.below v root)).trans (tidy.map v root)
  labelled := by
    obtain ⟨label, labelled⟩ := tidy.labelled
    exact ⟨label, labelled.grows tidy.closed grows (SameBelow.refl _ _) fun v _ root => tidy.below v root⟩

theorem put {ctx : Val} {q : Path} {w : Scalar} (tidy : Tidy roots h) (put : Put ctx q w h h') : Tidy roots h' where
  toSound := put.sound tidy.toSound
  below := fun v root => (tidy.below v root).mono put.size_le
  map := fun v root => (put.shape (tidy.below v root)).trans (tidy.map v root)
  labelled := by
    obtain ⟨label, labelled⟩ := tidy.labelled
    obtain ⟨label', _, labelled'⟩ := put.labelled tidy.toSound labelled (places_roots roots)
      fun v _ root => tidy.below v root
    exact ⟨label', labelled'⟩

theorem stores {ctx : Val} {leaves : List (Path × String)} (tidy : Tidy roots h) (stores : Stores ctx leaves h h') :
    Tidy roots h' := by
  induction stores with
  | refl => exact tidy
  | tail _ step ih =>
    obtain ⟨_, _, _, _, _, put⟩ := step
    exact ih.put put

/-- One more root, which extends the labels of the others. -/
theorem insert {v : Val} (tidy : Tidy roots h) (grows : Heap.Grows h h') (closed : h'.Closed) (below : v.Below h'.size)
    (map : h'.shape v = some .map)
    (labels : ∀ label, Labelled (fun v _ => roots v) label h →
      ∃ label', SameBelow h.size label label' ∧ LabelledAt label' h' v []) :
    Tidy (fun u => roots u ∨ u = v) h' where
  closed := closed
  acyclic := tidy.acyclic.grows tidy.closed grows
  below := by
    rintro u (root | rfl)
    · exact (tidy.below u root).mono grows.size_le
    · exact below
  map := by
    rintro u (root | rfl)
    · exact (Heap.shape_agree grows.agree (tidy.below u root)).trans (tidy.map u root)
    · exact map
  labelled := by
    obtain ⟨label, labelled⟩ := tidy.labelled
    obtain ⟨label', same, new⟩ := labels label labelled
    refine ⟨label', ?_⟩
    rintro u p l (root | rfl) reached
    · exact labelled.grows tidy.closed grows same (fun v _ root => tidy.below v root) u p l root reached
    · simpa using new p l reached

theorem labelledAt {v : Val} {label : Nat → Path} (labelled : Labelled (fun v _ => roots v) label h) (root : roots v) :
    LabelledAt label h v [] :=
  fun p l reached => by simpa using labelled v p l root reached

/-- A decoded document as a new root. -/
theorem placed {v : Val} {w : DeepView} (tidy : Tidy roots h) (placed : Placed h w v h') (map : w [] = some .map) :
    Tidy (fun u => roots u ∨ u = v) h' := by
  refine tidy.insert placed.grows placed.closed placed.below ?_ fun label _ => placed.labels label []
  rw [← map, ← placed.view]
  rfl

/-- The merge of two roots always returns, and is a new root. -/
theorem combine {m1 m2 : Val} (tidy : Tidy roots h) (first : roots m1) (second : roots m2) :
    ∃ l h', combineVariables m1 m2 h = some (.ref l, h') ∧ CombinedTop h m1 m2 l h' ∧
      Tidy (fun u => roots u ∨ u = .ref l) h' := by
  have depth : DepthLt h m2 h.size := fun _ _ reached =>
    tidy.acyclic.length_lt tidy.closed (tidy.below m2 second) reached
  have map1 := isMap_iff_shape.2 (tidy.map m1 first)
  have map2 := isMap_iff_shape.2 (tidy.map m2 second)
  obtain ⟨⟨v, h'⟩, run⟩ := Option.isSome_iff_exists.1
    (combineVariables_isSome tidy.closed (tidy.below m1 first) (tidy.below m2 second) map1 map2 depth)
  obtain ⟨l, rfl, combined⟩ := combineVariables_combined tidy.closed (tidy.below m1 first) (tidy.below m2 second)
    map1 map2 run
  refine ⟨l, h', run, combined, tidy.insert combined.grows combined.closed combined.below ?_ fun label labelled => ?_⟩
  · have root : h'.view (.ref l) [] = some .map := by
      rw [combined.view]
      exact overlay_root (tidy.map m2 second)
    exact root
  · exact combined.labels label [] (labelledAt labelled first) (labelledAt labelled second)

theorem hostOk (tidy : Tidy roots h) {hv : HostVars} (remote : roots hv.remoteVars) (runtime : roots hv.runtimeVars) :
    hv.Ok h where
  remoteBelow := tidy.below _ remote
  remoteMap := isMap_iff_shape.2 (tidy.map _ remote)
  runtimeBelow := tidy.below _ runtime
  runtimeMap := isMap_iff_shape.2 (tidy.map _ runtime)

theorem valueOk {val : Value} (tidy : Tidy roots h) (own : ∀ v, val.roots v → roots v)
    (expands : (convertGroup val.inventory).isSome) : val.Ok h where
  closed := tidy.closed
  acyclic := tidy.acyclic
  hosts := fun name hv known => tidy.hostOk (own _ (Or.inr (Or.inr ⟨name, hv, known, Or.inl rfl⟩)))
    (own _ (Or.inr (Or.inr ⟨name, hv, known, Or.inr rfl⟩)))
  resultBelow := tidy.below _ (own _ (Or.inr (Or.inl rfl)))
  resultMap := isMap_iff_shape.2 (tidy.map _ (own _ (Or.inr (Or.inl rfl))))
  expands := expands

end Tidy

end KubeKey.Variable
