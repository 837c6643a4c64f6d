import KubeKey.Go.Literal

/-!
# `CombineVariables`

`pkg/variable/helper.go`. The merge copies the spine where both sides are maps
and keeps the references of everything else, so the result shares containers
with both arguments. The recursion follows the containers of the arguments; it
is given one unit of fuel for each object of the heap, which is enough for any
value without cycles (`combineVal_isSome`).
-/

namespace KubeKey.Variable

open KubeKey.Go

/-- The entries of a value of kind map. -/
def asMap (h : Heap) : Val → Option (GoMap Val)
  | .nilMap _ => some .empty
  | .ref l => match h.get? l with
    | some (.map _ m) => some m
    | _ => none
  | _ => none

/-- `mergedVars[k] = f(mergedVars[k], v)`. -/
def combineEntry (f : Val → Val → Heap → Option (Val × Heap)) (acc : GoMap Val × Heap) (e : String × Val) :
    Option (GoMap Val × Heap) := do
  let (v, h) ← f ((acc.1.get? e.1).getD .null) e.2 acc.2
  some (acc.1.put e.1 v, h)

/-- The closure `f` of `CombineVariables`. -/
def combineVal : Nat → Val → Val → Heap → Option (Val × Heap)
  | 0, _, _, _ => none
  | fuel + 1, val1, val2, h =>
    match asMap h val1, asMap h val2 with
    | some m1, some m2 => do
      let (mergedVars, h) ← m2.entries.foldlM (combineEntry (combineVal fuel)) (m1, h)
      let (l, h) := h.alloc (.map .any mergedVars)
      some (.ref l, h)
    | _, _ => some (val2, h)

/-- `CombineVariables(m1, m2)`: a new map, `m2` over `m1`. -/
def combineVariables (m1 m2 : Val) (h : Heap) : Option (Val × Heap) := do
  let (mv, h') ← ((asMap h m2).getD .empty).entries.foldlM (combineEntry (combineVal (h.size + 1)))
    ((asMap h m1).getD .empty, h)
  let (l, h') := h'.alloc (.map .any mv)
  some (.ref l, h')

/-- The deep merge, `b` over `a`. -/
abbrev overlay (a b : DeepView) : DeepView := View.overlay Shape.opens a b

/-- What an entry of the lower map contributes under a key. -/
def entryView (h : Heap) (m : GoMap Val) (k : String) : DeepView :=
  match m.get? k with
  | some v => h.view v
  | none => fun _ => none

/-- The outcome of merging `v2` over `v1`. -/
structure Combined (h : Heap) (v1 v2 v : Val) (h' : Heap) : Prop where
  grows : Heap.Grows h h'
  closed : h'.Closed
  below : v.Below h'.size
  view : h'.view v = overlay (h.view v1) (h.view v2)
  labels : ∀ label r, LabelledAt label h v1 r → LabelledAt label h v2 r →
    ∃ label', SameBelow h.size label label' ∧ LabelledAt label' h' v r

/-- The entries of `m` under the keys `P` are labelled for their places below `r`. -/
def EntriesLabelled (P : String → Prop) (label : Nat → Path) (h : Heap) (r : Path) (m : GoMap Val) : Prop :=
  ∀ k v, P k → m.get? k = some v → LabelledAt label h v (r ++ [.key k])

/-- The accumulator of the merging loop after the entries `done` of the upper map. -/
structure Folded (h : Heap) (m1 m2 : GoMap Val) (done : List (String × Val)) (m : GoMap Val) (h' : Heap) : Prop where
  grows : Heap.Grows h h'
  closed : h'.Closed
  kept : ∀ k, done.lookup k = none → m.get? k = m1.get? k
  merged : ∀ k v2, done.lookup k = some v2 →
    ∃ v, m.get? k = some v ∧ v.Below h'.size ∧ h'.view v = overlay (entryView h m1 k) (h.view v2)
  labels : ∀ P label r, EntriesLabelled P label h r m1 → EntriesLabelled P label h r m2 →
    ∃ label', SameBelow h.size label label' ∧ EntriesLabelled P label' h' r m

theorem asMap_child {h : Heap} {v : Val} {m : GoMap Val} (map : asMap h v = some m) (k : String) :
    h.child v (.key k) = m.get? k := by
  unfold asMap at map
  split at map
  · cases map
    rfl
  · split at map
    · next found =>
      cases map
      simp [Heap.child, Heap.deref, found, Obj.child]
    · cases map
  · cases map

theorem asMap_child_idx {h : Heap} {v : Val} {m : GoMap Val} (map : asMap h v = some m) (i : Nat) :
    h.child v (.idx i) = none := by
  unfold asMap at map
  split at map
  · rfl
  · split at map
    · next found => simp [Heap.child, Heap.deref, found, Obj.child]
    · cases map
  · cases map

theorem asMap_shape {h : Heap} {v : Val} {m : GoMap Val} (map : asMap h v = some m) :
    h.shape v = some .map := by
  unfold asMap at map
  split at map
  · rfl
  · split at map
    · next found => simp [Heap.shape, found, Obj.shape]
    · cases map
  · cases map

theorem shape_ne_map_of_asMap {h : Heap} {v : Val} (other : asMap h v = none) : h.shape v ≠ some .map := by
  cases v with
  | scalar s => simp [Heap.shape]
  | nilMap t => simp [asMap] at other
  | nilSlice t => simp [Heap.shape]
  | ref l =>
    simp only [asMap] at other
    split at other
    · cases other
    · next found =>
      cases stored : h.get? l with
      | none => simp [Heap.shape, stored]
      | some o =>
        cases o with
        | map t m => exact absurd stored (found t m)
        | slice t xs => simp [Heap.shape, stored, Obj.shape]

theorem entryView_eq_sub {h : Heap} {v : Val} {m : GoMap Val} (map : asMap h v = some m) (k : String) :
    entryView h m k = (h.view v).sub (.key k) := by
  unfold entryView
  cases stored : m.get? k with
  | some c => rw [Heap.sub_view ((asMap_child map k).trans stored)]
  | none => rw [Heap.sub_view_none ((asMap_child map k).trans stored)]

theorem asMap_below {h : Heap} (closed : h.Closed) {v : Val} (below : v.Below h.size) {m : GoMap Val}
    (map : asMap h v = some m) {k : String} {c : Val} (stored : m.get? k = some c) : c.Below h.size :=
  Heap.child_below closed.below below ((asMap_child map k).trans stored)

theorem asMap_labelled {h : Heap} {label : Nat → Path} {v : Val} {r : Path} (labelled : LabelledAt label h v r)
    {m : GoMap Val} (map : asMap h v = some m) (P : String → Prop) : EntriesLabelled P label h r m :=
  fun k _ _ stored => labelled.child ((asMap_child map k).trans stored)

theorem overlay_none_left {b : DeepView} (closed : b.PrefixClosed) : overlay (fun _ => none) b = b := by
  funext p
  by_cases decided : b.decides Shape.opens p = true
  · exact View.overlay_of_decides decided
  · rw [overlay, View.overlay_of_not_decides (by simpa using decided),
      View.none_of_not_decides closed (by simpa using decided)]

theorem sub_overlay_key {a b : DeepView} (root : b [] = some .map) (k : String) :
    (overlay a b).sub (.key k) = overlay (a.sub (.key k)) (b.sub (.key k)) :=
  View.sub_overlay root rfl

theorem shape_isSome {h : Heap} {v : Val} (below : v.Below h.size) : ∃ s, h.shape v = some s := by
  cases v with
  | ref l =>
    obtain ⟨o, found⟩ := Heap.get?_isSome_of_lt below
    exact ⟨o.shape, by simp [Heap.shape, found]⟩
  | scalar s => exact ⟨_, rfl⟩
  | nilMap t => exact ⟨_, rfl⟩
  | nilSlice t => exact ⟨_, rfl⟩

/-- Where the lower value is not a map, or the upper one is not, the upper one stays as it is. -/
theorem overlay_not_both {h : Heap} {v1 v2 : Val} (below : v2.Below h.size)
    (other : asMap h v1 = none ∨ asMap h v2 = none) : overlay (h.view v1) (h.view v2) = h.view v2 := by
  have closed := Heap.view_prefixClosed h v2
  obtain ⟨s, root⟩ := shape_isSome below
  funext p
  by_cases decided : (h.view v2).decides Shape.opens p = true
  · exact View.overlay_of_decides decided
  have undecided : (h.view v2).decides Shape.opens p = false := by simpa using decided
  rw [overlay, View.overlay_of_not_decides undecided, View.none_of_not_decides closed undecided]
  cases p with
  | nil => simp [View.decides, Heap.view_nil, root] at undecided
  | cons k p =>
    -- an undecided path leaves the upper value at a map key, where the lower one has nothing
    have isOpen : s.opens k = true := by
      by_contra shut
      rw [View.decides_cons_shut (a := h.view v2) root (by simpa using shut)] at undecided
      cases undecided
    obtain ⟨key, rfl⟩ : ∃ key, k = .key key := by cases k <;> cases s <;> simp [Shape.opens] at isOpen ⊢
    have upper : s = .map := by cases s <;> simp [Shape.opens] at isOpen ⊢
    rcases other with lower | notMap
    · have step : h.child v1 (.key key) = none := by
        cases found : h.child v1 (.key key) with
        | none => rfl
        | some c =>
          obtain ⟨l, o, rfl, object, inside⟩ := Heap.child_eq_some found
          cases o with
          | map t m => simp [asMap, object] at lower
          | slice t xs => simp [Obj.child] at inside
      rw [Heap.view_cons, step]
      rfl
    · exact absurd (upper ▸ root) (shape_ne_map_of_asMap notMap)

/-- What `f` is assumed to do on smaller fuel. -/
def CombinesVals (f : Val → Val → Heap → Option (Val × Heap)) : Prop :=
  ∀ h v1 v2 v h', h.Closed → v1.Below h.size → v2.Below h.size → f v1 v2 h = some (v, h') → Combined h v1 v2 v h'

section Fold
variable {f : Val → Val → Heap → Option (Val × Heap)} {h : Heap} {m1 m2 : GoMap Val}

theorem Folded.start (closed : h.Closed) : Folded h m1 m2 [] m1 h where
  grows := Heap.Grows.refl h
  closed := closed
  kept := fun _ _ => rfl
  merged := fun k v2 found => by simp at found
  labels := fun _ label _ lower _ => ⟨label, SameBelow.refl _ _, lower⟩

/-- The value merged under a key that was not reached yet. -/
theorem Folded.entry {done : List (String × Val)} {m : GoMap Val} {h₁ : Heap} (folded : Folded h m1 m2 done m h₁)
    (closed : h.Closed) (lower : ∀ k c, m1.get? k = some c → c.Below h.size) {k : String}
    (fresh : done.lookup k = none) :
    ((m.get? k).getD .null).Below h₁.size ∧
      ∀ v2 : Val, v2.Below h.size →
        overlay (h₁.view ((m.get? k).getD .null)) (h₁.view v2) = overlay (entryView h m1 k) (h.view v2) := by
  rw [folded.kept k fresh]
  unfold entryView
  cases stored : m1.get? k with
  | some c =>
    refine ⟨(lower k c stored).mono folded.grows.size_le, fun v2 below => ?_⟩
    simp only [Option.getD_some, folded.grows.view closed (lower k c stored), folded.grows.view closed below]
  | none =>
    refine ⟨trivial, fun v2 below => ?_⟩
    rw [overlay_none_left (Heap.view_prefixClosed h v2)]
    simp only [Option.getD_none]
    rw [overlay_not_both (below.mono folded.grows.size_le) (Or.inl rfl), folded.grows.view closed below]

theorem Folded.stored_below (lower : ∀ k c, m1.get? k = some c → c.Below h.size) {done : List (String × Val)}
    {m : GoMap Val} {h₁ : Heap} (folded : Folded h m1 m2 done m h₁) {k : String} {c : Val}
    (stored : m.get? k = some c) : c.Below h₁.size := by
  cases reached : done.lookup k with
  | none =>
    rw [folded.kept k reached] at stored
    exact (lower k c stored).mono folded.grows.size_le
  | some v2 =>
    obtain ⟨u, here, bound, _⟩ := folded.merged k v2 reached
    rw [stored] at here
    cases here
    exact bound

/-- One round of the merging loop, given what merging the entry returned. -/
theorem Folded.put (closed : h.Closed) (lower : ∀ k c, m1.get? k = some c → c.Below h.size)
    {done : List (String × Val)} {m : GoMap Val} {h₁ h₂ : Heap} (folded : Folded h m1 m2 done m h₁)
    {k : String} {v2 v : Val} (fresh : done.lookup k = none) (inside : m2.get? k = some v2) (below : v2.Below h.size)
    (combined : Combined h₁ ((m.get? k).getD .null) v2 v h₂) : Folded h m1 m2 (done ++ [(k, v2)]) (m.put k v) h₂ := by
  obtain ⟨_, views⟩ := folded.entry closed lower fresh
  have found : ∀ k', (done ++ [(k, v2)]).lookup k' = if k' = k then some v2 else done.lookup k' := by
    intro k'
    rw [List.lookup_append, lookup_cons_if]
    by_cases same : k' = k
    · subst same
      simp [fresh]
    · simp [same]
  refine ⟨folded.grows.trans combined.grows, combined.closed, ?_, ?_, ?_⟩
  · intro k' absent
    rw [found] at absent
    by_cases same : k' = k
    · simp [same] at absent
    · rw [if_neg same] at absent
      rw [GoMap.get?_put_ne m v same, folded.kept k' absent]
  · intro k' w reached
    rw [found] at reached
    by_cases same : k' = k
    · subst same
      simp only [if_true, Option.some.injEq] at reached
      subst reached
      refine ⟨v, GoMap.get?_put_self m k' v, combined.below, ?_⟩
      rw [combined.view, views v2 below]
    · rw [if_neg same] at reached
      obtain ⟨u, stored, old, view⟩ := folded.merged k' w reached
      refine ⟨u, ?_, old.mono combined.grows.size_le, ?_⟩
      · rw [GoMap.get?_put_ne m v same, stored]
      · rw [combined.grows.view folded.closed old, view]
  · intro P label r lowerLabels upperLabels
    obtain ⟨label₁, same₁, labelled⟩ := folded.labels P label r lowerLabels upperLabels
    -- the entry under `k` needs a label only if `P` asks for it
    have entry : ∃ label₂, SameBelow h₁.size label₁ label₂ ∧ (P k → LabelledAt label₂ h₂ v (r ++ [.key k])) := by
      by_cases wanted : P k
      · have upper : LabelledAt label₁ h₁ v2 (r ++ [.key k]) :=
          (upperLabels k v2 wanted inside).grows closed folded.grows same₁ below
        have base : LabelledAt label₁ h₁ ((m.get? k).getD .null) (r ++ [.key k]) := by
          cases stored : m.get? k with
          | some c => exact labelled k c wanted stored
          | none => exact LabelledAt.of_leaf (by simp)
        obtain ⟨label₂, same₂, merged⟩ := combined.labels label₁ _ base upper
        exact ⟨label₂, same₂, fun _ => merged⟩
      · exact ⟨label₁, SameBelow.refl _ _, fun yes => absurd yes wanted⟩
    obtain ⟨label₂, same₂, merged⟩ := entry
    refine ⟨label₂, same₁.trans same₂ folded.grows.size_le, ?_⟩
    intro k' w wanted stored
    by_cases same : k' = k
    · subst same
      rw [GoMap.get?_put_self] at stored
      cases stored
      exact merged wanted
    · rw [GoMap.get?_put_ne m v same] at stored
      exact (labelled k' w wanted stored).grows folded.closed combined.grows same₂ (folded.stored_below lower stored)

/-- One round of the merging loop. -/
theorem Folded.step (combines : CombinesVals f) (closed : h.Closed)
    (lower : ∀ k c, m1.get? k = some c → c.Below h.size)
    {done : List (String × Val)} {m m' : GoMap Val} {h₁ h₂ : Heap} (folded : Folded h m1 m2 done m h₁)
    {e : String × Val} (fresh : done.lookup e.1 = none) (inside : m2.get? e.1 = some e.2)
    (below : e.2.Below h.size) (run : combineEntry f (m, h₁) e = some (m', h₂)) :
    Folded h m1 m2 (done ++ [e]) m' h₂ := by
  obtain ⟨⟨v, h₃⟩, call, rest⟩ := Option.bind_eq_some_iff.1 run
  cases rest
  obtain ⟨bound, _⟩ := folded.entry closed lower fresh
  exact folded.put closed lower fresh inside below
    (combines h₁ _ e.2 v h₂ folded.closed bound (below.mono folded.grows.size_le) call)

/-- Distinct keys: the next entry's key is not among those done. -/
theorem lookup_done_none {done rest : List (String × Val)} {e : String × Val} (split : done ++ e :: rest = m2.entries) :
    done.lookup e.1 = none := by
  cases found : done.lookup e.1 with
  | none => rfl
  | some w =>
    have distinct := m2.distinct
    rw [← split, List.map_append, List.map_cons] at distinct
    have twice := (List.nodup_append.1 distinct).2.2 e.1 (List.mem_map.2 ⟨_, mem_of_lookup found, rfl⟩) e.1 (by simp)
    exact absurd rfl twice

/-- The whole merging loop. -/
theorem Folded.run (combines : CombinesVals f) (closed : h.Closed)
    (lower : ∀ k c, m1.get? k = some c → c.Below h.size) (upper : ∀ k c, m2.get? k = some c → c.Below h.size) :
    ∀ (rest done : List (String × Val)) (m m' : GoMap Val) (h₁ h₂ : Heap), done ++ rest = m2.entries →
      Folded h m1 m2 done m h₁ → rest.foldlM (combineEntry f) (m, h₁) = some (m', h₂) →
      Folded h m1 m2 m2.entries m' h₂ := by
  intro rest
  induction rest with
  | nil =>
    intro done m m' h₁ h₂ split folded run
    cases run
    rwa [← split, List.append_nil]
  | cons e rest ih =>
    intro done m m' h₁ h₂ split folded run
    obtain ⟨⟨m₃, h₃⟩, head, tail⟩ := Option.bind_eq_some_iff.1 run
    have inside : m2.get? e.1 = some e.2 := GoMap.get?_eq_some_iff.2 (by simp [← split])
    have fresh := lookup_done_none split
    exact ih (done ++ [e]) m₃ m' h₃ h₂ (by simpa using split)
      (folded.step combines closed lower fresh inside (upper _ _ inside) head) tail

theorem Folded.below {v1 : Val} {m : GoMap Val} {h' : Heap} (closed : h.Closed) (low : v1.Below h.size)
    (first : asMap h v1 = some m1) (folded : Folded h m1 m2 m2.entries m h') :
    (Obj.map .any m).Below h'.size := by
  intro s c step
  cases s with
  | idx i => simp [Obj.child] at step
  | key k =>
    cases reached : m2.get? k with
    | none =>
      rw [Obj.child, folded.kept k reached] at step
      exact (asMap_below closed low first step).mono folded.grows.size_le
    | some w =>
      obtain ⟨v, stored, bound, _⟩ := folded.merged k w reached
      rw [Obj.child, stored] at step
      cases step
      exact bound

/-- The merged map as an object: the spine of `v1` and `v2` is copied. -/
theorem Folded.combined {v1 v2 : Val} {m : GoMap Val} {h' : Heap} (closed : h.Closed) (low : v1.Below h.size)
    (first : asMap h v1 = some m1) (second : asMap h v2 = some m2) (folded : Folded h m1 m2 m2.entries m h') :
    Combined h v1 v2 (.ref h'.size) (h'.alloc (.map .any m)).2 := by
  have below := folded.below closed low first
  refine ⟨folded.grows.trans (Heap.grows_alloc below), folded.closed.alloc (below.mono (Nat.le_succ _)),
    by simp [Val.Below], ?_, ?_⟩
  · funext p
    have root : h.view v2 [] = some .map := asMap_shape second
    cases p with
    | nil =>
      rw [overlay, View.overlay_of_decides (by simp [View.decides, root]), root]
      simp [Heap.view_nil, Heap.shape, Obj.shape]
    | cons s p =>
      rw [Heap.view_cons, Heap.child_ref (Heap.get?_alloc_new _)]
      cases s with
      | idx i =>
        rw [overlay, View.overlay_of_decides (View.decides_cons_shut root rfl p), Heap.view_cons,
          asMap_child_idx second]
        rfl
      | key k =>
        have merge : overlay (h.view v1) (h.view v2) (.key k :: p) =
            overlay (entryView h m1 k) (entryView h m2 k) p := by
          rw [entryView_eq_sub first, entryView_eq_sub second, ← sub_overlay_key root]
          rfl
        rw [merge]
        simp only [Obj.child]
        cases reached : m2.get? k with
        | none =>
          have upper : entryView h m2 k = fun _ => none := by simp [entryView, reached]
          rw [upper, overlay, View.overlay_empty, folded.kept k reached]
          unfold entryView
          cases stored : m1.get? k with
          | none => rfl
          | some c =>
            have bound := asMap_below closed low first stored
            exact congrFun ((folded.grows.trans (Heap.grows_alloc below)).view closed bound) p
        | some w =>
          obtain ⟨v, stored, bound, view⟩ := folded.merged k w reached
          have upper : entryView h m2 k = h.view w := by simp [entryView, reached]
          rw [upper, stored, Option.bind_some, (Heap.grows_alloc below).view folded.closed bound, view]
  · intro label r firstLabels secondLabels
    obtain ⟨label', same, labelled⟩ := folded.labels (fun _ => True) label r
      (asMap_labelled firstLabels first _) (asMap_labelled secondLabels second _)
    refine ⟨_, same.trans (sameBelow_update _ label' r) folded.grows.size_le,
      LabelledAt.alloc folded.closed below ?_⟩
    intro s c step
    cases s with
    | idx i => simp [Obj.child] at step
    | key k => exact labelled k c trivial step

end Fold

theorem combineVal_combines (fuel : Nat) : CombinesVals (combineVal fuel) := by
  induction fuel with
  | zero =>
    intro h v1 v2 v h' _ _ _ run
    simp [combineVal] at run
  | succ fuel ih =>
    intro h v1 v2 v h' closed low high run
    simp only [combineVal] at run
    split at run
    · next m1 m2 first second =>
      obtain ⟨⟨m, h₁⟩, loop, rest⟩ := Option.bind_eq_some_iff.1 run
      cases rest
      have folded := Folded.run ih closed (fun _ _ => asMap_below closed low first)
        (fun _ _ => asMap_below closed high second) m2.entries [] m1 m h h₁ rfl (Folded.start closed) loop
      exact folded.combined closed low first second
    · next other =>
      cases run
      have notBoth : asMap h v1 = none ∨ asMap h v2 = none := by
        cases first : asMap h v1 with
        | none => exact Or.inl rfl
        | some m1 =>
          cases second : asMap h v2 with
          | none => exact Or.inr rfl
          | some m2 => exact absurd second (other m1 m2 first)
      exact ⟨Heap.Grows.refl h, closed, high, (overlay_not_both high notBoth).symm,
        fun label _ _ labelled => ⟨label, SameBelow.refl _ _, labelled⟩⟩

/-- A value of type `map[string]any`: nil, or a reference to a map object. -/
def IsMap (h : Heap) (v : Val) : Prop := ∃ m, asMap h v = some m

theorem isMap_iff_shape {h : Heap} {v : Val} : IsMap h v ↔ h.shape v = some .map := by
  constructor
  · rintro ⟨m, map⟩
    exact asMap_shape map
  · intro root
    cases map : asMap h v with
    | some m => exact ⟨m, map⟩
    | none => exact absurd root (shape_ne_map_of_asMap map)

theorem IsMap.grows {h h' : Heap} {v : Val} (map : IsMap h v) (grows : Heap.Grows h h') (below : v.Below h.size) :
    IsMap h' v := by
  rw [isMap_iff_shape, Heap.shape_agree grows.agree below]
  exact isMap_iff_shape.1 map

/-- `l` holds a `map[string]any`, the newest object of the heap, to which nothing else refers. -/
structure NewestMap (h : Heap) (l : Nat) : Prop where
  size : h.size = l + 1
  closed : h.ClosedBelow l
  object : ∃ m, h.get? l = some (.map .any m) ∧ (Obj.map .any m).Below l

/-- The children of `v` under the keys `P` are labelled for their places. -/
def ChildrenLabelled (P : String → Prop) (label : Nat → Path) (h : Heap) (v : Val) : Prop :=
  ∀ k c, P k → h.child v (.key k) = some c → LabelledAt label h c [.key k]

/-- `CombineVariables` allocates a new map that holds the overlay. -/
structure CombinedTop (h : Heap) (m1 m2 : Val) (l : Nat) (h' : Heap) : Prop extends
    Combined h m1 m2 (.ref l) h' where
  newest : NewestMap h' l
  fresh : h.size ≤ l
  children : ∀ P label, ChildrenLabelled P label h m1 → ChildrenLabelled P label h m2 →
    ∃ label', SameBelow h.size label label' ∧ ChildrenLabelled P label' h' (.ref l)

/-- The map that a finished loop leaves, stored as the newest object. -/
theorem Folded.combinedTop {h h' : Heap} {v1 v2 : Val} {m1 m2 m : GoMap Val} (closed : h.Closed) (low : v1.Below h.size)
    (first : asMap h v1 = some m1) (second : asMap h v2 = some m2) (folded : Folded h m1 m2 m2.entries m h') :
    CombinedTop h v1 v2 h'.size (h'.alloc (.map .any m)).2 := by
  have below := folded.below closed low first
  refine { folded.combined closed low first second with
    newest := ⟨Heap.size_alloc _, ?_, m, Heap.get?_alloc_new _, below⟩
    fresh := folded.grows.size_le
    children := ?_ }
  · exact folded.closed.below.agree (Heap.grows_alloc below).agree
  · intro P label firstLabels secondLabels
    obtain ⟨label', same, labelled⟩ := folded.labels P label []
      (fun k c wanted stored => firstLabels k c wanted ((asMap_child first k).trans stored))
      (fun k c wanted stored => secondLabels k c wanted ((asMap_child second k).trans stored))
    refine ⟨label', same, fun k c wanted step => ?_⟩
    rw [Heap.child_ref (Heap.get?_alloc_new _)] at step
    exact (labelled k c wanted step).grows folded.closed (Heap.grows_alloc below) (SameBelow.refl _ _)
      (below (.key k) c step)

theorem combineVariables_combined {h h' : Heap} {m1 m2 v : Val} (closed : h.Closed) (low : m1.Below h.size)
    (high : m2.Below h.size) (first : IsMap h m1) (second : IsMap h m2)
    (run : combineVariables m1 m2 h = some (v, h')) : ∃ l, v = .ref l ∧ CombinedTop h m1 m2 l h' := by
  obtain ⟨a, first⟩ := first
  obtain ⟨b, second⟩ := second
  simp only [combineVariables, first, second, Option.getD_some] at run
  obtain ⟨⟨m, h₁⟩, loop, rest⟩ := Option.bind_eq_some_iff.1 run
  cases rest
  have folded := Folded.run (combineVal_combines _) closed (fun _ _ => asMap_below closed low first)
    (fun _ _ => asMap_below closed high second) b.entries [] a m h h₁ rfl (Folded.start closed) loop
  exact ⟨h₁.size, rfl, folded.combinedTop closed low first second⟩

section Fuel

/-- Every container of `v` lies less than `n` steps below it. -/
def DepthLt (h : Heap) (v : Val) (n : Nat) : Prop := ∀ p l, h.resolve v p = some (.ref l) → p.length < n

theorem DepthLt.child {h : Heap} {v c : Val} {s : Seg} {n : Nat} (depth : DepthLt h v (n + 1))
    (step : h.child v s = some c) : DepthLt h c n := by
  intro p l reached
  have whole : h.resolve v (s :: p) = some (.ref l) := by rw [Heap.resolve_cons, step]; exact reached
  have bound := depth (s :: p) l whole
  simp only [List.length_cons] at bound
  omega

theorem DepthLt.grows {h h' : Heap} {v : Val} {n : Nat} (depth : DepthLt h v n) (closed : h.Closed)
    (grows : Heap.Grows h h') (below : v.Below h.size) : DepthLt h' v n := by
  intro p l reached
  rw [grows.resolve closed below] at reached
  exact depth p l reached

/-- The loop does not run out of fuel when no call does. -/
theorem foldlM_combineEntry_isSome {f : Val → Val → Heap → Option (Val × Heap)} (combines : CombinesVals f)
    {h : Heap} {m1 m2 : GoMap Val} (closed : h.Closed) (lower : ∀ k c, m1.get? k = some c → c.Below h.size)
    (upper : ∀ k c, m2.get? k = some c → c.Below h.size)
    (calls : ∀ k c, m2.get? k = some c → ∀ h₁ v, Heap.Grows h h₁ → h₁.Closed → v.Below h₁.size → (f v c h₁).isSome) :
    ∀ (rest done : List (String × Val)) (m : GoMap Val) (h₁ : Heap), done ++ rest = m2.entries →
      Folded h m1 m2 done m h₁ → (rest.foldlM (combineEntry f) (m, h₁)).isSome := by
  intro rest
  induction rest with
  | nil => intros; rfl
  | cons e rest ih =>
    intro done m h₁ split folded
    have inside : m2.get? e.1 = some e.2 := GoMap.get?_eq_some_iff.2 (by simp [← split])
    have fresh := lookup_done_none split
    obtain ⟨⟨v, h₂⟩, call⟩ := Option.isSome_iff_exists.1
      (calls e.1 e.2 inside h₁ _ folded.grows folded.closed (folded.entry closed lower fresh).1)
    have head : combineEntry f (m, h₁) e = some (m.put e.1 v, h₂) := by simp [combineEntry, call]
    simp only [List.foldlM_cons, head, Option.bind_eq_bind, Option.bind_some]
    exact ih (done ++ [e]) _ _ (by simpa using split)
      (folded.step combines closed lower fresh inside (upper _ _ inside) head)

theorem combineVal_isSome (n : Nat) : ∀ {h : Heap} {v1 v2 : Val}, h.Closed → v1.Below h.size → v2.Below h.size →
    DepthLt h v2 n → (combineVal (n + 1) v1 v2 h).isSome := by
  induction n with
  | zero =>
    intro h v1 v2 _ _ _ depth
    simp only [combineVal]
    split
    · next m1 m2 _ second =>
      -- without a container on the right the map is nil
      have nil : m2 = .empty := by
        cases v2 with
        | nilMap t => simpa [asMap, eq_comm] using second
        | ref l => exact absurd (depth [] l rfl) (by simp)
        | scalar s => simp [asMap] at second
        | nilSlice t => simp [asMap] at second
      subst nil
      rfl
    · rfl
  | succ n ih =>
    intro h v1 v2 closed low high depth
    rw [combineVal]
    split
    · next m1 m2 first second =>
      have loop : (m2.entries.foldlM (combineEntry (combineVal (n + 1))) (m1, h)).isSome := by
        refine foldlM_combineEntry_isSome (combineVal_combines _) closed (fun _ _ => asMap_below closed low first)
          (fun _ _ => asMap_below closed high second) ?_ m2.entries [] m1 h rfl (Folded.start closed)
        intro k c inside h₁ v grows closed₁ below
        have bound := asMap_below closed high second inside
        exact ih closed₁ below (bound.mono grows.size_le)
          ((depth.child ((asMap_child second k).trans inside)).grows closed grows bound)
      obtain ⟨⟨m, h₁⟩, loop⟩ := Option.isSome_iff_exists.1 loop
      simp [loop]
    · rfl

/-- Merging a value without cycles always returns. -/
theorem combineVariables_isSome {h : Heap} {m1 m2 : Val} (closed : h.Closed) (low : m1.Below h.size)
    (high : m2.Below h.size) (first : IsMap h m1) (second : IsMap h m2) (depth : DepthLt h m2 h.size) :
    (combineVariables m1 m2 h).isSome := by
  obtain ⟨a, first⟩ := first
  obtain ⟨b, second⟩ := second
  simp only [combineVariables, first, second, Option.getD_some]
  have loop : (b.entries.foldlM (combineEntry (combineVal (h.size + 1))) (a, h)).isSome := by
    refine foldlM_combineEntry_isSome (combineVal_combines _) closed (fun _ _ => asMap_below closed low first)
      (fun _ _ => asMap_below closed high second) ?_ b.entries [] a h rfl (Folded.start closed)
    intro k c inside h₁ v grows closed₁ below
    have bound := asMap_below closed high second inside
    have step := (asMap_child second k).trans inside
    refine combineVal_isSome h.size closed₁ below (bound.mono grows.size_le) ?_
    intro p l reached
    rw [grows.resolve closed bound] at reached
    have whole : h.resolve m2 (.key k :: p) = some (.ref l) := by rw [Heap.resolve_cons, step]; exact reached
    have short := depth _ l whole
    simp only [List.length_cons] at short
    omega
  obtain ⟨⟨m, h₁⟩, loop⟩ := Option.isSome_iff_exists.1 loop
  simp [loop]

end Fuel

end KubeKey.Variable
