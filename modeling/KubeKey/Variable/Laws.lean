import KubeKey.Go.Overlay
import KubeKey.Variable.Order

/-!
# The laws of `CombineVariables`

`pkg/variable/helper.go`. What is found at each key path of a merge, whatever order its loops
take, and what it has of the laws of a merge: the empty map is its identity and it is
idempotent, but the order in which three maps are merged may show. A value that is no map
replaces the map below it and is replaced by the map above it, and then the first map is
hidden or not.
-/

namespace KubeKey.Variable

open KubeKey.Go

namespace AnyOrder

theorem view_flat (h : Heap) (v : Val) : (h.view v).Flat Shape.opens := by
  intro q s k s' r held shut isOpen
  obtain ⟨key, rfl⟩ : ∃ key, k = .key key := by
    cases k <;> cases s' <;> simp [Shape.opens] at isOpen ⊢
  obtain ⟨c, reached, shape⟩ := Option.bind_eq_some_iff.1 held
  rw [Heap.view_append reached, Heap.view_cons]
  cases step : h.child c (.key key) with
  | none => rfl
  | some d =>
    obtain ⟨l, o, rfl, found, inside⟩ := Heap.child_eq_some step
    cases o with
    | map t m =>
      rw [Heap.shape, found] at shape
      cases shape
      cases shut
    | slice t xs => cases inside

/-- The path of a list of keys. -/
def keyPath (ks : List String) : Path := ks.map Seg.key

/-- The map `v` has the value of `b` where `b` has one that is not merged, the value of `a` where
`b` has nothing, and a map where both have one. Nothing has been modified. -/
structure RightBiased (h : Heap) (a b v : Val) (h' : Heap) : Prop where
  kept : ∀ l o, h.get? l = some o → h'.get? l = some o
  upper : ∀ ks s, h.view b (keyPath ks) = some s → (s ≠ .map ∨ h.view a (keyPath ks) ≠ some .map) →
    ∀ q, h'.view v (keyPath ks ++ q) = h.view b (keyPath ks ++ q)
  lower : ∀ ks, h.view b (keyPath ks) = none →
    (∀ ks' s, ks' <+: ks → h.view b (keyPath ks') = some s → s = .map) →
    ∀ q, h'.view v (keyPath ks ++ q) = h.view a (keyPath ks ++ q)
  both : ∀ ks, h.view a (keyPath ks) = some .map → h.view b (keyPath ks) = some .map →
    h'.view v (keyPath ks) = some .map

theorem opens_key (s : Shape) (k : String) : s.opens (.key k) = true ↔ s = .map := by
  cases s <;> simp [Shape.opens]

theorem rightBiased_of_top {h h' : Heap} {a b : Val} {l : Nat} (top : CombinedTop h a b l h') :
    RightBiased h a b (.ref l) h' where
  kept l o found := top.grows.get? found
  upper ks s held apart q := by
    rw [top.view]
    refine View.overlay_upper (view_flat h a) (Heap.view_prefixClosed h a) (Heap.view_prefixClosed h b) held ?_ q
    intro k isOpen t below
    cases k with
    | idx i => cases t <;> rfl
    | key k =>
      rw [opens_key] at isOpen
      cases opened : t.opens (.key k) with
      | false => rfl
      | true =>
        rw [opens_key] at opened
        rw [isOpen, below, opened] at apart
        simp at apart
  lower ks absent opened q := by
    rw [top.view]
    refine View.overlay_lower ?_ absent q
    intro q' k r s split held
    obtain ⟨front, rest, rfl, rfl, more⟩ := List.map_eq_append_iff.mp split
    obtain ⟨k', rest', rfl, rfl, -⟩ := List.map_eq_cons_iff.mp more
    rw [opened front s (List.prefix_append _ _) held]
    rfl
  both ks lower upper := by
    rw [top.view, overlay, View.overlay_of_decides (View.decides_of_some (Heap.view_prefixClosed h b) (by simp [upper])),
      upper]

/-- Three maps merged both ways, one after the other. -/
def BothWays (a b c : Val) (h : Heap) (left right : Val) (h' : Heap) : Prop :=
  ∃ ab h₁ h₂ bc h₃, CombineVariables a b h (ab, h₁) ∧ CombineVariables ab c h₁ (left, h₂) ∧
    CombineVariables b c h₂ (bc, h₃) ∧ CombineVariables a bc h₃ (right, h')

/-- On the way to the path `b` has a value that is no map where `c` has a map, and `c` has nothing
at the path and nothing but maps on the way. -/
def Uncovered (h : Heap) (b c : Val) (p : Path) : Prop :=
  (∃ ks k r s, p = keyPath ks ++ .key k :: r ∧ h.view b (keyPath ks) = some s ∧ s ≠ .map ∧
    h.view c (keyPath ks) = some .map) ∧ (h.view c).decides Shape.opens p = false

/-- A path to something is one of keys if what is on it does not decide where it goes on. -/
theorem keyPath_of_undecided {c : DeepView} (closed : c.PrefixClosed) {q r : Path} {s : Shape} (held : c q = some s)
    (undecided : c.decides Shape.opens (q ++ r) = false) : ∃ ks, q = keyPath ks := by
  induction q generalizing c with
  | nil => exact ⟨[], rfl⟩
  | cons k q ih =>
    cases root : c [] with
    | none =>
      have absent : c (k :: q) = none := closed [] (k :: q) root
      rw [absent] at held
      cases held
    | some t =>
      cases isOpen : t.opens k with
      | false =>
        rw [List.cons_append, View.decides_cons_shut root isOpen] at undecided
        cases undecided
      | true =>
        rw [List.cons_append, View.decides_cons_open root isOpen] at undecided
        obtain ⟨ks, rfl⟩ := ih (closed.sub k) held undecided
        cases k with
        | key k => exact ⟨k :: ks, rfl⟩
        | idx i => cases t <;> cases isOpen

theorem uncovered_iff {h : Heap} {b c : Val} {p : Path} :
    Uncovered h b c p ↔ View.Reopened Shape.opens (h.view b) (h.view c) p ∧ (h.view c).decides Shape.opens p = false := by
  constructor
  · rintro ⟨⟨ks, k, r, s, split, held, other, above⟩, undecided⟩
    refine ⟨⟨keyPath ks, .key k, r, s, .map, split, held, ?_, above, rfl⟩, undecided⟩
    cases opened : s.opens (.key k) with
    | false => rfl
    | true => exact absurd ((opens_key s k).mp opened) other
  · rintro ⟨⟨q, k, r, s, s', rfl, held, shut, above, isOpen⟩, undecided⟩
    obtain ⟨ks, rfl⟩ := keyPath_of_undecided (Heap.view_prefixClosed h c) above undecided
    obtain ⟨key, rfl⟩ : ∃ key, k = .key key := by
      cases k <;> cases s' <;> simp [Shape.opens] at isOpen ⊢
    rw [opens_key] at isOpen
    subst isOpen
    refine ⟨⟨ks, key, r, s, rfl, held, fun same => ?_, above⟩, undecided⟩
    rw [same] at shut
    cases shut

/-! ### Runs -/

/-- A heap that holds JSON-like maps. -/
structure Sound (h : Heap) (vs : List Val) : Prop where
  closed : h.Closed
  acyclic : h.Acyclic
  below : ∀ v ∈ vs, v.Below h.size
  isMap : ∀ v ∈ vs, IsMap h v

theorem exists_combine {h : Heap} {a b : Val} (sound : Sound h [a, b]) : ∃ out, CombineVariables a b h out := by
  have low : b.Below h.size := sound.below b (by simp)
  have some_ := combineVariables_isSome sound.closed (sound.below a (by simp)) low (sound.isMap a (by simp))
    (sound.isMap b (by simp)) fun p l reached => sound.acyclic.length_lt sound.closed low reached
  obtain ⟨out, run⟩ := Option.isSome_iff_exists.1 some_
  exact ⟨out, combineVariables_run run⟩

theorem Sound.combine {h h' : Heap} {a b v : Val} {vs : List Val} (sound : Sound h vs) (first : a ∈ vs) (second : b ∈ vs)
    (run : CombineVariables a b h (v, h')) : Sound h' (v :: vs) ∧ ∃ l, v = .ref l ∧ CombinedTop h a b l h' := by
  obtain ⟨l, h₁, same, top, -⟩ := combineVariables_combined sound.closed (sound.below a first) (sound.below b second)
    (sound.isMap a first) (sound.isMap b second) run
  cases same
  refine ⟨⟨top.closed, sound.acyclic.grows sound.closed top.grows, ?_, ?_⟩, l, rfl, top⟩
  · intro v member
    rcases List.mem_cons.mp member with rfl | member
    · exact top.below
    · exact (sound.below v member).mono top.grows.size_le
  · intro v member
    rcases List.mem_cons.mp member with rfl | member
    · obtain ⟨m, found, -⟩ := top.newest.object
      exact ⟨m, by simp [asMap, found]⟩
    · exact (sound.isMap v member).grows top.grows (sound.below v member)

/-! ### Laws -/

section Merged
variable {h h' : Heap} {a b v : Val} {vs : List Val}

theorem view_combine (sound : Sound h vs) (first : a ∈ vs) (second : b ∈ vs) (run : CombineVariables a b h (v, h')) :
    h'.view v = overlay (h.view a) (h.view b) := by
  obtain ⟨-, l, rfl, top⟩ := sound.combine first second run
  exact top.view

theorem view_kept (sound : Sound h vs) (first : a ∈ vs) (second : b ∈ vs) (run : CombineVariables a b h (v, h'))
    {u : Val} (member : u ∈ vs) : h'.view u = h.view u := by
  obtain ⟨-, l, rfl, top⟩ := sound.combine first second run
  exact top.grows.view sound.closed (sound.below u member)

end Merged

theorem view_of_empty {h : Heap} {e : Val} (empty : asMap h e = some .empty) (s : Seg) (p : Path) :
    h.view e (s :: p) = none := by
  rw [Heap.view_cons]
  cases s with
  | key k => rw [asMap_child empty]; rfl
  | idx i => rw [asMap_child_idx empty]; rfl

theorem overlay_of_empty {h : Heap} {e a : Val} (empty : asMap h e = some .empty) (map : IsMap h a) :
    overlay (h.view e) (h.view a) = h.view a ∧ overlay (h.view a) (h.view e) = h.view a := by
  obtain ⟨m, stored⟩ := map
  have rootE : h.view e [] = some .map := asMap_shape empty
  have rootA : h.view a [] = some .map := asMap_shape stored
  constructor
  · funext p
    cases decided : (h.view a).decides Shape.opens p with
    | true => exact View.overlay_of_decides decided
    | false =>
      rw [overlay, View.overlay_of_not_decides decided, View.none_of_not_decides (Heap.view_prefixClosed h a) decided]
      cases p with
      | nil => simp [View.decides, rootA] at decided
      | cons s p => exact view_of_empty empty s p
  · funext p
    cases p with
    | nil => rw [overlay, View.overlay_of_decides (by simp [View.decides, rootE]), rootE, rootA]
    | cons s p =>
      cases s with
      | idx i =>
        rw [overlay, View.overlay_of_decides (View.decides_cons_shut rootE rfl p), view_of_empty empty, Heap.view_cons,
          asMap_child_idx stored]
        rfl
      | key k =>
        have nothing : (h.view e).sub (.key k) = fun _ => none := funext fun p => view_of_empty empty _ p
        refine View.overlay_of_not_decides ?_
        rw [View.decides_cons_open rootE rfl, nothing, View.decides_empty]

theorem Sound.mono {h : Heap} {us vs : List Val} (sound : Sound h vs) (sub : us ⊆ vs) : Sound h us :=
  ⟨sound.closed, sound.acyclic, fun v member => sound.below v (sub member), fun v member => sound.isMap v (sub member)⟩

theorem Sound.exists {h : Heap} {vs : List Val} (sound : Sound h vs) {a b : Val} (first : a ∈ vs) (second : b ∈ vs) :
    ∃ v h', CombineVariables a b h (v, h') := by
  have pair : [a, b] ⊆ vs := by simp [first, second]
  obtain ⟨⟨v, h'⟩, run⟩ := exists_combine (sound.mono pair)
  exact ⟨v, h', run⟩

section Three
variable {h h' : Heap} {a b c left right : Val}

/-- Three maps can be merged both ways. -/
theorem exists_bothWays (sound : Sound h [a, b, c]) : ∃ left right h', BothWays a b c h left right h' := by
  have ofA : a ∈ [a, b, c] := by simp
  have ofB : b ∈ [a, b, c] := by simp
  obtain ⟨ab, h₁, first⟩ := sound.exists ofA ofB
  obtain ⟨sound₁, -⟩ := sound.combine ofA ofB first
  obtain ⟨left, h₂, second⟩ := sound₁.exists (List.mem_cons_self) (by simp : c ∈ ab :: [a, b, c])
  obtain ⟨sound₂, -⟩ := sound₁.combine List.mem_cons_self (by simp) second
  obtain ⟨bc, h₃, third⟩ := sound₂.exists (by simp : b ∈ left :: ab :: [a, b, c]) (by simp : c ∈ _)
  obtain ⟨sound₃, -⟩ := sound₂.combine (by simp) (by simp) third
  obtain ⟨right, h₄, fourth⟩ := sound₃.exists (by simp : a ∈ bc :: left :: ab :: [a, b, c]) List.mem_cons_self
  exact ⟨left, right, h₄, ab, h₁, h₂, bc, h₃, first, second, third, fourth⟩

/-- The two ways agree exactly where the first map has nothing that is uncovered. -/
theorem bothWays_iff (sound : Sound h [a, b, c]) (both : BothWays a b c h left right h') :
    h'.view left = h'.view right ↔ ∀ p, Uncovered h b c p → h.view a p = none := by
  obtain ⟨ab, h₁, h₂, bc, h₃, first, second, third, fourth⟩ := both
  have ofA : a ∈ [a, b, c] := by simp
  have ofB : b ∈ [a, b, c] := by simp
  obtain ⟨sound₁, -⟩ := sound.combine ofA ofB first
  have ofC : c ∈ ab :: [a, b, c] := by simp
  obtain ⟨sound₂, -⟩ := sound₁.combine List.mem_cons_self ofC second
  have ofB₂ : b ∈ left :: ab :: [a, b, c] := by simp
  have ofC₂ : c ∈ left :: ab :: [a, b, c] := by simp
  obtain ⟨sound₃, -⟩ := sound₂.combine ofB₂ ofC₂ third
  have ofA₃ : a ∈ bc :: left :: ab :: [a, b, c] := by simp
  have ofLeft₃ : left ∈ bc :: left :: ab :: [a, b, c] := by simp
  have kept₁ := fun {u : Val} => @view_kept _ _ _ _ _ _ sound ofA ofB first u
  have kept₂ := fun {u : Val} => @view_kept _ _ _ _ _ _ sound₁ List.mem_cons_self ofC second u
  have kept₃ := fun {u : Val} => @view_kept _ _ _ _ _ _ sound₂ ofB₂ ofC₂ third u
  have viewLeft : h'.view left = overlay (overlay (h.view a) (h.view b)) (h.view c) := by
    rw [view_kept sound₃ ofA₃ List.mem_cons_self fourth ofLeft₃, kept₃ List.mem_cons_self,
      view_combine sound₁ List.mem_cons_self ofC second, view_combine sound ofA ofB first, kept₁ (by simp)]
  have viewRight : h'.view right = overlay (h.view a) (overlay (h.view b) (h.view c)) := by
    rw [view_combine sound₃ ofA₃ List.mem_cons_self fourth, view_combine sound₂ ofB₂ ofC₂ third, kept₃ (by simp),
      kept₂ (by simp), kept₁ ofA, kept₂ (by simp), kept₁ ofB, kept₂ (by simp), kept₁ (by simp)]
  rw [viewLeft, viewRight, overlay, View.overlay_assoc_iff (view_flat h b) (Heap.view_prefixClosed h b)
    (Heap.view_prefixClosed h c)]
  refine forall_congr' fun p => ?_
  rw [uncovered_iff, and_imp]

end Three

/-- The laws of the merge. -/
theorem combineVariables_laws {h : Heap} {a b c : Val} (sound : Sound h [a, b, c]) :
    (∃ v h', CombineVariables a b h (v, h')) ∧
      (∀ v h', CombineVariables a b h (v, h') → RightBiased h a b v h') ∧
      (∀ v h' e, CombineVariables e a h (v, h') → e.Below h.size → asMap h e = some .empty →
        h'.view v = h.view a) ∧
      (∀ v h' e, CombineVariables a e h (v, h') → e.Below h.size → asMap h e = some .empty →
        h'.view v = h.view a) ∧
      (∀ v h', CombineVariables a a h (v, h') → h'.view v = h.view a) ∧
      (∃ left right h', BothWays a b c h left right h') ∧
      ∀ left right h', BothWays a b c h left right h' →
        (h'.view left = h'.view right ↔ ∀ p, Uncovered h b c p → h.view a p = none) := by
  have ofA : a ∈ [a, b, c] := by simp
  have ofB : b ∈ [a, b, c] := by simp
  have withEmpty : ∀ e : Val, e.Below h.size → asMap h e = some .empty → Sound h [e, a] := by
    intro e below empty
    refine ⟨sound.closed, sound.acyclic, ?_, ?_⟩
    · rw [List.forall_mem_cons, List.forall_mem_singleton]
      exact ⟨below, sound.below a ofA⟩
    · rw [List.forall_mem_cons, List.forall_mem_singleton]
      exact ⟨⟨_, empty⟩, sound.isMap a ofA⟩
  refine ⟨sound.exists ofA ofB, ?_, ?_, ?_, ?_, exists_bothWays sound, fun _ _ _ both => bothWays_iff sound both⟩
  · intro v h' run
    obtain ⟨-, l, rfl, top⟩ := sound.combine ofA ofB run
    exact rightBiased_of_top top
  · intro v h' e run below empty
    rw [view_combine (withEmpty e below empty) (by simp) (by simp) run]
    exact (overlay_of_empty empty (sound.isMap a ofA)).1
  · intro v h' e run below empty
    rw [view_combine (withEmpty e below empty) (by simp) (by simp) run]
    exact (overlay_of_empty empty (sound.isMap a ofA)).2
  · intro v h' run
    rw [view_combine sound ofA ofA run]
    exact View.overlay_self _

/-! ### Three maps -/

/-- One key and its value, decoded. -/
def oneKey (k : String) (x : Lit) : Lit := .map .any [(k, x)]

/-- A map that a value that is no map replaces, and that is replaced by a map with another key. -/
def conflict : Val × Val × Val × Heap :=
  let first := (oneKey "k" (oneKey "x" (.scalar (.int 1)))).alloc .empty
  let second := (oneKey "k" (.scalar .null)).alloc first.2
  let third := (oneKey "k" (oneKey "y" (.scalar (.int 2)))).alloc second.2
  (first.1, second.1, third.1, third.2)

theorem conflict_views : Sound conflict.2.2.2 [conflict.1, conflict.2.1, conflict.2.2.1] ∧
    conflict.2.2.2.view conflict.1 = (oneKey "k" (oneKey "x" (.scalar (.int 1)))).view ∧
    conflict.2.2.2.view conflict.2.1 = (oneKey "k" (.scalar .null)).view ∧
    conflict.2.2.2.view conflict.2.2.1 = (oneKey "k" (oneKey "y" (.scalar (.int 2)))).view := by
  have first := Lit.alloc_placed (oneKey "k" (oneKey "x" (.scalar (.int 1)))) .empty Heap.closed_empty
  have second := Lit.alloc_placed (oneKey "k" (.scalar .null)) _ first.closed
  have third := Lit.alloc_placed (oneKey "k" (oneKey "y" (.scalar (.int 2)))) _ second.closed
  have rest := second.grows.trans third.grows
  have viewA := (rest.view first.closed first.below).trans first.view
  have viewB := (third.grows.view second.closed second.below).trans second.view
  refine ⟨⟨third.closed, Heap.acyclic_empty.grows Heap.closed_empty (first.grows.trans rest), ?_, ?_⟩,
    viewA, viewB, third.view⟩
  · rw [List.forall_mem_cons, List.forall_mem_cons, List.forall_mem_singleton]
    exact ⟨first.below.mono rest.size_le, second.below.mono third.grows.size_le, third.below⟩
  · rw [List.forall_mem_cons, List.forall_mem_cons, List.forall_mem_singleton, isMap_iff_shape, isMap_iff_shape,
      isMap_iff_shape]
    exact ⟨congrFun viewA [], congrFun viewB [], congrFun third.view []⟩

theorem conflict_merged : ∃ v h', CombineVariables conflict.1 conflict.2.1 conflict.2.2.2 (v, h') ∧
    RightBiased conflict.2.2.2 conflict.1 conflict.2.1 v h' := by
  obtain ⟨⟨v, h', run⟩, biased, -⟩ := combineVariables_laws conflict_views.1
  exact ⟨v, h', run, biased v h' run⟩

/-- The order in which three maps are merged may show. -/
theorem combineVariables_not_associative : ¬ ∀ (h : Heap) (a b c left right : Val) (h' : Heap),
    Sound h [a, b, c] → BothWays a b c h left right h' → h'.view left = h'.view right := by
  intro associative
  obtain ⟨sound, viewA, viewB, viewC⟩ := conflict_views
  obtain ⟨left, right, h', both⟩ := exists_bothWays sound
  have settled := (bothWays_iff sound both).mp (associative _ _ _ _ _ _ _ sound both)
  have uncovered : Uncovered conflict.2.2.2 conflict.2.1 conflict.2.2.1 [.key "k", .key "x"] := by
    rw [Uncovered, viewB, viewC]
    exact ⟨⟨["k"], "x", [], .scalar .null, rfl, rfl, by decide, rfl⟩, rfl⟩
  have hidden := settled _ uncovered
  rw [viewA] at hidden
  cases hidden

end AnyOrder

end KubeKey.Variable
