import KubeKey.Go.View

/-!
# The algebra of the overlay

The overlay has the empty tree as identity and is idempotent. It is not associative. Where
the middle layer shuts what the upper one opens, the middle one hides what is below it and
the upper one opens this place again; whether the lowest layer is seen there depends on which
two are merged first. Nothing else stands against it (`overlay_assoc_iff`).
-/

namespace KubeKey.Go.View

universe u v
variable {K : Type u} {S : Type v} {opens : S → K → Bool} {a b c : View K S}

@[simp] theorem overlay_self (a : View K S) : overlay opens a a = a := by
  funext p
  simp [overlay]

theorem empty_overlay (closed : b.PrefixClosed) : overlay opens (fun _ => none) b = b := by
  funext p
  by_cases decided : b.decides opens p = true
  · exact overlay_of_decides decided
  · have undecided : b.decides opens p = false := by simpa using decided
    rw [overlay_of_not_decides undecided, none_of_not_decides closed undecided]

theorem eq_empty_of_root (closed : b.PrefixClosed) (root : b [] = none) : b = fun _ => none := by
  funext p
  exact closed [] p root

/-! ### What is found at a path -/

/-- A value that shuts a key which others open has nothing there. -/
def Flat (opens : S → K → Bool) (b : View K S) : Prop :=
  ∀ q s k s' r, b q = some s → opens s k = false → opens s' k = true → b (q ++ k :: r) = none

theorem Flat.sub (flat : b.Flat opens) (k : K) : (b.sub k).Flat opens :=
  fun q s k' s' r held shut isOpen => flat (k :: q) s k' s' r held shut isOpen

/-- A value of the upper layer that does not meet one that it could be merged with stays as it is. -/
theorem overlay_upper (flat : a.Flat opens) (lower : a.PrefixClosed) (upper : b.PrefixClosed) {p : List K} {s : S}
    (held : b p = some s) (apart : ∀ k, opens s k = true → ∀ t, a p = some t → opens t k = false) (q : List K) :
    overlay opens a b (p ++ q) = b (p ++ q) := by
  by_cases decided : b.decides opens (p ++ q) = true
  · exact overlay_of_decides decided
  have undecided : b.decides opens (p ++ q) = false := by simpa using decided
  rw [overlay_of_not_decides undecided, none_of_not_decides upper undecided]
  cases q with
  | nil =>
    rw [List.append_nil, decides_of_some upper (by simp [held])] at undecided
    cases undecided
  | cons k q =>
    have isOpen : opens s k = true := by
      by_contra shut
      rw [decides_below upper held (by simpa using shut)] at undecided
      cases undecided
    cases below : a p with
    | none => exact lower p (k :: q) below
    | some t => exact flat p t k s q below (apart k isOpen t below) isOpen

/-- Where the upper layer has nothing, and on the way nothing that shuts, the lower one stays. -/
theorem overlay_lower {p : List K} (opened : ∀ q k r s, p = q ++ k :: r → b q = some s → opens s k = true)
    (absent : b p = none) (q : List K) : overlay opens a b (p ++ q) = a (p ++ q) := by
  refine overlay_of_not_decides (not_decides_append ?_ q)
  induction p generalizing b with
  | nil => simp [decides, absent]
  | cons k p ih =>
    cases root : b [] with
    | none => exact decides_cons_none root k p
    | some s =>
      rw [decides_cons_open root (opened [] k p s rfl root)]
      exact ih (fun q k' r s' split held => opened (k :: q) k' r s' (by rw [split]; rfl) held) absent

/-! ### Three layers -/

/-- What the upper layer decides the overlay decides. -/
theorem decides_overlay {p : List K} (decided : c.decides opens p = true) :
    (overlay opens b c).decides opens p = true := by
  induction p generalizing b c with
  | nil =>
    have root : overlay opens b c [] = c [] := overlay_of_decides decided
    rw [decides, root]
    exact decided
  | cons k p ih =>
    cases root : c [] with
    | none =>
      rw [decides_cons_none root] at decided
      cases decided
    | some s =>
      have top : overlay opens b c [] = some s := by
        rw [overlay_of_decides (by simp [decides, root]), root]
      cases isOpen : opens s k with
      | false => exact decides_cons_shut top isOpen p
      | true =>
        rw [decides_cons_open root isOpen] at decided
        rw [decides_cons_open top isOpen, sub_overlay root isOpen]
        exact ih decided

/-- What the overlay decides one of the layers does. -/
theorem decides_of_overlay (lower : b.PrefixClosed) (closed : c.PrefixClosed) {p : List K}
    (decided : (overlay opens b c).decides opens p = true) :
    b.decides opens p = true ∨ c.decides opens p = true := by
  induction p generalizing b c with
  | nil =>
    by_cases upper : c.decides opens [] = true
    · exact Or.inr upper
    · have top : overlay opens b c [] = b [] := overlay_of_not_decides (by simpa using upper)
      rw [decides, top] at decided
      exact Or.inl decided
  | cons k p ih =>
    cases root : c [] with
    | none =>
      rw [eq_empty_of_root closed root, overlay_empty] at decided
      exact Or.inl decided
    | some s =>
      have top : overlay opens b c [] = some s := by
        rw [overlay_of_decides (by simp [decides, root]), root]
      cases isOpen : opens s k with
      | false => exact Or.inr (decides_cons_shut root isOpen p)
      | true =>
        rw [decides_cons_open top isOpen, sub_overlay root isOpen] at decided
        rw [decides_cons_open root isOpen]
        rcases ih (lower.sub k) (closed.sub k) decided with below | upper
        · refine Or.inl ?_
          cases middle : b [] with
          | none =>
            have nothing : b.sub k = fun _ => none := by rw [eq_empty_of_root lower middle]; rfl
            rw [nothing, decides_empty] at below
            cases below
          | some s' =>
            cases opened : opens s' k with
            | false => exact decides_cons_shut middle opened p
            | true => rwa [decides_cons_open middle opened]
        · exact Or.inr upper

/-- At a path the two ways to merge three layers agree unless the overlay of the upper two hides
from the path what the middle one decides. -/
theorem overlay_assoc_at (middle : b.PrefixClosed) (upper : c.PrefixClosed) (p : List K) :
    overlay opens (overlay opens a b) c p = overlay opens a (overlay opens b c) p ↔
      (b.decides opens p = true → (overlay opens b c).decides opens p = false → a p = none) := by
  cases top : c.decides opens p with
  | true =>
    have both := decides_overlay (b := b) top
    rw [overlay_of_decides top, overlay_of_decides both, overlay_of_decides top, both]
    simp
  | false =>
    rw [overlay_of_not_decides top]
    cases here : b.decides opens p with
    | false =>
      have neither : (overlay opens b c).decides opens p = false := by
        by_contra decided
        rcases decides_of_overlay middle upper (by simpa using decided) with lower | higher
        · rw [here] at lower
          cases lower
        · rw [top] at higher
          cases higher
      rw [overlay_of_not_decides here, overlay_of_not_decides neither]
      simp
    | true =>
      rw [overlay_of_decides here]
      cases merged : (overlay opens b c).decides opens p with
      | true =>
        rw [overlay_of_decides merged, overlay_of_not_decides top]
        simp
      | false =>
        have nothing : b p = none := by
          rw [← overlay_of_not_decides (a := b) top]
          exact none_of_not_decides (middle.overlay upper) merged
        rw [overlay_of_not_decides merged, nothing]
        simp [eq_comm]

/-- The middle layer shuts what the upper one opens, on the way to the path. -/
def Reopened (opens : S → K → Bool) (b c : View K S) (p : List K) : Prop :=
  ∃ q k r s s', p = q ++ k :: r ∧ b q = some s ∧ opens s k = false ∧ c q = some s' ∧ opens s' k = true

theorem reopened_cons {k : K} {p : List K} : Reopened opens b c (k :: p) ↔
    (∃ s s', b [] = some s ∧ opens s k = false ∧ c [] = some s' ∧ opens s' k = true) ∨
      Reopened opens (b.sub k) (c.sub k) p := by
  constructor
  · rintro ⟨q, k', r, s, s', split, held, shut, above, isOpen⟩
    cases q with
    | nil =>
      cases split
      exact Or.inl ⟨s, s', held, shut, above, isOpen⟩
    | cons k'' q =>
      cases split
      exact Or.inr ⟨q, k', r, s, s', rfl, held, shut, above, isOpen⟩
  · rintro (⟨s, s', held, shut, above, isOpen⟩ | ⟨q, k', r, s, s', rfl, held, shut, above, isOpen⟩)
    · exact ⟨[], k, p, s, s', rfl, held, shut, above, isOpen⟩
    · exact ⟨k :: q, k', r, s, s', rfl, held, shut, above, isOpen⟩

/-- The overlay hides from a path what the middle layer decides where the upper one opens again
what the middle one shuts. -/
theorem hides_iff (flat : b.Flat opens) (middle : b.PrefixClosed) (upper : c.PrefixClosed) (p : List K) :
    b.decides opens p = true ∧ (overlay opens b c).decides opens p = false ↔
      Reopened opens b c p ∧ c.decides opens p = false := by
  induction p generalizing b c with
  | nil =>
    constructor
    · rintro ⟨decided, undecided⟩
      by_cases above : c.decides opens [] = true
      · rw [decides_overlay above] at undecided
        cases undecided
      · have top : overlay opens b c [] = b [] := overlay_of_not_decides (by simpa using above)
        rw [decides] at decided undecided
        rw [top, decided] at undecided
        cases undecided
    · rintro ⟨⟨q, k, r, s, s', split, -⟩, -⟩
      simp at split
  | cons k p ih =>
    cases rootC : c [] with
    | none =>
      rw [eq_empty_of_root upper rootC, overlay_empty, reopened_cons]
      have never : ¬ Reopened opens (b.sub k) (View.sub (fun _ => none) k) p := by
        rintro ⟨q, k', r, s, s', -, -, -, above, -⟩
        cases above
      simp [never]
    | some s =>
      have top : overlay opens b c [] = some s := by
        rw [overlay_of_decides (by simp [decides, rootC]), rootC]
      cases isOpen : opens s k with
      | false => simp [decides_cons_shut top isOpen, decides_cons_shut rootC isOpen]
      | true =>
        rw [decides_cons_open top isOpen, decides_cons_open rootC isOpen, sub_overlay rootC isOpen, reopened_cons]
        cases rootB : b [] with
        | none =>
          have never : ¬ Reopened opens (b.sub k) (c.sub k) p := by
            rintro ⟨q, k', r, s, s', -, held, -⟩
            rw [eq_empty_of_root middle rootB] at held
            cases held
          simp [decides_cons_none rootB, never]
        | some s' =>
          cases opened : opens s' k with
          | false =>
            have nothing : b.sub k = fun _ => none := funext fun r => flat [] s' k s r rootB opened isOpen
            rw [decides_cons_shut rootB opened, nothing, empty_overlay (upper.sub k)]
            simp [opened, rootC, isOpen]
          | true =>
            rw [decides_cons_open rootB opened, ih (flat.sub k) (middle.sub k) (upper.sub k)]
            simp [opened]

/-- The overlay is associative exactly where the lowest layer has nothing at a path on which the
upper one opens what the middle one shuts, and which it does not decide itself. -/
theorem overlay_assoc_iff (flat : b.Flat opens) (middle : b.PrefixClosed) (upper : c.PrefixClosed) :
    overlay opens (overlay opens a b) c = overlay opens a (overlay opens b c) ↔
      ∀ p, Reopened opens b c p → c.decides opens p = false → a p = none := by
  constructor
  · intro same p reopened undecided
    obtain ⟨decided, hidden⟩ := (hides_iff flat middle upper p).mpr ⟨reopened, undecided⟩
    exact (overlay_assoc_at middle upper p).mp (congrFun same p) decided hidden
  · intro settled
    funext p
    refine (overlay_assoc_at middle upper p).mpr fun decided hidden => ?_
    obtain ⟨reopened, undecided⟩ := (hides_iff flat middle upper p).mp ⟨decided, hidden⟩
    exact settled p reopened undecided

end KubeKey.Go.View
