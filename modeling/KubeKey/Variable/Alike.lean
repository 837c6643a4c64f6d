import KubeKey.Go.Float64
import KubeKey.Go.Literal

/-!
# Values up to the type of a number

JSON, yaml and the walk over a vars node read the same number into different Go types. Two
values are alike if they differ in nothing else.
-/

namespace KubeKey.Variable

open KubeKey.Go

/-- The number that a scalar is. -/
def number : Scalar → Option Float64
  | .int i => some (.finite i)
  | .int64 i => some (.finite i)
  | .float64 bits => some (Float64.ofBits bits)
  | _ => none

/-- Equal scalars, or the same number in two types. -/
def Alike (s s' : Scalar) : Prop := s = s' ∨ ∃ x, number s = some x ∧ number s' = some x

/-- What is seen of equal values at one place. -/
def AlikeShape : Option Shape → Option Shape → Prop
  | some (.scalar s), some (.scalar s') => Alike s s'
  | a, b => a = b

/-- A null is equal to no other scalar. -/
theorem Alike.null {s : Scalar} (alike : Alike .null s) : s = .null := by
  rcases alike with rfl | ⟨x, here, _⟩
  · rfl
  · cases here

theorem Alike.of_null {s : Scalar} (alike : Alike s .null) : s = .null := by
  rcases alike with rfl | ⟨x, _, here⟩
  · rfl
  · cases here

theorem Alike.trans {a b c : Scalar} (first : Alike a b) (second : Alike b c) : Alike a c := by
  rcases first with rfl | ⟨x, left, middle⟩
  · exact second
  · rcases second with rfl | ⟨y, middle', right⟩
    · exact Or.inr ⟨x, left, middle⟩
    · rw [middle] at middle'
      cases middle'
      exact Or.inr ⟨x, left, right⟩

/-- Equal, or two scalars that are. -/
theorem alikeShape_iff {a b : Option Shape} :
    AlikeShape a b ↔ a = b ∨ ∃ s s', a = some (.scalar s) ∧ b = some (.scalar s') ∧ Alike s s' := by
  constructor
  · intro alike
    unfold AlikeShape at alike
    split at alike
    · exact Or.inr ⟨_, _, rfl, rfl, alike⟩
    · exact Or.inl alike
  · rintro (rfl | ⟨s, s', rfl, rfl, alike⟩)
    · rcases a with _ | ⟨_ | _ | _⟩
      · rfl
      · exact Or.inl rfl
      · rfl
      · rfl
    · exact alike

theorem AlikeShape.refl (a : Option Shape) : AlikeShape a a := alikeShape_iff.2 (Or.inl rfl)

theorem AlikeShape.trans {a b c : Option Shape} (first : AlikeShape a b) (second : AlikeShape b c) :
    AlikeShape a c := by
  rw [alikeShape_iff] at first second ⊢
  rcases first with rfl | ⟨s, s', rfl, rfl, alike⟩
  · exact second
  · rcases second with rfl | ⟨t, t', same, rfl, alike'⟩
    · exact Or.inr ⟨s, s', rfl, rfl, alike⟩
    · cases same
      exact Or.inr ⟨s, t', rfl, rfl, alike.trans alike'⟩

section Shapes
variable {a b : DeepView}

theorem AlikeShape.opens {d d' : Shape} (alike : AlikeShape (some d) (some d')) (s : Seg) : d.opens s = d'.opens s := by
  cases d <;> cases d' <;> first | rfl | cases alike

/-- Views that differ at most in the type of numbers decide the same paths. -/
theorem decides_congr (alike : ∀ p, AlikeShape (a p) (b p)) (p : Path) :
    a.decides Shape.opens p = b.decides Shape.opens p := by
  induction p generalizing a b with
  | nil =>
    have root := alike []
    simp only [View.decides]
    cases left : a [] <;> cases right : b [] <;> simp_all [AlikeShape]
  | cons s p ih =>
    have root := alike []
    cases left : a [] with
    | none =>
      cases right : b [] with
      | none => rw [View.decides_cons_none left, View.decides_cons_none right]
      | some d' =>
        rw [left, right] at root
        cases root
    | some d =>
      cases right : b [] with
      | none =>
        rw [left, right] at root
        cases d <;> cases root
      | some d' =>
        rw [left, right] at root
        have same := root.opens s
        cases isOpen : d.opens s with
        | true =>
          rw [View.decides_cons_open left isOpen, View.decides_cons_open right (same.symm.trans isOpen)]
          exact ih fun q => alike (s :: q)
        | false => rw [View.decides_cons_shut left isOpen, View.decides_cons_shut right (same.symm.trans isOpen)]

end Shapes

end KubeKey.Variable
