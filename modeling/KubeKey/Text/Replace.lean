import KubeKey.Text.Strings

/-!
# Replacing every occurrence

`strings.ReplaceAll` of a text that is not empty: the occurrences are taken from the left and do not overlap.
`replaceAll_split` takes a text apart at the first occurrence, and the lemmas after it follow by induction on what is
left behind it.
-/

namespace KubeKey.Text.Strings

/-- `strings.ReplaceAll`, where so many characters are still skipped. -/
def replaceFrom (old new : List Char) : Nat → List Char → List Char
  | _, [] => []
  | skip + 1, _ :: cs => replaceFrom old new skip cs
  | 0, c :: cs =>
    if old.isPrefixOf (c :: cs) then new ++ replaceFrom old new (old.length - 1) cs else c :: replaceFrom old new 0 cs

/-- `strings.ReplaceAll` of what is not empty. -/
def replaceAll (old new s : List Char) : List Char := replaceFrom old new 0 s

variable {old new s : List Char}

theorem replaceFrom_eq_drop :
    ∀ (skip : Nat) (s : List Char), replaceFrom old new skip s = replaceAll old new (s.drop skip)
  | 0, s => rfl
  | _ + 1, [] => rfl
  | skip + 1, _ :: cs => by
    rw [replaceFrom, replaceFrom_eq_drop skip cs, List.drop_succ_cons]

/-- What is found somewhere stands between two texts, and comes first exactly when nothing is before it. -/
theorem replaceAll_split (solid : old ≠ []) (there : contains old s = true) :
    ∃ front back, s = front ++ (old ++ back) ∧ (old.isPrefixOf s = true → front = []) ∧
      ∀ new, replaceAll old new s = front ++ (new ++ replaceAll old new back) := by
  induction s with
  | nil =>
    cases old with
    | nil => exact absurd rfl solid
    | cons d ds => cases there
  | cons c cs ih =>
    by_cases here : old.isPrefixOf (c :: cs) = true
    · obtain ⟨back, split⟩ := List.isPrefixOf_iff_prefix.1 here
      refine ⟨[], back, split.symm, fun _ => rfl, fun new => ?_⟩
      obtain ⟨d, ds, rfl⟩ := List.exists_cons_of_ne_nil solid
      rw [List.cons_append, List.cons.injEq] at split
      rw [replaceAll, replaceFrom, if_pos here, replaceFrom_eq_drop, ← split.2, List.length_cons, Nat.add_sub_cancel,
        List.drop_left, List.nil_append]
    · rw [contains, Bool.or_eq_true] at there
      obtain ⟨front, back, split, -, replaced⟩ := ih (there.resolve_left here)
      refine ⟨c :: front, back, by rw [split, List.cons_append], fun here' => absurd here' here, fun new => ?_⟩
      rw [replaceAll, replaceFrom, if_neg here, List.cons_append, ← replaced new, replaceAll]

theorem replaceAll_of_not_contains (absent : contains old s = false) : replaceAll old new s = s := by
  induction s with
  | nil => rfl
  | cons c cs ih =>
    rw [contains, Bool.or_eq_false_iff] at absent
    rw [replaceAll, replaceFrom, absent.1, if_neg Bool.false_ne_true]
    exact congrArg _ (ih absent.2)

/-- By induction on the length: nothing is left to replace, or what is behind the first occurrence is shorter. -/
theorem replaceAll_induction {motive : List Char → Prop} (solid : old ≠ [])
    (absent : ∀ s, contains old s = false → motive s)
    (there : ∀ front back, contains old (front ++ (old ++ back)) = true →
      (∀ new, replaceAll old new (front ++ (old ++ back)) = front ++ (new ++ replaceAll old new back)) →
      motive back → motive (front ++ (old ++ back))) (s : List Char) : motive s := by
  induction size : s.length using Nat.strongRecOn generalizing s with
  | ind n ih =>
    cases found : contains old s with
    | false => exact absent s found
    | true =>
      obtain ⟨front, back, rfl, -, replaced⟩ := replaceAll_split solid found
      refine there front back found replaced (ih back.length ?_ back rfl)
      have positive := List.length_pos_iff.2 solid
      rw [List.length_append, List.length_append] at size
      omega

theorem replaceAll_self (solid : old ≠ []) (s : List Char) : replaceAll old old s = s := by
  induction s using replaceAll_induction solid with
  | absent s absent => exact replaceAll_of_not_contains absent
  | there front back _ replaced ih => rw [replaced, ih]

theorem le_length_replaceAll (solid : old ≠ []) (longer : old.length ≤ new.length) (s : List Char) :
    s.length ≤ (replaceAll old new s).length := by
  induction s using replaceAll_induction solid with
  | absent s absent => rw [replaceAll_of_not_contains absent]
  | there front back _ replaced ih =>
    rw [replaced]
    simp only [List.length_append]
    omega

theorem length_replaceAll_le (solid : old ≠ []) (shorter : new.length ≤ old.length) (s : List Char) :
    (replaceAll old new s).length ≤ s.length := by
  induction s using replaceAll_induction solid with
  | absent s absent => rw [replaceAll_of_not_contains absent]
  | there front back _ replaced ih =>
    rw [replaced]
    simp only [List.length_append]
    omega

/-- Only a text replaced by itself leaves the whole as it was. -/
theorem replaceAll_eq_self_iff (solid : old ≠ []) (there : contains old s = true) :
    replaceAll old new s = s ↔ old = new := by
  constructor
  · intro same
    obtain ⟨front, back, rfl, -, replaced⟩ := replaceAll_split solid there
    rw [replaced, List.append_cancel_left_eq] at same
    have lengths := congrArg List.length same
    rw [List.length_append, List.length_append] at lengths
    have length : new.length = old.length := by
      rcases Nat.lt_trichotomy new.length old.length with shorter | same | longer
      · have := length_replaceAll_le solid shorter.le back
        omega
      · exact same
      · have := le_length_replaceAll solid longer.le back
        omega
    exact (List.append_inj_left same length).symm
  · rintro rfl
    exact replaceAll_self solid s

/-- A replacement puts every text in front of one rest exactly where the old text stands in front of it, and nowhere
else. -/
theorem replaceAll_front_iff (solid : old ≠ []) (there : contains old s = true) (rest : List Char) :
    (∀ new, replaceAll old new s = new ++ rest) ↔ s = old ++ rest ∧ contains old rest = false := by
  constructor
  · intro fronts
    obtain ⟨front, back, rfl, -, replaced⟩ := replaceAll_split solid there
    have nothing : front = [] := by
      cases front with
      | nil => rfl
      | cons c cs =>
        have begins := fronts (if c = 'a' then ['b'] else ['a'])
        rw [replaced] at begins
        by_cases same : c = 'a'
        · subst same
          simp at begins
        · rw [if_neg same] at begins
          simp [same] at begins
    subst nothing
    have behind : ∀ new, replaceAll old new back = rest := fun new => by
      have whole := fronts new
      rwa [replaced, List.nil_append, List.append_cancel_left_eq] at whole
    cases again : contains old back with
    | false =>
      have same := behind []
      rw [replaceAll_of_not_contains again] at same
      exact ⟨by rw [List.nil_append, same], same ▸ again⟩
    | true =>
      obtain ⟨front', back', -, -, replaced'⟩ := replaceAll_split solid again
      have long := congrArg List.length (behind (List.replicate (rest.length + 1) 'a'))
      rw [replaced', List.length_append, List.length_append, List.length_replicate] at long
      omega
  · rintro ⟨rfl, once⟩ new
    obtain ⟨front, back, split, first, replaced⟩ := replaceAll_split solid there
    have nothing := first (List.isPrefixOf_iff_prefix.2 (List.prefix_append _ _))
    subst nothing
    rw [List.nil_append, List.append_cancel_left_eq] at split
    rw [replaced, ← split, replaceAll_of_not_contains once, List.nil_append]

end KubeKey.Text.Strings
