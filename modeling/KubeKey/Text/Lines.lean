import Mathlib.Data.List.DropRight

/-!
# Texts and their lines

A text is the list of its characters. It is the join of its lines, and two texts are the
same up to newlines at the end exactly when their lines are, up to empty ones at the end. A
scanner of lines takes the lines of a text one by one, without a carriage return at the end
of a line, and stops at a line that does not fit into its buffer.
-/

namespace KubeKey.Text

abbrev Chars := List Char

/-- The lines of a text: one more than it has newlines. -/
def lines (t : Chars) : List Chars := t.splitOn '\n'

def joinLines (ls : List Chars) : Chars := ['\n'].intercalate ls

/-- The text without the newlines at its end. -/
def trimNewlines (t : Chars) : Chars := t.rdropWhile (· = '\n')

/-- The lines without the empty ones at the end. -/
def trimLines (ls : List Chars) : List Chars := ls.rdropWhile (·.isEmpty)

/-- No line has a newline in it. -/
def Unbroken (ls : List Chars) : Prop := ∀ l ∈ ls, '\n' ∉ l

theorem joinLines_lines (t : Chars) : joinLines (lines t) = t := List.intercalate_splitOn '\n'

theorem lines_cons (c : Char) (t : Chars) :
    lines (c :: t) = if c = '\n' then [] :: lines t else (lines t).modifyHead (c :: ·) := by
  simpa [lines] using List.splitOn_cons_eq_if_modifyHead c t (a := '\n')

theorem lines_unbroken (t : Chars) : Unbroken (lines t) := by
  induction t with
  | nil =>
    intro l member
    cases List.mem_singleton.mp member
    exact List.not_mem_nil
  | cons c t ih =>
    rw [lines_cons]
    split
    · intro l member
      rcases List.mem_cons.mp member with rfl | rest
      · exact List.not_mem_nil
      · exact ih l rest
    · next other =>
      cases split : lines t with
      | nil => exact fun l member => by cases member
      | cons l' ls =>
        rw [split] at ih
        intro l member
        rcases List.mem_cons.mp member with rfl | rest
        · intro newline
          rcases List.mem_cons.mp newline with same | newline
          · exact other same.symm
          · exact ih l' List.mem_cons_self newline
        · exact ih l (List.mem_cons_of_mem _ rest)

theorem lines_joinLines {ls : List Chars} (unbroken : Unbroken ls) (some_ : ls ≠ []) : lines (joinLines ls) = ls :=
  List.splitOn_intercalate '\n' unbroken some_

theorem joinLines_concat {ls : List Chars} (some_ : ls ≠ []) (l : Chars) :
    joinLines (ls ++ [l]) = joinLines ls ++ '\n' :: l := by
  induction ls with
  | nil => exact absurd rfl some_
  | cons l' ls ih =>
    cases ls with
    | nil => simp [joinLines, List.intercalate_cons_cons]
    | cons l'' ls =>
      have rest := ih (List.cons_ne_nil _ _)
      simp only [joinLines, List.cons_append, List.intercalate_cons_cons, List.append_assoc] at rest ⊢
      rw [rest]

theorem joinLines_ends (ls : List Chars) (l : Chars) :
    ∃ front, joinLines (ls ++ [l]) = front ++ l := by
  rcases eq_or_ne ls [] with rfl | some_
  · exact ⟨[], by simp [joinLines]⟩
  · exact ⟨joinLines ls ++ ['\n'], by rw [joinLines_concat some_]; simp⟩

theorem mem_joinLines {ls : List Chars} {c : Char} (other : c ≠ '\n') :
    c ∈ joinLines ls ↔ ∃ l ∈ ls, c ∈ l := by
  induction ls using List.reverseRecOn with
  | nil => simp [joinLines]
  | append_singleton ls l ih =>
    rcases eq_or_ne ls [] with rfl | some_
    · simp [joinLines]
    · rw [joinLines_concat some_, List.mem_append, ih, List.mem_cons]
      simp only [other, false_or, List.mem_append, List.mem_singleton]
      constructor
      · rintro (⟨l', member, here⟩ | here)
        · exact ⟨l', Or.inl member, here⟩
        · exact ⟨l, Or.inr rfl, here⟩
      · rintro ⟨l', member | rfl, here⟩
        · exact Or.inl ⟨l', member, here⟩
        · exact Or.inr here

theorem mem_trimNewlines {t : Chars} {c : Char} (other : c ≠ '\n') : c ∈ trimNewlines t ↔ c ∈ t := by
  have split : trimNewlines t ++ t.rtakeWhile (· = '\n') = t := List.rdropWhile_append_rtakeWhile ..
  refine ⟨fun member => (List.rdropWhile_prefix _ _).subset member, fun member => ?_⟩
  rw [← split] at member
  refine (List.mem_append.mp member).elim id fun newline => ?_
  have same := List.mem_rtakeWhile_imp newline
  exact absurd (of_decide_eq_true same) other

/-- Newlines at the end of a text are empty lines at the end of its lines. -/
theorem trimNewlines_joinLines {ls : List Chars} (unbroken : Unbroken ls) :
    trimNewlines (joinLines ls) = joinLines (trimLines ls) := by
  induction ls using List.reverseRecOn with
  | nil => rfl
  | append_singleton ls l ih =>
    have unbroken' : Unbroken ls := fun l' member => unbroken l' (List.mem_append_left _ member)
    rcases eq_or_ne l [] with rfl | nonempty
    · rw [trimLines, List.rdropWhile_concat_pos _ _ _ rfl]
      rcases eq_or_ne ls [] with rfl | some_
      · rfl
      · rw [joinLines_concat some_, trimNewlines, List.rdropWhile_concat_pos _ _ _ (by simp)]
        exact ih unbroken'
    · rw [trimLines, List.rdropWhile_concat_neg _ _ _ (by simpa using nonempty), trimNewlines,
        List.rdropWhile_eq_self_iff]
      intro some_ newline
      obtain ⟨front, ends⟩ := joinLines_ends ls l
      have last : (joinLines (ls ++ [l])).getLast some_ = l.getLast nonempty := by
        simp only [ends]
        exact List.getLast_append_of_ne_nil _ nonempty
      rw [last] at newline
      exact unbroken l (by simp) (of_decide_eq_true newline ▸ List.getLast_mem nonempty)

theorem trimLines_unbroken {ls : List Chars} (unbroken : Unbroken ls) : Unbroken (trimLines ls) :=
  fun l member => unbroken l ((List.rdropWhile_prefix _ _).subset member)

theorem joinLines_trimLines_eq_nil {ls : List Chars} : joinLines (trimLines ls) = [] ↔ trimLines ls = [] := by
  refine ⟨fun empty => ?_, fun empty => by rw [empty]; rfl⟩
  by_contra some_
  have last : ¬ ((trimLines ls).getLast some_).isEmpty := List.rdropWhile_last_not _ ls some_
  obtain ⟨front, ends⟩ := joinLines_ends (trimLines ls).dropLast ((trimLines ls).getLast some_)
  rw [List.dropLast_append_getLast, empty] at ends
  exact last (by simpa using (List.append_eq_nil_iff.mp ends.symm).2)

/-- Two texts agree up to newlines at the end when their lines agree up to empty lines at the end. -/
theorem trimNewlines_eq_iff (t t' : Chars) :
    trimNewlines t = trimNewlines t' ↔ trimLines (lines t) = trimLines (lines t') := by
  rw [← joinLines_lines t, ← joinLines_lines t', trimNewlines_joinLines (lines_unbroken t),
    trimNewlines_joinLines (lines_unbroken t'), joinLines_lines, joinLines_lines]
  refine ⟨fun same => ?_, fun same => by rw [same]⟩
  by_cases empty : trimLines (lines t) = []
  · rw [empty, joinLines_trimLines_eq_nil.mp (same.symm.trans (joinLines_trimLines_eq_nil.mpr empty))]
  · have empty' : trimLines (lines t') ≠ [] := fun none =>
      empty (joinLines_trimLines_eq_nil.mp (same.trans (joinLines_trimLines_eq_nil.mpr none)))
    rw [← lines_joinLines (trimLines_unbroken (lines_unbroken t)) empty, same,
      lines_joinLines (trimLines_unbroken (lines_unbroken t')) empty']

/-! ### Scanning -/

/-- The length of the encoded characters. -/
def bytes (l : Chars) : Nat := l.foldr (fun c n => c.utf8Size + n) 0

/-- The lines that end with a newline, and the rest if there is one. -/
def tokens (t : Chars) : List Chars :=
  if (lines t).getLast? = some [] then (lines t).dropLast else lines t

def dropCR (l : Chars) : Chars := if l.getLast? = some '\r' then l.dropLast else l

/-- The lines up to the first that does not fit into a buffer of the size, and whether all fit. -/
def scan (size : Nat) (t : Chars) : List Chars × Bool :=
  (((tokens t).takeWhile (bytes · < size)).map dropCR, (tokens t).all (bytes · < size))

/-- The text of the lines, each with its newline. -/
def terminated (ls : List Chars) : Chars := ls.flatMap (· ++ ['\n'])

theorem terminated_eq (ls : List Chars) : terminated ls = joinLines (ls ++ [[]]) := by
  induction ls with
  | nil => rfl
  | cons l ls ih =>
    cases ls with
    | nil => simp [terminated, joinLines, List.intercalate_cons_cons]
    | cons l' ls =>
      rw [terminated, List.flatMap_cons, ← terminated, ih]
      simp only [joinLines, List.cons_append, List.intercalate_cons_cons, List.append_assoc]

theorem tokens_terminated {ls : List Chars} (unbroken : Unbroken ls) : tokens (terminated ls) = ls := by
  have split : lines (terminated ls) = ls ++ [[]] := by
    rw [terminated_eq]
    refine lines_joinLines (fun l member => ?_) (by simp)
    rcases List.mem_append.mp member with old | new
    · exact unbroken l old
    · rw [List.mem_singleton.mp new]
      exact List.not_mem_nil
  rw [tokens, split, List.getLast?_concat, if_pos rfl, List.dropLast_concat]

theorem dropCR_eq {l : Chars} (none : '\r' ∉ l) : dropCR l = l :=
  if_neg fun last => none (List.mem_of_getLast? last)

/-- Lines that fit are all scanned. -/
theorem scan_terminated {size : Nat} {ls : List Chars} (unbroken : Unbroken ls) (fits : ∀ l ∈ ls, bytes l < size) :
    scan size (terminated ls) = (ls.map dropCR, true) := by
  have all : ∀ l ∈ ls, decide (bytes l < size) = true := fun l member => decide_eq_true (fits l member)
  rw [scan, tokens_terminated unbroken, List.takeWhile_eq_self_iff.mpr all, List.all_eq_true.mpr all]

theorem scan_long {size : Nat} {ls : List Chars} (unbroken : Unbroken ls) {l : Chars} (member : l ∈ ls)
    (long : ¬ bytes l < size) : (scan size (terminated ls)).2 = false := by
  rw [scan, tokens_terminated unbroken, List.all_eq_false]
  exact ⟨l, member, by simpa using long⟩

/-- The text without a carriage return at the end of each line. -/
def dropCRs (t : Chars) : Chars := joinLines ((lines t).map dropCR)

theorem lines_dropCRs (t : Chars) : lines (dropCRs t) = (lines t).map dropCR := by
  refine lines_joinLines (fun l member newline => ?_) (by simp [lines])
  obtain ⟨l', inside, rfl⟩ := List.mem_map.mp member
  refine lines_unbroken t l' inside ?_
  unfold dropCR at newline
  split at newline
  · exact List.dropLast_subset _ newline
  · exact newline

theorem dropCRs_eq {t : Chars} (none : '\r' ∉ t) : dropCRs t = t := by
  have same : (lines t).map dropCR = lines t := by
    refine (List.map_congr_left fun l member => dropCR_eq fun inside => none ?_).trans (List.map_id' _)
    rw [← joinLines_lines t]
    exact (mem_joinLines (by decide)).mpr ⟨l, member, inside⟩
  rw [dropCRs, same, joinLines_lines]

@[simp] theorem bytes_nil : bytes [] = 0 := rfl

@[simp] theorem bytes_cons (c : Char) (l : Chars) : bytes (c :: l) = c.utf8Size + bytes l := rfl

@[simp] theorem bytes_append (l l' : Chars) : bytes (l ++ l') = bytes l + bytes l' := by
  induction l with
  | nil => simp
  | cons c l ih =>
    rw [List.cons_append, bytes_cons, bytes_cons, ih]
    omega

end KubeKey.Text
