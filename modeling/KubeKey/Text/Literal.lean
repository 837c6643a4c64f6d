import KubeKey.Text.Lines

/-!
# Literal block scalars

How YAML reads the lines of a literal scalar. The scalar takes its indentation from its
first line that is not empty. So a text that is indented by a fixed number of spaces is read
back exactly when this line of it does not begin with a space of its own.
-/

namespace KubeKey.Text

/-- Why a document has no value: the specification forbids it, or it is not of the kind that is described here. -/
inductive Stop where
  | refused
  | outside
deriving DecidableEq

/-- A value of a document. -/
inductive Value where
  | null
  | bool (b : Bool)
  | number (t : Chars)
  | str (t : Chars)
  | seq (items : List Value)
  | map (fields : List (Chars × Value))

def indentation (l : Chars) : Nat := (l.takeWhile (· = ' ')).length

/-- The line has only spaces. -/
def blank (l : Chars) : Bool := l.all (· = ' ')

def indent (m : Nat) (l : Chars) : Chars := List.replicate m ' ' ++ l

/-- The lines that decide the indentation: the blank ones in front, and the first other one. -/
def leading (ls : List Chars) : List Chars := ls.takeWhile blank ++ (ls.dropWhile blank).take 1

/-- The indentation of a literal scalar in a node that is indented by `n`. -/
def literalIndent (n : Nat) (ls : List Chars) : Nat := ((leading ls).map indentation).foldl max (n + 1)

/-- The line belongs to a literal scalar of the indentation. -/
def inLiteral (i : Nat) (l : Chars) : Bool := blank l || decide (i ≤ indentation l)

def literalLines (n : Nat) (ls : List Chars) : List Chars :=
  (ls.takeWhile (inLiteral (literalIndent n ls))).map (List.drop (literalIndent n ls))

/-- The text of the lines, with one newline at the end if it is not empty. -/
def clip (ls : List Chars) : Chars := if trimLines ls = [] then [] else joinLines (trimLines ls) ++ ['\n']

def comment (l : Chars) : Bool := (l.dropWhile (· = ' ')).head? = some '#'

/-- The first line that is not blank begins with a tab. Not all readers take it for a part of the scalar. -/
def tabbed (ls : List Chars) : Bool :=
  (ls.dropWhile blank).head?.any fun l => decide ((l.dropWhile (· = ' ')).head? = some '\t')

/-- The scalar in the lines that are indented deeper than `n`. Less indented lines after it can
only be comments; a lenient reader takes all of them for comments when the first is one. -/
def readLiteral (lenient : Bool) (n : Nat) (ls : List Chars) : Except Stop Value :=
  if tabbed ls then .error .outside
  else match ls.dropWhile (inLiteral (literalIndent n ls)) with
  | [] => .ok (.str (clip (literalLines n ls)))
  | l :: _ => if lenient && comment l then .ok (.str (clip (literalLines n ls))) else .error .refused

/-- The first character that is not a newline. -/
def firstChar (t : Chars) : Option Char := (t.dropWhile (· = '\n')).head?

/-- Up to empty lines at the end the text of the lines has these lines. -/
theorem trimLines_lines_clip {ls : List Chars} (unbroken : Unbroken ls) :
    trimLines (lines (clip ls)) = trimLines ls := by
  unfold clip
  split
  · next empty =>
    rw [empty]
    rfl
  · next some_ =>
    have terminated : joinLines (trimLines ls) ++ ['\n'] = joinLines (trimLines ls ++ [[]]) :=
      (joinLines_concat some_ []).symm
    have unbroken' : Unbroken (trimLines ls ++ [[]]) := by
      intro l member
      rcases List.mem_append.mp member with old | new
      · exact trimLines_unbroken unbroken l old
      · rw [List.mem_singleton.mp new]
        exact List.not_mem_nil
    rw [terminated, lines_joinLines unbroken' (by simp)]
    exact (List.rdropWhile_concat_pos _ _ _ rfl).trans (List.rdropWhile_idempotent _ _)

theorem getElem?_of_prefix {xs ys : List Chars} {k : Nat} {l : Chars} (front : xs <+: ys) (here : xs[k]? = some l) :
    ys[k]? = some l := by
  obtain ⟨rest, rfl⟩ := front
  rwa [List.getElem?_append_left (List.getElem?_eq_some_iff.mp here).1]

theorem getElem?_trimLines {ls : List Chars} {l : Chars} {k : Nat} (here : ls[k]? = some l) (nonempty : l ≠ []) :
    (trimLines ls)[k]? = some l := by
  have split : trimLines ls ++ ls.rtakeWhile (·.isEmpty) = ls := List.rdropWhile_append_rtakeWhile ..
  rw [← split] at here
  rcases Nat.lt_or_ge k (trimLines ls).length with inside | past
  · rwa [List.getElem?_append_left inside] at here
  · rw [List.getElem?_append_right past] at here
    have empty : l.isEmpty := List.mem_rtakeWhile_imp (List.mem_of_getElem? here)
    exact absurd (List.isEmpty_iff.mp empty) nonempty

theorem indentation_indent (m : Nat) (l : Chars) : indentation (indent m l) = m + indentation l := by
  induction m with
  | zero => simp [indent]
  | succ m ih =>
    have step : indentation (indent (m + 1) l) = indentation (indent m l) + 1 := by
      simp [indentation, indent, List.replicate_succ]
    rw [step, ih]
    omega

theorem blank_indent (m : Nat) (l : Chars) : blank (indent m l) = blank l := by simp [blank, indent]

theorem tabbed_indent (m : Nat) (ls : List Chars) : tabbed (ls.map (indent m)) = tabbed ls := by
  have spaces : ∀ l, (indent m l).dropWhile (· = ' ') = l.dropWhile (· = ' ') := fun l =>
    List.dropWhile_append_of_pos fun c member => by simp [List.eq_of_mem_replicate member]
  induction ls with
  | nil => rfl
  | cons l ls ih =>
    rw [List.map_cons, tabbed, tabbed, List.dropWhile_cons, List.dropWhile_cons, blank_indent]
    split
    · exact ih
    · simp [spaces]

theorem bytes_indent (m : Nat) (l : Chars) : bytes (indent m l) = m + bytes l := by
  induction m with
  | zero => simp [indent]
  | succ m ih =>
    have step : indent (m + 1) l = ' ' :: indent m l := rfl
    have one : ' '.utf8Size = 1 := rfl
    rw [step, bytes_cons, ih, one]
    omega

theorem dropCR_indent (m : Nat) (l : Chars) : dropCR (indent m l) = indent m (dropCR l) := by
  have last : '\r' ∉ List.replicate m ' ' := fun member => by cases List.eq_of_mem_replicate member
  cases l with
  | nil =>
    rw [show indent m [] = List.replicate m ' ' from List.append_nil _, dropCR_eq last]
    exact (List.append_nil _).symm
  | cons c l =>
    rw [dropCR, indent, List.getLast?_append_of_ne_nil _ (List.cons_ne_nil _ _), dropCR]
    split
    · exact List.dropLast_append_of_ne_nil (List.cons_ne_nil _ _)
    · rfl

theorem drop_indent (m : Nat) (l : Chars) : (indent m l).drop m = l := by simp [indent]

/-- A line that comes after blank lines only is leading. -/
theorem mem_leading {front ls : List Chars} {l : Chars} (blanks : ∀ l' ∈ front, blank l' = true) :
    l ∈ leading (front ++ l :: ls) := by
  induction front with
  | nil =>
    cases isBlank : blank l with
    | true => simp [leading, isBlank]
    | false => simp [leading, isBlank]
  | cons l' front ih =>
    have first : blank l' = true := blanks l' List.mem_cons_self
    have rest := ih fun l'' member => blanks l'' (List.mem_cons_of_mem _ member)
    simp only [leading, List.cons_append, List.takeWhile_cons, List.dropWhile_cons, first, if_true] at rest ⊢
    exact List.mem_cons_of_mem _ rest

theorem le_foldl_max (is : List Nat) (n : Nat) : n ≤ is.foldl max n ∧ ∀ i ∈ is, i ≤ is.foldl max n := by
  induction is generalizing n with
  | nil => exact ⟨Nat.le_refl n, fun i member => by cases member⟩
  | cons j is ih =>
    obtain ⟨base, rest⟩ := ih (max n j)
    refine ⟨by rw [List.foldl_cons]; omega, fun i member => ?_⟩
    rw [List.foldl_cons]
    rcases List.mem_cons.mp member with rfl | member
    · omega
    · exact rest i member

theorem foldl_max_const {is : List Nat} {m : Nat} (all : ∀ i ∈ is, i = m) : is.foldl max m = m := by
  induction is with
  | nil => rfl
  | cons i is ih =>
    rw [List.foldl_cons, all i List.mem_cons_self, Nat.max_self]
    exact ih fun i member => all i (List.mem_cons_of_mem _ member)

theorem foldl_max_eq {is : List Nat} {n m : Nat} (some_ : is ≠ []) (below : n ≤ m) (all : ∀ i ∈ is, i = m) :
    is.foldl max n = m := by
  cases is with
  | nil => exact absurd rfl some_
  | cons i is =>
    rw [List.foldl_cons, all i List.mem_cons_self, Nat.max_eq_right below]
    exact foldl_max_const fun i member => all i (List.mem_cons_of_mem _ member)

/-- The lines of a text are empty up to the one that begins with its first character. -/
theorem lines_split (t : Chars) :
    (firstChar t = none ∧ ∃ k, lines t = List.replicate (k + 1) []) ∨
      ∃ c k l ls, firstChar t = some c ∧ lines t = List.replicate k [] ++ (c :: l) :: ls := by
  induction t with
  | nil => exact Or.inl ⟨rfl, 0, rfl⟩
  | cons c t ih =>
    by_cases newline : c = '\n'
    · have first : firstChar (c :: t) = firstChar t := by simp [firstChar, newline]
      rw [first, lines_cons, if_pos newline]
      rcases ih with ⟨none, k, split⟩ | ⟨c', k, l, ls, some_, split⟩
      · exact Or.inl ⟨none, k + 1, by rw [split]; rfl⟩
      · exact Or.inr ⟨c', k + 1, l, ls, some_, by rw [split]; rfl⟩
    · refine Or.inr ⟨c, 0, ?_⟩
      rw [lines_cons, if_neg newline]
      cases split : lines t with
      | nil => exact absurd split (List.splitOn_ne_nil _ _)
      | cons l ls => exact ⟨l, ls, by simp [firstChar, newline], rfl⟩

/-- A text whose first character is no space is read back from its indented lines. -/
theorem readLiteral_indent (lenient : Bool) {n m : Nat} (deeper : n < m) {t : Chars}
    (untabbed : tabbed (lines t) = false) (flush : firstChar t ≠ some ' ') :
    readLiteral lenient n ((lines t).map (indent m)) = .ok (.str (clip (lines t))) := by
  have blankEmpty : blank (indent m []) = true := blank_indent m []
  have level : ∀ l ∈ leading ((lines t).map (indent m)), indentation l = m := by
    have empty : indentation (indent m []) = m := indentation_indent m []
    rcases lines_split t with ⟨-, k, split⟩ | ⟨c, k, l, ls, first, split⟩
    · intro l member
      rw [split, List.map_replicate] at member
      have member' : l ∈ List.replicate (k + 1) (indent m []) := by
        rcases List.mem_append.mp member with front | next_
        · exact (List.takeWhile_subset _) front
        · exact List.dropWhile_subset _ (List.take_subset _ _ next_)
      rw [List.eq_of_mem_replicate member', empty]
    · have visible : c ≠ ' ' := fun same => flush (by rw [first, same])
      have notBlank : blank (indent m (c :: l)) = false := by
        rw [blank_indent]
        simp [blank, visible]
      have its : indentation (indent m (c :: l)) = m := by
        rw [indentation_indent]
        simp [indentation, visible]
      intro l' member
      rw [split, List.map_append, List.map_replicate, List.map_cons, leading,
        List.takeWhile_append_of_pos (fun l'' rep => by rw [List.eq_of_mem_replicate rep, blankEmpty]),
        List.dropWhile_append_of_pos (fun l'' rep => by rw [List.eq_of_mem_replicate rep, blankEmpty]),
        List.takeWhile_cons_of_neg (by simp [notBlank]), List.dropWhile_cons_of_neg (by simp [notBlank]),
        List.append_nil] at member
      rcases List.mem_append.mp member with front | next_
      · rw [List.eq_of_mem_replicate front, empty]
      · rw [List.mem_singleton.mp next_, its]
  have whole : literalIndent n ((lines t).map (indent m)) = m := by
    refine foldl_max_eq ?_ deeper fun i member => ?_
    · cases split : lines t with
      | nil => exact absurd split (List.splitOn_ne_nil _ _)
      | cons l ls =>
        have first : indent m l ∈ leading ((l :: ls).map (indent m)) := @mem_leading [] _ _ (by simp)
        intro none
        rw [List.map_eq_nil_iff.mp none] at first
        cases first
    · obtain ⟨l, leads, rfl⟩ := List.mem_map.mp member
      exact level l leads
  have inside : ∀ l ∈ (lines t).map (indent m), inLiteral m l = true := by
    intro l member
    obtain ⟨l', -, rfl⟩ := List.mem_map.mp member
    rw [inLiteral, indentation_indent, Bool.or_eq_true]
    exact Or.inr (by simp)
  have body : literalLines n ((lines t).map (indent m)) = lines t := by
    rw [literalLines, whole, List.takeWhile_eq_self_iff.mpr inside, List.map_map]
    exact (List.map_congr_left fun l _ => drop_indent m l).trans (List.map_id' _)
  rw [readLiteral, tabbed_indent, untabbed, if_neg Bool.false_ne_true, whole,
    List.dropWhile_eq_nil_iff.mpr inside, body]

/-- Whatever it is, what a literal scalar gives is the text of its lines. -/
theorem readLiteral_cases (lenient : Bool) (n : Nat) {ls : List Chars} (untabbed : tabbed ls = false) :
    readLiteral lenient n ls = .error .refused ∨
      readLiteral lenient n ls = .ok (.str (clip (literalLines n ls))) := by
  rw [readLiteral, untabbed, if_neg Bool.false_ne_true]
  split
  · exact Or.inr rfl
  split
  · exact Or.inr rfl
  · exact Or.inl rfl

/-- The characters of a literal scalar are in its lines. -/
theorem mem_clip {ls : List Chars} {c : Char} (other : c ≠ '\n') (member : c ∈ clip ls) : ∃ l ∈ ls, c ∈ l := by
  have joined : c ∈ joinLines (trimLines ls) := by
    unfold clip at member
    split at member
    · cases member
    · refine (List.mem_append.mp member).elim id fun newline => ?_
      exact absurd (List.mem_singleton.mp newline) other
  obtain ⟨l, inside, here⟩ := (mem_joinLines other).mp joined
  exact ⟨l, (List.rdropWhile_prefix _ _).subset inside, here⟩

theorem mem_literalLines {n : Nat} {ls : List Chars} {l : Chars} (member : l ∈ literalLines n ls) :
    ∃ l' ∈ ls, l ⊆ l' := by
  obtain ⟨l', inside, rfl⟩ := List.mem_map.mp member
  exact ⟨l', List.takeWhile_subset _ inside, List.drop_subset _ _⟩

theorem literalLines_unbroken {n : Nat} {ls : List Chars} (unbroken : Unbroken ls) : Unbroken (literalLines n ls) := by
  intro l member newline
  obtain ⟨l', inside, part⟩ := mem_literalLines member
  exact unbroken l' inside (part newline)

/-- A text whose first character is a space has lost it, at least. -/
theorem literalLines_shifted {n m : Nat} {t : Chars} (space : firstChar t = some ' ') :
    trimLines (literalLines n ((lines t).map (indent m))) ≠ trimLines (lines t) := by
  rcases lines_split t with ⟨none, -⟩ | ⟨c, k, l, ls, first, split⟩
  · cases none.symm.trans space
  cases first.symm.trans space
  have blanks : ∀ l' ∈ List.replicate k (indent m []), blank l' = true := fun l' member => by
    rw [List.eq_of_mem_replicate member]
    exact blank_indent m []
  have leads : indent m (' ' :: l) ∈ leading ((lines t).map (indent m)) := by
    rw [split, List.map_append, List.map_replicate, List.map_cons]
    exact mem_leading blanks
  have deeper : m < literalIndent n ((lines t).map (indent m)) := by
    have above := (le_foldl_max _ (n + 1)).2 _ (List.mem_map_of_mem (f := indentation) leads)
    rw [indentation_indent] at above
    have own : 0 < indentation (' ' :: l) := by simp [indentation]
    exact Nat.lt_of_lt_of_le (by omega) above
  intro same
  have here : (lines t)[k]? = some (' ' :: l) := by
    rw [split, List.getElem?_append_right (by simp)]
    simp
  -- the line has become shorter, if it is still there
  have kept : (literalLines n ((lines t).map (indent m)))[k]? = some (' ' :: l) := by
    have trimmed := same ▸ getElem?_trimLines here (List.cons_ne_nil _ _)
    exact getElem?_of_prefix (List.rdropWhile_prefix _ _) trimmed
  rw [literalLines, List.getElem?_map] at kept
  obtain ⟨l', inside, dropped⟩ := Option.map_eq_some_iff.mp kept
  have its : ((lines t).map (indent m))[k]? = some l' := getElem?_of_prefix (List.takeWhile_prefix _) inside
  rw [List.getElem?_map, here] at its
  cases its
  have shorter := congrArg List.length dropped
  simp only [indent, List.length_drop, List.length_append, List.length_replicate, List.length_cons] at shorter
  omega

end KubeKey.Text
