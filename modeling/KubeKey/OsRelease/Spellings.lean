import KubeKey.OsRelease.Parse

/-!
# What is read of an os-release file

A value comes through the parser whole if nothing is lost of it at its ends and by the
replacements (`finish_whole`), so each spelling is read as the value under exactly the condition
that `Spelling.Reads` states. The lines of a file are read one by one, as long as each fits into
the buffer of the scanner.
-/

namespace KubeKey.OsRelease

open KubeKey.Text KubeKey.Text.Strings

/-! ## Ends of values -/

theorem trimLeft_sublist (c : Char) (s : Chars) : (trimLeft c s).Sublist s := List.dropWhile_sublist _

theorem trimRight_sublist (c : Char) (s : Chars) : (trimRight c s).Sublist s := by
  rw [trimRight]
  have inner := (List.dropWhile_sublist (p := (· = c)) (l := s.reverse)).reverse
  rwa [List.reverse_reverse] at inner

theorem trimLeft_eq_iff {c : Char} {s : Chars} : trimLeft c s = s ↔ s.head? ≠ some c := by
  cases s with
  | nil => exact iff_of_true rfl fun absurd_ => by cases absurd_
  | cons d s =>
    rw [trimLeft, List.head?_cons, ne_eq, Option.some.injEq]
    by_cases same : d = c
    · rw [List.dropWhile_cons_of_pos (by simpa using same)]
      refine iff_of_false (fun eq => ?_) fun other => other same
      have short := (List.dropWhile_sublist (p := (· = c)) (l := s)).length_le
      have lengths := congrArg List.length eq
      rw [List.length_cons] at lengths
      omega
    · rw [List.dropWhile_cons_of_neg (by simpa using same)]
      exact iff_of_true rfl same

theorem trimRight_eq_iff {c : Char} {s : Chars} : trimRight c s = s ↔ s.getLast? ≠ some c := by
  rw [← List.head?_reverse, ← trimLeft_eq_iff, trimRight, trimLeft]
  constructor
  · intro same
    rw [← List.reverse_inj, same, List.reverse_reverse]
  · intro same
    rw [same, List.reverse_reverse]

theorem mem_dropWhile {p : Char → Bool} {d : Char} {s : Chars} (other : p d = false) (inside : d ∈ s) :
    d ∈ s.dropWhile p := by
  have whole : d ∈ s.takeWhile p ++ s.dropWhile p := by rwa [List.takeWhile_append_dropWhile]
  rcases List.mem_append.1 whole with front | back
  · have dropped := List.mem_takeWhile_imp front
    rw [other] at dropped
    cases dropped
  · exact back

theorem mem_trimLeft {c d : Char} {s : Chars} (other : d ≠ c) (inside : d ∈ s) : d ∈ trimLeft c s :=
  mem_dropWhile (decide_eq_false other) inside

theorem mem_trimRight {c d : Char} {s : Chars} (other : d ≠ c) (inside : d ∈ s) : d ∈ trimRight c s :=
  List.mem_reverse.2 (mem_dropWhile (decide_eq_false other) (List.mem_reverse.2 inside))

/-- What is done with a value after its quotes. -/
def finish (value : Chars) : Chars :=
  let value := unescape '`' (unescape '\\' (unescape '$' (unescape '"' value)))
  let value := (value.reverse.dropWhile fun c => c = '\r' ∨ c = '\n').reverse
  trimRight '"' (trimLeft '"' value)

theorem parseValue_eq (value : Chars) : parseValue value = finish (unquote (trimRight ' ' (trimLeft ' ' value))) := rfl

/-- There is no line break at the end of a value. -/
theorem trimBreaks {s : Chars} (printed : ∀ c ∈ s, printable c = true) :
    (s.reverse.dropWhile fun c => c = '\r' ∨ c = '\n').reverse = s := by
  have none_ : ∀ c ∈ s.reverse, decide (c = '\r' ∨ c = '\n') = false := by
    intro c inside
    have shown := printed c (List.mem_reverse.1 inside)
    refine decide_eq_false ?_
    rintro (rfl | rfl) <;> revert shown <;> decide
  rw [dropWhile_none none_, List.reverse_reverse]

theorem trimBreaks_sublist (s : Chars) : (s.reverse.dropWhile fun c => c = '\r' ∨ c = '\n').reverse.Sublist s := by
  have inner : (s.reverse.dropWhile fun c => c = '\r' ∨ c = '\n').reverse.Sublist s.reverse.reverse :=
    (List.dropWhile_sublist _).reverse
  rwa [List.reverse_reverse] at inner

theorem finish_trims (u : Chars) : finish u = trimRight '"' (trimLeft '"'
    ((unescape '`' (unescape '\\' (unescape '$' (unescape '"' u)))).reverse.dropWhile
      fun c => c = '\r' ∨ c = '\n').reverse) := rfl

theorem finish_sublist (u : Chars) : (finish u).Sublist u := by
  rw [finish_trims]
  have escapes : (unescape '`' (unescape '\\' (unescape '$' (unescape '"' u)))).Sublist u :=
    (unescape_sublist _ _).trans ((unescape_sublist _ _).trans ((unescape_sublist _ _).trans (unescape_sublist _ _)))
  exact (trimRight_sublist _ _).trans ((trimLeft_sublist _ _).trans ((trimBreaks_sublist _).trans escapes))

/-- What lies between a text and one of its length that it contains is the same. -/
theorem eq_of_between {a b c : Chars} (inner : a.Sublist b) (outer : b.Sublist c) (whole : c.length ≤ a.length) :
    b = c :=
  outer.eq_of_length_le (whole.trans inner.length_le)

/-- A value that comes through whole has nothing that could be lost. -/
theorem finish_whole {u : Chars} (whole : u.length ≤ (finish u).length) :
    u.head? ≠ some '"' ∧ u.getLast? ≠ some '"' ∧ ∀ c, escaped c = true → contains ['\\', c] u = false := by
  have quote := unescape_sublist '"' u
  have dollar := unescape_sublist '$' u
  have backslash := unescape_sublist '\\' u
  have backquote := unescape_sublist '`' u
  have trims : ∀ t : Chars,
      (trimRight '"' (trimLeft '"' (t.reverse.dropWhile fun c => c = '\r' ∨ c = '\n').reverse)).Sublist t :=
    fun t => (trimRight_sublist _ _).trans ((trimLeft_sublist _ _).trans (trimBreaks_sublist t))
  rw [finish_trims] at whole
  have one : unescape '"' u = u := eq_of_between ((trims _).trans ((unescape_sublist _ _).trans
    ((unescape_sublist _ _).trans (unescape_sublist _ _)))) quote whole
  rw [one] at whole
  have two : unescape '$' u = u :=
    eq_of_between ((trims _).trans ((unescape_sublist _ _).trans (unescape_sublist _ _))) dollar whole
  rw [two] at whole
  have three : unescape '\\' u = u := eq_of_between ((trims _).trans (unescape_sublist _ _)) backslash whole
  rw [three] at whole
  have four : unescape '`' u = u := eq_of_between (trims _) backquote whole
  rw [four] at whole
  have five := eq_of_between ((trimRight_sublist _ _).trans (trimLeft_sublist _ _)) (trimBreaks_sublist u) whole
  rw [five] at whole
  have six : trimLeft '"' u = u := eq_of_between (trimRight_sublist _ _) (trimLeft_sublist _ _) whole
  rw [six] at whole
  have seven : trimRight '"' u = u := (trimRight_sublist _ _).eq_of_length_le whole
  refine ⟨trimLeft_eq_iff.1 six, trimRight_eq_iff.1 seven, fun c special => ?_⟩
  simp only [escaped, Bool.or_eq_true, decide_eq_true_iff] at special
  rcases special with ((rfl | rfl) | rfl) | rfl
  · exact not_contains_of_unescape one
  · exact not_contains_of_unescape two
  · exact not_contains_of_unescape three
  · exact not_contains_of_unescape four

theorem finish_eq_iff {v : Chars} (printed : ∀ c ∈ v, printable c = true) : finish v = v ↔
    v.head? ≠ some '"' ∧ v.getLast? ≠ some '"' ∧ ∀ c, escaped c = true → contains ['\\', c] v = false := by
  constructor
  · intro same
    exact finish_whole (by rw [same])
  · rintro ⟨first, last, plain⟩
    have kept : ∀ c, escaped c = true → unescape c v = v := fun c special => unescape_of_not_contains (plain c special)
    rw [finish_trims, kept '"' (by decide), kept '$' (by decide), kept '\\' (by decide), kept '`' (by decide),
      trimBreaks printed, trimLeft_eq_iff.2 first, trimRight_eq_iff.2 last]

/-! ## Spellings -/

/-- A text between two quotes has no blanks around it. -/
theorem trims_quoted {q : Char} (solid : q ≠ ' ') (t : Chars) :
    trimRight ' ' (trimLeft ' ' (q :: t ++ [q])) = q :: t ++ [q] := by
  have first : trimLeft ' ' (q :: t ++ [q]) = q :: t ++ [q] :=
    trimLeft_eq_iff.2 fun same => solid (Option.some.inj same)
  rw [first]
  refine trimRight_eq_iff.2 fun same => ?_
  rw [List.getLast?_append] at same
  exact solid (Option.some.inj same)

theorem trimPrefix_cons (c : Char) (s : Chars) : trimPrefix c (c :: s) = s := if_pos rfl

theorem trimPrefix_other {c : Char} {s : Chars} (other : s.head? ≠ some c) : trimPrefix c s = s := if_neg other

theorem trimSuffix_concat (c : Char) (s : Chars) : trimSuffix c (s ++ [c]) = s := by
  rw [trimSuffix, if_pos (by simp), List.dropLast_concat]

theorem trimSuffix_other {c : Char} {s : Chars} (other : s.getLast? ≠ some c) : trimSuffix c s = s := if_neg other

theorem trimPrefix_sublist (c : Char) (s : Chars) : (trimPrefix c s).Sublist s := by
  rw [trimPrefix]
  split
  · exact List.drop_sublist 1 s
  · exact List.Sublist.refl s

theorem trimSuffix_sublist (c : Char) (s : Chars) : (trimSuffix c s).Sublist s := by
  rw [trimSuffix]
  split
  · exact List.dropLast_sublist s
  · exact List.Sublist.refl s

theorem unquote_double (t : Chars) : unquote ('"' :: t ++ ['"']) = t := by
  have last : ('"' :: t ++ ['"']).getLast? = some '"' := by rw [List.getLast?_append]; rfl
  have apart : ('"' :: t ++ ['"']).head? ≠ some '\'' := by
    intro same
    cases same
  have ends : trimSuffix '\'' (t ++ ['"']) = t ++ ['"'] := by
    refine trimSuffix_other ?_
    rw [List.getLast?_append]
    intro same
    cases same
  rw [unquote, if_pos (by simp), if_pos ⟨last.symm, .inl rfl⟩, trimPrefix_other apart, List.cons_append,
    trimPrefix_cons, ends, trimSuffix_concat]

theorem unquote_single {v : Chars} (inside : '"' ∈ v) :
    unquote ('\'' :: v ++ ['\'']) = trimSuffix '"' (trimPrefix '"' v) := by
  have some_ : v ≠ [] := List.ne_nil_of_mem inside
  have last : ('\'' :: v ++ ['\'']).getLast? = some '\'' := by rw [List.getLast?_append]; rfl
  have begins : trimPrefix '"' (v ++ ['\'']) = trimPrefix '"' v ++ ['\''] := by
    obtain ⟨c, cs, rfl⟩ := List.exists_cons_of_ne_nil some_
    rw [trimPrefix, trimPrefix, List.cons_append, List.head?_cons, List.head?_cons]
    split <;> rfl
  rw [unquote, if_pos (by simp [inside]), if_pos ⟨last.symm, .inr rfl⟩, List.cons_append, trimPrefix_cons, begins,
    trimSuffix_concat]

/-- Every spelling is read as the value exactly where `Reads` says so. -/
theorem parseValue_write_iff {spelling : Spelling} {v : Chars} (printed : ∀ c ∈ v, printable c = true)
    (allowed : spelling.Allows v) : parseValue (spelling.write v) = v ↔ spelling.Reads v := by
  rw [parseValue_eq]
  cases spelling with
  | bare =>
    refine iff_of_true ?_ trivial
    have plain : ∀ c, (c = ' ' ∨ escaped c = true) → c ∉ v := by
      rintro c special inside
      obtain ⟨space, -, -, free⟩ := allowed c inside
      rcases special with same | special
      · exact space same
      · rw [free] at special
        cases special
    have left : trimLeft ' ' v = v := trimLeft_eq_iff.2 fun same => plain ' ' (.inl rfl) (List.mem_of_head? same)
    have right : trimRight ' ' v = v := trimRight_eq_iff.2 fun same => plain ' ' (.inl rfl) (List.mem_of_getLast? same)
    have quote : '"' ∉ v := plain '"' (.inr rfl)
    rw [Spelling.write, left, right, unquote, if_neg quote, finish_eq_iff printed]
    exact ⟨fun same => quote (List.mem_of_head? same), fun same => quote (List.mem_of_getLast? same),
      fun c _ => contains_of_not_mem (plain '\\' (.inr rfl))⟩
  | single =>
    rw [Spelling.write, trims_quoted (by decide), Spelling.Reads]
    by_cases inside : '"' ∈ v
    · rw [unquote_single inside, and_iff_right inside, ← finish_eq_iff printed]
      have within : (trimSuffix '"' (trimPrefix '"' v)).Sublist v :=
        (trimSuffix_sublist _ _).trans (trimPrefix_sublist _ _)
      constructor
      · intro same
        have short := (finish_sublist (trimSuffix '"' (trimPrefix '"' v))).length_le
        rw [same] at short
        rwa [within.eq_of_length_le short] at same
      · intro same
        obtain ⟨first, last, -⟩ := (finish_eq_iff printed).1 same
        rw [trimPrefix_other first, trimSuffix_other last, same]
    · refine iff_of_false ?_ fun both => inside both.1
      have single : '\'' ∈ finish ('\'' :: v ++ ['\'']) := by
        rw [finish_trims]
        refine mem_trimRight (by decide) (mem_trimLeft (by decide) ?_)
        refine List.mem_reverse.2 (mem_dropWhile (by decide) (List.mem_reverse.2 ?_))
        exact mem_unescape (by decide) (mem_unescape (by decide) (mem_unescape (by decide)
          (mem_unescape (by decide) List.mem_cons_self)))
      rw [unquote, if_neg (by simpa using inside)]
      intro same
      rw [same] at single
      exact allowed single
  | double =>
    have quoted : Spelling.double.write v = '"' :: escape v ++ ['"'] := rfl
    rw [quoted, trims_quoted (by decide), unquote_double, finish_trims, unescape_escape, trimBreaks printed]
    constructor
    · intro same
      have left : trimLeft '"' v = v := eq_of_between (trimRight_sublist _ _) (trimLeft_sublist _ _) (by rw [same])
      rw [left] at same
      exact ⟨trimLeft_eq_iff.1 left, trimRight_eq_iff.1 same⟩
    · rintro ⟨first, last⟩
      rw [trimLeft_eq_iff.2 first, trimRight_eq_iff.2 last]

/-! ## Lines -/

theorem Key.not_mem (key : Key) {c : Char} (alphanum : c.isAlphanum = false) (underscore : c ≠ '_') : c ∉ key.text := by
  intro inside
  rcases key.named c inside with named | same
  · rw [alphanum] at named
    cases named
  · exact underscore same

/-- A line with a key is split behind it. -/
theorem parseLine_assignment (key : Key) (w : Chars) :
    parseLine (key.text ++ '=' :: w) = some (key.text, parseValue w) := by
  have equals : '=' ∉ key.text := key.not_mem (by decide) (by decide)
  have space : ' ' ∉ key.text := key.not_mem (by decide) (by decide)
  have hash : '#' ∉ key.text := key.not_mem (by decide) (by decide)
  have named : ¬ (key.text ++ '=' :: w = [] ∨ (key.text ++ '=' :: w).head? = some '#') := by
    rintro (none_ | first)
    · exact key.some_ (List.append_eq_nil_iff.1 none_).1
    · rw [List.head?_append_of_ne_nil _ key.some_] at first
      exact hash (List.mem_of_head? first)
  have left : trimLeft ' ' key.text = key.text := trimLeft_eq_iff.2 fun same => space (List.mem_of_head? same)
  have right : trimRight ' ' key.text = key.text := trimRight_eq_iff.2 fun same => space (List.mem_of_getLast? same)
  rw [parseLine, if_neg named, if_pos (by simp), before_append equals, after_append equals, left, right]

/-- A line that is no assignment adds nothing. -/
theorem parseLine_none {l : Line} (none_ : l.meaning = none) : parseLine (dropCR l.text) = none := by
  cases l with
  | assignment key spelling value printed allowed => cases none_
  | comment text unbroken =>
    have first : (dropCR ('#' :: text)).head? = some '#' := by
      unfold dropCR
      split
      · next last =>
        cases text with
        | nil => cases last
        | cons c cs => rfl
      · rfl
    rw [Line.text, parseLine, if_pos (.inr first)]
  | blank text spaces =>
    have equals : '=' ∉ dropCR text := by
      rw [dropCR_eq fun inside => by rcases spaces _ inside with same | same <;> cases same]
      intro inside
      rcases spaces _ inside with same | same <;> cases same
    rw [Line.text, parseLine, if_neg equals]
    split <;> rfl

theorem mem_write {spelling : Spelling} {v : Chars} {c : Char} (inside : c ∈ spelling.write v) :
    c ∈ v ∨ c = '\'' ∨ c = '"' ∨ c = '\\' := by
  cases spelling with
  | bare => exact .inl inside
  | single =>
    simp only [Spelling.write, List.cons_append, List.mem_cons, List.mem_append, List.not_mem_nil, or_false] at inside
    tauto
  | double =>
    simp only [Spelling.write, List.cons_append, List.mem_cons, List.mem_append, List.not_mem_nil, or_false] at inside
    have inner : c ∈ escape v → c ∈ v ∨ c = '\\' := by
      intro escaped_
      obtain ⟨d, there, here⟩ := List.mem_flatMap.1 escaped_
      split at here
      · rcases List.mem_cons.1 here with rfl | here
        · exact .inr rfl
        · exact .inl (List.mem_singleton.1 here ▸ there)
      · exact .inl (List.mem_singleton.1 here ▸ there)
    tauto

/-- A line has no line break in it, and an assignment has none at its end either. -/
theorem not_mem_assignment {key : Key} {spelling : Spelling} {value : Chars} (printed : ∀ c ∈ value, printable c = true)
    {c : Char} (broken : c = '\n' ∨ c = '\r') : c ∉ key.text ++ '=' :: spelling.write value := by
  intro inside
  rcases List.mem_append.1 inside with there | there
  · refine key.not_mem ?_ ?_ there <;> rcases broken with rfl | rfl <;> decide
  · rcases List.mem_cons.1 there with same | there
    · rcases broken with rfl | rfl <;> cases same
    · rcases mem_write there with there | same | same | same
      · have shown := printed c there
        rcases broken with rfl | rfl <;> revert shown <;> decide
      all_goals rcases broken with rfl | rfl <;> cases same

theorem text_unbroken (l : Line) : '\n' ∉ l.text := by
  cases l with
  | assignment key spelling value printed allowed => exact not_mem_assignment printed (.inl rfl)
  | comment text unbroken =>
    intro inside
    rcases List.mem_cons.1 inside with same | inside
    · cases same
    · exact unbroken inside
  | blank text spaces =>
    intro inside
    rcases spaces _ inside with same | same <;> cases same

/-- A line is read as it is meant. -/
theorem parseLine_text_iff (l : Line) : parseLine (dropCR l.text) = l.meaning ↔ l.Read := by
  cases l with
  | assignment key spelling value printed allowed =>
    rw [Line.text, dropCR_eq (not_mem_assignment printed (.inr rfl)), parseLine_assignment, Line.meaning,
      Option.some.injEq, Prod.mk.injEq, and_iff_right rfl, parseValue_write_iff printed allowed, Line.Read]
  | comment text unbroken => exact iff_of_true (parseLine_none rfl) trivial
  | blank text spaces => exact iff_of_true (parseLine_none rfl) trivial

/-! ## Files -/

theorem info_file (ls : List Line) : info (file ls) =
    if ∀ l ∈ ls, bytes l.text < maxScanTokenSize then ls.filterMap fun l => parseLine (dropCR l.text) else [] := by
  have unbroken : Unbroken (ls.map Line.text) := by
    intro t inside
    obtain ⟨l, -, rfl⟩ := List.mem_map.1 inside
    exact text_unbroken l
  by_cases fits : ∀ l ∈ ls, bytes l.text < maxScanTokenSize
  · rw [if_pos fits, info, file, scan_terminated unbroken (List.forall_mem_map.2 fits)]
    simp only [if_true, List.map_map, List.filterMap_map]
    rfl
  · obtain ⟨l, inside, long⟩ : ∃ l ∈ ls, ¬ bytes l.text < maxScanTokenSize := by
      by_contra none_
      exact fits fun l inside => by_contra fun long => none_ ⟨l, inside, long⟩
    have failed := scan_long unbroken (List.mem_map_of_mem inside) long
    rw [if_neg fits, info, file]
    simp only [failed, Bool.false_eq_true, if_false]

/-- Two readings that take the same lines for assignments agree exactly line by line. -/
theorem filterMap_eq_iff {α β : Type} {f g : α → Option β} {xs : List α}
    (same : ∀ x ∈ xs, (f x).isSome = (g x).isSome) :
    xs.filterMap f = xs.filterMap g ↔ ∀ x ∈ xs, f x = g x := by
  induction xs with
  | nil => exact iff_of_true rfl fun x inside => absurd inside List.not_mem_nil
  | cons x xs ih =>
    have here := same x List.mem_cons_self
    have rest := ih fun y inside => same y (List.mem_cons_of_mem _ inside)
    rw [List.forall_mem_cons, ← rest]
    cases first : f x with
    | none =>
      cases second : g x with
      | none => rw [List.filterMap_cons_none first, List.filterMap_cons_none second, and_iff_right rfl]
      | some v =>
        rw [first, second] at here
        cases here
    | some u =>
      cases second : g x with
      | none =>
        rw [first, second] at here
        cases here
      | some v =>
        rw [List.filterMap_cons_some first, List.filterMap_cons_some second, List.cons.injEq, Option.some.injEq]

/-- The assignments of a file, and nothing else, are read as they are meant exactly if each line is, and fits. -/
theorem info_file_iff (ls : List Line) : info (file ls) = ls.filterMap Line.meaning ↔
    ls.filterMap Line.meaning = [] ∨ ∀ l ∈ ls, bytes l.text < maxScanTokenSize ∧ l.Read := by
  have same : ∀ l ∈ ls, (parseLine (dropCR l.text)).isSome = l.meaning.isSome := by
    intro l _
    cases l with
    | assignment key spelling value printed allowed =>
      rw [Line.text, dropCR_eq (not_mem_assignment printed (.inr rfl)), parseLine_assignment]
      rfl
    | comment text unbroken => rw [parseLine_none rfl]; rfl
    | blank text spaces => rw [parseLine_none rfl]; rfl
  rw [info_file]
  split
  · next fits =>
    rw [filterMap_eq_iff same]
    simp only [parseLine_text_iff]
    constructor
    · exact fun read => .inr fun l inside => ⟨fits l inside, read l inside⟩
    · rintro (none_ | read) l inside
      · have silent : l.meaning = none := List.filterMap_eq_nil_iff.1 none_ l inside
        rw [← parseLine_text_iff, silent, parseLine_none silent]
      · exact (read l inside).2
  · next long =>
    constructor
    · exact fun none_ => .inl none_.symm
    · rintro (none_ | read)
      · exact none_.symm
      · exact absurd (fun l inside => (read l inside).1) long

/-- The key `ID`. -/
def idKey : Key where
  text := "ID".toList
  some_ := by decide
  named c inside := by
    have either : c = 'I' ∨ c = 'D' := by simpa using inside
    rcases either with rfl | rfl
    · exact .inl rfl
    · exact .inl rfl

/-- A value in single quotes keeps them. -/
theorem info_single : ¬ ∀ ls : List Line, info (file ls) = ls.filterMap Line.meaning := by
  intro all
  have read := all [.assignment idKey .single "ubuntu".toList (List.all_eq_true.mp (by decide))
    (by decide : '\'' ∉ "ubuntu".toList)]
  revert read
  decide +kernel

end KubeKey.OsRelease
