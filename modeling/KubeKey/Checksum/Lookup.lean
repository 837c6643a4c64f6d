import KubeKey.Text.Lines
import KubeKey.Text.Strings

/-!
# Looking up a checksum

`HTTPChecksum.Get` of `checksum/http_checksum.go` reads a checksum file line by line and takes the sum of the first line
whose file name, as `parseChecksumLine` reads it, is the one asked for. The star of a binary-mode line stays part of the
name, so that no such line is ever found, and of a BSD-style line only the parentheses are looked at, so that any four
words with the name in parentheses second are taken for one.
-/

namespace KubeKey.Checksum
open KubeKey.Text KubeKey.Text.Strings

/-- `strings.Fields`. -/
def fields (s : Chars) : List Chars := (s.splitOnP (· ∈ spaces)).filter (· ≠ [])

/-- `ReadString` up to a newline: the line with its newline, what is left, and whether the end was met. -/
def readString (rd : Chars) : Chars × Chars × Bool :=
  match rd.dropWhile (· ≠ '\n') with
  | [] => (rd, [], true)
  | c :: rest => (rd.takeWhile (· ≠ '\n') ++ [c], rest, false)

/-- What `parseChecksumLine` reads from the words of a line. -/
def parseParts (line : Chars) : List Chars → Except Chars (Chars × Chars)
  | [_, name, _, sum] =>
    if name.length ≤ 2 ∨ name.head? ≠ some '(' ∨ name.getLast? ≠ some ')' then
      .error ("unexpected BSD-style-checksum filename format: ".toList ++ line)
    else .ok (sum, (name.drop 1).dropLast)
  | [sum, name] => .ok (sum, name)
  | [] => .ok ([], [])
  | sum :: _ => .ok (sum, [])

/-- `parseChecksumLine`: the sum and the file name. -/
def parseChecksumLine (line : Chars) : Except Chars (Chars × Chars) := parseParts line (fields line)

/-- The sum that the loop takes from a line, if it takes one. -/
def taken (fileName line : Chars) : Option Chars :=
  match parseChecksumLine line with
  | .error _ => none
  | .ok (sum, name) => if sum = [] then none else if name = fileName then some sum else none

theorem length_readString {rd : Chars} (more : ¬ ((readString rd).2.2 = true ∧ (readString rd).1 = [])) :
    (readString rd).2.1.length < rd.length := by
  unfold readString at *
  split
  · rename_i ended
    rw [ended] at more
    cases rd with
    | nil => exact absurd ⟨rfl, rfl⟩ more
    | cons c cs => exact Nat.succ_pos _
  · rename_i c rest split
    have lengths := congrArg List.length (List.takeWhile_append_dropWhile (p := (· ≠ '\n')) (l := rd))
    rw [split, List.length_append, List.length_cons] at lengths
    dsimp only
    omega

/-- The loop of `Get` over what is left to read. -/
def find (fileName rd : Chars) : Option Chars :=
  if (readString rd).2.2 = true ∧ (readString rd).1 = [] then none
  else
    match taken fileName (readString rd).1 with
    | some sum => some sum
    | none => find fileName (readString rd).2.1
termination_by rd.length
decreasing_by exact length_readString ‹_›

/-! ## The loop goes through the lines -/

theorem mem_fields {s w : Chars} (inside : w ∈ fields s) : w ≠ [] := by
  simpa using (List.mem_filter.1 inside).2

/-- The newline at the end of a line is no word of it. -/
theorem fields_newline (l : Chars) : fields (l ++ ['\n']) = fields l := by
  rw [fields, List.splitOnP_append_cons l [] (by decide), List.filter_append]
  simp [fields]

/-- The line itself stands only in an error. -/
theorem parseParts_toOption (line line' : Chars) (parts : List Chars) :
    (parseParts line parts).toOption = (parseParts line' parts).toOption := by
  unfold parseParts
  split
  · split <;> rfl
  all_goals rfl

theorem taken_eq (fileName line : Chars) :
    taken fileName line = (parseChecksumLine line).toOption.bind fun (sum, name) =>
      if sum = [] then none else if name = fileName then some sum else none := by
  rw [taken]
  cases parseChecksumLine line <;> rfl

theorem taken_newline (fileName l : Chars) : taken fileName (l ++ ['\n']) = taken fileName l := by
  rw [taken_eq, taken_eq, parseChecksumLine, parseChecksumLine, fields_newline, parseParts_toOption _ l]

/-- Reading takes all that is left where there is no newline, and else what comes up to the first. -/
theorem readString_cases (rd : Chars) :
    '\n' ∉ rd ∧ readString rd = (rd, [], true) ∨
      ∃ l rest, '\n' ∉ l ∧ rd = l ++ '\n' :: rest ∧ readString rd = (l ++ ['\n'], rest, false) := by
  by_cases broken : '\n' ∈ rd
  · obtain ⟨l, rest, rfl, unbroken⟩ := List.eq_append_cons_of_mem broken
    refine .inr ⟨l, rest, unbroken, rfl, ?_⟩
    rw [readString, dropWhile_separator unbroken, takeWhile_separator unbroken]
  · refine .inl ⟨broken, ?_⟩
    have all : rd.dropWhile (· ≠ '\n') = [] := List.dropWhile_eq_nil_iff.2 fun c inside => by
      rw [decide_eq_true_eq]
      rintro rfl
      exact broken inside
    rw [readString, all]

theorem taken_nil (fileName : Chars) : taken fileName [] = none := rfl

/-- The loop takes what the first of the lines gives from which anything is taken. -/
theorem find_eq (fileName rd : Chars) : find fileName rd = (lines rd).findSome? (taken fileName) := by
  induction size : rd.length using Nat.strongRecOn generalizing rd with
  | ind n ih =>
    rcases readString_cases rd with ⟨unbroken, read⟩ | ⟨l, rest, unbroken, rfl, read⟩
    · rw [find, read, lines, List.splitOn_eq_singleton unbroken, List.findSome?_singleton]
      by_cases ended : rd = []
      · simp [ended, taken_nil]
      · have nothing : find fileName [] = none := by
          rw [find, if_pos ⟨rfl, rfl⟩]
        simp only [ended, and_false, if_false, nothing]
        cases taken fileName rd <;> rfl
    · rw [find, read, lines, List.splitOn_append_cons_self, List.splitOn_eq_singleton unbroken, List.singleton_append,
        List.findSome?_cons, ← lines]
      have shorter : rest.length < n := by
        rw [← size, List.length_append, List.length_cons]
        omega
      simp only [Bool.false_eq_true, false_and, if_false, taken_newline, ih _ shorter rest rfl]
      cases taken fileName l <;> rfl

/-! ## The lines that list a file -/

/-- The sum for the file on a line of the text mode, of the binary mode or of the BSD style. -/
def listed (fileName line : Chars) : Option Chars :=
  match fields line with
  | [sum, name] => if name = fileName ∨ name = '*' :: fileName then some sum else none
  | [_, name, equals, sum] => if name = '(' :: fileName ++ [')'] ∧ equals = ['='] then some sum else none
  | _ => none

/-- The sum on a line of the text mode or of the BSD style. -/
def plain (fileName line : Chars) : Option Chars :=
  match fields line with
  | [sum, name] => if name = fileName then some sum else none
  | [_, name, equals, sum] => if name = '(' :: fileName ++ [')'] ∧ equals = ['='] then some sum else none
  | _ => none

/-- The sum on a line of the binary mode. -/
def starred (fileName line : Chars) : Option Chars :=
  match fields line with
  | [sum, name] => if name = '*' :: fileName then some sum else none
  | _ => none

/-- The last of four words of which the second is the file in parentheses and the third is no equality sign. -/
def loose (fileName line : Chars) : Option Chars :=
  match fields line with
  | [_, name, equals, sum] => if name = '(' :: fileName ++ [')'] ∧ equals ≠ ['='] then some sum else none
  | _ => none

theorem listed_eq (fileName line : Chars) :
    listed fileName line = (plain fileName line).or (starred fileName line) := by
  unfold listed plain starred
  -- The line has no word, one, two, three, four or more.
  rcases fields line with _ | ⟨sum, _ | ⟨name, _ | ⟨equals, _ | ⟨sum', _ | ⟨more, rest⟩⟩⟩⟩⟩
  case cons.cons.nil =>
    by_cases same : name = fileName
    · simp [same]
    · simp [same]
  case cons.cons.cons.cons.nil => exact (Option.or_none).symm
  all_goals rfl

theorem parentheses_iff {fileName name : Chars} (named : fileName ≠ []) :
    ¬ (name.length ≤ 2 ∨ name.head? ≠ some '(' ∨ name.getLast? ≠ some ')') ∧ (name.drop 1).dropLast = fileName ↔
      name = '(' :: fileName ++ [')'] := by
  constructor
  · rintro ⟨inside, rfl⟩
    simp only [not_or, Nat.not_le, not_not] at inside
    obtain ⟨long, first, last⟩ := inside
    obtain ⟨inner, rfl⟩ := List.head?_eq_some_iff.1 first
    obtain ⟨front, split⟩ := List.getLast?_eq_some_iff.1 last
    cases front with
    | nil => simp at split
    | cons c cs =>
      rw [List.cons_append, List.cons.injEq] at split
      rw [split.2, List.drop_succ_cons, List.drop_zero, List.dropLast_concat, List.cons_append]
  · rintro rfl
    have positive := List.length_pos_iff.2 named
    refine ⟨?_, by simp⟩
    rw [List.getLast?_concat]
    simp only [List.cons_append, List.length_cons, List.length_append, List.length_nil, List.head?_cons, ne_eq,
      not_true_eq_false, or_false]
    omega

theorem parseParts_four (line algorithm name equals sum : Chars) :
    (parseParts line [algorithm, name, equals, sum]).toOption =
      if name.length ≤ 2 ∨ name.head? ≠ some '(' ∨ name.getLast? ≠ some ')' then none
      else some (sum, (name.drop 1).dropLast) := by
  rw [parseParts]
  split <;> rfl

/-- The loop takes the lines of the text mode, those of the BSD style and others of four words. -/
theorem taken_eq_or {fileName : Chars} (named : fileName ≠ []) (line : Chars) :
    taken fileName line = (plain fileName line).or (loose fileName line) := by
  have solid : ∀ w ∈ fields line, w ≠ [] := fun w => mem_fields
  rw [taken_eq, parseChecksumLine, plain, loose]
  generalize fields line = words at solid ⊢
  rcases words with _ | ⟨sum, _ | ⟨name, _ | ⟨equals, _ | ⟨sum', _ | ⟨more, rest⟩⟩⟩⟩⟩
  case nil => rfl
  case cons.cons.nil =>
    have some_ : sum ≠ [] := solid sum (by simp)
    simp [parseParts, Except.toOption, some_]
  case cons.cons.cons.cons.nil =>
    have some_ : sum' ≠ [] := solid sum' (by simp)
    rw [parseParts_four]
    by_cases here : name = '(' :: fileName ++ [')']
    · obtain ⟨inside, inner⟩ := (parentheses_iff named).2 here
      rw [if_neg inside, Option.bind_some, inner]
      by_cases sign : equals = ['=']
      · simp [some_, here, sign]
      · simp [some_, here, sign]
    · simp only [here, false_and, if_false, Option.or_none]
      split
      · rfl
      · rename_i inside
        rw [Option.bind_some, if_neg some_]
        exact if_neg fun inner => here ((parentheses_iff named).1 ⟨inside, inner⟩)
  all_goals simp [parseParts, Except.toOption, named.symm]

/-- A search for one of two kinds finds the second only in front of the first of the first. -/
theorem findSome?_or {α β : Type} (p q : α → Option β) (xs : List α) :
    xs.findSome? (fun x => (p x).or (q x)) =
      ((xs.takeWhile fun x => (p x).isNone).findSome? q).or (xs.findSome? p) := by
  induction xs with
  | nil => rfl
  | cons x xs ih =>
    rw [List.findSome?_cons, List.findSome?_cons, List.takeWhile_cons, ih]
    cases p x with
    | some y => simp
    | none =>
      simp only [Option.none_or, Option.isNone_none, if_true, List.findSome?_cons]
      cases q x <;> simp

end KubeKey.Checksum
