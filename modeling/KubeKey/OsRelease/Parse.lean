import KubeKey.Text.Lines
import KubeKey.Text.Strings

/-!
# Parsing an os-release file

`util/osrelease/osrelease.go`. A line is split at its first equals sign. The value loses the
quotes around it, if there is a double quote anywhere in it, then its escapes, one replacement of
the whole value for each escaped character, and at last every double quote at its ends.

The replacements undo the escapes of a value in double quotes, in the order they are in
(`unescape_escape`). What goes wrong is around them: a value in single quotes that has no double
quote keeps its quotes, one that has escapes loses them, and a value that begins or ends with a
double quote loses that.
-/

namespace KubeKey.OsRelease

open KubeKey.Text KubeKey.Text.Strings

/-! ## The source -/

/-- `Data`. -/
structure Data where
  iD : Chars
  iDLike : Chars
  name : Chars
  prettyName : Chars
  version : Chars
  versionID : Chars
deriving DecidableEq

/-- `strings.TrimLeft` of one character. -/
def trimLeft (c : Char) (s : Chars) : Chars := s.dropWhile (· = c)

/-- `strings.TrimPrefix` of one character. -/
def trimPrefix (c : Char) (s : Chars) : Chars := if s.head? = some c then s.drop 1 else s

/-- `strings.TrimSuffix` of one character. -/
def trimSuffix (c : Char) (s : Chars) : Chars := if s.getLast? = some c then s.dropLast else s

/-- `strings.Replace` of all escapes of the character. -/
def unescape (c : Char) : Chars → Chars
  | [] => []
  | b :: cs =>
    if b = '\\' then
      match cs with
      | [] => [b]
      | d :: ds => if d = c then c :: unescape c ds else b :: unescape c (d :: ds)
    else b :: unescape c cs

/-- The value without the quotes around it. -/
def unquote (value : Chars) : Chars :=
  if '"' ∈ value then
    if value.head? = value.getLast? ∧ (value.head? = some '"' ∨ value.head? = some '\'') then
      trimSuffix '"' (trimSuffix '\'' (trimPrefix '"' (trimPrefix '\'' value)))
    else value
  else value

/-- What is done with the text after the equals sign. -/
def parseValue (value : Chars) : Chars :=
  let value := unquote (trimRight ' ' (trimLeft ' ' value))
  let value := unescape '`' (unescape '\\' (unescape '$' (unescape '"' value)))
  let value := (value.reverse.dropWhile fun c => c = '\r' ∨ c = '\n').reverse
  trimRight '"' (trimLeft '"' value)

/-- `parseLine`. -/
def parseLine (line : Chars) : Option (Chars × Chars) :=
  if line = [] ∨ line.head? = some '#' then none
  else if '=' ∈ line then some (trimRight ' ' (trimLeft ' ' (before '=' line)), parseValue (after '=' line))
  else none

/-- The buffer of a scanner. -/
def maxScanTokenSize : Nat := 64 * 1024

/-- What is put into the map, in order. There is nothing if a line is too long for the scanner. -/
def info (content : Chars) : List (Chars × Chars) :=
  let (lines, ok) := scan maxScanTokenSize content
  if ok then lines.filterMap parseLine else []

/-- The value of a key in the map. -/
def lookup (entries : List (Chars × Chars)) (key : String) : Chars :=
  ((entries.reverse.find? fun e => e.1 = key.toList).map Prod.snd).getD []

/-- `Parse`. -/
def parse (content : Chars) : Data :=
  let entries := info content
  ⟨lookup entries "ID", lookup entries "ID_LIKE", lookup entries "NAME", lookup entries "PRETTY_NAME",
    lookup entries "VERSION", lookup entries "VERSION_ID"⟩

/-! ## The format -/

/-- A key: letters, digits and underscores. -/
structure Key where
  text : Chars
  some_ : text ≠ []
  named : ∀ c ∈ text, c.isAlphanum = true ∨ c = '_'

/-- How a value is written. -/
inductive Spelling where
  | bare
  | single
  | double
deriving DecidableEq

/-- A character that is escaped between double quotes. -/
def escaped (c : Char) : Bool := c = '"' || c = '$' || c = '\\' || c = '`'

def escape (v : Chars) : Chars := v.flatMap fun c => if escaped c then ['\\', c] else [c]

namespace Spelling

def write : Spelling → Chars → Chars
  | bare, v => v
  | single, v => '\'' :: v ++ ['\'']
  | double, v => '"' :: escape v ++ ['"']

/-- The value can be written so: without quotes if it has no blank, no quote and nothing that is escaped, and between
single quotes if it has none. -/
def Allows : Spelling → Chars → Prop
  | bare, v => ∀ c ∈ v, c ≠ ' ' ∧ c ≠ '\t' ∧ c ≠ '\'' ∧ escaped c = false
  | single, v => '\'' ∉ v
  | double, _ => True

/-- The value is read as it is. -/
def Reads : Spelling → Chars → Prop
  | bare, _ => True
  | single, v =>
    '"' ∈ v ∧ v.head? ≠ some '"' ∧ v.getLast? ≠ some '"' ∧ ∀ c, escaped c = true → contains ['\\', c] v = false
  | double, v => v.head? ≠ some '"' ∧ v.getLast? ≠ some '"'

end Spelling

/-- A character that is printed. -/
def printable (c : Char) : Bool := 32 ≤ c.toNat && c.toNat ≠ 127

/-- A line of the file. -/
inductive Line where
  | assignment (key : Key) (spelling : Spelling) (value : Chars) (printed : ∀ c ∈ value, printable c = true)
      (allowed : spelling.Allows value)
  | comment (text : Chars) (unbroken : '\n' ∉ text)
  | blank (text : Chars) (spaces : ∀ c ∈ text, c = ' ' ∨ c = '\t')

namespace Line

def text : Line → Chars
  | assignment key spelling value _ _ => key.text ++ '=' :: spelling.write value
  | comment text _ => '#' :: text
  | blank text _ => text

/-- What the line says. -/
def meaning : Line → Option (Chars × Chars)
  | assignment key _ value _ _ => some (key.text, value)
  | comment _ _ => none
  | blank _ _ => none

/-- The line is read as it is meant. -/
def Read : Line → Prop
  | assignment _ spelling value _ _ => spelling.Reads value
  | comment _ _ => True
  | blank _ _ => True

end Line

/-- The text of a file. -/
def file (ls : List Line) : Chars := terminated (ls.map Line.text)

/-! ## Escapes -/

theorem unescape_plain {b c : Char} (plain : b ≠ '\\') (cs : Chars) : unescape c (b :: cs) = b :: unescape c cs := by
  rw [unescape.eq_def]
  simp only [if_neg plain]

theorem unescape_pair (c : Char) (cs : Chars) : unescape c ('\\' :: c :: cs) = c :: unescape c cs := by
  rw [unescape.eq_def]
  simp

/-- A backslash stays where no escape begins with it. -/
theorem unescape_backslash {c : Char} {cs : Chars} (other : cs.head? ≠ some c) :
    unescape c ('\\' :: cs) = '\\' :: unescape c cs := by
  rw [unescape.eq_def]
  cases cs with
  | nil => rfl
  | cons d ds =>
    have apart : d ≠ c := fun same => other (congrArg some same)
    simp [apart]

theorem unescape_sublist (c : Char) (s : Chars) : (unescape c s).Sublist s := by
  induction s using unescape.induct c with
  | case1 => exact .slnil
  | case2 => exact List.Sublist.refl _
  | case3 ds ih =>
    rw [unescape_pair]
    exact (ih.cons_cons c).cons _
  | case4 d ds other ih =>
    rw [unescape_backslash (by simpa using other)]
    exact ih.cons_cons _
  | case5 b cs plain ih =>
    rw [unescape_plain plain]
    exact ih.cons_cons _

/-- Only a text without escapes stays as it is. -/
theorem not_contains_of_unescape {c : Char} {s : Chars} (same : unescape c s = s) : contains ['\\', c] s = false := by
  induction s using unescape.induct c with
  | case1 => rfl
  | case2 => rfl
  | case3 ds ih =>
    rw [unescape_pair] at same
    have short := (unescape_sublist c ds).length_le
    have lengths := congrArg List.length same
    simp only [List.length_cons] at lengths
    omega
  | case4 d ds other ih =>
    rw [unescape_backslash (by simpa using other), List.cons.injEq] at same
    have apart : (c == d) = false := by simpa using Ne.symm other
    rw [contains, ih same.2]
    simp [List.isPrefixOf, apart]
  | case5 b cs plain ih =>
    rw [unescape_plain plain, List.cons.injEq] at same
    have apart : ('\\' == b) = false := by simpa using Ne.symm plain
    rw [contains, ih same.2]
    simp [List.isPrefixOf, apart]

theorem unescape_of_not_contains {c : Char} {s : Chars} (absent : contains ['\\', c] s = false) : unescape c s = s := by
  induction s using unescape.induct c with
  | case1 => rfl
  | case2 => rfl
  | case3 ds ih =>
    have here : ['\\', c].isPrefixOf ('\\' :: c :: ds) = true := by simp
    rw [contains, here] at absent
    cases absent
  | case4 d ds other ih =>
    rw [contains, Bool.or_eq_false_iff] at absent
    rw [unescape_backslash (by simpa using other), ih absent.2]
  | case5 b cs plain ih =>
    rw [contains, Bool.or_eq_false_iff] at absent
    rw [unescape_plain plain, ih absent.2]

/-- A character that is no backslash is not lost. -/
theorem mem_unescape {c d : Char} {s : Chars} (plain : d ≠ '\\') (inside : d ∈ s) : d ∈ unescape c s := by
  induction s using unescape.induct c with
  | case1 => exact inside
  | case2 => exact inside
  | case3 ds ih =>
    rw [unescape_pair]
    rcases List.mem_cons.1 inside with same | inside
    · exact absurd same plain
    · rcases List.mem_cons.1 inside with rfl | inside
      · exact List.mem_cons_self
      · exact List.mem_cons_of_mem _ (ih inside)
  | case4 e ds other ih =>
    rw [unescape_backslash (by simpa using other)]
    rcases List.mem_cons.1 inside with same | inside
    · exact absurd same plain
    · exact List.mem_cons_of_mem _ (ih inside)
  | case5 b cs _ ih =>
    rw [unescape_plain ‹_›]
    rcases List.mem_cons.1 inside with rfl | inside
    · exact List.mem_cons_self
    · exact List.mem_cons_of_mem _ (ih inside)

/-- The text with some of its characters escaped. -/
def escapeIf (p : Char → Bool) (v : Chars) : Chars := v.flatMap fun c => if p c then ['\\', c] else [c]

theorem escapeIf_cons (p : Char → Bool) (d : Char) (v : Chars) :
    escapeIf p (d :: v) = (if p d then ['\\', d] else [d]) ++ escapeIf p v := rfl

theorem head_escapeIf {p : Char → Bool} {c : Char} (pc : p c = true) (plain : c ≠ '\\') (v : Chars) :
    (escapeIf p v).head? ≠ some c := by
  cases v with
  | nil => exact fun absurd_ => by cases absurd_
  | cons d v =>
    rw [escapeIf_cons]
    split
    · intro same
      exact plain (Option.some.inj same).symm
    · next not =>
      intro same
      rw [Option.some.inj same] at not
      exact not pc

/-- The replacement of the escapes of one character undoes these and no others. -/
theorem unescape_escapeIf {p : Char → Bool} {c : Char} (pc : p c = true) (v : Chars) :
    unescape c (escapeIf p v) = escapeIf (fun d => p d && d ≠ c) v := by
  induction v with
  | nil => rfl
  | cons d v ih =>
    rw [escapeIf_cons, escapeIf_cons]
    by_cases same : d = c
    · subst same
      rw [if_pos pc, List.cons_append, List.singleton_append, unescape_pair, ih]
      simp
    · have kept : (p d && decide (d ≠ c)) = p d := by simp [same]
      rw [kept]
      by_cases backslash : d = '\\'
      · subst backslash
        have next : (escapeIf p v).head? ≠ some c := head_escapeIf pc (Ne.symm same) v
        split
        · rw [List.cons_append, List.singleton_append, unescape_backslash (by simpa using same),
            unescape_backslash next, ih]
          rfl
        · rw [List.singleton_append, unescape_backslash next, ih]
          rfl
      · split
        · rw [List.cons_append, List.singleton_append, unescape_backslash (by simpa using same),
            unescape_plain backslash, ih]
          rfl
        · rw [List.singleton_append, unescape_plain backslash, ih]
          rfl

theorem escapeIf_none {p : Char → Bool} (none_ : ∀ c, p c = false) (v : Chars) : escapeIf p v = v := by
  induction v with
  | nil => rfl
  | cons c v ih => rw [escapeIf_cons, none_ c, ih]; rfl

/-- The replacements undo the escapes. -/
theorem unescape_escape (v : Chars) : unescape '`' (unescape '\\' (unescape '$' (unescape '"' (escape v)))) = v := by
  show unescape '`' (unescape '\\' (unescape '$' (unescape '"' (escapeIf escaped v)))) = v
  rw [unescape_escapeIf (by decide), unescape_escapeIf (by decide), unescape_escapeIf (by decide),
    unescape_escapeIf (by decide)]
  refine escapeIf_none (fun c => ?_) v
  by_cases quote : c = '"'
  · simp [quote]
  · by_cases dollar : c = '$'
    · simp [dollar]
    · by_cases backslash : c = '\\'
      · simp [backslash]
      · simp [escaped, quote, dollar, backslash]

end KubeKey.OsRelease
