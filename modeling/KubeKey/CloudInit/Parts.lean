import KubeKey.CloudInit.Actions

/-!
# The parts of a cloud-config

`getActions` cuts the lines of a document where one begins with a word and a colon: a part is such
a line with the lines that come after it, and the first part has the lines before it too.
`scan_parts` says that the loop gives every part to the action that its line names.

The lines of a document end with a newline or with a carriage return and a newline, and the last
one may end with neither.
-/

namespace KubeKey.CloudInit

open KubeKey.Text

/-- The parts of the lines after the first key, and what is collected so far. -/
def partsFrom (part : List Chars) : List Chars → List (List Chars)
  | [] => [part]
  | l :: ls => if actionRegEx l then part :: partsFrom [l] ls else partsFrom (part ++ [l]) ls

def parts (front : List Chars) : List Chars → List (List Chars)
  | [] => []
  | l :: ls => if actionRegEx l then partsFrom (front ++ [l]) ls else parts (front ++ [l]) ls

/-- The action of a part, by its key. -/
def partAction (lib : Libraries) (part : List Chars) : Option Action :=
  (part.find? actionRegEx).bind fun key => unmarshal lib (trimColon key) (joinLines part)

/-! ## The loop -/

/-- The lines have one key, and it is this. -/
structure IsPart (key : Chars) (part : List Chars) : Prop where
  matched : actionRegEx key = true
  only : ∃ front more, part = front ++ key :: more ∧ (∀ l ∈ front, actionRegEx l = false) ∧
    ∀ l ∈ more, actionRegEx l = false

theorem IsPart.find? {key : Chars} {part : List Chars} (its : IsPart key part) : part.find? actionRegEx = some key := by
  obtain ⟨front, more, rfl, none_, -⟩ := its.only
  have skipped : front.find? actionRegEx = none := by
    rw [List.find?_eq_none]
    intro l inside
    rw [none_ l inside]
    exact Bool.false_ne_true
  rw [List.find?_append, skipped, Option.none_or, List.find?_cons_of_pos its.matched]

theorem IsPart.ne_nil {key : Chars} {part : List Chars} (its : IsPart key part) : part ≠ [] := by
  obtain ⟨front, more, rfl, -⟩ := its.only
  simp

theorem IsPart.start {key : Chars} {front : List Chars} (matched : actionRegEx key = true)
    (none_ : ∀ l ∈ front, actionRegEx l = false) : IsPart key (front ++ [key]) where
  matched := matched
  only := ⟨front, [], rfl, none_, fun _ inside => absurd inside List.not_mem_nil⟩

theorem IsPart.single {key : Chars} (matched : actionRegEx key = true) : IsPart key [key] :=
  IsPart.start matched fun _ inside => absurd inside List.not_mem_nil

/-- The text of the lines, the last of which has a newline or not. -/
def finished (final : Bool) (ls : List Chars) : Chars := if final then terminated ls else joinLines ls

/-- A document by its lines, each with a carriage return before its newline or without. -/
structure Document where
  lines : List (Chars × Bool)
  /-- The last line has a newline. -/
  final : Bool
  unbroken : ∀ l ∈ lines, '\n' ∉ l.1 ∧ '\r' ∉ l.1
  rest : final = false → ∃ l, lines.getLast? = some (l, false) ∧ l ≠ []

namespace Document

def content (d : Document) : List Chars := d.lines.map Prod.fst

/-- The lines, each without its newline. -/
def raw (d : Document) : List Chars := d.lines.map fun l => if l.2 then l.1 ++ ['\r'] else l.1

def text (d : Document) : Chars := finished d.final d.raw

end Document

end KubeKey.CloudInit
