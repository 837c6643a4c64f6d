import Mathlib.Data.List.Induction
import KubeKey.Checksum.Lookup

/-!
# Sources of checksums

`Checksums` is a list of sources, from the table that comes with the program to a checksum file on the web. `Get` keeps
the value of the first source that gives one, and `CompareChecksum` of a binary compares it with the sum of the local
file. In every state that is reached by appending sources and getting values, what is kept is the value of the first
source of the list that gives one (`Checksums.kept_run`).
-/

namespace KubeKey.Checksum
open KubeKey.Text

/-- The implementations of `checksum.Interface`: an entry of the table of the program, a value that is given, and a
file that is downloaded, unless that fails. -/
inductive Source
  | internal (stored : Option Chars)
  | string (value : Chars)
  | http (url fileName : Chars) (download : Except Chars Chars)

/-- `Get` and then `Value`. -/
def Source.Get : Source → Except Chars Chars
  | internal none => .error "unsupported version".toList
  | internal (some value) => .ok value
  | string value => .ok value
  | http _ _ (.error failure) => .error failure
  | http url fileName (.ok text) =>
    match find fileName text with
    | some sum => .ok sum
    | none => .error ("no checksum found in: ".toList ++ url)

structure Checksums where
  checksums : List Source
  value : Chars

namespace Checksums

/-- `NewChecksums`. -/
def new (checksums : List Source) : Checksums := ⟨checksums, []⟩

def Append (c : Checksums) (checksums : List Source) : Checksums := { c with checksums := c.checksums ++ checksums }

/-- The loop of `Get` over the sources that are left: the failures, none of which is an error once a value is kept. -/
def getFrom (c : Checksums) (errs : List Chars) : List Source → List Chars × Checksums
  | [] => (errs, c)
  | v :: vs =>
    match v.Get with
    | .error err => getFrom c (errs ++ [err]) vs
    | .ok value => ([], { c with value := value })

/-- `Get`, which is an error where there are failures. -/
def Get (c : Checksums) : List Chars × Checksums :=
  if c.value ≠ [] then ([], c) else c.getFrom [] c.checksums

end Checksums

/-- A byte as two digits. -/
def hexByte (b : UInt8) : Chars :=
  [b.toNat / 16, b.toNat % 16].map fun n => "0123456789abcdef".toList.getD n '0'

inductive CompareError
  | get (errs : List Chars)
  | mismatch (sum value : Chars)

section Compare

variable (sha256 : List UInt8 → Vector UInt8 32)

/-- `FileSHA256`. -/
def FileSHA256 (content : List UInt8) : Chars := (sha256 content).toList.flatMap hexByte

/-- `SHA256Sum`, where a file that cannot be read has none. -/
def SHA256Sum (file : Option (List UInt8)) : Chars := file.elim [] (FileSHA256 sha256)

/-- `CompareChecksum`. -/
def CompareChecksum (c : Checksums) (file : Option (List UInt8)) : Except CompareError Unit × Checksums :=
  match c.Get with
  | (e :: errs, c) => (.error (.get (e :: errs)), c)
  | ([], c) =>
    if SHA256Sum sha256 file ≠ c.value then (.error (.mismatch (SHA256Sum sha256 file) c.value), c) else (.ok (), c)

end Compare

/-! ## What is kept -/

/-- The value of the first source that gives one. -/
def provided (checksums : List Source) : Option Chars := checksums.findSome? fun v => v.Get.toOption

/-- What happens to a list of checksums. -/
inductive Op
  | append (checksums : List Source)
  | get

def Checksums.step (c : Checksums) : Op → Checksums
  | .append checksums => c.Append checksums
  | .get => c.Get.2

/-- A value that is kept is the one that the first source gives. -/
def Checksums.Kept (c : Checksums) : Prop := c.value ≠ [] → provided c.checksums = some c.value

namespace Checksums

variable {c : Checksums}

/-- The loop leaves the value as it was, or takes the one of the first source that gives one. -/
theorem getFrom_spec (errs : List Chars) (vs : List Source) :
    (getFrom c errs vs).2 = c ∨
      ∃ value, provided vs = some value ∧ (getFrom c errs vs).2 = { c with value := value } := by
  induction vs generalizing errs with
  | nil => exact .inl rfl
  | cons v vs ih =>
    rw [getFrom, provided, List.findSome?_cons]
    cases v.Get with
    | error err => exact ih _
    | ok value => exact .inr ⟨value, rfl, rfl⟩

theorem get_checksums (c : Checksums) : c.Get.2.checksums = c.checksums := by
  rw [Get]
  split
  · rfl
  · rcases getFrom_spec (c := c) [] c.checksums with same | ⟨value, -, same⟩
    · rw [same]
    · rw [same]

theorem Kept.get (kept : c.Kept) : c.Get.2.Kept := by
  rw [Get]
  split
  · exact kept
  · rcases getFrom_spec (c := c) [] c.checksums with same | ⟨value, first, same⟩
    · rw [same]
      exact kept
    · rw [same]
      exact fun _ => first

theorem Kept.step (kept : c.Kept) (op : Op) : (c.step op).Kept := by
  cases op with
  | append checksums =>
    intro set_
    have first := kept set_
    change provided (c.checksums ++ checksums) = some c.value
    rw [provided, List.findSome?_append, ← provided, first, Option.some_or]
  | get => exact kept.get

/-- In every state that is reached, what is kept is the value of the first source that gives one. -/
theorem kept_run (initial : List Source) (ops : List Op) : (ops.foldl step (new initial)).Kept := by
  induction ops using List.reverseRecOn with
  | nil => exact fun set_ => absurd rfl set_
  | append_singleton ops op ih =>
    rw [List.foldl_append]
    exact ih.step op

end Checksums

section Compare

variable {sha256 : List UInt8 → Vector UInt8 32}

/-- A sum has digits. -/
theorem FileSHA256_ne_nil (content : List UInt8) : FileSHA256 sha256 content ≠ [] := by
  have length : (sha256 content).toList.length = 31 + 1 := Vector.length_toList
  obtain ⟨b, bs, split⟩ := List.exists_cons_of_length_eq_add_one length
  rw [FileSHA256, split, List.flatMap_cons]
  exact fun empty => absurd (List.append_eq_nil_iff.1 empty).1 (by simp [hexByte])

/-- A file is accepted only with the value of the first source. -/
theorem provided_of_accepted {c : Checksums} (kept : c.Kept) {content : List UInt8}
    (accepted : (CompareChecksum sha256 c (some content)).1 = .ok ()) :
    provided c.checksums = some (FileSHA256 sha256 content) := by
  have kept' := kept.get
  have same := c.get_checksums
  unfold CompareChecksum at accepted
  split at accepted
  · cases accepted
  · rename_i c' run
    rw [run] at kept' same
    split at accepted
    · cases accepted
    · rename_i equal
      rw [ne_eq, not_not] at equal
      have value : c'.value = FileSHA256 sha256 content := equal.symm
      rw [← same, kept' (value ▸ FileSHA256_ne_nil content), value]

end Compare

/-! ## When the lookup is exact -/

/-- No line of the binary mode and no junk of four words stands in front of the first line of the text mode or the BSD
style with another sum. -/
def Harmless (fileName text : Chars) : Prop :=
  let front := (lines text).takeWhile fun line => (plain fileName line).isNone
  match front.findSome? (starred fileName), front.findSome? (loose fileName) with
  | none, none => True
  | some sum, none => (lines text).findSome? (plain fileName) = some sum
  | none, some sum => (lines text).findSome? (plain fileName) = some sum
  | some sum, some sum' => sum = sum'

/-- The loop finds the sum of the first line that lists the file, and a local file is accepted only with the value of
the first source that gives one. -/
structure LookupExact (sha256 : List UInt8 → Vector UInt8 32) (fileName text : Chars) : Prop where
  found : find fileName text = (lines text).findSome? (listed fileName)
  accepted : ∀ (initial : List Source) (ops : List Op) (content : List UInt8),
    (CompareChecksum sha256 (ops.foldl Checksums.step (.new initial)) (some content)).1 = .ok () →
      provided (ops.foldl Checksums.step (.new initial)).checksums = some (FileSHA256 sha256 content)

theorem found_iff {fileName : Chars} (named : fileName ≠ []) (text : Chars) :
    find fileName text = (lines text).findSome? (listed fileName) ↔ Harmless fileName text := by
  have looked : (lines text).findSome? (taken fileName) =
      (lines text).findSome? fun line => (plain fileName line).or (loose fileName line) :=
    congrArg (List.findSome? · _) (funext (taken_eq_or named))
  have meant : (lines text).findSome? (listed fileName) =
      (lines text).findSome? fun line => (plain fileName line).or (starred fileName line) :=
    congrArg (List.findSome? · _) (funext (listed_eq fileName))
  rw [find_eq, looked, meant, findSome?_or, findSome?_or, Harmless]
  split
  · rename_i no_star no_junk
    rw [no_star, no_junk]
    simp
  · rename_i sum star no_junk
    rw [star, no_junk]
    simp
  · rename_i sum no_star junk
    rw [no_star, junk]
    simp [eq_comm]
  · rename_i sum sum' star junk
    rw [star, junk]
    simp [eq_comm]

theorem lookup_iff (sha256 : List UInt8 → Vector UInt8 32) (fileName text : Chars) (named : fileName ≠ []) :
    LookupExact sha256 fileName text ↔ Harmless fileName text := by
  rw [← found_iff named]
  exact ⟨LookupExact.found, fun found =>
    ⟨found, fun initial ops _ accepted => provided_of_accepted (Checksums.kept_run initial ops) accepted⟩⟩

theorem lookup_iff_iso :
    LookupExact (fun _ => .replicate 32 0) "a.iso".toList "1f  a.iso\n".toList ↔
      Harmless "a.iso".toList "1f  a.iso\n".toList :=
  lookup_iff _ _ _ (by decide)

/-- A file with one line of the binary mode, which lists the file, and one line of junk, which does not. -/
theorem not_lookupExact_binary :
    ¬ LookupExact (fun _ => .replicate 32 0) "a.iso".toList "1f *a.iso\n".toList ∧
      ¬ LookupExact (fun _ => .replicate 32 0) "a.iso".toList "see (a.iso) for details".toList := by
  constructor
  · intro exact_
    have found := exact_.found
    rw [find_eq] at found
    revert found
    decide
  · intro exact_
    have found := exact_.found
    rw [find_eq] at found
    revert found
    decide

end KubeKey.Checksum
