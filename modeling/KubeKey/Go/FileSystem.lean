import Mathlib.Data.List.Infix

/-!
# Files and directories

A file system as a map from cleaned paths to files and directories, with the operations of package
`os` that files are unpacked with, `none` where they fail. There are no links and no permissions.
What a file system holds hangs together: only directories have something below them. So a path can
be made if and only if no file is on the way (`mkdirAll_isSome_iff`).

`join` is `filepath.Join`: the names of a text are appended to a path, and `..` takes one away.
-/

namespace KubeKey.Go

/-! ## Paths -/

/-- A name in a cleaned path. -/
structure FileName where
  text : List Char
  named : text ≠ [] ∧ text ≠ ['.'] ∧ text ≠ ['.', '.']
  solid : '/' ∉ text
deriving DecidableEq

/-- An absolute path without `.` and `..`: the names from the root. -/
abbrev CleanPath := List FileName

/-- One step of `filepath.Clean`. -/
def enter (p : CleanPath) (c : List Char) : CleanPath :=
  if h : (c ≠ [] ∧ c ≠ ['.'] ∧ c ≠ ['.', '.']) ∧ '/' ∉ c then p ++ [⟨c, h.1, h.2⟩]
  else if c = ['.', '.'] then p.dropLast
  else p

/-- `filepath.Join`. -/
def join (p : CleanPath) (name : List Char) : CleanPath := (name.splitOn '/').foldl enter p

/-- The names with slashes between them. -/
def relative (p : CleanPath) : List Char := ['/'].intercalate (p.map FileName.text)

/-- The text of a path. -/
def absolute (p : CleanPath) : List Char := '/' :: relative p

theorem enter_text (p : CleanPath) (n : FileName) : enter p n.text = p ++ [n] := dif_pos ⟨n.named, n.solid⟩

theorem foldl_enter (p q : CleanPath) : (q.map FileName.text).foldl enter p = p ++ q := by
  induction q generalizing p with
  | nil => exact (List.append_nil p).symm
  | cons n q ih => rw [List.map_cons, List.foldl_cons, enter_text, ih, List.append_assoc, List.singleton_append]

/-- The text of a path leads there. -/
theorem join_relative (p q : CleanPath) : join p (relative q) = p ++ q := by
  cases q with
  | nil => exact (List.append_nil p).symm
  | cons n q =>
    have solid : ∀ c ∈ (n :: q).map FileName.text, '/' ∉ c := by
      intro c inside
      obtain ⟨n', -, rfl⟩ := List.mem_map.mp inside
      exact n'.solid
    rw [join, relative, List.splitOn_intercalate '/' solid (by simp), foldl_enter]

theorem relative_append {p q : CleanPath} (some_ : p ≠ []) (some_' : q ≠ []) :
    relative (p ++ q) = relative p ++ '/' :: relative q := by
  unfold relative
  rw [List.map_append]
  induction p with
  | nil => exact absurd rfl some_
  | cons n p ih =>
    cases p with
    | nil =>
      cases q with
      | nil => exact absurd rfl some_'
      | cons m q => simp [List.intercalate]
    | cons m p =>
      have rest := ih (List.cons_ne_nil m p)
      simp only [List.map_cons, List.cons_append, List.intercalate, List.intersperse, List.flatten_cons] at rest ⊢
      rw [rest]
      simp

/-! ## The file system -/

/-- What a path leads to. -/
inductive FileNode where
  | file (bytes : List UInt8)
  | dir
deriving DecidableEq

/-- A file is there. -/
def FileNode.isFile : Option FileNode → Bool
  | some (.file _) => true
  | _ => false

/-- The files and directories; only directories have something below them. -/
structure FileSystem where
  node : CleanPath → Option FileNode
  root : node [] = some .dir
  tree : ∀ p n, (node (p ++ [n])).isSome = true → node p = some .dir

namespace FileSystem

/-- A root with files in it. -/
def flat (files : List (FileName × List UInt8)) : FileSystem where
  node
    | [] => some .dir
    | [n] => (files.lookup n).map .file
    | _ => none
  root := rfl
  tree p n there := by
    rcases p with _ | ⟨m, p⟩
    · rfl
    · rcases p with _ | ⟨m', p⟩ <;> cases there

variable (fs : FileSystem) {p q : CleanPath}

/-- The bytes of a file. -/
def content (p : CleanPath) : List UInt8 :=
  match fs.node p with
  | some (.file bytes) => bytes
  | _ => []

/-- A file is on the way to a path, or there. -/
def Stopped (p : CleanPath) : Prop := ∃ q ∈ p.inits, FileNode.isFile (fs.node q) = true

instance (p : CleanPath) : Decidable (fs.Stopped p) := inferInstanceAs (Decidable (∃ q ∈ p.inits, _))

/-- `os.MkdirAll`. -/
def mkdirAll (p : CleanPath) : Option FileSystem :=
  if fs.Stopped p then none
  else some
    { node := fun q => if q ∈ p.inits then some .dir else fs.node q
      root := if_pos (List.mem_inits _ _ |>.mpr (List.nil_prefix))
      tree := fun q n there => by
        split at there
        · next inside =>
          exact if_pos ((List.mem_inits _ _).mpr ((List.prefix_append q [n]).trans ((List.mem_inits _ _).mp inside)))
        · rw [fs.tree q n there, ite_self] }

/-- A file with these bytes, where no directory is. -/
def setFile (p : CleanPath) (bytes : List UInt8) : Option FileSystem :=
  if h : fs.node p ≠ some .dir ∧ fs.node p.dropLast = some .dir then
    some
      { node := fun q => if q = p then some (.file bytes) else fs.node q
        root := by
          split
          · next same => exact absurd (same ▸ fs.root) h.1
          · exact fs.root
        tree := fun q n there => by
          have away : q ≠ p := by
            rintro rfl
            rw [if_neg (by simp)] at there
            exact h.1 (fs.tree q n there)
          rw [if_neg away]
          split at there
          · next same =>
            have parent := h.2
            rwa [← same, List.dropLast_concat] at parent
          · exact fs.tree q n there }
  else none

/-- `os.OpenFile` with `O_CREATE`, without `O_TRUNC`, and a copy into the file. -/
def overwrite (p : CleanPath) (bytes : List UInt8) : Option FileSystem :=
  fs.setFile p (bytes ++ (fs.content p).drop bytes.length)

variable {fs}

/-- Above a path that leads somewhere are directories. -/
theorem dir_of_below (there : (fs.node q).isSome = true) (below : p <+: q) (other : p ≠ q) :
    fs.node p = some .dir := by
  obtain ⟨rest, rfl⟩ := below
  induction rest using List.reverseRecOn with
  | nil => exact absurd (List.append_nil p).symm other
  | append_singleton rest n ih =>
    rw [← List.append_assoc] at there
    have parent := fs.tree _ n there
    by_cases same : rest = []
    · rwa [same, List.append_nil] at parent
    · exact ih (by rw [parent]; rfl) (by simpa using same)

theorem not_stopped_of_dir (dir : fs.node p = some .dir) : ¬ fs.Stopped p := by
  rintro ⟨q, inside, file⟩
  by_cases same : q = p
  · rw [same, dir] at file
    cases file
  · rw [dir_of_below (by rw [dir]; rfl) ((List.mem_inits _ _).mp inside) same] at file
    cases file

theorem node_mkdirAll {fs' : FileSystem} (made : fs.mkdirAll p = some fs') (q : CleanPath) :
    fs'.node q = if q <+: p then some .dir else fs.node q := by
  unfold mkdirAll at made
  split at made
  · cases made
  · cases made
    simp only [List.mem_inits]

theorem mkdirAll_isSome_iff : (fs.mkdirAll p).isSome = true ↔ ¬ fs.Stopped p := by
  unfold mkdirAll
  split <;> simp [*]

theorem node_setFile {fs' : FileSystem} {bytes : List UInt8} (written : fs.setFile p bytes = some fs') (q : CleanPath) :
    fs'.node q = if q = p then some (.file bytes) else fs.node q := by
  unfold setFile at written
  split at written
  · cases written
    rfl
  · cases written

theorem setFile_isSome_iff {bytes : List UInt8} : (fs.setFile p bytes).isSome = true ↔
    fs.node p ≠ some .dir ∧ fs.node p.dropLast = some .dir := by
  unfold setFile
  split <;> simp [*]

end FileSystem

end KubeKey.Go
