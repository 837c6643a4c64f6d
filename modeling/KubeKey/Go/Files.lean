import Mathlib.Data.List.Sort
import KubeKey.Go.Map

/-!
# Directories of directories of files

A file tree of the depth that a store with one directory for each group of its objects
needs. Files hold data of any type. The operations are those of package `os`, `none` where
they fail; a listing is sorted by name. Every operation has a lemma that says what can be
read afterwards.
-/

namespace KubeKey.Go

variable {α β : Type}

/-- An entry of an inner directory. What is in a directory there is not modelled. -/
inductive Entry (β : Type) where
  | file (data : β)
  | dir
deriving DecidableEq

/-- The data of an entry that is a file. -/
def Entry.fileData : Option (Entry β) → Option β
  | some (.file data) => some data
  | _ => none

/-- An entry of the outer directory. -/
inductive Node (β : Type) where
  | file
  | dir (entries : GoMap (Entry β))

/-- The outer directory. -/
structure Tree (β : Type) where
  nodes : GoMap (Node β)

/-- `os.ReadDir`: the entries by name. -/
def GoMap.listing (m : GoMap α) : List (String × α) := m.entries.insertionSort fun a b => a.1 ≤ b.1

theorem GoMap.mem_listing {m : GoMap α} {k : String} {v : α} : (k, v) ∈ m.listing ↔ m.get? k = some v := by
  rw [GoMap.listing, List.mem_insertionSort, GoMap.get?_eq_some_iff]

theorem GoMap.nodup_listing (m : GoMap α) : (m.listing.map Prod.fst).Nodup :=
  ((List.perm_insertionSort _ m.entries).map Prod.fst).nodup_iff.mpr m.distinct

namespace Tree

variable {t t' : Tree β} {d f : String} {data : β}

def empty : Tree β := ⟨.empty⟩

/-- A directory with new entries. -/
def setDir (t : Tree β) (d : String) (entries : GoMap (Entry β)) : Tree β := ⟨t.nodes.put d (.dir entries)⟩

/-- The directory of a name. -/
def sub (t : Tree β) (d : String) : Option (GoMap (Entry β)) :=
  match t.nodes.get? d with
  | some (.dir entries) => some entries
  | _ => none

def readFile (t : Tree β) (d f : String) : Option β := Entry.fileData ((t.sub d).bind fun entries => entries.get? f)

/-- Writes a file of a directory that exists, over a file that may be there. -/
def writeFile (t : Tree β) (d f : String) (data : β) : Option (Tree β) :=
  match t.sub d with
  | none => none
  | some entries =>
    match entries.get? f with
    | some .dir => none
    | _ => some (t.setDir d (entries.put f (.file data)))

/-- Renames a file within its directory, over a file that may be there. -/
def renameFile (t : Tree β) (d f g : String) : Option (Tree β) :=
  match t.sub d with
  | none => none
  | some entries =>
    match entries.get? f, entries.get? g with
    | some (.file _), some .dir => none
    | some (.file data), _ => some (t.setDir d ((entries.erase f).put g (.file data)))
    | _, _ => none

/-- Removes a file if it is there. -/
def removeFile (t : Tree β) (d f : String) : Tree β :=
  match t.sub d with
  | none => t
  | some entries =>
    match entries.get? f with
    | some (.file _) => t.setDir d (entries.erase f)
    | _ => t

/-- `os.Stat` and `os.MkdirAll` if there is nothing of that name. -/
def mkdir (t : Tree β) (d : String) : Tree β :=
  if (t.nodes.get? d).isSome then t else t.setDir d .empty

/-- Only files. -/
def Filed (entries : GoMap (Entry β)) : Prop := ∀ f e, entries.get? f = some e → ∃ data, e = .file data

/-- Only directories, with only files in them. -/
def Plain (t : Tree β) : Prop := ∀ d n, t.nodes.get? d = some n → ∃ entries, n = .dir entries ∧ Filed entries

theorem sub_setDir (t : Tree β) (d d' : String) (entries : GoMap (Entry β)) :
    (t.setDir d entries).sub d' = if d' = d then some entries else t.sub d' := by
  unfold sub setDir
  rw [GoMap.get?_put]
  by_cases same : d' = d <;> simp [same]

theorem get?_of_sub {entries : GoMap (Entry β)} (found : t.sub d = some entries) :
    t.nodes.get? d = some (.dir entries) := by
  unfold sub at found
  split at found
  · next stored =>
    cases found
    exact stored
  · cases found

theorem readFile_eq {entries : GoMap (Entry β)} (found : t.sub d = some entries) :
    t.readFile d f = Entry.fileData (entries.get? f) := by
  rw [readFile, found]
  rfl

@[simp] theorem fileData_file (data : β) : Entry.fileData (some (.file data)) = some data := rfl

@[simp] theorem fileData_none : Entry.fileData (none : Option (Entry β)) = none := rfl

theorem fileData_eq_some {e : Option (Entry β)} : Entry.fileData e = some data ↔ e = some (.file data) := by
  constructor
  · intro read
    unfold Entry.fileData at read
    split at read
    · cases read
      rfl
    · cases read
  · rintro rfl
    rfl

theorem readFile_eq_some :
    t.readFile d f = some data ↔ ∃ entries, t.sub d = some entries ∧ entries.get? f = some (.file data) := by
  rw [readFile, fileData_eq_some, Option.bind_eq_some_iff]

/-- What can be read after a directory got new entries. -/
theorem readFile_setDir (t : Tree β) (d : String) (entries : GoMap (Entry β)) (d' f' : String) :
    (t.setDir d entries).readFile d' f' =
      if d' = d then Entry.fileData (entries.get? f') else t.readFile d' f' := by
  unfold readFile
  rw [sub_setDir]
  by_cases same : d' = d <;> simp [same]

theorem readFile_writeFile (written : t.writeFile d f data = some t') (d' f' : String) :
    t'.readFile d' f' = if d' = d ∧ f' = f then some data else t.readFile d' f' := by
  unfold writeFile at written
  split at written
  · cases written
  · next entries found =>
    split at written
    · cases written
    · cases written
      rw [readFile_setDir]
      by_cases same : d' = d
      · subst same
        rw [readFile_eq found, GoMap.get?_put]
        by_cases here : f' = f <;> simp [here]
      · simp [same]

theorem readFile_renameFile {g : String} (renamed : t.renameFile d f g = some t') (other : f ≠ g) :
    ∃ data, t.readFile d f = some data ∧ ∀ d' f', t'.readFile d' f' =
      if d' = d ∧ f' = g then some data else if d' = d ∧ f' = f then none else t.readFile d' f' := by
  unfold renameFile at renamed
  split at renamed
  · cases renamed
  · next entries found =>
    split at renamed
    · cases renamed
    · next data stored _ =>
      cases renamed
      refine ⟨data, by rw [readFile_eq found, stored]; rfl, fun d' f' => ?_⟩
      rw [readFile_setDir]
      by_cases same : d' = d
      · subst same
        rw [readFile_eq found, GoMap.get?_put, GoMap.get?_erase]
        by_cases target : f' = g
        · simp [target]
        · by_cases source : f' = f <;> simp [target, source, other]
      · simp [same]
    · cases renamed

theorem readFile_removeFile (t : Tree β) (d f d' f' : String) :
    (t.removeFile d f).readFile d' f' = if d' = d ∧ f' = f then none else t.readFile d' f' := by
  unfold removeFile
  split
  · next missing =>
    split
    · next same => simp [same, readFile, missing]
    · rfl
  · next entries found =>
    split
    · rw [readFile_setDir]
      by_cases same : d' = d
      · subst same
        rw [readFile_eq found, GoMap.get?_erase]
        by_cases here : f' = f <;> simp [here]
      · simp [same]
    · next notFile =>
      split
      · next same =>
        rw [same.1, same.2, readFile_eq found]
        refine Option.eq_none_iff_forall_ne_some.mpr fun data read => ?_
        exact notFile data (fileData_eq_some.mp read)
      · rfl

theorem readFile_mkdir (t : Tree β) (d d' f' : String) : (t.mkdir d).readFile d' f' = t.readFile d' f' := by
  unfold mkdir
  split
  · rfl
  · next missing =>
    rw [readFile_setDir]
    split
    · next same =>
      subst same
      have nothing : t.nodes.get? d' = none := by simpa using missing
      simp [readFile, sub, nothing]
    · rfl

theorem sub_mkdir (t : Tree β) (d d' : String) :
    (t.mkdir d).sub d' = if d' = d ∧ t.nodes.get? d = none then some .empty else t.sub d' := by
  unfold mkdir
  cases found : t.nodes.get? d with
  | none => simp [sub_setDir]
  | some n => simp

theorem Plain.filed (plain : t.Plain) {entries : GoMap (Entry β)} (found : t.sub d = some entries) : Filed entries := by
  unfold sub at found
  split at found
  · next entries' stored =>
    cases found
    obtain ⟨_, same, filed⟩ := plain d _ stored
    cases same
    exact filed
  · cases found

/-- In a plain tree there is nothing of a name that is not a directory. -/
theorem Plain.get?_eq_none (plain : t.Plain) (missing : t.sub d = none) : t.nodes.get? d = none := by
  cases found : t.nodes.get? d with
  | none => rfl
  | some n =>
    obtain ⟨entries, rfl, -⟩ := plain d n found
    simp [sub, found] at missing

theorem Plain.setDir (plain : t.Plain) {entries : GoMap (Entry β)} (filed : Filed entries) (d : String) :
    (t.setDir d entries).Plain := by
  intro d' n found
  unfold Tree.setDir at found
  rw [GoMap.get?_put] at found
  split at found
  · cases found
    exact ⟨entries, rfl, filed⟩
  · exact plain d' n found

theorem filed_put {entries : GoMap (Entry β)} (filed : Filed entries) (f : String) (data : β) :
    Filed (entries.put f (.file data)) := by
  intro f' e found
  rw [GoMap.get?_put] at found
  split at found
  · cases found
    exact ⟨data, rfl⟩
  · exact filed f' e found

theorem filed_erase {entries : GoMap (Entry β)} (filed : Filed entries) (f : String) : Filed (entries.erase f) := by
  intro f' e found
  rw [GoMap.get?_erase] at found
  split at found
  · cases found
  · exact filed f' e found

/-- In a plain tree a write succeeds if the directory exists. -/
theorem Plain.writeFile (plain : t.Plain) (exists_ : (t.sub d).isSome) (f : String) (data : β) :
    ∃ t', t.writeFile d f data = some t' ∧ t'.Plain := by
  obtain ⟨entries, found⟩ := Option.isSome_iff_exists.mp exists_
  have filed := plain.filed found
  have notDir : entries.get? f ≠ some .dir := by
    intro dir
    obtain ⟨data, same⟩ := filed f _ dir
    cases same
  refine ⟨t.setDir d (entries.put f (.file data)), ?_, plain.setDir (filed_put filed f data) d⟩
  simp [Tree.writeFile, found]

/-- In a plain tree a file that exists can be renamed. -/
theorem Plain.renameFile (plain : t.Plain) (stored : t.readFile d f = some data) (g : String) :
    ∃ t', t.renameFile d f g = some t' ∧ t'.Plain := by
  obtain ⟨entries, found, file⟩ := readFile_eq_some.mp stored
  have filed := plain.filed found
  have notDir : entries.get? g ≠ some .dir := by
    intro dir
    obtain ⟨data, same⟩ := filed g _ dir
    cases same
  refine ⟨t.setDir d ((entries.erase f).put g (.file data)), ?_, plain.setDir (filed_put (filed_erase filed f) g data) d⟩
  simp [Tree.renameFile, found, file]

theorem renameFile_none (missing : t.readFile d f = none) (g : String) : t.renameFile d f g = none := by
  cases found : t.sub d with
  | none => simp [renameFile, found]
  | some entries =>
    rw [readFile_eq found] at missing
    have notFile : ∀ data, entries.get? f ≠ some (.file data) := by
      intro data stored
      rw [stored] at missing
      cases missing
    simp only [renameFile, found]
    split
    · rfl
    · next data stored _ => exact absurd stored (notFile data)
    · rfl

theorem Plain.removeFile (plain : t.Plain) (d f : String) : (t.removeFile d f).Plain := by
  unfold Tree.removeFile
  split
  · exact plain
  · next entries found =>
    split
    · exact plain.setDir (filed_erase (plain.filed found) f) d
    · exact plain

theorem Plain.mkdir (plain : t.Plain) (d : String) : (t.mkdir d).Plain ∧ ((t.mkdir d).sub d).isSome := by
  unfold Tree.mkdir
  split
  · next exists_ =>
    refine ⟨plain, ?_⟩
    obtain ⟨n, found⟩ := Option.isSome_iff_exists.mp exists_
    obtain ⟨entries, rfl, -⟩ := plain d n found
    simp [sub, found]
  · refine ⟨plain.setDir (fun f e found => by simp at found) d, ?_⟩
    rw [sub_setDir, if_pos rfl]
    rfl

theorem plain_empty : (empty : Tree β).Plain := by
  intro d n found
  simp [empty] at found

end Tree

end KubeKey.Go
