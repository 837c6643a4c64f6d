import Mathlib.Algebra.Ring.Nat
import KubeKey.Go.Files

/-!
# Files that are watched

A file tree whose files are numbered: an open file is its number, whatever becomes of its
name. Opening and writing are two operations, as they are for `os.WriteFile`, and every
operation says which events of package `fsnotify` it causes. A `Notifier` has the
directories that were added to it, and receives the events of what is in them, in their
order.
-/

namespace KubeKey.Go

variable {β γ : Type}

/-- A path in a tree of the depth of `Tree`. -/
inductive Location where
  | root
  | sub (d : String)
  | file (d f : String)
deriving DecidableEq, Repr

/-- The directory that a path is in. -/
def Location.parent : Location → Option Location
  | .root => none
  | .sub _ => some .root
  | .file d _ => some (.sub d)

inductive FileOp where
  | create
  | write
  | rename
  | remove
deriving DecidableEq, Repr

structure FileEvent where
  name : Location
  op : FileOp
deriving DecidableEq, Repr

/-! ## Notifiers -/

/-- `fsnotify.Watcher`: what was added, and the events that are not received yet. -/
structure Notifier where
  added : List Location
  events : List FileEvent

namespace Notifier

variable {n : Notifier} {p : Location}

/-- `Add`. What is in the directory already causes no event. -/
def add (n : Notifier) (p : Location) : Notifier := { n with added := p :: n.added }

/-- `Remove`. -/
def remove (n : Notifier) (p : Location) : Notifier := { n with added := n.added.filter (· ≠ p) }

/-- The event of something that is in an added directory. -/
def hears (n : Notifier) (e : FileEvent) : Bool := e.name.parent.any (· ∈ n.added)

def notify (n : Notifier) (events : List FileEvent) : Notifier := { n with events := n.events ++ events.filter n.hears }

@[simp] theorem added_notify (events : List FileEvent) : (n.notify events).added = n.added := rfl

theorem hears_file {d f : String} {op : FileOp} : n.hears ⟨.file d f, op⟩ = true ↔ .sub d ∈ n.added := by
  simp [hears, Location.parent]

theorem count_notify (events : List FileEvent) (e : FileEvent) :
    (n.notify events).events.count e = n.events.count e + if n.hears e then events.count e else 0 := by
  rw [notify, List.count_append]
  congr 1
  cases heard : n.hears e with
  | true => exact List.count_filter heard
  | false =>
    refine List.count_eq_zero.2 fun inside => ?_
    rw [(List.mem_filter.1 inside).2] at heard
    cases heard

/-- A notifier hears nothing of an event that did not happen. -/
theorem count_notify_of_notMem {events : List FileEvent} {e : FileEvent} (absent : e ∉ events) :
    (n.notify events).events.count e = n.events.count e := by
  rw [count_notify, List.count_eq_zero.2 absent, ite_self, Nat.add_zero]

end Notifier

/-! ## Files with numbers -/

namespace Tree

/-- The files with other data. -/
def mapEntry (g : β → γ) : Entry β → Entry γ
  | .file data => .file (g data)
  | .dir => .dir

def mapNode (g : β → γ) : Node β → Node γ
  | .file => .file
  | .dir entries => .dir (entries.map (mapEntry g))

def map (g : β → γ) (t : Tree β) : Tree γ := ⟨t.nodes.map (mapNode g)⟩

theorem sub_map (g : β → γ) (t : Tree β) (d : String) :
    (t.map g).sub d = (t.sub d).map fun entries => entries.map (mapEntry g) := by
  rw [map, sub, sub, GoMap.get?_map]
  cases t.nodes.get? d with
  | none => rfl
  | some n => cases n <;> rfl

/-- The number of entries of all directories. -/
def nodeSize : Node β → ℕ
  | .file => 0
  | .dir entries => entries.entries.length

def size (t : Tree β) : ℕ := (t.nodes.entries.map fun e => nodeSize e.2).sum

theorem sum_putEntry {α : Type} (size : α → ℕ) {k : String} {v old : α} {l : List (String × α)}
    (stored : l.lookup k = some old) :
    ((putEntry k v l).map fun e => size e.2).sum + size old = (l.map fun e => size e.2).sum + size v := by
  induction l with
  | nil => cases stored
  | cons e l ih =>
    obtain ⟨k', w⟩ := e
    rw [lookup_cons_if] at stored
    by_cases same : k = k'
    · rw [if_pos same] at stored
      cases stored
      rw [putEntry, if_pos same.symm, List.map_cons, List.map_cons, List.sum_cons, List.sum_cons]
      show size v + _ + size old = size old + _ + size v
      omega
    · rw [if_neg same] at stored
      have rest := ih stored
      rw [putEntry, if_neg (Ne.symm same), List.map_cons, List.map_cons, List.sum_cons, List.sum_cons]
      omega

theorem length_erase_lt {α : Type} {m : GoMap α} {k : String} {v : α} (stored : m.get? k = some v) :
    (m.erase k).entries.length < m.entries.length := by
  rw [GoMap.erase, List.length_filter_lt_length_iff_exists]
  exact ⟨(k, v), GoMap.get?_eq_some_iff.1 stored, by simp⟩

/-- A tree gets smaller when a file is removed. -/
theorem size_removeFile {t : Tree β} {d f : String} {data : β} (stored : t.readFile d f = some data) :
    (t.removeFile d f).size < t.size := by
  obtain ⟨entries, found, file⟩ := readFile_eq_some.1 stored
  have removes : t.removeFile d f = t.setDir d (entries.erase f) := by
    simp only [removeFile, found, file]
  have sums := sum_putEntry nodeSize (v := .dir (entries.erase f)) (get?_of_sub found)
  have less : nodeSize (.dir (entries.erase f) : Node β) < nodeSize (.dir entries) := length_erase_lt file
  rw [removes]
  show ((putEntry d _ t.nodes.entries).map fun e => nodeSize e.2).sum <
    (t.nodes.entries.map fun e => nodeSize e.2).sum
  omega

end Tree

/-- A tree of numbered files, what is in the file of each number, and the number of the next new file. -/
structure Volume (β : Type) where
  tree : Tree ℕ
  data : ℕ → β
  next : ℕ

namespace Volume

variable (vol : Volume β)

/-- The tree with what is in the files. -/
def files : Tree β := vol.tree.map vol.data

/-- What is read from a file. -/
theorem readFile_files (vol : Volume β) (d f : String) :
    vol.files.readFile d f = (vol.tree.readFile d f).map vol.data := by
  rw [files, Tree.readFile, Tree.sub_map, Tree.readFile]
  cases vol.tree.sub d with
  | none => rfl
  | some entries =>
    show Entry.fileData ((entries.map _).get? f) = Option.map vol.data (Entry.fileData (entries.get? f))
    rw [GoMap.get?_map]
    cases entries.get? f with
    | none => rfl
    | some e => cases e <;> rfl

/-- `os.Stat`: whether the path is a directory, `none` if there is nothing. -/
def stat : Location → Option Bool
  | .root => some true
  | .sub d => (vol.tree.nodes.get? d).map fun
    | .file => false
    | .dir _ => true
  | .file d f => ((vol.tree.sub d).bind fun entries => entries.get? f).map fun
    | .file _ => false
    | .dir => true

theorem stat_of_readFile {vol : Volume β} {d f : String} {ino : ℕ} (stored : vol.tree.readFile d f = some ino) :
    vol.stat (.file d f) = some false := by
  obtain ⟨entries, found, file⟩ := Tree.readFile_eq_some.1 stored
  simp [stat, found, file]

/-- The names of a file, none if it was removed. -/
def names (ino : ℕ) : List Location :=
  vol.tree.nodes.entries.flatMap fun
    | (_, .file) => []
    | (d, .dir entries) => entries.entries.filterMap fun e => if e.2 = .file ino then some (.file d e.1) else none

/-- `os.Stat`, and `os.MkdirAll` if there is nothing. -/
def mkdir (d : String) : Volume β × List FileEvent :=
  if (vol.tree.nodes.get? d).isSome then (vol, [])
  else ({ vol with tree := vol.tree.mkdir d }, [⟨.sub d, .create⟩])

/-- The first half of `os.WriteFile`: a file that is there is emptied. -/
def openFile (empty : β) (d f : String) : Option (ℕ × Volume β × List FileEvent) :=
  match vol.tree.readFile d f with
  | some ino => some (ino, { vol with data := Function.update vol.data ino empty }, [⟨.file d f, .write⟩])
  | none =>
    (vol.tree.writeFile d f vol.next).map fun tree =>
      (vol.next, ⟨tree, Function.update vol.data vol.next empty, vol.next + 1⟩, [⟨.file d f, .create⟩])

/-- A new file is created, and one that is there is written to. -/
theorem events_openFile {vol vol' : Volume β} {empty : β} {d f : String} {ino : ℕ} {events : List FileEvent}
    (opened : vol.openFile empty d f = some (ino, vol', events)) :
    events = [⟨.file d f, if vol.tree.readFile d f = none then .create else .write⟩] := by
  unfold openFile at opened
  cases stored : vol.tree.readFile d f with
  | some old =>
    simp only [stored] at opened
    cases opened
    rfl
  | none =>
    simp only [stored] at opened
    obtain ⟨tree, _, made⟩ := Option.map_eq_some_iff.1 opened
    cases made
    rfl

/-- The second half of `os.WriteFile`, to the open file. -/
def write (ino : ℕ) (data : β) : Volume β × List FileEvent :=
  ({ vol with data := Function.update vol.data ino data }, (vol.names ino).map fun p => ⟨p, .write⟩)

/-- `os.Rename` within a directory. -/
def rename (d f g : String) : Option (Volume β × List FileEvent) :=
  (vol.tree.renameFile d f g).map fun tree =>
    ({ vol with tree }, [⟨.file d f, .rename⟩, ⟨.file d g, .create⟩])

theorem rename_eq_some {vol vol' : Volume β} {d f g : String} {events : List FileEvent}
    (renamed : vol.rename d f g = some (vol', events)) :
    (vol.tree.readFile d f).isSome = true ∧ events = [⟨.file d f, .rename⟩, ⟨.file d g, .create⟩] := by
  obtain ⟨tree, moved, made⟩ := Option.map_eq_some_iff.1 renamed
  cases made
  refine ⟨?_, rfl⟩
  cases stored : vol.tree.readFile d f with
  | some ino => rfl
  | none =>
    rw [Tree.renameFile_none stored] at moved
    cases moved

/-- `os.Remove` of a file. -/
def remove (d f : String) : Volume β × List FileEvent :=
  if (vol.tree.readFile d f).isSome then
    ({ vol with tree := vol.tree.removeFile d f }, [⟨.file d f, .remove⟩])
  else (vol, [])

/-- There is nothing to remove, or there are fewer files. -/
theorem remove_cases (vol : Volume β) (d f : String) :
    vol.remove d f = (vol, []) ∨ (vol.remove d f).1.tree.size < vol.tree.size := by
  cases stored : vol.tree.readFile d f with
  | none => exact .inl (by simp [remove, stored])
  | some ino =>
    have removed : (vol.remove d f).1.tree = vol.tree.removeFile d f := by simp [remove, stored]
    exact .inr (by rw [removed]; exact Tree.size_removeFile stored)

end Volume

end KubeKey.Go
