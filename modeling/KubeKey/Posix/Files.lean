import Mathlib.Data.List.Infix
import Mathlib.Logic.Function.Basic
import KubeKey.Text.Lines

/-!
# Files with owners and modes

The files and directories of a machine, and what commands of root do to them: `mkdir -p`, `chmod`,
`chown` and the redirection of an output, `none` where they fail. The umask is 022. There are no
links, and a path leads where its parts say: `..` is one place up.

A command that only gives to a user what is his already changes nothing (`chownAll_eq`).
-/

namespace KubeKey.Posix

open KubeKey.Text

/-! ## Places -/

/-- The names from the root to a file or directory. -/
abbrev Place := List Chars

/-- One part of a path further. -/
def enter (p : Place) (part : Chars) : Place :=
  if part = [] ∨ part = ['.'] then p
  else if part = ['.', '.'] then p.dropLast
  else p ++ [part]

/-- Where a path leads from a working directory. -/
def place (home : Place) (path : Chars) : Place :=
  (path.splitOn '/').foldl enter (if path.head? = some '/' then [] else home)

/-- The last part of a path. -/
def base (path : Chars) : Chars := (path.reverse.takeWhile (· ≠ '/')).reverse

/-- The path ends with a name of its own. -/
def named (path : Chars) : Bool := base path ≠ [] && base path ≠ ['.'] && base path ≠ ['.', '.']

/-! ## Files and directories -/

structure Attr where
  user : Nat
  group : Nat
  mode : Nat
deriving DecidableEq

inductive Entry where
  | dir (attr : Attr)
  | file (attr : Attr) (content : Chars)
deriving DecidableEq

namespace Entry

def attr : Entry → Attr
  | .dir attr => attr
  | .file attr _ => attr

def setAttr (e : Entry) (attr : Attr) : Entry :=
  match e with
  | .dir _ => .dir attr
  | .file _ content => .file attr content

def isFile : Entry → Bool
  | .dir _ => false
  | .file _ _ => true

theorem setAttr_attr (e : Entry) : e.setAttr e.attr = e := by
  cases e <;> rfl

end Entry

abbrev Tree := Place → Option Entry

def newFile : Attr := ⟨0, 0, 0o644⟩

def newDir : Attr := ⟨0, 0, 0o755⟩

/-- `mkdir -p`: the directory at a place, with this mode if it is made, and those on the way. -/
def mkdirs (mode : Nat) (p : Place) (t : Tree) : Option Tree :=
  if ∃ q ∈ p.inits, (t q).any Entry.isFile then none
  else some fun q =>
    if q ∈ p.inits then some ((t q).getD (.dir (if q = p then { newDir with mode := mode } else newDir))) else t q

/-- The tree with a directory at a place and on the way there. -/
def made (p : Place) (t : Tree) : Tree := fun q => if q ∈ p.inits then some ((t q).getD (.dir newDir)) else t q

/-- An output is written to a file, in place of what it holds or after that. -/
def output (append : Bool) (p : Place) (text : Chars) (t : Tree) : Option Tree :=
  match t p with
  | some (.dir _) => none
  | some (.file attr old) =>
    some (Function.update t p (some (.file attr ((if append then old else []) ++ text))))
  | none =>
    if (t p.dropLast).any fun e => !e.isFile then some (Function.update t p (some (.file newFile text))) else none

/-! ## Owners and modes -/

/-- The users and groups of a machine, and the group that a user logs in with. -/
structure Accounts where
  user : Chars → Option Nat
  group : Chars → Option Nat
  login : Chars → Option Nat

/-- The user and the group that are asked for, if any. -/
abbrev Owner := Option Nat × Option Nat

/-- `user`, `user:group`, `user:` or `:group`. -/
def Accounts.owner (a : Accounts) (o : Chars) : Option Owner :=
  let name := o.takeWhile (· ≠ ':')
  let behind := o.dropWhile (· ≠ ':')
  let user := if name = [] then some none else (a.user name).map some
  let group :=
    if behind = [] then some none
    else if behind ≠ [':'] then (a.group (behind.drop 1)).map some
    else if name = [] then some none
    else (a.login name).map some
  user.bind fun u => group.map fun g => (u, g)

def Attr.own (attr : Attr) (o : Owner) : Attr :=
  { attr with user := o.1.getD attr.user, group := o.2.getD attr.group }

/-- A numeric mode. -/
def octal (s : Chars) : Option Nat :=
  let value := s.foldl (fun n c => 8 * n + (c.toNat - '0'.toNat)) 0
  if s ≠ [] ∧ (s.all fun c => "01234567".toList.any fun d => c = d) ∧ value ≤ 0o7777 then some value else none

def chmod (mode : Nat) (p : Place) (t : Tree) : Option Tree :=
  (t p).map fun e => Function.update t p (some (e.setAttr { e.attr with mode := mode }))

def chown (o : Owner) (p : Place) (t : Tree) : Option Tree :=
  (t p).map fun e => Function.update t p (some (e.setAttr (e.attr.own o)))

/-- `chown -R`. -/
def chownAll (o : Owner) (p : Place) (t : Tree) : Option Tree :=
  (t p).map fun _ q => if p ∈ q.inits then (t q).map fun e => e.setAttr (e.attr.own o) else t q

section Unchanged

variable {o : Owner} {p : Place} {t : Tree}

theorem chmod_eq {mode : Nat} {e : Entry} (there : t p = some e) (same : e.attr.mode = mode) :
    chmod mode p t = some t := by
  have attr : { e.attr with mode := mode } = e.attr := by rw [← same]
  rw [chmod, there, Option.map_some, attr, e.setAttr_attr, ← there, Function.update_eq_self]

theorem chown_eq {e : Entry} (there : t p = some e) (same : e.attr.own o = e.attr) : chown o p t = some t := by
  rw [chown, there, Option.map_some, same, e.setAttr_attr, ← there, Function.update_eq_self]

theorem chownAll_eq (there : (t p).isSome = true) (same : ∀ q, p <+: q → ∀ e ∈ t q, e.attr.own o = e.attr) :
    chownAll o p t = some t := by
  obtain ⟨e, there⟩ := Option.isSome_iff_exists.mp there
  rw [chownAll, there, Option.map_some, Option.some.injEq]
  funext q
  split
  · next below =>
    cases at_ : t q with
    | none => rfl
    | some e => rw [Option.map_some, same q ((List.mem_inits _ _).mp below) e at_, e.setAttr_attr]
  · rfl

end Unchanged

/-! ## Directories that are made -/

section Made

variable {p q : Place} {t : Tree}

theorem mkdirs_eq (way : ∀ q, q <+: p → ∀ e ∈ t q, e.isFile = false) :
    mkdirs newDir.mode p t = some (made p t) := by
  have open_ : ¬ ∃ q ∈ p.inits, (t q).any Entry.isFile = true := by
    rintro ⟨q, inside, file⟩
    obtain ⟨e, here, file⟩ := (Option.any_eq_true _ _).mp file
    have dir_ := way q ((List.mem_inits _ _).mp inside) e here
    rw [file] at dir_
    cases dir_
  have mode : ∀ q, (if q = p then { newDir with mode := newDir.mode } else newDir) = newDir := fun q => ite_self _
  rw [mkdirs, if_neg open_]
  simp only [mode]
  rfl

theorem made_of_not (away : ¬ q <+: p) : made p t q = t q :=
  if_neg fun inside => away ((List.mem_inits _ _).mp inside)

theorem made_of_some {e : Entry} (there : t q = some e) : made p t q = some e := by
  rw [made]
  split
  · rw [there, Option.getD_some]
  · exact there

end Made

end KubeKey.Posix
