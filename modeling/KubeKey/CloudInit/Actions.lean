import Mathlib.Data.List.Forall2
import KubeKey.Text.Block

/-!
# The actions of a cloud-config

`pkg/service/provisioning/cloudinit`. `getActions` scans the lines of the user data for top
level keys and gives the lines of each to the action of this name, which decodes them as a
document of its own. The lines before the first key go to the first action.

The decoder of YAML documents is library code, as is the one of JSON texts that unknown
actions use.
-/

namespace KubeKey.CloudInit

open KubeKey.Text

/-- `files`. -/
structure Files where
  path : Chars := []
  encoding : Chars := []
  owner : Chars := []
  permissions : Chars := []
  content : Chars := []
  append : Bool := false
deriving DecidableEq

/-- `Cmd`. -/
structure Cmd where
  cmd : Chars
  args : List Chars
deriving DecidableEq

/-- `action`. -/
inductive Action where
  | writeFiles (files : List Files)
  | runCmd (cmds : List Cmd)
  | unknown (module : Chars) (lines : List Chars)
deriving DecidableEq

/-- What `getActions` uses. -/
structure Libraries where
  yaml : Decoder
  /-- The strings that `unknown.Unmarshal` decodes. -/
  strings : Chars → Option (List Chars)

/-- A scalar in a field of type string. A null leaves the field. -/
def intoString (old : Chars) : Value → Option Chars
  | .str t => some t
  | .number t => some t
  | .bool b => some (if b then "true".toList else "false".toList)
  | .null => some old
  | _ => none

/-- A scalar in a field of type bool. -/
def intoBool (old : Bool) : Value → Option Bool
  | .bool b => some b
  | .null => some old
  | _ => none

/-- Keys match without regard to case. -/
def keyed (key : Chars) (name : String) : Bool := key.map Char.toLower = name.toList

def Files.set (f : Files) (key : Chars) (v : Value) : Option Files :=
  if keyed key "path" then (intoString f.path v).map fun t => { f with path := t }
  else if keyed key "encoding" then (intoString f.encoding v).map fun t => { f with encoding := t }
  else if keyed key "owner" then (intoString f.owner v).map fun t => { f with owner := t }
  else if keyed key "permissions" then (intoString f.permissions v).map fun t => { f with permissions := t }
  else if keyed key "content" then (intoString f.content v).map fun t => { f with content := t }
  else if keyed key "append" then (intoBool f.append v).map fun b => { f with append := b }
  else some f

def Files.setAll (f : Files) (fields : List (Chars × Value)) : Option Files :=
  fields.foldlM (fun f p => f.set p.1 p.2) f

theorem setAll_append (g : Files) (fields fields' : List (Chars × Value)) :
    g.setAll (fields ++ fields') = (g.setAll fields).bind (Files.setAll · fields') := List.foldlM_append

def decodeFiles : Value → Option Files
  | .map fields => ({} : Files).setAll fields
  | .null => some {}
  | _ => none

/-- An element of a list of strings. -/
def element : Value → Option Chars
  | .str t => some t
  | .null => some []
  | _ => none

/-- `UnmarshalJSON` of a command. It panics on an empty list. -/
def unmarshalCmd : Value → Option Cmd
  | .seq items => (items.mapM element).bind fun
    | [] => none
    | c :: args => some ⟨c, args⟩
  | .str s => some ⟨"/bin/sh".toList, ["-c".toList, s]⟩
  | _ => none

/-- A list in the field with the name. -/
def decodeList {α : Type} (name : String) (decode : Value → Option α) : Value → Option (List α)
  | .map fields => fields.foldlM (fun old p =>
      if keyed p.1 name then
        match p.2 with
        | .seq items => items.mapM decode
        | .null => some []
        | _ => none
      else some old) []
  | .null => some []
  | _ => none

/-- `Unmarshal` of the action with the name, as the factory makes it. -/
def unmarshal (lib : Libraries) (name data : Chars) : Option Action :=
  if name = "write_files".toList then
    ((lib.yaml.read data).bind (decodeList "write_files" decodeFiles)).map .writeFiles
  else if name = "runcmd".toList then
    ((lib.yaml.read data).bind (decodeList "runcmd" unmarshalCmd)).map .runCmd
  else (lib.strings data).map (.unknown name)

/-- The line matches `^[a-zA-Z_]*:`. -/
def actionRegEx (line : Chars) : Bool := (line.dropWhile wordChar).head? = some ':'

/-- `strings.TrimSuffix` of a colon. -/
def trimColon (line : Chars) : Chars := if line.getLast? = some ':' then line.dropLast else line

/-- The action whose lines are collected, its lines, and the actions before. -/
structure Scan where
  act : Option Chars := none
  lines : List Chars := []
  actions : List Action := []

/-- Convert the lines into the current action, if any. -/
def Scan.finish (lib : Libraries) (s : Scan) : Option (List Action) :=
  match s.act with
  | none => some s.actions
  | some name => (unmarshal lib name (joinLines s.lines)).map fun a => s.actions ++ [a]

/-- One line of the loop. The lines before the first action are kept for it. -/
def Scan.line (lib : Libraries) (s : Scan) (line : Chars) : Option Scan :=
  if actionRegEx line then
    (s.finish lib).map fun actions =>
      ⟨some (trimColon line), (if s.act.isSome then [] else s.lines) ++ [line], actions⟩
  else some { s with lines := s.lines ++ [line] }

inductive Err where
  | unmarshal
  | tooLong
deriving DecidableEq

/-- The longest line with its newline that a scanner takes. -/
def maxScanTokenSize : Nat := 64 * 1024

/-- `getActions`. -/
def getActions (lib : Libraries) (userData : Chars) : List Action × Option Err :=
  let (lines, whole) := scan maxScanTokenSize userData
  match (lines.foldlM (Scan.line lib) {}).bind (Scan.finish lib) with
  | none => ([], some .unmarshal)
  | some actions => (actions, if whole then none else some .tooLong)

/-! ### Reading lists -/

theorem forall₂_of_mapM {α β : Type} {f : α → Option β} {xs : List α} {ys : List β} (run : xs.mapM f = some ys) :
    List.Forall₂ (fun x y => f x = some y) xs ys := by
  induction xs generalizing ys with
  | nil =>
    cases run
    exact .nil
  | cons x xs ih =>
    rw [List.mapM_cons] at run
    obtain ⟨y, first, rest⟩ := Option.bind_eq_some_iff.1 run
    obtain ⟨ys', others, whole⟩ := Option.bind_eq_some_iff.1 rest
    cases whole
    exact .cons first (ih others)

/-- Lines that are no key are collected. -/
theorem foldlM_line (lib : Libraries) {ls : List Chars} (none : ∀ l ∈ ls, actionRegEx l = false) (s : Scan) :
    ls.foldlM (Scan.line lib) s = some { s with lines := s.lines ++ ls } := by
  induction ls generalizing s with
  | nil => simp
  | cons l ls ih =>
    rw [List.foldlM_cons, Scan.line, none l List.mem_cons_self]
    refine (ih (fun l' member => none l' (List.mem_cons_of_mem _ member)) _).trans ?_
    simp

/-- A key ends the lines of the action before it. -/
theorem line_key (lib : Libraries) {key : Chars} (word : ∀ c ∈ key, wordChar c = true) (s : Scan) :
    s.line lib (key ++ [':']) = (s.finish lib).map fun actions =>
      ⟨some key, (if s.act.isSome then [] else s.lines) ++ [key ++ [':']], actions⟩ := by
  have matched : actionRegEx (key ++ [':']) = true := by
    rw [actionRegEx, List.dropWhile_append_of_pos word]
    rfl
  rw [Scan.line, matched, if_pos rfl, trimColon, List.getLast?_concat, if_pos rfl, List.dropLast_concat]

/-- Two keys with lines of their own are two actions. -/
theorem scan_two (lib : Libraries) {front first second : List Chars} {key key' : Chars}
    (word : ∀ c ∈ key, wordChar c = true) (word' : ∀ c ∈ key', wordChar c = true)
    (none : ∀ l ∈ front ++ first ++ second, actionRegEx l = false) :
    ((front ++ (key ++ [':']) :: first ++ (key' ++ [':']) :: second).foldlM (Scan.line lib) {}).bind
        (Scan.finish lib) =
      (unmarshal lib key (joinLines (front ++ (key ++ [':']) :: first))).bind fun a =>
        (unmarshal lib key' (joinLines ((key' ++ [':']) :: second))).map fun a' => [a, a'] := by
  have frontLines := foldlM_line lib fun l (member : l ∈ front) => none l (by simp [member])
  have firstLines := foldlM_line lib fun l (member : l ∈ first) => none l (by simp [member])
  have secondLines := foldlM_line lib fun l (member : l ∈ second) => none l (by simp [member])
  have toFirst : (front ++ (key ++ [':']) :: first).foldlM (Scan.line lib) {} =
      some ⟨some key, front ++ (key ++ [':']) :: first, []⟩ := by
    rw [List.foldlM_append, frontLines, Option.bind_eq_bind, Option.bind_some, List.foldlM_cons, line_key lib word]
    refine (firstLines _).trans ?_
    simp
  have finished : Scan.finish lib ⟨some key, front ++ (key ++ [':']) :: first, []⟩ =
      (unmarshal lib key (joinLines (front ++ (key ++ [':']) :: first))).map ([·]) := rfl
  rw [List.foldlM_append, toFirst, Option.bind_eq_bind, Option.bind_some, List.foldlM_cons, line_key lib word',
    finished, Option.bind_eq_bind]
  cases unmarshal lib key (joinLines (front ++ (key ++ [':']) :: first)) with
  | none => rfl
  | some a =>
    rw [Option.map_some, Option.map_some, Option.bind_some, secondLines]
    rfl

end KubeKey.CloudInit
