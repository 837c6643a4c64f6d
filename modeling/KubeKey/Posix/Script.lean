import KubeKey.Posix.Files
import KubeKey.Text.Shell

/-!
# Commands of a shell

What a shell does with a text that is one simple command, `none` where it fails and where nothing
is said: the text is no simple command, a tool is not one of those below, or what `echo` prints is
left open, which it is of backslashes and of options. Two such texts are followed: words that are
readable (`simple_unwords`), and a quoted text that is written to a file (`simple_echo`).

A here document gives its lines as they are unless something in them is expanded, or one of them
ends it (`hereDocument_eq`).
-/

namespace KubeKey.Posix

open KubeKey.Text KubeKey.Text.Shell

/-! ## Tools -/

/-- The accounts of a machine and where its commands are run. -/
structure Machine where
  accounts : Accounts
  home : Place

/-- An argument that is not taken for an option. -/
def operand (w : Chars) : Bool := w.head? ≠ some '-'

/-- An argument that `echo` may take for an option. -/
def echoOption (w : Chars) : Bool :=
  w.head? = some '-' && w.length ≠ 1 && (w.drop 1).all fun c => c = 'n' || c = 'e' || c = 'E'

/-- What `echo` prints. -/
def echo (args : List Chars) : Option Chars :=
  if args.head?.any echoOption || args.any fun w => w.any (· = '\\') then none else some (unwords args ++ ['\n'])

namespace Machine

variable (m : Machine)

def mkdir (args : List Chars) (t : Tree) : Option Tree :=
  match args with
  | [flag, d] =>
    if flag = "-p".toList ∧ operand d then mkdirs newDir.mode (place m.home d) t else none
  | [flag, flag', mode, d] =>
    if flag = "-p".toList ∧ flag' = "-m".toList ∧ operand d then
      (octal mode).bind fun mode => mkdirs mode (place m.home d) t
    else none
  | _ => none

def chmod (args : List Chars) (t : Tree) : Option Tree :=
  match args with
  | [mode, p] => if operand p then (octal mode).bind fun mode => Posix.chmod mode (place m.home p) t else none
  | _ => none

def chown (args : List Chars) (t : Tree) : Option Tree :=
  match args with
  | [o, p] =>
    if operand o ∧ operand p then (m.accounts.owner o).bind fun o => Posix.chown o (place m.home p) t else none
  | [o, flag, d] =>
    if operand o ∧ flag = "-R".toList ∧ operand d then
      (m.accounts.owner o).bind fun o => chownAll o (place m.home d) t
    else none
  | _ => none

/-- The tools that print nothing. -/
def tool (name : Chars) (args : List Chars) (t : Tree) : Option Tree :=
  if name = "mkdir".toList then m.mkdir args t
  else if name = "chmod".toList then m.chmod args t
  else if name = "chown".toList then m.chown args t
  else none

/-- The files are opened one after another, and the last one gets the output. -/
def emit (text : Chars) : List (Bool × Chars) → Tree → Option Tree
  | [], t => some t
  | (append, p) :: rest, t =>
    if named p then
      (output append (place m.home p) (if rest = [] then text else []) t).bind (emit text rest)
    else none

end Machine

/-! ## Simple commands -/

/-- The words of a command, and the files of its redirections. -/
def arrange : List Token → Option (List Chars × List (Bool × Chars))
  | [] => some ([], [])
  | .word w :: ts => (arrange ts).map fun c => (w :: c.1, c.2)
  | [.out _] => none
  | .out _ :: .out _ :: _ => none
  | .out append :: .word p :: ts => (arrange ts).map fun c => (c.1, (append, p) :: c.2)

/-- A text is run as a simple command. -/
def Machine.simple (m : Machine) (text : Chars) (t : Tree) : Option Tree :=
  ((command text).bind arrange).bind fun c =>
    match c.1 with
    | [] => none
    | name :: args =>
      if name = "echo".toList then (echo args).bind fun out => m.emit out c.2 t
      else if c.2 = [] then m.tool name args t
      else none

/-! ## Here documents -/

/-- A character after a dollar sign that makes it an expansion. -/
def expansion (c : Char) : Bool := c.isAlphanum || "_\x7b([*@#?-$!".toList.any fun d => c = d

/-- Something in a here document is expanded or dropped. -/
def expands : Chars → Bool
  | [] => false
  | c :: cs => c = '\\' || c = '`' || c = '\x00' || (c = '$' && cs.head?.any expansion) || expands cs

/-- The here document of a text, which ends it. -/
def hereDocument (stop text : Chars) : Option Chars :=
  let body := (lines text).takeWhile (· ≠ stop)
  if lines text = body ++ [stop] ∧ expands (joinLines body) = false then some (joinLines body) else none

theorem hereDocument_eq {stop text : Chars} (solid : '\n' ∉ stop) (free : stop ∉ lines text)
    (still : expands text = false) : hereDocument stop (text ++ '\n' :: stop) = some text := by
  have some_ : lines text ≠ [] := by
    intro none_
    have whole := joinLines_lines text
    cases text with
    | nil => cases none_
    | cons c cs =>
      rw [none_] at whole
      cases whole
  have unbroken : Unbroken (lines text ++ [stop]) := by
    intro l inside
    rcases List.mem_append.mp inside with inside | inside
    · exact lines_unbroken text l inside
    · rw [List.mem_singleton.mp inside]
      exact solid
  have whole : lines (text ++ '\n' :: stop) = lines text ++ [stop] := by
    rw [← lines_joinLines unbroken (by simp), joinLines_concat some_, joinLines_lines]
  have body : (lines text ++ [stop]).takeWhile (· ≠ stop) = lines text := by
    have before : ∀ l ∈ lines text, decide (l ≠ stop) = true := by
      intro l inside
      exact decide_eq_true fun same => free (same ▸ inside)
    rw [List.takeWhile_append_of_pos before]
    simp
  rw [hereDocument, whole]
  simp only [body, joinLines_lines, still, and_self, if_true]

theorem expands_eq_false {text : Chars} (plain : ∀ c ∈ text, special c = false) : expands text = false := by
  induction text with
  | nil => rfl
  | cons c cs ih =>
    have first := plain c List.mem_cons_self
    have other : ∀ d, special d = true → c ≠ d := fun d is_ same => by rw [same, is_] at first; cases first
    rw [expands, ih fun d inside => plain d (List.mem_cons_of_mem _ inside)]
    simp [other '\\' rfl, other '`' rfl, other '\x00' rfl, other '$' rfl]

/-! ## Readable words -/

theorem plainFrom_special {start : Bool} {w : Chars} (plain : plainFrom start w = true) :
    ∀ c ∈ w, special c = false := by
  induction w generalizing start with
  | nil => exact fun c inside => absurd inside List.not_mem_nil
  | cons c cs ih =>
    simp only [plainFrom, ordinary, Bool.and_eq_true, Bool.not_eq_true'] at plain
    intro d inside
    rcases List.mem_cons.mp inside with rfl | inside
    · exact plain.1.2.1.1
    · exact ih plain.2 d inside

/-- Words that are joined have no character that is special. -/
theorem unwords_special {ws : List Chars} (plain : ∀ w ∈ ws, plainWord w = true) :
    ∀ c ∈ unwords ws, special c = false := by
  induction ws with
  | nil => exact fun c inside => absurd inside List.not_mem_nil
  | cons w ws ih =>
    have first := plainFrom_special (plainWord_iff.mp (plain w List.mem_cons_self)).2
    cases ws with
    | nil => rwa [unwords_one]
    | cons v ws =>
      intro c inside
      rw [unwords_cons] at inside
      rcases List.mem_append.mp inside with inside | inside
      · exact first c inside
      · rcases List.mem_cons.mp inside with rfl | inside
        · rfl
        · exact ih (fun w inside => plain w (List.mem_cons_of_mem _ inside)) c inside

theorem arrange_words (ws : List Chars) : arrange (ws.map Token.word) = some (ws, []) := by
  induction ws with
  | nil => rfl
  | cons w ws ih => rw [List.map_cons, arrange, ih, Option.map_some]

theorem simple_unwords (m : Machine) {name : Chars} {args : List Chars} (plain : readable (name :: args) = true)
    (other : name ≠ "echo".toList) (t : Tree) : m.simple (unwords (name :: args)) t = m.tool name args t := by
  have run := argv_eq_some_iff.mp ((argv_unwords_iff (List.cons_ne_nil name args)).mpr plain)
  rw [Machine.simple, run, Option.bind_some, arrange_words, Option.bind_some]
  exact if_neg other |>.trans (if_pos rfl)

/-! ## A quoted text -/

theorem scan_single {v text rest : Chars} (unquoted : '\'' ∉ text) :
    Shell.scan .single (some v) (text ++ '\'' :: rest) = Shell.scan .plain (some (v ++ text)) rest := by
  induction text generalizing v with
  | nil =>
    rw [List.nil_append, List.append_nil]
    conv_lhs => unfold Shell.scan
    exact if_pos rfl
  | cons c cs ih =>
    have other : c ≠ '\'' := fun same => unquoted (same ▸ List.mem_cons_self)
    rw [List.cons_append]
    conv_lhs => unfold Shell.scan
    rw [if_neg other, push, Option.getD_some, ih fun inside => unquoted (List.mem_cons_of_mem _ inside),
      List.append_assoc, List.singleton_append]

/-- `echo '%s' %s %s` of a text, a redirection and a path. -/
def quotedEcho (text : Chars) (append : Bool) (path : Chars) : Chars :=
  "echo".toList ++
    ' ' :: '\'' :: (text ++ '\'' :: ' ' :: ((if append then ">>".toList else ">".toList) ++ ' ' :: path))

theorem scan_redirect {append : Bool} {path : Chars} (plain : plainWord path = true) :
    Shell.scan .plain none ((if append then ">>".toList else ">".toList) ++ ' ' :: path) =
      some [.out append, .word path] := by
  have file : Shell.scan .plain none (' ' :: path) = some [.word path] := by
    have read : Shell.scan .plain none (unwords [path]) = some ([path].map .word) := scan_unwords (by simpa using plain)
    rw [unwords_one] at read
    rw [scan_blank rfl, read]
    rfl
  have next : ' ' ≠ '>' := by decide
  cases append with
  | false =>
    conv_lhs => unfold Shell.scan
    simp [Shell.blank, descriptor, file, close]
  | true =>
    conv_lhs => unfold Shell.scan
    simp [Shell.blank, descriptor, file, close]

theorem scan_quotedEcho {text path : Chars} {append : Bool} (unquoted : '\'' ∉ text) (plain : plainWord path = true) :
    Shell.scan .plain none (quotedEcho text append path) =
      some [.word "echo".toList, .word text, .out append, .word path] := by
  rw [quotedEcho]
  generalize redirect : (if append then ">>".toList else ">".toList) ++ ' ' :: path = rest
  have ends : Ends (' ' :: '\'' :: (text ++ '\'' :: ' ' :: rest)) := by
    intro c inside
    cases inside
    rfl
  have quoted : Shell.scan .plain none ('\'' :: (text ++ '\'' :: ' ' :: rest)) =
      some [.word text, .out append, .word path] := by
    conv_lhs => unfold Shell.scan
    rw [if_neg (by decide), if_pos rfl, Option.getD_none, scan_single unquoted, List.nil_append, scan_blank rfl,
      ← redirect, scan_redirect plain, Option.map_some, close, Option.elim_some]
  have name : Shell.scan .plain none ("echo".toList ++ _) = Shell.scan .plain ("echo".toList.foldl push none) _ :=
    scan_word (by simp [plainFrom, ordinary, Shell.blank, special, pattern]) ends
  rw [name, foldl_push_none (by simp), scan_blank rfl, quoted, Option.map_some, close, Option.elim_some]

/-- The text is a word of its own, and the path too. -/
theorem command_quotedEcho {lead text path : Chars} {append : Bool} (blanks : lead = [] ∨ lead = [' '])
    (unquoted : '\'' ∉ text) (plain : plainWord path = true) :
    command (lead ++ quotedEcho text append path) =
      some [.word "echo".toList, .word text, .out append, .word path] := by
  have read : Shell.scan .plain none (quotedEcho text append path) =
      some [.word "echo".toList, .word text, .out append, .word path] := scan_quotedEcho unquoted plain
  have first : firstWord (lead ++ quotedEcho text append path) = "echo".toList := by
    have solid : ∀ c ∈ "echo".toList, Shell.blank c = false := by
      have all : ("echo".toList.all fun c => !Shell.blank c) = true := by simp [Shell.blank]
      simpa using all
    have ends : Ends (' ' :: '\'' :: (text ++ '\'' :: ' ' ::
        ((if append then ">>".toList else ">".toList) ++ ' ' :: path))) := by
      intro c inside
      cases inside
      rfl
    have name : "echo".toList.dropWhile Shell.blank = "echo".toList := by simp [Shell.blank]
    have some_ : "echo".toList.isEmpty = false := by simp
    have lead_ : ∀ c ∈ lead, Shell.blank c = true := by
      rcases blanks with rfl | rfl <;> simp [Shell.blank]
    have front : (lead ++ quotedEcho text append path).dropWhile Shell.blank = quotedEcho text append path := by
      rw [List.dropWhile_append_of_pos lead_, quotedEcho, List.dropWhile_append, name, some_,
        if_neg Bool.false_ne_true]
    rw [firstWord, front, quotedEcho, takeWhile_word solid ends]
  have free : (Shell.reserved.contains "echo".toList || assignment "echo".toList) = false := by decide +kernel
  rw [command, first, free, if_neg Bool.false_ne_true]
  rcases blanks with rfl | rfl
  · rw [List.nil_append, read]
  · rw [List.singleton_append, scan_blank rfl, read, Option.map_some, close, Option.elim_none]

theorem simple_echo (m : Machine) {lead text path out : Chars} {append : Bool} (blanks : lead = [] ∨ lead = [' '])
    (unquoted : '\'' ∉ text) (plain : plainWord path = true) (printed : echo [text] = some out)
    (file : named path = true) (t : Tree) :
    m.simple (lead ++ quotedEcho text append path) t = output append (place m.home path) out t := by
  have read : command (lead ++ quotedEcho text append path) =
      some [.word "echo".toList, .word text, .out append, .word path] := command_quotedEcho blanks unquoted plain
  have parts : arrange [.word "echo".toList, .word text, .out append, .word path] =
      some (["echo".toList, text], [(append, path)]) := rfl
  rw [Machine.simple, read, Option.bind_some, parts, Option.bind_some]
  simp only [if_true, printed, Option.bind_some, Machine.emit, file]
  cases output append (place m.home path) out t <;> rfl

end KubeKey.Posix
