import KubeKey.Text.Lines

/-!
# Simple commands of a POSIX shell

How a shell reads a text as a simple command: its words and its redirections of the standard
output. A quote or a backslash protects what it quotes and is removed. Nothing is said (`none`)
about texts that a shell does not read as one simple command, and about those whose words depend
on more than the text: parameters, substitutions, patterns and home directories.

Words that are plain and are joined by blanks come back as they were, and no other words do
(`argv_unwords_iff`): a text has a character for each of the words' characters and one for each
blank between them, so a reading that gives all of them back removed nothing.
-/

namespace KubeKey.Text.Shell

/-- A word, or a redirection of the output to the file that the next word names. -/
inductive Token where
  | word (text : Chars)
  | out (append : Bool)
deriving DecidableEq

/-- How what comes next is quoted. -/
inductive Mode where
  | plain
  | single
  | double
deriving DecidableEq

def blank (c : Char) : Bool := c = ' ' || c = '\t'

/-- A character that an unquoted word cannot have as itself. -/
def special (c : Char) : Bool := ['\'', '"', '\\', '\n', '|', '&', ';', '<', '>', '(', ')', '$', '`', '\x00'].contains c

/-- A pattern for the names of files, before the rest of the text. A bracket is one only if it is closed. -/
def pattern (c : Char) (cs : Chars) : Bool :=
  c = '*' || c = '?' || (c = '[' && (cs.takeWhile fun d => !blank d).contains ']')

/-- A character that stands for itself, at the start of a word or within it. -/
def ordinary (start : Bool) (c : Char) (cs : Chars) : Bool :=
  !special c && !pattern c cs && !(start && (c = '#' || c = '~'))

/-- The current word with a character more. There is none between two words. -/
def push (current : Option Chars) (c : Char) : Option Chars := some (current.getD [] ++ [c])

/-- The current word ends. -/
def close (current : Option Chars) (tokens : List Token) : List Token :=
  current.elim tokens fun w => .word w :: tokens

/-- What the digits before a redirection would be taken for. -/
def descriptor (current : Option Chars) : Bool := current.any fun w => !w.isEmpty && w.all Char.isDigit

/-- The tokens from a point on. -/
def scan : Mode → Option Chars → Chars → Option (List Token)
  | .plain, current, [] => some (close current [])
  | .single, _, [] => none
  | .double, _, [] => none
  | .single, current, c :: cs => if c = '\'' then scan .plain current cs else scan .single (push current c) cs
  | .double, current, c :: cs =>
    if c = '"' then scan .plain current cs
    else if c = '$' ∨ c = '`' then none
    else if c = '\\' then
      match cs with
      | [] => none
      | d :: ds =>
        if d = '\n' then scan .double current ds
        else if d = '$' ∨ d = '`' ∨ d = '"' ∨ d = '\\' then scan .double (push current d) ds
        else scan .double (push (push current c) d) ds
    else scan .double (push current c) cs
  | .plain, current, c :: cs =>
    if blank c then (scan .plain none cs).map (close current)
    else if c = '\'' then scan .single (some (current.getD [])) cs
    else if c = '"' then scan .double (some (current.getD [])) cs
    else if c = '\\' then
      match cs with
      | [] => none
      | d :: ds => scan .plain (if d = '\n' then current else push current d) ds
    else if c = '>' then
      if descriptor current then none
      else
        match cs with
        | [] => none
        | d :: ds =>
          if d = '>' then (scan .plain none ds).map fun ts => close current (.out true :: ts)
          else (scan .plain none (d :: ds)).map fun ts => close current (.out false :: ts)
    else if ordinary current.isNone c cs then scan .plain (push current c) cs
    else none

/-! ## Commands -/

/-- Words that the shell may not take for the name of a command. -/
def reserved : List Chars :=
  ["!", "\x7b", "\x7d", "case", "do", "done", "elif", "else", "esac", "fi", "for", "if", "in", "then", "until", "while",
    "[[", "]]", "function", "select"].map String.toList

/-- An assignment to a variable. -/
def assignment (w : Chars) : Bool :=
  let name := w.takeWhile (· ≠ '=')
  name.length < w.length && name.head?.any (fun c => !c.isDigit) && name.all fun c => c.isAlphanum || c = '_'

/-- The text up to the first blank after its first word. -/
def firstWord (text : Chars) : Chars := (text.dropWhile blank).takeWhile fun c => !blank c

/-- The tokens of a simple command. -/
def command (text : Chars) : Option (List Token) :=
  if reserved.contains (firstWord text) || assignment (firstWord text) then none else scan .plain none text

def Token.toWord : Token → Option Chars
  | .word w => some w
  | .out _ => none

/-- The argument vector of a simple command without redirections. -/
def argv (text : Chars) : Option (List Chars) := (command text).bind fun ts => ts.mapM Token.toWord

/-- Words with a blank between any two of them. -/
def unwords (ws : List Chars) : Chars := [' '].intercalate ws

/-! ## Sizes -/

/-- The characters of the words, and one for the end of each. -/
def size : List Token → Nat
  | [] => 0
  | .word w :: ts => w.length + 1 + size ts
  | .out _ :: ts => size ts

/-- The characters of the current word. -/
def held (current : Option Chars) : Nat := current.elim 0 List.length

theorem held_push (current : Option Chars) (c : Char) : held (push current c) = held current + 1 := by
  cases current <;> simp [held, push]

theorem held_getD (current : Option Chars) : held (some (current.getD [])) = held current := by
  cases current <;> rfl

theorem size_close_le (current : Option Chars) (ts : List Token) :
    size (close current ts) ≤ held current + 1 + size ts := by
  cases current with
  | none => simp [held, close]
  | some w => exact Nat.le_refl _

/-- The quote that a quoted part still has to end with. -/
def owed : Mode → Nat
  | .plain => 0
  | .single => 1
  | .double => 1

theorem size_close (current : Option Chars) (ts : List Token) :
    size (close current ts) = held current + (if current.isSome then 1 else 0) + size ts := by
  cases current with
  | none => simp [held, close]
  | some w => rfl

/-- The tokens have no character that the text does not have, and not the quote that a quoted part ends with. -/
theorem scan_size {mode : Mode} {current : Option Chars} {text : Chars} {ts : List Token}
    (run : scan mode current text = some ts) : size ts + owed mode ≤ text.length + 1 + held current := by
  fun_induction scan mode current text generalizing ts with
  | case1 current =>
    cases run
    have closed := size_close_le current []
    simp only [size, owed, List.length_nil] at closed ⊢
    omega
  | case13 current c cs _ ih | case20 current _ cs _ _ _ _ ih | case21 current _ c cs _ _ _ _ _ ih =>
    obtain ⟨rest, scanned, rfl⟩ := Option.map_eq_some_iff.1 run
    have within := ih scanned
    have closed := size_close_le current rest
    have closed' : ∀ append, size (close current (.out append :: rest)) = size (close current rest) := by
      intro append
      rw [size_close, size_close, size]
    simp only [owed, held, Option.elim_none, List.length_cons, closed'] at within ⊢
    simp only [held] at closed
    omega
  | case17 current d ds _ _ _ ih =>
    have within := ih run
    have grown := held_push current d
    simp only [owed, List.length_cons] at within ⊢
    split at within <;> omega
  | _ =>
    first
    | cases run
    | (rename_i ih
       have within := ih run
       simp only [owed, held_push, held_getD, List.length_cons] at within ⊢
       omega)

/-! ## Plain words -/

/-- The characters of a word from a point on stand for themselves. -/
def plainFrom : Bool → Chars → Bool
  | _, [] => true
  | start, c :: cs => !blank c && ordinary start c cs && plainFrom false cs

/-- A word that stands for itself. -/
def plainWord (w : Chars) : Bool := !w.isEmpty && plainFrom true w

/-- What comes after a word: nothing or a blank. -/
def Ends (rest : Chars) : Prop := ∀ c ∈ rest.head?, blank c = true

theorem plainFrom_blank {start : Bool} {w : Chars} (plain : plainFrom start w = true) : ∀ c ∈ w, blank c = false := by
  induction w generalizing start with
  | nil => exact fun c inside => absurd inside List.not_mem_nil
  | cons c cs ih =>
    simp only [plainFrom, Bool.and_eq_true, Bool.not_eq_true'] at plain
    intro d inside
    rcases List.mem_cons.1 inside with rfl | inside
    · exact plain.1.1
    · exact ih plain.2 d inside

theorem ends_nil : Ends [] := fun c inside => by cases inside

theorem takeWhile_word {w rest : Chars} (solid : ∀ c ∈ w, blank c = false) (ends : Ends rest) :
    (w ++ rest).takeWhile (fun d => !blank d) = w := by
  rw [List.takeWhile_append_of_pos fun c inside => by rw [solid c inside]; rfl]
  cases rest with
  | nil => exact List.append_nil w
  | cons d ds =>
    have here : blank d = true := ends d rfl
    rw [List.takeWhile_cons, here]
    exact List.append_nil w

theorem ordinary_append {start : Bool} {c : Char} {cs rest : Chars} (solid : ∀ c ∈ cs, blank c = false)
    (ends : Ends rest) : ordinary start c (cs ++ rest) = ordinary start c cs := by
  have whole : cs.takeWhile (fun d => !blank d) = cs := by
    have cut := takeWhile_word solid ends_nil
    rwa [List.append_nil] at cut
  unfold ordinary pattern
  rw [takeWhile_word solid ends, whole]

/-- The character begins no quote, no escape and no redirection. -/
theorem ordinary_not {start : Bool} {c : Char} {cs : Chars} (stands : ordinary start c cs = true) :
    c ≠ '\'' ∧ c ≠ '"' ∧ c ≠ '\\' ∧ c ≠ '>' := by
  have plain : special c = false := by
    simp only [ordinary, Bool.and_eq_true, Bool.not_eq_true'] at stands
    exact stands.1.1
  refine ⟨?_, ?_, ?_, ?_⟩ <;> rintro rfl <;> revert plain <;> decide

theorem scan_blank {current : Option Chars} {c : Char} {cs : Chars} (here : blank c = true) :
    scan .plain current (c :: cs) = (scan .plain none cs).map (close current) := by
  conv_lhs => unfold scan
  rw [if_pos here]

theorem scan_ordinary {current : Option Chars} {c : Char} {cs : Chars} (solid : blank c = false)
    (stands : ordinary current.isNone c cs = true) :
    scan .plain current (c :: cs) = scan .plain (push current c) cs := by
  obtain ⟨single, double, escape, redirect⟩ := ordinary_not stands
  conv_lhs => unfold scan
  rw [if_neg (by simp [solid]), if_neg single, if_neg double, if_neg escape, if_neg redirect, if_pos stands]

/-- A plain word is read to its end. -/
theorem scan_word {current : Option Chars} {w rest : Chars} (plain : plainFrom current.isNone w = true)
    (ends : Ends rest) : scan .plain current (w ++ rest) = scan .plain (w.foldl push current) rest := by
  induction w generalizing current with
  | nil => rfl
  | cons c cs ih =>
    simp only [plainFrom, Bool.and_eq_true, Bool.not_eq_true'] at plain
    have stands : ordinary current.isNone c (cs ++ rest) = true := by
      rw [ordinary_append (plainFrom_blank plain.2) ends]
      exact plain.1.2
    rw [List.cons_append, scan_ordinary plain.1.1 stands, List.foldl_cons]
    exact ih plain.2

theorem foldl_push (w : Chars) : ∀ v : Chars, w.foldl push (some v) = some (v ++ w) := by
  induction w with
  | nil => exact fun v => by rw [List.append_nil]; rfl
  | cons c cs ih => exact fun v => by rw [List.foldl_cons, push, ih, Option.getD_some, List.append_assoc]; rfl

theorem foldl_push_none {w : Chars} (some_ : w ≠ []) : w.foldl push none = some w := by
  cases w with
  | nil => exact absurd rfl some_
  | cons c cs => rw [List.foldl_cons, push, foldl_push]; rfl

theorem plainWord_iff {w : Chars} : plainWord w = true ↔ w ≠ [] ∧ plainFrom true w = true := by
  simp [plainWord]

theorem unwords_cons (w v : Chars) (ws : List Chars) : unwords (w :: v :: ws) = w ++ ' ' :: unwords (v :: ws) := by
  simp [unwords, List.intercalate]

theorem unwords_one (w : Chars) : unwords [w] = w := by simp [unwords, List.intercalate]

/-- Plain words are read as they are. -/
theorem scan_unwords {ws : List Chars} (plain : ∀ w ∈ ws, plainWord w = true) :
    scan .plain none (unwords ws) = some (ws.map .word) := by
  induction ws with
  | nil => rfl
  | cons w ws ih =>
    obtain ⟨some_, stands⟩ := plainWord_iff.1 (plain w List.mem_cons_self)
    cases ws with
    | nil =>
      have whole : scan .plain none (w ++ []) = _ := scan_word stands ends_nil
      rw [List.append_nil, foldl_push_none some_] at whole
      rw [unwords_one, whole]
      rfl
    | cons v ws =>
      have ends : Ends (' ' :: unwords (v :: ws)) := by
        intro c inside
        cases inside
        rfl
      have first : scan .plain none (w ++ _) = _ := scan_word stands ends
      rw [unwords_cons, first, foldl_push_none some_, scan_blank rfl,
        ih fun w inside => plain w (List.mem_cons_of_mem _ inside)]
      rfl

/-! ## Nothing else comes back -/

/-- The words and the ends of them. -/
theorem size_words (ws : List Chars) : ws ≠ [] → size (ws.map .word) = (unwords ws).length + 1 := by
  induction ws with
  | nil => exact fun none_ => absurd rfl none_
  | cons w ws ih =>
    intro _
    cases ws with
    | nil => rw [unwords_one]; rfl
    | cons v ws =>
      have rest := ih (List.cons_ne_nil _ _)
      rw [List.map_cons, size, rest, unwords_cons, List.length_append, List.length_cons]
      omega

/-- A character of a text of which everything comes back ends a word or stands for itself. -/
theorem scan_tight {current : Option Chars} {c : Char} {cs : Chars} {ws : List Chars}
    (run : scan .plain current (c :: cs) = some (ws.map .word))
    (tight : size (ws.map .word) = (c :: cs).length + 1 + held current) :
    (blank c = true ∧ ∃ w ws', current = some w ∧ ws = w :: ws' ∧ scan .plain none cs = some (ws'.map .word)) ∨
      (blank c = false ∧ ordinary current.isNone c cs = true ∧
        scan .plain (push current c) cs = some (ws.map .word)) := by
  unfold scan at run
  rw [List.length_cons] at tight
  split at run
  · next here =>
    obtain ⟨ts, scanned, closed⟩ := Option.map_eq_some_iff.1 run
    cases current with
    | none =>
      have within := scan_size scanned
      rw [show ts = ws.map .word from closed, tight] at within
      simp only [owed, held, Option.elim_none] at within
      omega
    | some w =>
      obtain ⟨v, ws', rfl, first, rest⟩ := List.map_eq_cons_iff.1 closed.symm
      cases first
      exact .inl ⟨here, w, ws', rfl, rfl, by rw [scanned, rest]⟩
  next solid =>
  have solid : blank c = false := by simpa using solid
  split at run
  · have within := scan_size run
    rw [tight, held_getD] at within
    simp only [owed] at within
    omega
  split at run
  · have within := scan_size run
    rw [tight, held_getD] at within
    simp only [owed] at within
    omega
  split at run
  · split at run
    · cases run
    · next d ds =>
      have within := scan_size run
      have grown := held_push current d
      rw [tight, List.length_cons] at within
      simp only [owed] at within
      split at within <;> omega
  split at run
  · split at run
    · cases run
    · split at run
      · cases run
      · have out : ∀ append ts, close current (.out append :: ts) ≠ ws.map .word := by
          intro append ts same
          have inside : Token.out append ∈ ws.map .word := by
            rw [← same]
            cases current <;> simp [close]
          obtain ⟨w, -, other⟩ := List.mem_map.1 inside
          cases other
        split at run
        · obtain ⟨ts, -, closed⟩ := Option.map_eq_some_iff.1 run
          exact absurd closed (out _ _)
        · obtain ⟨ts, -, closed⟩ := Option.map_eq_some_iff.1 run
          exact absurd closed (out _ _)
  split at run
  · next stands => exact .inr ⟨solid, stands, run⟩
  · cases run

/-- The first word of such a text is plain. -/
theorem scan_tight_word {v rest : Chars} {ws : List Chars} : ∀ {current : Option Chars}, Ends rest →
    scan .plain current (v ++ rest) = some (((current.getD [] ++ v) :: ws).map .word) →
    size (((current.getD [] ++ v) :: ws).map .word) = (v ++ rest).length + 1 + held current →
    plainFrom current.isNone v = true ∧
      scan .plain (v.foldl push current) rest = some (((current.getD [] ++ v) :: ws).map .word) := by
  induction v with
  | nil => exact fun _ run _ => ⟨rfl, run⟩
  | cons c v ih =>
    intro current ends run tight
    rw [List.cons_append] at run tight
    rcases scan_tight run tight with ⟨-, w, ws', rfl, same, -⟩ | ⟨solid, stands, run'⟩
    · have lengths := congrArg List.length (List.cons.inj same).1
      rw [Option.getD_some, List.length_append, List.length_cons] at lengths
      omega
    · have moved : current.getD [] ++ c :: v = (push current c).getD [] ++ v := by
        rw [push, Option.getD_some, List.append_assoc]
        rfl
      rw [moved] at run' tight ⊢
      have tight' : size ((((push current c).getD [] ++ v) :: ws).map .word) =
          (v ++ rest).length + 1 + held (push current c) := by
        rw [tight, held_push, List.length_cons]
        omega
      obtain ⟨plain, after⟩ := ih ends run' tight'
      have plain' : plainFrom false v = true := plain
      rw [ordinary_append (plainFrom_blank plain') ends] at stands
      refine ⟨?_, after⟩
      rw [plainFrom, solid, stands, plain']
      rfl

/-- Words that come back are plain. -/
theorem plain_of_scan {ws : List Chars} (run : scan .plain none (unwords ws) = some (ws.map .word)) :
    ∀ w ∈ ws, plainWord w = true := by
  induction ws with
  | nil => exact fun w inside => absurd inside List.not_mem_nil
  | cons w ws ih =>
    have tight := size_words (w :: ws) (List.cons_ne_nil _ _)
    cases ws with
    | nil =>
      rw [unwords_one] at run tight
      have run' : scan .plain none (w ++ []) = some ([[] ++ w].map .word) := by rwa [List.append_nil]
      obtain ⟨plain, -⟩ := scan_tight_word ends_nil run' (by rw [List.append_nil]; exact tight)
      have some_ : w ≠ [] := by
        rintro rfl
        cases run
      intro v inside
      rw [List.mem_singleton.1 inside]
      exact plainWord_iff.2 ⟨some_, plain⟩
    | cons v ws =>
      have ends : Ends (' ' :: unwords (v :: ws)) := by
        intro c inside
        cases inside
        rfl
      rw [unwords_cons] at run tight
      obtain ⟨plain, after⟩ : plainFrom true w = true ∧
          scan .plain (w.foldl push none) (' ' :: unwords (v :: ws)) = some ((w :: v :: ws).map .word) :=
        scan_tight_word ends run tight
      rw [scan_blank rfl] at after
      obtain ⟨ts, scanned, closed⟩ := Option.map_eq_some_iff.1 after
      have some_ : w ≠ [] := by
        rintro rfl
        have within := scan_size scanned
        rw [show ts = ([] :: v :: ws).map .word from closed, tight] at within
        simp only [List.nil_append, List.length_cons, owed, held, Option.elim_none] at within
        omega
      rw [foldl_push_none some_] at closed
      have rest : scan .plain none (unwords (v :: ws)) = some ((v :: ws).map .word) := by
        rw [scanned, (List.cons.inj closed).2]
      intro u inside
      rcases List.mem_cons.1 inside with rfl | inside
      · exact plainWord_iff.2 ⟨some_, plain⟩
      · exact ih rest u inside

/-! ## Argument vectors -/

theorem mapM_toWord {ts : List Token} {ws : List Chars} (words : ts.mapM Token.toWord = some ws) :
    ts = ws.map .word := by
  induction ts generalizing ws with
  | nil =>
    cases words
    rfl
  | cons t ts ih =>
    rw [List.mapM_cons] at words
    obtain ⟨w, first, rest⟩ := Option.bind_eq_some_iff.1 words
    obtain ⟨ws', others, whole⟩ := Option.bind_eq_some_iff.1 rest
    cases whole
    cases t with
    | out append => cases first
    | word v =>
      cases first
      rw [ih others]
      rfl

theorem mapM_words (ws : List Chars) : (ws.map Token.word).mapM Token.toWord = some ws := by
  induction ws with
  | nil => rfl
  | cons w ws ih =>
    rw [List.map_cons, List.mapM_cons, ih]
    rfl

theorem argv_eq_some_iff {text : Chars} {ws : List Chars} :
    argv text = some ws ↔ command text = some (ws.map .word) := by
  constructor
  · intro run
    obtain ⟨ts, scanned, words⟩ := Option.bind_eq_some_iff.1 run
    rw [scanned, mapM_toWord words]
  · intro run
    rw [argv, run, Option.bind_some, mapM_words]

/-- The words have no more characters than the text. -/
theorem argv_length {text : Chars} {ws : List Chars} (some_ : ws ≠ []) (run : argv text = some ws) :
    (unwords ws).length ≤ text.length := by
  rw [argv_eq_some_iff, command] at run
  split at run
  · cases run
  · have within := scan_size run
    rw [size_words ws some_] at within
    simp only [owed, held, Option.elim_none] at within
    omega

/-- The words can be joined: each is plain, and the first is the name of a command. -/
def readable (ws : List Chars) : Bool :=
  ws.all plainWord && !reserved.contains (ws.headD []) && !assignment (ws.headD [])

theorem firstWord_unwords {w : Chars} {ws : List Chars} (plain : plainWord w = true) :
    firstWord (unwords (w :: ws)) = w := by
  obtain ⟨some_, stands⟩ := plainWord_iff.1 plain
  have solid := plainFrom_blank stands
  obtain ⟨rest, whole, ends⟩ : ∃ rest, unwords (w :: ws) = w ++ rest ∧ Ends rest := by
    cases ws with
    | nil => exact ⟨[], by rw [unwords_one, List.append_nil], ends_nil⟩
    | cons v ws =>
      refine ⟨_, unwords_cons w v ws, ?_⟩
      intro c inside
      cases inside
      rfl
  have front : (w ++ rest).dropWhile blank = w ++ rest := by
    cases w with
    | nil => exact absurd rfl some_
    | cons c cs => rw [List.cons_append, List.dropWhile_cons, solid c List.mem_cons_self]; rfl
  rw [firstWord, whole, front, takeWhile_word solid ends]

/-- Words that are joined by blanks are read as they were exactly if they are readable. -/
theorem argv_unwords_iff {ws : List Chars} (some_ : ws ≠ []) : argv (unwords ws) = some ws ↔ readable ws = true := by
  obtain ⟨w, ws, rfl⟩ := List.exists_cons_of_ne_nil some_
  rw [argv_eq_some_iff, command, readable]
  simp only [List.headD_cons, Bool.and_eq_true, Bool.not_eq_true', List.all_eq_true]
  constructor
  · intro run
    split at run
    · cases run
    · next named =>
      have plain := plain_of_scan run
      rw [firstWord_unwords (plain w List.mem_cons_self), Bool.not_eq_true, Bool.or_eq_false_iff] at named
      exact ⟨⟨plain, named.1⟩, named.2⟩
  · rintro ⟨⟨plain, free⟩, named⟩
    rw [firstWord_unwords (plain w List.mem_cons_self), free, named]
    exact scan_unwords plain

end KubeKey.Text.Shell
