import KubeKey.CloudInit.Actions
import KubeKey.Text.Shell
import KubeKey.Text.Strings

/-!
# Commands of the runcmd action

`runCmd` of `pkg/service/provisioning/cloudinit/runcmd.go` and `Cmd` of `commands.go`. An item
is a list, the command and its arguments, or a string for a shell. Each command of kubeadm gets
a flag, and the machine is given every command as one text.

The arguments of a command are a slice that the action keeps, so what is written into it is
there the next time: the text of a string gets the flag in place, and the arguments of a list are
shifted in place if their array has room for one more. The flag is put in whether or not it is
there, so rewriting a command of kubeadm again never gives the same, and the blanks between the
arguments of a list keep apart only words that are plain.
-/

namespace KubeKey.CloudInit

open KubeKey.Text KubeKey.Text.Strings KubeKey.Text.Shell

/-! ## The source -/

/-- An item of the list: a JSON list of strings or a string. -/
inductive Item where
  | list (words : List Chars)
  | text (s : Chars)
deriving DecidableEq

/-- A command of the action, and how much room there is behind its arguments in their array. -/
structure Shared extends Cmd where
  spare : Nat
deriving DecidableEq

def Item.value : Item → Value
  | .list words => .seq (words.map .str)
  | .text s => .str s

/-- `UnmarshalJSON`; `none` is a panic. The decoder makes an array of some capacity for a list. -/
def Item.unmarshal (capacity : Nat → Nat) (i : Item) : Option Shared :=
  (unmarshalCmd i.value).map fun c =>
    match i with
    | .list words => ⟨c, capacity words.length - words.length⟩
    | .text _ => ⟨c, 0⟩

def ignoreErrors : Chars := "--ignore-preflight-errors=all".toList

def kubeadmInit : Chars := "kubeadm init".toList

def kubeadmJoin : Chars := "kubeadm join".toList

/-- The replacements in the text of a shell command. -/
def rewriteText (s : Chars) : Chars :=
  replaceFirst kubeadmJoin (kubeadmJoin ++ ' ' :: ignoreErrors)
    (replaceFirst kubeadmInit (kubeadmInit ++ ' ' :: ignoreErrors) s)

/-- The first argument is a subcommand that sets up a node. -/
def setsUp (args : List Chars) : Bool := args.head? = some "init".toList || args.head? = some "join".toList

/-- The arguments of a shell command with its text rewritten, in place. -/
def rewriteShell (c : Cmd) : Cmd :=
  if c.cmd = "/bin/sh".toList ∧ 2 ≤ c.args.length ∧ c.args.head? = some "-c".toList then
    { c with args := c.args.modify 1 rewriteText }
  else c

/-- The arguments with the flag behind the first of them. -/
def insertFlag (args : List Chars) : List Chars := args.take 1 ++ ignoreErrors :: args.drop 1

/-- `hackKubeadmIgnoreErrors`: the command that is returned, and the one that the action then has. Appending makes
a new array if there is no room; else the action sees as much of the shifted arguments as it had. -/
def hackKubeadmIgnoreErrors (c : Shared) : Cmd × Shared :=
  let shell := rewriteShell c.toCmd
  if shell.cmd = "kubeadm".toList ∧ setsUp shell.args then
    let seen := if c.spare = 0 then shell.args else (insertFlag shell.args).take shell.args.length
    ({ shell with args := insertFlag shell.args }, ⟨{ shell with args := seen }, c.spare⟩)
  else (shell, ⟨shell, c.spare⟩)

/-- `Commands`: the list that is returned, and what the action then has. -/
def commands (cmds : List Shared) : List Cmd × List Shared :=
  (cmds.map fun c => (hackKubeadmIgnoreErrors c).1, cmds.map fun c => (hackKubeadmIgnoreErrors c).2)

/-- What a later call returns, after so many calls. -/
def laterCommands (calls : Nat) (cmds : List Shared) : List Cmd :=
  (commands ((fun cs => (commands cs).2)^[calls] cmds)).1

/-- `Cmd.String`. -/
def Cmd.string (c : Cmd) : Chars :=
  let cmd := unwords (c.cmd :: c.args)
  let shell := "/bin/sh -c".toList
  let bash := "/bin/bash -c".toList
  if shell.isPrefixOf cmd then cmd.drop shell.length
  else if bash.isPrefixOf cmd then cmd.drop bash.length
  else cmd

/-! ## What an item is to become -/

/-- The rewriting of a command by itself. -/
def Cmd.rewrite (c : Cmd) : Cmd := (hackKubeadmIgnoreErrors ⟨c, 0⟩).1

/-- The argument vector with the flag, once. -/
def flaggedArgv : List Chars → List Chars
  | cmd :: sub :: rest =>
    if cmd = "kubeadm".toList ∧ setsUp [sub] then cmd :: sub :: ignoreErrors :: rest.filter (· ≠ ignoreErrors)
    else cmd :: sub :: rest
  | words => words

/-- The number of times that a text occurs in another. -/
def occurrences (sub s : Chars) : Nat := s.tails.countP fun t => sub.isPrefixOf t

/-- The text with the flag, once. -/
def FlaggedText (s t : Chars) : Prop :=
  if contains kubeadmInit s ∨ contains kubeadmJoin s then
    (∃ before command after, (command = kubeadmInit ∨ command = kubeadmJoin) ∧
        t = before ++ command ++ ' ' :: ignoreErrors ++ after) ∧
      occurrences ignoreErrors t = 1 ∧ removeAll (' ' :: ignoreErrors) t = removeAll (' ' :: ignoreErrors) s
  else t = s

/-- The text of the command is read as the item, with the flag. -/
def Executes : Item → Cmd → Prop
  | .list words, c => argv c.string = some (flaggedArgv words)
  | .text s, c => ∃ t, FlaggedText s t ∧ c.string.dropWhile Shell.blank = t.dropWhile Shell.blank

/-- Every item is executed as it is meant, the rewriting changes nothing when it is done again, and so does a call. -/
def Faithful (capacity : Nat → Nat) (items : List Item) : Prop :=
  ∃ cmds, items.mapM (Item.unmarshal capacity) = some cmds ∧
    List.Forall₂ Executes items (laterCommands 0 cmds) ∧
    (∀ c ∈ laterCommands 0 cmds, c.rewrite = c) ∧
    ∀ calls, laterCommands calls cmds = laterCommands 0 cmds

/-- An item that comes through as it is: no command of kubeadm and, for a list, words that are plain and not those of
a shell. -/
def Item.kept : Item → Bool
  | .list words =>
    !words.isEmpty && readable words && !"/bin/sh -c".toList.isPrefixOf (unwords words) &&
      !"/bin/bash -c".toList.isPrefixOf (unwords words) &&
      !(words.head? = some "kubeadm".toList && setsUp (words.drop 1))
  | .text s => !contains kubeadmInit s && !contains kubeadmJoin s

/-! ## Rewriting -/

theorem replaceFirst_cases {old : Chars} (some_ : old ≠ []) (c : Char) (more s : Chars) :
    (contains old s = true ∧ contains old (replaceFirst old (old ++ c :: more) s) = true ∧
        s.length < (replaceFirst old (old ++ c :: more) s).length) ∨
      (contains old s = false ∧ replaceFirst old (old ++ c :: more) s = s) := by
  cases there : contains old s with
  | false => exact .inr ⟨rfl, replaceFirst_of_not_contains there _⟩
  | true =>
    have longer := length_replaceFirst (c :: more) some_ there
    rw [List.length_cons] at longer
    exact .inl ⟨rfl, contains_replaceFirst _ there, by omega⟩

/-- A text with a command of kubeadm still has one when it is rewritten, and is longer. -/
theorem rewriteText_grows {s : Chars} (there : contains kubeadmInit s = true ∨ contains kubeadmJoin s = true) :
    (contains kubeadmInit (rewriteText s) = true ∨ contains kubeadmJoin (rewriteText s) = true) ∧
      s.length < (rewriteText s).length := by
  unfold rewriteText
  have init := replaceFirst_cases (show kubeadmInit ≠ [] by decide) ' ' ignoreErrors s
  generalize replaceFirst kubeadmInit (kubeadmInit ++ ' ' :: ignoreErrors) s = t at init ⊢
  rcases init with ⟨-, kept, longer⟩ | ⟨absent, rfl⟩ <;>
    rcases replaceFirst_cases (show kubeadmJoin ≠ [] by decide) ' ' ignoreErrors t with
      ⟨-, kept', longer'⟩ | ⟨absent', same⟩
  · exact ⟨.inr kept', Nat.lt_trans longer longer'⟩
  · rw [same]
    exact ⟨.inl kept, longer⟩
  · exact ⟨.inr kept', longer'⟩
  · rw [absent, absent'] at there
    rcases there with impossible | impossible <;> cases impossible

theorem rewriteText_of_not {s : Chars} (init : contains kubeadmInit s = false) (join : contains kubeadmJoin s = false) :
    rewriteText s = s := by
  rw [rewriteText, replaceFirst_of_not_contains init, replaceFirst_of_not_contains join]

/-- A text that has a command of kubeadm is rewritten every time. -/
theorem not_contains_of_fixed {s : Chars} (fixed : rewriteText (rewriteText s) = rewriteText s) :
    contains kubeadmInit s = false ∧ contains kubeadmJoin s = false := by
  by_contra there
  rw [not_and_or, Bool.not_eq_false, Bool.not_eq_false] at there
  have again := (rewriteText_grows (rewriteText_grows there).1).2
  rw [fixed] at again
  exact Nat.lt_irrefl _ again

/-- A command that is no shell command and does not set up a node is left alone. -/
theorem hack_same {c : Shared} (shell : rewriteShell c.toCmd = c.toCmd)
    (other : ¬ (c.cmd = "kubeadm".toList ∧ setsUp c.args = true)) : hackKubeadmIgnoreErrors c = (c.toCmd, c) := by
  unfold hackKubeadmIgnoreErrors
  simp only [shell]
  rw [if_neg other]

/-- The command that is returned does not depend on the room in the array. -/
theorem rewrite_eq (c : Shared) : c.toCmd.rewrite = (hackKubeadmIgnoreErrors c).1 := by
  unfold Cmd.rewrite hackKubeadmIgnoreErrors
  dsimp only
  split <;> rfl

theorem rewriteShell_other {c : Cmd} (other : c.cmd ≠ "/bin/sh".toList) : rewriteShell c = c :=
  if_neg fun both => other both.1

/-- A command of kubeadm gets the flag, and the action may see it. -/
theorem hack_kubeadm {sub : Chars} (rest : List Chars) (spare : Nat) (up : setsUp [sub] = true) :
    hackKubeadmIgnoreErrors ⟨⟨"kubeadm".toList, sub :: rest⟩, spare⟩ =
      (⟨"kubeadm".toList, sub :: ignoreErrors :: rest⟩,
        ⟨⟨"kubeadm".toList, if spare = 0 then sub :: rest else sub :: (ignoreErrors :: rest).take rest.length⟩,
          spare⟩) := by
  have shell : rewriteShell ⟨"kubeadm".toList, sub :: rest⟩ = ⟨"kubeadm".toList, sub :: rest⟩ :=
    rewriteShell_other (show "kubeadm".toList ≠ "/bin/sh".toList by decide)
  have up' : setsUp (sub :: rest) = true := up
  unfold hackKubeadmIgnoreErrors
  simp only [shell, up', and_self, if_true]
  rfl

theorem rewrite_kubeadm {sub : Chars} (rest : List Chars) (up : setsUp [sub] = true) :
    Cmd.rewrite ⟨"kubeadm".toList, sub :: rest⟩ = ⟨"kubeadm".toList, sub :: ignoreErrors :: rest⟩ :=
  congrArg Prod.fst (hack_kubeadm rest 0 up)

theorem rewriteShell_text (s : Chars) (more : List Chars) :
    rewriteShell ⟨"/bin/sh".toList, "-c".toList :: s :: more⟩ =
      ⟨"/bin/sh".toList, "-c".toList :: rewriteText s :: more⟩ := if_pos ⟨rfl, by simp, rfl⟩

theorem rewrite_text (s : Chars) (more : List Chars) :
    Cmd.rewrite ⟨"/bin/sh".toList, "-c".toList :: s :: more⟩ =
      ⟨"/bin/sh".toList, "-c".toList :: rewriteText s :: more⟩ := by
  unfold Cmd.rewrite hackKubeadmIgnoreErrors
  simp only [rewriteShell_text]
  exact congrArg Prod.fst (if_neg fun both => absurd both.1 (by decide))

/-- A command is left alone, or it is one of a shell or of kubeadm. -/
theorem rewrite_cases (c : Cmd) :
    (rewriteShell c = c ∧ ¬ (c.cmd = "kubeadm".toList ∧ setsUp c.args = true)) ∨
      (∃ s more, c = ⟨"/bin/sh".toList, "-c".toList :: s :: more⟩) ∨
      ∃ sub rest, setsUp [sub] = true ∧ c = ⟨"kubeadm".toList, sub :: rest⟩ := by
  obtain ⟨cmd, args⟩ := c
  by_cases kubeadm : cmd = "kubeadm".toList ∧ setsUp args = true
  · obtain ⟨rfl, up⟩ := kubeadm
    cases args with
    | nil => cases up
    | cons sub rest => exact .inr (.inr ⟨sub, rest, up, rfl⟩)
  · by_cases shell : cmd = "/bin/sh".toList ∧ 2 ≤ args.length ∧ args.head? = some "-c".toList
    · obtain ⟨rfl, long, first⟩ := shell
      match args, long, first with
      | _ :: s :: more, _, rfl => exact .inr (.inl ⟨s, more, rfl⟩)
    · exact .inl ⟨if_neg shell, kubeadm⟩

/-- Rewriting that changes nothing the second time changed nothing the first time, and nothing is shared. -/
theorem hack_of_fixed {c : Shared} (fixed : c.toCmd.rewrite.rewrite = c.toCmd.rewrite) :
    hackKubeadmIgnoreErrors c = (c.toCmd, c) := by
  obtain ⟨cmd, spare⟩ := c
  rcases rewrite_cases cmd with ⟨shell, other⟩ | ⟨s, more, rfl⟩ | ⟨sub, rest, up, rfl⟩
  · exact hack_same shell other
  · rw [rewrite_text, rewrite_text, Cmd.mk.injEq, List.cons.injEq, List.cons.injEq] at fixed
    obtain ⟨init, join⟩ := not_contains_of_fixed fixed.2.2.1
    have other : "/bin/sh".toList ≠ "kubeadm".toList := by decide
    refine hack_same ?_ fun both => other both.1
    rw [rewriteShell_text, rewriteText_of_not init join]
  · rw [rewrite_kubeadm rest up, rewrite_kubeadm _ up, Cmd.mk.injEq, List.cons.injEq] at fixed
    have lengths := congrArg List.length fixed.2.2
    simp only [List.length_cons] at lengths
    omega

/-! ## Items -/

theorem mapM_element (words : List Chars) : (words.map Value.str).mapM element = some words := by
  induction words with
  | nil => rfl
  | cons w words ih =>
    rw [List.map_cons, List.mapM_cons, ih]
    rfl

/-- A list is a command unless it is empty, and a string always is. -/
theorem unmarshal_eq (capacity : Nat → Nat) (i : Item) :
    i.unmarshal capacity =
      match i with
      | .list [] => none
      | .list (w :: words) => some ⟨⟨w, words⟩, capacity (words.length + 1) - (words.length + 1)⟩
      | .text s => some ⟨⟨"/bin/sh".toList, ["-c".toList, s]⟩, 0⟩ := by
  cases i with
  | text s => rfl
  | list words =>
    rw [Item.unmarshal, Item.value, unmarshalCmd, mapM_element]
    cases words <;> rfl

theorem string_shell {c : Cmd} {rest : Chars} (joined : unwords (c.cmd :: c.args) = "/bin/sh -c".toList ++ rest) :
    c.string = rest := by
  unfold Cmd.string
  dsimp only
  rw [joined, if_pos (List.isPrefixOf_iff_prefix.2 (List.prefix_append _ _)), List.drop_left]

theorem string_text (s : Chars) : Cmd.string ⟨"/bin/sh".toList, ["-c".toList, s]⟩ = ' ' :: s := by
  refine string_shell ?_
  rw [unwords_cons, unwords_cons, unwords_one]
  rfl

/-- The text of a list, without what a shell is called with. -/
theorem string_list (w : Chars) (words : List Chars) :
    ("/bin/sh -c".toList.isPrefixOf (unwords (w :: words)) = false ∧
        "/bin/bash -c".toList.isPrefixOf (unwords (w :: words)) = false ∧
          Cmd.string ⟨w, words⟩ = unwords (w :: words)) ∨
      (("/bin/sh -c".toList.isPrefixOf (unwords (w :: words)) = true ∨
        "/bin/bash -c".toList.isPrefixOf (unwords (w :: words)) = true) ∧
          (Cmd.string ⟨w, words⟩).length < (unwords (w :: words)).length) := by
  have shorter : ∀ before : Chars, before ≠ [] → before.isPrefixOf (unwords (w :: words)) = true →
      ((unwords (w :: words)).drop before.length).length < (unwords (w :: words)).length := by
    intro before some_ begins
    have whole := (List.isPrefixOf_iff_prefix.1 begins).length_le
    have positive := List.length_pos_iff.2 some_
    rw [List.length_drop]
    omega
  unfold Cmd.string
  dsimp only
  split
  · next shell => exact .inr ⟨.inl shell, shorter _ (by decide) shell⟩
  · next other =>
    split
    · next bash => exact .inr ⟨.inr bash, shorter _ (by decide) bash⟩
    · next other' => exact .inl ⟨Bool.eq_false_iff.2 other, Bool.eq_false_iff.2 other', rfl⟩

theorem flaggedArgv_other {w : Chars} {words : List Chars} (other : ¬ (w = "kubeadm".toList ∧ setsUp words = true)) :
    flaggedArgv (w :: words) = w :: words := by
  cases words with
  | nil => rfl
  | cons sub rest => exact if_neg other

/-- What is executed as it is meant, and is not rewritten again, is an item that comes through as it is. -/
theorem kept_of_executes {capacity : Nat → Nat} {i : Item} {c : Shared} (read : i.unmarshal capacity = some c)
    (executes : Executes i (hackKubeadmIgnoreErrors c).1) (fixed : c.toCmd.rewrite.rewrite = c.toCmd.rewrite) :
    i.kept = true := by
  rw [hack_of_fixed fixed] at executes
  rw [unmarshal_eq] at read
  cases i with
  | text s =>
    cases read
    rw [rewrite_text, rewrite_text, Cmd.mk.injEq, List.cons.injEq, List.cons.injEq] at fixed
    obtain ⟨init, join⟩ := not_contains_of_fixed fixed.2.2.1
    rw [Item.kept, init, join]
    rfl
  | list words =>
    cases words with
    | nil => cases read
    | cons w words =>
      cases read
      have other : ¬ (w = "kubeadm".toList ∧ setsUp words = true) := by
        rintro ⟨rfl, up⟩
        cases words with
        | nil => cases up
        | cons sub rest =>
          have up' : setsUp [sub] = true := up
          rw [rewrite_kubeadm rest up', rewrite_kubeadm _ up', Cmd.mk.injEq, List.cons.injEq] at fixed
          have lengths := congrArg List.length fixed.2.2
          simp only [List.length_cons] at lengths
          omega
      have same : argv (Cmd.string ⟨w, words⟩) = some (w :: words) := by
        rw [← flaggedArgv_other other]
        exact executes
      have some_ : w :: words ≠ [] := List.cons_ne_nil _ _
      rcases string_list w words with ⟨shell, bash, whole⟩ | ⟨-, shorter⟩
      · rw [whole, argv_unwords_iff some_] at same
        have apart : (decide (w = "kubeadm".toList) && setsUp words) = false := by
          rwa [Bool.eq_false_iff, ne_eq, Bool.and_eq_true, decide_eq_true_iff]
        simp only [Item.kept, shell, bash, same, List.head?_cons, List.drop_one, List.tail_cons, Option.some.injEq,
          apart]
        rfl
      · have within := argv_length some_ same
        omega

/-- An item that comes through is read, left alone and executed as it is meant. -/
theorem executes_of_kept (capacity : Nat → Nat) {i : Item} (kept : i.kept = true) :
    ∃ c, i.unmarshal capacity = some c ∧ hackKubeadmIgnoreErrors c = (c.toCmd, c) ∧ Executes i c.toCmd := by
  rw [unmarshal_eq]
  cases i with
  | text s =>
    simp only [Item.kept, Bool.and_eq_true, Bool.not_eq_true'] at kept
    obtain ⟨init, join⟩ := kept
    have other : "/bin/sh".toList ≠ "kubeadm".toList := by decide
    refine ⟨_, rfl, hack_same ?_ fun both => other both.1, s, ?_, ?_⟩
    · rw [rewriteShell_text, rewriteText_of_not init join]
    · rw [FlaggedText, init, join, if_neg (by simp)]
    · rw [string_text]
      rfl
  | list words =>
    cases words with
    | nil => cases kept
    | cons w words =>
      simp only [Item.kept, Bool.and_eq_true, Bool.not_eq_true', List.head?_cons, List.drop_one, List.tail_cons,
        Option.some.injEq, Bool.and_eq_false_imp, decide_eq_true_iff] at kept
      obtain ⟨⟨⟨⟨-, plain⟩, noShell⟩, noBash⟩, other⟩ := kept
      have other : ¬ (w = "kubeadm".toList ∧ setsUp words = true) := by
        rintro ⟨name, up⟩
        rw [other name] at up
        cases up
      have shell : rewriteShell ⟨w, words⟩ = ⟨w, words⟩ := by
        rcases rewrite_cases ⟨w, words⟩ with ⟨same, -⟩ | ⟨s, more, same⟩ | ⟨sub, rest, -, same⟩
        · exact same
        · rw [Cmd.mk.injEq] at same
          obtain ⟨rfl, rfl⟩ := same
          have begins : "/bin/sh -c".toList.isPrefixOf (unwords ("/bin/sh".toList :: "-c".toList :: s :: more)) =
              true := by
            rw [unwords_cons, unwords_cons]
            rfl
          rw [begins] at noShell
          cases noShell
        · rw [Cmd.mk.injEq] at same
          obtain ⟨rfl, -⟩ := same
          exact rewriteShell_other (show "kubeadm".toList ≠ "/bin/sh".toList by decide)
      refine ⟨_, rfl, hack_same shell other, ?_⟩
      have some_ : w :: words ≠ [] := List.cons_ne_nil _ _
      rcases string_list w words with ⟨-, -, whole⟩ | ⟨called, -⟩
      · rw [Executes, whole, flaggedArgv_other other]
        exact (argv_unwords_iff some_).2 plain
      · rw [noShell, noBash] at called
        rcases called with impossible | impossible <;> cases impossible

/-! ## The action -/

/-- Calls of an action whose commands are left alone. -/
theorem laterCommands_same {cmds : List Shared} (same : ∀ c ∈ cmds, hackKubeadmIgnoreErrors c = (c.toCmd, c))
    (calls : Nat) : laterCommands calls cmds = cmds.map Shared.toCmd := by
  have returned : (commands cmds).1 = cmds.map Shared.toCmd :=
    List.map_congr_left fun c inside => congrArg Prod.fst (same c inside)
  have left : (fun cs => (commands cs).2) cmds = cmds := by
    have each : cmds.map (fun c => (hackKubeadmIgnoreErrors c).2) = cmds.map id :=
      List.map_congr_left fun c inside => congrArg Prod.snd (same c inside)
    rwa [List.map_id] at each
  have reached : (fun cs => (commands cs).2)^[calls] cmds = cmds := Function.iterate_fixed left calls
  rw [laterCommands, reached, returned]

theorem Faithful.kept {capacity : Nat → Nat} {items : List Item} (faithful : Faithful capacity items) :
    ∀ i ∈ items, i.kept = true := by
  obtain ⟨cmds, read, executes, fixed, -⟩ := faithful
  replace read := forall₂_of_mapM read
  rw [laterCommands, Function.iterate_zero, id] at executes fixed
  have fixed' : ∀ c ∈ cmds, c.toCmd.rewrite.rewrite = c.toCmd.rewrite := by
    intro c inside
    rw [rewrite_eq]
    exact fixed _ (List.mem_map_of_mem inside)
  clear fixed
  induction read with
  | nil => exact fun i inside => absurd inside List.not_mem_nil
  | @cons i c items cmds first rest ih =>
    obtain ⟨here, there⟩ := List.forall₂_cons.1 executes
    intro j inside
    rcases List.mem_cons.1 inside with rfl | inside
    · exact kept_of_executes first here (fixed' c List.mem_cons_self)
    · exact ih there (fun c inside => fixed' c (List.mem_cons_of_mem _ inside)) j inside

theorem unmarshal_executes (capacity : Nat → Nat) {items : List Item} (kept : ∀ i ∈ items, i.kept = true) :
    ∃ cmds, items.mapM (Item.unmarshal capacity) = some cmds ∧
      (∀ c ∈ cmds, hackKubeadmIgnoreErrors c = (c.toCmd, c)) ∧ List.Forall₂ Executes items (cmds.map Shared.toCmd) := by
  induction items with
  | nil => exact ⟨[], rfl, fun c inside => absurd inside List.not_mem_nil, .nil⟩
  | cons i items ih =>
    obtain ⟨c, first, alone, here⟩ := executes_of_kept capacity (kept i List.mem_cons_self)
    obtain ⟨cmds, read, same, executes⟩ := ih fun j inside => kept j (List.mem_cons_of_mem _ inside)
    refine ⟨c :: cmds, ?_, List.forall_mem_cons.2 ⟨alone, same⟩, .cons here executes⟩
    rw [List.mapM_cons, first, read]
    rfl

/-- The commands are what the items mean exactly if every item comes through as it is. -/
theorem faithful_iff (capacity : Nat → Nat) (items : List Item) :
    Faithful capacity items ↔ ∀ i ∈ items, i.kept = true := by
  refine ⟨Faithful.kept, fun kept => ?_⟩
  obtain ⟨cmds, read, same, executes⟩ := unmarshal_executes capacity kept
  refine ⟨cmds, read, ?_, ?_, fun calls => ?_⟩
  · rw [laterCommands_same same]
    exact executes
  · intro c inside
    rw [laterCommands_same same] at inside
    obtain ⟨shared, there, rfl⟩ := List.mem_map.1 inside
    rw [rewrite_eq, same shared there]
  · rw [laterCommands_same same, laterCommands_same same]

/-- An argument with a blank in it becomes two. -/
theorem not_faithful_blank : ¬ ∀ (capacity : Nat → Nat) (items : List Item), Faithful capacity items := by
  intro all
  have kept := (all id [.list ["touch".toList, "/tmp/a b".toList]]).kept _ List.mem_cons_self
  revert kept
  decide +kernel

end KubeKey.CloudInit
