import KubeKey.CloudInit.Items

/-!
# The documents of the user data

What the two actions decode. No line under a key looks like a key, because it is indented or
begins an item, so the scan gives each key all of its lines. Which of the files are read back,
and with which content, is then up to the literal scalars.
-/

namespace KubeKey.CloudInit

open KubeKey.Text

/-- Only visible characters are written as they are. -/
def GoPrints (isPrint : Char → Bool) : Prop := ∀ c, isPrint c = true → visible c = true

/-! ### Characters -/

theorem visible_iff (c : Char) : visible c = true ↔ 32 ≤ c.toNat ∧ printable c = true ∧ ambiguous c = false := by
  simp [visible, and_assoc]

theorem visible_ne {c d : Char} (isVisible : visible c = true) (control : d.toNat < 32) : c ≠ d := by
  rintro rfl
  have low := ((visible_iff c).mp isVisible).1
  omega

theorem visible_ascii {c : Char} (low : 32 ≤ c.toNat) (high : c.toNat < 127) : visible c = true := by
  have other : c ≠ '\r' := by
    rintro rfl
    exact absurd low (by decide)
  have small : c.toNat ≤ 126 := by omega
  refine (visible_iff c).mpr ⟨low, by simp [printable, low, small], ?_⟩
  simp only [ambiguous, other, decide_false, Bool.false_or, Bool.or_eq_false_iff, decide_eq_false_iff_not]
  omega

theorem wordChar_ascii {c : Char} (letter : wordChar c = true) : 32 ≤ c.toNat ∧ c.toNat < 127 := by
  rw [wordChar, Bool.or_eq_true] at letter
  rcases letter with alpha | underscore
  · rcases (Bool.or_eq_true _ _).mp alpha with upper | lower
    · have between : 65 ≤ c.toNat ∧ c.toNat ≤ 90 := of_decide_eq_true upper
      omega
    · have both : (decide (97 ≤ c.toNat) && decide (c.toNat ≤ 122)) = true := lower
      rw [Bool.and_eq_true, decide_eq_true_eq, decide_eq_true_eq] at both
      omega
  · rw [of_decide_eq_true underscore]
    decide

theorem visible_isKey {key : Chars} (word : isKey key = true) : ∀ c ∈ key, visible c = true := by
  simp only [isKey, Bool.and_eq_true, List.all_eq_true] at word
  intro c member
  obtain ⟨low, high⟩ := wordChar_ascii (word.1.2 c member)
  exact visible_ascii low high

theorem visible_indent {m : Nat} {l : Chars} (all : ∀ c ∈ l, visible c = true) : ∀ c ∈ indent m l, visible c = true := by
  intro c member
  rcases List.mem_append.mp member with space | inside
  · rw [List.eq_of_mem_replicate space]
    decide
  · exact all c inside

theorem visible_append {l l' : Chars} (front : ∀ c ∈ l, visible c = true) (back : ∀ c ∈ l', visible c = true) :
    ∀ c ∈ l ++ l', visible c = true :=
  fun c member => (List.mem_append.mp member).elim (front c) (back c)

theorem visible_field {key value : Chars} (all : ∀ c ∈ key ++ value, visible c = true) :
    ∀ c ∈ field key value, visible c = true := by
  have separator : ∀ c ∈ ": ".toList, visible c = true := List.all_eq_true.mp (by decide)
  exact visible_append (fun c member => all c (List.mem_append_left _ member))
    (visible_append separator fun c member => all c (List.mem_append_right _ member))

theorem visible_quoted {q : Char} {s : Chars} (mark : visible q = true) (all : ∀ c ∈ s, visible c = true) :
    ∀ c ∈ quoted q s, visible c = true := by
  have marks : ∀ c ∈ [q], visible c = true := fun c member => by rw [List.mem_singleton.mp member, mark]
  exact visible_append marks (visible_append all marks)

theorem attributes_visible {resolve : Chars → Value} {f : File} (valid : f.Valid resolve) :
    ∀ p ∈ attributes f, ∀ c ∈ p.1 ++ p.2, visible c = true := by
  have encoding : ∀ c ∈ f.encoding, visible c = true := fun c member => valid.visible c (by simp [member])
  have owner : ∀ c ∈ f.owner, visible c = true := fun c member => valid.visible c (by simp [member])
  have permissions : ∀ c ∈ f.permissions, visible c = true := fun c member => valid.visible c (by simp [member])
  intro p member
  refine visible_append (visible_isKey (attributes_isKey f p member)) ?_
  rw [attributes] at member
  simp only [List.mem_append, List.mem_ite_nil_right, List.mem_singleton] at member
  rcases member with ((⟨-, rfl⟩ | ⟨-, rfl⟩) | ⟨-, rfl⟩) | ⟨-, rfl⟩
  · exact visible_quoted (by decide) encoding
  · exact owner
  · exact visible_quoted (by decide) permissions
  · exact List.all_eq_true.mp (by decide : "true".toList.all visible = true)

/-- The lines of an item but for its last field. -/
theorem itemLines_visible {path : Chars} {fields : List (Chars × Chars)} (last : List Chars)
    (visiblePath : ∀ c ∈ path, visible c = true) (visibleFields : ∀ p ∈ fields, ∀ c ∈ p.1 ++ p.2, visible c = true) :
    ∀ l ∈ itemLines path fields last, (∀ c ∈ l, visible c = true) ∨ l ∈ last := by
  intro l member
  rcases List.mem_append.mp member with front | back
  · refine Or.inl ?_
    rcases List.mem_cons.mp front with rfl | front
    · have dash : ∀ c ∈ ['-'], visible c = true := List.all_eq_true.mp (by decide)
      have name : ∀ c ∈ "path".toList, visible c = true := List.all_eq_true.mp (by decide)
      exact visible_append dash (visible_indent (visible_field (visible_append name visiblePath)))
    · obtain ⟨p, its, rfl⟩ := List.mem_map.mp front
      exact visible_indent (visible_field (visibleFields p its))
  · exact Or.inr back

/-- The lines of a file have visible characters but for the ones of its content. -/
theorem fileLines_visible {resolve : Chars → Value} {f : File} (valid : f.Valid resolve) :
    ∀ l ∈ fileLines f, (∀ c ∈ l, visible c = true) ∨ ∃ l' ∈ lines f.content, l = indent 6 l' := by
  have path : ∀ c ∈ f.path, visible c = true := fun c member => valid.visible c (by simp [member])
  intro l member
  rcases itemLines_visible _ path (attributes_visible valid) l member with its | last
  · exact Or.inl its
  · rcases List.mem_cons.mp last with rfl | body
    · exact Or.inl (visible_indent (List.all_eq_true.mp (by decide)))
    · obtain ⟨l', inside, rfl⟩ := List.mem_map.mp body
      exact Or.inr ⟨l', inside, rfl⟩

theorem placeholderLines_visible : ∀ l ∈ placeholderLines, ∀ c ∈ l, visible c = true := by
  have path : ∀ c ∈ "/run/cluster-api/placeholder".toList, visible c = true := List.all_eq_true.mp (by decide)
  have fields : ∀ p ∈ [("owner".toList, "root:root".toList), ("permissions".toList, quoted '\'' "0640".toList)],
      (p.1 ++ p.2).all visible = true := by decide
  have name : ∀ c ∈ "content".toList, visible c = true := List.all_eq_true.mp (by decide)
  have content := fun c inside => (placeholderContent_plain c inside).1
  intro l member
  rcases itemLines_visible _ path (fun p its => List.all_eq_true.mp (fields p its)) l member with its | last
  · exact its
  · rw [List.mem_singleton.mp last]
    exact visible_indent (visible_field (visible_append name (visible_quoted (by decide) content)))

theorem quote_visible {isPrint : Char → Bool} (prints : GoPrints isPrint) (s : Chars) :
    ∀ c ∈ quote isPrint s, visible c = true := by
  have mark : ∀ c ∈ ['"'], visible c = true := List.all_eq_true.mp (by decide)
  refine visible_append mark (visible_append (fun c member => ?_) mark)
  obtain ⟨c', -, inside⟩ := List.mem_flatMap.mp member
  rcases quoteRune_printable isPrint inside with printed | ⟨low, high⟩
  · exact prints c printed
  · exact visible_ascii low high

theorem runCmdLines_visible {isPrint : Char → Bool} (prints : GoPrints isPrint) (input : ControlPlaneInput) :
    ∀ l ∈ runCmdLines isPrint input, ∀ c ∈ l, visible c = true := by
  have dash : ∀ c ∈ "- ".toList, visible c = true := List.all_eq_true.mp (by decide)
  have command : ∀ c, ∀ x ∈ commandLine isPrint c, visible x = true := fun c =>
    visible_indent (visible_append dash (quote_visible prints c))
  have install : ∀ x ∈ installLine, visible x = true := visible_indent (visible_append dash
    (visible_quoted (by decide) fun x member => (installCommand_plain x member).1))
  intro l member
  rcases List.mem_cons.mp member with rfl | member
  · exact List.all_eq_true.mp (by decide)
  rcases List.mem_append.mp member with pre | rest
  · obtain ⟨c, -, rfl⟩ := List.mem_map.mp pre
    exact command c
  rcases List.mem_cons.mp rest with rfl | post
  · exact install
  · obtain ⟨c, -, rfl⟩ := List.mem_map.mp post
    exact command c

theorem headerLines_visible : ∀ l ∈ headerLines, ∀ c ∈ l, visible c = true := by
  have all : ∀ l ∈ headerLines, l.all visible = true := by decide
  exact fun l member => List.all_eq_true.mp (all l member)

/-- The lines of `write_files` have visible characters but for the ones of the contents. -/
theorem writeFilesLines_visible {resolve : Chars → Value} {files : List File}
    (valid : ∀ f ∈ files, f.Valid resolve) :
    ∀ l ∈ writeFilesLines files,
      (∀ c ∈ l, visible c = true) ∨ ∃ f ∈ files, ∃ l' ∈ lines f.content, l = indent 6 l' := by
  intro l member
  rcases List.mem_append.mp member with front | member
  · exact Or.inl (headerLines_visible l front)
  rcases List.mem_cons.mp member with rfl | member
  · exact Or.inl (List.all_eq_true.mp (by decide))
  rcases List.mem_append.mp member with inside | placeholder
  · obtain ⟨f, its, inside⟩ := List.mem_flatMap.mp inside
    rcases fileLines_visible (valid f its) l inside with all | body
    · exact Or.inl all
    · exact Or.inr ⟨f, its, body⟩
  · exact Or.inl (placeholderLines_visible l placeholder)

/-! ### Keys -/

theorem actionRegEx_other {c : Char} (letter : wordChar c = false) (colon : c ≠ ':') (l : Chars) :
    actionRegEx (c :: l) = false := by
  simp [actionRegEx, letter, colon]

theorem actionRegEx_space {l : Chars} (space : 0 < indentation l) : actionRegEx l = false := by
  cases l with
  | nil => rfl
  | cons c l =>
    by_cases same : c = ' '
    · rw [same]
      exact actionRegEx_other (by decide) (by decide) l
    · simp [indentation, same] at space

/-- A line of a group is not a key. -/
theorem actionRegEx_group {n : Nat} {g : List Chars} (group : IsGroup (dash n) n g) :
    ∀ l ∈ g, actionRegEx l = false := by
  obtain ⟨head, more, rfl, begins, later⟩ := group
  intro l member
  rcases List.mem_cons.mp member with rfl | member
  · have level := indentation_dash begins
    rcases Nat.eq_zero_or_pos n with rfl | deep
    · have front : l.take 2 = ['-', ' '] := of_decide_eq_true begins
      cases l with
      | nil => cases front
      | cons c l =>
        obtain ⟨rfl, -⟩ := List.cons.inj front
        exact actionRegEx_other (by decide) (by decide) l
    · exact actionRegEx_space (by omega)
  · have deep := (later l member).2
    rw [deeper, Bool.or_eq_true] at deep
    rcases deep with isBlank | deep
    · cases l with
      | nil => rfl
      | cons c l =>
        have space : c = ' ' := by
          have all := List.all_eq_true.mp isBlank c List.mem_cons_self
          exact of_decide_eq_true all
        rw [space]
        exact actionRegEx_other (by decide) (by decide) l
    · exact actionRegEx_space (Nat.lt_of_le_of_lt (Nat.zero_le n) (of_decide_eq_true deep))

theorem actionRegEx_header : ∀ l ∈ headerLines, actionRegEx l = false := by decide

/-- The items of `write_files`. -/
def fileItems (files : List File) : List (List Chars) := files.map fileLines ++ [placeholderLines]

theorem fileItems_flatten (files : List File) :
    writeFilesLines files = headerLines ++ ("write_files".toList ++ [':']) :: (fileItems files).flatten := by
  rw [writeFilesLines, fileItems, List.flatten_append, List.flatten_singleton, ← List.flatMap_def]
  rfl

theorem isGroup_fileItems (files : List File) : ∀ g ∈ fileItems files, IsGroup (dash 0) 0 g := by
  intro g member
  rcases List.mem_append.mp member with front | last
  · obtain ⟨f, -, rfl⟩ := List.mem_map.mp front
    exact isGroup_fileLines f
  · rw [List.mem_singleton.mp last]
    exact isGroup_placeholderLines

/-- The scan splits the user data into its two documents. -/
theorem foldlM_userDataLines (lib : Libraries) (isPrint : Char → Bool) (input : ControlPlaneInput) :
    ((userDataLines isPrint input).foldlM (Scan.line lib) {}).bind (Scan.finish lib) =
      (unmarshal lib "write_files".toList (joinLines (writeFilesLines input.writeFiles))).bind fun a =>
        (unmarshal lib "runcmd".toList (joinLines (runCmdLines isPrint input))).map fun a' => [a, a'] := by
  have none : ∀ l ∈ headerLines ++ (fileItems input.writeFiles).flatten ++ (commandItems isPrint input).flatten,
      actionRegEx l = false := by
    intro l member
    rcases List.mem_append.mp member with member | command
    · rcases List.mem_append.mp member with header | inside
      · exact actionRegEx_header l header
      · obtain ⟨g, item, inside⟩ := List.mem_flatten.mp inside
        exact actionRegEx_group (isGroup_fileItems _ g item) l inside
    · obtain ⟨g, item, inside⟩ := List.mem_flatten.mp command
      exact actionRegEx_group (isGroup_commandItems _ _ g item) l inside
  have split := @scan_two lib _ _ _ "write_files".toList "runcmd".toList (List.all_eq_true.mp (by decide))
    (List.all_eq_true.mp (by decide)) none
  rw [userDataLines, fileItems_flatten, commandItems_flatten]
  exact split

/-! ### What the actions decode -/

/-- A command as a string is one of the shell. -/
def shell (c : Chars) : Cmd := ⟨"/bin/sh".toList, ["-c".toList, c]⟩

theorem mapM_unmarshalCmd (cs : List Chars) : (cs.map Value.str).mapM unmarshalCmd = some (cs.map shell) := by
  induction cs with
  | nil => rfl
  | cons c cs ih =>
    rw [List.map_cons, List.mapM_cons, ih]
    rfl

/-- A document with the key is its list. -/
theorem decodeList_key {α : Type} {name : String} (lower : keyed name.toList name = true)
    (decode : Value → Option α) (items : List Value) :
    decodeList name decode (.map [(name.toList, .seq items)]) = items.mapM decode := by
  rw [decodeList, List.foldlM_cons, if_pos lower]
  exact bind_pure (items.mapM decode)

/-- A document of visible lines has only characters that its reader allows. -/
theorem joinLines_allowed {ls : List Chars}
    (all : ∀ l ∈ ls, ∀ c ∈ l, printable c = true ∧ ambiguous c = false) :
    ∀ c ∈ joinLines ls, printable c = true ∧ ambiguous c = false := by
  intro c member
  by_cases newline : c = '\n'
  · rw [newline]
    decide
  · obtain ⟨l, line, inside⟩ := (mem_joinLines newline).mp member
    exact all l line c inside

theorem unbroken_of_visible {ls : List Chars} (all : ∀ l ∈ ls, ∀ c ∈ l, visible c = true) : Unbroken ls :=
  fun l line newline => absurd rfl (visible_ne (all l line _ newline) (by decide))

section Decoding

variable {lib : Libraries} {isPrint : Char → Bool} {input : ControlPlaneInput}

/-- The commands are decoded in their order. -/
theorem unmarshal_runCmdLines (documented : Documented lib.yaml) (prints : GoPrints isPrint) :
    unmarshal lib "runcmd".toList (joinLines (runCmdLines isPrint input)) =
      some (.runCmd (input.commands.map shell)) := by
  have all := runCmdLines_visible prints input
  have nonempty : commandItems isPrint input ≠ [] := by simp [commandItems]
  have split : lines (joinLines (runCmdLines isPrint input)) =
      [] ++ ("runcmd".toList ++ [':']) :: (commandItems isPrint input).flatten := by
    rw [lines_joinLines (unbroken_of_visible all) (List.cons_ne_nil _ _)]
    exact commandItems_flatten isPrint input
  have allowed := joinLines_allowed fun l line c member => ((visible_iff c).mp (all l line c member)).2
  obtain ⟨lenient, follows⟩ := documented.follows (joinLines (runCmdLines isPrint input))
  rw [readDocument_flatten lib.yaml.resolve lenient allowed split (fun l none => by cases none) (by decide) nonempty
    (isGroup_commandItems isPrint input), readEach_all (readItem_commandItems lib.yaml lenient isPrint input)] at follows
  have commands : decodeList "runcmd" unmarshalCmd (.map [("runcmd".toList, .seq (input.commands.map .str))]) =
      some (input.commands.map shell) :=
    (decodeList_key (by decide) unmarshalCmd _).trans (mapM_unmarshalCmd _)
  have read : lib.yaml.read (joinLines (runCmdLines isPrint input)) =
      some (.map [("runcmd".toList, .seq (input.commands.map .str))]) := follows
  rw [unmarshal, if_neg (by decide), if_pos rfl, read, Option.bind_some, commands, Option.map_some]

end Decoding

/-- The content that the literal scalar of a file gives. -/
def literalContent (f : File) : Chars := clip (literalLines 4 ((lines f.content).map (indent 6)))

/-- The placeholder, decoded. -/
def placeholder : Files := decoded placeholderFile placeholderContent

def fileValues (files : List File) : List Value :=
  (files.map fun f => fileValue f (.str (literalContent f))) ++ [fileValue placeholderFile (.str placeholderContent)]

/-- The files that are decoded from them. -/
def written (files : List File) : List Files := (files.map fun f => decoded f (literalContent f)) ++ [placeholder]

theorem mapM_decodeFiles (files : List File) : (fileValues files).mapM decodeFiles = some (written files) := by
  induction files with
  | nil =>
    rw [fileValues, List.map_nil, List.nil_append, List.mapM_cons, decodeFiles_fileValue]
    rfl
  | cons f files ih =>
    rw [fileValues, List.map_cons, List.cons_append, List.mapM_cons, decodeFiles_fileValue, ← fileValues, ih]
    rfl

theorem unmarshal_fileValues {lib : Libraries} {files : List File} {t : Chars}
    (read : lib.yaml.read t = some (.map [("write_files".toList, .seq (fileValues files))])) :
    unmarshal lib "write_files".toList t = some (.writeFiles (written files)) := by
  have list := decodeList_key (by decide : keyed "write_files".toList "write_files" = true) decodeFiles
    (fileValues files)
  rw [unmarshal, if_pos rfl, read, Option.bind_some, list, mapM_decodeFiles, Option.map_some]

/-- The literal scalar of a file gives its content, up to newlines at the end, unless it begins with a space. -/
theorem literalContent_iff {f : File} (untabbed : tabbed (lines f.content) = false) :
    trimNewlines (literalContent f) = trimNewlines f.content ↔ firstChar f.content ≠ some ' ' := by
  have broken : Unbroken ((lines f.content).map (indent 6)) := by
    intro l member newline
    obtain ⟨l', inside, rfl⟩ := List.mem_map.mp member
    rcases List.mem_append.mp newline with space | newline
    · cases List.eq_of_mem_replicate space
    · exact lines_unbroken f.content l' inside newline
  constructor
  · intro same space
    rw [literalContent, trimNewlines_eq_iff, trimLines_lines_clip (literalLines_unbroken broken)] at same
    exact literalLines_shifted space same
  · intro flush
    have read := readLiteral_indent true (by decide : 4 < 6) untabbed flush
    rcases readLiteral_cases true 4 ((tabbed_indent 6 _).trans untabbed) with refused | literal
    · cases refused.symm.trans read
    · have same : literalContent f = clip (lines f.content) := Value.str.inj (Except.ok.inj (literal.symm.trans read))
      rw [same, trimNewlines_eq_iff, trimLines_lines_clip (lines_unbroken f.content)]

section Files

variable {d : Decoder} {files : List File}

theorem writeFilesLines_unbroken (valid : ∀ f ∈ files, f.Valid d.resolve) : Unbroken (writeFilesLines files) := by
  intro l line newline
  rcases writeFilesLines_visible valid l line with all | ⟨f, -, l', inside, rfl⟩
  · exact absurd rfl (visible_ne (all _ newline) (by decide))
  · rcases List.mem_append.mp newline with space | newline
    · cases List.eq_of_mem_replicate space
    · exact lines_unbroken f.content l' inside newline

/-- The characters of the document are visible or come from a content. -/
theorem writeFilesLines_chars (valid : ∀ f ∈ files, f.Valid d.resolve) :
    ∀ c ∈ joinLines (writeFilesLines files), c = '\n' ∨ visible c = true ∨ ∃ f ∈ files, c ∈ f.content := by
  intro c member
  by_cases newline : c = '\n'
  · exact Or.inl newline
  · obtain ⟨l, line, inside⟩ := (mem_joinLines newline).mp member
    rcases writeFilesLines_visible valid l line with all | ⟨f, its, l', here, rfl⟩
    · exact Or.inr (Or.inl (all c inside))
    · rcases List.mem_append.mp inside with space | inside
      · rw [List.eq_of_mem_replicate space]
        exact Or.inr (Or.inl (by decide))
      · refine Or.inr (Or.inr ⟨f, its, ?_⟩)
        rw [← joinLines_lines f.content]
        exact (mem_joinLines newline).mpr ⟨l', here, inside⟩

/-- The characters of the contents are in the document. -/
theorem mem_joinLines_writeFilesLines {f : File} (its : f ∈ files) {c : Char} (member : c ∈ f.content)
    (other : c ≠ '\n') : c ∈ joinLines (writeFilesLines files) := by
  rw [← joinLines_lines f.content, mem_joinLines other] at member
  obtain ⟨l, line, inside⟩ := member
  refine (mem_joinLines other).mpr ⟨indent 6 l, ?_, List.mem_append_right _ inside⟩
  have own : indent 6 l ∈ fileLines f :=
    List.mem_append_right _ (List.mem_cons_of_mem _ (List.mem_map_of_mem line))
  exact List.mem_append_right _ (List.mem_cons_of_mem _
    (List.mem_append_left _ (List.mem_flatMap.mpr ⟨f, its, own⟩)))

/-- The document is read item by item. -/
theorem readDocument_writeFilesLines (valid : ∀ f ∈ files, f.Valid d.resolve)
    (allowed : ∀ f ∈ files, ∀ c ∈ f.content, printable c = true ∧ ambiguous c = false) (lenient : Bool) :
    readDocument d.resolve lenient (joinLines (writeFilesLines files)) =
      (readEach (readItem d.resolve lenient 0) false (fileItems files)).map fun items =>
        .map [("write_files".toList, .seq items)] := by
  have chars : ∀ c ∈ joinLines (writeFilesLines files), printable c = true ∧ ambiguous c = false := by
    intro c member
    rcases writeFilesLines_chars valid c member with rfl | isVisible | ⟨f, its, inside⟩
    · decide
    · exact ((visible_iff c).mp isVisible).2
    · exact allowed f its c inside
  have split : lines (joinLines (writeFilesLines files)) =
      headerLines ++ ("write_files".toList ++ [':']) :: (fileItems files).flatten := by
    rw [lines_joinLines (writeFilesLines_unbroken valid) (List.cons_ne_nil _ _), fileItems_flatten]
  exact readDocument_flatten d.resolve lenient chars split (by decide) (by decide) (by simp [fileItems])
    (isGroup_fileItems files)

/-- If every literal scalar has a value, every item has. -/
theorem readEach_fileItems (documented : Documented d) {lenient : Bool}
    (each : ∀ f ∈ files, readItem d.resolve lenient 0 true (fileLines f) =
      .ok (fileValue f (.str (literalContent f)))) :
    readEach (readItem d.resolve lenient 0) false (fileItems files) = .ok (fileValues files) := by
  have front : List.Forall₂ (fun g v => readItem d.resolve lenient 0 true g = .ok v) (files.map fileLines)
      (files.map fun f => fileValue f (.str (literalContent f))) := by
    rw [List.forall₂_map_left_iff, List.forall₂_map_right_iff, List.forall₂_same]
    exact each
  rw [fileItems, readEach_concat front, readItem_placeholderLines documented]
  rfl

theorem readItem_fileLines_cases (documented : Documented d) {f : File} (valid : f.Valid d.resolve)
    (untabbed : tabbed (lines f.content) = false) (lenient : Bool) :
    readItem d.resolve lenient 0 true (fileLines f) = .error .refused ∨
      readItem d.resolve lenient 0 true (fileLines f) = .ok (fileValue f (.str (literalContent f))) := by
  rw [readItem_fileLines lenient documented valid]
  rcases readLiteral_cases lenient 4 ((tabbed_indent 6 _).trans untabbed) with refused | literal
  · rw [refused]
    exact Or.inl rfl
  · rw [literal]
    exact Or.inr rfl

end Files

/-! ### Contents -/

/-- The versions of YAML, and its readers, agree on what the content is. -/
structure File.Settled (f : File) : Prop where
  unambiguous : ∀ c ∈ f.content, ambiguous c = false
  untabbed : tabbed (lines f.content) = false

/-- The content can stand in a literal scalar that does not say how it is indented. -/
structure File.Kept (f : File) : Prop extends f.Settled where
  printable : ∀ c ∈ f.content, printable c = true
  flush : firstChar f.content ≠ some ' '

section Decoding

variable {lib : Libraries} {files : List File}

theorem unmarshal_kept (documented : Documented lib.yaml) (valid : ∀ f ∈ files, f.Valid lib.yaml.resolve)
    (kept : ∀ f ∈ files, f.Kept) :
    unmarshal lib "write_files".toList (joinLines (writeFilesLines files)) = some (.writeFiles (written files)) := by
  obtain ⟨lenient, follows⟩ := documented.follows (joinLines (writeFilesLines files))
  have each : ∀ f ∈ files, readItem lib.yaml.resolve lenient 0 true (fileLines f) =
      .ok (fileValue f (.str (literalContent f))) := by
    intro f its
    rcases readItem_fileLines_cases documented (valid f its) (kept f its).untabbed lenient with refused | literal
    · rw [readItem_fileLines lenient documented (valid f its),
        readLiteral_indent lenient (by decide) (kept f its).untabbed (kept f its).flush] at refused
      cases refused
    · exact literal
  rw [readDocument_writeFilesLines valid
    (fun f its c member => ⟨(kept f its).printable c member, (kept f its).unambiguous c member⟩),
    readEach_fileItems documented each] at follows
  exact unmarshal_fileValues follows

/-- Whatever the settled contents are, what is decoded has the files with the contents that the
literal scalars give, if anything is decoded. -/
theorem unmarshal_settled (documented : Documented lib.yaml) (valid : ∀ f ∈ files, f.Valid lib.yaml.resolve)
    (settled : ∀ f ∈ files, f.Settled) :
    unmarshal lib "write_files".toList (joinLines (writeFilesLines files)) = none ∨
      (∀ f ∈ files, ∀ c ∈ f.content, printable c = true) ∧
        unmarshal lib "write_files".toList (joinLines (writeFilesLines files)) =
          some (.writeFiles (written files)) := by
  have refuse : lib.yaml.read (joinLines (writeFilesLines files)) = none →
      unmarshal lib "write_files".toList (joinLines (writeFilesLines files)) = none := by
    intro unread
    rw [unmarshal, if_pos rfl, unread]
    rfl
  obtain ⟨lenient, follows⟩ := documented.follows (joinLines (writeFilesLines files))
  by_cases printed : ∀ f ∈ files, ∀ c ∈ f.content, printable c = true
  · rw [readDocument_writeFilesLines valid
      fun f its c member => ⟨printed f its c member, (settled f its).unambiguous c member⟩] at follows
    have cases_ := fun f (its : f ∈ files) =>
      readItem_fileLines_cases documented (valid f its) (settled f its).untabbed lenient
    have inside : ∀ g ∈ files.map fileLines, readItem lib.yaml.resolve lenient 0 true g ≠ .error .outside := by
      intro g member
      obtain ⟨f, its, rfl⟩ := List.mem_map.mp member
      rcases cases_ f its with refused | literal
      · rw [refused]
        exact fun same => by cases same
      · rw [literal]
        exact fun same => by cases same
    rcases @readEach_refused _ _ _ false _ placeholderLines inside with refused | all
    · rw [fileItems, refused] at follows
      exact Or.inl (refuse follows)
    · refine Or.inr ⟨printed, ?_⟩
      have each : ∀ f ∈ files, readItem lib.yaml.resolve lenient 0 true (fileLines f) =
          .ok (fileValue f (.str (literalContent f))) := by
        intro f its
        rcases cases_ f its with refused | literal
        · obtain ⟨v, read⟩ := all (fileLines f) (List.mem_map_of_mem its)
          cases refused.symm.trans read
        · exact literal
      rw [readEach_fileItems documented each] at follows
      exact unmarshal_fileValues follows
  · simp only [not_forall] at printed
    obtain ⟨f, its, c, member, control⟩ := printed
    have other : c ≠ '\n' := by
      rintro rfl
      exact control (by decide)
    have refused : (joinLines (writeFilesLines files)).all printable = false := by
      rw [List.all_eq_false]
      exact ⟨c, mem_joinLines_writeFilesLines its member other, control⟩
    rw [readDocument, if_pos refused] at follows
    exact Or.inl (refuse follows)

end Decoding

end KubeKey.CloudInit
