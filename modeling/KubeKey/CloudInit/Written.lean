import KubeKey.CloudInit.WriteFiles

/-!
# What write_files leaves on a machine

The commands of a list of files and its run leave each file as its entries ask for, and the same
files and directories, where nothing in a text means something to a shell, no content is encoded
twice, and the attributes that are asked for are those that the files have or get anyway
(`faithful_of_plain`). Each entry then does one thing to the tree (`written`), whichever way it is
sent, and what it needs is still there after another one (`Fits.step`).

A single quote in a content ends the quotation: `a: 'b'` is written as `a: b`.
-/

namespace KubeKey.CloudInit.WriteFiles

open KubeKey.Text KubeKey.Text.Strings KubeKey.Text.Shell KubeKey.Posix

/-! ## Paths -/

theorem pathParts_eq (path : Chars) : Loader.pathParts path = path.splitOn '/' := by
  induction path with
  | nil => rfl
  | cons c rest ih =>
    rw [Loader.pathParts, ih, List.splitOn_cons_eq_if_modifyHead]
    cases parts : rest.splitOn '/' with
    | nil => exact absurd parts (List.splitOn_ne_nil _ _)
    | cons part later => simp

theorem splitOn_solid (path : Chars) : ∀ part ∈ path.splitOn '/', '/' ∉ part := by
  induction path with
  | nil => simp
  | cons c rest ih =>
    rw [List.splitOn_cons_eq_if_modifyHead]
    split
    · simpa using ih
    · next other =>
      cases parts : rest.splitOn '/' with
      | nil => simp
      | cons part later =>
        rw [parts] at ih
        intro part' inside
        rcases List.mem_cons.mp inside with rfl | inside
        · have rest_ := ih part List.mem_cons_self
          simp only [List.mem_cons, not_or]
          exact ⟨fun same => other (by rw [← same]; rfl), rest_⟩
        · exact ih part' (List.mem_cons_of_mem _ inside)

/-- A part that is kept of a path. -/
def Kept (part : Chars) : Prop := part ≠ [] ∧ part ≠ ['.'] ∧ '/' ∉ part

/-- With a part more, what is kept leads one part further. -/
theorem enter_keepPart {rooted : Bool} {home : Place} {kept : List Chars} {part : Chars}
    (start : rooted = true → home = []) (kept_ : ∀ part ∈ kept, Kept part) (solid : '/' ∉ part) :
    (Loader.keepPart rooted kept part).reverse.foldl enter home = enter (kept.reverse.foldl enter home) part ∧
      ∀ part' ∈ Loader.keepPart rooted kept part, Kept part' := by
  have more : ∀ q : Chars, Kept q → ∀ part' ∈ q :: kept, Kept part' := by
    intro q here part' inside
    rcases List.mem_cons.mp inside with rfl | inside
    · exact here
    · exact kept_ part' inside
  have push : ((part :: kept).reverse.foldl enter home) = enter (kept.reverse.foldl enter home) part := by
    rw [List.reverse_cons, List.foldl_append, List.foldl_cons, List.foldl_nil]
  unfold Loader.keepPart
  split
  · next skipped => exact ⟨(if_pos skipped).symm, kept_⟩
  next named =>
  have named : part ≠ [] ∧ part ≠ ['.'] := not_or.mp named
  split
  · next up =>
    cases kept with
    | nil =>
      cases rooted with
      | true =>
        rw [start rfl, up]
        exact ⟨rfl, kept_⟩
      | false => exact ⟨push, more part ⟨named.1, named.2, solid⟩⟩
    | cons last before =>
      dsimp only
      split
      · exact ⟨push, more part ⟨named.1, named.2, solid⟩⟩
      · next other =>
        obtain ⟨some_, dot, -⟩ := kept_ last List.mem_cons_self
        refine ⟨?_, fun part' inside => kept_ part' (List.mem_cons_of_mem _ inside)⟩
        rw [List.reverse_cons, List.foldl_append, List.foldl_cons, List.foldl_nil]
        generalize before.reverse.foldl enter home = there
        rw [up]
        have last_ : enter there last = there ++ [last] := by
          rw [enter, if_neg (not_or.mpr ⟨some_, dot⟩), if_neg other]
        have back : enter (there ++ [last]) ['.', '.'] = (there ++ [last]).dropLast := rfl
        rw [last_, back, List.dropLast_concat]
  · exact ⟨push, more part ⟨named.1, named.2, solid⟩⟩

theorem foldl_keepPart {rooted : Bool} {home : Place} (start : rooted = true → home = []) (parts : List Chars)
    (solid : ∀ part ∈ parts, '/' ∉ part) : ∀ kept : List Chars, (∀ part ∈ kept, Kept part) →
    (parts.foldl (Loader.keepPart rooted) kept).reverse.foldl enter home =
        parts.foldl enter (kept.reverse.foldl enter home) ∧
      ∀ part ∈ parts.foldl (Loader.keepPart rooted) kept, Kept part := by
  induction parts with
  | nil => exact fun kept kept_ => ⟨rfl, kept_⟩
  | cons part parts ih =>
    intro kept kept_
    obtain ⟨leads, kept'⟩ := enter_keepPart start kept_ (solid part List.mem_cons_self)
    rw [List.foldl_cons, List.foldl_cons, ← leads]
    exact ih (fun part inside => solid part (List.mem_cons_of_mem _ inside)) _ kept'

/-- Parts that are joined lead where they lead one by one. -/
theorem foldl_joined {kept : List Chars} (kept_ : ∀ part ∈ kept, Kept part) (p : Place) :
    ((['/'].intercalate kept).splitOn '/').foldl enter p = kept.foldl enter p := by
  rcases eq_or_ne kept [] with rfl | some_
  · rfl
  · rw [List.splitOn_intercalate '/' (fun part inside => (kept_ part inside).2.2) some_]

/-- The text of parts that are joined begins with the first of them. -/
theorem head_joined {part : Chars} {kept : List Chars} (here : Kept part) :
    ∃ c rest, c ≠ '/' ∧ ['/'].intercalate (part :: kept) = c :: rest := by
  obtain ⟨some_, -, solid⟩ := here
  obtain ⟨c, cs, rfl⟩ := List.exists_cons_of_ne_nil some_
  refine ⟨c, ?_⟩
  have other : c ≠ '/' := fun same => solid (same ▸ List.mem_cons_self)
  cases kept with
  | nil => exact ⟨cs, other, by simp [List.intercalate]⟩
  | cons part' kept => exact ⟨_, other, by rw [List.intercalate_cons_cons, List.cons_append, List.cons_append]⟩

theorem place_rooted (home : Place) (path : Chars) :
    place home ('/' :: path) = (path.splitOn '/').foldl enter [] := by
  have parts : ('/' :: path).splitOn '/' = [] :: path.splitOn '/' := by
    rw [List.splitOn_cons_eq_if_modifyHead, if_pos (by rfl)]
  rw [place, parts, List.head?_cons, if_pos rfl, List.foldl_cons]
  rfl

/-- A path leads where it did when it is clean. -/
theorem place_cleanPath (home : Place) (path : String) :
    place home (Loader.cleanPath path).toList = place home path.toList := by
  have none_ : ∀ part ∈ ([] : List Chars), Kept part := fun part inside => absurd inside List.not_mem_nil
  simp only [Loader.cleanPath, pathParts_eq]
  by_cases rooted : path.toList.head? = some '/'
  · have start : true = true → ([] : Place) = [] := fun _ => rfl
    obtain ⟨leads, kept_⟩ := foldl_keepPart start (path.toList.splitOn '/') (splitOn_solid path.toList) [] none_
    simp only [rooted, decide_true, if_true, String.toList_ofList]
    rw [place_rooted, foldl_joined fun part inside => kept_ part (List.mem_reverse.mp inside), leads, place,
      if_pos rooted]
    rfl
  · have start : false = true → home = [] := fun same => by cases same
    obtain ⟨leads, kept_⟩ := foldl_keepPart start (path.toList.splitOn '/') (splitOn_solid path.toList) [] none_
    simp only [rooted, decide_false, if_false]
    rw [place.eq_def home path.toList, if_neg rooted]
    generalize (path.toList.splitOn '/').foldl (Loader.keepPart false) [] = kept at leads kept_
    rw [← show _ = (path.toList.splitOn '/').foldl enter home from leads]
    have kept' : ∀ part ∈ kept.reverse, Kept part := fun part inside => kept_ part (List.mem_reverse.mp inside)
    cases reversed : kept.reverse with
    | nil =>
      have dot : ".".toList = ['.'] := by simp
      have empty : ['/'].intercalate ([] : List Chars) = [] := rfl
      rw [empty, if_pos rfl, dot]
      rfl
    | cons part parts =>
      rw [reversed] at kept'
      obtain ⟨c, rest, other, text⟩ : ∃ c rest, c ≠ '/' ∧ ['/'].intercalate (part :: parts) = c :: rest :=
        head_joined (kept' part List.mem_cons_self)
      have some_ : ['/'].intercalate (part :: parts) ≠ [] := by rw [text]; exact List.cons_ne_nil _ _
      have relative : (['/'].intercalate (part :: parts)).head? ≠ some '/' := by
        rw [text]
        simpa using other
      rw [if_neg some_, String.toList_ofList, place, if_neg relative, foldl_joined kept']

/-- A path is what is up to its last slash and the part behind it. -/
theorem eq_append_base (path : Chars) :
    ∃ front, dir path = (Loader.cleanPath (String.ofList front)).toList ∧ path = front ++ base path ∧
      (front = [] ∨ ∃ before, front = before ++ ['/']) := by
  refine ⟨(path.reverse.dropWhile (· ≠ '/')).reverse, ?_, ?_, ?_⟩
  · rw [dir, Loader.dir, String.toList_ofList]
  · have whole := List.takeWhile_append_dropWhile (p := (· ≠ '/')) (l := path.reverse)
    rw [base, ← List.reverse_append, whole, List.reverse_reverse]
  · have first := List.head?_dropWhile_not (· ≠ '/') path.reverse
    cases rest : path.reverse.dropWhile (· ≠ '/') with
    | nil => exact .inl rfl
    | cons c before =>
      rw [rest] at first
      have slash : c = '/' := by simpa using first
      rw [slash, List.reverse_cons]
      exact .inr ⟨_, rfl⟩

theorem base_solid (path : Chars) : '/' ∉ base path := by
  intro inside
  have other := List.mem_takeWhile_imp (List.mem_reverse.mp inside)
  simp at other

/-- A path with a name leads below its directory. -/
theorem place_named {home : Place} {path : Chars} (named_ : named path = true) :
    place home path = place home (dir path) ++ [base path] := by
  have own : base path ≠ [] ∧ base path ≠ ['.'] ∧ base path ≠ ['.', '.'] := by
    simpa [named, and_assoc] using named_
  have last : ∀ p, enter p (base path) = p ++ [base path] := fun p => by
    rw [enter, if_neg (not_or.mpr ⟨own.1, own.2.1⟩), if_neg own.2.2]
  have single : (base path).splitOn '/' = [base path] := List.splitOn_eq_singleton (base_solid path)
  obtain ⟨front, dir_, whole, ends⟩ := eq_append_base path
  rw [dir_, place_cleanPath, String.toList_ofList]
  have solid := base_solid path
  generalize base path = name at last single whole solid
  rw [whole]
  rcases ends with rfl | ⟨before, rfl⟩
  · have relative : name.head? ≠ some '/' := fun first => solid (List.mem_of_mem_head? first)
    rw [List.nil_append, place, if_neg relative, single, List.foldl_cons, List.foldl_nil, last]
    rfl
  · have start : (before ++ '/' :: name).head? = (before ++ ['/']).head? := by
      cases before <;> rfl
    rw [List.append_assoc, List.singleton_append, place, start, List.splitOn_append_cons_self, single,
      List.foldl_append, List.foldl_cons, List.foldl_nil, last, place, List.splitOn_append_cons_self,
      List.foldl_append]
    rfl

/-! ## What is sent -/

section Sending

variable {m : Machine} {t : Tree}

/-- A text of which the here document gives everything is run. -/
theorem sudoCmd_eq {cmd : Chars} (free : stop ∉ lines cmd) (still : expands cmd = false) :
    sudoCmd m cmd t = m.simple cmd t := by
  have solid : '\n' ∉ stop := by simp [stop]
  have begins : opening.isPrefixOf (opening ++ (cmd ++ '\n' :: stop)) = true :=
    List.isPrefixOf_iff_prefix.mpr (List.prefix_append _ _)
  rw [sudoCmd, remote, sudoPrefix, List.append_assoc, if_pos begins, List.drop_left, hereDocument_eq solid free still,
    Option.bind_some]

/-- Readable words are run as they are. -/
theorem sudoCmd_unwords {name : Chars} {args : List Chars} (plain : readable (name :: args) = true)
    (other : name ≠ "echo".toList) (runs : name ≠ stop) :
    sudoCmd m (unwords (name :: args)) t = m.tool name args t := by
  have words : ∀ w ∈ name :: args, plainWord w = true := by
    simp only [readable, Bool.and_eq_true] at plain
    exact List.all_eq_true.mp plain.1.1
  have special_ := unwords_special words
  have line : lines (unwords (name :: args)) = [unwords (name :: args)] := by
    refine List.splitOn_eq_singleton fun inside => ?_
    cases special_ '\n' inside
  have free : stop ∉ lines (unwords (name :: args)) := by
    rw [line, List.mem_singleton]
    intro same
    have first : firstWord (unwords (name :: args)) = name := firstWord_unwords (words name List.mem_cons_self)
    rw [← same] at first
    exact runs (first.symm.trans (by simp [firstWord, stop, Shell.blank]))
  rw [sudoCmd_eq free (expands_eq_false special_), simple_unwords m plain other]

theorem string_unwords {c : Cmd} (solid : c.cmd.head? ≠ some '/') (some_ : c.cmd ≠ []) :
    c.string = unwords (c.cmd :: c.args) := by
  obtain ⟨name, args⟩ := c
  obtain ⟨d, ds, rfl⟩ := List.exists_cons_of_ne_nil some_
  have other : ('/' == d) = false := by
    rw [beq_eq_false_iff_ne]
    rintro rfl
    exact solid rfl
  have text : ∃ rest, unwords ((d :: ds) :: args) = d :: rest := by
    cases args with
    | nil => exact ⟨ds, unwords_one _⟩
    | cons w ws => exact ⟨_, by rw [unwords_cons, List.cons_append]⟩
  obtain ⟨rest, text⟩ := text
  have shell : "/bin/sh -c".toList = '/' :: "bin/sh -c".toList := by simp
  have bash : "/bin/bash -c".toList = '/' :: "bin/bash -c".toList := by simp
  rw [Cmd.string, text, shell, bash]
  simp only [List.isPrefixOf, other, Bool.false_and, Bool.false_eq_true, if_false]

theorem mem_lines_blank {cmd l : Chars} (inside : l ∈ lines (' ' :: cmd)) : l ∈ lines cmd ∨ l.head? = some ' ' := by
  rw [lines_cons, if_neg (by decide)] at inside
  cases parts : lines cmd with
  | nil =>
    rw [parts] at inside
    cases inside
  | cons first rest =>
    rw [parts] at inside
    rcases List.mem_cons.mp inside with rfl | inside
    · exact .inr rfl
    · exact .inl (List.mem_cons_of_mem _ inside)

variable {codec : Codec} {f : Files} {text : Chars}

/-- The text of an entry is written with a newline, as `Run` sends it and as a command. -/
theorem Plain.sent (plain : Plain codec f text) {lead : Chars} (blanks : lead = [] ∨ lead = [' ']) :
    sudoCmd m (lead ++ script f text) t = output f.append (placeOf m f) (text ++ ['\n']) t := by
  have free : stop ∉ lines (lead ++ script f text) := by
    rcases blanks with rfl | rfl
    · exact plain.whole
    · intro inside
      rcases mem_lines_blank inside with inside | first
      · exact plain.whole inside
      · exact absurd first (by simp [stop])
  have still : expands (lead ++ script f text) = false := by
    rcases blanks with rfl | rfl
    · exact plain.still
    · rw [List.singleton_append, expands, plain.still]
      rfl
  have printed : echo [text] = some (text ++ ['\n']) := by
    have unescaped : (text.any (· = '\\')) = false := by
      rw [List.any_eq_false]
      rintro c inside same
      exact plain.unescaped (of_decide_eq_true same ▸ inside)
    rw [echo, unwords_one]
    simp [plain.shown, unescaped]
  rw [sudoCmd_eq free still, script, simple_echo m blanks plain.unquoted plain.path printed plain.file]
  rfl

end Sending

/-! ## One entry -/

/-- The tree after an entry. -/
def written (m : Machine) (f : Files) (text : Chars) (t : Tree) : Tree :=
  let old := t (placeOf m f)
  Function.update (made (placeOf m f).dropLast t) (placeOf m f)
    (some (.file (old.elim newFile Entry.attr) ((if f.append then held old else []) ++ (text ++ ['\n']))))

section Entry

variable {codec : Codec} {m : Machine} {f : Files} {text : Chars} {t : Tree}

/-- The place of an entry is below its directory. -/
theorem Plain.placeOf (plain : Plain codec f text) (m : Machine) :
    placeOf m f = place m.home (dir (fixPath f.path)) ++ [base (fixPath f.path)] := place_named plain.file

theorem Plain.dropLast (plain : Plain codec f text) (m : Machine) :
    (WriteFiles.placeOf m f).dropLast = place m.home (dir (fixPath f.path)) := by
  rw [plain.placeOf, List.dropLast_concat]

theorem Plain.not_prefix (plain : Plain codec f text) (m : Machine) :
    ¬ WriteFiles.placeOf m f <+: (WriteFiles.placeOf m f).dropLast := by
  intro below
  have shorter := below.length_le
  rw [plain.dropLast, plain.placeOf, List.length_append, List.length_singleton] at shorter
  omega

theorem output_made (plain : Plain codec f text) (room : ∀ e ∈ t (placeOf m f), e.isFile = true)
    (way : ∀ q, q <+: (placeOf m f).dropLast → ∀ e ∈ t q, e.isFile = false) :
    output f.append (placeOf m f) (text ++ ['\n']) (made (placeOf m f).dropLast t) = some (written m f text t) := by
  rw [output, written, made_of_not (plain.not_prefix m)]
  cases there : t (placeOf m f) with
  | some e =>
    cases e with
    | dir attr => cases room _ there
    | file attr old => rfl
  | none =>
    have parent : (made (placeOf m f).dropLast t (placeOf m f).dropLast).any (fun e => !e.isFile) = true := by
      rw [made, if_pos ((List.mem_inits _ _).mpr (List.prefix_refl _))]
      cases up : t (placeOf m f).dropLast with
      | none => rfl
      | some e =>
        have dir_ := way _ (List.prefix_refl _) e up
        rw [Option.getD_some, Option.any_some, dir_]
        rfl
    dsimp only
    rw [if_pos parent]
    cases f.append <;> rfl

theorem words_of_flags {flags : List Chars} {w : Chars} (known : flags.all plainWord = true)
    (plain : plainWord w = true) : ∀ w' ∈ flags ++ [w], plainWord w' = true :=
  List.forall_mem_append.mpr ⟨List.all_eq_true.mp known, List.forall_mem_singleton.mpr plain⟩

/-- The tools that are called with plain words. -/
theorem sudoCmd_tool {name : String} {args : List Chars} (tool : name ∈ ["mkdir", "chmod", "chown"])
    (plain : ∀ w ∈ args, plainWord w = true) (t : Tree) :
    sudoCmd m (unwords (name.toList :: args)) t = m.tool name.toList args t := by
  have known : (["mkdir", "chmod", "chown"].all fun name =>
      readable [name.toList] && name.toList ≠ "echo".toList && name.toList ≠ stop) = true := by decide +kernel
  have own := List.all_eq_true.mp known name tool
  simp only [Bool.and_eq_true, decide_eq_true_eq] at own
  refine sudoCmd_unwords ?_ own.1.2 own.2
  have word := own.1.1
  simp only [readable, List.all_cons, List.all_nil, Bool.and_true, List.headD_cons, Bool.and_eq_true] at word ⊢
  exact ⟨⟨⟨word.1.1, List.all_eq_true.mpr plain⟩, word.1.2⟩, word.2⟩

theorem sudoCmd_command {name : String} {args : List Chars} (tool : name ∈ ["mkdir", "chmod", "chown"])
    (plain : ∀ w ∈ args, plainWord w = true) (t : Tree) :
    sudoCmd m (Cmd.string ⟨name.toList, args⟩) t = m.tool name.toList args t := by
  have known : (["mkdir", "chmod", "chown"].all fun name =>
      name.toList.head? ≠ some '/' && name.toList ≠ []) = true := by simp
  have own := List.all_eq_true.mp known name tool
  simp only [Bool.and_eq_true, decide_eq_true_eq] at own
  rw [string_unwords own.1 own.2, sudoCmd_tool tool plain]

theorem tool_mkdir (args : List Chars) (t : Tree) : m.tool "mkdir".toList args t = m.mkdir args t := if_pos rfl

theorem tool_chmod (args : List Chars) (t : Tree) : m.tool "chmod".toList args t = m.chmod args t := by
  rw [Machine.tool, if_neg (by simp), if_pos rfl]

theorem tool_chown (args : List Chars) (t : Tree) : m.tool "chown".toList args t = m.chown args t := by
  rw [Machine.tool, if_neg (by simp), if_neg (by simp), if_pos rfl]

theorem owner_root (root : m.accounts.user "root".toList = some 0) :
    m.accounts.owner "root".toList = some (some 0, none) := by
  have name : "root".toList.takeWhile (· ≠ ':') = "root".toList := by simp
  have behind : "root".toList.dropWhile (· ≠ ':') = [] := by simp
  have some_ : "root".toList ≠ [] := by simp
  rw [Accounts.owner, name, behind, if_neg some_, root, if_pos rfl]
  rfl

theorem make_eq (plain : Plain codec f text)
    (way : ∀ q, q <+: (placeOf m f).dropLast → ∀ e ∈ t q, e.isFile = false) :
    make m (dir (fixPath f.path)) t = some (made (placeOf m f).dropLast t) := by
  have flags : (["-p".toList, "-m".toList, "755".toList].all plainWord) = true := by
    simp [plainWord, plainFrom, ordinary, Shell.blank, special, pattern]
  have words : ∀ w ∈ ["-p".toList, "-m".toList, "755".toList, dir (fixPath f.path)], plainWord w = true :=
    words_of_flags flags plain.dir_
  have mode : octal "755".toList = some newDir.mode := by simp [octal, newDir]
  rw [make, sudoCmd_tool (by simp) words, tool_mkdir, Machine.mkdir, if_pos ⟨rfl, rfl, plain.below⟩, mode,
    Option.bind_some, ← plain.dropLast m, mkdirs_eq way]

/-- What is root's already stays as it is. -/
theorem chown_eq_self (plain : Plain codec f text) (root : m.accounts.user "root".toList = some 0)
    (roots : ∀ q, (placeOf m f).dropLast <+: q → ∀ e ∈ t q, e.attr.user = 0) :
    chown m "root".toList (dir (fixPath f.path)) (made (placeOf m f).dropLast t) =
      some (made (placeOf m f).dropLast t) := by
  have flags : (["root".toList, "-R".toList].all plainWord) = true := by
    simp [plainWord, plainFrom, ordinary, Shell.blank, special, pattern]
  have words : ∀ w ∈ ["root".toList, "-R".toList, dir (fixPath f.path)], plainWord w = true :=
    words_of_flags flags plain.dir_
  have there : (made (placeOf m f).dropLast t (placeOf m f).dropLast).isSome = true := by
    rw [made, if_pos ((List.mem_inits _ _).mpr (List.prefix_refl _))]
    rfl
  have user : ∀ q, (placeOf m f).dropLast <+: q → ∀ e ∈ made (placeOf m f).dropLast t q,
      e.attr.own (some 0, none) = e.attr := by
    intro q below e here
    have zero : e.attr.user = 0 := by
      cases before : t q with
      | some e' =>
        rw [made_of_some before, Option.mem_some_iff] at here
        exact here ▸ roots q below e' before
      | none =>
        rw [made, before] at here
        split at here
        · cases here
          rfl
        · cases here
    rw [Attr.own, Option.getD_some, Option.getD_none, ← zero]
  rw [chown, sudoCmd_tool (by simp) words, tool_chown, Machine.chown,
    if_pos ⟨by simp [operand], rfl, plain.below⟩, owner_root root, Option.bind_some, ← plain.dropLast m,
    chownAll_eq there user]

/-- A directory is made as a command. -/
theorem mkdir_eq (plain : Plain codec f text)
    (way : ∀ q, q <+: (placeOf m f).dropLast → ∀ e ∈ t q, e.isFile = false) :
    sudoCmd m (Cmd.string ⟨"mkdir".toList, ["-p".toList, dir (fixPath f.path)]⟩) t =
      some (made (placeOf m f).dropLast t) := by
  have flags : (["-p".toList].all plainWord) = true := by
    simp [plainWord, plainFrom, ordinary, Shell.blank, special, pattern]
  have words : ∀ w ∈ ["-p".toList, dir (fixPath f.path)], plainWord w = true := words_of_flags flags plain.dir_
  rw [sudoCmd_command (by simp) words, tool_mkdir, Machine.mkdir, if_pos ⟨rfl, plain.below⟩, ← plain.dropLast m,
    mkdirs_eq way]

theorem plainFrom_digits {s : Chars} (digits : (s.all fun c => "01234567".toList.any fun d => c = d) = true)
    (start : Bool) : plainFrom start s = true := by
  have known : ("01234567".toList.all fun d => !blank d && !special d && d ≠ '*' && d ≠ '?' && d ≠ '[' && d ≠ '#' &&
      d ≠ '~') = true := by simp [Shell.blank, special]
  induction s generalizing start with
  | nil => rfl
  | cons c cs ih =>
    rw [List.all_cons, Bool.and_eq_true] at digits
    obtain ⟨d, inside, same⟩ := List.any_eq_true.mp digits.1
    have own := List.all_eq_true.mp known d inside
    simp only [Bool.and_eq_true, Bool.not_eq_true', decide_eq_true_eq] at own
    rw [plainFrom, ih digits.2, of_decide_eq_true same]
    simp [ordinary, pattern, own]

/-- A numeric mode is a plain word. -/
theorem plainWord_of_octal {s : Chars} {mode : Nat} (numeric : octal s = some mode) : plainWord s = true := by
  rw [octal] at numeric
  split at numeric
  · next given => exact plainWord_iff.mpr ⟨given.1, plainFrom_digits given.2.1 true⟩
  · cases numeric

/-- What an entry needs of a tree. -/
structure FitsOne (m : Machine) (f : Files) (t : Tree) : Prop where
  way : ∀ q, q <+: placeOf m f → q ≠ placeOf m f → ∀ e ∈ t q, e.isFile = false
  room : ∀ e ∈ t (placeOf m f), e.isFile = true
  requested : Requested m f ((t (placeOf m f)).elim newFile Entry.attr)
  roots : ∀ q, (placeOf m f).dropLast <+: q → ∀ e ∈ t q, e.attr.user = 0

theorem FitsOne.open_ (fits : FitsOne m f t) (plain : Plain codec f text) :
    ∀ q, q <+: (placeOf m f).dropLast → ∀ e ∈ t q, e.isFile = false := by
  intro q below
  refine fits.way q (below.trans (List.dropLast_prefix _)) ?_
  rintro rfl
  exact plain.not_prefix m below

/-- `Run` for one entry. -/
theorem runFile_eq (plain : Plain codec f text) (root : m.accounts.user "root".toList = some 0)
    (fits : FitsOne m f t) : runFile codec m f t = some (written m f text t) := by
  have way := fits.open_ plain
  have sent := plain.sent (m := m) (t := made (placeOf m f).dropLast t) (.inl rfl)
  rw [List.nil_append, script, output_made plain fits.room way] at sent
  rw [runFile, plain.fileText_]
  dsimp only
  rw [make_eq plain way, Option.bind_some, chown_eq_self plain root fits.roots, Option.bind_some, sent]

theorem written_self : written m f text t (placeOf m f) = some (.file ((t (placeOf m f)).elim newFile Entry.attr)
    ((if f.append then held (t (placeOf m f)) else []) ++ (text ++ ['\n']))) := Function.update_self _ _ _

theorem written_of_ne {p : Place} (other : p ≠ placeOf m f) : written m f text t p = made (placeOf m f).dropLast t p :=
  Function.update_of_ne other _ _

/-- The commands for one entry. -/
theorem fileCommands_eq (plain : Plain codec f text) (fits : FitsOne m f t) :
    (fileCommands f text).foldlM (fun t c => sudoCmd m c.string t) t = some (written m f text t) := by
  have way := fits.open_ plain
  have sent := plain.sent (m := m) (t := made (placeOf m f).dropLast t) (.inr rfl)
  rw [List.singleton_append, script, output_made plain fits.room way] at sent
  obtain ⟨o, mode, asked, numeric, own, mode_⟩ := fits.requested
  have there : written m f text t (placeOf m f) = some (.file ((t (placeOf m f)).elim newFile Entry.attr) _) :=
    written_self
  have chmod_ : (if fixPermissions f.permissions ≠ "0644".toList then
      [⟨"chmod".toList, [fixPermissions f.permissions, fixPath f.path]⟩] else ([] : List Cmd)).foldlM
        (fun t c => sudoCmd m c.string t) (written m f text t) = some (written m f text t) := by
    split
    · next other =>
      have words : ∀ w ∈ [fixPermissions f.permissions, fixPath f.path], plainWord w = true := by
        simp [plainWord_of_octal numeric, plain.path]
      have operand_ := plain.unnamed.resolve_right fun default => other default.1
      have same : Posix.chmod mode (placeOf m f) (written m f text t) = some (written m f text t) :=
        chmod_eq there mode_
      rw [List.foldlM_cons, sudoCmd_command (by simp) words, tool_chmod, Machine.chmod, if_pos operand_, numeric]
      exact congrArg (Option.bind · _) same
    · rfl
  have chown_ : (if fixOwner f.owner ≠ "root:root".toList then
      [⟨"chown".toList, [fixOwner f.owner, fixPath f.path]⟩] else ([] : List Cmd)).foldlM
        (fun t c => sudoCmd m c.string t) (written m f text t) = some (written m f text t) := by
    split
    · next other =>
      have words : ∀ w ∈ [fixOwner f.owner, fixPath f.path], plainWord w = true := by
        simp [plain.owner, plain.path]
      have operand_ := plain.unnamed.resolve_right fun default => other default.2
      have same : Posix.chown o (placeOf m f) (written m f text t) = some (written m f text t) :=
        chown_eq there own
      rw [List.foldlM_cons, sudoCmd_command (by simp) words, tool_chown, Machine.chown,
        if_pos ⟨plain.given, operand_⟩, asked]
      exact congrArg (Option.bind · _) same
    · rfl
  have file : ([⟨"/bin/sh".toList, ["-c".toList, quotedEcho text f.append (fixPath f.path)]⟩] : List Cmd).foldlM
      (fun t c => sudoCmd m c.string t) (made (placeOf m f).dropLast t) = some (written m f text t) := by
    rw [List.foldlM_cons, string_text, sent]
    rfl
  rw [fileCommands, List.foldlM_append, List.foldlM_append, List.foldlM_cons, mkdir_eq plain way]
  rw [Option.bind_eq_bind, Option.bind_some, file, Option.bind_some, chmod_, Option.bind_some, chown_]

end Entry

/-! ## One after another -/

section Entries

variable {codec : Codec} {m : Machine} {f : Files} {fs : List Files} {text : Chars} {t t' : Tree}

theorem Fits.one (fits : Fits m fs t) (inside : f ∈ fs) : FitsOne m f t :=
  ⟨fits.way f inside, fits.room f inside, fits.requested f inside, fits.roots f inside⟩

/-- What is at a place after an entry: its file, what was there, or a new directory on the way. -/
theorem written_cases {p : Place} {e : Entry} (here : written m f text t p = some e) :
    (p = placeOf m f ∧ e.isFile = true ∧ e.attr = (t p).elim newFile Entry.attr) ∨
      (p ≠ placeOf m f ∧ t p = some e) ∨
      (p ≠ placeOf m f ∧ p <+: placeOf m f ∧ t p = none ∧ e = .dir newDir) := by
  by_cases at_ : p = placeOf m f
  · subst at_
    rw [written_self] at here
    cases here
    exact .inl ⟨rfl, rfl, rfl⟩
  · rw [written_of_ne at_, made] at here
    split at here
    · next below =>
      cases before : t p with
      | none =>
        rw [before] at here
        cases here
        exact .inr (.inr ⟨at_, ((List.mem_inits _ _).mp below).trans (List.dropLast_prefix _), rfl, rfl⟩)
      | some e' =>
        rw [before] at here
        cases here
        exact .inr (.inl ⟨at_, rfl⟩)
    · exact .inr (.inl ⟨at_, here⟩)

/-- The place of another entry is as it was. -/
theorem written_other {g : Files} (apart : placeOf m g <+: placeOf m f → placeOf m g = placeOf m f)
    (other : placeOf m g ≠ placeOf m f) : written m f text t (placeOf m g) = t (placeOf m g) := by
  rw [written_of_ne other, made_of_not]
  intro below
  exact other (apart (below.trans (List.dropLast_prefix _)))

/-- The attributes of a file are the same after an entry. -/
theorem written_attr {g : Files} (apart : placeOf m g <+: placeOf m f → placeOf m g = placeOf m f) :
    (written m f text t (placeOf m g)).elim newFile Entry.attr = (t (placeOf m g)).elim newFile Entry.attr := by
  by_cases same : placeOf m g = placeOf m f
  · rw [same, written_self]
    rfl
  · rw [written_other apart same]

/-- What the entries need is there after one of them. -/
theorem Fits.step (fits : Fits m (f :: fs) t) (text : Chars) : Fits m fs (written m f text t) where
  way g inside q below other e here := by
    have later := List.mem_cons_of_mem f inside
    rcases written_cases here with ⟨rfl, -, -⟩ | ⟨-, before⟩ | ⟨-, -, -, rfl⟩
    · exact absurd (fits.apart f List.mem_cons_self g later below) other
    · exact fits.way g later q below other e before
    · rfl
  room g inside e here := by
    have later := List.mem_cons_of_mem f inside
    rcases written_cases here with ⟨-, file, -⟩ | ⟨-, before⟩ | ⟨other, below, -, -⟩
    · exact file
    · exact fits.room g later e before
    · exact absurd (fits.apart g later f List.mem_cons_self below) other
  apart g inside g' inside' := fits.apart g (List.mem_cons_of_mem f inside) g' (List.mem_cons_of_mem f inside')
  requested g inside := by
    have later := List.mem_cons_of_mem f inside
    rw [written_attr (fits.apart g later f List.mem_cons_self)]
    exact fits.requested g later
  roots g inside q below e here := by
    have later := List.mem_cons_of_mem f inside
    rcases written_cases here with ⟨rfl, -, attr⟩ | ⟨-, before⟩ | ⟨-, -, -, rfl⟩
    · rw [attr]
      cases before : t (placeOf m f) with
      | none => rfl
      | some e' => exact fits.roots g later _ below e' before
    · exact fits.roots g later q below e before
    · rfl

/-- With one encoding, what is written is what the content is. -/
theorem Plain.wanted (plain : Plain codec f text) : wanted codec f = .ok text := by
  obtain ⟨e, one⟩ := List.length_eq_one_iff.mp plain.once
  have decoded :
      decode codec f.content (fixEncoding f.encoding) = fixContent codec f.content (fixEncoding f.encoding) := by
    rw [decode, one, List.foldlM_cons]
    exact bind_pure _
  rw [WriteFiles.wanted, decoded]
  exact plain.fileText_

/-- The entries for a place. -/
def entriesAt (m : Machine) (files : List Files) (p : Place) : List Files := files.filter fun f => placeOf m f = p

/-- The entries leave their files, with the attributes from before, and keep what else was there. -/
structure Leaves (codec : Codec) (m : Machine) (files : List Files) (t t' : Tree) : Prop where
  file : ∀ p, entriesAt m files p ≠ [] → ∃ content, t' p = some (.file ((t p).elim newFile Entry.attr) content) ∧
    Holds codec (held (t p)) (entriesAt m files p) content
  kept : ∀ p, entriesAt m files p = [] → ∀ e ∈ t p, t' p = some e

/-- One entry more leaves its file, and what the others leave then. -/
theorem Leaves.cons (plain : Plain codec f text) (fits : Fits m (f :: fs) t)
    (leaves : Leaves codec m fs (written m f text t) t') : Leaves codec m (f :: fs) t t' where
  file p some_ := by
    by_cases at_ : placeOf m f = p
    · subst at_
      have entries : entriesAt m (f :: fs) (placeOf m f) = f :: entriesAt m fs (placeOf m f) :=
        List.filter_cons_of_pos (decide_eq_true rfl)
      have holds : ∀ content,
          Holds codec (held (written m f text t (placeOf m f))) (entriesAt m fs (placeOf m f)) content →
            Holds codec (held (t (placeOf m f))) (f :: entriesAt m fs (placeOf m f)) content := by
        intro content now
        rw [written_self, ← List.append_assoc] at now
        exact ⟨text, ['\n'], plain.wanted, .inr rfl, now⟩
      rw [entries]
      by_cases more : entriesAt m fs (placeOf m f) = []
      · refine ⟨_, leaves.kept _ more _ written_self, holds _ ?_⟩
        rw [more, written_self]
        rfl
      · obtain ⟨content, there, now⟩ := leaves.file _ more
        rw [written_self] at there
        exact ⟨content, there, holds content now⟩
    · have entries : entriesAt m (f :: fs) p = entriesAt m fs p := List.filter_cons_of_neg (by simpa using at_)
      rw [entries] at some_ ⊢
      obtain ⟨g, inside⟩ := List.exists_mem_of_ne_nil _ some_
      obtain ⟨later, place_⟩ := List.mem_filter.mp inside
      have place_ : placeOf m g = p := of_decide_eq_true place_
      subst place_
      have before : written m f text t (placeOf m g) = t (placeOf m g) :=
        written_other (fits.apart g (List.mem_cons_of_mem f later) f List.mem_cons_self) (Ne.symm at_)
      have left_ := leaves.file (placeOf m g) some_
      rwa [before] at left_
  kept p none_ e there := by
    have at_ : placeOf m f ≠ p := by
      intro same
      have inside : f ∈ entriesAt m (f :: fs) p := List.mem_filter.mpr ⟨List.mem_cons_self, decide_eq_true same⟩
      rw [none_] at inside
      cases inside
    have entries : entriesAt m (f :: fs) p = entriesAt m fs p := List.filter_cons_of_neg (by simpa using at_)
    refine leaves.kept p (entries ▸ none_) e ?_
    rw [written_of_ne (Ne.symm at_)]
    exact made_of_some there

/-- The commands of the entries and the run of them. -/
theorem leaves_of_plain (root : m.accounts.user "root".toList = some 0) (fs : List Files) :
    ∀ t : Tree, (∀ f ∈ fs, ∃ text, Plain codec f text) → Fits m fs t →
      ∃ cmds t', commands codec fs = (cmds, none) ∧ cmds.foldlM (fun t c => sudoCmd m c.string t) t = some t' ∧
        run codec m fs t = some t' ∧ Leaves codec m fs t t' := by
  induction fs with
  | nil =>
    intro t _ _
    exact ⟨[], t, rfl, rfl, rfl, fun p some_ => absurd rfl some_, fun p _ e there => there⟩
  | cons f fs ih =>
    intro t plain fits
    obtain ⟨text, own⟩ := plain f List.mem_cons_self
    have one := fits.one List.mem_cons_self
    obtain ⟨cmds, t', given, sent, ran, leaves⟩ :=
      ih (written m f text t) (fun f inside => plain f (List.mem_cons_of_mem _ inside)) (fits.step text)
    refine ⟨fileCommands f text ++ cmds, t', ?_, ?_, ?_, leaves.cons own fits⟩
    · rw [commands, own.fileText_, given]
    · rw [List.foldlM_append, fileCommands_eq own one]
      exact sent
    · rw [run, List.foldlM_cons, runFile_eq own root one]
      exact ran

end Entries

/-! ## Lists of entries -/

/-- The files become what is asked for, whichever way, where the entries are plain and fit. -/
theorem faithful_of_plain (codec : Codec) (m : Machine) (root : m.accounts.user "root".toList = some 0)
    (files : List Files) (t : Tree) (plain : ∀ f ∈ files, ∃ text, Plain codec f text) (fits : Fits m files t) :
    Faithful codec m files t := by
  obtain ⟨cmds, t', given, sent, ran, leaves⟩ := leaves_of_plain root files t plain fits
  refine ⟨t', ?_, ran, ?_⟩
  · rw [runCommands, given]
    exact sent
  · intro p last inside
    have inside := List.mem_of_getLast? inside
    obtain ⟨member, at_⟩ := List.mem_filter.mp inside
    have at_ : placeOf m last = p := of_decide_eq_true at_
    obtain ⟨content, there, holds⟩ := leaves.file p (List.ne_nil_of_mem inside)
    exact ⟨_, content, there, at_ ▸ fits.requested last member, holds⟩

/-! ## A machine with nothing on it -/

def bareMachine : Machine where
  accounts :=
    { user := fun u => if u = "root".toList then some 0 else none
      group := fun g => if g = "root".toList then some 0 else none
      login := fun u => if u = "root".toList then some 0 else none }
  home := ["root".toList]

def bareTree : Tree := fun p => if p = [] then some (.dir newDir) else none

/-- A decoder that knows one text. -/
def oneText : Codec where
  base64 c := if c = "YzogZA==".toList then .ok "c: d".toList else .error "illegal base64 data".toList
  gunzip _ := .error "gzip: invalid header".toList

def plainFile : Files := { path := "/etc/a.conf".toList, content := "a: $ b\n".toList }

def encodedFile : Files :=
  { path := " /etc/a.conf".toList, encoding := "B64".toList, content := "YzogZA==".toList, owner := "root".toList,
    append := true }

theorem mem_bareTree {q : Place} {e : Entry} (here : e ∈ bareTree q) : q = [] ∧ e = .dir newDir := by
  rw [bareTree] at here
  split at here
  · next top =>
    cases here
    exact ⟨top, rfl⟩
  · cases here

theorem plain_config : Plain oneText plainFile "a: $ b\n".toList ∧ Plain oneText encodedFile "c: d".toList := by
  have checks : ∀ p ∈ [(plainFile, "a: $ b\n".toList), (encodedFile, "c: d".toList)],
      (fixEncoding p.1.encoding).length = 1 ∧ '\'' ∉ p.2 ∧ '\\' ∉ p.2 ∧ echoOption p.2 = false ∧
        stop ∉ lines (script p.1 p.2) ∧ expands (script p.1 p.2) = false ∧ named (fixPath p.1.path) = true ∧
        plainWord (fixPath p.1.path) = true ∧ plainWord (dir (fixPath p.1.path)) = true ∧
        operand (dir (fixPath p.1.path)) = true ∧ plainWord (fixOwner p.1.owner) = true ∧
        operand (fixOwner p.1.owner) = true ∧ operand (fixPath p.1.path) = true := by decide +kernel
  have plain : ∀ p ∈ [(plainFile, "a: $ b\n".toList), (encodedFile, "c: d".toList)],
      fileText oneText p.1 = .ok p.2 → Plain oneText p.1 p.2 := by
    intro p inside text
    obtain ⟨once, unquoted, unescaped, shown, whole, still, file, path, dir_, below, owner, given, unnamed⟩ :=
      checks p inside
    exact ⟨text, once, unquoted, unescaped, shown, whole, still, file, path, dir_, below, owner, given, .inl unnamed⟩
  exact ⟨plain _ List.mem_cons_self rfl, plain _ (List.mem_cons_of_mem _ List.mem_cons_self) rfl⟩

theorem faithful_of_plain_config : Faithful oneText bareMachine [plainFile, encodedFile] bareTree := by
  obtain ⟨at_, empty, root, owners⟩ : (∀ f ∈ [plainFile, encodedFile],
        placeOf bareMachine f = ["etc".toList, "a.conf".toList]) ∧
      bareTree ["etc".toList, "a.conf".toList] = none ∧ bareMachine.accounts.user "root".toList = some 0 ∧
      bareMachine.accounts.owner (fixOwner plainFile.owner) = some (some 0, some 0) ∧
      bareMachine.accounts.owner (fixOwner encodedFile.owner) = some (some 0, none) ∧
      ∀ f ∈ [plainFile, encodedFile], octal (fixPermissions f.permissions) = some 0o644 := by decide +kernel
  refine faithful_of_plain oneText bareMachine root _ bareTree ?_ ?_
  · intro f inside
    rcases List.mem_cons.mp inside with rfl | inside
    · exact ⟨_, plain_config.1⟩
    · rw [List.mem_singleton.mp inside]
      exact ⟨_, plain_config.2⟩
  · exact
      { way := fun f _ q _ _ e here => by rw [(mem_bareTree here).2]; rfl
        room := fun f inside e here => by
          rw [at_ f inside, empty] at here
          cases here
        apart := fun f inside g inside' _ => (at_ f inside).trans (at_ g inside').symm
        requested := fun f inside => by
          rw [at_ f inside, empty]
          have mode := owners.2.2 f inside
          rcases List.mem_cons.mp inside with rfl | inside
          · exact ⟨_, _, owners.1, mode, rfl, rfl⟩
          · rw [List.mem_singleton.mp inside] at mode ⊢
            exact ⟨_, _, owners.2.1, mode, rfl, rfl⟩
        roots := fun f _ q _ e here => by rw [(mem_bareTree here).2]; rfl }

def quotedFile : Files := { path := "/etc/a.conf".toList, content := "a: 'b'".toList }

/-- A single quote in a content ends the quotation. -/
theorem not_faithful_quote : ¬ Faithful oneText bareMachine [quotedFile] bareTree := by
  rintro ⟨t', sent, -, left_⟩
  have read : ((runCommands oneText bareMachine [quotedFile] bareTree).bind fun t =>
      t ["etc".toList, "a.conf".toList]) = some (.file newFile "a: b\n".toList) := by decide +kernel
  have entries : ([quotedFile].filter fun f => placeOf bareMachine f = ["etc".toList, "a.conf".toList]) =
      [quotedFile] := by decide +kernel
  have meant : wanted oneText quotedFile = .ok "a: 'b'".toList := rfl
  obtain ⟨attr, content, there, -, holds⟩ := left_ ["etc".toList, "a.conf".toList] quotedFile (by rw [entries]; rfl)
  rw [sent, Option.bind_some, there, Option.some.injEq, Entry.file.injEq] at read
  obtain ⟨text, tail, asked, tails, now⟩ := entries ▸ holds
  rw [meant, Except.ok.injEq] at asked
  have other : ∀ tail ∈ [[], ['\n']], "a: b\n".toList ≠ "a: 'b'".toList ++ tail := by simp
  refine other tail (by simpa using tails) ?_
  rw [← read.2, asked]
  exact now

end KubeKey.CloudInit.WriteFiles
