import KubeKey.Text.Quoted
import KubeKey.Text.Literal

/-!
# The user data of a machine

`bootstrap/k3s/pkg/cloudinit`. The cloud-config of a server that initialises the control
plane, as its templates write it: the files with their contents under a literal scalar, and
the commands as quoted strings. A text is the list of its characters.
-/

namespace KubeKey.CloudInit

open KubeKey.Text

/-- `File`, with its content resolved. -/
structure File where
  path : Chars
  encoding : Chars := []
  owner : Chars := []
  permissions : Chars := []
  append : Bool := false
  content : Chars
deriving DecidableEq

/-- `ControlPlaneInput`, with the files of the certificates. -/
structure ControlPlaneInput where
  certificates : List File := []
  additionalFiles : List File := []
  configFile : File
  preK3sCommands : List Chars := []
  postK3sCommands : List Chars := []

/-- `WriteFiles`. -/
def ControlPlaneInput.writeFiles (input : ControlPlaneInput) : List File :=
  input.certificates ++ input.additionalFiles ++ [input.configFile]

def cloudConfigHeader : Chars := "## template: jinja\n#cloud-config\n".toList

/-- `templateYAMLIndent`. -/
def templateYAMLIndent (i : Nat) (input : Chars) : Chars :=
  List.replicate i ' ' ++ ('\n' :: List.replicate i ' ').intercalate (input.splitOn '\n')

/-- A file in `filesTemplate`. -/
def fileTemplate (f : File) : Chars :=
  "\n-   path: ".toList ++ f.path ++ "\n    ".toList ++
    (if f.encoding ≠ [] then "encoding: \"".toList ++ f.encoding ++ "\"\n    ".toList else []) ++
    (if f.owner ≠ [] then "owner: ".toList ++ f.owner ++ "\n    ".toList else []) ++
    (if f.permissions ≠ [] then "permissions: '".toList ++ f.permissions ++ "'\n    ".toList else []) ++
    (if f.append then "append: true\n    ".toList else []) ++
    "content: |\n".toList ++ templateYAMLIndent 6 f.content

def filesTemplate (files : List File) : Chars := "write_files:".toList ++ files.flatMap fileTemplate

def commandsTemplate (isPrint : Char → Bool) (commands : List Chars) : Chars :=
  commands.flatMap fun c => "\n  - ".toList ++ quote isPrint c

def placeholderContent : Chars :=
  ("This placeholder file is used to create the /run/cluster-api sub directory in a way that is compatible with " ++
    "both Linux and Windows (mkdir -p /run/cluster-api does not work with Windows)").toList

def placeholderTemplate : Chars :=
  "\n-   path: /run/cluster-api/placeholder".toList ++ "\n    owner: root:root".toList ++
    "\n    permissions: '0640'".toList ++ "\n    content: \"".toList ++ placeholderContent ++ "\"".toList

def installCommand : Chars :=
  "INSTALL_K3S_SKIP_DOWNLOAD=true INSTALL_K3S_EXEC='server' /usr/local/bin/k3s-install.sh".toList

/-- `controlPlaneCloudInit`. -/
def controlPlaneCloudInit (isPrint : Char → Bool) (input : ControlPlaneInput) : Chars :=
  cloudConfigHeader ++ "\n".toList ++ filesTemplate input.writeFiles ++ placeholderTemplate ++ "\nruncmd:".toList ++
    commandsTemplate isPrint input.preK3sCommands ++ "\n  - \"".toList ++ installCommand ++ "\"".toList ++
    commandsTemplate isPrint input.postK3sCommands ++ "\n".toList

/-- `NewInitControlPlane`. Go writes the runes that `isPrint` holds of as they are. -/
def newInitControlPlane (isPrint : Char → Bool) (input : ControlPlaneInput) : Chars :=
  controlPlaneCloudInit isPrint input

/-! ### Its lines -/

/-- A field on one line. -/
def field (key value : Chars) : Chars := key ++ ':' :: ' ' :: value

def quoted (q : Char) (s : Chars) : Chars := q :: (s ++ [q])

/-- The fields of a file that come after its path and before its content. -/
def attributes (f : File) : List (Chars × Chars) :=
  (if f.encoding ≠ [] then [("encoding".toList, quoted '"' f.encoding)] else []) ++
    (if f.owner ≠ [] then [("owner".toList, f.owner)] else []) ++
    (if f.permissions ≠ [] then [("permissions".toList, quoted '\'' f.permissions)] else []) ++
    (if f.append then [("append".toList, "true".toList)] else [])

/-- The lines of an item of `write_files`. -/
def itemLines (path : Chars) (fields : List (Chars × Chars)) (last : List Chars) : List Chars :=
  ('-' :: indent 3 (field "path".toList path)) :: (fields.map fun p => indent 4 (field p.1 p.2)) ++ last

def contentLines (content : Chars) : List Chars :=
  indent 4 "content: |".toList :: (lines content).map (indent 6)

def fileLines (f : File) : List Chars := itemLines f.path (attributes f) (contentLines f.content)

def placeholderLines : List Chars :=
  itemLines "/run/cluster-api/placeholder".toList
    [("owner".toList, "root:root".toList), ("permissions".toList, quoted '\'' "0640".toList)]
    [indent 4 (field "content".toList (quoted '"' placeholderContent))]

def commandLine (isPrint : Char → Bool) (c : Chars) : Chars := indent 2 ('-' :: ' ' :: quote isPrint c)

def headerLines : List Chars := ["## template: jinja".toList, "#cloud-config".toList, []]

/-- The lines of `write_files`, with the header in front. -/
def writeFilesLines (files : List File) : List Chars :=
  headerLines ++ "write_files:".toList :: (files.flatMap fileLines ++ placeholderLines)

/-- The commands in their order. -/
def ControlPlaneInput.commands (input : ControlPlaneInput) : List Chars :=
  input.preK3sCommands ++ installCommand :: input.postK3sCommands

def installLine : Chars := indent 2 ('-' :: ' ' :: quoted '"' installCommand)

def runCmdLines (isPrint : Char → Bool) (input : ControlPlaneInput) : List Chars :=
  "runcmd:".toList :: (input.preK3sCommands.map (commandLine isPrint) ++
    installLine :: input.postK3sCommands.map (commandLine isPrint))

def userDataLines (isPrint : Char → Bool) (input : ControlPlaneInput) : List Chars :=
  writeFilesLines input.writeFiles ++ runCmdLines isPrint input

/-- Each line after a newline. -/
def newlined (ls : List Chars) : Chars := ls.flatMap ('\n' :: ·)

@[simp] theorem newlined_nil : newlined [] = [] := rfl

@[simp] theorem newlined_cons (l : Chars) (ls : List Chars) : newlined (l :: ls) = '\n' :: (l ++ newlined ls) := by
  simp [newlined]

@[simp] theorem newlined_append (ls ls' : List Chars) : newlined (ls ++ ls') = newlined ls ++ newlined ls' := by
  simp [newlined]

theorem newlined_flatMap {α : Type} (f : α → List Chars) (xs : List α) :
    newlined (xs.flatMap f) = xs.flatMap fun x => newlined (f x) := by
  simp [newlined, List.flatMap_assoc]

theorem joinLines_cons (l : Chars) (ls : List Chars) : joinLines (l :: ls) = l ++ newlined ls := by
  induction ls generalizing l with
  | nil => simp [joinLines]
  | cons l' ls ih =>
    have rest := ih l'
    simp only [joinLines] at rest ⊢
    rw [List.intercalate_cons_cons, rest]
    simp

theorem terminated_eq_newlined (l : Chars) (ls : List Chars) :
    terminated (l :: ls) = l ++ newlined ls ++ ['\n'] := by
  rw [terminated_eq, List.cons_append, joinLines_cons]
  simp

theorem templateYAMLIndent_eq (i : Nat) (input : Chars) :
    '\n' :: templateYAMLIndent i input = newlined ((lines input).map (indent i)) := by
  have each : ∀ ls : List Chars, ls ≠ [] → '\n' :: (List.replicate i ' ' ++
      ('\n' :: List.replicate i ' ').intercalate ls) = newlined (ls.map (indent i)) := by
    intro ls some_
    induction ls with
    | nil => exact absurd rfl some_
    | cons l ls ih =>
      cases ls with
      | nil => simp [indent]
      | cons l' ls =>
        have rest := ih (List.cons_ne_nil _ _)
        rw [List.intercalate_cons_cons, List.map_cons, newlined_cons, ← rest]
        simp [indent]
  exact each _ (List.splitOn_ne_nil _ _)

/-- The line break in a template before a field. -/
def fieldBreak : Chars := '\n' :: List.replicate 4 ' '

/-- A field that may be left out, before the line break for the next one. -/
theorem newlined_optional (c : Prop) [Decidable c] (key value : Chars) :
    newlined ((if c then [(key, value)] else []).map fun p => indent 4 (field p.1 p.2)) ++ fieldBreak =
      fieldBreak ++ if c then field key value ++ fieldBreak else [] := by
  split
  · simp only [List.map_cons, List.map_nil, newlined_cons, newlined_nil, fieldBreak, indent, List.append_nil,
      List.cons_append, List.append_assoc]
  · simp only [List.map_nil, newlined_nil, List.nil_append, List.append_nil]

theorem newlined_attributes (f : File) :
    newlined ((attributes f).map fun p => indent 4 (field p.1 p.2)) ++ fieldBreak =
      fieldBreak ++
        (if f.encoding ≠ [] then "encoding: \"".toList ++ f.encoding ++ "\"\n    ".toList else []) ++
        (if f.owner ≠ [] then "owner: ".toList ++ f.owner ++ "\n    ".toList else []) ++
        (if f.permissions ≠ [] then "permissions: '".toList ++ f.permissions ++ "'\n    ".toList else []) ++
        (if f.append then "append: true\n    ".toList else []) := by
  have encoding : "encoding: \"".toList ++ f.encoding ++ "\"\n    ".toList =
      field "encoding".toList (quoted '"' f.encoding) ++ fieldBreak := by
    simp only [field, quoted, List.append_assoc, List.cons_append]
    rfl
  have permissions : "permissions: '".toList ++ f.permissions ++ "'\n    ".toList =
      field "permissions".toList (quoted '\'' f.permissions) ++ fieldBreak := by
    simp only [field, quoted, List.append_assoc, List.cons_append]
    rfl
  have owner : "owner: ".toList ++ f.owner ++ "\n    ".toList = field "owner".toList f.owner ++ fieldBreak := rfl
  have append : "append: true\n    ".toList = field "append".toList "true".toList ++ fieldBreak := rfl
  rw [attributes, List.map_append, List.map_append, List.map_append, newlined_append, newlined_append,
    newlined_append, encoding, permissions, owner, append, List.append_assoc, newlined_optional,
    ← List.append_assoc, List.append_assoc _ _ fieldBreak, newlined_optional, ← List.append_assoc,
    List.append_assoc _ _ fieldBreak, newlined_optional, ← List.append_assoc, newlined_optional]

theorem fileTemplate_eq (f : File) : fileTemplate f = newlined (fileLines f) := by
  have assemble : ∀ a b e o p q c i : Chars,
      a ++ b ++ e ++ o ++ p ++ q ++ c ++ i = a ++ (b ++ e ++ o ++ p ++ q) ++ (c ++ i) := by
    intro a b e o p q c i
    simp only [List.append_assoc]
  have content : "content: |\n".toList ++ templateYAMLIndent 6 f.content =
      "content: |".toList ++ newlined ((lines f.content).map (indent 6)) := by
    rw [← templateYAMLIndent_eq]
    rfl
  have tail : fieldBreak ++ ("content: |".toList ++ newlined ((lines f.content).map (indent 6))) =
      newlined (contentLines f.content) := by
    rw [contentLines, newlined_cons, fieldBreak, indent, List.append_assoc, List.cons_append]
  calc fileTemplate f
      = ("\n-   path: ".toList ++ f.path) ++ (newlined ((attributes f).map fun p => indent 4 (field p.1 p.2)) ++
          fieldBreak) ++ ("content: |\n".toList ++ templateYAMLIndent 6 f.content) := by
        rw [newlined_attributes]
        exact assemble _ _ _ _ _ _ _ _
    _ = ('\n' :: '-' :: indent 3 (field "path".toList f.path)) ++
          (newlined ((attributes f).map fun p => indent 4 (field p.1 p.2)) ++ newlined (contentLines f.content)) := by
        rw [content, ← tail, List.append_assoc, List.append_assoc, List.append_assoc]
        rfl
    _ = newlined (fileLines f) := by
        rw [fileLines, itemLines, newlined_append, newlined_cons]
        simp only [List.cons_append, List.append_assoc]

theorem commandsTemplate_eq (isPrint : Char → Bool) (commands : List Chars) :
    commandsTemplate isPrint commands = newlined (commands.map (commandLine isPrint)) := by
  induction commands with
  | nil => rfl
  | cons c commands ih =>
    rw [List.map_cons, newlined_cons, ← ih]
    rfl

theorem filesTemplate_eq (files : List File) :
    filesTemplate files = "write_files:".toList ++ newlined (files.flatMap fileLines) := by
  have items : files.flatMap fileTemplate = newlined (files.flatMap fileLines) :=
    (List.flatMap_congr fun f _ => fileTemplate_eq f).trans (newlined_flatMap fileLines files).symm
  exact congrArg _ items

theorem placeholderTemplate_eq : placeholderTemplate = newlined placeholderLines := by
  have path : "\n-   path: /run/cluster-api/placeholder".toList =
      '\n' :: '-' :: indent 3 (field "path".toList "/run/cluster-api/placeholder".toList) := rfl
  have owner : "\n    owner: root:root".toList = '\n' :: indent 4 (field "owner".toList "root:root".toList) := rfl
  have permissions : "\n    permissions: '0640'".toList =
      '\n' :: indent 4 (field "permissions".toList (quoted '\'' "0640".toList)) := rfl
  have content : ∀ c : Chars, "\n    content: \"".toList ++ (c ++ "\"".toList) =
      '\n' :: indent 4 (field "content".toList (quoted '"' c)) := fun _ => rfl
  unfold placeholderTemplate placeholderLines
  rw [List.append_assoc, List.append_assoc, content, path, owner, permissions, itemLines, newlined_append]
  simp only [newlined_cons, newlined_nil, List.append_nil, List.map_cons, List.map_nil, List.cons_append,
    List.append_assoc]

theorem installLine_eq : "\n  - \"".toList ++ installCommand ++ "\"".toList = newlined [installLine] := by
  unfold installLine
  generalize installCommand = command
  simp only [newlined_cons, newlined_nil, List.append_nil]
  rfl

/-- The user data is the text of its lines. -/
theorem newInitControlPlane_eq (isPrint : Char → Bool) (input : ControlPlaneInput) :
    newInitControlPlane isPrint input = terminated (userDataLines isPrint input) := by
  have assemble : ∀ h n f p r c i j k d m : Chars, h ++ n ++ f ++ p ++ r ++ c ++ i ++ j ++ k ++ d ++ m =
      (h ++ n ++ f) ++ p ++ (r ++ (c ++ ((i ++ j ++ k) ++ d))) ++ m := by
    intro h n f p r c i j k d m
    simp only [List.append_assoc]
  have header : cloudConfigHeader ++ "\n".toList ++ ("write_files:".toList ++ newlined
      (input.writeFiles.flatMap fileLines)) = "## template: jinja".toList ++ newlined ("#cloud-config".toList :: [] ::
        "write_files:".toList :: input.writeFiles.flatMap fileLines) := rfl
  have commands : "\nruncmd:".toList ++ (newlined (input.preK3sCommands.map (commandLine isPrint)) ++
      (newlined [installLine] ++ newlined (input.postK3sCommands.map (commandLine isPrint)))) =
      newlined (runCmdLines isPrint input) := by
    have split := newlined_append [installLine] (input.postK3sCommands.map (commandLine isPrint))
    rw [← split, ← newlined_append]
    exact (newlined_cons _ _).symm
  refine (assemble _ _ _ _ _ _ _ _ _ _ _).trans ?_
  rw [filesTemplate_eq, placeholderTemplate_eq, commandsTemplate_eq, commandsTemplate_eq, header, installLine_eq,
    commands, userDataLines, writeFilesLines, headerLines]
  simp only [List.cons_append, List.nil_append, terminated_eq_newlined, newlined_cons, newlined_append,
    List.append_assoc]
  rfl

end KubeKey.CloudInit
