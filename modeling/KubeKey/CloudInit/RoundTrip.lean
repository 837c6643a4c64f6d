import KubeKey.CloudInit.Document

/-!
# The user data, read back

What `getActions` makes of the user data of a server: the files and the commands, if every
line fits into its scanner and every content can stand in its literal scalar. The template
does not say how the scalar is indented, so a content that begins with a space, after empty
lines if any, is read back without it, or not at all.
-/

namespace KubeKey.CloudInit

open KubeKey.Text

/-! ### Lines that fit -/

/-- The lines of the file are shorter than what the scanner takes. -/
structure File.Fits (f : File) : Prop where
  path : bytes f.path + 10 < maxScanTokenSize
  encoding : bytes f.encoding + 16 < maxScanTokenSize
  owner : bytes f.owner + 11 < maxScanTokenSize
  permissions : bytes f.permissions + 19 < maxScanTokenSize
  content : ∀ l ∈ lines f.content, bytes l + 6 < maxScanTokenSize

/-- So are the lines of the files, and of the commands. -/
def ControlPlaneInput.Fits (isPrint : Char → Bool) (input : ControlPlaneInput) : Prop :=
  (∀ f ∈ input.writeFiles, f.Fits) ∧
    ∀ c ∈ input.preK3sCommands ++ input.postK3sCommands, bytes (quote isPrint c) + 4 < maxScanTokenSize

theorem bytes_field (key value : Chars) : bytes (field key value) = bytes key + bytes value + 2 := by
  have colon : ':'.utf8Size = 1 := rfl
  have space : ' '.utf8Size = 1 := rfl
  rw [field, bytes_append, bytes_cons, bytes_cons, colon, space]
  omega

theorem bytes_quoted {q : Char} (mark : q.utf8Size = 1) (s : Chars) : bytes (quoted q s) = bytes s + 2 := by
  rw [quoted, bytes_cons, bytes_append, bytes_cons, bytes_nil, mark]
  omega

/-- The line of a field that may be left out. -/
theorem fits_optional (c : Prop) [Decidable c] (key value : Chars) (size : Nat)
    (absent : ¬ c → bytes key + bytes value + 6 < size) :
    (∀ p ∈ if c then [(key, value)] else [], bytes (indent 4 (field p.1 p.2)) < size) ↔
      bytes key + bytes value + 6 < size := by
  split
  · rw [List.forall_mem_singleton]
    dsimp only
    rw [bytes_indent, bytes_field]
    omega
  · next missing => exact ⟨fun _ => absent missing, fun _ p member => by cases member⟩

theorem fits_fileLines (f : File) : (∀ l ∈ fileLines f, bytes l < maxScanTokenSize) ↔ f.Fits := by
  have encoding := fits_optional (f.encoding ≠ []) "encoding".toList (quoted '"' f.encoding) maxScanTokenSize
    fun missing => by rw [not_not.mp missing]; decide
  have owner := fits_optional (f.owner ≠ []) "owner".toList f.owner maxScanTokenSize
    fun missing => by rw [not_not.mp missing]; decide
  have permissions := fits_optional (f.permissions ≠ []) "permissions".toList (quoted '\'' f.permissions)
    maxScanTokenSize fun missing => by rw [not_not.mp missing]; decide
  have append := fits_optional (f.append = true) "append".toList "true".toList maxScanTokenSize fun _ => by decide
  have fields : (∀ p ∈ attributes f, bytes (indent 4 (field p.1 p.2)) < maxScanTokenSize) ↔
      bytes f.encoding + 16 < maxScanTokenSize ∧ bytes f.owner + 11 < maxScanTokenSize ∧
        bytes f.permissions + 19 < maxScanTokenSize := by
    have names : bytes "encoding".toList = 8 ∧ bytes "owner".toList = 5 ∧ bytes "permissions".toList = 11 ∧
        bytes "append".toList + bytes "true".toList + 6 < maxScanTokenSize := by decide
    rw [bytes_quoted rfl] at encoding permissions
    rw [attributes, List.forall_mem_append, List.forall_mem_append, List.forall_mem_append, encoding, owner,
      permissions, append]
    omega
  have path : bytes ('-' :: indent 3 (field "path".toList f.path)) = bytes f.path + 10 := by
    have dash : '-'.utf8Size = 1 := rfl
    have name : bytes "path".toList = 4 := rfl
    rw [bytes_cons, bytes_indent, bytes_field, dash, name]
    omega
  have content : (∀ l ∈ contentLines f.content, bytes l < maxScanTokenSize) ↔
      ∀ l ∈ lines f.content, bytes l + 6 < maxScanTokenSize := by
    have head : bytes (indent 4 "content: |".toList) < maxScanTokenSize := by decide
    rw [contentLines, List.forall_mem_cons, List.forall_mem_map]
    refine ⟨fun all l member => ?_, fun all => ⟨head, fun l member => ?_⟩⟩
    · have fits := all.2 l member
      rw [bytes_indent] at fits
      omega
    · have fits := all l member
      rw [bytes_indent]
      omega
  rw [fileLines, itemLines, List.forall_mem_append, List.forall_mem_cons, List.forall_mem_map, path, fields, content]
  constructor
  · rintro ⟨⟨path, encoding, owner, permissions⟩, content⟩
    exact ⟨path, encoding, owner, permissions, content⟩
  · intro fits
    exact ⟨⟨fits.path, fits.encoding, fits.owner, fits.permissions⟩, fits.content⟩

theorem fits_commandLine (isPrint : Char → Bool) (c : Chars) :
    bytes (commandLine isPrint c) = bytes (quote isPrint c) + 4 := by
  have dash : '-'.utf8Size = 1 := rfl
  have space : ' '.utf8Size = 1 := rfl
  rw [commandLine, bytes_indent, bytes_cons, bytes_cons, dash, space]
  omega

theorem fits_fixed : (∀ l ∈ headerLines ++ ["write_files:".toList, "runcmd:".toList], bytes l < maxScanTokenSize) ∧
    (∀ l ∈ placeholderLines, bytes l < maxScanTokenSize) ∧ bytes installLine < maxScanTokenSize := by
  decide +kernel

/-- The lines of the user data fit exactly when those of the files and the commands do. -/
theorem fits_userDataLines (isPrint : Char → Bool) (input : ControlPlaneInput) :
    (∀ l ∈ userDataLines isPrint input, bytes l < maxScanTokenSize) ↔ input.Fits isPrint := by
  obtain ⟨header, placeholder_, install⟩ := fits_fixed
  have files : (∀ l ∈ input.writeFiles.flatMap fileLines, bytes l < maxScanTokenSize) ↔
      ∀ f ∈ input.writeFiles, f.Fits := by
    rw [List.forall_mem_flatMap]
    exact forall₂_congr fun f _ => fits_fileLines f
  have each : ∀ cs : List Chars, (∀ l ∈ cs.map (commandLine isPrint), bytes l < maxScanTokenSize) ↔
      ∀ c ∈ cs, bytes (quote isPrint c) + 4 < maxScanTokenSize := by
    intro cs
    rw [List.forall_mem_map]
    exact forall₂_congr fun c _ => by rw [fits_commandLine]
  rw [List.forall_mem_append, List.forall_mem_cons, List.forall_mem_singleton] at header
  rw [userDataLines, writeFilesLines, runCmdLines, List.forall_mem_append, List.forall_mem_append,
    List.forall_mem_cons, List.forall_mem_append, List.forall_mem_cons, List.forall_mem_append, List.forall_mem_cons,
    files, each, each, ControlPlaneInput.Fits, List.forall_mem_append]
  constructor
  · rintro ⟨⟨-, -, files, -⟩, -, pre, -, post⟩
    exact ⟨files, pre, post⟩
  · rintro ⟨files, pre, post⟩
    exact ⟨⟨header.1, header.2.1, files, placeholder_⟩, header.2.2, pre, install, post⟩

/-! ### Carriage returns -/

/-- The file whose content is scanned: a carriage return at the end of a line is dropped. -/
def File.scanned (f : File) : File := { f with content := dropCRs f.content }

def ControlPlaneInput.scanned (input : ControlPlaneInput) : ControlPlaneInput where
  certificates := input.certificates.map File.scanned
  additionalFiles := input.additionalFiles.map File.scanned
  configFile := input.configFile.scanned
  preK3sCommands := input.preK3sCommands
  postK3sCommands := input.postK3sCommands

theorem scanned_eq {f : File} (none : '\r' ∉ f.content) : f.scanned = f := by
  rw [File.scanned, dropCRs_eq none]

theorem writeFiles_scanned (input : ControlPlaneInput) :
    input.scanned.writeFiles = input.writeFiles.map File.scanned := by
  rw [ControlPlaneInput.writeFiles, ControlPlaneInput.writeFiles, List.map_append, List.map_append]
  rfl

theorem File.Valid.scanned {resolve : Chars → Value} {f : File} (valid : f.Valid resolve) :
    f.scanned.Valid resolve :=
  ⟨valid.visible, valid.path, valid.encoding, valid.owner, valid.permissions⟩

theorem map_dropCR {ls : List Chars} (all : ∀ l ∈ ls, ∀ c ∈ l, visible c = true) : ls.map dropCR = ls :=
  (List.map_congr_left fun l member => dropCR_eq fun inside =>
    absurd rfl (visible_ne (all l member _ inside) (by decide))).trans (List.map_id' _)

theorem fileLines_scanned {resolve : Chars → Value} {f : File} (valid : f.Valid resolve) :
    (fileLines f).map dropCR = fileLines f.scanned := by
  have path : ∀ c ∈ f.path, visible c = true := fun c member => valid.visible c (by simp [member])
  have front : ∀ l ∈ itemLines f.path (attributes f) [], ∀ c ∈ l, visible c = true := fun l member =>
    (itemLines_visible [] path (attributes_visible valid) l member).resolve_right List.not_mem_nil
  have split : ∀ last, itemLines f.path (attributes f) last = itemLines f.path (attributes f) [] ++ last :=
    fun last => by rw [itemLines, itemLines, List.append_nil]
  have content : (contentLines f.content).map dropCR = contentLines (dropCRs f.content) := by
    have head : dropCR (indent 4 "content: |".toList) = indent 4 "content: |".toList := by decide
    rw [contentLines, contentLines, List.map_cons, head, lines_dropCRs, List.map_map, List.map_map]
    exact congrArg _ (List.map_congr_left fun l _ => dropCR_indent 6 l)
  rw [fileLines, split, List.map_append, map_dropCR front, content, ← split]
  rfl

/-- What is scanned is the user data of the scanned files. -/
theorem userDataLines_scanned {resolve : Chars → Value} {isPrint : Char → Bool} (prints : GoPrints isPrint)
    {input : ControlPlaneInput} (valid : ∀ f ∈ input.writeFiles, f.Valid resolve) :
    (userDataLines isPrint input).map dropCR = userDataLines isPrint input.scanned := by
  have key : dropCR "write_files:".toList = "write_files:".toList := by decide
  have files : (input.writeFiles.flatMap fileLines).map dropCR = input.scanned.writeFiles.flatMap fileLines := by
    rw [writeFiles_scanned, List.map_flatMap, List.flatMap_map]
    exact List.flatMap_congr fun f its => fileLines_scanned (valid f its)
  rw [userDataLines, writeFilesLines, List.map_append, List.map_append, List.map_cons, List.map_append,
    map_dropCR headerLines_visible, key, files, map_dropCR placeholderLines_visible, map_dropCR (runCmdLines_visible prints input)]
  rfl

/-! ### Reading back -/

theorem userDataLines_unbroken {d : Decoder} {isPrint : Char → Bool} (prints : GoPrints isPrint)
    {input : ControlPlaneInput} (valid : ∀ f ∈ input.writeFiles, f.Valid d.resolve) :
    Unbroken (userDataLines isPrint input) := by
  intro l member
  rcases List.mem_append.mp member with files | commands
  · exact writeFilesLines_unbroken valid l files
  · exact unbroken_of_visible (runCmdLines_visible prints input) l commands

section Actions

variable {lib : Libraries} {isPrint : Char → Bool} {input : ControlPlaneInput}

/-- A line that is too long is an error. -/
theorem getActions_long (prints : GoPrints isPrint) (valid : ∀ f ∈ input.writeFiles, f.Valid lib.yaml.resolve)
    (long : ¬ input.Fits isPrint) : (getActions lib (newInitControlPlane isPrint input)).2 ≠ none := by
  rw [← fits_userDataLines] at long
  simp only [not_forall] at long
  obtain ⟨l, member, long⟩ := long
  have unfinished := scan_long (userDataLines_unbroken prints valid) member long
  rw [newInitControlPlane_eq, getActions]
  dsimp only
  split
  · exact fun same => by cases same
  · rw [unfinished]
    exact fun same => by cases same

/-- Otherwise the documents of the scanned files and of the commands are decoded. -/
theorem getActions_fits (documented : Documented lib.yaml) (prints : GoPrints isPrint)
    (valid : ∀ f ∈ input.writeFiles, f.Valid lib.yaml.resolve) (fits : input.Fits isPrint) :
    getActions lib (newInitControlPlane isPrint input) =
      match unmarshal lib "write_files".toList (joinLines (writeFilesLines input.scanned.writeFiles)) with
      | none => ([], some .unmarshal)
      | some a => ([a, .runCmd (input.commands.map shell)], none) := by
  have runCmd : unmarshal lib "runcmd".toList (joinLines (runCmdLines isPrint input.scanned)) =
      some (.runCmd (input.commands.map shell)) := unmarshal_runCmdLines documented prints
  rw [newInitControlPlane_eq, getActions,
    scan_terminated (userDataLines_unbroken prints valid) ((fits_userDataLines isPrint input).mpr fits)]
  dsimp only
  rw [userDataLines_scanned prints valid, foldlM_userDataLines, runCmd]
  cases unmarshal lib "write_files".toList (joinLines (writeFilesLines input.scanned.writeFiles)) <;> rfl

end Actions

/-- The decoded file is the one that was written, up to newlines at the end of its content. -/
structure SameFile (f : File) (g : Files) : Prop where
  path : g.path = f.path
  encoding : g.encoding = f.encoding
  owner : g.owner = f.owner
  permissions : g.permissions = f.permissions
  append : g.append = f.append
  content : trimNewlines g.content = trimNewlines f.content

/-- The actions of the user data are to write the files and the placeholder and to run the
commands, in their order. -/
def RoundTrips (lib : Libraries) (isPrint : Char → Bool) (input : ControlPlaneInput) : Prop :=
  ∃ files, List.Forall₂ SameFile input.writeFiles files ∧
    getActions lib (newInitControlPlane isPrint input) =
      ([.writeFiles (files ++ [placeholder]), .runCmd (input.commands.map shell)], none)

theorem sameFile_decoded {f : File} {t : Chars} (content : trimNewlines t = trimNewlines f.content) :
    SameFile f (decoded f t) :=
  ⟨rfl, rfl, rfl, rfl, rfl, content⟩

/-- A literal scalar has no carriage return if its lines have none. -/
theorem literalContent_noCR {f : File} (none : '\r' ∉ f.content) : '\r' ∉ literalContent f := by
  intro member
  obtain ⟨l, body, inside⟩ := mem_clip (by decide) member
  obtain ⟨l', line, part⟩ := mem_literalLines body
  obtain ⟨l'', its, rfl⟩ := List.mem_map.mp line
  rcases List.mem_append.mp (part inside) with space | inside
  · cases List.eq_of_mem_replicate space
  · refine none ?_
    rw [← joinLines_lines f.content]
    exact (mem_joinLines (by decide)).mpr ⟨l'', its, inside⟩

theorem File.Settled.noCR {f : File} (settled : f.Settled) : '\r' ∉ f.content := fun member =>
  absurd (settled.unambiguous _ member) (by decide)

section Actions

variable {lib : Libraries} {isPrint : Char → Bool} {input : ControlPlaneInput}

theorem roundTrips_of_kept (documented : Documented lib.yaml) (prints : GoPrints isPrint)
    (valid : ∀ f ∈ input.writeFiles, f.Valid lib.yaml.resolve) (kept : ∀ f ∈ input.writeFiles, f.Kept)
    (fits : input.Fits isPrint) : RoundTrips lib isPrint input := by
  have same : input.scanned.writeFiles = input.writeFiles := by
    rw [writeFiles_scanned]
    exact (List.map_congr_left fun f its => scanned_eq (kept f its).noCR).trans (List.map_id' _)
  refine ⟨input.writeFiles.map fun f => decoded f (literalContent f), ?_, ?_⟩
  · rw [List.forall₂_map_right_iff, List.forall₂_same]
    exact fun f its => sameFile_decoded ((literalContent_iff (kept f its).untabbed).mpr (kept f its).flush)
  · rw [getActions_fits documented prints valid fits, same, unmarshal_kept documented valid kept]
    rfl

theorem RoundTrips.kept (documented : Documented lib.yaml) (prints : GoPrints isPrint)
    (valid : ∀ f ∈ input.writeFiles, f.Valid lib.yaml.resolve)
    (settled : ∀ f ∈ input.writeFiles, f.scanned.Settled) (back : RoundTrips lib isPrint input) :
    (∀ f ∈ input.writeFiles, f.Kept) ∧ input.Fits isPrint := by
  obtain ⟨files, sameFiles, actions⟩ := back
  have fits : input.Fits isPrint := by
    by_contra long
    exact getActions_long prints valid long (by rw [actions])
  refine ⟨fun f its => ?_, fits⟩
  have scannedValid : ∀ f ∈ input.scanned.writeFiles, f.Valid lib.yaml.resolve := by
    rw [writeFiles_scanned, List.forall_mem_map]
    exact fun f its => (valid f its).scanned
  have scannedSettled : ∀ f ∈ input.scanned.writeFiles, f.Settled := by
    rw [writeFiles_scanned, List.forall_mem_map]
    exact settled
  rw [getActions_fits documented prints valid fits] at actions
  rcases unmarshal_settled documented scannedValid scannedSettled with unread | ⟨printed, read⟩
  · rw [unread] at actions
    cases (Prod.mk.inj actions).2
  · rw [read] at actions
    -- the files are the scanned ones, with the contents of their literal scalars
    have list : written input.scanned.writeFiles = files ++ [placeholder] :=
      Action.writeFiles.inj (List.cons.inj (Prod.mk.inj actions).1).1
    rw [written, writeFiles_scanned, List.map_map] at list
    obtain ⟨rfl, -⟩ := List.append_inj' list rfl
    rw [List.forall₂_map_right_iff, List.forall₂_same] at sameFiles
    have content : trimNewlines (literalContent f.scanned) = trimNewlines f.content := (sameFiles f its).content
    have noCR : '\r' ∉ f.content := by
      intro member
      rw [← mem_trimNewlines (by decide), ← content, mem_trimNewlines (by decide)] at member
      exact literalContent_noCR (settled f its).noCR member
    have same := scanned_eq noCR
    have own := settled f its
    have allPrinted : ∀ c ∈ f.scanned.content, printable c = true :=
      printed f.scanned (by rw [writeFiles_scanned]; exact List.mem_map_of_mem its)
    rw [same] at own content allPrinted
    exact ⟨own, allPrinted, (literalContent_iff own.untabbed).mp content⟩

/-- The user data is read back if all contents can stand in their literal scalars and all lines
fit into the scanner, and for settled contents only then. -/
theorem newInitControlPlane_roundTrips (documented : Documented lib.yaml) (prints : GoPrints isPrint)
    (valid : ∀ f ∈ input.writeFiles, f.Valid lib.yaml.resolve) :
    ((∀ f ∈ input.writeFiles, f.Kept) ∧ input.Fits isPrint → RoundTrips lib isPrint input) ∧
      ((∀ f ∈ input.writeFiles, f.scanned.Settled) → RoundTrips lib isPrint input →
        (∀ f ∈ input.writeFiles, f.Kept) ∧ input.Fits isPrint) :=
  ⟨fun ⟨kept, fits⟩ => roundTrips_of_kept documented prints valid kept fits,
    fun settled back => back.kept documented prints valid settled⟩

end Actions

/-! ### A decoder -/

/-- A schema with one word that is not a string. -/
def schema (t : Chars) : Value := if t = "true".toList then .bool true else .str t

theorem schema_str {t : Chars} (other : t ≠ "true".toList) : schema t = .str t := if_neg other

/-- The decoder that reads what is described here, and nothing else. -/
def described : Libraries where
  yaml := { read := fun t => (readDocument schema true t).toOption, resolve := schema }
  strings := fun _ => none

theorem described_documented : Documented described.yaml where
  follows t := by
    refine ⟨true, ?_⟩
    cases read : readDocument described.yaml.resolve true t with
    | ok v => exact congrArg Except.toOption read
    | error stop =>
      cases stop with
      | refused => exact congrArg Except.toOption read
      | outside => trivial
  bool := (if_pos rfl : schema "true".toList = .bool true)
  slash t slash := schema_str fun same => by
    rw [same] at slash
    exact absurd slash (by decide)
  owner := @schema_str "root:root".toList (by decide)

def ascii (c : Char) : Bool := decide (32 ≤ c.toNat ∧ c.toNat < 127)

theorem ascii_prints : GoPrints ascii := fun _ printed =>
  visible_ascii (of_decide_eq_true printed).1 (of_decide_eq_true printed).2

theorem valid_of_path {path content : Chars} (allVisible : ∀ c ∈ path, visible c = true) (isPlain : plain path = true)
    (slash : '/' ∈ path) : File.Valid described.yaml.resolve { path := path, content := content } where
  visible c member := allVisible c (by simpa using member)
  path := ⟨isPlain, described_documented.slash path slash⟩
  encoding := ⟨List.not_mem_nil, List.not_mem_nil⟩
  owner some_ := absurd rfl some_
  permissions := List.not_mem_nil

theorem settled_of_any {f : File} (none : f.content.any ambiguous = false)
    (untabbed : tabbed (lines f.content) = false) : f.Settled :=
  ⟨fun c member => Bool.eq_false_iff.mpr (List.any_eq_false.mp none c member), untabbed⟩

/-- A server with the content in its configuration file. -/
def configured (content : Chars) : ControlPlaneInput where
  configFile := { path := "/etc/rancher/k3s/config.yaml".toList, content := content }
  preK3sCommands := ["echo \"k3s\"".toList]

theorem configured_valid (content : Chars) :
    ∀ f ∈ (configured content).writeFiles, f.Valid described.yaml.resolve := by
  intro f member
  rw [List.mem_singleton.mp member]
  exact valid_of_path (List.all_eq_true.mp (by decide)) (by decide) (by decide)

/-- A content may begin with an empty line and have lines that look like keys. -/
theorem configured_roundTrips : RoundTrips described ascii (configured "\nruncmd:\n  - a\n".toList) := by
  refine (newInitControlPlane_roundTrips described_documented ascii_prints (configured_valid _)).1 ⟨?_, ?_, ?_⟩
  · intro f member
    rw [List.mem_singleton.mp member]
    exact ⟨settled_of_any (by decide) (by decide), List.all_eq_true.mp (by decide), by decide⟩
  · intro f member
    rw [List.mem_singleton.mp member]
    exact ⟨by decide, by decide, by decide, by decide, by decide⟩
  · decide

/-- A content that begins with a space is not read back. -/
theorem configured_spaced : Documented described.yaml ∧ GoPrints ascii ∧
    (∀ f ∈ (configured " a\nb\n".toList).writeFiles, f.Valid described.yaml.resolve) ∧
      ¬ RoundTrips described ascii (configured " a\nb\n".toList) := by
  have settled : ∀ f ∈ (configured " a\nb\n".toList).writeFiles, f.scanned.Settled := by
    intro f member
    rw [List.mem_singleton.mp member]
    exact settled_of_any (by decide) (by decide)
  refine ⟨described_documented, ascii_prints, configured_valid _, fun back => ?_⟩
  obtain ⟨kept, -⟩ := back.kept described_documented ascii_prints (configured_valid _) settled
  exact (kept _ List.mem_cons_self).flush (by decide)

end KubeKey.CloudInit
