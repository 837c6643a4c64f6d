import KubeKey.CloudInit.UserData
import KubeKey.CloudInit.Actions

/-!
# Reading the items back

What a decoder that follows the specification reads in the lines of one file or command. The
attributes of a file are read back when they can stand in their places as they are; its
content is what the literal scalar gives.
-/

namespace KubeKey.CloudInit

open KubeKey.Text

/-- A character that lines of every kind may have. -/
def visible (c : Char) : Bool := decide (32 ≤ c.toNat) && printable c && !ambiguous c

/-- A visible character that stands for itself in double quotes. -/
def bare (c : Char) : Bool := visible c && c != '"' && c != '\\'

theorem bare_iff (c : Char) : bare c = true ↔ visible c = true ∧ c ≠ '"' ∧ c ≠ '\\' := by
  simp [bare, and_assoc]

/-- The attributes can stand in their places: the path and the owner are plain scalars that are
read as strings, and nothing ends the quotes around the encoding and the permissions. -/
structure File.Valid (resolve : Chars → Value) (f : File) : Prop where
  visible : ∀ c ∈ f.path ++ f.encoding ++ f.owner ++ f.permissions, visible c = true
  path : plain f.path = true ∧ resolve f.path = .str f.path
  encoding : '"' ∉ f.encoding ∧ '\\' ∉ f.encoding
  owner : f.owner ≠ [] → plain f.owner = true ∧ resolve f.owner = .str f.owner
  permissions : '\'' ∉ f.permissions

/-- The decoder follows the specification. Its schema reads `true` as a boolean, and what is no value of another type,
such as a scalar with a slash in it, as a string. -/
structure Documented (d : Decoder) : Prop where
  follows : d.Follows
  bool : d.resolve "true".toList = .bool true
  slash : ∀ t, '/' ∈ t → d.resolve t = .str t
  owner : d.resolve "root:root".toList = .str "root:root".toList

/-- The values of the attributes. -/
def attributeValues (f : File) : List (Chars × Value) :=
  (if f.encoding ≠ [] then [("encoding".toList, .str f.encoding)] else []) ++
    (if f.owner ≠ [] then [("owner".toList, .str f.owner)] else []) ++
    (if f.permissions ≠ [] then [("permissions".toList, .str f.permissions)] else []) ++
    (if f.append then [("append".toList, .bool true)] else [])

/-- The value of a file whose content is read as `v`. -/
def fileValue (f : File) (v : Value) : Value :=
  .map (("path".toList, .str f.path) :: (attributeValues f ++ [("content".toList, v)]))

/-- The file that is decoded from it. -/
def decoded (f : File) (content : Chars) : Files where
  path := f.path
  encoding := f.encoding
  owner := f.owner
  permissions := f.permissions
  content := content
  append := f.append

/-- A field that may be left out, when leaving it out makes no difference. -/
theorem setAll_optional (c : Prop) [Decidable c] (key : Chars) (v : Value) (g g' : Files)
    (here : c → g.set key v = some g') (absent : ¬ c → g = g') :
    g.setAll (if c then [(key, v)] else []) = some g' := by
  split
  · next present =>
    rw [Files.setAll, List.foldlM_cons, here present]
    rfl
  · next missing =>
    rw [absent missing]
    rfl

theorem setAll_attributeValues (f : File) :
    ({ path := f.path } : Files).setAll (attributeValues f) = some (decoded f []) := by
  have encoding := setAll_optional (f.encoding ≠ []) "encoding".toList (.str f.encoding) { path := f.path }
    { path := f.path, encoding := f.encoding } (fun _ => rfl) fun none => by rw [not_not.mp none]
  have owner := setAll_optional (f.owner ≠ []) "owner".toList (.str f.owner)
    { path := f.path, encoding := f.encoding } { path := f.path, encoding := f.encoding, owner := f.owner }
    (fun _ => rfl) fun none => by rw [not_not.mp none]
  have permissions := setAll_optional (f.permissions ≠ []) "permissions".toList (.str f.permissions)
    { path := f.path, encoding := f.encoding, owner := f.owner } (decoded { f with append := false } [])
    (fun _ => rfl) fun none => by rw [decoded, not_not.mp none]
  have append := setAll_optional (f.append = true) "append".toList (.bool true)
    (decoded { f with append := false } []) (decoded f []) (fun here => by rw [decoded, decoded, here]; rfl)
    fun none => by rw [decoded, decoded, Bool.eq_false_iff.mpr none]
  rw [attributeValues, setAll_append, setAll_append, setAll_append, encoding, Option.bind_some, owner,
    Option.bind_some, permissions, Option.bind_some, append]

theorem decodeFiles_fileValue (f : File) (t : Chars) : decodeFiles (fileValue f (.str t)) = some (decoded f t) := by
  have first : ({} : Files).setAll (("path".toList, .str f.path) ::
      (attributeValues f ++ [("content".toList, .str t)])) =
        ({ path := f.path } : Files).setAll (attributeValues f ++ [("content".toList, .str t)]) := rfl
  have content : (decoded f []).setAll [("content".toList, .str t)] = some (decoded f t) := rfl
  rw [fileValue, decodeFiles, first, setAll_append, setAll_attributeValues, Option.bind_some, content]

theorem flatten_singletons {α : Type} (line : α → Chars) (xs : List α) :
    (xs.map fun x => [line x]).flatten = xs.map line := by
  induction xs with
  | nil => rfl
  | cons x xs ih => rw [List.map_cons, List.flatten_cons, ih, List.map_cons, List.singleton_append]

/-! ### Files -/

section Reading

variable {d : Decoder} {f : File} (lenient : Bool)

theorem isGroup_field {key : Chars} (word : isKey key = true) (value : Chars) :
    IsGroup (atLevel 4) 4 [indent 4 (field key value)] := by
  refine ⟨_, [], rfl, ?_, fun l member => by cases member⟩
  cases key with
  | nil => cases word
  | cons c key =>
    simp only [isKey, Bool.and_eq_true, List.all_eq_true] at word
    have letter := word.1.2 c List.mem_cons_self
    refine atLevel_indent 4 (fun same => ?_) _
    rw [same] at letter
    exact absurd letter (by decide)

theorem isGroup_content (content : Chars) : IsGroup (atLevel 4) 4 (contentLines content) := by
  refine ⟨_, _, rfl, rfl, fun l member => ?_⟩
  obtain ⟨l', -, rfl⟩ := List.mem_map.mp member
  exact ⟨atLevel_deeper (by decide) l', deeper_indent (by decide) l'⟩

theorem attributes_isKey (f : File) : ∀ p ∈ attributes f, isKey p.1 = true := by
  have names : ∀ k ∈ ["encoding".toList, "owner".toList, "permissions".toList, "append".toList],
      isKey k = true := by decide
  intro p member
  refine names p.1 ?_
  rw [attributes] at member
  simp only [List.mem_append, List.mem_ite_nil_right, List.mem_singleton] at member
  rcases member with ((⟨-, rfl⟩ | ⟨-, rfl⟩) | ⟨-, rfl⟩) | ⟨-, rfl⟩ <;> simp

theorem attributeValues_nodup (f : File) (v : Value) :
    ((("path".toList, Value.str f.path) :: (attributeValues f ++ [("content".toList, v)])).map Prod.fst).Nodup := by
  have optional : ∀ (c : Prop) [Decidable c] (k : Chars) (w : Value),
      ((if c then [(k, w)] else []).map Prod.fst).Sublist [k] := by
    intro c _ k w
    split
    · exact List.Sublist.refl _
    · exact List.nil_sublist _
  have names : ["path".toList, "encoding".toList, "owner".toList, "permissions".toList, "append".toList,
      "content".toList].Nodup := by decide
  refine List.Nodup.sublist (.cons_cons _ ?_) names
  rw [List.map_append, attributeValues, List.map_append, List.map_append, List.map_append]
  exact ((((optional _ _ _).append (optional _ _ _)).append (optional _ _ _)).append (optional _ _ _)).append
    (List.Sublist.refl _)

/-- The attributes are read. -/
theorem readField_attributes (documented : Documented d) (valid : f.Valid d.resolve) :
    List.Forall₂ (fun g p => readField d.resolve lenient 4 true g = .ok p)
      ((attributes f).map fun p => [indent 4 (field p.1 p.2)]) (attributeValues f) := by
  have optional : ∀ (c : Prop) [Decidable c] (k value : Chars) (v : Value), isKey k = true →
      (c → value ≠ ['|'] ∧ readScalar d.resolve value = .ok v) →
      List.Forall₂ (fun g p => readField d.resolve lenient 4 true g = .ok p)
        ((if c then [(k, value)] else []).map fun p => [indent 4 (field p.1 p.2)]) (if c then [(k, v)] else []) := by
    intro c _ k value v word read
    split
    · next here =>
      refine .cons ?_ .nil
      obtain ⟨flat, scalar⟩ := read here
      exact (readField_scalar _ _ word flat 4 true).trans (by rw [scalar]; rfl)
    · exact .nil
  have flat : ∀ {v : Chars}, plain v = true → v ≠ ['|'] := by
    rintro _ isPlain rfl
    exact absurd isPlain (by decide)
  have encoding := optional (f.encoding ≠ []) "encoding".toList (quoted '"' f.encoding) (.str f.encoding) rfl
    fun _ => ⟨by simp [quoted], readScalar_quoted _ valid.encoding.1 valid.encoding.2⟩
  have owner := optional (f.owner ≠ []) "owner".toList f.owner (.str f.owner) rfl fun some_ =>
    ⟨flat (valid.owner some_).1, by rw [readScalar_plain _ (valid.owner some_).1, (valid.owner some_).2]⟩
  have permissions := optional (f.permissions ≠ []) "permissions".toList (quoted '\'' f.permissions)
    (.str f.permissions) rfl fun _ => ⟨by simp [quoted], readScalar_single _ valid.permissions⟩
  have append := optional (f.append = true) "append".toList "true".toList (.bool true) rfl fun _ =>
    ⟨by decide, by rw [readScalar_plain _ (by decide), documented.bool]⟩
  rw [attributes, List.map_append, List.map_append, List.map_append, attributeValues]
  exact List.rel_append (List.rel_append (List.rel_append encoding owner) permissions) append

/-- An item of `write_files` has the attributes of its file, whatever its content is. -/
theorem readItem_itemLines (documented : Documented d) (valid : f.Valid d.resolve) {last : List Chars}
    {terminated : Bool} {result : Except Stop Value} (group : IsGroup (atLevel 4) 4 last)
    (content : readField d.resolve lenient 4 terminated last = result.map fun v => ("content".toList, v)) :
    readItem d.resolve lenient 0 terminated (itemLines f.path (attributes f) last) = result.map (fileValue f) := by
  have path : readField d.resolve lenient 4 true [indent 4 (field "path".toList f.path)] =
      .ok ("path".toList, .str f.path) := by
    have flat : f.path ≠ ['|'] := by
      intro same
      have isPlain := valid.path.1
      rw [same] at isPlain
      exact absurd isPlain (by decide)
    refine (readField_scalar _ _ rfl flat 4 true).trans ?_
    rw [readScalar_plain _ valid.path.1, valid.path.2]
    rfl
  have groups_ : indent 4 (field "path".toList f.path) ::
      ((attributes f).map fun p => indent 4 (field p.1 p.2)) ++ last =
        (([indent 4 (field "path".toList f.path)] :: (attributes f).map fun p => [indent 4 (field p.1 p.2)]) ++
          [last]).flatten := by
    rw [List.flatten_append, List.flatten_cons, flatten_singletons, List.flatten_singleton]
    rfl
  have all : ∀ g ∈ ([indent 4 (field "path".toList f.path)] ::
      (attributes f).map fun p => [indent 4 (field p.1 p.2)]) ++ [last], IsGroup (atLevel 4) 4 g := by
    intro g member
    rcases List.mem_append.mp member with front | back
    · rcases List.mem_cons.mp front with rfl | front
      · exact isGroup_field rfl f.path
      · obtain ⟨p, its, rfl⟩ := List.mem_map.mp front
        exact isGroup_field (attributes_isKey f p its) p.2
    · rw [List.mem_singleton.mp back]
      exact group
  have letter : readItem d.resolve lenient 0 terminated (itemLines f.path (attributes f) last) =
      readMap d.resolve lenient 4 terminated
        (indent 4 (field "path".toList f.path) :: ((attributes f).map fun p => indent 4 (field p.1 p.2)) ++ last) :=
    readItem_map d.resolve lenient (c := 'p') (by decide) (by decide) 0 3 _ terminated _
  rw [letter, groups_, readMap_flatten _ _ _ (by simp) all,
    readEach_concat (.cons path (readField_attributes lenient documented valid)), content]
  cases result with
  | error e => rfl
  | ok v => exact if_pos (attributeValues_nodup f v)

/-- A file is read with the content that its literal scalar gives. -/
theorem readItem_fileLines (documented : Documented d) (valid : f.Valid d.resolve) :
    readItem d.resolve lenient 0 true (fileLines f) =
      (readLiteral lenient 4 ((lines f.content).map (indent 6))).map (fileValue f) :=
  readItem_itemLines lenient documented valid (isGroup_content f.content)
    (@readField_literal d.resolve lenient "content".toList rfl 4 _)

end Reading

/-- The placeholder as a file. -/
def placeholderFile : File where
  path := "/run/cluster-api/placeholder".toList
  owner := "root:root".toList
  permissions := "0640".toList
  content := placeholderContent

theorem placeholderContent_all : placeholderContent.all bare = true := by decide +kernel

theorem placeholderContent_plain : ∀ c ∈ placeholderContent, visible c = true ∧ c ≠ '"' ∧ c ≠ '\\' :=
  fun c member => (bare_iff c).mp (List.all_eq_true.mp placeholderContent_all c member)

theorem readItem_placeholderLines {d : Decoder} (documented : Documented d) (lenient : Bool) :
    readItem d.resolve lenient 0 false placeholderLines =
      .ok (fileValue placeholderFile (.str placeholderContent)) := by
  have valid : placeholderFile.Valid d.resolve :=
    { visible := List.all_eq_true.mp (by decide)
      path := ⟨by decide, documented.slash _ (by decide)⟩
      encoding := by decide
      owner := fun _ => ⟨by decide, documented.owner⟩
      permissions := by decide }
  have content : readField d.resolve lenient 4 false
      [indent 4 (field "content".toList (quoted '"' placeholderContent))] =
        (Except.ok (.str placeholderContent) : Except Stop Value).map fun v => ("content".toList, v) := by
    refine (readField_scalar _ _ rfl (by simp [quoted]) 4 false).trans ?_
    rw [quoted, readScalar_quoted _ (fun quote => (placeholderContent_plain _ quote).2.1 rfl)
      fun slash => (placeholderContent_plain _ slash).2.2 rfl]
  exact readItem_itemLines lenient documented valid (isGroup_field rfl _) content

theorem isGroup_itemLines (path : Chars) (fields : List (Chars × Chars)) {last : List Chars}
    (indented : ∀ l ∈ last, ∃ m l', 0 < m ∧ l = indent m l') :
    IsGroup (dash 0) 0 (itemLines path fields last) := by
  refine ⟨_, _, rfl, rfl, fun l member => ?_⟩
  obtain ⟨m, l', below, rfl⟩ : ∃ m l', 0 < m ∧ l = indent m l' := by
    rcases List.mem_append.mp member with front | back
    · obtain ⟨p, -, rfl⟩ := List.mem_map.mp front
      exact ⟨4, _, by decide, rfl⟩
    · exact indented l back
  exact ⟨dash_deeper below l', deeper_indent below l'⟩

theorem isGroup_fileLines (f : File) : IsGroup (dash 0) 0 (fileLines f) := by
  refine isGroup_itemLines _ _ fun l member => ?_
  rcases List.mem_cons.mp member with rfl | member
  · exact ⟨4, _, by decide, rfl⟩
  · obtain ⟨l', -, rfl⟩ := List.mem_map.mp member
    exact ⟨6, l', by decide, rfl⟩

theorem isGroup_placeholderLines : IsGroup (dash 0) 0 placeholderLines := by
  refine isGroup_itemLines _ _ fun l member => ?_
  rw [List.mem_singleton.mp member]
  exact ⟨4, _, by decide, rfl⟩

/-! ### Commands -/

/-- The lines of the commands, each of them an item. -/
def commandItems (isPrint : Char → Bool) (input : ControlPlaneInput) : List (List Chars) :=
  (input.preK3sCommands.map fun c => [commandLine isPrint c]) ++
    [installLine] :: input.postK3sCommands.map fun c => [commandLine isPrint c]

theorem commandItems_flatten (isPrint : Char → Bool) (input : ControlPlaneInput) :
    runCmdLines isPrint input = "runcmd:".toList :: (commandItems isPrint input).flatten := by
  rw [runCmdLines, commandItems, List.flatten_append, List.flatten_cons, flatten_singletons, flatten_singletons]
  rfl

theorem isGroup_command (t : Chars) : IsGroup (dash 2) 2 [indent 2 ('-' :: ' ' :: t)] :=
  ⟨_, [], rfl, by simp [dash, indent, List.replicate_succ], fun l member => by cases member⟩

theorem isGroup_commandItems (isPrint : Char → Bool) (input : ControlPlaneInput) :
    ∀ g ∈ commandItems isPrint input, IsGroup (dash 2) 2 g := by
  intro g member
  rcases List.mem_append.mp member with pre | rest
  · obtain ⟨c, -, rfl⟩ := List.mem_map.mp pre
    exact isGroup_command _
  rcases List.mem_cons.mp rest with rfl | post
  · exact isGroup_command _
  · obtain ⟨c, -, rfl⟩ := List.mem_map.mp post
    exact isGroup_command _

theorem installCommand_all : installCommand.all bare = true := by decide +kernel

theorem installCommand_plain : ∀ c ∈ installCommand, visible c = true ∧ c ≠ '"' ∧ c ≠ '\\' :=
  fun c member => (bare_iff c).mp (List.all_eq_true.mp installCommand_all c member)

/-- The commands are read back in their order. -/
theorem readItem_commandItems (d : Decoder) (lenient : Bool) (isPrint : Char → Bool) (input : ControlPlaneInput) :
    List.Forall₂ (fun g v => ∀ b, readItem d.resolve lenient 2 b g = .ok v) (commandItems isPrint input)
      (input.commands.map .str) := by
  have each : ∀ cs : List Chars, List.Forall₂ (fun g v => ∀ b, readItem d.resolve lenient 2 b g = .ok v)
      (cs.map fun c => [commandLine isPrint c]) (cs.map .str) := by
    intro cs
    induction cs with
    | nil => exact .nil
    | cons c cs ih =>
      exact .cons (fun b => readItem_quoted d.resolve lenient (readQuoted_quoted isPrint c) 2 b) ih
  have plain : ∀ c : Chars, (∀ x ∈ c, visible x = true ∧ x ≠ '"' ∧ x ≠ '\\') → ∀ b,
      readItem d.resolve lenient 2 b [indent 2 ('-' :: ' ' :: quoted '"' c)] = .ok (.str c) := fun c plain b =>
    readItem_quoted d.resolve lenient
      (readQuoted_plain (fun quote => (plain _ quote).2.1 rfl) fun slash => (plain _ slash).2.2 rfl) 2 b
  have install : ∀ b, readItem d.resolve lenient 2 b [installLine] = .ok (.str installCommand) :=
    plain installCommand installCommand_plain
  rw [commandItems, ControlPlaneInput.commands, List.map_append]
  exact List.rel_append (each _) (.cons install (each _))

end KubeKey.CloudInit
