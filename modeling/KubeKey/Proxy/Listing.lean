import KubeKey.Proxy.FileStorage

/-!
# What a listing finds

The three loops of `GetList` take the matching objects in the order of the directories and
stop at the limit, so on a store whose files can all be read they return a prefix of one
list, `matching`. `Count` is the length of that list for the predicate that everything
matches. `WellStored` is what the operations of the storage keep.
-/

namespace KubeKey.Proxy

open KubeKey.Go

/-- A name with a suffix is another name, and then the suffix. -/
theorem hasSuffix_iff {s suffix : String} : hasSuffix s suffix = true ↔ ∃ name, s = name ++ suffix := by
  unfold hasSuffix
  rw [List.isSuffixOf_iff_suffix]
  constructor
  · rintro ⟨front, split⟩
    refine ⟨String.ofList front, String.toList_injective ?_⟩
    rw [String.toList_append, String.toList_ofList, split]
  · rintro ⟨name, rfl⟩
    exact ⟨name.toList, String.toList_append.symm⟩

/-- The directory of a path says nothing about a suffix of its file. -/
theorem hasSuffix_join {dir name suffix : String} (plain : '/' ∉ suffix.toList) :
    hasSuffix (FileStorage.join dir name) suffix = hasSuffix name suffix := by
  have path : (FileStorage.join dir name).toList = dir.toList ++ '/' :: name.toList := by
    simp [FileStorage.join, String.toList_append]
  rw [Bool.eq_iff_iff]
  unfold hasSuffix
  rw [List.isSuffixOf_iff_suffix, List.isSuffixOf_iff_suffix, path]
  constructor
  · intro ends
    rcases List.suffix_or_suffix_of_suffix ends (List.suffix_append dir.toList ('/' :: name.toList)) with inside | beyond
    · rcases List.suffix_cons_iff.mp inside with whole | inside
      · exact absurd (whole ▸ List.mem_cons_self) plain
      · exact inside
    · exact absurd (beyond.subset List.mem_cons_self) plain
  · intro ends
    exact ends.trans ((List.suffix_cons '/' name.toList).trans (List.suffix_append dir.toList _))

theorem slash_notMem_yamlSuffix : '/' ∉ yamlSuffix.toList := by decide

theorem hasSuffix_file (k : Key) : hasSuffix k.file yamlSuffix = true := hasSuffix_iff.mpr ⟨k.name, rfl⟩

/-- A key can be told from its namespace and its file. -/
theorem Key.eq_of_file {k k' : Key} (sameNamespace : k.namespace_ = k'.namespace_) (sameFile : k.file = k'.file) :
    k = k' := by
  have sameName : k.name = k'.name := by
    have lists := congrArg String.toList sameFile
    simp only [Key.file, String.toList_append] at lists
    exact String.toList_injective (List.append_cancel_right lists)
  cases k
  cases k'
  simp_all

/-- What waits for the watcher is not listed. -/
theorem not_hasSuffix_deletedFile (k : Key) : hasSuffix k.deletedFile yamlSuffix = false := by
  by_contra ends
  obtain ⟨name, same⟩ := hasSuffix_iff.mp (Bool.eq_true_of_not_eq_false ends)
  have last := congrArg (fun s : String => s.toList.getLast?) same
  simp [Key.deletedFile, String.toList_append, yamlSuffix, deleteTagSuffix] at last

theorem Key.file_ne_deletedFile (k k' : Key) : k.file ≠ k'.deletedFile := by
  intro same
  have ends := hasSuffix_file k
  rw [same, not_hasSuffix_deletedFile] at ends
  cases ends

/-- The list up to the limit. -/
def cap {ι : Type} (limit : Nat) (items : List ι) : List ι := if limit = 0 then items else items.take limit

theorem cap_of_le {ι : Type} {limit : Nat} {items : List ι} (short : limit = 0 ∨ items.length ≤ limit) :
    cap limit items = items := by
  unfold cap
  split
  · rfl
  · next limited =>
    apply List.take_of_length_le
    omega

/-- Nothing is added to a full page. -/
theorem cap_append_of_full {ι : Type} {limit : Nat} {items : List ι} (full : limit ≤ (cap limit items).length)
    (limited : limit ≠ 0) (more : List ι) : cap limit (items ++ more) = cap limit items := by
  unfold cap at full ⊢
  rw [if_neg limited] at full ⊢
  rw [if_neg limited]
  rw [List.length_take] at full
  exact List.take_append_of_le_length (by omega)

/-- A page that is not full has everything. -/
theorem cap_of_not_full {ι : Type} {limit : Nat} {items : List ι}
    (room : ¬ (limit ≠ 0 ∧ limit ≤ (cap limit items).length)) : cap limit items = items := by
  apply cap_of_le
  by_contra long
  apply room
  unfold cap
  rw [if_neg (by omega), List.length_take]
  omega

namespace FileStorage

variable {α β : Type} (s : FileStorage α β)

/-- The item of an entry, if the rule for the keys reads it and it matches. -/
def selected (keyRule : String → Bool) (matches_ : Object α → Bool) (ns : String) (e : String × Entry β) :
    Option (Item α) :=
  match e.2 with
  | .dir => none
  | .file data =>
    if keyRule (join (join s.dir ns) e.1) then
      ((s.codec.decode data).filter matches_).map fun obj => ⟨ns, e.1, obj⟩
    else none

/-- The items of a namespace. -/
def namespaceMatching (keyRule : String → Bool) (matches_ : Object α → Bool) (ns : String)
    (entries : GoMap (Entry β)) : List (Item α) :=
  entries.listing.filterMap (s.selected keyRule matches_ ns)

/-- The items below an entry of the directory of the resource. -/
def nodeMatching (keyRule : String → Bool) (matches_ : Object α → Bool) (e : String × Node β) : List (Item α) :=
  match e.2 with
  | .file => []
  | .dir entries => s.namespaceMatching keyRule matches_ e.1 entries

/-- The items of a namespace or of all, in the order of the directories. -/
def matching (keyRule : String → Bool) (matches_ : Object α → Bool) (fs : Go.Tree β) : Option String → List (Item α)
  | none => fs.nodes.listing.flatMap (s.nodeMatching keyRule matches_)
  | some ns =>
    match fs.sub ns with
    | none => []
    | some entries => s.namespaceMatching keyRule matches_ ns entries

/-- The file decodes to an object with a resource version. -/
def Readable (data : β) : Prop :=
  ∃ obj rv, s.codec.decode data = some obj ∧ s.versioner.parse obj.resourceVersion = some rv

/-- A part of `GetList` adds these items up to the limit, and leaves the flag as it was unless the limit is reached. -/
def Adds (opts : ListOptions α) (c : Collected α) (gain : List (Item α)) (result : Except Failure (Collected α)) :
    Prop :=
  ∃ c', result = .ok c' ∧ c'.items = cap opts.limit (c.items ++ gain) ∧
    (¬ reached opts c'.items → c'.hasMore = c.hasMore)

/-- A loop of `GetList` adds what its steps add. The three loops differ in the flag that they set at the limit. -/
theorem loop_adds {ε : Type} {opts : ListOptions α} {step : Collected α → ε → Except Failure (Collected α)}
    {loop : List ε → Collected α → Except Failure (Collected α)} {more : List ε → Bool} {gain : ε → List (Item α)}
    (loop_nil : ∀ c, loop [] c = .ok c)
    (loop_cons : ∀ e rest c, loop (e :: rest) c = step c e >>= fun c =>
      if reached opts c.items then .ok { c with hasMore := more rest } else loop rest c)
    {l : List ε} (adds : ∀ e ∈ l, ∀ c, ¬ reached opts c.items → Adds opts c (gain e) (step c e))
    {c : Collected α} (room : ¬ reached opts c.items) : Adds opts c (l.flatMap gain) (loop l c) := by
  induction l generalizing c with
  | nil =>
    refine ⟨c, loop_nil c, ?_, fun _ => rfl⟩
    rw [List.flatMap_nil, List.append_nil, cap_of_le]
    unfold reached at room
    omega
  | cons e rest ih =>
    obtain ⟨c₁, stepped, items, flag⟩ := adds e List.mem_cons_self c room
    rw [loop_cons, stepped, List.flatMap_cons]
    unfold Adds
    rw [← List.append_assoc]
    by_cases full : reached opts c₁.items
    · refine ⟨{ c₁ with hasMore := more rest }, if_pos full, ?_, fun room => absurd full room⟩
      obtain ⟨limited, long⟩ := full
      rw [items] at long
      rw [cap_append_of_full long limited, ← items]
    · have all : c₁.items = c.items ++ gain e := by
        unfold reached at full
        rw [items] at full
        rw [items, cap_of_not_full full]
      obtain ⟨c₂, looped, items₂, flag₂⟩ := ih (fun e inside => adds e (List.mem_cons_of_mem _ inside)) full
      rw [all] at items₂
      exact ⟨c₂, (if_neg full).trans looped, items₂, fun room => (flag₂ room).trans (flag full)⟩

variable {s} {keyRule : String → Bool} {opts : ListOptions α}

/-- One file adds at most one item. -/
theorem processResourceFile_adds {ns : String} {e : String × Entry β}
    (readable : ∀ data, e.2 = .file data → keyRule (join (join s.dir ns) e.1) = true → s.Readable data)
    {c : Collected α} (room : ¬ reached opts c.items) :
    Adds opts c (s.selected keyRule opts.matches_ ns e).toList
      (s.processResourceFile opts (fun _ => true, keyRule) ns c e) := by
  have short : ∀ item : Option (Item α), cap opts.limit (c.items ++ item.toList) = c.items ++ item.toList := by
    intro item
    apply cap_of_le
    unfold reached at room
    cases item <;> simp <;> omega
  unfold Adds
  rw [short]
  obtain ⟨file, entry⟩ := e
  unfold processResourceFile selected
  cases entry with
  | dir => exact ⟨c, rfl, by simp, fun _ => rfl⟩
  | file data =>
    by_cases read : keyRule (join (join s.dir ns) file) = true
    · obtain ⟨obj, rv, decoded, parsed⟩ := readable data rfl read
      by_cases fits : opts.matches_ obj = true
      · simp [read, decoded, parsed, fits, Option.filter_some]
      · simp [read, decoded, parsed, fits, Option.filter_some]
    · simp [read]

/-- The files of a namespace that the rule for the keys reads can be read. -/
def ReadableNamespace (s : FileStorage α β) (keyRule : String → Bool) (ns : String) (entries : GoMap (Entry β)) :
    Prop :=
  ∀ file data, entries.get? file = some (.file data) → keyRule (join (join s.dir ns) file) = true → s.Readable data

theorem ReadableNamespace.adds {ns : String} {entries : GoMap (Entry β)}
    (readable : s.ReadableNamespace keyRule ns entries) :
    ∀ e ∈ entries.listing, ∀ c : Collected α, ¬ reached opts c.items →
      Adds opts c (s.selected keyRule opts.matches_ ns e).toList
        (s.processResourceFile opts (fun _ => true, keyRule) ns c e) := by
  intro e inside c room
  refine processResourceFile_adds (fun data file read => ?_) room
  obtain ⟨name, entry⟩ := e
  cases file
  exact readable name data (GoMap.mem_listing.mp inside) read

theorem collectFiles_adds {ns : String} {entries : GoMap (Entry β)}
    (readable : s.ReadableNamespace keyRule ns entries) {c : Collected α} (room : ¬ reached opts c.items) :
    Adds opts c (s.namespaceMatching keyRule opts.matches_ ns entries)
      (s.collectFiles opts (fun _ => true, keyRule) ns entries.listing c) := by
  rw [namespaceMatching, List.filterMap_eq_flatMap_toList]
  exact loop_adds (fun _ => rfl) (fun _ _ _ => rfl) readable.adds room

theorem processNamespaceDirectory_adds {e : String × Node β}
    (readable : ∀ entries, e.2 = .dir entries → s.ReadableNamespace keyRule e.1 entries)
    {c : Collected α} (room : ¬ reached opts c.items) :
    Adds opts c (s.nodeMatching keyRule opts.matches_ e)
      (s.processNamespaceDirectory opts (fun _ => true, keyRule) c e) := by
  obtain ⟨ns, node⟩ := e
  cases node with
  | file =>
    refine ⟨c, rfl, ?_, fun _ => rfl⟩
    rw [nodeMatching, List.append_nil, cap_of_le]
    unfold reached at room
    omega
  | dir entries =>
    simp only [nodeMatching, namespaceMatching, processNamespaceDirectory, List.filterMap_eq_flatMap_toList]
    exact loop_adds (fun _ => rfl) (fun _ _ _ => rfl) (readable entries rfl).adds room

theorem collectNamespaces_adds {fs : Go.Tree β}
    (readable : ∀ ns entries, fs.sub ns = some entries → s.ReadableNamespace keyRule ns entries)
    {c : Collected α} (room : ¬ reached opts c.items) :
    Adds opts c (s.matching keyRule opts.matches_ fs none)
      (s.collectNamespaces opts (fun _ => true, keyRule) fs.nodes.listing c) := by
  refine loop_adds (fun _ => rfl) (fun _ _ _ => rfl) (fun e inside c room => ?_) room
  refine processNamespaceDirectory_adds (fun entries dir => ?_) room
  obtain ⟨ns, node⟩ := e
  cases dir
  apply readable
  simp [Go.Tree.sub, GoMap.mem_listing.mp inside]

/-- The rule for the keys without a continue token. -/
def yamlRule (key : String) : Bool := hasSuffix key yamlSuffix

theorem yamlRule_join (dir file : String) : yamlRule (join dir file) = hasSuffix file yamlSuffix :=
  hasSuffix_join slash_notMem_yamlSuffix

/-- What the operations keep: directories with files, and every file of an object can be read. -/
structure WellStored (s : FileStorage α β) (fs : Go.Tree β) : Prop where
  plain : fs.Plain
  readable : ∀ ns file data, fs.readFile ns file = some data → hasSuffix file yamlSuffix = true → s.Readable data

namespace WellStored

variable {fs : Go.Tree β}

theorem empty : s.WellStored Go.Tree.empty where
  plain := Go.Tree.plain_empty
  readable ns file data read := by simp [Go.Tree.readFile, Go.Tree.sub, Go.Tree.empty] at read

theorem mkdir (stored : s.WellStored fs) (ns : String) : s.WellStored (fs.mkdir ns) where
  plain := (stored.plain.mkdir ns).1
  readable ns' file data read ends := by
    rw [Go.Tree.readFile_mkdir] at read
    exact stored.readable ns' file data read ends

theorem namespace_ (stored : s.WellStored fs) (ns : String) (entries : GoMap (Entry β))
    (found : fs.sub ns = some entries) : s.ReadableNamespace yamlRule ns entries := by
  intro file data inside read
  rw [yamlRule_join] at read
  exact stored.readable ns file data (Go.Tree.readFile_eq_some.mpr ⟨entries, found, inside⟩) read

end WellStored

theorem matching_mkdir {fs : Go.Tree β} (plain : fs.Plain) (matches_ : Object α → Bool) (ns : String) :
    s.matching keyRule matches_ (fs.mkdir ns) (some ns) = s.matching keyRule matches_ fs (some ns) := by
  cases found : fs.sub ns with
  | none => simp [matching, Go.Tree.sub_mkdir, found, plain.get?_eq_none found, namespaceMatching, GoMap.listing]
  | some entries =>
    have exists_ : fs.nodes.get? ns ≠ none := by
      intro missing
      simp [Go.Tree.sub, missing] at found
    simp [matching, Go.Tree.sub_mkdir, exists_]

/-- The tree after a listing: the directory of a namespace exists. -/
def listed (fs : Go.Tree β) : Option String → Go.Tree β
  | none => fs
  | some ns => fs.mkdir ns

theorem WellStored.listed {fs : Go.Tree β} (stored : s.WellStored fs) (ns : Option String) :
    s.WellStored (listed fs ns) := by
  cases ns with
  | none => exact stored
  | some n => exact stored.mkdir n

/-- `GetList` returns the matching items up to the limit. -/
theorem getList_eq {fs : Go.Tree β} {ns : Option String}
    (rules : s.buildMatchRules (s.listKey ns) opts = .ok (fun _ => true, keyRule)) (plain : fs.Plain)
    (readable : ∀ ns entries, fs.sub ns = some entries → s.ReadableNamespace keyRule ns entries) :
    ∃ c, s.getList fs ns opts = (s.handleResult c, listed fs ns) ∧
      c.items = cap opts.limit (s.matching keyRule opts.matches_ fs ns) ∧
      (¬ reached opts c.items → c.hasMore = false) := by
  have room : ¬ reached opts (⟨[], "", false⟩ : Collected α).items := by
    rintro ⟨limited, long⟩
    exact limited (Nat.le_zero.mp long)
  cases ns with
  | none =>
    obtain ⟨c, collected, items, flag⟩ := collectNamespaces_adds readable room
    refine ⟨c, ?_, items, flag⟩
    simp only [getList, rules, collected]
    rfl
  | some ns =>
    obtain ⟨entries, found⟩ := Option.isSome_iff_exists.mp (plain.mkdir ns).2
    have readable' : s.ReadableNamespace keyRule ns entries := by
      rw [Go.Tree.sub_mkdir] at found
      split at found
      · cases found
        intro file data inside
        simp at inside
      · exact readable ns entries found
    obtain ⟨c, collected, items, flag⟩ := collectFiles_adds readable' room
    refine ⟨c, ?_, ?_, flag⟩
    · simp only [getList, rules, found, collected]
      rfl
    · rw [items, ← matching_mkdir plain]
      simp [matching, found]

/-- The items of one namespace are its files with the suffix that decode and match. -/
theorem mem_namespaceMatching {matches_ : Object α → Bool} {ns : String} {entries : GoMap (Entry β)} {item : Item α} :
    item ∈ s.namespaceMatching yamlRule matches_ ns entries ↔
      item.namespace_ = ns ∧ hasSuffix item.file yamlSuffix = true ∧ matches_ item.obj = true ∧
        ∃ data, entries.get? item.file = some (.file data) ∧ s.codec.decode data = some item.obj := by
  unfold namespaceMatching
  rw [List.mem_filterMap]
  constructor
  · rintro ⟨⟨file, entry⟩, inside, select⟩
    cases entry with
    | dir => cases select
    | file data =>
      simp only [selected, yamlRule_join] at select
      split at select
      · next ends =>
        obtain ⟨obj, found, rfl⟩ := Option.map_eq_some_iff.mp select
        obtain ⟨decoded, fits⟩ := Option.filter_eq_some_iff.mp found
        exact ⟨rfl, ends, fits, data, GoMap.mem_listing.mp inside, decoded⟩
      · cases select
  · rintro ⟨rfl, ends, fits, data, found, decoded⟩
    refine ⟨(item.file, .file data), GoMap.mem_listing.mpr found, ?_⟩
    unfold selected
    simp only [yamlRule_join, ends, if_true, decoded, Option.filter_some, fits, Option.map_some]

/-- The items are the files with the suffix that decode and match. -/
theorem mem_matching {matches_ : Object α → Bool} {fs : Go.Tree β} {ns : Option String} {item : Item α} :
    item ∈ s.matching yamlRule matches_ fs ns ↔
      (∀ n, ns = some n → item.namespace_ = n) ∧ hasSuffix item.file yamlSuffix = true ∧ matches_ item.obj = true ∧
        ∃ data, fs.readFile item.namespace_ item.file = some data ∧ s.codec.decode data = some item.obj := by
  cases ns with
  | none =>
    unfold matching
    rw [List.mem_flatMap]
    constructor
    · rintro ⟨⟨ns, node⟩, inside, below⟩
      cases node with
      | file => simp [nodeMatching] at below
      | dir entries =>
        obtain ⟨rfl, ends, fits, data, found, decoded⟩ := mem_namespaceMatching.mp below
        have sub : fs.sub item.namespace_ = some entries := by simp [Go.Tree.sub, GoMap.mem_listing.mp inside]
        exact ⟨by simp, ends, fits, data, Go.Tree.readFile_eq_some.mpr ⟨entries, sub, found⟩, decoded⟩
    · rintro ⟨-, ends, fits, data, read, decoded⟩
      obtain ⟨entries, sub, found⟩ := Go.Tree.readFile_eq_some.mp read
      refine ⟨(item.namespace_, .dir entries), GoMap.mem_listing.mpr (Go.Tree.get?_of_sub sub), ?_⟩
      exact mem_namespaceMatching.mpr ⟨rfl, ends, fits, data, found, decoded⟩
  | some n =>
    simp only [matching]
    constructor
    · intro inside
      split at inside
      · cases inside
      · next entries sub =>
        obtain ⟨rfl, ends, fits, data, found, decoded⟩ := mem_namespaceMatching.mp inside
        refine ⟨fun n same => ?_, ends, fits, data, Go.Tree.readFile_eq_some.mpr ⟨entries, sub, found⟩, decoded⟩
        cases same
        rfl
    · rintro ⟨here, ends, fits, data, read, decoded⟩
      cases here n rfl
      obtain ⟨entries, sub, found⟩ := Go.Tree.readFile_eq_some.mp read
      rw [sub]
      exact mem_namespaceMatching.mpr ⟨rfl, ends, fits, data, found, decoded⟩

theorem selected_fields {matches_ : Object α → Bool} {ns : String} {e : String × Entry β} {item : Item α}
    (select : s.selected keyRule matches_ ns e = some item) : item.namespace_ = ns ∧ item.file = e.1 := by
  unfold selected at select
  split at select
  · cases select
  · split at select
    · obtain ⟨obj, -, rfl⟩ := Option.map_eq_some_iff.mp select
      exact ⟨rfl, rfl⟩
    · cases select

theorem namespace_of_mem_nodeMatching {matches_ : Object α → Bool} {e : String × Node β} {item : Item α}
    (below : item ∈ s.nodeMatching keyRule matches_ e) : item.namespace_ = e.1 := by
  unfold nodeMatching at below
  split at below
  · cases below
  · obtain ⟨_, -, select⟩ := List.mem_filterMap.mp below
    exact (selected_fields select).1

theorem nodup_namespaceMatching (matches_ : Object α → Bool) (ns : String) (entries : GoMap (Entry β)) :
    (s.namespaceMatching keyRule matches_ ns entries).Nodup := by
  have names : entries.listing.Pairwise fun e e' => e.1 ≠ e'.1 := List.pairwise_map.mp entries.nodup_listing
  refine List.Pairwise.filterMap _ (fun e e' other item select item' select' same => ?_) names
  rw [← (selected_fields select).2, ← (selected_fields select').2, same] at other
  exact other rfl

/-- No item is listed twice. -/
theorem nodup_matching (matches_ : Object α → Bool) (fs : Go.Tree β) (ns : Option String) :
    (s.matching keyRule matches_ fs ns).Nodup := by
  unfold matching
  split
  · rw [List.nodup_flatMap]
    constructor
    · rintro ⟨ns, node⟩ -
      unfold nodeMatching
      split
      · exact List.nodup_nil
      · exact nodup_namespaceMatching _ _ _
    · have names : fs.nodes.listing.Pairwise fun e e' => e.1 ≠ e'.1 := List.pairwise_map.mp fs.nodes.nodup_listing
      refine names.imp fun {e e'} other item below below' => other ?_
      rw [← namespace_of_mem_nodeMatching below, ← namespace_of_mem_nodeMatching below']
  · split
    · exact List.nodup_nil
    · exact nodup_namespaceMatching _ _ _

theorem countByNSDir_eq {fs : Go.Tree β} (stored : s.WellStored fs) {ns : String} {entries : GoMap (Entry β)}
    (found : fs.sub ns = some entries) :
    countByNSDir fs ns = .ok (s.namespaceMatching yamlRule (fun _ => true) ns entries).length := by
  simp only [countByNSDir, found, namespaceMatching, List.length_filterMap_eq_countP]
  refine congrArg Except.ok (List.countP_congr ?_)
  rintro ⟨file, entry⟩ inside
  cases entry with
  | dir => simp [selected]
  | file data =>
    simp only [selected, yamlRule_join]
    by_cases ends : hasSuffix file yamlSuffix = true
    · have read := Go.Tree.readFile_eq_some.mpr ⟨entries, found, GoMap.mem_listing.mp inside⟩
      obtain ⟨obj, rv, decoded, -⟩ := stored.readable ns file data read ends
      simp [ends, decoded, Option.filter_some]
    · simp [ends]

/-- The loop of `Count` over the namespaces. -/
theorem count_loop {fs : Go.Tree β} (stored : s.WellStored fs) {l : List (String × Node β)}
    (inside : ∀ e ∈ l, e ∈ fs.nodes.listing) (n : Nat) :
    l.foldlM (fun n e =>
      match e.2 with
      | .file => .ok n
      | .dir _ => (countByNSDir fs e.1).map (n + ·)) n =
      (.ok (n + (l.flatMap (s.nodeMatching yamlRule fun _ => true)).length) : Except Failure Nat) := by
  induction l generalizing n with
  | nil => rfl
  | cons e rest ih =>
    obtain ⟨ns, node⟩ := e
    have later := ih fun e member => inside e (List.mem_cons_of_mem _ member)
    rw [List.foldlM_cons, List.flatMap_cons, List.length_append]
    cases node with
    | file =>
      simp only [nodeMatching, List.length_nil, Nat.zero_add]
      exact later n
    | dir entries =>
      have sub : fs.sub ns = some entries := by
        simp [Go.Tree.sub, GoMap.mem_listing.mp (inside _ List.mem_cons_self)]
      simp only [countByNSDir_eq stored sub, nodeMatching, ← Nat.add_assoc]
      exact later _

/-- `Count` counts what `GetList` lists. -/
theorem count_eq {fs : Go.Tree β} (stored : s.WellStored fs) {ns : Option String}
    (exists_ : ∀ n, ns = some n → (fs.sub n).isSome) :
    count fs ns = .ok (s.matching yamlRule (fun _ => true) fs ns).length := by
  cases ns with
  | none =>
    have counted := count_loop stored (fun _ inside => inside) 0
    rw [Nat.zero_add] at counted
    exact counted
  | some n =>
    obtain ⟨entries, found⟩ := Option.isSome_iff_exists.mp (exists_ n rfl)
    simp only [count, countByNSDir_eq stored found, matching, found]

end FileStorage

end KubeKey.Proxy
