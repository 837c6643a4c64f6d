import KubeKey.Go.Simulation
import KubeKey.Proxy.Listing

/-!
# The storage and a key-value store

`Store` is what `fileStorage` is for: an object or nothing for every key. `Store.Step` says
which replies such a store may give. `contents` reads the store off the files, and every
operation of the storage is a step of the store, with three exceptions: `Create` writes over
an object that exists, `GuaranteedUpdate` with a cached object writes an object that was
deleted, and `Count` fails on a namespace without a directory. The watcher that removes
deleted files is one more client here, and changes nothing.
-/

namespace KubeKey.Proxy

open KubeKey.Go FileStorage

/-- What a client calls, and what the watcher does. Lists are without limit and selector. -/
inductive Op (α : Type) where
  | create (k : Key) (obj : Object α)
  | update (k : Key) (opts : UpdateOptions α)
  | delete (k : Key) (opts : DeleteOptions α)
  | get (k : Key)
  | list (ns : Option String)
  | count (ns : Option String)
  | purge (k : Key)

inductive Reply (α : Type) where
  | object (result : Except Failure (Object α))
  | items (result : Except Failure (List (Item α)))
  | number (result : Except Failure Nat)
  | done

/-- A failure that is about what the operation was called with. -/
def Failure.callers : Failure → Prop
  | .encode | .precondition | .validation | .update | .version => True
  | _ => False

/-- The objects by their keys. -/
abbrev Store (α : Type) := Key → Option (Object α)

namespace Store

variable {α : Type}

/-- The items are the live keys of the namespace or of all, each once. -/
def Lists (A : Store α) (ns : Option String) (items : List (Item α)) : Prop :=
  items.Nodup ∧ ∀ item, item ∈ items ↔
    (∀ n, ns = some n → item.namespace_ = n) ∧
      ∃ name, item.file = name ++ yamlSuffix ∧ A ⟨item.namespace_, name⟩ = some item.obj

/-- What a key-value store may reply, and what it holds afterwards. -/
def Step (A : Store α) : Op α → Reply α → Store α → Prop
  | .create k obj, .object (.ok out), A' =>
    A k = none ∧ out.body = obj.body ∧ A' = Function.update A k (some out)
  | .create k _, .object (.error e), A' => (A k = none → e.callers) ∧ A' = A
  | .update k opts, .object (.ok out), A' =>
    A k ≠ none ∧ (∃ old version, (opts.cachedExistingObject = some old ∨ A k = some old) ∧
      opts.tryUpdate old version = some out) ∧ A' = Function.update A k (some out)
  | .update k _, .object (.error e), A' => (A k ≠ none → e.callers) ∧ A' = A
  | .delete k _, .object (.ok _), A' => A k ≠ none ∧ A' = Function.update A k none
  | .delete k _, .object (.error e), A' => (A k ≠ none → e.callers) ∧ A' = A
  | .get k, .object (.ok out), A' => A k = some out ∧ A' = A
  | .get k, .object (.error _), A' => A k = none ∧ A' = A
  | .list ns, .items (.ok items), A' => A.Lists ns items ∧ A' = A
  | .count ns, .number (.ok n), A' => (∃ items, A.Lists ns items ∧ n = items.length) ∧ A' = A
  | .purge _, .done, A' => A' = A
  | _, _, _ => False

end Store

namespace FileStorage

variable {α β : Type} (s : FileStorage α β)

/-- `GetList` without limit, selector and token. -/
def listAll : ListOptions α where
  recursive := true
  limit := 0
  token := ""
  resourceVersion := ""
  versionMatch := .legacy
  matches_ _ := true

/-- One operation on the files. -/
def exec (fs : Go.Tree β) : Op α → Reply α × Go.Tree β
  | .create k obj => (s.create fs k obj).map .object id
  | .update k opts => (s.guaranteedUpdate fs k opts).map .object id
  | .delete k opts => (s.delete fs k opts).map .object id
  | .get k => (.object (s.get fs k), fs)
  | .list ns => (s.getList fs ns listAll).map (fun result => .items (result.map Prod.fst)) id
  | .count ns => (.number (count fs ns), fs)
  | .purge k => (.done, fs.removeFile k.namespace_ k.deletedFile)

/-- The store that the files hold. -/
def contents (fs : Go.Tree β) : Store α := fun k => (fs.readFile k.namespace_ k.file).bind s.codec.decode

/-- `Create` on a key without an object, an update of a cached object only where there is one, and no `Count` of a
namespace that nobody wrote to or listed. What an update function returns has a resource version. -/
def Regular (fs : Go.Tree β) : Op α → Prop
  | .create k _ => fs.readFile k.namespace_ k.file = none
  | .update k opts =>
    (opts.cachedExistingObject ≠ none → fs.readFile k.namespace_ k.file ≠ none) ∧
      ∀ old version out, opts.tryUpdate old version = some out → (s.versioner.parse out.resourceVersion).isSome
  | .count (some ns) => (fs.sub ns).isSome
  | _ => True

variable {s} {fs fs' : Go.Tree β} {k : Key} {data : β} {out : Object α}

theorem contents_writeFile (written : fs.writeFile k.namespace_ k.file data = some fs')
    (decoded : s.codec.decode data = some out) :
    s.contents fs' = Function.update (s.contents fs) k (some out) := by
  funext k'
  unfold contents
  rw [Go.Tree.readFile_writeFile written]
  by_cases same : k' = k
  · subst same
    simp [decoded]
  · rw [Function.update_of_ne same, if_neg fun both => same (Key.eq_of_file both.1 both.2)]

theorem contents_mkdir (ns : String) : s.contents (fs.mkdir ns) = s.contents fs := by
  funext k
  unfold contents
  rw [Go.Tree.readFile_mkdir]

theorem contents_renameFile (renamed : fs.renameFile k.namespace_ k.file k.deletedFile = some fs') :
    s.contents fs' = Function.update (s.contents fs) k none := by
  obtain ⟨data, -, after⟩ := Go.Tree.readFile_renameFile renamed (Key.file_ne_deletedFile k k)
  funext k'
  unfold contents
  rw [after, if_neg fun both => Key.file_ne_deletedFile k' k both.2]
  by_cases same : k' = k
  · subst same
    simp
  · rw [Function.update_of_ne same, if_neg fun both => same (Key.eq_of_file both.1 both.2)]

theorem contents_removeFile (k : Key) :
    s.contents (fs.removeFile k.namespace_ k.deletedFile) = s.contents fs := by
  funext k'
  unfold contents
  rw [Go.Tree.readFile_removeFile, if_neg fun both => Key.file_ne_deletedFile k' k both.2]

namespace WellStored

/-- `Get` returns what is stored. -/
theorem get_eq_ok (stored : s.WellStored fs) : s.get fs k = .ok out ↔ s.contents fs k = some out := by
  unfold FileStorage.get contents
  cases read : fs.readFile k.namespace_ k.file with
  | none => simp
  | some data =>
    obtain ⟨obj, rv, decoded, -⟩ := stored.readable _ _ data read (hasSuffix_file k)
    simp [decoded]

theorem get_eq_error (stored : s.WellStored fs) {e : Failure} (fails : s.get fs k = .error e) :
    s.contents fs k = none := by
  cases found : s.contents fs k with
  | none => rfl
  | some out =>
    rw [stored.get_eq_ok.mpr found] at fails
    cases fails

/-- In a well stored tree a key has an object if its file is there. -/
theorem contents_eq_none (stored : s.WellStored fs) :
    s.contents fs k = none ↔ fs.readFile k.namespace_ k.file = none := by
  unfold contents
  constructor
  · intro nothing
    cases read : fs.readFile k.namespace_ k.file with
    | none => rfl
    | some data =>
      obtain ⟨obj, rv, decoded, -⟩ := stored.readable _ _ data read (hasSuffix_file k)
      simp [read, decoded] at nothing
  · intro missing
    rw [missing]
    rfl

theorem writeFile (stored : s.WellStored fs) (readable : s.Readable data)
    (exists_ : (fs.sub k.namespace_).isSome) :
    ∃ fs', fs.writeFile k.namespace_ k.file data = some fs' ∧ s.WellStored fs' := by
  obtain ⟨fs', written, plain⟩ := stored.plain.writeFile exists_ k.file data
  refine ⟨fs', written, plain, fun ns file data' read ends => ?_⟩
  rw [Go.Tree.readFile_writeFile written] at read
  split at read
  · cases read
    exact readable
  · exact stored.readable ns file data' read ends

theorem renameFile (stored : s.WellStored fs) (read : fs.readFile k.namespace_ k.file = some data) :
    ∃ fs', fs.renameFile k.namespace_ k.file k.deletedFile = some fs' ∧ s.WellStored fs' := by
  obtain ⟨fs', renamed, plain⟩ := stored.plain.renameFile read k.deletedFile
  obtain ⟨data, -, after⟩ := Go.Tree.readFile_renameFile renamed (Key.file_ne_deletedFile k k)
  refine ⟨fs', renamed, plain, fun ns file data' read ends => ?_⟩
  rw [after] at read
  split at read
  · next both =>
    rw [both.2, not_hasSuffix_deletedFile] at ends
    cases ends
  · split at read
    · cases read
    · exact stored.readable ns file data' read ends

theorem removeFile (stored : s.WellStored fs) (ns file : String) : s.WellStored (fs.removeFile ns file) where
  plain := stored.plain.removeFile ns file
  readable ns' file' data read ends := by
    rw [Go.Tree.readFile_removeFile] at read
    split at read
    · cases read
    · exact stored.readable ns' file' data read ends

end WellStored

/-- The operation is a step of the store that the files hold, and leaves them well stored. -/
def StepsTo (s : FileStorage α β) (fs : Go.Tree β) (op : Op α) : Prop :=
  (s.contents fs).Step op (s.exec fs op).1 (s.contents (s.exec fs op).2) ∧ s.WellStored (s.exec fs op).2

namespace WellStored

/-- `Create` fails if the object cannot be encoded, and otherwise stores it, whatever the key had. -/
theorem create_cases (stored : s.WellStored fs) (k : Key) (obj : Object α) :
    s.create fs k obj = (.error .encode, fs.mkdir k.namespace_) ∨
      ∃ fs', s.create fs k obj = (.ok { obj with resourceVersion := "1" }, fs') ∧ s.WellStored fs' ∧
        s.contents fs' = Function.update (s.contents fs) k (some { obj with resourceVersion := "1" }) := by
  cases encoded : s.codec.encode { obj with resourceVersion := "1" } with
  | none =>
    left
    simp [FileStorage.create, encoded]
  | some data =>
    right
    have decoded := s.codec.roundTrip _ _ encoded
    obtain ⟨fs', written, after⟩ := (stored.mkdir k.namespace_).writeFile (k := k)
      ⟨_, _, decoded, s.versioner.parse_one⟩ (stored.plain.mkdir k.namespace_).2
    refine ⟨fs', by simp [FileStorage.create, encoded, decoded, written], after, ?_⟩
    rw [contents_writeFile written decoded, contents_mkdir]

theorem create (stored : s.WellStored fs) (obj : Object α) (absent : fs.readFile k.namespace_ k.file = none) :
    s.StepsTo fs (.create k obj) := by
  have free := stored.contents_eq_none.mpr absent
  obtain fails | ⟨fs', creates, after, contents⟩ := stored.create_cases k obj
  · simp only [StepsTo, exec, fails, Prod.map_apply, id]
    exact ⟨⟨fun _ => trivial, contents_mkdir _⟩, stored.mkdir k.namespace_⟩
  · simp only [StepsTo, exec, creates, Prod.map_apply, id]
    exact ⟨⟨free, rfl, contents⟩, after⟩

theorem get (stored : s.WellStored fs) : s.StepsTo fs (.get k) := by
  simp only [StepsTo, exec]
  refine ⟨?_, stored⟩
  cases result : s.get fs k with
  | ok out => exact ⟨stored.get_eq_ok.mp result, rfl⟩
  | error e => exact ⟨stored.get_eq_error result, rfl⟩

/-- The object that an operation starts from is the cached one or the stored one. -/
theorem existing (stored : s.WellStored fs) (cached : Option (Object α)) :
    (∃ old, s.existing fs k cached = .ok old ∧ (cached = some old ∨ s.contents fs k = some old)) ∨
      (∃ e, s.existing fs k cached = .error e) ∧ s.contents fs k = none := by
  cases cached with
  | some old => exact .inl ⟨old, rfl, .inl rfl⟩
  | none =>
    unfold FileStorage.existing
    cases result : s.get fs k with
    | ok old => exact .inl ⟨old, rfl, .inr (stored.get_eq_ok.mp result)⟩
    | error e => exact .inr ⟨⟨e, rfl⟩, stored.get_eq_error result⟩

theorem delete (stored : s.WellStored fs) (opts : DeleteOptions α) : s.StepsTo fs (.delete k opts) := by
  have keeps : ∀ e, s.delete fs k opts = (.error e, fs) → (s.contents fs k ≠ none → e.callers) →
      s.StepsTo fs (.delete k opts) := by
    intro e fails excused
    simp only [StepsTo, exec, fails, Prod.map_apply, id]
    exact ⟨⟨excused, rfl⟩, stored⟩
  obtain ⟨old, start, -⟩ | ⟨⟨e, start⟩, nothing⟩ := stored.existing (k := k) opts.cachedExistingObject
  · by_cases allowed : opts.preconditions old = false
    · exact keeps .precondition (by simp [FileStorage.delete, start, allowed]) fun _ => trivial
    by_cases valid : opts.validateDeletion old = false
    · exact keeps .validation (by simp [FileStorage.delete, start, allowed, valid]) fun _ => trivial
    cases read : fs.readFile k.namespace_ k.file with
    | none =>
      refine keeps .rename ?_ fun live => absurd (stored.contents_eq_none.mpr read) live
      simp [FileStorage.delete, start, allowed, valid, Go.Tree.renameFile_none read]
    | some data =>
      obtain ⟨fs', renamed, after⟩ := stored.renameFile read
      have deletes : s.delete fs k opts = (.ok old, fs') := by
        simp [FileStorage.delete, start, allowed, valid, renamed]
      simp only [StepsTo, exec, deletes, Prod.map_apply, id]
      refine ⟨⟨fun nothing => ?_, contents_renameFile renamed⟩, after⟩
      rw [stored.contents_eq_none, read] at nothing
      cases nothing
  · exact keeps e (by simp [FileStorage.delete, start]) fun live => absurd nothing live

end WellStored

/-- What `GuaranteedUpdate` makes of the old object: what the update function returned, or a failure of the caller. -/
theorem prepareUpdate_cases (opts : UpdateOptions α) (old : Object α) :
    (∃ version out data, s.prepareUpdate opts old = .ok (out, data) ∧ opts.tryUpdate old version = some out ∧
      s.codec.decode data = some out) ∨ ∃ e, s.prepareUpdate opts old = .error e ∧ e.callers := by
  unfold prepareUpdate
  by_cases allowed : opts.preconditions old = false
  · exact .inr ⟨.precondition, if_pos allowed, trivial⟩
  rw [if_neg allowed]
  cases s.versioner.parse old.resourceVersion with
  | none => exact .inr ⟨.version, rfl, trivial⟩
  | some version =>
    dsimp only
    cases tried : opts.tryUpdate old (version + 1) with
    | none => exact .inr ⟨.update, rfl, trivial⟩
    | some out =>
      dsimp only
      cases encoded : s.codec.encode out with
      | none => exact .inr ⟨.encode, rfl, trivial⟩
      | some data =>
        have decoded := s.codec.roundTrip _ _ encoded
        refine .inl ⟨version + 1, out, data, ?_, tried, decoded⟩
        simp [decoded]

theorem WellStored.update (stored : s.WellStored fs) (opts : UpdateOptions α)
    (live : opts.cachedExistingObject ≠ none → fs.readFile k.namespace_ k.file ≠ none)
    (versions : ∀ old version out, opts.tryUpdate old version = some out →
      (s.versioner.parse out.resourceVersion).isSome) : s.StepsTo fs (.update k opts) := by
  have keeps : ∀ e, s.guaranteedUpdate fs k opts = (.error e, fs) → (s.contents fs k ≠ none → e.callers) →
      s.StepsTo fs (.update k opts) := by
    intro e fails excused
    simp only [StepsTo, exec, fails, Prod.map_apply, id]
    exact ⟨⟨excused, rfl⟩, stored⟩
  obtain ⟨old, start, source⟩ | ⟨⟨e, start⟩, nothing⟩ := stored.existing (k := k) opts.cachedExistingObject
  · have present : s.contents fs k ≠ none := by
      rcases source with cached | found
      · rw [ne_eq, stored.contents_eq_none]
        exact live (by simp [cached])
      · simp [found]
    obtain ⟨version, out, data, prepared, tried, decoded⟩ | ⟨e, prepared, excused⟩ := prepareUpdate_cases opts old
    · obtain ⟨rv, parsed⟩ := Option.isSome_iff_exists.mp (versions old version out tried)
      have exists_ : (fs.sub k.namespace_).isSome := by
        rw [ne_eq, stored.contents_eq_none] at present
        obtain ⟨data, read⟩ := Option.ne_none_iff_exists'.mp present
        obtain ⟨entries, found, -⟩ := Go.Tree.readFile_eq_some.mp read
        simp [found]
      obtain ⟨fs', written, after⟩ := stored.writeFile (k := k) ⟨out, rv, decoded, parsed⟩ exists_
      have updates : s.guaranteedUpdate fs k opts = (.ok out, fs') := by
        simp [guaranteedUpdate, start, Except.bind, prepared, written]
      simp only [StepsTo, exec, updates, Prod.map_apply, id]
      exact ⟨⟨present, ⟨old, version, source, tried⟩, contents_writeFile written decoded⟩, after⟩
    · exact keeps e (by simp [guaranteedUpdate, start, Except.bind, prepared]) fun _ => excused
  · exact keeps e (by simp [guaranteedUpdate, start, Except.bind]) fun live => absurd nothing live

/-- The items of a listing, by what the store holds. -/
theorem mem_matching_contents {matches_ : Object α → Bool} {ns : Option String} {item : Item α} :
    item ∈ s.matching yamlRule matches_ fs ns ↔
      (∀ n, ns = some n → item.namespace_ = n) ∧ matches_ item.obj = true ∧
        ∃ name, item.file = name ++ yamlSuffix ∧ s.contents fs ⟨item.namespace_, name⟩ = some item.obj := by
  rw [mem_matching, hasSuffix_iff]
  constructor
  · rintro ⟨here, ⟨name, file⟩, fits, data, read, decoded⟩
    refine ⟨here, fits, name, file, ?_⟩
    rw [file] at read
    exact Option.bind_eq_some_iff.mpr ⟨data, read, decoded⟩
  · rintro ⟨here, fits, name, file, live⟩
    obtain ⟨data, read, decoded⟩ := Option.bind_eq_some_iff.mp live
    refine ⟨here, ⟨name, file⟩, fits, data, ?_, decoded⟩
    rw [file]
    exact read

/-- What is listed are the live keys. -/
theorem lists_matching (fs : Go.Tree β) (ns : Option String) :
    (s.contents fs).Lists ns (s.matching yamlRule (fun _ => true) fs ns) := by
  refine ⟨nodup_matching _ _ _, fun item => ?_⟩
  rw [mem_matching_contents]
  simp

theorem contents_listed (fs : Go.Tree β) (ns : Option String) : s.contents (listed fs ns) = s.contents fs := by
  cases ns with
  | none => rfl
  | some n => exact contents_mkdir n

namespace WellStored

theorem list (stored : s.WellStored fs) (ns : Option String) : s.StepsTo fs (.list ns) := by
  have rules : s.buildMatchRules (s.listKey ns) listAll = .ok (fun _ => true, yamlRule) := rfl
  obtain ⟨c, result, items, flag⟩ := getList_eq rules stored.plain stored.namespace_
  have noMore : c.hasMore = false := flag fun full => full.1 rfl
  have handled : s.handleResult c = .ok (s.matching yamlRule (fun _ => true) fs ns, "") := by
    rw [handleResult, noMore, items]
    rfl
  simp only [StepsTo, exec, result, handled, Prod.map_apply, id]
  exact ⟨⟨lists_matching fs ns, contents_listed fs ns⟩, stored.listed ns⟩

theorem count (stored : s.WellStored fs) (ns : Option String) (exists_ : ∀ n, ns = some n → (fs.sub n).isSome) :
    s.StepsTo fs (.count ns) := by
  simp only [StepsTo, exec, count_eq stored exists_]
  exact ⟨⟨⟨_, lists_matching fs ns, rfl⟩, rfl⟩, stored⟩

/-- A regular operation is a step of the store. -/
theorem stepsTo (stored : s.WellStored fs) (op : Op α) (regular : s.Regular fs op) : s.StepsTo fs op := by
  cases op with
  | create k obj => exact stored.create obj regular
  | update k opts => exact stored.update opts regular.1 regular.2
  | delete k opts => exact stored.delete opts
  | get k => exact stored.get
  | list ns => exact stored.list ns
  | count ns =>
    refine stored.count ns fun n same => ?_
    subst same
    exact regular
  | purge k => exact ⟨contents_removeFile k, stored.removeFile _ _⟩

end WellStored

theorem contents_empty : s.contents Go.Tree.empty = fun _ => none := by
  funext k
  simp [contents, Go.Tree.readFile, Go.Tree.sub, Go.Tree.empty]

/-- In every sequence of regular operations the storage replies as a key-value store does that starts empty, and its
files hold what is in that store. -/
theorem refines_store (s : FileStorage α β) (ops : List (Op α)) (regular : Meets s.exec s.Regular Go.Tree.empty ops) :
    Admits Store.Step (fun _ => none) (serve s.exec Go.Tree.empty ops).1
      (s.contents (serve s.exec Go.Tree.empty ops).2) := by
  rw [← contents_empty (s := s)]
  exact refinement (fun fs op stored allowed => stored.stepsTo op allowed) WellStored.empty regular

/-- The key of the histories below. -/
def sampleKey : Key := ⟨"default", "node1"⟩

/-- A deletion that checks nothing. -/
def deletion : DeleteOptions Nat := ⟨none, fun _ => true, fun _ => true⟩

/-- An update to a new body. -/
def updating (cached : Option (Object Nat)) (body : Nat) : UpdateOptions Nat where
  cachedExistingObject := cached
  preconditions _ := true
  tryUpdate _ _ := some ⟨"1", body⟩

/-- An object is created again while its deletion is pending. -/
def recreation : List (Op Nat) :=
  [.create sampleKey ⟨"", 1⟩, .update sampleKey (updating none 2), .delete sampleKey deletion,
    .create sampleKey ⟨"", 3⟩, .purge sampleKey, .get sampleKey, .delete sampleKey deletion, .list none,
    .count (some "default")]

theorem refines_store_recreation :
    Meets sampleStorage.exec sampleStorage.Regular Go.Tree.empty recreation ∧
      Admits Store.Step (fun _ => none) (serve sampleStorage.exec Go.Tree.empty recreation).1
        (sampleStorage.contents (serve sampleStorage.exec Go.Tree.empty recreation).2) := by
  have regular : Meets sampleStorage.exec sampleStorage.Regular Go.Tree.empty recreation := by
    refine ⟨rfl, ⟨fun cached => absurd rfl cached, ?_⟩, trivial, rfl, trivial, trivial, trivial, trivial, rfl, trivial⟩
    intro old version out tried
    cases tried
    rfl
  exact ⟨regular, refines_store sampleStorage recreation regular⟩

/-- `Create` writes over an object that exists. -/
theorem create_overwrites :
    ¬ ∃ A, Admits Store.Step (fun _ => none)
      (serve sampleStorage.exec Go.Tree.empty [.create sampleKey ⟨"", 1⟩, .create sampleKey ⟨"", 2⟩]).1 A := by
  rintro ⟨A, admitted⟩
  cases admitted with
  | cons first rest =>
    obtain ⟨-, -, rfl⟩ := first
    cases rest with
    | cons second _ => cases second.1

-- `GuaranteedUpdate` with a cached object writes an object that was deleted.
example :
    ¬ ∃ A, Admits Store.Step (fun _ => none) (serve sampleStorage.exec Go.Tree.empty [.create sampleKey ⟨"", 1⟩,
      .delete sampleKey deletion, .update sampleKey (updating (some ⟨"1", 1⟩) 2)]).1 A := by
  rintro ⟨A, admitted⟩
  cases admitted with
  | cons first rest =>
    obtain ⟨-, -, rfl⟩ := first
    cases rest with
    | cons second rest =>
      obtain ⟨-, rfl⟩ := second
      cases rest with
      | cons third _ => exact third.1 rfl

-- `Count` fails on a namespace that has no directory yet, where `GetList` finds no objects.
example :
    ¬ ∃ A, Admits Store.Step (fun _ => none) (serve sampleStorage.exec Go.Tree.empty [.count (some "default")]).1 A := by
  rintro ⟨A, admitted⟩
  cases admitted with
  | cons first _ => exact first

end FileStorage

end KubeKey.Proxy
