import KubeKey.Core.Archive

/-!
# What an archive is unpacked to

`Untar` stops at the first entry whose path is a directory, or has a file on the way (`Blocked`):
one of the file system, or one that an earlier entry has made. Until then every regular entry is
written over what is at its path (`After`).

It goes wrong in two ways. A name with `..` leads out of the directory, and nothing asks where
(`After.confined_iff`). And a file is opened without being truncated, so what was longer at the path keeps
its end (`entries_last_iff`). The files of a directory that is packed with `Tar` have names without `..`, and
come out as they were except for that (`untar_tar_iff`).
-/

namespace KubeKey.Core.Util

open KubeKey.Go

/-! ## One regular entry -/

namespace Unpacking

variable {s s' : Unpacking} {p q : CleanPath} {bytes : List UInt8}

theorem entry_reg {hdr : Entry} (reg : hdr.typeflag = .reg) (dst : CleanPath) :
    s.entry dst hdr = s.put (join dst hdr.name) hdr.bytes := by
  unfold entry
  rw [reg]

theorem entry_dir {hdr : Entry} (dir : hdr.typeflag ≠ .reg) (dst : CleanPath) : s.entry dst hdr = (true, s) := by
  unfold entry
  cases flag : hdr.typeflag with
  | reg => exact absurd flag dir
  | dir =>
    have never : (!s.isExist (join dst hdr.name) && s.isDir (join dst hdr.name)) = false := by
      unfold isExist isDir
      cases s.fs.node (join dst hdr.name) <;> simp
    dsimp only
    rw [never]
    rfl

/-- A directory is there, or a file on the way. -/
def Closed (fs : FileSystem) (p : CleanPath) : Prop :=
  fs.node p = some .dir ∨ ∃ q, q <+: p ∧ q ≠ p ∧ FileNode.isFile (fs.node q) = true

theorem ne_nil_of_open {fs : FileSystem} (opened : ¬ Closed fs p) : p ≠ [] := by
  rintro rfl
  exact opened (.inl fs.root)

/-- The prefixes of a path are itself and those of its parent. -/
theorem prefix_iff (some_ : p ≠ []) : q <+: p ↔ q = p ∨ q <+: p.dropLast := by
  obtain ⟨front, n, rfl⟩ : ∃ front n, p = front ++ [n] := ⟨_, _, (List.dropLast_concat_getLast some_).symm⟩
  rw [List.dropLast_concat, List.prefix_concat_iff]

theorem not_prefix_dropLast (some_ : p ≠ []) : ¬ p <+: p.dropLast := by
  intro front
  have short := front.length_le
  have positive : 0 < p.length := List.length_pos_iff.mpr some_
  rw [List.length_dropLast] at short
  omega

theorem put_closed (closed : Closed s.fs p) : s.put p bytes = (false, s) := by
  have on_the_way : ∀ q, q <+: p → q ≠ p → FileNode.isFile (s.fs.node q) = true → s.fs.Stopped p.dropLast := by
    intro q front other file
    have some_ : p ≠ [] := by
      rintro rfl
      exact other (List.prefix_nil.mp front)
    exact ⟨q, (List.mem_inits _ _).mpr (((prefix_iff some_).mp front).resolve_left other), file⟩
  unfold put
  by_cases exist : s.isExist p.dropLast = true
  · rw [if_pos exist]
    have refused : ¬ (s.fs.node p ≠ some .dir ∧ s.fs.node p.dropLast = some .dir) := by
      rintro ⟨other, parent⟩
      obtain ⟨q, front, different, file⟩ := closed.resolve_left other
      exact FileSystem.not_stopped_of_dir parent (on_the_way q front different file)
    rw [← @FileSystem.setFile_isSome_iff _ _ (bytes ++ (s.fs.content p).drop bytes.length),
      Option.not_isSome_iff_eq_none] at refused
    dsimp only
    rw [writeTo, FileSystem.overwrite, refused, Option.map_none]
  · rw [if_neg exist]
    have some_ : p ≠ [] := by
      rintro rfl
      exact exist (by rw [isExist, List.dropLast_nil, s.fs.root]; rfl)
    have stopped : s.fs.Stopped p.dropLast := by
      rcases closed with dir | ⟨q, front, other, file⟩
      · refine absurd ?_ exist
        rw [isExist, FileSystem.dir_of_below (by rw [dir]; rfl) (List.dropLast_prefix p) fun same =>
          not_prefix_dropLast some_ (by rw [same])]
        rfl
      · exact on_the_way q front other file
    have refused : s.fs.mkdirAll p.dropLast = none := by
      rw [← Option.not_isSome_iff_eq_none, FileSystem.mkdirAll_isSome_iff, not_not]
      exact stopped
    rw [createDir, if_neg exist, refused, Option.map_none]

/-- What an entry does that is written. -/
structure Wrote (s s' : Unpacking) (p : CleanPath) (bytes : List UInt8) : Prop where
  node : ∀ q, s'.fs.node q =
    if q = p then some (.file (bytes ++ (s.fs.content p).drop bytes.length))
    else if q <+: p then some .dir else s.fs.node q
  touched : ∀ t, t ∈ s'.touched ↔ t ∈ s.touched ∨ t <+: p ∧ s.fs.node t = none ∨ t = p ∧ bytes ≠ []

theorem put_open (opened : ¬ Closed s.fs p) : ∃ s', s.put p bytes = (true, s') ∧ Wrote s s' p bytes := by
  have some_ := ne_nil_of_open opened
  have here : s.fs.node p ≠ some .dir := fun dir => opened (.inl dir)
  have free : ∀ q, q <+: p.dropLast → FileNode.isFile (s.fs.node q) ≠ true := by
    intro q front file
    refine opened (.inr ⟨q, (prefix_iff some_).mpr (.inr front), ?_, file⟩)
    rintro rfl
    exact not_prefix_dropLast some_ front
  -- The parent is made, and nothing else is changed by that.
  have parent : ∃ s₁ : Unpacking, (if s.isExist p.dropLast then some s else s.createDir p.dropLast) = some s₁ ∧
      (∀ q, s₁.fs.node q = if q <+: p.dropLast then some .dir else s.fs.node q) ∧
      ∀ t, t ∈ s₁.touched ↔ t ∈ s.touched ∨ t <+: p.dropLast ∧ s.fs.node t = none := by
    by_cases exist : s.isExist p.dropLast = true
    · have dir : s.fs.node p.dropLast = some .dir := by
        have not_file := free p.dropLast (List.prefix_refl _)
        unfold isExist at exist
        cases found : s.fs.node p.dropLast with
        | none =>
          rw [found] at exist
          cases exist
        | some n =>
          cases n with
          | dir => rfl
          | file bytes =>
            rw [found] at not_file
            exact absurd rfl not_file
      have above : ∀ q, q <+: p.dropLast → s.fs.node q = some .dir := by
        intro q front
        by_cases same : q = p.dropLast
        · rw [same, dir]
        · exact FileSystem.dir_of_below (by rw [dir]; rfl) front same
      refine ⟨s, if_pos exist, fun q => ?_, fun t => ⟨.inl, ?_⟩⟩
      · split
        · next front => exact above q front
        · rfl
      · rintro (old | ⟨front, absent⟩)
        · exact old
        · rw [above t front] at absent
          cases absent
    · have made : ∃ fs', s.fs.mkdirAll p.dropLast = some fs' := by
        rw [← Option.isSome_iff_exists, FileSystem.mkdirAll_isSome_iff]
        rintro ⟨q, inside, file⟩
        exact free q ((List.mem_inits _ _).mp inside) file
      obtain ⟨fs', made⟩ := made
      refine ⟨_, by rw [if_neg exist, createDir, if_neg exist, made, Option.map_some],
        fun q => FileSystem.node_mkdirAll made q, fun t => ?_⟩
      rw [List.mem_append, List.mem_filter, List.mem_inits, Option.isNone_iff_eq_none]
  obtain ⟨s₁, made, node, touched⟩ := parent
  have away : s₁.fs.node p = s.fs.node p := by rw [node, if_neg (not_prefix_dropLast some_)]
  have content : s₁.fs.content p = s.fs.content p := by rw [FileSystem.content, FileSystem.content, away]
  have written : ∃ fs', s₁.fs.overwrite p bytes = some fs' := by
    rw [← Option.isSome_iff_exists, FileSystem.overwrite, FileSystem.setFile_isSome_iff, away, node,
      if_pos (List.prefix_refl _)]
    exact ⟨here, rfl⟩
  obtain ⟨fs', written⟩ := written
  refine ⟨_, by rw [put, made]; dsimp only; rw [writeTo, written, Option.map_some], ⟨fun q => ?_, fun t => ?_⟩⟩
  · dsimp only
    rw [FileSystem.node_setFile written, content, node]
    by_cases same : q = p
    · rw [if_pos same, if_pos same]
    · have front : q <+: p ↔ q <+: p.dropLast := by rw [prefix_iff some_, or_iff_right same]
      rw [if_neg same, if_neg same]
      simp only [front]
  · have single : t ∈ (if (s.fs.node p).isNone = true ∨ bytes ≠ [] then [p] else []) ↔
        t = p ∧ (s.fs.node p = none ∨ bytes ≠ []) := by
      rw [← Option.isNone_iff_eq_none]
      split
      · next holds => rw [List.mem_singleton, and_iff_left holds]
      · next fails => exact ⟨fun none_ => absurd none_ List.not_mem_nil, fun both => absurd both.2 fails⟩
    rw [List.mem_append, touched, away]
    rw [single, prefix_iff some_]
    constructor
    · rintro ((old | ⟨front, absent⟩) | ⟨rfl, absent | nonempty⟩)
      · exact .inl old
      · exact .inr (.inl ⟨.inr front, absent⟩)
      · exact .inr (.inl ⟨.inl rfl, absent⟩)
      · exact .inr (.inr ⟨rfl, nonempty⟩)
    · rintro (old | ⟨rfl | front, absent⟩ | ⟨rfl, nonempty⟩)
      · exact .inl (.inl old)
      · exact .inr ⟨rfl, .inl absent⟩
      · exact .inl (.inr ⟨front, absent⟩)
      · exact .inr ⟨rfl, .inr nonempty⟩

end Unpacking

/-! ## Several entries -/

/-- A path and the bytes that are written there. -/
abbrev Write := CleanPath × List UInt8

/-- The regular entries, by where they lead. -/
def writes (dst : CleanPath) (hdrs : List Entry) : List Write :=
  (hdrs.filter fun hdr => hdr.typeflag = .reg).map fun hdr => (join dst hdr.name, hdr.bytes)

/-- The path is a directory, or a file is on the way to it: in the file system, or because of earlier paths. -/
def Blocked (fs : FileSystem) (earlier : List CleanPath) (p : CleanPath) : Prop :=
  fs.node p = some .dir ∨ (∃ q ∈ earlier, p <+: q ∧ p ≠ q) ∨
    ∃ q ∈ p.inits, q ≠ p ∧ (q ∈ earlier ∨ FileNode.isFile (fs.node q) = true)

instance (fs : FileSystem) (earlier : List CleanPath) (p : CleanPath) : Decidable (Blocked fs earlier p) :=
  inferInstanceAs (Decidable (_ ∨ (∃ q ∈ earlier, _ ∧ _) ∨ ∃ q ∈ p.inits, _ ∧ (_ ∨ _)))

/-- The writes before the first that is blocked. -/
def reached (fs : FileSystem) : List CleanPath → List Write → List Write
  | _, [] => []
  | earlier, w :: rest => if Blocked fs earlier w.1 then [] else w :: reached fs (earlier ++ [w.1]) rest

/-- What becomes of the bytes at a path. -/
def laid (p : CleanPath) (ws : List Write) (old : List UInt8) : List UInt8 :=
  ws.foldl (fun bytes w => if w.1 = p then w.2 ++ bytes.drop w.2.length else bytes) old

/-- The file system after these writes, none of them blocked. -/
structure After (fs : FileSystem) (done : List Write) (s : Unpacking) : Prop where
  opened : ∀ front w back, done = front ++ w :: back → ¬ Blocked fs (front.map Prod.fst) w.1
  node : ∀ q, s.fs.node q =
    if q ∈ done.map Prod.fst then some (.file (laid q done (fs.content q)))
    else if ∃ w ∈ done, q <+: w.1 then some .dir else fs.node q
  touched : ∀ t, t ∈ s.touched ↔ ∃ w ∈ done, t <+: w.1 ∧ fs.node t = none ∨ t = w.1 ∧ w.2 ≠ []

section After
variable {fs : FileSystem} {done : List Write} {s s' : Unpacking} {p q : CleanPath} {bytes : List UInt8}

theorem after_nil (fs : FileSystem) : After fs [] ⟨fs, []⟩ where
  opened front w back split := by cases front <;> cases split
  node q := by simp
  touched t := by simp

/-- None of the paths leads on to another. -/
theorem After.apart (after : After fs done s) {v w : Write} (inside : v ∈ done) (inside' : w ∈ done)
    (below : v.1 <+: w.1) : v.1 = w.1 := by
  by_contra other
  obtain ⟨front, back, split⟩ := List.append_of_mem inside
  rw [split] at inside'
  rcases List.mem_append.mp inside' with before | rest
  · exact after.opened front v back split (.inr (.inl ⟨w.1, List.mem_map_of_mem before, below, other⟩))
  rcases List.mem_cons.mp rest with rfl | later
  · exact other rfl
  · obtain ⟨middle, last, split'⟩ := List.append_of_mem later
    have whole : done = (front ++ v :: middle) ++ w :: last := by rw [split, split']; simp
    refine after.opened _ w last whole (.inr (.inr ⟨v.1, (List.mem_inits _ _).mpr below, other, .inl ?_⟩))
    exact List.mem_map_of_mem (by simp)

theorem After.of_mem (after : After fs done s) {w : Write} (inside : w ∈ done) :
    fs.node w.1 ≠ some .dir ∧ ∀ q, q <+: w.1 → q ≠ w.1 → FileNode.isFile (fs.node q) ≠ true := by
  obtain ⟨front, back, split⟩ := List.append_of_mem inside
  have opened := after.opened front w back split
  exact ⟨fun dir => opened (.inl dir), fun q below other file =>
    opened (.inr (.inr ⟨q, (List.mem_inits _ _).mpr below, other, .inr file⟩))⟩

theorem After.isFile_iff (after : After fs done s) : FileNode.isFile (s.fs.node q) = true ↔
    q ∈ done.map Prod.fst ∨ FileNode.isFile (fs.node q) = true := by
  rw [after.node]
  split
  · next inside => simp [FileNode.isFile, inside]
  · next outside =>
    rw [or_iff_right outside]
    split
    · next above =>
      obtain ⟨w, inside, below⟩ := above
      have other : q ≠ w.1 := by
        rintro rfl
        exact outside (List.mem_map_of_mem inside)
      exact ⟨fun file => (by cases file), fun file => absurd file ((after.of_mem inside).2 q below other)⟩
    · rfl

theorem After.dir_iff (after : After fs done s) : s.fs.node q = some .dir ↔
    q ∉ done.map Prod.fst ∧ ((∃ w ∈ done, q <+: w.1) ∨ fs.node q = some .dir) := by
  rw [after.node]
  split
  · next inside => simp [inside]
  · next outside =>
    rw [and_iff_right outside]
    split
    · next above => simp [above]
    · next free => rw [or_iff_right free]

/-- A path is blocked by the earlier ones exactly if it is closed after them. -/
theorem After.blocked_iff (after : After fs done s) :
    Blocked fs (done.map Prod.fst) p ↔ Unpacking.Closed s.fs p := by
  have files : (∃ q ∈ p.inits, q ≠ p ∧ (q ∈ done.map Prod.fst ∨ FileNode.isFile (fs.node q) = true)) ↔
      ∃ q, q <+: p ∧ q ≠ p ∧ FileNode.isFile (s.fs.node q) = true := by
    simp only [List.mem_inits, after.isFile_iff]
  rw [Blocked, files, ← or_assoc, Unpacking.Closed, after.dir_iff]
  refine or_congr_left ?_
  constructor
  · rintro (dir | ⟨q, inside, below, other⟩)
    · refine ⟨fun inside => ?_, .inr dir⟩
      obtain ⟨w, there, rfl⟩ := List.mem_map.mp inside
      exact (after.of_mem there).1 dir
    · obtain ⟨w, there, rfl⟩ := List.mem_map.mp inside
      refine ⟨fun inside' => ?_, .inl ⟨w, there, below⟩⟩
      obtain ⟨v, there', rfl⟩ := List.mem_map.mp inside'
      exact other (after.apart there' there below)
  · rintro ⟨outside, ⟨w, there, below⟩ | dir⟩
    · refine .inr ⟨w.1, List.mem_map_of_mem there, below, ?_⟩
      rintro rfl
      exact outside (List.mem_map_of_mem there)
    · exact .inl dir

theorem laid_append (p : CleanPath) (ws : List Write) (w : Write) (old : List UInt8) :
    laid p (ws ++ [w]) old = if w.1 = p then w.2 ++ (laid p ws old).drop w.2.length else laid p ws old := by
  rw [laid, List.foldl_append]
  rfl

/-- Writes of nothing. -/
theorem laid_of_empty {ws : List Write} (empty : ∀ w ∈ ws, w.1 = p → w.2 = []) (old : List UInt8) :
    laid p ws old = old := by
  induction ws generalizing old with
  | nil => rfl
  | cons w ws ih =>
    obtain ⟨first, rest⟩ := List.forall_mem_cons.mp empty
    have same : (if w.1 = p then w.2 ++ old.drop w.2.length else old) = old := by
      split
      · next here =>
        rw [first here]
        rfl
      · rfl
    rw [laid, List.foldl_cons, same]
    exact ih rest old

theorem laid_of_not_mem {ws : List Write} (outside : p ∉ ws.map Prod.fst) (old : List UInt8) : laid p ws old = old :=
  laid_of_empty (fun _ inside same => absurd (same ▸ List.mem_map_of_mem inside) outside) old

/-- The bytes at a path that can be written. -/
theorem After.content (after : After fs done s) (opened : ¬ Unpacking.Closed s.fs p) :
    s.fs.content p = laid p done (fs.content p) := by
  have node := after.node p
  unfold FileSystem.content
  split at node
  · rw [node]
    rfl
  · next outside =>
    split at node
    · exact absurd (.inl node) opened
    · rw [node, laid_of_not_mem outside]

/-- One more write. -/
theorem After.append (after : After fs done s) (opened : ¬ Unpacking.Closed s.fs p)
    (wrote : Unpacking.Wrote s s' p bytes) : After fs (done ++ [(p, bytes)]) s' where
  opened front w back split := by
    rcases List.eq_nil_or_concat back with rfl | ⟨back', last, rfl⟩
    · obtain ⟨rfl, same⟩ := List.append_inj' split rfl
      rw [← (List.cons.inj same).1]
      exact fun blocked => opened (after.blocked_iff.mp blocked)
    · rw [List.concat_eq_append, ← List.cons_append, ← List.append_assoc] at split
      exact after.opened front w back' (List.append_inj' split rfl).1
  node q := by
    rw [wrote.node q]
    by_cases same : q = p
    · subst same
      rw [if_pos rfl, if_pos (by simp), laid_append, if_pos rfl, after.content opened]
    · have inside : q ∈ (done ++ [(p, bytes)]).map Prod.fst ↔ q ∈ done.map Prod.fst := by simp [same]
      have below : (∃ w ∈ done ++ [(p, bytes)], q <+: w.1) ↔ (∃ w ∈ done, q <+: w.1) ∨ q <+: p := by
        simp only [List.mem_append, List.mem_singleton, or_and_right, exists_or, exists_eq_left]
      rw [if_neg same, laid_append, if_neg (Ne.symm same)]
      simp only [inside, below]
      split
      · next front =>
        have outside : q ∉ done.map Prod.fst := fun there =>
          opened (.inr ⟨q, front, same, after.isFile_iff.mpr (.inl there)⟩)
        rw [if_neg outside, if_pos (.inr front)]
      · next away =>
        rw [after.node q]
        simp only [away, or_false]
  touched t := by
    rw [wrote.touched t, after.touched t]
    simp only [List.mem_append, List.mem_singleton, or_and_right, exists_or, exists_eq_left]
    constructor
    · rintro (old | ⟨below, absent⟩ | written)
      · exact .inl old
      · refine .inr (.inl ⟨below, ?_⟩)
        rw [after.node] at absent
        split at absent
        · cases absent
        · split at absent
          · cases absent
          · exact absent
      · exact .inr (.inr written)
    · rintro (old | ⟨below, absent⟩ | written)
      · exact .inl old
      · by_cases there : s.fs.node t = none
        · exact .inr (.inl ⟨below, there⟩)
        · rw [after.node, absent] at there
          split at there
          · next inside =>
            obtain ⟨w, member, rfl⟩ := List.mem_map.mp inside
            exact .inl ⟨w, member, .inl ⟨List.prefix_refl _, absent⟩⟩
          · split at there
            · next above =>
              obtain ⟨w, member, front⟩ := above
              exact .inl ⟨w, member, .inl ⟨front, absent⟩⟩
            · exact absurd rfl there
      · exact .inr (.inr written)

/-- What was not touched is as it was. -/
theorem After.kept (after : After fs done s) (untouched : q ∉ s.touched) : s.fs.node q = fs.node q := by
  rw [after.touched] at untouched
  push Not at untouched
  rw [after.node]
  split
  · next inside =>
    obtain ⟨w, there, rfl⟩ := List.mem_map.mp inside
    have nothing : laid w.1 done (fs.content w.1) = fs.content w.1 :=
      laid_of_empty (fun v member same => (untouched v member).2 same.symm) _
    have present := (untouched w there).1 (List.prefix_refl _)
    have other := (after.of_mem there).1
    rw [nothing, FileSystem.content]
    cases found : fs.node w.1 with
    | none => exact absurd found present
    | some n =>
      cases n with
      | dir => exact absurd found other
      | file bytes => rfl
  · next outside =>
    split
    · next above =>
      obtain ⟨w, there, below⟩ := above
      have other : q ≠ w.1 := by
        rintro rfl
        exact outside (List.mem_map_of_mem there)
      have no_file := (after.of_mem there).2 q below other
      have present := (untouched w there).1 below
      cases found : fs.node q with
      | none => exact absurd found present
      | some n =>
        cases n with
        | dir => rfl
        | file bytes =>
          rw [found] at no_file
          exact absurd rfl no_file
    · rfl

/-- The loop writes the entries before the first that is blocked. -/
theorem After.entries (after : After fs done s) (dst : CleanPath) (hdrs : List Entry) :
    ∃ ok s', Unpacking.entries dst hdrs s = (ok, s') ∧
      (ok = true ↔ reached fs (done.map Prod.fst) (writes dst hdrs) = writes dst hdrs) ∧
      After fs (done ++ reached fs (done.map Prod.fst) (writes dst hdrs)) s' := by
  induction hdrs generalizing done s with
  | nil => exact ⟨true, s, rfl, ⟨fun _ => rfl, fun _ => rfl⟩, by rwa [writes, List.filter_nil, List.map_nil, reached,
      List.append_nil]⟩
  | cons hdr hdrs ih =>
    by_cases reg : hdr.typeflag = .reg
    · have first : writes dst (hdr :: hdrs) = (join dst hdr.name, hdr.bytes) :: writes dst hdrs := by
        rw [writes, List.filter_cons_of_pos (by simpa using reg), List.map_cons, writes]
      rw [first, reached, Unpacking.entries, Unpacking.entry_reg reg]
      by_cases closed : Unpacking.Closed s.fs (join dst hdr.name)
      · rw [if_pos (after.blocked_iff.mpr closed), Unpacking.put_closed closed, List.append_nil]
        exact ⟨false, s, rfl, ⟨fun bad => (by cases bad), fun bad => (by cases bad)⟩, after⟩
      · obtain ⟨s₁, put, wrote⟩ := @Unpacking.put_open s _ hdr.bytes closed
        obtain ⟨ok, s', ran, all, after'⟩ := ih (after.append closed wrote)
        rw [List.map_append, List.map_singleton] at all after'
        rw [if_neg fun blocked => closed (after.blocked_iff.mp blocked), put]
        refine ⟨ok, s', ran, ?_, ?_⟩
        · rw [all, List.cons.injEq, and_iff_right rfl]
        · rwa [List.append_assoc, List.singleton_append] at after'
    · have same : writes dst (hdr :: hdrs) = writes dst hdrs := by
        rw [writes, List.filter_cons_of_neg (by simpa using reg), writes]
      rw [same, Unpacking.entries, Unpacking.entry_dir reg]
      exact ih after

/-- How long what is at a path becomes. -/
theorem length_laid_le_iff {ws : List Write} (old : List UInt8) (n : Nat) :
    (laid p ws old).length ≤ n ↔ old.length ≤ n ∧ ∀ w ∈ ws, w.1 = p → w.2.length ≤ n := by
  induction ws generalizing old with
  | nil => simp [laid]
  | cons w ws ih =>
    rw [laid, List.foldl_cons, List.forall_mem_cons]
    refine (ih _).trans ?_
    rw [← and_assoc]
    refine and_congr_left fun _ => ?_
    split
    · next here =>
      rw [List.length_append, List.length_drop]
      simp only [here, forall_const]
      omega
    · next other => exact ⟨fun short => ⟨short, fun here => absurd here other⟩, And.left⟩

/-- The last write at a path leaves its bytes there unless something there was longer. -/
theorem laid_last_iff {front back : List Write} (last : p ∉ back.map Prod.fst) (old : List UInt8) :
    laid p (front ++ (p, bytes) :: back) old = bytes ↔
      old.length ≤ bytes.length ∧ ∀ w ∈ front, w.1 = p → w.2.length ≤ bytes.length := by
  have split : laid p (front ++ (p, bytes) :: back) old = bytes ++ (laid p front old).drop bytes.length := by
    rw [laid, List.foldl_append, List.foldl_cons, if_pos rfl]
    exact laid_of_not_mem last _
  rw [split, List.append_right_eq_self, List.drop_eq_nil_iff, length_laid_le_iff]

end After

/-! ## `Untar` -/

/-- `Untar` creates and writes to paths under the directory only, and if it returns nil the last bytes for a path are
what is there. -/
structure Faithful (fs : FileSystem) (dst : CleanPath) (hdrs : List Entry) (ok : Bool) (s : Unpacking) : Prop where
  confined : ∀ t ∈ s.touched, dst <+: t
  kept : ∀ p, ¬ dst <+: p → s.fs.node p = fs.node p
  exact : ok = true → ∀ front p bytes back, writes dst hdrs = front ++ (p, bytes) :: back → p ∉ back.map Prod.fst →
    s.fs.node p = some (.file bytes)

/-- Every write that is reached is under the directory, whose parents are there; or it writes nothing to a file. -/
def Inside (fs : FileSystem) (dst : CleanPath) (w : Write) : Prop :=
  dst <+: w.1 ∧ (∀ q, q <+: dst → q ≠ dst → (fs.node q).isSome = true) ∨
    FileNode.isFile (fs.node w.1) = true ∧ w.2 = []

/-- A write is blocked, or the last one at each path is as long as those before it and as what was there. -/
def Covering (fs : FileSystem) (ws : List Write) : Prop :=
  reached fs [] ws = ws → ∀ front p bytes back, ws = front ++ (p, bytes) :: back → p ∉ back.map Prod.fst →
    (fs.content p).length ≤ bytes.length ∧ ∀ w ∈ front, w.1 = p → w.2.length ≤ bytes.length

section Untar
variable {fs : FileSystem} {dst : CleanPath} {done : List Write} {s : Unpacking}

theorem After.confined_iff (after : After fs done s) :
    (∀ t ∈ s.touched, dst <+: t) ↔ ∀ w ∈ done, Inside fs dst w := by
  constructor
  · intro confined w there
    have below : ∀ t, t <+: w.1 → fs.node t = none → dst <+: t := fun t front absent =>
      confined t ((after.touched t).mpr ⟨w, there, .inl ⟨front, absent⟩⟩)
    by_cases under : dst <+: w.1
    · refine .inl ⟨under, fun q front other => ?_⟩
      rw [Option.isSome_iff_ne_none]
      intro absent
      exact other (front.eq_of_length_le (below q (front.trans under) absent).length_le)
    · refine .inr ⟨?_, ?_⟩
      · have other := (after.of_mem there).1
        cases found : fs.node w.1 with
        | none => exact absurd (below w.1 (List.prefix_refl _) found) under
        | some n =>
          cases n with
          | dir => exact absurd found other
          | file bytes => rfl
      · by_contra nonempty
        exact under (confined w.1 ((after.touched w.1).mpr ⟨w, there, .inr ⟨rfl, nonempty⟩⟩))
  · intro inside t touched
    obtain ⟨w, there, (⟨front, absent⟩ | ⟨rfl, nonempty⟩)⟩ := (after.touched t).mp touched
    · rcases inside w there with ⟨under, parents⟩ | ⟨file, -⟩
      · rcases List.prefix_or_prefix_of_prefix under front with below | above
        · exact below
        · by_cases same : t = dst
          · rw [same]
          · have present := parents t above same
            rw [absent] at present
            cases present
      · have present : (fs.node w.1).isSome = true := by
          cases found : fs.node w.1 with
          | none =>
            rw [found] at file
            cases file
          | some n => rfl
        by_cases same : t = w.1
        · rw [← same, absent] at present
          cases present
        · rw [FileSystem.dir_of_below present front same] at absent
          cases absent
    · rcases inside w there with ⟨under, -⟩ | ⟨-, empty⟩
      · exact under
      · exact absurd empty nonempty

/-- What is at a path after the last write there, when every entry is reached. -/
theorem entries_last_iff {hdrs : List Entry} (success : (Unpacking.entries dst hdrs ⟨fs, []⟩).1 = true)
    {front back : List Write} {p : CleanPath} {bytes : List UInt8}
    (split : writes dst hdrs = front ++ (p, bytes) :: back) (last : p ∉ back.map Prod.fst) :
    (Unpacking.entries dst hdrs ⟨fs, []⟩).2.fs.node p = some (.file bytes) ↔
      (fs.content p).length ≤ bytes.length ∧ ∀ w ∈ front, w.1 = p → w.2.length ≤ bytes.length := by
  obtain ⟨ok, s, ran, all, after⟩ := (after_nil fs).entries dst hdrs
  rw [ran] at success ⊢
  rw [List.nil_append, all.mp success, split] at after
  have node := after.node p
  rw [if_pos (by simp)] at node
  rw [node, Option.some.injEq, FileNode.file.injEq, laid_last_iff last]

/-- The archive is unpacked faithfully exactly if what is written stays inside and covers what was there. -/
theorem entries_faithful_iff (fs : FileSystem) (dst : CleanPath) (hdrs : List Entry) :
    Faithful fs dst hdrs (Unpacking.entries dst hdrs ⟨fs, []⟩).1 (Unpacking.entries dst hdrs ⟨fs, []⟩).2 ↔
      (∀ w ∈ reached fs [] (writes dst hdrs), Inside fs dst w) ∧ Covering fs (writes dst hdrs) := by
  obtain ⟨ok, s, ran, all, after⟩ := (after_nil fs).entries dst hdrs
  have last := @entries_last_iff fs dst hdrs
  rw [List.map_nil] at all after
  rw [List.nil_append] at after
  rw [ran] at last ⊢
  rw [← after.confined_iff]
  constructor
  · intro faithful
    refine ⟨faithful.confined, fun whole front p bytes back split outside => ?_⟩
    exact (last (all.mpr whole) split outside).mp (faithful.exact (all.mpr whole) front p bytes back split outside)
  · rintro ⟨confined, covering⟩
    refine ⟨confined, fun p outside => after.kept fun touched => outside (confined p touched), ?_⟩
    intro success front p bytes back split outside
    exact (last success split outside).mpr (covering (all.mp success) front p bytes back split outside)

end Untar

/-! ## `Untar` after `Tar` -/

theorem cutPrefix_append (front s : List Char) : cutPrefix front (front ++ s) = s := by
  rw [cutPrefix, if_pos (List.isPrefixOf_iff_prefix.mpr (List.prefix_append front s)), List.drop_left]

/-- What begins with no slash is not cut. -/
theorem cutPrefix_relative (p : CleanPath) : cutPrefix ['/'] (relative p) = relative p := by
  rw [cutPrefix, if_neg]
  rw [List.isPrefixOf_iff_prefix]
  rintro ⟨rest, split⟩
  cases p with
  | nil => cases split
  | cons n p =>
    have first : ∃ c cs, n.text = c :: cs := by
      cases text : n.text with
      | nil => exact absurd text n.named.1
      | cons c cs => exact ⟨c, cs, rfl⟩
    obtain ⟨c, cs, text⟩ := first
    have solid := n.solid
    rw [text] at solid
    have head := congrArg List.head? split
    cases p with
    | nil =>
      rw [relative, List.map_singleton, text] at head
      have same : '/' = c := by simpa [List.intercalate] using head
      exact solid (same ▸ List.mem_cons_self)
    | cons m p =>
      rw [relative, List.map_cons, List.map_cons, text] at head
      have same : '/' = c := by simpa [List.intercalate] using head
      exact solid (same ▸ List.mem_cons_self)

/-- The name of a file below the directory that is packed leads to it from any other. -/
theorem join_entryName (dst src q : CleanPath) :
    join dst (entryName (absolute (src ++ q)) (absolute src)) = dst ++ q := by
  have name : entryName (absolute (src ++ q)) (absolute src) = relative q := by
    unfold entryName absolute
    by_cases none_ : src = []
    · rw [none_, List.nil_append]
      have cut : cutPrefix ('/' :: relative []) ('/' :: relative q) = relative q := cutPrefix_append ['/'] (relative q)
      rw [cut, cutPrefix_relative]
    · by_cases none_' : q = []
      · rw [none_', List.append_nil]
        have cut := cutPrefix_append ('/' :: relative src) []
        rw [List.append_nil] at cut
        rw [cut]
        rfl
      · rw [relative_append none_ none_', ← List.cons_append, cutPrefix_append]
        exact cutPrefix_append ['/'] (relative q)
  rw [name, join_relative]

section RoundTrip
variable {codec : Codec} {fs fs₀ fs₁ : FileSystem} {src a dst : CleanPath} {walk : List CleanPath}
  {flushed : List UInt8}

/-- Creating the archive changes nothing else that is read. -/
theorem packed_created (created : fs.setFile a [] = some fs₀) (trim : List Char) :
    packed fs₀ a trim walk flushed = packed fs a trim walk flushed := by
  refine List.map_congr_left fun path _ => ?_
  have same : seen fs₀ a flushed path = seen fs a flushed path := by
    unfold seen
    split
    · rfl
    · next other => rw [FileSystem.content, FileSystem.content, FileSystem.node_setFile created, if_neg other]
  rw [same]

theorem writes_packed (walks : Walks fs₀ src walk) : writes dst (packed fs a (absolute src) walk flushed) =
    walk.map fun path => (dst ++ path.drop src.length, seen fs a flushed path) := by
  have regular : ∀ hdr ∈ packed fs a (absolute src) walk flushed, decide (hdr.typeflag = .reg) = true := by
    intro hdr inside
    obtain ⟨path, -, rfl⟩ := List.mem_map.mp inside
    rfl
  rw [writes, List.filter_eq_self.mpr regular, packed, List.map_map]
  refine List.map_congr_left fun path there => ?_
  obtain ⟨q, rfl⟩ := ((walks.mem path).mp there).1
  rw [Function.comp_apply, join_entryName, List.drop_left]

/-- The files that were packed are reproduced exactly if none was longer. -/
theorem untar_tar_iff (created : fs.setFile a [] = some fs₀) (walks : Walks fs₀ src walk)
    (archived : tar codec fs src a (absolute src) walk flushed = some fs₁)
    (round : codec.read (codec.write (packed fs a (absolute src) walk flushed)) =
      some (packed fs a (absolute src) walk flushed))
    (success : (untar codec fs₁ a dst).1 = true) :
    (∀ q, src ++ q ∈ walk →
        (untar codec fs₁ a dst).2.fs.node (dst ++ q) = some (.file (seen fs a flushed (src ++ q)))) ↔
      ∀ q, src ++ q ∈ walk → (fs₁.content (dst ++ q)).length ≤ (seen fs a flushed (src ++ q)).length := by
  have stored : fs₁.node a = some (.file (codec.write (packed fs a (absolute src) walk flushed))) := by
    rw [tar, created, Option.bind_some] at archived
    split at archived
    · rw [FileSystem.node_setFile archived, if_pos rfl, packed_created created]
    · cases archived
  have run : untar codec fs₁ a dst =
      Unpacking.entries dst (packed fs a (absolute src) walk flushed) ⟨fs₁, []⟩ := by
    rw [untar, stored]
    dsimp only
    rw [round]
  rw [run] at success ⊢
  refine forall_congr' fun q => forall_congr' fun there => ?_
  obtain ⟨front, back, split⟩ := List.append_of_mem there
  have written := @writes_packed fs fs₀ src a dst walk flushed walks
  have place : dst ++ (src ++ q).drop src.length = dst ++ q := by rw [List.drop_left]
  have cut := written
  rw [split, List.map_append, List.map_cons, place, ← split] at cut
  -- Other files of the directory go to other paths.
  have apart : ∀ path ∈ walk, path ≠ src ++ q → dst ++ path.drop src.length ≠ dst ++ q := by
    intro path inside other same
    obtain ⟨q', rfl⟩ := ((walks.mem path).mp inside).1
    rw [List.drop_left, List.append_cancel_left_eq] at same
    exact other (by rw [same])
  have once := walks.once
  rw [split] at once
  obtain ⟨-, tail, disjoint⟩ := List.nodup_append.mp once
  have after : dst ++ q ∉
      (back.map fun path => (dst ++ path.drop src.length, seen fs a flushed path)).map Prod.fst := by
    rw [List.map_map]
    intro inside
    obtain ⟨path, member, same⟩ := List.mem_map.mp inside
    have other : path ≠ src ++ q := fun equal => (List.nodup_cons.mp tail).1 (equal ▸ member)
    exact apart path (split ▸ by simp [member]) other same
  rw [entries_last_iff success cut after, and_iff_left]
  intro w inside same
  obtain ⟨path, member, rfl⟩ := List.mem_map.mp inside
  have other : path ≠ src ++ q := fun equal => disjoint path member (src ++ q) List.mem_cons_self equal
  exact absurd same (apart path (split ▸ by simp [member]) other)

end RoundTrip

/-- Any archive is unpacked faithfully exactly if no entry that is reached leads out of the directory and the last
entries for the paths cover what was there; of a directory that was packed, every regular file is reproduced exactly
if no file there was longer. -/
theorem untar_iff (codec : Codec) :
    (∀ (fs : FileSystem) (src dst : CleanPath) (archive : List UInt8) (hdrs : List Entry),
      fs.node src = some (.file archive) → codec.read archive = some hdrs →
        (Faithful fs dst hdrs (untar codec fs src dst).1 (untar codec fs src dst).2 ↔
          (∀ w ∈ reached fs [] (writes dst hdrs), Inside fs dst w) ∧ Covering fs (writes dst hdrs))) ∧
    ∀ (fs fs₀ fs₁ : FileSystem) (src a dst : CleanPath) (walk : List CleanPath) (flushed : List UInt8),
      fs.setFile a [] = some fs₀ → Walks fs₀ src walk →
      tar codec fs src a (absolute src) walk flushed = some fs₁ →
      codec.read (codec.write (packed fs a (absolute src) walk flushed)) =
        some (packed fs a (absolute src) walk flushed) →
      (untar codec fs₁ a dst).1 = true →
        ((∀ q, src ++ q ∈ walk →
            (untar codec fs₁ a dst).2.fs.node (dst ++ q) = some (.file (seen fs a flushed (src ++ q)))) ↔
          ∀ q, src ++ q ∈ walk → (fs₁.content (dst ++ q)).length ≤ (seen fs a flushed (src ++ q)).length) := by
  refine ⟨fun fs src dst archive hdrs there decodes => ?_, fun fs fs₀ fs₁ src a dst walk flushed created walks archived
    round success => untar_tar_iff created walks archived round success⟩
  have run : untar codec fs src dst = Unpacking.entries dst hdrs ⟨fs, []⟩ := by
    rw [untar, there]
    dsimp only
    rw [decodes]
  rw [run]
  exact entries_faithful_iff fs dst hdrs

/-- The names of the archive and of a file. -/
def archiveName : FileName := ⟨"a".toList, by decide, by decide⟩

def fileName : FileName := ⟨"f".toList, by decide, by decide⟩

/-- An archive of one file of one byte. -/
def oneByte : Codec := ⟨fun _ => [], fun _ => some [⟨.reg, "f".toList, [9]⟩]⟩

/-- A directory of one file, which is packed into an archive in it. -/
def oneFile : FileSystem := .flat [(fileName, [7])]

/-- The regular files of it, when the archive is there. -/
def oneWalk : List CleanPath := [[archiveName], [fileName]]

/-- The archive of it. -/
def oneFileCodec : Codec := ⟨fun _ => [], fun _ => some (packed oneFile [archiveName] (absolute []) oneWalk [])⟩

theorem oneWalk_walks {fs₀ : FileSystem} (created : oneFile.setFile [archiveName] [] = some fs₀) :
    Walks fs₀ [] oneWalk where
  once := by decide
  mem path := by
    rw [and_iff_right List.nil_prefix, FileSystem.node_setFile created]
    by_cases archive : path = [archiveName]
    · rw [if_pos archive, archive]
      exact ⟨fun _ => rfl, fun _ => List.mem_cons_self⟩
    · rw [if_neg archive]
      constructor
      · intro inside
        have file : path = [fileName] := by simpa [oneWalk, archive] using inside
        rw [file]
        rfl
      · intro file
        rcases path with _ | ⟨n, _ | ⟨m, path⟩⟩
        · cases file
        · have named : n = fileName := by
            by_contra other
            have absent : oneFile.node [n] = none := by
              simp [oneFile, FileSystem.flat, List.lookup_cons, List.lookup_nil, beq_false_of_ne other]
            rw [absent] at file
            cases file
          rw [named]
          exact List.mem_cons_of_mem _ List.mem_cons_self
        · cases file

theorem untar_iff_oneByte :
    Faithful (.flat [(archiveName, [0])]) [] [⟨.reg, "f".toList, [9]⟩]
        (untar oneByte (.flat [(archiveName, [0])]) [archiveName] []).1
        (untar oneByte (.flat [(archiveName, [0])]) [archiveName] []).2 ∧
      ∃ fs₁, tar oneFileCodec oneFile [] [archiveName] (absolute []) oneWalk [] = some fs₁ ∧
        ∀ q, [] ++ q ∈ oneWalk → (untar oneFileCodec fs₁ [archiveName] []).2.fs.node ([] ++ q) =
          some (.file (seen oneFile [archiveName] [] ([] ++ q))) := by
  constructor
  · refine ((untar_iff oneByte).1 (.flat [(archiveName, [0])]) [archiveName] [] [0] [⟨.reg, "f".toList, [9]⟩]
      (by decide) rfl).mpr ⟨fun w _ => .inl ⟨List.nil_prefix, fun q front other => ?_⟩, ?_⟩
    · exact absurd (List.prefix_nil.mp front) other
    · intro whole front p bytes back split last
      have single : [([fileName], [9])] = front ++ (p, bytes) :: back := split
      rcases List.singleton_eq_append_iff.mp single with ⟨rfl, same⟩ | ⟨-, none_⟩
      · cases same
        exact ⟨by decide, fun w inside => absurd inside List.not_mem_nil⟩
      · cases none_
  · refine ⟨_, rfl, ((untar_iff oneFileCodec).2 oneFile _ _ [] [archiveName] [] oneWalk [] rfl (oneWalk_walks rfl) rfl
      rfl (by decide)).mpr fun q inside => ?_⟩
    have either : q = [archiveName] ∨ q = [fileName] := by simpa [oneWalk] using inside
    rcases either with rfl | rfl <;> decide

/-- A longer file keeps its end. -/
theorem untar_longer : ¬ Faithful (.flat [(archiveName, [0]), (fileName, [1, 2, 3])]) [] [⟨.reg, "f".toList, [9]⟩]
    (untar oneByte (.flat [(archiveName, [0]), (fileName, [1, 2, 3])]) [archiveName] []).1
    (untar oneByte (.flat [(archiveName, [0]), (fileName, [1, 2, 3])]) [archiveName] []).2 := by
  intro faithful
  have kept := faithful.exact (by decide) [] [fileName] [9] [] (by decide) (by decide)
  revert kept
  decide

end KubeKey.Core.Util
