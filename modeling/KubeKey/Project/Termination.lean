import Mathlib.Data.Set.Finite.Lattice
import Mathlib.Data.Finite.Prod
import KubeKey.Project.References

/-!
# When the loader comes to an end

A project has finitely many files, so there are finitely many calls that the loader can come
to, and it does not end if and only if one of them leads back to itself (`Loops`). It is
enough for the end that the references in the files have no cycle. Where they have one and
the loader still ends, it has met an error on the way to it (`marshalPlaybook_returns_iff`).
-/

namespace KubeKey.Loader

open KubeKey.Go KubeKey.Go.Fallible Relation

section Termination

variable {α : Type} (dec : Decoder α) (fs : GoMap File)

/-- A call has a reference. -/
def Refers (c d : Call α) : Prop := d ∈ refs dec fs c

/-- A call comes to follow a reference: nothing before it fails. -/
def Follows (c d : Call α) : Prop := CallsOf (body dec fs) c d

/-- The references from the base playbook form a cycle. -/
def Cyclic (basePlaybook : String) : Prop := ¬ Acyclic (Refers dec fs) (.loadPlaybook basePlaybook)

/-- The loader comes to a file, a role or a playbook that it is in the middle of. -/
def Loops (basePlaybook : String) : Prop := ¬ Acyclic (Follows dec fs) (.loadPlaybook basePlaybook)

/-- The loader comes to write to a nil map. -/
def WritesNil (basePlaybook : String) : Prop :=
  ∃ top, ReflTransGen (Follows dec fs) (.loadPlaybook basePlaybook) (.annotate none top)

/-- `MarshalPlaybook` has this outcome. -/
def Ends (basePlaybook : String) (o : Outcome (Except LoadErr (List (Play α)))) : Prop :=
  Proc.Ends (fun c => (body dec fs c).run) (marshalPlaybook (α := α) basePlaybook).run o

/-- `MarshalPlaybook` returns, and with an error if the references form a cycle. -/
def Returns (basePlaybook : String) : Prop :=
  ∃ result, Ends dec fs basePlaybook (.returned result) ∧ (Cyclic dec fs basePlaybook → ∃ e, result = .error e)

variable {dec fs}

theorem follows_refers {c d : Call α} (follows : Follows dec fs c d) : Refers dec fs c d :=
  (tracked c).calls d follows

/-- Without a cycle of references the loader does not loop. -/
theorem cyclic_of_loops {basePlaybook : String} (loops : Loops dec fs basePlaybook) : Cyclic dec fs basePlaybook := by
  intro acyclic
  refine loops fun d reached cycle => ?_
  exact acyclic d (reached.lift id fun _ _ => follows_refers) (cycle.lift id fun _ _ => follows_refers)

/-! ## The calls of a project are finitely many -/

variable (fs) in
/-- The paths that exist. -/
def paths : Set String := {path | (fs.get? path).isSome}

theorem finite_paths : (paths fs).Finite := by
  refine (List.finite_toSet fs.keys).subset fun path exists_ => ?_
  obtain ⟨file, found⟩ := Option.isSome_iff_exists.mp exists_
  exact List.mem_map.mpr ⟨(path, file), mem_of_lookup found, rfl⟩

theorem getPath_mem {l : List String} (exists_ : getPath fs l ≠ "") : getPath fs l ∈ paths fs := by
  unfold getPath at exists_ ⊢
  cases found : l.find? fun path => (fs.get? path).isSome with
  | none => simp [found] at exists_
  | some path =>
    have member := List.find?_some found
    exact member

theorem load_mem {β : Type} {decode : Yaml → Option β} {zero : β} {path : String} {read bad : LoadErr} {b : β}
    (loaded : load fs decode zero path read bad = .ok b) : path ∈ paths fs := by
  unfold load readFile at loaded
  cases found : fs.get? path with
  | none => simp [found] at loaded
  | some file => simp [paths, found]

variable (dec fs) in
/-- The roles that the files name. -/
def namedRoles : Set (Role α) :=
  ⋃ path ∈ paths fs,
    {r | ∃ ps, playbookFile dec fs path = .ok ps ∧ ∃ p ∈ ps, r ∈ p.roles} ∪
      {r | ∃ deps, metaFile dec fs path = .ok deps ∧ r ∈ deps}

theorem finite_namedRoles : (namedRoles dec fs).Finite := by
  refine finite_paths.biUnion fun path _ => Set.Finite.union ?_ ?_
  · cases read : playbookFile dec fs path with
    | error e => simp
    | ok ps =>
      refine ((List.finite_toSet (ps.flatMap fun p => p.roles))).subset ?_
      rintro r ⟨ps', same, p, inside, member⟩
      cases same
      exact List.mem_flatMap.mpr ⟨p, inside, member⟩
  · cases read : metaFile dec fs path with
    | error e => simp
    | ok deps =>
      refine (List.finite_toSet deps).subset ?_
      rintro r ⟨deps', same, member⟩
      cases same
      exact member

variable (fs) in
/-- The directories that tasks belong to. -/
def tops : Set String := dir '' paths fs ∪ (paths fs ∪ {""})

theorem finite_tops : (tops fs).Finite :=
  (finite_paths.image dir).union (finite_paths.union (Set.finite_singleton ""))

variable (dec fs) in
/-- The calls for the files of the project. -/
def projectCalls : Set (Call α) :=
  Call.loadPlaybook '' paths fs ∪
    (Set.image2 Call.dealRole (namedRoles dec fs) (paths fs) ∪
      Set.image2 (fun top file => Call.dealBlock top (dir file) ((taskFile dec fs file).toOption.getD [])) (tops fs)
        (paths fs))

theorem finite_projectCalls : (projectCalls dec fs).Finite :=
  (finite_paths.image _).union ((finite_namedRoles.image2 _ finite_paths).union (finite_tops.image2 _ finite_paths))

/-! ## What the calls of a project refer to -/

variable (fs) in
/-- A call that belongs to the project. -/
def Belongs : Call α → Prop
  | .loadPlaybook _ => True
  | .dealRole _ basePlaybook => basePlaybook ∈ paths fs
  | .dealBlock top _ _ => top ∈ tops fs
  | .annotate _ _ => True

variable (dec fs) in
/-- What a call may refer to: another call of the project, or a write. -/
def InProject (d : Call α) : Prop := d ∈ projectCalls dec fs ∧ Belongs fs d ∨ ∃ unknownField top, d = .annotate unknownField top

mutual

theorem blockRefs_inProject {top source : String} (known : top ∈ tops fs) {d : Call α} :
    ∀ bs : List (Block α), d ∈ blockRefs dec fs top source bs → InProject dec fs d
  | [], inside => by
    simp [blockRefs] at inside
  | b :: rest, inside => by
    simp only [blockRefs] at inside
    obtain inside | inside := inside
    · exact oneRefs_inProject known b inside
    · exact blockRefs_inProject known rest inside

theorem oneRefs_inProject {top source : String} (known : top ∈ tops fs) {d : Call α} :
    ∀ b : Block α, d ∈ oneRefs dec fs top source b → InProject dec fs d
  | .mk fields includeTasks unknownField block rescue always, inside => by
    simp only [oneRefs] at inside
    split at inside
    · obtain inside | inside | inside := inside
      · exact blockRefs_inProject known block inside
      · exact blockRefs_inProject known rescue inside
      · exact blockRefs_inProject known always inside
    · split at inside
      · obtain ⟨file, bs, found, exists_, read, rfl⟩ := inside
        subst found
        refine .inl ⟨.inr (.inr ⟨top, known, _, getPath_mem exists_, ?_⟩), known⟩
        simp [read, Except.toOption]
      · exact .inr ⟨unknownField, top, inside⟩

end

theorem getPath_mem_tops (l : List String) : getPath fs l ∈ tops fs := by
  by_cases missing : getPath fs l = ""
  · exact .inr (.inr missing)
  · exact .inr (.inl (getPath_mem missing))

mutual

theorem roleTaskRefs_inProject {basePlaybook : String} {d : Call α} :
    ∀ role : Role α, d ∈ roleTaskRefs dec fs basePlaybook role → InProject dec fs d
  | .mk fields vars role roleDependency block, inside => by
    simp only [roleTaskRefs] at inside
    obtain inside | inside := inside
    · exact roleTasksRefs_inProject roleDependency inside
    · exact blockRefs_inProject (getPath_mem_tops _) block inside

theorem roleTasksRefs_inProject {basePlaybook : String} {d : Call α} :
    ∀ roles : List (Role α), d ∈ roleTasksRefs dec fs basePlaybook roles → InProject dec fs d
  | [], inside => by
    simp [roleTasksRefs] at inside
  | role :: rest, inside => by
    simp only [roleTasksRefs] at inside
    obtain inside | inside := inside
    · exact roleTaskRefs_inProject role inside
    · exact roleTasksRefs_inProject rest inside

end

/-- A call of the project refers to calls of the project. -/
theorem refers_inProject {c d : Call α} (belongs : Belongs fs c) (refers : Refers dec fs c d) : InProject dec fs d := by
  cases c with
  | loadPlaybook basePlaybook =>
    obtain ⟨ps, read, p, inside, refers⟩ := refers
    have exists_ : basePlaybook ∈ paths fs := load_mem read
    have known : dir basePlaybook ∈ tops fs := .inl ⟨basePlaybook, exists_, rfl⟩
    obtain ⟨-, path, found, exists', rfl⟩ | refers | refers | refers | ⟨role, used, refers⟩ := refers
    · subst found
      exact .inl ⟨.inl ⟨_, getPath_mem exists', rfl⟩, trivial⟩
    · exact blockRefs_inProject known _ refers
    · exact blockRefs_inProject known _ refers
    · exact blockRefs_inProject known _ refers
    · obtain rfl | ⟨dealt, -, refers⟩ := refers
      · have named : role ∈ namedRoles dec fs :=
          Set.mem_biUnion exists_ (.inl ⟨ps, read, p, inside, used⟩)
        exact .inl ⟨.inr (.inl ⟨role, named, basePlaybook, exists_, rfl⟩), exists_⟩
      · exact roleTaskRefs_inProject dealt refers
  | dealRole role basePlaybook =>
    obtain ⟨fields, vars, role, roleDependency, block⟩ := role
    obtain ⟨baseRole, file, deps, -, -, found, exists_, read, dep, inside, rfl⟩ := refers
    have named : dep ∈ namedRoles dec fs := Set.mem_biUnion (load_mem read) (.inr ⟨deps, read, inside⟩)
    exact .inl ⟨.inr (.inl ⟨dep, named, basePlaybook, belongs, rfl⟩), belongs⟩
  | dealBlock top source blocks => exact blockRefs_inProject belongs blocks refers
  | annotate unknownField top => exact refers.elim

theorem belongs_of_follows {basePlaybook : String} {c : Call α}
    (reached : ReflTransGen (Follows dec fs) (.loadPlaybook basePlaybook) c) : Belongs fs c := by
  induction reached with
  | refl => trivial
  | tail _ follows ih =>
    obtain ⟨-, belongs⟩ | ⟨unknownField, top, rfl⟩ := refers_inProject ih (follows_refers follows)
    · exact belongs
    · trivial

/-- A loader that does not loop is accessible. -/
theorem acc_of_not_loops {basePlaybook : String} (ends : ¬ Loops dec fs basePlaybook) :
    Acc (fun d c => Follows dec fs c d) (.loadPlaybook basePlaybook) := by
  have finite : (projectCalls dec fs).Finite := finite_projectCalls
  refine acc_of_acyclic finite (fun c d reached follows => ?_) (not_not.mp ends)
  obtain ⟨inside, -⟩ | ⟨unknownField, top, rfl⟩ :=
    refers_inProject (belongs_of_follows reached) (follows_refers follows)
  · exact .inl inside
  · exact .inr fun e further => (follows_refers further).elim

/-- `MarshalPlaybook` has the outcome of the base playbook, and then validates. -/
theorem ends_iff {basePlaybook : String} {o : Outcome (Except LoadErr (List (Play α)))} :
    Ends dec fs basePlaybook o ↔
      Proc.Ends (fun c => (body dec fs c).run) (body dec fs (.loadPlaybook basePlaybook)).run .panicked ∧ o = .panicked ∨
      ∃ result : Except LoadErr (List (Play α)),
        Proc.Ends (fun c => (body dec fs c).run) (body dec fs (.loadPlaybook basePlaybook)).run (.returned result) ∧
        o = .returned (result.bind validate) := by
  constructor
  · intro ends
    cases ends with
    | callPanics callee => exact .inl ⟨callee, rfl⟩
    | @callReturns _ _ _ result _ callee rest =>
      refine .inr ⟨result, callee, ?_⟩
      cases result <;> cases rest <;> rfl
  · rintro (⟨callee, rfl⟩ | ⟨result, callee, rfl⟩)
    · exact .callPanics callee
    · cases result <;> exact .callReturns callee (.done _)

/-- A load that returns does not loop and writes to no nil map. -/
theorem not_loops_of_ends {basePlaybook : String} {result : Except LoadErr (List (Play α))}
    (ends : Ends dec fs basePlaybook (.returned result)) :
    ¬ Loops dec fs basePlaybook ∧ ¬ WritesNil dec fs basePlaybook := by
  obtain ⟨-, ⟨⟩⟩ | ⟨loaded, callee, -⟩ := ends_iff.mp ends
  have acc := (Proc.ends_iff_acc (Call.loadPlaybook basePlaybook)).mp ⟨_, callee⟩
  constructor
  · refine not_not.mpr fun d reached cycle => ?_
    have acc' : Acc (fun d c => Follows dec fs c d) d := by
      clear cycle
      induction reached with
      | refl => exact acc
      | tail _ follows ih => exact ih.inv follows
    exact Proc.not_ends_of_cycle cycle ((Proc.ends_iff_acc d).mpr acc')
  · rintro ⟨top, reached⟩
    cases callee.unique (Proc.panics_of_reaches reached .panic)

/-- For every project: `MarshalPlaybook` returns, with an error if the references form a cycle, if and only if the
loader does not come back to something that it is in the middle of, nor to a nil map. It does not come back to
something if the references form no cycle. -/
theorem marshalPlaybook_returns_iff (dec : Decoder α) (fs : GoMap File) (basePlaybook : String) :
    (Returns dec fs basePlaybook ↔ ¬ Loops dec fs basePlaybook ∧ ¬ WritesNil dec fs basePlaybook) ∧
      (Loops dec fs basePlaybook → Cyclic dec fs basePlaybook) := by
  refine ⟨⟨?_, ?_⟩, cyclic_of_loops⟩
  · rintro ⟨result, ends, -⟩
    exact not_loops_of_ends ends
  · rintro ⟨noLoop, noNil⟩
    obtain ⟨o, callee⟩ := (Proc.ends_iff_acc (Call.loadPlaybook basePlaybook)).mpr (acc_of_not_loops noLoop)
    cases o with
    | panicked =>
      -- A panic comes from a write to a nil map.
      obtain ⟨d, reached, loud⟩ := Proc.reaches_of_panics callee
      obtain ⟨top, rfl⟩ := eq_annotate_of_loud loud
      exact absurd ⟨top, reached⟩ noNil
    | returned result =>
      refine ⟨result.bind validate, ends_iff.mpr (.inr ⟨result, callee, rfl⟩), fun cyclic => ?_⟩
      cases result with
      | error e => exact ⟨e, rfl⟩
      | ok plays => exact absurd (acyclic_of_succeeds tracked callee) cyclic

end Termination

/-- A decoder that takes no other fields, for examples. -/
def plainDecoder : Decoder Unit := ⟨(), fun _ => some (), fun _ _ => some (), fun _ => some (), fun _ => some (), false⟩

/-- A playbook that imports itself. -/
def selfImport : GoMap File :=
  .ofList [("playbook.yaml", .file (.node (.seq [.map [("import_playbook", .scalar "playbook.yaml" false)] []])))]

/-- The loader never returns on a playbook that imports itself. -/
theorem selfImport_never_returns : ¬ Returns plainDecoder selfImport "playbook.yaml" := by
  have loops : Follows plainDecoder selfImport (.loadPlaybook "playbook.yaml") (.loadPlaybook "playbook.yaml") := .here
  rintro ⟨result, ends, -⟩
  exact (not_loops_of_ends ends).1 fun acyclic => acyclic _ .refl (.single loops)

end KubeKey.Loader
