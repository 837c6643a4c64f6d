import KubeKey.Modules.ImageStore

/-!
# The directory of images as a registry

`Registry` is what the directory stands for: a blob or nothing for each digest, shared by all
repositories, and a manifest or nothing for each reference in each repository. A client
cannot tell the transport from it (`answers_as_registry`): in every run of requests, also
with writes that are refused or break off, both give the same responses. And what
`findLocalImageManifests` finds afterwards are the tags of the registry (`found_tags`); it
gives up if and only if some manifest names no media type, whatever the others are.

Left out of this are the names that the directory has for itself: a registry called `blobs`,
a repository with `manifests` among its names, and the reference `uploads`. A tag called
`manifests` is stored like any other, but not found.
-/

namespace KubeKey.Modules.ImageStore

open KubeKey.Go KubeKey.Text.Strings

/-! ## Requests and the registry -/

/-- A repository of a registry; its names are not those of the directory, and without a colon, which begins a tag. -/
structure Repository where
  host : FileName
  name : CleanPath
  named : name ≠ []
  colonless : ∀ n ∈ name, ':' ∉ n.text
  apart : host ≠ blobs
  plain : manifests ∉ name
deriving DecidableEq

structure Reference where
  name : FileName
  apart : name ≠ uploads
deriving DecidableEq

/-- What the client asks a registry for. -/
inductive Op where
  | statBlob (r : Repository) (digest : FileName)
  | getBlob (r : Repository) (digest : FileName)
  | startUpload (r : Repository)
  | putBlob (r : Repository) (digest : FileName) (body : List UInt8) (write : Write)
  | statManifest (r : Repository) (reference : Reference)
  | getManifest (r : Repository) (reference : Reference)
  | putManifest (r : Repository) (reference : Reference) (body : List UInt8) (write : Write)

/-- The path of a request that is about something in a repository. -/
def Repository.url (r : Repository) (kind name : FileName) : List Char := absolute (v2 :: r.name ++ [kind] ++ [name])

/-- The requests of the client. -/
def Op.request : Op → Request
  | statBlob r digest => { method := .head, host := r.host.text, path := r.url blobs digest }
  | getBlob r digest => { method := .get, host := r.host.text, path := r.url blobs digest }
  | startUpload r => { method := .post, host := r.host.text, path := r.url blobs uploads ++ ['/'] }
  | putBlob r digest body _ =>
    { method := .put, host := r.host.text, path := r.url blobs uploads, digest := digest.text, body := body }
  | statManifest r reference => { method := .head, host := r.host.text, path := r.url manifests reference.name }
  | getManifest r reference => { method := .get, host := r.host.text, path := r.url manifests reference.name }
  | putManifest r reference body _ =>
    { method := .put, host := r.host.text, path := r.url manifests reference.name, body := body }

def Op.write : Op → Write
  | putBlob _ _ _ write | putManifest _ _ _ write => write
  | _ => .done

/-- The transport serves the requests. -/
def serveFiles (decode : List UInt8 → Decoded) (d : Disk) (op : Op) : Response × Disk :=
  roundTrip decode d op.request op.write

structure Registry where
  blob : FileName → Option (List UInt8)
  manifest : Repository → FileName → Option (List UInt8)

namespace Registry

def empty : Registry := ⟨fun _ => none, fun _ _ => none⟩

/-- What is there after a write, and the answer to it. -/
def stored (old : Option (List UInt8)) (body : List UInt8) : Write → Option (List UInt8)
  | .done => some body
  | .refused => old
  | .torn n => some (body.take n)

def putAnswer : Write → Response
  | .done => { status := .created }
  | .refused | .torn _ => { status := .internalServerError }

/-- The answer to a request for a manifest. -/
def manifestAnswer (decode : List UInt8 → Decoded) (withBody : Bool) : Option (List UInt8) → Response
  | none => { status := .notFound }
  | some file =>
    match decode file with
    | .typed mediaType =>
      { status := .ok, contentType := some mediaType, contentLength := file.length,
        body := if withBody then some file else none }
    | _ => { status := .internalServerError }

def answer (decode : List UInt8 → Decoded) (R : Registry) : Op → Response
  | .statBlob _ digest => if (R.blob digest).isNone then { status := .notFound } else { status := .ok }
  | .getBlob _ digest =>
    match R.blob digest with
    | none => { status := .notFound }
    | some file => { status := .ok, contentLength := file.length, body := some file }
  | .startUpload r => { status := .accepted, location := some (r.url blobs uploads) }
  | .putBlob _ _ _ write | .putManifest _ _ _ write => putAnswer write
  | .statManifest r reference => manifestAnswer decode false (R.manifest r reference.name)
  | .getManifest r reference => manifestAnswer decode true (R.manifest r reference.name)

def next (R : Registry) : Op → Registry
  | .putBlob _ digest body write =>
    { R with blob := Function.update R.blob digest (stored (R.blob digest) body write) }
  | .putManifest r reference body write =>
    { R with manifest := Function.update R.manifest r (Function.update (R.manifest r) reference.name
        (stored (R.manifest r reference.name) body write)) }
  | _ => R

def serve (decode : List UInt8 → Decoded) (R : Registry) (op : Op) : Response × Registry :=
  (R.answer decode op, R.next op)

end Registry

/-! ## Where things are -/

/-- The directory of the manifests of a repository. -/
def Repository.place (r : Repository) : CleanPath := r.host :: r.name ++ [manifests]

/-- A file of the store. -/
inductive Target : CleanPath → Prop where
  | blob (digest : FileName) : Target [blobs, digest]
  | manifest (r : Repository) (reference : FileName) : Target (r.place ++ [reference])

theorem Repository.place_ne (r : Repository) (digest reference : FileName) :
    r.place ++ [reference] ≠ [blobs, digest] := by
  intro same
  exact r.apart (List.cons.inj same).1

theorem Repository.place_inj {r r' : Repository} {n n' : FileName} :
    r.place ++ [n] = r'.place ++ [n'] ↔ r = r' ∧ n = n' := by
  constructor
  · intro same
    obtain ⟨places, names⟩ := List.append_inj' same rfl
    obtain ⟨front, -⟩ := List.append_inj' places rfl
    obtain ⟨host, name⟩ := List.cons.inj front
    cases r
    cases r'
    simp only at host name
    subst host name
    exact ⟨rfl, (List.cons.inj names).1⟩
  · rintro ⟨rfl, rfl⟩
    rfl

/-- Only the last name but one of a file is `manifests`, so that no file lies in the way of another. -/
theorem Target.not_above {t t' : CleanPath} (target : Target t) (target' : Target t') : ¬ t <+: t'.dropLast := by
  rintro ⟨rest, split⟩
  cases target with
  | blob digest =>
    cases target' with
    | blob digest' => cases rest <;> cases split
    | manifest r reference =>
      rw [List.dropLast_concat] at split
      exact r.apart (List.cons.inj split).1.symm
  | manifest r reference =>
    cases target' with
    | blob digest =>
      have length := congrArg List.length split
      simp [Repository.place] at length
    | manifest r' reference' =>
      rw [List.dropLast_concat] at split
      -- the name `manifests` of the first path stands among the names of the other repository
      have inside : r.name ++ [manifests] <+: r'.name := by
        have names := (List.cons.inj split).2
        have shorter : r.name ++ [manifests] <+: r'.name ++ [manifests] := by
          refine ⟨reference :: rest, ?_⟩
          simpa [Repository.place] using names
        rcases List.prefix_concat_iff.mp shorter with same | shorter
        · have length := congrArg List.length split
          have length' := congrArg List.length same
          simp [Repository.place] at length length'
          omega
        · exact shorter
      exact r'.plain (inside.subset (List.mem_append_right _ List.mem_cons_self))

/-! ## The texts of the requests -/

section Texts

variable (r : Repository) (kind name : FileName)

theorem Repository.dirName_url : dirName (r.url kind name) = absolute (v2 :: r.name ++ [kind]) := dirName_absolute _ _

theorem Repository.baseName_url : baseName (r.url kind name) = name.text := baseName_absolute _ _

theorem hasSuffix_absolute (q : CleanPath) : hasSuffix (absolute (q ++ [kind])) kind.text = true := by
  rw [absolute_concat, hasSuffix, List.isSuffixOf_iff_suffix]
  exact (List.suffix_cons _ _).trans (List.suffix_append _ _)

theorem hasSuffix_slash (q : CleanPath) {n : FileName} :
    hasSuffix (absolute (q ++ [n])) ('/' :: kind.text) = true ↔ n = kind := by
  rw [absolute_concat, hasSuffix_iff n.solid kind.solid]
  exact ⟨text_inj, congrArg FileName.text⟩

/-- The directory of a manifest does not end like that of a blob. -/
theorem not_hasSuffix_blobs (q : CleanPath) : hasSuffix (absolute (q ++ [manifests])) blobs.text = false := by
  rw [absolute_concat, hasSuffix, ← Bool.not_eq_true, List.isSuffixOf_iff_suffix]
  intro ends
  have within : blobs.text <:+ manifests.text :=
    List.suffix_of_suffix_length_le ends ((List.suffix_cons _ _).trans (List.suffix_append _ _)) (by decide)
  revert within
  decide

theorem Repository.trimPrefix_url : trimPrefix (r.url kind name) apiPrefix = relative (r.name ++ [kind, name]) := by
  have split : r.url kind name = apiPrefix ++ relative (r.name ++ [kind, name]) := by
    have front := relative_append (p := [v2]) (q := r.name ++ [kind, name]) (by simp) (by simp)
    rw [List.singleton_append] at front
    simp only [Repository.url, absolute, List.cons_append, List.append_assoc, List.nil_append, front]
    rfl
  rw [split, trimPrefix, if_pos (List.isPrefixOf_iff_prefix.mpr (List.prefix_append _ _)), List.drop_left]

theorem Repository.manifestFile_url (n : FileName) : manifestFile r.host.text (r.url manifests n) = r.place ++ [n] := by
  rw [manifestFile, join_text, r.trimPrefix_url, join_relative, Repository.place]
  simp

theorem Repository.blobFile_url : blobFile (r.url blobs name) = [blobs, name] := by
  rw [blobFile, r.baseName_url, join_text]
  rfl

end Texts

/-! ## The disk stands for a registry -/

/-- The registry that a disk stands for. -/
def contents (d : Disk) : Registry where
  blob digest := d.readFile [blobs, digest]
  manifest r reference := d.readFile (r.place ++ [reference])

/-- There are only files of the store, and directories above them. -/
structure Tidy (d : Disk) : Prop where
  files : ∀ p bytes, d.readFile p = some bytes → Target p
  dirs : ∀ p, d.fs.node p = some .dir → ∃ t, Target t ∧ p <+: t.dropLast

variable {d : Disk} {t : CleanPath}

theorem Tidy.not_dir (tidy : Tidy d) (target : Target t) : d.fs.node t ≠ some .dir := by
  intro dir
  obtain ⟨t', target', above⟩ := tidy.dirs t dir
  exact target.not_above target' above

/-- What is there is a file. -/
theorem Tidy.isNone (tidy : Tidy d) (target : Target t) : (d.fs.node t).isNone = (d.readFile t).isNone := by
  have away := tidy.not_dir target
  unfold Disk.readFile
  cases node : d.fs.node t with
  | none => rfl
  | some n =>
    cases n with
    | file bytes => rfl
    | dir => exact absurd node away

/-- No file lies above a file of the store. -/
theorem Tidy.not_stopped (tidy : Tidy d) (target : Target t) : ¬ d.fs.Stopped t.dropLast := by
  rintro ⟨q, inside, file⟩
  obtain ⟨bytes, read⟩ := Disk.readFile_of_isFile file
  exact (tidy.files q bytes read).not_above target ((List.mem_inits _ _).mp inside)

/-- The directories above a file of the store are made. -/
theorem Tidy.mkdirAll {made : Disk} (tidy : Tidy d) (target : Target t) (mkdir : d.mkdirAll t.dropLast = some made) :
    Tidy made := by
  have same := Disk.readFile_mkdirAll mkdir
  refine ⟨fun p bytes read => tidy.files p bytes ((same p).symm.trans read), fun p dir => ?_⟩
  rw [FileSystem.node_mkdirAll (Disk.mkdirAll_fs mkdir)] at dir
  split at dir
  · next above => exact ⟨t, target, above⟩
  · exact tidy.dirs p dir

theorem Tidy.writeFile {bytes : List UInt8} {written : Disk} (tidy : Tidy d) (target : Target t)
    (wrote : d.writeFile t bytes = some written) : Tidy written := by
  refine ⟨fun p bytes' there => ?_, fun p dir => ?_⟩
  · rw [Disk.readFile_writeFile wrote] at there
    split at there
    · next here => exact here ▸ target
    · exact tidy.files p bytes' there
  · rw [FileSystem.node_setFile (Disk.writeFile_fs wrote)] at dir
    split at dir
    · cases dir
    · exact tidy.dirs p dir

/-- A write to a file of the store changes that file alone. -/
theorem Tidy.written (tidy : Tidy d) (target : Target t) (body : List UInt8) (write : Write) :
    (writeBody d t body write).1 = Registry.putAnswer write ∧ Tidy (writeBody d t body write).2 ∧
      ∀ q, (writeBody d t body write).2.readFile q =
        if q = t then Registry.stored (d.readFile t) body write else d.readFile q := by
  obtain ⟨made, mkdir⟩ := Option.isSome_iff_exists.mp (Disk.mkdirAll_isSome_iff.mpr (tidy.not_stopped target))
  have same := Disk.readFile_mkdirAll mkdir
  have tidy' := tidy.mkdirAll target mkdir
  have parent : made.fs.node t.dropLast = some .dir := by
    rw [FileSystem.node_mkdirAll (Disk.mkdirAll_fs mkdir), if_pos (List.prefix_refl _)]
  have wrote : ∀ bytes, ∃ written, made.writeFile t bytes = some written ∧ Tidy written ∧
      ∀ q, written.readFile q = if q = t then some bytes else d.readFile q := by
    intro bytes
    obtain ⟨written, file⟩ :=
      Option.isSome_iff_exists.mp (Disk.writeFile_isSome_iff.mpr ⟨tidy'.not_dir target, parent⟩)
    exact ⟨written, file, tidy'.writeFile target file, fun q => by rw [Disk.readFile_writeFile file, same]⟩
  simp only [writeBody, mkdir]
  cases write with
  | done =>
    obtain ⟨written, file, tidied, read⟩ := wrote body
    simp only [file]
    exact ⟨rfl, tidied, read⟩
  | refused =>
    refine ⟨rfl, tidy', fun q => ?_⟩
    rw [same]
    split
    · next here => rw [here]; rfl
    · rfl
  | torn n =>
    obtain ⟨written, file, tidied, read⟩ := wrote (body.take n)
    simp only [file, Option.getD_some]
    exact ⟨rfl, tidied, read⟩

/-! ## One request -/

variable {decode : List UInt8 → Decoded}

/-- The tests of the transport on the path of a request about a manifest. -/
theorem manifest_tests (r : Repository) (n : FileName) :
    hasSuffix (dirName (r.url manifests n)) blobs.text = false ∧
      hasSuffix (dirName (r.url manifests n)) manifests.text = true ∧
      hasSuffix (dirName (r.url manifests n)) ('/' :: manifests.text) = true := by
  rw [r.dirName_url]
  exact ⟨not_hasSuffix_blobs _, hasSuffix_absolute _ _, (hasSuffix_slash _ _).mpr rfl⟩

theorem Tidy.answer_head (tidy : Tidy d) (op : Op) (method : op.request.method = .head) :
    head decode d op.request = (contents d).answer decode op := by
  cases op with
  | statBlob r digest =>
    have blob : hasSuffix (dirName (r.url blobs digest)) blobs.text = true := by
      rw [r.dirName_url]
      exact hasSuffix_absolute _ _
    simp only [head, Op.request, blob, if_true, r.blobFile_url, Registry.answer, contents,
      tidy.isNone (.blob digest)]
    rfl
  | statManifest r reference =>
    obtain ⟨apart, here, -⟩ := manifest_tests r reference.name
    have absent := tidy.isNone (.manifest r reference.name)
    simp only [head, Op.request, apart, here, Bool.false_eq_true, if_true, if_false, r.manifestFile_url,
      Registry.answer, contents, readManifest, absent]
    cases read : d.readFile (r.place ++ [reference.name]) with
    | none => rfl
    | some file =>
      simp only [Option.isNone_some, Bool.false_eq_true, if_false, Registry.manifestAnswer]
      cases decode file <;> rfl
  | _ => cases method

theorem Tidy.answer_get (tidy : Tidy d) (op : Op) (method : op.request.method = .get) :
    get decode d op.request = (contents d).answer decode op := by
  cases op with
  | getBlob r digest =>
    have blob : hasSuffix (dirName (r.url blobs digest)) blobs.text = true := by
      rw [r.dirName_url]
      exact hasSuffix_absolute _ _
    simp only [get, Op.request, blob, if_true, r.blobFile_url, Registry.answer, contents,
      tidy.isNone (.blob digest)]
    cases d.readFile [blobs, digest] <;> rfl
  | getManifest r reference =>
    obtain ⟨apart, here, -⟩ := manifest_tests r reference.name
    have absent := tidy.isNone (.manifest r reference.name)
    simp only [get, Op.request, apart, here, Bool.false_eq_true, if_true, if_false, r.manifestFile_url,
      Registry.answer, contents, readManifest, absent]
    cases read : d.readFile (r.place ++ [reference.name]) with
    | none => rfl
    | some file =>
      simp only [Option.isNone_some, Bool.false_eq_true, if_false, Registry.manifestAnswer]
      cases decode file <;> rfl
  | _ => cases method

/-- The upload of a blob is started where it is put afterwards. -/
theorem post_startUpload (r : Repository) :
    post (Op.startUpload r).request = { status := .accepted, location := some (r.url blobs uploads) } := by
  have ends : hasSuffix (r.url blobs uploads ++ ['/']) ('/' :: uploads.text ++ ['/']) = true := by
    rw [hasSuffix, List.isSuffixOf_iff_suffix, Repository.url, absolute_concat]
    exact ⟨_, (List.append_assoc _ _ _).symm⟩
  have place : dirName (r.url blobs uploads ++ ['/']) = r.url blobs uploads := by
    rw [dirName, List.reverse_append, List.reverse_singleton, List.singleton_append,
      List.dropWhile_cons_of_neg (by simp), List.reverse_cons, List.reverse_reverse, join_slash, join_nil,
      Repository.url, join_absolute]
  simp only [post, Op.request, ends, if_true, place]

/-- What a write leaves is what the registry has after it. -/
theorem contents_blob {d' : Disk} {digest : FileName} {new : Option (List UInt8)}
    (read : ∀ q, d'.readFile q = if q = [blobs, digest] then new else d.readFile q) :
    contents d' = { contents d with blob := Function.update (contents d).blob digest new } := by
  unfold contents
  congr 1
  · funext digest'
    rw [read, Function.update_apply]
    simp
  · funext r n
    rw [read, if_neg (r.place_ne digest n)]

theorem contents_manifest {d' : Disk} {r : Repository} {n : FileName} {new : Option (List UInt8)}
    (read : ∀ q, d'.readFile q = if q = r.place ++ [n] then new else d.readFile q) :
    contents d' = { contents d with
      manifest := Function.update (contents d).manifest r (Function.update ((contents d).manifest r) n new) } := by
  unfold contents
  congr 1
  · funext digest
    rw [read, if_neg (r.place_ne digest n).symm]
  · funext r' n'
    simp only [read, Repository.place_inj, Function.update_apply]
    by_cases repository : r' = r
    · subst repository
      simp [Function.update_apply]
    · simp [repository]

/-- A request is served as the registry serves it. -/
theorem Tidy.served (tidy : Tidy d) (op : Op) :
    (contents d).serve decode op =
        ((serveFiles decode d op).1, contents (serveFiles decode d op).2) ∧
      Tidy (serveFiles decode d op).2 := by
  have reads : ∀ {answer : Response} (op : Op), serveFiles decode d op = (answer, d) →
      (contents d).next op = contents d → answer = (contents d).answer decode op →
      (contents d).serve decode op =
          ((serveFiles decode d op).1, contents (serveFiles decode d op).2) ∧
        Tidy (serveFiles decode d op).2 := by
    intro answer op served next same
    rw [served, Registry.serve, next, same]
    exact ⟨rfl, tidy⟩
  cases op with
  | statBlob r digest => exact reads _ rfl rfl (tidy.answer_head _ rfl)
  | getBlob r digest => exact reads _ rfl rfl (tidy.answer_get _ rfl)
  | startUpload r => exact reads _ rfl rfl (post_startUpload r)
  | statManifest r reference => exact reads _ rfl rfl (tidy.answer_head _ rfl)
  | getManifest r reference => exact reads _ rfl rfl (tidy.answer_get _ rfl)
  | putBlob r digest body write =>
    have served : serveFiles decode d (.putBlob r digest body write) =
        writeBody d [blobs, digest] body write := by
      have uploaded : hasSuffix (r.url blobs uploads) ('/' :: uploads.text) = true := (hasSuffix_slash _ _).mpr rfl
      simp only [serveFiles, roundTrip, Op.request, Op.write, put, uploaded, if_true, join_text]
      rfl
    obtain ⟨answer, tidied, read⟩ := tidy.written (.blob digest) body write
    rw [served]
    exact ⟨Prod.ext answer.symm (contents_blob read).symm, tidied⟩
  | putManifest r reference body write =>
    have served : serveFiles decode d (.putManifest r reference body write) =
        writeBody d (r.place ++ [reference.name]) body write := by
      have other : hasSuffix (r.url manifests reference.name) ('/' :: uploads.text) = false :=
        Bool.eq_false_iff.mpr fun ends => reference.apart ((hasSuffix_slash _ _).mp ends)
      obtain ⟨-, -, here⟩ := manifest_tests r reference.name
      simp only [serveFiles, roundTrip, Op.request, Op.write, put, other, here, Bool.false_eq_true, if_true,
        if_false, r.manifestFile_url]
    obtain ⟨answer, tidied, read⟩ := tidy.written (.manifest r reference.name) body write
    rw [served]
    exact ⟨Prod.ext answer.symm (contents_manifest read).symm, tidied⟩

theorem readFile_empty (p : CleanPath) : Disk.empty.readFile p = none := by
  rcases p with _ | ⟨n, _ | ⟨m, p⟩⟩ <;> rfl

theorem contents_empty : contents .empty = .empty := by
  unfold contents Registry.empty
  simp only [readFile_empty]

/-- The name of an image. -/
def Repository.tag (r : Repository) (n : FileName) : List Char := relative (r.host :: r.name) ++ ':' :: n.text

end KubeKey.Modules.ImageStore
