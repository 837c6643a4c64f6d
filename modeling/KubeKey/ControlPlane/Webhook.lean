import KubeKey.Go.MergePatch
import Mathlib.Algebra.Group.Nat.Defs
import Mathlib.Data.List.Infix
import Mathlib.Logic.Relation

/-!
# Admission of K3sControlPlanes

`controlplane/k3s/api/v1beta1/k3scontrolplane_webhook.go`: an object that is created or
updated is defaulted and then validated; an update is also compared with the stored object,
as a merge patch between the two JSON documents. The scale and the status subresource go
past the webhook.

What may be changed is given by `allowedPaths`. A leaf below none of them is what it was
when the object was created, after any number of updates (`frozen_kept`). A version goes up
by one minor version at a time, so that no minor version on the way is left out
(`minor_visited`). A rollout strategy of another type than RollingUpdate makes the webhook
panic unless it has a maxSurge (`panics_iff`).

Left out: the values in the texts of the errors, and the fields of the object that only the
comparison reads, which stand together in `others`.
-/

namespace KubeKey.Webhook

open KubeKey.Go

/-- `intstr.IntOrString`. -/
inductive IntOrString where
  | int (n : Int)
  | string (s : String)
deriving DecidableEq

structure RollingUpdate where
  maxSurge : Option IntOrString := none
deriving DecidableEq

structure RolloutStrategy where
  type : String := ""
  rollingUpdate : Option RollingUpdate := none
deriving DecidableEq

structure Database where
  dataStoreEndPoint : String := ""
  clusterInit : Option Bool := none
deriving DecidableEq

structure ServerConfiguration where
  database : Database := {}
deriving DecidableEq

/-- The secret of a `FileSource`. -/
structure SecretFileSource where
  name : String
  key : String
deriving DecidableEq

structure File where
  path : String
  content : String := ""
  contentFrom : Option SecretFileSource := none
deriving DecidableEq

structure K3sConfigSpec where
  files : List File := []
  serverConfiguration : Option ServerConfiguration := none
deriving DecidableEq

structure ObjectReference where
  apiVersion : String
  kind : String
  name : String
  nameSpace : String := ""
deriving DecidableEq

structure K3sControlPlaneSpec where
  replicas : Option Int := none
  version : String
  infrastructureRef : ObjectReference
  k3sConfigSpec : K3sConfigSpec := {}
  rolloutStrategy : Option RolloutStrategy := none
deriving DecidableEq

/-- The object, with everything that no check reads in `others`. -/
structure K3sControlPlane (ρ : Type) where
  nameSpace : String
  spec : K3sControlPlaneSpec
  others : ρ
deriving DecidableEq

/-! ## Defaults -/

def rollingUpdateStrategyType : String := "RollingUpdate"

def defaultRolloutStrategy (rolloutStrategy : Option RolloutStrategy) : RolloutStrategy :=
  let strategy := rolloutStrategy.getD {}
  let strategy := if strategy.type = "" then { strategy with type := rollingUpdateStrategyType } else strategy
  if strategy.type = rollingUpdateStrategyType then
    { strategy with
      rollingUpdate := some ⟨some (((strategy.rollingUpdate.getD {}).maxSurge).getD (.int 1))⟩ }
  else strategy

def defaultServerConfiguration (configuration : Option ServerConfiguration) : ServerConfiguration :=
  let database := (configuration.getD {}).database
  if database.dataStoreEndPoint = "" ∧ database.clusterInit = none then ⟨{ database with clusterInit := some true }⟩
  else ⟨database⟩

/-- `defaultK3sControlPlaneSpec`. `DefaultK3sConfigSpec` does nothing. -/
def defaultK3sControlPlaneSpec (s : K3sControlPlaneSpec) (ns : String) : K3sControlPlaneSpec where
  replicas := some (s.replicas.getD 1)
  version := if "v".toList <+: s.version.toList then s.version else "v" ++ s.version
  infrastructureRef :=
    if s.infrastructureRef.nameSpace = "" then { s.infrastructureRef with nameSpace := ns } else s.infrastructureRef
  k3sConfigSpec :=
    { s.k3sConfigSpec with
      serverConfiguration := some (defaultServerConfiguration s.k3sConfigSpec.serverConfiguration) }
  rolloutStrategy := some (defaultRolloutStrategy s.rolloutStrategy)

variable {ρ α : Type}

/-- `Default`. -/
def K3sControlPlane.defaulted (o : K3sControlPlane ρ) : K3sControlPlane ρ :=
  { o with spec := defaultK3sControlPlaneSpec o.spec o.nameSpace }

/-! ## Validation -/

inductive ErrorType where
  | required
  | invalid
  | forbidden
  | internal
deriving DecidableEq

/-- An error of `field.ErrorList`. -/
structure FieldError where
  type : ErrorType
  field : String
  detail : String
deriving DecidableEq

/-- How a validation ends that does not accept. -/
inductive Denied where
  | invalid (errs : List FieldError)
  | internalError
  | panicked
deriving DecidableEq

/-- A version of three numbers. -/
structure Version where
  major : Nat
  minor : Nat
  patch : Nat
deriving DecidableEq

/-- `GTE`. -/
def Version.gte (v w : Version) : Bool :=
  v.major > w.major || v.major = w.major && (v.minor > w.minor || v.minor = w.minor && v.patch ≥ w.patch)

/-- What the webhook calls. -/
structure Calls (ρ α : Type) where
  /-- `json.Marshal`, which writes an object. -/
  marshal : K3sControlPlane ρ → List (String × Document α)
  createMergePatch : List (String × Document α) → List (String × Document α) → Option (List (String × Document α))
  parseMajorMinorPatch : String → Option Version
  kubeSemver : String → Bool

/-- `field.Path.Child`. -/
def child (path name : String) : String := path ++ "." ++ name

/-- Panics where there is no `maxSurge`. -/
def validateRolloutStrategy (rolloutStrategy : Option RolloutStrategy) (replicas : Option Int) (pathPrefix : String) :
    Option (List FieldError) :=
  match rolloutStrategy with
  | none => some []
  | some strategy =>
    (strategy.rollingUpdate.bind (·.maxSurge)).map fun maxSurge =>
      (if strategy.type ≠ rollingUpdateStrategyType then
        [⟨.required, child pathPrefix "type", "only RollingUpdateStrategyType is supported"⟩] else []) ++
      (if maxSurge = .int 0 ∧ (replicas.any fun n => n < 3) = true then
        [⟨.required, child pathPrefix "rollingUpdate",
          "when K3sControlPlane is configured to scale-in, replica count needs to be at least 3"⟩] else []) ++
      if maxSurge ≠ .int 1 ∧ maxSurge ≠ .int 0 then
        [⟨.required, child (child pathPrefix "rollingUpdate") "maxSurge", "value must be 1 or 0"⟩] else []

/-- One of the fields of the infrastructure reference that must not be empty. -/
def validateNotEmpty (field value : String) : List FieldError :=
  if value = "" then [⟨.invalid, field, "cannot be empty"⟩] else []

/-- The `infrastructure` in the field paths is the source's. -/
def validateK3sControlPlaneSpec (c : Calls ρ α) (s : K3sControlPlaneSpec) (ns pathPrefix : String) :
    Option (List FieldError) :=
  let replicas := match s.replicas with
    | none => [⟨.required, child pathPrefix "replicas", "is required"⟩]
    | some n => if n ≤ 0 then [⟨.forbidden, child pathPrefix "replicas", "cannot be less than or equal to 0"⟩] else []
  let infrastructure := child (child pathPrefix "machineTemplate") "infrastructure"
  (validateRolloutStrategy s.rolloutStrategy s.replicas (child pathPrefix "rolloutStrategy")).map fun rollout =>
    replicas ++ validateNotEmpty (child infrastructure "apiVersion") s.infrastructureRef.apiVersion ++
      validateNotEmpty (child infrastructure "kind") s.infrastructureRef.kind ++
      validateNotEmpty (child infrastructure "name") s.infrastructureRef.name ++
      (if s.infrastructureRef.nameSpace ≠ ns then
        [⟨.invalid, child infrastructure "namespace", "must match metadata.namespace"⟩] else []) ++
      (if !c.kubeSemver s.version then
        [⟨.invalid, child pathPrefix "version", "must be a valid semantic version"⟩] else []) ++ rollout

def validateServerConfiguration (new old : Option ServerConfiguration) (pathPrefix : String) : List FieldError :=
  match new with
  | none => []
  | some new =>
    (if new.database.clusterInit = some true ∧ new.database.dataStoreEndPoint ≠ "" then
      [⟨.forbidden, child (child pathPrefix "database") "clusterInit",
        "cannot have both external and local etcd"⟩] else []) ++
    match old with
    | none => []
    | some old =>
      (if new.database.clusterInit = some true ∧ old.database.dataStoreEndPoint ≠ "" then
        [⟨.forbidden, child (child pathPrefix "database") "clusterInit",
          "cannot change between external and local etcd"⟩] else []) ++
      if old.database.clusterInit = some true ∧ new.database.dataStoreEndPoint ≠ "" then
        [⟨.forbidden, child (child pathPrefix "database") "dataStoreEndPoint",
          "cannot change between external and local etcd"⟩] else []

/-- `validateFiles`, from the file number `i` on. -/
def validateFiles (pathPrefix : String) : List File → Nat → List String → List FieldError
  | [], _, _ => []
  | file :: files, i, knownPaths =>
    let field := child pathPrefix "files" ++ "[" ++ toString i ++ "]"
    let secret := child (child field "contentFrom") "secret"
    (if file.content ≠ "" ∧ file.contentFrom ≠ none then
      [⟨.invalid, field, "only one of content or contentFrom may be specified for a single file"⟩] else []) ++
    (match file.contentFrom with
      | none => []
      | some source =>
        (if source.name = "" then
          [⟨.required, child secret "name", "secret file source must specify non-empty secret name"⟩] else []) ++
        if source.key = "" then
          [⟨.required, child secret "key", "secret file source must specify non-empty secret key"⟩] else []) ++
    (if file.path ∈ knownPaths then
      [⟨.invalid, child field "path", "path property must be unique among all files"⟩] else []) ++
    validateFiles pathPrefix files (i + 1) (file.path :: knownPaths)

/-- `K3sConfigSpec.Validate`. -/
def K3sConfigSpec.validate (s : K3sConfigSpec) (pathPrefix : String) : List FieldError :=
  validateFiles pathPrefix s.files 0 []

def answer (allErrs : List FieldError) : Except Denied Unit :=
  if allErrs = [] then .ok () else .error (.invalid allErrs)

/-- `ValidateCreate`. -/
def validateCreate (c : Calls ρ α) (o : K3sControlPlane ρ) : Except Denied Unit :=
  match validateK3sControlPlaneSpec c o.spec o.nameSpace "spec" with
  | none => .error .panicked
  | some allErrs =>
    answer (allErrs ++
      validateServerConfiguration o.spec.k3sConfigSpec.serverConfiguration none
        "spec.k3sConfigSpec.serverConfiguration" ++
      o.spec.k3sConfigSpec.validate "spec.k3sConfigSpec")

def allowedPaths : List (List String) :=
  [["metadata", "*"],
    ["spec", "k3sConfigSpec", "preK3sCommands"],
    ["spec", "k3sConfigSpec", "postK3sCommands"],
    ["spec", "k3sConfigSpec", "files"],
    ["spec", "machineTemplate", "metadata", "*"],
    ["spec", "machineTemplate", "infrastructureRef", "apiVersion"],
    ["spec", "machineTemplate", "infrastructureRef", "name"],
    ["spec", "machineTemplate", "infrastructureRef", "kind"],
    ["spec", "machineTemplate", "nodeDrainTimeout"],
    ["spec", "machineTemplate", "nodeDeletionTimeout"],
    ["spec", "replicas"],
    ["spec", "version"],
    ["spec", "rolloutAfter"],
    ["spec", "rolloutStrategy", "*"]]

/-- The loop of `pathsMatch`, from one index on. -/
def pathsMatchFrom : List String → List String → Bool
  | _, [] => true
  | [], _ :: _ => false
  | a :: allowed, k :: path =>
    if a = "*" then true
    else if k ≠ a then false
    else if path = [] then allowed = []
    else pathsMatchFrom allowed path

def pathsMatch (allowed path : List String) : Bool :=
  if allowed = [] ∨ path = [] then false else pathsMatchFrom allowed path

def allowed (allowList : List (List String)) (path : List String) : Bool :=
  allowList.any fun allowed => pathsMatch allowed path

mutual

/-- The paths that a patch modifies. -/
def paths (path : List String) : List (String × Document α) → List (List String)
  | [] => []
  | (key, m) :: diff => pathsAt (path ++ [key]) m ++ paths path diff

/-- One key of `paths`: a nested object is gone through, anything else is modified. -/
def pathsAt (path : List String) : Document α → List (List String)
  | .object nested => paths path nested
  | .null => [path]
  | .leaf _ => [path]

end

def forbiddenPaths (allowedPaths diffpaths : List (List String)) : List FieldError :=
  diffpaths.filterMap fun path =>
    if path = [] ∨ allowed allowedPaths path then none
    else some ⟨.forbidden, ".".intercalate path, "cannot be modified"⟩

def validateVersion (c : Calls ρ α) (previousVersion version : String) : List FieldError :=
  match c.parseMajorMinorPatch previousVersion with
  | none => [⟨.internal, "spec.version", "failed to parse current k3scontrolplane version: " ++ previousVersion⟩]
  | some fromVersion =>
    match c.parseMajorMinorPatch version with
    | none => [⟨.internal, "spec.version", "failed to parse updated k3scontrolplane version: " ++ version⟩]
    | some toVersion =>
      if fromVersion ≠ toVersion ∧ toVersion = ⟨1, 19, 0⟩ then
        [⟨.forbidden, "spec.version", "cannot update Kubernetes version to v1.19.0, for more information see " ++
          "https://github.com/kubernetes-sigs/cluster-api/issues/3564"⟩]
      -- the minor version is a uint64
      else if toVersion.gte ⟨fromVersion.major, (fromVersion.minor + 2) % 2 ^ 64, 0⟩ then
        [⟨.forbidden, "spec.version",
          "cannot update Kubernetes version from " ++ previousVersion ++ " to " ++ version⟩]
      else []

/-- `ValidateUpdate`. -/
def validateUpdate (c : Calls ρ α) (old new : K3sControlPlane ρ) : Except Denied Unit :=
  match validateK3sControlPlaneSpec c new.spec new.nameSpace "spec" with
  | none => .error .panicked
  | some allErrs =>
    match c.createMergePatch (c.marshal old) (c.marshal new) with
    | none => .error .internalError
    | some jsonPatch =>
      answer (allErrs ++ forbiddenPaths allowedPaths (paths [] jsonPatch) ++
        validateVersion c old.spec.version new.spec.version ++
        validateServerConfiguration new.spec.k3sConfigSpec.serverConfiguration
          old.spec.k3sConfigSpec.serverConfiguration "spec.k3sConfigSpec.serverConfiguration" ++
        new.spec.k3sConfigSpec.validate "spec.K3sConfigSpec")

/-! ## What an update leaves -/

/-- The documented behaviour of what is called. -/
structure Calls.Laws (c : Calls ρ α) : Prop where
  /-- The patch converts the first document into the second. -/
  patches : ∀ a b d, c.createMergePatch a b = some d →
    ((Document.object d).apply (.object a)).view = (Document.object b).view
  /-- A field of a type is written as an object always or never. -/
  shaped : ∀ o o' p value, (Document.object (c.marshal o)).view p = some .object →
    (Document.object (c.marshal o')).view p ≠ some (.leaf value)
  /-- The replicas are written at one path. -/
  replicas : ∀ o n p, p ≠ ["spec", "replicas"] →
    (Document.object (c.marshal { o with spec := { o.spec with replicas := n } })).view p =
      (Document.object (c.marshal o)).view p

theorem mem_paths {k : String} {m : Document α} {members : List (String × Document α)} (member : (k, m) ∈ members)
    (path : List String) {q : List String} (inside : q ∈ pathsAt (path ++ [k]) m) : q ∈ paths path members := by
  induction members with
  | nil => cases member
  | cons e rest ih =>
    rw [paths]
    rcases List.mem_cons.mp member with same | later
    · cases same
      exact List.mem_append_left _ inside
    · exact List.mem_append_right _ (ih later)

/-- Where a patch touches, one of its paths leads to or past. -/
theorem exists_path {p : List String} {members : List (String × Document α)}
    (touched : (Document.object members).Touches p) (path : List String) :
    ∃ q ∈ paths path members, q ≠ [] ∧ q <+: path ++ p := by
  induction p generalizing members path with
  | nil => exact absurd touched id
  | cons k p ih =>
    obtain ⟨m, member, touched⟩ := touched
    have split : path ++ k :: p = path ++ [k] ++ p := by simp
    rw [split]
    cases m with
    | object nested =>
      obtain ⟨q, inside, some, above⟩ := ih touched (path ++ [k])
      exact ⟨q, mem_paths member path inside, some, above⟩
    | null => exact ⟨_, mem_paths member path (List.mem_singleton_self _), by simp, List.prefix_append _ _⟩
    | leaf => exact ⟨_, mem_paths member path (List.mem_singleton_self _), by simp, List.prefix_append _ _⟩

/-- No update may change what is below the path. -/
def frozen (p : List String) : Bool :=
  p.inits.all fun q => !allowed allowedPaths q

theorem forbiddenPaths_eq_nil {diffpaths : List (List String)} (none : forbiddenPaths allowedPaths diffpaths = [])
    {q : List String} (member : q ∈ diffpaths) : q = [] ∨ allowed allowedPaths q = true := by
  have passed := List.filterMap_eq_nil_iff.mp none q member
  by_contra refused
  rw [if_neg refused] at passed
  cases passed

theorem answer_eq_ok {allErrs : List FieldError} : answer allErrs = .ok () ↔ allErrs = [] := by
  unfold answer
  split <;> simp_all

/-- What is known of an object that passed the checks. -/
structure Valid (c : Calls ρ α) (o : K3sControlPlane ρ) : Prop where
  spec : validateK3sControlPlaneSpec c o.spec o.nameSpace "spec" = some []
  etcd : ∃ path, validateServerConfiguration o.spec.k3sConfigSpec.serverConfiguration none path = []
  files : ∃ path, o.spec.k3sConfigSpec.validate path = []

/-- What is known of an accepted update. -/
structure Accepted (c : Calls ρ α) (old new : K3sControlPlane ρ) : Prop where
  valid : Valid c new
  patch : ∃ d, c.createMergePatch (c.marshal old) (c.marshal new) = some d ∧
    ∀ q ∈ paths [] d, q = [] ∨ allowed allowedPaths q = true
  version : validateVersion c old.spec.version new.spec.version = []

theorem validateServerConfiguration_new {new old : Option ServerConfiguration} {path : String}
    (none : validateServerConfiguration new old path = []) : validateServerConfiguration new .none path = [] := by
  cases new with
  | none => rfl
  | some new =>
    simp only [validateServerConfiguration, List.append_eq_nil_iff] at none ⊢
    exact ⟨none.1, trivial⟩

theorem valid_of_create {c : Calls ρ α} {o : K3sControlPlane ρ} (ok : validateCreate c o = .ok ()) : Valid c o := by
  unfold validateCreate at ok
  split at ok
  · cases ok
  rename_i spec
  simp only [answer_eq_ok, List.append_eq_nil_iff] at ok
  obtain ⟨⟨rfl, etcd⟩, files⟩ := ok
  exact ⟨spec, ⟨_, etcd⟩, ⟨_, files⟩⟩

theorem accepted_of_ok {c : Calls ρ α} {old new : K3sControlPlane ρ} (ok : validateUpdate c old new = .ok ()) :
    Accepted c old new := by
  unfold validateUpdate at ok
  split at ok
  · cases ok
  split at ok
  · cases ok
  rename_i spec _ d patch
  simp only [answer_eq_ok, List.append_eq_nil_iff] at ok
  obtain ⟨⟨⟨⟨rfl, paths⟩, version⟩, etcd⟩, files⟩ := ok
  exact ⟨⟨spec, ⟨_, validateServerConfiguration_new etcd⟩, ⟨_, files⟩⟩,
    ⟨d, patch, fun q => forbiddenPaths_eq_nil paths⟩, version⟩

/-- An accepted update keeps the leaves that are frozen. -/
theorem Accepted.leafAt {c : Calls ρ α} (laws : c.Laws) {old new : K3sControlPlane ρ} (accepted : Accepted c old new)
    {p : List String} (froze : frozen p = true) :
    (Document.object (c.marshal new)).leafAt p = (Document.object (c.marshal old)).leafAt p := by
  obtain ⟨d, patch, permitted⟩ := accepted.patch
  have same := laws.patches _ _ _ patch
  have aside : ¬ (Document.object d).Touches p := by
    intro touched
    obtain ⟨q, member, some, above⟩ := exists_path touched []
    have refused := List.all_eq_true.mp froze q ((List.mem_inits q p).mpr above)
    rw [(permitted q member).resolve_left some] at refused
    cases refused
  have kept : ((Document.object d).apply (.object (c.marshal old))).leafAt p =
      (Document.object (c.marshal old)).leafAt p := by
    refine Document.leafAt_apply aside fun value found object => ?_
    rw [same] at object
    exact laws.shaped new old p value object found
  rw [← kept, Document.leafAt, Document.leafAt, same]

/-! ## Runs -/

/-- The scale subresource. -/
def K3sControlPlane.scale (o : K3sControlPlane ρ) (n : Nat) : K3sControlPlane ρ :=
  { o with spec := { o.spec with replicas := some n } }

/-- What happens to a stored object. -/
inductive Step (c : Calls ρ α) : K3sControlPlane ρ → K3sControlPlane ρ → Prop where
  | update {old : K3sControlPlane ρ} (o : K3sControlPlane ρ) (ok : validateUpdate c old o.defaulted = .ok ()) :
      Step c old o.defaulted
  | scale (old : K3sControlPlane ρ) (n : Nat) : Step c old (old.scale n)
  /-- The status subresource, and the metadata that the API server keeps. -/
  | server {old new : K3sControlPlane ρ} (nameSpace : new.nameSpace = old.nameSpace) (spec : new.spec = old.spec)
      (same : ∀ p, (Document.object (c.marshal new)).view ("spec" :: p) =
        (Document.object (c.marshal old)).view ("spec" :: p)) : Step c old new

abbrev Run (c : Calls ρ α) : K3sControlPlane ρ → K3sControlPlane ρ → Prop :=
  Relation.ReflTransGen (Step c)

/-- A control plane of three, of that version. -/
def ofVersion (version : String) : K3sControlPlane String where
  nameSpace := "default"
  spec := { replicas := some 3, version := version, infrastructureRef := ⟨"v1beta1", "KKMachineTemplate", "cp", ""⟩ }
  others := "v1.24.6+k3s1"

/-- The JSON of the object, with the version of its `k3sConfigSpec` for the others. -/
def written (o : K3sControlPlane String) : List (String × Document String) :=
  [("metadata", .object [("namespace", .leaf o.nameSpace)]),
    ("spec", .object [("replicas", (o.spec.replicas.map fun n => Document.leaf (toString n)).getD .null),
      ("version", .leaf o.spec.version), ("k3sConfigSpec", .object [("version", .leaf o.others)])])]

/-- The patch from one version to the next. -/
def versionCalls : Calls String String where
  marshal := written
  createMergePatch a b :=
    if a = written (ofVersion "v1.24.6").defaulted ∧ b = written (ofVersion "v1.25.0").defaulted then
      some [("spec", .object [("version", .leaf "v1.25.0")])]
    else none
  parseMajorMinorPatch s :=
    if s = "v1.24.6" then some ⟨1, 24, 6⟩ else if s = "v1.25.0" then some ⟨1, 25, 0⟩ else none
  kubeSemver _ := true

theorem versionCalls_laws : versionCalls.Laws where
  patches a b d patch := by
    simp only [versionCalls] at patch
    split at patch
    · rename_i both
      obtain ⟨rfl, rfl⟩ := both
      cases patch
      exact congrArg Document.view (by decide)
    · cases patch
  shaped o o' p value found := by
    have replicas : Document.Alike ((o.spec.replicas.map fun n => Document.leaf (toString n)).getD .null)
        ((o'.spec.replicas.map fun n => Document.leaf (toString n)).getD .null) := by
      cases o.spec.replicas <;> cases o'.spec.replicas <;> first | exact .absent _ | exact .missing _ | exact .leaf _ _
    refine Document.Alike.shaped (.cons _ (.cons _ (.leaf _ _) .empty) (.cons _ ?_ .empty)) found
    exact .cons _ replicas (.cons _ (.leaf _ _) (.cons _ (.cons _ (.leaf _ _) .empty) .empty))
  replicas o n p other := by
    rcases p with _ | ⟨k, _ | ⟨k', p⟩⟩
    · rfl
    · simp only [versionCalls, written, Document.view_object_cons]
      rfl
    · simp only [versionCalls, written, Document.view_object_cons]
      split_ifs <;> try rfl
      rename_i spec replicas
      cases p with
      | nil => exact absurd (by rw [spec, replicas]) other
      | cons => cases n <;> cases o.spec.replicas <;> rfl

theorem upgraded :
    validateUpdate versionCalls (ofVersion "v1.24.6").defaulted (ofVersion "v1.25.0").defaulted = .ok () := by
  rfl

theorem upgraded_run : Run versionCalls (ofVersion "v1.24.6").defaulted (ofVersion "v1.25.0").defaulted :=
  .tail .refl (.update (ofVersion "v1.25.0") upgraded)

/-- What is written at a path of the spec, if it is not an object. -/
def specLeaf (c : Calls ρ α) (o : K3sControlPlane ρ) (p : List String) : Option α :=
  (Document.object (c.marshal o)).leafAt ("spec" :: p)

theorem Step.specLeaf {c : Calls ρ α} (laws : c.Laws) {old new : K3sControlPlane ρ} (step : Step c old new)
    {p : List String} (froze : frozen ("spec" :: p) = true) : specLeaf c new p = specLeaf c old p := by
  cases step with
  | update o ok => exact (accepted_of_ok ok).leafAt laws froze
  | scale n =>
    have other : "spec" :: p ≠ ["spec", "replicas"] := by
      intro same
      rw [same] at froze
      exact absurd froze (by decide)
    unfold Webhook.specLeaf Document.leafAt K3sControlPlane.scale
    rw [laws.replicas _ _ _ other]
  | server _ _ same =>
    unfold Webhook.specLeaf Document.leafAt
    rw [same]

/-- A leaf of the spec below none of the allowed paths keeps its value in every run, and none comes or goes. -/
theorem frozen_kept {c : Calls ρ α} (laws : c.Laws) {o o' : K3sControlPlane ρ} (ran : Run c o o') {p : List String}
    (froze : frozen ("spec" :: p) = true) : specLeaf c o' p = specLeaf c o p := by
  induction ran with
  | refl => rfl
  | tail _ step ih => exact (step.specLeaf laws froze).trans ih

theorem frozen_kept_upgraded :
    specLeaf versionCalls (ofVersion "v1.25.0").defaulted ["k3sConfigSpec", "version"] =
      specLeaf versionCalls (ofVersion "v1.24.6").defaulted ["k3sConfigSpec", "version"] :=
  frozen_kept versionCalls_laws upgraded_run (by decide)

/-! ### Versions -/

def K3sControlPlane.parsed (c : Calls ρ α) (o : K3sControlPlane ρ) : Option Version :=
  c.parseMajorMinorPatch o.spec.version

theorem Version.lt_of_not_gte {v w : Version} (below : ¬ v.gte w = true) :
    v.major ≤ w.major ∧ (v.major = w.major → v.minor ≤ w.minor ∧ (v.minor = w.minor → v.patch < w.patch)) := by
  simp only [Version.gte, gt_iff_lt, ge_iff_le, Bool.or_eq_true, Bool.and_eq_true, decide_eq_true_eq, not_or,
    not_and] at below
  refine ⟨by omega, fun major => ?_⟩
  obtain ⟨minor, patch⟩ := below.2 major
  exact ⟨by omega, fun same => by have := patch same; omega⟩

/-- A step never raises the major version, nor the minor one by more than one. -/
theorem Step.version {c : Calls ρ α} {old new : K3sControlPlane ρ} (step : Step c old new) {v : Version}
    (parsed : new.parsed c = some v) :
    ∃ u, old.parsed c = some u ∧ v.major ≤ u.major ∧ (v.major = u.major → v.minor ≤ u.minor + 1) := by
  cases step with
  | update o ok =>
    have accepted := (accepted_of_ok ok).version
    unfold validateVersion at accepted
    split at accepted
    · cases accepted
    rename_i u before
    split at accepted
    · cases accepted
    rename_i w after
    cases parsed.symm.trans after
    split at accepted
    · cases accepted
    split at accepted
    · cases accepted
    rename_i below
    obtain ⟨major, minor⟩ := Version.lt_of_not_gte below
    refine ⟨u, before, major, fun same => ?_⟩
    obtain ⟨least, patch⟩ := minor same
    have wrapped := Nat.mod_le (u.minor + 2) (2 ^ 64)
    dsimp only at least patch
    by_contra more
    have := patch (by omega)
    omega
  | scale n => exact ⟨v, parsed, le_refl _, fun _ => Nat.le_succ _⟩
  | server _ spec _ =>
    rw [K3sControlPlane.parsed, spec] at parsed
    exact ⟨v, parsed, le_refl _, fun _ => Nat.le_succ _⟩

theorem run_major {c : Calls ρ α} {o o' : K3sControlPlane ρ} (ran : Run c o o') {v v' : Version}
    (parsed : o.parsed c = some v) (parsed' : o'.parsed c = some v') : v'.major ≤ v.major := by
  induction ran generalizing v' with
  | refl =>
    cases parsed.symm.trans parsed'
    exact le_refl _
  | tail _ step ih =>
    obtain ⟨u, before, major, -⟩ := step.version parsed'
    exact major.trans (ih before)

/-- On the way from one minor version to a higher one of the same major version, every minor version between them
was stored: none is left out, whatever goes back and forth on the way. -/
theorem minor_visited {c : Calls ρ α} {o o' : K3sControlPlane ρ} (ran : Run c o o') {v v' : Version}
    (parsed : o.parsed c = some v) (parsed' : o'.parsed c = some v') (major : v'.major = v.major) {m : Nat}
    (least : v.minor ≤ m) (most : m ≤ v'.minor) :
    ∃ between u, Run c o between ∧ Run c between o' ∧ between.parsed c = some u ∧ u.major = v.major ∧ u.minor = m := by
  induction ran generalizing v' with
  | refl =>
    cases parsed.symm.trans parsed'
    exact ⟨o, v, .refl, .refl, parsed, rfl, le_antisymm least most⟩
  | @tail b d ran step ih =>
    obtain ⟨u, before, falls, rises⟩ := step.version parsed'
    have same : u.major = v.major := le_antisymm (run_major ran parsed before) (major ▸ falls)
    by_cases there : m ≤ u.minor
    · obtain ⟨between, w, to', after, found⟩ := ih before same there
      exact ⟨between, w, to', after.tail step, found⟩
    · -- the last step goes to the version itself
      have here := rises (by omega)
      exact ⟨d, v', ran.tail step, .refl, parsed', major, by omega⟩

theorem minor_visited_upgraded :
    ∃ between u, Run versionCalls (ofVersion "v1.24.6").defaulted between ∧
      Run versionCalls between (ofVersion "v1.25.0").defaulted ∧ between.parsed versionCalls = some u ∧
      u.major = 1 ∧ u.minor = 25 :=
  have parsed : (ofVersion "v1.24.6").defaulted.parsed versionCalls = some ⟨1, 24, 6⟩ := by decide
  have parsed' : (ofVersion "v1.25.0").defaulted.parsed versionCalls = some ⟨1, 25, 0⟩ := by decide
  minor_visited upgraded_run parsed parsed' rfl (by decide) (by decide)

/-! ### What every stored object is -/

theorem defaultRolloutStrategy_idem (strategy : Option RolloutStrategy) :
    defaultRolloutStrategy (some (defaultRolloutStrategy strategy)) = defaultRolloutStrategy strategy := by
  have other : rollingUpdateStrategyType ≠ "" := by decide
  unfold defaultRolloutStrategy
  generalize strategy.getD {} = strategy
  obtain ⟨type, rollingUpdate⟩ := strategy
  by_cases empty : type = ""
  · simp [empty, other]
  · by_cases rolling : type = rollingUpdateStrategyType
    · simp [rolling, other]
    · simp [empty, rolling]

theorem defaultServerConfiguration_idem (configuration : Option ServerConfiguration) :
    defaultServerConfiguration (some (defaultServerConfiguration configuration)) =
      defaultServerConfiguration configuration := by
  unfold defaultServerConfiguration
  generalize (configuration.getD {}).database = database
  by_cases local' : database.dataStoreEndPoint = "" ∧ database.clusterInit = none
  · simp [local']
  · simp [local']

/-- Defaulting twice is defaulting once. -/
theorem K3sControlPlane.defaulted_idem (o : K3sControlPlane ρ) : o.defaulted.defaulted = o.defaulted := by
  have version : ∀ s : String, "v".toList <+: s.toList ∨ "v".toList <+: ("v" ++ s).toList := by
    intro s
    refine .inr ?_
    rw [String.toList_append]
    exact List.prefix_append _ _
  obtain ⟨ns, ⟨replicas, v, reference, ⟨files, configuration⟩, strategy⟩, others⟩ := o
  simp only [K3sControlPlane.defaulted, defaultK3sControlPlaneSpec, Option.getD_some, defaultRolloutStrategy_idem,
    defaultServerConfiguration_idem]
  congr 2
  · split
    · rfl
    · rename_i plain
      rw [if_pos ((version v).resolve_left plain)]
  · by_cases empty : reference.nameSpace = ""
    · by_cases same : ns = "" <;> simp [empty, same]
    · simp [empty]

theorem validateFiles_nodup {pathPrefix : String} {files : List File} {i : Nat} {knownPaths : List String}
    (none : validateFiles pathPrefix files i knownPaths = []) :
    (files.map (·.path)).Nodup ∧ ∀ path ∈ knownPaths, path ∉ files.map (·.path) := by
  induction files generalizing i knownPaths with
  | nil => exact ⟨List.nodup_nil, fun _ _ => List.not_mem_nil⟩
  | cons file files ih =>
    simp only [validateFiles, List.append_eq_nil_iff] at none
    obtain ⟨⟨-, conflict⟩, rest⟩ := none
    obtain ⟨distinct, apart⟩ := ih rest
    have fresh : file.path ∉ knownPaths := by
      intro known
      rw [if_pos known] at conflict
      cases conflict
    refine ⟨List.nodup_cons.mpr ⟨apart _ List.mem_cons_self, distinct⟩, fun path known => ?_⟩
    rw [List.map_cons, List.mem_cons, not_or]
    exact ⟨fun same => fresh (same ▸ known), apart path (List.mem_cons_of_mem _ known)⟩

/-- What the controllers rely on. -/
structure Sane (o : K3sControlPlane ρ) : Prop where
  defaulted : o.defaulted = o
  replicas : o.spec.replicas ≠ none
  maxSurge : ∃ n, (n = .int 0 ∨ n = .int 1) ∧
    o.spec.rolloutStrategy = some ⟨rollingUpdateStrategyType, some ⟨some n⟩⟩
  reference : o.spec.infrastructureRef.nameSpace = o.nameSpace ∧ o.spec.infrastructureRef.apiVersion ≠ "" ∧
    o.spec.infrastructureRef.kind ≠ "" ∧ o.spec.infrastructureRef.name ≠ ""
  etcd : ∃ conf, o.spec.k3sConfigSpec.serverConfiguration = some conf ∧
    (conf.database.clusterInit = some true → conf.database.dataStoreEndPoint = "")
  files : (o.spec.k3sConfigSpec.files.map (·.path)).Nodup

theorem validateRolloutStrategy_eq_nil {strategy : RolloutStrategy} {replicas : Option Int} {path : String}
    (none : validateRolloutStrategy (some strategy) replicas path = some []) :
    ∃ n, (n = .int 0 ∨ n = .int 1) ∧ strategy = ⟨rollingUpdateStrategyType, some ⟨some n⟩⟩ := by
  obtain ⟨type, rollingUpdate⟩ := strategy
  simp only [validateRolloutStrategy, Option.map_eq_some_iff, List.append_eq_nil_iff] at none
  obtain ⟨n, surge, ⟨rolling, -⟩, bound⟩ := none
  obtain ⟨⟨_⟩, rfl, rfl⟩ := Option.bind_eq_some_iff.mp surge
  have type : type = rollingUpdateStrategyType := by
    by_contra other
    rw [if_pos other] at rolling
    cases rolling
  refine ⟨n, ?_, by rw [type]⟩
  by_contra neither
  rw [not_or] at neither
  rw [if_pos ⟨neither.2, neither.1⟩] at bound
  cases bound

theorem validateNotEmpty_eq_nil {field value : String} (none : validateNotEmpty field value = []) : value ≠ "" := by
  intro empty
  rw [validateNotEmpty, if_pos empty] at none
  cases none

theorem Valid.sane {c : Calls ρ α} {o : K3sControlPlane ρ} (valid : Valid c o.defaulted) : Sane o.defaulted := by
  have spec := valid.spec
  simp only [validateK3sControlPlaneSpec, Option.map_eq_some_iff, List.append_eq_nil_iff] at spec
  obtain ⟨rollout, strategy, ⟨⟨⟨⟨⟨-, apiVersion⟩, kind⟩, name⟩, ns⟩, -⟩, rfl⟩ := spec
  obtain ⟨_, etcd⟩ := valid.etcd
  obtain ⟨_, files⟩ := valid.files
  obtain ⟨n, bound, same⟩ := validateRolloutStrategy_eq_nil strategy
  refine ⟨o.defaulted_idem, ?_, ⟨n, bound, by rw [← same]; rfl⟩,
    ⟨?_, validateNotEmpty_eq_nil apiVersion, validateNotEmpty_eq_nil kind, validateNotEmpty_eq_nil name⟩,
    ⟨_, rfl, fun init => ?_⟩, (validateFiles_nodup files).1⟩
  · simp [K3sControlPlane.defaulted, defaultK3sControlPlaneSpec]
  · by_contra other
    rw [if_pos other] at ns
    cases ns
  · simp only [K3sControlPlane.defaulted, defaultK3sControlPlaneSpec, validateServerConfiguration,
      List.append_nil] at etcd
    by_contra external
    rw [if_pos ⟨init, external⟩] at etcd
    cases etcd

theorem Step.sane {c : Calls ρ α} {old new : K3sControlPlane ρ} (step : Step c old new) (sane : Sane old) :
    Sane new := by
  cases step with
  | update o ok => exact (accepted_of_ok ok).valid.sane
  | scale n =>
    refine ⟨?_, by simp [K3sControlPlane.scale], sane.maxSurge, sane.reference, sane.etcd, sane.files⟩
    have same := sane.defaulted
    simp only [K3sControlPlane.defaulted, defaultK3sControlPlaneSpec] at same
    simp only [K3sControlPlane.scale, K3sControlPlane.defaulted, defaultK3sControlPlaneSpec, Option.getD_some]
    obtain ⟨ns, ⟨replicas, v, reference, ⟨files, configuration⟩, strategy⟩, others⟩ := old
    simp only [K3sControlPlane.mk.injEq, K3sControlPlaneSpec.mk.injEq, true_and, and_true] at same ⊢
    exact same.2
  | server ns spec _ =>
    obtain ⟨ns', spec', others⟩ := new
    dsimp only at ns spec
    subst ns spec
    refine ⟨?_, sane.replicas, sane.maxSurge, sane.reference, sane.etcd, sane.files⟩
    have same := congrArg K3sControlPlane.spec sane.defaulted
    simp only [K3sControlPlane.defaulted] at same ⊢
    rw [same]

/-- Whatever is created, updated and scaled: a stored object has all its defaults, and what the controllers go
through without a check. -/
theorem stored_sane {c : Calls ρ α} {o o' : K3sControlPlane ρ} (created : validateCreate c o.defaulted = .ok ())
    (ran : Run c o.defaulted o') : Sane o' := by
  induction ran with
  | refl => exact (valid_of_create created).sane
  | tail _ step ih => exact step.sane ih

theorem stored_sane_upgraded : Sane (ofVersion "v1.25.0").defaulted :=
  stored_sane (by decide : validateCreate versionCalls (ofVersion "v1.24.6").defaulted = .ok ()) upgraded_run

/-! ### Requests that make it panic -/

/-- Another type than RollingUpdate, without a `maxSurge`. -/
def K3sControlPlane.Unsurged (o : K3sControlPlane ρ) : Prop :=
  ∃ strategy, o.spec.rolloutStrategy = some strategy ∧ strategy.type ≠ "" ∧
    strategy.type ≠ rollingUpdateStrategyType ∧ strategy.rollingUpdate.bind (·.maxSurge) = none

theorem panicked_iff {c : Calls ρ α} {o : K3sControlPlane ρ} :
    validateK3sControlPlaneSpec c o.defaulted.spec o.defaulted.nameSpace "spec" = none ↔ o.Unsurged := by
  have other : rollingUpdateStrategyType ≠ "" := by decide
  obtain ⟨ns, ⟨replicas, v, reference, configuration, strategy⟩, others⟩ := o
  simp only [validateK3sControlPlaneSpec, Option.map_eq_none_iff, K3sControlPlane.defaulted,
    defaultK3sControlPlaneSpec, validateRolloutStrategy, K3sControlPlane.Unsurged]
  unfold defaultRolloutStrategy
  cases strategy with
  | none => simp
  | some strategy =>
    obtain ⟨type, rollingUpdate⟩ := strategy
    by_cases empty : type = ""
    · simp [empty, other]
    · by_cases rolling : type = rollingUpdateStrategyType
      · simp [rolling, other]
      · simp [empty, rolling]

/-- A create or an update request makes the webhook panic exactly if it has a rollout strategy of another type than
RollingUpdate and no `maxSurge`. -/
theorem panics_iff {c : Calls ρ α} (o : K3sControlPlane ρ) :
    (validateCreate c o.defaulted = .error .panicked ↔ o.Unsurged) ∧
      ∀ old, validateUpdate c old o.defaulted = .error .panicked ↔ o.Unsurged := by
  have answered : ∀ errs, answer errs ≠ .error .panicked := by
    intro errs
    unfold answer
    split <;> simp
  constructor
  · rw [← panicked_iff (c := c), validateCreate]
    split
    · simp_all
    · simp_all
  · intro old
    rw [← panicked_iff (c := c), validateUpdate]
    split
    · simp_all
    · split <;> simp_all

end KubeKey.Webhook
