import KubeKey.Go.Map
import KubeKey.Text.Strings

/-!
# Storing a configuration

`PostConfig` of `pkg/web/handler/resources.go` replaces `config.json` by the body of a request and starts a precheck
playbook for what has changed. It opens the file with `O_TRUNC` before it reads the old configuration from it. So every
request is compared with an empty configuration, and every error after that point leaves an empty file.

The decoders are those of `encoding/json`. A map of Go is its entries in some order, so what holds for every decoder
holds for every order of iteration.
-/

namespace KubeKey.Web
open KubeKey.Go KubeKey.Text.Strings

abbrev Bytes := List UInt8

/-- A configuration: for each schema file a value, which is nothing where the document has `null`. -/
abbrev Config (V : Type) := GoMap (Option V)

/-- What a decoder makes of the first document in a stream. -/
inductive Decoded (V : Type)
  | eof
  | malformed
  | config (c : Config V)

structure SchemaFile where
  PlaybookPath : GoMap String

/-- A precheck playbook: the fields that are set. -/
structure CreatedPlaybook (V : Type) where
  GenerateName : List Char
  Namespace : String
  Config : Option V
  InventoryRef : String
  Playbook : String

/-- What the handler runs in: the decoders, the paths under the root, and what of the file, the API server and the
executor may fail. -/
structure Handler (V : Type) where
  Unmarshal : Bytes → Option (Config V)
  Decode : Bytes → Decoded V
  UnmarshalSchema : Bytes → Option SchemaFile
  join : String → String
  opens : Bool
  setWorkdir : V → V
  creates : CreatedPlaybook V → Bool
  failureMessage : CreatedPlaybook V → String
  writes : Bool

/-- What is documented of the decoders: there is no document in an empty stream. -/
structure Handler.Decodes {V : Type} (h : Handler V) : Prop where
  eof : h.Decode [] = .eof
  schema : h.UnmarshalSchema [] = none

/-- The files under the root and the playbooks created so far, each for its schema file. -/
structure World (V : Type) where
  files : String → Option Bytes
  created : List (String × CreatedPlaybook V)

structure Request where
  body : Option Bytes
  cluster : String
  inventory : String

inductive Failure
  | readBody
  | malformedBody
  | openConfig
  | malformedConfig
  | readSchema (fileName : String)
  | malformedSchema (fileName : String)
  | createPlaybook (fileName : String)
  | writeConfig
deriving DecidableEq

inductive Reply
  | failed (failure : Failure)
  | precheckFailed (results : List (String × String))
  | success
deriving DecidableEq

def SchemaConfigFile : String := "config.json"

def SchemaLabelSubfix : String := "kubekey.kubesphere.io/schema"

def defaultString (value defaultValue : String) : String := if value = "" then defaultValue else value

/-- `filepath.Ext`: what begins with the last dot of the last element. -/
def ext (path : List Char) : List Char :=
  let base := (path.reverse.takeWhile (· ≠ '/')).reverse
  if '.' ∈ base then '.' :: (base.reverse.takeWhile (· ≠ '.')).reverse else []

/-- A map that is not read from has nothing for every key. -/
def valueOf {V : Type} (config : Config V) (fileName : String) : Option V := (config.get? fileName).getD none

/-- The precheck playbook that a schema defines, or nothing. -/
def SchemaFile.precheck (schema : SchemaFile) : String :=
  (schema.PlaybookPath.get? ("precheck." ++ SchemaLabelSubfix)).getD ""

section PostConfig

variable {V : Type} [DecidableEq V] (h : Handler V)

def precheckPlaybook (request : Request) (fileName : String) (newVal : Option V) (pbpath : String) :
    CreatedPlaybook V where
  GenerateName :=
    "precheck-".toList ++ fileName.toList.take (fileName.toList.length - (ext fileName.toList).length) ++ ['-']
  Namespace := defaultString request.cluster "default"
  -- Nothing is compared with nothing, so that a `null` never gets here.
  Config := newVal.map h.setWorkdir
  InventoryRef := defaultString request.inventory "default"
  Playbook := pbpath

/-- One turn of the loop over the new configuration: the playbook that is created, if there is one. -/
def precheckOne (files : String → Option Bytes) (oldConfig : Config V) (request : Request) (fileName : String)
    (newVal : Option V) : Except Failure (Option (CreatedPlaybook V)) :=
  if newVal = valueOf oldConfig fileName then .ok none
  else
    match files (h.join fileName) with
    | none => .error (.readSchema fileName)
    | some schemaInfo =>
      match h.UnmarshalSchema schemaInfo with
      | none => .error (.malformedSchema fileName)
      | some schemaFile =>
        if schemaFile.precheck = "" then .ok none
        else if h.creates (precheckPlaybook h request fileName newVal schemaFile.precheck) then
          .ok (some (precheckPlaybook h request fileName newVal schemaFile.precheck))
        else .error (.createPlaybook fileName)

/-- The loop: what stopped it, and the playbooks created until then. -/
def precheckAll (files : String → Option Bytes) (oldConfig : Config V) (request : Request) :
    List (String × Option V) → Option Failure × List (String × CreatedPlaybook V)
  | [] => (none, [])
  | (fileName, newVal) :: rest =>
    match precheckOne h files oldConfig request fileName newVal with
    | .error failure => (some failure, [])
    | .ok playbook =>
      let (failure, playbooks) := precheckAll files oldConfig request rest
      (failure, playbook.toList.map (fileName, ·) ++ playbooks)

/-- The content of one file replaced. -/
def write (files : String → Option Bytes) (path : String) (content : Bytes) : String → Option Bytes :=
  fun p => if p = path then some content else files p

/-- `preCheckResult`. -/
def preCheckResult (playbooks : List (String × CreatedPlaybook V)) : List (String × String) :=
  (playbooks.map fun p => (p.1, h.failureMessage p.2)).filter fun r => r.2 ≠ ""

/-- `PostConfig` once the body is decoded and the file is opened, which leaves it empty. What is read of the old
configuration is read from that file, and the body is written where the reading ended, at its start. -/
def postOpened (request : Request) (bodyBytes : Bytes) (newConfig : Config V) (world : World V) : Reply × World V :=
  let path := h.join SchemaConfigFile
  let files := write world.files path []
  match h.Decode ((files path).getD []) with
  | .malformed => (.failed .malformedConfig, { world with files := files })
  | decoded =>
    let oldConfig := match decoded with
      | .config c => c
      | _ => .empty
    match precheckAll h files oldConfig request newConfig.entries with
    | (some failure, playbooks) => (.failed failure, ⟨files, world.created ++ playbooks⟩)
    | (none, playbooks) =>
      if h.writes = false then (.failed .writeConfig, ⟨files, world.created ++ playbooks⟩)
      else
        (if preCheckResult h playbooks = [] then .success else .precheckFailed (preCheckResult h playbooks),
          ⟨write files path bodyBytes, world.created ++ playbooks⟩)

/-- `PostConfig`. -/
def PostConfig (request : Request) (world : World V) : Reply × World V :=
  match request.body with
  | none => (.failed .readBody, world)
  | some bodyBytes =>
    match h.Unmarshal bodyBytes with
    | none => (.failed .malformedBody, world)
    | some newConfig =>
      if h.opens = false then (.failed .openConfig, world) else postOpened h request bodyBytes newConfig world

end PostConfig

/-! ## What is meant -/

section Atomic

variable {V : Type} [DecidableEq V] (h : Handler V) (request : Request) (world : World V)

/-- The configuration that is stored, unless it is malformed. -/
def storedConfig : Option (Config V) :=
  match h.Decode ((world.files (h.join SchemaConfigFile)).getD []) with
  | .eof => some .empty
  | .malformed => none
  | .config c => some c

/-- The schema of a file under the root. The configuration is none. -/
def schemaOf (fileName : String) : Option SchemaFile :=
  if h.join fileName = h.join SchemaConfigFile then none else (world.files (h.join fileName)).bind h.UnmarshalSchema

/-- The schema defines a precheck playbook. -/
def DefinesPrecheck (fileName : String) : Prop :=
  ∃ schema, schemaOf h world fileName = some schema ∧ schema.precheck ≠ ""

/-- The body is stored, and a playbook is created for each key whose value is not the stored one and whose schema
defines one, and for no other. -/
def Stored (result : World V) : Prop :=
  result.files (h.join SchemaConfigFile) = request.body ∧
    ∃ newConfig oldConfig playbooks, request.body.bind h.Unmarshal = some newConfig ∧
      storedConfig h world = some oldConfig ∧ result.created = world.created ++ playbooks ∧
      (playbooks.map Prod.fst).Nodup ∧
      ∀ fileName, fileName ∈ playbooks.map Prod.fst ↔
        ∃ newVal, newConfig.get? fileName = some newVal ∧ newVal ≠ valueOf oldConfig fileName ∧
          DefinesPrecheck h world fileName

/-- An error leaves the stored configuration as it is, unless it is one of the last write, and every other answer stores
the body. -/
def PostAtomic : Prop :=
  match (PostConfig h request world).1 with
  | .failed .writeConfig => True
  | .failed _ => (PostConfig h request world).2.files (h.join SchemaConfigFile) = world.files (h.join SchemaConfigFile)
  | _ => Stored h request world (PostConfig h request world).2

/-! ## When a request is atomic -/

/-- The value is not `null`, and its schema is missing or malformed or its precheck playbook is not created. -/
def Fails (fileName : String) (newVal : Option V) : Prop :=
  newVal ≠ none ∧
    match schemaOf h world fileName with
    | none => True
    | some schema =>
      schema.precheck ≠ "" ∧ h.creates (precheckPlaybook h request fileName newVal schema.precheck) = false

/-- Of each key with a precheck playbook, the value is `null` exactly where it is the stored one. -/
def NullIfStored (newConfig oldConfig : Config V) : Prop :=
  ∀ e ∈ newConfig.entries, DefinesPrecheck h world e.1 → (e.2 = none ↔ e.2 = valueOf oldConfig e.1)

/-- The request comes to the loop with a new configuration. -/
def Loops (newConfig : Config V) : Prop := request.body.bind h.Unmarshal = some newConfig ∧ h.opens = true

def PostSafe : Prop :=
  ∀ newConfig, Loops h request newConfig →
    (∃ e ∈ newConfig.entries, Fails h request world e.1 e.2) ∧ world.files (h.join SchemaConfigFile) = some [] ∨
      (∀ e ∈ newConfig.entries, ¬ Fails h request world e.1 e.2) ∧
        (h.writes = false ∨
          ∃ oldConfig, storedConfig h world = some oldConfig ∧ NullIfStored h world newConfig oldConfig)

end Atomic

/-! ## The loop -/

section Loop

variable {V : Type} {h : Handler V} {request : Request} {world : World V}

/-- What the handler reads for a schema while the configuration is empty. -/
theorem read_schema (world : World V) (decodes : h.Decodes) (fileName : String) :
    ((write world.files (h.join SchemaConfigFile) []) (h.join fileName)).bind h.UnmarshalSchema =
      schemaOf h world fileName := by
  unfold write schemaOf
  split
  · exact decodes.schema
  · rfl

variable [DecidableEq V]

/-- One turn after the old configuration is lost is an error exactly where the key fails, and makes a playbook where the
value is not `null` and there is a precheck. -/
theorem precheckOne_spec (request : Request) (world : World V) (decodes : h.Decodes) (fileName : String)
    (newVal : Option V) :
    (∃ failure,
      precheckOne h (write world.files (h.join SchemaConfigFile) []) .empty request fileName newVal =
        .error failure ∧ failure ≠ .writeConfig ∧ Fails h request world fileName newVal) ∨
      ∃ playbook, precheckOne h (write world.files (h.join SchemaConfigFile) []) .empty request fileName newVal =
        .ok playbook ∧ ¬ Fails h request world fileName newVal ∧
        (playbook.isSome ↔ newVal ≠ none ∧ DefinesPrecheck h world fileName) := by
  have read := read_schema world decodes fileName
  unfold precheckOne Fails DefinesPrecheck
  rw [show valueOf (.empty : Config V) fileName = none from rfl]
  by_cases null : newVal = none
  · exact .inr ⟨none, if_pos null, fun fails => fails.1 null, by simp [null]⟩
  rw [if_neg null, ← read]
  cases (write world.files (h.join SchemaConfigFile) []) (h.join fileName) with
  | none => exact .inl ⟨.readSchema fileName, rfl, by simp, null, trivial⟩
  | some schemaInfo =>
    dsimp only [Option.bind_some]
    cases h.UnmarshalSchema schemaInfo with
    | none => exact .inl ⟨.malformedSchema fileName, rfl, by simp, null, trivial⟩
    | some schema =>
      dsimp only
      by_cases undefined : schema.precheck = ""
      · exact .inr ⟨none, if_pos undefined, by simp [undefined], by simp [undefined]⟩
      · rw [if_neg undefined]
        cases created : h.creates (precheckPlaybook h request fileName newVal schema.precheck) with
        | true => exact .inr ⟨some _, rfl, by simp, by simp [null, undefined]⟩
        | false => exact .inl ⟨.createPlaybook fileName, rfl, by simp, null, undefined, rfl⟩

/-- The loop stops exactly where a key fails, and otherwise makes a playbook for each key that is not `null` and has a
precheck. -/
theorem precheckAll_spec (request : Request) (world : World V) (decodes : h.Decodes)
    (entries : List (String × Option V)) :
    (∃ failure playbooks,
        precheckAll h (write world.files (h.join SchemaConfigFile) []) .empty request entries =
          (some failure, playbooks) ∧ failure ≠ .writeConfig ∧ ∃ e ∈ entries, Fails h request world e.1 e.2) ∨
      ∃ playbooks,
        precheckAll h (write world.files (h.join SchemaConfigFile) []) .empty request entries = (none, playbooks) ∧
        (∀ e ∈ entries, ¬ Fails h request world e.1 e.2) ∧
        (playbooks.map Prod.fst).Sublist (entries.map Prod.fst) ∧
        ∀ fileName, fileName ∈ playbooks.map Prod.fst ↔
          ∃ newVal, (fileName, newVal) ∈ entries ∧ newVal ≠ none ∧ DefinesPrecheck h world fileName := by
  induction entries with
  | nil => exact .inr ⟨[], rfl, by simp, .refl _, by simp⟩
  | cons e rest ih =>
    obtain ⟨name, newVal⟩ := e
    rw [precheckAll]
    rcases precheckOne_spec request world decodes name newVal with
      ⟨failure, one, other, fails⟩ | ⟨playbook, one, fine, made⟩
    · rw [one]
      exact .inl ⟨failure, [], rfl, other, _, List.mem_cons_self, fails⟩
    · rw [one]
      rcases ih with ⟨failure, playbooks, all, other, e, inside, fails⟩ | ⟨playbooks, all, fine', sub, exact_⟩
      · rw [all]
        exact .inl ⟨failure, _, rfl, other, e, List.mem_cons_of_mem _ inside, fails⟩
      · rw [all]
        refine .inr ⟨_, rfl, List.forall_mem_cons.2 ⟨fine, fine'⟩, ?_, fun fileName => ?_⟩
        · cases playbook with
          | none => exact sub.cons name
          | some p => exact sub.cons_cons name
        · rw [List.map_append, List.mem_append, exact_]
          constructor
          · rintro (here | ⟨newVal', inside, rest⟩)
            · cases playbook with
              | none => cases here
              | some p =>
                obtain rfl : fileName = name := List.mem_singleton.1 here
                exact ⟨newVal, List.mem_cons_self, made.1 rfl⟩
            · exact ⟨newVal', List.mem_cons_of_mem _ inside, rest⟩
          · rintro ⟨newVal', inside, rest⟩
            rcases List.mem_cons.1 inside with same | later
            · cases same
              obtain ⟨p, rfl⟩ := Option.isSome_iff_exists.1 (made.2 rest)
              exact .inl (List.mem_singleton.2 rfl)
            · exact .inr ⟨newVal', later, rest⟩

end Loop

/-! ## The answer -/

section Answer

variable {V : Type} {h : Handler V} {request : Request} {world : World V}

/-- The keys that are not `null` are those whose value is not the stored one, among the keys with a precheck. -/
theorem nullIfStored_iff (newConfig oldConfig : Config V) :
    (∀ fileName, (∃ newVal, (fileName, newVal) ∈ newConfig.entries ∧ newVal ≠ none ∧ DefinesPrecheck h world fileName) ↔
      ∃ newVal, newConfig.get? fileName = some newVal ∧ newVal ≠ valueOf oldConfig fileName ∧
        DefinesPrecheck h world fileName) ↔ NullIfStored h world newConfig oldConfig := by
  have unique : ∀ {fileName newVal newVal'}, (fileName, newVal) ∈ newConfig.entries →
      newConfig.get? fileName = some newVal' → newVal' = newVal := fun inside found => by
    rw [GoMap.get?_eq_some_iff.2 inside, Option.some.injEq] at found
    exact found.symm
  constructor
  · rintro same ⟨fileName, newVal⟩ inside defined
    constructor
    · intro null
      by_contra changed
      obtain ⟨newVal', inside', some_, -⟩ :=
        (same fileName).2 ⟨newVal, GoMap.get?_eq_some_iff.2 inside, changed, defined⟩
      exact some_ ((unique inside (GoMap.get?_eq_some_iff.2 inside')).trans null)
    · intro stored
      by_contra some_
      obtain ⟨newVal', found, changed, -⟩ := (same fileName).1 ⟨newVal, inside, some_, defined⟩
      exact changed ((unique inside found).trans stored)
  · intro same fileName
    constructor
    · rintro ⟨newVal, inside, some_, defined⟩
      exact ⟨newVal, GoMap.get?_eq_some_iff.2 inside, fun stored => some_ ((same _ inside defined).2 stored), defined⟩
    · rintro ⟨newVal, found, changed, defined⟩
      have inside := GoMap.get?_eq_some_iff.1 found
      exact ⟨newVal, inside, fun null => changed ((same _ inside defined).1 null), defined⟩

/-- The configuration that is decoded is one. -/
theorem postSafe_iff {newConfig : Config V} (loops : Loops h request newConfig) :
    PostSafe h request world ↔
      (∃ e ∈ newConfig.entries, Fails h request world e.1 e.2) ∧ world.files (h.join SchemaConfigFile) = some [] ∨
        (∀ e ∈ newConfig.entries, ¬ Fails h request world e.1 e.2) ∧
          (h.writes = false ∨
            ∃ oldConfig, storedConfig h world = some oldConfig ∧ NullIfStored h world newConfig oldConfig) := by
  refine ⟨fun safe => safe newConfig loops, fun condition newConfig' loops' => ?_⟩
  obtain rfl : newConfig' = newConfig := Option.some.inj (loops'.1.symm.trans loops.1)
  exact condition

/-- What is stored is the body, and the playbooks are those that should be, where they are those of the keys that are
not `null`. -/
theorem stored_iff {newConfig : Config V} (decoded : request.body.bind h.Unmarshal = some newConfig) {world' : World V}
    (content : world'.files (h.join SchemaConfigFile) = request.body) {playbooks : List (String × CreatedPlaybook V)}
    (created : world'.created = world.created ++ playbooks)
    (sub : (playbooks.map Prod.fst).Sublist (newConfig.entries.map Prod.fst))
    (made : ∀ fileName, fileName ∈ playbooks.map Prod.fst ↔
      ∃ newVal, (fileName, newVal) ∈ newConfig.entries ∧ newVal ≠ none ∧ DefinesPrecheck h world fileName) :
    Stored h request world world' ↔
      ∃ oldConfig, storedConfig h world = some oldConfig ∧ NullIfStored h world newConfig oldConfig := by
  constructor
  · rintro ⟨-, newConfig', oldConfig, playbooks', decoded', stored, created', -, exact_⟩
    obtain rfl : newConfig' = newConfig := Option.some.inj (decoded'.symm.trans decoded)
    obtain rfl : playbooks' = playbooks := List.append_cancel_left (created'.symm.trans created)
    exact ⟨oldConfig, stored, (nullIfStored_iff _ _).1 fun fileName => (made fileName).symm.trans (exact_ fileName)⟩
  · rintro ⟨oldConfig, stored, same⟩
    exact ⟨content, newConfig, oldConfig, playbooks, decoded, stored, created, newConfig.distinct.sublist sub,
      fun fileName => (made fileName).trans ((nullIfStored_iff _ _).2 same fileName)⟩

variable [DecidableEq V]

/-- The old configuration is empty after the file is opened. -/
theorem postOpened_eq (decodes : h.Decodes) (bodyBytes : Bytes) (newConfig : Config V) :
    postOpened h request bodyBytes newConfig world =
      match precheckAll h (write world.files (h.join SchemaConfigFile) []) .empty request newConfig.entries with
      | (some failure, playbooks) =>
        (.failed failure, ⟨write world.files (h.join SchemaConfigFile) [], world.created ++ playbooks⟩)
      | (none, playbooks) =>
        if h.writes = false then
          (.failed .writeConfig, ⟨write world.files (h.join SchemaConfigFile) [], world.created ++ playbooks⟩)
        else
          (if preCheckResult h playbooks = [] then .success else .precheckFailed (preCheckResult h playbooks),
            ⟨write (write world.files (h.join SchemaConfigFile) []) (h.join SchemaConfigFile) bodyBytes,
              world.created ++ playbooks⟩) := by
  have emptied : write world.files (h.join SchemaConfigFile) [] (h.join SchemaConfigFile) = some [] := if_pos rfl
  rw [postOpened]
  simp only [emptied, Option.getD_some, decodes.eof]

/-- An error other than one of the last write. -/
theorem postAtomic_failed {failure : Failure} {world' : World V}
    (answer : PostConfig h request world = (.failed failure, world')) (other : failure ≠ .writeConfig) :
    PostAtomic h request world ↔
      world'.files (h.join SchemaConfigFile) = world.files (h.join SchemaConfigFile) := by
  unfold PostAtomic
  rw [answer]
  cases failure
  case writeConfig => exact absurd rfl other
  all_goals rfl

/-- An answer after the body is written. -/
theorem postAtomic_stored {reply : Reply} {world' : World V} (answer : PostConfig h request world = (reply, world'))
    (answered : ∀ failure, reply ≠ .failed failure) :
    PostAtomic h request world ↔ Stored h request world world' := by
  unfold PostAtomic
  rw [answer]
  cases reply with
  | failed failure => exact absurd rfl (answered failure)
  | precheckFailed results => rfl
  | success => rfl

/-- Before the loop nothing is touched. -/
theorem PostConfig_early (world : World V) (early : ¬ ∃ newConfig, Loops h request newConfig) :
    ∃ failure, PostConfig h request world = (.failed failure, world) ∧ failure ≠ .writeConfig := by
  unfold PostConfig
  cases body : request.body with
  | none => exact ⟨_, rfl, by simp⟩
  | some bodyBytes =>
    dsimp only
    cases parsed : h.Unmarshal bodyBytes with
    | none => exact ⟨_, rfl, by simp⟩
    | some newConfig =>
      dsimp only
      cases opens : h.opens with
      | true => exact absurd ⟨newConfig, by rw [body, Option.bind_some, parsed], opens⟩ early
      | false => exact ⟨_, rfl, by simp⟩

/-- A request is atomic exactly when it does not come to the loop, or some key fails and the stored file is empty, or no
key fails and the body cannot be written or what is stored is readable and tells the keys with a precheck apart as
`null` does. -/
theorem postAtomic_iff (h : Handler V) (decodes : h.Decodes) (request : Request) (world : World V) :
    PostAtomic h request world ↔ PostSafe h request world := by
  by_cases looped : ∃ newConfig, Loops h request newConfig
  · obtain ⟨newConfig, loops⟩ := looped
    obtain ⟨bodyBytes, body, parsed⟩ := Option.bind_eq_some_iff.1 loops.1
    have answer : PostConfig h request world = postOpened h request bodyBytes newConfig world := by
      simp [PostConfig, body, parsed, loops.2]
    rw [postOpened_eq decodes] at answer
    rw [postSafe_iff loops]
    rcases precheckAll_spec request world decodes newConfig.entries with
      ⟨failure, playbooks, all, other, fails⟩ | ⟨playbooks, all, fine, sub, made⟩
    · rw [all] at answer
      have emptied : write world.files (h.join SchemaConfigFile) [] (h.join SchemaConfigFile) = some [] := if_pos rfl
      rw [postAtomic_failed answer other]
      dsimp only
      rw [emptied, eq_comm]
      refine ⟨fun empty => .inl ⟨fails, empty⟩, fun condition => ?_⟩
      obtain ⟨e, inside, failed⟩ := fails
      exact (condition.resolve_right fun fine => fine.1 e inside failed).2
    · rw [all] at answer
      have loses : ¬ ∃ e ∈ newConfig.entries, Fails h request world e.1 e.2 := fun ⟨e, inside, failed⟩ =>
        fine e inside failed
      simp only [loses, false_and, false_or]
      rw [and_iff_right fine]
      cases writes : h.writes with
      | false =>
        dsimp only at answer
        rw [if_pos writes] at answer
        unfold PostAtomic
        rw [answer]
        simp
      | true =>
        dsimp only at answer
        rw [if_neg (by simp [writes])] at answer
        rw [postAtomic_stored answer (fun failure => by split <;> simp), stored_iff loops.1 _ rfl sub made]
        · simp
        · rw [body]
          exact if_pos rfl
  · obtain ⟨failure, answer, other⟩ := PostConfig_early world looped
    rw [postAtomic_failed answer other]
    exact iff_of_true rfl fun newConfig loops => absurd ⟨newConfig, loops⟩ looped

end Answer

/-! ### A key without a schema file -/

/-- Decoders for one configuration, in which one key has a value, and for no schema. -/
def oneKey : Handler Unit where
  Unmarshal body := if body = [1] then some (.put .empty "a.json" (some ())) else none
  Decode content := if content = [1] then .config (.put .empty "a.json" (some ())) else .eof
  UnmarshalSchema _ := none
  join := id
  opens := true
  setWorkdir := id
  creates _ := true
  failureMessage _ := ""
  writes := true

theorem oneKey_decodes : oneKey.Decodes := ⟨rfl, rfl⟩

/-- The configuration is stored already, and there is no other file. -/
def oneFile : World Unit := ⟨fun path => if path = SchemaConfigFile then some [1] else none, []⟩

theorem postAtomic_iff_oneKey :
    PostAtomic oneKey ⟨some [1], "", ""⟩ oneFile ↔ PostSafe oneKey ⟨some [1], "", ""⟩ oneFile :=
  postAtomic_iff oneKey oneKey_decodes ⟨some [1], "", ""⟩ oneFile

/-- The request is answered with an error, and the configuration is gone. -/
theorem not_postAtomic_oneKey : ¬ PostAtomic oneKey ⟨some [1], "", ""⟩ oneFile := by
  have answer : PostConfig oneKey ⟨some [1], "", ""⟩ oneFile =
      (.failed (.readSchema "a.json"), ⟨write oneFile.files SchemaConfigFile [], []⟩) := rfl
  rw [postAtomic_failed answer (by decide)]
  decide

end KubeKey.Web
