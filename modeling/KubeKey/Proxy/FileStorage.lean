import KubeKey.Go.Files

/-!
# The local API storage

`fileStorage` of `pkg/proxy/internal/file_storage.go` keeps the objects of a resource in
yaml files, one directory for each namespace. A key is the path of its file without the
suffix. Deleting an object renames its file; the watcher removes it later. `GetList` and
`Count` take the directory of a namespace, or the one of the resource for all namespaces.

The codec, the versioner and the continue tokens are library code and parameters here.
-/

namespace KubeKey.Proxy

open KubeKey.Go

/-- An object: the resource version in its metadata, and all the rest. -/
structure Object (α : Type) where
  resourceVersion : String
  body : α
deriving DecidableEq

/-- `runtime.Codec`. What it encodes it decodes. -/
structure Codec (α β : Type) where
  encode : Object α → Option β
  decode : β → Option (Object α)
  roundTrip : ∀ obj data, encode obj = some data → decode data = some obj

/-- `ParseResourceVersion` of `apistorage.Versioner`. -/
structure Versioner where
  parse : String → Option Nat
  parse_one : parse "1" = some 1

/-- `apistorage.EncodeContinue` and `DecodeContinue`, of a key and a prefix of it. -/
structure Continue where
  encode : String → String → Option String
  decode : String → String → Option String

/-- `fileStorage`, with the libraries behind it. The directory is the prefix of all keys. -/
structure FileStorage (α β : Type) where
  dir : String
  codec : Codec α β
  versioner : Versioner
  tokens : Continue

/-- The key of an object. -/
structure Key where
  namespace_ : String
  name : String
deriving DecidableEq, Repr

def yamlSuffix : String := ".yaml"

def deleteTagSuffix : String := "-deleted"

/-- The file of an object. -/
def Key.file (k : Key) : String := k.name ++ yamlSuffix

/-- The file of an object that waits for the watcher to remove it. -/
def Key.deletedFile (k : Key) : String := k.name ++ yamlSuffix ++ deleteTagSuffix

/-- `strings.HasSuffix`. -/
def hasSuffix (s suffix : String) : Bool := suffix.toList.isSuffixOf s.toList

/-- Where an operation fails. -/
inductive Failure where
  | encode
  | decode
  | read
  | precondition
  | validation
  | update
  | version
  | write
  | rename
  | readDir
  | continueToken
  | versionMatch
deriving DecidableEq, Repr

namespace FileStorage

variable {α β : Type} (s : FileStorage α β)

/-- `Get`. -/
def get (fs : Go.Tree β) (k : Key) : Except Failure (Object α) :=
  match fs.readFile k.namespace_ k.file with
  | none => .error .read
  | some data =>
    match s.codec.decode data with
    | none => .error .decode
    | some obj => .ok obj

/-- `Create`: the object goes to its file with the resource version 1. -/
def create (fs : Go.Tree β) (k : Key) (obj : Object α) : Except Failure (Object α) × Go.Tree β :=
  let obj := { obj with resourceVersion := "1" }
  let fs := fs.mkdir k.namespace_
  match s.codec.encode obj with
  | none => (.error .encode, fs)
  | some data =>
    match s.codec.decode data with
    | none => (.error .decode, fs)
    | some out =>
      match fs.writeFile k.namespace_ k.file data with
      | none => (.error .write, fs)
      | some fs => (.ok out, fs)

/-- The checks that `Delete` makes before it renames the file. -/
structure DeleteOptions (α : Type) where
  cachedExistingObject : Option (Object α)
  preconditions : Object α → Bool
  validateDeletion : Object α → Bool

/-- The object that an operation starts from: the cached one, or the one in the file. -/
def existing (fs : Go.Tree β) (k : Key) : Option (Object α) → Except Failure (Object α)
  | some cached => .ok cached
  | none => s.get fs k

/-- `Delete`. -/
def delete (fs : Go.Tree β) (k : Key) (opts : DeleteOptions α) : Except Failure (Object α) × Go.Tree β :=
  match s.existing fs k opts.cachedExistingObject with
  | .error e => (.error e, fs)
  | .ok out =>
    if opts.preconditions out = false then (.error .precondition, fs)
    else if opts.validateDeletion out = false then (.error .validation, fs)
    else
      match fs.renameFile k.namespace_ k.file k.deletedFile with
      | none => (.error .rename, fs)
      | some fs => (.ok out, fs)

/-- What `GuaranteedUpdate` is called with. The update function gets the object and the next resource version. -/
structure UpdateOptions (α : Type) where
  cachedExistingObject : Option (Object α)
  preconditions : Object α → Bool
  tryUpdate : Object α → Nat → Option (Object α)

/-- `GuaranteedUpdate` between the read and the write: the new object and its data. -/
def prepareUpdate (opts : UpdateOptions α) (oldObj : Object α) : Except Failure (Object α × β) :=
  if opts.preconditions oldObj = false then .error .precondition
  else
    match s.versioner.parse oldObj.resourceVersion with
    | none => .error .version
    | some oldVersion =>
      match opts.tryUpdate oldObj (oldVersion + 1) with
      | none => .error .update
      | some out =>
        match s.codec.encode out with
        | none => .error .encode
        | some data =>
          match s.codec.decode data with
          | none => .error .decode
          | some destination => .ok (destination, data)

/-- `GuaranteedUpdate`. -/
def guaranteedUpdate (fs : Go.Tree β) (k : Key) (opts : UpdateOptions α) : Except Failure (Object α) × Go.Tree β :=
  match (s.existing fs k opts.cachedExistingObject).bind (s.prepareUpdate opts) with
  | .error e => (.error e, fs)
  | .ok (out, data) =>
    match fs.writeFile k.namespace_ k.file data with
    | none => (.error .write, fs)
    | some fs => (.ok out, fs)

/-- `countByNSDir`. -/
def countByNSDir (fs : Go.Tree β) (ns : String) : Except Failure Nat :=
  match fs.sub ns with
  | none => .error .readDir
  | some entries =>
    .ok (entries.listing.countP fun e =>
      match e.2 with
      | .file _ => hasSuffix e.1 yamlSuffix
      | .dir => false)

/-- `Count` of a namespace, or of all. -/
def count (fs : Go.Tree β) : Option String → Except Failure Nat
  | some ns => countByNSDir fs ns
  | none =>
    fs.nodes.listing.foldlM (fun n e =>
      match e.2 with
      | .file => .ok n
      | .dir _ => (countByNSDir fs e.1).map (n + ·)) 0

end FileStorage

/-- `metav1.ResourceVersionMatch`. -/
inductive VersionMatch where
  | legacy
  | exact
  | notOlderThan
  | unknown
deriving DecidableEq, Repr

/-- `apistorage.ListOptions`. A limit of 0 is no limit, and a predicate that fails does not match. -/
structure ListOptions (α : Type) where
  recursive : Bool
  limit : Nat
  token : String
  resourceVersion : String
  versionMatch : VersionMatch
  matches_ : Object α → Bool

/-- A listed object, with the file it is in. -/
structure Item (α : Type) where
  namespace_ : String
  file : String
  obj : Object α
deriving DecidableEq

/-- What `GetList` has collected: the items, the path of the last one, and whether there are more. -/
structure Collected (α : Type) where
  items : List (Item α)
  lastKey : String
  hasMore : Bool

namespace FileStorage

variable {α β : Type} (s : FileStorage α β)

/-- `filepath.Join`, of clean parts. -/
def join (dir name : String) : String := dir ++ "/" ++ name

/-- The key that `GetList` is called with. -/
def listKey : Option String → String
  | none => s.dir
  | some ns => join s.dir ns

/-- `buildMatchRules`. With a continue token the rule for the keys starts to read at the continue key and never reads
that key, and it forgets from one key to the next that it has started. -/
def buildMatchRules (key : String) (opts : ListOptions α) : Except Failure ((Nat → Bool) × (String → Bool)) :=
  if opts.recursive ∧ opts.token ≠ "" then
    match s.tokens.decode opts.token key with
    | none => .error .continueToken
    | some continueKey =>
      .ok (fun _ => true, fun key =>
        let startRead := key = continueKey
        startRead ∧ key ≠ continueKey)
  else if opts.resourceVersion ≠ "" then
    match s.versioner.parse opts.resourceVersion with
    | none => .error .version
    | some parsedRV =>
      match opts.versionMatch with
      | .notOlderThan => .ok (fun rv => rv ≥ parsedRV, fun key => hasSuffix key yamlSuffix)
      | .exact => .ok (fun rv => rv = parsedRV, fun key => hasSuffix key yamlSuffix)
      | .legacy => .ok (fun _ => true, fun key => hasSuffix key yamlSuffix)
      | .unknown => .error .versionMatch
  else .ok (fun _ => true, fun key => hasSuffix key yamlSuffix)

/-- The limit of the client is reached. -/
def reached (opts : ListOptions α) (items : List (Item α)) : Prop := opts.limit ≠ 0 ∧ items.length ≥ opts.limit

instance (opts : ListOptions α) (items : List (Item α)) : Decidable (reached opts items) :=
  inferInstanceAs (Decidable (_ ∧ _))

/-- `processResourceFile`, for an entry of the directory of a namespace. -/
def processResourceFile (opts : ListOptions α) (rules : (Nat → Bool) × (String → Bool)) (ns : String)
    (c : Collected α) (e : String × Entry β) : Except Failure (Collected α) :=
  match e.2 with
  | .dir => .ok c
  | .file data =>
    let currentKey := join (join s.dir ns) e.1
    if rules.2 currentKey = false then .ok c
    else
      match s.codec.decode data with
      | none => .error .decode
      | some obj =>
        match s.versioner.parse obj.resourceVersion with
        | none => .error .version
        | some rv =>
          if rules.1 rv = true ∧ opts.matches_ obj = true then
            .ok { c with items := c.items ++ [⟨ns, e.1, obj⟩], lastKey := currentKey }
          else .ok c

/-- The loop of `GetList` over the files of one namespace. -/
def collectFiles (opts : ListOptions α) (rules : (Nat → Bool) × (String → Bool)) (ns : String) :
    List (String × Entry β) → Collected α → Except Failure (Collected α)
  | [], c => .ok c
  | e :: rest, c => do
    let c ← s.processResourceFile opts rules ns c e
    if reached opts c.items then .ok { c with hasMore := !rest.isEmpty } else collectFiles opts rules ns rest c

/-- The loop of `processNamespaceDirectory`. -/
def namespaceFiles (opts : ListOptions α) (rules : (Nat → Bool) × (String → Bool)) (ns : String) :
    List (String × Entry β) → Collected α → Except Failure (Collected α)
  | [], c => .ok c
  | e :: rest, c => do
    let c ← s.processResourceFile opts rules ns c e
    if reached opts c.items then .ok { c with hasMore := true } else namespaceFiles opts rules ns rest c

/-- `processNamespaceDirectory`. -/
def processNamespaceDirectory (opts : ListOptions α) (rules : (Nat → Bool) × (String → Bool)) (c : Collected α)
    (e : String × Node β) : Except Failure (Collected α) :=
  match e.2 with
  | .file => .ok c
  | .dir entries => s.namespaceFiles opts rules e.1 entries.listing c

/-- The loop of `GetList` over all namespaces. -/
def collectNamespaces (opts : ListOptions α) (rules : (Nat → Bool) × (String → Bool)) :
    List (String × Node β) → Collected α → Except Failure (Collected α)
  | [], c => .ok c
  | e :: rest, c => do
    let c ← s.processNamespaceDirectory opts rules c e
    if reached opts c.items then .ok { c with hasMore := !rest.isEmpty } else collectNamespaces opts rules rest c

/-- `handleResult`: the items and the continue token, empty if there are no more. -/
def handleResult (c : Collected α) : Except Failure (List (Item α) × String) :=
  if c.hasMore then
    match s.tokens.encode (c.lastKey ++ "\x00") "" with
    | none => .error .continueToken
    | some next => .ok (c.items, next)
  else .ok (c.items, "")

/-- `GetList` of a namespace, or of all. The directory of a namespace is created if there is nothing of that name. -/
def getList (fs : Go.Tree β) (ns : Option String) (opts : ListOptions α) :
    Except Failure (List (Item α) × String) × Go.Tree β :=
  match s.buildMatchRules (s.listKey ns) opts with
  | .error e => (.error e, fs)
  | .ok rules =>
    match ns with
    | none => ((s.collectNamespaces opts rules fs.nodes.listing ⟨[], "", false⟩).bind s.handleResult, fs)
    | some ns =>
      let fs := fs.mkdir ns
      match fs.sub ns with
      | none => (.error .readDir, fs)
      | some entries => ((s.collectFiles opts rules ns entries.listing ⟨[], "", false⟩).bind s.handleResult, fs)

end FileStorage

/-- Decimal resource versions, the empty one for 0. -/
def Versioner.decimal : Versioner where
  parse v := v.toList.foldlM (fun n c => if c.isDigit then some (10 * n + (c.toNat - '0'.toNat)) else none) 0
  parse_one := by decide

/-- Tokens that spell out the rest of the key. -/
def Continue.spelled : Continue where
  encode key start :=
    if start.toList <+: key.toList then some (String.ofList ('v' :: key.toList.drop start.toList.length)) else none
  decode token start :=
    match token.toList with
    | 'v' :: rest => some (start ++ String.ofList rest)
    | _ => none

/-- A storage whose files hold the objects as they are. -/
def sampleStorage : FileStorage Nat (Object Nat) where
  dir := "/runtime/inventories"
  codec := ⟨some, some, fun _ _ encoded => encoded.symm⟩
  versioner := .decimal
  tokens := .spelled

end KubeKey.Proxy
