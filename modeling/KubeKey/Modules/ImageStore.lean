import KubeKey.Go.Walk
import KubeKey.Go.Simulation

/-!
# The directory of images

`pkg/modules/image.go`: images are pulled into a directory and pushed from there by the same
client that talks to a registry. `imageTransport` answers its requests from files: a blob is
a file in `blobs`, a manifest one in the directory of its registry and repository, under
`manifests`. What is pushed is what `findLocalImageManifests` finds there.

The texts of the requests are those that the client builds for a reference it has parsed.
`json.Unmarshal` is a parameter, of which only the media type is used. A write may be
refused, or break off; a file that is there can be read.
-/

namespace KubeKey.Modules.ImageStore

open KubeKey.Go KubeKey.Text.Strings

inductive Method where
  | head
  | post
  | put
  | get
  | other
deriving DecidableEq

/-- What the transport reads of an `http.Request`. -/
structure Request where
  method : Method
  host : List Char
  /-- `URL.Path`. -/
  path : List Char
  /-- The value of `digest` in the query. -/
  digest : List Char := []
  body : List UInt8 := []

inductive Status where
  | notFound
  | methodNotAllowed
  | internalServerError
  | created
  | ok
  | accepted
deriving DecidableEq

/-- What the transport sets of an `http.Response`. -/
structure Response where
  status : Status
  contentType : Option String := none
  location : Option (List Char) := none
  contentLength : ℕ := 0
  body : Option (List UInt8) := none
deriving DecidableEq

/-- What `json.Unmarshal` makes of a file, and of its `mediaType`. -/
inductive Decoded where
  | malformed
  /-- There is no `mediaType`, or it is no text. -/
  | untyped
  | typed (mediaType : String)
deriving DecidableEq

/-- How a write to the disk goes. -/
inductive Write where
  | done
  /-- The file cannot be opened. -/
  | refused
  /-- Only so many bytes are written. -/
  | torn (n : ℕ)
deriving DecidableEq

def apiPrefix : List Char := ['/', 'v', '2', '/']

def v2 : FileName := ⟨['v', '2'], by decide, by decide⟩
def blobs : FileName := ⟨['b', 'l', 'o', 'b', 's'], by decide, by decide⟩
def manifests : FileName := ⟨['m', 'a', 'n', 'i', 'f', 'e', 's', 't', 's'], by decide, by decide⟩
def uploads : FileName := ⟨['u', 'p', 'l', 'o', 'a', 'd', 's'], by decide, by decide⟩

/-- `strings.TrimPrefix`. -/
def trimPrefix (s front : List Char) : List Char := if front.isPrefixOf s then s.drop front.length else s

/-- The file of a blob that is read. -/
def blobFile (path : List Char) : CleanPath := join [blobs] (baseName path)

/-- The file of a manifest. -/
def manifestFile (host path : List Char) : CleanPath := join (join [] host) (trimPrefix path apiPrefix)

/-- A manifest that is read, with its media type. -/
def readManifest (decode : List UInt8 → Decoded) (d : Disk) (p : CleanPath) : Except Status (String × List UInt8) :=
  if (d.fs.node p).isNone then .error .notFound
  else
    match d.readFile p with
    | none => .error .internalServerError
    | some file =>
      match decode file with
      | .typed mediaType => .ok (mediaType, file)
      | _ => .error .internalServerError

/-- `head`. -/
def head (decode : List UInt8 → Decoded) (d : Disk) (request : Request) : Response :=
  if hasSuffix (dirName request.path) blobs.text then
    if (d.fs.node (blobFile request.path)).isNone then { status := .notFound } else { status := .ok }
  else if hasSuffix (dirName request.path) manifests.text then
    match readManifest decode d (manifestFile request.host request.path) with
    | .error status => { status := status }
    | .ok (mediaType, file) => { status := .ok, contentType := some mediaType, contentLength := file.length }
  else { status := .methodNotAllowed }

/-- `post`. -/
def post (request : Request) : Response :=
  if hasSuffix request.path ('/' :: uploads.text ++ ['/']) then
    { status := .accepted, location := some (dirName request.path) }
  else { status := .methodNotAllowed }

/-- A file is written, and the directories above it are made. -/
def writeBody (d : Disk) (p : CleanPath) (body : List UInt8) (write : Write) : Response × Disk :=
  match d.mkdirAll p.dropLast with
  | none => ({ status := .internalServerError }, d)
  | some made =>
    match write with
    | .refused => ({ status := .internalServerError }, made)
    | .done =>
      match made.writeFile p body with
      | none => ({ status := .internalServerError }, made)
      | some written => ({ status := .created }, written)
    | .torn n => ({ status := .internalServerError }, (made.writeFile p (body.take n)).getD made)

/-- `put`. -/
def put (d : Disk) (request : Request) (write : Write) : Response × Disk :=
  if hasSuffix request.path ('/' :: uploads.text) then writeBody d (join [blobs] request.digest) request.body write
  else if hasSuffix (dirName request.path) ('/' :: manifests.text) then
    writeBody d (manifestFile request.host request.path) request.body write
  else ({ status := .methodNotAllowed }, d)

/-- `get`. -/
def get (decode : List UInt8 → Decoded) (d : Disk) (request : Request) : Response :=
  if hasSuffix (dirName request.path) blobs.text then
    if (d.fs.node (blobFile request.path)).isNone then { status := .notFound }
    else
      match d.readFile (blobFile request.path) with
      | none => { status := .internalServerError }
      | some file => { status := .ok, contentLength := file.length, body := some file }
  else if hasSuffix (dirName request.path) manifests.text then
    match readManifest decode d (manifestFile request.host request.path) with
    | .error status => { status := status }
    | .ok (mediaType, file) =>
      { status := .ok, contentType := some mediaType, contentLength := file.length, body := some file }
  else { status := .methodNotAllowed }

/-- `RoundTrip`. -/
def roundTrip (decode : List UInt8 → Decoded) (d : Disk) (request : Request) (write : Write) : Response × Disk :=
  match request.method with
  | .head => (head decode d request, d)
  | .post => (post request, d)
  | .put => put d request write
  | .get => (get decode d request, d)
  | .other => ({ status := .methodNotAllowed }, d)

/-- The media types of the manifests and indexes of OCI and of Docker. -/
def manifestTypes : List String :=
  ["application/vnd.oci.image.index.v1+json", "application/vnd.oci.image.manifest.v1+json",
    "application/vnd.docker.distribution.manifest.list.v2+json", "application/vnd.docker.distribution.manifest.v2+json"]

def digestPrefix : List Char := ['s', 'h', 'a', '2', '5', '6', ':']

/-- The name of the image whose manifest is this file. -/
def imageName (place : CleanPath) (reference : FileName) : List Char :=
  (if place = [] then ['.'] else relative place) ++ ':' :: reference.text

/-- What `findLocalImageManifests` makes of a file of that last name, `none` if it gives up. -/
def visitFile (decode : List UInt8 → Decoded) (image : List Char) (last : FileName) (file : List UInt8) :
    Option (Option (List Char)) :=
  if last = manifests then some none
  else
    match decode file with
    | .malformed => some none
    | .untyped => none
    | .typed mediaType =>
      if mediaType ∈ manifestTypes ∧ digestPrefix.isPrefixOf last.text = false then some (some image) else some none

/-- What it does at a path. -/
def visit (decode : List UInt8 → Decoded) (d : Disk) (p : CleanPath) : Option (Option (List Char)) :=
  match d.readFile p, p.getLast? with
  | some file, some last => visitFile decode (imageName p.dropLast.dropLast last) last file
  -- a directory
  | _, _ => some none

end KubeKey.Modules.ImageStore
