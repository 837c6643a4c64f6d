import KubeKey.Go.FileSystem

/-!
# Archives

`Tar` and `Untar` of `cmd/kk/pkg/core/util/file.go`. What gzip and tar make of a list of entries is
a parameter (`Codec`), and the order in which `filepath.Walk` comes to the files of the source is an
argument. `Untar` keeps a list of what it creates and writes to (`Unpacking.touched`), which no
branch of the program reads.
-/

namespace KubeKey.Core.Util

open KubeKey.Go

/-- The types of entries that `Untar` looks for. -/
inductive Typeflag where
  | dir
  | reg
deriving DecidableEq

/-- `tar.Header` and the bytes that follow it. -/
structure Entry where
  typeflag : Typeflag
  name : List Char
  bytes : List UInt8
deriving DecidableEq

/-- `archive/tar` over `compress/gzip`. -/
structure Codec where
  write : List Entry → List UInt8
  read : List UInt8 → Option (List Entry)

/-! ## `Tar` -/

/-- `strings.TrimPrefix`. -/
def cutPrefix (front s : List Char) : List Char := if front.isPrefixOf s then s.drop front.length else s

/-- The name of a file in the archive. -/
def entryName (path trim : List Char) : List Char := cutPrefix ['/'] (cutPrefix trim path)

/-- What `Tar` reads of a file. Of the archive itself it finds what has been flushed. -/
def seen (fs : FileSystem) (dst : CleanPath) (flushed : List UInt8) (path : CleanPath) : List UInt8 :=
  if path = dst then flushed else fs.content path

/-- The entries that `Tar` writes for the files that `filepath.Walk` comes to. -/
def packed (fs : FileSystem) (dst : CleanPath) (trim : List Char) (walk : List CleanPath) (flushed : List UInt8) :
    List Entry :=
  walk.map fun path => ⟨.reg, entryName (absolute path) trim, seen fs dst flushed path⟩

/-- `Tar`, where `walk` are the regular files that `filepath.Walk` comes to. -/
def tar (codec : Codec) (fs : FileSystem) (src dst : CleanPath) (trim : List Char) (walk : List CleanPath)
    (flushed : List UInt8) : Option FileSystem :=
  (fs.setFile dst []).bind fun fs =>
    if (fs.node src).isSome then fs.setFile dst (codec.write (packed fs dst trim walk flushed)) else none

/-- The regular files under a path, each once. -/
structure Walks (fs : FileSystem) (src : CleanPath) (walk : List CleanPath) : Prop where
  once : walk.Nodup
  mem : ∀ path, path ∈ walk ↔ src <+: path ∧ FileNode.isFile (fs.node path) = true

/-! ## `Untar` -/

/-- The file system, and what was created or written to so far. -/
structure Unpacking where
  fs : FileSystem
  touched : List CleanPath

namespace Unpacking

variable (s : Unpacking)

/-- `IsExist`. -/
def isExist (path : CleanPath) : Bool := (s.fs.node path).isSome

/-- `IsDir`. -/
def isDir (path : CleanPath) : Bool := s.fs.node path = some .dir

/-- `CreateDir`. -/
def createDir (path : CleanPath) : Option Unpacking :=
  if s.isExist path then some s
  else (s.fs.mkdirAll path).map fun fs =>
    ⟨fs, s.touched ++ path.inits.filter fun p => (s.fs.node p).isNone⟩

/-- `os.OpenFile` and `io.Copy`. -/
def writeTo (path : CleanPath) (bytes : List UInt8) : Option Unpacking :=
  (s.fs.overwrite path bytes).map fun fs =>
    ⟨fs, s.touched ++ if (s.fs.node path).isNone ∨ bytes ≠ [] then [path] else []⟩

/-- The case of a regular file in `Untar`: whether it goes on, and what it leaves. The parent of the root is the
root. -/
def put (path : CleanPath) (bytes : List UInt8) : Bool × Unpacking :=
  match if s.isExist path.dropLast then some s else s.createDir path.dropLast with
  | none => (false, s)
  | some s =>
    match s.writeTo path bytes with
    | none => (false, s)
    | some s => (true, s)

/-- One round of `Untar`. -/
def entry (dst : CleanPath) (hdr : Entry) : Bool × Unpacking :=
  let dstPath := join dst hdr.name
  match hdr.typeflag with
  | .dir =>
    -- the negation covers only the first test, so nothing is ever created
    if !s.isExist dstPath && s.isDir dstPath then
      match s.createDir dstPath with
      | none => (false, s)
      | some s => (true, s)
    else (true, s)
  | .reg => s.put dstPath hdr.bytes

/-- The loop of `Untar`. -/
def entries (dst : CleanPath) : List Entry → Unpacking → Bool × Unpacking
  | [], s => (true, s)
  | hdr :: rest, s =>
    match s.entry dst hdr with
    | (false, s) => (false, s)
    | (true, s) => entries dst rest s

end Unpacking

/-- `Untar`: whether it returns nil, and what it leaves. -/
def untar (codec : Codec) (fs : FileSystem) (src dst : CleanPath) : Bool × Unpacking :=
  match fs.node src with
  | some (.file archive) =>
    match codec.read archive with
    | some hdrs => Unpacking.entries dst hdrs ⟨fs, []⟩
    | none => (false, ⟨fs, []⟩)
  | _ => (false, ⟨fs, []⟩)

end KubeKey.Core.Util
