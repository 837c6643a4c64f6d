import KubeKey.CloudInit.RunCmd
import KubeKey.Posix.Script
import KubeKey.Project.Load

/-!
# Files of the write_files action

`writefiles.go` of `pkg/service/provisioning/cloudinit`, with `SudoPrefix` of the ssh client and the
service for directories. A file is written twice over: `Commands` gives commands for it, which the
controller sends to the machine as texts, and `Run` sends texts of its own. Either way the content
is put between single quotes, and what is sent is a here document of a shell.

Only the first of the encodings is undone, `Run` leaves the owner and the mode as they are, and it
gives everything below the directory to root.
-/

namespace KubeKey.CloudInit.WriteFiles

open KubeKey.Text KubeKey.Text.Strings KubeKey.Text.Shell KubeKey.Posix

/-! ## Attributes -/

def kubeadmInitPath : Chars := "/run/kubeadm/kubeadm.yaml".toList

def kubeproxyComponentConfig : Chars :=
  "
---
apiVersion: kubeproxy.config.k8s.io/v1alpha1
kind: KubeProxyConfiguration
conntrack:
# Skip setting sysctl value \"net.netfilter.nf_conntrack_max\"
# It is a global variable that affects other namespaces
  maxPerCore: 0
".toList

def fixPath (p : Chars) : Chars := trimSpace p

def fixOwner (o : Chars) : Chars := if trimSpace o ≠ [] then trimSpace o else "root:root".toList

def fixPermissions (p : Chars) : Chars := if trimSpace p ≠ [] then trimSpace p else "0644".toList

/-- `unicode.ToLower`, as far as it gives letters of ASCII. -/
def lower (c : Char) : Char := if c = '\u0130' then 'i' else if c = '\u212a' then 'k' else c.toLower

def fixEncoding (e : Chars) : List String :=
  let e := trimSpace (e.map lower)
  let is_ := fun names : List String => names.any fun name => e = name.toList
  if is_ ["gz", "gzip"] then ["application/x-gzip"]
  else if is_ ["gz+base64", "gzip+base64", "gz+b64", "gzip+b64"] then ["application/base64", "application/x-gzip"]
  else if is_ ["base64", "b64"] then ["application/base64"]
  else ["text/plain"]

/-- The decoders, with the texts of their errors. -/
structure Codec where
  base64 : Chars → Except Chars Chars
  gunzip : Chars → Except Chars Chars

inductive ContentErr where
  | decoder (err : Chars)
  | unknownEncoding (content : Chars)

section Source

variable (codec : Codec)

/-- `fixContent`: the first encoding decides what is returned. -/
def fixContent (content : Chars) : List String → Except ContentErr Chars
  | [] => .ok content
  | e :: _ =>
    if e = "application/base64" then (codec.base64 content).mapError .decoder
    else if e = "application/x-gzip" then (codec.gunzip content).mapError .decoder
    else if e = "text/plain" then .ok content
    else .error (.unknownEncoding content)

/-- The section that is added to the file of kubeadm. -/
def addSection (path content : Chars) : Chars :=
  if path = kubeadmInitPath then content ++ kubeproxyComponentConfig else content

/-- The text that is written for a file. -/
def fileText (f : Files) : Except ContentErr Chars :=
  (fixContent codec f.content (fixEncoding f.encoding)).map (addSection (fixPath f.path))

/-- `filepath.Dir`. -/
def dir (path : Chars) : Chars := (Loader.dir (String.ofList path)).toList

/-! ## Commands -/

/-- "error decoding content for" the file at a path. -/
structure DecodeErr where
  path : Chars
  err : ContentErr

def fileCommands (f : Files) (text : Chars) : List Cmd :=
  let path := fixPath f.path
  let permissions := fixPermissions f.permissions
  let owner := fixOwner f.owner
  [⟨"mkdir".toList, ["-p".toList, dir path]⟩,
    ⟨"/bin/sh".toList, ["-c".toList, quotedEcho text f.append path]⟩] ++
    (if permissions ≠ "0644".toList then [⟨"chmod".toList, [permissions, path]⟩] else []) ++
    (if owner ≠ "root:root".toList then [⟨"chown".toList, [owner, path]⟩] else [])

/-- `Commands`, with the commands up to an error. -/
def commands : List Files → List Cmd × Option DecodeErr
  | [] => ([], none)
  | f :: fs =>
    match fileText codec f with
    | .error e => ([], some ⟨fixPath f.path, e⟩)
    | .ok text => (fileCommands f text ++ (commands fs).1, (commands fs).2)

/-! ## The ssh client -/

def opening : Chars := "sudo -E /bin/bash <<EOF\n".toList

def stop : Chars := "EOF".toList

/-- `SudoPrefix`. -/
def sudoPrefix (cmd : Chars) : Chars := opening ++ cmd ++ '\n' :: stop

variable (m : Machine)

/-- What the machine does with a text of this form: the here document is a script for a shell of root. -/
def remote (text : Chars) (t : Tree) : Option Tree :=
  if opening.isPrefixOf text then
    (hereDocument stop (text.drop opening.length)).bind fun script => m.simple script t
  else none

/-- `SudoCmd`. -/
def sudoCmd (cmd : Chars) (t : Tree) : Option Tree := remote m (sudoPrefix cmd) t

/-- The commands are sent to the machine one by one, if there was no error. -/
def runCommands (files : List Files) (t : Tree) : Option Tree :=
  match commands codec files with
  | (cmds, none) => cmds.foldlM (fun t c => sudoCmd m c.string t) t
  | (_, some _) => none

/-! ## Run -/

/-- `Make` of a directory with the mode 0755. -/
def make (path : Chars) (t : Tree) : Option Tree :=
  sudoCmd m (unwords ["mkdir".toList, "-p".toList, "-m".toList, "755".toList, path]) t

/-- `Chown` of a directory. -/
def chown (user path : Chars) (t : Tree) : Option Tree :=
  sudoCmd m (unwords ["chown".toList, user, "-R".toList, path]) t

def runFile (f : Files) (t : Tree) : Option Tree :=
  match fileText codec f with
  | .error _ => none
  | .ok text =>
    let path := fixPath f.path
    ((make m (dir path) t).bind (chown m "root".toList (dir path))).bind
      (sudoCmd m (quotedEcho text f.append path))

/-- `Run`, as far as there is no error. -/
def run (files : List Files) (t : Tree) : Option Tree := files.foldlM (fun t f => runFile codec m f t) t

/-! ## What the files are to become -/

/-- A content through all of its encodings. -/
def decode (content : Chars) (encodings : List String) : Except ContentErr Chars :=
  encodings.foldlM (fun c e => fixContent codec c [e]) content

/-- The text of a file. -/
def wanted (f : Files) : Except ContentErr Chars :=
  (decode codec f.content (fixEncoding f.encoding)).map (addSection (fixPath f.path))

/-- What a file holds after entries for it, each with a newline more or not. -/
def Holds (old : Chars) : List Files → Chars → Prop
  | [], now => now = old
  | f :: fs, now => ∃ text tail, wanted codec f = .ok text ∧ (tail = [] ∨ tail = ['\n']) ∧
      Holds ((if f.append then old else []) ++ text ++ tail) fs now

/-- The attributes are those that an entry asks for. -/
def Requested (f : Files) (attr : Attr) : Prop :=
  ∃ o mode, m.accounts.owner (fixOwner f.owner) = some o ∧ octal (fixPermissions f.permissions) = some mode ∧
    attr.own o = attr ∧ attr.mode = mode

/-- What a place holds. -/
def held (e : Option Entry) : Chars :=
  match e with
  | some (.file _ content) => content
  | _ => []

/-- The place where an entry puts its file. -/
def placeOf (f : Files) : Place := place m.home (fixPath f.path)

/-- At each path is the file that the entries for it ask for. -/
def Left (files : List Files) (t t' : Tree) : Prop :=
  ∀ p, ∀ last ∈ (files.filter fun f => placeOf m f = p).getLast?, ∃ attr content,
    t' p = some (.file attr content) ∧ Requested m last attr ∧
      Holds codec (held (t p)) (files.filter fun f => placeOf m f = p) content

/-- The commands and the run leave the files that are asked for, and do the same. -/
def Faithful (files : List Files) (t : Tree) : Prop :=
  ∃ t', runCommands codec m files t = some t' ∧ run codec m files t = some t' ∧ Left codec m files t t'

/-! ## When they become that -/

/-- The script that writes the file of an entry. -/
def script (f : Files) (text : Chars) : Chars := quotedEcho text f.append (fixPath f.path)

/-- No content is encoded twice, and no text of an entry means something to a shell or one of its tools. -/
structure Plain (f : Files) (text : Chars) : Prop where
  fileText_ : fileText codec f = .ok text
  once : (fixEncoding f.encoding).length = 1
  unquoted : '\'' ∉ text
  unescaped : '\\' ∉ text
  shown : echoOption text = false
  whole : stop ∉ lines (script f text)
  still : expands (script f text) = false
  file : named (fixPath f.path) = true
  path : plainWord (fixPath f.path) = true
  dir_ : plainWord (dir (fixPath f.path)) = true
  below : operand (dir (fixPath f.path)) = true
  owner : plainWord (fixOwner f.owner) = true
  given : operand (fixOwner f.owner) = true
  unnamed : operand (fixPath f.path) = true ∨
    fixPermissions f.permissions = "0644".toList ∧ fixOwner f.owner = "root:root".toList

/-- There is room for the files, which have or get the attributes that are asked for, and what is below their
directories is root's. -/
structure Fits (files : List Files) (t : Tree) : Prop where
  way : ∀ f ∈ files, ∀ q, q <+: placeOf m f → q ≠ placeOf m f → ∀ e ∈ t q, e.isFile = false
  room : ∀ f ∈ files, ∀ e ∈ t (placeOf m f), e.isFile = true
  apart : ∀ f ∈ files, ∀ g ∈ files, placeOf m f <+: placeOf m g → placeOf m f = placeOf m g
  requested : ∀ f ∈ files, Requested m f ((t (placeOf m f)).elim newFile Entry.attr)
  roots : ∀ f ∈ files, ∀ q, (placeOf m f).dropLast <+: q → ∀ e ∈ t q, e.attr.user = 0

end Source

end KubeKey.CloudInit.WriteFiles
