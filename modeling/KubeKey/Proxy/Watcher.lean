import KubeKey.Go.Goroutine
import KubeKey.Go.Notify
import KubeKey.Proxy.FileStorage

/-!
# Watching the local API storage

The watchers of `pkg/proxy/internal/watcher.go` and the calls of the storage that they
watch, as a system: any number of watchers and of calls, each at some point of its code.
An action is the next step of one of them, up to and with its next operation on the files.
The file events of an operation go to all watchers that have added the directory.

Every watcher has a record of the `Create` and `Delete` calls since it was opened, which
the code does not have: it is what the sent events are compared with. A call is made when
it opens, or renames, the file.
-/

namespace KubeKey.Proxy

open KubeKey.Go

/-- `watch.EventType`. -/
inductive EventType where
  | added
  | modified
  | deleted
deriving DecidableEq, Repr

/-- `watch.Event`, with the name of the file that it was sent for. -/
structure WatchEvent (α : Type) where
  type : EventType
  object : Object α
  name : Location
deriving DecidableEq

/-- Where the loop of a watcher is: it waits for a file event, has an event to send, or has sent the event for a deleted
file and removes the file. -/
inductive Loop (α : Type) where
  | receive
  | send (e : WatchEvent α)
  | remove (name : Location)

/-- `fileWatcher`, of a namespace or of all. -/
structure FileWatcher (α : Type) where
  path : Option String
  watcher : Notifier
  loop : Loop α
  /-- What was sent on the channel. -/
  watchEvents : List (WatchEvent α)
  creates : List Key
  deletes : List Key

/-- `len(filepath.SplitList(path))`: the separator is the one between paths, not the one between names. -/
def splitListLength (path : String) : ℕ := if path = "" then 0 else path.toList.count ':' + 1

/-- `strings.TrimPrefix(event.Name, w.prefix)`. -/
def trimPrefix : Location → String
  | .root => ""
  | .sub d => "/" ++ d
  | .file d f => "/" ++ d ++ "/" ++ f

/-- What a call is to the watchers. -/
inductive Made where
  | nothing
  | created (k : Key)
  | deleted (k : Key)
deriving DecidableEq

namespace FileWatcher

variable {α β : Type}

/-- The key is of a namespace that is watched. -/
def covers (w : FileWatcher α) (k : Key) : Prop := w.path = none ∨ w.path = some k.namespace_

instance (w : FileWatcher α) (k : Key) : Decidable (w.covers k) := inferInstanceAs (Decidable (_ ∨ _))

/-- Records a call. -/
def record (w : FileWatcher α) : Made → FileWatcher α
  | .nothing => w
  | .created k => if w.covers k then { w with creates := k :: w.creates } else w
  | .deleted k => if w.covers k then { w with deletes := k :: w.deletes } else w

/-- The events of an operation. -/
def notify (w : FileWatcher α) (events : List FileEvent) : FileWatcher α :=
  { w with watcher := w.watcher.notify events }

end FileWatcher

/-- The call that a storage gets. -/
inductive Request (α : Type) where
  | create (k : Key) (obj : Object α)
  | guaranteedUpdate (k : Key) (opts : FileStorage.UpdateOptions α)
  | delete (k : Key) (opts : FileStorage.DeleteOptions α)

/-- How far a call is. Before `openFile` it is known whether it is one of `Create`. -/
inductive Call (α β : Type) where
  | request (r : Request α)
  | openFile (k : Key) (data : β) (creates : Bool)
  | write (ino : ℕ) (data : β)
  | rename (k : Key)
  | returned (failure : Option Failure)

/-- The files, the open watchers and the calls. -/
structure State (α β : Type) where
  vol : Volume β
  watchers : List (FileWatcher α)
  calls : List (Call α β)

/-- The next step of a watcher or of a call, by its number; a new watcher, or a new call. -/
inductive Action (α : Type) where
  | watch (path : Option String)
  | request (r : Request α)
  | loop (i : ℕ)
  | call (j : ℕ)

namespace FileStorage

variable {α β : Type} (s : FileStorage α β)

section Loop
-- `GetName() != "" || GetGenerateName() != ""`
variable (named : Object α → Bool)

/-- The object in a file, if `watchFile` gets one that it does not ignore. -/
def watched (vol : Volume β) (d f : String) : Option (Object α) :=
  ((vol.files.readFile d f).bind s.codec.decode).filter named

/-- The first test of `watchFile`. -/
def resourceFile (f : String) : Bool := hasSuffix f yamlSuffix || hasSuffix f (yamlSuffix ++ deleteTagSuffix)

/-- `watchFile` up to the event that it sends. -/
def watchFile (vol : Volume β) (event : FileEvent) : Loop α :=
  match event.name with
  | .file d f =>
    if resourceFile f = false then .receive
    else
      match s.watched named vol d f with
      | none => .receive
      | some obj =>
        match event.op with
        | .create => .send ⟨if hasSuffix f deleteTagSuffix then .deleted else .added, obj, event.name⟩
        | .write => .send ⟨.modified, obj, event.name⟩
        | _ => .receive
  | _ => .receive

/-- Adjusts the listening range to the event of a directory. -/
def adjust (watcher : Notifier) (event : FileEvent) : Notifier :=
  match event.op with
  | .create => watcher.add event.name
  | .remove => watcher.remove event.name
  | _ => watcher

/-- A step of `watch`. -/
def loopStep (w : FileWatcher α) (vol : Volume β) : Option (FileWatcher α × Volume β × List FileEvent) :=
  match w.loop with
  | .receive =>
    match w.watcher.events with
    | [] => none
    | event :: events =>
      let watcher : Notifier := { w.watcher with events }
      match vol.stat event.name with
      | none => some ({ w with watcher }, vol, [])
      | some isDir =>
        if isDir = true ∧ splitListLength (trimPrefix event.name) = 1 then
          some ({ w with watcher := adjust watcher event }, vol, [])
        else some ({ w with watcher, loop := s.watchFile named vol event }, vol, [])
  | .send e =>
    let loop : Loop α := if e.type = .deleted then .remove e.name else .receive
    some ({ w with watchEvents := w.watchEvents ++ [e], loop }, vol, [])
  | .remove (.file d f) =>
    let (vol, events) := vol.remove d f
    some ({ w with loop := .receive }, vol, events)
  | .remove _ => some ({ w with loop := .receive }, vol, [])

end Loop

/-- `newFileWatcher`. For all namespaces the directories that there are get added. -/
def newFileWatcher (path : Option String) (vol : Volume β) : FileWatcher α × Volume β × List FileEvent :=
  let opened (added : List Location) : FileWatcher α := ⟨path, ⟨added, []⟩, .receive, [], [], []⟩
  match path with
  | none =>
    let dirs := vol.tree.nodes.listing.filterMap fun
      | (_, .file) => none
      | (d, .dir _) => some (Location.sub d)
    (opened (.root :: dirs), vol, [])
  | some ns =>
    let (vol, events) := vol.mkdir ns
    (opened [.sub ns], vol, events)

section Calls
-- what is in a new file
variable (blank : β)

/-- A step of a call. -/
def callStep (vol : Volume β) : Call α β → Option (Call α β × Volume β × List FileEvent × Made)
  | .request (.create k obj) =>
    let obj := { obj with resourceVersion := "1" }
    let (vol, events) := vol.mkdir k.namespace_
    match s.codec.encode obj with
    | none => some (.returned (some .encode), vol, events, .nothing)
    | some data =>
      match s.codec.decode data with
      | none => some (.returned (some .decode), vol, events, .nothing)
      | some _ => some (.openFile k data true, vol, events, .nothing)
  | .request (.guaranteedUpdate k opts) =>
    match (s.existing vol.files k opts.cachedExistingObject).bind (s.prepareUpdate opts) with
    | .error e => some (.returned (some e), vol, [], .nothing)
    | .ok (_, data) => some (.openFile k data false, vol, [], .nothing)
  | .request (.delete k opts) =>
    match s.existing vol.files k opts.cachedExistingObject with
    | .error e => some (.returned (some e), vol, [], .nothing)
    | .ok out =>
      if opts.preconditions out = false then some (.returned (some .precondition), vol, [], .nothing)
      else if opts.validateDeletion out = false then some (.returned (some .validation), vol, [], .nothing)
      else some (.rename k, vol, [], .nothing)
  | .openFile k data creates =>
    match vol.openFile blank k.namespace_ k.file with
    | none => some (.returned (some .write), vol, [], .nothing)
    | some (ino, vol, events) =>
      some (.write ino data, vol, events, if creates then .created k else .nothing)
  | .write ino data =>
    let (vol, events) := vol.write ino data
    some (.returned none, vol, events, .nothing)
  | .rename k =>
    match vol.rename k.namespace_ k.file k.deletedFile with
    | none => some (.returned (some .rename), vol, [], .nothing)
    | some (vol, events) => some (.returned none, vol, events, .deleted k)
  | .returned _ => none

end Calls

section System
variable (named : Object α → Bool) (blank : β)

/-- A step of the system. -/
def step (p : State α β) : Action α → Option (State α β)
  | .watch path =>
    let (w, vol, events) := newFileWatcher path p.vol
    some { p with vol, watchers := p.watchers.map (·.notify events) ++ [w] }
  | .request r => some { p with calls := p.calls ++ [.request r] }
  | .loop i => do
    let w ← p.watchers[i]?
    let (w, vol, events) ← s.loopStep named w p.vol
    pure { p with vol, watchers := (p.watchers.set i w).map (·.notify events) }
  | .call j => do
    let c ← p.calls[j]?
    let (c, vol, events, made) ← s.callStep blank p.vol c
    pure ⟨vol, p.watchers.map fun w => (w.notify events).record made, p.calls.set j c⟩

end System

end FileStorage

/-- Nobody watches and nobody calls yet. -/
def State.start {α β : Type} (vol : Volume β) : State α β := ⟨vol, [], []⟩

end KubeKey.Proxy
