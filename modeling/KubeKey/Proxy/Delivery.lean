import KubeKey.Proxy.Listing
import KubeKey.Proxy.Watcher

/-!
# Which deletions and additions are seen

A watcher keeps a ledger: for every key the events that it has sent, or is about to send,
and those of its queue that it still has to look at are together as many as the calls since
it was opened. The ledger is kept as long as every watcher hears of every new and every
renamed file, and finds the file when it looks. The loops come to an end from every state
(`exists_drained`): what they still have to do gets less, or a file is removed.
-/

namespace KubeKey.Proxy

open KubeKey.Go

variable {α β : Type}

/-- The event of a new file of the object. -/
def Key.created (k : Key) : FileEvent := ⟨.file k.namespace_ k.file, .create⟩

/-- The event of a file that is renamed to wait for its removal. -/
def Key.tombstoned (k : Key) : FileEvent := ⟨.file k.namespace_ k.deletedFile, .create⟩

/-- The number of events of a type that are for a file. -/
def sentFor (type : EventType) (name : Location) (events : List (WatchEvent α)) : ℕ :=
  events.countP fun e => e.type = type ∧ e.name = name

namespace FileWatcher

/-- Nothing is left to do. -/
def Drained (w : FileWatcher α) : Prop := w.loop = .receive ∧ w.watcher.events = []

/-- One `Deleted` event for each `Delete`, and an `Added` event for each `Create`. -/
structure SeesAll (w : FileWatcher α) : Prop where
  deletions : ∀ k, w.covers k →
    sentFor .deleted (.file k.namespace_ k.deletedFile) w.watchEvents = w.deletes.count k
  additions : ∀ k, w.covers k →
    w.creates.count k ≤ sentFor .added (.file k.namespace_ k.file) w.watchEvents

end FileWatcher

/-- The event that a loop is about to send. -/
def Loop.pending : Loop α → List (WatchEvent α)
  | .send e => [e]
  | _ => []

namespace FileWatcher

/-- What was sent, or is about to be. -/
def announced (w : FileWatcher α) : List (WatchEvent α) := w.watchEvents ++ w.loop.pending

/-- What was announced and what is in the queue make up for all calls. -/
structure Ledger (w : FileWatcher α) : Prop where
  deletions : ∀ k, w.covers k →
    sentFor .deleted (.file k.namespace_ k.deletedFile) w.announced + w.watcher.events.count k.tombstoned =
      w.deletes.count k
  additions : ∀ k, w.covers k →
    w.creates.count k ≤
      sentFor .added (.file k.namespace_ k.file) w.announced + w.watcher.events.count k.created

end FileWatcher

/-- Every watcher of the namespace of a key has added the directory. -/
def State.Heard (p : State α β) (k : Key) : Prop :=
  ∀ w ∈ p.watchers, w.covers k → .sub k.namespace_ ∈ w.watcher.added

/-- A new file is heard of, and a renamed one. `Create` makes a new file. -/
def State.Fits (p : State α β) : Call α β → Prop
  | .openFile k _ true => p.vol.tree.readFile k.namespace_ k.file = none ∧ p.Heard k
  | .rename k => (p.vol.tree.readFile k.namespace_ k.file).isSome = true → p.Heard k
  | _ => True

instance (p : State α β) (k : Key) : Decidable (p.Heard k) :=
  inferInstanceAs (Decidable (∀ w ∈ p.watchers, w.covers k → .sub k.namespace_ ∈ w.watcher.added))

instance State.decidableFits (p : State α β) : ∀ c, Decidable (p.Fits c)
  | .openFile k _ true => inferInstanceAs (Decidable (p.vol.tree.readFile k.namespace_ k.file = none ∧ p.Heard k))
  | .rename k => inferInstanceAs (Decidable ((p.vol.tree.readFile k.namespace_ k.file).isSome = true → p.Heard k))
  | .openFile _ _ false | .request _ | .write _ _ | .returned _ => isTrue trivial

/-- The file of the next event, if that one says that it is new. -/
def FileWatcher.nextCreated (w : FileWatcher α) : Option (String × String) :=
  match w.loop, w.watcher.events with
  | .receive, ⟨.file d f, .create⟩ :: _ => if FileStorage.resourceFile f then some (d, f) else none
  | _, _ => none

namespace FileStorage

variable {s : FileStorage α β} {named : Object α → Bool} {blank : β}

section Allowed
variable (s named)

/-- A new file that the loop looks at has an object in it. -/
def Reads (w : FileWatcher α) (vol : Volume β) : Prop :=
  ∀ file ∈ w.nextCreated, (s.watched named vol file.1 file.2).isSome = true

/-- The actions that lose no event. -/
def Allowed (p : State α β) : Action α → Prop
  | .loop i => ∀ w ∈ p.watchers[i]?, s.Reads named w p.vol
  | .call j => ∀ c ∈ p.calls[j]?, p.Fits c
  | _ => True

instance (w : FileWatcher α) (vol : Volume β) : Decidable (s.Reads named w vol) :=
  inferInstanceAs (Decidable (∀ file ∈ w.nextCreated, _))

instance decidableAllowed (p : State α β) : ∀ a, Decidable (s.Allowed named p a)
  | .loop i => inferInstanceAs (Decidable (∀ w ∈ p.watchers[i]?, s.Reads named w p.vol))
  | .call j => inferInstanceAs (Decidable (∀ c ∈ p.calls[j]?, p.Fits c))
  | .watch _ | .request _ => isTrue trivial

end Allowed

/-! ## Counting -/

theorem sentFor_append (type : EventType) (name : Location) (l l' : List (WatchEvent α)) :
    sentFor type name (l ++ l') = sentFor type name l + sentFor type name l' := List.countP_append

end FileStorage

theorem Key.tombstoned_inj {k k' : Key} (same : k.tombstoned = k'.tombstoned) : k = k' := by
  obtain ⟨sameNamespace, sameFile⟩ : k.namespace_ = k'.namespace_ ∧ k.deletedFile = k'.deletedFile := by
    simpa [Key.tombstoned] using same
  refine Key.eq_of_file sameNamespace (String.toList_injective ?_)
  have lists : (k.file ++ deleteTagSuffix).toList = (k'.file ++ deleteTagSuffix).toList :=
    congrArg String.toList sameFile
  rw [String.toList_append, String.toList_append] at lists
  exact List.append_cancel_right lists

theorem Key.tombstoned_ne_created (k k' : Key) : k.tombstoned ≠ k'.created := by
  intro same
  have files : k.deletedFile = k'.file := by
    simp only [Key.tombstoned, Key.created, FileEvent.mk.injEq, Location.file.injEq] at same
    exact same.1.2
  exact Key.file_ne_deletedFile k' k files.symm

namespace FileWatcher

variable {w : FileWatcher α} {k : Key} {events : List FileEvent} {made : Made}

@[simp] theorem announced_notify : (w.notify events).announced = w.announced := rfl

@[simp] theorem covers_notify : (w.notify events).covers k ↔ w.covers k := Iff.rfl

@[simp] theorem announced_record : (w.record made).announced = w.announced := by
  cases made with
  | nothing => rfl
  | created k => by_cases covered : w.covers k <;> simp [record, covered, announced]
  | deleted k => by_cases covered : w.covers k <;> simp [record, covered, announced]

@[simp] theorem watcher_record : (w.record made).watcher = w.watcher := by
  cases made with
  | nothing => rfl
  | created k => by_cases covered : w.covers k <;> simp [record, covered]
  | deleted k => by_cases covered : w.covers k <;> simp [record, covered]

theorem path_record : (w.record made).path = w.path := by
  cases made with
  | nothing => rfl
  | created k => by_cases covered : w.covers k <;> simp [record, covered]
  | deleted k => by_cases covered : w.covers k <;> simp [record, covered]

@[simp] theorem covers_record : (w.record made).covers k ↔ w.covers k := by
  rw [covers, covers, path_record]

theorem creates_record (covered : w.covers k) :
    (w.record made).creates.count k = w.creates.count k + if made = .created k then 1 else 0 := by
  cases made with
  | nothing => simp [record]
  | created k' =>
    by_cases same : k' = k
    · subst same
      simp [record, covered]
    · by_cases other : w.covers k' <;> simp [record, other, same]
  | deleted k' => by_cases other : w.covers k' <;> simp [record, other]

theorem deletes_record (covered : w.covers k) :
    (w.record made).deletes.count k = w.deletes.count k + if made = .deleted k then 1 else 0 := by
  cases made with
  | nothing => simp [record]
  | created k' => by_cases other : w.covers k' <;> simp [record, other]
  | deleted k' =>
    by_cases same : k' = k
    · subst same
      simp [record, covered]
    · by_cases other : w.covers k' <;> simp [record, other, same]

/-- Events of other kinds, or of new files, change nothing. -/
theorem Ledger.notify (ledger : w.Ledger) (quiet : ∀ k : Key, k.tombstoned ∉ events) : (w.notify events).Ledger where
  deletions k covered := by
    have kept : (w.notify events).watcher.events.count k.tombstoned = w.watcher.events.count k.tombstoned :=
      Notifier.count_notify_of_notMem (quiet k)
    rw [announced_notify, kept]
    exact ledger.deletions k covered
  additions k covered := by
    have grows : w.watcher.events.count k.created ≤ (w.notify events).watcher.events.count k.created := by
      show _ ≤ (w.watcher.notify events).events.count k.created
      rw [Notifier.count_notify]
      exact Nat.le_add_right _ _
    have enough := ledger.additions k covered
    show w.creates.count k ≤ _
    rw [announced_notify]
    omega

/-- A call that every watcher hears of is in the ledger. -/
theorem Ledger.record (ledger : w.Ledger)
    (deletions : ∀ k, w.covers k → (if (w.watcher.hears k.tombstoned) then events.count k.tombstoned else 0) =
      if made = .deleted k then 1 else 0)
    (additions : ∀ k, w.covers k → (if made = .created k then 1 else 0) ≤
      if (w.watcher.hears k.created) then events.count k.created else 0) :
    ((w.notify events).record made).Ledger where
  deletions k covered := by
    rw [covers_record, covers_notify] at covered
    have queued : (w.notify events).watcher.events.count k.tombstoned = _ :=
      Notifier.count_notify events k.tombstoned
    rw [announced_record, announced_notify, watcher_record, queued, deletions k covered,
      deletes_record (covers_notify.2 covered)]
    have balance := ledger.deletions k covered
    show _ = w.deletes.count k + _
    omega
  additions k covered := by
    rw [covers_record, covers_notify] at covered
    have queued : (w.notify events).watcher.events.count k.created = _ := Notifier.count_notify events k.created
    rw [announced_record, announced_notify, watcher_record, queued, creates_record (covers_notify.2 covered)]
    have enough := ledger.additions k covered
    have more := additions k covered
    show w.creates.count k + _ ≤ _
    omega

/-- The ledger is about what is announced, what is queued, and the calls. -/
theorem Ledger.congr {w' : FileWatcher α} (ledger : w.Ledger) (path : w'.path = w.path)
    (announced : w'.announced = w.announced) (queue : w'.watcher.events = w.watcher.events)
    (creates : w'.creates = w.creates) (deletes : w'.deletes = w.deletes) : w'.Ledger := by
  have covers : ∀ k, w'.covers k → w.covers k := fun k => by
    rw [FileWatcher.covers, FileWatcher.covers, path]
    exact id
  refine ⟨fun k covered => ?_, fun k covered => ?_⟩
  · rw [announced, queue, deletes]
    exact ledger.deletions k (covers k covered)
  · rw [announced, queue, creates]
    exact ledger.additions k (covers k covered)

/-- A watcher with nothing left to do has sent what its ledger promises. -/
theorem Ledger.seesAll (ledger : w.Ledger) (drained : w.Drained) : w.SeesAll := by
  have sent : w.announced = w.watchEvents := by
    rw [announced, drained.1]
    exact List.append_nil _
  refine ⟨fun k covered => ?_, fun k covered => ?_⟩
  · have balance := ledger.deletions k covered
    rwa [sent, drained.2, List.count_nil, Nat.add_zero] at balance
  · have enough := ledger.additions k covered
    rwa [sent, drained.2, List.count_nil, Nat.add_zero] at enough

end FileWatcher

/-! ## The loop of a watcher -/

namespace FileStorage

variable {s : FileStorage α β} {named : Object α → Bool} {blank : β} {vol vol' : Volume β} {w w' : FileWatcher α}
  {events : List FileEvent} {k : Key}

theorem resourceFile_file (k : Key) : resourceFile k.file = true := by
  rw [resourceFile, hasSuffix_file, Bool.true_or]

theorem resourceFile_deletedFile (k : Key) : resourceFile k.deletedFile = true := by
  have ends : hasSuffix k.deletedFile (yamlSuffix ++ deleteTagSuffix) = true :=
    hasSuffix_iff.mpr ⟨k.name, String.append_assoc⟩
  rw [resourceFile, ends, Bool.or_true]

theorem hasSuffix_deletedFile (k : Key) : hasSuffix k.deletedFile deleteTagSuffix = true :=
  hasSuffix_iff.mpr ⟨k.file, rfl⟩

theorem not_hasSuffix_file (k : Key) : hasSuffix k.file deleteTagSuffix = false := by
  by_contra ends
  obtain ⟨name, same⟩ := hasSuffix_iff.mp (Bool.eq_true_of_not_eq_false ends)
  have last := congrArg (fun s : String => s.toList.getLast?) same
  simp [Key.file, String.toList_append, yamlSuffix, deleteTagSuffix] at last

/-- Where an object is read there is a file. -/
theorem stat_of_watched {d f : String} (read : (s.watched named vol d f).isSome = true) :
    vol.stat (.file d f) = some false := by
  cases stored : vol.tree.readFile d f with
  | none =>
    rw [watched, Volume.readFile_files, stored] at read
    cases read
  | some ino => exact Volume.stat_of_readFile stored

/-- A file with an object in it is announced. -/
theorem watchFile_create {d f : String} (resource : resourceFile f = true)
    (read : (s.watched named vol d f).isSome = true) :
    ∃ obj, s.watchFile named vol ⟨.file d f, .create⟩ =
      .send ⟨if hasSuffix f deleteTagSuffix then .deleted else .added, obj, .file d f⟩ := by
  obtain ⟨obj, found⟩ := Option.isSome_iff_exists.1 read
  exact ⟨obj, by simp [watchFile, resource, found]⟩

/-- What is announced is for the file of the event, and new only if the event says so. -/
theorem mem_pending_watchFile {event : FileEvent} {e : WatchEvent α}
    (inside : e ∈ (s.watchFile named vol event).pending) :
    e.name = event.name ∧ (e.type = .modified ∨ event.op = .create) := by
  obtain ⟨name, op⟩ := event
  cases name with
  | root => simp [watchFile, Loop.pending] at inside
  | sub d => simp [watchFile, Loop.pending] at inside
  | file d f =>
    cases resource : resourceFile f with
    | false => simp [watchFile, Loop.pending, resource] at inside
    | true =>
      cases read : s.watched named vol d f with
      | none => simp [watchFile, Loop.pending, resource, read] at inside
      | some obj =>
        cases op with
        | create =>
          simp only [watchFile, resource, Bool.true_eq_false, if_false, read, Loop.pending,
            List.mem_singleton] at inside
          exact ⟨by rw [inside], .inr rfl⟩
        | write =>
          simp only [watchFile, resource, Bool.true_eq_false, if_false, read, Loop.pending,
            List.mem_singleton] at inside
          exact ⟨by rw [inside], .inl (by rw [inside])⟩
        | rename => simp [watchFile, Loop.pending, resource, read] at inside
        | remove => simp [watchFile, Loop.pending, resource, read] at inside

theorem sentFor_deleted_watchFile {event : FileEvent}
    (reads : event = k.tombstoned → (s.watched named vol k.namespace_ k.deletedFile).isSome = true) :
    sentFor .deleted (.file k.namespace_ k.deletedFile) (s.watchFile named vol event).pending =
      if event = k.tombstoned then 1 else 0 := by
  by_cases same : event = k.tombstoned
  · obtain ⟨obj, sends⟩ := watchFile_create (resourceFile_deletedFile k) (reads same)
    rw [if_pos same, same, Key.tombstoned, sends]
    simp [Loop.pending, sentFor, hasSuffix_deletedFile]
  · rw [if_neg same, sentFor, List.countP_eq_zero]
    intro e inside sent
    obtain ⟨name, new⟩ := mem_pending_watchFile inside
    simp only [decide_eq_true_eq] at sent
    rcases new with modified | created
    · rw [modified] at sent
      cases sent.1
    · exact same (by rw [Key.tombstoned, ← sent.2, name, ← created])

theorem sentFor_added_watchFile {event : FileEvent} (same : event = k.created)
    (reads : (s.watched named vol k.namespace_ k.file).isSome = true) :
    sentFor .added (.file k.namespace_ k.file) (s.watchFile named vol event).pending = 1 := by
  obtain ⟨obj, sends⟩ := watchFile_create (resourceFile_file k) reads
  rw [same, Key.created, sends]
  simp [Loop.pending, sentFor, not_hasSuffix_file]

theorem events_adjust (watcher : Notifier) (event : FileEvent) : (adjust watcher event).events = watcher.events := by
  unfold adjust
  split <;> rfl

/-- The next file event of the loop, and what it makes of it. -/
theorem loopStep_receive (receives : w.loop = .receive) (taken : s.loopStep named w vol = some (w', vol', events)) :
    ∃ event rest, w.watcher.events = event :: rest ∧ vol' = vol ∧ events = [] ∧ w'.watcher.events = rest ∧
      w'.watchEvents = w.watchEvents ∧ w'.path = w.path ∧ w'.creates = w.creates ∧ w'.deletes = w.deletes ∧
      (w'.loop = .receive ∧ vol.stat event.name ≠ some false ∨ w'.loop = s.watchFile named vol event) := by
  rw [loopStep, receives] at taken
  cases queue : w.watcher.events with
  | nil => simp [queue] at taken
  | cons event rest =>
    refine ⟨event, rest, rfl, ?_⟩
    simp only [queue] at taken
    cases found : vol.stat event.name with
    | none =>
      simp only [found] at taken
      cases taken
      exact ⟨rfl, rfl, rfl, rfl, rfl, rfl, rfl, .inl ⟨rfl, by simp⟩⟩
    | some isDir =>
      simp only [found] at taken
      by_cases directory : isDir = true ∧ splitListLength (trimPrefix event.name) = 1
      · rw [if_pos directory] at taken
        cases taken
        exact ⟨rfl, rfl, events_adjust _ _, rfl, rfl, rfl, rfl, .inl ⟨rfl, by simp [directory.1]⟩⟩
      · rw [if_neg directory] at taken
        cases taken
        exact ⟨rfl, rfl, rfl, rfl, rfl, rfl, rfl, .inr rfl⟩

theorem nextCreated_eq {f d : String} {rest : List FileEvent} (receives : w.loop = .receive)
    (queue : w.watcher.events = ⟨.file d f, .create⟩ :: rest) (resource : resourceFile f = true) :
    w.nextCreated = some (d, f) := by
  simp [FileWatcher.nextCreated, receives, queue, resource]

/-- A file that the next event says is new is read. -/
theorem Reads.watched {f d : String} {rest : List FileEvent} (reads : s.Reads named w vol)
    (receives : w.loop = .receive) (queue : w.watcher.events = ⟨.file d f, .create⟩ :: rest) (resource : resourceFile f = true) :
    (s.watched named vol d f).isSome = true :=
  reads (d, f) (nextCreated_eq receives queue resource)

/-- What the loop receives goes from the queue to what is announced. -/
theorem ledger_receive (ledger : w.Ledger) (reads : s.Reads named w vol) (receives : w.loop = .receive)
    (taken : s.loopStep named w vol = some (w', vol', events)) : w'.Ledger := by
  obtain ⟨event, rest, queue, -, -, queue', sent, path, creates, deletes, loop⟩ := loopStep_receive receives taken
  have before : w.announced = w.watchEvents := by
    rw [FileWatcher.announced, receives]
    exact List.append_nil _
  have after : w'.announced = w.watchEvents ++ w'.loop.pending := by rw [FileWatcher.announced, sent]
  have covers : ∀ k, w'.covers k ↔ w.covers k := fun k => by rw [FileWatcher.covers, FileWatcher.covers, path]
  refine ⟨fun k covered => ?_, fun k covered => ?_⟩
  · have found : event = k.tombstoned → (s.watched named vol k.namespace_ k.deletedFile).isSome = true := fun same =>
      reads.watched receives (by rw [queue, same, Key.tombstoned]) (resourceFile_deletedFile k)
    have pending : sentFor .deleted (.file k.namespace_ k.deletedFile) w'.loop.pending =
        if event = k.tombstoned then 1 else 0 := by
      rcases loop with ⟨idle, notFile⟩ | looks
      · have other : event ≠ k.tombstoned := fun same => notFile (by rw [same]; exact stat_of_watched (found same))
        rw [idle, if_neg other]
        rfl
      · rw [looks, sentFor_deleted_watchFile found]
    have balance := ledger.deletions k ((covers k).1 covered)
    rw [before, queue, List.count_cons] at balance
    rw [after, sentFor_append, pending, queue', deletes, ← balance]
    simp only [beq_iff_eq]
    omega
  · have enough := ledger.additions k ((covers k).1 covered)
    rw [before, queue, List.count_cons] at enough
    rw [after, sentFor_append, queue', creates]
    by_cases same : event = k.created
    · have found : (s.watched named vol k.namespace_ k.file).isSome = true :=
        reads.watched receives (by rw [queue, same, Key.created]) (resourceFile_file k)
      have looks : w'.loop = s.watchFile named vol event := by
        rcases loop with ⟨_, notFile⟩ | looks
        · exact absurd (by rw [same]; exact stat_of_watched found) notFile
        · exact looks
      rw [looks, sentFor_added_watchFile same found]
      simp only [same, beq_self_eq_true, if_true] at enough
      omega
    · rw [if_neg (by simpa using same)] at enough
      omega

/-- A step of the loop keeps the ledger, and says to no watcher that a file waits for its removal. -/
theorem ledger_loopStep (ledger : w.Ledger) (reads : s.Reads named w vol)
    (taken : s.loopStep named w vol = some (w', vol', events)) : w'.Ledger ∧ ∀ k : Key, k.tombstoned ∉ events := by
  cases loop : w.loop with
  | receive =>
    obtain ⟨_, _, _, _, none, _⟩ := loopStep_receive loop taken
    refine ⟨ledger_receive ledger reads loop taken, fun k inside => ?_⟩
    rw [none] at inside
    cases inside
  | send e =>
    simp only [loopStep, loop] at taken
    cases taken
    refine ⟨ledger.congr rfl ?_ rfl rfl rfl, fun k inside => by cases inside⟩
    -- what was pending is sent now
    have sends : w.announced = w.watchEvents ++ [e] := by rw [FileWatcher.announced, loop, Loop.pending]
    rw [sends, FileWatcher.announced]
    by_cases deletes : e.type = .deleted <;> simp [deletes, Loop.pending]
  | remove name =>
    have quiet : ∀ d f, ∀ k : Key, k.tombstoned ∉ (vol.remove d f).2 := by
      intro d f k inside
      rw [Volume.remove] at inside
      split at inside
      · simp [Key.tombstoned] at inside
      · cases inside
    have idle : w.announced = w.watchEvents := by
      rw [FileWatcher.announced, loop]
      exact List.append_nil _
    cases name with
    | root =>
      simp only [loopStep, loop] at taken
      cases taken
      exact ⟨ledger.congr rfl (by rw [idle]; exact List.append_nil _) rfl rfl rfl, fun k inside => by cases inside⟩
    | sub d =>
      simp only [loopStep, loop] at taken
      cases taken
      exact ⟨ledger.congr rfl (by rw [idle]; exact List.append_nil _) rfl rfl rfl, fun k inside => by cases inside⟩
    | file d f =>
      simp only [loopStep, loop] at taken
      cases taken
      exact ⟨ledger.congr rfl (by rw [idle]; exact List.append_nil _) rfl rfl rfl, quiet d f⟩

/-! ## Calls -/

theorem quiet_mkdir (d : String) (k : Key) : k.tombstoned ∉ (vol.mkdir d).2 := by
  intro inside
  rw [Volume.mkdir] at inside
  split at inside
  · cases inside
  · simp [Key.tombstoned] at inside

theorem quiet_write (ino : ℕ) (data : β) (k : Key) : k.tombstoned ∉ (vol.write ino data).2 := by
  intro inside
  obtain ⟨name, _, same⟩ := List.mem_map.1 inside
  cases same

/-- Before it opens or renames its file a call only makes a directory. -/
theorem quiet_request {r : Request α} {c : Call α β} {made : Made}
    (taken : s.callStep blank vol (.request r) = some (c, vol', events, made)) :
    made = .nothing ∧ ∀ k : Key, k.tombstoned ∉ events := by
  have none_ : ∀ k : Key, k.tombstoned ∉ ([] : List FileEvent) := fun _ inside => by cases inside
  cases r with
  | create k obj =>
    simp only [callStep] at taken
    cases encoded : s.codec.encode { obj with resourceVersion := "1" } with
    | none =>
      simp only [encoded] at taken
      cases taken
      exact ⟨rfl, quiet_mkdir k.namespace_⟩
    | some data =>
      cases decoded : s.codec.decode data with
      | none =>
        simp only [encoded, decoded] at taken
        cases taken
        exact ⟨rfl, quiet_mkdir k.namespace_⟩
      | some out =>
        simp only [encoded, decoded] at taken
        cases taken
        exact ⟨rfl, quiet_mkdir k.namespace_⟩
  | guaranteedUpdate k opts =>
    simp only [callStep] at taken
    split at taken
    · cases taken
      exact ⟨rfl, none_⟩
    · cases taken
      exact ⟨rfl, none_⟩
  | delete k opts =>
    simp only [callStep] at taken
    split at taken
    · cases taken
      exact ⟨rfl, none_⟩
    · split at taken
      · cases taken
        exact ⟨rfl, none_⟩
      · split at taken
        · cases taken
          exact ⟨rfl, none_⟩
        · cases taken
          exact ⟨rfl, none_⟩

/-- What a step of a call is to the watchers. -/
theorem callStep_spec {c c' : Call α β} {made : Made}
    (taken : s.callStep blank vol c = some (c', vol', events, made)) :
    (made = .nothing ∧ ∀ k : Key, k.tombstoned ∉ events) ∨
    (∃ k data, made = .created k ∧ c = .openFile k data true ∧
      (vol.tree.readFile k.namespace_ k.file = none → events = [k.created])) ∨
    ∃ k, made = .deleted k ∧ c = .rename k ∧ (vol.tree.readFile k.namespace_ k.file).isSome = true ∧
      events = [⟨.file k.namespace_ k.file, .rename⟩, k.tombstoned] := by
  have none_ : ∀ k : Key, k.tombstoned ∉ ([] : List FileEvent) := fun _ inside => by cases inside
  cases c with
  | request r => exact .inl (quiet_request taken)
  | openFile k data creates =>
    cases opened : vol.openFile blank k.namespace_ k.file with
    | none =>
      simp only [callStep, opened] at taken
      cases taken
      exact .inl ⟨rfl, none_⟩
    | some result =>
      obtain ⟨ino, vol'', events'⟩ := result
      have there := Volume.events_openFile opened
      simp only [callStep, opened] at taken
      cases taken
      cases creates with
      | true =>
        refine .inr (.inl ⟨k, data, rfl, rfl, fun absent => ?_⟩)
        rw [there, if_pos absent, Key.created]
      | false =>
        refine .inl ⟨rfl, fun k' inside => ?_⟩
        rw [there, List.mem_singleton, Key.tombstoned, FileEvent.mk.injEq, Location.file.injEq] at inside
        exact Key.file_ne_deletedFile k k' inside.1.2.symm
  | write ino data =>
    simp only [callStep] at taken
    cases taken
    exact .inl ⟨rfl, quiet_write ino data⟩
  | rename k =>
    cases renamed : vol.rename k.namespace_ k.file k.deletedFile with
    | none =>
      simp only [callStep, renamed] at taken
      cases taken
      exact .inl ⟨rfl, none_⟩
    | some result =>
      obtain ⟨vol'', events'⟩ := result
      obtain ⟨stored, there⟩ := Volume.rename_eq_some renamed
      simp only [callStep, renamed] at taken
      cases taken
      exact .inr (.inr ⟨k, rfl, rfl, stored, there⟩)
  | returned failure => cases taken

/-- A call that is heard of keeps the ledger. -/
theorem ledger_callStep {p : State α β} {c c' : Call α β} {made : Made} (inside : w ∈ p.watchers) (ledger : w.Ledger)
    (fits : p.Fits c) (taken : s.callStep blank p.vol c = some (c', vol', events, made)) :
    ((w.notify events).record made).Ledger := by
  rcases callStep_spec taken with ⟨rfl, quiet⟩ | ⟨k, data, rfl, rfl, new⟩ | ⟨k, rfl, rfl, stored, rfl⟩
  · exact ledger.notify quiet
  · obtain ⟨absent, heard⟩ := fits
    rw [new absent]
    refine ledger.record (fun k' _ => ?_) (fun k' covered => ?_)
    · have other : [k.created].count k'.tombstoned = 0 :=
        List.count_eq_zero.2 fun same => Key.tombstoned_ne_created k' k (List.mem_singleton.1 same)
      rw [other, ite_self]
      rfl
    · by_cases same : k = k'
      · subst same
        have hears : w.watcher.hears k.created = true := Notifier.hears_file.2 (heard w inside covered)
        simp [hears]
      · simp [same]
  · refine ledger.record (fun k' covered => ?_) (fun k' _ => ?_)
    · have renames : (⟨.file k.namespace_ k.file, .rename⟩ : FileEvent) ≠ k'.tombstoned := by simp [Key.tombstoned]
      by_cases same : k = k'
      · subst same
        have hears : w.watcher.hears k.tombstoned = true := Notifier.hears_file.2 (fits stored w inside covered)
        simp [hears, renames]
      · have other : k.tombstoned ≠ k'.tombstoned := fun equal => same (Key.tombstoned_inj equal)
        simp [other, renames, same]
    · simp

/-! ## Runs -/

/-- The ledgers of all watchers. -/
def Kept (p : State α β) : Prop := ∀ w ∈ p.watchers, w.Ledger

theorem newFileWatcher_spec (path : Option String) (vol : Volume β) :
    (newFileWatcher path vol : FileWatcher α × _).1.Ledger ∧
      ∀ k : Key, k.tombstoned ∉ (newFileWatcher path vol : FileWatcher α × _).2.2 := by
  cases path with
  | none => exact ⟨⟨fun _ _ => rfl, fun _ _ => Nat.zero_le _⟩, fun k inside => by cases inside⟩
  | some ns => exact ⟨⟨fun _ _ => rfl, fun _ _ => Nat.zero_le _⟩, quiet_mkdir ns⟩

/-- What every allowed step keeps. -/
theorem Kept.step {p p' : State α β} {a : Action α} (kept : Kept p) (allowed : s.Allowed named p a)
    (taken : s.step named blank p a = some p') : Kept p' := by
  cases a with
  | watch path =>
    cases taken
    obtain ⟨new, quiet⟩ := @newFileWatcher_spec α β path p.vol
    intro w inside
    rcases List.mem_append.1 inside with old | opened
    · obtain ⟨w, before, rfl⟩ := List.mem_map.1 old
      exact (kept w before).notify quiet
    · rw [List.mem_singleton.1 opened]
      exact new
  | request r =>
    cases taken
    exact kept
  | loop i =>
    simp only [FileStorage.step, Option.bind_eq_bind, Option.bind_eq_some_iff, Option.pure_def,
      Option.some.injEq] at taken
    obtain ⟨w, at_, ⟨w', vol', events⟩, stepped, rfl⟩ := taken
    obtain ⟨ledger, quiet⟩ := ledger_loopStep (kept w (List.mem_of_getElem? at_)) (allowed w at_) stepped
    intro other inside
    obtain ⟨other, before, rfl⟩ := List.mem_map.1 inside
    rcases List.mem_or_eq_of_mem_set before with old | rfl
    · exact (kept other old).notify quiet
    · exact ledger.notify quiet
  | call j =>
    simp only [FileStorage.step, Option.bind_eq_bind, Option.bind_eq_some_iff, Option.pure_def,
      Option.some.injEq] at taken
    obtain ⟨c, at_, ⟨c', vol', events, made⟩, stepped, rfl⟩ := taken
    intro w inside
    obtain ⟨w, before, rfl⟩ := List.mem_map.1 inside
    exact ledger_callStep before (kept w before) (allowed c at_) stepped

/-- In every run whose actions lose no event, every watcher that has nothing left to do has sent one `Deleted` event for
each `Delete`, and an `Added` event for each `Create`, of a key that it watches. -/
theorem all_seen (s : FileStorage α β) (named : Object α → Bool) (blank : β) (vol : Volume β) (acts : List (Action α))
    {p : State α β} (allowed : Along (s.step named blank) (s.Allowed named) (.start vol) acts)
    (ran : run (s.step named blank) (.start vol) acts = some p) : ∀ w ∈ p.watchers, w.Drained → w.SeesAll := by
  have start : Kept (State.start vol : State α β) := fun w inside => by cases inside
  have kept : Kept p := Along.invariant (fun _ _ _ kept fits taken => Kept.step kept fits taken) start allowed ran
  exact fun w inside drained => (kept w inside).seesAll drained

/-! ## Draining -/

/-- The steps up to the next event. -/
def Loop.load : Loop α → ℕ
  | .receive => 0
  | .remove _ => 1
  | .send _ => 2

/-- The steps that a loop still takes, at most, if no event comes in. -/
def load (w : FileWatcher α) : ℕ := 3 * w.watcher.events.length + Loop.load w.loop

theorem load_receive {event : FileEvent} {rest : List FileEvent} (queue : w'.watcher.events = rest)
    (loop : w'.loop = .receive ∨ w'.loop = s.watchFile named vol event) : load w' ≤ 3 * rest.length + 2 := by
  have sends : (s.watchFile named vol event = .receive) ∨ ∃ e, s.watchFile named vol event = .send e := by
    unfold watchFile
    repeat' split
    all_goals first | exact .inl rfl | exact .inr ⟨_, rfl⟩
  rw [load, queue]
  rcases loop with idle | looks
  · rw [idle, Loop.load]
    omega
  · rcases sends with idle | ⟨e, sends⟩
    · rw [looks, idle, Loop.load]
      omega
    · rw [looks, sends, Loop.load]

/-- A loop that is not done goes on. It has less to do then, or there are fewer files. -/
theorem loopStep_less (vol : Volume β) (busy : ¬ w.Drained) :
    ∃ w' vol' events, s.loopStep named w vol = some (w', vol', events) ∧
      (vol'.tree.size < vol.tree.size ∨ vol' = vol ∧ events = [] ∧ load w' < load w) := by
  cases loop : w.loop with
  | receive =>
    have some_event : (s.loopStep named w vol).isSome = true := by
      cases queue : w.watcher.events with
      | nil => exact absurd ⟨loop, queue⟩ busy
      | cons event rest =>
        simp only [loopStep, loop, queue]
        repeat' split
        all_goals rfl
    obtain ⟨⟨w', vol', events⟩, taken⟩ := Option.isSome_iff_exists.1 some_event
    obtain ⟨event, rest, queue, same, none, queue', _, _, _, _, next⟩ := loopStep_receive loop taken
    have less := load_receive queue' (next.imp_left And.left)
    refine ⟨w', vol', events, taken, .inr ⟨same, none, ?_⟩⟩
    have before : load w = 3 * (rest.length + 1) := by
      rw [load, loop, queue, List.length_cons, Loop.load, Nat.add_zero]
    omega
  | send e =>
    refine ⟨_, _, _, by rw [loopStep, loop], .inr ⟨rfl, rfl, ?_⟩⟩
    rw [load, load, loop]
    by_cases deletes : e.type = .deleted <;> simp [deletes, Loop.load]
  | remove name =>
    have before : load w = 3 * w.watcher.events.length + 1 := by rw [load, loop, Loop.load]
    have after : load { w with loop := .receive } < load w := by
      rw [before, load]
      exact Nat.lt_succ_self _
    cases name with
    | root => exact ⟨_, _, _, by rw [loopStep, loop], .inr ⟨rfl, rfl, after⟩⟩
    | sub d => exact ⟨_, _, _, by rw [loopStep, loop], .inr ⟨rfl, rfl, after⟩⟩
    | file d f =>
      refine ⟨_, _, _, by rw [loopStep, loop], ?_⟩
      rcases vol.remove_cases d f with nothing | fewer
      · exact .inr ⟨by rw [nothing], by rw [nothing], after⟩
      · exact .inl fewer

theorem sum_set_lt {ι : Type} (size : ι → ℕ) {l : List ι} {i : ℕ} {x y : ι} (at_ : l[i]? = some x)
    (less : size y < size x) : ((l.set i y).map size).sum < (l.map size).sum := by
  induction l generalizing i with
  | nil => cases at_
  | cons z l ih =>
    cases i with
    | zero =>
      cases at_
      simpa using less
    | succ i =>
      have rest := ih at_
      rw [List.set_cons_succ, List.map_cons, List.map_cons, List.sum_cons, List.sum_cons]
      omega

/-- The loops alone come to an end, from every state. -/
theorem exists_drained (s : FileStorage α β) (named : Object α → Bool) (blank : β) (p : State α β) :
    ∃ acts p', (∀ a ∈ acts, ∃ i, a = .loop i) ∧ run (s.step named blank) p acts = some p' ∧
      ∀ w ∈ p'.watchers, w.Drained := by
  by_cases done : ∀ w ∈ p.watchers, w.Drained
  · exact ⟨[], p, fun a inside => absurd inside List.not_mem_nil, rfl, done⟩
  · rw [not_forall] at done
    obtain ⟨w, done⟩ := done
    rw [Classical.not_imp] at done
    obtain ⟨i, at_⟩ := List.mem_iff_getElem?.1 done.1
    obtain ⟨w', vol', events, taken, less⟩ := @loopStep_less α β s named w p.vol done.2
    let next : State α β := { p with vol := vol', watchers := (p.watchers.set i w').map (·.notify events) }
    have stepped : s.step named blank p (.loop i) = some next := by
      simp only [step, at_, Option.bind_eq_bind, Option.bind_some, taken]
      rfl
    have smaller : Prod.Lex (· < ·) (· < ·) (next.vol.tree.size, (next.watchers.map load).sum)
        (p.vol.tree.size, (p.watchers.map load).sum) := by
      rcases less with fewer | ⟨same, none, less⟩
      · exact .left _ _ fewer
      · have quiet : next.watchers = p.watchers.set i w' := by
          show (p.watchers.set i w').map _ = _
          rw [none]
          refine List.map_id'' (fun w => ?_) _
          simp [FileWatcher.notify, Notifier.notify]
        rw [quiet, show next.vol = p.vol from same]
        exact .right _ (sum_set_lt load at_ less)
    obtain ⟨acts, p', loops, ran, drained⟩ := exists_drained s named blank next
    refine ⟨.loop i :: acts, p', fun a inside => ?_, run_cons_eq_some.2 ⟨next, stepped, ran⟩, drained⟩
    rcases List.mem_cons.1 inside with rfl | later
    · exact ⟨i, rfl⟩
    · exact loops a later
termination_by (p.vol.tree.size, (p.watchers.map load).sum)
decreasing_by exact smaller

end FileStorage

/-! ## Three runs -/

/-- A storage whose files hold the objects as they are, and nothing while they are new. -/
def blankStorage : FileStorage Nat (Option (Object Nat)) where
  dir := "/runtime/inventories"
  codec := ⟨fun obj => some (some obj), id, fun _ _ encoded => (Option.some.inj encoded).symm⟩
  versioner := .decimal
  tokens := .spelled

/-- The steps of the system with that storage. -/
def blankStep : State Nat (Option (Object Nat)) → Action Nat → Option (State Nat (Option (Object Nat))) :=
  blankStorage.step (fun _ => true) none

def blankVolume : Volume (Option (Object Nat)) := ⟨.empty, fun _ => none, 0⟩

def node1 : Key := ⟨"default", "node1"⟩

def creation : Action Nat := .request (.create node1 ⟨"", 1⟩)

def removal : Action Nat := .request (.delete node1 ⟨none, fun _ => true, fun _ => true⟩)

/-- A watcher adds the directory of a new namespace before the file is written, looks at the file when it is, and at the
renamed file before anybody removes it. -/
def patient : List (Action Nat) :=
  [.watch none, creation, .call 0, .loop 0, .call 0, .call 0, .loop 0, .loop 0, .loop 0, .loop 0,
    removal, .call 1, .call 1, .loop 0, .loop 0, .loop 0, .loop 0, .loop 0]

/-- The run of a watcher that sees all. -/
theorem all_seen_patient :
    ∃ p w, run blankStep (.start blankVolume) patient = some p ∧ w ∈ p.watchers ∧ w.Drained ∧
      w.creates = [node1] ∧ w.deletes = [node1] ∧ w.SeesAll :=
  ⟨_, _, rfl, List.mem_cons_self, ⟨rfl, rfl⟩, rfl, rfl, FileStorage.all_seen blankStorage (fun _ => true) none
    blankVolume patient (by decide) rfl _ List.mem_cons_self ⟨rfl, rfl⟩⟩

/-- The first of two watchers removes the file before the second one looks at it. -/
def twoWatchers : List (Action Nat) :=
  [creation, .call 0, .call 0, .call 0, .watch none, .watch (some "default"), removal, .call 1, .call 1,
    .loop 0, .loop 0, .loop 0, .loop 0, .loop 1, .loop 1, .loop 0, .loop 1]

/-- The file is written before the directory of the new namespace is added. -/
def newNamespace : List (Action Nat) := [.watch none, creation, .call 0, .call 0, .call 0, .loop 0]

/-- A watcher has looked at all its events and has sent nothing for the only `Delete` there was, and another one nothing
for the only `Create`. -/
theorem not_all_seen :
    (∃ p w, run blankStep (.start blankVolume) twoWatchers = some p ∧ w ∈ p.watchers ∧ w.Drained ∧
      w.deletes = [node1] ∧ w.watchEvents = [] ∧ ¬ w.SeesAll) ∧
    ∃ p w, run blankStep (.start blankVolume) newNamespace = some p ∧ w ∈ p.watchers ∧ w.Drained ∧
      w.creates = [node1] ∧ w.watchEvents = [] ∧ ¬ w.SeesAll := by
  refine ⟨⟨_, _, rfl, List.mem_cons_of_mem _ List.mem_cons_self, ⟨rfl, rfl⟩, rfl, rfl, fun sees => ?_⟩,
    _, _, rfl, List.mem_cons_self, ⟨rfl, rfl⟩, rfl, rfl, fun sees => ?_⟩
  · have deletions := sees.deletions node1 (by decide)
    revert deletions
    decide
  · have additions := sees.additions node1 (by decide)
    revert additions
    decide

end KubeKey.Proxy
