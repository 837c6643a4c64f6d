import KubeKey.Go.Goroutine
import KubeKey.Proxy.Refinement

/-!
# Resource versions under concurrent updates

Clients create objects, read them, and update what they read. `GuaranteedUpdate` reads the
file, asks the update function and writes the file, and other clients may come in between.
The update function is the one of the registry: it rejects an object whose resource version
is not the stored one, and returns the object of the client otherwise.

The storage hands the next version to the update function and leaves it at that. Every
object keeps the version 1 that `Create` gave it, the check of the registry never finds a
difference, and each update is one that can get lost: `no_lost_update_iff`.
-/

namespace KubeKey.Proxy

open KubeKey.Go FileStorage

/-- Where a client is. -/
inductive Client (α β : Type) where
  | idle
  /-- It has read the object. -/
  | read (k : Key) (obj : Object α)
  /-- Its `GuaranteedUpdate` of what it read is about to write. -/
  | writing (k : Key) (obj out : Object α) (data : β)

/-- A successful update: what the client had read, what was in the file, and what is now. -/
structure Update (α : Type) where
  key : Key
  basis : Object α
  replaced : Option (Object α)
  stored : Object α

/-- The files, the clients, and the updates so far. -/
structure Clients (α β : Type) where
  fs : Go.Tree β
  client : ℕ → Client α β
  updates : List (Update α)

/-- What happens next. -/
inductive Act (α : Type) where
  | create (k : Key) (obj : Object α)
  | read (c : ℕ) (k : Key)
  /-- `GuaranteedUpdate` reads the file and calls the update function. The body is what the client wants, and the
  strategy of the resource makes the stored one of it. -/
  | update (c : ℕ) (preconditions : Object α → Bool) (body : α) (strategy : Object α → α → Option α)
  /-- `GuaranteedUpdate` writes the file. -/
  | write (c : ℕ)

namespace FileStorage

variable {α β : Type} (s : FileStorage α β)

/-- The update function of the registry for an object with this version. -/
def registryUpdate (version : String) (body : α) (strategy : Object α → α → Option α) (existing : Object α) (_ : Nat) :
    Option (Object α) :=
  if s.versioner.parse version = s.versioner.parse existing.resourceVersion then
    (strategy existing body).map fun body => ⟨version, body⟩
  else none

/-- `GuaranteedUpdate` up to the write. -/
def startUpdate (fs : Go.Tree β) (k : Key) (opts : UpdateOptions α) : Except Failure (Object α × β) :=
  (s.existing fs k opts.cachedExistingObject).bind (s.prepareUpdate opts)

/-- `GuaranteedUpdate` is its two parts. -/
theorem guaranteedUpdate_eq (fs : Go.Tree β) (k : Key) (opts : UpdateOptions α) :
    s.guaranteedUpdate fs k opts =
      match s.startUpdate fs k opts with
      | .error e => (.error e, fs)
      | .ok (out, data) =>
        match fs.writeFile k.namespace_ k.file data with
        | none => (.error .write, fs)
        | some fs => (.ok out, fs) := rfl

/-- One action of the clients. -/
def clientStep (st : Clients α β) : Act α → Option (Clients α β)
  | .create k obj => some { st with fs := (s.create st.fs k obj).2 }
  | .read c k =>
    match s.get st.fs k with
    | .error _ => some { st with client := Function.update st.client c .idle }
    | .ok obj => some { st with client := Function.update st.client c (.read k obj) }
  | .update c preconditions body strategy =>
    match st.client c with
    | .read k obj =>
      match s.startUpdate st.fs k ⟨none, preconditions, s.registryUpdate obj.resourceVersion body strategy⟩ with
      | .error _ => some { st with client := Function.update st.client c .idle }
      | .ok (out, data) => some { st with client := Function.update st.client c (.writing k obj out data) }
    | _ => none
  | .write c =>
    match st.client c with
    | .writing k obj out data =>
      match st.fs.writeFile k.namespace_ k.file data with
      | none => some { st with client := Function.update st.client c .idle }
      | some fs => some {
          fs
          client := Function.update st.client c .idle
          updates := st.updates ++ [⟨k, obj, (s.get st.fs k).toOption, out⟩] }
    | _ => none

/-- No clients did anything yet. -/
def start : Clients α β := ⟨.empty, fun _ => .idle, []⟩

/-- Every update stores a greater version than the one it replaces, and no two updates of one object are based on the
same version. -/
def NoLostUpdate (updates : List (Update α)) : Prop :=
  (∀ u ∈ updates, ∃ old v v', u.replaced = some old ∧ s.versioner.parse old.resourceVersion = some v ∧
    s.versioner.parse u.stored.resourceVersion = some v' ∧ v < v') ∧
  updates.Pairwise fun u u' => u.key = u'.key →
    s.versioner.parse u.basis.resourceVersion ≠ s.versioner.parse u'.basis.resourceVersion

/-- The object has version 1. -/
def First (obj : Object α) : Prop := s.versioner.parse obj.resourceVersion = some 1

/-- What holds of a client: the object it read is there, and all it has is of version 1. -/
def Settled (fs : Go.Tree β) : Client α β → Prop
  | .idle => True
  | .read k obj => s.contents fs k ≠ none ∧ s.First obj
  | .writing k obj out data =>
    s.contents fs k ≠ none ∧ s.First obj ∧ s.First out ∧ s.codec.decode data = some out

/-- All versions are 1. -/
structure Stuck (st : Clients α β) : Prop where
  stored : s.WellStored st.fs
  files : ∀ k obj, s.contents st.fs k = some obj → s.First obj
  clients : ∀ c, s.Settled st.fs (st.client c)
  updates : ∀ u ∈ st.updates, s.First u.stored ∧ ∃ old, u.replaced = some old ∧ s.First old

variable {s} {fs fs' : Go.Tree β} {st st' : Clients α β}

/-- What the update function of the registry accepts has the version of the client. -/
theorem startUpdate_registry (stored : s.WellStored fs) {k : Key} {preconditions : Object α → Bool} {version : String}
    {body : α} {strategy : Object α → α → Option α} {out : Object α} {data : β}
    (starts : s.startUpdate fs k ⟨none, preconditions, s.registryUpdate version body strategy⟩ = .ok (out, data)) :
    s.contents fs k ≠ none ∧ out.resourceVersion = version ∧ s.codec.decode data = some out := by
  unfold startUpdate at starts
  obtain ⟨old, start, source⟩ | ⟨⟨e, start⟩, -⟩ := stored.existing (k := k) none
  · obtain found | found := source
    · cases found
    rw [start] at starts
    obtain ⟨_, out', data', prepared, tried, decoded⟩ | ⟨e, prepared, -⟩ :=
      prepareUpdate_cases ⟨none, preconditions, s.registryUpdate version body strategy⟩ old
    · cases prepared.symm.trans starts
      refine ⟨by simp [found], ?_, decoded⟩
      simp only [registryUpdate] at tried
      split at tried
      · obtain ⟨body, -, rfl⟩ := Option.map_eq_some_iff.mp tried
        rfl
      · cases tried
    · cases prepared.symm.trans starts
  · rw [start] at starts
    cases starts

/-- A client is settled as long as no object goes away. -/
theorem Settled.mono (grows : ∀ k, s.contents fs k ≠ none → s.contents fs' k ≠ none) {c : Client α β}
    (settled : s.Settled fs c) : s.Settled fs' c := by
  cases c with
  | idle => trivial
  | read k obj => exact ⟨grows k settled.1, settled.2⟩
  | writing k obj out data => exact ⟨grows k settled.1, settled.2⟩

theorem grows_update {A : Store α} {k : Key} {obj : Object α} (k' : Key) (live : A k' ≠ none) :
    Function.update A k (some obj) k' ≠ none := by
  by_cases same : k' = k
  · subst same
    simp
  · rwa [Function.update_of_ne same]

namespace Stuck

theorem start : s.Stuck start where
  stored := .empty
  files k obj found := by
    rw [FileStorage.start, contents_empty] at found
    cases found
  clients _ := trivial
  updates u inside := by cases inside

/-- The client moves on and the files stay. -/
theorem move (stuck : s.Stuck st) (c : ℕ) {next : Client α β} (settled : s.Settled st.fs next) :
    s.Stuck { st with client := Function.update st.client c next } where
  stored := stuck.stored
  files := stuck.files
  clients c' := by
    by_cases same : c' = c
    · subst same
      simpa using settled
    · simpa [Function.update_of_ne same] using stuck.clients c'
  updates := stuck.updates

/-- An object of version 1 is stored. -/
theorem store (stuck : s.Stuck st) {k : Key} {obj : Object α} (first : s.First obj) (stored : s.WellStored fs')
    (contents : s.contents fs' = Function.update (s.contents st.fs) k (some obj)) : s.Stuck { st with fs := fs' } where
  stored := stored
  files k' obj' found := by
    rw [contents] at found
    by_cases same : k' = k
    · subst same
      rw [Function.update_self] at found
      cases found
      exact first
    · rw [Function.update_of_ne same] at found
      exact stuck.files k' obj' found
  clients c := by
    refine Settled.mono (fun k' live => ?_) (stuck.clients c)
    rw [contents]
    exact grows_update k' live
  updates := stuck.updates

/-- The write of an update succeeds, and replaces an object of version 1 by one of version 1. -/
theorem write (stuck : s.Stuck st) {c : ℕ} {k : Key} {obj out : Object α} {data : β}
    (here : st.client c = .writing k obj out data) :
    ∃ fs', st.fs.writeFile k.namespace_ k.file data = some fs' ∧
      s.Stuck { st with
        fs := fs'
        client := Function.update st.client c .idle
        updates := st.updates ++ [⟨k, obj, (s.get st.fs k).toOption, out⟩] } := by
  have settled := stuck.clients c
  rw [here] at settled
  obtain ⟨live, -, first, decoded⟩ := settled
  obtain ⟨old, found⟩ := Option.ne_none_iff_exists'.mp live
  have exists_ : (st.fs.sub k.namespace_).isSome := by
    obtain ⟨_, read, -⟩ := Option.bind_eq_some_iff.mp found
    obtain ⟨entries, sub, -⟩ := Go.Tree.readFile_eq_some.mp read
    simp [sub]
  obtain ⟨fs', written, stored⟩ := stuck.stored.writeFile (k := k) ⟨out, 1, decoded, first⟩ exists_
  have free : s.Settled fs' (.idle : Client α β) := trivial
  have after := (stuck.store first stored (contents_writeFile written decoded)).move c free
  refine ⟨fs', written, after.stored, after.files, after.clients, fun u inside => ?_⟩
  obtain before | now := List.mem_append.mp inside
  · exact stuck.updates u before
  · cases List.mem_singleton.mp now
    refine ⟨first, old, ?_, stuck.files k old found⟩
    rw [stuck.stored.get_eq_ok.mpr found]
    rfl

/-- Every action keeps the versions at 1, and exactly the writes are updates. -/
theorem step (stuck : s.Stuck st) {a : Act α} (taken : s.clientStep st a = some st') :
    s.Stuck st' ∧ ((∃ c, a = .write c) ∧ st'.updates ≠ [] ∨ (∀ c, a ≠ .write c) ∧ st'.updates = st.updates) := by
  cases a with
  | create k obj =>
    cases taken
    refine ⟨?_, .inr ⟨nofun, rfl⟩⟩
    obtain fails | ⟨fs', creates, stored, contents⟩ := stuck.stored.create_cases k obj
    · rw [fails]
      refine ⟨stuck.stored.mkdir _, fun k' obj' found => ?_, fun c => ?_, stuck.updates⟩
      · rw [contents_mkdir] at found
        exact stuck.files k' obj' found
      · refine (stuck.clients c).mono fun k' live => ?_
        rwa [contents_mkdir]
    · have first : s.First { obj with resourceVersion := "1" } := s.versioner.parse_one
      rw [creates]
      exact stuck.store first stored contents
  | read c k =>
    simp only [clientStep] at taken
    cases result : s.get st.fs k with
    | error e =>
      rw [result] at taken
      cases taken
      exact ⟨stuck.move c trivial, .inr ⟨nofun, rfl⟩⟩
    | ok obj =>
      rw [result] at taken
      cases taken
      have found := stuck.stored.get_eq_ok.mp result
      exact ⟨stuck.move c ⟨by simp [found], stuck.files k obj found⟩, .inr ⟨nofun, rfl⟩⟩
  | update c preconditions body strategy =>
    simp only [clientStep] at taken
    split at taken
    · next k obj here =>
      have settled := stuck.clients c
      rw [here] at settled
      split at taken
      · cases taken
        exact ⟨stuck.move c trivial, .inr ⟨nofun, rfl⟩⟩
      · next out data starts =>
        cases taken
        obtain ⟨live, version, decoded⟩ := startUpdate_registry stuck.stored starts
        have first : s.First out := by
          unfold First
          rw [version]
          exact settled.2
        exact ⟨stuck.move c ⟨live, settled.2, first, decoded⟩, .inr ⟨nofun, rfl⟩⟩
    · cases taken
  | write c =>
    simp only [clientStep] at taken
    split at taken
    · next k obj out data here =>
      obtain ⟨fs', written, after⟩ := stuck.write here
      rw [written] at taken
      cases taken
      exact ⟨after, .inl ⟨⟨c, rfl⟩, by simp⟩⟩
    · cases taken

end Stuck

/-- In every interleaving all versions are 1, and the updates are the writes. -/
theorem run_logged {acts : List (Act α)} (ran : run s.clientStep FileStorage.start acts = some st) :
    s.Stuck st ∧ (st.updates = [] ↔ ∀ c, .write c ∉ acts) := by
  refine @run_history _ _ s.clientStep (fun st past => s.Stuck st ∧ (st.updates = [] ↔ ∀ c, .write c ∉ past))
    (fun st past a st' inv taken => ?_) _ st [] acts ⟨Stuck.start, by simp [FileStorage.start]⟩ ran
  obtain ⟨stuck, none_iff⟩ := inv
  obtain ⟨stuck', ⟨⟨c, rfl⟩, some_⟩ | ⟨other, same⟩⟩ := stuck.step taken
  · refine ⟨stuck', fun none => absurd none some_, fun none => absurd ?_ (none c)⟩
    simp
  · refine ⟨stuck', ?_⟩
    rw [same, none_iff]
    simp [fun c => Ne.symm (other c)]

/-- In every interleaving: no update gets lost if and only if no client comes to write one. -/
theorem no_lost_update_iff (s : FileStorage α β) {acts : List (Act α)} {st : Clients α β}
    (ran : run s.clientStep FileStorage.start acts = some st) :
    s.NoLostUpdate st.updates ↔ ∀ c, .write c ∉ acts := by
  obtain ⟨stuck, none_iff⟩ := run_logged ran
  rw [← none_iff]
  constructor
  · rintro ⟨greater, -⟩
    by_contra some_
    obtain ⟨u, inside⟩ := List.exists_mem_of_ne_nil _ some_
    obtain ⟨old, v, v', replaced, parsed, parsed', less⟩ := greater u inside
    obtain ⟨first, old', replaced', first'⟩ := stuck.updates u inside
    cases replaced.symm.trans replaced'
    cases parsed.symm.trans first'
    cases parsed'.symm.trans first
    exact Nat.lt_irrefl 1 less
  · intro none
    rw [none]
    exact ⟨nofun, .nil⟩

/-- Two clients read the same version. -/
def twoReaders : List (Act Nat) := [.create sampleKey ⟨"", 1⟩, .read 0 sampleKey, .read 1 sampleKey]

/-- Both write what they made of it. -/
def twoWriters : List (Act Nat) :=
  [.update 0 (·.resourceVersion == "1") 2 fun _ body => some body, .write 0,
    .update 1 (·.resourceVersion == "1") 3 fun _ body => some body, .write 1]

theorem no_lost_update_twoReaders :
    ∃ st, run sampleStorage.clientStep FileStorage.start twoReaders = some st ∧
      sampleStorage.NoLostUpdate st.updates :=
  ⟨_, rfl, (@no_lost_update_iff _ _ sampleStorage twoReaders _ rfl).mpr (by simp [twoReaders])⟩

/-- Two updates of one object that are based on the same version, and both succeed. -/
theorem lost_update :
    ∃ st, run sampleStorage.clientStep FileStorage.start (twoReaders ++ twoWriters) = some st ∧
      st.updates = [⟨sampleKey, ⟨"1", 1⟩, some ⟨"1", 1⟩, ⟨"1", 2⟩⟩, ⟨sampleKey, ⟨"1", 1⟩, some ⟨"1", 2⟩, ⟨"1", 3⟩⟩] ∧
      ¬ sampleStorage.NoLostUpdate st.updates := by
  refine ⟨_, rfl, rfl, fun safe => ?_⟩
  obtain ⟨apart, -⟩ := List.pairwise_cons.mp safe.2
  exact apart _ List.mem_cons_self rfl rfl

end FileStorage

end KubeKey.Proxy
