import Mathlib.Data.List.Basic

/-!
# Objects that are stored in versions

An object of an API server, with all versions that it had: a reader whose cache is behind
may be shown any of them. A request changes the object as it is stored when the request
arrives, whatever its sender has read; it may be refused. An object that is to be deleted
stays, with a mark, until its finalizer is taken away.

`All` carries what is so of the versions through all requests, `Aside` what a request for
something else leaves alone. A patch sends the fields that differ from what was read, and
`merged` is what comes of one of them.
-/

namespace KubeKey.Go

/-- What the server looks at. -/
class Finalized (α : Type*) where
  /-- The deletion timestamp is set. -/
  deleting : α → Bool
  finalizer : α → Bool
  /-- Sets the deletion timestamp. -/
  delete : α → α
  deleting_delete : ∀ o, deleting (delete o) = true
  finalizer_delete : ∀ o, finalizer (delete o) = finalizer o

export Finalized (deleting finalizer delete)

attribute [simp] Finalized.deleting_delete Finalized.finalizer_delete

structure Versions (α : Type*) [Finalized α] where
  latest : α
  /-- What was stored before, newest first. -/
  earlier : List α
  gone : Bool
  /-- An object that is being deleted is there for its finalizer. -/
  held : gone = false → deleting latest = true → finalizer latest = true

namespace Versions

variable {α : Type*} [Finalized α] {v : Versions α} {o : α}

/-- A new object. -/
def new (o : α) (stays : deleting o = false) : Versions α :=
  ⟨o, [], false, fun _ marked => by rw [stays] at marked; cases marked⟩

def all (v : Versions α) : List α := v.latest :: v.earlier

def remove (v : Versions α) : Versions α := { v with gone := true, held := fun there => by cases there }

/-- Without a finalizer an object that is being deleted goes. -/
def store (v : Versions α) (o : α) : Versions α :=
  if kept : deleting o = true → finalizer o = true then ⟨o, v.all, v.gone, fun _ => kept⟩ else v.remove

/-- A request that changes the object, if it is carried out. -/
def write (v : Versions α) (change : α → α) (carried : Bool) : Versions α :=
  if v.gone || !carried then v else v.store (change v.latest)

/-- The object that the cache shows, `age` versions old. -/
def read (v : Versions α) (age : ℕ) : Option α :=
  match v.gone, age with
  | false, age => v.all[age]?
  | true, 0 => none
  | true, age + 1 => v.all[age]?

theorem store_cases (v : Versions α) (o : α) :
    v.store o = v.remove ∧ deleting o = true ∧ finalizer o = false ∨
      ∃ kept, v.store o = ⟨o, v.all, v.gone, fun _ => kept⟩ := by
  unfold store
  split
  · next kept => exact .inr ⟨kept, rfl⟩
  · next goes =>
    rw [Classical.not_imp, Bool.not_eq_true] at goes
    exact .inl ⟨rfl, goes⟩

theorem write_cases (v : Versions α) (change : α → α) (carried : Bool) :
    v.write change carried = v ∧ (v.gone = true ∨ carried = false) ∨
      v.gone = false ∧ carried = true ∧ v.write change carried = v.store (change v.latest) := by
  unfold write
  cases v.gone <;> cases carried <;> simp

/-- A request does not bring the object back. -/
theorem write_gone (gone : v.gone = true) (change : α → α) (carried : Bool) : v.write change carried = v := by
  simp [write, gone]

theorem latest_mem (v : Versions α) : v.latest ∈ v.all := List.mem_cons_self

theorem read_mem {age : ℕ} (read : v.read age = some o) : o ∈ v.all := by
  unfold Versions.read at read
  split at read
  · exact List.mem_of_getElem? read
  · cases read
  · exact List.mem_of_getElem? read

/-- A read that is not stale. -/
theorem read_zero : v.read 0 = some o ↔ v.gone = false ∧ v.latest = o := by
  unfold Versions.read
  cases v.gone <;> simp [all]

theorem read_zero_none : v.read 0 = none ↔ v.gone = true := by
  unfold Versions.read
  cases v.gone <;> simp [all]

/-! ## What is so of all versions -/

/-- Every version is `P`, also the one that the server did not keep any more. -/
structure All (P : α → Prop) (v : Versions α) : Prop where
  stored : ∀ o ∈ v.all, P o
  last : v.gone = true → ∃ o, P o ∧ deleting o = true ∧ finalizer o = false

section All

variable {P Q : α → Prop}

theorem new_all (stays : deleting o = false) (first : P o) : All P (new o stays) := by
  refine ⟨fun o' member => ?_, fun gone => by cases gone⟩
  rw [List.mem_singleton.mp member]
  exact first

theorem All.latest (all : All P v) : P v.latest := all.stored _ v.latest_mem

theorem All.read (all : All P v) {age : ℕ} (read : v.read age = some o) : P o := all.stored o (read_mem read)

theorem All.mono (all : All P v) (weaker : ∀ o, P o → Q o) : All Q v :=
  ⟨fun o member => weaker o (all.stored o member), fun gone =>
    (all.last gone).imp fun o last => ⟨weaker o last.1, last.2⟩⟩

theorem All.store (all : All P v) (new : P o) : All P (v.store o) := by
  rcases v.store_cases o with ⟨same, goes⟩ | ⟨kept, same⟩ <;> rw [same]
  · exact ⟨all.stored, fun _ => ⟨o, new, goes⟩⟩
  · refine ⟨fun o' member => ?_, all.last⟩
    rcases List.mem_cons.mp member with rfl | member
    · exact new
    · exact all.stored o' member

/-- A request that keeps it so of the stored object. -/
theorem All.write (all : All P v) {change : α → α} (keeps : P v.latest → P (change v.latest)) (carried : Bool) :
    All P (v.write change carried) := by
  rcases v.write_cases change carried with ⟨same, -⟩ | ⟨-, -, same⟩ <;> rw [same]
  · exact all
  · exact all.store (keeps all.latest)

end All

/-! ## Requests for something else -/

/-- Nothing has happened to the finalizer and the deletion timestamp. -/
structure Aside (v v' : Versions α) : Prop where
  gone : v'.gone = v.gone
  deleting : deleting v'.latest = deleting v.latest
  finalizer : finalizer v'.latest = finalizer v.latest

/-- A request that leaves the finalizer and the deletion timestamp alone cannot remove the object. -/
theorem write_aside (v : Versions α) (change : α → α) (sameDeleting : deleting (change v.latest) = deleting v.latest)
    (sameFinalizer : finalizer (change v.latest) = finalizer v.latest) (carried : Bool) :
    Aside v (v.write change carried) ∧
      ((v.write change carried).latest = v.latest ∨ (v.write change carried).latest = change v.latest) := by
  rcases v.write_cases change carried with ⟨same, -⟩ | ⟨there, -, same⟩ <;> rw [same]
  · exact ⟨⟨rfl, rfl, rfl⟩, .inl rfl⟩
  · rcases v.store_cases (change v.latest) with ⟨-, marked, missing⟩ | ⟨kept, stored⟩
    · rw [sameFinalizer, v.held there (sameDeleting ▸ marked)] at missing
      cases missing
    · rw [stored]
      exact ⟨⟨rfl, sameDeleting, sameFinalizer⟩, .inr rfl⟩

end Versions

/-! ## Patches -/

section Merged

variable {β : Type*} [DecidableEq β] {base now latest : β}

/-- The patch of a field: it is sent if it differs from what was read. -/
def merged (base now latest : β) : β := if now = base then latest else now

theorem merged_cases (base now latest : β) : merged base now latest = latest ∨ merged base now latest = now := by
  by_cases same : now = base <;> simp [merged, same]

theorem merged_unchanged (same : now = base) : merged base now latest = latest := if_pos same

/-- Nobody else has written the field since it was read. -/
theorem merged_current (same : base = latest) : merged base now latest = now := by
  unfold merged
  split
  · next equal => rw [equal, same]
  · rfl

end Merged

end KubeKey.Go
