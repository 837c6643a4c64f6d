import KubeKey.Go.Map
import KubeKey.Go.View

/-!
# Documents and merge patches

A document is a tree of objects. Whatever is not an object is a leaf: a string, a number, a
truth value or an array. A null is a member that is not there, so documents are compared by
what is found at every path.

A merge patch is a document too: its leaves replace what is there, its nulls take it away and
its objects go on member by member. At a path that no leaf and no null of the patch lies on
or above, nothing changes, except that an object may come to stand there (`view_apply`).
-/

namespace KubeKey.Go

universe u
variable {α : Type u}

/-- A tree of objects over leaves. -/
inductive Document (α : Type u) where
  | null
  | leaf (value : α)
  | object (members : List (String × Document α))

namespace Document

/-- What stands at a path. -/
inductive Shape (α : Type u) where
  | leaf (value : α)
  | object
deriving DecidableEq

def members : Document α → List (String × Document α)
  | object members => members
  | _ => []

/-- The member of that name, null if there is none. -/
def member (d : Document α) (k : String) : Document α := (d.members.lookup k).getD null

/-- What is found at every path. -/
def view : Document α → View String (Shape α)
  | null, [] => none
  | leaf value, [] => some (.leaf value)
  | object _, [] => some .object
  | d, k :: p => (d.member k).view p

@[simp] theorem view_cons (d : Document α) (k : String) (p : List String) : d.view (k :: p) = (d.member k).view p := by
  cases d <;> rfl

/-- The leaf at a path. -/
def leafAt (d : Document α) (p : List String) : Option α :=
  match d.view p with
  | some (.leaf value) => some value
  | _ => none

def isNull : Document α → Bool
  | null => true
  | _ => false

mutual

def decEq [DecidableEq α] : (d e : Document α) → Decidable (d = e)
  | null, null => isTrue rfl
  | leaf v, leaf w => decidable_of_iff (v = w) ⟨fun same => by rw [same], fun same => by cases same; rfl⟩
  | object a, object b =>
    have := decEqMembers a b
    decidable_of_iff (a = b) ⟨fun same => by rw [same], fun same => by cases same; rfl⟩
  | null, leaf _ => isFalse fun same => by cases same
  | null, object _ => isFalse fun same => by cases same
  | leaf _, null => isFalse fun same => by cases same
  | leaf _, object _ => isFalse fun same => by cases same
  | object _, null => isFalse fun same => by cases same
  | object _, leaf _ => isFalse fun same => by cases same

def decEqMembers [DecidableEq α] : (a b : List (String × Document α)) → Decidable (a = b)
  | [], [] => isTrue rfl
  | [], _ :: _ => isFalse fun same => by cases same
  | _ :: _, [] => isFalse fun same => by cases same
  | (k, d) :: a, (k', d') :: b =>
    have := decEq d d'
    have := decEqMembers a b
    decidable_of_iff (k = k' ∧ d = d' ∧ a = b)
      ⟨fun ⟨key, value, rest⟩ => by rw [key, value, rest], fun same => by cases same; exact ⟨rfl, rfl, rfl⟩⟩

end

instance [DecidableEq α] : DecidableEq (Document α) := decEq

/-- Take the member away. -/
def remove (k : String) (members : List (String × Document α)) : List (String × Document α) :=
  members.filter fun e => e.1 ≠ k

mutual

/-- Apply the patch to a target. -/
def apply : Document α → Document α → Document α
  | null, _ => null
  | leaf value, _ => leaf value
  | object patch, target => object (applyMembers patch target.members)

def applyMembers : List (String × Document α) → List (String × Document α) → List (String × Document α)
  | [], target => target
  | (k, patch) :: rest, target =>
    applyMembers rest <|
      if patch.isNull then remove k target else putEntry k (patch.apply ((object target).member k)) target

end

/-- A leaf or a null of the patch lies on the path or above it. -/
def Touches : Document α → List String → Prop
  | null, _ => True
  | leaf _, _ => True
  | object _, [] => False
  | object patch, k :: p => ∃ m, (k, m) ∈ patch ∧ m.Touches p

theorem lookup_remove (k k' : String) (members : List (String × Document α)) :
    (remove k members).lookup k' = if k' = k then none else members.lookup k' := by
  induction members with
  | nil => simp [remove]
  | cons e rest ih =>
    obtain ⟨k₀, d⟩ := e
    simp only [remove] at ih
    by_cases here : k₀ = k
    · simp only [remove, List.filter_cons, here, ne_eq, not_true_eq_false, decide_false, Bool.false_eq_true,
        if_false, ih, lookup_cons_if]
      split <;> rfl
    · simp only [remove, List.filter_cons, here, ne_eq, not_false_eq_true, decide_true, if_true, lookup_cons_if, ih]
      by_cases first : k' = k₀
      · simp [first, here]
      · simp [first]

/-- One entry of the patch: its own member is patched, the others stay. -/
theorem member_applyMember (k k' : String) (patch : Document α) (target : List (String × Document α)) :
    (object (if patch.isNull then remove k target
      else putEntry k (patch.apply ((object target).member k)) target)).member k' =
      if k' = k then patch.apply ((object target).member k) else (object target).member k' := by
  cases patch <;> simp only [isNull, if_true, Bool.false_eq_true, if_false, member, members, lookup_remove,
    lookup_putEntry] <;> split <;> simp [apply]

/-- Off the leaves and nulls of a patch nothing changes, except that an object may come to stand there. -/
theorem view_apply {p : List String} {patch : Document α} (aside : ¬ patch.Touches p) (target : Document α) :
    (patch.apply target).view p = target.view p ∨ (patch.apply target).view p = some .object := by
  induction p generalizing patch target with
  | nil =>
    cases patch with
    | null => exact absurd trivial aside
    | leaf => exact absurd trivial aside
    | object => exact .inr rfl
  | cons k p ih =>
    cases patch with
    | null => exact absurd trivial aside
    | leaf => exact absurd trivial aside
    | object patch =>
      have entries : ∀ m, (k, m) ∈ patch → ¬ m.Touches p := fun m member touched => aside ⟨m, member, touched⟩
      have whole : ∀ members : List (String × Document α),
          (object (applyMembers patch members)).view (k :: p) = (object members).view (k :: p) ∨
            (object (applyMembers patch members)).view (k :: p) = some .object := by
        clear aside
        -- entry by entry
        induction patch with
        | nil => exact fun members => .inl rfl
        | cons e rest entry =>
          intro members
          obtain ⟨k', m⟩ := e
          rw [applyMembers]
          rcases entry (fun m member => entries m (List.mem_cons_of_mem _ member)) _ with same | object
          · rw [same, view_cons, member_applyMember]
            split
            · rename_i here
              subst here
              rw [view_cons]
              exact ih (entries m List.mem_cons_self) _
            · exact .inl rfl
          · exact .inr object
      have same : target.view (k :: p) = (object target.members).view (k :: p) := by
        rw [view_cons, view_cons, member, member, members]
      rw [apply, same]
      exact whole target.members

/-- Where a document has a leaf, an untouched one is left if no object comes to stand there. -/
theorem leafAt_apply {p : List String} {patch target : Document α} (aside : ¬ patch.Touches p)
    (shaped : ∀ value, target.view p = some (.leaf value) → (patch.apply target).view p ≠ some .object) :
    (patch.apply target).leafAt p = target.leafAt p := by
  rcases view_apply aside target with same | object
  · rw [leafAt, leafAt, same]
  · rw [leafAt, leafAt, object]
    cases found : target.view p with
    | none => rfl
    | some shape =>
      cases shape with
      | leaf value => exact absurd object (shaped value found)
      | object => rfl

/-- What is found below one member or the others. -/
theorem view_object_cons (k k' : String) (d : Document α) (members : List (String × Document α)) (p : List String) :
    (object ((k, d) :: members)).view (k' :: p) = if k' = k then d.view p else (object members).view (k' :: p) := by
  rw [view_cons, view_cons, member, member]
  simp only [Document.members, lookup_cons_if]
  split <;> rfl

/-- Two documents with objects at the same places, as far as they reach. -/
inductive Alike : Document α → Document α → Prop where
  | absent (d : Document α) : Alike null d
  | missing (d : Document α) : Alike d null
  | leaf (v w : α) : Alike (leaf v) (leaf w)
  | object {a b : List (String × Document α)} (members : ∀ k, Alike ((object a).member k) ((object b).member k)) :
      Alike (object a) (object b)

theorem Alike.empty : Alike (.object ([] : List (String × Document α))) (.object []) :=
  .object fun _ => .absent null

theorem Alike.cons (k : String) {d e : Document α} (first : Alike d e) {a b : List (String × Document α)}
    (rest : Alike (.object a) (.object b)) : Alike (.object ((k, d) :: a)) (.object ((k, e) :: b)) := by
  refine .object fun k' => ?_
  cases rest with
  | object rest =>
    simp only [member, Document.members, lookup_cons_if]
    split
    · exact first
    · exact rest k'

theorem Alike.shaped {d e : Document α} (alike : Alike d e) {p : List String} {value : α}
    (object : d.view p = some .object) : e.view p ≠ some (.leaf value) := by
  induction p generalizing d e with
  | nil =>
    cases alike with
    | absent => cases object
    | missing => exact fun same => by cases same
    | leaf => cases object
    | object => exact fun same => by cases same
  | cons k p ih =>
    rw [view_cons] at object ⊢
    cases alike with
    | absent => exact ih (.absent _) object
    | missing => exact ih (.missing _) object
    | leaf => exact ih (.absent _) object
    | object members => exact ih (members k) object

end Document

end KubeKey.Go
