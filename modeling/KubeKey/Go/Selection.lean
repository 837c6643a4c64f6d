import Mathlib.Data.List.Nodup
import Mathlib.Data.Set.Basic

/-!
# Lists that are put together from choices

A list grows pick by pick. A pick has options, each a list of its own: one of them is appended,
or, if the pick is `joined`, combined with what is there so that every element stays once. The
element of a pick that is only appended may be there already, and then it is there twice until
a later pick combines. `nodup_iff` says when that cannot happen, whatever is chosen.
-/

namespace KubeKey.Go

variable {α : Type*}

/-- One pick: the lists that may be chosen, and whether they are combined with the list before. -/
structure Pick (α : Type*) where
  joined : Bool
  options : Set (List α)

/-- The pick may add this element. -/
def Pick.offers (p : Pick α) (a : α) : Prop := ∃ o ∈ p.options, a ∈ o

/-- What is appended has no element twice, and there is always something to choose. -/
structure Pick.Ok (p : Pick α) : Prop where
  nonempty : p.options.Nonempty
  distinct : p.joined = false → ∀ o ∈ p.options, o.Nodup

/-- Combining keeps every element, each once. -/
structure Combines (combine : List α → List α → List α) : Prop where
  nodup : ∀ l o, (combine l o).Nodup
  mem_iff : ∀ l o a, a ∈ combine l o ↔ a ∈ l ∨ a ∈ o

/-- What a pick makes of the list so far. -/
def Pick.add (combine : List α → List α → List α) (p : Pick α) (l o : List α) : List α :=
  if p.joined then combine l o else l ++ o

/-- The lists that may come of the picks, from the list `l`. -/
def Chooses (combine : List α → List α → List α) : List (Pick α) → List α → List α → Prop
  | [], l, l' => l' = l
  | p :: ps, l, l' => ∃ o ∈ p.options, Chooses combine ps (p.add combine l o) l'

/-- An element is appended only where no pick before it offers it, or where a pick after it combines. -/
def NoRepeat (ps : List (Pick α)) : Prop :=
  ∀ before p after, ps = before ++ p :: after → p.joined = false → (∀ q ∈ after, q.joined = false) →
    ∀ a, p.offers a → ∀ q ∈ before, ¬ q.offers a

section
variable {combine : List α → List α → List α} {ps qs : List (Pick α)} {l l' : List α}

theorem chooses_append : Chooses combine (ps ++ qs) l l' ↔ ∃ m, Chooses combine ps l m ∧ Chooses combine qs m l' := by
  induction ps generalizing l with
  | nil => simp [Chooses]
  | cons p ps ih =>
    simp only [List.cons_append, Chooses, ih]
    constructor
    · rintro ⟨o, option, m, first, second⟩
      exact ⟨m, ⟨o, option, first⟩, second⟩
    · rintro ⟨m, ⟨o, option, first⟩, second⟩
      exact ⟨o, option, m, first, second⟩

theorem Pick.mem_add (combines : Combines combine) (p : Pick α) {l o : List α} {a : α} :
    a ∈ p.add combine l o ↔ a ∈ l ∨ a ∈ o := by
  unfold Pick.add
  split
  · exact combines.mem_iff l o a
  · exact List.mem_append

theorem Chooses.subset (combines : Combines combine) (chooses : Chooses combine ps l l') : l ⊆ l' := by
  induction ps generalizing l with
  | nil =>
    cases chooses
    exact fun _ inside => inside
  | cons p ps ih =>
    obtain ⟨o, _, rest⟩ := chooses
    exact fun a inside => ih rest ((p.mem_add combines).2 (.inl inside))

/-- Nothing is added that no pick offers. -/
theorem Chooses.offered (combines : Combines combine) (chooses : Chooses combine ps l l') {a : α} (inside : a ∈ l') :
    a ∈ l ∨ ∃ p ∈ ps, p.offers a := by
  induction ps generalizing l with
  | nil =>
    cases chooses
    exact .inl inside
  | cons p ps ih =>
    obtain ⟨o, option, rest⟩ := chooses
    obtain here | ⟨q, member, offers⟩ := ih rest
    · obtain old | new := (p.mem_add combines).1 here
      · exact .inl old
      · exact .inr ⟨p, List.mem_cons_self, o, option, new⟩
    · exact .inr ⟨q, List.mem_cons_of_mem _ member, offers⟩

/-- Some list comes of the picks. -/
theorem exists_chooses (combine : List α → List α → List α) (ok : ∀ p ∈ ps, p.Ok) (l : List α) : ∃ l', Chooses combine ps l l' := by
  induction ps generalizing l with
  | nil => exact ⟨l, rfl⟩
  | cons p ps ih =>
    rw [List.forall_mem_cons] at ok
    obtain ⟨o, option⟩ := ok.1.nonempty
    obtain ⟨l', rest⟩ := ih ok.2 (p.add combine l o)
    exact ⟨l', o, option, rest⟩

/-- Any pick may choose any of its options, whatever the others choose. -/
theorem exists_chooses_option (combine : List α → List α → List α) (ok : ∀ p ∈ ps ++ qs, p.Ok) {p : Pick α} {o : List α} (option : o ∈ p.options)
    (l : List α) : ∃ m l', Chooses combine ps l m ∧ Chooses combine qs (p.add combine m o) l' ∧
      Chooses combine (ps ++ p :: qs) l l' := by
  rw [List.forall_mem_append] at ok
  obtain ⟨m, first⟩ := exists_chooses combine ok.1 l
  obtain ⟨l', rest⟩ := exists_chooses combine ok.2 (p.add combine m o)
  exact ⟨m, l', first, rest, chooses_append.2 ⟨m, first, o, option, rest⟩⟩

/-- Every element that a pick offers is in some list that comes of the picks. -/
theorem exists_chooses_mem (combines : Combines combine) (ok : ∀ p ∈ ps, p.Ok) {p : Pick α} (member : p ∈ ps) {a : α}
    (offers : p.offers a) (l : List α) : ∃ l', Chooses combine ps l l' ∧ a ∈ l' := by
  obtain ⟨before, after, rfl⟩ := List.append_of_mem member
  obtain ⟨o, option, inside⟩ := offers
  have others : ∀ q ∈ before ++ after, q.Ok := fun q there => ok q (by
    rw [List.mem_append, List.mem_cons]
    exact (List.mem_append.1 there).imp id .inr)
  obtain ⟨m, l', _, rest, whole⟩ := exists_chooses_option combine others option l
  exact ⟨l', whole, rest.subset combines ((p.mem_add combines).2 (.inr inside))⟩

/-- Where nothing combines any more, what is there twice stays there twice. -/
theorem Chooses.nodup_of_appended (chooses : Chooses combine ps l l') (appended : ∀ q ∈ ps, q.joined = false)
    (distinct : l'.Nodup) : l.Nodup := by
  induction ps generalizing l with
  | nil =>
    cases chooses
    exact distinct
  | cons p ps ih =>
    obtain ⟨o, _, rest⟩ := chooses
    rw [List.forall_mem_cons] at appended
    have grown := ih rest appended.2
    rw [Pick.add, appended.1] at grown
    exact (List.nodup_append.1 grown).1

/-- The lists that come of the picks have no element twice, if and only if no pick may repeat one. -/
theorem nodup_iff (combines : Combines combine) (ok : ∀ p ∈ ps, p.Ok) :
    (∀ l, Chooses combine ps [] l → l.Nodup) ↔ NoRepeat ps := by
  constructor
  · intro nodup before p after split appended last a offers q member offered
    subst split
    obtain ⟨o, option, inside⟩ := offers
    have okBefore : ∀ q ∈ before, q.Ok := fun q there => ok q (List.mem_append_left _ there)
    have okAfter : ∀ q ∈ after, q.Ok := fun q there =>
      ok q (List.mem_append_right _ (List.mem_cons_of_mem _ there))
    -- the pick before chooses the element, and so does this one
    obtain ⟨m, first, there⟩ := exists_chooses_mem combines okBefore member offered []
    obtain ⟨l', rest⟩ := exists_chooses combine okAfter (p.add combine m o)
    have whole := nodup l' (chooses_append.2 ⟨m, first, o, option, rest⟩)
    have twice := rest.nodup_of_appended last whole
    rw [Pick.add, appended] at twice
    exact (List.nodup_append.1 twice).2.2 a there a inside rfl
  · intro noRepeat l chooses
    -- the list has every element once as soon as a pick combines, and as long as none repeats
    suffices ∀ done rest m, ps = done ++ rest → Chooses combine done [] m →
        (m.Nodup ∨ ∃ q ∈ rest, q.joined = true) → Chooses combine rest m l → l.Nodup from
      this [] ps [] rfl rfl (.inl List.nodup_nil) chooses
    intro done rest
    induction rest generalizing done with
    | nil =>
      intro m _ _ now later
      cases later
      obtain here | ⟨q, member, _⟩ := now
      · exact here
      · cases member
    | cons p rest ih =>
      intro m split soFar now later
      obtain ⟨o, option, later⟩ := later
      have next : Chooses combine (done ++ [p]) [] (p.add combine m o) :=
        chooses_append.2 ⟨m, soFar, o, option, rfl⟩
      refine ih (done ++ [p]) (p.add combine m o) (by simpa using split) next ?_ later
      by_cases join : p.joined = true
      · left
        rw [Pick.add, if_pos join]
        exact combines.nodup m o
      have append : p.joined = false := by simpa using join
      by_cases again : ∃ q ∈ rest, q.joined = true
      · exact .inr again
      left
      have last : ∀ q ∈ rest, q.joined = false := fun q member => by
        by_contra joined
        exact again ⟨q, member, by simpa using joined⟩
      have here : m.Nodup := by
        obtain here | ⟨q, member, joined⟩ := now
        · exact here
        · obtain rfl | member := List.mem_cons.1 member
          · exact absurd joined join
          · exact absurd ⟨q, member, joined⟩ again
      rw [Pick.add, if_neg join]
      have okHere : p.Ok := ok p (by simp [split])
      refine List.nodup_append.2 ⟨here, okHere.distinct append o option, ?_⟩
      rintro a old _ new rfl
      obtain nothing | ⟨q, member, offered⟩ := soFar.offered combines old
      · cases nothing
      · exact noRepeat done p rest split append last a ⟨o, option, new⟩ q member offered

end

end KubeKey.Go
