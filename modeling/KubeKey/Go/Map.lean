import Mathlib.Data.List.Nodup

/-!
# Go maps with string keys

A Go map is modelled by its list of entries with distinct keys. The list order
stands for one iteration order: nothing below reads more than `get?` from it,
except where the source itself ranges over a map. `put` overwrites in place,
so writing back the value already stored leaves the map as it was (`put_same`).
-/

namespace KubeKey.Go

universe u
variable {α : Type u}

/-- Overwrite the entry of `k`, or append it. -/
def putEntry (k : String) (v : α) : List (String × α) → List (String × α)
  | [] => [(k, v)]
  | (k', w) :: rest => if k' = k then (k, v) :: rest else (k', w) :: putEntry k v rest

theorem lookup_cons_if (k k' : String) (v : α) (l : List (String × α)) :
    ((k', v) :: l).lookup k = if k = k' then some v else l.lookup k := by
  by_cases same : k = k'
  · simp [same]
  · simp [List.lookup_cons, beq_false_of_ne same, same]

theorem lookup_putEntry (k k' : String) (v : α) (l : List (String × α)) :
    (putEntry k v l).lookup k' = if k' = k then some v else l.lookup k' := by
  induction l with
  | nil => simp only [putEntry, lookup_cons_if]
  | cons e rest ih =>
    obtain ⟨k₀, w⟩ := e
    by_cases here : k₀ = k
    · simp only [putEntry, here, if_true, lookup_cons_if]
      split <;> rfl
    · simp only [putEntry, here, if_false, lookup_cons_if, ih]
      by_cases first : k' = k₀
      · simp [first, here]
      · simp [first]

theorem keys_putEntry (k : String) (v : α) (l : List (String × α)) :
    (putEntry k v l).map Prod.fst = if k ∈ l.map Prod.fst then l.map Prod.fst else l.map Prod.fst ++ [k] := by
  induction l with
  | nil => simp [putEntry]
  | cons e rest ih =>
    obtain ⟨k₀, w⟩ := e
    by_cases here : k₀ = k
    · simp [putEntry, here]
    · have other : ¬ k = k₀ := fun same => here same.symm
      simp only [putEntry, here, if_false, List.map_cons, ih, List.mem_cons, other, false_or]
      split <;> simp

theorem putEntry_putEntry (k : String) (v w : α) (l : List (String × α)) :
    putEntry k w (putEntry k v l) = putEntry k w l := by
  induction l with
  | nil => simp [putEntry]
  | cons e rest ih =>
    obtain ⟨k₀, u⟩ := e
    by_cases here : k₀ = k
    · simp [putEntry, here]
    · simp [putEntry, here, ih]

theorem putEntry_same {k : String} {v : α} {l : List (String × α)} (stored : l.lookup k = some v) :
    putEntry k v l = l := by
  induction l with
  | nil => simp at stored
  | cons e rest ih =>
    obtain ⟨k₀, w⟩ := e
    by_cases here : k₀ = k
    · subst here
      simp only [List.lookup_cons, beq_self_eq_true, Option.some.injEq] at stored
      simp [putEntry, stored]
    · have other : (k == k₀) = false := beq_false_of_ne fun same => here same.symm
      simp only [List.lookup_cons, other] at stored
      simp [putEntry, here, ih stored]

/-- A Go map: entries with distinct keys. -/
structure GoMap (α : Type u) where
  entries : List (String × α)
  distinct : (entries.map Prod.fst).Nodup
deriving DecidableEq

namespace GoMap

/-- `make(map[string]T)`. -/
def empty : GoMap α := ⟨[], List.nodup_nil⟩

instance : Inhabited (GoMap α) := ⟨empty⟩

/-- `m[k]` with the comma-ok form. -/
def get? (m : GoMap α) (k : String) : Option α := m.entries.lookup k

/-- `m[k] = v`. -/
def put (m : GoMap α) (k : String) (v : α) : GoMap α :=
  ⟨putEntry k v m.entries, by
    rw [keys_putEntry]
    split
    · exact m.distinct
    · next absent => exact List.nodup_append.2 ⟨m.distinct, List.nodup_singleton k, by
        intro a inside b single same
        rw [List.mem_singleton.1 single] at same
        exact absent (same ▸ inside)⟩⟩

/-- The map a literal or a decoder fills entry by entry: the last entry of a key wins. -/
def ofList (l : List (String × α)) : GoMap α := l.foldl (fun m e => m.put e.1 e.2) empty

/-- The keys, in iteration order. -/
def keys (m : GoMap α) : List String := m.entries.map Prod.fst

@[simp] theorem get?_empty (k : String) : (empty : GoMap α).get? k = none := rfl

@[simp] theorem entries_empty : (empty : GoMap α).entries = [] := rfl

theorem get?_put (m : GoMap α) (k k' : String) (v : α) :
    (m.put k v).get? k' = if k' = k then some v else m.get? k' :=
  lookup_putEntry k k' v m.entries

@[simp] theorem get?_put_self (m : GoMap α) (k : String) (v : α) : (m.put k v).get? k = some v := by
  simp [get?_put]

theorem get?_put_ne (m : GoMap α) {k k' : String} (v : α) (other : k' ≠ k) :
    (m.put k v).get? k' = m.get? k' := by
  simp [get?_put, other]

/-- Writing back the stored value changes nothing. -/
theorem put_same {m : GoMap α} {k : String} {v : α} (stored : m.get? k = some v) : m.put k v = m := by
  cases m
  simp only [put, GoMap.mk.injEq]
  exact putEntry_same stored

theorem put_put (m : GoMap α) (k : String) (v w : α) : (m.put k v).put k w = m.put k w := by
  cases m
  simp only [put, GoMap.mk.injEq]
  exact putEntry_putEntry k v w _

end GoMap

/-- In a list with distinct keys an entry is found under its key. -/
theorem lookup_of_mem {l : List (String × α)} (distinct : (l.map Prod.fst).Nodup) {k : String} {v : α}
    (inside : (k, v) ∈ l) : l.lookup k = some v := by
  induction l with
  | nil => simp at inside
  | cons e rest ih =>
    obtain ⟨k₀, w⟩ := e
    simp only [List.map_cons, List.nodup_cons] at distinct
    rcases List.mem_cons.1 inside with same | later
    · cases same
      simp
    · have other : (k == k₀) = false := beq_false_of_ne fun same =>
        distinct.1 (List.mem_map.2 ⟨(k, v), later, same⟩)
      simp only [List.lookup_cons, other]
      exact ih distinct.2 later

theorem mem_of_lookup {l : List (String × α)} {k : String} {v : α} (found : l.lookup k = some v) :
    (k, v) ∈ l := by
  induction l with
  | nil => simp at found
  | cons e rest ih =>
    obtain ⟨k₀, w⟩ := e
    by_cases here : k = k₀
    · subst here
      simp only [List.lookup_cons, beq_self_eq_true, Option.some.injEq] at found
      simp [found]
    · simp only [List.lookup_cons, beq_false_of_ne here] at found
      exact List.mem_cons_of_mem _ (ih found)

namespace GoMap

theorem get?_eq_some_iff {m : GoMap α} {k : String} {v : α} : m.get? k = some v ↔ (k, v) ∈ m.entries :=
  ⟨mem_of_lookup, lookup_of_mem m.distinct⟩

theorem get?_isSome_iff {m : GoMap α} {k : String} : (m.get? k).isSome ↔ k ∈ m.keys := by
  constructor
  · intro found
    obtain ⟨v, stored⟩ := Option.isSome_iff_exists.1 found
    exact List.mem_map.2 ⟨(k, v), get?_eq_some_iff.1 stored, rfl⟩
  · intro inside
    obtain ⟨⟨k', v⟩, member, rfl⟩ := List.mem_map.1 inside
    exact Option.isSome_iff_exists.2 ⟨v, get?_eq_some_iff.2 member⟩

theorem get?_foldl_put_of_not_mem {l : List (String × α)} {k : String} (absent : k ∉ l.map Prod.fst) (m : GoMap α) :
    (l.foldl (fun m e => m.put e.1 e.2) m).get? k = m.get? k := by
  induction l generalizing m with
  | nil => rfl
  | cons e rest ih =>
    rw [List.map_cons, List.mem_cons, not_or] at absent
    rw [List.foldl_cons, ih absent.2, get?_put_ne m _ absent.1]

/-- A list with distinct keys fills the map as it is. -/
theorem get?_ofList {l : List (String × α)} (distinct : (l.map Prod.fst).Nodup) {k : String} {v : α}
    (inside : (k, v) ∈ l) : (ofList l).get? k = some v := by
  unfold ofList
  generalize empty = m
  induction l generalizing m with
  | nil => cases inside
  | cons e rest ih =>
    rw [List.map_cons, List.nodup_cons] at distinct
    rw [List.foldl_cons]
    rcases List.mem_cons.1 inside with rfl | later
    · rw [get?_foldl_put_of_not_mem distinct.1, get?_put_self]
    · exact ih distinct.2 later (m.put e.1 e.2)

/-- The map with other values. -/
def map {β : Type*} (g : α → β) (m : GoMap α) : GoMap β :=
  ⟨m.entries.map fun e => (e.1, g e.2), by
    rw [List.map_map]
    exact m.distinct⟩

theorem get?_map {β : Type*} (g : α → β) (m : GoMap α) (k : String) : (m.map g).get? k = (m.get? k).map g := by
  show (m.entries.map fun e => (e.1, g e.2)).lookup k = (m.entries.lookup k).map g
  induction m.entries with
  | nil => rfl
  | cons e rest ih =>
    rw [List.map_cons, lookup_cons_if, lookup_cons_if, ih]
    split <;> rfl

/-- `delete(m, k)`. -/
def erase (m : GoMap α) (k : String) : GoMap α :=
  ⟨m.entries.filter fun e => e.1 ≠ k, m.distinct.sublist (List.filter_sublist.map Prod.fst)⟩

theorem get?_erase (m : GoMap α) (k k' : String) : (m.erase k).get? k' = if k' = k then none else m.get? k' := by
  refine Option.ext fun v => ?_
  by_cases same : k' = k
  · simp [get?_eq_some_iff, erase, same]
  · rw [if_neg same, get?_eq_some_iff, get?_eq_some_iff, erase, List.mem_filter]
    simp [same]

/-- `for k, v := range u { m[k] = v }`. -/
def putAll (m u : GoMap α) : GoMap α := u.entries.foldl (fun m e => m.put e.1 e.2) m

theorem get?_putAll (m u : GoMap α) (k : String) : (m.putAll u).get? k = (u.get? k).or (m.get? k) := by
  obtain ⟨entries, distinct⟩ := u
  show (entries.foldl (fun m e => m.put e.1 e.2) m).get? k = (entries.lookup k).or (m.get? k)
  induction entries generalizing m with
  | nil => rfl
  | cons e rest ih =>
    rw [List.map_cons, List.nodup_cons] at distinct
    rw [List.foldl_cons, ih _ distinct.2, get?_put, lookup_cons_if]
    by_cases same : k = e.1
    · subst same
      have absent : rest.lookup e.1 = none := by
        cases found : rest.lookup e.1 with
        | none => rfl
        | some v => exact absurd (List.mem_map.2 ⟨(e.1, v), mem_of_lookup found, rfl⟩) distinct.1
      simp [absent]
    · simp [same]

/-- `for k, v := range u { if _, ok := m[k]; !ok { m[k] = v } }`. -/
def fill (m u : GoMap α) : GoMap α :=
  u.entries.foldl (fun m e => if (m.get? e.1).isSome then m else m.put e.1 e.2) m

theorem get?_fill (m u : GoMap α) (k : String) : (m.fill u).get? k = (m.get? k).or (u.get? k) := by
  show (u.entries.foldl (fun m e => if (m.get? e.1).isSome then m else m.put e.1 e.2) m).get? k =
    (m.get? k).or (u.entries.lookup k)
  induction u.entries generalizing m with
  | nil => rw [List.foldl_nil, List.lookup_nil, Option.or_none]
  | cons e rest ih =>
    rw [List.foldl_cons, ih, lookup_cons_if]
    by_cases same : k = e.1
    · subst same
      cases present : m.get? e.1 with
      | some v => simp [present]
      | none => simp
    · cases present : m.get? e.1 with
      | some v => simp [same]
      | none => simp [get?_put_ne m _ same, same]

end GoMap

end KubeKey.Go
