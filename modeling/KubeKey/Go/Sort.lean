import Mathlib.Order.Lattice
import Mathlib.Data.List.Defs

/-!
# Sorting a slice

`sort.Slice` puts a slice in the order of a less function. It is not stable, and
what it does when the function is no strict weak order is left open, so it is
any function that `Sorts`. Where the order also tells distinct items apart,
every such function gives the same list for every order of the input
(`Sorts.unique`).
-/

namespace KubeKey.Go

universe u
variable {α : Type u} {less : α → α → Bool} {items : List α}

/-- The function is a strict weak order of the items. -/
structure StrictWeak (less : α → α → Bool) (items : List α) : Prop where
  irrefl : ∀ a ∈ items, less a a = false
  trans : ∀ a ∈ items, ∀ b ∈ items, ∀ c ∈ items, less a b → less b c → less a c
  incomparable : ∀ a ∈ items, ∀ b ∈ items, ∀ c ∈ items, less a b = false → less b a = false →
    less b c = false → less c b = false → less a c = false ∧ less c a = false

/-- The function orders any two distinct items. -/
def BreaksTies (less : α → α → Bool) (items : List α) : Prop :=
  ∀ a ∈ items, ∀ b ∈ items, less a b = false → less b a = false → a = b

/-- The list is in the order of the function. -/
def InOrder (less : α → α → Bool) (items : List α) : Prop := items.Pairwise fun a b => less b a = false

/-- What is known of `sort.Slice`. -/
structure Sorts (sort : (α → α → Bool) → List α → List α) : Prop where
  perm : ∀ less items, (sort less items).Perm items
  sorted : ∀ less items, StrictWeak less items → InOrder less (sort less items)

theorem StrictWeak.nil : StrictWeak less [] where
  irrefl := by simp
  trans := by simp
  incomparable := by simp

theorem StrictWeak.perm {items' : List α} (weak : StrictWeak less items) (same : items'.Perm items) :
    StrictWeak less items' where
  irrefl a inside := weak.irrefl a (same.subset inside)
  trans a inside b inside' c inside'' :=
    weak.trans a (same.subset inside) b (same.subset inside') c (same.subset inside'')
  incomparable a inside b inside' c inside'' :=
    weak.incomparable a (same.subset inside) b (same.subset inside') c (same.subset inside'')

/-- What is not less passes on. -/
theorem StrictWeak.not_less_trans (weak : StrictWeak less items) {a b c : α} (a_mem : a ∈ items) (b_mem : b ∈ items)
    (c_mem : c ∈ items) (first : less b a = false) (second : less c b = false) : less c a = false := by
  by_contra reversed
  rw [Bool.not_eq_false] at reversed
  cases lower : less a b with
  | true => rw [weak.trans c c_mem a a_mem b b_mem reversed lower] at second; cases second
  | false =>
    cases higher : less b c with
    | true => rw [weak.trans b b_mem c c_mem a a_mem higher reversed] at first; cases first
    | false =>
      have level := weak.incomparable a a_mem b b_mem c c_mem lower first higher second
      rw [level.2] at reversed
      cases reversed

/-- A comparison of keys is a strict weak order, whether the least or the greatest comes first. -/
theorem StrictWeak.of_key {κ : Type*} [LinearOrder κ] (key : α → κ) (items : List α)
    (compares : ∀ a b, less a b = true ↔ key b < key a) : StrictWeak less items where
  irrefl a _ := by
    rw [← Bool.not_eq_true, compares]
    exact lt_irrefl _
  trans a _ b _ c _ lower lower' := by
    rw [compares] at *
    exact lt_trans lower' lower
  incomparable a _ b _ c _ first second third fourth := by
    simp only [← Bool.not_eq_true, compares, not_lt] at *
    exact ⟨le_trans first third, le_trans fourth second⟩

/-- What a comparison of keys does not order has one key. -/
theorem ties_of_key {κ : Type*} [LinearOrder κ] (key : α → κ) (compares : ∀ a b, less a b = true ↔ key b < key a)
    (a b : α) : less a b = false ∧ less b a = false ↔ key a = key b := by
  simp only [← Bool.not_eq_true, compares, not_lt]
  exact ⟨fun ties => le_antisymm ties.1 ties.2, fun same => ⟨le_of_eq same, le_of_eq same.symm⟩⟩

/-- Every function that sorts gives the same list, however the items come. -/
theorem Sorts.unique {sort : (α → α → Bool) → List α → List α} (sorts : Sorts sort) (weak : StrictWeak less items)
    (decides : BreaksTies less items) {items' : List α} (same : items'.Perm items) :
    sort less items' = sort less items := by
  have perm := sorts.perm less items
  have perm' := (sorts.perm less items').trans same
  have antisymm : ∀ a b, a ∈ sort less items' → b ∈ sort less items → less b a = false → less a b = false → a = b :=
    fun a b inside inside' lower lower' => decides a (perm'.subset inside) b (perm.subset inside') lower' lower
  exact List.Perm.eq_of_pairwise antisymm (sorts.sorted less items' (weak.perm same)) (sorts.sorted less items weak)
    (perm'.trans perm.symm)

/-- There is a function that sorts: merging, where nothing is put before what is less than it. -/
theorem sorts_mergeSort : Sorts fun less (items : List α) => items.mergeSort fun a b => !less b a where
  perm less items := List.mergeSort_perm items _
  sorted less items weak := by
    -- Merging is right for an order of all values, which the function is for the values that are items.
    let among : { a // a ∈ items } → { a // a ∈ items } → Bool := fun a b => !less b.1 a.1
    have trans : ∀ a b c, among a b → among b c → among a c := fun a b c first second => by
      simp only [among, Bool.not_eq_true'] at *
      exact weak.not_less_trans a.2 b.2 c.2 first second
    have total : ∀ a b, among a b || among b a := fun a b => by
      simp only [among, Bool.or_eq_true, Bool.not_eq_true']
      by_contra both
      simp only [not_or, Bool.not_eq_false] at both
      have loop := weak.trans a a.2 b b.2 a a.2 both.2 both.1
      rw [weak.irrefl a a.2] at loop
      cases loop
    have merged : (items.attach.mergeSort among).map Subtype.val = items.mergeSort fun a b => !less b a := by
      rw [List.map_mergeSort (s := fun a b => !less b a) fun a _ b _ => rfl, List.attach_map_subtype_val]
    have order := List.pairwise_mergeSort trans total items.attach
    rw [InOrder, ← merged, List.pairwise_map]
    exact order.imp fun first => by simpa [among] using first

end KubeKey.Go
