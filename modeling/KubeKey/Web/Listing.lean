import Mathlib.Data.Char
import Mathlib.Data.Prod.Lex
import Mathlib.Data.List.Lex
import KubeKey.Go.Sort
import KubeKey.Web.Pagination

/-!
# Lists over several pages

`DefaultList` of `pkg/web/query/helper.go` filters the objects, sorts what matches and returns one page of it. A
client that asks for page after page gets pages of as many lists, each sorted from an order of its own, and
`pagesPartition_iff` says when these pages are the parts of one list. The ascending comparison is the negation of
the descending one, under which no object is equal to itself.
-/

namespace KubeKey.Web
open KubeKey.Go KubeKey.Text.Strings

abbrev Chars := List Char

/-- `query.Filter`. -/
structure Filter where
  Field : Chars
  Value : Chars

/-- `query.Query`, without the label selector, which is not read here. -/
structure Query where
  Pagination : Option Pagination
  SortBy : Chars
  Ascending : Bool
  Filters : List Filter

/-- `api.ListResult`. -/
structure ListResult (T : Type) where
  TotalItems : Int64
  Items : List T

section DefaultList

variable {T : Type} (sort : (T → T → Bool) → List T → List T) (objects : List T) (q : Query)
  (compareFunc : T → T → Chars → Bool) (filterFunc : T → Filter → Bool) (transformFuncs : List (T → T))

/-- The objects that every filter selects, transformed. -/
def filtered : List T :=
  (objects.filter fun object => q.Filters.all (filterFunc object)).map fun object =>
    transformFuncs.foldl (fun object transform => transform object) object

/-- The less function that is handed to the sort. -/
def less (left right : T) : Bool :=
  if q.Ascending = false then compareFunc left right q.SortBy else !compareFunc left right q.SortBy

/-- `DefaultList`, or nothing where it panics. -/
def DefaultList : Option (ListResult T) :=
  let filtered := sort (less q compareFunc) (filtered objects q filterFunc transformFuncs)
  let total := Int64.ofNat filtered.length
  (slice filtered ((q.Pagination.getD NoPagination).GetValidPagination total)).map fun items => ⟨total, items⟩

end DefaultList

/-! ## What objects and hosts are compared by -/

def FieldName : Chars := "name".toList

/-- What is read of a `metav1.Object`. -/
structure ObjectMeta where
  GetName : Chars
  GetNamespace : Chars
  GetCreationTimestamp : Int
deriving DecidableEq

/-- `DefaultObjectMetaCompare`. -/
def DefaultObjectMetaCompare (left right : ObjectMeta) (sortBy : Chars) : Bool :=
  if sortBy = FieldName then right.GetName < left.GetName
  else if left.GetCreationTimestamp = right.GetCreationTimestamp then right.GetName < left.GetName
  else right.GetCreationTimestamp < left.GetCreationTimestamp

structure InventoryHostGroups where
  Role : Chars
  Index : Int64

/-- `api.InventoryHostTable`, with the values of the variables left open. -/
structure InventoryHostTable (V : Type) where
  Name : Chars
  Status : Chars
  InternalIPV4 : Chars
  InternalIPV6 : Chars
  SSHHost : Chars
  SSHPort : Chars
  SSHUser : Chars
  SSHPassword : Chars
  SSHPrivateKeyContent : Chars
  Vars : List (Chars × V)
  Groups : List InventoryHostGroups
  Arch : Chars

/-- The value that reflection finds in a field, by its kind. -/
inductive FieldValue (T : Type)
  | string (get : T → Chars)
  | int (get : T → Int64)
  | other

/-- A field of a struct with its `json` tag. -/
structure StructField (T : Type) where
  Name : Chars
  Tag : Chars
  value : FieldValue T

/-- The tag is the name, whatever options follow it. -/
def tagMatches (jsonTag filed : Chars) : Bool :=
  jsonTag = filed ∨ (jsonTag ≠ [] ∧ jsonTag = filed ++ ",omitempty".toList) ∨
    (jsonTag ≠ [] ∧ filed.length ≤ jsonTag.length ∧ jsonTag.take filed.length = filed ∧
      (jsonTag.length = filed.length ∨ jsonTag[filed.length]? = some ','))

/-- `GetFieldByJSONTag`: the field with the tag, or else the one with the name. -/
def GetFieldByJSONTag {T : Type} (fields : List (StructField T)) (filed : Chars) : Option (FieldValue T) :=
  ((fields.find? fun f => tagMatches f.Tag filed).or (fields.find? fun f => f.Name = filed)).map StructField.value

section ListHosts

variable {V : Type}

def InventoryHostTable.fields : List (StructField (InventoryHostTable V)) :=
  [⟨"Name".toList, "name".toList, .string Name⟩,
   ⟨"Status".toList, "status".toList, .string Status⟩,
   ⟨"InternalIPV4".toList, "internalIPV4".toList, .string InternalIPV4⟩,
   ⟨"InternalIPV6".toList, "internalIPV6".toList, .string InternalIPV6⟩,
   ⟨"SSHHost".toList, "sshHost".toList, .string SSHHost⟩,
   ⟨"SSHPort".toList, "sshPort".toList, .string SSHPort⟩,
   ⟨"SSHUser".toList, "sshUser".toList, .string SSHUser⟩,
   ⟨"SSHPassword".toList, "sshPassword".toList, .string SSHPassword⟩,
   ⟨"SSHPrivateKeyContent".toList, "sshPrivateKeyContent".toList, .string SSHPrivateKeyContent⟩,
   ⟨"Vars".toList, "vars".toList, .other⟩,
   ⟨"Groups".toList, "groups".toList, .other⟩,
   ⟨"Arch".toList, "arch".toList, .string Arch⟩]

/-- The `less` of `ListHosts`. -/
def hostLess (left right : InventoryHostTable V) (sortBy : Chars) : Bool :=
  match GetFieldByJSONTag InventoryHostTable.fields sortBy with
  | some (.string get) => get right < get left
  | some (.int get) => get right < get left
  | _ => right.Name < left.Name

/-- The `filter` of `ListHosts`. -/
def hostFilter (o : InventoryHostTable V) (f : Filter) : Bool :=
  match GetFieldByJSONTag InventoryHostTable.fields f.Field with
  | some (.string get) => contains f.Value (get o)
  | _ => true

end ListHosts

/-! ## The pages of one list -/

section Pages

variable {T : Type} (objects : List T) (q : Query) (compareFunc : T → T → Chars → Bool)
  (filterFunc : T → Filter → Bool) (transformFuncs : List (T → T)) (limit : Int64)

/-- The query for one page. -/
def Query.page (q : Query) (page limit : Int64) : Query := { q with Pagination := some (paginationOf page limit) }

/-- The number of pages that hold so many items. -/
def pageCount (total : Nat) (limit : Int64) : Nat := (total + limit.toInt.toNat - 1) / limit.toInt.toNat

/-- The items of the first pages one after the other, where each request has the objects in an order of its own. -/
def pagesOf (sort : (T → T → Bool) → List T → List T) (runs : Nat → List T) (pages : Nat) : Option (List T) :=
  ((List.range pages).mapM fun k =>
    (DefaultList sort (runs k) (q.page (.ofNat (k + 1)) limit) compareFunc filterFunc transformFuncs).map
      ListResult.Items).map List.flatten

/-- The pages of separate requests are one sorted list of all that matches, in an order that tells distinct objects
apart. -/
structure PagesPartition : Prop where
  weak : StrictWeak (less q compareFunc) (filtered objects q filterFunc transformFuncs)
  decides : BreaksTies (less q compareFunc) (filtered objects q filterFunc transformFuncs)
  pages : ∀ sort, Sorts sort → ∀ runs : Nat → List T, (∀ k, (runs k).Perm objects) →
    ∃ items, pagesOf q compareFunc filterFunc transformFuncs limit sort runs
        (pageCount (filtered objects q filterFunc transformFuncs).length limit) = some items ∧
      items.Perm (filtered objects q filterFunc transformFuncs) ∧ InOrder (less q compareFunc) items

/-- The pages end within the largest integer. -/
def Ends (total : Nat) (limit : Int64) : Prop :=
  ((pageCount total limit * limit.toInt.toNat : Nat) : Int) ≤ Int64.maxValue.toInt

end Pages

section Page

variable {T : Type} {limit : Int64} {k : Nat}

theorem toInt_of_positive (positive : 1 ≤ limit) : 1 ≤ limit.toInt ∧ limit.toInt = (limit.toInt.toNat : Int) := by
  rw [Int64.le_iff_toInt_le, show (1 : Int64).toInt = 1 by decide] at positive
  omega

/-- A page that starts within the items starts where it should. -/
theorem toInt_pageOffset {total : Nat} (short : total < 2 ^ 63) (positive : 1 ≤ limit)
    (starts : k * limit.toInt.toNat < total) :
    (paginationOf (.ofNat (k + 1)) limit).Offset.toInt = (k * limit.toInt.toNat : Nat) := by
  obtain ⟨lower, same⟩ := toInt_of_positive positive
  have grows : k * 1 ≤ k * limit.toInt.toNat := Nat.mul_le_mul_left k (by omega)
  have product : ((k + 1 : Nat) - 1 : Int) * limit.toInt = (k * limit.toInt.toNat : Nat) := by
    rw [Int.natCast_add, Int.natCast_one, Int.add_sub_cancel, Int.natCast_mul, ← same]
  rw [toInt_offset, Int64.toInt_ofNat_of_lt (by omega), product]
  exact Int.bmod_eq_of_le (by rw [Int64.size]; omega) (by rw [Int64.size]; omega)

/-- One page is cut from the items where it ends within the largest integer, and nothing is cut elsewhere. -/
theorem slice_page (items : List T) (short : items.length < 2 ^ 63) (positive : 1 ≤ limit)
    (starts : k * limit.toInt.toNat < items.length) :
    slice items ((paginationOf (.ofNat (k + 1)) limit).GetValidPagination (.ofNat items.length)) =
      if ((k + 1) * limit.toInt.toNat : Nat) ≤ Int64.maxValue.toInt then
        some ((items.drop (k * limit.toInt.toNat)).take limit.toInt.toNat)
      else none := by
  have offset := toInt_pageOffset short positive starts
  obtain ⟨lower, same⟩ := toInt_of_positive positive
  have limited : 0 ≤ (paginationOf (.ofNat (k + 1)) limit).Limit := by
    change 0 ≤ limit
    rw [Int64.le_iff_toInt_le, Int64.toInt_zero]
    omega
  have below : 0 ≤ (paginationOf (.ofNat (k + 1)) limit).Offset := by
    rw [Int64.le_iff_toInt_le, Int64.toInt_zero, offset]
    exact Int.natCast_nonneg _
  have inside : (paginationOf (.ofNat (k + 1)) limit).Offset ≤ .ofNat items.length := by
    rw [Int64.le_iff_toInt_le, Int64.toInt_ofNat_of_lt short, offset]
    omega
  have stop : ((k * limit.toInt.toNat : Nat) : Int) + limit.toInt = ((k + 1) * limit.toInt.toNat : Nat) := by
    rw [Nat.add_mul, Nat.one_mul, Int.natCast_add, ← same]
  have cut := slice_valid _ items short limited below inside
  rw [offset, show (paginationOf (.ofNat (k + 1)) limit).Limit = limit from rfl, stop, Int.toNat_natCast] at cut
  exact cut

/-- Pieces of one length, one after the other, are what comes first. -/
theorem flatten_pieces (items : List T) (size : Nat) :
    ∀ pages : Nat,
      ((List.range pages).map fun k => (items.drop (k * size)).take size).flatten = items.take (pages * size)
  | 0 => by simp
  | pages + 1 => by
    rw [List.range_succ, List.map_append, List.flatten_append, flatten_pieces items size pages, Nat.add_mul,
      Nat.one_mul, List.take_add]
    simp

end Page

section PageCount

variable {total size : Nat}

/-- Every page that is counted starts within the items, and together they hold all items. -/
theorem start_lt_of_lt_pageCount (positive : 0 < size) {k : Nat} (counted : k < (total + size - 1) / size) :
    k * size < total := by
  have fits : (k + 1) * size ≤ total + size - 1 := (Nat.le_div_iff_mul_le positive).1 counted
  rw [Nat.add_mul] at fits
  omega

theorem le_pageCount_mul (positive : 0 < size) : total ≤ (total + size - 1) / size * size := by
  have rest := Nat.mod_lt (total + size - 1) positive
  have split := Nat.div_add_mod (total + size - 1) size
  rw [Nat.mul_comm] at split
  omega

end PageCount

section Partition

variable {T : Type} {sort : (T → T → Bool) → List T → List T} {objects : List T} {q : Query}
  {compareFunc : T → T → Chars → Bool} {filterFunc : T → Filter → Bool} {transformFuncs : List (T → T)} {limit : Int64}

theorem mapM_eq_some_map {α β : Type} {f : α → Option β} {g : α → β} :
    ∀ {xs : List α}, (∀ x ∈ xs, f x = some (g x)) → xs.mapM f = some (xs.map g)
  | [], _ => rfl
  | x :: xs, all => by
    rw [List.mapM_cons, all x List.mem_cons_self,
      mapM_eq_some_map fun y inside => all y (List.mem_cons_of_mem x inside)]
    rfl

theorem isSome_of_mapM {α β : Type} {f : α → Option β} :
    ∀ {xs : List α} {ys : List β}, xs.mapM f = some ys → ∀ x ∈ xs, (f x).isSome
  | [], _, _ => by simp
  | x :: xs, ys, run => by
    rw [List.mapM_cons] at run
    cases first : f x with
    | none => rw [first] at run; cases run
    | some y =>
      cases rest : xs.mapM f with
      | none => rw [first, rest] at run; cases run
      | some zs =>
        intro z inside
        rcases List.mem_cons.1 inside with rfl | later
        · rw [first]; rfl
        · exact isSome_of_mapM rest z later

theorem filtered_perm {run : List T} (same : run.Perm objects) :
    (filtered run q filterFunc transformFuncs).Perm (filtered objects q filterFunc transformFuncs) :=
  (same.filter _).map _

theorem less_page (page limit : Int64) : less (q.page page limit) compareFunc = less q compareFunc := rfl

/-- The items of one page, cut from what is sorted. -/
theorem DefaultList_page (page limit : Int64) (run : List T) :
    (DefaultList sort run (q.page page limit) compareFunc filterFunc transformFuncs).map ListResult.Items =
      slice (sort (less q compareFunc) (filtered run q filterFunc transformFuncs))
        ((paginationOf page limit).GetValidPagination
          (.ofNat (sort (less q compareFunc) (filtered run q filterFunc transformFuncs)).length)) := by
  rw [DefaultList, Option.map_map]
  exact congrFun Option.map_id _

/-- Where the comparison orders and decides, and the last page ends within the largest integer, the pages are the
pieces of the one sorted list. -/
theorem pagesOf_eq (sorts : Sorts sort) (short : (filtered objects q filterFunc transformFuncs).length < 2 ^ 63)
    (positive : 1 ≤ limit) (weak : StrictWeak (less q compareFunc) (filtered objects q filterFunc transformFuncs))
    (decides : BreaksTies (less q compareFunc) (filtered objects q filterFunc transformFuncs))
    (ends : Ends (filtered objects q filterFunc transformFuncs).length limit) {runs : Nat → List T}
    (same : ∀ k, (runs k).Perm objects) :
    pagesOf q compareFunc filterFunc transformFuncs limit sort runs
        (pageCount (filtered objects q filterFunc transformFuncs).length limit) =
      some (sort (less q compareFunc) (filtered objects q filterFunc transformFuncs)) := by
  have size : 0 < limit.toInt.toNat := by
    have := toInt_of_positive positive
    omega
  have length := (sorts.perm (less q compareFunc) (filtered objects q filterFunc transformFuncs)).length_eq
  have page : ∀ k ∈ List.range (pageCount (filtered objects q filterFunc transformFuncs).length limit),
      (DefaultList sort (runs k) (q.page (.ofNat (k + 1)) limit) compareFunc filterFunc transformFuncs).map
          ListResult.Items =
        some (((sort (less q compareFunc) (filtered objects q filterFunc transformFuncs)).drop
          (k * limit.toInt.toNat)).take limit.toInt.toNat) := fun k inside => by
    have counted := List.mem_range.1 inside
    have starts := start_lt_of_lt_pageCount size counted
    have within : (k + 1) * limit.toInt.toNat ≤ pageCount (filtered objects q filterFunc transformFuncs).length limit *
        limit.toInt.toNat := Nat.mul_le_mul_right _ counted
    unfold Ends at ends
    rw [DefaultList_page, sorts.unique weak decides (filtered_perm (same k)),
      slice_page _ (by rw [length]; exact short) positive (by rw [length]; exact starts), if_pos (by omega)]
  rw [pagesOf, mapM_eq_some_map page, Option.map_some, flatten_pieces, List.take_of_length_le]
  rw [length]
  exact le_pageCount_mul size

/-- A list whose last page does not end within the largest integer is not listed. -/
theorem ends_of_pagesOf (sorts : Sorts sort) (short : (filtered objects q filterFunc transformFuncs).length < 2 ^ 63)
    (positive : 1 ≤ limit) (some_match : filtered objects q filterFunc transformFuncs ≠ []) {items : List T}
    (listed : pagesOf q compareFunc filterFunc transformFuncs limit sort (fun _ => objects)
      (pageCount (filtered objects q filterFunc transformFuncs).length limit) = some items) :
    Ends (filtered objects q filterFunc transformFuncs).length limit := by
  have size : 0 < limit.toInt.toNat := by
    have := toInt_of_positive positive
    omega
  have length := (sorts.perm (less q compareFunc) (filtered objects q filterFunc transformFuncs)).length_eq
  have many : 0 < (filtered objects q filterFunc transformFuncs).length := List.length_pos_iff.2 some_match
  obtain ⟨k, last⟩ : ∃ k, pageCount (filtered objects q filterFunc transformFuncs).length limit = k + 1 :=
    Nat.exists_eq_add_one.2 (Nat.div_pos (by omega) size)
  obtain ⟨pages, run, -⟩ := Option.map_eq_some_iff.1 listed
  have cut := isSome_of_mapM run k (List.mem_range.2 (by omega))
  have starts := start_lt_of_lt_pageCount size (show k < _ by rw [← pageCount, last]; omega)
  rw [DefaultList_page, slice_page _ (by rw [length]; exact short) positive (by rw [length]; exact starts)] at cut
  by_contra beyond
  rw [Ends, last] at beyond
  rw [if_neg beyond] at cut
  cases cut

theorem less_descending (compareFunc : T → T → Chars → Bool) (descending : q.Ascending = false) :
    less q compareFunc = fun left right => compareFunc left right q.SortBy := by
  funext left right
  rw [less, if_pos descending]

/-- For a comparison that is a strict weak order, the pages are the parts of one list exactly when nothing matches, or
the order is descending, no two distinct objects tie and the last page ends within the largest integer. -/
theorem pagesPartition_of_weak (short : (filtered objects q filterFunc transformFuncs).length < 2 ^ 63)
    (positive : 1 ≤ limit)
    (weak : ∀ items, StrictWeak (fun left right => compareFunc left right q.SortBy) items) :
    PagesPartition objects q compareFunc filterFunc transformFuncs limit ↔
      filtered objects q filterFunc transformFuncs = [] ∨ q.Ascending = false ∧
        BreaksTies (fun left right => compareFunc left right q.SortBy) (filtered objects q filterFunc transformFuncs) ∧
        Ends (filtered objects q filterFunc transformFuncs).length limit := by
  constructor
  · intro partition
    by_cases some_match : filtered objects q filterFunc transformFuncs = []
    · exact .inl some_match
    obtain ⟨a, inside⟩ := List.exists_mem_of_ne_nil _ some_match
    have descending : q.Ascending = false := by
      by_contra ascending
      have reflexive := partition.weak.irrefl a inside
      rw [less, if_neg ascending, Bool.not_eq_false', ← Bool.not_eq_false] at reflexive
      exact reflexive ((weak _).irrefl a inside)
    have same := less_descending compareFunc descending
    obtain ⟨items, listed, -⟩ := partition.pages _ sorts_mergeSort (fun _ => objects) fun _ => .refl _
    exact .inr ⟨descending, same ▸ partition.decides, ends_of_pagesOf sorts_mergeSort short positive some_match listed⟩
  · intro condition
    obtain ⟨weak', decides, ends⟩ : StrictWeak (less q compareFunc) (filtered objects q filterFunc transformFuncs) ∧
        BreaksTies (less q compareFunc) (filtered objects q filterFunc transformFuncs) ∧
        Ends (filtered objects q filterFunc transformFuncs).length limit := by
      rcases condition with nothing | ⟨descending, decides, ends⟩
      · have none_counted : pageCount 0 limit = 0 := by
          have := toInt_of_positive positive
          exact Nat.div_eq_of_lt (by omega)
        rw [nothing, Ends, List.length_nil, none_counted, Nat.zero_mul]
        exact ⟨.nil, fun a inside => absurd inside List.not_mem_nil, by decide⟩
      · have same := less_descending compareFunc descending
        exact ⟨same ▸ weak _, same ▸ decides, ends⟩
    exact ⟨weak', decides, fun sort sorts runs same =>
      ⟨_, pagesOf_eq sorts short positive weak' decides ends same, sorts.perm _ _, sorts.sorted _ _ weak'⟩⟩

end Partition

/-! ## The lists of objects and of hosts -/

/-- What matches is listed: it is nothing, or the order is descending, no two distinct objects share a key and the last
page ends within the largest integer. -/
def Listable {T : Type} (shared : T → T → Prop) (q : Query) (matching : List T) (limit : Int64) : Prop :=
  matching = [] ∨
    q.Ascending = false ∧ (∀ a ∈ matching, ∀ b ∈ matching, shared a b → a = b) ∧ Ends matching.length limit

section Objects

variable {T : Type} (accessor : T → ObjectMeta) (sortBy : Chars)

def compareObjects (left right : T) (sortBy : Chars) : Bool :=
  DefaultObjectMetaCompare (accessor left) (accessor right) sortBy

/-- Objects that are compared as equal: of one name and, unless the name is all that is compared, of one time. -/
def SharedKey (left right : T) : Prop :=
  (accessor left).GetName = (accessor right).GetName ∧
    (sortBy = FieldName ∨ (accessor left).GetCreationTimestamp = (accessor right).GetCreationTimestamp)

theorem compareObjects_named (named : sortBy = FieldName) (left right : T) :
    compareObjects accessor left right sortBy = true ↔ (accessor right).GetName < (accessor left).GetName := by
  rw [compareObjects, DefaultObjectMetaCompare, if_pos named, decide_eq_true_eq]

/-- The time and then the name is what is compared. -/
def timedKey (object : T) : Int ×ₗ Chars := toLex ((accessor object).GetCreationTimestamp, (accessor object).GetName)

theorem compareObjects_timed (timed : sortBy ≠ FieldName) (left right : T) :
    compareObjects accessor left right sortBy = true ↔ timedKey accessor right < timedKey accessor left := by
  rw [compareObjects, DefaultObjectMetaCompare, if_neg timed, timedKey, timedKey, Prod.Lex.toLex_lt_toLex]
  split
  · rename_i same
    simp [same]
  · rename_i other
    simp [Ne.symm other]

theorem compareObjects_weak (items : List T) :
    StrictWeak (fun left right => compareObjects accessor left right sortBy) items := by
  by_cases named : sortBy = FieldName
  · exact .of_key _ items (compareObjects_named accessor sortBy named)
  · exact .of_key _ items (compareObjects_timed accessor sortBy named)

theorem compareObjects_ties (left right : T) :
    compareObjects accessor left right sortBy = false ∧ compareObjects accessor right left sortBy = false ↔
      SharedKey accessor sortBy left right := by
  unfold SharedKey
  by_cases named : sortBy = FieldName
  · rw [ties_of_key _ (compareObjects_named accessor sortBy named)]
    simp only [named, true_or, and_true]
  · rw [ties_of_key _ (compareObjects_timed accessor sortBy named), timedKey, timedKey, toLex_inj, Prod.mk.injEq]
    simp only [named, false_or]
    exact and_comm

end Objects

section Hosts

variable {V : Type} (sortBy : Chars)

/-- Hosts that are compared as equal: of one value in the field, or of one name where the field holds no text. -/
def SharedField (left right : InventoryHostTable V) : Prop :=
  match GetFieldByJSONTag InventoryHostTable.fields sortBy with
  | some (.string get) => get left = get right
  | some (.int get) => get left = get right
  | _ => left.Name = right.Name

theorem hostLess_weak (items : List (InventoryHostTable V)) :
    StrictWeak (fun left right => hostLess left right sortBy) items := by
  unfold hostLess
  split
  · rename_i get _
    exact .of_key get items fun a b => decide_eq_true_iff
  · rename_i get _
    exact .of_key (fun a => (get a).toInt) items fun a b => decide_eq_true_iff.trans Int64.lt_iff_toInt_lt
  · exact .of_key InventoryHostTable.Name items fun a b => decide_eq_true_iff

theorem hostLess_ties (left right : InventoryHostTable V) :
    hostLess left right sortBy = false ∧ hostLess right left sortBy = false ↔ SharedField sortBy left right := by
  unfold hostLess SharedField
  split
  · rename_i get _
    exact ties_of_key get (fun a b => decide_eq_true_iff) left right
  · rename_i get _
    rw [ties_of_key (fun a => (get a).toInt) (fun a b => decide_eq_true_iff.trans Int64.lt_iff_toInt_lt)]
    exact Int64.toInt_inj
  · exact ties_of_key InventoryHostTable.Name (fun a b => decide_eq_true_iff) left right

end Hosts

theorem breaksTies_iff {T : Type} {compare : T → T → Bool} {shared : T → T → Prop} {items : List T}
    (ties : ∀ a b, compare a b = false ∧ compare b a = false ↔ shared a b) :
    BreaksTies compare items ↔ ∀ a ∈ items, ∀ b ∈ items, shared a b → a = b :=
  forall₄_congr fun a _ b _ => by rw [← ties, and_imp]

theorem length_filtered {T : Type} (objects : List T) (q : Query) (filterFunc : T → Filter → Bool)
    (transformFuncs : List (T → T)) : (filtered objects q filterFunc transformFuncs).length ≤ objects.length := by
  rw [filtered, List.length_map]
  exact List.length_filter_le _ _

/-- The pages of the objects and those of the hosts are the parts of one list exactly when nothing matches, or the
order is descending, no two distinct objects that match share what they are compared by and the last page ends within
the largest integer. -/
theorem pagesPartition_iff (q : Query) (limit : Int64) (positive : 1 ≤ limit) :
    (∀ (T : Type) (accessor : T → ObjectMeta) (filterFunc : T → Filter → Bool) (transformFuncs : List (T → T))
        (objects : List T), objects.length < 2 ^ 63 →
      (PagesPartition objects q (compareObjects accessor) filterFunc transformFuncs limit ↔
        Listable (SharedKey accessor q.SortBy) q (filtered objects q filterFunc transformFuncs) limit)) ∧
    ∀ (V : Type) (hosts : List (InventoryHostTable V)), hosts.length < 2 ^ 63 →
      (PagesPartition hosts q hostLess hostFilter [] limit ↔
        Listable (SharedField q.SortBy) q (filtered hosts q hostFilter []) limit) := by
  constructor
  · intro T accessor filterFunc transformFuncs objects short
    have matched := length_filtered objects q filterFunc transformFuncs
    rw [pagesPartition_of_weak (by omega) positive (compareObjects_weak accessor q.SortBy), Listable,
      breaksTies_iff (compareObjects_ties accessor q.SortBy)]
  · intro V hosts short
    have matched := length_filtered hosts q hostFilter []
    rw [pagesPartition_of_weak (by omega) positive (hostLess_weak q.SortBy), Listable,
      breaksTies_iff (hostLess_ties q.SortBy)]

theorem pagesPartition_iff_two :
    (PagesPartition [⟨"a".toList, "x".toList, 0⟩, ⟨"b".toList, "x".toList, 0⟩] ⟨none, FieldName, false, []⟩
        (compareObjects id) (fun _ _ => true) [] 1 ↔
      Listable (SharedKey id FieldName) ⟨none, FieldName, false, []⟩
        (filtered [⟨"a".toList, "x".toList, 0⟩, ⟨"b".toList, "x".toList, 0⟩] ⟨none, FieldName, false, []⟩
          (fun _ _ => true) []) 1) ∧
      (PagesPartition ([] : List (InventoryHostTable Unit)) ⟨none, FieldName, false, []⟩ hostLess hostFilter [] 1 ↔
        Listable (SharedField FieldName) ⟨none, FieldName, false, []⟩
          (filtered ([] : List (InventoryHostTable Unit)) ⟨none, FieldName, false, []⟩ hostFilter []) 1) :=
  have iff := pagesPartition_iff ⟨none, FieldName, false, []⟩ 1 (by decide)
  ⟨iff.1 ObjectMeta id _ [] _ (by decide), iff.2 _ _ (by decide)⟩

/-- Two objects of one name in different namespaces tie, so that either may come first on each page. -/
theorem not_pagesPartition_namespaces :
    ¬ PagesPartition [⟨"a".toList, "x".toList, 0⟩, ⟨"a".toList, "y".toList, 0⟩] ⟨none, FieldName, false, []⟩
      (compareObjects id) (fun _ _ => true) [] 1 := fun partition => by
  have same := partition.decides ⟨"a".toList, "x".toList, 0⟩ (by decide) ⟨"a".toList, "y".toList, 0⟩ (by decide)
    (by decide) (by decide)
  revert same
  decide

end KubeKey.Web
