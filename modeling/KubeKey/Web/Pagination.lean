import KubeKey.Text.Strings

/-!
# The pagination of web queries

`query.ParseQueryParameter` turns the limit and page parameters of a request
into a limit and an offset, and `Pagination.GetValidPagination` turns these into
the range of the items to return. Both compute on machine integers: the offset
is a product and the end a sum that may wrap. `getValidPagination_iff` says for
which parameters the range is one of the items all the same.
-/

namespace KubeKey.Web
open Text.Strings

/-- `query.Pagination`. -/
structure Pagination where
  Limit : Int64
  Offset : Int64
deriving Repr, DecidableEq

def newPagination (limit offset : Int64) : Pagination := ⟨limit, offset⟩

def NoPagination : Pagination := newPagination (-1) 0

/-- `strconv.Atoi`, where an integer has 64 bits. -/
def Atoi (s : List Char) : Option Int64 :=
  match s with
  | '-' :: cs => (digits cs).bind fun n => if n ≤ 2 ^ 63 then some (.ofInt (-n)) else none
  | '+' :: cs => (digits cs).bind fun n => if n < 2 ^ 63 then some (.ofInt n) else none
  | cs => (digits cs).bind fun n => if n < 2 ^ 63 then some (.ofInt n) else none

/-- The pagination of a page with so many items to a page. -/
def paginationOf (page limit : Int64) : Pagination := newPagination limit ((page - 1) * limit)

/-- The pagination that `ParseQueryParameter` reads from the two parameters of a request. -/
def parsePagination (limit page : List Char) : Pagination :=
  paginationOf ((Atoi page).getD 1) ((Atoi limit).getD (-1))

/-- The first and the past-the-end index of the items to return. -/
def Pagination.GetValidPagination (p : Pagination) (total : Int64) : Int64 × Int64 :=
  if p.Limit = NoPagination.Limit then (0, total)
  else if p.Limit < 0 ∨ p.Offset < 0 ∨ total < p.Offset then (0, 0)
  else
    let startIndex := p.Offset
    let endIndex := startIndex + p.Limit
    (startIndex, if total < endIndex then total else endIndex)

/-- The items `items[start:end]`, or nothing where Go panics: no range below goes past the length, so that the
capacity, which is what Go compares the end with, does not matter. -/
def slice {T : Type} (items : List T) (range : Int64 × Int64) : Option (List T) :=
  if 0 ≤ range.1 ∧ range.1 ≤ range.2 ∧ range.2.toInt ≤ items.length then
    some ((items.take range.2.toInt.toNat).drop range.1.toInt.toNat)
  else none

/-- A range of so many items. -/
structure Within (range : Int64 × Int64) (total : Int64) : Prop where
  start : 0 ≤ range.1
  ordered : range.1 ≤ range.2
  stop : range.2 ≤ total

theorem slice_isSome_iff {T : Type} {items : List T} {total : Int64} (counted : (items.length : Int) = total.toInt)
    (range : Int64 × Int64) : (slice items range).isSome ↔ Within range total := by
  unfold slice
  split
  · rename_i inside
    exact iff_of_true rfl ⟨inside.1, inside.2.1, Int64.le_iff_toInt_le.2 (counted ▸ inside.2.2)⟩
  · rename_i outside
    refine iff_of_false (by simp) fun within => outside ⟨within.start, within.ordered, ?_⟩
    rw [counted]
    exact Int64.le_iff_toInt_le.1 within.stop

/-! ## When the range is one of the items -/

/-- The pagination passes its guards with an end beyond the largest integer. -/
def Pagination.Wraps (p : Pagination) (total : Int64) : Prop :=
  0 ≤ p.Limit ∧ 0 ≤ p.Offset ∧ p.Offset ≤ total ∧ Int64.maxValue.toInt < p.Offset.toInt + p.Limit.toInt

/-- The sum of two integers that are not negative is negative exactly when it does not fit. -/
theorem toInt_add_of_nonneg {a b : Int64} (lower : 0 ≤ a) (lower' : 0 ≤ b) :
    (a + b).toInt = a.toInt + b.toInt - if Int64.maxValue.toInt < a.toInt + b.toInt then (Int64.size : Int) else 0 := by
  have upper := a.toInt_lt
  have upper' := b.toInt_lt
  rw [Int64.le_iff_toInt_le] at lower lower'
  rw [Int64.toInt_add, Int.bmod_def, Int64.toInt_maxValue, Int64.size]
  simp only [Int64.toInt_zero] at lower lower'
  split <;> split <;> omega

theorem Pagination.within_iff (p : Pagination) {total : Int64} (counted : 0 ≤ total) :
    Within (p.GetValidPagination total) total ↔ ¬ p.Wraps total := by
  unfold GetValidPagination
  split
  · rename_i unlimited
    refine iff_of_true ⟨Int64.le_refl 0, counted, Int64.le_refl total⟩ fun wraps => ?_
    have lower := wraps.1
    rw [unlimited] at lower
    exact absurd lower (by decide)
  split
  · rename_i invalid
    refine iff_of_true ⟨Int64.le_refl 0, Int64.le_refl 0, counted⟩ fun ⟨limit, offset, inside, _⟩ => ?_
    rcases invalid with below | below | past
    · exact Int64.not_le.2 below limit
    · exact Int64.not_le.2 below offset
    · exact Int64.not_le.2 past inside
  · rename_i valid
    simp only [not_or, Int64.not_lt] at valid
    obtain ⟨limit, offset, inside⟩ := valid
    have sum := toInt_add_of_nonneg offset limit
    have upper := p.Limit.toInt_lt
    have upper' := p.Offset.toInt_lt
    have upper'' := total.toInt_lt
    rw [Int64.le_iff_toInt_le, Int64.toInt_zero] at limit offset counted
    constructor
    · rintro within ⟨-, -, -, wraps⟩
      have ordered : p.Offset ≤ if total < p.Offset + p.Limit then total else p.Offset + p.Limit := within.ordered
      rw [if_pos wraps, Int64.size] at sum
      have short : ¬ total < p.Offset + p.Limit := by
        rw [Int64.lt_iff_toInt_lt]
        omega
      rw [if_neg short, Int64.le_iff_toInt_le] at ordered
      omega
    · intro fits
      have small : ¬ Int64.maxValue.toInt < p.Offset.toInt + p.Limit.toInt := fun wraps =>
        fits ⟨by rwa [Int64.le_iff_toInt_le], by rwa [Int64.le_iff_toInt_le], inside, wraps⟩
      rw [if_neg small, Int.sub_zero] at sum
      refine ⟨by rwa [Int64.le_iff_toInt_le], ?_, ?_⟩
      · dsimp only
        split
        · exact inside
        · rw [Int64.le_iff_toInt_le]
          omega
      · dsimp only
        split
        · exact Int64.le_refl total
        · rename_i short
          exact Int64.not_lt.1 short

/-- What a pagination that passes the guards cuts from the items. -/
theorem slice_valid {T : Type} (p : Pagination) (items : List T) (short : items.length < 2 ^ 63) (limit : 0 ≤ p.Limit)
    (offset : 0 ≤ p.Offset) (inside : p.Offset ≤ .ofNat items.length) :
    slice items (p.GetValidPagination (.ofNat items.length)) =
      if p.Offset.toInt + p.Limit.toInt ≤ Int64.maxValue.toInt then
        some ((items.drop p.Offset.toInt.toNat).take p.Limit.toInt.toNat)
      else none := by
  have counted := Int64.toInt_ofNat_of_lt short
  have total : 0 ≤ Int64.ofNat items.length := by
    rw [Int64.le_iff_toInt_le, counted]
    exact Int.natCast_nonneg _
  split
  · rename_i fits
    have sum := toInt_add_of_nonneg offset limit
    rw [if_neg (Int.not_lt.2 fits), Int.sub_zero] at sum
    have limited : p.Limit ≠ NoPagination.Limit := fun unlimited => by
      rw [unlimited] at limit
      exact absurd limit (by decide)
    have valid : ¬ (p.Limit < 0 ∨ p.Offset < 0 ∨ .ofNat items.length < p.Offset) := by
      simp only [not_or, Int64.not_lt]
      exact ⟨limit, offset, inside⟩
    obtain ⟨stop, range, stops⟩ : ∃ stop, p.GetValidPagination (.ofNat items.length) = (p.Offset, stop) ∧
        stop.toInt = min (items.length : Int) (p.Offset.toInt + p.Limit.toInt) := by
      refine ⟨_, by rw [Pagination.GetValidPagination, if_neg limited, if_neg valid], ?_⟩
      split <;> rename_i past <;> rw [Int64.lt_iff_toInt_lt, counted, sum] at past <;> omega
    rw [Int64.le_iff_toInt_le, Int64.toInt_zero] at limit offset
    rw [Int64.le_iff_toInt_le, counted] at inside
    have ordered : 0 ≤ p.Offset ∧ p.Offset ≤ stop ∧ stop.toInt ≤ items.length := by
      rw [Int64.le_iff_toInt_le, Int64.le_iff_toInt_le, stops, Int64.toInt_zero]
      omega
    rw [range, slice, if_pos ordered, List.drop_take]
    congr 1
    rw [List.take_eq_take_iff, List.length_drop, stops]
    dsimp only
    omega
  · rename_i wraps
    rw [← Option.not_isSome_iff_eq_none, slice_isSome_iff (by rw [counted]), p.within_iff total, not_not]
    exact ⟨limit, offset, inside, Int.not_le.1 wraps⟩
/-- Some offset within so many items that the product of the parameters stands for, modulo `2 ^ 64`, and the limit
add up to more than the largest integer. -/
def PassesEnd (page limit total : Int64) : Prop :=
  0 ≤ limit ∧ ∃ offset : Int, 0 ≤ offset ∧ offset ≤ total.toInt ∧
    offset % Int64.size = ((page.toInt - 1) * limit.toInt) % Int64.size ∧
    Int64.maxValue.toInt < offset + limit.toInt

theorem toInt_offset (page limit : Int64) :
    (paginationOf page limit).Offset.toInt = ((page.toInt - 1) * limit.toInt).bmod Int64.size := by
  change ((page - 1) * limit).toInt = _
  rw [Int64.toInt_mul, Int64.toInt_sub]
  exact Int.bmod_mul_bmod

theorem wraps_paginationOf_iff (page limit total : Int64) :
    (paginationOf page limit).Wraps total ↔ PassesEnd page limit total := by
  have offset := toInt_offset page limit
  unfold Pagination.Wraps PassesEnd
  simp only [Int64.le_iff_toInt_le, Int64.toInt_zero, offset]
  constructor
  · rintro ⟨lower, lower', inside, wraps⟩
    exact ⟨lower, _, lower', inside, Int.bmod_emod, wraps⟩
  · rintro ⟨lower, o, lower', inside, same, wraps⟩
    have : ((page.toInt - 1) * limit.toInt).bmod Int64.size = o := by
      rw [← Int.emod_bmod, ← same, Int.emod_bmod]
      have upper := total.toInt_lt
      exact Int.bmod_eq_of_le (by rw [Int64.size]; omega) (by rw [Int64.size]; omega)
    exact ⟨lower, by rwa [this], by rwa [this], by rwa [this]⟩

/-- The range is one of the items, so that taking it never panics, exactly when the parameters do not pass the largest
integer from an offset that passes the guards. -/
theorem getValidPagination_iff (page limit total : Int64) (counted : 0 ≤ total) :
    (Within ((paginationOf page limit).GetValidPagination total) total ∧
      ∀ (T : Type) (items : List T), (items.length : Int) = total.toInt →
        (slice items ((paginationOf page limit).GetValidPagination total)).isSome) ↔
      ¬ PassesEnd page limit total := by
  rw [← wraps_paginationOf_iff, ← Pagination.within_iff _ counted]
  exact ⟨And.left, fun within => ⟨within, fun T items length => (slice_isSome_iff length _).2 within⟩⟩

theorem getValidPagination_iff_ten :
    (Within ((paginationOf 2 10).GetValidPagination 15) 15 ∧
      ∀ (T : Type) (items : List T), (items.length : Int) = Int64.toInt 15 →
        (slice items ((paginationOf 2 10).GetValidPagination 15)).isSome) ↔
      ¬ PassesEnd 2 10 15 :=
  getValidPagination_iff 2 10 15 (by decide)

/-- The page before the first one of the largest size begins at the third item and ends before it. -/
theorem not_within_largest :
    ¬ Within ((parsePagination "9223372036854775807".toList "-1".toList).GetValidPagination 2) 2 ∧
      slice [(), ()] ((parsePagination "9223372036854775807".toList "-1".toList).GetValidPagination 2) = none := by
  refine ⟨fun within => ?_, by decide⟩
  have ordered := within.ordered
  revert ordered
  decide

end KubeKey.Web
