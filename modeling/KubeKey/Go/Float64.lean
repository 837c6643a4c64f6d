import Mathlib.Data.Int.Log
import Mathlib.Data.Rat.Floor
import Mathlib.Tactic.FieldSimp
import Mathlib.Tactic.Linarith
import Mathlib.Tactic.NormNum
import Mathlib.Tactic.Positivity

/-!
# Float64

Binary floating point numbers with 53 bits. A finite value is held as the rational that it
is, and an operation rounds its exact result to the nearest value (`round`), of two to the
one with an even last place. The sign of a zero is left out: a zero divisor counts as
positive.

Integers up to `2 ^ 53` are exact (`round_natCast`), and a counter stops there
(`round_stuck`). A quotient of two of them is rounded, but it never passes an integer:
rounded up it is what the exact quotient is (`ceil_round_div`).
-/

namespace KubeKey.Go

inductive Float64 where
  | finite (q : ℚ)
  | inf (negative : Bool)
  | nan
deriving DecidableEq

namespace Float64

/-- The nearest integer, of two the even one. -/
def roundEven (q : ℚ) : ℤ :=
  if q - ⌊q⌋ < 1 / 2 ∨ (q - ⌊q⌋ = 1 / 2 ∧ ⌊q⌋ % 2 = 0) then ⌊q⌋ else ⌊q⌋ + 1

/-- The exponent of the last place. -/
def place (q : ℚ) : ℤ := max (Int.log 2 |q| - 52) (-1074)

/-- The value to which an exact result is rounded. -/
def round (q : ℚ) : Float64 :=
  let r : ℚ := roundEven (q / 2 ^ place q) * 2 ^ place q
  if |r| < 2 ^ 1024 then .finite r else .inf (decide (r < 0))

/-- `float64(n)`. -/
def ofInt (n : ℤ) : Float64 := round n

def add : Float64 → Float64 → Float64
  | .finite a, .finite b => round (a + b)
  | .inf s, .inf t => if s = t then .inf s else .nan
  | .inf s, .finite _ => .inf s
  | .finite _, .inf s => .inf s
  | _, _ => .nan

def mul : Float64 → Float64 → Float64
  | .finite a, .finite b => round (a * b)
  | .inf s, .inf t => .inf (s != t)
  | .inf s, .finite a => if a = 0 then .nan else .inf (s != decide (a < 0))
  | .finite a, .inf s => if a = 0 then .nan else .inf (s != decide (a < 0))
  | _, _ => .nan

def div : Float64 → Float64 → Float64
  | .finite a, .finite b => if b = 0 then (if a = 0 then .nan else .inf (decide (a < 0))) else round (a / b)
  | .inf s, .finite a => .inf (s != decide (a < 0))
  | .finite _, .inf _ => .finite 0
  | _, _ => .nan

/-- `math.Ceil`. -/
def ceil : Float64 → Float64
  | .finite q => .finite ⌈q⌉
  | x => x

/-- `<`, which is false of what is no number. -/
def lt : Float64 → Float64 → Bool
  | .finite a, .finite b => decide (a < b)
  | .finite _, .inf s => !s
  | .inf s, .finite _ => s
  | .inf s, .inf t => s && !t
  | _, _ => false

/-- `int(x)`. What a value without an `int` gives is left to the platform. -/
def toInt (outOfRange : Float64 → ℤ) : Float64 → ℤ
  | .finite q =>
    let n := if 0 ≤ q then ⌊q⌋ else ⌈q⌉
    if -2 ^ 63 ≤ n ∧ n < 2 ^ 63 then n else outOfRange (.finite q)
  | x => outOfRange x

/-- `math.Float64frombits`. -/
def ofBits (bits : UInt64) : Float64 :=
  let negative : Bool := bits.toNat / 2 ^ 63 = 1
  let exponent : ℕ := bits.toNat / 2 ^ 52 % 2 ^ 11
  let fraction : ℕ := bits.toNat % 2 ^ 52
  let sign : ℚ := if negative then -1 else 1
  if exponent = 2047 then (if fraction = 0 then .inf negative else .nan)
  else if exponent = 0 then .finite (sign * fraction * 2 ^ (-1074 : ℤ))
  else .finite (sign * (2 ^ 52 + fraction) * 2 ^ ((exponent : ℤ) - 1075))

/-- A bound that ends the count at `b` and not at `a`. -/
theorem finite_of_lt {bound : Float64} {a b : ℚ} (under : lt (.finite a) bound = true)
    (ends : lt (.finite b) bound = false) : ∃ x : ℚ, bound = .finite x ∧ a < x ∧ x ≤ b := by
  cases bound with
  | finite x => exact ⟨x, rfl, by simpa [lt] using under, by simpa [lt] using ends⟩
  | inf negative =>
    have positive : lt (.finite a) (.inf negative) = lt (.finite b) (.inf negative) := rfl
    rw [under, ends] at positive
    cases positive
  | nan => cases under

section Nearest
variable {q : ℚ} {n : ℤ}

@[simp] theorem roundEven_intCast (n : ℤ) : roundEven n = n := by simp [roundEven]

theorem roundEven_le (le : q ≤ n) : roundEven q ≤ n := by
  unfold roundEven
  split
  · exact Int.floor_le_iff.2 (by linarith)
  · next up =>
    have below : q ≠ n := by
      rintro rfl
      exact up (.inl (by simp))
    exact Int.floor_lt.2 (lt_of_le_of_ne le below)

theorem le_roundEven (le : n ≤ q) : n ≤ roundEven q := by
  have floor : n ≤ ⌊q⌋ := Int.le_floor.2 le
  unfold roundEven
  split <;> omega

/-- More than a half is rounded up. -/
theorem lt_roundEven (lt : n + 1 / 2 < q) : n < roundEven q := by
  have floor : n ≤ ⌊q⌋ := Int.le_floor.2 (by linarith)
  unfold roundEven
  split
  · next down =>
    obtain rfl | more : n = ⌊q⌋ ∨ n < ⌊q⌋ := by omega
    · obtain less | ⟨half, _⟩ := down
      · linarith
      · linarith
    · exact more
  · omega

end Nearest

section Place
variable {q : ℚ}

theorem zpow_place_pos (q : ℚ) : (0 : ℚ) < 2 ^ place q := zpow_pos (by norm_num) _

theorem place_nonpos (pos : 0 < q) (lt : q < 2 ^ 53) : place q ≤ 0 := by
  have log : Int.log 2 q < 53 := (Int.lt_zpow_iff_log_lt (by norm_num) pos).1 (by exact_mod_cast lt)
  rw [place, abs_of_pos pos]
  omega

/-- The last place has 53 bits above it, or is the smallest. -/
theorem zpow_place_le (pos : 0 < q) : (2 : ℚ) ^ place q ≤ q / 2 ^ 52 ∨ place q = -1074 := by
  rw [place, abs_of_pos pos]
  obtain normal | denormal := max_cases (Int.log 2 q - 52) (-1074)
  · left
    rw [normal.1, zpow_sub₀ (by norm_num)]
    have log : (2 : ℚ) ^ Int.log 2 q ≤ q := by exact_mod_cast Int.zpow_log_le_self (b := 2) (by norm_num) pos
    exact div_le_div_of_nonneg_right log (by positivity)
  · exact .inr denormal.1

/-- Below the last place of an integer there is nothing. -/
theorem intCast_div_zpow {e : ℤ} (nonpos : e ≤ 0) (n : ℤ) : ∃ m : ℤ, (n : ℚ) / 2 ^ e = m := by
  obtain ⟨k, rfl⟩ : ∃ k : ℕ, e = -k := ⟨e.natAbs, by omega⟩
  refine ⟨n * 2 ^ k, ?_⟩
  rw [zpow_neg, zpow_natCast, div_inv_eq_mul]
  push_cast
  rfl

end Place

/-- A multiple of its last place is not rounded. -/
theorem round_exact {q : ℚ} {m : ℤ} (multiple : q / 2 ^ place q = m) (lt : |q| < 2 ^ 1024) : round q = .finite q := by
  have same : (m : ℚ) * 2 ^ place q = q := by
    rw [← multiple, div_mul_cancel₀ _ (zpow_place_pos q).ne']
  simp only [round, multiple, roundEven_intCast, same, if_pos lt]

theorem round_zero : round 0 = .finite 0 := round_exact (m := 0) (by simp) (by norm_num)

theorem limit_finite : (2 : ℚ) ^ 53 < 2 ^ 1024 := pow_lt_pow_right₀ (by norm_num) (by norm_num)

/-- The last place from `2 ^ 53` on is 2. -/
theorem place_limit {q : ℚ} (le : 2 ^ 53 ≤ q) (lt : q < 2 ^ 54) : place q = 1 := by
  have pos : 0 < q := lt_of_lt_of_le (by norm_num) le
  have upper : Int.log 2 q < 54 := (Int.lt_zpow_iff_log_lt (by norm_num) pos).1 (by exact_mod_cast lt)
  have lower : 53 ≤ Int.log 2 q := (Int.zpow_le_iff_le_log (by norm_num) pos).1 (by exact_mod_cast le)
  rw [place, abs_of_pos pos]
  omega

/-- Integers of up to 53 bits are exact. -/
theorem round_natCast {n : ℕ} (le : n ≤ 2 ^ 53) : round n = .finite n := by
  have small : |(n : ℚ)| < 2 ^ 1024 := by
    rw [abs_of_nonneg (by positivity)]
    calc (n : ℚ) ≤ 2 ^ 53 := by exact_mod_cast le
      _ < 2 ^ 1024 := limit_finite
  obtain rfl | pos := Nat.eq_zero_or_pos n
  · exact_mod_cast round_zero
  obtain lt | rfl : n < 2 ^ 53 ∨ n = 2 ^ 53 := by omega
  · have nonpos : place (n : ℚ) ≤ 0 := place_nonpos (by exact_mod_cast pos) (by exact_mod_cast lt)
    obtain ⟨m, multiple⟩ := intCast_div_zpow nonpos (n : ℤ)
    exact round_exact (m := m) (by exact_mod_cast multiple) small
  · refine round_exact (m := 2 ^ 52) ?_ small
    rw [place_limit (by norm_num) (by norm_num)]
    norm_num

/-- The counter that has come to `2 ^ 53` stays there. -/
theorem round_stuck : round (2 ^ 53 + 1) = .finite (2 ^ 53) := by
  have place_one : place (2 ^ 53 + 1) = 1 := place_limit (by norm_num) (by norm_num)
  have floor : ⌊((2 : ℚ) ^ 53 + 1) / 2⌋ = 2 ^ 52 := by
    rw [Int.floor_eq_iff]
    norm_num
  have down : roundEven (((2 : ℚ) ^ 53 + 1) / 2) = 2 ^ 52 := by
    rw [roundEven, floor]
    norm_num
  have value : (((2 ^ 52 : ℤ) : ℚ)) * 2 = 2 ^ 53 := by norm_num
  have finite : |(2 : ℚ) ^ 53| < 2 ^ 1024 := by
    rw [abs_of_nonneg (by norm_num)]
    exact limit_finite
  simp only [round, place_one, zpow_one, down, value, if_pos finite]

section Quotient
variable {q : ℚ} {n : ℤ}

/-- Rounding does not pass an integer of up to 53 bits. -/
theorem round_le (pos : 0 < q) (le : q ≤ n) (small : n ≤ 2 ^ 53) :
    ∃ x : ℚ, round q = .finite x ∧ x ≤ n := by
  obtain lt | rfl : q < 2 ^ 53 ∨ q = ((2 ^ 53 : ℕ) : ℚ) := by
    have bound : q ≤ 2 ^ 53 := le.trans (by exact_mod_cast small)
    push_cast
    exact lt_or_eq_of_le bound
  · have scale := zpow_place_pos q
    obtain ⟨m, multiple⟩ := intCast_div_zpow (place_nonpos pos lt) n
    have upper : roundEven (q / 2 ^ place q) ≤ m :=
      roundEven_le (by rw [← multiple]; exact div_le_div_of_nonneg_right le scale.le)
    have lower : 0 ≤ roundEven (q / 2 ^ place q) := le_roundEven (by push_cast; positivity)
    have value : (roundEven (q / 2 ^ place q) : ℚ) * 2 ^ place q ≤ n := by
      rw [← le_div_iff₀ scale, multiple]
      exact_mod_cast upper
    have nonneg : (0 : ℚ) ≤ roundEven (q / 2 ^ place q) * 2 ^ place q :=
      mul_nonneg (by exact_mod_cast lower) scale.le
    refine ⟨_, if_pos ?_, value⟩
    rw [abs_of_nonneg nonneg]
    calc _ ≤ (n : ℚ) := value
      _ ≤ 2 ^ 53 := by exact_mod_cast small
      _ < 2 ^ 1024 := limit_finite
  · exact ⟨_, round_natCast le_rfl, le⟩

/-- Rounding leaves what is more than half a last place above an integer above it. -/
theorem lt_round (pos : 0 < q) (lt : q < 2 ^ 53) (above : n + 2 ^ place q / 2 < q) {x : ℚ}
    (value : round q = .finite x) : (n : ℚ) < x := by
  have scale := zpow_place_pos q
  obtain ⟨m, multiple⟩ := intCast_div_zpow (place_nonpos pos lt) n
  have up : m < roundEven (q / 2 ^ place q) := by
    refine lt_roundEven ?_
    rw [← multiple, lt_div_iff₀ scale, add_mul, div_mul_cancel₀ _ scale.ne']
    linarith
  have same : x = roundEven (q / 2 ^ place q) * 2 ^ place q := by
    simp only [round] at value
    split at value
    · exact (Float64.finite.inj value).symm
    · cases value
  rw [same, ← div_lt_iff₀ scale, multiple]
  exact_mod_cast up

/-- A quotient of integers of up to 53 bits, rounded up, is not changed by its rounding. -/
theorem ceil_round_div {d l : ℕ} (pos : 0 < d) (small : d < 2 ^ 53) (divisor : 0 < l) (bound : l ≤ 2 ^ 53) :
    ∃ x : ℚ, round (d / l) = .finite x ∧ ⌈x⌉ = ⌈(d / l : ℚ)⌉ ∧ x ≤ 2 ^ 53 := by
  have one_le : (1 : ℚ) ≤ l := by exact_mod_cast divisor
  have d_pos : (0 : ℚ) < d := by exact_mod_cast pos
  have q_pos : (0 : ℚ) < d / l := by positivity
  have q_le : (d / l : ℚ) ≤ d := div_le_self d_pos.le one_le
  have q_lt : (d / l : ℚ) < 2 ^ 53 := lt_of_le_of_lt q_le (by exact_mod_cast small)
  have ceil_small : ⌈(d / l : ℚ)⌉ ≤ 2 ^ 53 := Int.ceil_le.2 (by exact_mod_cast q_lt.le)
  obtain ⟨x, value, le⟩ := round_le q_pos (Int.le_ceil _) ceil_small
  -- the quotient is a whole `1 / l` above the integer below it
  have apart : ((⌈(d / l : ℚ)⌉ - 1 : ℤ) : ℚ) + 1 / l ≤ d / l := by
    have above : ((⌈(d / l : ℚ)⌉ - 1 : ℤ) : ℚ) < d / l := by
      push_cast
      linarith [Int.ceil_lt_add_one (d / l : ℚ)]
    rw [lt_div_iff₀ (by linarith)] at above
    have step : (⌈(d / l : ℚ)⌉ - 1) * (l : ℤ) + 1 ≤ d := by exact_mod_cast above
    rw [le_div_iff₀ (by linarith), add_mul, div_mul_cancel₀ _ (by linarith)]
    exact_mod_cast step
  -- and that is more than half a last place
  have half : (2 : ℚ) ^ place (d / l) / 2 < 1 / l := by
    obtain normal | denormal := zpow_place_le q_pos
    · calc (2 : ℚ) ^ place (d / l) / 2 ≤ d / l / 2 ^ 52 / 2 := by linarith
        _ = d / 2 ^ 53 / l := by ring
        _ < 1 / l := by
          refine div_lt_div_of_pos_right ?_ (by linarith)
          rw [div_lt_one (by norm_num)]
          exact_mod_cast small
    · have l_le : (l : ℚ) ≤ 2 ^ 53 := by exact_mod_cast bound
      have tiny : (2 : ℚ) ^ (-1074 : ℤ) ≤ 2 ^ (-53 : ℤ) := zpow_le_zpow_right₀ (by norm_num) (by norm_num)
      rw [denormal, lt_div_iff₀ (by linarith)]
      calc (2 : ℚ) ^ (-1074 : ℤ) / 2 * l ≤ 2 ^ (-53 : ℤ) / 2 * 2 ^ 53 := by gcongr
        _ < 1 := by norm_num
  have lower : ((⌈(d / l : ℚ)⌉ - 1 : ℤ) : ℚ) < x := lt_round q_pos q_lt (by linarith) value
  refine ⟨x, value, Int.ceil_eq_iff.2 ⟨?_, le⟩, le.trans (by exact_mod_cast ceil_small)⟩
  exact_mod_cast lower

end Quotient

end Float64

end KubeKey.Go
