import Mathlib.Algebra.Group.Nat.Defs
import Mathlib.Data.Nat.Digits.Defs
import Mathlib.Data.Nat.Digits.Lemmas

/-!
# Big-endian bytes

Numbers as byte strings, most significant byte first. `fixed k n` has `k` bytes for the number
`n`, and `minimal n` as few as it needs. Byte strings of one length are told apart by their
values (`eq_of_value`), so the minimal string with zeros before it is the fixed one, and it is
the fixed one itself exactly when its first byte is not zero.

The network of an address is cut out bytewise with a mask of leading ones. By value it rounds
down to a multiple of a power of two (`value_and_mask`), and setting the other bits gives the
last number before the next one (`value_or_mask`).
-/

namespace KubeKey.Go.BigEndian

/-- The number that the bytes stand for. -/
def value (bytes : List UInt8) : Nat := bytes.foldl (fun n b => n * 256 + b.toNat) 0

theorem foldl_value (bytes : List UInt8) (n : Nat) :
    bytes.foldl (fun n b => n * 256 + b.toNat) n = n * 256 ^ bytes.length + value bytes := by
  induction bytes generalizing n with
  | nil => simp [value]
  | cons b rest ih =>
    have here := ih (n * 256 + b.toNat)
    have there := ih (0 * 256 + b.toNat)
    rw [value, List.foldl_cons, List.foldl_cons, here, there, List.length_cons, pow_succ]
    ring

theorem value_append (a b : List UInt8) : value (a ++ b) = value a * 256 ^ b.length + value b := by
  rw [value, List.foldl_append, foldl_value]
  rfl

theorem value_cons (b : UInt8) (rest : List UInt8) :
    value (b :: rest) = b.toNat * 256 ^ rest.length + value rest := by
  have split := value_append [b] rest
  rw [List.singleton_append] at split
  rw [split]
  simp [value]

theorem value_lt (bytes : List UInt8) : value bytes < 256 ^ bytes.length := by
  induction bytes with
  | nil => simp [value]
  | cons b rest ih =>
    have small : b.toNat < 256 := b.toNat_lt
    have room : (b.toNat + 1) * 256 ^ rest.length ≤ 256 * 256 ^ rest.length :=
      Nat.mul_le_mul_right _ small
    rw [value_cons, List.length_cons, pow_succ]
    have wide : (b.toNat + 1) * 256 ^ rest.length = b.toNat * 256 ^ rest.length + 256 ^ rest.length := by ring
    omega

/-- Byte strings of one length with one value are equal. -/
theorem eq_of_value : ∀ {a b : List UInt8}, a.length = b.length → value a = value b → a = b
  | [], [], _, _ => rfl
  | [], _ :: _, length, _ => by simp at length
  | _ :: _, [], length, _ => by simp at length
  | x :: a, y :: b, length, same => by
    rw [List.length_cons, List.length_cons, Nat.add_right_cancel_iff] at length
    rw [value_cons, value_cons, length] at same
    have low := value_lt a
    have low' := value_lt b
    rw [length] at low
    have high : x.toNat = y.toNat := by
      have left : (x.toNat * 256 ^ b.length + value a) / 256 ^ b.length = x.toNat := by
        rw [Nat.mul_comm, Nat.mul_add_div (by positivity), Nat.div_eq_of_lt low, Nat.add_zero]
      have right : (y.toNat * 256 ^ b.length + value b) / 256 ^ b.length = y.toNat := by
        rw [Nat.mul_comm, Nat.mul_add_div (by positivity), Nat.div_eq_of_lt low', Nat.add_zero]
      rw [← left, ← right, same]
    have rest : value a = value b := by
      rw [high] at same
      omega
    rw [UInt8.toNat_inj.1 high, eq_of_value length rest]

@[simp] theorem value_replicate_zero (k : Nat) : value (List.replicate k 0) = 0 := by
  induction k with
  | zero => rfl
  | succ k ih =>
    rw [List.replicate_succ, value_cons, ih]
    simp

/-- The last `k` bytes of the number `n`. -/
def fixed : Nat → Nat → List UInt8
  | 0, _ => []
  | k + 1, n => fixed k (n / 256) ++ [UInt8.ofNat n]

@[simp] theorem length_fixed (k n : Nat) : (fixed k n).length = k := by
  induction k generalizing n with
  | zero => rfl
  | succ k ih => rw [fixed, List.length_append, ih, List.length_singleton]

theorem value_fixed {k n : Nat} (small : n < 256 ^ k) : value (fixed k n) = n := by
  induction k generalizing n with
  | zero =>
    rw [pow_zero] at small
    simp [fixed, value, Nat.lt_one_iff.1 small]
  | succ k ih =>
    have upper : n / 256 < 256 ^ k := by
      rw [pow_succ] at small
      exact Nat.div_lt_of_lt_mul (by rw [Nat.mul_comm]; exact small)
    rw [fixed, value_append, ih upper]
    simp only [List.length_singleton, pow_one, value, List.foldl_cons, List.foldl_nil, Nat.zero_mul, Nat.zero_add,
      UInt8.toNat_ofNat']
    omega

theorem fixed_value (bytes : List UInt8) : fixed bytes.length (value bytes) = bytes :=
  eq_of_value (length_fixed _ _) (value_fixed (value_lt bytes))

/-- The bytes of the number `n`, without zeros before them. -/
def minimal (n : Nat) : List UInt8 := ((Nat.digits 256 n).map UInt8.ofNat).reverse

theorem value_reverse_digits : ∀ l : List Nat, (∀ d ∈ l, d < 256) →
    value (l.map UInt8.ofNat).reverse = Nat.ofDigits 256 l
  | [], _ => rfl
  | d :: rest, small => by
    have here : d < 256 := small d List.mem_cons_self
    have later := value_reverse_digits rest fun d' member => small d' (List.mem_cons_of_mem _ member)
    rw [List.map_cons, List.reverse_cons, value_append, later, Nat.ofDigits_cons]
    simp only [List.length_singleton, pow_one, value, List.foldl_cons, List.foldl_nil, Nat.zero_mul, Nat.zero_add,
      UInt8.toNat_ofNat']
    omega

theorem value_minimal (n : Nat) : value (minimal n) = n := by
  rw [minimal, value_reverse_digits _ fun d member => Nat.digits_lt_base (by decide) member, Nat.ofDigits_digits]

theorem length_minimal_le_iff (k n : Nat) : (minimal n).length ≤ k ↔ n < 256 ^ k := by
  rw [minimal, List.length_reverse, List.length_map]
  exact Nat.digits_length_le_iff (by decide) n

/-- Zeros before the minimal bytes make them the fixed ones. -/
theorem pad_minimal {k n : Nat} (small : n < 256 ^ k) :
    List.replicate (k - (minimal n).length) 0 ++ minimal n = fixed k n := by
  have short := (length_minimal_le_iff k n).2 small
  refine eq_of_value ?_ ?_
  · rw [List.length_append, List.length_replicate, length_fixed]
    omega
  · rw [value_append, value_replicate_zero, value_minimal, value_fixed small, Nat.zero_mul, Nat.zero_add]

/-- The bytes of a mask: `ones` bits that are set, and then none. -/
def leadingOnes : Nat → Nat → List UInt8
  | _, 0 => []
  | ones, length + 1 =>
    if 8 ≤ ones then 0xff :: leadingOnes (ones - 8) length
    else ~~~((0xff : UInt8) >>> UInt8.ofNat ones) :: leadingOnes 0 length

@[simp] theorem length_leadingOnes (ones length : Nat) : (leadingOnes ones length).length = length := by
  induction length generalizing ones with
  | zero => rfl
  | succ length ih =>
    rw [leadingOnes]
    split <;> rw [List.length_cons, ih]

/-- A mask tells how many bits are set. -/
theorem leadingOnes_inj {length ones ones' : Nat} (few : ones ≤ 8 * length) (few' : ones' ≤ 8 * length)
    (same : leadingOnes ones length = leadingOnes ones' length) : ones = ones' := by
  induction length generalizing ones ones' with
  | zero => omega
  | succ length ih =>
    have short : ∀ n : Nat, n < 8 → (0xff : UInt8) ≠ ~~~((0xff : UInt8) >>> UInt8.ofNat n) := by decide
    have apart : ∀ n < 8, ∀ m < 8, ~~~((0xff : UInt8) >>> UInt8.ofNat n) = ~~~((0xff : UInt8) >>> UInt8.ofNat m) →
        n = m := by decide
    rw [leadingOnes, leadingOnes] at same
    split at same <;> split at same
    · have rest := ih (by omega) (by omega) (List.cons.inj same).2
      omega
    · next other => exact absurd (List.cons.inj same).1 (short ones' (by omega))
    · next other _ => exact absurd (List.cons.inj same).1.symm (short ones (by omega))
    · next other other' => exact apart ones (by omega) ones' (by omega) (List.cons.inj same).1

/-- One byte under a mask. -/
theorem byte_mask : ∀ (b : Fin 256) (ones : Fin 8),
    (UInt8.ofNat b &&& ~~~((0xff : UInt8) >>> UInt8.ofNat ones)).toNat = b / 2 ^ (8 - ones.val) * 2 ^ (8 - ones.val) ∧
    ((UInt8.ofNat b &&& ~~~((0xff : UInt8) >>> UInt8.ofNat ones)) |||
      ~~~(~~~((0xff : UInt8) >>> UInt8.ofNat ones))).toNat =
        b / 2 ^ (8 - ones.val) * 2 ^ (8 - ones.val) + (2 ^ (8 - ones.val) - 1) := by
  decide +kernel

theorem toNat_mask (b : UInt8) {ones : Nat} (few : ones < 8) :
    (b &&& ~~~((0xff : UInt8) >>> UInt8.ofNat ones)).toNat = b.toNat / 2 ^ (8 - ones) * 2 ^ (8 - ones) ∧
    ((b &&& ~~~((0xff : UInt8) >>> UInt8.ofNat ones)) ||| ~~~(~~~((0xff : UInt8) >>> UInt8.ofNat ones))).toNat =
        b.toNat / 2 ^ (8 - ones) * 2 ^ (8 - ones) + (2 ^ (8 - ones) - 1) := by
  have both := byte_mask ⟨b.toNat, b.toNat_lt⟩ ⟨ones, few⟩
  simpa using both

theorem toNat_mask_all (b : UInt8) : b &&& 0xff = b ∧ b ||| ~~~(0xff : UInt8) = b := by
  have all : ∀ b : Fin 256, UInt8.ofNat b &&& 0xff = UInt8.ofNat b ∧ UInt8.ofNat b ||| ~~~(0xff : UInt8) = UInt8.ofNat b := by
    decide +kernel
  simpa using all ⟨b.toNat, b.toNat_lt⟩

/-- The bytes of an address under a mask. -/
def andMask (bytes mask : List UInt8) : List UInt8 := List.zipWith (· &&& ·) bytes mask

/-- A mask is used once. -/
theorem andMask_andMask : ∀ bytes mask : List UInt8, andMask (andMask bytes mask) mask = andMask bytes mask
  | [], _ => rfl
  | _ :: _, [] => rfl
  | b :: bytes, m :: mask => by
    have rest := andMask_andMask bytes mask
    rw [andMask, andMask] at rest ⊢
    simp only [List.zipWith_cons_cons, rest, UInt8.and_assoc, UInt8.and_self]

/-- The bytes with the bits set that the mask leaves. -/
def orMask (bytes mask : List UInt8) : List UInt8 := List.zipWith (fun b m => b ||| ~~~m) bytes mask

/-- Rounding down where nothing is below the high byte. -/
theorem round_high (b m : Nat) {v p : Nat} (low : v < p) :
    (b * p + v) / (m * p) * (m * p) = b / m * m * p := by
  have cut : (b * p + v) / (m * p) = b / m := by
    rw [Nat.mul_comm m p, ← Nat.div_div_eq_div_mul, Nat.mul_comm b p, Nat.mul_add_div (by omega), Nat.div_eq_of_lt low,
      Nat.add_zero]
  rw [cut, Nat.mul_assoc]

/-- Rounding down below the high byte. -/
theorem round_low (b v : Nat) {p m q : Nat} (whole : p = q * m) (pos : 0 < m) :
    (b * p + v) / m * m = b * p + v / m * m := by
  have split : b * p + v = m * (b * q) + v := by
    rw [whole]
    ring
  rw [split, Nat.mul_add_div pos, Nat.add_mul, whole]
  ring

theorem andMask_zero : ∀ bytes : List UInt8, value (andMask bytes (leadingOnes 0 bytes.length)) = 0 ∧
    value (orMask (andMask bytes (leadingOnes 0 bytes.length)) (leadingOnes 0 bytes.length)) = 256 ^ bytes.length - 1
  | [] => ⟨rfl, rfl⟩
  | b :: rest => by
    obtain ⟨low, high⟩ := andMask_zero rest
    have mask := toNat_mask b (show 0 < 8 by decide)
    have small : b.toNat / 2 ^ (8 - 0) = 0 := Nat.div_eq_of_lt b.toNat_lt
    rw [small] at mask
    have length : (andMask rest (leadingOnes 0 rest.length)).length = rest.length := by simp [andMask]
    have length' : (orMask (andMask rest (leadingOnes 0 rest.length)) (leadingOnes 0 rest.length)).length =
        rest.length := by simp [orMask, andMask]
    have step : leadingOnes 0 (b :: rest).length =
        ~~~((0xff : UInt8) >>> UInt8.ofNat 0) :: leadingOnes 0 rest.length := rfl
    have pos : 0 < 256 ^ rest.length := by positivity
    rw [step]
    constructor
    · show value (_ :: andMask rest _) = 0
      rw [value_cons, mask.1, low]
      simp
    · show value (_ :: orMask (andMask rest _) _) = _
      rw [value_cons, mask.2, high, length', List.length_cons, pow_succ]
      omega

/-- By value a mask rounds down, and the bits that it leaves reach up to the next multiple. -/
theorem value_mask : ∀ (bytes : List UInt8) (ones : Nat), ones ≤ 8 * bytes.length →
    value (andMask bytes (leadingOnes ones bytes.length)) =
        value bytes / 2 ^ (8 * bytes.length - ones) * 2 ^ (8 * bytes.length - ones) ∧
      value (orMask (andMask bytes (leadingOnes ones bytes.length)) (leadingOnes ones bytes.length)) =
        value bytes / 2 ^ (8 * bytes.length - ones) * 2 ^ (8 * bytes.length - ones) +
          (2 ^ (8 * bytes.length - ones) - 1)
  | [], ones, few => by
    rw [List.length_nil, Nat.mul_zero, Nat.le_zero] at few
    subst few
    exact ⟨rfl, rfl⟩
  | b :: rest, ones, few => by
    rw [List.length_cons] at few
    have power : (256 : Nat) ^ rest.length = 2 ^ (8 * rest.length) := by
      rw [pow_mul]
      norm_num
    have length : (andMask rest (leadingOnes (ones - 8) rest.length)).length = rest.length := by simp [andMask]
    by_cases full : 8 ≤ ones
    · obtain ⟨low, high⟩ := value_mask rest (ones - 8) (by omega)
      have step : leadingOnes ones (b :: rest).length = 0xff :: leadingOnes (ones - 8) rest.length := if_pos full
      have left : 8 * (b :: rest).length - ones = 8 * rest.length - (ones - 8) := by
        rw [List.length_cons]
        omega
      have whole : (256 : Nat) ^ rest.length = 2 ^ (ones - 8) * 2 ^ (8 * rest.length - (ones - 8)) := by
        rw [power, ← pow_add]
        congr 1
        omega
      rw [step, left, value_cons, round_low _ _ whole (by positivity)]
      constructor
      · show value ((b &&& 0xff) :: andMask rest _) = _
        rw [value_cons, (toNat_mask_all b).1, low, length]
      · show value (((b &&& 0xff) ||| ~~~(0xff : UInt8)) :: orMask (andMask rest _) _) = _
        have length' : (orMask (andMask rest (leadingOnes (ones - 8) rest.length))
            (leadingOnes (ones - 8) rest.length)).length = rest.length := by simp [orMask, andMask]
        rw [value_cons, (toNat_mask_all b).1, (toNat_mask_all b).2, high, length', Nat.add_assoc]
    · obtain ⟨low, high⟩ := andMask_zero rest
      have mask := toNat_mask b (Nat.lt_of_not_le full)
      have step : leadingOnes ones (b :: rest).length =
          ~~~((0xff : UInt8) >>> UInt8.ofNat ones) :: leadingOnes 0 rest.length := if_neg full
      have left : (2 : Nat) ^ (8 * (b :: rest).length - ones) = 2 ^ (8 - ones) * 256 ^ rest.length := by
        rw [power, ← pow_add, List.length_cons]
        congr 1
        omega
      have length' : (orMask (andMask rest (leadingOnes 0 rest.length)) (leadingOnes 0 rest.length)).length =
          rest.length := by simp [orMask, andMask]
      have length₀ : (andMask rest (leadingOnes 0 rest.length)).length = rest.length := by simp [andMask]
      rw [step, left, value_cons, round_high _ _ (value_lt rest)]
      have pos : 0 < 256 ^ rest.length := by positivity
      have more : 0 < 2 ^ (8 - ones) := by positivity
      constructor
      · show value (_ :: andMask rest _) = _
        rw [value_cons, mask.1, low, length₀, Nat.add_zero]
      · show value (_ :: orMask (andMask rest _) _) = _
        rw [value_cons, mask.2, high, length', Nat.add_mul]
        have product : (2 ^ (8 - ones) - 1) * 256 ^ rest.length + 256 ^ rest.length =
            2 ^ (8 - ones) * 256 ^ rest.length := by
          rw [← Nat.succ_mul, Nat.succ_eq_add_one, Nat.sub_add_cancel more]
        omega

end KubeKey.Go.BigEndian
