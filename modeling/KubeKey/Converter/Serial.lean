import Mathlib.Data.List.GetD
import Mathlib.Data.List.SplitLengths
import Mathlib.Algebra.BigOperators.Group.List.Basic
import KubeKey.Go.Float64
import KubeKey.Go.Fuel
import KubeKey.Project.Play
import KubeKey.Variable.Yaml

/-!
# Serial batches

`GroupHostBySerial` of `pkg/converter/converter.go`. The values of `serial` are converted to
`int`, the last one is repeated until the hosts are covered, and the hosts are cut into
batches. Integers are 64 bits wide and wrap, and the loop that repeats the last value counts
in float64, so it need not end: it is given fuel.

The cut ends the current batch at the last host, but begins the next one where the values
say. So it is right exactly if only the last value reaches the last host (`Covers`):
with more values a batch is empty or the slice panics.
-/

namespace KubeKey.Converter

open KubeKey.Go KubeKey.Project

/-- The values of the type `int`. -/
def IsInt (n : Int) : Prop := -2 ^ 63 ≤ n ∧ n < 2 ^ 63

/-- `a + b` on `int`. -/
def addInt (a b : Int) : Int := (a + b).bmod (2 ^ 64)

/-- `a - b` on `int`. -/
def subInt (a b : Int) : Int := (a - b).bmod (2 ^ 64)

/-- What `GroupHostBySerial` uses of the library and the platform. -/
structure Numbers where
  /-- `strconv.ParseFloat`. -/
  parseFloat : String → Option Float64
  /-- The `int` of a float64 that is out of range. -/
  outOfRange : Float64 → Int
  outOfRange_isInt : ∀ x, IsInt (outOfRange x)

/-- The arguments, in the ranges of their types. A string of a slice takes 16 bytes of the address space. -/
structure SerialArgs where
  hosts : List String
  serial : List SerialItem
  length : 16 * hosts.length ≤ 2 ^ 64
  ints : ∀ n, .int n ∈ serial → IsInt n

inductive SerialErr where
  | parseFloat (s : String)
  | parseInt (s : String)
  | unknownType
  | zero (a : SerialItem)

/-- `strings.HasSuffix(val, "%")` and the text before it. -/
def percentage (s : String) : Option String :=
  if s.toList.getLast? = some '%' then some (String.ofList s.toList.dropLast) else none

/-- The value of one entry, before it is compared with zero. -/
def serialValue (numbers : Numbers) (len : Nat) : SerialItem → Except SerialErr Int
  | .int n => .ok n
  | .str s =>
    match percentage s with
    | some text =>
      match numbers.parseFloat text with
      | some b => .ok (Float64.toInt numbers.outOfRange (((Float64.ofInt len).mul b).div (Float64.ofInt 100)).ceil)
      | none => .error (.parseFloat s)
    | none =>
      match KubeKey.Variable.atoi s with
      | some n => .ok n
      | none => .error (.parseInt s)
  | .other => .error .unknownType

/-- `convertSerial`: one round of the first loop. -/
def convertItem (numbers : Numbers) (len : Nat) (a : SerialItem) : Except SerialErr Int := do
  let n ← serialValue numbers len a
  if n = 0 then .error (.zero a) else .ok n

def convertSerial (numbers : Numbers) (len : Nat) : List SerialItem → Except SerialErr (List Int)
  | [] => .ok []
  | a :: serial => do
    let n ← convertItem numbers len a
    let sis ← convertSerial numbers len serial
    .ok (n :: sis)

/-- The last of the values, which is repeated. -/
def lastValue (sis : List Int) : Int := sis.getLastD 0

/-- The loop that repeats the last value, for the hosts that are `missing`. -/
def extendSerial (missing : Int) : Nat → Float64 → List Int → Option (List Int)
  | 0, _, _ => none
  | fuel + 1, i, sis =>
    if i.lt ((Float64.ofInt missing).div (Float64.ofInt (lastValue sis))) then
      extendSerial missing fuel (i.add (.finite 1)) (sis ++ [lastValue sis])
    else some sis

/-- The loop that cuts the batches; it is `none` if a slice panics. -/
def cutHosts (hosts : List String) : List Int → Int → Int → Option (List (List String))
  | [], _, _ => some []
  | si :: sis, begin, stop => do
    let stop := addInt stop si
    let stop := if (hosts.length : Int) < stop then (hosts.length : Int) else stop
    if 0 ≤ begin ∧ begin ≤ stop then
      let rest ← cutHosts hosts sis (addInt begin si) stop
      some ((hosts.drop begin.toNat).take (stop - begin).toNat :: rest)
    else none

inductive Grouping where
  | batches (result : List (List String))
  | error (e : SerialErr)
  | panics

/-- The part of `GroupHostBySerial` after the conversion. -/
def groupHostsByCounts (hosts : List String) (sis : List Int) (fuel : Nat) : Option Grouping :=
  let count := sis.foldl addInt 0
  let extended :=
    if count < (hosts.length : Int) then extendSerial (subInt hosts.length count) fuel (.finite 0) sis else some sis
  extended.map fun sis =>
    match cutHosts hosts sis 0 0 with
    | some result => .batches result
    | none => .panics

/-- `GroupHostBySerial`. -/
def groupHostBySerial (numbers : Numbers) (hosts : List String) (serial : List SerialItem) (fuel : Nat) :
    Option Grouping :=
  if serial.isEmpty then some (.batches [hosts])
  else
    match convertSerial numbers hosts.length serial with
    | .error e => some (.error e)
    | .ok sis => groupHostsByCounts hosts sis fuel

/-! ## Integers -/

section Integers
variable {a b : Int}

theorem addInt_eq (range : IsInt (a + b)) : addInt a b = a + b := by
  obtain ⟨lower, upper⟩ := range
  exact Int.bmod_eq_of_le (by omega) (by omega)

theorem subInt_eq (range : IsInt (a - b)) : subInt a b = a - b := by
  obtain ⟨lower, upper⟩ := range
  exact Int.bmod_eq_of_le (by omega) (by omega)

/-- A sum of positive integers that is too large is negative. -/
theorem addInt_neg (left : IsInt a) (right : IsInt b) (large : 2 ^ 63 ≤ a + b) : addInt a b < 0 := by
  obtain ⟨_, a_lt⟩ := left
  obtain ⟨_, b_lt⟩ := right
  have wrapped : addInt a b = a + b - 2 ^ 64 := by
    rw [addInt, ← Int.sub_bmod_right]
    exact Int.bmod_eq_of_le (by omega) (by omega)
  omega

/-- The counter of the values, while their sum is an `int`. -/
theorem foldl_addInt {sis : List Int} {start : Int} (nonneg : 0 ≤ start) (positive : ∀ c ∈ sis, 0 < c)
    (small : start + sis.sum < 2 ^ 63) : sis.foldl addInt start = start + sis.sum := by
  induction sis generalizing start with
  | nil => simp
  | cons c sis ih =>
    rw [List.forall_mem_cons] at positive
    have rest : 0 ≤ sis.sum := List.sum_nonneg fun x inside => (positive.2 x inside).le
    have first := positive.1
    rw [List.sum_cons] at small ⊢
    have exact_sum : addInt start c = start + c := addInt_eq ⟨by omega, by omega⟩
    rw [List.foldl_cons, exact_sum, ih (by omega) positive.2 (by omega)]
    omega

end Integers

/-! ## The loop that repeats the last value -/

section Extend
variable {missing : Int} {sis : List Int} {n : Nat}

/-- The bound of the loop. -/
def extensionBound (missing last : Int) : Float64 := (Float64.ofInt missing).div (Float64.ofInt last)

theorem lastValue_append (sis : List Int) (k : Nat) :
    lastValue (sis ++ List.replicate k (lastValue sis)) = lastValue sis := by
  cases k with
  | zero => simp
  | succ k => simp [lastValue, List.replicate_succ', ← List.append_assoc]

theorem replicate_append (sis : List Int) (k : Nat) (c : Int) :
    sis ++ [c] ++ List.replicate k c = sis ++ List.replicate (k + 1) c := by
  rw [List.append_assoc, List.replicate_succ, List.singleton_append]

theorem counter_add (small : n < 2 ^ 53) : Float64.add (.finite n) (.finite 1) = .finite (n + 1 : Nat) := by
  have value := Float64.round_natCast (n := n + 1) (by omega)
  push_cast at value ⊢
  exact value

/-- The loop ends after as many rounds as the bound, rounded up, if the counter gets there. -/
theorem extendSerial_ends {x : Rat} (bound : extensionBound missing (lastValue sis) = .finite x) (small : x ≤ 2 ^ 53) :
    ∀ {k n fuel : Nat}, (∀ j < k, ((n + j : Nat) : Rat) < x) → x ≤ (n + k : Nat) → k < fuel →
      extendSerial missing fuel (.finite n) sis = some (sis ++ List.replicate k (lastValue sis)) := by
  intro k
  induction k generalizing sis with
  | zero =>
    intro n fuel _ reached enough
    obtain ⟨fuel, rfl⟩ : ∃ f, fuel = f + 1 := ⟨fuel - 1, by omega⟩
    have over_bound : Float64.lt (.finite n) (extensionBound missing (lastValue sis)) = false := by
      rw [bound]
      simpa [Float64.lt] using reached
    rw [extendSerial, ← extensionBound, over_bound]
    simp
  | succ k ih =>
    intro n fuel below reached enough
    obtain ⟨fuel, rfl⟩ : ∃ f, fuel = f + 1 := ⟨fuel - 1, by omega⟩
    have first : (n : Rat) < x := below 0 (by omega)
    have under : Float64.lt (.finite n) (extensionBound missing (lastValue sis)) = true := by
      rw [bound]
      simpa [Float64.lt] using first
    have counts : n < 2 ^ 53 := by exact_mod_cast lt_of_lt_of_le first small
    have same : lastValue (sis ++ [lastValue sis]) = lastValue sis := lastValue_append sis 1
    rw [extendSerial, ← extensionBound, under, if_pos rfl, counter_add counts,
      ih (by rw [same]; exact bound) (n := n + 1) ?_ ?_ (by omega), same, replicate_append]
    · intro j lt
      have round := below (j + 1) (by omega)
      rwa [Nat.add_right_comm]
    · rwa [Nat.add_right_comm]

/-- What the loop adds when it ends: the bound is between the last two values of the counter. -/
theorem extendSerial_some {fuel : Nat} : ∀ {n : Nat} {sis done : List Int}, n ≤ 2 ^ 53 →
    extendSerial missing fuel (.finite n) sis = some done →
      ∃ k : Nat, done = sis ++ List.replicate k (lastValue sis) ∧ n + k ≤ 2 ^ 53 ∧
        Float64.lt (.finite (n + k : Nat)) (extensionBound missing (lastValue sis)) = false ∧
        ∀ j < k, Float64.lt (.finite (n + j : Nat)) (extensionBound missing (lastValue sis)) = true := by
  induction fuel with
  | zero =>
    intro n sis done _ run
    cases run
  | succ fuel ih =>
    intro n sis done small run
    rw [extendSerial, ← extensionBound] at run
    cases under : Float64.lt (.finite n) (extensionBound missing (lastValue sis)) with
    | false =>
      rw [under, if_neg (by simp)] at run
      cases run
      exact ⟨0, by simp, small, under, fun j lt => absurd lt (by omega)⟩
    | true =>
      rw [under, if_pos rfl] at run
      have same : lastValue (sis ++ [lastValue sis]) = lastValue sis := lastValue_append sis 1
      obtain counts | rfl : n < 2 ^ 53 ∨ n = 2 ^ 53 := by omega
      · rw [counter_add counts] at run
        obtain ⟨k, rfl, limit, ends, rounds⟩ := ih (by omega) run
        rw [same] at ends rounds
        refine ⟨k + 1, by rw [same, replicate_append], by omega, ?_, ?_⟩
        · rwa [Nat.add_right_comm] at ends
        · intro j lt
          cases j with
          | zero => exact under
          | succ j =>
            have round := rounds j (by omega)
            rwa [Nat.add_right_comm] at round
      · -- the counter does not move, so the loop never ends
        have stuck : Float64.add (.finite ((2 ^ 53 : Nat) : Rat)) (.finite 1) = .finite ((2 ^ 53 : Nat) : Rat) := by
          have value := Float64.round_stuck
          push_cast
          exact value
        rw [stuck] at run
        obtain ⟨k, _, limit, ends, _⟩ := ih small run
        obtain rfl : k = 0 := by omega
        rw [same, Nat.add_zero, under] at ends
        cases ends

end Extend

/-! ## The cut -/

/-- How the values have to lie: only the last of them reaches the last of `len` hosts, of which `begin` are cut. -/
structure Covers (len : Nat) (begin : Int) (sis : List Int) : Prop where
  positive : ∀ c ∈ sis, 0 < c
  last : sis.length = 1 ∨ begin + sis.dropLast.sum < len
  reach : len ≤ begin + sis.sum
  small : begin + sis.sum < 2 ^ 63

section Cut
variable {hosts : List String} {sis : List Int} {b : Nat}

/-- One round of the cut. -/
theorem cutHosts_cons {c begin stop : Int} {result : List (List String)} :
    cutHosts hosts (c :: sis) begin stop = some result ↔
      0 ≤ begin ∧ begin ≤ min (addInt stop c) hosts.length ∧ ∃ rest,
        cutHosts hosts sis (addInt begin c) (min (addInt stop c) hosts.length) = some rest ∧
        result = (hosts.drop begin.toNat).take (min (addInt stop c) hosts.length - begin).toNat :: rest := by
  have clamp : (if (hosts.length : Int) < addInt stop c then (hosts.length : Int) else addInt stop c) =
      min (addInt stop c) hosts.length := by omega
  rw [cutHosts, clamp]
  split
  · next inside =>
    simp only [inside.1, inside.2, true_and, Option.bind_eq_bind, Option.bind_eq_some_iff, Option.some.injEq]
    constructor
    · rintro ⟨rest, run, rfl⟩
      exact ⟨rest, run, rfl⟩
    · rintro ⟨rest, run, rfl⟩
      exact ⟨rest, run, rfl⟩
  · next outside =>
    constructor
    · intro run
      cases run
    · rintro ⟨begins, ends, _⟩
      exact absurd ⟨begins, ends⟩ outside

/-- A batch ends with its value or with the hosts. -/
theorem take_clamped (inside : b ≤ hosts.length) (n : Nat) :
    (hosts.drop b).take (min ((b : Int) + n) hosts.length - b).toNat = (hosts.drop b).take n := by
  rw [List.take_eq_take_iff, List.length_drop]
  omega

/-- The values that cover the hosts cut them as `List.splitLengths` does. -/
theorem cutHosts_eq_splitLengths (ints : hosts.length < 2 ^ 63) (inside : b ≤ hosts.length)
    (positive : ∀ c ∈ sis, 0 < c) (last : sis.length = 1 ∨ (b : Int) + sis.dropLast.sum < hosts.length)
    (small : (b : Int) + sis.sum < 2 ^ 63) :
    cutHosts hosts sis b b = some ((sis.map Int.toNat).splitLengths (hosts.drop b)) := by
  induction sis generalizing b with
  | nil => rfl
  | cons c sis ih =>
    rw [List.forall_mem_cons] at positive
    obtain ⟨pos, positive⟩ := positive
    have rest : 0 ≤ sis.sum := List.sum_nonneg fun x member => (positive x member).le
    rw [List.sum_cons] at small
    have next : addInt b c = b + c := addInt_eq ⟨by omega, by omega⟩
    obtain ⟨n, rfl⟩ : ∃ n : Nat, c = n := ⟨c.toNat, by omega⟩
    rw [cutHosts_cons, next]
    refine ⟨by omega, by omega, (sis.map Int.toNat).splitLengths ((hosts.drop b).drop n), ?_, ?_⟩
    · cases sis with
      | nil => rfl
      | cons c' sis =>
        have before : (b : Int) + (n + (c' :: sis).dropLast.sum) < hosts.length := by simpa using last
        have front : 0 ≤ (c' :: sis).dropLast.sum :=
          List.sum_nonneg fun x member => (positive x (List.mem_of_mem_dropLast member)).le
        have stop : min ((b : Int) + n) hosts.length = ((b + n : Nat) : Int) := by omega
        rw [stop, List.drop_drop]
        exact_mod_cast ih (b := b + n) (by omega) positive (.inr (by omega)) (by push_cast; omega)
    · rw [Int.toNat_natCast, take_clamped inside, List.map_cons, List.splitLengths_cons, Int.toNat_natCast]

/-- A value of a cut that leaves no batch empty is positive, its sum is an `int`, and hosts are left for the next
value. -/
theorem cutHosts_covers (ints : hosts.length < 2 ^ 63) (inside : b ≤ hosts.length) (given : sis ≠ [])
    (values : ∀ c ∈ sis, IsInt c ∧ c ≠ 0) {result : List (List String)} (run : cutHosts hosts sis b b = some result)
    (flatten : result.flatten = hosts.drop b) (nonempty : hosts ≠ [] → ∀ batch ∈ result, batch ≠ []) :
    Covers hosts.length b sis := by
  induction sis generalizing b result with
  | nil => exact absurd rfl given
  | cons c sis ih =>
    rw [List.forall_mem_cons] at values
    obtain ⟨⟨range, nonzero⟩, values⟩ := values
    obtain ⟨_, begins, rest, tail, rfl⟩ := cutHosts_cons.1 run
    have small : (b : Int) + c < 2 ^ 63 := by
      by_contra large
      have negative : addInt b c < 0 := addInt_neg ⟨by omega, by omega⟩ range (by omega)
      omega
    have next : addInt b c = b + c := addInt_eq ⟨by have := range.1; omega, small⟩
    rw [next] at begins tail flatten nonempty
    obtain ⟨n, rfl⟩ : ∃ n : Nat, c = n := ⟨c.toNat, by omega⟩
    have pos : 0 < n := by omega
    rw [Int.toNat_natCast, take_clamped inside] at flatten nonempty
    rw [List.flatten_cons] at flatten
    cases sis with
    | nil =>
      cases tail
      rw [List.flatten_nil, List.append_nil, List.take_eq_self_iff, List.length_drop] at flatten
      refine ⟨List.forall_mem_singleton.2 (by omega), .inl rfl, ?_, ?_⟩
      · rw [List.sum_singleton]
        omega
      · rwa [List.sum_singleton]
    | cons c' sis =>
      have later : (b : Int) + n < hosts.length := by
        by_contra reached
        obtain ⟨_, begins', _, _, rfl⟩ := cutHosts_cons.1 tail
        have some_host : hosts ≠ [] := by
          rintro rfl
          rw [List.length_nil] at begins'
          omega
        -- the next slice begins at or after the last host
        refine nonempty some_host _ (List.mem_cons_of_mem _ List.mem_cons_self) ?_
        rw [List.take_eq_nil_iff, List.drop_eq_nil_iff]
        omega
      have stop : min ((b : Int) + n) hosts.length = ((b + n : Nat) : Int) := by omega
      have flatten' : rest.flatten = hosts.drop (b + n) := by
        rw [← List.drop_drop]
        exact List.append_cancel_left (flatten.trans (List.take_append_drop n (hosts.drop b)).symm)
      rw [stop] at tail
      obtain ⟨positive, last, reach, small'⟩ := ih (b := b + n) (by omega) (by simp) values
        (by exact_mod_cast tail) flatten' fun some_host batch member => nonempty some_host batch (.tail _ member)
      push_cast at last reach small'
      refine ⟨List.forall_mem_cons.2 ⟨by omega, positive⟩, .inr ?_, ?_, ?_⟩
      · obtain one | before := last
        · obtain rfl : sis = [] := by simpa using one
          simpa using later
        · simpa [add_assoc] using before
      · rw [List.sum_cons]
        omega
      · rw [List.sum_cons]
        omega

/-- No batch is empty where the values before the last do not reach the last host. -/
theorem splitLengths_nonempty {sizes : List Nat} (positive : ∀ n ∈ sizes, 0 < n) {l : List String}
    (before : sizes.dropLast.sum < l.length) : ∀ batch ∈ sizes.splitLengths l, batch ≠ [] := by
  induction sizes generalizing l with
  | nil => simp
  | cons n sizes ih =>
    rw [List.forall_mem_cons] at positive
    rw [List.splitLengths_cons, List.forall_mem_cons]
    have some_host : l ≠ [] := List.ne_nil_of_length_pos (by omega)
    refine ⟨by simpa [List.take_eq_nil_iff, some_host] using positive.1.ne', ?_⟩
    cases sizes with
    | nil => simp
    | cons n' sizes =>
      refine ih positive.2 ?_
      rw [List.dropLast_cons_cons, List.sum_cons] at before
      rw [List.length_drop]
      omega

end Cut

/-! ## The batches -/

/-- What the batches of the hosts are to be, for the values of `serial`. -/
structure Batched (hosts : List String) (values : List Int) (result : List (List String)) : Prop where
  flatten : result.flatten = hosts
  nonempty : hosts ≠ [] → ∀ batch ∈ result, batch ≠ []
  size : ∀ i (inside : i < result.length), (result[i].length : Int) ≤ values.getD i (lastValue values)

theorem sum_map_toNat {sis : List Int} (positive : ∀ c ∈ sis, 0 < c) : ((sis.map Int.toNat).sum : Int) = sis.sum := by
  induction sis with
  | nil => rfl
  | cons c sis ih =>
    rw [List.forall_mem_cons] at positive
    have rest := ih positive.2
    have first := positive.1
    rw [List.map_cons, List.sum_cons, List.sum_cons, Nat.cast_add, rest]
    omega

theorem getD_append_replicate (values : List Int) (k i : Nat) (inside : i < values.length + k) :
    (values ++ List.replicate k (lastValue values)).getD i 0 = values.getD i (lastValue values) := by
  by_cases own : i < values.length
  · rw [List.getD_append _ _ _ _ own, List.getD_eq_getElem _ _ own, List.getD_eq_getElem _ _ own]
  · rw [List.getD_append_right _ _ _ _ (by omega), List.getD_replicate _ (by omega),
      List.getD_eq_default _ _ (by omega)]

/-- Values that cover the hosts, the last of them repeated, cut them as they should. -/
theorem Covers.batched {hosts : List String} {values : List Int} {k : Nat} (ints : hosts.length < 2 ^ 63)
    (covers : Covers hosts.length 0 (values ++ List.replicate k (lastValue values))) :
    ∃ result, cutHosts hosts (values ++ List.replicate k (lastValue values)) 0 0 = some result ∧
      Batched hosts values result := by
  obtain ⟨positive, last, reach, small⟩ := covers
  rw [Int.zero_add] at last reach small
  have cut := cutHosts_eq_splitLengths (b := 0) ints (Nat.zero_le _) positive (by simpa using last)
    (by simpa using small)
  rw [List.drop_zero] at cut
  refine ⟨_, cut, ?_, fun some_host => splitLengths_nonempty ?_ ?_, fun i inside => ?_⟩
  · refine List.flatten_splitLengths _ _ ?_
    have total := sum_map_toNat positive
    omega
  · refine List.forall_mem_map.2 fun c member => ?_
    have pos := positive c member
    omega
  · obtain one | before := last
    · obtain ⟨c, single⟩ := List.length_eq_one_iff.1 one
      rw [single]
      simpa using List.length_pos_of_ne_nil some_host
    · have front := sum_map_toNat fun c member => positive c (List.mem_of_mem_dropLast member)
      rw [List.map_dropLast] at front
      omega
  · have bound := @List.length_splitLengths_getElem_le _ hosts _ i inside
    rw [List.length_splitLengths, List.length_map] at inside
    rw [List.getElem_map] at bound
    have pos := positive _ (List.getElem_mem inside)
    rw [List.length_append, List.length_replicate] at inside
    rw [← getD_append_replicate values k i inside, List.getD_eq_getElem _ _ (by simpa using inside)]
    omega

/-- The loop that repeats the last value counts as many rounds as the quotient says: the float64 quotient, rounded up,
is the exact one, and the counter gets there. -/
def QuotientExact (missing last : Int) : Prop :=
  ∃ x : Rat, extensionBound missing last = .finite x ∧ x ≤ 2 ^ 53 ∧ ⌈x⌉ = ⌈(missing / last : Rat)⌉

/-- What the values have to be for the hosts to be cut as they should. -/
structure Fits (len : Nat) (values : List Int) : Prop where
  positive : ∀ v ∈ values, 0 < v
  last : values.length = 1 ∨ values.dropLast.sum < len
  small : values.sum < 2 ^ 63
  quotient : values.sum < len → QuotientExact (len - values.sum) (lastValue values)

theorem lastValue_mem {values : List Int} (given : values ≠ []) : lastValue values ∈ values := by
  rw [lastValue, List.getLastD_eq_getLast?, List.getLast?_eq_getLast_of_ne_nil given]
  exact List.getLast_mem given

/-- The quotient is exact for fewer than `2 ^ 53` hosts. -/
theorem fits_iff_of_length {len : Nat} (short : len < 2 ^ 53) {values : List Int} (given : values ≠ []) :
    Fits len values ↔ (∀ v ∈ values, 0 < v) ∧ (values.length = 1 ∨ values.dropLast.sum < len) ∧
      values.sum < 2 ^ 63 := by
  constructor
  · exact fun fits => ⟨fits.positive, fits.last, fits.small⟩
  · rintro ⟨positive, last, small⟩
    refine ⟨positive, last, small, fun missing => ?_⟩
    have le_sum : lastValue values ≤ values.sum :=
      List.single_le_sum (fun x member => (positive x member).le) _ (lastValue_mem given)
    have pos := positive _ (lastValue_mem given)
    obtain ⟨l, last_eq⟩ : ∃ l : Nat, lastValue values = l := ⟨(lastValue values).toNat, by omega⟩
    obtain ⟨d, missing_eq⟩ : ∃ d : Nat, (len : Int) - values.sum = d := ⟨(len - values.sum).toNat, by omega⟩
    obtain ⟨x, value, ceil, limit⟩ :=
      Float64.ceil_round_div (d := d) (l := l) (by omega) (by omega) (by omega) (by omega)
    rw [last_eq, missing_eq]
    have dividend : Float64.ofInt d = .finite d := Float64.round_natCast (by omega)
    have divisor : Float64.ofInt l = .finite l := Float64.round_natCast (by omega)
    have nonzero : (l : Rat) ≠ 0 := by
      have l_pos : l ≠ 0 := by omega
      exact_mod_cast l_pos
    refine ⟨x, ?_, limit, ceil⟩
    rw [extensionBound, dividend, divisor, Float64.div, if_neg nonzero, value]

section Counts
variable {hosts : List String} {values : List Int} {fuel : Nat}

theorem ceil_eq_of_between {d l : Int} {j : Nat} (pos : 0 < l) (below : j * l < d) (reach : d ≤ (j + 1 : Nat) * l) :
    ⌈(d / l : Rat)⌉ = (j + 1 : Nat) := by
  have l_pos : (0 : Rat) < l := by exact_mod_cast pos
  rw [Int.ceil_eq_iff, lt_div_iff₀ l_pos, div_le_iff₀ l_pos]
  constructor
  · push_cast
    rw [add_sub_cancel_right]
    exact_mod_cast below
  · exact_mod_cast reach

/-- The rounded quotient is how often the last value is needed. -/
theorem between_ceil {d l : Int} {k : Nat} (pos : 0 < l) (ceil : ⌈(d / l : Rat)⌉ = k) :
    ((k : Int) - 1) * l < d ∧ d ≤ k * l := by
  have l_pos : (0 : Rat) < l := by exact_mod_cast pos
  rw [Int.ceil_eq_iff, lt_div_iff₀ l_pos, div_le_iff₀ l_pos] at ceil
  exact_mod_cast ceil

theorem sum_append_replicate (values : List Int) (k : Nat) (c : Int) :
    (values ++ List.replicate k c).sum = values.sum + k * c := by
  rw [List.sum_append, List.sum_replicate, nsmul_eq_mul]

/-- What is cut when the hosts are batched: the values, and the last of them for every round of the loop. -/
theorem groupHostsByCounts_batches {result : List (List String)}
    (run : groupHostsByCounts hosts values fuel = some (.batches result)) :
    ∃ k, cutHosts hosts (values ++ List.replicate k (lastValue values)) 0 0 = some result ∧
      ∀ j, k = j + 1 → k ≤ 2 ^ 53 ∧ ∃ x : Rat, j < x ∧ x ≤ k ∧
        extensionBound (subInt hosts.length (values.foldl addInt 0)) (lastValue values) = .finite x := by
  have cut : ∀ sis, (match cutHosts hosts sis 0 0 with
      | some result => Grouping.batches result
      | none => .panics) = .batches result → cutHosts hosts sis 0 0 = some result := by
    intro sis same
    cases done : cutHosts hosts sis 0 0 with
    | none =>
      rw [done] at same
      cases same
    | some result' =>
      rw [done] at same
      cases same
      rfl
  unfold groupHostsByCounts at run
  dsimp only at run
  obtain ⟨sis, extended, same⟩ := Option.map_eq_some_iff.1 run
  have done := cut sis same
  split at extended
  · obtain ⟨k, rfl, limit, ends, rounds⟩ := extendSerial_some (n := 0) (by omega) (by exact_mod_cast extended)
    refine ⟨k, done, fun j succ => ⟨by omega, ?_⟩⟩
    have under := rounds j (by omega)
    rw [Nat.zero_add] at ends under
    obtain ⟨x, bound, above, below⟩ := Float64.finite_of_lt under ends
    exact ⟨x, above, below, bound⟩
  · cases extended
    exact ⟨0, by simpa using done, fun j succ => absurd succ (by omega)⟩

/-- Counts that batch the hosts as they should fit. -/
theorem Batched.fits (length : 16 * hosts.length ≤ 2 ^ 64) (given : values ≠ []) (ints : ∀ v ∈ values, IsInt v ∧ v ≠ 0)
    {result : List (List String)} (batched : Batched hosts values result)
    (run : groupHostsByCounts hosts values fuel = some (.batches result)) : Fits hosts.length values := by
  have last_mem := lastValue_mem given
  obtain ⟨k, cut, rounds⟩ := groupHostsByCounts_batches run
  have members : ∀ c ∈ values ++ List.replicate k (lastValue values), IsInt c ∧ c ≠ 0 := by
    intro c member
    obtain own | repeated := List.mem_append.1 member
    · exact ints c own
    · rw [List.eq_of_mem_replicate repeated]
      exact ints _ last_mem
  obtain ⟨positive, last, reach, small⟩ := cutHosts_covers (b := 0) (by omega) (Nat.zero_le _)
    (List.append_ne_nil_of_left_ne_nil given _) members (by exact_mod_cast cut) batched.flatten batched.nonempty
  rw [Nat.cast_zero, Int.zero_add] at last reach small
  rw [sum_append_replicate] at reach small
  have values_pos : ∀ v ∈ values, 0 < v := fun v member => positive v (List.mem_append_left _ member)
  have last_pos := values_pos _ last_mem
  have nonneg : 0 ≤ values.sum := List.sum_nonneg fun v member => (values_pos v member).le
  cases k with
  | zero =>
    have covered : ¬ values.sum < hosts.length := by omega
    refine ⟨values_pos, ?_, by omega, fun less => absurd less covered⟩
    simpa using last
  | succ j =>
    obtain ⟨limit, x, under, ends, bound⟩ := rounds j rfl
    have two : (values ++ List.replicate (j + 1) (lastValue values)).length ≠ 1 := by
      have some_value := List.length_pos_of_ne_nil given
      rw [List.length_append, List.length_replicate]
      omega
    have before := last.resolve_left two
    rw [List.replicate_succ', ← List.append_assoc, List.dropLast_concat, sum_append_replicate] at before
    have repeated : 0 ≤ (j : Int) * lastValue values := by positivity
    have front : values.dropLast.sum ≤ values.sum :=
      (List.dropLast_sublist values).sum_le_sum fun v member => (values_pos v member).le
    have count : values.foldl addInt 0 = values.sum := by
      rw [foldl_addInt le_rfl values_pos (by omega), Int.zero_add]
    have missing : subInt hosts.length values.sum = hosts.length - values.sum := subInt_eq ⟨by omega, by omega⟩
    rw [count, missing] at bound
    refine ⟨values_pos, .inr (by omega), by omega, fun _ => ⟨x, bound, ?_, ?_⟩⟩
    · exact ends.trans (by exact_mod_cast limit)
    · have rounded : ⌈x⌉ = (j + 1 : Nat) := by
        rw [Int.ceil_eq_iff]
        push_cast at under ends ⊢
        exact ⟨by linarith, ends⟩
      have exact_quotient : ⌈((hosts.length - values.sum : Int) / lastValue values : Rat)⌉ = (j + 1 : Nat) :=
        ceil_eq_of_between last_pos (by linarith) (by linarith)
      rw [rounded, ← exact_quotient]

/-- Counts that fit batch the hosts as they should. -/
theorem Fits.batches (length : 16 * hosts.length ≤ 2 ^ 64) (given : values ≠ []) (fits : Fits hosts.length values) :
    ∃ result fuel, groupHostsByCounts hosts values fuel = some (.batches result) ∧ Batched hosts values result := by
  have last_mem := lastValue_mem given
  obtain ⟨positive, last, small, quotient⟩ := fits
  have count : values.foldl addInt 0 = values.sum := by
    rw [foldl_addInt le_rfl positive (by omega), Int.zero_add]
  have last_pos := positive _ last_mem
  have nonneg : 0 ≤ values.sum := List.sum_nonneg fun v member => (positive v member).le
  by_cases short : values.sum < hosts.length
  · have missing : subInt hosts.length values.sum = hosts.length - values.sum := subInt_eq ⟨by omega, by omega⟩
    obtain ⟨x, bound, limit, ceil⟩ := quotient short
    have dividend : (0 : Rat) < (hosts.length - values.sum : Int) := by
      exact_mod_cast (by omega : 0 < (hosts.length : Int) - values.sum)
    have divisor : (0 : Rat) < lastValue values := by exact_mod_cast last_pos
    have some_round : 0 < ⌈x⌉ := by
      rw [ceil, Int.ceil_pos]
      exact div_pos dividend divisor
    obtain ⟨j, rounds⟩ : ∃ j : Nat, ⌈x⌉ = (j + 1 : Nat) := ⟨⌈x⌉.toNat - 1, by omega⟩
    obtain ⟨before, reach⟩ := between_ceil last_pos (ceil.symm.trans rounds)
    have le_sum : lastValue values ≤ values.sum :=
      List.single_le_sum (fun v member => (positive v member).le) _ last_mem
    have covers : Covers hosts.length 0 (values ++ List.replicate (j + 1) (lastValue values)) := by
      refine ⟨?_, .inr ?_, ?_, ?_⟩
      · intro c member
        obtain own | repeated := List.mem_append.1 member
        · exact positive c own
        · rwa [List.eq_of_mem_replicate repeated]
      · rw [List.replicate_succ', ← List.append_assoc, List.dropLast_concat, sum_append_replicate]
        push_cast at before
        linarith
      · rw [sum_append_replicate]
        linarith
      · rw [sum_append_replicate]
        have total : ((j + 1 : Nat) : Int) * lastValue values = (j : Int) * lastValue values + lastValue values := by
          push_cast
          ring
        push_cast at before
        rw [add_sub_cancel_right] at before
        omega
    obtain ⟨result, cut, batched⟩ := covers.batched (by omega)
    have run : extendSerial (hosts.length - values.sum) (j + 2) (.finite (0 : Nat)) values =
        some (values ++ List.replicate (j + 1) (lastValue values)) := by
      refine extendSerial_ends bound limit (fun i before => ?_) ?_ (by omega)
      · rw [Nat.zero_add]
        have below : (i : Int) < ⌈x⌉ := by omega
        exact_mod_cast Int.lt_ceil.1 below
      · rw [Nat.zero_add]
        have upper := Int.le_ceil x
        rw [rounds] at upper
        exact_mod_cast upper
    refine ⟨result, j + 2, ?_, batched⟩
    rw [Nat.cast_zero] at run
    rw [groupHostsByCounts, count, if_pos short, missing, run, Option.map_some, cut]
  · have covers : Covers hosts.length 0 (values ++ List.replicate 0 (lastValue values)) := by
      rw [List.replicate_zero, List.append_nil]
      exact ⟨positive, by simpa using last, by omega, by omega⟩
    obtain ⟨result, cut, batched⟩ := covers.batched (by omega)
    rw [List.replicate_zero, List.append_nil] at cut
    refine ⟨result, 0, ?_, batched⟩
    rw [groupHostsByCounts, count, if_neg short, Option.map_some, cut]

end Counts

/-! ## The entries -/

/-- An entry that is a positive number or a positive percentage. -/
def IsPositive (numbers : Numbers) : SerialItem → Prop
  | .int n => 0 < n
  | .str s =>
    match percentage s with
    | some text => ∃ b, numbers.parseFloat text = some b ∧ Float64.lt (.finite 0) b = true
    | none => ∃ n, KubeKey.Variable.atoi s = some n ∧ 0 < n
  | .other => False

/-- An entry that is zero or negative. -/
def NotPositive (numbers : Numbers) : SerialItem → Prop
  | .int n => n ≤ 0
  | .str s =>
    match percentage s with
    | some text => ∃ b, numbers.parseFloat text = some b ∧ (b = .finite 0 ∨ b.lt (.finite 0) = true)
    | none => ∃ n, KubeKey.Variable.atoi s = some n ∧ n ≤ 0
  | .other => False

/-- An entry that cannot be read, or comes to no host at all. -/
def Refused (numbers : Numbers) (len : Nat) (a : SerialItem) : Prop :=
  (∃ e, serialValue numbers len a = .error e) ∨ serialValue numbers len a = .ok 0

section Entries
variable {numbers : Numbers} {len : Nat} {serial : List SerialItem}

theorem convertItem_cases (numbers : Numbers) (len : Nat) (a : SerialItem) :
    (∃ e, convertItem numbers len a = .error e) ∧ Refused numbers len a ∨
      ∃ n, convertItem numbers len a = .ok n ∧ serialValue numbers len a = .ok n ∧ n ≠ 0 := by
  unfold convertItem Refused
  cases value : serialValue numbers len a with
  | error e => exact .inl ⟨⟨e, rfl⟩, .inl ⟨e, rfl⟩⟩
  | ok n =>
    by_cases zero : n = 0
    · exact .inl ⟨⟨.zero a, if_pos zero⟩, .inr (by rw [zero])⟩
    · exact .inr ⟨n, if_neg zero, rfl, zero⟩

theorem not_refused {a : SerialItem} {n : Int} (value : serialValue numbers len a = .ok n) (nonzero : n ≠ 0) :
    ¬ Refused numbers len a := by
  rintro (⟨e, error⟩ | zero)
  · rw [value] at error
    cases error
  · rw [value] at zero
    exact nonzero (Except.ok.inj zero)

/-- The conversion stops at the first entry that is refused, and else gives the value of each. -/
theorem convertSerial_cases (numbers : Numbers) (len : Nat) (serial : List SerialItem) :
    (∃ e, convertSerial numbers len serial = .error e) ∧ (∃ a ∈ serial, Refused numbers len a) ∨
      ∃ sis, convertSerial numbers len serial = .ok sis ∧ serial.map (serialValue numbers len) = sis.map .ok ∧
        (∀ v ∈ sis, v ≠ 0) ∧ ¬ ∃ a ∈ serial, Refused numbers len a := by
  induction serial with
  | nil => exact .inr ⟨[], rfl, rfl, by simp, by simp⟩
  | cons a serial ih =>
    obtain ⟨⟨e, error⟩, refused⟩ | ⟨n, item, value, nonzero⟩ := convertItem_cases numbers len a
    · exact .inl ⟨⟨e, by rw [convertSerial, error]; rfl⟩, a, List.mem_cons_self, refused⟩
    · obtain ⟨⟨e, error⟩, b, member, refused⟩ | ⟨sis, run, values, nonzeros, accepted⟩ := ih
      · exact .inl ⟨⟨e, by rw [convertSerial, item, error]; rfl⟩, b, .tail _ member, refused⟩
      · refine .inr ⟨n :: sis, by rw [convertSerial, item, run]; rfl, ?_, ?_, ?_⟩
        · rw [List.map_cons, List.map_cons, value, values]
        · exact List.forall_mem_cons.2 ⟨nonzero, nonzeros⟩
        · rintro ⟨b, member, refused⟩
          obtain rfl | later := List.mem_cons.1 member
          · exact not_refused value nonzero refused
          · exact accepted ⟨b, later, refused⟩

theorem toInt_isInt (numbers : Numbers) (x : Float64) : IsInt (Float64.toInt numbers.outOfRange x) := by
  cases x with
  | finite q =>
    rw [Float64.toInt]
    generalize (if 0 ≤ q then ⌊q⌋ else ⌈q⌉) = n
    split
    · next range => exact range
    · exact numbers.outOfRange_isInt _
  | inf negative => exact numbers.outOfRange_isInt _
  | nan => exact numbers.outOfRange_isInt _

theorem atoi_isInt {s : String} {n : Int} (read : KubeKey.Variable.atoi s = some n) : IsInt n := by
  have range := (Option.filter_eq_some_iff.1 read).2
  rwa [Bool.and_eq_true, decide_eq_true_eq, decide_eq_true_eq] at range

theorem serialValue_isInt {a : SerialItem} (ints : ∀ n, a = .int n → IsInt n) {n : Int}
    (value : serialValue numbers len a = .ok n) : IsInt n := by
  cases a with
  | int m =>
    cases value
    exact ints n rfl
  | str s =>
    rw [serialValue] at value
    split at value
    · split at value
      · cases value
        exact toInt_isInt numbers _
      · cases value
    · split at value
      · next m read =>
        cases value
        exact atoi_isInt read
      · cases value
  | other => cases value

end Entries

/-! ## The function -/

/-- One round of the loop that repeats the last value. -/
def extendSerialBody (missing : Int) (call : Float64 × List Int → Option (List Int)) (st : Float64 × List Int) :
    Option (List Int) :=
  if st.1.lt (extensionBound missing (lastValue st.2)) then call (st.1.add (.finite 1), st.2 ++ [lastValue st.2])
  else some st.2

theorem extendSerial_levels (missing : Int) :
    Levels (extendSerialBody missing) fun fuel st => extendSerial missing fuel st.1 st.2 where
  zero _ := rfl
  succ _ _ := rfl
  keeps x y keeps st r run := by
    unfold extendSerialBody at run ⊢
    split
    · next under =>
      rw [if_pos under] at run
      exact keeps _ r run
    · next ends => rwa [if_neg ends] at run

/-- `GroupHostBySerial` returns `result`, on any fuel that is enough. -/
def Returns (numbers : Numbers) (args : SerialArgs) (result : Grouping) : Prop :=
  ∃ enough, ∀ fuel ≥ enough, groupHostBySerial numbers args.hosts args.serial fuel = some result

section Function
variable {numbers : Numbers} {args : SerialArgs}

theorem groupHostsByCounts_more {hosts : List String} {sis : List Int} {fuel fuel' : Nat} (le : fuel ≤ fuel')
    {result : Grouping} (run : groupHostsByCounts hosts sis fuel = some result) :
    groupHostsByCounts hosts sis fuel' = some result := by
  unfold groupHostsByCounts at run ⊢
  dsimp only at run ⊢
  obtain ⟨extended, loop, same⟩ := Option.map_eq_some_iff.1 run
  refine Option.map_eq_some_iff.2 ⟨extended, ?_, same⟩
  split
  · next missing =>
    rw [if_pos missing] at loop
    exact (extendSerial_levels _).more (a := (.finite 0, sis)) le loop
  · next covered => rwa [if_neg covered] at loop

/-- What is asked of positive values: the hosts are cut into batches as they should be. -/
def BatchesHosts (numbers : Numbers) (args : SerialArgs) : Prop :=
  ∃ values result, args.serial.map (serialValue numbers args.hosts.length) = values.map .ok ∧
    Returns numbers args (.batches result) ∧ Batched args.hosts values result

/-- What is asked of a value that is not positive. -/
def Fails (numbers : Numbers) (args : SerialArgs) : Prop := ∃ e, Returns numbers args (.error e)

theorem groupHostBySerial_cases (numbers : Numbers) {args : SerialArgs} (given : args.serial ≠ []) :
    (∃ e, ∀ fuel, groupHostBySerial numbers args.hosts args.serial fuel = some (.error e)) ∧
        (∃ a ∈ args.serial, Refused numbers args.hosts.length a) ∨
      ∃ values, args.serial.map (serialValue numbers args.hosts.length) = values.map .ok ∧ values ≠ [] ∧
        (∀ v ∈ values, IsInt v ∧ v ≠ 0) ∧ (¬ ∃ a ∈ args.serial, Refused numbers args.hosts.length a) ∧
        ∀ fuel, groupHostBySerial numbers args.hosts args.serial fuel = groupHostsByCounts args.hosts values fuel := by
  have nonempty : args.serial.isEmpty = false := by simpa using given
  obtain ⟨⟨e, error⟩, refused⟩ | ⟨values, run, converted, nonzero, accepted⟩ :=
    convertSerial_cases numbers args.hosts.length args.serial
  · refine .inl ⟨⟨e, fun fuel => ?_⟩, refused⟩
    rw [groupHostBySerial, nonempty, if_neg (by simp), error]
  · refine .inr ⟨values, converted, ?_, fun v member => ⟨?_, nonzero v member⟩, accepted, fun fuel => ?_⟩
    · rintro rfl
      exact given (List.map_eq_nil_iff.1 converted)
    · have read : (.ok v : Except SerialErr Int) ∈ args.serial.map (serialValue numbers args.hosts.length) := by
        rw [converted]
        exact List.mem_map_of_mem member
      obtain ⟨a, entry, value⟩ := List.mem_map.1 read
      exact serialValue_isInt (fun n same => args.ints n (same ▸ entry)) value
    · rw [groupHostBySerial, nonempty, if_neg (by simp), run]

theorem map_ok_injective {xs ys : List Int} (same : xs.map (Except.ok : Int → Except SerialErr Int) = ys.map .ok) :
    xs = ys := List.map_injective_iff.2 (fun _ _ => Except.ok.inj) same

theorem batchesHosts_iff (given : args.serial ≠ []) : BatchesHosts numbers args ↔
    ∃ values, args.serial.map (serialValue numbers args.hosts.length) = values.map .ok ∧
      Fits args.hosts.length values := by
  obtain ⟨⟨e, error⟩, a, entry, refused⟩ | ⟨values, converted, some_value, ints, _, run⟩ :=
    groupHostBySerial_cases numbers given
  · constructor
    · rintro ⟨values, result, _, ⟨enough, returns⟩, _⟩
      have other := returns enough le_rfl
      rw [error] at other
      cases other
    · rintro ⟨values, converted, fits⟩
      have member := List.mem_map_of_mem (f := serialValue numbers args.hosts.length) entry
      rw [converted] at member
      obtain ⟨n, inside, value⟩ := List.mem_map.1 member
      exact absurd refused (not_refused value.symm (fits.positive n inside).ne')
  · constructor
    · rintro ⟨values', result, converted', ⟨enough, returns⟩, batched⟩
      obtain rfl := map_ok_injective (converted'.symm.trans converted)
      have done := (run enough).symm.trans (returns enough le_rfl)
      exact ⟨values', converted, batched.fits args.length some_value ints done⟩
    · rintro ⟨values', converted', fits⟩
      obtain rfl := map_ok_injective (converted'.symm.trans converted)
      obtain ⟨result, fuel, done, batched⟩ := fits.batches args.length some_value
      exact ⟨values', result, converted, ⟨fuel, fun fuel' le => (run fuel').trans (groupHostsByCounts_more le done)⟩,
        batched⟩

theorem fails_iff (given : args.serial ≠ []) :
    Fails numbers args ↔ ∃ a ∈ args.serial, Refused numbers args.hosts.length a := by
  obtain ⟨⟨e, error⟩, refused⟩ | ⟨values, _, _, _, accepted, run⟩ :=
    groupHostBySerial_cases numbers given
  · exact ⟨fun _ => refused, fun _ => ⟨e, 0, fun fuel _ => error fuel⟩⟩
  · constructor
    · rintro ⟨e, enough, returns⟩
      have done := (run enough).symm.trans (returns enough le_rfl)
      rw [groupHostsByCounts] at done
      obtain ⟨sis, _, other⟩ := Option.map_eq_some_iff.1 done
      cases cut : cutHosts args.hosts sis 0 0 <;> rw [cut] at other <;> cases other
    · exact fun refused => absurd refused accepted

/-- Positive values cut the hosts into batches exactly if they fit, and a value that is not positive is an error
exactly if an entry is refused. -/
theorem groupHostBySerial_iff (numbers : Numbers) {args : SerialArgs} (given : args.serial ≠ []) :
    ((∀ a ∈ args.serial, IsPositive numbers a) → BatchesHosts numbers args) ∧
        ((∃ a ∈ args.serial, NotPositive numbers a) → Fails numbers args) ↔
      ((∀ a ∈ args.serial, IsPositive numbers a) → ∃ values,
        args.serial.map (serialValue numbers args.hosts.length) = values.map .ok ∧ Fits args.hosts.length values) ∧
      ((∃ a ∈ args.serial, NotPositive numbers a) → ∃ a ∈ args.serial, Refused numbers args.hosts.length a) :=
  and_congr (imp_congr_right fun _ => batchesHosts_iff given) (imp_congr_right fun _ => fails_iff given)

end Function

/-- A percentage is rounded up. -/
theorem serialValue_percent {numbers : Numbers} {len p : Nat} {s text : String} (read : percentage s = some text)
    (parsed : numbers.parseFloat text = some (.finite p)) (pos : 0 < len * p) (small : len * p < 2 ^ 53) :
    serialValue numbers len (.str s) = .ok ⌈((len * p : Nat) / (100 : Nat) : Rat)⌉ := by
  have len_pos : 0 < len := Nat.pos_of_mul_pos_right pos
  have p_pos : 0 < p := Nat.pos_of_mul_pos_left pos
  have len_le : len ≤ len * p := Nat.le_mul_of_pos_right _ p_pos
  obtain ⟨x, quotient, ceil, limit⟩ :=
    Float64.ceil_round_div (d := len * p) (l := 100) pos small (by omega) (by omega)
  have factor : Float64.ofInt len = .finite len := Float64.round_natCast (by omega)
  have hundred : Float64.ofInt 100 = .finite (100 : Nat) := Float64.round_natCast (n := 100) (by norm_num)
  have product : Float64.mul (.finite len) (.finite p) = .finite (len * p : Nat) := by
    have value := Float64.round_natCast small.le
    push_cast at value ⊢
    exact value
  have divided : Float64.div (.finite (len * p : Nat)) (.finite (100 : Nat)) = .finite x := by
    rw [Float64.div, if_neg (by norm_num), quotient]
  have upper : ⌈x⌉ ≤ 2 ^ 53 := Int.ceil_le.2 (by exact_mod_cast limit)
  have lower : 0 ≤ ⌈x⌉ := by
    rw [ceil]
    exact Int.ceil_nonneg (by positivity)
  have converted : Float64.toInt numbers.outOfRange (.finite ⌈x⌉) = ⌈x⌉ := by
    have nonneg : (0 : Rat) ≤ ⌈x⌉ := by exact_mod_cast lower
    rw [Float64.toInt, if_pos nonneg, Int.floor_intCast]
    exact if_pos ⟨by omega, by omega⟩
  rw [serialValue, read]
  dsimp only
  rw [parsed]
  dsimp only
  rw [factor, product, hundred, divided, Float64.ceil, converted, ceil]

/-- On this platform a float64 that is out of range is the least `int`. -/
def amd64 : Numbers where
  parseFloat := fun s => if s = "40" then some (.finite 40) else none
  outOfRange := fun _ => -2 ^ 63
  outOfRange_isInt := fun _ => by constructor <;> norm_num

/-- The second value of `serial` is a percentage of seven hosts. -/
def sevenHosts : SerialArgs where
  hosts := ["h1", "h2", "h3", "h4", "h5", "h6", "h7"]
  serial := [.int 1, .str "40%"]
  length := by decide
  ints := by simp [IsInt]

theorem sevenHosts_values : sevenHosts.serial.map (serialValue amd64 sevenHosts.hosts.length) = [1, 3].map .ok := by
  have read : percentage "40%" = some "40" := by decide
  have percent : serialValue amd64 7 (.str "40%") = .ok ⌈((7 * 40 : Nat) / (100 : Nat) : Rat)⌉ :=
    serialValue_percent (p := 40) read rfl (by decide) (by decide)
  have rounded : ⌈((7 * 40 : Nat) / (100 : Nat) : Rat)⌉ = 3 := by
    rw [Int.ceil_eq_iff]
    norm_num
  have entries : sevenHosts.serial.map (serialValue amd64 sevenHosts.hosts.length) =
      [.ok 1, serialValue amd64 7 (.str "40%")] := rfl
  rw [entries, percent, rounded]
  rfl

theorem groupHostBySerial_iff_sevenHosts : sevenHosts.serial ≠ [] ∧
    ((∀ a ∈ sevenHosts.serial, IsPositive amd64 a) → BatchesHosts amd64 sevenHosts) ∧
      ((∃ a ∈ sevenHosts.serial, NotPositive amd64 a) → Fails amd64 sevenHosts) := by
  have given : sevenHosts.serial ≠ [] := by simp [sevenHosts]
  have fits : Fits sevenHosts.hosts.length [1, 3] :=
    (fits_iff_of_length (by decide) (by decide)).2 ⟨by decide, .inr (by decide), by decide⟩
  refine ⟨given, (groupHostBySerial_iff amd64 given).2 ⟨fun _ => ⟨[1, 3], sevenHosts_values, fits⟩, ?_⟩⟩
  rintro ⟨a, entry, low⟩
  obtain rfl | rfl : a = .int 1 ∨ a = .str "40%" := by simpa [sevenHosts] using entry
  · cases (low : (1 : Int) ≤ 0)
  · obtain ⟨b, read, low⟩ := (low : ∃ b, amd64.parseFloat "40" = some b ∧ (b = .finite 0 ∨ b.lt (.finite 0) = true))
    cases read
    obtain zero | negative := low
    · cases zero
    · cases negative

/-- Three hosts, and a first value that takes all of them. -/
def threeHosts : SerialArgs where
  hosts := ["h1", "h2", "h3"]
  serial := [.int 3, .int 4]
  length := by decide
  ints := by simp [IsInt]

/-- The second batch is empty. -/
theorem threeHosts_not_batched : (∀ a ∈ threeHosts.serial, IsPositive amd64 a) ∧ ¬ BatchesHosts amd64 threeHosts := by
  constructor
  · simp [threeHosts, IsPositive]
  · rw [batchesHosts_iff (by simp [threeHosts])]
    rintro ⟨values, converted, fits⟩
    obtain rfl : [3, 4] = values := map_ok_injective converted
    obtain one | before := fits.last
    · cases one
    · exact absurd before (by decide)

end KubeKey.Converter
