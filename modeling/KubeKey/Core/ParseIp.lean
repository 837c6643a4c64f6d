import KubeKey.Utils.ParseIP

/-!
# Address ranges in 32 bits

`ParseIp` of `pkg/core/util/ip.go`, the older of the two functions that list the addresses of a
range or of a network. It counts in `int32`. Addresses from `128.0.0.0` on are negative numbers
there, so a range that begins before them and ends among them looks empty, and a range up to
`127.255.255.255` ends at the largest number, which no counter gets past. The addresses of a
network are counted with a position instead, which is right for all but the network of all
addresses.
-/

namespace KubeKey.Core.Util

open KubeKey.Go KubeKey.Go.BigEndian KubeKey.Go.NetIP KubeKey.Text.Strings KubeKey.Utils

/-! ## Numbers and addresses -/

/-- `ipToInt`; `none` is a panic. -/
def ipToInt (ip : IP) : Option Int32 := (to4 ip).map fun ip => (UInt32.ofNat (value ip)).toInt32

/-- `intToIP`. -/
def intToIP (n : Int32) : IP := fixed 4 n.toUInt32.toNat

/-- `networkSize`. -/
def networkSize (mask : List UInt8) : Int32 := (UInt32.ofNat (value ((mask.take 4).map (~~~·)))).toInt32 + 1

/-- `networkRange`; `none` is a panic. -/
def networkRange (network : IPNet) : Option (IP × IP) :=
  (to4 network.ip).bind fun netIP =>
    let firstIP := (maskIP netIP network.mask).getD []
    if network.mask.length < 4 then none else some (firstIP, orMask netIP network.mask)

/-- `IPMaskStringToCIDR`; `none` is a panic. -/
def iPMaskStringToCIDR (netmask : List Char) : Option (List Char) :=
  let mint := (netmask.splitOn '.').map atoi
  if mint.length < 4 then none else some (decimal (maskSize ((mint.take 4).map UInt8.ofInt)))

/-- `IPAddressToCIDR`; `none` is a panic. -/
def iPAddressToCIDR (ipAddress : List Char) : Option (List Char) :=
  if '/' ∈ ipAddress then
    let mask := before '/' (after '/' ipAddress)
    (if '.' ∈ mask then iPMaskStringToCIDR mask else some mask).map fun mask => before '/' ipAddress ++ '/' :: mask
  else some ipAddress

/-! ## Addresses -/

/-- The loop of `GetAvailableIPRange`, as many rounds of it at most: `none` if it has not ended by then. -/
def countTo (endIPNum : Int32) : Nat → Int32 → Option (List (List Char))
  | 0, _ => none
  | rounds + 1, newNum =>
    if newNum ≤ endIPNum then (countTo endIPNum rounds (newNum + 1)).map (string (intToIP newNum) :: ·) else some []

/-- `GetAvailableIPRange` with so many rounds of its loop. -/
def getAvailableIPRange (rounds : Nat) (ipStart ipEnd : List Char) : Option (List (List Char)) :=
  match (NetIP.parseIP ipStart).bind to4, (NetIP.parseIP ipEnd).bind to4 with
  | some firstIP, some endIP =>
    (ipToInt firstIP).bind fun firstIPNum => (ipToInt endIP).bind fun endIPNum => countTo endIPNum rounds firstIPNum
  | _, _ => some []

theorem toInt_next {attempt max : Int32} (more : attempt < max) : (attempt + 1).toInt = attempt.toInt + 1 := by
  have below := Int32.lt_iff_toInt_lt.1 more
  have large := Int32.toInt_lt max
  have small := Int32.le_toInt attempt
  rw [Int32.toInt_add, show (1 : Int32).toInt = 1 from rfl, Int.bmod_eq_of_le (by omega) (by omega)]

/-- The loop of `GetAvailableIP`. -/
def attempts (ipNum max attempt pos : Int32) : List (List Char) :=
  if more : attempt < max then
    let newNum := ipNum + pos
    string (intToIP newNum) :: attempts ipNum max (attempt + 1) (pos % max + 1)
  else []
termination_by (max.toInt - attempt.toInt).toNat
decreasing_by
  have below := Int32.lt_iff_toInt_lt.1 more
  rw [toInt_next more]
  omega

/-- `GetAvailableIP`; `none` is a panic, as of a network that is not parsed. -/
def getAvailableIP (ipAndMask : List Char) : Option (List (List Char)) :=
  (iPAddressToCIDR (trimSpace ipAndMask)).bind fun ipAndMask =>
    (parseCIDR ipAndMask).bind fun ipnet =>
      (networkRange ipnet).bind fun range =>
        (ipToInt range.1).map fun ipNum => attempts ipNum (networkSize ipnet.mask - 2) 0 1

/-- `ParseIp` with so many rounds of a range's loop. -/
def parseIp (rounds : Nat) (ip : List Char) : Option (List (List Char)) :=
  let ip := trimRight '/' ip
  if '/' ∈ ip then
    if contains "/32".toList ip then some [removeAll "/32".toList ip] else getAvailableIP ip
  else if '-' ∈ ip then getAvailableIPRange rounds (before '-' ip) (after '-' ip)
  else some [ip]

/-- `ParseIp` comes back with a list. -/
def Returns (ip : List Char) (ips : List (List Char)) : Prop := ∃ rounds, parseIp rounds ip = some ips

/-! ## Signed numbers -/

theorem toInt_ofNat {v : Nat} (small : v < 2 ^ 32) :
    (Int32.ofNat v).toInt = if v < 2 ^ 31 then (v : Int) else v - 2 ^ 32 := by
  rw [Int32.toInt_ofNat', show Int32.size = 2 ^ 32 from rfl, Int.bmod]
  split <;> split <;> omega

theorem intToIP_ofNat {v : Nat} (small : v < 2 ^ 32) : intToIP (Int32.ofNat v) = fixed 4 v := by
  have same : (Int32.ofNat v).toUInt32.toNat = v % 2 ^ 32 := rfl
  rw [intToIP, same, Nat.mod_eq_of_lt small]

theorem ipToInt_four {ip : IP} (four : ip.length = 4) : ipToInt ip = some (Int32.ofNat (value ip)) := by
  rw [ipToInt, to4_four four]
  rfl

theorem ofNat_succ (v : Nat) : Int32.ofNat v + 1 = Int32.ofNat (v + 1) := (Int32.ofNat_add v 1).symm

/-- The texts of the addresses with so many numbers, as the counters have them. -/
theorem map_intToIP {first count : Nat} (small : first + count ≤ 2 ^ 32) :
    (List.range' first count).map (fun n => string (intToIP (Int32.ofNat n))) = addresses 4 first count := by
  rw [addresses]
  refine List.map_congr_left fun n member => ?_
  rw [List.mem_range'_1] at member
  rw [intToIP_ofNat (by omega)]

/-! ## Ranges -/

section Range
variable {endIPNum : Int32}

/-- The counter never gets past the largest number. -/
theorem countTo_largest (largest : endIPNum.toInt = 2 ^ 31 - 1) : ∀ (rounds : Nat) (newNum : Int32),
    countTo endIPNum rounds newNum = none
  | 0, _ => rfl
  | rounds + 1, newNum => by
    have below : newNum ≤ endIPNum := by
      have limit := Int32.toInt_lt newNum
      rw [Int32.le_iff_toInt_le]
      omega
    rw [countTo, if_pos below, countTo_largest largest rounds, Option.map_none]

/-- Before it, the loop takes one round for each number up to the last, and one more. -/
theorem countTo_eq (smaller : endIPNum.toInt < 2 ^ 31 - 1) : ∀ rounds v : Nat,
    countTo endIPNum rounds (Int32.ofNat v) =
      if (endIPNum.toInt + 1 - (Int32.ofNat v).toInt).toNat < rounds then
        some ((List.range' v (endIPNum.toInt + 1 - (Int32.ofNat v).toInt).toNat).map fun n =>
          string (intToIP (Int32.ofNat n)))
      else none
  | 0, v => by rw [countTo, if_neg (Nat.not_lt_zero _)]
  | rounds + 1, v => by
    rw [countTo]
    by_cases more : Int32.ofNat v ≤ endIPNum
    · have here := Int32.le_iff_toInt_le.1 more
      have least := Int32.le_toInt (Int32.ofNat v)
      have next : (Int32.ofNat (v + 1)).toInt = (Int32.ofNat v).toInt + 1 := by
        rw [← ofNat_succ, Int32.toInt_add, show (1 : Int32).toInt = 1 from rfl, Int.bmod_eq_of_le (by omega) (by omega)]
      obtain ⟨count, counted⟩ : ∃ count : Nat, (endIPNum.toInt + 1 - (Int32.ofNat v).toInt).toNat = count + 1 :=
        ⟨(endIPNum.toInt - (Int32.ofNat v).toInt).toNat, by omega⟩
      have fewer : (endIPNum.toInt + 1 - (Int32.ofNat (v + 1)).toInt).toNat = count := by
        rw [next]
        omega
      rw [if_pos more, ofNat_succ, countTo_eq smaller rounds (v + 1), fewer, counted, List.range'_succ, List.map_cons]
      by_cases enough : count < rounds
      · rw [if_pos enough, if_pos (by omega), Option.map_some]
      · rw [if_neg enough, if_neg (by omega), Option.map_none]
    · have done : (endIPNum.toInt + 1 - (Int32.ofNat v).toInt).toNat = 0 := by
        rw [Int32.le_iff_toInt_le] at more
        omega
      rw [if_neg more, done, if_pos (Nat.succ_pos rounds)]
      rfl

/-- Two addresses on one side of `128.0.0.0`, the last of them not the one before it. -/
def OneSided (first last : Nat) : Prop := (first < 2 ^ 31 ↔ last < 2 ^ 31) ∧ last ≠ 2 ^ 31 - 1

theorem countTo_exact_iff {v w : Nat} (smallV : v < 2 ^ 32) (smallW : w < 2 ^ 32) :
    (∃ rounds, countTo (Int32.ofNat w) rounds (Int32.ofNat v) = some (addresses 4 v (w + 1 - v))) ↔ OneSided v w := by
  have signV := toInt_ofNat smallV
  have signW := toInt_ofNat smallW
  unfold OneSided
  by_cases largest : w = 2 ^ 31 - 1
  · refine iff_of_false ?_ fun both => both.2 largest
    rintro ⟨rounds, run⟩
    rw [countTo_largest (by rw [signW, if_pos (by omega)]; omega)] at run
    cases run
  · have smaller : (Int32.ofNat w).toInt < 2 ^ 31 - 1 := by
      rw [signW]
      split <;> omega
    constructor
    · rintro ⟨rounds, run⟩
      rw [countTo_eq smaller] at run
      split at run
      · have lengths := congrArg List.length (Option.some.inj run)
        rw [List.length_map, List.length_range', length_addresses, signV, signW] at lengths
        refine ⟨?_, largest⟩
        split at lengths <;> split at lengths <;> omega
      · cases run
    · rintro ⟨sides, -⟩
      refine ⟨(w + 1 - v) + 1, ?_⟩
      have counted : ((Int32.ofNat w).toInt + 1 - (Int32.ofNat v).toInt).toNat = w + 1 - v := by
        rw [signV, signW]
        split <;> split <;> omega
      rw [countTo_eq smaller, counted, if_pos (Nat.lt_succ_self _)]
      by_cases empty : w < v
      · rw [show w + 1 - v = 0 by omega]
        rfl
      · rw [map_intToIP (by omega)]

end Range

/-! ## Networks -/

section Network

/-- The position goes from one on, as the attempts do from zero on. -/
theorem attempts_from {ipNum : Nat} {max : Int32} : ∀ (left attempt : Nat) (pos : Int32),
    (attempt + left : Int) = max.toInt → (0 < left → pos = Int32.ofNat (attempt + 1)) →
      attempts (Int32.ofNat ipNum) max (Int32.ofNat attempt) pos =
        (List.range' (ipNum + (attempt + 1)) left).map fun n => string (intToIP (Int32.ofNat n))
  | 0, attempt, pos, whole, _ => by
    have limit := Int32.toInt_lt max
    have done : ¬ Int32.ofNat attempt < max := by
      rw [Int32.lt_iff_toInt_lt, Int32.toInt_ofNat_of_lt (by omega)]
      omega
    rw [attempts, dif_neg done]
    rfl
  | left + 1, attempt, pos, whole, at_ => by
    have limit := Int32.toInt_lt max
    have signed : (Int32.ofNat attempt).toInt = attempt := Int32.toInt_ofNat_of_lt (by omega)
    have signed' : (Int32.ofNat (attempt + 1)).toInt = attempt + 1 := Int32.toInt_ofNat_of_lt (by omega)
    have more : Int32.ofNat attempt < max := by
      rw [Int32.lt_iff_toInt_lt, signed]
      omega
    have next : 0 < left → pos % max + 1 = Int32.ofNat (attempt + 1 + 1) := by
      intro further
      have inside : Int32.ofNat (attempt + 1) % max = Int32.ofNat (attempt + 1) := by
        have below : ((attempt : Int) + 1).tmod max.toInt = attempt + 1 := Int.tmod_eq_of_lt (by omega) (by omega)
        rw [← Int32.toInt_inj, Int32.toInt_mod, signed', below]
      rw [at_ (Nat.succ_pos left), inside, ofNat_succ]
    have whole' : ((attempt + 1 : Nat) : Int) + left = max.toInt := by omega
    have rest := @attempts_from ipNum max left (attempt + 1) (pos % max + 1) whole' next
    rw [attempts, dif_pos more]
    dsimp only
    rw [ofNat_succ, rest, at_ (Nat.succ_pos left), ← Int32.ofNat_add, List.range'_succ, List.map_cons,
      Nat.add_assoc ipNum (attempt + 1) 1]

theorem attempts_eq (ipNum : Nat) (max : Int32) :
    attempts (Int32.ofNat ipNum) max 0 1 =
      (List.range' (ipNum + 1) max.toInt.toNat).map fun n => string (intToIP (Int32.ofNat n)) := by
  by_cases some_ : 0 ≤ max.toInt
  · exact attempts_from max.toInt.toNat 0 1 (by omega) fun _ => rfl
  · have done : ¬ (0 : Int32) < max := by
      rw [Int32.lt_iff_toInt_lt, show (0 : Int32).toInt = 0 from rfl]
      omega
    rw [attempts, dif_neg done, show max.toInt.toNat = 0 by omega]
    rfl

/-- The number of attempts of a network: no address for its first and for its last. -/
theorem networkSize_leadingOnes {ones : Nat} (few : ones ≤ 32) :
    (networkSize (leadingOnes ones 4) - 2).toInt.toNat = if ones = 0 then 0 else 2 ^ (32 - ones) - 2 := by
  have all : ∀ ones : Fin 33, (networkSize (leadingOnes ones 4) - 2).toInt.toNat =
      if ones.val = 0 then 0 else 2 ^ (32 - ones.val) - 2 := by decide +kernel
  exact all ⟨ones, by omega⟩

theorem iPMaskStringToCIDR_leadingOnes {ones : Nat} (few : ones ≤ 32) :
    iPMaskStringToCIDR (string4 (leadingOnes ones 4)) = some (Utils.iPMaskStringToCIDR (string4 (leadingOnes ones 4))) ∧
      ['3', '2'].isPrefixOf (string4 (leadingOnes ones 4)) = false := by
  have all : ∀ ones : Fin 33, iPMaskStringToCIDR (string4 (leadingOnes ones 4)) =
      some (Utils.iPMaskStringToCIDR (string4 (leadingOnes ones 4))) ∧
        ['3', '2'].isPrefixOf (string4 (leadingOnes ones 4)) = false := by decide +kernel
  exact all ⟨ones, by omega⟩

theorem dtoiFrom_le : ∀ {s : List Char} {n m : Nat}, dtoiFrom n s = some m → n ≤ m ∧ (s ≠ [] → n * 10 ≤ m)
  | [], n, m, run => by
    cases run
    exact ⟨Nat.le_refl n, fun absurd_ => absurd rfl absurd_⟩
  | c :: cs, n, m, run => by
    rw [dtoiFrom] at run
    split at run
    · dsimp only at run
      split at run
      · cases run
      · have rest := (dtoiFrom_le run).1
        exact ⟨by omega, fun _ => by omega⟩
    · cases run

/-- A prefix of an address begins with `32` only if it is 32. -/
theorem eq_of_isPrefixOf {m : List Char} {ones : Nat} (number : dtoi m = some ones) (few : ones ≤ 32)
    (begins : ['3', '2'].isPrefixOf m = true) : m = ['3', '2'] := by
  obtain ⟨rest, rfl⟩ := List.isPrefixOf_iff_prefix.1 begins
  have read : dtoiFrom 32 rest = some ones := number
  by_contra more
  have large := (dtoiFrom_le read).2 fun empty => more (by rw [empty]; rfl)
  omega

variable {a m : List Char} {p : IP} {ones : Nat}

theorem getAvailableIP_network (address : parseAddr a = some (.v4 p))
    (mask : dtoi m = some ones ∨ m = string4 (leadingOnes ones 4)) (few : ones ≤ 32) :
    getAvailableIP (a ++ '/' :: m) = some (addresses 4 (network (32 - ones) (value p) + 1)
      (if ones = 0 then 0 else 2 ^ (32 - ones) - 2)) := by
  obtain ⟨-, plain_, -, number⟩ := mask_reads mask few
  have four := four_bytes address
  have noSlash := not_plain_mem address (c := '/') (by decide)
  have noSlash' : '/' ∉ m := fun inside => absurd (plain_ '/' inside) (by decide)
  have trimmed := trimSpace_cidr address plain_
  have cidr : iPAddressToCIDR (a ++ '/' :: m) =
      some (a ++ '/' :: (if '.' ∈ m then Utils.iPMaskStringToCIDR m else m)) := by
    unfold iPAddressToCIDR
    dsimp only
    rw [if_pos (by simp), before_append noSlash, after_append noSlash, before_of_not_mem noSlash']
    rcases mask with digits | rfl
    · have noDot : '.' ∉ m := fun inside => absurd ((dtoi_digits digits).2 '.' inside) (by decide)
      rw [if_neg noDot, if_neg noDot, Option.map_some]
    · have dot := (Utils.iPMaskStringToCIDR_leadingOnes few).1
      rw [if_pos dot, if_pos dot, (iPMaskStringToCIDR_leadingOnes few).1, Option.map_some]
  have sameLength : (andMask p (leadingOnes ones 4)).length = 4 := by simp [andMask, four]
  have range : networkRange ⟨andMask p (leadingOnes ones 4), leadingOnes ones 4⟩ =
      some (andMask p (leadingOnes ones 4), orMask (andMask p (leadingOnes ones 4)) (leadingOnes ones 4)) := by
    unfold networkRange
    dsimp only
    rw [to4_four sameLength, Option.bind_some, if_neg (by simp), maskIP_same (by simp [sameLength]), andMask_andMask,
      Option.getD_some]
  have low := (value_mask p ones (by omega)).1
  rw [four, show 8 * 4 = 32 from rfl] at low
  have small := value_lt p
  rw [four] at small
  have room := network_add_le (v := value p) (show 32 - ones ≤ 32 by omega) (by omega)
  have least : 0 < 2 ^ (32 - ones) := by positivity
  have parsed := parseCIDR_append address number few
  simp only [Addr.bytes, four] at parsed
  rw [getAvailableIP, trimmed, cidr, Option.bind_some, parsed, Option.bind_some, range, Option.bind_some,
    ipToInt_four sameLength, Option.map_some, attempts_eq, networkSize_leadingOnes few, low]
  refine congrArg some (map_intToIP ?_)
  rw [network] at room
  split <;> omega

theorem parseIp_network (rounds : Nat) (address : parseAddr a = some (.v4 p))
    (mask : dtoi m = some ones ∨ m = string4 (leadingOnes ones 4)) (few : ones ≤ 32) :
    parseIp rounds (a ++ '/' :: m) = if m = ['3', '2'] then some [a] else getAvailableIP (a ++ '/' :: m) := by
  obtain ⟨some_, plain_, -, number⟩ := mask_reads mask few
  have noSlash := not_plain_mem address (c := '/') (by decide)
  have noSlash' : '/' ∉ m := fun inside => absurd (plain_ '/' inside) (by decide)
  have trimmed : trimRight '/' (a ++ '/' :: m) = a ++ '/' :: m := by
    have cut := trimRight_append (a := a ++ ['/']) some_ noSlash'
    simpa using cut
  have single : contains "/32".toList (a ++ '/' :: m) = true ↔ m = ['3', '2'] := by
    have found : contains "/32".toList (a ++ '/' :: m) = true ↔ ['3', '2'].isPrefixOf m = true :=
      contains_iff noSlash' noSlash
    rw [found]
    constructor
    · intro begins
      rcases mask with digits | rfl
      · exact eq_of_isPrefixOf digits few begins
      · rw [(iPMaskStringToCIDR_leadingOnes few).2] at begins
        cases begins
    · rintro rfl
      rfl
  unfold parseIp
  dsimp only
  rw [trimmed, if_pos (by simp)]
  simp only [single]
  split
  · next short =>
    subst short
    rw [show "/32".toList = '/' :: ['3', '2'] from rfl, removeAll_append noSlash]
  · rfl

end Network

/-! ## All texts of IPv4 addresses -/

/-- A text of an IPv4 prefix, or of its mask. -/
structure Prefix where
  text : List Char
  ones : Nat
  parsed : dtoi text = some ones ∨ text = string4 (leadingOnes ones 4)
  few : ones ≤ 32

/-- What `ParseIp` is given: two addresses, or an address of a network. -/
inductive Input where
  | range (a b : Text4)
  | network (a : Text4) (m : Prefix)

namespace Input

def text : Input → List Char
  | range a b => a.text ++ '-' :: b.text
  | network a m => a.text ++ '/' :: m.text

/-- The loop ends with all the addresses, in their order. -/
def Exact : Input → Prop
  | range a b =>
    value a.bytes ≤ value b.bytes → ∃ rounds, getAvailableIPRange rounds a.text b.text =
      some (addresses 4 (value a.bytes) (value b.bytes + 1 - value a.bytes))
  | network a m =>
    1 ≤ m.ones → m.ones ≤ 30 → getAvailableIP (a.text ++ '/' :: m.text) =
      some (addresses 4 (Utils.network (32 - m.ones) (value a.bytes) + 1) (2 ^ (32 - m.ones) - 2))

/-- No signed number is compared or counted over the end of the 32 bits. -/
def Signed : Input → Prop
  | range a b => OneSided (value a.bytes) (value b.bytes)
  | network _ m => m.ones ≠ 0

end Input

theorem getAvailableIPRange_text4 (rounds : Nat) (a b : Text4) : getAvailableIPRange rounds a.text b.text =
    countTo (Int32.ofNat (value b.bytes)) rounds (Int32.ofNat (value a.bytes)) := by
  have fourA := four_bytes a.parsed
  have fourB := four_bytes b.parsed
  simp only [getAvailableIPRange, NetIP.parseIP, a.parsed, b.parsed, Option.map_some, Option.bind_some, Addr.as16,
    to4_as16_v4 fourA, to4_as16_v4 fourB, ipToInt_four fourA, ipToInt_four fourB]

theorem parseIp_text4 (rounds : Nat) (a b : Text4) :
    parseIp rounds (a.text ++ '-' :: b.text) = getAvailableIPRange rounds a.text b.text := by
  obtain ⟨trimmed, noSlash, dash, first, second⟩ := range_parts a.parsed b.parsed
  unfold parseIp
  dsimp only
  rw [trimmed, if_neg noSlash, if_pos dash, first, second]

/-- The counting is exact, and the two functions list the same, exactly for a range on one side of `128.0.0.0` that
does not end right before it, and for every network but that of all addresses. -/
theorem parseIp_exact_iff (i : Input) : i.Exact ∧ Returns i.text (Utils.parseIP i.text) ↔ i.Signed := by
  cases i with
  | range a b =>
    have small : ∀ t : Text4, value t.bytes < 2 ^ 32 := by
      intro t
      have limit := value_lt t.bytes
      rw [four_bytes t.parsed] at limit
      omega
    have counted := countTo_exact_iff (small a) (small b)
    have lists : Returns (Input.range a b).text (Utils.parseIP (Input.range a b).text) ↔
        OneSided (value a.bytes) (value b.bytes) := by
      rw [← counted, Input.text, parseIP_range4 a.parsed b.parsed, Returns]
      simp only [parseIp_text4, getAvailableIPRange_text4]
    rw [lists]
    refine and_iff_right_of_imp fun sides _ => ?_
    simp only [getAvailableIPRange_text4]
    exact counted.2 sides
  | network a m =>
    have exact_ : (Input.network a m).Exact := by
      intro some_ _
      rw [getAvailableIP_network a.parsed m.parsed m.few, if_neg (by omega)]
    rw [and_iff_right exact_, Input.text, parseIP_network a.parsed m.parsed m.few, Returns, Input.Signed]
    simp only [parseIp_network _ a.parsed m.parsed m.few, getAvailableIP_network a.parsed m.parsed m.few]
    by_cases single : m.text = ['3', '2']
    · rw [if_pos single, if_pos single]
      refine iff_of_true ⟨0, rfl⟩ ?_
      intro none_
      obtain ⟨-, -, -, number⟩ := mask_reads m.parsed m.few
      have known : dtoi (if '.' ∈ ['3', '2'] then Utils.iPMaskStringToCIDR ['3', '2'] else ['3', '2']) = some 32 := by
        decide
      rw [single, known, Option.some.injEq] at number
      omega
    · rw [if_neg single, if_neg single]
      constructor
      · rintro ⟨-, same⟩ none_
        have lengths := congrArg List.length (Option.some.inj same)
        rw [length_addresses, length_addresses, if_pos none_, none_] at lengths
        omega
      · intro some_
        rw [if_neg some_]
        exact ⟨0, rfl⟩

/-- A range over the middle of the addresses looks empty. -/
theorem parseIp_middle : ∃ i : Input, i.text = "127.255.255.255-128.0.0.0".toList ∧
    parseIp 1 i.text = some [] ∧ Utils.parseIP i.text = ["127.255.255.255".toList, "128.0.0.0".toList] ∧
      ¬ i.Exact := by
  refine ⟨.range ⟨"127.255.255.255".toList, [127, 255, 255, 255], by decide +kernel⟩
    ⟨"128.0.0.0".toList, [128, 0, 0, 0], by decide +kernel⟩, rfl, by decide +kernel, ?_, ?_⟩
  · show Utils.parseIP ("127.255.255.255".toList ++ '-' :: "128.0.0.0".toList) = _
    rw [@parseIP_range4 "127.255.255.255".toList "128.0.0.0".toList [127, 255, 255, 255] [128, 0, 0, 0]
      (by decide +kernel) (by decide +kernel)]
    decide +kernel
  · intro exact_
    obtain ⟨rounds, run⟩ := exact_ (by decide)
    cases rounds with
    | zero => revert run; decide +kernel
    | succ rounds => cases run

end KubeKey.Core.Util
