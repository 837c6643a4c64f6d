import KubeKey.Go.NetIP
import KubeKey.Text.Strings

/-!
# Address ranges

`ParseIP` of `pkg/utils/ip.go`: the addresses of a range, of a network or of a single address,
as texts. A loop counts through big integers and turns each into the bytes of an address. For
four bytes the integer is padded with zeros. For sixteen bytes the padding is made with
capacity and no length, so an integer that needs fewer bytes keeps them, and its text is not
that of an address.
-/

namespace KubeKey.Utils

open KubeKey.Go KubeKey.Go.BigEndian KubeKey.Go.NetIP KubeKey.Text.Strings

/-! ## Numbers and addresses -/

/-- `ip4ToInt`. -/
def ip4ToInt (ip : IP) : Nat := (to4 ip).elim 0 value

/-- `intToIP4`. -/
def intToIP4 (n : Nat) : IP :=
  let maxIPv4 := 0xFFFFFFFF
  let b := minimal (if maxIPv4 < n then maxIPv4 else n)
  if b.length < 4 then List.replicate (4 - b.length) 0 ++ b
  else if 4 < b.length then b.drop (b.length - 4)
  else b

/-- `ip6ToInt`. -/
def ip6ToInt (ip : IP) : Nat := (to16 ip).elim 0 value

/-- `intToIP6`. -/
def intToIP6 (n : Nat) : IP :=
  let b := minimal n
  if b.length < 16 then
    -- `make([]byte, 0, 16-len(b))` has no bytes
    let pad : List UInt8 := []
    pad ++ b
  else b

/-- The numbers from `first` on below `stop`: a loop up to and with `last` stops at `last + 1`. -/
def upTo (first stop : Nat) : List Nat :=
  if first < stop then first :: upTo (first + 1) stop else []
termination_by stop - first

/-- The first and last address of a network (`networkRange`). -/
def networkRange (network : IPNet) : Option (IP × IP) :=
  if network.ip = [] ∨ network.mask = [] then none
  else
    let netIP := if network.ip.length = 4 then to4 network.ip else if network.ip.length = 16 then to16 network.ip
      else some network.ip
    netIP.map fun netIP =>
      let masked := (maskIP netIP network.mask).getD []
      -- `copy` into as many bytes as the address has
      let startIP := masked.take netIP.length ++ List.replicate (netIP.length - masked.length) 0
      (startIP, orMask startIP network.mask)

/-- `iPMaskStringToCIDR`. -/
def iPMaskStringToCIDR (netmask : List Char) : List Char :=
  let parts := netmask.splitOn '.'
  if parts.length ≠ 4 then ['0']
  else decimal (maskSize (parts.map fun part => UInt8.ofInt (atoi part)))

/-- `iPAddressToCIDR`. -/
def iPAddressToCIDR (ipAddress : List Char) : List Char :=
  if '/' ∈ ipAddress then
    let mask := before '/' (after '/' ipAddress)
    before '/' ipAddress ++ '/' :: (if '.' ∈ mask then iPMaskStringToCIDR mask else mask)
  else ipAddress

/-! ## Addresses -/

/-- `getAvailableIPRange`. -/
def getAvailableIPRange (ipStart ipEnd : List Char) : List (List Char) :=
  match NetIP.parseIP ipStart, NetIP.parseIP ipEnd with
  | some startIP, some endIP =>
    match to4 startIP, to4 endIP with
    | some startIP, some endIP =>
      (upTo (ip4ToInt startIP) (ip4ToInt endIP + 1)).map fun ipNum => string (intToIP4 ipNum)
    | _, _ =>
      match to16 startIP, to16 endIP with
      | some startIP, some endIP =>
        (upTo (ip6ToInt startIP) (ip6ToInt endIP + 1)).map fun ipNum => string (intToIP6 ipNum)
      | _, _ => []
  | _, _ => []

/-- `getAvailableIP`. -/
def getAvailableIP (ipAndMask : List Char) : List (List Char) :=
  match (parseCIDR (iPAddressToCIDR (trimSpace ipAndMask))).bind networkRange with
  | none => []
  | some (firstIP, lastIP) =>
    if (to4 firstIP).isSome then
      -- without the network and the broadcast address
      (upTo (ip4ToInt firstIP + 1) (ip4ToInt lastIP)).map fun ipNum => string (intToIP4 ipNum)
    else if (to16 firstIP).isSome then
      (upTo (ip6ToInt firstIP) (ip6ToInt lastIP + 1)).map fun ipNum => string (intToIP6 ipNum)
    else []

/-- `ParseIP`. -/
def parseIP (ip : List Char) : List (List Char) :=
  let ip := trimRight '/' ip
  if '/' ∈ ip then
    if hasSuffix ip "/32".toList || hasSuffix ip "/128".toList then [before '/' ip] else getAvailableIP ip
  else if '-' ∈ ip then getAvailableIPRange (before '-' ip) (after '-' ip)
  else [ip]

/-! ## The texts of many addresses -/

/-- The canonical texts of the addresses of so many bytes with the numbers from `first` on. -/
def addresses (bytes first count : Nat) : List (List Char) :=
  (List.range' first count).map fun n => string (fixed bytes n)

theorem upTo_eq (first stop : Nat) : upTo first stop = List.range' first (stop - first) := by
  induction first using upTo.induct stop with
  | case1 first before ih =>
    rw [upTo, if_pos before, ih, show stop - first = stop - (first + 1) + 1 by omega, List.range'_succ]
  | case2 first done => rw [upTo, if_neg done, show stop - first = 0 by omega, List.range'_zero]

theorem intToIP4_eq {n : Nat} (small : n < 256 ^ 4) : intToIP4 n = fixed 4 n := by
  have short := (length_minimal_le_iff 4 n).2 small
  have padded := pad_minimal small
  have clamp : (if 0xFFFFFFFF < n then 0xFFFFFFFF else n) = n := if_neg (by omega)
  unfold intToIP4
  dsimp only
  rw [clamp]
  split
  · exact padded
  · rw [if_neg (by omega)]
    rw [show 4 - (minimal n).length = 0 by omega] at padded
    exact padded

/-- Counting with four bytes gives addresses. -/
theorem map_intToIP4 {first stop : Nat} (small : stop ≤ 256 ^ 4) :
    (upTo first stop).map (fun n => string (intToIP4 n)) = addresses 4 first (stop - first) := by
  rw [upTo_eq, addresses]
  refine List.map_congr_left fun n member => ?_
  rw [intToIP4_eq (by rw [List.mem_range'_1] at member; omega)]

section Range
variable {a b : List Char} {x y : Addr}

theorem parseAddr_ne_nil (parsed : parseAddr a = some x) : a ≠ [] := by
  rintro rfl
  cases parsed

theorem not_plain_mem {c : Char} (parsed : parseAddr a = some x) (other : plain c = false) : c ∉ a := fun inside => by
  rw [(parseAddr_accepts parsed).2 c inside] at other
  cases other

theorem four_bytes {p : IP} (parsed : parseAddr a = some (.v4 p)) : p.length = 4 := by
  have whole := (parseAddr_accepts parsed).1
  simp only [Addr.bytes, Addr.bitLen] at whole
  omega

theorem sixteen_bytes {p : IP} (parsed : parseAddr a = some (.v6 p)) : p.length = 16 := by
  have whole := (parseAddr_accepts parsed).1
  simp only [Addr.bytes, Addr.bitLen] at whole
  omega

/-- A range comes apart at its dash. -/
theorem range_parts (from_ : parseAddr a = some x) (to_ : parseAddr b = some y) :
    trimRight '/' (a ++ '-' :: b) = a ++ '-' :: b ∧ '/' ∉ a ++ '-' :: b ∧ '-' ∈ a ++ '-' :: b ∧
      before '-' (a ++ '-' :: b) = a ∧ after '-' (a ++ '-' :: b) = b := by
  have noDash := not_plain_mem from_ (c := '-') (by decide)
  refine ⟨?_, ?_, by simp, before_append noDash, after_append noDash⟩
  · have cut := trimRight_append (a := a ++ ['-']) (parseAddr_ne_nil to_) (not_plain_mem to_ (c := '/') (by decide))
    simpa using cut
  · have left := not_plain_mem from_ (c := '/') (by decide)
    have right := not_plain_mem to_ (c := '/') (by decide)
    simp [left, right]

theorem parseIP_range (from_ : parseAddr a = some x) (to_ : parseAddr b = some y) :
    parseIP (a ++ '-' :: b) = getAvailableIPRange a b := by
  obtain ⟨trimmed, noSlash, dash, first, second⟩ := range_parts from_ to_
  unfold parseIP
  dsimp only
  rw [trimmed, if_neg noSlash, if_pos dash, first, second]

theorem getAvailableIPRange_eq (from_ : parseAddr a = some x) (to_ : parseAddr b = some y) :
    getAvailableIPRange a b =
      match to4 x.as16, to4 y.as16 with
      | some startIP, some endIP =>
        (upTo (ip4ToInt startIP) (ip4ToInt endIP + 1)).map fun ipNum => string (intToIP4 ipNum)
      | _, _ =>
        match to16 x.as16, to16 y.as16 with
        | some startIP, some endIP =>
          (upTo (ip6ToInt startIP) (ip6ToInt endIP + 1)).map fun ipNum => string (intToIP6 ipNum)
        | _, _ => [] := by
  simp only [getAvailableIPRange, NetIP.parseIP, from_, to_, Option.map_some]

theorem ip4ToInt_four {ip : IP} (four : ip.length = 4) : ip4ToInt ip = value ip := by
  rw [ip4ToInt, to4_four four]
  rfl

/-- A range of IPv4 addresses is counted through. -/
theorem parseIP_range4 {p q : IP} (from_ : parseAddr a = some (.v4 p)) (to_ : parseAddr b = some (.v4 q)) :
    parseIP (a ++ '-' :: b) = addresses 4 (value p) (value q + 1 - value p) := by
  have fourP : p.length = 4 := four_bytes from_
  have fourQ : q.length = 4 := four_bytes to_
  have small := value_lt q
  rw [fourQ] at small
  rw [parseIP_range from_ to_, getAvailableIPRange_eq from_ to_]
  simp only [Addr.as16, to4_as16_v4 fourP, to4_as16_v4 fourQ, ip4ToInt_four fourP, ip4ToInt_four fourQ]
  exact map_intToIP4 (by omega)

end Range

/-! ## Networks -/

/-- The number of the first address of the network, where so many bits are left to its addresses. -/
def network (low v : Nat) : Nat := v / 2 ^ low * 2 ^ low

section Network
variable {a m : List Char} {x : Addr} {ones : Nat}

theorem network_add_le {low bits v : Nat} (few : low ≤ bits) (small : v < 2 ^ bits) : network low v + 2 ^ low ≤ 2 ^ bits := by
  obtain ⟨high, rfl⟩ := Nat.exists_eq_add_of_le few
  rw [pow_add, Nat.mul_comm] at small ⊢
  have below : v / 2 ^ low < 2 ^ high := (Nat.div_lt_iff_lt_mul (by positivity)).2 small
  have room : (v / 2 ^ low + 1) * 2 ^ low ≤ 2 ^ high * 2 ^ low := Nat.mul_le_mul_right _ below
  rw [Nat.add_mul, Nat.one_mul] at room
  exact room

/-- The network that is cut out of an address starts at its first address and ends before the next network. -/
theorem networkRange_leadingOnes {ip : IP} (length : ip.length = 4 ∨ ip.length = 16) (few : ones ≤ 8 * ip.length) :
    ∃ first last : IP,
      networkRange ⟨andMask ip (leadingOnes ones ip.length), leadingOnes ones ip.length⟩ = some (first, last) ∧
      first.length = ip.length ∧ last.length = ip.length ∧
      value first = network (8 * ip.length - ones) (value ip) ∧
      value last = network (8 * ip.length - ones) (value ip) + (2 ^ (8 * ip.length - ones) - 1) := by
  have sameLength : (andMask ip (leadingOnes ones ip.length)).length = ip.length := by simp [andMask]
  obtain ⟨low, high⟩ := value_mask ip ones few
  have some_ : ¬ (andMask ip (leadingOnes ones ip.length) = [] ∨ leadingOnes ones ip.length = []) := by
    rintro (empty | empty)
    · rw [empty, List.length_nil] at sameLength
      omega
    · have none_ := length_leadingOnes ones ip.length
      rw [empty, List.length_nil] at none_
      omega
  have form : (if (andMask ip (leadingOnes ones ip.length)).length = 4 then to4 (andMask ip (leadingOnes ones ip.length))
      else if (andMask ip (leadingOnes ones ip.length)).length = 16 then to16 (andMask ip (leadingOnes ones ip.length))
      else some (andMask ip (leadingOnes ones ip.length))) = some (andMask ip (leadingOnes ones ip.length)) := by
    rcases length with four | sixteen
    · rw [if_pos (by omega), to4_four (by omega)]
    · rw [if_neg (by omega), if_pos (by omega), to16_sixteen (by omega)]
  refine ⟨andMask ip (leadingOnes ones ip.length), orMask (andMask ip (leadingOnes ones ip.length))
    (leadingOnes ones ip.length), ?_, sameLength, by simp [orMask, andMask], low, high⟩
  unfold networkRange
  dsimp only
  rw [if_neg some_, form, Option.map_some, maskIP_same (by rw [sameLength, length_leadingOnes])]
  simp only [andMask_andMask, Option.getD_some, Nat.sub_self, List.replicate_zero, List.append_nil, List.take_length]

theorem plain_not_space {c : Char} (ok : plain c = true) : c ∉ spaces := fun inside => by
  have none_ := List.all_eq_true.mp (show spaces.all (fun c => !plain c) = true by decide) c inside
  rw [ok] at none_
  cases none_

theorem parseIP_cidr (address : parseAddr a = some x) (some_ : m ≠ []) (chars : ∀ c ∈ m, plain c = true) :
    parseIP (a ++ '/' :: m) =
      if m = ['3', '2'] ∨ m = ['1', '2', '8'] then [a] else getAvailableIP (a ++ '/' :: m) := by
  have noSlash := not_plain_mem address (c := '/') (by decide)
  have noSlash' : '/' ∉ m := fun inside => absurd (chars '/' inside) (by decide)
  have trimmed : trimRight '/' (a ++ '/' :: m) = a ++ '/' :: m := by
    have cut := trimRight_append (a := a ++ ['/']) some_ noSlash'
    simpa using cut
  have short : hasSuffix (a ++ '/' :: m) "/32".toList = true ↔ m = ['3', '2'] := hasSuffix_iff noSlash' (by decide)
  have long : hasSuffix (a ++ '/' :: m) "/128".toList = true ↔ m = ['1', '2', '8'] := hasSuffix_iff noSlash' (by decide)
  unfold parseIP
  dsimp only
  rw [trimmed, if_pos (by simp), before_append noSlash]
  simp only [Bool.or_eq_true, short, long]

theorem trimSpace_cidr (address : parseAddr a = some x) (chars : ∀ c ∈ m, plain c = true) :
    trimSpace (a ++ '/' :: m) = a ++ '/' :: m := by
  refine trimSpace_eq fun c inside => ?_
  rw [List.mem_append, List.mem_cons] at inside
  rcases inside with front | rfl | back
  · exact plain_not_space ((parseAddr_accepts address).2 c front)
  · decide
  · exact plain_not_space (chars c back)

theorem getAvailableIP_cidr (address : parseAddr a = some x) (chars : ∀ c ∈ m, plain c = true) :
    getAvailableIP (a ++ '/' :: m) =
      match (parseCIDR (a ++ '/' :: (if '.' ∈ m then iPMaskStringToCIDR m else m))).bind networkRange with
      | none => []
      | some (firstIP, lastIP) =>
        if (to4 firstIP).isSome then
          (upTo (ip4ToInt firstIP + 1) (ip4ToInt lastIP)).map fun ipNum => string (intToIP4 ipNum)
        else if (to16 firstIP).isSome then
          (upTo (ip6ToInt firstIP) (ip6ToInt lastIP + 1)).map fun ipNum => string (intToIP6 ipNum)
        else [] := by
  have noSlash := not_plain_mem address (c := '/') (by decide)
  have noSlash' : '/' ∉ m := fun inside => absurd (chars '/' inside) (by decide)
  have trimmed := trimSpace_cidr address chars
  have mask : iPAddressToCIDR (a ++ '/' :: m) = a ++ '/' :: (if '.' ∈ m then iPMaskStringToCIDR m else m) := by
    unfold iPAddressToCIDR
    dsimp only
    rw [if_pos (by simp), before_append noSlash, after_append noSlash, before_of_not_mem noSlash']
  unfold getAvailableIP
  rw [trimmed, mask]

/-- An IPv4 network, with its prefix or its mask: the addresses between its first and its last. -/
theorem getAvailableIP_network4 {p : IP} (address : parseAddr a = some (.v4 p)) (chars : ∀ c ∈ m, plain c = true)
    (number : dtoi (if '.' ∈ m then iPMaskStringToCIDR m else m) = some ones) (few : ones ≤ 32) :
    getAvailableIP (a ++ '/' :: m) = addresses 4 (network (32 - ones) (value p) + 1) (2 ^ (32 - ones) - 2) := by
  have four := four_bytes address
  obtain ⟨first, last, range, lengthFirst, lengthLast, low, high⟩ :=
    networkRange_leadingOnes (.inl four) (show ones ≤ 8 * p.length by omega)
  rw [four] at lengthFirst lengthLast
  have parsed := parseCIDR_append address number few
  have room : network (32 - ones) (value p) + 2 ^ (32 - ones) ≤ 2 ^ 32 :=
    network_add_le (by omega) (by have small := value_lt p; rw [four] at small; omega)
  simp only [Addr.bytes] at parsed
  rw [four, show 8 * 4 = 32 from rfl] at low high
  have least : 0 < 2 ^ (32 - ones) := by positivity
  rw [getAvailableIP_cidr address chars, parsed, Option.bind_some, range]
  simp only [to4_four lengthFirst, Option.isSome_some, if_true, ip4ToInt_four lengthFirst, ip4ToInt_four lengthLast]
  rw [map_intToIP4 (by omega), low, high]
  congr 1
  omega

theorem length_addresses (bytes first count : Nat) : (addresses bytes first count).length = count := by
  rw [addresses, List.length_map, List.length_range']

end Network

/-! ## Masks -/

/-- The prefix of a mask is read from its text. -/
theorem iPMaskStringToCIDR_leadingOnes {ones : Nat} (few : ones ≤ 32) :
    '.' ∈ string4 (leadingOnes ones 4) ∧ (∀ c ∈ string4 (leadingOnes ones 4), plain c = true) ∧
      dtoi (iPMaskStringToCIDR (string4 (leadingOnes ones 4))) = some ones := by
  have all : ∀ ones : Fin 33, '.' ∈ string4 (leadingOnes ones 4) ∧
      dtoi (iPMaskStringToCIDR (string4 (leadingOnes ones 4))) = some ones.val := by decide +kernel
  obtain ⟨dot, number⟩ := all ⟨ones, by omega⟩
  refine ⟨dot, fun c inside => ?_, number⟩
  rcases string4_chars c inside with digit | rfl
  · exact plain_of_isDigit digit
  · rfl

/-! ## All kinds of texts -/

/-- A text of an IPv4 address. -/
structure Text4 where
  text : List Char
  bytes : IP
  parsed : parseAddr text = some (.v4 bytes)

/-- A text of an IPv6 address. -/
structure Text6 where
  text : List Char
  bytes : IP
  parsed : parseAddr text = some (.v6 bytes)

/-- A text of an IPv4 prefix, or of its mask. -/
structure Mask4 where
  text : List Char
  ones : Nat
  parsed : dtoi text = some ones ∨ text = string4 (leadingOnes ones 4)
  few : ones ≤ 30

/-- A text of an IPv6 prefix. -/
structure Mask6 where
  text : List Char
  ones : Nat
  parsed : dtoi text = some ones
  few : ones ≤ 128

/-- What `ParseIP` is given: two addresses of one kind, or an address of a network. -/
inductive Input where
  | range4 (a b : Text4)
  | range6 (a b : Text6)
  | network4 (a : Text4) (m : Mask4)
  | network6 (a : Text6) (m : Mask6)

namespace Input

def text : Input → List Char
  | range4 a b => a.text ++ '-' :: b.text
  | range6 a b => a.text ++ '-' :: b.text
  | network4 a m => a.text ++ '/' :: m.text
  | network6 a m => a.text ++ '/' :: m.text

/-- The texts are those of all the addresses that are meant, in their order. -/
def Lists (texts : List (List Char)) : Input → Prop
  | range4 a b => texts = addresses 4 (value a.bytes) (value b.bytes + 1 - value a.bytes)
  | range6 a b => texts = addresses 16 (value a.bytes) (value b.bytes + 1 - value a.bytes)
  -- without the first address of the network and without its last
  | network4 a m => texts = addresses 4 (network (32 - m.ones) (value a.bytes) + 1) (2 ^ (32 - m.ones) - 2)
  | network6 a m =>
    texts = addresses 16 (network (128 - m.ones) (value a.bytes)) (2 ^ (128 - m.ones)) ∨
      m.ones = 128 ∧ texts = [a.text]

end Input

/-- The text of a mask has the characters of an address, and its prefix is read from it. -/
theorem mask_reads {m : List Char} {ones : Nat} (mask : dtoi m = some ones ∨ m = string4 (leadingOnes ones 4))
    (few : ones ≤ 32) : m ≠ [] ∧ (∀ c ∈ m, plain c = true) ∧ m ≠ ['1', '2', '8'] ∧
      dtoi (if '.' ∈ m then iPMaskStringToCIDR m else m) = some ones := by
  rcases mask with number | rfl
  · obtain ⟨some_, digits⟩ := dtoi_digits number
    have noDot : '.' ∉ m := fun inside => absurd (digits '.' inside) (by decide)
    refine ⟨some_, fun c inside => plain_of_isDigit (digits c inside), ?_, by rw [if_neg noDot]; exact number⟩
    rintro rfl
    have known : dtoi ['1', '2', '8'] = some 128 := by decide
    rw [known, Option.some.injEq] at number
    omega
  · obtain ⟨dot, plain_, number⟩ := iPMaskStringToCIDR_leadingOnes few
    refine ⟨List.ne_nil_of_mem dot, plain_, ?_, by rw [if_pos dot]; exact number⟩
    intro same
    rw [same] at dot
    revert dot
    decide

theorem parseIP_network {a m : List Char} {p : IP} {ones : Nat} (address : parseAddr a = some (.v4 p))
    (mask : dtoi m = some ones ∨ m = string4 (leadingOnes ones 4)) (few : ones ≤ 32) :
    parseIP (a ++ '/' :: m) =
      if m = ['3', '2'] then [a] else addresses 4 (network (32 - ones) (value p) + 1) (2 ^ (32 - ones) - 2) := by
  obtain ⟨some_, plain_, long, number⟩ := mask_reads mask few
  rw [parseIP_cidr address some_ plain_]
  simp only [long, or_false]
  split
  · rfl
  · exact getAvailableIP_network4 address plain_ number few

end KubeKey.Utils
