import KubeKey.Cluster.Spec

/-!
# The addresses of the services

The API server has the first address after that of the service network and CoreDNS the third.
`ParseIp` lists the addresses of an IPv4 network from the first on, except of the network of all
addresses, which counts none in 32 bits. Of an IPv6 network it lists nothing that CoreDNS
could have: the network has no four-byte address, or its mask is read as that of a single
address, or the length `32` is taken for that of an IPv4 address.
-/

namespace KubeKey.Cluster

open KubeKey.Go KubeKey.Go.BigEndian KubeKey.Go.NetIP KubeKey.Text.Strings KubeKey.Core.Util

/-! ## Networks -/

/-- The number of addresses that hosts can have in a network. An IPv6 network has no broadcast address. -/
def usable (net : IPNet) : Nat :=
  let addresses := 2 ^ (8 * net.mask.length - maskSize net.mask)
  if net.ip.length = 4 then addresses - 2 else addresses

/-- The address so many after that of the network. -/
def nth (net : IPNet) (k : Nat) : IP := fixed net.ip.length (value net.ip + k)

/-- `IPNet.Contains`, for an address of the network's length. -/
def contains (net : IPNet) (ip : IP) : Prop := andMask ip net.mask = andMask net.ip net.mask

/-- What is parsed as a network has an address and a prefix. -/
theorem parseCIDR_parts {s : List Char} {net : IPNet} (parsed : parseCIDR s = some net) :
    ∃ a m addr ones, s = a ++ '/' :: m ∧ parseAddr a = some addr ∧ dtoi m = some ones ∧ ones ≤ addr.bitLen ∧
      net = ⟨andMask addr.bytes (leadingOnes ones addr.bytes.length), leadingOnes ones addr.bytes.length⟩ := by
  have parsed' := parsed
  unfold parseCIDR at parsed
  split at parsed
  · cases parsed
  · next c m back =>
    have slash : c = '/' := by
      have head := List.head?_dropWhile_not (· ≠ '/') s
      rw [back] at head
      simpa using head
    subst slash
    have whole : s = s.takeWhile (· ≠ '/') ++ '/' :: m := by
      rw [← back, List.takeWhile_append_dropWhile]
    split at parsed
    · next addr n address number =>
      split at parsed
      · next fits =>
        refine ⟨_, m, addr, n, whole, address, number, fits, ?_⟩
        rw [whole, parseCIDR_append address number fits, Option.some.injEq] at parsed'
        exact parsed'.symm
      · cases parsed
    · cases parsed

theorem maskSize_leadingOnes {ones length : Nat} (few : ones ≤ 8 * length) :
    maskSize (leadingOnes ones length) = ones := by
  have found : (List.range (8 * length + 1)).find? (fun n => leadingOnes n length = leadingOnes ones length) =
      some ones := by
    refine List.find?_range_eq_some.2 ⟨by simp, List.mem_range.2 (by omega), fun n less => ?_⟩
    have apart : leadingOnes n length ≠ leadingOnes ones length := by
      intro same
      have eq := leadingOnes_inj (by omega) few same
      omega
    simpa using apart
  rw [maskSize, length_leadingOnes, found, Option.getD_some]

/-- The addresses of a network up to the last lie in it. -/
theorem contains_nth (bytes : IP) {ones k : Nat} (few : ones ≤ 8 * bytes.length)
    (inside : k < 2 ^ (8 * bytes.length - ones)) :
    contains ⟨andMask bytes (leadingOnes ones bytes.length), leadingOnes ones bytes.length⟩
      (nth ⟨andMask bytes (leadingOnes ones bytes.length), leadingOnes ones bytes.length⟩ k) := by
  have low := (value_mask bytes ones few).1
  have length : (andMask bytes (leadingOnes ones bytes.length)).length = bytes.length := by simp [andMask]
  have small : value bytes < 2 ^ (8 * bytes.length) := by
    have limit := value_lt bytes
    rwa [show (256 : Nat) = 2 ^ 8 from rfl, ← pow_mul] at limit
  have room := Utils.network_add_le (Nat.sub_le (8 * bytes.length) ones) small
  rw [Utils.network] at room
  have fits : value (andMask bytes (leadingOnes ones bytes.length)) + k < 256 ^ bytes.length := by
    rw [low, show (256 : Nat) = 2 ^ 8 from rfl, ← pow_mul]
    omega
  unfold contains nth
  dsimp only
  rw [length, andMask_andMask]
  refine eq_of_value (by simp [andMask, length_fixed]) ?_
  have rounded := (value_mask (fixed bytes.length (value (andMask bytes (leadingOnes ones bytes.length)) + k)) ones
    (by rwa [length_fixed])).1
  rw [length_fixed] at rounded
  rw [rounded, value_fixed fits, low, Nat.mul_comm (value bytes / _), Nat.mul_add_div (by positivity),
    Nat.div_eq_of_lt inside, Nat.add_zero, Nat.mul_comm]

/-! ## What `ParseIp` lists -/

section Lists
variable {a m : List Char} {p : IP} {ones : Nat}

/-- The list of an IPv4 network with four usable addresses. -/
theorem parseIp_v4 (rounds : Nat) (address : parseAddr a = some (.v4 p)) (number : dtoi m = some ones) (few : ones ≤ 30) :
    parseIp rounds (a ++ '/' :: m) =
      some (Utils.addresses 4 (value (andMask p (leadingOnes ones 4)) + 1)
        (if ones = 0 then 0 else 2 ^ (32 - ones) - 2)) := by
  have four := Utils.four_bytes address
  have low := (value_mask p ones (by omega)).1
  rw [four, show 8 * 4 = 32 from rfl] at low
  have single : m ≠ ['3', '2'] := by
    rintro rfl
    have known : dtoi ['3', '2'] = some 32 := by decide
    rw [known, Option.some.injEq] at number
    omega
  rw [parseIp_network rounds address (.inl number) (by omega), if_neg single,
    getAvailableIP_network address (.inl number) (by omega), low]
  rfl

/-- The mask of a network in which IPv4 addresses are embedded looks like that of a single address. -/
theorem networkSize_embedded {ones : Nat} (few : ones ≤ 128) (long : (leadingOnes ones 16)[11]? = some 0xff) :
    (networkSize (leadingOnes ones 16) - 2).toInt.toNat = 0 := by
  have all : ∀ ones : Fin 129, (leadingOnes ones 16)[11]? = some 0xff →
      (networkSize (leadingOnes ones 16) - 2).toInt.toNat = 0 := by decide +kernel
  exact all ⟨ones, by omega⟩ long

theorem byte_of_mapped {bytes mask : List UInt8} (sixteen : bytes.length = 16) (length : mask.length = 16)
    (mapped : Mapped (andMask bytes mask)) : mask[11]? = some 0xff := by
  have here : (andMask bytes mask)[11]? = some 0xff := by
    have taken : ((andMask bytes mask).take 12)[11]? = some 0xff := by
      rw [mapped]
      rfl
    rwa [List.getElem?_take_of_lt (by omega)] at taken
  have there : 11 < mask.length := by omega
  rw [andMask, List.getElem?_zipWith, List.getElem?_eq_getElem there, List.getElem?_eq_getElem (by omega)] at here
  rw [List.getElem?_eq_getElem there]
  have and_ : bytes[11] &&& mask[11] = 0xff := Option.some.inj here
  have all : ∀ b m : UInt8, b &&& m = 0xff → m = 0xff := by
    intro b m both
    rw [← UInt8.toBitVec_inj] at both ⊢
    have known : b.toBitVec &&& m.toBitVec = BitVec.allOnes 8 := both
    exact (BitVec.and_eq_allOnes_iff.1 known).2
  rw [all _ _ and_]

/-- An IPv6 network has no list, or an empty one. -/
theorem getAvailableIP_v6 (address : parseAddr a = some (.v6 p)) (number : dtoi m = some ones) (few : ones ≤ 128)
    {ips : List (List Char)} (run : getAvailableIP (a ++ '/' :: m) = some ips) : ips = [] := by
  obtain ⟨-, digits⟩ := dtoi_digits number
  have noSlash := Utils.not_plain_mem address (c := '/') (by decide)
  have noSlash' : '/' ∉ m := fun inside => absurd (digits '/' inside) (by decide)
  have noDot : '.' ∉ m := fun inside => absurd (digits '.' inside) (by decide)
  have sixteen := Utils.sixteen_bytes address
  have trimmed := Utils.trimSpace_cidr address fun c inside => plain_of_isDigit (digits c inside)
  have cidr : iPAddressToCIDR (a ++ '/' :: m) = some (a ++ '/' :: m) := by
    unfold iPAddressToCIDR
    dsimp only
    rw [if_pos (by simp), before_append noSlash, after_append noSlash, before_of_not_mem noSlash', if_neg noDot,
      Option.map_some]
  have parsed := parseCIDR_append address number few
  simp only [Addr.bytes, sixteen] at parsed
  rw [getAvailableIP, trimmed, cidr, Option.bind_some, parsed, Option.bind_some, Option.bind_eq_some_iff] at run
  obtain ⟨range, cut, run⟩ := run
  rw [Option.map_eq_some_iff] at run
  obtain ⟨ipNum, counted, rfl⟩ := run
  have length : (andMask p (leadingOnes ones 16)).length = 16 := by simp [andMask, sixteen]
  have embedded : Mapped (andMask p (leadingOnes ones 16)) := by
    rw [← to4_isSome_iff length]
    unfold networkRange at cut
    cases four : to4 (andMask p (leadingOnes ones 16)) with
    | none =>
      rw [four] at cut
      cases cut
    | some ip => rfl
  have none_ := networkSize_embedded few (byte_of_mapped sixteen (length_leadingOnes _ _) embedded)
  obtain ⟨v, rfl⟩ : ∃ v, ipNum = Int32.ofNat v := by
    unfold ipToInt at counted
    rw [Option.map_eq_some_iff] at counted
    obtain ⟨ip, -, rfl⟩ := counted
    exact ⟨value ip, rfl⟩
  rw [attempts_eq, none_]
  rfl

/-- CoreDNS finds no address of an IPv6 network. -/
theorem parseIp_v6 {rounds : Nat} (address : parseAddr a = some (.v6 p)) (number : dtoi m = some ones)
    (few : ones ≤ 128) {ips : List (List Char)} (run : parseIp rounds (a ++ '/' :: m) = some ips) : ips.length ≤ 1 := by
  obtain ⟨some_, digits⟩ := dtoi_digits number
  have noSlash' : '/' ∉ m := fun inside => absurd (digits '/' inside) (by decide)
  have trimmed : trimRight '/' (a ++ '/' :: m) = a ++ '/' :: m := by
    have cut := trimRight_append (a := a ++ ['/']) some_ noSlash'
    simpa using cut
  unfold parseIp at run
  dsimp only at run
  rw [trimmed, if_pos (by simp)] at run
  split at run
  · cases run
    exact Nat.le_refl 1
  · rw [getAvailableIP_v6 address number few run]
    exact Nat.zero_le 1

end Lists

/-! ## The services -/

namespace ClusterSpec

/-- The addresses of the services are the first and the third of the network, and it is known for which the API
server has a certificate. -/
def InRange (cfg : ClusterSpec) (net : IPNet) : Prop :=
  ∃ rounds, cfg.clusterIP rounds = some (String.ofList (string (nth net 1))) ∧
    cfg.corednsClusterIP rounds = some (String.ofList (string (nth net 3))) ∧
    (cfg.generateCertSANs rounds).isSome ∧ contains net (nth net 1) ∧ contains net (nth net 3)

variable {cfg : ClusterSpec}

theorem serviceIP_of_addresses (net : IPNet) {rounds count k : Nat} (four : net.ip.length = 4)
    (listed : parseIp rounds cfg.serviceCIDR = some (Utils.addresses 4 (value net.ip + 1) count)) (more : k < count) :
    cfg.serviceIP rounds k = some (String.ofList (string (nth net (k + 1)))) := by
  have here : (Utils.addresses 4 (value net.ip + 1) count)[k]? = some (string (fixed 4 (value net.ip + 1 + k))) := by
    rw [Utils.addresses, List.getElem?_map, List.getElem?_range' more, Nat.one_mul, Option.map_some]
  rw [serviceIP, listed, Option.bind_some, here, Option.map_some, nth, four, Nat.add_assoc, Nat.add_comm 1 k]

/-- The services have their addresses exactly if the first network is one of IPv4 and not that of all addresses. -/
theorem inRange_iff {net : IPNet} (parsed : parseCIDR cfg.serviceCIDR = some net) (room : 4 ≤ usable net) :
    cfg.InRange net ↔ net.ip.length = 4 ∧ maskSize net.mask ≠ 0 := by
  obtain ⟨a, m, addr, ones, text, address, number, fits, rfl⟩ := parseCIDR_parts parsed
  cases addr with
  | v6 p =>
    have sixteen := Utils.sixteen_bytes address
    have length : (andMask p (leadingOnes ones p.length)).length = 16 := by simp [andMask, sixteen]
    refine iff_of_false ?_ fun both => absurd (length.symm.trans both.1) (by decide)
    rintro ⟨rounds, -, coredns, -⟩
    rw [corednsClusterIP, serviceIP, text, Option.bind_eq_some_iff] at coredns
    obtain ⟨ips, run, third⟩ := coredns
    have short := parseIp_v6 address number fits run
    rw [List.getElem?_eq_none (by omega), Option.map_none] at third
    cases third
  | v4 p =>
    have four := Utils.four_bytes address
    have length : (andMask p (leadingOnes ones 4)).length = 4 := by simp [andMask, four]
    simp only [Addr.bytes, Addr.bitLen, four] at room fits ⊢
    have size : maskSize (leadingOnes ones 4) = ones := maskSize_leadingOnes fits
    simp only [usable, length_leadingOnes, size, length, if_true, show 8 * 4 = 32 from rfl] at room ⊢
    have few : ones ≤ 29 := by
      by_contra large
      have small : 2 ^ (32 - ones) ≤ 2 ^ 2 := Nat.pow_le_pow_right (by decide) (by omega)
      omega
    have listed : ∀ rounds, parseIp rounds cfg.serviceCIDR = _ := fun rounds =>
      text ▸ parseIp_v4 rounds address number (by omega)
    constructor
    · rintro ⟨rounds, first, -⟩
      refine ⟨trivial, ?_⟩
      rintro rfl
      rw [clusterIP, serviceIP, listed, if_pos rfl] at first
      cases first
    · rintro ⟨-, some_⟩
      have large : 2 ^ 3 ≤ 2 ^ (32 - ones) := Nat.pow_le_pow_right (by decide) (by omega)
      have listed' := listed 0
      rw [if_neg some_] at listed'
      have first := serviceIP_of_addresses ⟨andMask p (leadingOnes ones 4), leadingOnes ones 4⟩ length listed'
        (k := 0) (by omega)
      have third := serviceIP_of_addresses ⟨andMask p (leadingOnes ones 4), leadingOnes ones 4⟩ length listed'
        (k := 2) (by omega)
      have inside : ∀ k < 8, contains ⟨andMask p (leadingOnes ones 4), leadingOnes ones 4⟩
          (nth ⟨andMask p (leadingOnes ones 4), leadingOnes ones 4⟩ k) := by
        intro k less
        have few' : ones ≤ 8 * p.length := by omega
        have inside : k < 2 ^ (8 * p.length - ones) := by
          rw [four, show 8 * 4 = 32 from rfl]
          omega
        have whole := contains_nth p few' inside
        rwa [four] at whole
      refine ⟨0, first, third, ?_, inside 1 (by decide), inside 3 (by decide)⟩
      rw [generateCertSANs, first]
      rfl

/-- A cluster with this service network. -/
def withServiceCIDR (cidr : String) : ClusterSpec where
  hosts := [⟨"node1", "172.16.0.2", "172.16.0.2", some 30⟩]
  roleGroups := .empty
  controlPlaneEndpoint := ⟨"lb.kubesphere.local", ""⟩
  etcd := ⟨"kubekey"⟩
  kubernetes := ⟨"cluster.local", []⟩
  network := ⟨cidr⟩

theorem inRange_default : (withServiceCIDR "10.233.0.0/18").InRange ⟨[10, 233, 0, 0], [255, 255, 192, 0]⟩ :=
  (inRange_iff (by decide +kernel) (by decide +kernel)).2 (by decide +kernel)

/-- The IPv6 network of a dual-stack pair comes first. -/
theorem not_inRange_v6 : ¬ ∀ (cfg : ClusterSpec) (net : IPNet), parseCIDR cfg.serviceCIDR = some net → 4 ≤ usable net →
    cfg.InRange net := by
  intro all
  obtain ⟨rounds, first, -⟩ := all (withServiceCIDR "fd00::/108,10.233.0.0/18")
    ⟨[0xfd, 0, 0, 0, 0, 0, 0, 0, 0, 0, 0, 0, 0, 0, 0, 0], leadingOnes 108 16⟩ (by decide +kernel) (by decide +kernel)
  have panics : parseIp rounds (withServiceCIDR "fd00::/108,10.233.0.0/18").serviceCIDR = none := by
    show parseIp 0 (withServiceCIDR "fd00::/108,10.233.0.0/18").serviceCIDR = none
    decide +kernel
  rw [clusterIP, serviceIP, panics] at first
  cases first

end ClusterSpec

end KubeKey.Cluster
