import KubeKey.Go.NetIP
import KubeKey.Etcd.Members

/-!
# The first etcd node

`FirstETCDNode` of `cmd/kk/pkg/etcd/prepares.go` lets one host through, to fetch the
certificates of an existing cluster or to back it up. Every host asks on its own. Where the
cluster is new, it compares names; where it exists, it looks for its address in the entry of
the first member, anywhere in it. An entry has a name, an address and a port, set apart by
characters that no address has, so a host is let through exactly when its address stands in
the name or in the address of the first member. The address `10.0.0.1` stands in `10.0.0.10`.
-/

namespace KubeKey.Etcd

open KubeKey.Go KubeKey.Variable

/-- How a prepare step can fail. -/
inductive PrepareErr where
  | notCached
  | panic
deriving DecidableEq

/-- `FirstETCDNode.PreCheck`, where `hosts` has the role etcd. -/
def firstETCDNode (not : Bool) (cached : Option EtcdCluster) (hosts : List EtcdHost) (host : EtcdHost) :
    Except PrepareErr Bool :=
  match cached with
  | none => .error .notCached
  | some cluster =>
    if cluster.clusterExist then
      match cluster.peerAddresses with
      | [] => .error .panic
      | address :: _ => .ok (if containsSub host.internalIPv4.text.toList address.toList then !not else not)
    else
      match hosts with
      | [] => .error .panic
      | first :: _ => .ok (if first.name = host.name then !not else not)

/-- The hosts of the role etcd as they are given: at least one, with names and addresses of their own. -/
structure Distinct (hosts : List EtcdHost) : Prop where
  some_host : hosts ≠ []
  names : (hosts.map EtcdHost.name).Nodup
  addresses : (hosts.map fun host => host.internalIPv4.text).Nodup
  ipv4 : ∀ host ∈ hosts, ∃ bytes, NetIP.parseAddr host.internalIPv4.text.toList = some (.v4 bytes)

/-- One host is the first: it is let through and no other one is, and where some host runs etcd already, it is the first
of these. -/
def OneFirst (conf : EtcdConf) (hosts : List EtcdHost) : Prop :=
  ∃ first ∈ hosts,
    (∀ host ∈ hosts, firstETCDNode false (preCheck conf hosts) hosts host = .ok (decide (host = first)) ∧
      firstETCDNode true (preCheck conf hosts) hosts host = .ok (decide (host ≠ first))) ∧
    ∀ member, (hosts.filter EtcdHost.etcdExist).head? = some member → first = member

/-- The address of no other host stands in the address or in the etcd name of the first member. -/
def AddressApart (hosts : List EtcdHost) : Prop :=
  ∀ member, (hosts.filter EtcdHost.etcdExist).head? = some member → ∀ host ∈ hosts, host ≠ member →
    ¬ host.internalIPv4.text.toList <:+: member.internalIPv4.text.toList ∧
      ¬ host.internalIPv4.text.toList <:+: member.etcdName.toList

/-! ## Addresses in texts -/

/-- `strings.Contains`. -/
theorem containsSub_iff {pat s : List Char} : containsSub pat s = true ↔ pat <:+: s := by
  induction s with
  | nil => simp [containsSub]
  | cons c cs ih => rw [containsSub, Bool.or_eq_true, ih, List.isPrefixOf_iff_prefix, List.infix_cons_iff]

/-- What stands in a text and has no character of a separator stands on one side of it. -/
theorem infix_of_separated {p x sep y : List Char} (apart : ∀ c ∈ sep, c ∉ p) (separates : sep ≠ [])
    (inside : p <:+: x ++ (sep ++ y)) : p <:+: x ∨ p <:+: y := by
  -- A part of `p` in the separator is empty.
  have outside : ∀ l : List Char, (∀ c ∈ l, c ∈ p) → (∀ c ∈ l, c ∈ sep) → l = [] := by
    intro l ofP ofSep
    cases l with
    | nil => rfl
    | cons c cs => exact absurd (ofP c List.mem_cons_self) (apart c (ofSep c List.mem_cons_self))
  rcases List.infix_append_iff.1 inside with left | right | ⟨before, after, rfl, suffix, initial⟩
  · exact .inl left
  · rcases List.infix_append_iff.1 right with left | right | ⟨before, after, rfl, suffix, initial⟩
    · have empty := outside p (fun _ member => member) fun c member => left.subset member
      exact .inl (empty ▸ List.nil_infix)
    · exact .inr right
    · have empty := outside before (fun c member => List.mem_append_left _ member) fun c member => suffix.subset member
      rw [empty, List.nil_append]
      exact .inr initial.isInfix
  · cases after with
    | nil =>
      rw [List.append_nil]
      exact .inl suffix.isInfix
    | cons c cs =>
      obtain ⟨first, rest, rfl⟩ := List.exists_cons_of_ne_nil separates
      obtain ⟨tail, split⟩ := initial
      simp only [List.cons_append, List.cons.injEq] at split
      obtain ⟨rfl, -⟩ := split
      exact absurd (List.mem_append_right before List.mem_cons_self) (apart c List.mem_cons_self)

/-- The text of an IPv4 address has digits and dots, and some dot. -/
theorem ipv4_text {s : List Char} {bytes : NetIP.IP} (parsed : NetIP.parseAddr s = some (.v4 bytes)) :
    (∀ c ∈ s, c.isDigit = true ∨ c = '.') ∧ '.' ∈ s := by
  rw [NetIP.parseAddr] at parsed
  split at parsed
  · cases parsed
  · split at parsed
    · next found =>
      obtain ⟨ip, fields, same⟩ := Option.map_eq_some_iff.1 parsed
      exact ⟨(NetIP.parseIPv4_accepts fields).2, List.mem_of_find?_eq_some found⟩
    · obtain ⟨ip, -, other⟩ := Option.map_eq_some_iff.1 parsed
      cases other
    · cases parsed

theorem dot_not_mem_int (n : Int) : '.' ∉ (toString n).toList := by
  have digits : ∀ m : Nat, '.' ∉ (toString m).toList := by
    intro m member
    have digit : ('.').isDigit = true :=
      Nat.isDigit_of_mem_toDigits (b := 10) (by decide) (by decide) (by simpa [Nat.repr] using member)
    revert digit
    decide
  cases n with
  | ofNat m => exact digits m
  | negSucc m =>
    show '.' ∉ ("-" ++ toString (m + 1)).toList
    rw [String.toList_append, List.mem_append]
    rintro (sign | later)
    · revert sign
      decide
    · exact digits _ later

/-- An address stands in the entry of a host exactly when it stands in its name or in its address. -/
theorem address_in_entry (conf : EtcdConf) {ip : List Char} (member : EtcdHost)
    (text : ∀ c ∈ ip, c.isDigit = true ∨ c = '.') (dot : '.' ∈ ip) :
    containsSub ip (member.peerAddress conf).toList = true ↔
      ip <:+: member.internalIPv4.text.toList ∨ ip <:+: member.etcdName.toList := by
  have entry : (member.peerAddress conf).toList = member.etcdName.toList ++ ("=https://".toList ++
      (member.internalIPv4.text.toList ++ (":".toList ++ (toString conf.peerPort).toList))) := by
    simp only [EtcdHost.peerAddress, EtcdHost.peerURL, String.toList_append, List.append_assoc]
    rfl
  have apart : ∀ sep : List Char, (sep.all fun c => !c.isDigit && c != '.') = true → ∀ c ∈ sep, c ∉ ip := by
    intro sep other c member inside
    have here := List.all_eq_true.1 other c member
    rcases text c inside with digit | rfl
    · simp [digit] at here
    · simp at here
  rw [containsSub_iff, entry]
  constructor
  · intro inside
    rcases infix_of_separated (apart _ (by decide)) (by decide) inside with name | rest
    · exact .inr name
    · rcases infix_of_separated (apart _ (by decide)) (by decide) rest with address | port
      · exact .inl address
      · exact absurd (port.subset dot) (dot_not_mem_int _)
  · rintro (address | name)
    · exact List.infix_append_of_infix_right (List.infix_append_of_infix_right (List.infix_append_of_infix_left address))
    · exact List.infix_append_of_infix_left name

/-! ## One host is let through -/

section OneFirst
variable {conf : EtcdConf} {hosts : List EtcdHost}

theorem preCheck_new (some_host : hosts ≠ []) (new : hosts.filter EtcdHost.etcdExist = []) :
    preCheck conf hosts = some { clusterExist := false, peerAddresses := [] } := by
  have off : ∀ host ∈ hosts, host.etcdExist = false := by simpa [List.filter_eq_nil_iff] using new
  obtain ⟨first, rest, rfl⟩ := List.exists_cons_of_ne_nil some_host
  have here : getStatus conf none first = some { clusterExist := false, peerAddresses := [] } := by
    rw [getStatus, off first List.mem_cons_self]
    rfl
  have others : rest.any EtcdHost.etcdExist = false := by
    rw [List.any_eq_false]
    intro host member
    simp [off host (List.mem_cons_of_mem _ member)]
  have none_ : members conf rest = [] := by
    rw [members, List.filter_eq_nil_iff.2 fun host member => by simp [off host (List.mem_cons_of_mem _ member)]]
    rfl
  rw [preCheck, List.foldl_cons, here, foldl_getStatus, others, none_]
  rfl

/-- In a new cluster the host is let through whose name is the first one. -/
theorem oneFirst_new (distinct : Distinct hosts) (new : hosts.filter EtcdHost.etcdExist = []) :
    OneFirst conf hosts := by
  have status : preCheck conf hosts = some { clusterExist := false, peerAddresses := [] } :=
    preCheck_new distinct.some_host new
  obtain ⟨first, rest, rfl⟩ := List.exists_cons_of_ne_nil distinct.some_host
  refine ⟨first, List.mem_cons_self, fun host member => ?_, fun member found => ?_⟩
  · have same : first.name = host.name ↔ host = first := by
      constructor
      · intro names
        exact (List.inj_on_of_nodup_map distinct.names List.mem_cons_self member names).symm
      · rintro rfl
        rfl
    by_cases this : host = first
    · simp [status, firstETCDNode, this]
    · simp [status, firstETCDNode, this, same]
  · rw [new] at found
    cases found

/-- In an existing cluster it is a host whose address stands in the entry of the first member. -/
theorem firstETCDNode_exist (distinct : Distinct hosts) {member : EtcdHost} {rest : List EtcdHost}
    (running : hosts.filter EtcdHost.etcdExist = member :: rest) {host : EtcdHost} (inside : host ∈ hosts) (not : Bool) :
    firstETCDNode not (preCheck conf hosts) hosts host = .ok
      (if host.internalIPv4.text.toList <:+: member.internalIPv4.text.toList ∨
        host.internalIPv4.text.toList <:+: member.etcdName.toList then !not else not) := by
  have exist : ∃ host ∈ hosts, host.etcdExist = true := by
    have there : member ∈ hosts.filter EtcdHost.etcdExist := by simp [running]
    exact ⟨member, List.mem_filter.1 there⟩
  obtain ⟨bytes, parsed⟩ := distinct.ipv4 host inside
  obtain ⟨text, dot⟩ := ipv4_text parsed
  simp only [preCheck_eq conf exist, members, running, List.map_cons, firstETCDNode, if_true,
    address_in_entry conf member text dot]

/-- Exactly one host is the first, and in an existing cluster it is the first member, exactly when the address of no
other host stands in the address or in the name of that member. -/
theorem firstETCDNode_unique_iff (conf : EtcdConf) (distinct : Distinct hosts) :
    OneFirst conf hosts ↔ AddressApart hosts := by
  cases running : hosts.filter EtcdHost.etcdExist with
  | nil =>
    refine iff_of_true (oneFirst_new distinct running) fun member found => ?_
    rw [running] at found
    cases found
  | cons member rest =>
    have there : member ∈ hosts := by
      have inside : member ∈ hosts.filter EtcdHost.etcdExist := by simp [running]
      exact (List.mem_filter.1 inside).1
    have asked : ∀ host ∈ hosts, ∀ not, firstETCDNode not (preCheck conf hosts) hosts host = .ok
        (if host.internalIPv4.text.toList <:+: member.internalIPv4.text.toList ∨
          host.internalIPv4.text.toList <:+: member.etcdName.toList then !not else not) :=
      fun host inside not => firstETCDNode_exist distinct running inside not
    constructor
    · rintro ⟨first, -, chosen, earliest⟩ member' found host inside other
      rw [running] at found
      cases found
      obtain rfl := earliest member (by rw [running]; rfl)
      have refused := (chosen host inside).1
      rw [asked host inside false, Except.ok.injEq] at refused
      simp only [other, decide_false, Bool.not_false, ite_eq_right_iff, Bool.true_eq_false, imp_false, not_or] at refused
      exact refused
    · intro apart
      refine ⟨member, there, fun host inside => ?_, fun member' found => ?_⟩
      · rw [asked host inside, asked host inside]
        by_cases same : host = member
        · subst same
          simp
        · have away := apart member (by rw [running]; rfl) host inside same
          simp [same, away.1, away.2]
      · rw [running] at found
        cases found
        rfl

/-- The first host runs etcd, the second does not. -/
def memberAndNew (first second : InternalIP) : List EtcdHost :=
  [⟨"node1", first, some "ETCD_NAME=etcd-node1"⟩, ⟨"node2", second, none⟩]

theorem firstETCDNode_unique_apart : OneFirst ⟨2379, 2380, false⟩
    (memberAndNew ⟨"10.0.0.1", by decide⟩ ⟨"10.0.0.2", by decide⟩) := by
  refine (firstETCDNode_unique_iff _ ⟨by decide, by decide, by decide, ?_⟩).2 ?_
  · intro host inside
    rcases List.mem_cons.1 inside with rfl | inside
    · exact ⟨[10, 0, 0, 1], by decide +kernel⟩
    · cases List.mem_singleton.1 inside
      exact ⟨[10, 0, 0, 2], by decide +kernel⟩
  · intro member found host inside other
    cases found
    rcases List.mem_cons.1 inside with rfl | inside
    · exact absurd rfl other
    · cases List.mem_singleton.1 inside
      decide +kernel

/-- The second address is the beginning of the first, so both hosts are let through. -/
theorem firstETCDNode_twice : ¬ ∀ conf hosts, Distinct hosts → OneFirst conf hosts := by
  intro unique
  obtain ⟨first, -, chosen, earliest⟩ := unique ⟨2379, 2380, false⟩
    (memberAndNew ⟨"10.0.0.10", by decide⟩ ⟨"10.0.0.1", by decide⟩) ⟨by decide, by decide, by decide, by
      intro host inside
      rcases List.mem_cons.1 inside with rfl | inside
      · exact ⟨[10, 0, 0, 10], by decide +kernel⟩
      · cases List.mem_singleton.1 inside
        exact ⟨[10, 0, 0, 1], by decide +kernel⟩⟩
  obtain rfl := earliest _ rfl
  have second := (chosen ⟨"node2", ⟨"10.0.0.1", by decide⟩, none⟩ (List.mem_cons_of_mem _ List.mem_cons_self)).1
  have both : firstETCDNode false (preCheck ⟨2379, 2380, false⟩
      (memberAndNew ⟨"10.0.0.10", by decide⟩ ⟨"10.0.0.1", by decide⟩))
      (memberAndNew ⟨"10.0.0.10", by decide⟩ ⟨"10.0.0.1", by decide⟩) ⟨"node2", ⟨"10.0.0.1", by decide⟩, none⟩ =
        .ok true := by rfl
  rw [both, Except.ok.injEq] at second
  revert second
  decide

end OneFirst

end KubeKey.Etcd
