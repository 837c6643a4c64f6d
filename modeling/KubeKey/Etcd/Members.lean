import Mathlib.Data.List.Nodup
import KubeKey.Etcd.Configure

/-!
# The members of an existing cluster that grows

The pre-check leaves the addresses of the hosts that run etcd in the cache, and
`GenerateConfig` adds each new host before it writes its file. So the initial cluster of a new
host is the members and the new hosts up to itself (`Initial`), however often an attempt has
to be made again, and with this file it is joined.

`CheckMember` wraps an error that is nil, and nil is no error. It never fails because a host
is missing, and a run succeeds whether or not etcd lists the new hosts: what is asked of
it holds exactly where etcd lists them or something else fails (`configureModule_iff`).
-/

namespace KubeKey.Etcd

/-- The addresses of the hosts that run etcd. -/
def members (conf : EtcdConf) (hosts : List EtcdHost) : List String :=
  (hosts.filter EtcdHost.etcdExist).map (EtcdHost.peerAddress conf)

/-- The hosts that do not run etcd, in their order. -/
def newHosts (hosts : List EtcdHost) : List EtcdHost := hosts.filter fun host => !host.etcdExist

/-! ## The pre-check -/

section PreCheck
variable {conf : EtcdConf} {hosts : List EtcdHost}

theorem foldl_getStatus {c : EtcdCluster} : hosts.foldl (getStatus conf) (some c) =
    some { clusterExist := c.clusterExist || hosts.any EtcdHost.etcdExist,
           peerAddresses := c.peerAddresses ++ members conf hosts } := by
  induction hosts generalizing c with
  | nil => simp [members]
  | cons host hosts ih =>
    rw [List.foldl_cons]
    cases running : host.etcdExist with
    | true => simp [getStatus, running, ih, members]
    | false => simp [getStatus, running, ih, members]

/-- What the pre-check finds where some host runs etcd. -/
theorem preCheck_eq (conf : EtcdConf) (running : ∃ host ∈ hosts, host.etcdExist = true) :
    preCheck conf hosts = some { clusterExist := true, peerAddresses := members conf hosts } := by
  cases hosts with
  | nil => simp at running
  | cons host hosts =>
    rw [preCheck, List.foldl_cons]
    cases first : host.etcdExist with
    | true => simp [getStatus, first, foldl_getStatus, members]
    | false =>
      have rest : hosts.any EtcdHost.etcdExist = true := by simpa [first] using running
      simp [getStatus, first, foldl_getStatus, members, rest]

end PreCheck

/-! ## Addresses -/

/-- What comes after the last slash. -/
theorem takeWhile_reverse {x y : List Char} (plain : '/' ∉ y) :
    ((x ++ '/' :: y).reverse.takeWhile (· ≠ '/')).reverse = y := by
  have all : ∀ c ∈ y.reverse, decide (c ≠ '/') = true := by
    intro c member
    rw [decide_eq_true_eq]
    rintro rfl
    exact plain (List.mem_reverse.1 member)
  rw [List.reverse_append, List.reverse_cons, List.append_assoc, List.takeWhile_append_of_pos all]
  simp

/-- Hosts with one address have one IP. -/
theorem peerAddress_inj {conf : EtcdConf} {g h : EtcdHost} (same : g.peerAddress conf = h.peerAddress conf) :
    g.internalIPv4 = h.internalIPv4 := by
  have chars := congrArg String.toList same
  simp only [EtcdHost.peerAddress, EtcdHost.peerURL, String.toList_append, ← List.append_assoc] at chars
  have front := List.append_cancel_right (List.append_cancel_right chars)
  have split : ∀ n ip : List Char,
      n ++ "=".toList ++ "https://".toList ++ ip = (n ++ "=https:/".toList) ++ '/' :: ip := by
    intro n ip
    simp
  rw [split, split] at front
  have ips := congrArg (fun l => (l.reverse.takeWhile (· ≠ '/')).reverse) front
  rw [takeWhile_reverse g.internalIPv4.no_slash, takeWhile_reverse h.internalIPv4.no_slash] at ips
  cases g_ip : g.internalIPv4 with
  | mk text plain =>
    cases h_ip : h.internalIPv4 with
    | mk text' plain' =>
      rw [g_ip, h_ip] at ips
      obtain rfl : text = text' := String.toList_injective ips
      rfl

/-! ## Generating the files -/

/-- The initial cluster: the members, the hosts that were added before, and the host itself. -/
def initialCluster (conf : EtcdConf) (hosts before : List EtcdHost) (host : EtcdHost) : List String :=
  members conf hosts ++ (before ++ [host]).map (EtcdHost.peerAddress conf)

/-- `GenerateConfig` ran on the host. -/
def Calls.ran (calls : Calls) (host : EtcdHost) : Bool := (calls.connect 1 host).isNone

/-- The place of `GenerateConfig` among the tasks. -/
def generateETCDConfig : Task :=
  { name := "GenerateETCDConfig", prepare := .nodeETCDExist true, action := .generateConfig }

/-- What is asked of what is done on a host: its initial cluster lists the members and the new hosts up to itself. -/
def Event.Right (conf : EtcdConf) (calls : Calls) (hosts : List EtcdHost) : Event → Prop
  | .generated host text => ∃ before after, newHosts hosts = before ++ host :: after ∧
      text = String.intercalate "," (initialCluster conf hosts (before.filter calls.ran) host)
  | .joined host text => ∃ before after, newHosts hosts = before ++ host :: after ∧
      text = some (String.intercalate "," (initialCluster conf hosts before host))
  | .listed _ _ => True

/-- What `GenerateConfig` has done on the hosts so far. -/
structure Generated (conf : EtcdConf) (calls : Calls) (hosts done : List EtcdHost) (st : State) : Prop where
  peers : st.cluster.peerAddresses =
    members conf hosts ++ ((newHosts done).filter calls.ran).map (EtcdHost.peerAddress conf)
  right : ∀ e ∈ st.events, e.Right conf calls hosts
  env : ∀ before host after, newHosts done = before ++ host :: after →
    Passes conf calls 1 generateETCDConfig host → (st.env host).map EtcdEnv.initialCluster =
      some (String.intercalate "," (initialCluster conf hosts (before.filter calls.ran) host))

section Generate
variable {conf : EtcdConf} {calls : Calls} {hosts done rest : List EtcdHost} {host : EtcdHost} {st : State}
  {reply : Nat → Reply}

/-- The address has been added, and the file is written. -/
def State.generate (st : State) (host : EtcdHost) : State :=
  (st.refreshConfig host st.clusterState).event (.generated host (String.intercalate "," st.cluster.peerAddresses))

@[simp] theorem addPeer_of_mem {address : String} (there : address ∈ st.cluster.peerAddresses) :
    st.addPeer address = st := if_pos there

theorem mem_addPeer (st : State) (address : String) : address ∈ (st.addPeer address).cluster.peerAddresses := by
  unfold State.addPeer
  split
  · next there => exact there
  · simp

theorem addPeer_events (st : State) (address : String) : (st.addPeer address).events = st.events := by
  unfold State.addPeer
  split <;> rfl

theorem generate_events (st : State) (host : EtcdHost) : (st.generate host).events =
    st.events ++ [.generated host (String.intercalate "," st.cluster.peerAddresses)] := rfl

theorem execute_generateConfig (conf : EtcdConf) (host : EtcdHost) (reply : Reply) (st : State) :
    Action.execute conf host reply st .generateConfig =
      (reply.template, if reply.template.isSome then st.addPeer (host.peerAddress conf)
        else (st.addPeer (host.peerAddress conf)).generate host) := by
  rw [Action.execute, Action.error]
  dsimp only
  split <;> rfl

/-- Once the address is in the cache the attempts only write the file. -/
theorem retry_generateConfig_of_mem (there : host.peerAddress conf ∈ st.cluster.peerAddresses) :
    ∀ {remaining attempt : Nat},
      executeWithRetry conf .generateConfig host reply remaining attempt st = (none, st.generate host) ∨
        ∃ e, executeWithRetry conf .generateConfig host reply remaining attempt st = (some e, st) := by
  intro remaining
  induction remaining with
  | zero => exact fun {_} => .inr ⟨_, rfl⟩
  | succ remaining ih =>
    intro attempt
    rw [executeWithRetry, execute_generateConfig, addPeer_of_mem there]
    cases (reply attempt).template with
    | none => exact .inl rfl
    | some e =>
      dsimp only
      split
      · exact .inr ⟨_, rfl⟩
      · exact ih

/-- The attempts add the address once, and write the file at most once. -/
theorem retry_generateConfig (conf : EtcdConf) (host : EtcdHost) (reply : Nat → Reply) (st : State)
    (remaining attempt : Nat) :
    executeWithRetry conf .generateConfig host reply (remaining + 1) attempt st =
        (none, (st.addPeer (host.peerAddress conf)).generate host) ∨
      ∃ e, executeWithRetry conf .generateConfig host reply (remaining + 1) attempt st =
        (some e, st.addPeer (host.peerAddress conf)) := by
  have there := mem_addPeer st (host.peerAddress conf)
  have same : executeWithRetry conf .generateConfig host reply (remaining + 1) attempt st =
      executeWithRetry conf .generateConfig host reply (remaining + 1) attempt
        (st.addPeer (host.peerAddress conf)) := by
    rw [executeWithRetry, executeWithRetry, execute_generateConfig, execute_generateConfig, addPeer_of_mem there]
  rw [same]
  exact retry_generateConfig_of_mem there

theorem newHosts_append (done rest : List EtcdHost) : newHosts (done ++ rest) = newHosts done ++ newHosts rest :=
  List.filter_append _ _

/-- The host has an address of its own. -/
theorem Generated.fresh (generated : Generated conf calls hosts done st)
    (ips : (hosts.map EtcdHost.internalIPv4).Nodup) (split : hosts = done ++ host :: rest)
    (new : host.etcdExist = false) : host.peerAddress conf ∉ st.cluster.peerAddresses := by
  rw [generated.peers, List.mem_append]
  have other : ∀ g ∈ hosts, g.peerAddress conf = host.peerAddress conf → g = host := fun g member same =>
    List.inj_on_of_nodup_map ips member (by simp [split]) (peerAddress_inj same)
  rintro (member | added)
  · obtain ⟨g, inside, same⟩ := List.mem_map.1 member
    obtain ⟨inside, running⟩ := List.mem_filter.1 inside
    rw [other g inside same, new] at running
    cases running
  · obtain ⟨g, inside, same⟩ := List.mem_map.1 added
    have earlier : g ∈ done := List.mem_of_mem_filter (List.mem_of_mem_filter inside)
    have whole := other g (by rw [split]; exact List.mem_append_left _ earlier) same
    subst whole
    have nodup := ips.of_map
    rw [split] at nodup
    exact (List.disjoint_of_nodup_append nodup) earlier List.mem_cons_self

/-- The cache of a host that was added. -/
theorem addPeer_of_fresh {address : String} (fresh : address ∉ st.cluster.peerAddresses) : st.addPeer address =
    { st with cluster := { st.cluster with peerAddresses := st.cluster.peerAddresses ++ [address] } } := if_neg fresh

theorem splits_of_append_singleton {l before after : List EtcdHost} {x y : EtcdHost}
    (split : l ++ [x] = before ++ y :: after) :
    (∃ after', l = before ++ y :: after') ∨ l = before ∧ x = y := by
  obtain rfl | ⟨front, last, rfl⟩ := after.eq_nil_or_concat'
  · obtain ⟨same, ends⟩ := List.append_inj' split rfl
    exact .inr ⟨same, (List.cons.inj ends).1⟩
  · rw [← List.cons_append, ← List.append_assoc] at split
    exact .inl ⟨front, (List.append_inj' split rfl).1⟩

/-- One host of the task. -/
theorem Generated.next (generated : Generated conf calls hosts done st)
    (ips : (hosts.map EtcdHost.internalIPv4).Nodup) (split : hosts = done ++ host :: rest) :
    Generated conf calls hosts (done ++ [host]) (runOnHost conf calls 1 generateETCDConfig host st).2 := by
  cases new : host.etcdExist with
  | true =>
    have same : newHosts (done ++ [host]) = newHosts done := by simp [newHosts, new]
    have skipped : (runOnHost conf calls 1 generateETCDConfig host st).2 = st := by
      unfold runOnHost
      cases calls.connect 1 host with
      | some e => rfl
      | none => simp [generateETCDConfig, Prepare.preCheck, new]
    rw [skipped]
    exact ⟨by rw [same]; exact generated.peers, generated.right, by rw [same]; exact generated.env⟩
  | false =>
    have more : newHosts (done ++ [host]) = newHosts done ++ [host] := by simp [newHosts, new]
    have place : newHosts hosts = newHosts done ++ host :: newHosts rest := by
      rw [split, newHosts_append]
      simp [newHosts, new]
    cases connected : calls.connect 1 host with
    | some e =>
      have absent : calls.ran host = false := by simp [Calls.ran, connected]
      have untouched : (runOnHost conf calls 1 generateETCDConfig host st).2 = st := by rw [runOnHost, connected]
      rw [untouched]
      refine ⟨?_, generated.right, fun before g after here passes => ?_⟩
      · rw [more, List.filter_append, generated.peers]
        simp [absent]
      · rw [more] at here
        obtain ⟨after', earlier⟩ | ⟨_, rfl⟩ := splits_of_append_singleton here
        · exact generated.env before g after' earlier passes
        · rw [passes.1] at connected
          cases connected
    | none =>
      have present : calls.ran host = true := by simp [Calls.ran, connected]
      have fresh := generated.fresh ips split new
      have list : (st.addPeer (host.peerAddress conf)).cluster.peerAddresses =
          initialCluster conf hosts ((newHosts done).filter calls.ran) host := by
        rw [addPeer_of_fresh fresh, initialCluster]
        simp [generated.peers]
      have files : (st.addPeer (host.peerAddress conf)).env = st.env := by rw [addPeer_of_fresh fresh]
      have peers : (st.addPeer (host.peerAddress conf)).cluster.peerAddresses =
          members conf hosts ++ ((newHosts (done ++ [host])).filter calls.ran).map (EtcdHost.peerAddress conf) := by
        rw [list, initialCluster, more, List.filter_append]
        simp [present]
      have run : runOnHost conf calls 1 generateETCDConfig host st =
          executeWithRetry conf .generateConfig host (calls.reply 1 host) 3 0 st := by
        rw [runOnHost, connected]
        simp [generateETCDConfig, Prepare.preCheck, new, Task.retries]
      obtain written | ⟨e, failed⟩ := retry_generateConfig conf host (calls.reply 1 host) st 2 0
      · rw [run, written]
        refine ⟨peers, fun ev member => ?_, fun before g after here passes => ?_⟩
        · obtain earlier | rfl : ev ∈ st.events ∨ ev = .generated host _ := by
            simpa [generate_events, addPeer_events] using member
          · exact generated.right ev earlier
          · exact ⟨newHosts done, newHosts rest, place, by rw [list]⟩
        · rw [more] at here
          obtain ⟨after', earlier⟩ | ⟨rfl, rfl⟩ := splits_of_append_singleton here
          · have other : g ≠ host := by
              rintro rfl
              have nodup := ips.of_map
              rw [split] at nodup
              have inside : g ∈ newHosts done := by simp [earlier]
              exact (List.disjoint_of_nodup_append nodup) (List.mem_of_mem_filter inside) List.mem_cons_self
            have old := generated.env before g after' earlier passes
            simpa [State.generate, State.event, State.refreshConfig, files, Function.update_of_ne other] using old
          · simp [State.generate, State.event, State.refreshConfig, list]
      · rw [run, failed]
        refine ⟨peers, by rw [addPeer_events]; exact generated.right, fun before g after here passes => ?_⟩
        rw [more] at here
        obtain ⟨after', earlier⟩ | ⟨rfl, rfl⟩ := splits_of_append_singleton here
        · rw [files]
          exact generated.env before g after' earlier passes
        · have passed := (runOnHost_none_iff st).2 passes
          rw [run, failed] at passed
          cases passed

/-- The whole task. -/
theorem Generated.run (generated : Generated conf calls hosts done st)
    (ips : (hosts.map EtcdHost.internalIPv4).Nodup) (split : hosts = done ++ rest) :
    Generated conf calls hosts hosts (runTask conf calls 1 generateETCDConfig rest st).2 := by
  induction rest generalizing done st with
  | nil =>
    rw [List.append_nil] at split
    rw [split]
    exact split ▸ generated
  | cons host rest ih => exact ih (generated.next ips split) (by rw [split]; simp)

end Generate

/-! ## Joining and checking -/

/-- The host that an event joins. -/
def Event.joinedHost : Event → Option EtcdHost
  | .joined host _ => some host
  | _ => none

/-- The text has the client URL of the host. -/
def Lists (conf : EtcdConf) (host : EtcdHost) (memberList : String) : Prop :=
  KubeKey.Variable.containsSub (host.clientURL conf).toList memberList.toList = true

/-- The first answer of `member list` in the attempts of `CheckMember`. -/
def FirstAnswer (calls : Calls) (host : EtcdHost) (memberList : String) : Prop :=
  ∃ i < 3, (∀ j < i, (calls.reply 4 host j).memberList.2 ≠ none) ∧
    (calls.reply 4 host i).memberList = (memberList, none)

/-- What is kept when a host is joined, or nothing of it happens. -/
structure Joins (conf : EtcdConf) (calls : Calls) (hosts done : List EtcdHost) (st : State) : Prop where
  lists : ∀ e ∈ st.events, e.Right conf calls hosts
  order : (st.events.filterMap Event.joinedHost).Sublist (newHosts done)

section Join
variable {conf : EtcdConf} {calls : Calls} {hosts done rest : List EtcdHost} {host : EtcdHost} {st : State}

/-- `CheckMember` has an error only if the list cannot be read. -/
theorem checkMember_error (reply : Reply) :
    Action.error conf host reply .checkMember = none ↔ reply.memberList.2 = none := by
  cases answer : reply.memberList.2 with
  | none => simp [Action.error, answer, wrap]
  | some e => simp [Action.error, answer, wrap]

theorem FirstAnswer.unique {text text' : String} (first : FirstAnswer calls host text)
    (other : FirstAnswer calls host text') : text = text' := by
  obtain ⟨i, _, before, answer⟩ := first
  obtain ⟨j, _, before', answer'⟩ := other
  obtain less | rfl | more := Nat.lt_trichotomy i j
  · exact absurd (by rw [answer]) (before' i less)
  · rw [answer] at answer'
    exact (Prod.mk.inj answer').1
  · exact absurd (by rw [answer']) (before j more)

/-- The actions that neither generate nor join. -/
theorem Joins.execute {a : Action} (generates : a ≠ .generateConfig) (joins : a ≠ .joinMember) {reply : Reply}
    (kept : Joins conf calls hosts hosts st) : Joins conf calls hosts hosts (a.execute conf host reply st).2 := by
  cases a with
  | generateConfig => exact absurd rfl generates
  | joinMember => exact absurd rfl joins
  | healthCheck => exact kept
  | restartETCD => exact kept
  | refreshConfig toExisting =>
    rw [Action.execute]
    split
    · exact kept
    · exact ⟨kept.lists, kept.order⟩
  | checkMember =>
    rw [Action.execute]
    split
    · exact kept
    · constructor
      · intro e member
        obtain earlier | rfl : e ∈ st.events ∨ e = .listed host reply.memberList.1 := by
          simpa [State.event] using member
        · exact kept.lists e earlier
        · trivial
      · rw [State.event, List.filterMap_append]
        exact (List.append_nil _).symm ▸ kept.order

/-- `JoinMember` on one host. -/
def joinETCDMember : Task := { name := "JoinETCDMember", prepare := .nodeETCDExist true, action := .joinMember }

theorem joinETCDMember_prepare : joinETCDMember.prepare = .nodeETCDExist true := rfl

theorem Joins.next (kept : Joins conf calls hosts done st) (split : hosts = done ++ host :: rest)
    (env : ∀ before g after, newHosts hosts = before ++ g :: after → (st.env g).map EtcdEnv.initialCluster =
      some (String.intercalate "," (initialCluster conf hosts before g))) :
    Joins conf calls hosts (done ++ [host]) (runOnHost conf calls 2 joinETCDMember host st).2 ∧
      (runOnHost conf calls 2 joinETCDMember host st).2.env = st.env := by
  have longer : Joins conf calls hosts (done ++ [host]) st :=
    ⟨kept.lists, kept.order.trans (by rw [newHosts_append]; exact List.sublist_append_left _ _)⟩
  obtain ⟨_, untouched⟩ | ⟨new, _, run⟩ := runOnHost_cases conf calls 2 joinETCDMember_prepare host st
  · rw [untouched]
    exact ⟨longer, rfl⟩
  · obtain ⟨i, _, _, passed, result⟩ | ⟨e, failed⟩ := executeWithRetry_cases (a := .joinMember) conf host st (by simp)
      (calls.reply 2 host) 3 0
    · have place : newHosts hosts = newHosts done ++ host :: newHosts rest := by
        rw [split, newHosts_append]
        simp [newHosts, new]
      have joined : (runOnHost conf calls 2 joinETCDMember host st).2 =
          st.event (.joined host ((st.env host).map EtcdEnv.initialCluster)) := by
        refine (congrArg Prod.snd (run.trans result)).trans ?_
        rw [Action.execute, passed]
        rfl
      rw [joined]
      refine ⟨⟨fun e member => ?_, ?_⟩, rfl⟩
      · obtain earlier | rfl : e ∈ st.events ∨ e = .joined host ((st.env host).map EtcdEnv.initialCluster) := by
          simpa [State.event] using member
        · exact kept.lists e earlier
        · exact ⟨newHosts done, newHosts rest, place, env _ _ _ place⟩
      · have more : newHosts (done ++ [host]) = newHosts done ++ [host] := by simp [newHosts, new]
        rw [more, State.event, List.filterMap_append]
        exact kept.order.append (List.Sublist.refl _)
    · have untouched : (runOnHost conf calls 2 joinETCDMember host st).2 = st := congrArg Prod.snd (run.trans failed)
      rw [untouched]
      exact ⟨longer, rfl⟩

/-- The task `JoinETCDMember`. -/
theorem Joins.run (kept : Joins conf calls hosts done st) (split : hosts = done ++ rest)
    (env : ∀ before g after, newHosts hosts = before ++ g :: after → (st.env g).map EtcdEnv.initialCluster =
      some (String.intercalate "," (initialCluster conf hosts before g))) :
    Joins conf calls hosts hosts (runTask conf calls 2 joinETCDMember rest st).2 := by
  induction rest generalizing done st with
  | nil =>
    rw [List.append_nil] at split
    exact split ▸ kept
  | cons host rest ih =>
    obtain ⟨next, files⟩ := kept.next split env
    have whole := ih next (by rw [split]; simp) (by rw [files]; exact env)
    exact whole

/-- The task `CheckETCDMember`. -/
def checkETCDMember : Task := { name := "CheckETCDMember", prepare := .nodeETCDExist true, action := .checkMember }

theorem checkETCDMember_prepare : checkETCDMember.prepare = .nodeETCDExist true := rfl

/-- What one host adds when it is checked: the first answer, if it is a new host and there is one. -/
theorem runOnHost_checkMember (conf : EtcdConf) (calls : Calls) (host : EtcdHost) (st : State) :
    (runOnHost conf calls 4 checkETCDMember host st).2 = st ∧
        (host.etcdExist = false → ¬ Passes conf calls 4 checkETCDMember host) ∨
      ∃ memberList, FirstAnswer calls host memberList ∧
        (runOnHost conf calls 4 checkETCDMember host st).2.events = st.events ++ [.listed host memberList] := by
  obtain ⟨running | refused, untouched⟩ | ⟨_, _, run⟩ := runOnHost_cases conf calls 4
    checkETCDMember_prepare host st
  · exact .inl ⟨untouched, fun new => by rw [running] at new; cases new⟩
  · exact .inl ⟨untouched, fun _ passes => refused passes.1⟩
  · obtain ⟨i, lt, before, passed, result⟩ | ⟨e, failed⟩ := executeWithRetry_cases (a := .checkMember) conf host st
      (by simp) (calls.reply 4 host) 3 0
    · rw [Nat.zero_add] at passed result
      have answered := (checkMember_error _).1 passed
      refine .inr ⟨(calls.reply 4 host i).memberList.1, ⟨i, lt, fun j earlier none => ?_, ?_⟩, ?_⟩
      · refine before j earlier ?_
        rw [Nat.zero_add]
        exact (checkMember_error _).2 none
      · exact Prod.ext rfl answered
      · refine (congrArg (fun r => r.2.events) (run.trans result)).trans ?_
        rw [Action.execute, answered]
        rfl
    · refine .inl ⟨congrArg Prod.snd (run.trans failed), fun _ passes => ?_⟩
      have success := (runOnHost_none_iff st).2 passes
      rw [run] at success
      have none_some := success.symm.trans (congrArg Prod.fst failed)
      cases none_some

end Join

/-! ## The module -/

/-- What is asked of a run in which new hosts join a cluster: the initial cluster of each lists the members and the new
hosts up to itself, without duplicates, the hosts join in their order, and a run that succeeds has every new host in the
list of members. -/
structure ScaledOut (conf : EtcdConf) (calls : Calls) (hosts : List EtcdHost) (run : Bool × State) : Prop where
  lists : ∀ e ∈ run.2.events, e.Right conf calls hosts
  nodup : (members conf hosts ++ (newHosts hosts).map (EtcdHost.peerAddress conf)).Nodup
  order : (run.2.events.filterMap Event.joinedHost).Sublist (newHosts hosts)
  listed : run.1 = true → ∀ host ∈ newHosts hosts, ∃ memberList, .listed host memberList ∈ run.2.events ∧
    Lists conf host memberList

/-- Every task succeeds on every host. -/
def AllPass (conf : EtcdConf) (calls : Calls) (hosts : List EtcdHost) : Prop :=
  ∀ k (inside : k < handleExistCluster.length), ∀ host ∈ hosts, Passes conf calls k handleExistCluster[k] host

section Module
variable {conf : EtcdConf} {calls : Calls} {hosts : List EtcdHost}

/-- The state in which the module starts. -/
def startState (conf : EtcdConf) (hosts : List EtcdHost) : State :=
  ⟨{ clusterExist := true, peerAddresses := members conf hosts }, fun _ => none, []⟩

/-- The addresses are all different. -/
theorem addresses_nodup (conf : EtcdConf) (ips : (hosts.map EtcdHost.internalIPv4).Nodup) :
    (members conf hosts ++ (newHosts hosts).map (EtcdHost.peerAddress conf)).Nodup := by
  have inj : ∀ g ∈ hosts, ∀ h ∈ hosts, g.peerAddress conf = h.peerAddress conf → g = h := fun g inside h inside' same =>
    List.inj_on_of_nodup_map ips inside inside' (peerAddress_inj same)
  have perm : (hosts.filter EtcdHost.etcdExist ++ newHosts hosts).Perm hosts := List.filter_append_perm _ _
  rw [members, ← List.map_append]
  exact (perm.nodup_iff.2 ips.of_map).map_on fun g inside h inside' same =>
    inj g (perm.mem_iff.1 inside) h (perm.mem_iff.1 inside') same

/-- The health check of the hosts that run etcd leaves the state as it is. -/
theorem runTask_healthCheck (k : Nat) {task : Task} (action : task.action = .healthCheck) (st : State) :
    (runTask conf calls k task hosts st).2 = st := by
  refine runTask_keeps (P := fun st' => st' = st) (fun host _ st' same => ?_) rfl
  refine runOnHost_keeps (P := fun st' => st' = st) (fun i st' same => ?_) same
  rw [action]
  exact same

/-- `GenerateConfig` joins nobody. -/
theorem runTask_generateConfig_joined (conf : EtcdConf) (calls : Calls) (hosts : List EtcdHost) (st : State) :
    (runTask conf calls 1 generateETCDConfig hosts st).2.events.filterMap Event.joinedHost =
      st.events.filterMap Event.joinedHost := by
  refine runTask_keeps (P := fun st' => st'.events.filterMap Event.joinedHost = st.events.filterMap Event.joinedHost)
    (fun host _ st' same => ?_) rfl
  refine runOnHost_keeps (P := fun st' => st'.events.filterMap Event.joinedHost = st.events.filterMap Event.joinedHost)
    (fun i st' same => ?_) same
  have run := execute_generateConfig conf host (calls.reply 1 host i) st'
  rw [← same]
  refine (congrArg (fun r => r.2.events.filterMap Event.joinedHost) run).trans ?_
  dsimp only
  split
  · rw [addPeer_events]
  · rw [generate_events, addPeer_events, List.filterMap_append]
    exact List.append_nil _

theorem Generated.start (conf : EtcdConf) (calls : Calls) (hosts : List EtcdHost) :
    Generated conf calls hosts [] (startState conf hosts) := by
  refine ⟨?_, ?_, ?_⟩
  · simp [startState, newHosts]
  · simp [startState]
  · intro before host after here
    simp [newHosts] at here

/-- The tasks after `JoinETCDMember`. -/
def afterJoin : List Task := handleExistCluster.drop 3

/-- The lists and the order of a run, however far it comes. -/
theorem run_joins (conf : EtcdConf) (calls : Calls) (ips : (hosts.map EtcdHost.internalIPv4).Nodup) :
    Joins conf calls hosts hosts (runTasks conf calls hosts 0 handleExistCluster (startState conf hosts)).2 := by
  have tasks : handleExistCluster =
      { name := "ExistETCDHealthCheck", prepare := .nodeETCDExist false, action := .healthCheck, retry := 20 } ::
        generateETCDConfig :: joinETCDMember :: afterJoin := rfl
  rw [tasks]
  obtain ⟨_, health⟩ | ⟨_, health⟩ := runTasks_cons conf calls hosts 0
    { name := "ExistETCDHealthCheck", prepare := .nodeETCDExist false, action := .healthCheck, retry := 20 }
    (generateETCDConfig :: joinETCDMember :: afterJoin) (startState conf hosts)
  · rw [health, runTask_healthCheck 0 rfl]
    have generated := (Generated.start conf calls hosts).run ips (List.nil_append hosts).symm
    have nobody := runTask_generateConfig_joined conf calls hosts (startState conf hosts)
    have joins : Joins conf calls hosts [] (runTask conf calls 1 generateETCDConfig hosts (startState conf hosts)).2 :=
      ⟨generated.right, by rw [nobody]; exact List.nil_sublist _⟩
    have longer : Joins conf calls hosts hosts
        (runTask conf calls 1 generateETCDConfig hosts (startState conf hosts)).2 :=
      ⟨generated.right, by rw [nobody]; exact List.nil_sublist _⟩
    obtain ⟨passed, generate⟩ | ⟨_, generate⟩ := runTasks_cons conf calls hosts 1 generateETCDConfig
      (joinETCDMember :: afterJoin) (startState conf hosts)
    · rw [generate]
      have pass := (runTask_nil_iff _).1 passed
      have joined := joins.run (List.nil_append hosts).symm fun before g after here => by
        have all : ∀ h ∈ newHosts hosts, calls.ran h = true := fun h member => by
          simp [Calls.ran, (pass h (List.mem_of_mem_filter member)).1]
        have whole : before.filter calls.ran = before :=
          List.filter_eq_self.2 fun h member => all h (by rw [here]; exact List.mem_append_left _ member)
        have g_new : g ∈ newHosts hosts := by simp [here]
        have file := generated.env before g after here (pass g (List.mem_of_mem_filter g_new))
        rwa [whole] at file
      obtain ⟨_, join⟩ | ⟨_, join⟩ := runTasks_cons conf calls hosts 2 joinETCDMember afterJoin
        (runTask conf calls 1 generateETCDConfig hosts (startState conf hosts)).2
      · rw [join]
        refine runTasks_keeps (fun i inside host _ st kept => runOnHost_keeps (fun j st kept => ?_) kept) joined
        have other : ∀ task ∈ afterJoin, task.action ≠ .generateConfig ∧ task.action ≠ .joinMember := by decide
        exact kept.execute (other _ (List.getElem_mem inside)).1 (other _ (List.getElem_mem inside)).2
      · rw [join]
        exact joined
    · rw [generate]
      exact longer
  · rw [health, runTask_healthCheck 0 rfl]
    exact ⟨by simp [startState], by simp [startState]⟩

/-- The events stay. -/
theorem execute_events (a : Action) (conf : EtcdConf) (host : EtcdHost) (reply : Reply) (st : State) :
    st.events ⊆ (a.execute conf host reply st).2.events := by
  cases a with
  | healthCheck => exact List.Subset.refl _
  | restartETCD => exact List.Subset.refl _
  | generateConfig =>
    rw [execute_generateConfig]
    dsimp only
    split
    · rw [addPeer_events]
      exact List.Subset.refl _
    · rw [generate_events, addPeer_events]
      exact List.subset_append_left _ _
  | refreshConfig toExisting =>
    rw [Action.execute]
    split
    · exact List.Subset.refl _
    · exact List.Subset.refl _
  | joinMember =>
    rw [Action.execute]
    split
    · exact List.Subset.refl _
    · exact List.subset_append_left _ _
  | checkMember =>
    rw [Action.execute]
    split
    · exact List.Subset.refl _
    · exact List.subset_append_left _ _

/-- Only `CheckMember` reads the list of members. -/
theorem execute_listed {a : Action} (other : a ≠ .checkMember) {host h : EtcdHost} {reply : Reply} {st : State}
    {memberList : String} (listed : .listed h memberList ∈ (a.execute conf host reply st).2.events) :
    .listed h memberList ∈ st.events := by
  cases a with
  | checkMember => exact absurd rfl other
  | healthCheck => exact listed
  | restartETCD => exact listed
  | generateConfig =>
    rw [execute_generateConfig] at listed
    dsimp only at listed
    split at listed
    · rwa [addPeer_events] at listed
    · rw [generate_events, addPeer_events] at listed
      simpa using listed
  | refreshConfig toExisting =>
    rw [Action.execute] at listed
    split at listed
    · exact listed
    · exact listed
  | joinMember =>
    rw [Action.execute] at listed
    split at listed
    · exact listed
    · simpa [State.event] using listed

/-- A list that the run has read is a first answer. -/
theorem run_listed {h : EtcdHost} {memberList : String}
    (listed : .listed h memberList ∈
      (runTasks conf calls hosts 0 handleExistCluster (startState conf hosts)).2.events) :
    FirstAnswer calls h memberList := by
  refine runTasks_keeps (P := fun st => .listed h memberList ∈ st.events → FirstAnswer calls h memberList)
    (fun i inside host _ st kept => ?_) (by simp [startState]) listed
  by_cases check : i = 4
  · subst check
    obtain ⟨untouched, _⟩ | ⟨answer, first, read⟩ := runOnHost_checkMember conf calls host st
    · intro later
      exact kept (by rwa [← untouched])
    · intro later
      have here : .listed h memberList ∈ st.events ++ [.listed host answer] := read ▸ later
      obtain earlier | same := List.mem_append.1 here
      · exact kept earlier
      · obtain ⟨rfl, rfl⟩ := Event.listed.inj (List.mem_singleton.1 same)
        exact first
  · have other : ∀ j (inside : j < handleExistCluster.length), j ≠ 4 → handleExistCluster[j].action ≠ .checkMember := by
      decide
    exact runOnHost_keeps (P := fun st => .listed h memberList ∈ st.events → FirstAnswer calls h memberList)
      (fun j st kept later => kept (execute_listed (other i inside check) later)) kept

/-- A run that succeeds has read a list for every new host. -/
theorem run_checked (success : (runTasks conf calls hosts 0 handleExistCluster (startState conf hosts)).1 = true)
    {host : EtcdHost} (new : host ∈ newHosts hosts) : ∃ memberList,
      .listed host memberList ∈ (runTasks conf calls hosts 0 handleExistCluster (startState conf hosts)).2.events := by
  obtain ⟨member, absent⟩ := List.mem_filter.1 new
  have passes := runTasks_fst_iff.1 success 4 (by decide) host member
  rw [Nat.zero_add] at passes
  refine runTasks_reaches (P := fun st => ∃ memberList, .listed host memberList ∈ st.events)
    (fun a g reply st => ?_) (i := 4) (by decide) (fun st => ?_) success
  · rintro ⟨memberList, listed⟩
    exact ⟨memberList, execute_events a conf g reply st listed⟩
  · refine runTask_reaches (P := fun st => ∃ memberList, .listed host memberList ∈ st.events)
      (fun a g reply st => ?_) member (fun st => ?_) st
    · rintro ⟨memberList, listed⟩
      exact ⟨memberList, execute_events a conf g reply st listed⟩
    · obtain ⟨_, fails⟩ | ⟨answer, _, read⟩ := runOnHost_checkMember conf calls host st
      · exact absurd passes (fails (by simpa using absent))
      · exact ⟨answer, read ▸ List.mem_append_right _ List.mem_cons_self⟩

/-- A run on an existing cluster is as asked exactly if some task fails, or etcd lists every new host when it is asked
first. -/
theorem configureModule_iff (conf : EtcdConf) (calls : Calls) {hosts : List EtcdHost}
    (ips : (hosts.map EtcdHost.internalIPv4).Nodup) (running : ∃ host ∈ hosts, host.etcdExist = true) :
    (∃ cluster, preCheck conf hosts = some cluster ∧
      ScaledOut conf calls hosts (configureModule conf calls hosts cluster)) ↔
      (AllPass conf calls hosts → ∀ host ∈ newHosts hosts, ∀ memberList, FirstAnswer calls host memberList →
        Lists conf host memberList) := by
  have cluster := preCheck_eq conf running
  have run : configureModule conf calls hosts { clusterExist := true, peerAddresses := members conf hosts } =
      runTasks conf calls hosts 0 handleExistCluster (startState conf hosts) := rfl
  have success : (runTasks conf calls hosts 0 handleExistCluster (startState conf hosts)).1 = true ↔
      AllPass conf calls hosts := by
    rw [runTasks_fst_iff, AllPass]
    simp only [Nat.zero_add]
  constructor
  · rintro ⟨found, given, scaled⟩ pass host new memberList first
    rw [cluster] at given
    cases given
    rw [run] at scaled
    obtain ⟨answer, listed, lists⟩ := scaled.listed (success.2 pass) host new
    rwa [first.unique (run_listed listed)]
  · intro answers
    refine ⟨_, cluster, ?_⟩
    rw [run]
    have joins := run_joins conf calls ips
    refine ⟨joins.lists, addresses_nodup conf ips, joins.order, fun succeeded host new => ?_⟩
    obtain ⟨memberList, listed⟩ := run_checked succeeded new
    exact ⟨memberList, listed, answers (success.1 succeeded) host new memberList (run_listed listed)⟩

end Module

/-- A host that runs etcd, and a new one. -/
def twoHosts : List EtcdHost :=
  [⟨"node1", ⟨"10.0.0.1", by decide⟩, some "ETCD_NAME=etcd1"⟩, ⟨"node2", ⟨"10.0.0.2", by decide⟩, none⟩]

def twoHostsConf : EtcdConf := ⟨2379, 2380, false⟩

/-- Every command succeeds, and the list of members that it prints has no client URL. -/
def silentCalls : Calls := ⟨fun _ _ => none, fun _ _ _ => {}⟩

theorem silentCalls_pass : AllPass twoHostsConf silentCalls twoHosts := by
  have retries : ∀ k (inside : k < handleExistCluster.length), 0 < handleExistCluster[k].retries := by decide
  intro k inside host _
  refine ⟨rfl, fun _ => ⟨0, retries k inside, ?_⟩⟩
  cases handleExistCluster[k].action with
  | checkMember => exact (checkMember_error _).2 rfl
  | _ => rfl

theorem configureModule_iff_twoHosts : (twoHosts.map EtcdHost.internalIPv4).Nodup ∧
    (∃ host ∈ twoHosts, host.etcdExist = true) ∧
    ((∃ cluster, preCheck twoHostsConf twoHosts = some cluster ∧
      ScaledOut twoHostsConf silentCalls twoHosts (configureModule twoHostsConf silentCalls twoHosts cluster)) ↔
      (AllPass twoHostsConf silentCalls twoHosts → ∀ host ∈ newHosts twoHosts, ∀ memberList,
        FirstAnswer silentCalls host memberList → Lists twoHostsConf host memberList)) := by
  have ips : (twoHosts.map EtcdHost.internalIPv4).Nodup := by decide
  have running : ∃ host ∈ twoHosts, host.etcdExist = true := by decide
  exact ⟨ips, running, configureModule_iff twoHostsConf silentCalls ips running⟩

/-- The run succeeds, and the new host is in no list. -/
theorem twoHosts_not_listed : ∃ cluster, preCheck twoHostsConf twoHosts = some cluster ∧
    (configureModule twoHostsConf silentCalls twoHosts cluster).1 = true ∧
    ¬ ScaledOut twoHostsConf silentCalls twoHosts (configureModule twoHostsConf silentCalls twoHosts cluster) := by
  have running : ∃ host ∈ twoHosts, host.etcdExist = true := by decide
  have run : configureModule twoHostsConf silentCalls twoHosts
      { clusterExist := true, peerAddresses := members twoHostsConf twoHosts } =
      runTasks twoHostsConf silentCalls twoHosts 0 handleExistCluster (startState twoHostsConf twoHosts) := rfl
  have success : (runTasks twoHostsConf silentCalls twoHosts 0 handleExistCluster
      (startState twoHostsConf twoHosts)).1 = true := by
    rw [runTasks_fst_iff]
    simp only [Nat.zero_add]
    exact silentCalls_pass
  refine ⟨_, preCheck_eq twoHostsConf running, run ▸ success, fun scaled => ?_⟩
  rw [run] at scaled
  obtain ⟨memberList, listed, lists⟩ := scaled.listed success ⟨"node2", ⟨"10.0.0.2", by decide⟩, none⟩ (by decide)
  obtain ⟨i, _, _, answer⟩ := run_listed listed
  obtain rfl : "" = memberList := (Prod.mk.inj answer).1
  cases lists

end KubeKey.Etcd
