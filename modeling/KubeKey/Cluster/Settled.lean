import KubeKey.Cluster.Defaults
import KubeKey.Cluster.RoleLists

/-!
# Filling in the defaults again

A specification with its defaults filled in is meant to stay as it is when they are filled in
again, and so is the result of a call on the specification that the first call has left changed.
Two things come between (`settled_iff`): a first call that chooses the address of an internal
load balancer leaves a specification that the next one refuses, and a home directory that
begins like a path below it is put into a key path again.
-/

namespace KubeKey.Cluster.Defaults

open KubeKey.Go KubeKey.Text.Strings

section Fields
variable {β : Type} [DecidableEq β]

theorem orDefault_again (zero default x : β) :
    orDefault zero default (orDefault zero default x) = orDefault zero default x := by
  unfold orDefault
  by_cases unset : x = zero
  · rw [if_pos unset]
    split <;> rfl
  · rw [if_neg unset, if_neg unset]

theorem orDefault_of_eq {zero default x y : β} (filled : y = orDefault zero default x) :
    orDefault zero default y = y := by
  rw [filled, orDefault_again]

theorem orDefault_of_ne {zero x : β} (set : x ≠ zero) (default : β) : orDefault zero default x = x := if_neg set

theorem orDefault_ne {zero default : β} (some_ : default ≠ zero) (x : β) : orDefault zero default x ≠ zero := by
  unfold orDefault
  split
  · exact some_
  · next set => exact set

end Fields

/-! ### The home directory -/

section Home
variable {ws rest : List Char}

theorem dropWhile_spaces (all : ∀ c ∈ ws, c ∈ spaces) (s : List Char) :
    (ws ++ s).dropWhile (· ∈ spaces) = s.dropWhile (· ∈ spaces) := by
  induction ws with
  | nil => rfl
  | cons c ws ih =>
    obtain ⟨here, further⟩ := List.forall_mem_cons.mp all
    rw [List.cons_append, List.dropWhile_cons_of_pos (by simpa using here)]
    exact ih further

/-- Trimming keeps what begins with the two characters. -/
theorem trimSpace_home (s : List Char) :
    "~/".toList.isPrefixOf (trimSpace s) = true ↔ ['~', '/'] <+: s.dropWhile (· ∈ spaces) := by
  rw [List.isPrefixOf_iff_prefix]
  constructor
  · intro begins
    have shorter : trimSpace s <+: s.dropWhile (· ∈ spaces) := by
      rw [trimSpace, ← List.reverse_suffix, List.reverse_reverse]
      exact List.dropWhile_suffix _
    exact begins.trans shorter
  · rintro ⟨rest, split⟩
    have kept : ['/', '~'].dropWhile (· ∈ spaces) = ['/', '~'] := by decide
    rw [trimSpace, ← split, List.reverse_append, List.dropWhile_append]
    split
    · rw [show ['~', '/'].reverse = ['/', '~'] from rfl, kept]
      exact List.prefix_refl _
    · rw [List.reverse_append]
      exact List.prefix_append _ _

/-- A path that starts at home, after spaces. -/
theorem split_of_home {s : List Char} (begins : ['~', '/'] <+: s.dropWhile (· ∈ spaces)) :
    ∃ ws rest, (∀ c ∈ ws, c ∈ spaces) ∧ s = ws ++ '~' :: '/' :: rest := by
  obtain ⟨rest, split⟩ := begins
  refine ⟨s.takeWhile (· ∈ spaces), rest, fun c there => by simpa using List.mem_takeWhile_imp there, ?_⟩
  rw [show '~' :: '/' :: rest = ['~', '/'] ++ rest from rfl, split, List.takeWhile_append_dropWhile]

theorem replaceFirst_home (all : ∀ c ∈ ws, c ∈ spaces) (new : List Char) :
    replaceFirst "~/".toList new (ws ++ '~' :: '/' :: rest) = ws ++ new ++ rest := by
  induction ws with
  | nil => rfl
  | cons c ws ih =>
    obtain ⟨here, further⟩ := List.forall_mem_cons.mp all
    have other : ('~' == c) = false := by
      rw [beq_eq_false_iff_ne]
      rintro rfl
      exact absurd here (by decide)
    rw [List.cons_append, replaceFirst, if_neg (by simp [List.isPrefixOf, other]), ih further]
    rfl

/-- Whether the new path starts at home is decided by the home directory. -/
theorem home_of_replaced (all : ∀ c ∈ ws, c ∈ spaces) (home : List Char) :
    ['~', '/'] <+: (ws ++ (home ++ ['/']) ++ rest).dropWhile (· ∈ spaces) ↔
      ['~', '/'] <+: (home ++ ['/']).dropWhile (· ∈ spaces) := by
  have slash : ['/'].dropWhile (· ∈ spaces) = ['/'] := by decide
  have ends : ∃ a, (home ++ ['/']).dropWhile (· ∈ spaces) = a ++ ['/'] := by
    rw [List.dropWhile_append]
    split
    · exact ⟨[], slash⟩
    · exact ⟨_, rfl⟩
  obtain ⟨a, ends⟩ := ends
  have whole : (ws ++ (home ++ ['/']) ++ rest).dropWhile (· ∈ spaces) = a ++ ['/'] ++ rest := by
    rw [List.append_assoc, dropWhile_spaces all, List.dropWhile_append, ends]
    rw [if_neg (by simp)]
  rw [whole, ends]
  refine ⟨fun begins => ?_, fun begins => begins.trans (List.prefix_append _ _)⟩
  cases a with
  | nil => simp at begins
  | cons c a =>
    cases a with
    | nil => simpa using begins
    | cons d a => simpa using begins

end Home

/-- Putting in the home directory leaves no path that starts at home, or nothing to change in it. -/
def StaysHome (home : String) : Prop := home = "~" ∨ startsAtHome (home ++ "/") = false

instance (home : String) : Decidable (StaysHome home) := inferInstanceAs (Decidable (_ ∨ _))

section Path
variable {home path : String}

theorem startsAtHome_iff : startsAtHome path = true ↔ ['~', '/'] <+: path.toList.dropWhile (· ∈ spaces) :=
  trimSpace_home path.toList

theorem replaceHome_ne (starts : startsAtHome path = true) : replaceHome home path ≠ "" := by
  obtain ⟨ws, rest, spaces, split⟩ := split_of_home (startsAtHome_iff.mp starts)
  intro empty
  have chars := congrArg String.toList empty
  rw [replaceHome, split, replaceFirst_home spaces] at chars
  simp at chars

/-- Putting in the home directory twice is putting it in once, if it stays at home. -/
theorem replaceHome_again (starts : startsAtHome path = true) :
    (if startsAtHome (replaceHome home path) = true then replaceHome home (replaceHome home path)
      else replaceHome home path) = replaceHome home path ↔ StaysHome home := by
  obtain ⟨ws, rest, spaces, split⟩ := split_of_home (startsAtHome_iff.mp starts)
  have replaced : (replaceHome home path).toList = ws ++ (home ++ "/").toList ++ rest := by
    rw [replaceHome, split, replaceFirst_home spaces, String.toList_ofList]
  have same : startsAtHome (replaceHome home path) = startsAtHome (home ++ "/") := by
    rw [Bool.eq_iff_iff, startsAtHome_iff, startsAtHome_iff, replaced, String.toList_append]
    exact home_of_replaced spaces home.toList
  rw [same, StaysHome]
  cases again : startsAtHome (home ++ "/") with
  | false => simp
  | true =>
    rw [if_pos rfl]
    rw [← same] at again
    obtain ⟨ws', rest', spaces', split'⟩ := split_of_home (startsAtHome_iff.mp again)
    simp only [Bool.true_eq_false, or_false]
    rw [replaceHome, ← String.toList_inj, String.toList_ofList, split', replaceFirst_home spaces']
    constructor
    · intro kept
      have slash : (home ++ "/").toList = "~/".toList := by
        rw [show ws' ++ '~' :: '/' :: rest' = ws' ++ "~/".toList ++ rest' by simp, List.append_cancel_right_eq,
          List.append_cancel_left_eq] at kept
        exact kept
      rw [String.toList_append, show "~/".toList = "~".toList ++ "/".toList from rfl,
        List.append_cancel_right_eq] at slash
      exact String.toList_inj.mp slash
    · rintro rfl
      simp

end Path

/-! ### The sections -/

section Sections
variable {α : Type} {env : Env}

/-- Each of the two addresses stands in for the other. -/
theorem addresses_again (address internalAddress : String) :
    let address' := if address = "" ∧ internalAddress ≠ "" then internalAddress else address
    let internalAddress' := if internalAddress = "" ∧ address' ≠ "" then address' else internalAddress
    let address'' := if address' = "" ∧ internalAddress' ≠ "" then internalAddress' else address'
    address'' = address' ∧
      (if internalAddress' = "" ∧ address'' ≠ "" then address'' else internalAddress') = internalAddress' := by
  by_cases outer : address = "" <;> by_cases inner : internalAddress = "" <;> simp [outer, inner]

/-- The path of a key that is given or that the defaults put there. -/
theorem keyPath_again {home : String} {host : HostCfg α} (key : host.privateKey = "") :
    keyPath (setDefaultHost home host) = (setDefaultHost home host).privateKeyPath := by
  unfold keyPath
  split
  · next both =>
    obtain ⟨password, path⟩ := both
    change host.password = "" at password
    simp only [setDefaultHost, if_pos key] at path
    split at path
    · next replaced => exact absurd path (replaceHome_ne replaced.2)
    · rw [keyPath] at path
      split at path
      · exact absurd path (by decide)
      · next one => exact absurd ⟨password, path⟩ one
  · rfl

/-- A host keeps its defaults, unless its key path is put at home again. -/
theorem setDefaultHost_again_iff {home : String} {host : HostCfg α} :
    setDefaultHost home (setDefaultHost home host) = setDefaultHost home host ↔
      (host.privateKey = "" → startsAtHome (keyPath host) = true → StaysHome home) := by
  have addresses := addresses_again host.address host.internalAddress
  have path : setDefaultHost home (setDefaultHost home host) = setDefaultHost home host ↔
      (setDefaultHost home (setDefaultHost home host)).privateKeyPath = (setDefaultHost home host).privateKeyPath := by
    refine ⟨fun same => by rw [same], fun same => ?_⟩
    rw [HostCfg.mk.injEq]
    exact ⟨rfl, addresses.1, addresses.2, orDefault_again 0 22 _, orDefault_again "" "root" _,
      rfl, rfl, same, orDefault_again "" defaultArch _, orDefault_again none (some 30) _, rfl⟩
  rw [path]
  by_cases key : host.privateKey = ""
  · have again : (setDefaultHost home (setDefaultHost home host)).privateKeyPath =
        if keyPath (setDefaultHost home host) ≠ "" ∧ startsAtHome (keyPath (setDefaultHost home host)) = true then
          replaceHome home (keyPath (setDefaultHost home host))
        else keyPath (setDefaultHost home host) := if_pos key
    have once : (setDefaultHost home host).privateKeyPath =
        if keyPath host ≠ "" ∧ startsAtHome (keyPath host) = true then replaceHome home (keyPath host)
        else keyPath host := if_pos key
    rw [again, keyPath_again key]
    cases starts : startsAtHome (keyPath host) with
    | false =>
      rw [starts, if_neg (by simp)] at once
      rw [once]
      simp [starts]
    | true =>
      have some_ : keyPath host ≠ "" := by
        intro empty
        rw [empty] at starts
        exact absurd starts (by decide)
      rw [if_pos ⟨some_, starts⟩] at once
      rw [once]
      simp only [key, forall_const, ne_eq, replaceHome_ne starts, not_false_eq_true, true_and]
      exact replaceHome_again starts
  · have kept : ∀ host' : HostCfg α, host'.privateKey ≠ "" →
        (setDefaultHost home host').privateKeyPath = host'.privateKeyPath := fun host' given => if_neg given
    have given : (setDefaultHost home host).privateKey ≠ "" := key
    rw [kept _ given]
    simp [key]

/-! ### The version and the type -/

theorem splitDash_cases (v : String) : ('-' ∉ v.toList ∧ splitDash v = [v]) ∨
    ∃ first second rest, splitDash v = first :: second :: rest ∧ '-' ∉ first.toList := by
  by_cases dash : '-' ∈ v.toList
  · obtain ⟨front, back, split, plain_⟩ := List.eq_append_cons_of_mem dash
    obtain ⟨second, rest, parts⟩ := List.exists_cons_of_ne_nil (List.splitOn_ne_nil '-' back)
    refine Or.inr ⟨String.ofList front, String.ofList second, rest.map String.ofList, ?_, ?_⟩
    · rw [splitDash, split, List.splitOn_append_cons_self_of_not_mem plain_, parts]
      rfl
    · rwa [String.toList_ofList]
  · refine Or.inl ⟨dash, ?_⟩
    rw [splitDash, List.splitOn_eq_singleton dash, List.map_singleton, String.ofList_toList]

/-- A version without a dash stays, and so does the type. -/
theorem versionAndType_plain {k : Kubernetes α} (plain_ : '-' ∉ k.version.toList) :
    versionAndType k = (orDefault "" defaultKubeVersion k.version, k.type) := by
  unfold versionAndType orDefault
  split
  · rfl
  · rcases splitDash_cases k.version with ⟨_, single⟩ | ⟨first, second, rest, parts, _⟩
    · rw [single]
    · rw [splitDash, List.splitOn_eq_singleton plain_] at parts
      cases parts

/-- The version has no suffix any more. -/
theorem version_plain (k : Kubernetes α) : '-' ∉ (versionAndType k).1.toList := by
  unfold versionAndType
  split
  · exact (by decide : '-' ∉ defaultKubeVersion.toList)
  · rcases splitDash_cases k.version with ⟨plain_, single⟩ | ⟨first, second, rest, parts, plain_⟩
    · rw [single]
      exact plain_
    · rw [parts]
      exact plain_

theorem returned_plain (k : Kubernetes α) : '-' ∉ (returnedKubernetes (filledKubernetes env k)).version.toList := by
  change '-' ∉ (orDefault "" defaultKubeVersion (versionAndType k).1).toList
  unfold orDefault
  split
  · decide
  · exact version_plain k

/-- The type is k3s only if the version or the type says so. -/
theorem type_ne_k3s {k : Kubernetes α} (type : k.type ≠ k3s) (suffix : (splitDash k.version)[1]? ≠ some k3s) :
    (filledKubernetes env k).type ≠ k3s := by
  have split : (versionAndType k).2 ≠ k3s := by
    unfold versionAndType
    split
    · exact type
    · rcases splitDash_cases k.version with ⟨_, single⟩ | ⟨first, second, rest, parts, _⟩
      · rw [single]
        exact type
      · rw [parts] at suffix ⊢
        exact fun same => suffix (congrArg some same)
  change orDefault "" "kubernetes" (versionAndType k).2 ≠ k3s
  unfold orDefault
  split
  · decide
  · exact split

/-- Without an endpoint for its version, a container manager has none for the default version. -/
theorem runtimeEndpoint_default {version containerManager : String}
    (none_ : runtimeEndpoint env version containerManager = "") :
    runtimeEndpoint env defaultKubeVersion containerManager = "" := by
  unfold runtimeEndpoint at *
  split
  · rw [show defaultKubeVersion = "v1.23.17" from rfl, env.atLeastV124_default]
    rfl
  · next other => rwa [if_neg other] at none_

/-- The endpoint is found again for the version that is returned. -/
theorem endpoint_again (version containerManager endpoint : String) :
    orDefault "" (runtimeEndpoint env (orDefault "" defaultKubeVersion version) containerManager)
      (orDefault "" (runtimeEndpoint env version containerManager) endpoint) =
      orDefault "" (runtimeEndpoint env version containerManager) endpoint := by
  by_cases empty : orDefault "" (runtimeEndpoint env version containerManager) endpoint = ""
  · have none_ : runtimeEndpoint env version containerManager = "" := by
      unfold orDefault at empty
      split at empty
      · exact empty
      · next given => exact absurd empty given
    have again : runtimeEndpoint env (orDefault "" defaultKubeVersion version) containerManager = "" := by
      unfold orDefault
      split
      · exact runtimeEndpoint_default none_
      · exact none_
    rw [empty, again]
    rfl
  · exact orDefault_of_ne empty _

theorem filledKubernetes_plain {k : Kubernetes α} (plain_ : '-' ∉ k.version.toList) :
    filledKubernetes env k = { k with
      version := orDefault "" defaultKubeVersion k.version
      type := orDefault "" "kubernetes" k.type
      clusterName := orDefault "" defaultClusterName k.clusterName
      dnsDomain := orDefault "" defaultDNSDomain k.dnsDomain
      containerManager := orDefault "" docker k.containerManager
      containerRuntimeEndpoint := orDefault "" (runtimeEndpoint env (orDefault "" defaultKubeVersion k.version)
        (orDefault "" docker k.containerManager)) k.containerRuntimeEndpoint } := by
  rw [filledKubernetes, versionAndType_plain plain_]

/-- Filling in the section again, as it was left or as it was returned, leads to the section that was returned. -/
theorem kubernetes_again (k : Kubernetes α) :
    returnedKubernetes (filledKubernetes env (filledKubernetes env k)) = returnedKubernetes (filledKubernetes env k) ∧
      returnedKubernetes (filledKubernetes env (returnedKubernetes (filledKubernetes env k))) =
        returnedKubernetes (filledKubernetes env k) := by
  have left : '-' ∉ (filledKubernetes env k).version.toList := version_plain k
  have returned : '-' ∉ (returnedKubernetes (filledKubernetes env k)).version.toList := returned_plain k
  have manager := orDefault_again "" docker k.containerManager
  have endpoint : orDefault "" (runtimeEndpoint env (orDefault "" defaultKubeVersion (filledKubernetes env k).version)
      (orDefault "" docker (filledKubernetes env k).containerManager))
        (filledKubernetes env k).containerRuntimeEndpoint = (filledKubernetes env k).containerRuntimeEndpoint := by
    rw [show orDefault "" docker (filledKubernetes env k).containerManager = (filledKubernetes env k).containerManager
      from manager]
    exact endpoint_again _ _ _
  have version := orDefault_again "" defaultKubeVersion (filledKubernetes env k).version
  have clusterName := orDefault_again "" defaultClusterName (filledKubernetes env k).clusterName
  constructor
  · rw [filledKubernetes_plain left, Kubernetes.mk.injEq]
    exact ⟨orDefault_again _ _ _, version, clusterName, orDefault_again _ _ _, rfl, rfl, rfl, rfl, rfl, manager,
      endpoint, rfl⟩
  · rw [filledKubernetes_plain returned, Kubernetes.mk.injEq]
    refine ⟨orDefault_again _ _ _, ?_, ?_, orDefault_again _ _ _, orDefault_again _ _ _, orDefault_again _ _ _,
      orDefault_again _ _ _, orDefault_again _ _ _, orDefault_again _ _ _, manager, ?_, rfl⟩
    · exact (orDefault_again _ _ _).trans version
    · exact (orDefault_again _ _ _).trans clusterName
    · exact (congrArg (fun v => orDefault "" (runtimeEndpoint env v
        (orDefault "" docker (filledKubernetes env k).containerManager))
          (filledKubernetes env k).containerRuntimeEndpoint) version).trans endpoint

/-- The etcd section stays, next to the Kubernetes section as it was left or as it was returned. -/
theorem etcd_again (env : Env) (cfg cfg' : ClusterSpec α) (etcd : cfg'.etcd = (setDefaultEtcdCfg cfg).etcd)
    (type : cfg'.kubernetes.type = (filledKubernetes env cfg.kubernetes).type)
    (plain_ : '-' ∉ cfg'.kubernetes.version.toList) : (setDefaultEtcdCfg cfg').etcd = cfg'.etcd := by
  have suffix : (splitDash cfg'.kubernetes.version)[1]? = none := by
    rw [splitDash, List.splitOn_eq_singleton plain_]
    rfl
  have kind : (setDefaultEtcdCfg cfg').etcd.type = cfg'.etcd.type := by
    refine if_neg fun either => ?_
    rw [suffix, type, etcd] at either
    simp only [reduceCtorEq, or_false] at either
    change (setDefaultEtcdCfg cfg).etcd.type = "" ∨ _ ∧ (setDefaultEtcdCfg cfg).etcd.type = kubeadm at either
    by_cases first : cfg.etcd.type = "" ∨ (cfg.kubernetes.type = k3s ∨
        (splitDash cfg.kubernetes.version)[1]? = some k3s) ∧ cfg.etcd.type = kubeadm
    · have installed : (setDefaultEtcdCfg cfg).etcd.type = kubeKey := if_pos first
      rw [installed] at either
      exact either.elim (by decide) fun both => absurd both.2 (by decide)
    · have kept : (setDefaultEtcdCfg cfg).etcd.type = cfg.etcd.type := if_neg first
      rw [kept] at either
      rw [not_or, not_and'] at first
      rcases either with empty | ⟨k3s_, kubeadm_⟩
      · exact first.1 empty
      · obtain ⟨type_, suffix_⟩ := not_or.mp (first.2 kubeadm_)
        exact type_ne_k3s type_ suffix_ k3s_
  rw [EtcdCluster.mk.injEq]
  exact ⟨kind, orDefault_of_eq (congrArg (·.backupDir) etcd), orDefault_of_eq (congrArg (·.backupPeriod) etcd),
    orDefault_of_eq (congrArg (·.keepBackupNumber) etcd), orDefault_of_eq (congrArg (·.backupScriptDir) etcd), rfl⟩

theorem network_again {cfg cfg' : ClusterSpec α} (network : cfg'.network = (setDefaultNetworkCfg cfg).network) :
    (setDefaultNetworkCfg cfg').network = (setDefaultNetworkCfg cfg).network := by
  simp only [setDefaultNetworkCfg, network, setDefaultKubeovn, orDefault_again]

/-! ### The endpoint -/

section Endpoint
variable {c c' : ControlPlaneEndpoint} {masterGroup : List (HostCfg α)}

/-- The address is chosen again as it was. -/
theorem lbAddress_again {address : String} (chosen : lbAddress c masterGroup = .ok address)
    (dns : c'.externalDNS = c.externalDNS) (same : c'.address = address) : lbAddress c' masterGroup = .ok address := by
  have external : c'.enableExternalDNS = c.enableExternalDNS := congrArg (·.getD false) dns
  unfold lbAddress at *
  rw [external, same]
  split at chosen
  · next asked =>
    cases masterGroup with
    | nil => cases chosen
    | cons master rest =>
      dsimp only at chosen ⊢
      split
      · exact chosen
      · rfl
  · next given =>
    cases chosen
    rw [if_neg given]

/-- The endpoint stays, unless the address has been chosen for an internal load balancer. -/
theorem filledEndpoint_again (filled : filledEndpoint c masterGroup = .ok c') :
    filledEndpoint c' masterGroup = .ok c' ↔ (c.isInternalLBEnabled = true → c'.address = "") := by
  unfold filledEndpoint at filled
  split at filled
  · cases filled
  · cases chosen : lbAddress c masterGroup with
    | error ending =>
      rw [chosen] at filled
      cases filled
    | ok address =>
      rw [chosen] at filled
      have filled' := Except.ok.inj filled
      have same : c'.address = address ∧ c'.externalDNS = c.externalDNS ∧
          c'.isInternalLBEnabled = c.isInternalLBEnabled ∧ c'.domain = orDefault "" defaultLBDomain c.domain ∧
          c'.port = orDefault 0 6443 c.port ∧ c'.kubeVip.mode = orDefault "" defaultKubeVipMode c.kubeVip.mode := by
        rw [← filled']
        exact ⟨rfl, rfl, rfl, rfl, rfl, rfl⟩
      obtain ⟨address_, dns, internal, domain, port, mode⟩ := same
      rw [filledEndpoint, lbAddress_again chosen dns address_, internal]
      by_cases refused : c.isInternalLBEnabled = true ∧ c'.address ≠ ""
      · rw [if_pos refused]
        exact ⟨fun exits => (nomatch exits), fun empty => absurd (empty refused.1) refused.2⟩
      · rw [if_neg refused]
        refine ⟨fun _ enabled => by_contra fun given => refused ⟨enabled, given⟩, fun _ => ?_⟩
        rw [← address_, Except.map, orDefault_of_eq domain, orDefault_of_eq port, orDefault_of_eq mode]

/-- An internal load balancer gets no address with an external DNS, or from a first master without one. -/
theorem address_empty_iff (filled : filledEndpoint c masterGroup = .ok c') (enabled : c.isInternalLBEnabled = true) :
    c'.address = "" ↔
      c.enableExternalDNS = true ∨ ∀ master, masterGroup.head? = some master → master.getInternalIPv4Address = "" := by
  unfold filledEndpoint at filled
  split at filled
  · cases filled
  · next accepted =>
    have none_ : c.address = "" := by_contra fun given => accepted ⟨enabled, given⟩
    cases chosen : lbAddress c masterGroup with
    | error ending =>
      rw [chosen] at filled
      cases filled
    | ok address =>
      rw [chosen] at filled
      have same : c'.address = address := by rw [← Except.ok.inj filled]
      rw [same]
      unfold lbAddress at chosen
      rw [none_] at chosen
      cases external : c.enableExternalDNS with
      | true =>
        rw [external, if_neg (by decide)] at chosen
        cases chosen
        simp
      | false =>
        rw [external, if_pos (by decide)] at chosen
        cases masterGroup with
        | nil => cases chosen
        | cons master rest =>
          cases chosen
          simp

end Endpoint

/-! ### The whole specification -/

/-- The specification that a call leaves, with the endpoint `c`. -/
def leftSpec (env : Env) (cfg : ClusterSpec α) (c : ControlPlaneEndpoint) : ClusterSpec α :=
  setDefaultClusterCfg env
    (setDefaultStorageCfg (setDefaultNetworkCfg { setDefaultEtcdCfg cfg with controlPlaneEndpoint := c }))

/-- The specification that a call returns, with the endpoint `c`. -/
def returnedSpec (env : Env) (cfg : ClusterSpec α) (c : ControlPlaneEndpoint) : ClusterSpec α :=
  { leftSpec env cfg c with
    hosts := setDefaultHostsCfg env.home cfg
    kubernetes := returnedKubernetes (leftSpec env cfg c).kubernetes }

/-- The groups of the hosts, once these have their defaults. -/
def filledGroups (env : Env) (order : List (String × List String)) (cfg : ClusterSpec α) :
    Except Halt (RoleGroups α) :=
  groupHosts (setDefaultHostsCfg env.home cfg) cfg.roleGroups (setDefaultEtcdCfg cfg).etcd.type order

theorem returns_iff {order : List (String × List String)} {cfg : ClusterSpec α} {result : Result α} :
    setDefaultClusterSpec env order cfg = .ok result ↔ ∃ g c, filledGroups env order cfg = .ok g ∧
      filledEndpoint cfg.controlPlaneEndpoint (g.list Role.master) = .ok c ∧
      result = ⟨returnedSpec env cfg c, g, leftSpec env cfg c⟩ := by
  have run : setDefaultClusterSpec env order cfg = ((filledGroups env order cfg).mapError Ending.halt).bind fun g =>
      ((filledEndpoint cfg.controlPlaneEndpoint (g.list Role.master)).map fun c =>
        ⟨returnedSpec env cfg c, g, leftSpec env cfg c⟩) := by
    cases grouped : filledGroups env order cfg with
    | error halt =>
      unfold filledGroups at grouped
      simp only [setDefaultClusterSpec]
      rw [show (setDefaultEtcdCfg cfg).roleGroups = cfg.roleGroups from rfl, grouped]
      rfl
    | ok g =>
      unfold filledGroups at grouped
      simp only [setDefaultClusterSpec]
      rw [show (setDefaultEtcdCfg cfg).roleGroups = cfg.roleGroups from rfl, grouped]
      simp only [Except.mapError, Except.bind, setDefaultLBCfg]
      rw [show (setDefaultEtcdCfg cfg).controlPlaneEndpoint = cfg.controlPlaneEndpoint from rfl]
      cases filledEndpoint cfg.controlPlaneEndpoint (g.list Role.master) <;> rfl
  rw [run]
  cases filledGroups env order cfg with
  | error halt => simp [Except.mapError, Except.bind]
  | ok g =>
    simp only [Except.mapError, Except.bind, Except.ok.injEq, exists_and_left, exists_eq_left']
    cases filledEndpoint cfg.controlPlaneEndpoint (g.list Role.master) with
    | error ending => simp [Except.map]
    | ok c => simp [Except.map, eq_comm]

section Again
variable {order order' : List (String × List String)} {cfg cfg' : ClusterSpec α} {c : ControlPlaneEndpoint}
  {g : RoleGroups α}

/-- The sections of what a call returns. -/
theorem returnedSpec_eq (cfg : ClusterSpec α) (c : ControlPlaneEndpoint) : returnedSpec env cfg c =
    { hosts := setDefaultHostsCfg env.home cfg
      roleGroups := cfg.roleGroups
      controlPlaneEndpoint := c
      system := cfg.system
      etcd := (setDefaultEtcdCfg cfg).etcd
      dns := cfg.dns
      kubernetes := returnedKubernetes (filledKubernetes env cfg.kubernetes)
      network := (setDefaultNetworkCfg cfg).network
      storage := (setDefaultStorageCfg cfg).storage
      registry := cfg.registry
      addons := cfg.addons
      kubeSphere := cfg.kubeSphere } := rfl

/-- The specification that a call leaves, and the one that it returns. -/
inductive Filled (env : Env) (cfg : ClusterSpec α) (c : ControlPlaneEndpoint) : ClusterSpec α → Prop where
  | left : Filled env cfg c (leftSpec env cfg c)
  | returned : Filled env cfg c (returnedSpec env cfg c)

theorem Filled.etcd (filled : Filled env cfg c cfg') :
    (setDefaultEtcdCfg cfg').etcd = (setDefaultEtcdCfg cfg).etcd := by
  cases filled with
  | left => exact etcd_again env cfg _ rfl rfl (version_plain cfg.kubernetes)
  | returned => exact etcd_again env cfg _ rfl rfl (returned_plain cfg.kubernetes)

/-- A call on what a first call has filled in returns what that returned. -/
theorem Filled.returns (filled : Filled env cfg c cfg')
    (hosts : setDefaultHostsCfg env.home cfg' = setDefaultHostsCfg env.home cfg) :
    returnedSpec env cfg' c = returnedSpec env cfg c := by
  have kubernetes : returnedKubernetes (filledKubernetes env cfg'.kubernetes) =
      returnedKubernetes (filledKubernetes env cfg.kubernetes) := by
    cases filled with
    | left => exact (kubernetes_again cfg.kubernetes).1
    | returned => exact (kubernetes_again cfg.kubernetes).2
  have network : cfg'.network = (setDefaultNetworkCfg cfg).network := by cases filled <;> rfl
  have storage : cfg'.storage = (setDefaultStorageCfg cfg).storage := by cases filled <;> rfl
  have storage' : (setDefaultStorageCfg cfg').storage = (setDefaultStorageCfg cfg).storage := by
    simp only [setDefaultStorageCfg, storage, orDefault_again]
  have others : cfg'.roleGroups = cfg.roleGroups ∧ cfg'.system = cfg.system ∧ cfg'.dns = cfg.dns ∧
      cfg'.registry = cfg.registry ∧ cfg'.addons = cfg.addons ∧ cfg'.kubeSphere = cfg.kubeSphere := by
    cases filled <;> exact ⟨rfl, rfl, rfl, rfl, rfl, rfl⟩
  obtain ⟨roleGroups, system, dns, registry, addons, kubeSphere⟩ := others
  rw [returnedSpec_eq, returnedSpec_eq, hosts, filled.etcd, kubernetes, network_again network, storage', roleGroups,
    system, dns, registry, addons, kubeSphere]

/-- The same hosts in every role. The roles of a host have the order in which Go ranged over the role groups. -/
structure RoleGroups.Same (g g' : RoleGroups α) : Prop where
  hosts : g.hosts = g'.hosts
  lists : g.groups.list = g'.groups.list
  roles : ∀ host, (g.groups.roles host).Perm (g'.groups.roles host)

/-- The hosts are grouped again as they were. -/
theorem Filled.groups (filled : Filled env cfg c cfg')
    (hosts : setDefaultHostsCfg env.home cfg' = setDefaultHostsCfg env.home cfg)
    (perm : order.Perm cfg.roleGroups.entries) (perm' : order'.Perm cfg.roleGroups.entries)
    (ran : filledGroups env order cfg = .ok g) :
    ∃ g', filledGroups env order' cfg' = .ok g' ∧ g'.Same g ∧ ∀ role, g'.list role = g.list role := by
  have roleGroups : cfg'.roleGroups = cfg.roleGroups := by cases filled <;> rfl
  unfold filledGroups groupHosts at *
  rw [hosts, roleGroups, filled.etcd]
  cases grouped_ : (grouped (setDefaultHostsCfg env.home cfg) cfg.roleGroups
      (setDefaultEtcdCfg cfg).etcd.type).groupHosts order with
  | error halt =>
    rw [grouped_] at ran
    cases ran
  | ok groups =>
    rw [grouped_] at ran
    cases ran
    obtain ⟨groups', ran', lists, roles⟩ := Cluster.ClusterSpec.groupHosts_order perm perm' grouped_
    refine ⟨⟨groups', _⟩, by rw [ran']; rfl, ⟨rfl, lists, roles⟩, fun role => ?_⟩
    simp only [RoleGroups.list, lists]

/-- Filling in the defaults of `cfg'` returns the specification and the groups, in whatever order Go ranges over the
role groups. -/
def Settles (env : Env) (spec : ClusterSpec α) (g : RoleGroups α) (cfg' : ClusterSpec α) : Prop :=
  ∀ order, order.Perm cfg'.roleGroups.entries →
    ∃ g' left, setDefaultClusterSpec env order cfg' = .ok ⟨spec, g', left⟩ ∧ g'.Same g

/-- Filling in the defaults once is filling them in for good. -/
structure Keeps (env : Env) (order : List (String × List String)) (cfg : ClusterSpec α) : Prop where
  /-- No address is chosen for an internal load balancer. -/
  balancer : cfg.controlPlaneEndpoint.isInternalLBEnabled = true →
    cfg.controlPlaneEndpoint.enableExternalDNS = true ∨ ∀ g, filledGroups env order cfg = .ok g →
      ∀ master, (g.list Role.master).head? = some master → master.getInternalIPv4Address = ""
  /-- No key path is put at home twice. -/
  home : ∀ host ∈ cfg.hosts, host.privateKey = "" → startsAtHome (keyPath host) = true → StaysHome env.home

theorem Filled.settles (filled : Filled env cfg c cfg')
    (hosts : setDefaultHostsCfg env.home cfg' = setDefaultHostsCfg env.home cfg)
    (perm : order.Perm cfg.roleGroups.entries) (ran : filledGroups env order cfg = .ok g)
    (endpoint : filledEndpoint c (g.list Role.master) = .ok c) : Settles env (returnedSpec env cfg c) g cfg' := by
  have same : cfg'.roleGroups = cfg.roleGroups ∧ cfg'.controlPlaneEndpoint = c := by
    cases filled <;> exact ⟨rfl, rfl⟩
  intro order' perm'
  rw [same.1] at perm'
  obtain ⟨g', ran', groups, lists⟩ := filled.groups hosts perm perm' ran
  refine ⟨g', leftSpec env cfg' c, returns_iff.mpr ⟨g', c, ran', ?_, ?_⟩, groups⟩
  · rw [same.2, lists]
    exact endpoint
  · rw [filled.returns hosts]

theorem hosts_again_iff : setDefaultHostsCfg env.home (returnedSpec env cfg c) = setDefaultHostsCfg env.home cfg ↔
    ∀ host ∈ cfg.hosts, host.privateKey = "" → startsAtHome (keyPath host) = true → StaysHome env.home := by
  have twice : setDefaultHostsCfg env.home (returnedSpec env cfg c) =
      cfg.hosts.map fun host => setDefaultHost env.home (setDefaultHost env.home host) := List.map_map
  rw [twice, setDefaultHostsCfg, List.map_inj_left]
  exact forall₂_congr fun host _ => setDefaultHost_again_iff

/-- The defaults are filled in for good exactly if no address is chosen for an internal load balancer, and no key path
is put at home twice. -/
theorem settles_iff {result : Result α} (perm : order.Perm cfg.roleGroups.entries)
    (returns : setDefaultClusterSpec env order cfg = .ok result) :
    Settles env result.spec result.roleGroups result.spec ∧ Settles env result.spec result.roleGroups result.cfg ↔
      Keeps env order cfg := by
  obtain ⟨g, c, ran, endpoint, rfl⟩ := returns_iff.mp returns
  have balancer : filledEndpoint c (g.list Role.master) = .ok c ↔
      (cfg.controlPlaneEndpoint.isInternalLBEnabled = true →
        cfg.controlPlaneEndpoint.enableExternalDNS = true ∨ ∀ g', filledGroups env order cfg = .ok g' →
          ∀ master, (g'.list Role.master).head? = some master → master.getInternalIPv4Address = "") := by
    rw [filledEndpoint_again endpoint]
    refine forall_congr' fun enabled => (address_empty_iff endpoint enabled).trans (or_congr_right ?_)
    rw [ran]
    simp
  constructor
  · rintro ⟨settles, _⟩
    obtain ⟨g', left, again, groups⟩ := settles order perm
    obtain ⟨g'', c', ran', endpoint', same⟩ := returns_iff.mp again
    rw [Result.mk.injEq] at same
    obtain ⟨spec, rfl, _⟩ := same
    have lists : g'.list Role.master = g.list Role.master := by
      simp only [RoleGroups.list, groups.lists, groups.hosts]
    have kept : c' = c := congrArg (·.controlPlaneEndpoint) spec.symm
    rw [lists, kept] at endpoint'
    have hosts : setDefaultHostsCfg env.home (returnedSpec env cfg c) = setDefaultHostsCfg env.home cfg :=
      congrArg (·.hosts) spec.symm
    exact ⟨balancer.mp endpoint', hosts_again_iff.mp hosts⟩
  · intro keeps
    have endpoint' := balancer.mpr keeps.balancer
    exact ⟨Filled.returned.settles (hosts_again_iff.mpr keeps.home) perm ran endpoint',
      Filled.left.settles rfl perm ran endpoint'⟩

end Again

end Sections

/-- A machine with the home directory of root. -/
def rootEnv : Env where
  home := "/root"
  atLeastV124 version := version = "v1.28.0"
  atLeastV124_default := by decide

/-- A cluster of one host with little more than its address, the suffix of its version and its load balancer. -/
def oneHost (internalLoadbalancer : String) : ClusterSpec Unit where
  hosts := [⟨"node1", "", "10.0.0.1", 0, "", "", "", "", "", none, ()⟩]
  roleGroups := .ofList [(Role.etcd, ["node1"]), (Role.controlPlane, ["node1"])]
  controlPlaneEndpoint := ⟨internalLoadbalancer, "", none, "", 0, ⟨""⟩⟩
  system := ()
  etcd := ⟨kubeadm, "", 0, 0, "", ()⟩
  dns := ()
  kubernetes := ⟨"", "v1.28.0-k3s", "", "", 0, 0, 0, 0, "", "", "", ()⟩
  network := ⟨"", "", "", ⟨"", "", 0, ()⟩, ⟨"", ()⟩,
    ⟨"", "", "", ⟨"", "", ()⟩, ⟨"", "", "", "", ()⟩, ⟨"", "", "", ()⟩, ⟨"", ()⟩, ()⟩, ()⟩
  storage := ⟨""⟩
  registry := ()
  addons := ()
  kubeSphere := ()

theorem settles_iff_kubeVip : ∃ result,
    setDefaultClusterSpec rootEnv (oneHost "kube-vip").roleGroups.entries (oneHost "kube-vip") = .ok result ∧
      Settles rootEnv result.spec result.roleGroups result.spec ∧
        Settles rootEnv result.spec result.roleGroups result.cfg := by
  have keeps : Keeps rootEnv (oneHost "kube-vip").roleGroups.entries (oneHost "kube-vip") :=
    ⟨fun enabled => absurd enabled (by decide), fun _ _ _ _ => (by decide : StaysHome "/root")⟩
  have returns : (setDefaultClusterSpec rootEnv (oneHost "kube-vip").roleGroups.entries (oneHost "kube-vip")).isOk =
      true := by decide +kernel
  cases run : setDefaultClusterSpec rootEnv (oneHost "kube-vip").roleGroups.entries (oneHost "kube-vip") with
  | error ending =>
    rw [run] at returns
    cases returns
  | ok result => exact ⟨result, rfl, (settles_iff (List.Perm.refl _) run).mpr keeps⟩

/-- With an internal load balancer the second call ends the program. -/
theorem not_settles_haproxy : ¬ ∀ (order : List (String × List String)) (cfg : ClusterSpec Unit) (result : Result Unit),
    order.Perm cfg.roleGroups.entries → setDefaultClusterSpec rootEnv order cfg = .ok result →
      Settles rootEnv result.spec result.roleGroups result.spec ∧
        Settles rootEnv result.spec result.roleGroups result.cfg := by
  intro settles
  have exits : ((setDefaultClusterSpec rootEnv (oneHost haproxy).roleGroups.entries (oneHost haproxy)).bind
      fun result => (setDefaultClusterSpec rootEnv (oneHost haproxy).roleGroups.entries result.spec).map fun _ => ()) =
        .error .exit := by decide +kernel
  cases run : setDefaultClusterSpec rootEnv (oneHost haproxy).roleGroups.entries (oneHost haproxy) with
  | error ending =>
    have returns : (setDefaultClusterSpec rootEnv (oneHost haproxy).roleGroups.entries (oneHost haproxy)).isOk =
        true := by decide +kernel
    rw [run] at returns
    cases returns
  | ok result =>
    obtain ⟨g, c, _, _, same⟩ := returns_iff.mp run
    have here := (settles _ _ result (List.Perm.refl _) run).1
    obtain ⟨g', left, again, _⟩ := here (oneHost haproxy).roleGroups.entries (by rw [same]; exact List.Perm.refl _)
    rw [run, Except.bind, again] at exits
    cases exits

end KubeKey.Cluster.Defaults
