import KubeKey.Cluster.GroupHosts

/-!
# The defaults of a cluster

`SetDefaultClusterSpec` of `apis/kubekey/v1alpha2/default.go`. It fills in the sections of a
specification one after the other and groups the hosts on the way. Most of its helpers write
into the specification they are given and return the section they have filled in, so the
function leaves its argument changed; the hosts and the last fields of the Kubernetes section
are filled in for the result only.

The specification is cut into the fields that are read or filled in here and, in every section,
the others, of any type. What the function depends on outside of the specification is in `Env`,
and the order in which Go ranges over the role groups is an argument, as for `GroupHosts`.
-/

namespace KubeKey.Cluster.Defaults

open KubeKey.Go KubeKey.Text.Strings

/-! ## The data -/

/-- `HostCfg`. -/
structure HostCfg (α : Type) where
  name : String
  address : String
  internalAddress : String
  port : Int
  user : String
  password : String
  privateKey : String
  privateKeyPath : String
  arch : String
  timeout : Option Int
  others : α
deriving DecidableEq

/-- `KubeVip`. -/
structure KubeVip where
  mode : String
deriving DecidableEq

/-- `ControlPlaneEndpoint`. -/
structure ControlPlaneEndpoint where
  internalLoadbalancer : String
  domain : String
  externalDNS : Option Bool
  address : String
  port : Int
  kubeVip : KubeVip
deriving DecidableEq

/-- `EtcdCluster`. -/
structure EtcdCluster (α : Type) where
  type : String
  backupDir : String
  backupPeriod : Int
  keepBackupNumber : Int
  backupScriptDir : String
  others : α
deriving DecidableEq

/-- `Kubernetes`. -/
structure Kubernetes (α : Type) where
  type : String
  version : String
  clusterName : String
  dnsDomain : String
  maxPods : Int
  podPidsLimit : Int
  nodeCidrMaskSize : Int
  nodeCidrMaskSizeIPv6 : Int
  proxyMode : String
  containerManager : String
  containerRuntimeEndpoint : String
  others : α
deriving DecidableEq

/-- `CalicoCfg`. -/
structure CalicoCfg (α : Type) where
  ipipMode : String
  vxlanMode : String
  vethMTU : Int
  others : α
deriving DecidableEq

/-- `FlannelCfg`. -/
structure FlannelCfg (α : Type) where
  backendMode : String
  others : α
deriving DecidableEq

/-- `Dpdk`. -/
structure Dpdk (α : Type) where
  dpdkTunnelIface : String
  dpdkVersion : String
  others : α
deriving DecidableEq

/-- `KubeOvnController`. -/
structure KubeOvnController (α : Type) where
  podGateway : String
  networkType : String
  vlanID : String
  podNicType : String
  others : α
deriving DecidableEq

/-- `KubeOvnCni`. -/
structure KubeOvnCni (α : Type) where
  cniConfigPriority : String
  modules : String
  rpms : String
  others : α
deriving DecidableEq

/-- `KubeOvnPinger`. -/
structure KubeOvnPinger (α : Type) where
  pingerExternalAddress : String
  others : α
deriving DecidableEq

/-- `KubeovnCfg`. -/
structure KubeovnCfg (α : Type) where
  joinCIDR : String
  label : String
  tunnelType : String
  dpdk : Dpdk α
  kubeOvnController : KubeOvnController α
  kubeOvnCni : KubeOvnCni α
  kubeOvnPinger : KubeOvnPinger α
  others : α
deriving DecidableEq

/-- `NetworkConfig`. -/
structure NetworkConfig (α : Type) where
  plugin : String
  kubePodsCIDR : String
  kubeServiceCIDR : String
  calico : CalicoCfg α
  flannel : FlannelCfg α
  kubeovn : KubeovnCfg α
  others : α
deriving DecidableEq

/-- `StorageConfig`, with the one field of its `OpenEBS`. -/
structure StorageConfig where
  openEBSBasePath : String
deriving DecidableEq

/-- `ClusterSpec`. -/
structure ClusterSpec (α : Type) where
  hosts : List (HostCfg α)
  roleGroups : GoMap (List String)
  controlPlaneEndpoint : ControlPlaneEndpoint
  system : α
  etcd : EtcdCluster α
  dns : α
  kubernetes : Kubernetes α
  network : NetworkConfig α
  storage : StorageConfig
  registry : α
  addons : α
  kubeSphere : α

/-- What the function depends on outside of the specification. -/
structure Env where
  /-- `util.Home`, empty if there is none. -/
  home : String
  /-- `IsAtLeastV124` of a version: `ParseGeneric` understands it, and it is v1.24.0 or later. -/
  atLeastV124 : String → Bool
  /-- The default version is before it. -/
  atLeastV124_default : atLeastV124 "v1.23.17" = false

/-- A run that does not return: `logger.Log.Fatal` or a panic, or `os.Exit(0)`. -/
inductive Ending where
  | halt (halt : Halt)
  | exit
deriving DecidableEq, Repr

/-! ## The source -/

section Constants

def defaultClusterName : String := "cluster.local"
def defaultDNSDomain : String := "cluster.local"
def defaultKubeVersion : String := "v1.23.17"
def defaultLBDomain : String := "lb.kubesphere.local"
def defaultKubeVipMode : String := "ARP"
def defaultArch : String := "amd64"
def defaultCrioEndpoint : String := "unix:///var/run/crio/crio.sock"
def defaultContainerdEndpoint : String := "unix:///run/containerd/containerd.sock"
def defaultCriDockerdEndpoint : String := "unix:///var/run/cri-dockerd.sock"
def defaultIsulaEndpoint : String := "unix:///var/run/isulad.sock"
def kubeadm : String := "kubeadm"
def k3s : String := "k3s"
def haproxy : String := "haproxy"
def docker : String := "docker"
def containerd : String := "containerd"
def crio : String := "crio"
def isula : String := "isula"

end Constants

/-- A field that is set to a default if it has the zero value of its type. -/
def orDefault {β : Type} [DecidableEq β] (zero default : β) (x : β) : β := if x = zero then default else x

/-- `strings.Split` at a dash. -/
def splitDash (s : String) : List String := (s.toList.splitOn '-').map String.ofList

/-- The test of a key path for the home directory. -/
def startsAtHome (path : String) : Bool := "~/".toList.isPrefixOf (trimSpace path.toList)

/-- `strings.Replace` of the first `~/`. -/
def replaceHome (home path : String) : String :=
  String.ofList (replaceFirst "~/".toList (home ++ "/").toList path.toList)

variable {α : Type}

/-- The path of a host's key, before the home directory is put in. -/
def keyPath (host : HostCfg α) : String :=
  if host.password = "" ∧ host.privateKeyPath = "" then "~/.ssh/id_rsa" else host.privateKeyPath

/-- One round of the loop of `SetDefaultHostsCfg`, on its copy of the host. -/
def setDefaultHost (home : String) (host : HostCfg α) : HostCfg α :=
  let address := if host.address = "" ∧ host.internalAddress ≠ "" then host.internalAddress else host.address
  let internalAddress := if host.internalAddress = "" ∧ address ≠ "" then address else host.internalAddress
  let privateKeyPath :=
    if host.privateKey = "" then
      if keyPath host ≠ "" ∧ startsAtHome (keyPath host) = true then replaceHome home (keyPath host)
      else keyPath host
    else host.privateKeyPath
  { host with
    address, internalAddress
    user := orDefault "" "root" host.user
    port := orDefault 0 22 host.port
    privateKeyPath
    arch := orDefault "" defaultArch host.arch
    timeout := orDefault none (some 30) host.timeout }

/-- `SetDefaultHostsCfg`. -/
def setDefaultHostsCfg (home : String) (cfg : ClusterSpec α) : List (HostCfg α) := cfg.hosts.map (setDefaultHost home)

/-- The hosts of the roles: the lists of their names, with what the names point to. -/
structure RoleGroups (α : Type) where
  groups : Groups
  hosts : GoMap (HostCfg α)

/-- The hosts of a role. -/
def RoleGroups.list (g : RoleGroups α) (role : String) : List (HostCfg α) :=
  (g.groups.list role).filterMap g.hosts.get?

/-- A host, as far as `GroupHosts` reads it. -/
def HostCfg.grouped (host : HostCfg α) : Cluster.HostCfg :=
  ⟨host.name, host.address, host.internalAddress, host.timeout⟩

/-- The specification that `GroupHosts` is called on: the other sections are still empty. -/
def grouped (hosts : List (HostCfg α)) (roleGroups : GoMap (List String)) (etcdType : String) :
    Cluster.ClusterSpec where
  hosts := hosts.map HostCfg.grouped
  roleGroups := roleGroups
  controlPlaneEndpoint := ⟨"", ""⟩
  etcd := ⟨etcdType⟩
  kubernetes := ⟨"", []⟩
  network := ⟨""⟩

/-- `GroupHosts`. Of two hosts with one name the later one counts. -/
def groupHosts (hosts : List (HostCfg α)) (roleGroups : GoMap (List String)) (etcdType : String)
    (order : List (String × List String)) : Except Halt (RoleGroups α) :=
  ((grouped hosts roleGroups etcdType).groupHosts order).map fun groups =>
    ⟨groups, hosts.foldl (fun hostMap host => hostMap.put host.name host) .empty⟩

/-- `SetDefaultEtcdCfg`. -/
def setDefaultEtcdCfg (cfg : ClusterSpec α) : ClusterSpec α :=
  let type :=
    if cfg.etcd.type = "" ∨ (cfg.kubernetes.type = k3s ∨ (splitDash cfg.kubernetes.version)[1]? = some k3s) ∧
        cfg.etcd.type = kubeadm then kubeKey
    else cfg.etcd.type
  { cfg with etcd := { cfg.etcd with
      type
      backupDir := orDefault "" "/var/backups/kube_etcd" cfg.etcd.backupDir
      backupPeriod := orDefault 0 1440 cfg.etcd.backupPeriod
      keepBackupNumber := orDefault 0 5 cfg.etcd.keepBackupNumber
      backupScriptDir := orDefault "" "/usr/local/bin/kube-scripts" cfg.etcd.backupScriptDir } }

namespace ControlPlaneEndpoint

/-- `IsInternalLBEnabled`. -/
def isInternalLBEnabled (c : ControlPlaneEndpoint) : Bool := c.internalLoadbalancer = haproxy

/-- `EnableExternalDNS`. -/
def enableExternalDNS (c : ControlPlaneEndpoint) : Bool := c.externalDNS.getD false

end ControlPlaneEndpoint

/-- `GetInternalIPv4Address`. -/
def HostCfg.getInternalIPv4Address (host : HostCfg α) : String :=
  String.ofList (before ',' host.internalAddress.toList)

/-- The address of the load balancer, that of the first master where none is given. -/
def lbAddress (c : ControlPlaneEndpoint) (masterGroup : List (HostCfg α)) : Except Ending String :=
  if c.address = "" ∧ c.enableExternalDNS = false ∨ c.address = "127.0.0.1" then
    match masterGroup with
    | [] => .error (.halt .panic)
    | master :: _ => .ok master.getInternalIPv4Address
  else .ok c.address

/-- The endpoint that `SetDefaultLBCfg` leaves. -/
def filledEndpoint (c : ControlPlaneEndpoint) (masterGroup : List (HostCfg α)) : Except Ending ControlPlaneEndpoint :=
  if c.isInternalLBEnabled = true ∧ c.address ≠ "" then .error .exit
  else (lbAddress c masterGroup).map fun address =>
    { c with
      address
      domain := orDefault "" defaultLBDomain c.domain
      port := orDefault 0 6443 c.port
      kubeVip := ⟨orDefault "" defaultKubeVipMode c.kubeVip.mode⟩ }

/-- `SetDefaultLBCfg`, without its warning. -/
def setDefaultLBCfg (cfg : ClusterSpec α) (masterGroup : List (HostCfg α)) : Except Ending (ClusterSpec α) :=
  (filledEndpoint cfg.controlPlaneEndpoint masterGroup).map fun c => { cfg with controlPlaneEndpoint := c }

/-- The fields of `SetDefaultNetworkCfg` that belong to kube-ovn. -/
def setDefaultKubeovn (k : KubeovnCfg α) : KubeovnCfg α :=
  { k with
    joinCIDR := orDefault "" "100.64.0.0/16" k.joinCIDR
    label := orDefault "" "node-role.kubernetes.io/control-plane" k.label
    tunnelType := orDefault "" "geneve" k.tunnelType
    dpdk := { k.dpdk with
      dpdkVersion := orDefault "" "19.11" k.dpdk.dpdkVersion
      dpdkTunnelIface := orDefault "" "br-phy" k.dpdk.dpdkTunnelIface }
    kubeOvnController := { k.kubeOvnController with
      podGateway := orDefault "" "10.233.64.1" k.kubeOvnController.podGateway
      vlanID := orDefault "" "100" k.kubeOvnController.vlanID
      networkType := orDefault "" "geneve" k.kubeOvnController.networkType
      podNicType := orDefault "" "veth-pair" k.kubeOvnController.podNicType }
    kubeOvnCni := { k.kubeOvnCni with
      modules := orDefault "" "kube_ovn_fastpath.ko" k.kubeOvnCni.modules
      rpms := orDefault "" "openvswitch-kmod" k.kubeOvnCni.rpms
      cniConfigPriority := orDefault "" "01" k.kubeOvnCni.cniConfigPriority }
    kubeOvnPinger := { k.kubeOvnPinger with
      pingerExternalAddress := orDefault "" "114.114.114.114" k.kubeOvnPinger.pingerExternalAddress } }

/-- `SetDefaultNetworkCfg`. -/
def setDefaultNetworkCfg (cfg : ClusterSpec α) : ClusterSpec α :=
  { cfg with network := { cfg.network with
      plugin := orDefault "" "calico" cfg.network.plugin
      kubePodsCIDR := orDefault "" "10.233.64.0/18" cfg.network.kubePodsCIDR
      kubeServiceCIDR := orDefault "" "10.233.0.0/18" cfg.network.kubeServiceCIDR
      calico := { cfg.network.calico with
        ipipMode := orDefault "" "Always" cfg.network.calico.ipipMode
        vxlanMode := orDefault "" "Never" cfg.network.calico.vxlanMode
        vethMTU := orDefault 0 0 cfg.network.calico.vethMTU }
      flannel := { cfg.network.flannel with backendMode := orDefault "" "vxlan" cfg.network.flannel.backendMode }
      kubeovn := setDefaultKubeovn cfg.network.kubeovn } }

/-- `SetDefaultStorageCfg`. -/
def setDefaultStorageCfg (cfg : ClusterSpec α) : ClusterSpec α :=
  { cfg with storage := ⟨orDefault "" "/var/openebs/local" cfg.storage.openEBSBasePath⟩ }

/-- The version and the type of a cluster: a suffix of the version is the type. -/
def versionAndType (k : Kubernetes α) : String × String :=
  if k.version = "" then (defaultKubeVersion, k.type)
  else match splitDash k.version with
    | version :: type :: _ => (version, type)
    | _ => (k.version, k.type)

/-- The default endpoint of a container manager. -/
def runtimeEndpoint (env : Env) (version containerManager : String) : String :=
  if containerManager = docker then
    if env.atLeastV124 version then defaultCriDockerdEndpoint else ""
  else if containerManager = crio then defaultCrioEndpoint
  else if containerManager = containerd then defaultContainerdEndpoint
  else if containerManager = isula then defaultIsulaEndpoint
  else ""

/-- The Kubernetes section that `SetDefaultClusterCfg` leaves. -/
def filledKubernetes (env : Env) (k : Kubernetes α) : Kubernetes α :=
  let version := (versionAndType k).1
  let containerManager := orDefault "" docker k.containerManager
  { k with
    version
    type := orDefault "" "kubernetes" (versionAndType k).2
    clusterName := orDefault "" defaultClusterName k.clusterName
    dnsDomain := orDefault "" defaultDNSDomain k.dnsDomain
    containerManager
    containerRuntimeEndpoint := orDefault "" (runtimeEndpoint env version containerManager)
      k.containerRuntimeEndpoint }

/-- `SetDefaultClusterCfg`. -/
def setDefaultClusterCfg (env : Env) (cfg : ClusterSpec α) : ClusterSpec α :=
  { cfg with kubernetes := filledKubernetes env cfg.kubernetes }

/-- What `SetDefaultClusterSpec` fills in for the result only. -/
def returnedKubernetes (k : Kubernetes α) : Kubernetes α :=
  { k with
    clusterName := orDefault "" defaultClusterName k.clusterName
    version := orDefault "" defaultKubeVersion k.version
    maxPods := orDefault 0 110 k.maxPods
    podPidsLimit := orDefault 0 10000 k.podPidsLimit
    nodeCidrMaskSize := orDefault 0 24 k.nodeCidrMaskSize
    nodeCidrMaskSizeIPv6 := orDefault 0 120 k.nodeCidrMaskSizeIPv6
    proxyMode := orDefault "" "ipvs" k.proxyMode }

/-- What a call leaves: the specification and the groups that it returns, and the specification it was called on. -/
structure Result (α : Type) where
  spec : ClusterSpec α
  roleGroups : RoleGroups α
  cfg : ClusterSpec α

/-- `SetDefaultClusterSpec`. -/
def setDefaultClusterSpec (env : Env) (order : List (String × List String)) (cfg : ClusterSpec α) :
    Except Ending (Result α) :=
  let hosts := setDefaultHostsCfg env.home cfg
  let cfg := setDefaultEtcdCfg cfg
  ((groupHosts hosts cfg.roleGroups cfg.etcd.type order).mapError .halt).bind fun roleGroups =>
    (setDefaultLBCfg cfg (roleGroups.list Role.master)).map fun cfg =>
      let cfg := setDefaultClusterCfg env (setDefaultStorageCfg (setDefaultNetworkCfg cfg))
      { spec := { cfg with hosts, kubernetes := returnedKubernetes cfg.kubernetes }, roleGroups, cfg }

end KubeKey.Cluster.Defaults
