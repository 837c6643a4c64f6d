import KubeKey.Core.ParseIp
import KubeKey.Go.Map

/-!
# The specification of a cluster

`ClusterSpec` of `apis/kubekey/v1alpha2/cluster_types.go`, as far as the hosts are grouped by it
and the addresses of its services are found. The addresses are those of the first network of
`KubeServiceCIDR`: `ParseIp` lists the network and one of the list is taken by its index. The
number of rounds is that of a range's loop in `ParseIp`; a panic is `none`.
-/

namespace KubeKey.Cluster

open KubeKey.Go KubeKey.Text.Strings KubeKey.Core.Util

/-- `HostCfg`. A nil timeout is `none`. -/
structure HostCfg where
  name : String
  address : String
  internalAddress : String
  timeout : Option Int
deriving DecidableEq, Repr

/-- `ControlPlaneEndpoint`. -/
structure ControlPlaneEndpoint where
  domain : String
  address : String

/-- `Kubernetes`. -/
structure Kubernetes where
  dnsDomain : String
  apiserverCertExtraSans : List String

/-- `NetworkConfig`. -/
structure NetworkConfig where
  kubeServiceCIDR : String

/-- `EtcdCluster`. -/
structure EtcdCluster where
  type : String

/-- `ClusterSpec`. -/
structure ClusterSpec where
  hosts : List HostCfg
  roleGroups : GoMap (List String)
  controlPlaneEndpoint : ControlPlaneEndpoint
  etcd : EtcdCluster
  kubernetes : Kubernetes
  network : NetworkConfig

/-- `strings.Split` at a comma. -/
def splitComma (s : String) : List String := (s.toList.splitOn ',').map String.ofList

namespace ClusterSpec

/-- The first network of `KubeServiceCIDR`. -/
def serviceCIDR (cfg : ClusterSpec) : List Char := before ',' cfg.network.kubeServiceCIDR.toList

/-- One of the addresses that `ParseIp` lists. -/
def serviceIP (cfg : ClusterSpec) (rounds i : Nat) : Option String :=
  (parseIp rounds cfg.serviceCIDR).bind fun ips => ips[i]?.map String.ofList

/-- `ClusterIP`. -/
def clusterIP (cfg : ClusterSpec) (rounds : Nat) : Option String := cfg.serviceIP rounds 0

/-- `CorednsClusterIP`. -/
def corednsClusterIP (cfg : ClusterSpec) (rounds : Nat) : Option String := cfg.serviceIP rounds 2

/-- The names of a host in the certificate of the API server. -/
def hostSANs (cfg : ClusterSpec) (host : HostCfg) : List String :=
  let nodeAddresses := splitComma host.internalAddress
  let internalIPv4Address := nodeAddresses.headD ""
  [host.name, host.name ++ "." ++ cfg.kubernetes.dnsDomain] ++
    (if host.address ≠ cfg.controlPlaneEndpoint.address then [host.address] else []) ++
    (if internalIPv4Address ≠ host.address ∧ internalIPv4Address ≠ cfg.controlPlaneEndpoint.address then
      [internalIPv4Address] else []) ++
    if nodeAddresses.length = 2 then nodeAddresses.drop 1 else []

/-- `GenerateCertSANs`. -/
def generateCertSANs (cfg : ClusterSpec) (rounds : Nat) : Option (List String) :=
  let clusterSvc := "kubernetes.default.svc." ++ cfg.kubernetes.dnsDomain
  let defaultCertSANs :=
    ["kubernetes", "kubernetes.default", "kubernetes.default.svc", clusterSvc, "localhost", "127.0.0.1"]
  let extraCertSANs := [cfg.controlPlaneEndpoint.domain] ++
    (if cfg.controlPlaneEndpoint.address ≠ "" then [cfg.controlPlaneEndpoint.address] else []) ++
    cfg.hosts.flatMap cfg.hostSANs
  (cfg.serviceIP rounds 0).map fun ip =>
    defaultCertSANs ++ (extraCertSANs ++ [ip]) ++ cfg.kubernetes.apiserverCertExtraSans

end ClusterSpec

end KubeKey.Cluster
