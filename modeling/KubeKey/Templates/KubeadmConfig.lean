import KubeKey.Go.Map
import KubeKey.Kubernetes.Versions

/-!
# The kubeadm configuration

The arguments and the kubelet configuration that `GenerateKubeadmConfig` puts into the
configuration file, by the generators of `cmd/kk/pkg/kubernetes/templates/kubeadm_config.go`.
Their defaults are package-level maps. Some of the generators return these maps, or write
into them, so that the maps are part of the state that one generation leaves to the next.
-/

namespace KubeKey.Templates

open KubeKey.Go KubeKey.Kubernetes

/-- The package-level maps that are written to. -/
structure Vars where
  featureGatesDefaultConfiguration : GoMap Bool
  featureGatesSecurityDefaultConfiguration : GoMap Bool
  apiServerArgs : GoMap String
  apiServerSecurityArgs : GoMap String

def Vars.initial : Vars where
  featureGatesDefaultConfiguration := .ofList [("RotateKubeletServerCertificate", true), ("TTLAfterFinished", true)]
  featureGatesSecurityDefaultConfiguration :=
    .ofList [("RotateKubeletServerCertificate", true), ("TTLAfterFinished", true), ("SeccompDefault", true)]
  apiServerArgs := .ofList [("bind-address", "0.0.0.0")]
  apiServerSecurityArgs := .ofList [
    ("bind-address", "0.0.0.0"),
    ("authorization-mode", "Node,RBAC"),
    ("enable-admission-plugins", "AlwaysPullImages,ServiceAccount,NamespaceLifecycle,NodeRestriction,LimitRanger," ++
      "ResourceQuota,MutatingAdmissionWebhook,ValidatingAdmissionWebhook,PodNodeSelector,PodSecurity"),
    ("profiling", "false"),
    ("request-timeout", "120s"),
    ("service-account-lookup", "true"),
    ("tls-min-version", "VersionTLS12"),
    ("tls-cipher-suites", "TLS_ECDHE_ECDSA_WITH_AES_128_GCM_SHA256,TLS_ECDHE_RSA_WITH_AES_128_GCM_SHA256," ++
      "TLS_ECDHE_ECDSA_WITH_CHACHA20_POLY1305")]

def auditArgs : GoMap String := .ofList [
  ("audit-log-format", "json"),
  ("audit-log-maxbackup", "2"),
  ("audit-log-maxsize", "200"),
  ("audit-policy-file", "/etc/kubernetes/audit/audit-policy.yaml"),
  ("audit-webhook-config-file", "/etc/kubernetes/audit/audit-webhook.yaml")]

def controllermanagerArgs : GoMap String := .ofList [
  ("bind-address", "0.0.0.0"),
  ("cluster-signing-duration", "87600h")]

def controllermanagerSecurityArgs : GoMap String := .ofList [
  ("bind-address", "127.0.0.1"),
  ("cluster-signing-duration", "87600h"),
  ("profiling", "false"),
  ("terminated-pod-gc-threshold", "50"),
  ("use-service-account-credentials", "true")]

def schedulerArgs : GoMap String := .ofList [("bind-address", "0.0.0.0")]

def schedulerSecurityArgs : GoMap String := .ofList [("bind-address", "127.0.0.1"), ("profiling", "false")]

/-- What a generation reads from the configuration and from the host. -/
structure Conf (Yaml : Type) where
  version : String
  withSecurityEnhancement : Bool
  auditEnabled : Option Bool
  autoRenewCerts : Option Bool
  featureGates : GoMap Bool
  apiServerArgs : List String
  controllerManagerArgs : List String
  schedulerArgs : List String
  dnsDomain : String
  clusterDNS : String
  maxPods : Int
  podPidsLimit : Int
  containerRuntimeEndpoint : String
  /-- `GetKubeletCgroupDriver`, each time it is called; `none` for an error. -/
  cgroupDriver : Option String
  cgroupDriverAgain : Option String
  /-- The status of the cluster is in the cache, or not needed. -/
  clusterStatus : Bool
  /-- The decoded `KubeletConfiguration`, `none` if it is not YAML. -/
  kubeletConfiguration : Option (GoMap Yaml)

/-- A value of the kubelet configuration. The gates are the package-level map itself. -/
inductive Value (Yaml : Type) where
  | text (s : String)
  | number (n : Int)
  | flag (b : Bool)
  | texts (l : List String)
  | table (l : List (String × String))
  | gates (security : Bool)
  | decoded (y : Yaml)

/-- What a generation puts into the file, with the gates that `UpdateFeatureGatesConfiguration` joins and those of the
kubelet configuration. -/
structure Generated (Yaml : Type) where
  apiServerArgs : GoMap String
  controllerManagerArgs : GoMap String
  schedulerArgs : GoMap String
  argumentGates : List (String × Bool)
  kubelet : GoMap (Value Yaml)
  kubeletGate : String → Option Bool

/-! ## Arguments -/

/-- `strings.SplitN(arg, "=", 2)`, if it has two parts. -/
def splitArg (arg : String) : Option (String × String) :=
  match arg.toList.dropWhile (· ≠ '=') with
  | [] => none
  | _ :: value => some (.ofList (arg.toList.takeWhile (· ≠ '=')), .ofList value)

/-- The map that `GetArgs` returns. -/
def getArgs (argsMap : GoMap String) (args : List String) : GoMap String :=
  (args.filterMap splitArg).foldl (fun m e => m.put e.1 e.2) (GoMap.empty.putAll argsMap)

/-- `EnableAudit`. It follows the pointer to `AutoRenewCerts`. -/
def enableAudit {Yaml : Type} (conf : Conf Yaml) : Option Bool :=
  match conf.auditEnabled with
  | none => some false
  | some _ => conf.autoRenewCerts

/-- The package-level map of arguments of the API server. -/
def Vars.apiServer (vars : Vars) (security : Bool) : GoMap String :=
  if security then vars.apiServerSecurityArgs else vars.apiServerArgs

/-- `GetApiServerArgs`: the package-level map, where the audit arguments stay. -/
def getApiServerArgs (vars : Vars) (securityEnhancement enableAudit : Bool) : Vars × GoMap String :=
  if securityEnhancement then
    let args := if enableAudit then vars.apiServerSecurityArgs.putAll auditArgs else vars.apiServerSecurityArgs
    ({ vars with apiServerSecurityArgs := args }, args)
  else
    let args := if enableAudit then vars.apiServerArgs.putAll auditArgs else vars.apiServerArgs
    ({ vars with apiServerArgs := args }, args)

/-- The versions that the generators compare. -/
structure Versions (util : VersionUtil) where
  version : util.Version
  v119 : util.Version
  v121 : util.Version
  v124 : util.Version
  /-- `Compare("v1.21.0")` gives -1. -/
  below121 : Bool

section Generators
variable {util : VersionUtil} (versions : Versions util) {Yaml : Type} (conf : Conf Yaml)

/-- `LessThan` is the opposite of `AtLeast`. -/
def lessThan (v w : util.Version) : Bool := !util.atLeast v w

/-- `GetControllermanagerArgs`. -/
def getControllermanagerArgs (securityEnhancement : Bool) : GoMap String :=
  let args := GoMap.empty.putAll (if securityEnhancement then controllermanagerSecurityArgs else controllermanagerArgs)
  if lessThan versions.version versions.v119 then
    (args.erase "cluster-signing-duration").put "experimental-cluster-signing-duration" "87600h"
  else args

/-- `GetSchedulerArgs`. -/
def getSchedulerArgs (securityEnhancement : Bool) : GoMap String :=
  if securityEnhancement then schedulerSecurityArgs else schedulerArgs

/-- The gates that are left out for the version. -/
def dropped (gate : String) : Bool :=
  (gate = "CSIStorageCapacity" ∧ lessThan versions.version versions.v121) ∨
    (gate = "TTLAfterFinished" ∧ util.atLeast versions.version versions.v124)

/-- The slice that `UpdateFeatureGatesConfiguration` joins. -/
def argumentGates (vars : Vars) : List (String × Bool) :=
  conf.featureGates.entries ++ vars.featureGatesDefaultConfiguration.entries.filter fun e =>
    !dropped versions e.1 && (conf.featureGates.get? e.1).isNone

/-- `fmt.Sprintf("%s=%v", k, v)`. -/
def gateText (e : String × Bool) : String := e.1 ++ "=" ++ toString e.2

/-- `UpdateFeatureGatesConfiguration`. -/
def updateFeatureGatesConfiguration (vars : Vars) (args : GoMap String) : GoMap String :=
  args.put "feature-gates" (",".intercalate ((argumentGates versions conf vars).map gateText))

/-- The package-level map of gates. -/
def Vars.gates (vars : Vars) (security : Bool) : GoMap Bool :=
  if security then vars.featureGatesSecurityDefaultConfiguration else vars.featureGatesDefaultConfiguration

def Vars.setGates (vars : Vars) (security : Bool) (gates : GoMap Bool) : Vars :=
  if security then { vars with featureGatesSecurityDefaultConfiguration := gates }
  else { vars with featureGatesDefaultConfiguration := gates }

/-- `defaultKubeletConfiguration`. -/
def defaultKubeletConfiguration (cgroupDriver : String) : GoMap (Value Yaml) :=
  let base : List (String × Value Yaml) := [
    ("clusterDomain", .text conf.dnsDomain),
    ("clusterDNS", .texts [conf.clusterDNS]),
    ("maxPods", .number conf.maxPods),
    ("podPidsLimit", .number conf.podPidsLimit),
    ("rotateCertificates", .flag true),
    ("kubeReserved", .table [("cpu", "200m"), ("memory", "250Mi")]),
    ("systemReserved", .table [("cpu", "200m"), ("memory", "250Mi")]),
    ("evictionHard", .table [("memory.available", "5%"), ("pid.available", "10%")]),
    ("evictionSoft", .table [("memory.available", "10%")]),
    ("evictionSoftGracePeriod", .table [("memory.available", "2m")]),
    ("evictionMaxPodGracePeriod", .number 120),
    ("evictionPressureTransitionPeriod", .text "30s")]
  let security : List (String × Value Yaml) := if conf.withSecurityEnhancement then [
    ("readOnlyPort", .number 0),
    ("protectKernelDefaults", .flag true),
    ("eventRecordQPS", .number 1),
    ("streamingConnectionIdleTimeout", .text "5m"),
    ("makeIPTablesUtilChains", .flag true),
    ("tlsCipherSuites", .texts ["TLS_ECDHE_ECDSA_WITH_AES_128_GCM_SHA256", "TLS_ECDHE_RSA_WITH_AES_128_GCM_SHA256",
      "TLS_ECDHE_ECDSA_WITH_CHACHA20_POLY1305"])] else []
  let cgroup : List (String × Value Yaml) :=
    [("cgroupDriver", .text (if cgroupDriver.length = 0 then "systemd" else cgroupDriver))]
  let log : List (String × Value Yaml) := if conf.containerRuntimeEndpoint.length ≠ 0 then
    [("containerLogMaxSize", .text "5Mi"), ("containerLogMaxFiles", .number 3)] else []
  (GoMap.ofList (base ++ security ++ cgroup ++ log)).put "featureGates" (.gates conf.withSecurityEnhancement)

/-- A round of the loop over the custom values, with the defaults that are left. -/
def customRound (s : GoMap (Value Yaml) × GoMap (Value Yaml)) (e : String × Yaml) :
    GoMap (Value Yaml) × GoMap (Value Yaml) :=
  (s.1.put e.1 (.decoded e.2), s.2.erase e.1)

/-- The loops that put `kubeletConfiguration` together: the custom values, then the defaults that are left. -/
def mergeKubeletConfiguration (custom : GoMap Yaml) (defaults : GoMap (Value Yaml)) : GoMap (Value Yaml) :=
  let merged := custom.entries.foldl customRound (GoMap.empty, defaults)
  merged.1.putAll merged.2

/-- The first lines of `GetKubeletConfiguration`. -/
def Vars.deleteCSIStorageCapacity (vars : Vars) : Vars :=
  if versions.below121 then
    { vars with featureGatesDefaultConfiguration := vars.featureGatesDefaultConfiguration.erase "CSIStorageCapacity" }
  else vars

/-- What `GetKubeletConfiguration` does to the gates of the configuration. -/
def updateKubeletGates (gates : GoMap Bool) : GoMap Bool :=
  let gates := if lessThan versions.version versions.v121 then gates.erase "CSIStorageCapacity" else gates
  let gates := if util.atLeast versions.version versions.v124 then gates.erase "TTLAfterFinished" else gates
  gates.fill conf.featureGates

/-- `GetKubeletConfiguration`. Where the gates are a package-level map it is that map that changes. -/
def getKubeletConfiguration (vars : Vars) : Option (Vars × GoMap (Value Yaml)) := do
  let vars := vars.deleteCSIStorageCapacity versions
  let cgroupDriver ← conf.cgroupDriverAgain
  let custom ← conf.kubeletConfiguration
  let kubelet := mergeKubeletConfiguration custom (defaultKubeletConfiguration conf cgroupDriver)
  match kubelet.get? "featureGates" with
  | some (.gates security) =>
    pure (vars.setGates security (updateKubeletGates versions conf (vars.gates security)), kubelet)
  | _ => pure (vars, kubelet)

end Generators

/-! ## A generation -/

section Generate
variable (util : VersionUtil) {Yaml : Type} (gate : Yaml → String → Option Bool)

/-- The versions, `none` if one of them is not a semantic version. -/
def parseVersions (version : String) : Option (Versions util) := do
  let v ← (util.parseSemantic version).toOption
  let v119 ← (util.parseSemantic "1.19.0").toOption
  let v121 ← (util.parseSemantic "v1.21.0").toOption
  let v124 ← (util.parseSemantic "v1.24.0").toOption
  pure ⟨v, v119, v121, v124, match util.compare v "v1.21.0" with
    | .ok sign => sign = -1
    | .error _ => false⟩

/-- The value of a gate in the kubelet configuration that is written with these package-level maps. -/
def kubeletGate (vars : Vars) (kubelet : GoMap (Value Yaml)) (k : String) : Option Bool :=
  match kubelet.get? "featureGates" with
  | some (.gates security) => (vars.gates security).get? k
  | some (.decoded y) => gate y k
  | _ => none

/-- The data of the template. The gates of the kubelet configuration are read once all of it is there. -/
def templateData {util : VersionUtil} (versions : Versions util) (conf : Conf Yaml) (vars vars' : Vars)
    (apiServer : GoMap String) (kubelet : GoMap (Value Yaml)) : Generated Yaml :=
  let security := conf.withSecurityEnhancement
  let controllerManager := getArgs (getControllermanagerArgs versions security) conf.controllerManagerArgs
  let scheduler := getArgs (getSchedulerArgs security) conf.schedulerArgs
  { apiServerArgs := updateFeatureGatesConfiguration versions conf vars apiServer
    controllerManagerArgs := updateFeatureGatesConfiguration versions conf vars controllerManager
    schedulerArgs := updateFeatureGatesConfiguration versions conf vars scheduler
    argumentGates := argumentGates versions conf vars
    kubelet
    kubeletGate := kubeletGate gate vars' kubelet }

/-- The generators in the order of `GenerateKubeadmConfig.Execute`. The process ends with `none`; the generation alone
fails where there is a state but no output. -/
def generate (vars : Vars) (conf : Conf Yaml) : Option (Vars × Option (Generated Yaml)) := do
  let audit ← enableAudit conf
  let (vars, args) := getApiServerArgs vars conf.withSecurityEnhancement audit
  let apiServer := getArgs args conf.apiServerArgs
  let versions ← parseVersions util conf.version
  if conf.cgroupDriver.isNone ∨ ¬ conf.clusterStatus then pure (vars, none)
  else
    let (vars', kubelet) ← getKubeletConfiguration versions conf vars
    pure (vars', some (templateData gate versions conf vars vars' apiServer kubelet))

/-- The generations of a process, one after the other. -/
def generations (vars : Vars) (confs : List (Conf Yaml)) : Option Vars :=
  confs.foldlM (fun vars conf => (generate util gate vars conf).map Prod.fst) vars

end Generate
end KubeKey.Templates
