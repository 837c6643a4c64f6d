import Mathlib.Logic.Function.Basic

/-!
# The bootstrap data of K3s machines

`K3sConfigReconciler` of `bootstrap/k3s/controllers`. A reconcile reads the K3sConfig, its
machine and the cluster, makes the bootstrap data and patches the config in the end. Before
the control plane is initialised only the machine that gets the init lock makes data: it
puts a fresh token into the token secret of the cluster and then into its own data. After
that every config joins with the token that it reads from the secret.

Each request to the API may be refused, or be carried out and its answer lost
(`Answer`). A reconcile is one step; between reconciles machines come and go, secrets whose
owner is gone are collected, and the control plane becomes initialised.
-/

namespace KubeKey.Bootstrap

/-- How a write request ends: a lost one is carried out but returns an error. -/
inductive Answer where
  | ok
  | refused
  | lost
deriving DecidableEq

/-- What the `value` of a secret is: a token, or the user data that starts a server with a token or lets a node join. -/
inductive SecretValue where
  | token (t : String)
  | userData (initialising : Bool) (t : String)
deriving DecidableEq

/-- A secret and the config in its owner reference. -/
structure Secret where
  owner : Nat
  value : SecretValue
deriving DecidableEq

/-- `Spec.Cluster`. -/
structure ClusterSpec where
  tokenFile : String := ""
  server : String := ""
  token : String := ""

/-- `K3sConfig`, and the machine in its owner reference. -/
structure K3sConfig where
  uid : Nat
  machine : String
  /-- `Spec.ServerConfiguration` is set. -/
  serverConfiguration : Bool
  cluster : Option ClusterSpec
  ready : Bool
  dataSecretName : Option String

/-- `Machine`: the name of its config, and its `Spec.Bootstrap.DataSecretName`. -/
structure Machine where
  config : String
  controlPlane : Bool
  dataSecretName : Option String

/-- The cluster, and how user data is written. -/
structure K3s where
  clusterName : String
  userData : Bool → String → String

/-- The secret that holds the token of the cluster. -/
def K3s.tokenSecret (k : K3s) : String := k.clusterName ++ "-token"

/-- The bytes of a secret, as text. -/
def SecretValue.text (k : K3s) : SecretValue → String
  | .token t => t
  | .userData initialising t => k.userData initialising t

/-- The objects in the namespace of the cluster, and what happened to the token. -/
structure World where
  /-- `ControlPlaneInitializedCondition`. -/
  initialized : Bool
  /-- The machine that holds the init lock. -/
  lock : Option String
  machines : String → Option Machine
  configs : String → Option K3sConfig
  secrets : String → Option Secret
  nextUID : Nat
  /-- The token of the server that initialised the control plane. -/
  firstToken : Option String
  /-- The tokens that join configurations took from the secret. -/
  joinTokens : List String

/-- What a reconcile meets. A read is answered or not. -/
structure Answers where
  reads : Bool := true
  paused : Bool := false
  infrastructureReady : Bool := true
  lockGet : Bool := true
  lockMachine : Bool := true
  lockUnlockGet : Bool := true
  lockUnlockDelete : Answer := .ok
  lockCreate : Answer := .ok
  unlockGet : Bool := true
  unlockDelete : Answer := .ok
  certificates : Bool := true
  /-- `GenerateBootstrapToken`. -/
  generated : Option String
  tokenCreate : Answer := .ok
  tokenUpdate : Answer := .ok
  /-- The control plane endpoint, if it is valid. -/
  endpoint : Option String := some ""
  tokenGet : Bool := true
  /-- The configuration, the files and the user data can be made. -/
  rendered : Bool := true
  dataCreate : Answer := .ok
  dataUpdate : Answer := .ok
  patch : Answer := .ok

namespace World

def putSecret (w : World) (name : String) (s : Secret) : World :=
  { w with secrets := Function.update w.secrets name (some s) }

def putConfig (w : World) (name : String) (config : K3sConfig) : World :=
  { w with configs := Function.update w.configs name (some config) }

@[simp] theorem putSecret_self (w : World) (name : String) (s : Secret) : (w.putSecret name s).secrets name = some s :=
  Function.update_self _ _ _

theorem putSecret_of_ne (w : World) {name other : String} (s : Secret) (apart : other ≠ name) :
    (w.putSecret name s).secrets other = w.secrets other :=
  Function.update_of_ne apart _ _

@[simp] theorem putConfig_self (w : World) (name : String) (config : K3sConfig) :
    (w.putConfig name config).configs name = some config :=
  Function.update_self _ _ _

theorem putConfig_of_ne (w : World) {name other : String} (config : K3sConfig) (apart : other ≠ name) :
    (w.putConfig name config).configs other = w.configs other :=
  Function.update_of_ne apart _ _

/-- `Create`, and `Update` if there is one already. -/
def createOrUpdate (w : World) (name : String) (s : Secret) (create update : Answer) : Bool × World :=
  match create with
  | .refused => (false, w)
  | .lost => (false, if (w.secrets name).isSome then w else w.putSecret name s)
  | .ok =>
    if (w.secrets name).isSome then
      match update with
      | .refused => (false, w)
      | .lost => (false, w.putSecret name s)
      | .ok => (true, w.putSecret name s)
    else (true, w.putSecret name s)

/-- `Unlock`. -/
def unlock (w : World) (get : Bool) (delete : Answer) : World :=
  if get = true ∧ delete ≠ .refused then { w with lock := none } else w

/-- `Lock`. -/
def tryLock (w : World) (a : Answers) (machine : String) : Bool × World :=
  if a.lockGet = false then (false, w)
  else
    match w.lock with
    | none =>
      match a.lockCreate with
      | .refused => (false, w)
      | .lost => (false, { w with lock := some machine })
      | .ok => (true, { w with lock := some machine })
    | some holder =>
      if holder = machine then (true, w)
      else if a.lockMachine = true ∧ (w.machines holder).isNone then
        (false, w.unlock a.lockUnlockGet a.lockUnlockDelete)
      else (false, w)

end World

/-- `generateAndStoreToken`. -/
def generateAndStoreToken (k : K3s) (a : Answers) (config : K3sConfig) (w : World) : Option String × World :=
  match a.generated with
  | none => (none, w)
  | some t =>
    let (stored, w) := w.createOrUpdate k.tokenSecret ⟨config.uid, .token t⟩ a.tokenCreate a.tokenUpdate
    (if stored then some t else none, w)

/-- `storeBootstrapData`. -/
def storeBootstrapData (a : Answers) (name : String) (config : K3sConfig) (data : SecretValue) (w : World) :
    Option K3sConfig × World :=
  let (stored, w) := w.createOrUpdate name ⟨config.uid, data⟩ a.dataCreate a.dataUpdate
  (if stored then some { config with ready := true, dataSecretName := some name } else none, w)

/-- `handleClusterNotInitialized` after the lock, up to its end or its error. -/
def initBootstrapData (k : K3s) (a : Answers) (name : String) (config : K3sConfig) (w : World) :
    Option K3sConfig × World :=
  if a.certificates = false then (none, w)
  else
    match generateAndStoreToken k a config w with
    | (none, w) => (none, w)
    | (some t, w) => if a.rendered then storeBootstrapData a name config (.userData true t) w else (none, w)

/-- `handleClusterNotInitialized`. -/
def handleClusterNotInitialized (k : K3s) (a : Answers) (name : String) (machine : Machine) (config : K3sConfig)
    (w : World) : K3sConfig × World :=
  if machine.controlPlane = false then (config, w)
  else if config.serverConfiguration = false ∧ config.cluster.isNone then (config, w)
  else
    match w.tryLock a config.machine with
    | (false, w) => (config, w)
    | (true, w) =>
      let config := { config with serverConfiguration := true }
      match initBootstrapData k a name config w with
      | (some config, w) => (config, w)
      | (none, w) => (config, w.unlock a.unlockGet a.unlockDelete)

/-- `reconcileDiscovery`: the changed cluster, and whether to go on. -/
def reconcileDiscovery (k : K3s) (a : Answers) (cluster : ClusterSpec) (w : World) : Bool × ClusterSpec × World :=
  if cluster.tokenFile ≠ "" then (true, cluster, w)
  else if cluster.server = "" ∧ a.endpoint.isNone then (false, cluster, w)
  else
    let cluster :=
      if cluster.server = "" then { cluster with server := "https://" ++ a.endpoint.getD "" } else cluster
    if cluster.token ≠ "" then (true, cluster, w)
    else
      match if a.tokenGet then w.secrets k.tokenSecret else none with
      | none => (false, cluster, w)
      | some s =>
        (true, { cluster with token := s.value.text k },
          { w with joinTokens := w.joinTokens ++ [s.value.text k] })

/-- `joinControlplane` and `joinWorker`. -/
def join (k : K3s) (a : Answers) (name : String) (machine : Machine) (config : K3sConfig) (w : World) :
    K3sConfig × World :=
  let w := w.unlock a.unlockGet a.unlockDelete
  let config := { config with serverConfiguration := config.serverConfiguration || machine.controlPlane }
  let (found, cluster, w) := reconcileDiscovery k a (config.cluster.getD {}) w
  let config := { config with cluster := some cluster }
  if found && a.rendered then
    match storeBootstrapData a name config (.userData false cluster.token) w with
    | (some config, w) => (config, w)
    | (none, w) => (config, w)
  else (config, w)

/-- The deferred patch. -/
def World.patchConfig (w : World) (name : String) (config : K3sConfig) (patch : Answer) : World :=
  if patch = .refused then w else w.putConfig name config

/-- `Reconcile`. -/
def reconcile (k : K3s) (a : Answers) (name : String) (w : World) : World :=
  match w.configs name with
  | none => w
  | some config =>
    match w.machines config.machine with
    | none => w
    | some machine =>
      if a.reads = false ∨ a.paused = true then w
      else
        let (config, w) :=
          if a.infrastructureReady = false then (config, w)
          else if machine.dataSecretName.isSome ∧ (config.ready = false ∨ config.dataSecretName.isNone) then
            ({ config with ready := true, dataSecretName := machine.dataSecretName }, w)
          else if config.ready then (config, w)
          else if w.initialized = false then handleClusterNotInitialized k a name machine config w
          else join k a name machine config w
        w.patchConfig name config a.patch

/-- The machine exists, and its config is ready with user data that starts a server with the token. -/
def InitReady (w : World) (machine t : String) : Prop :=
  ∃ m config name s, w.machines machine = some m ∧ w.configs m.config = some config ∧ config.ready = true ∧
    config.dataSecretName = some name ∧ w.secrets name = some s ∧ s.value = .userData true t

/-- What can happen. -/
inductive Event where
  | reconcile (config : String) (a : Answers)
  | machineCreated (machine config : String)
  | machineDeleted (machine : String)
  | machineBootstrapped (machine : String)
  | specChanged (config : String)
  | configDeleted (config : String)
  | secretCollected (name : String)
  | controlPlaneInitialized

/-- A step of the cluster. -/
inductive Step (k : K3s) (w : World) : Event → World → Prop where
  | reconcile (name : String) (a : Answers) : Step k w (.reconcile name a) (reconcile k a name w)
  /-- A machine comes with a config of its own. -/
  | machineCreated {machine name : String} {controlPlane serverConfiguration : Bool} {cluster : Option ClusterSpec}
      (new : w.machines machine = none) (fresh : w.configs name = none)
      (unused : ∀ other config, w.configs other = some config → config.machine ≠ machine) :
      Step k w (.machineCreated machine name)
        { w with
          machines := Function.update w.machines machine (some ⟨name, controlPlane, none⟩)
          configs :=
            Function.update w.configs name (some ⟨w.nextUID, machine, serverConfiguration, cluster, false, none⟩)
          nextUID := w.nextUID + 1 }
  | machineDeleted (machine : String) :
      Step k w (.machineDeleted machine) { w with machines := Function.update w.machines machine none }
  /-- The machine takes the name of the data secret over from its config. -/
  | machineBootstrapped {machine : String} {m : Machine} {config : K3sConfig} (here : w.machines machine = some m)
      (of : w.configs m.config = some config) (ready : config.ready = true) :
      Step k w (.machineBootstrapped machine)
        { w with
          machines := Function.update w.machines machine (some { m with dataSecretName := config.dataSecretName }) }
  | specChanged {name : String} {config : K3sConfig} (here : w.configs name = some config) (serverConfiguration : Bool)
      (cluster : Option ClusterSpec) :
      Step k w (.specChanged name)
        (w.putConfig name { config with serverConfiguration := serverConfiguration, cluster := cluster })
  /-- A config whose machine is gone is collected. -/
  | configDeleted {name : String} {config : K3sConfig} (here : w.configs name = some config)
      (gone : w.machines config.machine = none) :
      Step k w (.configDeleted name) { w with configs := Function.update w.configs name none }
  /-- So is a secret whose config is gone. -/
  | secretCollected {name : String} {s : Secret} (here : w.secrets name = some s)
      (gone : ∀ other config, w.configs other = some config → config.uid ≠ s.owner) :
      Step k w (.secretCollected name) { w with secrets := Function.update w.secrets name none }
  /-- The server of a config that is ready initialises the control plane. -/
  | initializedBy {machine t : String} (before : w.initialized = false) (ready : InitReady w machine t) :
      Step k w .controlPlaneInitialized { w with initialized := true, firstToken := some t }
  /-- The control plane is initialised by other means. -/
  | initialized (before : w.initialized = false) (nobody : ∀ machine t, ¬ InitReady w machine t) :
      Step k w .controlPlaneInitialized { w with initialized := true }

/-- The namespace before the cluster has machines. -/
def World.start (secrets : String → Option Secret) : World where
  initialized := false
  lock := none
  machines := fun _ => none
  configs := fun _ => none
  secrets := secrets
  nextUID := 0
  firstToken := none
  joinTokens := []

/-- The states that are reached by steps that are `allowed`. -/
inductive Reaches (k : K3s) (allowed : Event → Prop) : World → Prop where
  | start (secrets : String → Option Secret) : Reaches k allowed (.start secrets)
  | step {w w' : World} {e : Event} (reached : Reaches k allowed w) (may : allowed e) (next : Step k w e w') :
      Reaches k allowed w'

end KubeKey.Bootstrap
