import Mathlib.Data.List.Sort
import KubeKey.Go.Range
import KubeKey.Kubernetes.Binaries
import KubeKey.Kubernetes.Versions

/-!
# The progressive upgrade

`SetUpgradePlan`, `CalculateNextVersion` and the tasks of `ProgressiveUpgradeModule` of
`cmd/kk/pkg/kubernetes`, and the loop of `RunModule` around them. The table of supported
versions, which is visited in any order, is the one of kubeadm for amd64. What the tasks on
the hosts run into is chosen afresh for each round.
-/

namespace KubeKey.Kubernetes

open KubeKey.Go

inductive Failure where
  | error (text : String)
  | panicked
  /-- `os.Exit(0)`. -/
  | exits
deriving DecidableEq, Repr

/-- The keys of the pipeline cache and of the configuration that the tasks share, with the versions that the module
chose and those that a task put on hosts so far. -/
structure Cache where
  k8sVersion : Option String
  desiredK8sVersion : Option String
  planK8sVersion : Option String
  /-- `KubeBinaries`, by architecture. -/
  kubeBinaries : GoMap String
  /-- `KubeConf.Cluster.Kubernetes.Version`. -/
  version : String
  chosen : List String
  installed : List String

inductive UpgradeStep where
  | toV121
  | toV122
deriving DecidableEq, Repr

section Plan
variable (util : VersionUtil)

def mustParseSemantic (text : String) : Except Failure util.Version :=
  match util.parseSemantic text with
  | .ok v => .ok v
  | .error _ => .error .panicked

def compare (v : util.Version) (text : String) : Except Failure Int :=
  match util.compare v text with
  | .ok sign => .ok sign
  | .error err => .error (.error err)

/-- `SetUpgradePlan.Execute`. -/
def setUpgradePlan (step : UpgradeStep) (s : Cache) : Except Failure Cache :=
  match s.k8sVersion, s.desiredK8sVersion with
  | none, _ => .error (.error "get current Kubernetes version failed by pipeline cache")
  | some _, none => .error (.error "get desired Kubernetes version failed by pipeline cache")
  | some currentVersion, some desiredVersion => do
    let current ← mustParseSemantic util currentVersion
    let cmp ← compare util current desiredVersion
    if cmp = 1 then .error .exits
    else if step = .toV121 then do
      let v122 ← mustParseSemantic util "v1.22.0"
      let desired ← mustParseSemantic util desiredVersion
      let cmp ← compare util current "v1.21.5"
      let plan := if util.atLeast desired v122 ∧ cmp ≤ 0 then "v1.21.5" else desiredVersion
      pure { s with planK8sVersion := some plan }
    else pure { s with planK8sVersion := some desiredVersion }

variable {util}

theorem mustParseSemantic_ok {text : String} {v : util.Version} (parsed : mustParseSemantic util text = .ok v) :
    util.parseSemantic text = .ok v := by
  cases result : util.parseSemantic text with
  | ok w => simpa [mustParseSemantic, result] using parsed
  | error err => simp [mustParseSemantic, result] at parsed

theorem compare_ok {v : util.Version} {text : String} {sign : Int} (compared : compare util v text = .ok sign) :
    util.compare v text = .ok sign := by
  cases result : util.compare v text with
  | ok sign' => simpa [compare, result] using compared
  | error err => simp [compare, result] at compared

/-- A plan that was set is not lower than the current version. -/
theorem setUpgradePlan_notLower {step : UpgradeStep} {s s' : Cache} (done : setUpgradePlan util step s = .ok s') :
    ∃ current plan, s'.k8sVersion = some current ∧ s'.planK8sVersion = some plan ∧ util.NotLower current plan := by
  rw [setUpgradePlan] at done
  cases known : s.k8sVersion with
  | none => simp [known] at done
  | some currentVersion =>
    cases wanted : s.desiredK8sVersion with
    | none => simp [known, wanted] at done
    | some desiredVersion =>
      rw [known, wanted] at done
      obtain ⟨current, parsed, done⟩ := bind_ok done
      obtain ⟨cmp, compared, done⟩ := bind_ok done
      have notLower : ∀ plan sign, compare util current plan = .ok sign → sign ≠ 1 →
          util.NotLower currentVersion plan := fun plan sign compared other =>
        ⟨current, sign, mustParseSemantic_ok parsed, compare_ok compared, other⟩
      split at done
      · cases done
      · next other =>
        split at done
        · obtain ⟨v122, -, done⟩ := bind_ok done
          obtain ⟨desired, -, done⟩ := bind_ok done
          obtain ⟨cmp', compared', done⟩ := bind_ok done
          cases done
          refine ⟨currentVersion, _, rfl, rfl, ?_⟩
          split
          · next first => exact notLower _ cmp' compared' (by omega)
          · exact notLower _ cmp compared other
        · cases done
          exact ⟨currentVersion, desiredVersion, rfl, rfl, notLower _ cmp compared other⟩

variable (util)

/-- The loop that fills `nextVersionPatchList`. -/
def nextVersionPatchList (nextVersionMinor : UInt64) : List String → Except Failure (List Int64)
  | [] => .ok []
  | supportVersionStr :: rest => do
    let supportVersion ← mustParseSemantic util supportVersionStr
    let patches ← nextVersionPatchList nextVersionMinor rest
    pure (if util.minor supportVersion = nextVersionMinor then (util.patch supportVersion).toInt64 :: patches
      else patches)

/-- The branch of `calculateNextStr` for a minor version before that of the target: the current version with this minor
and the last of its sorted patches. -/
def latestOfMinor (keys : List String) (current : util.Version) (nextVersionMinor : UInt64) :
    Except Failure String := do
  let patches ← nextVersionPatchList util nextVersionMinor keys
  let nextVersion := util.withMinor current nextVersionMinor
  match (patches.insertionSort (· ≤ ·)).getLast? with
  | none => .error (.error ("Kubernetes minor version v" ++ toString (util.major nextVersion) ++ "." ++
      toString (util.minor nextVersion) ++ ".x is not supported"))
  | some patch => .ok ("v" ++ util.string (util.withPatch nextVersion patch.toUInt64))

/-- `calculateNextStr`, where the table is visited in the order `keys`. -/
def calculateNextStr (table : GoMap String) (keys : List String) (currentVersion desiredVersion : String) :
    Except Failure String := do
  let current ← mustParseSemantic util currentVersion
  let target ← mustParseSemantic util desiredVersion
  let nextVersionMinor := if util.minor target = util.minor current then util.minor current else util.minor current + 1
  if nextVersionMinor = util.minor target then
    if (table.get? desiredVersion).isSome then .ok desiredVersion
    else .error (.error ("the target version " ++ desiredVersion ++ " is not supported"))
  else latestOfMinor util keys current nextVersionMinor

/-- `CalculateNextVersion.Execute`. -/
def calculateNextVersion (table : GoMap String) (keys : List String) (s : Cache) : Except Failure String :=
  match s.k8sVersion, s.planK8sVersion with
  | none, _ => .error (.error "get current Kubernetes version failed by pipeline cache")
  | some _, none => .error (.error "get upgrade plan Kubernetes version failed by pipeline cache")
  | some currentVersion, some planVersion =>
    match calculateNextStr util table keys currentVersion planVersion with
    | .error (.error err) => .error (.error ("calculate next version failed: " ++ err))
    | result => result

end Plan

/-- The actions of the tasks of `ProgressiveUpgradeModule`. -/
inductive Action where
  | calculateNextVersion
  | download
  | pullImage
  | syncKubeBinary
  | upgradeKubeMaster
  | getClusterStatus
  | upgradeKubeWorker
  | generateCoreDNS
  | deployCoreDNS
  | generateNodeLocalDNS
  | deployNodeLocalDNS
  | setCurrentK8sVersion
deriving DecidableEq, Repr

/-- The tasks between the download and the last one, which work on the hosts. -/
def hostTasks : List Action :=
  [.pullImage, .syncKubeBinary, .upgradeKubeMaster, .getClusterStatus, .upgradeKubeWorker, .generateCoreDNS,
    .deployCoreDNS, .generateNodeLocalDNS, .deployNodeLocalDNS]

/-- `Tasks` of `ProgressiveUpgradeModule`. -/
def tasks : List Action := [.calculateNextVersion, .download] ++ hostTasks ++ [.setCurrentK8sVersion]

/-- What the tasks run into during a round of the module. -/
structure Answers (files : FileSha256) where
  /-- The order in which the table of supported versions is visited. -/
  listing : List (String × String)
  visits : (files.sha256 "kubeadm" "amd64").Visits listing
  net : Network
  /-- The error that ends the module at a task, whatever the task did before. -/
  breaks : Action → Option String

section Module
variable (util : VersionUtil) {files : FileSha256} (cfg : ClusterSpec) (answers : Answers files)

/-- `GetHostsByRole`. -/
def ClusterSpec.hostsByRole (cfg : ClusterSpec) (role : String) : List Host :=
  cfg.hosts.filter fun host => role ∈ host.roles

/-- The action of a task, with the error that ends the module. -/
def execute (a : Action) (s : Cache) : Cache × Option Failure :=
  let breaks := (answers.breaks a).map Failure.error
  match a with
  | .calculateNextVersion =>
    match calculateNextVersion util (files.sha256 "kubeadm" "amd64") (answers.listing.map Prod.fst) s with
    | .error failure => (s, some failure)
    | .ok next => ({ s with version := next, chosen := s.chosen ++ [next] }, breaks)
  | .download =>
    match downloadAction files answers.net cfg s.version s.kubeBinaries with
    | .error err => (s, some (.error err))
    | .ok cache => ({ s with kubeBinaries := cache }, breaks)
  | .syncKubeBinary =>
    let binaries := (cfg.hostsByRole "k8s").map fun host => s.kubeBinaries.get? host.arch
    ({ s with installed := s.installed ++ binaries.reduceOption },
      if binaries.any Option.isNone then some (.error "get KubeBinary by pipeline cache failed") else breaks)
  | .upgradeKubeMaster =>
    let versions := (cfg.hostsByRole "master").map fun _ => s.version
    ({ s with installed := s.installed ++ versions }, breaks)
  | .upgradeKubeWorker =>
    let versions := ((cfg.hostsByRole "worker").filter fun host => "master" ∉ host.roles).map fun _ => s.version
    ({ s with installed := s.installed ++ versions }, breaks)
  | .setCurrentK8sVersion => ({ s with k8sVersion := some s.version }, breaks)
  | .pullImage | .getClusterStatus | .generateCoreDNS | .deployCoreDNS | .generateNodeLocalDNS
  | .deployNodeLocalDNS => (s, breaks)

/-- `NotEqualPlanVersion.PreCheck`. -/
def notEqualPlanVersion (s : Cache) : Except Failure Bool :=
  match s.planK8sVersion, s.k8sVersion with
  | none, _ => .error (.error "get upgrade plan Kubernetes version failed by pipeline cache")
  | some _, none => .error (.error "get cluster Kubernetes version failed by pipeline cache")
  | some planVersion, some currentVersion => .ok (currentVersion ≠ planVersion)

/-- `Run` of a module whose tasks have `NotEqualPlanVersion` for `Prepare`. -/
def runTasks : List Action → Cache → Cache × Option Failure
  | [], s => (s, none)
  | a :: rest, s =>
    match notEqualPlanVersion s with
    | .error failure => (s, some failure)
    | .ok false => runTasks rest s
    | .ok true =>
      match execute util cfg answers a s with
      | (s, some failure) => (s, some failure)
      | (s, none) => runTasks rest s

/-- `Until`. -/
def stops (s : Cache) : Except Failure (Bool × Cache) :=
  match s.k8sVersion, s.planK8sVersion with
  | none, _ => .error (.error "get current Kubernetes version failed by pipeline cache")
  | some _, none => .error (.error "get upgrade plan Kubernetes version failed by pipeline cache")
  | some currentVersion, some planVersion =>
    if currentVersion ≠ planVersion then .ok (false, s)
    else match s.desiredK8sVersion with
      | none => .error (.error "get original desired Kubernetes version failed by pipeline cache")
      | some originalDesired => .ok (true, { s with version := originalDesired })

end Module

/-- `RunModule`, for as many rounds as there is fuel: the state at its end and the error that ended it, if any. -/
def runModule (util : VersionUtil) {files : FileSha256} (cfg : ClusterSpec) (world : Nat → Answers files) :
    (fuel round : Nat) → Cache → Option (Cache × Option Failure)
  | 0, _, _ => none
  | fuel + 1, round, s =>
    match runTasks util cfg (world round) tasks s with
    | (s, some failure) => some (s, some failure)
    | (s, none) =>
      match stops s with
      | .error failure => some (s, some failure)
      | .ok (true, s) => some (s, none)
      | .ok (false, s) => runModule util cfg world fuel (round + 1) s

end KubeKey.Kubernetes
