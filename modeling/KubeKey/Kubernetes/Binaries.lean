import KubeKey.Go.Map

/-!
# Downloading the binaries

`K8sFilesDownloadHTTP` of `cmd/kk/pkg/binaries/kubernetes.go` with what it uses of
`cmd/kk/pkg/files`. A binary counts as downloaded when its checksum is the one that
`FileSha256` has for its version, so a download of a Kubernetes version that is not in the
table fails (`kubernetesFiles_listed`), whatever the network answers.
-/

namespace KubeKey.Kubernetes

open KubeKey.Go

/-- `FileSha256`, read from `version/components.json`: component, architecture, version. -/
structure FileSha256 where
  sha256 : String → String → GoMap String
  /-- The file lists the same versions of kubeadm for both architectures. -/
  same : ∀ version, ((sha256 "kubeadm" "arm64").get? version).isSome →
    ((sha256 "kubeadm" "amd64").get? version).isSome

structure Host where
  arch : String
  roles : List String

/-- What is read from the configuration, its version apart. -/
structure ClusterSpec where
  hosts : List Host
  containerManager : String
  networkPlugin : String
  kubeSphereVersion : String
  withBuildx : Bool

structure KubeBinary where
  id : String
  arch : String
  version : String
deriving DecidableEq, Repr

/-- What the machine and the network answer while the binaries of one version are downloaded. -/
structure Network where
  fileName : KubeBinary → String
  path : KubeBinary → String
  getCmd : KubeBinary → String
  createBaseDir : KubeBinary → Option String
  /-- The file that is there already, if any, with what `sha256sum` gives for it. -/
  onDisk : KubeBinary → Option (Except String String)
  /-- The command's error, or what `sha256sum` gives for the file it left, by what is left of the attempts. -/
  fetch : KubeBinary → Nat → Except String (Except String String)
  helm2 : Option String
  /-- `range archMap` visits the architectures in the other order. -/
  reversed : Bool
  isAtLeastV124 : String → Bool

/-- `unicode.IsSpace`. -/
def isSpace (c : Char) : Bool :=
  c.toNat ∈ [0x09, 0x0A, 0x0B, 0x0C, 0x0D, 0x20, 0x85, 0xA0, 0x1680, 0x2028, 0x2029, 0x202F, 0x205F, 0x3000] ∨
    0x2000 ≤ c.toNat ∧ c.toNat ≤ 0x200A

/-- `strings.TrimSpace` leaves nothing. -/
def blank (text : String) : Bool := text.toList.all isSpace

/-- `GetSha256`. -/
def FileSha256.getSha256 (files : FileSha256) (b : KubeBinary) : String :=
  ((files.sha256 b.id b.arch).get? b.version).getD ""

/-- The version of a binary is in the table. -/
def FileSha256.Lists (files : FileSha256) (b : KubeBinary) : Prop :=
  ((files.sha256 b.id b.arch).get? b.version).isSome

section Download
variable (files : FileSha256) (net : Network)

/-- `SHA256Check`. -/
def sha256Check (b : KubeBinary) (sum : Except String String) : Except String Unit :=
  match sum with
  | .error err => .error ("Failed to check SHA256 of " ++ net.path b ++ ": " ++ err)
  | .ok output =>
    if blank (files.getSha256 b) then
      .error ("No SHA256 found for " ++ b.id ++ ". " ++ b.version ++ " is not supported.")
    else if output ≠ files.getSha256 b then
      .error ("SHA256 no match. " ++ files.getSha256 b ++ " not equal " ++ output)
    else .ok ()

/-- The loop of `Download`, with the attempts that are left. -/
def download (b : KubeBinary) : Nat → Except String Unit
  | 0 => .ok ()
  | i + 1 =>
    match net.fetch b (i + 1) with
    | .error err => .error err
    | .ok sum =>
      match sha256Check files net b sum with
      | .ok () => .ok ()
      | .error err => if i = 0 then .error err else download b i

/-- The binary is there already, with the right checksum. -/
def present (b : KubeBinary) : Bool :=
  match net.onDisk b with
  | none => false
  | some sum => (sha256Check files net b sum).isOk

/-- A round of the loop of `K8sFilesDownloadHTTP`. -/
def fetchBinary (b : KubeBinary) : Except String Unit :=
  match net.createBaseDir b with
  | some err => .error ("create file " ++ net.fileName b ++ " base dir failed: " ++ err)
  | none =>
    if present files net b then .ok ()
    else match download files net b 5 with
      | .error err => .error ("Failed to download " ++ b.id ++ " binary: " ++ net.getCmd b ++ " error: " ++ err ++ " ")
      | .ok () => .ok ()

/-- The `binaries` of `K8sFilesDownloadHTTP`, for the version of the configuration and the one to download. -/
def kubernetesFiles (cfg : ClusterSpec) (configured version arch : String) : List KubeBinary :=
  let base := [⟨"kubeadm", arch, version⟩, ⟨"kubelet", arch, version⟩, ⟨"kubectl", arch, version⟩,
    ⟨"helm", arch, "v3.18.5"⟩, ⟨"kubecni", arch, "v1.2.0"⟩, ⟨"crictl", arch, "v1.29.0"⟩, ⟨"etcd", arch, "v3.5.13"⟩]
  let runtime :=
    if cfg.containerManager = "docker" then
      [⟨"docker", arch, "24.0.9"⟩] ++ (if net.isAtLeastV124 configured then [⟨"cri-dockerd", arch, "0.3.10"⟩] else [])
        ++ (if cfg.withBuildx then [⟨"buildx", arch, "v0.14.0"⟩] else [])
    else if cfg.containerManager = "containerd" then [⟨"containerd", arch, "1.7.13"⟩, ⟨"runc", arch, "v1.1.12"⟩]
    else []
  let network := if cfg.networkPlugin = "calico" then [⟨"calicoctl", arch, "v3.27.4"⟩] else []
  base ++ runtime ++ network

/-- `K8sFilesDownloadHTTP`. -/
def k8sFilesDownloadHTTP (cfg : ClusterSpec) (configured version arch : String) : Except String Unit := do
  (kubernetesFiles net cfg configured version arch).forM (fetchBinary files net)
  if cfg.kubeSphereVersion = "v2.1.1" then
    match net.helm2 with
    | some err => .error ("Failed to download helm2 binary: " ++ err)
    | none => pure ()

/-- `kubeVersion`, with `DefaultKubeVersion`. -/
def kubeVersion (configured : String) : String := if configured = "" then "v1.23.17" else configured

/-- The loop over the hosts in the action of `Download`. -/
def archMap (hosts : List Host) : Except String (GoMap Bool) :=
  hosts.foldlM (fun archs host =>
    if host.arch = "amd64" ∨ host.arch = "arm64" then .ok (archs.put host.arch true)
    else .error ("Unsupported architecture: " ++ host.arch)) GoMap.empty

/-- A round of the loop over the architectures. The cache has the version of the binaries of each. -/
def downloadArch (cfg : ClusterSpec) (configured : String) (cache : GoMap String) (arch : String) :
    Except String (GoMap String) := do
  k8sFilesDownloadHTTP files net cfg configured (kubeVersion configured) arch
  pure (cache.put arch (kubeVersion configured))

/-- `Download.Execute`. -/
def downloadAction (cfg : ClusterSpec) (configured : String) (cache : GoMap String) :
    Except String (GoMap String) := do
  let archs ← archMap cfg.hosts
  (if net.reversed then archs.keys.reverse else archs.keys).foldlM (downloadArch files net cfg configured) cache

end Download

/-! ## What a download that succeeds says -/

theorem bind_ok {α β ε : Type} {x : Except ε α} {f : α → Except ε β} {b : β} (run : x >>= f = .ok b) :
    ∃ a, x = .ok a ∧ f a = .ok b := by
  cases x with
  | error err => cases run
  | ok a => exact ⟨a, rfl, run⟩

theorem forM_ok {α ε : Type} {f : α → Except ε Unit} {l : List α} (run : l.forM f = .ok ()) :
    ∀ a ∈ l, f a = .ok () := by
  induction l with
  | nil => exact fun a inside => by cases inside
  | cons a l ih =>
    obtain ⟨⟨⟩, here, later⟩ := bind_ok (x := f a) (f := fun _ => l.forM f) run
    intro b inside
    rcases List.mem_cons.1 inside with rfl | inside
    · exact here
    · exact ih later b inside

/-- A property that each round of a fold keeps. -/
theorem foldlM_ok {α σ ε : Type} {f : σ → α → Except ε σ} {I : List α → σ → Prop} {l : List α} {s s' : σ}
    (round : ∀ done a s s', I done s → f s a = .ok s' → I (done ++ [a]) s')
    (start : I [] s) (run : l.foldlM f s = .ok s') : I l s' := by
  suffices ∀ l done s, I done s → l.foldlM f s = .ok s' → I (done ++ l) s' from this l [] s start run
  intro l
  induction l with
  | nil =>
    intro done s holds run
    cases run
    rwa [List.append_nil]
  | cons a l ih =>
    intro done s holds run
    rw [List.foldlM_cons] at run
    obtain ⟨s₁, first, later⟩ := bind_ok run
    simpa using ih (done ++ [a]) s₁ (round done a s s₁ holds first) later

section Listed
variable {files : FileSha256} {net : Network} {b : KubeBinary} {cfg : ClusterSpec} {configured version arch : String}

/-- A checksum is right only for a version in the table. -/
theorem sha256Check_listed {sum : Except String String} (right : sha256Check files net b sum = .ok ()) :
    files.Lists b := by
  cases sum with
  | error err => cases right
  | ok output =>
    rw [sha256Check] at right
    split at right
    · cases right
    · next filled =>
      unfold FileSha256.Lists
      cases found : (files.sha256 b.id b.arch).get? b.version with
      | some sum => rfl
      | none =>
        have none_there : files.getSha256 b = "" := by rw [FileSha256.getSha256, found, Option.getD_none]
        rw [none_there] at filled
        exact absurd (by decide) filled

theorem download_listed {i : Nat} (done : download files net b (i + 1) = .ok ()) : files.Lists b := by
  induction i with
  | zero =>
    rw [download] at done
    cases fetched : net.fetch b (0 + 1) with
    | error err => simp [fetched] at done
    | ok sum =>
      cases right : sha256Check files net b sum with
      | ok _ => exact sha256Check_listed right
      | error err => simp [fetched, right] at done
  | succ i ih =>
    rw [download] at done
    cases fetched : net.fetch b (i + 1 + 1) with
    | error err => simp [fetched] at done
    | ok sum =>
      cases right : sha256Check files net b sum with
      | ok _ => exact sha256Check_listed right
      | error err =>
        simp only [fetched, right] at done
        exact ih (by simpa using done)

theorem present_listed (complete : present files net b = true) : files.Lists b := by
  rw [present] at complete
  cases there : net.onDisk b with
  | none => simp [there] at complete
  | some sum =>
    cases right : sha256Check files net b sum with
    | ok _ => exact sha256Check_listed right
    | error err => simp [there, right, Except.isOk, Except.toBool] at complete

theorem fetchBinary_listed (done : fetchBinary files net b = .ok ()) : files.Lists b := by
  rw [fetchBinary] at done
  cases base : net.createBaseDir b with
  | some err => simp [base] at done
  | none =>
    by_cases complete : present files net b = true
    · exact present_listed complete
    · cases fetched : download files net b 5 with
      | ok _ => exact download_listed fetched
      | error err => simp [base, complete, fetched] at done

/-- A download of Kubernetes that succeeds is one of a version in the table of the architecture. -/
theorem kubernetesFiles_listed (done : k8sFilesDownloadHTTP files net cfg configured version arch = .ok ()) :
    files.Lists ⟨"kubeadm", arch, version⟩ := by
  obtain ⟨⟨⟩, fetched, -⟩ := bind_ok done
  exact fetchBinary_listed (forM_ok fetched _ (by simp [kubernetesFiles]))

theorem archMap_arch {hosts : List Host} {archs : GoMap Bool} (made : archMap hosts = .ok archs) :
    ∀ host ∈ hosts, host.arch ∈ archs.keys ∧ (host.arch = "amd64" ∨ host.arch = "arm64") := by
  refine foldlM_ok (I := fun done archs => ∀ host ∈ done,
    host.arch ∈ archs.keys ∧ (host.arch = "amd64" ∨ host.arch = "arm64")) ?_ ?_ made
  · intro done host archs archs' holds step other inside
    split at step
    · next known =>
      cases step
      rcases List.mem_append.1 inside with earlier | here
      · obtain ⟨listed, known⟩ := holds other earlier
        refine ⟨?_, known⟩
        rw [← GoMap.get?_isSome_iff] at listed ⊢
        rw [GoMap.get?_put]
        split
        · rfl
        · exact listed
      · cases List.mem_singleton.1 here
        refine ⟨?_, known⟩
        rw [← GoMap.get?_isSome_iff, GoMap.get?_put_self]
        rfl
    · cases step
  · exact fun host inside => by cases inside

/-- After a download each host's architecture has the binaries of the version, and kubeadm of that version is in the
table. -/
theorem downloadAction_listed {cache cache' : GoMap String}
    (done : downloadAction files net cfg configured cache = .ok cache') :
    ∀ host ∈ cfg.hosts, cache'.get? host.arch = some (kubeVersion configured) ∧
      ((files.sha256 "kubeadm" "amd64").get? (kubeVersion configured)).isSome := by
  obtain ⟨archs, made, loop⟩ := bind_ok done
  have each : ∀ arch ∈ (if net.reversed then archs.keys.reverse else archs.keys),
      cache'.get? arch = some (kubeVersion configured) ∧ files.Lists ⟨"kubeadm", arch, kubeVersion configured⟩ := by
    refine foldlM_ok (I := fun done (cache' : GoMap String) => ∀ arch ∈ done,
      cache'.get? arch = some (kubeVersion configured) ∧ files.Lists ⟨"kubeadm", arch, kubeVersion configured⟩)
      ?_ ?_ loop
    · intro done arch cache₁ cache₂ holds round other inside
      obtain ⟨⟨⟩, fetched, same⟩ := bind_ok round
      cases same
      rcases List.mem_append.1 inside with earlier | here
      · obtain ⟨cached, listed⟩ := holds other earlier
        refine ⟨?_, listed⟩
        rw [GoMap.get?_put]
        split
        · rfl
        · exact cached
      · cases List.mem_singleton.1 here
        exact ⟨GoMap.get?_put_self _ _ _, kubernetesFiles_listed fetched⟩
    · exact fun arch inside => by cases inside
  intro host inside
  obtain ⟨member, known⟩ := archMap_arch made host inside
  have visited : host.arch ∈ (if net.reversed then archs.keys.reverse else archs.keys) := by
    split
    · exact List.mem_reverse.2 member
    · exact member
  obtain ⟨cached, listed⟩ := each host.arch visited
  refine ⟨cached, ?_⟩
  rcases known with amd | arm
  · rw [amd] at listed
    exact listed
  · rw [arm] at listed
    exact files.same _ listed

end Listed
end KubeKey.Kubernetes
