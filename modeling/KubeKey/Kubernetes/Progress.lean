import Mathlib.Data.List.Chain
import Mathlib.Data.List.ReduceOption
import KubeKey.Kubernetes.Upgrade

/-!
# The upgrade reaches its plan

A round of the module either ends it with an error or raises the minor version by one or
reaches the plan, so that the rounds are counted by the minor versions between the two
(`progressive_upgrade`). The version that `calculateNextStr` puts together need not be in the
table of supported versions: the suffix of the current version is carried over to it. It is
the download, which comes before every task that puts a version on a host, that stops at it.
-/

namespace KubeKey.Kubernetes

open KubeKey.Go

/-- `b` is not lower than `a` and at most one minor version above it. -/
def VersionUtil.Step (util : VersionUtil) (a b : String) : Prop :=
  util.NotLower a b ∧ ∃ v w, util.parseSemantic a = .ok v ∧ util.parseSemantic b = .ok w ∧
    (util.minor w).toNat ≤ (util.minor v).toNat + 1

section Next
variable {util : VersionUtil} {keys : List String} {c p : String} {v w : util.Version}
  {m : UInt64}

theorem mustParseSemantic_of_ok (parsed : util.parseSemantic c = .ok v) : mustParseSemantic util c = .ok v := by
  rw [mustParseSemantic, parsed]

/-- The list has the patches of the supported versions with that minor. -/
theorem nextVersionPatchList_ok (parse : ∀ key ∈ keys, ∃ u, util.parseSemantic key = .ok u) :
    ∃ patches, nextVersionPatchList util m keys = .ok patches ∧ ∀ patch, patch ∈ patches ↔
      ∃ key ∈ keys, ∃ u, util.parseSemantic key = .ok u ∧ util.minor u = m ∧ (util.patch u).toInt64 = patch := by
  induction keys with
  | nil => exact ⟨[], rfl, by simp⟩
  | cons key keys ih =>
    obtain ⟨patches, listed, exactly⟩ := ih fun key inside => parse key (List.mem_cons_of_mem _ inside)
    obtain ⟨u, parsed⟩ := parse key List.mem_cons_self
    have only : ∀ u', util.parseSemantic key = .ok u' ↔ u' = u := fun u' => by
      rw [parsed, Except.ok.injEq, eq_comm]
    refine ⟨_, by rw [nextVersionPatchList, mustParseSemantic_of_ok parsed, listed]; rfl, fun patch => ?_⟩
    simp only [List.mem_cons, exists_eq_or_imp, only, exists_eq_left]
    split
    · next same => simp [exactly, same, eq_comm]
    · next other => simp [exactly, other]

/-- The last element of a sorted list is the greatest. -/
theorem getLast?_insertionSort {patches : List Int64} {last : Int64}
    (found : (patches.insertionSort (· ≤ ·)).getLast? = some last) :
    last ∈ patches ∧ ∀ patch ∈ patches, patch ≤ last := by
  obtain ⟨front, split⟩ := List.getLast?_eq_some_iff.1 found
  have same : ∀ patch, patch ∈ patches ↔ patch ∈ front ++ [last] := fun patch => by
    rw [← split, List.mem_insertionSort]
  have sorted := List.pairwise_insertionSort (fun a b : Int64 => a ≤ b) patches
  rw [split, List.pairwise_append] at sorted
  refine ⟨(same last).2 (by simp), fun patch inside => ?_⟩
  rcases List.mem_append.1 ((same patch).1 inside) with earlier | here
  · exact sorted.2.2 patch earlier last (by simp)
  · rw [List.mem_singleton.1 here]
    exact Int64.le_refl last

/-- The text is a version with that minor, and no version of the table has a greater patch. -/
structure Latest (util : VersionUtil) (keys : List String) (v : util.Version) (m : UInt64) (next : String)
    (n : util.Version) : Prop where
  parsed : util.parseSemantic next = .ok n
  major : util.major n = util.major v
  minor : util.minor n = m
  supported : ∃ key ∈ keys, ∃ u, util.parseSemantic key = .ok u ∧ util.minor u = m ∧ util.patch u = util.patch n
  greatest : ∀ key ∈ keys, ∀ u, util.parseSemantic key = .ok u → util.minor u = m →
    (util.patch u).toInt64 ≤ (util.patch n).toInt64

theorem latestOfMinor_spec (laws : util.Laws) (parse : ∀ key ∈ keys, ∃ u, util.parseSemantic key = .ok u) :
    (∃ text, latestOfMinor util keys v m = .error (.error text)) ∨
      ∃ next n, latestOfMinor util keys v m = .ok next ∧ Latest util keys v m next n := by
  obtain ⟨patches, listed, exactly⟩ := nextVersionPatchList_ok (m := m) parse
  cases found : (patches.insertionSort (· ≤ ·)).getLast? with
  | none =>
    left
    rw [latestOfMinor, listed]
    simp only [bind, Except.bind, found]
    exact ⟨_, rfl⟩
  | some patch =>
    obtain ⟨member, greatest⟩ := getLast?_insertionSort found
    right
    refine ⟨_, util.withPatch (util.withMinor v m) patch.toUInt64, ?_, laws.parse_string _, ?_, ?_, ?_, ?_⟩
    · rw [latestOfMinor, listed]
      simp only [bind, Except.bind, found]
    · rw [laws.major_withPatch, laws.major_withMinor]
    · rw [laws.minor_withPatch, laws.minor_withMinor]
    · obtain ⟨key, inside, u, parsed, minor, value⟩ := (exactly patch).1 member
      exact ⟨key, inside, u, parsed, minor, by rw [laws.patch_withPatch, ← value, UInt64.toUInt64_toInt64]⟩
    · intro key inside u parsed minor
      rw [laws.patch_withPatch, Int64.toInt64_toUInt64]
      exact greatest _ ((exactly _).2 ⟨key, inside, u, parsed, minor, rfl⟩)

/-- Where the next minor version is that of the target, the target is next if it is supported. -/
theorem target_supported (table : GoMap String) (p text : String) :
    (∃ text', (if (table.get? p).isSome then Except.ok p else .error (Failure.error text)) = .error (.error text')) ∨
      (if (table.get? p).isSome then Except.ok p else .error (Failure.error text)) = .ok p ∧ (table.get? p).isSome := by
  cases (table.get? p).isSome with
  | true => exact .inr ⟨rfl, rfl⟩
  | false => exact .inl ⟨text, rfl⟩

/-- The next version is the plan, at most one minor version further, or one between the two. -/
theorem calculateNextStr_spec (table : GoMap String) (laws : util.Laws) (current : util.parseSemantic c = .ok v)
    (plan : util.parseSemantic p = .ok w) (ahead : util.minor v ≤ util.minor w)
    (parse : ∀ key ∈ keys, ∃ u, util.parseSemantic key = .ok u) :
    (∃ text, calculateNextStr util table keys c p = .error (.error text)) ∨
    (calculateNextStr util table keys c p = .ok p ∧ (table.get? p).isSome ∧
      (util.minor w).toNat ≤ (util.minor v).toNat + 1) ∨
    ∃ next n m, calculateNextStr util table keys c p = .ok next ∧ Latest util keys v m next n ∧
      m.toNat = (util.minor v).toNat + 1 ∧ m < util.minor w := by
  rw [calculateNextStr, mustParseSemantic_of_ok current, mustParseSemantic_of_ok plan]
  simp only [bind, Except.bind]
  by_cases same : util.minor w = util.minor v
  · rw [if_pos same, if_pos same.symm]
    rcases target_supported table p _ with failed | ⟨result, supported⟩
    · exact .inl failed
    · exact .inr (.inl ⟨result, supported, by rw [same]; omega⟩)
  · have below : (util.minor v).toNat < (util.minor w).toNat :=
      Nat.lt_of_le_of_ne (UInt64.le_iff_toNat_le.1 ahead) fun equal => same (UInt64.toNat_inj.1 equal).symm
    have bound : (util.minor w).toNat < 2 ^ 64 := (util.minor w).toNat_lt
    have plus : (util.minor v + 1).toNat = (util.minor v).toNat + 1 := by
      rw [UInt64.toNat_add, UInt64.toNat_one]
      omega
    rw [if_neg same]
    by_cases last : util.minor v + 1 = util.minor w
    · rw [if_pos last]
      rcases target_supported table p _ with failed | ⟨result, supported⟩
      · exact .inl failed
      · exact .inr (.inl ⟨result, supported, by rw [← last, plus]⟩)
    · rw [if_neg last]
      rcases latestOfMinor_spec laws parse with failed | ⟨next, n, result, latest⟩
      · exact .inl failed
      · refine .inr (.inr ⟨next, n, util.minor v + 1, result, latest, plus, ?_⟩)
        rw [UInt64.lt_iff_toNat_lt, plus]
        exact Nat.lt_of_le_of_ne below fun equal => last (UInt64.toNat_inj.1 (plus.trans equal))

end Next

/-! ## A round -/

section Round
variable {util : VersionUtil} {files : FileSha256} {cfg : ClusterSpec} {answers : Answers files}
  {c p next start : String} {s s' : Cache} {failure : Option Failure}

/-- The key of the table of supported versions. -/
def FileSha256.Supports (files : FileSha256) (version : String) : Prop :=
  ((files.sha256 "kubeadm" "amd64").get? version).isSome

/-- The round is still on its way from `c` to `p`. -/
structure Underway (c p : String) (s : Cache) : Prop where
  current : s.k8sVersion = some c
  plan : s.planK8sVersion = some p

/-- The binaries of the next version are there. -/
structure Installing (files : FileSha256) (cfg : ClusterSpec) (c p next : String) (s : Cache) : Prop
    extends Underway c p s where
  version : s.version = next
  binaries : ∀ host ∈ cfg.hosts, s.kubeBinaries.get? host.arch = some next
  supported : ∀ host ∈ cfg.hosts, files.Supports next

/-- What was installed later is the next version, and a supported one. -/
structure Adds (files : FileSha256) (next : String) (s s' : Cache) : Prop where
  chosen : s'.chosen = s.chosen
  installed : ∀ version ∈ s'.installed, version ∈ s.installed ∨ version = next ∧ files.Supports version

/-- The module ended with an error, not with a panic. -/
def Fails (failure : Option Failure) : Prop := ∀ f ∈ failure, ∃ text, f = .error text

variable (util cfg answers) in
theorem runTasks_skip (current : s.k8sVersion = some p) (plan : s.planK8sVersion = some p) (l : List Action) :
    runTasks util cfg answers l s = (s, none) := by
  induction l with
  | nil => rfl
  | cons a l ih =>
    rw [runTasks, notEqualPlanVersion, plan, current]
    simpa using ih

theorem runTasks_cons (underway : Underway c p s) (differ : c ≠ p) (a : Action) (l : List Action) :
    runTasks util cfg answers (a :: l) s = match execute util cfg answers a s with
      | (s, some failure) => (s, some failure)
      | (s, none) => runTasks util cfg answers l s := by
  have prepared : notEqualPlanVersion s = .ok true := by
    rw [notEqualPlanVersion, underway.plan, underway.current]
    simp [differ]
  rcases executed : execute util cfg answers a s with ⟨s', none | failure⟩ <;> simp only [runTasks, prepared, executed]

theorem fails_none : Fails none := fun f member => by cases member

theorem fails_breaks (answers : Answers files) (a : Action) : Fails ((answers.breaks a).map Failure.error) := by
  intro f member
  cases broken : answers.breaks a with
  | none => simp [broken] at member
  | some text => exact ⟨text, by simpa [broken, eq_comm] using member⟩

variable (util answers) in
/-- A task on the hosts installs the next version only. -/
theorem execute_hostTask {a : Action} (among : a ∈ hostTasks) (installing : Installing files cfg c p next s) :
    Installing files cfg c p next (execute util cfg answers a s).1 ∧
      Adds files next s (execute util cfg answers a s).1 ∧ Fails (execute util cfg answers a s).2 := by
  have fixed : ∀ versions : List String, (∀ version ∈ versions, version = next ∧ files.Supports version) →
      Installing files cfg c p next { s with installed := s.installed ++ versions } ∧
        Adds files next s { s with installed := s.installed ++ versions } := fun versions each =>
    ⟨⟨⟨installing.current, installing.plan⟩, installing.version, installing.binaries, installing.supported⟩, rfl,
      fun version inside => (List.mem_append.1 inside).imp_right (each version)⟩
  have idle : Installing files cfg c p next s ∧ Adds files next s s := ⟨installing, rfl, fun _ inside => .inl inside⟩
  have onRole : ∀ hosts : List Host, (∀ host ∈ hosts, host ∈ cfg.hosts) →
      ∀ version ∈ hosts.map fun _ => s.version, version = next ∧ files.Supports version := by
    intro hosts among version inside
    obtain ⟨host, member, rfl⟩ := List.mem_map.1 inside
    rw [installing.version]
    exact ⟨rfl, installing.supported host (among host member)⟩
  have breaks := fails_breaks answers a
  simp only [hostTasks, List.mem_cons, List.not_mem_nil, or_false] at among
  rcases among with rfl | rfl | rfl | rfl | rfl | rfl | rfl | rfl | rfl
  · exact ⟨idle.1, idle.2, breaks⟩
  · have added := fixed ((cfg.hostsByRole "k8s").map fun host => s.kubeBinaries.get? host.arch).reduceOption <| by
      intro version inside
      rw [List.reduceOption_mem_iff] at inside
      obtain ⟨host, member, found⟩ := List.mem_map.1 inside
      have listed := (List.mem_filter.1 member).1
      rw [installing.binaries host listed] at found
      cases found
      exact ⟨rfl, installing.supported host listed⟩
    refine ⟨added.1, added.2, ?_⟩
    show Fails (if List.any _ Option.isNone then _ else _)
    split
    · intro f member
      cases member
      exact ⟨_, rfl⟩
    · exact breaks
  · have added := fixed _ (onRole (cfg.hostsByRole "master") fun host inside => (List.mem_filter.1 inside).1)
    exact ⟨added.1, added.2, breaks⟩
  · exact ⟨idle.1, idle.2, breaks⟩
  · have added := fixed _ (onRole ((cfg.hostsByRole "worker").filter fun host => "master" ∉ host.roles)
      fun host inside => (List.mem_filter.1 (List.mem_filter.1 inside).1).1)
    exact ⟨added.1, added.2, breaks⟩
  · exact ⟨idle.1, idle.2, breaks⟩
  · exact ⟨idle.1, idle.2, breaks⟩
  · exact ⟨idle.1, idle.2, breaks⟩
  · exact ⟨idle.1, idle.2, breaks⟩

/-- After the download the tasks on the hosts and the last one follow. -/
theorem runTasks_hostTasks (differ : c ≠ p) {l : List Action} (among : ∀ a ∈ l, a ∈ hostTasks)
    (installing : Installing files cfg c p next s)
    (run : runTasks util cfg answers (l ++ [.setCurrentK8sVersion]) s = (s', failure)) :
    Adds files next s s' ∧ Fails failure ∧ s'.planK8sVersion = some p ∧
      (failure = none → s'.k8sVersion = some next) := by
  induction l generalizing s with
  | nil =>
    rw [List.nil_append, runTasks_cons installing.toUnderway differ] at run
    have breaks := fails_breaks answers .setCurrentK8sVersion
    have done : Adds files next s { s with k8sVersion := some s.version } := ⟨rfl, fun _ inside => .inl inside⟩
    simp only [execute] at run
    cases broken : (answers.breaks .setCurrentK8sVersion).map Failure.error with
    | some f =>
      rw [broken] at run
      cases run
      exact ⟨done, broken ▸ breaks, installing.plan, fun ended => by cases ended⟩
    | none =>
      rw [broken] at run
      cases run
      exact ⟨done, fails_none, installing.plan, fun _ => congrArg some installing.version⟩
  | cons a l ih =>
    obtain ⟨kept, adds, fails⟩ := execute_hostTask util answers
      (among a List.mem_cons_self) installing
    rw [List.cons_append, runTasks_cons installing.toUnderway differ] at run
    rcases result : execute util cfg answers a s with ⟨s₁, _ | f⟩
    · rw [result] at run kept adds
      obtain ⟨later, rest⟩ := ih (fun b inside => among b (List.mem_cons_of_mem _ inside)) kept run
      refine ⟨⟨later.chosen.trans adds.chosen, fun version inside => ?_⟩, rest⟩
      rcases later.installed version inside with earlier | new
      · exact adds.installed version earlier
      · exact .inr new
    · rw [result] at run kept adds fails
      cases run
      exact ⟨adds, fails, kept.plan, fun ended => by cases ended⟩

/-- Nothing is installed before the download has found the next version in the table. -/
theorem runTasks_download (differ : c ≠ p) (underway : Underway c p s) (version : s.version = next)
    (named : kubeVersion next = next)
    (run : runTasks util cfg answers (.download :: (hostTasks ++ [.setCurrentK8sVersion])) s = (s', failure)) :
    Adds files next s s' ∧ Fails failure ∧ s'.planK8sVersion = some p ∧
      (failure = none → s'.k8sVersion = some next) := by
  have still : Adds files next s s := ⟨rfl, fun _ inside => .inl inside⟩
  rw [runTasks_cons underway differ] at run
  cases downloaded : downloadAction files answers.net cfg s.version s.kubeBinaries with
  | error err =>
    simp only [execute, downloaded, Prod.mk.injEq] at run
    obtain ⟨rfl, rfl⟩ := run
    refine ⟨still, fun f member => ?_, underway.plan, fun ended => by cases ended⟩
    cases member
    exact ⟨err, rfl⟩
  | ok cache =>
    have listed := downloadAction_listed downloaded
    rw [version, named] at listed
    have installing : Installing files cfg c p next { s with kubeBinaries := cache } :=
      ⟨⟨underway.current, underway.plan⟩, version, fun host inside => (listed host inside).1,
        fun host inside => (listed host inside).2⟩
    have breaks := fails_breaks answers .download
    simp only [execute, downloaded] at run
    cases broken : (answers.breaks .download).map Failure.error with
    | some f =>
      rw [broken] at run
      cases run
      exact ⟨⟨rfl, fun _ inside => .inl inside⟩, broken ▸ breaks, underway.plan, fun ended => by cases ended⟩
    | none =>
      rw [broken] at run
      obtain ⟨adds, rest⟩ := runTasks_hostTasks differ (fun _ inside => inside) installing run
      exact ⟨⟨adds.chosen, adds.installed⟩, rest⟩

/-- Where a round leads if it ends well. -/
def Leads (util : VersionUtil) (v w : util.Version) (p next : String) : Prop :=
  next = p ∧ (util.minor w).toNat ≤ (util.minor v).toNat + 1 ∨
    ∃ n, util.parseSemantic next = .ok n ∧ util.major n = util.major v ∧
      (util.minor n).toNat = (util.minor v).toNat + 1 ∧ util.minor n < util.minor w

/-- A round ends with an error or leads to the next version. -/
theorem round_spec (laws : util.Laws) {v w : util.Version} (current : util.parseSemantic c = .ok v)
    (plan : util.parseSemantic p = .ok w) (ahead : util.minor v ≤ util.minor w)
    (parse : ∀ key ∈ (files.sha256 "kubeadm" "amd64").keys, ∃ u, util.parseSemantic key = .ok u)
    (differ : c ≠ p) (underway : Underway c p s)
    (run : runTasks util cfg answers tasks s = (s', failure)) :
    Fails failure ∧ (s'.chosen = s.chosen ∧ s'.installed = s.installed ∧ failure ≠ none ∨
      ∃ next, Leads util v w p next ∧ s'.chosen = s.chosen ++ [next] ∧
        (∀ version ∈ s'.installed, version ∈ s.installed ∨ version = next ∧ files.Supports version) ∧
        s'.planK8sVersion = some p ∧ (failure = none → s'.k8sVersion = some next)) := by
  have keys : ∀ key ∈ answers.listing.map Prod.fst, ∃ u, util.parseSemantic key = .ok u := fun key inside =>
    parse key (((answers.visits.map Prod.fst).mem_iff).1 inside)
  have named : ∀ next n, util.parseSemantic next = .ok n → kubeVersion next = next := by
    intro next n parsed
    obtain ⟨err, failed⟩ := laws.parse_empty
    refine if_neg fun empty => ?_
    rw [empty, failed] at parsed
    cases parsed
  rw [tasks, List.append_assoc, List.cons_append, List.singleton_append, runTasks_cons underway differ] at run
  have chosen : ∀ next, Leads util v w p next → kubeVersion next = next →
      calculateNextStr util (files.sha256 "kubeadm" "amd64") (answers.listing.map Prod.fst) c p = .ok next →
      Fails failure ∧ ∃ next, Leads util v w p next ∧ s'.chosen = s.chosen ++ [next] ∧
        (∀ version ∈ s'.installed, version ∈ s.installed ∨ version = next ∧ files.Supports version) ∧
        s'.planK8sVersion = some p ∧ (failure = none → s'.k8sVersion = some next) := by
    intro next leads named result
    have breaks := fails_breaks answers .calculateNextVersion
    simp only [execute, calculateNextVersion, underway.current, underway.plan, result] at run
    cases broken : (answers.breaks .calculateNextVersion).map Failure.error with
    | some f =>
      rw [broken] at run
      cases run
      exact ⟨broken ▸ breaks, next, leads, rfl, fun _ inside => .inl inside, rfl, fun ended => by cases ended⟩
    | none =>
      rw [broken] at run
      obtain ⟨adds, fails, kept, reached⟩ := runTasks_download differ ⟨rfl, rfl⟩ (show _ = next from rfl) named run
      exact ⟨fails, next, leads, adds.chosen, adds.installed, kept, reached⟩
  rcases calculateNextStr_spec (files.sha256 "kubeadm" "amd64") laws current plan ahead keys with
    ⟨text, failed⟩ | ⟨result, -, near⟩ | ⟨next, n, m, result, latest, minor, below⟩
  · simp only [execute, calculateNextVersion, underway.current, underway.plan, failed, Prod.mk.injEq] at run
    obtain ⟨rfl, rfl⟩ := run
    refine ⟨fun f member => ?_, .inl ⟨rfl, rfl, by simp⟩⟩
    cases member
    exact ⟨_, rfl⟩
  · obtain ⟨fails, led⟩ := chosen p (.inl ⟨rfl, near⟩) (named p w plan) result
    exact ⟨fails, .inr led⟩
  · have leads : Leads util v w p next :=
      .inr ⟨n, latest.parsed, latest.major, by rw [latest.minor, minor], by rw [latest.minor]; exact below⟩
    obtain ⟨fails, led⟩ := chosen next leads (named next n latest.parsed) result
    exact ⟨fails, .inr led⟩

end Round

/-! ## The whole upgrade -/

section Run
variable {util : VersionUtil} {files : FileSha256} {cfg : ClusterSpec}

/-- What holds of the versions that were chosen and installed so far. -/
structure Sound (util : VersionUtil) (files : FileSha256) (start : String) (s : Cache) : Prop where
  steps : List.IsChain util.Step (start :: s.chosen)
  supported : ∀ version ∈ s.installed, version ∈ s.chosen ∧ files.Supports version

theorem Sound.congr {start : String} {s s' : Cache} (sound : Sound util files start s)
    (chosen : s'.chosen = s.chosen) (installed : s'.installed = s.installed) : Sound util files start s' := by
  obtain ⟨steps, supported⟩ := sound
  rw [← chosen] at steps
  refine ⟨steps, ?_⟩
  rw [installed, chosen]
  exact supported

/-- One more version. -/
theorem Sound.extend {start c next : String} {s s' : Cache} (sound : Sound util files start s)
    (last : (start :: s.chosen).getLast? = some c) (step : util.Step c next) (chosen : s'.chosen = s.chosen ++ [next])
    (installed : ∀ version ∈ s'.installed, version ∈ s.installed ∨ version = next ∧ files.Supports version) :
    Sound util files start s' := by
  refine ⟨?_, fun version inside => ?_⟩
  · rw [chosen, ← List.cons_append]
    refine sound.steps.append (List.isChain_singleton next) fun x before y after => ?_
    rw [last, Option.mem_some_iff] at before
    cases before
    cases after
    exact step
  · rw [chosen, List.mem_append, List.mem_singleton]
    rcases installed version inside with earlier | ⟨same, supports⟩
    · exact ⟨.inl (sound.supported version earlier).1, (sound.supported version earlier).2⟩
    · exact ⟨.inr same, supports⟩

/-- Once the plan is reached the module ends. -/
theorem runModule_plan {world : Nat → Answers files} {p : String} (fuel : Nat) {round : Nat} {s s' : Cache}
    (run : runTasks util cfg (world round) tasks s = (s', none)) (current : s'.k8sVersion = some p)
    (plan : s'.planK8sVersion = some p) :
    ∃ s'' ending, runModule util cfg world (fuel + 1) round s = some (s'', ending) ∧ s''.chosen = s'.chosen ∧
      s''.installed = s'.installed ∧ Fails ending ∧ s''.k8sVersion = some p := by
  rw [runModule, run]
  cases desired : s'.desiredK8sVersion with
  | none =>
    refine ⟨s', some (.error "get original desired Kubernetes version failed by pipeline cache"), ?_, rfl, rfl, ?_,
      current⟩
    · simp [stops, current, plan, desired]
    · intro f member
      cases member
      exact ⟨_, rfl⟩
  | some originalDesired =>
    refine ⟨{ s' with version := originalDesired }, none, ?_, rfl, rfl, fails_none, current⟩
    simp [stops, current, plan, desired]

/-- Where a round leads is one step further. -/
theorem Leads.step (laws : util.Laws) {c p next : String} {v w : util.Version}
    (current : util.parseSemantic c = .ok v) (plan : util.parseSemantic p = .ok w) (notLower : util.NotLower c p)
    (leads : Leads util v w p next) : util.Step c next := by
  rcases leads with ⟨rfl, near⟩ | ⟨n, parsed, major, minor, -⟩
  · exact ⟨notLower, v, w, current, plan, near⟩
  · have higher : util.minor v < util.minor n := by
      rw [UInt64.lt_iff_toNat_lt]
      omega
    have compared := laws.compare_of_minor_lt v n next parsed major.symm higher
    exact ⟨⟨v, -1, current, compared, by decide⟩, v, n, current, parsed, by omega⟩

/-- The rounds from a version on, as many as there are minor versions up to the plan. -/
theorem runModule_spec (cfg : ClusterSpec) (laws : util.Laws) (world : Nat → Answers files)
    {start c p : String} {v w : util.Version}
    (parse : ∀ key ∈ (files.sha256 "kubeadm" "amd64").keys, ∃ u, util.parseSemantic key = .ok u)
    (plan : util.parseSemantic p = .ok w) {fuel : Nat} (round : Nat) {s : Cache}
    (current : util.parseSemantic c = .ok v) (major : util.major v = util.major w)
    (ahead : util.minor v ≤ util.minor w) (notLower : util.NotLower c p)
    (enough : max 1 ((util.minor w).toNat - (util.minor v).toNat) = fuel)
    (underway : Underway c p s) (sound : Sound util files start s) (last : (start :: s.chosen).getLast? = some c) :
    ∃ s' ending, runModule util cfg world fuel round s = some (s', ending) ∧ Sound util files start s' ∧
      Fails ending ∧ (ending = none → s'.k8sVersion = some p) := by
  induction fuel generalizing round s c v with
  | zero => omega
  | succ fuel ih =>
    by_cases same : c = p
    · have run := runTasks_skip util cfg (world round)
        (same ▸ underway.current) underway.plan tasks
      obtain ⟨s', ending, result, chosen, installed, fails, reached⟩ :=
        runModule_plan fuel run (same ▸ underway.current) underway.plan
      exact ⟨s', ending, result, sound.congr chosen installed, fails, fun _ => reached⟩
    · rcases run : runTasks util cfg (world round) tasks s with ⟨s', failure⟩
      obtain ⟨fails, ⟨chosen, installed, ended⟩ | ⟨next, leads, chosen, installed, kept, reached⟩⟩ :=
        round_spec laws current plan ahead parse same underway run
      · obtain ⟨f, rfl⟩ := Option.ne_none_iff_exists'.1 ended
        exact ⟨s', some f, by rw [runModule, run], sound.congr chosen installed, fails, fun done => by cases done⟩
      · have further := sound.extend last (leads.step laws current plan notLower) chosen installed
        cases failure with
        | some f => exact ⟨s', some f, by rw [runModule, run], further, fails, fun done => by cases done⟩
        | none =>
          have now := reached rfl
          by_cases planned : next = p
          · obtain ⟨s'', ending, result, chosen', installed', fails, done⟩ :=
              runModule_plan fuel run (planned ▸ now) kept
            exact ⟨s'', ending, result, further.congr chosen' installed', fails, fun _ => done⟩
          · rcases leads with ⟨atPlan, -⟩ | ⟨n, parsed, major', minor, below⟩
            · exact absurd atPlan planned
            · have goesOn : runModule util cfg world (fuel + 1) round s =
                  runModule util cfg world fuel (round + 1) s' := by
                rw [runModule, run]
                simp [stops, now, kept, planned]
              rw [goesOn]
              have belowNat := UInt64.lt_iff_toNat_lt.1 below
              have compared := laws.compare_of_minor_lt n w p plan (major'.trans major) below
              have notLower' : util.NotLower next p := ⟨n, -1, parsed, compared, by decide⟩
              refine ih (round + 1) parsed (major'.trans major) (UInt64.le_of_lt below) notLower' ?_ ⟨now, kept⟩
                further ?_
              · omega
              · rw [chosen, ← List.cons_append, List.getLast?_append, List.getLast?_singleton, Option.some_or]

/-- The upgrade ends after at most as many rounds as there are minor versions from the current one to the plan, with an
error or with the plan. The versions never decrease, each step raises the minor version by at most one, and every
version that is put on a host is in the table of supported versions, whatever suffix the current version has. -/
theorem progressive_upgrade (laws : util.Laws) (files : FileSha256) (cfg : ClusterSpec) (world : Nat → Answers files)
    (major : UInt64) (table : ∀ key ∈ (files.sha256 "kubeadm" "amd64").keys, util.OfMajor major key)
    {current plan : String} {v w : util.Version} (currentParsed : util.parseSemantic current = .ok v)
    (planParsed : util.parseSemantic plan = .ok w) (currentMajor : util.major v = major)
    (planMajor : util.major w = major) (notLower : util.NotLower current plan) (s : Cache)
    (k8sVersion : s.k8sVersion = some current) (planK8sVersion : s.planK8sVersion = some plan)
    (chosen : s.chosen = []) (installed : s.installed = []) :
    ∃ s' ending,
      runModule util cfg world (max 1 ((util.minor w).toNat - (util.minor v).toNat)) 0 s = some (s', ending) ∧
      (match ending with
        | none => s'.k8sVersion = some plan
        | some failure => ∃ text, failure = .error text) ∧
      List.IsChain util.Step (current :: s'.chosen) ∧
      ∀ version ∈ s'.installed, version ∈ s'.chosen ∧ version ∈ (files.sha256 "kubeadm" "amd64").keys := by
  have same : util.major v = util.major w := currentMajor.trans planMajor.symm
  have ahead : util.minor v ≤ util.minor w := by
    rw [← UInt64.not_lt]
    intro higher
    obtain ⟨v', sign, parsed, compared, other⟩ := notLower
    cases currentParsed.symm.trans parsed
    have reversed := laws.compare_of_lt_minor v w plan planParsed same higher
    exact other (Except.ok.inj (compared.symm.trans reversed))
  have parse : ∀ key ∈ (files.sha256 "kubeadm" "amd64").keys, ∃ u, util.parseSemantic key = .ok u := fun key inside =>
    (table key inside).imp fun _ both => both.1
  have sound : Sound util files current s := by
    refine ⟨?_, fun version inside => ?_⟩
    · rw [chosen]
      exact List.isChain_singleton current
    · rw [installed] at inside
      cases inside
  obtain ⟨s', ending, result, sound', fails, reached⟩ := runModule_spec cfg laws world parse
    planParsed 0 currentParsed same ahead notLower rfl ⟨k8sVersion, planK8sVersion⟩ sound (by rw [chosen]; rfl)
  refine ⟨s', ending, result, ?_, sound'.steps, fun version inside => ?_⟩
  · cases ending with
    | none => exact reached rfl
    | some failure => exact fails failure rfl
  · obtain ⟨listed, supported⟩ := sound'.supported version inside
    exact ⟨listed, GoMap.get?_isSome_iff.1 supported⟩

/-- A table with one checksum for each version of every component. -/
def checksums : FileSha256 :=
  ⟨fun _ _ => ⟨[("v1.22.12", "c2"), ("v1.21.5", "c1"), ("v1.23.5", "c3"), ("v1.22.9", "c0")], by decide⟩,
    fun _ found => found⟩

/-- Every download leaves a file with the checksum of the table. -/
def network : Network where
  fileName b := b.id
  path b := b.id
  getCmd b := b.id
  createBaseDir _ := none
  onDisk _ := none
  fetch b _ := .ok (.ok (checksums.getSha256 b))
  helm2 := none
  reversed := false
  isAtLeastV124 _ := false

def candidate : Semantic := ⟨1, 21, 5, ['-', 'r', 'c', '.', '1'], by decide⟩

def target : Semantic := ⟨1, 23, 5, [], by decide⟩

/-- A release candidate is on its way to a plan two minor versions further. -/
theorem progressive_upgrade_candidate :
    ∃ s' ending, runModule semantic ⟨[⟨"amd64", ["k8s", "master"]⟩], "containerd", "calico", "", false⟩
        (fun _ => ⟨_, .entries _, network, fun _ => none⟩ : Nat → Answers checksums) 2 0
        ⟨some "v1.21.5-rc.1", some "v1.23.5", some "v1.23.5", .empty, "v1.23.5", [], []⟩ = some (s', ending) ∧
      (match ending with
        | none => s'.k8sVersion = some "v1.23.5"
        | some failure => ∃ text, failure = .error text) ∧
      List.IsChain semantic.Step ("v1.21.5-rc.1" :: s'.chosen) ∧
      ∀ version ∈ s'.installed, version ∈ s'.chosen ∧ version ∈ (checksums.sha256 "kubeadm" "amd64").keys :=
  progressive_upgrade semantic_laws checksums _ _ 1
    (by
      intro key inside
      simp only [checksums, GoMap.keys, List.map_cons, List.map_nil, List.mem_cons, List.not_mem_nil, or_false] at inside
      rcases inside with rfl | rfl | rfl | rfl <;> exact ⟨_, rfl, rfl⟩)
    (show semantic.parseSemantic "v1.21.5-rc.1" = .ok candidate from rfl)
    (show semantic.parseSemantic "v1.23.5" = .ok target from rfl) rfl rfl
    ⟨candidate, -1, rfl, rfl, by decide⟩ _ rfl rfl rfl rfl

/-- The version in between keeps the suffix, and is not in the table. -/
example : calculateNextStr semantic (checksums.sha256 "kubeadm" "amd64") (checksums.sha256 "kubeadm" "amd64").keys
    "v1.21.5-rc.1" "v1.23.5" = .ok "v1.22.12-rc.1" := rfl

end Run
end KubeKey.Kubernetes
