import KubeKey.Go.Goroutine
import KubeKey.Templates.KubeadmConfig

/-!
# Feature gates

Where the gates of the user and the defaults meet: the arguments take the user's value
first, and the kubelet configuration takes what the package-level map has first. A
generation gives what the first one of a process would give, with the user's gates in it,
exactly if the maps are as they were at the start where it reads them, and have no other
value for a gate of the user.
-/

namespace KubeKey.Templates

open KubeKey.Go KubeKey.Kubernetes

/-! ## Reading the maps -/

theorem get?_foldl_put (l : List (String × String)) (m : GoMap String) (k : String) :
    (l.foldl (fun m e => m.put e.1 e.2) m).get? k =
      ((l.foldl (fun m e => m.put e.1 e.2) GoMap.empty).get? k).or (m.get? k) := by
  induction l generalizing m with
  | nil => rfl
  | cons e l ih =>
    rw [List.foldl_cons, List.foldl_cons, ih (m.put e.1 e.2), ih (GoMap.empty.put e.1 e.2), GoMap.get?_put,
      GoMap.get?_put, GoMap.get?_empty]
    split <;> simp

/-- An argument is the user's, if there is one. -/
theorem get?_getArgs (m : GoMap String) (args : List String) (k : String) :
    (getArgs m args).get? k = ((getArgs .empty args).get? k).or (m.get? k) := by
  have start : ∀ m : GoMap String, (GoMap.empty.putAll m).get? k = m.get? k := fun m => by
    rw [GoMap.get?_putAll, GoMap.get?_empty, Option.or_none]
  rw [getArgs, get?_foldl_put, start]
  rfl

theorem lookup_filter_key {α : Type} (p : String → Bool) (l : List (String × α)) (k : String) :
    (l.filter fun e => p e.1).lookup k = if p k then l.lookup k else none := by
  induction l with
  | nil => simp
  | cons e l ih =>
    by_cases keeps : p e.1
    · rw [List.filter_cons_of_pos (by simpa using keeps), lookup_cons_if, lookup_cons_if, ih]
      by_cases same : k = e.1
      · simp [same, keeps]
      · simp [same]
    · rw [List.filter_cons_of_neg (by simpa using keeps), ih, lookup_cons_if]
      by_cases same : k = e.1
      · simp [same, keeps]
      · simp [same]

section Merge
variable {Yaml : Type}

theorem get?_customRounds {l : List (String × Yaml)} (distinct : (l.map Prod.fst).Nodup)
    (s : GoMap (Value Yaml) × GoMap (Value Yaml)) (k : String) :
    (l.foldl customRound s).1.get? k = ((l.lookup k).map Value.decoded).or (s.1.get? k) ∧
      (l.foldl customRound s).2.get? k = if (l.lookup k).isSome then none else s.2.get? k := by
  induction l generalizing s with
  | nil => exact ⟨rfl, rfl⟩
  | cons e l ih =>
    rw [List.map_cons, List.nodup_cons] at distinct
    obtain ⟨first, second⟩ := ih distinct.2 (customRound s e)
    rw [List.foldl_cons, first, second, customRound, GoMap.get?_put, GoMap.get?_erase, lookup_cons_if]
    by_cases same : k = e.1
    · subst same
      have absent : l.lookup e.1 = none := by
        cases found : l.lookup e.1 with
        | none => rfl
        | some y => exact absurd (List.mem_map.2 ⟨(e.1, y), mem_of_lookup found, rfl⟩) distinct.1
      simp [absent]
    · rw [if_neg same, if_neg same, if_neg same]
      exact ⟨rfl, rfl⟩

/-- A value is the custom one, if there is one. -/
theorem get?_merge (custom : GoMap Yaml) (defaults : GoMap (Value Yaml)) (k : String) :
    (mergeKubeletConfiguration custom defaults).get? k =
      ((custom.get? k).map Value.decoded).or (defaults.get? k) := by
  obtain ⟨first, second⟩ := get?_customRounds custom.distinct (.empty, defaults) k
  rw [mergeKubeletConfiguration, GoMap.get?_putAll, second, first, GoMap.get?_empty, Option.or_none]
  cases found : custom.entries.lookup k with
  | none => simp [GoMap.get?, found]
  | some y => simp [GoMap.get?, found]

/-- The gates of the kubelet configuration are the custom ones or the package-level map. -/
theorem get?_merge_gates (custom : GoMap Yaml) (conf : Conf Yaml) (cgroupDriver : String) :
    (mergeKubeletConfiguration custom (defaultKubeletConfiguration conf cgroupDriver)).get? "featureGates" =
      some (match custom.get? "featureGates" with
        | some y => .decoded y
        | none => .gates conf.withSecurityEnhancement) := by
  rw [get?_merge, defaultKubeletConfiguration, GoMap.get?_put_self]
  cases custom.get? "featureGates" with
  | some y => rfl
  | none => rfl

end Merge

section Gates
variable {util : VersionUtil} {versions : Versions util} {Yaml : Type} {conf : Conf Yaml} {vars vars' : Vars}

/-- The default gates of the arguments, as far as the version and the user leave them. -/
theorem argumentGates_defaults (k : String) :
    (vars.featureGatesDefaultConfiguration.entries.filter fun e =>
        !dropped versions e.1 && (conf.featureGates.get? e.1).isNone).lookup k =
      if dropped versions k ∨ (conf.featureGates.get? k).isSome then none
      else vars.featureGatesDefaultConfiguration.get? k := by
  rw [lookup_filter_key (fun k => !dropped versions k && (conf.featureGates.get? k).isNone)]
  cases dropped versions k <;> cases conf.featureGates.get? k <;> simp [GoMap.get?]

/-- A gate of the arguments has the user's value, if there is one. -/
theorem lookup_argumentGates (k : String) :
    (argumentGates versions conf vars).lookup k = (conf.featureGates.get? k).or
      (if dropped versions k then none else vars.featureGatesDefaultConfiguration.get? k) := by
  rw [argumentGates, List.lookup_append, argumentGates_defaults]
  show (conf.featureGates.get? k).or _ = _
  cases conf.featureGates.get? k with
  | some v => rfl
  | none => simp

theorem argumentGates_distinct : ((argumentGates versions conf vars).map Prod.fst).Nodup := by
  rw [argumentGates, List.map_append]
  refine List.Nodup.append conf.featureGates.distinct
    (vars.featureGatesDefaultConfiguration.distinct.sublist (List.filter_sublist.map Prod.fst)) ?_
  intro k user default
  obtain ⟨⟨k', v⟩, inside, rfl⟩ := List.mem_map.1 user
  obtain ⟨⟨k'', w⟩, kept, same⟩ := List.mem_map.1 default
  cases same
  have found : conf.featureGates.get? k' = some v := GoMap.get?_eq_some_iff.2 inside
  simp [found] at kept

/-- The two tests for versions before 1.21 agree. -/
def Versions.Consistent (versions : Versions util) : Prop :=
  versions.below121 = lessThan versions.version versions.v121

theorem parseVersions_consistent (ordered : util.Ordered) {version : String}
    (parsed : parseVersions util version = some versions) : versions.Consistent := by
  simp only [parseVersions, Option.bind_eq_bind, Option.bind_eq_some_iff, Option.pure_def, Option.some.injEq] at parsed
  obtain ⟨v, _, v119, _, v121, of121, v124, _, rfl⟩ := parsed
  have lower := ordered v v121 "v1.21.0" (by
    cases text : util.parseSemantic "v1.21.0" with
    | error err => simp [text, Except.toOption] at of121
    | ok w => simpa [text, Except.toOption] using of121)
  simp only [Versions.Consistent, lessThan]
  cases sign : util.compare v "v1.21.0" with
  | error err => cases least : util.atLeast v v121 <;> simp_all
  | ok n => cases least : util.atLeast v v121 <;> simp_all

/-- The gates that `GetKubeletConfiguration` leaves in a package-level map. -/
def gatesAfter (versions : Versions util) (conf : Conf Yaml) (custom : GoMap Yaml) (vars : Vars) (security : Bool)
    (k : String) : Option Bool :=
  if security = conf.withSecurityEnhancement ∧ custom.get? "featureGates" = none then
    (if dropped versions k then none else (vars.gates security).get? k).or (conf.featureGates.get? k)
  else if security = false ∧ k = "CSIStorageCapacity" ∧ versions.below121 then none
  else (vars.gates security).get? k

/-- A generation without custom gates writes to the map for its flag. -/
theorem gatesAfter_written {custom : GoMap Yaml} (own : custom.get? "featureGates" = none) (k : String) :
    gatesAfter versions conf custom vars conf.withSecurityEnhancement k =
      (if dropped versions k then none else (vars.gates conf.withSecurityEnhancement).get? k).or
        (conf.featureGates.get? k) :=
  if_pos ⟨rfl, own⟩

theorem gatesAfter_kept {custom : GoMap Yaml} {security : Bool}
    (other : ¬ (security = conf.withSecurityEnhancement ∧ custom.get? "featureGates" = none)) (k : String) :
    gatesAfter versions conf custom vars security k =
      if security = false ∧ k = "CSIStorageCapacity" ∧ versions.below121 then none
      else (vars.gates security).get? k :=
  if_neg other

@[simp] theorem gates_setGates (security : Bool) (gates : GoMap Bool) :
    (vars.setGates security gates).gates security = gates := by
  cases security <;> rfl

theorem gates_setGates_ne {security other : Bool} (differ : other ≠ security) (gates : GoMap Bool) :
    (vars.setGates security gates).gates other = vars.gates other := by
  cases security <;> cases other <;> first | rfl | exact absurd rfl differ

@[simp] theorem apiServer_setGates (security other : Bool) (gates : GoMap Bool) :
    (vars.setGates security gates).apiServer other = vars.apiServer other := by
  cases security <;> rfl

theorem get?_updateKubeletGates (gates : GoMap Bool) (k : String) :
    (updateKubeletGates versions conf gates).get? k =
      (if dropped versions k then none else gates.get? k).or (conf.featureGates.get? k) := by
  rw [updateKubeletGates, GoMap.get?_fill]
  congr 1
  by_cases csi : k = "CSIStorageCapacity"
  · subst csi
    have other : ¬ ("CSIStorageCapacity" = "TTLAfterFinished") := by decide
    cases early : lessThan versions.version versions.v121 <;>
      cases late : util.atLeast versions.version versions.v124 <;> simp [dropped, early, GoMap.get?_erase, other]
  · by_cases ttl : k = "TTLAfterFinished"
    · subst ttl
      cases early : lessThan versions.version versions.v121 <;>
        cases late : util.atLeast versions.version versions.v124 <;> simp [dropped, late, GoMap.get?_erase, csi]
    · cases early : lessThan versions.version versions.v121 <;>
        cases late : util.atLeast versions.version versions.v124 <;> simp [dropped, GoMap.get?_erase, csi, ttl]

theorem get?_gates_deleteCSIStorageCapacity (security : Bool) (k : String) :
    ((vars.deleteCSIStorageCapacity versions).gates security).get? k =
      if security = false ∧ k = "CSIStorageCapacity" ∧ versions.below121 then none
      else (vars.gates security).get? k := by
  cases below : versions.below121 <;> cases security <;>
    simp [Vars.deleteCSIStorageCapacity, Vars.gates, below, GoMap.get?_erase]

theorem apiServer_deleteCSIStorageCapacity (security : Bool) :
    (vars.deleteCSIStorageCapacity versions).apiServer security = vars.apiServer security := by
  cases below : versions.below121 <;> cases security <;> simp [Vars.deleteCSIStorageCapacity, Vars.apiServer, below]

/-- What `GetKubeletConfiguration` returns and leaves. -/
theorem getKubeletConfiguration_spec (consistent : versions.Consistent) {kubelet : GoMap (Value Yaml)}
    (done : getKubeletConfiguration versions conf vars = some (vars', kubelet)) :
    ∃ cgroupDriver custom, conf.cgroupDriverAgain = some cgroupDriver ∧ conf.kubeletConfiguration = some custom ∧
      kubelet = mergeKubeletConfiguration custom (defaultKubeletConfiguration conf cgroupDriver) ∧
      (∀ security k, (vars'.gates security).get? k = gatesAfter versions conf custom vars security k) ∧
      ∀ security, vars'.apiServer security = vars.apiServer security := by
  cases driver : conf.cgroupDriverAgain with
  | none => simp [getKubeletConfiguration, driver] at done
  | some cgroupDriver =>
    cases decoded : conf.kubeletConfiguration with
    | none => simp [getKubeletConfiguration, driver, decoded] at done
    | some custom =>
      refine ⟨cgroupDriver, custom, rfl, rfl, ?_⟩
      simp only [getKubeletConfiguration, driver, decoded, Option.bind_eq_bind, Option.bind_some,
        get?_merge_gates] at done
      cases own : custom.get? "featureGates" with
      | some y =>
        simp only [own] at done
        cases done
        refine ⟨rfl, fun security k => ?_, apiServer_deleteCSIStorageCapacity⟩
        rw [get?_gates_deleteCSIStorageCapacity, gatesAfter_kept fun both => by simp [own] at both]
      | none =>
        simp only [own] at done
        cases done
        refine ⟨rfl, fun security k => ?_, fun security => ?_⟩
        · by_cases same : security = conf.withSecurityEnhancement
          · subst same
            rw [gates_setGates, get?_updateKubeletGates, gatesAfter_written own, get?_gates_deleteCSIStorageCapacity]
            -- what the first lines delete is dropped for the version as well
            by_cases early : conf.withSecurityEnhancement = false ∧ k = "CSIStorageCapacity" ∧ versions.below121 = true
            · have drop : dropped versions k = true := by
                rw [consistent] at early
                simp [dropped, early.2.1, early.2.2]
              simp [drop]
            · rw [if_neg early]
          · rw [gates_setGates_ne same, get?_gates_deleteCSIStorageCapacity, gatesAfter_kept fun both => same both.1]
        · rw [apiServer_setGates, apiServer_deleteCSIStorageCapacity]

theorem gates_getApiServerArgs (security audit other : Bool) :
    (getApiServerArgs vars security audit).1.gates other = vars.gates other := by
  cases security <;> rfl

/-- The audit arguments, if they are asked for, and then the package-level map. -/
theorem get?_getApiServerArgs (security audit : Bool) (arg : String) :
    (getApiServerArgs vars security audit).2.get? arg =
      (if audit then auditArgs.get? arg else none).or ((vars.apiServer security).get? arg) := by
  cases security <;> cases audit <;> simp [getApiServerArgs, Vars.apiServer, GoMap.get?_putAll]

theorem get?_apiServer_getApiServerArgs (security audit other : Bool) (arg : String) :
    ((getApiServerArgs vars security audit).1.apiServer other).get? arg =
      (if other = security ∧ audit then auditArgs.get? arg else none).or ((vars.apiServer other).get? arg) := by
  cases security <;> cases audit <;> cases other <;> simp [getApiServerArgs, Vars.apiServer, GoMap.get?_putAll]

end Gates

/-! ## One generation -/

section Generation
variable {util : VersionUtil} {Yaml : Type} {gate : Yaml → String → Option Bool} {conf : Conf Yaml} {vars vars' : Vars}
  {audit : Bool} {versions : Versions util} {again : String} {custom : GoMap Yaml}

/-- What the generation of a configuration file needs, whatever was generated before. -/
structure Succeeds (conf : Conf Yaml) (audit : Bool) (versions : Versions util) (again : String)
    (custom : GoMap Yaml) : Prop where
  audit : enableAudit conf = some audit
  versions : parseVersions util conf.version = some versions
  cgroupDriver : conf.cgroupDriver.isSome
  clusterStatus : conf.clusterStatus = true
  again : conf.cgroupDriverAgain = some again
  custom : conf.kubeletConfiguration = some custom

/-- What a generation puts into the file, read from the package-level maps before it. -/
structure Writes (gate : Yaml → String → Option Bool) (vars : Vars) (conf : Conf Yaml) (audit : Bool)
    (versions : Versions util) (again : String) (custom : GoMap Yaml) (out : Generated Yaml) : Prop where
  apiServer : ∀ arg, arg ≠ "feature-gates" → out.apiServerArgs.get? arg =
    ((getArgs .empty conf.apiServerArgs).get? arg).or ((if audit then auditArgs.get? arg else none).or
      ((vars.apiServer conf.withSecurityEnhancement).get? arg))
  controllerManager : ∀ arg, arg ≠ "feature-gates" → out.controllerManagerArgs.get? arg =
    (getArgs (getControllermanagerArgs versions conf.withSecurityEnhancement) conf.controllerManagerArgs).get? arg
  scheduler : ∀ arg, arg ≠ "feature-gates" → out.schedulerArgs.get? arg =
    (getArgs (getSchedulerArgs conf.withSecurityEnhancement) conf.schedulerArgs).get? arg
  text : ∀ args ∈ [out.apiServerArgs, out.controllerManagerArgs, out.schedulerArgs],
    args.get? "feature-gates" = some (",".intercalate (out.argumentGates.map gateText))
  distinct : (out.argumentGates.map Prod.fst).Nodup
  argumentGates : ∀ k, out.argumentGates.lookup k = (conf.featureGates.get? k).or
    (if dropped versions k then none else (vars.gates false).get? k)
  kubelet : out.kubelet = mergeKubeletConfiguration custom (defaultKubeletConfiguration conf again)
  kubeletGate : ∀ k, out.kubeletGate k = match custom.get? "featureGates" with
    | some y => gate y k
    | none => (if dropped versions k then none else (vars.gates conf.withSecurityEnhancement).get? k).or
        (conf.featureGates.get? k)

/-- What a generation leaves in the package-level maps. -/
structure Leaves (vars : Vars) (conf : Conf Yaml) (audit : Bool) (versions : Versions util) (custom : GoMap Yaml)
    (vars' : Vars) : Prop where
  gates : ∀ security k, (vars'.gates security).get? k = gatesAfter versions conf custom vars security k
  apiServer : ∀ security arg, (vars'.apiServer security).get? arg =
    (if security = conf.withSecurityEnhancement ∧ audit then auditArgs.get? arg else none).or
      ((vars.apiServer security).get? arg)

theorem getKubeletConfiguration_succeeds (driver : conf.cgroupDriverAgain = some again)
    (decoded : conf.kubeletConfiguration = some custom) :
    ∃ vars' kubelet, getKubeletConfiguration versions conf vars = some (vars', kubelet) := by
  simp only [getKubeletConfiguration, driver, decoded, Option.bind_eq_bind, Option.bind_some, get?_merge_gates]
  cases custom.get? "featureGates" with
  | some y => exact ⟨_, _, rfl⟩
  | none => exact ⟨_, _, rfl⟩

/-- A generation that needs nothing more succeeds. -/
theorem Succeeds.generates (succeeds : Succeeds conf audit versions again custom) (consistent : versions.Consistent)
    (gate : Yaml → String → Option Bool) (vars : Vars) :
    ∃ vars' out, generate util gate vars conf = some (vars', some out) ∧
      Writes gate vars conf audit versions again custom out ∧ Leaves vars conf audit versions custom vars' := by
  obtain ⟨vars', kubelet, done⟩ := @getKubeletConfiguration_succeeds util Yaml conf
    (getApiServerArgs vars conf.withSecurityEnhancement audit).1 versions again custom succeeds.again succeeds.custom
  have here : ¬ (conf.cgroupDriver.isNone = true ∨ ¬ conf.clusterStatus = true) := by
    simp [succeeds.clusterStatus, Option.isNone_eq_false_iff.2 succeeds.cgroupDriver]
  obtain ⟨again', custom', driver, decoded, kubelet_eq, gates, apiServer⟩ :=
    getKubeletConfiguration_spec consistent done
  cases driver.symm.trans succeeds.again
  cases decoded.symm.trans succeeds.custom
  have after : ∀ security k, (vars'.gates security).get? k = gatesAfter versions conf custom vars security k := by
    intro security k
    rw [gates, gatesAfter, gatesAfter, gates_getApiServerArgs]
  let before := getApiServerArgs vars conf.withSecurityEnhancement audit
  refine ⟨vars', templateData gate versions conf before.1 vars' (getArgs before.2 conf.apiServerArgs) kubelet, ?_, ?_,
    ⟨after, fun security arg => ?_⟩⟩
  · rw [generate, succeeds.audit, succeeds.versions]
    simp only [Option.bind_eq_bind, Option.bind_some]
    rw [if_neg here, done]
    rfl
  · constructor
    · intro arg other
      simp only [templateData, updateFeatureGatesConfiguration]
      rw [GoMap.get?_put_ne _ _ other, get?_getArgs, get?_getApiServerArgs]
    · intro arg other
      simp only [templateData, updateFeatureGatesConfiguration]
      rw [GoMap.get?_put_ne _ _ other]
    · intro arg other
      simp only [templateData, updateFeatureGatesConfiguration]
      rw [GoMap.get?_put_ne _ _ other]
    · intro args among
      simp only [templateData, List.mem_cons, List.not_mem_nil, or_false] at among
      rcases among with rfl | rfl | rfl <;> exact GoMap.get?_put_self _ _ _
    · exact argumentGates_distinct
    · intro k
      have same := @gates_getApiServerArgs vars conf.withSecurityEnhancement audit false
      simp only [templateData]
      rw [lookup_argumentGates, ← same]
      rfl
    · exact kubelet_eq
    · intro k
      show kubeletGate gate vars' kubelet k = _
      rw [kubeletGate, kubelet_eq, get?_merge_gates]
      cases own : custom.get? "featureGates" with
      | some y => rfl
      | none =>
        show (vars'.gates conf.withSecurityEnhancement).get? k = _
        rw [after, gatesAfter_written own]
  · rw [apiServer, get?_apiServer_getApiServerArgs]

/-- A generation that succeeded had what it needs. -/
theorem succeeds_of_generate {out : Generated Yaml}
    (generated : generate util gate vars conf = some (vars', some out)) :
    ∃ audit, ∃ versions : Versions util, ∃ again custom, Succeeds conf audit versions again custom := by
  cases audited : enableAudit conf with
  | none => simp [generate, audited] at generated
  | some audit =>
    cases parsed : parseVersions util conf.version with
    | none => simp [generate, audited, parsed] at generated
    | some versions =>
      simp only [generate, audited, parsed, Option.bind_eq_bind, Option.bind_some] at generated
      by_cases failed : conf.cgroupDriver.isNone = true ∨ ¬ conf.clusterStatus = true
      · rw [if_pos failed] at generated
        cases generated
      · rw [if_neg failed] at generated
        rw [not_or, not_not] at failed
        cases again : conf.cgroupDriverAgain with
        | none => simp [getKubeletConfiguration, again] at generated
        | some driver =>
          cases decoded : conf.kubeletConfiguration with
          | none => simp [getKubeletConfiguration, again, decoded] at generated
          | some custom =>
            exact ⟨audit, versions, driver, custom, audited, parsed,
              Option.isSome_iff_ne_none.2 fun none => failed.1 (by rw [none]; rfl), failed.2, again, decoded⟩

/-- What a generation leaves in the package-level maps, also where it fails before the kubelet configuration. -/
theorem generate_leaves {r : Option (Generated Yaml)} (ordered : util.Ordered)
    (generated : generate util gate vars conf = some (vars', r)) :
    ∃ audit, ∃ versions : Versions util, enableAudit conf = some audit ∧
      parseVersions util conf.version = some versions ∧
      (∀ security arg, (vars'.apiServer security).get? arg =
        (if security = conf.withSecurityEnhancement ∧ audit then auditArgs.get? arg else none).or
          ((vars.apiServer security).get? arg)) ∧
      ((∀ security k, (vars'.gates security).get? k = (vars.gates security).get? k) ∨
        ∃ custom, ∀ security k, (vars'.gates security).get? k = gatesAfter versions conf custom vars security k) := by
  cases r with
  | some out =>
    obtain ⟨audit, versions, again, custom, succeeds⟩ := succeeds_of_generate generated
    obtain ⟨vars'', out', generated', _, leaves⟩ :=
      succeeds.generates (parseVersions_consistent ordered succeeds.versions) gate vars
    cases generated.symm.trans generated'
    exact ⟨audit, versions, succeeds.audit, succeeds.versions, leaves.apiServer, .inr ⟨custom, leaves.gates⟩⟩
  | none =>
    cases audited : enableAudit conf with
    | none => simp [generate, audited] at generated
    | some audit =>
      cases parsed : parseVersions util conf.version with
      | none => simp [generate, audited, parsed] at generated
      | some versions =>
        simp only [generate, audited, parsed, Option.bind_eq_bind, Option.bind_some] at generated
        by_cases failed : conf.cgroupDriver.isNone = true ∨ ¬ conf.clusterStatus = true
        · rw [if_pos failed] at generated
          cases generated
          refine ⟨audit, versions, rfl, rfl, fun security arg => ?_, .inl fun security k => ?_⟩
          · rw [get?_apiServer_getApiServerArgs]
          · rw [gates_getApiServerArgs]
        · rw [if_neg failed] at generated
          obtain ⟨kubelet, _, equal⟩ := Option.bind_eq_some_iff.1 generated
          cases equal

end Generation

/-! ## Agreement -/

section Agreement
variable {util : VersionUtil} {Yaml : Type} {gate : Yaml → String → Option Bool} {conf : Conf Yaml} {vars vars' : Vars}
  {audit : Bool} {versions : Versions util} {again : String} {custom : GoMap Yaml} {out out' : Generated Yaml}

/-- Each gate of the user has the user's value in the kubelet configuration and in the argument of each component. -/
structure Agrees (conf : Conf Yaml) (out : Generated Yaml) : Prop where
  kubelet : ∀ k v, conf.featureGates.get? k = some v → out.kubeletGate k = some v
  argument : ∀ args ∈ [out.apiServerArgs, out.controllerManagerArgs, out.schedulerArgs],
    args.get? "feature-gates" = some (",".intercalate (out.argumentGates.map gateText))
  distinct : (out.argumentGates.map Prod.fst).Nodup
  argumentGates : ∀ k v, conf.featureGates.get? k = some v → out.argumentGates.lookup k = some v

/-- The same arguments and kubelet configuration, but for the order of the gates in an argument. -/
structure Same (out out' : Generated Yaml) : Prop where
  apiServer : ∀ arg, arg ≠ "feature-gates" → out.apiServerArgs.get? arg = out'.apiServerArgs.get? arg
  controllerManager : ∀ arg, arg ≠ "feature-gates" →
    out.controllerManagerArgs.get? arg = out'.controllerManagerArgs.get? arg
  scheduler : ∀ arg, arg ≠ "feature-gates" → out.schedulerArgs.get? arg = out'.schedulerArgs.get? arg
  argumentGates : ∀ k, out.argumentGates.lookup k = out'.argumentGates.lookup k
  kubelet : out.kubelet = out'.kubelet
  kubeletGate : ∀ k, out.kubeletGate k = out'.kubeletGate k

/-- What the package-level maps must hold before a generation: as far as the generation reads them they are as they
were at the start, and no default of a gate of the user has another value than the user's. -/
structure Allows (gate : Yaml → String → Option Bool) (vars : Vars) (conf : Conf Yaml) (audit : Bool)
    (versions : Versions util) (custom : GoMap Yaml) : Prop where
  decoded : ∀ y, custom.get? "featureGates" = some y → ∀ k v, conf.featureGates.get? k = some v → gate y k = some v
  default : custom.get? "featureGates" = none → ∀ k v, conf.featureGates.get? k = some v → dropped versions k = false →
    ∀ maps ∈ [vars, .initial], ∀ w, (maps.gates conf.withSecurityEnhancement).get? k = some w → w = v
  kubelet : custom.get? "featureGates" = none → ∀ k, conf.featureGates.get? k = none → dropped versions k = false →
    (vars.gates conf.withSecurityEnhancement).get? k = (Vars.initial.gates conf.withSecurityEnhancement).get? k
  arguments : ∀ k, conf.featureGates.get? k = none → dropped versions k = false →
    (vars.gates false).get? k = (Vars.initial.gates false).get? k
  apiServer : ∀ arg, arg ≠ "feature-gates" → (getArgs .empty conf.apiServerArgs).get? arg = none →
    (if audit then auditArgs.get? arg else none) = none →
    (vars.apiServer conf.withSecurityEnhancement).get? arg =
      (Vars.initial.apiServer conf.withSecurityEnhancement).get? arg

/-- A generation with the user's gates, and the output that it would give at the start, read what is allowed. -/
theorem allows_of_agrees (writes : Writes gate vars conf audit versions again custom out)
    (first : Writes gate .initial conf audit versions again custom out') (agrees : Agrees conf out)
    (same : Same out out') : Allows gate vars conf audit versions custom := by
  have agrees' : ∀ k v, conf.featureGates.get? k = some v → out'.kubeletGate k = some v := fun k v user => by
    rw [← same.kubeletGate]
    exact agrees.kubelet k v user
  refine ⟨fun y own k v user => ?_, fun own k v user keeps maps among w default => ?_, fun own k free keeps => ?_,
    fun k free keeps => ?_, fun arg other free quiet => ?_⟩
  · have value := agrees.kubelet k v user
    rw [writes.kubeletGate, own] at value
    exact value
  · simp only [List.mem_cons, List.not_mem_nil, or_false] at among
    rcases among with rfl | rfl
    · have value := agrees.kubelet k v user
      rw [writes.kubeletGate, own] at value
      simpa [keeps, default] using value
    · have value := agrees' k v user
      rw [first.kubeletGate, own] at value
      simpa [keeps, default] using value
  · have value := same.kubeletGate k
    rw [writes.kubeletGate, first.kubeletGate, own] at value
    simpa [keeps, free] using value
  · have value := same.argumentGates k
    rw [writes.argumentGates, first.argumentGates] at value
    simpa [keeps, free] using value
  · have value := same.apiServer arg other
    rw [writes.apiServer arg other, first.apiServer arg other, free, quiet] at value
    simpa using value

/-- Where the generation is allowed, the kubelet configuration has the user's gates, with these maps and those of the
start. -/
theorem Allows.kubeletGate (allows : Allows gate vars conf audit versions custom) {maps : Vars}
    (among : maps ∈ [vars, .initial]) (writes : Writes gate maps conf audit versions again custom out) {k : String}
    {v : Bool} (user : conf.featureGates.get? k = some v) : out.kubeletGate k = some v := by
  rw [writes.kubeletGate]
  cases own : custom.get? "featureGates" with
  | some y => exact allows.decoded y own k v user
  | none =>
    cases keeps : dropped versions k with
    | true => simpa using user
    | false =>
      cases default : (maps.gates conf.withSecurityEnhancement).get? k with
      | none => simpa using user
      | some w =>
        rw [allows.default own k v user keeps maps among w default]
        rfl

theorem Allows.agrees (allows : Allows gate vars conf audit versions custom)
    (writes : Writes gate vars conf audit versions again custom out) : Agrees conf out where
  kubelet _ _ user := allows.kubeletGate List.mem_cons_self writes user
  argument := writes.text
  distinct := writes.distinct
  argumentGates k v user := by
    rw [writes.argumentGates, user]
    rfl

/-- Where the generation is allowed, nothing else is read from the maps than at the start. -/
theorem Allows.same (allows : Allows gate vars conf audit versions custom)
    (writes : Writes gate vars conf audit versions again custom out)
    (first : Writes gate .initial conf audit versions again custom out') : Same out out' where
  apiServer arg other := by
    rw [writes.apiServer arg other, first.apiServer arg other]
    cases free : (getArgs .empty conf.apiServerArgs).get? arg with
    | some value => rfl
    | none =>
      cases quiet : (if audit then auditArgs.get? arg else none) with
      | some value => rfl
      | none => rw [allows.apiServer arg other free quiet]
  controllerManager arg other := by rw [writes.controllerManager arg other, first.controllerManager arg other]
  scheduler arg other := by rw [writes.scheduler arg other, first.scheduler arg other]
  argumentGates k := by
    rw [writes.argumentGates, first.argumentGates]
    cases user : conf.featureGates.get? k with
    | some v => rfl
    | none =>
      cases keeps : dropped versions k with
      | true => rfl
      | false => rw [allows.arguments k user keeps]
  kubelet := by rw [writes.kubelet, first.kubelet]
  kubeletGate k := by
    cases user : conf.featureGates.get? k with
    | some v =>
      rw [allows.kubeletGate List.mem_cons_self writes user,
        allows.kubeletGate (List.mem_cons_of_mem _ List.mem_cons_self) first user]
    | none =>
      rw [writes.kubeletGate, first.kubeletGate]
      cases own : custom.get? "featureGates" with
      | some y => rfl
      | none =>
        cases keeps : dropped versions k with
        | true => rfl
        | false => rw [allows.kubelet own k user keeps]

/-! ## Histories -/

/-- An earlier generation leaves nothing that this one reads: its gates are gates of this one with the same values, what
its version deletes is not read, and it has no audit arguments unless this one has them too. -/
structure Compatible (earlier conf : Conf Yaml) (audit : Bool) (versions : Versions util) : Prop where
  gates : ∀ k v, earlier.featureGates.get? k = some v → conf.featureGates.get? k = some v
  dropped : ∀ older : Versions util, parseVersions util earlier.version = some older → ∀ k, dropped older k = true →
    dropped versions k = true ∨ (conf.featureGates.get? k).isSome
  audit : earlier.withSecurityEnhancement = conf.withSecurityEnhancement → enableAudit earlier = some true →
    audit = true

/-- A gate that is not deleted and not the user's stays as it is. -/
theorem Compatible.gatesAfter {earlier : Conf Yaml} {older : Versions util} {custom' : GoMap Yaml} {k : String}
    (compatible : Compatible earlier conf audit versions) (consistent : older.Consistent)
    (parsed : parseVersions util earlier.version = some older) (free : conf.featureGates.get? k = none)
    (keeps : Templates.dropped versions k = false) (security : Bool) :
    Templates.gatesAfter older earlier custom' vars security k = (vars.gates security).get? k := by
  have kept : Templates.dropped older k = false := by
    cases drop : Templates.dropped older k with
    | false => rfl
    | true => simpa [keeps, free] using compatible.dropped older parsed k drop
  have unset : earlier.featureGates.get? k = none := by
    cases set : earlier.featureGates.get? k with
    | none => rfl
    | some v => simpa [free] using compatible.gates k v set
  unfold Templates.gatesAfter
  split
  · simp [kept, unset]
  · rename_i other
    have csi : ¬ (security = false ∧ k = "CSIStorageCapacity" ∧ older.below121 = true) := by
      rintro ⟨_, rfl, below⟩
      rw [consistent] at below
      simp [Templates.dropped, below] at kept
    rw [if_neg csi]

/-- A default that is there after a compatible generation was there before, or is the user's value. -/
theorem Compatible.default {earlier : Conf Yaml} {older : Versions util} {custom' : GoMap Yaml} {k : String}
    {w v : Bool} (compatible : Compatible earlier conf audit versions) {security : Bool}
    (there : Templates.gatesAfter older earlier custom' vars security k = some w)
    (user : conf.featureGates.get? k = some v) : (vars.gates security).get? k = some w ∨ w = v := by
  unfold Templates.gatesAfter at there
  split at there
  · rcases Option.or_eq_some_iff.1 there with held | ⟨_, set⟩
    · split at held
      · cases held
      · exact .inl held
    · rw [compatible.gates k w set] at user
      exact .inr (Option.some.inj user)
  · split at there
    · cases there
    · exact .inl there

/-- What a compatible generation keeps. -/
theorem Allows.step {earlier : Conf Yaml} (ordered : util.Ordered)
    (allows : Allows gate vars conf audit versions custom)
    (compatible : Compatible earlier conf audit versions) {r : Option (Generated Yaml)}
    (generated : generate util gate vars earlier = some (vars', r)) : Allows gate vars' conf audit versions custom := by
  obtain ⟨audited, older, enabled, parsed, apiServer, gates⟩ := generate_leaves ordered generated
  have consistent := parseVersions_consistent ordered parsed
  have same : ∀ k, conf.featureGates.get? k = none → Templates.dropped versions k = false → ∀ security,
      (vars'.gates security).get? k = (vars.gates security).get? k := by
    intro k free keeps security
    rcases gates with kept | ⟨custom', after⟩
    · exact kept security k
    · rw [after, compatible.gatesAfter consistent parsed free keeps]
  refine ⟨allows.decoded, fun own k v user keeps maps among w there => ?_, fun own k free keeps => ?_,
    fun k free keeps => ?_, fun arg other free quiet => ?_⟩
  · simp only [List.mem_cons, List.not_mem_nil, or_false] at among
    rcases among with rfl | rfl
    · rcases gates with kept | ⟨custom', after⟩
      · rw [kept] at there
        exact allows.default own k v user keeps vars List.mem_cons_self w there
      · rw [after] at there
        rcases compatible.default there user with before | equal
        · exact allows.default own k v user keeps vars List.mem_cons_self w before
        · exact equal
    · exact allows.default own k v user keeps .initial (List.mem_cons_of_mem _ List.mem_cons_self) w there
  · rw [same k free keeps, allows.kubelet own k free keeps]
  · rw [same k free keeps, allows.arguments k free keeps]
  · have silent : (if conf.withSecurityEnhancement = earlier.withSecurityEnhancement ∧ audited then auditArgs.get? arg
        else none) = none := by
      by_cases both : conf.withSecurityEnhancement = earlier.withSecurityEnhancement ∧ audited = true
      · have on := compatible.audit both.1.symm (by rw [enabled, both.2])
        rw [if_pos both]
        simpa [on] using quiet
      · rw [if_neg both]
    rw [apiServer, silent]
    exact allows.apiServer arg other free quiet

/-- What a history of compatible generations keeps. -/
theorem Allows.history (ordered : util.Ordered) {history : List (Conf Yaml)}
    (allows : Allows gate vars conf audit versions custom)
    (compatible : ∀ earlier ∈ history, Compatible earlier conf audit versions)
    (ran : generations util gate vars history = some vars') : Allows gate vars' conf audit versions custom := by
  have keeps : ∀ (before : Vars) (earlier : Conf Yaml) (after : Vars), Allows gate before conf audit versions custom →
      Compatible earlier conf audit versions → (generate util gate before earlier).map Prod.fst = some after →
      Allows gate after conf audit versions custom := by
    intro before earlier after inv allowed taken
    obtain ⟨⟨_, r⟩, generated, rfl⟩ := Option.map_eq_some_iff.1 taken
    exact inv.step ordered allowed generated
  exact Along.invariant keeps allows (along_of_forall compatible) ran

/-- After every history, a generation gives the user's gates and the output that it would give first of all, exactly if
the package-level maps allow it. They do after a history of compatible generations, if they did at the start. -/
theorem gates_agree_iff (ordered : util.Ordered) (gate : Yaml → String → Option Bool) (history : List (Conf Yaml))
    (conf : Conf Yaml) (out : Generated Yaml) (ran : generations util gate .initial history = some vars)
    (generated : generate util gate vars conf = some (vars', some out)) :
    ∃ audit, ∃ versions : Versions util, ∃ custom, enableAudit conf = some audit ∧
      parseVersions util conf.version = some versions ∧ conf.kubeletConfiguration = some custom ∧
      (∃ first out', generate util gate .initial conf = some (first, some out') ∧
        (Agrees conf out ∧ Same out out' ↔ Allows gate vars conf audit versions custom)) ∧
      ((∀ earlier ∈ history, Compatible earlier conf audit versions) →
        Allows gate .initial conf audit versions custom → Allows gate vars conf audit versions custom) := by
  obtain ⟨audit, versions, again, custom, succeeds⟩ := succeeds_of_generate generated
  have consistent := parseVersions_consistent ordered succeeds.versions
  obtain ⟨_, _, generated', writes, _⟩ := succeeds.generates consistent gate vars
  cases generated.symm.trans generated'
  obtain ⟨first, out', initial, writes', _⟩ := succeeds.generates consistent gate .initial
  refine ⟨audit, versions, custom, succeeds.audit, succeeds.versions, succeeds.custom,
    ⟨first, out', initial, fun both => allows_of_agrees writes writes' both.1 both.2, fun allows => ?_⟩,
    fun compatible allows => allows.history ordered compatible ran⟩
  exact ⟨allows.agrees writes, allows.same writes writes'⟩

end Agreement

/-! ## Three generations -/

/-- A configuration with nothing set. -/
def plain : Conf Empty where
  version := "v1.28.0"
  withSecurityEnhancement := false
  auditEnabled := none
  autoRenewCerts := none
  featureGates := .empty
  apiServerArgs := []
  controllerManagerArgs := []
  schedulerArgs := []
  dnsDomain := "cluster.local"
  clusterDNS := "10.233.0.3"
  maxPods := 110
  podPidsLimit := 10000
  containerRuntimeEndpoint := ""
  cgroupDriver := some "systemd"
  cgroupDriverAgain := some "systemd"
  clusterStatus := true
  kubeletConfiguration := some .empty

def audited : Conf Empty :=
  { plain with
    auditEnabled := some true
    autoRenewCerts := some true
    featureGates := .ofList [("GracefulNodeShutdown", true)] }

def withoutRotation : Conf Empty := { plain with featureGates := .ofList [("RotateKubeletServerCertificate", false)] }

/-- A generation between two others that are like it. -/
theorem gates_agree_iff_audited :
    ∃ vars vars' out, generations semantic Empty.elim .initial [plain] = some vars ∧
      generate semantic Empty.elim vars audited = some (vars', some out) ∧
      ∃ audit, ∃ versions : Versions semantic, ∃ custom, enableAudit audited = some audit ∧
        parseVersions semantic audited.version = some versions ∧ audited.kubeletConfiguration = some custom ∧
        (∃ first out', generate semantic Empty.elim .initial audited = some (first, some out') ∧
          (Agrees audited out ∧ Same out out' ↔ Allows Empty.elim vars audited audit versions custom)) ∧
        ((∀ earlier ∈ [plain], Compatible earlier audited audit versions) →
          Allows Empty.elim .initial audited audit versions custom →
            Allows Empty.elim vars audited audit versions custom) :=
  ⟨_, _, _, rfl, rfl, gates_agree_iff semantic_ordered Empty.elim [plain] audited _ rfl rfl⟩

/-- The kubelet configuration has the default of a gate that the user sets to the opposite. After a generation with
audit and a gate of its own, one without them has the audit arguments and the gate as well. -/
theorem gates_not_agree :
    (∃ vars' out, generate semantic Empty.elim .initial withoutRotation = some (vars', some out) ∧
      ¬ Agrees withoutRotation out) ∧
    ∃ vars vars' first out out', generations semantic Empty.elim .initial [audited] = some vars ∧
      generate semantic Empty.elim vars plain = some (vars', some out) ∧
      generate semantic Empty.elim .initial plain = some (first, some out') ∧
      out.apiServerArgs.get? "audit-log-format" = some "json" ∧ out'.apiServerArgs.get? "audit-log-format" = none ∧
      out.kubeletGate "GracefulNodeShutdown" = some true ∧ out'.kubeletGate "GracefulNodeShutdown" = none ∧
      ¬ Same out out' := by
  refine ⟨⟨_, _, rfl, fun agrees => ?_⟩, _, _, _, _, _, rfl, rfl, rfl, ?_, ?_, ?_, ?_, fun same => ?_⟩
  · have value := agrees.kubelet "RotateKubeletServerCertificate" false (by decide)
    revert value
    decide
  · decide
  · decide
  · decide
  · decide
  · have value := same.kubeletGate "GracefulNodeShutdown"
    revert value
    decide

end KubeKey.Templates
