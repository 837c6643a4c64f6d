import KubeKey.Bootstrap.K3sConfig

/-!
# What a reconcile does

The alternatives of one reconcile of a K3sConfig, whatever the requests to the API answer:
it waits, it fails to start the control plane, it starts it, or it joins. The invariants of
the bootstrap are derived from these alternatives and do not unfold the reconcile again.
-/

namespace KubeKey.Bootstrap

variable {k : K3s}

namespace World

/-- `Create` and `Update` write the secret or leave everything; a success has written it. -/
theorem createOrUpdate_cases (w : World) (name : String) (s : Secret) (create update : Answer) :
    w.createOrUpdate name s create update = (true, w.putSecret name s) ∨
      w.createOrUpdate name s create update = (false, w.putSecret name s) ∨
      w.createOrUpdate name s create update = (false, w) := by
  unfold createOrUpdate
  cases create with
  | refused => exact Or.inr (Or.inr rfl)
  | lost =>
    dsimp only
    split
    · exact Or.inr (Or.inr rfl)
    · exact Or.inr (Or.inl rfl)
  | ok =>
    dsimp only
    split
    · cases update with
      | ok => exact Or.inl rfl
      | refused => exact Or.inr (Or.inr rfl)
      | lost => exact Or.inr (Or.inl rfl)
    · exact Or.inl rfl

theorem unlock_cases (w : World) (get : Bool) (delete : Answer) :
    ∃ lock, w.unlock get delete = { w with lock := lock } := by
  unfold unlock
  split
  · exact ⟨none, rfl⟩
  · exact ⟨w.lock, rfl⟩

/-- The lock goes to a machine that holds it already or finds it free. One that does not get
it takes it from nobody whose machine exists. -/
theorem tryLock_cases (w : World) (a : Answers) (machine : String) :
    ((w.lock = none ∨ w.lock = some machine) ∧ w.tryLock a machine = (true, { w with lock := some machine })) ∨
      ∃ lock, w.tryLock a machine = (false, { w with lock := lock }) ∧
        ∀ holder, w.lock = some holder → (w.machines holder).isSome → lock = some holder := by
  unfold tryLock
  split
  · exact Or.inr ⟨w.lock, rfl, fun holder held _ => held⟩
  cases held : w.lock with
  | none =>
    cases a.lockCreate with
    | ok => exact Or.inl ⟨Or.inl rfl, rfl⟩
    | refused => exact Or.inr ⟨none, by dsimp only; rw [← held], fun holder other => by cases other⟩
    | lost => exact Or.inr ⟨some machine, rfl, fun holder other => by cases other⟩
  | some holder =>
    dsimp only
    split
    · next same => exact Or.inl ⟨Or.inr (by rw [same]), by rw [← same, ← held]⟩
    split
    · next gone =>
      obtain ⟨lock, unlocked⟩ := w.unlock_cases a.lockUnlockGet a.lockUnlockDelete
      refine Or.inr ⟨lock, by rw [unlocked], fun other same there => ?_⟩
      cases same
      rw [Option.isNone_iff_eq_none.mp gone.2] at there
      cases there
    · exact Or.inr ⟨some holder, by rw [← held], fun other same _ => same⟩

end World

/-- The config keeps its identity and its status. -/
structure SameStatus (config config' : K3sConfig) : Prop where
  uid : config'.uid = config.uid
  machine : config'.machine = config.machine
  ready : config'.ready = config.ready
  dataSecretName : config'.dataSecretName = config.dataSecretName

/-- The config is ready with a data secret of its own name. -/
structure Stored (name : String) (config config' : K3sConfig) : Prop where
  uid : config'.uid = config.uid
  machine : config'.machine = config.machine
  ready : config'.ready = true
  dataSecretName : config'.dataSecretName = some name

/-- The alternatives of a reconcile, up to its patch. -/
inductive Outcome (k : K3s) (name : String) (config : K3sConfig) (w : World) : K3sConfig → World → Prop where
  | waited {config' : K3sConfig} (same : SameStatus config config') (lock : Option String)
      (kept : ∀ holder, w.lock = some holder → (w.machines holder).isSome → lock = some holder) :
      Outcome k name config w config' { w with lock := lock }
  | failed {config' : K3sConfig} (same : SameStatus config config') (before : w.initialized = false)
      (unready : config.ready = false) (free : w.lock = none ∨ w.lock = some config.machine)
      (lock : Option String) (secrets : String → Option Secret)
      (others : ∀ other, other ≠ k.tokenSecret → other ≠ name → secrets other = w.secrets other) :
      Outcome k name config w config' { w with lock := lock, secrets := secrets }
  | started {config' : K3sConfig} (stored : Stored name config config') (before : w.initialized = false)
      (unready : config.ready = false) (free : w.lock = none ∨ w.lock = some config.machine) (t : String) :
      Outcome k name config w config'
        { w with
          lock := some config.machine
          secrets := Function.update (Function.update w.secrets k.tokenSecret (some ⟨config.uid, .token t⟩)) name
            (some ⟨config.uid, .userData true t⟩) }
  | joined {config' : K3sConfig} (after : w.initialized = true) (unready : config.ready = false)
      (lock : Option String) (tokens : List String)
      (taken : tokens = w.joinTokens ∨
        ∃ s, w.secrets k.tokenSecret = some s ∧ tokens = w.joinTokens ++ [s.value.text k])
      (secrets : String → Option Secret)
      (status : (SameStatus config config' ∧ secrets = w.secrets) ∨
        ((SameStatus config config' ∨ Stored name config config') ∧
          ∃ t, secrets = Function.update w.secrets name (some ⟨config.uid, .userData false t⟩))) :
      Outcome k name config w config' { w with lock := lock, joinTokens := tokens, secrets := secrets }

/-- `storeBootstrapData` succeeds with the data in the secret, or the config is left as it was. -/
theorem storeBootstrapData_cases (a : Answers) (name : String) (config : K3sConfig) (data : SecretValue) (w : World) :
    (∃ config', storeBootstrapData a name config data w = (some config', w.putSecret name ⟨config.uid, data⟩) ∧
        Stored name config config') ∨
      storeBootstrapData a name config data w = (none, w.putSecret name ⟨config.uid, data⟩) ∨
      storeBootstrapData a name config data w = (none, w) := by
  unfold storeBootstrapData
  rcases w.createOrUpdate_cases name ⟨config.uid, data⟩ a.dataCreate a.dataUpdate with stored | stored | stored
  · rw [stored]
    exact Or.inl ⟨_, rfl, rfl, rfl, rfl, rfl⟩
  · rw [stored]
    exact Or.inr (Or.inl rfl)
  · rw [stored]
    exact Or.inr (Or.inr rfl)

/-- `generateAndStoreToken` touches only the token secret. -/
theorem generateAndStoreToken_cases (k : K3s) (a : Answers) (config : K3sConfig) (w : World) :
    (∃ t, generateAndStoreToken k a config w = (some t, w.putSecret k.tokenSecret ⟨config.uid, .token t⟩)) ∨
      ∃ secrets, generateAndStoreToken k a config w = (none, { w with secrets := secrets }) ∧
        ∀ other, other ≠ k.tokenSecret → secrets other = w.secrets other := by
  unfold generateAndStoreToken
  cases a.generated with
  | none => exact Or.inr ⟨w.secrets, rfl, fun _ _ => rfl⟩
  | some t =>
    dsimp only
    rcases w.createOrUpdate_cases k.tokenSecret ⟨config.uid, .token t⟩ a.tokenCreate a.tokenUpdate
      with token | token | token
    · rw [token]
      exact Or.inl ⟨t, rfl⟩
    · rw [token]
      exact Or.inr ⟨_, rfl, fun _ other => w.putSecret_of_ne _ other⟩
    · rw [token]
      exact Or.inr ⟨w.secrets, rfl, fun _ _ => rfl⟩

/-- Either both secrets hold the generated token in the end, or no other secret has changed. -/
theorem initBootstrapData_cases (k : K3s) (a : Answers) (name : String) (config : K3sConfig) (w : World) :
    (∃ config' t, Stored name config config' ∧ initBootstrapData k a name config w =
        (some config', (w.putSecret k.tokenSecret ⟨config.uid, .token t⟩).putSecret name
          ⟨config.uid, .userData true t⟩)) ∨
      ∃ secrets, initBootstrapData k a name config w = (none, { w with secrets := secrets }) ∧
        ∀ other, other ≠ k.tokenSecret → other ≠ name → secrets other = w.secrets other := by
  unfold initBootstrapData
  split
  · exact Or.inr ⟨w.secrets, rfl, fun _ _ _ => rfl⟩
  rcases generateAndStoreToken_cases k a config w with ⟨t, token⟩ | ⟨secrets, token, others⟩
  · have tokenOnly : ∀ other, other ≠ k.tokenSecret →
        (w.putSecret k.tokenSecret ⟨config.uid, .token t⟩).secrets other = w.secrets other :=
      fun _ other => w.putSecret_of_ne _ other
    rw [token]
    dsimp only
    split
    · rcases storeBootstrapData_cases a name config (.userData true t)
        (w.putSecret k.tokenSecret ⟨config.uid, .token t⟩) with ⟨config', data, stored⟩ | data | data
      · exact Or.inl ⟨config', t, stored, data⟩
      · refine Or.inr ⟨_, data, fun other notToken own => ?_⟩
        exact (World.putSecret_of_ne _ _ own).trans (tokenOnly other notToken)
      · exact Or.inr ⟨_, data, fun other notToken _ => tokenOnly other notToken⟩
    · exact Or.inr ⟨_, rfl, fun other notToken _ => tokenOnly other notToken⟩
  · rw [token]
    exact Or.inr ⟨secrets, rfl, fun other notToken _ => others other notToken⟩

/-- Before the control plane is initialised. -/
theorem handleClusterNotInitialized_outcome (k : K3s) (a : Answers) (name : String) (machine : Machine)
    (config : K3sConfig) (w : World) (before : w.initialized = false) (unready : config.ready = false) :
    Outcome k name config w (handleClusterNotInitialized k a name machine config w).1
      (handleClusterNotInitialized k a name machine config w).2 := by
  have waiting : Outcome k name config w config w :=
    .waited ⟨rfl, rfl, rfl, rfl⟩ w.lock fun holder held _ => held
  unfold handleClusterNotInitialized
  split
  · exact waiting
  split
  · exact waiting
  rcases w.tryLock_cases a config.machine with ⟨free, locked⟩ | ⟨lock, locked, kept⟩
  · rw [locked]
    dsimp only
    rcases initBootstrapData_cases k a name { config with serverConfiguration := true }
      { w with lock := some config.machine } with ⟨config', t, stored, data⟩ | ⟨secrets, data, others⟩
    · rw [data]
      exact @Outcome.started k name config w config' ⟨stored.uid, stored.machine, stored.ready,
        stored.dataSecretName⟩ before unready free t
    · rw [data]
      obtain ⟨lock, unlocked⟩ :=
        World.unlock_cases { w with lock := some config.machine, secrets := secrets } a.unlockGet a.unlockDelete
      dsimp only
      rw [unlocked]
      exact @Outcome.failed k name config w { config with serverConfiguration := true } ⟨rfl, rfl, rfl, rfl⟩
        before unready free lock secrets others
  · rw [locked]
    exact @Outcome.waited k name config w _ ⟨rfl, rfl, rfl, rfl⟩ lock kept

/-- `reconcileDiscovery` records a token only from the token secret. -/
theorem reconcileDiscovery_cases (k : K3s) (a : Answers) (cluster : ClusterSpec) (w : World) :
    ∃ tokens, (reconcileDiscovery k a cluster w).2.2 = { w with joinTokens := tokens } ∧
      (tokens = w.joinTokens ∨
        ∃ s, w.secrets k.tokenSecret = some s ∧ tokens = w.joinTokens ++ [s.value.text k]) := by
  have untaken : ∃ tokens, w = { w with joinTokens := tokens } ∧ (tokens = w.joinTokens ∨
      ∃ s, w.secrets k.tokenSecret = some s ∧ tokens = w.joinTokens ++ [s.value.text k]) :=
    ⟨w.joinTokens, rfl, Or.inl rfl⟩
  unfold reconcileDiscovery
  split
  · exact untaken
  split
  · exact untaken
  dsimp only
  generalize (if cluster.server = "" then _ else cluster) = injected
  split
  · exact untaken
  cases a.tokenGet with
  | false => exact untaken
  | true =>
    cases token : w.secrets k.tokenSecret with
    | none => exact ⟨w.joinTokens, rfl, Or.inl rfl⟩
    | some s => exact ⟨_, rfl, Or.inr ⟨s, rfl, rfl⟩⟩

/-- After the control plane is initialised. -/
theorem join_outcome (k : K3s) (a : Answers) (name : String) (machine : Machine) (config : K3sConfig) (w : World)
    (after : w.initialized = true) (unready : config.ready = false) :
    Outcome k name config w (join k a name machine config w).1 (join k a name machine config w).2 := by
  obtain ⟨lock, unlocked⟩ := w.unlock_cases a.unlockGet a.unlockDelete
  unfold join
  rw [unlocked]
  dsimp only
  obtain ⟨tokens, found, taken⟩ := reconcileDiscovery_cases k a (config.cluster.getD {}) { w with lock := lock }
  generalize reconcileDiscovery k a (config.cluster.getD {}) { w with lock := lock } = discovery at found ⊢
  obtain ⟨go, cluster, w'⟩ := discovery
  cases found
  dsimp only
  split
  · rcases storeBootstrapData_cases a name
      { config with serverConfiguration := config.serverConfiguration || machine.controlPlane, cluster := some cluster }
      (.userData false cluster.token) { w with lock := lock, joinTokens := tokens }
      with ⟨config', data, stored⟩ | data | data
    · rw [data]
      exact @Outcome.joined k name config w _ after unready lock tokens taken _
        (Or.inr ⟨Or.inr ⟨stored.uid, stored.machine, stored.ready, stored.dataSecretName⟩, cluster.token, rfl⟩)
    · rw [data]
      exact @Outcome.joined k name config w _ after unready lock tokens taken _
        (Or.inr ⟨Or.inl ⟨rfl, rfl, rfl, rfl⟩, cluster.token, rfl⟩)
    · rw [data]
      exact @Outcome.joined k name config w _ after unready lock tokens taken w.secrets
        (Or.inl ⟨⟨rfl, rfl, rfl, rfl⟩, rfl⟩)
  · exact @Outcome.joined k name config w _ after unready lock tokens taken w.secrets
        (Or.inl ⟨⟨rfl, rfl, rfl, rfl⟩, rfl⟩)

/-- A reconcile leaves everything, or has an outcome and patches its config. The pivot needs a
machine with a data secret whose config has none. -/
theorem reconcile_outcome (k : K3s) (a : Answers) (name : String) (w : World)
    (bootstrapped : ∀ config machine, w.configs name = some config → w.machines config.machine = some machine →
      machine.dataSecretName.isSome → config.ready = true ∧ config.dataSecretName.isSome) :
    reconcile k a name w = w ∨ ∃ config config' u, w.configs name = some config ∧
      (w.machines config.machine).isSome ∧ Outcome k name config w config' u ∧
      reconcile k a name w = u.patchConfig name config' a.patch := by
  unfold reconcile
  cases here : w.configs name with
  | none => exact Or.inl rfl
  | some config =>
    dsimp only
    cases owner : w.machines config.machine with
    | none => exact Or.inl rfl
    | some machine =>
      dsimp only
      split
      · exact Or.inl rfl
      have waiting : Outcome k name config w config w :=
        .waited ⟨rfl, rfl, rfl, rfl⟩ w.lock fun holder held _ => held
      refine Or.inr ⟨config, _, _, rfl, by rw [owner]; rfl, ?_, rfl⟩
      split
      · exact waiting
      split
      · next pivot =>
        obtain ⟨ready, stored⟩ := bootstrapped config machine here owner pivot.1
        rcases pivot.2 with unready | missing
        · rw [ready] at unready
          cases unready
        · rw [Option.isNone_iff_eq_none.mp missing] at stored
          cases stored
      split
      · exact waiting
      · next unready =>
        rw [Bool.not_eq_true] at unready
        split
        · next before => exact handleClusterNotInitialized_outcome k a name machine config w before unready
        · next after =>
          rw [Bool.not_eq_false] at after
          exact join_outcome k a name machine config w after unready

end KubeKey.Bootstrap
