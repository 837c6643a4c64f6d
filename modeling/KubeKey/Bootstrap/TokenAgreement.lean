import KubeKey.Bootstrap.Outcome

/-!
# The nodes of a cluster agree on its token

Before the control plane is initialised at most one machine is ready with data that starts a
server, the token secret holds the token in this data, and so every token that a node takes
from the secret later is the one the first server was started with.

The invariant ties the machine that is ready to the init lock, and its data to the token
secret. A machine whose config is not ready gets the lock only when no other machine is
ready, so it may write a new token. Nobody else writes the token secret, as long as no
config of the cluster has its name.
-/

namespace KubeKey.Bootstrap

variable {k : K3s} {w u : World} {name t : String} {config config' : K3sConfig}

/-- What holds of the token in every state. -/
structure Agreement (k : K3s) (w : World) : Prop where
  one : w.initialized = false → ∀ m m' t t', InitReady w m t → InitReady w m' t' → m = m'
  token : ∀ m t, InitReady w m t → ∃ s, w.secrets k.tokenSecret = some s ∧ s.value = .token t
  join : ∀ t, w.firstToken = some t → ∀ t' ∈ w.joinTokens, t' = t

/-- No config of the cluster gets the name of the token secret. -/
def Apart (k : K3s) : Event → Prop
  | .machineCreated _ config => config ≠ k.tokenSecret
  | _ => True

/-- Machines and configs belong to each other. -/
structure Linked (k : K3s) (w : World) : Prop where
  named : ∀ {name config}, w.configs name = some config → name ≠ k.tokenSecret
  own : ∀ {name config}, w.configs name = some config → config.ready = true → config.dataSecretName = some name
  owner : ∀ {machine m}, w.machines machine = some m →
    ∃ config, w.configs m.config = some config ∧ config.machine = machine
  only : ∀ {name config m}, w.configs name = some config → w.machines config.machine = some m → m.config = name
  bootstrapped : ∀ {machine m config}, w.machines machine = some m → m.dataSecretName.isSome →
    w.configs m.config = some config → config.ready = true

/-- The config of an existing machine is ready with data that starts a server with the token. -/
structure Starts (w : World) (name : String) (config : K3sConfig) (t : String) : Prop where
  here : w.configs name = some config
  ready : config.ready = true
  machine : (w.machines config.machine).isSome
  data : ∃ s, w.secrets name = some s ∧ s.value = .userData true t

theorem Linked.of_eq (linked : Linked k w) (machines : u.machines = w.machines) (configs : u.configs = w.configs) :
    Linked k u where
  named := fun here => linked.named (configs ▸ here)
  own := fun here => linked.own (configs ▸ here)
  owner := by
    rw [machines, configs]
    exact linked.owner
  only := by
    rw [machines, configs]
    exact linked.only
  bootstrapped := by
    rw [machines, configs]
    exact linked.bootstrapped

theorem Linked.starts_of_initReady {machine : String} (linked : Linked k w) (ready : InitReady w machine t) :
    ∃ name config, Starts w name config t ∧ config.machine = machine := by
  obtain ⟨m, config, name, s, there, here, configReady, stored, secret, data⟩ := ready
  obtain ⟨config', here', machine'⟩ := linked.owner there
  cases here.symm.trans here'
  cases stored.symm.trans (linked.own here configReady)
  exact ⟨m.config, config, ⟨here, configReady, by rw [machine', there]; rfl, s, secret, data⟩, machine'⟩

/-- What cannot start a server keeps it so when machines and secrets only go away. -/
theorem Starts.mono (starts : Starts u name config t) (configs : u.configs name = w.configs name)
    (machines : (u.machines config.machine).isSome → (w.machines config.machine).isSome)
    (secrets : ∀ s, u.secrets name = some s → w.secrets name = some s) : Starts w name config t := by
  obtain ⟨s, secret, data⟩ := starts.data
  exact ⟨configs.symm.trans starts.here, starts.ready, machines starts.machine, s, secrets s secret, data⟩

/-- The invariant of the bootstrap. -/
structure Inv (k : K3s) (w : World) : Prop where
  linked : Linked k w
  lock : w.initialized = false → ∀ {name config t}, Starts w name config t → w.lock = some config.machine
  token : ∀ {name config t}, Starts w name config t →
    w.secrets k.tokenSecret = some ⟨config.uid, .token t⟩
  before : w.initialized = false → w.firstToken = none ∧ w.joinTokens = []
  first : ∀ {t}, w.firstToken = some t →
    (∀ s, w.secrets k.tokenSecret = some s → s.value = .token t) ∧ ∀ t' ∈ w.joinTokens, t' = t

theorem Inv.agreement (inv : Inv k w) : Agreement k w where
  one := by
    intro before m m' t t' ready ready'
    obtain ⟨_, _, starts, rfl⟩ := inv.linked.starts_of_initReady ready
    obtain ⟨_, _, starts', rfl⟩ := inv.linked.starts_of_initReady ready'
    exact Option.some.inj ((inv.lock before starts).symm.trans (inv.lock before starts'))
  token := by
    intro m t ready
    obtain ⟨_, _, starts, -⟩ := inv.linked.starts_of_initReady ready
    exact ⟨_, inv.token starts, rfl⟩
  join := fun _ first => (inv.first first).2

/-- A config can be replaced by one of the same machine whose data is its own. -/
theorem Linked.putConfig (linked : Linked k w) (here : w.configs name = some config)
    (machine : config'.machine = config.machine) (own : config'.ready = true → config'.dataSecretName = some name)
    (ready : config.ready = true → config'.ready = true) : Linked k (w.putConfig name config') where
  named := by
    intro other c found
    rcases eq_or_ne other name with rfl | apart
    · exact linked.named here
    · exact linked.named ((w.putConfig_of_ne _ apart).symm.trans found)
  own := by
    intro other c found isReady
    rcases eq_or_ne other name with rfl | apart
    · cases (w.putConfig_self _ _).symm.trans found
      exact own isReady
    · exact linked.own ((w.putConfig_of_ne _ apart).symm.trans found) isReady
  owner := by
    intro other m there
    obtain ⟨c, found, of⟩ := linked.owner there
    rcases eq_or_ne m.config name with same | apart
    · cases (same ▸ found).symm.trans here
      exact ⟨config', by rw [same]; exact w.putConfig_self _ _, machine.trans of⟩
    · exact ⟨c, (w.putConfig_of_ne _ apart).trans found, of⟩
  only := by
    intro other c m found there
    rcases eq_or_ne other name with rfl | apart
    · cases (w.putConfig_self _ _).symm.trans found
      exact linked.only here (machine ▸ there)
    · exact linked.only ((w.putConfig_of_ne _ apart).symm.trans found) there
  bootstrapped := by
    intro other m c there data found
    rcases eq_or_ne m.config name with same | apart
    · have found' : c = config' := by
        rw [same] at found
        exact (Option.some.inj ((w.putConfig_self _ _).symm.trans found)).symm
      rw [found']
      exact ready (linked.bootstrapped there data (by rw [same]; exact here))
    · exact linked.bootstrapped there data ((w.putConfig_of_ne _ apart).symm.trans found)

/-- The same of the invariant, when the new config either starts no server or is the one that
holds the lock and has its token in the secret. -/
theorem Inv.putConfig (inv : Inv k w) (here : w.configs name = some config)
    (machine : config'.machine = config.machine) (own : config'.ready = true → config'.dataSecretName = some name)
    (ready : config.ready = true → config'.ready = true)
    (safe : ∀ t, Starts (w.putConfig name config') name config' t →
      (w.initialized = false → w.lock = some config'.machine) ∧
        w.secrets k.tokenSecret = some ⟨config'.uid, .token t⟩) : Inv k (w.putConfig name config') where
  linked := inv.linked.putConfig here machine own ready
  lock := by
    intro before other c t starts
    rcases eq_or_ne other name with rfl | apart
    · cases (w.putConfig_self _ _).symm.trans starts.here
      exact (safe t starts).1 before
    · exact inv.lock before (starts.mono (w.putConfig_of_ne _ apart) id fun _ => id)
  token := by
    intro other c t starts
    rcases eq_or_ne other name with rfl | apart
    · cases (w.putConfig_self _ _).symm.trans starts.here
      exact (safe t starts).2
    · exact inv.token (starts.mono (w.putConfig_of_ne _ apart) id fun _ => id)
  before := inv.before
  first := inv.first

theorem Inv.putConfig_same (inv : Inv k w) (here : w.configs name = some config) (same : SameStatus config config') :
    Inv k (w.putConfig name config') := by
  refine inv.putConfig here same.machine (fun ready => ?_) (fun ready => same.ready.trans ready) fun t starts => ?_
  · rw [same.dataSecretName]
    exact inv.linked.own here (same.ready ▸ ready)
  · have starts' : Starts w name config t :=
      ⟨here, same.ready ▸ starts.ready, same.machine ▸ starts.machine, starts.data⟩
    rw [same.machine, same.uid]
    exact ⟨fun before => inv.lock before starts', inv.token starts'⟩

/-- A machine whose config is not ready finds the lock free only if no server can be started. -/
theorem Inv.nobody (inv : Inv k w) (here : w.configs name = some config) (before : w.initialized = false)
    (unready : config.ready = false) (free : w.lock = none ∨ w.lock = some config.machine)
    {other : String} {c : K3sConfig} (starts : Starts w other c t) : False := by
  have held := inv.lock before starts
  rcases free with free | free
  · cases free.symm.trans held
  · have same : config.machine = c.machine := Option.some.inj (free.symm.trans held)
    obtain ⟨m, there⟩ := Option.isSome_iff_exists.mp starts.machine
    have owned : name = other :=
      (inv.linked.only here (same ▸ there)).symm.trans (inv.linked.only starts.here there)
    rw [owned, starts.here] at here
    cases here
    rw [starts.ready] at unready
    cases unready

/-- So what it writes into the token secret and its own does no harm. -/
theorem Inv.attempt (inv : Inv k w) (here : w.configs name = some config) (before : w.initialized = false)
    (unready : config.ready = false) (free : w.lock = none ∨ w.lock = some config.machine)
    (lock : Option String) (secrets : String → Option Secret)
    (others : ∀ other, other ≠ k.tokenSecret → other ≠ name → secrets other = w.secrets other) :
    Inv k { w with lock := lock, secrets := secrets } ∧
      ∀ {other c t}, ¬ Starts { w with lock := lock, secrets := secrets } other c t := by
  have nobody : ∀ {other c t}, ¬ Starts { w with lock := lock, secrets := secrets } other c t := by
    intro other c t starts
    have apart : other ≠ name := by
      rintro rfl
      cases here.symm.trans starts.here
      rw [starts.ready] at unready
      cases unready
    refine inv.nobody here before unready free (starts.mono rfl id fun s secret => ?_)
    exact (others other (inv.linked.named starts.here) apart).symm.trans secret
  refine ⟨⟨inv.linked.of_eq rfl rfl, fun _ _ _ _ starts => (nobody starts).elim,
    fun starts => (nobody starts).elim, inv.before, fun first => ?_⟩, nobody⟩
  cases (inv.before before).1.symm.trans first

/-- After the control plane is initialised a config that is not ready may write its own secret and
take the token from the secret. -/
theorem Inv.joins (inv : Inv k w) (here : w.configs name = some config) (after : w.initialized = true)
    (unready : config.ready = false) (lock : Option String) {tokens : List String}
    (taken : tokens = w.joinTokens ∨
      ∃ s, w.secrets k.tokenSecret = some s ∧ tokens = w.joinTokens ++ [s.value.text k])
    {secrets : String → Option Secret} (others : ∀ other, other ≠ name → secrets other = w.secrets other) :
    Inv k { w with lock := lock, joinTokens := tokens, secrets := secrets } where
  linked := inv.linked.of_eq rfl rfl
  lock := fun before => by cases before.symm.trans after
  token := by
    intro other c t starts
    have apart : other ≠ name := by
      rintro rfl
      cases here.symm.trans starts.here
      cases unready.symm.trans starts.ready
    refine (others _ (inv.linked.named here).symm).trans (inv.token (starts.mono rfl id fun s secret => ?_))
    exact (others other apart).symm.trans secret
  before := fun before => by cases before.symm.trans after
  first := by
    intro t first
    obtain ⟨token, tokens'⟩ := inv.first first
    have token' : ∀ s, w.secrets k.tokenSecret = some s → s.value.text k = t := by
      intro s secret
      rw [token s secret]
      rfl
    have kept := others _ (inv.linked.named here).symm
    refine ⟨fun s secret => token s (kept.symm.trans secret), fun t' member => ?_⟩
    rcases taken with rfl | ⟨s, secret, rfl⟩
    · exact tokens' t' member
    · rcases List.mem_append.mp member with old | new
      · exact tokens' t' old
      · rw [List.mem_singleton.mp new, token' s secret]

/-- The patch may come through or not. -/
theorem Inv.patchConfig (inv : Inv k w) (patched : Inv k (w.putConfig name config')) (patch : Answer) :
    Inv k (w.patchConfig name config' patch) := by
  unfold World.patchConfig
  split
  · exact inv
  · exact patched

theorem Inv.outcome (inv : Inv k w) (here : w.configs name = some config)
    (outcome : Outcome k name config w config' u) (patch : Answer) : Inv k (u.patchConfig name config' patch) := by
  have named : k.tokenSecret ≠ name := fun same => inv.linked.named here same.symm
  cases outcome with
  | waited same lock kept =>
    have waited : Inv k { w with lock := lock } :=
      ⟨inv.linked.of_eq rfl rfl, fun before _ _ _ starts =>
          kept _ (inv.lock before (starts.mono rfl id fun _ => id)) starts.machine,
        fun starts => inv.token (starts.mono rfl id fun _ => id), inv.before, inv.first⟩
    exact waited.patchConfig (waited.putConfig_same here same) patch
  | failed same before unready free lock secrets others =>
    have failed := (inv.attempt here before unready free lock secrets others).1
    exact failed.patchConfig (failed.putConfig_same here same) patch
  | started stored before unready free t =>
    obtain ⟨started, nobody⟩ := inv.attempt here before unready free (some config.machine)
      (Function.update (Function.update w.secrets k.tokenSecret (some ⟨config.uid, .token t⟩)) name
        (some ⟨config.uid, .userData true t⟩)) fun other notToken own => by
          rw [Function.update_of_ne own, Function.update_of_ne notToken]
    refine started.patchConfig (started.putConfig here stored.machine (fun _ => stored.dataSecretName)
      (fun _ => stored.ready) fun t' starts => ⟨fun _ => by rw [stored.machine], ?_⟩) patch
    -- the secret of this config is not the token secret, which keeps the token
    obtain ⟨s, secret, data⟩ := starts.data
    cases (Function.update_self name _ _).symm.trans secret
    cases data
    rw [stored.uid]
    exact (Function.update_of_ne named _ _).trans (Function.update_self _ _ _)
  | joined after unready lock tokens taken secrets status =>
    have others : ∀ other, other ≠ name → secrets other = w.secrets other := by
      intro other apart
      rcases status with ⟨-, rfl⟩ | ⟨-, t, rfl⟩
      · rfl
      · exact Function.update_of_ne apart _ _
    have joined := inv.joins here after unready lock taken others
    rcases status with ⟨same, -⟩ | ⟨same | stored, t, written⟩
    · exact joined.patchConfig (joined.putConfig_same here same) patch
    · exact joined.patchConfig (joined.putConfig_same here same) patch
    · refine joined.patchConfig (joined.putConfig here stored.machine (fun _ => stored.dataSecretName)
        (fun _ => stored.ready) fun t' starts => ?_) patch
      -- what lets a node join starts no server
      obtain ⟨s, secret, data⟩ := starts.data
      have own : secrets name = some ⟨config.uid, .userData false t⟩ := by
        rw [written]
        exact Function.update_self _ _ _
      cases own.symm.trans secret
      cases data

theorem Inv.reconcile (inv : Inv k w) (a : Answers) (name : String) : Inv k (reconcile k a name w) := by
  have bootstrapped : ∀ config machine, w.configs name = some config → w.machines config.machine = some machine →
      machine.dataSecretName.isSome → config.ready = true ∧ config.dataSecretName.isSome := by
    intro config machine here there data
    have of := inv.linked.only here there
    have ready := inv.linked.bootstrapped there data (by rw [of]; exact here)
    exact ⟨ready, by rw [inv.linked.own here ready]; rfl⟩
  rcases reconcile_outcome k a name w bootstrapped with same | ⟨config, config', u, here, -, outcome, patched⟩
  · rw [same]
    exact inv
  · rw [patched]
    exact inv.outcome here outcome a.patch

/-- A machine and its config come together. -/
theorem Linked.machineCreated (linked : Linked k w) {machine : String} {m : Machine} (new : w.machines machine = none)
    (fresh : w.configs name = none) (unused : ∀ other c, w.configs other = some c → c.machine ≠ machine)
    (apart : name ≠ k.tokenSecret) (of : config.machine = machine) (unready : config.ready = false)
    (its : m.config = name) (empty : m.dataSecretName = none)
    (machines : u.machines = Function.update w.machines machine (some m))
    (configs : u.configs = Function.update w.configs name (some config)) : Linked k u where
  named := by
    intro other c here
    rw [configs] at here
    rcases eq_or_ne other name with rfl | old
    · exact apart
    · exact linked.named ((Function.update_of_ne old _ _).symm.trans here)
  own := by
    intro other c here ready
    rw [configs] at here
    rcases eq_or_ne other name with rfl | old
    · cases (Function.update_self _ _ _).symm.trans here
      cases unready.symm.trans ready
    · exact linked.own ((Function.update_of_ne old _ _).symm.trans here) ready
  owner := by
    intro other m' there
    rw [machines] at there
    rw [configs]
    rcases eq_or_ne other machine with rfl | old
    · cases (Function.update_self _ _ _).symm.trans there
      exact ⟨config, by rw [its]; exact Function.update_self _ _ _, of⟩
    · obtain ⟨c, here, owner⟩ := linked.owner ((Function.update_of_ne old _ _).symm.trans there)
      have old' : m'.config ≠ name := by
        intro same
        rw [same, fresh] at here
        cases here
      exact ⟨c, (Function.update_of_ne old' _ _).trans here, owner⟩
  only := by
    intro other c m' here there
    rw [configs] at here
    rw [machines] at there
    rcases eq_or_ne other name with rfl | old
    · cases (Function.update_self _ _ _).symm.trans here
      rw [of] at there
      cases (Function.update_self _ _ _).symm.trans there
      exact its
    · have here' := (Function.update_of_ne old _ _).symm.trans here
      exact linked.only here' ((Function.update_of_ne (unused other c here') _ _).symm.trans there)
  bootstrapped := by
    intro other m' c there data here
    rw [machines] at there
    rw [configs] at here
    rcases eq_or_ne other machine with rfl | old
    · cases (Function.update_self _ _ _).symm.trans there
      rw [empty] at data
      cases data
    · have there' := (Function.update_of_ne old _ _).symm.trans there
      rcases eq_or_ne m'.config name with same | old'
      · obtain ⟨c', here', -⟩ := linked.owner there'
        rw [same, fresh] at here'
        cases here'
      · exact linked.bootstrapped there' data ((Function.update_of_ne old' _ _).symm.trans here)

/-- Machines and configs go away, a config not before its machine. -/
theorem Linked.collected (linked : Linked k w)
    (machines : ∀ {machine m}, u.machines machine = some m → w.machines machine = some m)
    (configs : ∀ {name c}, u.configs name = some c → w.configs name = some c)
    (kept : ∀ {name c m}, w.configs name = some c → u.machines c.machine = some m → u.configs name = some c) :
    Linked k u where
  named := fun here => linked.named (configs here)
  own := fun here => linked.own (configs here)
  owner := by
    intro machine m there
    obtain ⟨c, here, rfl⟩ := linked.owner (machines there)
    exact ⟨c, kept here there, rfl⟩
  only := fun here there => linked.only (configs here) (machines there)
  bootstrapped := fun there data here => linked.bootstrapped (machines there) data (configs here)

/-- A machine takes its data from a config that is ready. -/
theorem Linked.machineBootstrapped (linked : Linked k w) {machine : String} {m m' : Machine}
    (there : w.machines machine = some m) (here : w.configs m.config = some config) (ready : config.ready = true)
    (machines : u.machines = Function.update w.machines machine (some m')) (same : m'.config = m.config)
    (configs : u.configs = w.configs) : Linked k u where
  named := fun found => linked.named (configs ▸ found)
  own := fun found => linked.own (configs ▸ found)
  owner := by
    intro other m'' there'
    rw [machines] at there'
    rw [configs]
    rcases eq_or_ne other machine with rfl | apart
    · cases (Function.update_self _ _ _).symm.trans there'
      rw [same]
      exact linked.owner there
    · exact linked.owner ((Function.update_of_ne apart _ _).symm.trans there')
  only := by
    intro other c m'' found there'
    rw [configs] at found
    rw [machines] at there'
    rcases eq_or_ne c.machine machine with its | apart
    · rw [its] at there'
      cases (Function.update_self _ _ _).symm.trans there'
      exact same.trans (linked.only found (by rw [its]; exact there))
    · exact linked.only found ((Function.update_of_ne apart _ _).symm.trans there')
  bootstrapped := by
    intro other m'' c there' data found
    rw [configs] at found
    rw [machines] at there'
    rcases eq_or_ne other machine with rfl | apart
    · cases (Function.update_self _ _ _).symm.trans there'
      rw [same, here] at found
      cases found
      exact ready
    · exact linked.bootstrapped ((Function.update_of_ne apart _ _).symm.trans there') data found

/-- The invariant of a state that starts no other server, with the same lock, secrets and tokens. -/
theorem Inv.restarts (inv : Inv k w) (linked : Linked k u)
    (starts : ∀ {name c t}, Starts u name c t → Starts w name c t) (initialized : u.initialized = w.initialized)
    (lock : u.lock = w.lock) (secrets : u.secrets = w.secrets) (firstToken : u.firstToken = w.firstToken)
    (joinTokens : u.joinTokens = w.joinTokens) : Inv k u where
  linked := linked
  lock := by
    rw [initialized, lock]
    exact fun before _ _ _ started => inv.lock before (starts started)
  token := by
    rw [secrets]
    exact fun started => inv.token (starts started)
  before := by
    rw [initialized, firstToken, joinTokens]
    exact inv.before
  first := by
    rw [firstToken, secrets, joinTokens]
    exact inv.first

/-- What is still there after a deletion is something else. -/
theorem found_of_deleted {β : Type} {f : String → Option β} {deleted other : String} {b : β}
    (found : Function.update f deleted none other = some b) : other ≠ deleted ∧ f other = some b := by
  rcases eq_or_ne other deleted with rfl | apart
  · cases (Function.update_self _ _ _).symm.trans found
  · exact ⟨apart, (Function.update_of_ne apart _ _).symm.trans found⟩

/-- A secret goes away after its config. -/
theorem Inv.secretCollected (inv : Inv k w) {s : Secret} (secret : w.secrets name = some s)
    (gone : ∀ other c, w.configs other = some c → c.uid ≠ s.owner) :
    Inv k { w with secrets := Function.update w.secrets name none } := by
  have starts : ∀ {other c t}, Starts { w with secrets := Function.update w.secrets name none } other c t →
      Starts w other c t :=
    fun started => started.mono rfl id fun _ found => (found_of_deleted found).2
  refine ⟨inv.linked.of_eq rfl rfl, fun before _ _ _ started => inv.lock before (starts started), ?_, inv.before,
    fun first => ⟨fun s' found => (inv.first first).1 s' (found_of_deleted found).2, (inv.first first).2⟩⟩
  intro other c t started
  have token := inv.token (starts started)
  have apart : k.tokenSecret ≠ name := by
    rintro rfl
    cases secret.symm.trans token
    exact gone other c started.here rfl
  exact (Function.update_of_ne apart _ _).trans token

theorem Inv.step {w' : World} {e : Event} (inv : Inv k w) (apart : Apart k e) (step : Step k w e w') : Inv k w' := by
  cases step with
  | reconcile name a => exact inv.reconcile a name
  | @machineCreated machine name controlPlane serverConfiguration cluster new fresh unused =>
    refine inv.restarts (inv.linked.machineCreated new fresh unused apart rfl rfl rfl rfl rfl rfl)
      (fun {other c t} started => ?_) rfl rfl rfl rfl rfl
    have old : other ≠ name := by
      rintro rfl
      cases (Function.update_self _ _ _).symm.trans started.here
      cases started.ready
    have old' : c.machine ≠ machine := unused other c ((Function.update_of_ne old _ _).symm.trans started.here)
    refine started.mono (Function.update_of_ne old _ _) (fun there => ?_) fun _ => id
    dsimp only at there
    rwa [Function.update_of_ne old'] at there
  | machineDeleted machine =>
    refine inv.restarts (inv.linked.collected (fun there => (found_of_deleted there).2) id fun here _ => here)
      (fun started => ?_) rfl rfl rfl rfl rfl
    refine started.mono rfl (fun there => ?_) fun _ => id
    obtain ⟨m, there⟩ := Option.isSome_iff_exists.mp there
    rw [(found_of_deleted there).2]
    rfl
  | @machineBootstrapped machine m config there here ready =>
    refine inv.restarts (inv.linked.machineBootstrapped there here ready rfl rfl rfl) (fun {other c t} started => ?_)
      rfl rfl rfl rfl rfl
    refine started.mono rfl (fun there' => ?_) fun _ => id
    rcases eq_or_ne c.machine machine with its | apart
    · rw [its, there]
      rfl
    · exact (congrArg Option.isSome (Function.update_of_ne apart (some _) w.machines)).symm.trans there'
  | @specChanged name config here serverConfiguration cluster =>
    exact inv.putConfig_same here ⟨rfl, rfl, rfl, rfl⟩
  | @configDeleted name config here gone =>
    refine inv.restarts (inv.linked.collected id (fun found => (found_of_deleted found).2)
      fun {other c m} found there => ?_) (fun {other c t} started => ?_) rfl rfl rfl rfl rfl
    · have apart : other ≠ name := by
        rintro rfl
        cases here.symm.trans found
        cases gone.symm.trans there
      exact (Function.update_of_ne apart _ _).trans found
    · exact started.mono (started.here.trans (found_of_deleted started.here).2.symm) id fun _ => id
  | @secretCollected name s secret gone => exact inv.secretCollected secret gone
  | @initializedBy machine t before ready =>
    obtain ⟨_, _, starts, -⟩ := inv.linked.starts_of_initReady ready
    refine ⟨inv.linked.of_eq rfl rfl, fun after => (by cases after),
      fun started => inv.token (started.mono rfl id fun _ => id), fun after => (by cases after), fun first => ?_⟩
    cases first
    refine ⟨fun s found => ?_, fun t' member => ?_⟩
    · cases (inv.token starts).symm.trans found
      rfl
    · rw [show w.joinTokens = [] from (inv.before before).2] at member
      cases member
  | initialized before nobody =>
    exact ⟨inv.linked.of_eq rfl rfl, fun after => (by cases after),
      fun started => inv.token (started.mono rfl id fun _ => id), fun after => (by cases after),
      fun first => by cases (inv.before before).1.symm.trans first⟩

theorem Inv.start (k : K3s) (secrets : String → Option Secret) : Inv k (.start secrets) where
  linked :=
    { named := fun here => by cases here
      own := fun here => by cases here
      owner := fun there => by cases there
      only := fun here => by cases here
      bootstrapped := fun there => by cases there }
  lock := fun _ _ _ _ starts => by cases starts.here
  token := fun starts => by cases starts.here
  before := fun _ => ⟨rfl, rfl⟩
  first := fun first => by cases first

theorem inv_of_reaches (reached : Reaches k (Apart k) w) : Inv k w := by
  induction reached with
  | start secrets => exact .start k secrets
  | step _ may next inv => exact inv.step may next

/-- As long as no config is named like the token secret, the nodes agree on the token in every
state of every run. -/
theorem agreement_of_reaches {k : K3s} {w : World} (reached : Reaches k (Apart k) w) : Agreement k w :=
  (inv_of_reaches reached).agreement

/-- A cluster with short user data. -/
def shortData : K3s := ⟨"c", fun initialising t => (if initialising then "start " else "join ") ++ t⟩

/-- The first machine of the cluster has come. -/
def oneMachine (config : String) : World :=
  { World.start fun _ => none with
    machines := Function.update (fun _ => none) "first" (some ⟨config, true, none⟩)
    configs := Function.update (fun _ => none) config (some ⟨0, "first", true, none, false, none⟩)
    nextUID := 1 }

theorem oneMachine_reached (allowed : Event → Prop) (config : String)
    (may : allowed (.machineCreated "first" config)) : Reaches shortData allowed (oneMachine config) :=
  .step (.start fun _ => none) may (.machineCreated rfl rfl fun _ _ here => by cases here)

/-- The config of the first machine is reconciled. -/
def serverData (config : String) : World :=
  reconcile shortData { generated := some "t" } config (oneMachine config)

theorem serverData_ready :
    InitReady (serverData "server") "first" "t" :=
  ⟨⟨"server", true, none⟩, ⟨0, "first", true, none, true, some "server"⟩, "server",
    ⟨0, .userData true "t"⟩, by rfl, by rfl, rfl, rfl, by rfl, rfl⟩

/-- Then the control plane is initialised, and a worker comes. -/
def workerCame : World :=
  { serverData "server" with
    initialized := true
    firstToken := some "t"
    machines := Function.update (serverData "server").machines "second" (some ⟨"worker", false, none⟩)
    configs := Function.update (serverData "server").configs "worker" (some ⟨1, "second", false, none, false, none⟩)
    nextUID := 2 }

theorem workerCame_reached : Reaches shortData (Apart shortData) workerCame := by
  have server : Apart shortData (.machineCreated "first" "server") := by
    change "server" ≠ "c" ++ "-token"
    decide
  have worker : Apart shortData (.machineCreated "second" "worker") := by
    change "worker" ≠ "c" ++ "-token"
    decide
  have reconciled : Reaches shortData (Apart shortData) (serverData "server") :=
    .step (e := .reconcile "server" { generated := some "t" }) (oneMachine_reached _ "server" server) trivial
      (.reconcile _ _)
  have initialized :=
    Reaches.step (e := .controlPlaneInitialized) reconciled trivial (.initializedBy rfl serverData_ready)
  refine initialized.step worker (.machineCreated (by rfl) (by rfl) fun other c here => ?_)
  obtain rfl : other = "server" := by
    have configs : (serverData "server").configs = Function.update (Function.update (fun _ => none) "server" _)
        "server" (some ⟨0, "first", true, none, true, some "server"⟩) := rfl
    by_contra apart
    rw [show _ = _ from congrFun configs other, Function.update_of_ne apart, Function.update_of_ne apart] at here
    cases here
  cases here
  decide

/-- The worker joins with the token of the server. -/
theorem agreement_of_reaches_worker :
    (reconcile shortData { generated := none } "worker" workerCame).joinTokens = ["t"] ∧
      Agreement shortData (reconcile shortData { generated := none } "worker" workerCame) :=
  ⟨by rfl, agreement_of_reaches
    (.step (e := .reconcile "worker" { generated := none }) workerCame_reached trivial (.reconcile _ _))⟩

/-- The data of a config with the name of the token secret overwrites the token. -/
theorem tokenNamed_disagrees : Reaches shortData (fun _ => True) (serverData "c-token") ∧
    ¬ Agreement shortData (serverData "c-token") := by
  refine ⟨.step (e := .reconcile "c-token" _) (oneMachine_reached _ _ trivial) trivial (.reconcile _ _),
    fun agreement => ?_⟩
  have ready : InitReady (serverData "c-token") "first" "t" :=
    ⟨⟨"c-token", true, none⟩, ⟨0, "first", true, none, true, some "c-token"⟩, "c-token",
      ⟨0, .userData true "t"⟩, by rfl, by rfl, rfl, rfl, by rfl, rfl⟩
  have overwritten : (serverData "c-token").secrets shortData.tokenSecret = some ⟨0, .userData true "t"⟩ := by rfl
  obtain ⟨s, secret, value⟩ := agreement.token "first" "t" ready
  cases overwritten.symm.trans secret
  cases value

end KubeKey.Bootstrap
