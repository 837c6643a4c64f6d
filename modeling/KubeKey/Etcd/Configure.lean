import KubeKey.Variable.Yaml

/-!
# Configuring etcd

`cmd/kk/pkg/etcd` of the legacy `kk`: the status of the etcd hosts is collected in the cache
of the pipeline (`GetStatus`), and `ConfigureModule` then runs the tasks for a new or for an
existing cluster on them. A task calls its action on every host that its prepare step lets
through, again and again until it succeeds or its attempts are used up, and the module
stops after the first task that fails on a host. The tasks that run in parallel write
nothing that another host reads, so every task goes through the hosts in order here.

What the connections and commands answer is given in advance (`Calls`).
-/

namespace KubeKey.Etcd

/-- An IP address, as text. -/
structure InternalIP where
  text : String
  no_slash : '/' ∉ text.toList
deriving DecidableEq

/-- A host of the role `etcd`. -/
structure EtcdHost where
  name : String
  internalIPv4 : InternalIP
  /-- What `cat /etc/etcd.env | grep ETCD_NAME` prints, where the file exists. -/
  etcdEnv : Option String
deriving DecidableEq

/-- What the actions read of `KubeConf`. -/
structure EtcdConf where
  port : Int
  peerPort : Int
  etcdUpgrade : Bool

/-- `etcdEnv[strings.Index(etcdEnv, "=")+1:]`. -/
def afterEquals (etcdEnv : String) : String :=
  match etcdEnv.toList.dropWhile (· ≠ '=') with
  | [] => etcdEnv
  | _ :: rest => String.ofList rest

namespace EtcdHost

/-- `ETCDExist` in the cache of the host. -/
def etcdExist (host : EtcdHost) : Bool := host.etcdEnv.isSome

/-- `ETCDName` in the cache of the host. -/
def etcdName (host : EtcdHost) : String :=
  match host.etcdEnv with
  | some etcdEnv => afterEquals etcdEnv
  | none => "etcd-" ++ host.name

def peerURL (conf : EtcdConf) (host : EtcdHost) : String :=
  "https://" ++ host.internalIPv4.text ++ ":" ++ toString conf.peerPort

def clientURL (conf : EtcdConf) (host : EtcdHost) : String :=
  "https://" ++ host.internalIPv4.text ++ ":" ++ toString conf.port

/-- The entry of the host in the initial cluster. -/
def peerAddress (conf : EtcdConf) (host : EtcdHost) : String := host.etcdName ++ "=" ++ host.peerURL conf

end EtcdHost

/-- `EtcdCluster`. The access addresses are only put into commands. -/
structure EtcdCluster where
  clusterExist : Bool
  peerAddresses : List String

/-- `GetStatus`: what it leaves in the cache of the pipeline. -/
def getStatus (conf : EtcdConf) (cluster : Option EtcdCluster) (host : EtcdHost) : Option EtcdCluster :=
  if host.etcdExist then
    match cluster with
    | some c => some { clusterExist := true, peerAddresses := c.peerAddresses ++ [host.peerAddress conf] }
    | none => some { clusterExist := true, peerAddresses := [host.peerAddress conf] }
  else
    match cluster with
    | some c => some c
    | none => some { clusterExist := false, peerAddresses := [] }

/-- `PreCheckModule`. -/
def preCheck (conf : EtcdConf) (hosts : List EtcdHost) : Option EtcdCluster := hosts.foldl (getStatus conf) none

/-- `errors.Wrap`: nil stays nil. -/
def wrap (err : Option String) (message : String) : Option String := err.map fun e => message ++ ": " ++ e

inductive Prepare where
  | always
  | nodeETCDExist (not : Bool)
  | installOrUpgradeETCD (not : Bool)

/-- `PreCheck`. -/
def Prepare.preCheck (conf : EtcdConf) (host : EtcdHost) : Prepare → Bool
  | .always => true
  | .nodeETCDExist not => if host.etcdExist then !not else not
  | .installOrUpgradeETCD not => if !host.etcdExist || conf.etcdUpgrade then !not else not

inductive Action where
  | healthCheck
  | generateConfig
  | refreshConfig (toExisting : Bool)
  | joinMember
  | checkMember
  | restartETCD
deriving DecidableEq

/-- What the commands of one attempt answer. -/
structure Reply where
  /-- `etcdctl cluster-health`. -/
  health : Option String := none
  /-- The template of `/etc/etcd.env`. -/
  template : Option String := none
  /-- `etcdctl member add`. -/
  memberAdd : Option String := none
  /-- `systemctl restart etcd`. -/
  restart : Option String := none
  /-- `etcdctl member list`. -/
  memberList : String × Option String := ("", none)

/-- The variables of `/etc/etcd.env` that depend on the other hosts. -/
structure EtcdEnv where
  name : String
  state : String
  initialCluster : String

/-- What is done on a host and can be seen there. -/
inductive Event where
  | generated (host : EtcdHost) (initialCluster : String)
  | joined (host : EtcdHost) (initialCluster : Option String)
  | listed (host : EtcdHost) (memberList : String)

/-- The cache, the files that this run has written, and what was done. -/
structure State where
  cluster : EtcdCluster
  env : EtcdHost → Option EtcdEnv
  events : List Event

namespace State

/-- The end of `GenerateConfig`: an address that is in the cache already is not added again. -/
def addPeer (st : State) (address : String) : State :=
  if address ∈ st.cluster.peerAddresses then st
  else { st with cluster := { st.cluster with peerAddresses := st.cluster.peerAddresses ++ [address] } }

def event (st : State) (e : Event) : State := { st with events := st.events ++ [e] }

/-- `refreshConfig`. -/
def refreshConfig (st : State) (host : EtcdHost) (state : String) : State :=
  let file : EtcdEnv := ⟨host.etcdName, state, String.intercalate "," st.cluster.peerAddresses⟩
  { st with env := Function.update st.env host (some file) }

/-- `NewCluster` or `ExistCluster`. -/
def clusterState (st : State) : String := if st.cluster.clusterExist then "existing" else "new"

end State

/-- The error of an attempt. It does not depend on the state, because the cluster is in the cache. -/
def Action.error (conf : EtcdConf) (host : EtcdHost) (reply : Reply) : Action → Option String
  | .healthCheck => wrap reply.health "etcd health check failed"
  | .generateConfig => reply.template
  | .refreshConfig _ => reply.template
  | .joinMember =>
    if reply.memberAdd.isSome then wrap reply.memberAdd "add etcd member failed"
    else wrap reply.restart "start etcd failed"
  | .checkMember =>
    let (memberList, err) := reply.memberList
    if err.isSome then wrap err "list etcd member failed"
    else if !KubeKey.Variable.containsSub (host.clientURL conf).toList memberList.toList then
      wrap err "add etcd member failed"
    else none
  | .restartETCD => wrap reply.restart "start etcd failed"

/-- `Execute`: one attempt. -/
def Action.execute (conf : EtcdConf) (host : EtcdHost) (reply : Reply) (st : State) (a : Action) :
    Option String × State :=
  let err := a.error conf host reply
  match a with
  | .healthCheck => (err, st)
  | .generateConfig =>
    let st := st.addPeer (host.peerAddress conf)
    if err.isSome then (err, st)
    else
      let st := st.refreshConfig host st.clusterState
      (err, st.event (.generated host (String.intercalate "," st.cluster.peerAddresses)))
  | .refreshConfig toExisting =>
    if err.isSome then (err, st)
    else (err, st.refreshConfig host (if toExisting then "existing" else st.clusterState))
  | .joinMember =>
    if err.isSome then (err, st) else (err, st.event (.joined host ((st.env host).map EtcdEnv.initialCluster)))
  | .checkMember =>
    if reply.memberList.2.isSome then (err, st) else (err, st.event (.listed host reply.memberList.1))
  | .restartETCD => (err, st)

/-- `RemoteTask`. -/
structure Task where
  name : String
  prepare : Prepare := .always
  action : Action
  retry : Int := 0

/-- The attempts after `Default`. -/
def Task.retries (task : Task) : Nat := if task.retry ≤ 0 then 3 else task.retry.toNat

def handleNewCluster : List Task :=
  [{ name := "ExistETCDHealthCheck", prepare := .nodeETCDExist false, action := .healthCheck, retry := 20 },
   { name := "GenerateETCDConfig", prepare := .nodeETCDExist true, action := .generateConfig },
   { name := "AllRefreshETCDConfig", action := .refreshConfig false },
   { name := "RestartETCD", prepare := .nodeETCDExist true, action := .restartETCD },
   { name := "AllETCDNodeHealthCheck", action := .healthCheck, retry := 20 },
   { name := "RefreshETCDConfigToExist", action := .refreshConfig true },
   { name := "AllETCDNodeHealthCheck", action := .healthCheck, retry := 20 }]

def handleExistCluster : List Task :=
  [{ name := "ExistETCDHealthCheck", prepare := .nodeETCDExist false, action := .healthCheck, retry := 20 },
   { name := "GenerateETCDConfig", prepare := .nodeETCDExist true, action := .generateConfig },
   { name := "JoinETCDMember", prepare := .nodeETCDExist true, action := .joinMember },
   { name := "NewETCDNodeHealthCheck", prepare := .nodeETCDExist true, action := .healthCheck, retry := 20 },
   { name := "CheckETCDMember", prepare := .nodeETCDExist true, action := .checkMember },
   { name := "AllRefreshETCDConfig", prepare := .installOrUpgradeETCD false, action := .refreshConfig false },
   { name := "RestartETCD", prepare := .installOrUpgradeETCD false, action := .restartETCD },
   { name := "AllETCDNodeHealthCheck", action := .healthCheck, retry := 20 }]

/-- The answers that a task of the module gets on a host: to the connection, and in each attempt. -/
structure Calls where
  connect : Nat → EtcdHost → Option String
  reply : Nat → EtcdHost → Nat → Reply

/-- `ExecuteWithRetry`, from an attempt on. -/
def executeWithRetry (conf : EtcdConf) (a : Action) (host : EtcdHost) (reply : Nat → Reply) :
    Nat → Nat → State → Option String × State
  | 0, _, st => (some "exec failed", st)
  | remaining + 1, attempt, st =>
    match a.execute conf host (reply attempt) st with
    | (none, st) => (none, st)
    | (some e, st) =>
      if remaining = 0 then (some ("exec failed: " ++ e), st)
      else executeWithRetry conf a host reply remaining (attempt + 1) st

/-- `Run`. -/
def runOnHost (conf : EtcdConf) (calls : Calls) (k : Nat) (task : Task) (host : EtcdHost) (st : State) :
    Option String × State :=
  match calls.connect k host with
  | some e => (some ("failed to connect: " ++ e), st)
  | none =>
    if task.prepare.preCheck conf host then
      executeWithRetry conf task.action host (calls.reply k host) task.retries 0 st
    else (none, st)

/-- `Execute`: the errors of the hosts. -/
def runTask (conf : EtcdConf) (calls : Calls) (k : Nat) (task : Task) : List EtcdHost → State → List String × State
  | [], st => ([], st)
  | host :: hosts, st =>
    let (err, st) := runOnHost conf calls k task host st
    let (errs, st) := runTask conf calls k task hosts st
    (err.toList ++ errs, st)

/-- The run of a module, from a task on: whether all its tasks succeed. -/
def runTasks (conf : EtcdConf) (calls : Calls) (hosts : List EtcdHost) : Nat → List Task → State → Bool × State
  | _, [], st => (true, st)
  | k, task :: tasks, st =>
    let (errs, st) := runTask conf calls k task hosts st
    if errs.isEmpty then runTasks conf calls hosts (k + 1) tasks st else (false, st)

/-- `ConfigureModule`. -/
def configureModule (conf : EtcdConf) (calls : Calls) (hosts : List EtcdHost) (cluster : EtcdCluster) : Bool × State :=
  runTasks conf calls hosts 0 (if cluster.clusterExist then handleExistCluster else handleNewCluster)
    ⟨cluster, fun _ => none, []⟩

/-! ## What a run keeps -/

section Keeps
variable {conf : EtcdConf} {calls : Calls} {task : Task} {hosts : List EtcdHost} {k : Nat} {P : State → Prop}

theorem Action.execute_fst (a : Action) (conf : EtcdConf) (host : EtcdHost) (reply : Reply) (st : State) :
    (a.execute conf host reply st).1 = a.error conf host reply := by
  cases a <;> dsimp only [Action.execute] <;> split <;> rfl

theorem executeWithRetry_keeps {a : Action} {host : EtcdHost} {reply : Nat → Reply}
    (step : ∀ i st, P st → P (a.execute conf host (reply i) st).2) :
    ∀ {remaining attempt : Nat} {st : State}, P st →
      P (executeWithRetry conf a host reply remaining attempt st).2 := by
  intro remaining
  induction remaining with
  | zero => exact fun holds => holds
  | succ remaining ih =>
    intro attempt st holds
    have next := step attempt st holds
    rw [executeWithRetry]
    cases done : a.execute conf host (reply attempt) st with
    | mk err st' =>
      rw [done] at next
      cases err with
      | none => exact next
      | some e =>
        dsimp only
        split
        · exact next
        · exact ih next

theorem runOnHost_keeps {host : EtcdHost}
    (step : ∀ i st, P st → P (task.action.execute conf host (calls.reply k host i) st).2) {st : State} (holds : P st) :
    P (runOnHost conf calls k task host st).2 := by
  unfold runOnHost
  split
  · exact holds
  · split
    · exact executeWithRetry_keeps step holds
    · exact holds

/-- What every host keeps the task keeps. -/
theorem runTask_keeps (step : ∀ host ∈ hosts, ∀ st, P st → P (runOnHost conf calls k task host st).2) {st : State}
    (holds : P st) : P (runTask conf calls k task hosts st).2 := by
  induction hosts generalizing st with
  | nil => exact holds
  | cons host hosts ih =>
    rw [List.forall_mem_cons] at step
    exact ih step.2 (step.1 st holds)

/-- What every task keeps on every host the module keeps. -/
theorem runTasks_keeps {tasks : List Task} : ∀ {k : Nat} {st : State},
    (∀ i (inside : i < tasks.length), ∀ host ∈ hosts, ∀ st, P st →
      P (runOnHost conf calls (k + i) tasks[i] host st).2) → P st → P (runTasks conf calls hosts k tasks st).2 := by
  induction tasks with
  | nil => exact fun _ holds => holds
  | cons task tasks ih =>
    intro k st step holds
    have next : P (runTask conf calls k task hosts st).2 := runTask_keeps (step 0 (by simp)) holds
    rw [runTasks]
    dsimp only
    split
    · refine ih (fun i inside => ?_) next
      rw [Nat.add_right_comm]
      exact step (i + 1) (by simpa using inside)
    · exact next

/-- What one host brings about, and every action keeps, holds after the task. -/
theorem runTask_reaches (keeps : ∀ (a : Action) host reply st, P st → P (a.execute conf host reply st).2)
    {host : EtcdHost} (member : host ∈ hosts) (brings : ∀ st, P (runOnHost conf calls k task host st).2) (st : State) :
    P (runTask conf calls k task hosts st).2 := by
  induction hosts generalizing st with
  | nil => cases member
  | cons first hosts ih =>
    obtain rfl | later := List.mem_cons.1 member
    · have next : P (runTask conf calls k task hosts (runOnHost conf calls k task host st).2).2 :=
        runTask_keeps (fun g _ st holds => runOnHost_keeps (fun i st => keeps _ g _ st) holds) (brings st)
      exact next
    · exact ih later _

/-- What one task brings about, and every action keeps, holds after a module that succeeds. -/
theorem runTasks_reaches (keeps : ∀ (a : Action) host reply st, P st → P (a.execute conf host reply st).2)
    {tasks : List Task} : ∀ {k i : Nat} {st : State} (inside : i < tasks.length),
      (∀ st, P (runTask conf calls (k + i) tasks[i] hosts st).2) →
      (runTasks conf calls hosts k tasks st).1 = true → P (runTasks conf calls hosts k tasks st).2 := by
  induction tasks with
  | nil => exact fun inside => absurd inside (by simp)
  | cons task tasks ih =>
    intro k i st inside brings success
    rw [runTasks] at success ⊢
    dsimp only at success ⊢
    split
    · next passed =>
      rw [if_pos passed] at success
      cases i with
      | zero =>
        exact runTasks_keeps (fun i _ g _ st holds => runOnHost_keeps (fun j st => keeps _ g _ st) holds) (brings st)
      | succ i =>
        refine ih (by simpa using inside) (fun st => ?_) success
        rw [Nat.add_right_comm]
        exact brings st
    · next failed =>
      rw [if_neg failed] at success
      cases success

end Keeps

/-- A module ends after its first task, or goes on with the others. -/
theorem runTasks_cons (conf : EtcdConf) (calls : Calls) (hosts : List EtcdHost) (k : Nat) (task : Task)
    (tasks : List Task) (st : State) :
    (runTask conf calls k task hosts st).1 = [] ∧ runTasks conf calls hosts k (task :: tasks) st =
        runTasks conf calls hosts (k + 1) tasks (runTask conf calls k task hosts st).2 ∨
      (runTask conf calls k task hosts st).1 ≠ [] ∧
        runTasks conf calls hosts k (task :: tasks) st = (false, (runTask conf calls k task hosts st).2) := by
  rw [runTasks]
  dsimp only
  cases (runTask conf calls k task hosts st).1 with
  | nil => exact .inl ⟨rfl, rfl⟩
  | cons err errs => exact .inr ⟨by simp, rfl⟩

/-! ## Actions that fail without a trace -/

section Retry
variable {conf : EtcdConf} {a : Action} {host : EtcdHost} {st : State}

/-- Only `GenerateConfig` leaves something when it fails. -/
theorem Action.execute_failed (other : a ≠ .generateConfig) {reply : Reply} {e : String}
    (error : a.error conf host reply = some e) : a.execute conf host reply st = (some e, st) := by
  cases a with
  | generateConfig => exact absurd rfl other
  | healthCheck => rw [Action.execute, error]
  | restartETCD => rw [Action.execute, error]
  | refreshConfig toExisting => rw [Action.execute, error, if_pos Option.isSome_some]
  | joinMember => rw [Action.execute, error, if_pos Option.isSome_some]
  | checkMember =>
    have failed : reply.memberList.2.isSome := by
      by_contra answered
      rw [Option.not_isSome_iff_eq_none] at answered
      simp [Action.error, answered, wrap] at error
    rw [Action.execute, error, if_pos failed]

/-- Its attempts change the state once, when the first of them succeeds. -/
theorem executeWithRetry_cases (conf : EtcdConf) (host : EtcdHost) (st : State) (other : a ≠ .generateConfig)
    (reply : Nat → Reply) : ∀ remaining attempt : Nat,
      (∃ i < remaining, (∀ j < i, a.error conf host (reply (attempt + j)) ≠ none) ∧
        a.error conf host (reply (attempt + i)) = none ∧
        executeWithRetry conf a host reply remaining attempt st =
          (none, (a.execute conf host (reply (attempt + i)) st).2)) ∨
      ∃ e, executeWithRetry conf a host reply remaining attempt st = (some e, st) := by
  intro remaining
  induction remaining with
  | zero => exact fun _ => .inr ⟨_, rfl⟩
  | succ remaining ih =>
    intro attempt
    rw [executeWithRetry]
    cases first : a.error conf host (reply attempt) with
    | none =>
      refine .inl ⟨0, by omega, fun j lt => absurd lt (by omega), first, ?_⟩
      have result : a.execute conf host (reply attempt) st = (none, (a.execute conf host (reply attempt) st).2) :=
        Prod.ext ((a.execute_fst conf host (reply attempt) st).trans first) rfl
      rw [result]
      rfl
    | some e =>
      rw [a.execute_failed other first]
      dsimp only
      split
      · exact .inr ⟨_, rfl⟩
      · obtain ⟨i, lt, before, passed, run⟩ | failed := ih (attempt + 1)
        · refine .inl ⟨i + 1, by omega, fun j earlier => ?_, ?_, ?_⟩
          · cases j with
            | zero =>
              rw [Nat.add_zero, first]
              simp
            | succ j =>
              have next := before j (by omega)
              rwa [Nat.add_right_comm] at next
          · rwa [Nat.add_right_comm] at passed
          · rw [Nat.add_right_comm] at run
            exact run
        · exact .inr failed

end Retry

/-- A task for the hosts without etcd leaves the others alone, and those it cannot connect to. -/
theorem runOnHost_cases (conf : EtcdConf) (calls : Calls) (k : Nat) {task : Task}
    (prepare : task.prepare = .nodeETCDExist true) (host : EtcdHost) (st : State) :
    (host.etcdExist = true ∨ calls.connect k host ≠ none) ∧ (runOnHost conf calls k task host st).2 = st ∨
      host.etcdExist = false ∧ calls.connect k host = none ∧ runOnHost conf calls k task host st =
        executeWithRetry conf task.action host (calls.reply k host) task.retries 0 st := by
  unfold runOnHost
  cases calls.connect k host with
  | some e => exact .inl ⟨.inr (by simp), rfl⟩
  | none =>
    dsimp only
    rw [prepare]
    cases new : host.etcdExist with
    | true =>
      have skipped : Prepare.preCheck conf host (.nodeETCDExist true) = false := by simp [Prepare.preCheck, new]
      exact .inl ⟨.inl rfl, by rw [skipped]; rfl⟩
    | false =>
      have runs : Prepare.preCheck conf host (.nodeETCDExist true) = true := by simp [Prepare.preCheck, new]
      exact .inr ⟨rfl, rfl, if_pos runs⟩

/-! ## When a run succeeds -/

/-- The task succeeds on the host: it connects, and one of the attempts has no error. -/
def Passes (conf : EtcdConf) (calls : Calls) (k : Nat) (task : Task) (host : EtcdHost) : Prop :=
  calls.connect k host = none ∧ (task.prepare.preCheck conf host = true →
    ∃ i < task.retries, task.action.error conf host (calls.reply k host i) = none)

section Succeeds
variable {conf : EtcdConf} {calls : Calls} {task : Task} {hosts : List EtcdHost} {k : Nat}

theorem executeWithRetry_none_iff {a : Action} {host : EtcdHost} {reply : Nat → Reply} :
    ∀ {remaining attempt : Nat} {st : State}, (executeWithRetry conf a host reply remaining attempt st).1 = none ↔
      ∃ i < remaining, a.error conf host (reply (attempt + i)) = none := by
  intro remaining
  induction remaining with
  | zero => simp [executeWithRetry]
  | succ remaining ih =>
    intro attempt st
    have err := a.execute_fst conf host (reply attempt) st
    rw [executeWithRetry]
    cases done : a.execute conf host (reply attempt) st with
    | mk err' st' =>
      rw [done] at err
      dsimp only at err
      subst err
      cases first : a.error conf host (reply attempt) with
      | none => exact iff_of_true rfl ⟨0, by omega, first⟩
      | some e =>
        have shift : (∃ i < remaining + 1, a.error conf host (reply (attempt + i)) = none) ↔
            ∃ i < remaining, a.error conf host (reply (attempt + 1 + i)) = none := by
          constructor
          · rintro ⟨i, lt, passed⟩
            cases i with
            | zero =>
              rw [Nat.add_zero, first] at passed
              cases passed
            | succ i => exact ⟨i, by omega, by rwa [Nat.add_right_comm]⟩
          · rintro ⟨i, lt, passed⟩
            exact ⟨i + 1, by omega, by rwa [Nat.add_right_comm] at passed⟩
        rw [shift]
        dsimp only
        split
        · next last =>
          subst last
          simp
        · exact ih

theorem runOnHost_none_iff {host : EtcdHost} (st : State) :
    (runOnHost conf calls k task host st).1 = none ↔ Passes conf calls k task host := by
  unfold runOnHost Passes
  cases calls.connect k host with
  | some e => simp
  | none =>
    dsimp only
    split
    · next checked =>
      rw [executeWithRetry_none_iff]
      simp [checked]
    · next skipped => simp [skipped]

theorem runTask_nil_iff (st : State) :
    (runTask conf calls k task hosts st).1 = [] ↔ ∀ host ∈ hosts, Passes conf calls k task host := by
  induction hosts generalizing st with
  | nil => simp [runTask]
  | cons host hosts ih =>
    rw [runTask]
    dsimp only
    rw [List.append_eq_nil_iff, ih, List.forall_mem_cons, ← runOnHost_none_iff st]
    simp

/-- A module succeeds exactly if each of its tasks does on every host. -/
theorem runTasks_fst_iff {tasks : List Task} :
    ∀ {k : Nat} {st : State}, (runTasks conf calls hosts k tasks st).1 = true ↔
      ∀ i (inside : i < tasks.length), ∀ host ∈ hosts, Passes conf calls (k + i) tasks[i] host := by
  induction tasks with
  | nil => simp [runTasks]
  | cons task tasks ih =>
    intro k st
    have shift : (∀ i (inside : i < (task :: tasks).length), ∀ host ∈ hosts,
        Passes conf calls (k + i) (task :: tasks)[i] host) ↔ (∀ host ∈ hosts, Passes conf calls k task host) ∧
          ∀ i (inside : i < tasks.length), ∀ host ∈ hosts, Passes conf calls (k + 1 + i) tasks[i] host := by
      constructor
      · intro all
        refine ⟨all 0 (by simp), fun i inside => ?_⟩
        rw [Nat.add_right_comm]
        exact all (i + 1) (by simpa using inside)
      · rintro ⟨first, rest⟩ i inside
        cases i with
        | zero => exact first
        | succ i =>
          have next := rest i (by simpa using inside)
          rwa [Nat.add_right_comm] at next
    rw [shift, runTasks, ← runTask_nil_iff st]
    dsimp only
    split
    · next passed =>
      rw [ih]
      simp [List.isEmpty_iff.1 passed]
    · next failed =>
      have some_err : (runTask conf calls k task hosts st).1 ≠ [] := fun none => failed (by rw [none]; rfl)
      simp [some_err]

end Succeeds

end KubeKey.Etcd
