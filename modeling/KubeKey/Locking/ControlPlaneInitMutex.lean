import KubeKey.Go.Goroutine

/-!
# The init mutex of the control plane

`ControlPlaneInitMutex` of `bootstrap/k3s/pkg/locking`: the machine whose name is in the
lock ConfigMap of the cluster is the one that may initialise the control plane. `Lock`
reads the ConfigMap, creates it if there is none, and if it names a machine that cannot be
found calls `Unlock`, which reads the ConfigMap again and deletes it, whatever it names by
then. Any number of machines make calls, one at a time each, and the single requests of
the calls interleave freely; machines can be deleted at any time.

A machine holds the lock from the return of its `Lock` with true to its next call of
`Unlock`. Two machines that exist never hold it at the same time in a run in which every
deletion removes what its call is entitled to remove (`holders_exclusive`): the
ConfigMap of the caller, or the one of the holder that was found missing. The code does
not check that, and a deletion that comes late removes the lock of a newer holder.
-/

namespace KubeKey.Locking

open KubeKey.Go

/-- The lock ConfigMap: the machine name in its lock information, `none` if that does not decode. -/
structure ConfigMap where
  machineName : Option String
deriving DecidableEq, Repr

/-- On whose account a call of `Unlock` releases the lock. -/
inductive Release where
  /-- A call of `Unlock` by the machine itself. -/
  | own
  /-- The call in `Lock`, for a holder that cannot be found. -/
  | stale (holder : String)
deriving DecidableEq, Repr

/-- The request that a machine makes next. -/
inductive Party where
  | idle
  /-- `Lock` gets the ConfigMap. -/
  | reading
  /-- `Lock` gets the machine that the ConfigMap names. -/
  | checking (holder : String)
  /-- `Lock` creates the ConfigMap. -/
  | creating
  /-- `Unlock` gets the ConfigMap. -/
  | releasing (account : Release)
  /-- `Unlock` deletes the ConfigMap. -/
  | deleting (account : Release)
deriving DecidableEq, Repr

/-- The objects of the cluster and where every machine is. -/
structure Cluster where
  configMap : Option ConfigMap
  present : String → Bool
  /-- `Lock` returned true for the machine, and it has not called `Unlock` since. -/
  holds : String → Bool
  party : String → Party

/-- Calls, and requests with whether the API server answers them. -/
inductive Request where
  | lock (machine : String)
  | unlock (machine : String)
  | getConfigMap (machine : String) (answered : Bool)
  | getMachine (machine : String) (answered : Bool)
  | create (machine : String) (answered : Bool)
  | delete (machine : String) (answered : Bool)
  | machineDeleted (machine : String)
deriving Repr

namespace Cluster

/-- Nobody has called anything yet. -/
def new (configMap : Option ConfigMap) (present : String → Bool) : Cluster :=
  ⟨configMap, present, fun _ => false, fun _ => .idle⟩

/-- The machine goes on with another request, or returns. -/
def goes (s : Cluster) (machine : String) (p : Party) : Cluster :=
  { s with party := Function.update s.party machine p }

/-- `Lock` returns true. -/
def acquires (s : Cluster) (machine : String) : Cluster :=
  { s with holds := Function.update s.holds machine true, party := Function.update s.party machine .idle }

/-- `Get` of the ConfigMap, by `Lock` or by `Unlock`. -/
def getConfigMap (s : Cluster) (machine : String) (answered : Bool) : Option Cluster :=
  match s.party machine with
  | .reading =>
    if answered = false then some (s.goes machine .idle)
    else
      match s.configMap with
      | none => some (s.goes machine .creating)
      | some ⟨none⟩ => some (s.goes machine .idle)
      | some ⟨some holder⟩ =>
        if holder = machine then some (s.acquires machine) else some (s.goes machine (.checking holder))
  | .releasing account =>
    if answered = false then some (s.goes machine .idle)
    else
      match s.configMap with
      | none => some (s.goes machine .idle)
      | some _ => some (s.goes machine (.deleting account))
  | _ => none

/-- `Get` of the machine that holds the lock. -/
def getMachine (s : Cluster) (machine : String) (answered : Bool) : Option Cluster :=
  match s.party machine with
  | .checking holder =>
    if answered = true ∧ s.present holder = false then some (s.goes machine (.releasing (.stale holder)))
    else some (s.goes machine .idle)
  | _ => none

/-- `Create` of the ConfigMap fails if there is one. -/
def create (s : Cluster) (machine : String) (answered : Bool) : Option Cluster :=
  match s.party machine with
  | .creating =>
    if answered = true ∧ s.configMap = none then
      some ({ s with configMap := some ⟨some machine⟩ }.acquires machine)
    else some (s.goes machine .idle)
  | _ => none

/-- `Delete` of the ConfigMap by its name. -/
def delete (s : Cluster) (machine : String) (answered : Bool) : Option Cluster :=
  match s.party machine with
  | .deleting _ =>
    if answered = true then some ({ s with configMap := none }.goes machine .idle)
    else some (s.goes machine .idle)
  | _ => none

/-- A step of a machine, or the deletion of one. -/
def step (s : Cluster) : Request → Option Cluster
  | .lock machine => if s.party machine = .idle then some (s.goes machine .reading) else none
  | .unlock machine =>
    if s.party machine = .idle then
      some ({ s with holds := Function.update s.holds machine false }.goes machine (.releasing .own))
    else none
  | .getConfigMap machine answered => s.getConfigMap machine answered
  | .getMachine machine answered => s.getMachine machine answered
  | .create machine answered => s.create machine answered
  | .delete machine answered => s.delete machine answered
  | .machineDeleted machine => some { s with present := Function.update s.present machine false }

/-- No two machines that exist hold the lock. -/
def Exclusive (s : Cluster) : Prop :=
  ∀ m m', s.present m = true → s.present m' = true → s.holds m = true → s.holds m' = true → m = m'

/-- The machine whose ConfigMap a call is entitled to delete. -/
def entitled (machine : String) : Release → String
  | .own => machine
  | .stale holder => holder

/-- The condition on a step: a deletion finds no ConfigMap, or the one it is entitled to delete. -/
def Entitled (s : Cluster) : Request → Prop
  | .delete machine _ =>
    ∀ account, s.party machine = .deleting account →
      s.configMap = none ∨ s.configMap = some ⟨some (entitled machine account)⟩
  | _ => True

/-- A holder that exists is in the ConfigMap, and nobody releases the lock of another that holds it. -/
structure Held (s : Cluster) : Prop where
  named : ∀ m, s.present m = true → s.holds m = true → s.configMap = some ⟨some m⟩
  own : ∀ m, s.party m = .releasing .own ∨ s.party m = .deleting .own → s.holds m = false
  stale : ∀ m h, s.party m = .releasing (.stale h) ∨ s.party m = .deleting (.stale h) → s.present h = false

namespace Held

variable {s s' : Cluster} {r : Request}

theorem new (configMap : Option ConfigMap) (present : String → Bool) : Held (Cluster.new configMap present) :=
  ⟨by simp [Cluster.new], by simp [Cluster.new], by simp [Cluster.new]⟩

theorem exclusive (held : Held s) : s.Exclusive := by
  intro m m' here here' holds holds'
  have same := (held.named m here holds).symm.trans (held.named m' here' holds')
  simpa using same

/-- A machine goes on without a change to the lock. -/
theorem goes (held : Held s) {machine : String} {p : Party}
    (own : p = .releasing .own ∨ p = .deleting .own → s.holds machine = false)
    (stale : ∀ h, p = .releasing (.stale h) ∨ p = .deleting (.stale h) → s.present h = false) :
    Held (s.goes machine p) where
  named := held.named
  own m := by
    by_cases same : m = machine
    · subst same
      simpa [Cluster.goes] using own
    · simpa [Cluster.goes, same] using held.own m
  stale m h := by
    by_cases same : m = machine
    · subst same
      simpa [Cluster.goes] using stale h
    · simpa [Cluster.goes, same] using held.stale m h

/-- `Lock` returns true for the machine that the ConfigMap names. -/
theorem acquires (held : Held s) {machine : String} (named : s.configMap = some ⟨some machine⟩) :
    Held (s.acquires machine) where
  named m here holds := by
    by_cases same : m = machine
    · subst same
      exact named
    · exact held.named m here (by simpa [Cluster.acquires, same] using holds)
  own m := by
    by_cases same : m = machine
    · subst same
      simp [Cluster.acquires]
    · simpa [Cluster.acquires, same] using held.own m
  stale m h := by
    by_cases same : m = machine
    · subst same
      simp [Cluster.acquires]
    · simpa [Cluster.acquires, same] using held.stale m h

theorem getConfigMap (held : Held s) {machine : String} {answered : Bool}
    (taken : s.getConfigMap machine answered = some s') : Held s' := by
  unfold Cluster.getConfigMap at taken
  split at taken
  · split at taken
    · cases taken
      exact held.goes (by simp) (by simp)
    · split at taken
      · cases taken
        exact held.goes (by simp) (by simp)
      · cases taken
        exact held.goes (by simp) (by simp)
      · next holder named =>
        split at taken
        · next same =>
          cases taken
          exact held.acquires (same ▸ named)
        · cases taken
          exact held.goes (by simp) (by simp)
  · next account here =>
    split at taken
    · cases taken
      exact held.goes (by simp) (by simp)
    · split at taken
      · cases taken
        exact held.goes (by simp) (by simp)
      · cases taken
        refine held.goes ?_ ?_
        · rintro (⟨⟨⟩⟩ | own)
          cases own
          exact held.own machine (.inl here)
        · rintro h (⟨⟨⟩⟩ | stale)
          cases stale
          exact held.stale machine h (.inl here)
  · cases taken

theorem getMachine (held : Held s) {machine : String} {answered : Bool}
    (taken : s.getMachine machine answered = some s') : Held s' := by
  unfold Cluster.getMachine at taken
  split at taken
  · split at taken
    · next missing =>
      cases taken
      refine held.goes (by simp) ?_
      rintro h (stale | ⟨⟨⟩⟩)
      cases stale
      exact missing.2
    · cases taken
      exact held.goes (by simp) (by simp)
  · cases taken

theorem create (held : Held s) {machine : String} {answered : Bool}
    (taken : s.create machine answered = some s') : Held s' := by
  unfold Cluster.create at taken
  split at taken
  · split at taken
    · next free =>
      cases taken
      -- with no ConfigMap there is no holder that exists
      have nobody : Held { s with configMap := some ⟨some machine⟩ } := by
        refine ⟨fun m here holds => ?_, held.own, held.stale⟩
        have named := held.named m here holds
        rw [free.2] at named
        cases named
      exact nobody.acquires rfl
    · cases taken
      exact held.goes (by simp) (by simp)
  · cases taken

theorem delete (held : Held s) {machine : String} {answered : Bool} (fair : Entitled s (.delete machine answered))
    (taken : s.delete machine answered = some s') : Held s' := by
  unfold Cluster.delete at taken
  split at taken
  · next account here =>
    split at taken
    · cases taken
      have nobody : Held { s with configMap := none } := by
        refine ⟨fun m present holds => ?_, held.own, held.stale⟩
        exfalso
        have named := held.named m present holds
        rcases fair account here with none | mine
        · rw [none] at named
          cases named
        · rw [mine] at named
          cases named
          cases account with
          | own =>
            have released := held.own machine (.inr here)
            exact absurd (show s.holds machine = true from holds) (by simp [released])
          | stale h =>
            have missing := held.stale machine h (.inr here)
            exact absurd (show s.present h = true from present) (by simp [missing])
      exact nobody.goes (by simp) (by simp)
    · cases taken
      exact held.goes (by simp) (by simp)
  · cases taken

/-- Every step that deletes only what it is entitled to keeps the holders in the ConfigMap. -/
theorem step (held : Held s) (fair : Entitled s r) (taken : s.step r = some s') : Held s' := by
  cases r with
  | lock machine =>
    simp only [Cluster.step] at taken
    split at taken
    · cases taken
      exact held.goes (by simp) (by simp)
    · cases taken
  | unlock machine =>
    simp only [Cluster.step] at taken
    split at taken
    · cases taken
      have released : Held { s with holds := Function.update s.holds machine false } := by
        refine ⟨fun m here holds => ?_, fun m account => ?_, held.stale⟩
        · by_cases same : m = machine
          · subst same
            simp at holds
          · exact held.named m here (by simpa [same] using holds)
        · by_cases same : m = machine
          · subst same
            simp
          · simpa [same] using held.own m account
      exact released.goes (by simp) (by simp)
    · cases taken
  | getConfigMap machine answered => exact held.getConfigMap taken
  | getMachine machine answered => exact held.getMachine taken
  | create machine answered => exact held.create taken
  | delete machine answered => exact held.delete fair taken
  | machineDeleted machine =>
    cases taken
    refine ⟨fun m here holds => ?_, held.own, fun m h account => ?_⟩
    · by_cases same : m = machine
      · subst same
        simp at here
      · exact held.named m (by simpa [same] using here) holds
    · by_cases same : h = machine
      · subst same
        simp
      · simpa [same] using held.stale m h account

end Held

/-- In every run whose deletions remove only what they are entitled to, from any ConfigMap and any set of machines, at
most one machine that exists holds the lock at any time. -/
theorem holders_exclusive (configMap : Option ConfigMap) (present : String → Bool) (requests : List Request)
    (s : Cluster) (fair : Along Cluster.step Entitled (Cluster.new configMap present) requests)
    (ran : run Cluster.step (Cluster.new configMap present) requests = some s) : s.Exclusive :=
  (Along.invariant (fun _ _ _ held fair taken => held.step fair taken) (Held.new configMap present) fair ran).exclusive

/-- The first machine takes the lock and is deleted; the second and the third find it missing, and the third releases
and takes the lock. -/
def takeover : List Request :=
  [.lock "a", .getConfigMap "a" true, .create "a" true, .machineDeleted "a",
   .lock "b", .getConfigMap "b" true, .getMachine "b" true, .getConfigMap "b" true,
   .lock "c", .getConfigMap "c" true, .getMachine "c" true, .getConfigMap "c" true, .delete "c" true,
   .lock "c", .getConfigMap "c" true, .create "c" true]

/-- Then the second makes its deletion after all, and takes the lock as well. -/
def lateDelete : List Request :=
  takeover ++ [.delete "b" true, .lock "b", .getConfigMap "b" true, .create "b" true]

theorem holders_exclusive_takeover :
    ∃ s, run Cluster.step (Cluster.new none fun _ => true) takeover = some s ∧ s.holds "c" = true ∧ s.Exclusive := by
  refine ⟨_, rfl, by decide, holders_exclusive none (fun _ => true) takeover _ ?_ rfl⟩
  simp [takeover, Along, Entitled, Cluster.step, Cluster.new, Cluster.goes, Cluster.acquires, Cluster.getConfigMap,
    Cluster.getMachine, Cluster.create, Cluster.delete, entitled]

theorem two_holders :
    ∃ s, run Cluster.step (Cluster.new none fun _ => true) lateDelete = some s ∧ ¬ s.Exclusive := by
  refine ⟨_, rfl, fun exclusive => ?_⟩
  have same := exclusive "b" "c" (by decide) (by decide) (by decide) (by decide)
  revert same
  decide

end Cluster

end KubeKey.Locking
