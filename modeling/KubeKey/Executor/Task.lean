import KubeKey.Executor.Block

/-!
# The task executor

`pkg/executor/task_executor.go`. A task runs on its hosts in parallel, and each
host is served by a sequence of calls to the variable store, the templates and
the module. What these calls answer depends on the other hosts; from the side of
one host the answers are arbitrary. `HostCalls` lists them, so a statement for
all answers covers every interleaving.
-/

namespace KubeKey.Executor

open KubeKey.Go KubeKey.Project

/-- The text of a Go error. The errors met here are wrapped with a constant text. -/
structure ErrText where
  text : String
  nonempty : text ≠ ""

/-- The answer of `variable.Get(GetAllVariable(host))`. -/
inductive GetReply where
  | error (e : ErrText)
  | notMap
  | vars

/-- The answers to the calls of one `executeModule`. -/
structure ItemCalls where
  /-- `ConvertMap2Node` on the item. -/
  convert : Option ErrText := none
  /-- `Merge` of the item into the variables of the host. -/
  mergeItem : Option ErrText := none
  get : GetReply := .vars
  /-- The standard output and error of the module. -/
  module : String × String := ("", "")
  /-- `tmpl.ParseBool` on the `failed_when` conditions. -/
  failedWhen : Except ErrText Bool := .ok false
  /-- `ConvertMap2Node` and `Merge` of the null that replaces the item. -/
  convertReset : Option ErrText := none
  mergeReset : Option ErrText := none

/-- The answers to the calls of one `execTaskHost`. -/
structure HostCalls where
  host : String
  get : GetReply := .vars
  /-- `tmpl.ParseBool` on the `when` conditions. -/
  when : Except ErrText Bool := .ok true
  /-- `Extension2Slice` on the loop; `none` is a null item. -/
  loop : List (Option Lit) := []
  /-- The answers for the item at each position of the loop. -/
  item : Nat → ItemCalls := fun _ => {}
  /-- `ConvertMap2Node` and `Merge` in `dealRegister`. -/
  register : Option ErrText := none

inductive TaskPhase where
  | empty | pending | running | success | failed | ignored
deriving DecidableEq, Repr

structure TaskHostResult where
  host : String
  stdout : String
  stdErr : String
deriving DecidableEq

structure TaskStatus where
  restartCount : Int := 0
  phase : TaskPhase := .empty
  hostResults : List TaskHostResult := []
deriving DecidableEq

def stdoutSkip : String := "skip"

/-- The variables `stdout` and `stderr` of `execTaskHost`. -/
structure Output where
  stdout : String := ""
  stderr : String := ""
deriving DecidableEq

/-- `tmpl.ParseBool`: the conditions in order, up to the first that is false or fails. -/
def parseBool {ε : Type} (eval : String → Except ε Bool) : List String → Except ε Bool
  | [] => .ok true
  | input :: inputs =>
    match eval input with
    | .error e => .error e
    | .ok false => .ok false
    | .ok true => parseBool eval inputs

/-- `dealWhen`: whether the host is skipped, and what is left in the output. -/
def dealWhen (task : Task) (reply : Except ErrText Bool) (out : Output) : Bool × Output :=
  if task.when.isEmpty then (false, out)
  else match reply with
    | .error e => (true, { out with stderr := "parse when condition error: " ++ e.text })
    | .ok true => (false, out)
    | .ok false => (true, { out with stdout := stdoutSkip })

/-- `dealLoop`. -/
def dealLoop (task : Task) (loop : List (Option Lit)) : List (Option Lit) :=
  if task.loop = none then [none] else loop

/-- `dealFailedWhen`. -/
def dealFailedWhen (task : Task) (reply : Except ErrText Bool) (out : Output) : Output :=
  if task.failedWhen.isEmpty then out
  else match reply with
    | .error e => { out with stderr := "parse failed_when condition error: " ++ e.text }
    | .ok true => { out with stderr := "reach failed_when, failed" }
    | .ok false => out

/-- The deferred call of `executeModule`: the item is replaced by null. -/
def cleanItem (item : Option Lit) (calls : ItemCalls) (out : Output) : Output :=
  if item.isNone then out
  else match calls.convertReset, calls.mergeReset with
    | some e, _ => { out with stderr := "convert loop item error: " ++ e.text }
    | none, some e => { out with stderr := "clean loop item to variable error: " ++ e.text }
    | none, none => out

/-- The part of `executeModule` after the item has been set. -/
def callModule (task : Task) (host : String) (calls : ItemCalls) (out : Output) : Output :=
  match calls.get with
  | .error e => { out with stderr := "failed to get host " ++ host ++ " variable: " ++ e.text }
  | .notMap => { out with stderr := "host: " ++ host ++ " variable is not a map" }
  | .vars => dealFailedWhen task calls.failedWhen ⟨calls.module.1, calls.module.2⟩

/-- `executeModule`. -/
def executeModule (task : Task) (host : String) (item : Option Lit) (calls : ItemCalls) (out : Output) : Output :=
  if item.isNone then callModule task host calls out
  else match calls.convert, calls.mergeItem with
    | some e, _ => { out with stderr := "convert loop item error: " ++ e.text }
    | none, some e => { out with stderr := "set loop item to variable error: " ++ e.text }
    | none, none => cleanItem item calls (callModule task host calls out)

/-- The loop of `execTaskHost` over the items from position `i`. -/
def executeItems (task : Task) (calls : HostCalls) : Nat → List (Option Lit) → Output → Output
  | _, [], out => out
  | i, item :: items, out =>
    executeItems task calls (i + 1) items (executeModule task calls.host item (calls.item i) out)

/-- `dealRegister`, as far as it decides the result of the host. -/
def dealRegister (task : Task) (calls : HostCalls) : Option ErrText :=
  if task.register = "" then none else calls.register

/-- The body of `execTaskHost` before its deferred calls. -/
def execTaskHostBody (task : Task) (calls : HostCalls) : Output :=
  match calls.get with
  | .error e => { stderr := "failed to get host " ++ calls.host ++ " variable: " ++ e.text }
  | reply =>
    let out : Output := match reply with
      | .notMap => { stderr := "host: " ++ calls.host ++ " variable is not a map" }
      | _ => {}
    match dealWhen task calls.when out with
    | (true, out) => out
    | (false, out) => executeItems task calls 0 (dealLoop task calls.loop) out

/-- `execTaskHost`. -/
def execTaskHost (task : Task) (calls : HostCalls) : TaskHostResult :=
  let out := execTaskHostBody task calls
  let stderr := match dealRegister task calls with
    | some e => e.text
    | none => out.stderr
  ⟨calls.host, out.stdout, stderr⟩

/-- `execTask`: one attempt on every host. -/
def execTask (task : Task) (status : TaskStatus) (calls : List HostCalls) : TaskStatus :=
  let results := calls.map (execTaskHost task)
  { status with
    hostResults := results
    phase :=
      if results.all fun data => data.stdErr = "" then .success
      else if task.ignoreError = some true then .ignored
      else .failed }

/-- The host was skipped because its `when` conditions are false. -/
def HostCalls.skipped (task : Task) (calls : HostCalls) : Prop := task.when ≠ [] ∧ calls.when = .ok false

/-- The standard error of one item: its own set-up, module run, `failed_when` and clean-up. -/
def itemStderr (task : Task) (calls : HostCalls) (i : Nat) (item : Option Lit) : String :=
  (executeModule task calls.host item (calls.item i) {}).stderr

/-- An attempt that ends with success had no failing item on any host that was not skipped. -/
def SuccessSound (task : Task) (status : TaskStatus) (calls : List HostCalls) : Prop :=
  (execTask task status calls).phase = .success → ∀ c ∈ calls, ¬ c.skipped task →
    ∀ i item, (dealLoop task c.loop)[i]? = some item → itemStderr task c i item = ""

theorem append_ne_empty {a : String} (nonempty : a ≠ "") (b : String) : a ++ b ≠ "" := by
  intro empty
  exact nonempty (String.append_eq_empty_iff.1 empty).1

theorem execTask_phase_eq_success {task : Task} {status : TaskStatus} {calls : List HostCalls} :
    (execTask task status calls).phase = .success ↔ ∀ c ∈ calls, (execTaskHost task c).stdErr = "" := by
  have all : ((calls.map (execTaskHost task)).all fun data => data.stdErr = "") = true ↔
      ∀ c ∈ calls, (execTaskHost task c).stdErr = "" := by simp
  rw [← all]
  unfold execTask
  dsimp only
  split
  · next clean => simp [clean]
  · next failed =>
    constructor
    · intro phase
      split at phase <;> cases phase
    · intro clean
      exact absurd clean failed

/-- Every path of `executeModule` assigns the standard error, so nothing of the earlier items is left. -/
theorem executeModule_stderr (task : Task) (host : String) (item : Option Lit) (calls : ItemCalls) (out : Output) :
    (executeModule task host item calls out).stderr = (executeModule task host item calls {}).stderr := by
  have module : (callModule task host calls out).stderr = (callModule task host calls {}).stderr := by
    unfold callModule
    split <;> rfl
  have cleaned : (cleanItem item calls (callModule task host calls out)).stderr =
      (cleanItem item calls (callModule task host calls {})).stderr := by
    unfold cleanItem
    split
    · exact module
    · split
      · rfl
      · rfl
      · exact module
  unfold executeModule
  split
  · exact module
  · split
    · rfl
    · rfl
    · exact cleaned

theorem executeItems_concat (task : Task) (calls : HostCalls) (items : List (Option Lit)) (item : Option Lit) :
    ∀ (i : Nat) (out : Output), executeItems task calls i (items ++ [item]) out =
      executeModule task calls.host item (calls.item (i + items.length)) (executeItems task calls i items out) := by
  induction items with
  | nil =>
    intro i out
    rfl
  | cons first rest ih =>
    intro i out
    simp only [List.cons_append, executeItems, ih, List.length_cons]
    rw [Nat.add_right_comm, Nat.add_assoc]

/-- The standard error of a host is that of its last item. -/
theorem executeItems_stderr (task : Task) (calls : HostCalls) (items : List (Option Lit)) (item : Option Lit)
    (out : Output) :
    (executeItems task calls 0 (items ++ [item]) out).stderr = itemStderr task calls items.length item := by
  rw [executeItems_concat, executeModule_stderr, Nat.zero_add]
  rfl

/-- A host without an error got its variables, evaluated its conditions and registered its result. -/
theorem execTaskHost_clean {task : Task} {calls : HostCalls} (clean : (execTaskHost task calls).stdErr = "") :
    (execTaskHostBody task calls).stderr = "" := by
  unfold execTaskHost at clean
  dsimp only at clean
  split at clean
  · next e _ => exact absurd clean e.nonempty
  · exact clean

theorem execTaskHostBody_items {task : Task} {calls : HostCalls} (clean : (execTaskHostBody task calls).stderr = "")
    (notSkipped : ¬ calls.skipped task) :
    ∃ out, execTaskHostBody task calls = executeItems task calls 0 (dealLoop task calls.loop) out := by
  unfold execTaskHostBody at clean ⊢
  split at clean
  · exact absurd clean (append_ne_empty (append_ne_empty (append_ne_empty (by decide) _) _) _)
  · next reply _ =>
    unfold dealWhen at clean ⊢
    by_cases free : task.when.isEmpty = true
    · simp only [free, if_true]
      exact ⟨_, rfl⟩
    · simp only [free, Bool.false_eq_true, if_false] at clean ⊢
      have conditional : task.when ≠ [] := by simpa using free
      cases evaluated : calls.when with
      | error e =>
        rw [evaluated] at clean
        exact absurd clean (append_ne_empty (by decide) _)
      | ok holds =>
        cases holds with
        | false => exact absurd ⟨conditional, evaluated⟩ notSkipped
        | true => exact ⟨_, rfl⟩

/-- With at most one item per host, success is sound. -/
theorem successSound_of_length_le_one {task : Task} {status : TaskStatus} {calls : List HostCalls}
    (short : ∀ c ∈ calls, (dealLoop task c.loop).length ≤ 1) : SuccessSound task status calls := by
  intro success c member notSkipped i item at_i
  have clean := execTaskHost_clean (execTask_phase_eq_success.1 success c member)
  obtain ⟨out, body⟩ := execTaskHostBody_items clean notSkipped
  obtain ⟨bound, _⟩ := List.getElem?_eq_some_iff.1 at_i
  have single := short c member
  have first : i = 0 := by omega
  subst first
  have items : dealLoop task c.loop = [] ++ [item] := by
    obtain ⟨only, eq⟩ := List.length_eq_one_iff.1 (show (dealLoop task c.loop).length = 1 by omega)
    rw [eq] at at_i ⊢
    simpa using at_i
  rw [body, items, executeItems_stderr] at clean
  exact clean

/-- Answers under which the first of several items fails and everything else succeeds. -/
def firstFails (task : Task) (host : String) (loop : List (Option Lit)) : HostCalls where
  host := host
  loop := loop
  item := fun i => if i = 0 ∧ 1 < (dealLoop task loop).length then { module := ("", "failed") } else {}

theorem executeModule_default (task : Task) (host : String) (item : Option Lit) (out : Output) :
    (executeModule task host item {} out).stderr = "" := by
  cases item with
  | none => simp [executeModule, callModule, dealFailedWhen]
  | some x => simp [executeModule, callModule, dealFailedWhen, cleanItem]

theorem execTaskHost_firstFails (task : Task) (host : String) (loop : List (Option Lit)) :
    (execTaskHost task (firstFails task host loop)).stdErr = "" := by
  have body : (execTaskHostBody task (firstFails task host loop)).stderr = "" := by
    have when : dealWhen task (.ok true) {} = (false, {}) := by simp [dealWhen]
    simp only [execTaskHostBody, firstFails, when]
    rcases List.eq_nil_or_concat (dealLoop task loop) with none | ⟨items, item, eq⟩
    · simp [none, executeItems]
    · rw [List.concat_eq_append] at eq
      rw [eq, executeItems_concat]
      -- the last of several items is not the first
      have last : ¬ (0 + items.length = 0 ∧ 1 < (items ++ [item]).length) := by
        rw [List.length_append, List.length_singleton]
        omega
      dsimp only
      rw [if_neg last]
      exact executeModule_default task host item _
  simp only [execTaskHost, dealRegister, firstFails]
  split
  · next e registered => split at registered <;> cases registered
  · exact body

theorem itemStderr_firstFails {task : Task} {host : String} {loop : List (Option Lit)}
    (several : 1 < (dealLoop task loop).length) (item : Option Lit) :
    itemStderr task (firstFails task host loop) 0 item ≠ "" := by
  have module : (callModule task host { module := ("", "failed") } {}).stderr ≠ "" := by
    simp [callModule, dealFailedWhen]
  cases item with
  | none => simpa [itemStderr, executeModule, firstFails, several] using module
  | some x => simpa [itemStderr, executeModule, firstFails, several, cleanItem] using module

/-- Success is sound for every behaviour of the store, the conditions and the modules exactly when no host
loops over two items. -/
theorem successSound_iff (task : Task) (status : TaskStatus) (hosts : List (String × List (Option Lit))) :
    (∀ calls : List HostCalls, calls.map (fun c => (c.host, c.loop)) = hosts → SuccessSound task status calls) ↔
      ∀ h ∈ hosts, (dealLoop task h.2).length ≤ 1 := by
  constructor
  · intro sound h member
    by_contra long
    have several : 1 < (dealLoop task h.2).length := by omega
    let calls := hosts.map fun h => firstFails task h.1 h.2
    have shape : calls.map (fun c => (c.host, c.loop)) = hosts := by simp [calls, firstFails, Function.comp_def]
    have success : (execTask task status calls).phase = .success := by
      rw [execTask_phase_eq_success]
      intro c inside
      obtain ⟨h', _, rfl⟩ := List.mem_map.1 inside
      exact execTaskHost_firstFails task h'.1 h'.2
    have notSkipped : ¬ (firstFails task h.1 h.2).skipped task := by
      rintro ⟨_, false⟩
      cases false
    obtain ⟨item, first⟩ : ∃ item, (dealLoop task h.2)[0]? = some item :=
      ⟨_, List.getElem?_eq_getElem (by omega)⟩
    exact itemStderr_firstFails several item
      (sound calls shape success _ (List.mem_map.2 ⟨h, member, rfl⟩) notSkipped 0 item first)
  · intro short calls shape
    apply successSound_of_length_le_one
    intro c member
    apply short (c.host, c.loop)
    rw [← shape]
    exact List.mem_map.2 ⟨c, member, rfl⟩

/-- A task that loops over two items: the first fails, the second succeeds, the task succeeds. -/
def twoItems : Task where
  name := "copy"
  hosts := ["node1"]
  loop := some "[\"a\",\"b\"]"
  module := { name := "command" }

theorem success_hides_failed_item :
    ¬ SuccessSound twoItems {} [firstFails twoItems "node1" [some (.scalar (.str "a")), some (.scalar (.str "b"))]] := by
  intro sound
  have success : (execTask twoItems {}
      [firstFails twoItems "node1" [some (.scalar (.str "a")), some (.scalar (.str "b"))]]).phase = .success := by
    decide
  have clean := sound success _ (List.mem_singleton.2 rfl) (fun skipped => by cases skipped.2) 0
    (some (.scalar (.str "a"))) rfl
  exact absurd clean (by decide)

end KubeKey.Executor
