import Mathlib.Data.List.Perm.Subperm
import KubeKey.Core.RemoteTask

/-!
# One verdict per host

When `Execute` has returned, the results of the task should name every host it ran on
exactly once, for good, and the status of the task should agree with them. The status
always does. The entries do if and only if, in the run, no waiter gave up on a worker that
had recorded its verdict already and no worker recorded a verdict after its waiter had
stopped waiting (`verdict_of_run`): a timeout that races a finishing worker leaves two
entries for one host.

The wait group is correct in every run (`Joins`): `Execute` joins all waiters and nothing
panics. The entries are counted by the actions that record one (`recorded`).
-/

namespace KubeKey.Core

open KubeKey.Go

/-- The number of hosts the loop has dealt with, of `n`. -/
def Main.position (n : Nat) : Main → Nat
  | .loop i | .added i => i
  | .called i => i + 1
  | _ => n

/-- `Execute` has waited for its waiters. -/
def Main.joined : Main → Bool
  | .judging | .settling _ | .cancelling | .closing | .returned => true
  | _ => false

/-- `Execute` has settled the status of the task. -/
def Main.settled : Main → Bool
  | .cancelling | .closing | .returned => true
  | _ => false

/-- The waiter has stopped waiting, and has recorded what it had to. -/
def Waiter.past : Waiter → Bool
  | .leaving | .finishing | .finished => true
  | _ => false

namespace RemoteTask

variable {t : RemoteTask} {rt : BaseRuntime} {s s' : Execution} {a : ExecAct}

/-- The wait group counts the waiters under way, and the loop starts a waiter for each job it passes. -/
structure Joins (t : RemoteTask) (rt : BaseRuntime) (s : Execution) : Prop where
  counts : Counts s.shared.counter fun i => s.main = .added i ∨ (s.waiter i).live = true
  started : ∀ i, s.waiter i ≠ .idle → t.Job rt i ∧ i < s.main.position t.hosts.length
  visited : ∀ i, t.Job rt i → i < s.main.position t.hosts.length → s.waiter i ≠ .idle
  adds : ∀ i, s.main = .added i → t.Job rt i
  joined : s.main.joined = true → ∀ i, t.Job rt i → s.waiter i = .finished
  closed : s.shared.closed = true → s.main.joined = true
  fine : s.shared.panicked = false

theorem Job.lt {i : Nat} (job : t.Job rt i) : i < t.hosts.length := by
  obtain ⟨h, host, -⟩ := job
  exact (List.getElem?_eq_some_iff.mp host).1

namespace Joins

theorem new (t : RemoteTask) (rt : BaseRuntime) : Joins t rt Execution.new where
  counts := Counts.zero (by simp [Execution.new, Waiter.live])
  started := by simp [Execution.new]
  visited := by simp [Execution.new, Main.position]
  adds := by simp [Execution.new]
  joined := by simp [Execution.new, Main.joined]
  closed := by simp [Execution.new, Shared.new]
  fine := rfl

theorem not_idle_of_live {i : Nat} (live : (s.waiter i).live = true) : s.waiter i ≠ .idle := by
  intro idle
  rw [idle] at live
  cases live

/-- While a waiter is under way, `Execute` has not joined. -/
theorem not_joined (joins : Joins t rt s) {i : Nat} (live : (s.waiter i).live = true) : s.main.joined = false := by
  rw [Bool.eq_false_iff]
  intro joined
  have ended := joins.joined joined i (joins.started i (not_idle_of_live live)).1
  rw [ended] at live
  cases live

/-- A waiter that is about to start has not been started before. -/
theorem added_idle (joins : Joins t rt s) {i : Nat} (here : s.main = .added i) : s.waiter i = .idle := by
  by_contra busy
  have below := (joins.started i busy).2
  rw [here] at below
  exact absurd below (lt_irrefl i)

/-- A step of a waiter that stays under way. -/
theorem move (joins : Joins t rt s) {i : Nat} {w : Waiter} {shared : Shared} {worker : Nat → Worker}
    {result : TaskResult} (live : (s.waiter i).live = true) (still : w.live = true)
    (counter : shared.counter = s.shared.counter) (closed : shared.closed = s.shared.closed)
    (fine : shared.panicked = false) :
    Joins t rt { main := s.main, waiter := Function.update s.waiter i w, worker, shared, result } where
  counts := by
    show Counts shared.counter _
    rw [counter]
    refine joins.counts.congr fun j => ?_
    by_cases same : j = i
    · subst same
      simp [live, still]
    · simp [same]
  started := by
    intro j busy
    refine joins.started j ?_
    by_cases same : j = i
    · subst same
      exact not_idle_of_live live
    · simpa [same] using busy
  visited := by
    intro j job below
    have busy := joins.visited j job below
    by_cases same : j = i
    · subst same
      intro idle
      simp only [Function.update_self] at idle
      rw [idle] at still
      cases still
    · simpa [same] using busy
  adds := joins.adds
  joined := by
    intro joined
    rw [joins.not_joined live] at joined
    cases joined
  closed := by
    show shared.closed = true → _
    rw [closed]
    exact joins.closed
  fine := fine

/-- A step of the main goroutine between two points that add no job. -/
theorem control (joins : Joins t rt s) {m : Main} {shared : Shared} {result : TaskResult}
    (before : ∀ j, s.main ≠ .added j) (after : ∀ j, m ≠ .added j)
    (position : ∀ j, t.Job rt j → (j < m.position t.hosts.length ↔ j < s.main.position t.hosts.length))
    (joined : m.joined = true → ∀ i, t.Job rt i → s.waiter i = .finished)
    (counter : shared.counter = s.shared.counter) (closed : shared.closed = true → m.joined = true)
    (fine : shared.panicked = false) :
    Joins t rt { main := m, waiter := s.waiter, worker := s.worker, shared, result } where
  counts := by
    show Counts shared.counter _
    rw [counter]
    exact joins.counts.congr fun j => by simp [before j, after j]
  started := by
    intro j busy
    obtain ⟨job, below⟩ := joins.started j busy
    exact ⟨job, (position j job).mpr below⟩
  visited := fun j job below => joins.visited j job ((position j job).mp below)
  adds := fun j here => absurd here (after j)
  joined := joined
  closed := closed
  fine := fine

/-- The loop adds a job. -/
theorem add (joins : Joins t rt s) {i : Nat} (here : s.main = .loop i) (job : t.Job rt i) :
    Joins t rt { s with main := .added i, shared := s.shared.add } where
  counts := by
    refine joins.counts.add (i := i) ?_ fun j => ?_
    · rintro (adding | live)
      · rw [here] at adding
        cases adding
      · have below := (joins.started i (not_idle_of_live live)).2
        rw [here] at below
        exact absurd below (lt_irrefl i)
    · rw [here]
      simp only [Main.added.injEq, reduceCtorEq, false_or]
      exact or_congr eq_comm Iff.rfl
  started := by
    intro j busy
    have := joins.started j busy
    rwa [here] at this
  visited := by
    intro j other below
    refine joins.visited j other ?_
    rw [here]
    exact below
  adds := by
    rintro j ⟨⟩
    exact job
  joined := by
    rintro ⟨⟩
  closed := by
    intro closed
    have := joins.closed closed
    rw [here] at this
    cases this
  fine := joins.fine

/-- The loop starts the waiter of the job it added. -/
theorem start (joins : Joins t rt s) {i : Nat} (here : s.main = .added i) :
    Joins t rt { s with main := if t.parallel then .loop (i + 1) else .called i,
                        waiter := Function.update s.waiter i .entering } := by
  have position : (if t.parallel then Main.loop (i + 1) else .called i).position t.hosts.length = i + 1 := by
    split <;> rfl
  have notJoined : (if t.parallel then Main.loop (i + 1) else .called i).joined = false := by
    split <;> rfl
  have adding : ∀ j, (if t.parallel then Main.loop (i + 1) else .called i) ≠ .added j := by
    intro j
    split <;> simp
  constructor
  · refine joins.counts.congr fun j => ?_
    by_cases same : j = i
    · subst same
      simp [here, Waiter.live]
    · simp [here, adding j, same, Ne.symm same]
  · intro j busy
    rw [position]
    by_cases same : j = i
    · subst same
      exact ⟨joins.adds j here, Nat.lt_succ_self j⟩
    · obtain ⟨job, below⟩ := joins.started j (by simpa [same] using busy)
      rw [here] at below
      exact ⟨job, Nat.lt_succ_of_lt below⟩
  · intro j job below
    rw [position] at below
    by_cases same : j = i
    · subst same
      simp
    · simp only [ne_eq, same, not_false_eq_true, Function.update_of_ne]
      refine joins.visited j job ?_
      rw [here]
      exact lt_of_le_of_ne (Nat.le_of_lt_succ below) same
  · exact fun j start => absurd start (adding j)
  · intro joined
    rw [notJoined] at joined
    cases joined
  · intro closed
    have := joins.closed closed
    rw [here] at this
    cases this
  · exact joins.fine

/-- A waiter that is counted finishes. -/
theorem finish (joins : Joins t rt s) {i : Nat} (here : s.waiter i = .finishing) :
    Joins t rt { s with shared := s.shared.done, waiter := Function.update s.waiter i .finished } := by
  have live : (s.waiter i).live = true := by rw [here]; rfl
  have notAdding : s.main ≠ .added i := by
    intro adding
    have idle := joins.added_idle adding
    rw [here] at idle
    cases idle
  constructor
  · refine joins.counts.done (i := i) (.inr live) fun j => ?_
    by_cases same : j = i
    · subst same
      simp [Waiter.live, notAdding]
    · simp [same]
  · intro j busy
    refine joins.started j ?_
    by_cases same : j = i
    · subst same
      exact not_idle_of_live live
    · simpa [same] using busy
  · intro j job below
    by_cases same : j = i
    · subst same
      simp
    · simpa [same] using joins.visited j job below
  · exact joins.adds
  · intro joined
    rw [joins.not_joined live] at joined
    cases joined
  · exact joins.closed
  · have pos := joins.counts.pos (i := i) (.inr live)
    simp only [Shared.done, joins.fine, Bool.false_or, decide_eq_false_iff_not]
    omega

theorem open_of_not_joined (joins : Joins t rt s) (here : s.main.joined = false) : s.shared.closed = false := by
  rw [Bool.eq_false_iff]
  intro closed
  rw [joins.closed closed] at here
  cases here

/-- Every step keeps the wait group right. -/
theorem step (joins : Joins t rt s) (next : Next t rt s a s') : Joins t rt s' := by
  have fine := joins.fine
  cases next with
  | @ended i here none =>
    have notJoined : s.main.joined = false := by rw [here]; rfl
    refine joins.control (by simp [here]) (by simp) ?_ (by rintro ⟨⟩) rfl ?_ fine
    · intro j job
      have outside := List.getElem?_eq_none_iff.mp none
      have inside := job.lt
      simp only [here, Main.position]
      omega
    · simp [joins.open_of_not_joined notJoined]
  | @skipped i h here host skips =>
    have notJoined : s.main.joined = false := by rw [here]; rfl
    refine joins.control (by simp [here]) (by simp) ?_ (by rintro ⟨⟩) rfl ?_ fine
    · rintro j ⟨h', host', runs⟩
      have other : j ≠ i := by
        rintro rfl
        cases host.symm.trans host'
        rw [skips] at runs
        cases runs
      simp only [here, Main.position]
      omega
    · simp [joins.open_of_not_joined notJoined]
  | added here job => exact joins.add here job
  | started here => exact joins.start here
  | @resumed i here ended =>
    have notJoined : s.main.joined = false := by rw [here]; rfl
    refine joins.control (by simp [here]) (by simp) (by simp [here, Main.position]) (by rintro ⟨⟩) rfl ?_ fine
    simp [joins.open_of_not_joined notJoined]
  | joined here zero =>
    refine joins.control (by simp [here]) (by simp) (by simp [here, Main.position]) ?_ rfl (fun _ => rfl) fine
    intro _ i job
    have idle := (zero ▸ joins.counts).none_live i
    have busy := joins.visited i job (by rw [here]; exact job.lt)
    generalize s.waiter i = w at idle busy
    cases w <;> simp_all [Waiter.live]
  | judged here =>
    exact joins.control (by simp [here]) (by simp) (by simp [here, Main.position])
      (fun _ => joins.joined (by rw [here]; rfl)) rfl (fun _ => rfl) fine
  | settled here =>
    exact joins.control (by simp [here]) (by simp) (by simp [here, Main.position])
      (fun _ => joins.joined (by rw [here]; rfl)) rfl (fun _ => rfl) fine
  | cancelled here =>
    exact joins.control (by simp [here]) (by simp) (by simp [here, Main.position])
      (fun _ => joins.joined (by rw [here]; rfl)) rfl (fun _ => rfl) fine
  | closed here =>
    exact joins.control (by simp [here]) (by simp) (by simp [here, Main.position])
      (fun _ => joins.joined (by rw [here]; rfl)) rfl (fun _ => rfl) fine
  | @entered i shared here counter closed panics =>
    have live : (s.waiter i).live = true := by rw [here]; rfl
    refine joins.move live rfl counter closed ?_
    rw [Bool.eq_false_iff]
    intro panicked
    have := joins.closed (panics panicked)
    rw [joins.not_joined live] at this
    cases this
  | timedOut here => exact joins.move (by rw [here]; rfl) rfl rfl rfl fine
  | received here sends => exact joins.move (by rw [here]; rfl) rfl rfl rfl fine
  | receivedErr here sends => exact joins.move (by rw [here]; rfl) rfl rfl rfl fine
  | reported here => exact joins.move (by rw [here]; rfl) rfl rfl rfl fine
  | left here counter closed panics => exact joins.move (by rw [here]; rfl) rfl counter closed (panics.trans fine)
  | finished here => exact joins.finish here
  | worked works here goes =>
    exact ⟨joins.counts, joins.started, joins.visited, joins.adds, joins.joined, joins.closed, fine⟩
  | appended here host passed =>
    exact ⟨joins.counts, joins.started, joins.visited, joins.adds, joins.joined, joins.closed, fine⟩
  | ticked =>
    exact ⟨joins.counts, joins.started, joins.visited, joins.adds, joins.joined, joins.closed, fine⟩

end Joins

/-- The jobs that the actions so far recorded a result for. -/
def recorded (past : List ExecAct) : List Nat := past.filterMap ExecAct.records

/-- The condition on a step: a waiter does not give up on a worker that has recorded its verdict, and a worker records
its verdict while its waiter waits for it. -/
def InTime (s : Execution) : ExecAct → Prop
  | .timeout i => s.worker i ≠ .sending none
  | .append i => s.waiter i = .selecting
  | _ => True

/-- What a step can do to one job, with the number of results it records for it. -/
inductive Turn (timely : Prop) : Waiter → Worker → Nat → Waiter → Worker → Prop where
  | stay (w : Waiter) (k : Worker) : Turn timely w k 0 w k
  | start (k : Worker) : Turn timely .idle k 0 .entering k
  | enter (k : Worker) : Turn timely .entering k 0 .selecting .connecting
  | timeOut (k : Worker) (err : String) (early : timely → k ≠ .sending none) :
      Turn timely .selecting k 0 (.failing err) k
  | receive : Turn timely .selecting (.sending none) 0 .leaving .sent
  | receiveErr (err : String) : Turn timely .selecting (.sending (some err)) 0 (.failing err) .sent
  | report (err : String) (k : Worker) : Turn timely (.failing err) k 1 .leaving k
  | leave (k : Worker) : Turn timely .leaving k 0 .finishing k
  | finish (k : Worker) : Turn timely .finishing k 0 .finished k
  | work (w : Waiter) {k k' : Worker} (here : k.working = true) (goes : k'.undecided = true) : Turn timely w k 0 w k'
  | append (w : Waiter) {k : Worker} (here : k.undecided = true) (waits : timely → w = .selecting) :
      Turn timely w k 1 w (.sending none)

theorem records_of_works (works : a.works = true) : a.records = none := by
  cases a with
  | connect | check | execute => rfl
  | _ => cases works

theorem recorded_append (past : List ExecAct) (a : ExecAct) :
    recorded (past ++ [a]) = recorded past ++ a.records.toList := by
  simp only [recorded, List.filterMap_append, List.filterMap_cons, List.filterMap_nil]
  cases a.records <;> rfl

theorem count_recorded (past : List ExecAct) (a : ExecAct) (i : Nat) :
    (recorded (past ++ [a])).count i = (recorded past).count i + if a.records = some i then 1 else 0 := by
  rw [recorded_append, List.count_append]
  cases a.records with
  | none => simp
  | some j => simp [List.count_singleton]

/-- A step that moves one job is a turn for every job. -/
theorem turn_update {timely : Prop} {waiter : Nat → Waiter} {worker : Nat → Worker} {j n : Nat} {w : Waiter} {k : Worker}
    (turn : Turn timely (waiter j) (worker j) n w k) (i : Nat) :
    Turn timely (waiter i) (worker i) (if j = i then n else 0) (Function.update waiter j w i)
      (Function.update worker j k i) := by
  by_cases same : j = i
  · subst same
    simpa using turn
  · simp only [same, if_false, ne_eq, Ne.symm same, not_false_eq_true, Function.update_of_ne]
    exact .stay _ _

/-- Every step is a turn for every job. -/
theorem turn_of_next (joins : Joins t rt s) (next : Next t rt s a s') (i : Nat) :
    Turn (InTime s a) (s.waiter i) (s.worker i) (if a.records = some i then 1 else 0) (s'.waiter i) (s'.worker i) := by
  cases next with
  | ended | skipped | added | resumed | joined | judged | settled | cancelled | closed | ticked =>
    exact .stay _ _
  | @started j here =>
    have turn : Turn True (s.waiter j) (s.worker j) 0 .entering (s.worker j) := by
      rw [joins.added_idle here]
      exact .start _
    simpa [InTime, ExecAct.records] using turn_update turn i
  | @entered j shared here =>
    have turn : Turn True (s.waiter j) (s.worker j) 0 .selecting .connecting := by
      rw [here]
      exact .enter _
    simpa [InTime, ExecAct.records] using turn_update turn i
  | @timedOut j err here =>
    have turn : Turn (InTime s (.timeout j)) (s.waiter j) (s.worker j) 0 (.failing err) (s.worker j) := by
      rw [here]
      exact .timeOut _ _ id
    simpa [ExecAct.records] using turn_update turn i
  | @received j here sends =>
    have turn : Turn True (s.waiter j) (s.worker j) 0 .leaving .sent := by
      rw [here, sends]
      exact .receive
    simpa [InTime, ExecAct.records] using turn_update turn i
  | @receivedErr j err here sends =>
    have turn : Turn True (s.waiter j) (s.worker j) 0 (.failing err) .sent := by
      rw [here, sends]
      exact .receiveErr _
    simpa [InTime, ExecAct.records] using turn_update turn i
  | @reported j err here =>
    have turn : Turn True (s.waiter j) (s.worker j) 1 .leaving (s.worker j) := by
      rw [here]
      exact .report _ _
    simpa [InTime, ExecAct.records] using turn_update turn i
  | @left j shared here =>
    have turn : Turn True (s.waiter j) (s.worker j) 0 .finishing (s.worker j) := by
      rw [here]
      exact .leave _
    simpa [InTime, ExecAct.records] using turn_update turn i
  | @finished j here =>
    have turn : Turn True (s.waiter j) (s.worker j) 0 .finished (s.worker j) := by
      rw [here]
      exact .finish _
    simpa [InTime, ExecAct.records] using turn_update turn i
  | @worked j a k works here goes =>
    have quiet := records_of_works works
    have turn : Turn (InTime s a) (s.waiter j) (s.worker j) 0 (s.waiter j) k := .work _ here goes
    simpa [quiet] using turn_update turn i
  | @appended j r here host passed =>
    have turn : Turn (InTime s (.append j)) (s.waiter j) (s.worker j) 1 (s.waiter j) (.sending none) :=
      .append _ here id
    simpa [ExecAct.records] using turn_update turn i

/-- What every run knows of a job with `c` recorded results. -/
structure Stage (w : Waiter) (k : Worker) (c : Nat) : Prop where
  fresh : w = .idle ∨ w = .entering → k = .idle
  known : 1 ≤ c → w ≠ .idle
  verdict : k = .sending none → 1 ≤ c
  past : w.past = true → 1 ≤ c

/-- What a run in time knows: no result before the verdict, one after it. -/
def OnTime (w : Waiter) (k : Worker) (c : Nat) : Prop :=
  match w with
  | .idle | .entering => k = .idle ∧ c = 0
  | .selecting => k ≠ .sent ∧ c = if k = .sending none then 1 else 0
  | .failing _ => c = 0
  | _ => c = 1

/-- The job has, or will have, two results. -/
def Doubled (w : Waiter) (c : Nat) : Prop :=
  match w with
  | .failing _ => 1 ≤ c
  | .leaving | .finishing | .finished => 2 ≤ c
  | _ => False

variable {timely : Prop} {w w' : Waiter} {k k' : Worker} {c n : Nat}

theorem Stage.turn (stage : Stage w k c) (turn : Turn timely w k n w' k') : Stage w' k' (c + n) := by
  obtain ⟨fresh, known, verdict, past⟩ := stage
  cases turn with
  | stay => exact ⟨fresh, known, verdict, past⟩
  | start => exact ⟨fun _ => fresh (.inl rfl), fun _ => by simp, verdict, by simp [Waiter.past]⟩
  | enter => exact ⟨by simp, by simp, by simp, by simp [Waiter.past]⟩
  | timeOut => exact ⟨by simp, by simp, verdict, by simp [Waiter.past]⟩
  | receive => exact ⟨by simp, by simp, by simp, fun _ => verdict rfl⟩
  | receiveErr => exact ⟨by simp, by simp, by simp, by simp [Waiter.past]⟩
  | report => exact ⟨by simp, by simp, fun _ => by omega, fun _ => by omega⟩
  | leave => exact ⟨by simp, by simp, verdict, fun _ => past rfl⟩
  | finish => exact ⟨by simp, by simp, verdict, fun _ => past rfl⟩
  | work w here goes =>
    refine ⟨fun early => ?_, known, ?_, past⟩
    · rw [fresh early] at here
      cases here
    · rintro rfl
      cases goes
  | append w here waits =>
    refine ⟨fun early => ?_, fun _ idle => ?_, fun _ => by omega, fun _ => by omega⟩
    · rw [fresh early] at here
      cases here
    · rw [fresh (.inl idle)] at here
      cases here

theorem OnTime.turn (onTime : OnTime w k c) (intime : timely) (turn : Turn timely w k n w' k') :
    OnTime w' k' (c + n) := by
  cases turn with
  | stay => exact onTime
  | start => exact onTime
  | enter =>
    obtain ⟨-, rfl⟩ := onTime
    exact ⟨by simp, by simp⟩
  | timeOut _ err early =>
    obtain ⟨-, rfl⟩ := onTime
    simp [OnTime, early intime]
  | receive =>
    obtain ⟨-, rfl⟩ := onTime
    rfl
  | receiveErr =>
    obtain ⟨-, rfl⟩ := onTime
    rfl
  | report =>
    cases onTime
    rfl
  | leave => exact onTime
  | finish => exact onTime
  | work w here goes =>
    cases w with
    | idle | entering =>
      obtain ⟨rfl, -⟩ := onTime
      cases here
    | selecting =>
      obtain ⟨-, rfl⟩ := onTime
      refine ⟨?_, ?_⟩
      · rintro rfl
        cases goes
      · have before : k ≠ .sending none := by
          rintro rfl
          cases here
        have after : k' ≠ .sending none := by
          rintro rfl
          cases goes
        simp [before, after]
    | failing | leaving | finishing | finished => exact onTime
  | append w here waits =>
    cases waits intime
    obtain ⟨-, rfl⟩ := onTime
    refine ⟨by simp, ?_⟩
    have before : k ≠ .sending none := by
      rintro rfl
      cases here
    simp [before]

theorem Doubled.turn (doubled : Doubled w c) (turn : Turn timely w k n w' k') : Doubled w' (c + n) := by
  cases turn with
  | stay | work => exact doubled
  | start | enter | timeOut | receive | receiveErr => exact doubled.elim
  | report => exact Nat.succ_le_succ doubled
  | leave | finish => exact doubled
  | append w here waits =>
    cases w with
    | idle | entering | selecting => exact doubled.elim
    | failing | leaving | finishing | finished => exact Nat.le_succ_of_le doubled

/-- The status of the task agrees with its results, and `Execute` settles it after it has joined. -/
structure Judged (s : Execution) : Prop where
  failed_iff : s.result.status = .failed ↔ ∃ r ∈ s.result.actionResults, r.status = .failed
  unsettled : s.main.settled = false → s.result.status = .null ∨ s.result.status = .failed
  settling : ∀ b, s.main = .settling b → b = s.result.isFailed
  settled : s.main.settled = true → s.result.status = .success ∨ s.result.status = .failed

/-- Everything a run knows about the jobs, from the actions taken so far. -/
structure Progress (t : RemoteTask) (rt : BaseRuntime) (s : Execution) (past : List ExecAct) : Prop where
  joins : Joins t rt s
  hosts : s.result.actionResults.map ActionResult.host = (recorded past).map t.hostAt
  stages : ∀ i, Stage (s.waiter i) (s.worker i) ((recorded past).count i)

theorem Progress.new (t : RemoteTask) (rt : BaseRuntime) : Progress t rt Execution.new [] where
  joins := Joins.new t rt
  hosts := rfl
  stages i := ⟨fun _ => rfl, by simp [recorded], by simp [Execution.new], by simp [Execution.new, Waiter.past]⟩

/-- A step appends the result of the job it records, and no other. -/
theorem hosts_of_next (next : Next t rt s a s') :
    s'.result.actionResults.map ActionResult.host =
      s.result.actionResults.map ActionResult.host ++ a.records.toList.map t.hostAt := by
  cases next with
  | settled =>
    simp only [TaskResult.errResult, TaskResult.normalResult, ExecAct.records, Option.toList_none, List.map_nil,
      List.append_nil]
    split <;> split <;> rfl
  | reported => simp [TaskResult.appendErr, ExecAct.records]
  | worked works => simp [records_of_works works]
  | appended here host => simp [ExecAct.records, host]
  | _ => simp [ExecAct.records]

theorem Progress.step {past : List ExecAct} (progress : Progress t rt s past) (next : Next t rt s a s') :
    Progress t rt s' (past ++ [a]) where
  joins := progress.joins.step next
  hosts := by rw [hosts_of_next next, progress.hosts, recorded_append, List.map_append]
  stages i := by
    rw [count_recorded]
    exact (progress.stages i).turn (turn_of_next progress.joins next i)

theorem progress_of_run {acts : List ExecAct} (ran : run (step t rt) Execution.new acts = some s) :
    Progress t rt s acts :=
  run_history (fun _ _ _ _ progress taken => Progress.step progress (next_of_step taken)) (Progress.new t rt) ran

theorem Judged.new : Judged Execution.new where
  failed_iff := by simp [Execution.new, TaskResult.new]
  unsettled _ := .inl rfl
  settling b here := by simp [Execution.new] at here
  settled here := by simp [Execution.new, Main.settled] at here

/-- A step of the main goroutine that leaves the results alone. -/
theorem Judged.control (judged : Judged s) {m : Main} {waiter : Nat → Waiter} {worker : Nat → Worker} {shared : Shared}
    (settled : m.settled = s.main.settled) (settling : ∀ b, m = .settling b → b = s.result.isFailed) :
    Judged { main := m, waiter, worker, shared, result := s.result } where
  failed_iff := judged.failed_iff
  unsettled here := judged.unsettled (settled ▸ here)
  settling := settling
  settled here := judged.settled (settled ▸ here)

/-- `Execute` settles the status. -/
theorem Judged.settle (judged : Judged s) {failed : Bool} (here : s.main = .settling failed) :
    Judged { s with main := .cancelling,
                    result := if failed then s.result.errResult else s.result.normalResult } := by
  have before : s.result.status = .null ∨ s.result.status = .failed := judged.unsettled (by rw [here]; rfl)
  cases judged.settling failed here
  have failed_iff := judged.failed_iff
  rcases before with null | failed
  · have none : ¬ ∃ r ∈ s.result.actionResults, r.status = .failed := by
      rw [← failed_iff, null]
      simp
    simp only [TaskResult.isFailed, null, reduceCtorEq, decide_false, Bool.false_eq_true, if_false,
      TaskResult.normalResult, ne_eq, not_true_eq_false]
    exact ⟨by simpa using none, by simp [Main.settled], by simp, fun _ => .inl rfl⟩
  · have some : ∃ r ∈ s.result.actionResults, r.status = .failed := failed_iff.mp failed
    simp only [TaskResult.isFailed, failed, decide_true, if_true, TaskResult.errResult, ne_eq, reduceCtorEq,
      not_false_eq_true]
    exact ⟨failed_iff, by simp [Main.settled], by simp, fun _ => .inr failed⟩

theorem Judged.step (judged : Judged s) (joins : Joins t rt s) (next : Next t rt s a s') : Judged s' := by
  cases next with
  | ended here | skipped here | added here | resumed here | joined here | cancelled here | closed here =>
    exact judged.control (by rw [here]; rfl) (by simp)
  | started here =>
    refine judged.control ?_ ?_
    · rw [here]
      split <;> rfl
    · intro b settling
      split at settling <;> cases settling
  | judged here =>
    refine judged.control (by rw [here]; rfl) ?_
    rintro b ⟨⟩
    rfl
  | settled here => exact judged.settle here
  | @reported i err here =>
    have live : (s.waiter i).live = true := by rw [here]; rfl
    have running := joins.not_joined live
    have notSettled : s.main.settled = false := by
      generalize s.main = m at running
      cases m <;> first | rfl | cases running
    refine ⟨by simp [TaskResult.appendErr], fun _ => .inr rfl, ?_, ?_⟩
    · intro b settling
      rw [show s.main = .settling b from settling] at running
      cases running
    · intro settled
      rw [show s.main.settled = true from settled] at notSettled
      cases notSettled
  | @appended i r here host passed =>
    refine ⟨?_, judged.unsettled, judged.settling, judged.settled⟩
    refine judged.failed_iff.trans ?_
    simp only [List.mem_append, List.mem_singleton]
    constructor
    · rintro ⟨r', inside, failed⟩
      exact ⟨r', .inl inside, failed⟩
    · rintro ⟨r', inside | rfl, failed⟩
      · exact ⟨r', inside, failed⟩
      · exact absurd failed passed
  | _ => exact judged.control rfl judged.settling

theorem judged_of_run {acts : List ExecAct} (ran : run (step t rt) Execution.new acts = some s) : Judged s := by
  have keeps : ∀ s a s', Joins t rt s ∧ Judged s → step t rt s a = some s' → Joins t rt s' ∧ Judged s' := by
    intro s a s' inv taken
    have next := next_of_step taken
    exact ⟨inv.1.step next, inv.2.step inv.1 next⟩
  exact (run_invariant keeps ⟨Joins.new t rt, Judged.new⟩ ran).2

/-- The hosts the task runs on. -/
def targets (t : RemoteTask) (rt : BaseRuntime) : List (Option Host) := t.hosts.filter fun h => !rt.skips h

/-- The results name every host the task runs on exactly once, and the status of the task agrees with them. -/
structure OneVerdict (t : RemoteTask) (rt : BaseRuntime) (result : TaskResult) : Prop where
  entries : (result.actionResults.map ActionResult.host).Perm (t.targets rt)
  failed_iff : result.status = .failed ↔ ∃ r ∈ result.actionResults, r.status = .failed
  passed : result.status ≠ .failed →
    result.status = .success ∨ result.status = .skipped ∧ ∀ r ∈ result.actionResults, r.status = .skipped

/-- The jobs of the task, in order. -/
def jobs (t : RemoteTask) (rt : BaseRuntime) : List Nat :=
  (List.range t.hosts.length).filter fun i => (t.hosts[i]?).any fun h => !rt.skips h

theorem mem_jobs {i : Nat} : i ∈ t.jobs rt ↔ t.Job rt i := by
  simp only [jobs, List.mem_filter, List.mem_range, Option.any_eq_true, Bool.not_eq_true', Job]
  constructor
  · exact fun h => h.2
  · rintro ⟨h, host, runs⟩
    exact ⟨(List.getElem?_eq_some_iff.mp host).1, h, host, runs⟩

theorem nodup_jobs : (t.jobs rt).Nodup := List.nodup_range.filter _

theorem filter_eq_map_range {α : Type*} (l : List (Option α)) (keep : Option α → Bool) :
    l.filter keep =
      ((List.range l.length).filter fun i => (l[i]?).any keep).map fun i => (l[i]?).join := by
  induction l with
  | nil => rfl
  | cons x l ih =>
    rw [List.length_cons, List.range_succ_eq_map, List.filter_cons, List.filter_cons, ih, List.filter_map]
    simp only [List.getElem?_cons_zero, Option.any_some, Function.comp_def, List.getElem?_cons_succ]
    split <;> simp [Function.comp_def]

theorem targets_eq : t.targets rt = (t.jobs rt).map t.hostAt := filter_eq_map_range _ _

theorem count_jobs (i : Nat) [Decidable (t.Job rt i)] : (t.jobs rt).count i = if t.Job rt i then 1 else 0 := by
  split
  · next job => exact List.count_eq_one_of_mem nodup_jobs (mem_jobs.mpr job)
  · next other => exact List.count_eq_zero_of_not_mem fun inside => other (mem_jobs.mp inside)

/-- In a run in time every job is on time. -/
theorem onTime_of_along {acts : List ExecAct} (along : Along (step t rt) InTime Execution.new acts)
    (ran : run (step t rt) Execution.new acts = some s) (i : Nat) :
    OnTime (s.waiter i) (s.worker i) ((recorded acts).count i) := by
  have keeps : ∀ s past a s',
      (Progress t rt s past ∧ ∀ i, OnTime (s.waiter i) (s.worker i) ((recorded past).count i)) →
      InTime s a → step t rt s a = some s' →
      Progress t rt s' (past ++ [a]) ∧
        ∀ i, OnTime (s'.waiter i) (s'.worker i) ((recorded (past ++ [a])).count i) := by
    rintro s past a s' ⟨progress, onTime⟩ intime taken
    have next := next_of_step taken
    refine ⟨progress.step next, fun i => ?_⟩
    rw [count_recorded]
    exact (onTime i).turn intime (turn_of_next progress.joins next i)
  have start : ∀ i, OnTime (Execution.new.waiter i) (Execution.new.worker i) ((recorded []).count i) :=
    fun i => ⟨rfl, rfl⟩
  exact (Along.history keeps ⟨Progress.new t rt, start⟩ along ran).2 i

/-- A step out of time leaves a job that will have two results. -/
theorem doubled_of_late {past : List ExecAct} (progress : Progress t rt s past) (late : ¬ InTime s a)
    (taken : step t rt s a = some s') : ∃ i, Doubled (s'.waiter i) ((recorded (past ++ [a])).count i) := by
  have next := next_of_step taken
  cases next with
  | @timedOut i err here =>
    have sends : s.worker i = .sending none := not_not.mp late
    refine ⟨i, ?_⟩
    simp only [Function.update_self, Doubled, count_recorded, ExecAct.records]
    exact (progress.stages i).verdict sends
  | @appended i r here host passed =>
    refine ⟨i, ?_⟩
    have stage := progress.stages i
    have other : s.waiter i ≠ .selecting := late
    have started : ¬ (s.waiter i = .idle ∨ s.waiter i = .entering) := by
      intro early
      rw [stage.fresh early] at here
      cases here
    have past := stage.past
    rw [count_recorded]
    simp only [ExecAct.records, if_true]
    generalize s.waiter i = w at other started past
    cases w with
    | idle | entering => simp at started
    | selecting => exact absurd rfl other
    | failing => exact Nat.le_add_left 1 _
    | leaving | finishing | finished => exact Nat.succ_le_succ (past rfl)
  | worked works =>
    cases a with
    | connect | check | execute => exact absurd trivial late
    | _ => cases works
  | _ => exact absurd trivial late

/-- In a run that returned, every job has a result and every result is of a job. -/
theorem results_of_returned {acts : List ExecAct} (ran : run (step t rt) Execution.new acts = some s)
    (returned : s.main = .returned) :
    (∀ i, t.Job rt i → s.waiter i = .finished ∧ 1 ≤ (recorded acts).count i) ∧
      ∀ i, ¬ t.Job rt i → s.waiter i = .idle := by
  have progress := progress_of_run ran
  constructor
  · intro i job
    have ended := progress.joins.joined (by rw [returned]; rfl) i job
    exact ⟨ended, (progress.stages i).past (by rw [ended]; rfl)⟩
  · intro i other
    by_contra busy
    exact other (progress.joins.started i busy).1

theorem perm_of_along {acts : List ExecAct} (ran : run (step t rt) Execution.new acts = some s)
    (returned : s.main = .returned) (along : Along (step t rt) InTime Execution.new acts) :
    (recorded acts).Perm (t.jobs rt) := by
  classical
  obtain ⟨ended, rest⟩ := results_of_returned ran returned
  rw [List.perm_iff_count]
  intro i
  have onTime := onTime_of_along along ran i
  rw [count_jobs]
  split
  · next job =>
    rw [(ended i job).1] at onTime
    exact onTime
  · next other =>
    rw [rest i other] at onTime
    exact onTime.2

/-- A run with a step out of time has more results than jobs. -/
theorem length_of_late {acts : List ExecAct} (ran : run (step t rt) Execution.new acts = some s)
    (returned : s.main = .returned) (late : ¬ Along (step t rt) InTime Execution.new acts) :
    (t.jobs rt).length < (recorded acts).length := by
  classical
  obtain ⟨before, a, after, u, v, rfl, reached, broken, taken, ended⟩ := exists_not_allowed ran late
  have progress := progress_of_run reached
  obtain ⟨i, doubled⟩ := doubled_of_late progress broken taken
  have keeps : ∀ s past a s',
      (Progress t rt s past ∧ Doubled (s.waiter i) ((recorded past).count i)) → step t rt s a = some s' →
      Progress t rt s' (past ++ [a]) ∧ Doubled (s'.waiter i) ((recorded (past ++ [a])).count i) := by
    rintro s past a s' ⟨progress, doubled⟩ taken
    have next := next_of_step taken
    refine ⟨progress.step next, ?_⟩
    rw [count_recorded]
    exact doubled.turn (turn_of_next progress.joins next i)
  have twice := (run_history keeps ⟨progress.step (next_of_step taken), doubled⟩ ended).2
  rw [List.append_assoc, List.singleton_append] at twice
  obtain ⟨ended, rest⟩ := results_of_returned ran returned
  have job : t.Job rt i := by
    by_contra other
    rw [rest i other] at twice
    exact twice
  have twice : 2 ≤ (recorded (before ++ a :: after)).count i := by rwa [(ended i job).1] at twice
  -- the jobs and one of them again are all among the results
  have inside : (i :: t.jobs rt).Subperm (recorded (before ++ a :: after)) := by
    rw [List.subperm_ext_iff]
    intro j _
    rw [List.count_cons, count_jobs]
    by_cases same : i = j
    · subst same
      simpa [job] using twice
    · by_cases other : t.Job rt j
      · simpa [same, other] using (ended j other).2
      · simp [same, other]
  exact inside.length_le

/-- In every run of `Execute` that has returned, and at every later time, the results give one verdict for each host
exactly when every step of the run was in time. -/
theorem verdict_of_run (t : RemoteTask) (rt : BaseRuntime) (acts : List ExecAct) (s : Execution)
    (ran : run (step t rt) Execution.new acts = some s) (returned : s.main = .returned) :
    OneVerdict t rt s.result ↔ Along (step t rt) InTime Execution.new acts := by
  have progress := progress_of_run ran
  have judged := judged_of_run ran
  constructor
  · intro one
    by_contra late
    have more := length_of_late ran returned late
    have same := one.entries.length_eq
    rw [progress.hosts, targets_eq, List.length_map, List.length_map] at same
    omega
  · intro along
    refine ⟨?_, judged.failed_iff, fun passed => ?_⟩
    · rw [progress.hosts, targets_eq]
      exact (perm_of_along ran returned along).map _
    · have settled := judged.settled (by rw [returned]; rfl)
      exact .inl (settled.resolve_right passed)

/-- A task on one host. -/
def soloTask : RemoteTask := ⟨"solo", [some ⟨"node1", "10.0.0.1", []⟩], false, 1, "1m", false⟩

/-- The task runs, and then `Execute` goes from its loop to its end. -/
def soloActs (wait : List ExecAct) : List ExecAct :=
  [.main, .main, .enter 0, .connect 0 none, .check 0 (.ok true), .execute 0 none, .append 0] ++ wait ++
    [.leave 0, .finish 0, .main, .main, .main, .main, .main, .main, .main]

/-- The waiter takes the result of the worker. -/
def soloEnd : Execution :=
  (run (step soloTask (.new false)) Execution.new (soloActs [.receive 0])).get (by decide +kernel)

/-- The timeout passes while the worker reports its success, and the waiter takes the timeout. -/
def lateEnd : Execution :=
  (run (step soloTask (.new false)) Execution.new (soloActs [.clock, .timeout 0, .report 0])).get (by decide +kernel)

theorem verdict_of_soloEnd :
    OneVerdict soloTask (.new false) soloEnd.result ↔
      Along (step soloTask (.new false)) InTime Execution.new (soloActs [.receive 0]) :=
  verdict_of_run soloTask (.new false) (soloActs [.receive 0]) soloEnd (Option.some_get _).symm (by decide +kernel)

/-- One host, two verdicts: a success and a failure. -/
theorem two_verdicts :
    run (step soloTask (.new false)) Execution.new (soloActs [.clock, .timeout 0, .report 0]) = some lateEnd ∧
      lateEnd.main = .returned ∧ lateEnd.result.actionResults.map ActionResult.status = [.success, .failed] ∧
      ¬ OneVerdict soloTask (.new false) lateEnd.result := by
  refine ⟨(Option.some_get _).symm, by decide +kernel, by decide +kernel, fun one => ?_⟩
  have same := one.entries.length_eq
  revert same
  decide +kernel

end RemoteTask

end KubeKey.Core
