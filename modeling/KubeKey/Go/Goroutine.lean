import Mathlib.Data.Finset.Card
import Mathlib.Logic.Function.Basic

/-!
# Goroutines

Concurrent code is a function from a state and an action of one goroutine to the next
state, `none` where the action is not enabled. An interleaving is the list of the actions
in the order they are taken, so a run is a fold. `Along` says that every action of a run
was taken in a state that allows it, and the invariant rules carry a property through all
runs, or through all runs of that kind. `Counts` is what a `sync.WaitGroup` knows: how
many goroutines it still has to wait for.
-/

namespace KubeKey.Go

variable {State Act : Type*}

/-- The run of an interleaving. -/
def run (step : State → Act → Option State) (s : State) (acts : List Act) : Option State :=
  acts.foldlM step s

@[simp] theorem run_nil (step : State → Act → Option State) (s : State) : run step s [] = some s := rfl

theorem run_cons (step : State → Act → Option State) (s : State) (a : Act) (acts : List Act) :
    run step s (a :: acts) = (step s a).bind fun s' => run step s' acts := rfl

theorem run_append (step : State → Act → Option State) (s : State) (before after : List Act) :
    run step s (before ++ after) = (run step s before).bind fun s' => run step s' after :=
  List.foldlM_append

/-- A run whose first action is enabled. -/
theorem run_cons_eq_some {step : State → Act → Option State} {s t : State} {a : Act} {acts : List Act} :
    run step s (a :: acts) = some t ↔ ∃ s', step s a = some s' ∧ run step s' acts = some t := by
  rw [run_cons, Option.bind_eq_some_iff]

/-- Two runs one after the other. -/
theorem run_trans {step : State → Act → Option State} {s t u : State} {before after : List Act}
    (first : run step s before = some t) (second : run step t after = some u) :
    run step s (before ++ after) = some u := by
  rw [run_append, first]
  exact second

/-- Every action of the interleaving is taken in a state that allows it. -/
def Along (step : State → Act → Option State) (allowed : State → Act → Prop) : State → List Act → Prop
  | _, [] => True
  | s, a :: acts => allowed s a ∧ ∀ s', step s a = some s' → Along step allowed s' acts

instance decidableAlong {step : State → Act → Option State} {allowed : State → Act → Prop}
    [∀ s a, Decidable (allowed s a)] : ∀ s acts, Decidable (Along step allowed s acts)
  | _, [] => isTrue trivial
  | s, a :: acts =>
    match taken : step s a with
    | none => decidable_of_iff (allowed s a) ⟨fun first => ⟨first, fun s' other => by simp [taken] at other⟩, And.left⟩
    | some s' =>
      have : Decidable (Along step allowed s' acts) := decidableAlong s' acts
      decidable_of_iff (allowed s a ∧ Along step allowed s' acts)
        ⟨fun both => ⟨both.1, fun t other => by
          rw [taken] at other
          cases other
          exact both.2⟩, fun along => ⟨along.1, along.2 s' taken⟩⟩

/-- What every allowed step keeps, every allowed run keeps. The property may speak about the actions taken so far. -/
theorem Along.history {step : State → Act → Option State} {allowed : State → Act → Prop}
    {Inv : State → List Act → Prop}
    (keeps : ∀ s past a s', Inv s past → allowed s a → step s a = some s' → Inv s' (past ++ [a])) :
    ∀ {s t : State} {past acts : List Act}, Inv s past → Along step allowed s acts → run step s acts = some t →
      Inv t (past ++ acts) := by
  intro s t past acts inv along ran
  induction acts generalizing s past with
  | nil =>
    cases ran
    rwa [List.append_nil]
  | cons a acts ih =>
    obtain ⟨s', first, rest⟩ := run_cons_eq_some.mp ran
    have next := ih (keeps s past a s' inv along.1 first) (along.2 s' first) rest
    rwa [List.append_assoc] at next

theorem along_true (step : State → Act → Option State) (s : State) (acts : List Act) :
    Along step (fun _ _ => True) s acts := by
  induction acts generalizing s with
  | nil => trivial
  | cons a acts ih => exact ⟨trivial, fun s' _ => ih s'⟩

/-- Actions that are allowed in every state are an allowed run. -/
theorem along_of_forall {step : State → Act → Option State} {allowed : Act → Prop} {s : State} {acts : List Act}
    (all : ∀ a ∈ acts, allowed a) : Along step (fun _ a => allowed a) s acts := by
  induction acts generalizing s with
  | nil => trivial
  | cons a acts ih =>
    exact ⟨all a List.mem_cons_self, fun _ _ => ih fun b inside => all b (List.mem_cons_of_mem a inside)⟩

/-- What every step keeps, every run keeps. -/
theorem run_history {step : State → Act → Option State} {Inv : State → List Act → Prop}
    (keeps : ∀ s past a s', Inv s past → step s a = some s' → Inv s' (past ++ [a]))
    {s t : State} {past acts : List Act} (inv : Inv s past) (ran : run step s acts = some t) :
    Inv t (past ++ acts) :=
  Along.history (fun s past a s' inv _ taken => keeps s past a s' inv taken) inv (along_true step s acts) ran

/-- The rule of allowed runs for a property of the state alone. -/
theorem Along.invariant {step : State → Act → Option State} {allowed : State → Act → Prop} {Inv : State → Prop}
    (keeps : ∀ s a s', Inv s → allowed s a → step s a = some s' → Inv s')
    {s t : State} {acts : List Act} (inv : Inv s) (along : Along step allowed s acts) (ran : run step s acts = some t) :
    Inv t := by
  have kept := @Along.history _ _ step allowed (fun s _ => Inv s)
    (fun s _ a s' inv allowed taken => keeps s a s' inv allowed taken) s t [] acts inv along ran
  exact kept

/-- With what allowed steps keep, the steps of an allowed run are allowed in another sense as well. -/
theorem Along.strengthen {step : State → Act → Option State} {allowed allowed' : State → Act → Prop}
    {Inv : State → Prop} (keeps : ∀ s a s', Inv s → allowed s a → step s a = some s' → Inv s')
    (implies : ∀ s a, Inv s → allowed s a → allowed' s a) {s : State} {acts : List Act} (inv : Inv s)
    (along : Along step allowed s acts) : Along step allowed' s acts := by
  induction acts generalizing s with
  | nil => trivial
  | cons a acts ih =>
    exact ⟨implies s a inv along.1, fun s' taken => ih (keeps s a s' inv along.1 taken) (along.2 s' taken)⟩

/-- The second part of an allowed run. -/
theorem Along.rest {step : State → Act → Option State} {allowed : State → Act → Prop} {s t : State}
    {before after : List Act} (along : Along step allowed s (before ++ after)) (ran : run step s before = some t) :
    Along step allowed t after := by
  induction before generalizing s with
  | nil =>
    cases ran
    exact along
  | cons a before ih =>
    obtain ⟨s', first, rest⟩ := run_cons_eq_some.mp ran
    exact ih (along.2 s' first) rest

/-- The rule of all runs for a property of the state alone. -/
theorem run_invariant {step : State → Act → Option State} {Inv : State → Prop}
    (keeps : ∀ s a s', Inv s → step s a = some s' → Inv s')
    {s t : State} {acts : List Act} (inv : Inv s) (ran : run step s acts = some t) : Inv t :=
  Along.invariant (fun s a s' inv _ taken => keeps s a s' inv taken) inv (along_true step s acts) ran

/-- A run that is not of the allowed kind has an action that was taken where it is not allowed. -/
theorem exists_not_allowed {step : State → Act → Option State} {allowed : State → Act → Prop}
    {s t : State} {acts : List Act} (ran : run step s acts = some t) (breaks : ¬ Along step allowed s acts) :
    ∃ before a after u v, acts = before ++ a :: after ∧ run step s before = some u ∧ ¬ allowed u a ∧
      step u a = some v ∧ run step v after = some t := by
  induction acts generalizing s with
  | nil => exact absurd trivial breaks
  | cons a acts ih =>
    obtain ⟨s', first, rest⟩ := run_cons_eq_some.mp ran
    by_cases here : allowed s a
    · have later : ¬ Along step allowed s' acts := by
        intro along
        refine breaks ⟨here, fun s'' again => ?_⟩
        cases first.symm.trans again
        exact along
      obtain ⟨before, b, after, u, v, rfl, reached, not, taken, ended⟩ := ih rest later
      exact ⟨a :: before, b, after, u, v, rfl, run_cons_eq_some.mpr ⟨s', first, reached⟩, not, taken, ended⟩
    · exact ⟨[], a, acts, s, s', rfl, rfl, here, first, rest⟩

/-- The counter of a wait group is the number of goroutines that are `live`: added and not done. -/
def Counts (counter : Int) (live : ℕ → Prop) : Prop :=
  ∃ members : Finset ℕ, counter = members.card ∧ ∀ i, i ∈ members ↔ live i

namespace Counts

variable {counter : Int} {live live' : ℕ → Prop} {i : ℕ}

theorem zero (none : ∀ i, ¬ live i) : Counts 0 live :=
  ⟨∅, by simp, fun i => by simp [none i]⟩

theorem congr (counts : Counts counter live) (same : ∀ i, live' i ↔ live i) : Counts counter live' := by
  obtain ⟨members, card, mem⟩ := counts
  exact ⟨members, card, fun i => (mem i).trans (same i).symm⟩

/-- `Add(1)` for a goroutine that is not counted yet. -/
theorem add (counts : Counts counter live) (new : ¬ live i) (grows : ∀ j, live' j ↔ j = i ∨ live j) :
    Counts (counter + 1) live' := by
  obtain ⟨members, card, mem⟩ := counts
  have fresh : i ∉ members := fun h => new ((mem i).mp h)
  refine ⟨insert i members, ?_, fun j => ?_⟩
  · rw [Finset.card_insert_of_notMem fresh, card]
    push_cast
    rfl
  · rw [Finset.mem_insert, mem, grows]

/-- `Done()` of a goroutine that is counted. -/
theorem done (counts : Counts counter live) (counted : live i) (shrinks : ∀ j, live' j ↔ j ≠ i ∧ live j) :
    Counts (counter - 1) live' := by
  obtain ⟨members, card, mem⟩ := counts
  have present : i ∈ members := (mem i).mpr counted
  refine ⟨members.erase i, ?_, fun j => ?_⟩
  · have := Finset.card_erase_add_one present
    omega
  · rw [Finset.mem_erase, mem, shrinks]

theorem nonneg (counts : Counts counter live) : 0 ≤ counter := by
  obtain ⟨members, card, -⟩ := counts
  omega

/-- A goroutine that is counted keeps the counter above zero. -/
theorem pos (counts : Counts counter live) (counted : live i) : 0 < counter := by
  obtain ⟨members, card, mem⟩ := counts
  have := Finset.card_pos.mpr ⟨i, (mem i).mpr counted⟩
  omega

/-- `Wait` returns at zero, when nobody is counted. -/
theorem none_live (counts : Counts 0 live) (i : ℕ) : ¬ live i :=
  fun counted => absurd (counts.pos counted) (lt_irrefl 0)

end Counts

end KubeKey.Go
