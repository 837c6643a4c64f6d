import KubeKey.Executor.Inherit

/-!
# Block, rescue and always

The meaning of a block tree as a big-step relation, written from what the sections
are for: siblings run in document order up to the first that fails, a rescue
section runs exactly when its block section failed, an always section runs once
after them, and an element fails when a failure is not rescued. The executor
computes this relation (`sectionRuns_iff`).
-/

namespace KubeKey.Executor

open KubeKey.Go KubeKey.Project

section
variable {σ : Type} (o : ExecOption σ)

/-- The tags of an element select it. -/
def Enabled (e : BlockExecutor) (head : BlockHead) : Prop :=
  isEnabled (e.inner head).tags o.onlyTags o.skipTags = true

/-- The vars of an element are merged before it is executed. -/
def mergeElementVars (e : BlockExecutor) (head : BlockHead) : Exec σ :=
  Exec.lift (o.mergeVars head.vars (e.inner head).hosts)

mutual

/-- `SectionRuns o e blocks st failed st'`: siblings in document order, up to and including the first that fails. -/
inductive SectionRuns : BlockExecutor → List Block → ExecState σ → Bool → ExecState σ → Prop where
  | done {e st} : SectionRuns e [] st false st
  | stop {e block blocks st st'} (failing : ElementRuns e block st true st') :
      SectionRuns e (block :: blocks) st true st'
  | next {e block blocks st st₁ failed st'} (passing : ElementRuns e block st false st₁)
      (rest : SectionRuns e blocks st₁ failed st') : SectionRuns e (block :: blocks) st failed st'

/-- One element of a section. -/
inductive ElementRuns : BlockExecutor → Block → ExecState σ → Bool → ExecState σ → Prop where
  /-- Not selected by the tags: nothing happens. -/
  | skipped {e head block rescue always st} (disabled : ¬ Enabled o e head) :
      ElementRuns e (.mk head block rescue always) st false st
  /-- The vars could not be merged: the element fails before it is executed. -/
  | varsFailed {e head block rescue always st err st'} (enabled : Enabled o e head)
      (merged : mergeElementVars o e head st = (some err, st')) :
      ElementRuns e (.mk head block rescue always) st true st'
  /-- The block section succeeded: no rescue, and the always section decides. -/
  | passed {e head block rescue always st st₁ st₂ failed st'} (enabled : Enabled o e head)
      (merged : mergeElementVars o e head st = (none, st₁)) (sections : block ≠ [])
      (blockRun : SectionRuns (e.inner head) block st₁ false st₂)
      (alwaysRun : SectionRuns (e.inner head) always st₂ failed st') :
      ElementRuns e (.mk head block rescue always) st failed st'
  /-- The block section failed and there is no rescue section: the element fails, after its always section. -/
  | unrescued {e head block always st st₁ st₂ failed st'} (enabled : Enabled o e head)
      (merged : mergeElementVars o e head st = (none, st₁)) (sections : block ≠ [])
      (blockRun : SectionRuns (e.inner head) block st₁ true st₂)
      (alwaysRun : SectionRuns (e.inner head) always st₂ failed st') :
      ElementRuns e (.mk head block [] always) st true st'
  /-- The block section failed and the rescue section ran: it fails with the rescue or the always section. -/
  | rescued {e head block rescue always st st₁ st₂ rescueFailed st₃ alwaysFailed st'} (enabled : Enabled o e head)
      (merged : mergeElementVars o e head st = (none, st₁)) (sections : block ≠ []) (rescues : rescue ≠ [])
      (blockRun : SectionRuns (e.inner head) block st₁ true st₂)
      (rescueRun : SectionRuns (e.inner head) rescue st₂ rescueFailed st₃)
      (alwaysRun : SectionRuns (e.inner head) always st₃ alwaysFailed st') :
      ElementRuns e (.mk head block rescue always) st (rescueFailed || alwaysFailed) st'
  /-- An included file stands in the list as the blocks it was replaced by. -/
  | included {e head rescue always st st'} (enabled : Enabled o e head)
      (merged : mergeElementVars o e head st = (none, st')) (file : head.includeTasks ≠ "") :
      ElementRuns e (.mk head [] rescue always) st false st'
  /-- A leaf task: its outcome is the outcome of the element. -/
  | task {e head rescue always st st₁ err st'} (enabled : Enabled o e head)
      (merged : mergeElementVars o e head st = (none, st₁)) (leaf : head.includeTasks = "")
      (ran : dealTask o (e.inner head).hosts (e.inner head).when head st₁ = (err, st')) :
      ElementRuns e (.mk head [] rescue always) st err.isSome st'

end

/-- A part of a run ends as stated. -/
def EndsWith (x : Exec σ) (st : ExecState σ) (failed : Bool) (st' : ExecState σ) : Prop :=
  (x st).1.isSome = failed ∧ (x st).2 = st'

theorem EndsWith.self (x : Exec σ) (st : ExecState σ) : EndsWith x st (x st).1.isSome (x st).2 := ⟨rfl, rfl⟩

theorem EndsWith.passed {x : Exec σ} {st st' : ExecState σ} (ends : EndsWith x st false st') : x st = (none, st') := by
  obtain ⟨failed, rfl⟩ := ends
  rw [Option.isSome_eq_false_iff, Option.isNone_iff_eq_none] at failed
  rw [← failed]

theorem EndsWith.failed {x : Exec σ} {st st' : ExecState σ} (ends : EndsWith x st true st') :
    ∃ err, x st = (some err, st') := by
  obtain ⟨failed, rfl⟩ := ends
  obtain ⟨err, eq⟩ := Option.isSome_iff_exists.1 failed
  exact ⟨err, by rw [← eq]⟩

theorem endsWith_andThen {x y : Exec σ} {st st' : ExecState σ} {failed : Bool} :
    EndsWith (x.andThen y) st failed st' ↔
      (failed = true ∧ EndsWith x st true st') ∨ ∃ st₁, EndsWith x st false st₁ ∧ EndsWith y st₁ failed st' := by
  unfold EndsWith Exec.andThen
  rcases x st with ⟨_ | err, st₁⟩
  · simp
  · simp [eq_comm]

section DealBlock
variable {block rescue always : Exec σ} {st st₂ st₃ st' : ExecState σ} {failed rescueFailed : Bool}

/-- A successful block section: the always section decides. -/
theorem dealBlock_passed {rescue : Option (Exec σ)} (blockEnds : EndsWith block st false st₂) :
    EndsWith (dealBlock block rescue (some always)) st failed st' ↔ EndsWith always st₂ failed st' := by
  unfold EndsWith dealBlock
  rw [blockEnds.passed]
  dsimp only
  rcases always st₂ with ⟨_ | err, st₄⟩ <;> simp

/-- A failed block section without rescue: failure, after the always section. -/
theorem dealBlock_unrescued (blockEnds : EndsWith block st true st₂) :
    EndsWith (dealBlock block none (some always)) st failed st' ↔
      failed = true ∧ ∃ alwaysFailed, EndsWith always st₂ alwaysFailed st' := by
  obtain ⟨err, eq⟩ := blockEnds.failed
  unfold EndsWith dealBlock
  rw [eq]
  dsimp only
  rcases always st₂ with ⟨_ | err, st₄⟩ <;> simp [eq_comm]

/-- A failed block section with rescue: the rescue and the always section decide. -/
theorem dealBlock_rescued (blockEnds : EndsWith block st true st₂) (rescueEnds : EndsWith rescue st₂ rescueFailed st₃) :
    EndsWith (dealBlock block (some rescue) (some always)) st failed st' ↔
      ∃ alwaysFailed, failed = (rescueFailed || alwaysFailed) ∧ EndsWith always st₃ alwaysFailed st' := by
  obtain ⟨err, eq⟩ := blockEnds.failed
  unfold EndsWith dealBlock
  rw [eq]
  dsimp only
  cases rescueFailed with
  | false =>
    rw [rescueEnds.passed]
    rcases always st₃ with ⟨_ | err, st₄⟩ <;> simp [eq_comm]
  | true =>
    obtain ⟨err', eq'⟩ := rescueEnds.failed
    rw [eq']
    rcases always st₃ with ⟨_ | err, st₄⟩ <;> simp [eq_comm]

/-- Leaving out an empty always section is running it. -/
theorem dealBlock_always (o : ExecOption σ) (e : BlockExecutor) (rescue : Option (Exec σ)) (blocks : List Block) :
    dealBlock block rescue (if blocks.isEmpty then none else some (execBlocks o e blocks)) =
      dealBlock block rescue (some (execBlocks o e blocks)) := by
  cases blocks with
  | nil =>
    funext st
    simp only [dealBlock, execBlocks]
    rfl
  | cons b bs => rfl

end DealBlock

/-- An element that is executed: its vars are merged, then its kind decides. -/
theorem execElement_enabled {e : BlockExecutor} {head : BlockHead} (enabled : Enabled o e head)
    (block rescue always : List Block) :
    execElement o e (.mk head block rescue always) = (mergeElementVars o e head).andThen
      (if block = [] then
        if head.includeTasks ≠ "" then fun st => (none, st)
        else dealTask o (e.inner head).hosts (e.inner head).when head
      else dealBlock (execBlocks o (e.inner head) block)
        (if rescue.isEmpty then none else some (execBlocks o (e.inner head) rescue))
        (some (execBlocks o (e.inner head) always))) := by
  have on : isEnabled (e.inner head).tags o.onlyTags o.skipTags = true := enabled
  simp only [execElement, on, mergeElementVars, dealBlock_always, Bool.not_true, Bool.false_eq_true, if_false]
  cases block with
  | nil => rfl
  | cons b bs => rfl

theorem execElement_disabled {e : BlockExecutor} {head : BlockHead} (disabled : ¬ Enabled o e head)
    (block rescue always : List Block) : execElement o e (.mk head block rescue always) = fun st => (none, st) := by
  have off : isEnabled (e.inner head).tags o.onlyTags o.skipTags = false := by simpa [Enabled] using disabled
  simp only [execElement, off, Bool.not_false, if_true]

theorem endsWith_of_eq {x : Exec σ} {st st' : ExecState σ} {err : Option ExecErr} (eq : x st = (err, st')) :
    EndsWith x st err.isSome st' := by
  rw [EndsWith, eq]
  exact ⟨rfl, rfl⟩

/-- The executor runs these blocks as the relation says. -/
def Computes (e : BlockExecutor) (blocks : List Block) : Prop :=
  ∀ st failed st', SectionRuns o e blocks st failed st' ↔ EndsWith (execBlocks o e blocks) st failed st'

section Element
variable {o}
variable {e : BlockExecutor} {head : BlockHead} {block rescue always : List Block} {st st' : ExecState σ} {failed : Bool}

/-- What the relation allows, the executor does. -/
theorem ElementRuns.endsWith (blocks : Computes o (e.inner head) block) (rescues : Computes o (e.inner head) rescue)
    (finals : Computes o (e.inner head) always) (run : ElementRuns o e (.mk head block rescue always) st failed st') :
    EndsWith (execElement o e (.mk head block rescue always)) st failed st' := by
  cases run with
  | skipped disabled =>
    rw [execElement_disabled o disabled]
    exact ⟨rfl, rfl⟩
  | varsFailed enabled merged =>
    rw [execElement_enabled o enabled, endsWith_andThen]
    exact Or.inl ⟨rfl, endsWith_of_eq merged⟩
  | passed enabled merged sections blockRun alwaysRun =>
    rw [execElement_enabled o enabled, endsWith_andThen, if_neg sections]
    refine Or.inr ⟨_, endsWith_of_eq merged, ?_⟩
    exact (dealBlock_passed ((blocks _ _ _).1 blockRun)).2 ((finals _ _ _).1 alwaysRun)
  | unrescued enabled merged sections blockRun alwaysRun =>
    rw [execElement_enabled o enabled, endsWith_andThen, if_neg sections]
    refine Or.inr ⟨_, endsWith_of_eq merged, ?_⟩
    exact (dealBlock_unrescued ((blocks _ _ _).1 blockRun)).2 ⟨rfl, _, (finals _ _ _).1 alwaysRun⟩
  | rescued enabled merged sections rescuing blockRun rescueRun alwaysRun =>
    rw [execElement_enabled o enabled, endsWith_andThen, if_neg sections, if_neg (by simpa using rescuing)]
    refine Or.inr ⟨_, endsWith_of_eq merged, ?_⟩
    exact (dealBlock_rescued ((blocks _ _ _).1 blockRun) ((rescues _ _ _).1 rescueRun)).2
      ⟨_, rfl, (finals _ _ _).1 alwaysRun⟩
  | included enabled merged file =>
    rw [execElement_enabled o enabled, endsWith_andThen, if_pos rfl, if_pos file]
    exact Or.inr ⟨_, endsWith_of_eq merged, rfl, rfl⟩
  | task enabled merged leaf ran =>
    rw [execElement_enabled o enabled, endsWith_andThen, if_pos rfl, if_neg (not_not.2 leaf)]
    exact Or.inr ⟨_, endsWith_of_eq merged, endsWith_of_eq ran⟩

/-- What the executor does, the relation allows. -/
theorem ElementRuns.of_endsWith (blocks : Computes o (e.inner head) block)
    (rescues : Computes o (e.inner head) rescue) (finals : Computes o (e.inner head) always)
    (ends : EndsWith (execElement o e (.mk head block rescue always)) st failed st') :
    ElementRuns o e (.mk head block rescue always) st failed st' := by
  by_cases enabled : Enabled o e head
  · rw [execElement_enabled o enabled, endsWith_andThen] at ends
    rcases ends with ⟨rfl, merged⟩ | ⟨st₁, merged, rest⟩
    · obtain ⟨err, eq⟩ := merged.failed
      exact .varsFailed enabled eq
    have passing := merged.passed
    by_cases sections : block = []
    · subst sections
      rw [if_pos rfl] at rest
      by_cases leaf : head.includeTasks = ""
      · rw [if_neg (not_not.2 leaf)] at rest
        obtain ⟨rfl, rfl⟩ := rest
        exact .task enabled passing leaf rfl
      · rw [if_pos leaf] at rest
        obtain ⟨rfl, rfl⟩ := rest
        exact .included enabled passing leaf
    · rw [if_neg sections] at rest
      have blockEnds := EndsWith.self (execBlocks o (e.inner head) block) st₁
      cases outcome : (execBlocks o (e.inner head) block st₁).1.isSome with
      | false =>
        rw [outcome] at blockEnds
        exact .passed enabled passing sections ((blocks _ _ _).2 blockEnds)
          ((finals _ _ _).2 ((dealBlock_passed blockEnds).1 rest))
      | true =>
        rw [outcome] at blockEnds
        by_cases rescuing : rescue = []
        · subst rescuing
          obtain ⟨rfl, alwaysFailed, alwaysEnds⟩ := (dealBlock_unrescued blockEnds).1 rest
          exact .unrescued enabled passing sections ((blocks _ _ _).2 blockEnds) ((finals _ _ _).2 alwaysEnds)
        · rw [if_neg (by simpa using rescuing)] at rest
          have rescueEnds := EndsWith.self (execBlocks o (e.inner head) rescue)
            (execBlocks o (e.inner head) block st₁).2
          obtain ⟨alwaysFailed, rfl, alwaysEnds⟩ := (dealBlock_rescued blockEnds rescueEnds).1 rest
          exact .rescued enabled passing sections rescuing ((blocks _ _ _).2 blockEnds)
            ((rescues _ _ _).2 rescueEnds) ((finals _ _ _).2 alwaysEnds)
  · rw [execElement_disabled o enabled] at ends
    obtain ⟨rfl, rfl⟩ := ends
    exact .skipped enabled

end Element

mutual

theorem execBlocks_computes : ∀ (blocks : List Block) (e : BlockExecutor), Computes o e blocks
  | [], e => by
    intro st failed st'
    rw [execBlocks]
    constructor
    · rintro ⟨⟩
      exact ⟨rfl, rfl⟩
    · rintro ⟨rfl, rfl⟩
      exact .done
  | block :: blocks, e => by
    intro st failed st'
    rw [execBlocks, endsWith_andThen]
    constructor
    · intro run
      cases run with
      | stop failing => exact Or.inl ⟨rfl, (execElement_computes block e _ _ _).1 failing⟩
      | next passing rest =>
        exact Or.inr ⟨_, (execElement_computes block e _ _ _).1 passing, (execBlocks_computes blocks e _ _ _).1 rest⟩
    · rintro (⟨rfl, failing⟩ | ⟨st₁, passing, rest⟩)
      · exact .stop ((execElement_computes block e _ _ _).2 failing)
      · exact .next ((execElement_computes block e _ _ _).2 passing) ((execBlocks_computes blocks e _ _ _).2 rest)

theorem execElement_computes : ∀ (block : Block) (e : BlockExecutor) (st : ExecState σ) (failed : Bool)
    (st' : ExecState σ), ElementRuns o e block st failed st' ↔ EndsWith (execElement o e block) st failed st'
  | .mk head block rescue always, e, _, _, _ => by
    have blocks := execBlocks_computes block (e.inner head)
    have rescues := execBlocks_computes rescue (e.inner head)
    have finals := execBlocks_computes always (e.inner head)
    exact ⟨ElementRuns.endsWith blocks rescues finals, ElementRuns.of_endsWith blocks rescues finals⟩

end

/-- The place of an executor that is told nothing but its fields. -/
def BlockExecutor.place (e : BlockExecutor) : Place := ⟨e.hosts, [], [⟨e.ignoreErrors, e.when⟩], none⟩

/-- Executing a block tree is running it as the relation says: it fails as stated and leaves the state as stated. The
leaf tasks are created and run in document order. -/
theorem execBlocks_sections (e : BlockExecutor) (blocks : List Block) (st : ExecState σ) :
    (∀ failed st', SectionRuns o e blocks st failed st' ↔
      (execBlocks o e blocks st).1.isSome = failed ∧ (execBlocks o e blocks st).2 = st') ∧
    ∃ ran : List (Leaf × Task), (execBlocks o e blocks st).2.created = st.created ++ ran.map Prod.snd ∧
      (ran.map Prod.fst).Sublist (blocksLeaves e.place blocks) ∧ ∀ r ∈ ran, r.1.Makes o.marshal r.2 := by
  have stands : Stands e e.place := ⟨rfl, rfl⟩
  exact ⟨fun failed st' => execBlocks_computes o blocks e st failed st', execBlocks_creates o blocks stands st⟩

end

end KubeKey.Executor
