import KubeKey.Go.Recursion

/-!
# Recursion with fuel

A recursive function of the source that has no bound on its depth is given fuel: it is `none`
when the fuel runs out, and it has returned what it gives on any fuel. `Levels` is what makes
this sound: one level of the recursion keeps its result when the calls below it have more, so
more fuel gives the same result (`Levels.more`). A recursion that ends exactly when the calls
at the nodes it refers to do (`Unfolds`) returns exactly where no cycle is reached
(`Unfolds.returns_iff`), and the number of nodes that refer to something, and one more, is
always enough for it (`Unfolds.enough`).
-/

namespace KubeKey.Go

section Fold
variable {σ ι R : Type*}

/-- A loop whose rounds have more results. -/
theorem foldlM_keeps {f g : σ → ι → Option σ} (round : ∀ s e s', f s e = some s' → g s e = some s') :
    ∀ {l : List ι} {s s' : σ}, l.foldlM f s = some s' → l.foldlM g s = some s' := by
  intro l
  induction l with
  | nil => exact fun run => run
  | cons e l ih =>
    intro s s' run
    obtain ⟨s₁, first, rest⟩ := Option.bind_eq_some_iff.1 run
    exact Option.bind_eq_some_iff.2 ⟨s₁, round s e s₁ first, ih rest⟩

/-- A loop whose rounds end, and keep what each of them needs. -/
theorem foldlM_ends {f : σ → ι → Option σ} {I : σ → Prop} {l : List ι}
    (round : ∀ s, I s → ∀ e ∈ l, ∃ s', f s e = some s' ∧ I s') {s : σ} (start : I s) : ∃ s', l.foldlM f s = some s' := by
  induction l generalizing s with
  | nil => exact ⟨s, rfl⟩
  | cons e l ih =>
    obtain ⟨s₁, first, kept⟩ := round s start e List.mem_cons_self
    obtain ⟨s', rest⟩ := ih (fun s holds e' inside => round s holds e' (List.mem_cons_of_mem _ inside)) kept
    exact ⟨s', Option.bind_eq_some_iff.2 ⟨s₁, first, rest⟩⟩

/-- A loop ends if each of its rounds ends from every state or from none. -/
theorem foldlM_isSome_iff {f : σ → ι → Option σ} {x : ι → Option R} (round : ∀ s e, (f s e).isSome ↔ (x e).isSome) :
    ∀ {l : List ι} {s : σ}, (l.foldlM f s).isSome ↔ ∀ e ∈ l, (x e).isSome := by
  intro l
  induction l with
  | nil =>
    intro s
    simp
  | cons e l ih =>
    intro s
    rw [List.forall_mem_cons, ← round s e, List.foldlM_cons]
    cases first : f s e with
    | none => simp
    | some s₁ => simpa using ih

end Fold

section Unfolds
variable {X R : Type*} {refers : X → X → Prop} {body : (X → Option R) → X → Option R} {f : ℕ → X → Option R}

/-- A recursion whose levels are `body`. -/
structure Levels (body : (X → Option R) → X → Option R) (f : ℕ → X → Option R) : Prop where
  zero : ∀ a, f 0 a = none
  succ : ∀ fuel a, f (fuel + 1) a = body (f fuel) a
  keeps : ∀ x y : X → Option R, (∀ b r, x b = some r → y b = some r) → ∀ a r, body x a = some r → body y a = some r

/-- A recursion that calls itself at all the nodes it refers to. -/
structure Unfolds (refers : X → X → Prop) (body : (X → Option R) → X → Option R) (f : ℕ → X → Option R) : Prop
    extends Levels body f where
  ends_iff : ∀ (x : X → Option R) a, (body x a).isSome ↔ ∀ b, refers a b → (x b).isSome

namespace Levels

theorem next (levels : Levels body f) (fuel : ℕ) : ∀ a r, f fuel a = some r → f (fuel + 1) a = some r := by
  induction fuel with
  | zero =>
    intro a r run
    rw [levels.zero] at run
    cases run
  | succ fuel ih =>
    intro a r run
    rw [levels.succ] at run ⊢
    exact levels.keeps _ _ ih a r run

/-- A result stays on more fuel. -/
theorem more (levels : Levels body f) {fuel fuel' : ℕ} (le : fuel ≤ fuel') {a : X} {r : R}
    (run : f fuel a = some r) : f fuel' a = some r := by
  induction fuel', le using Nat.le_induction with
  | base => exact run
  | succ fuel' _ ih => exact levels.next fuel' a r ih

end Levels

namespace Unfolds

theorem acc (unfolds : Unfolds refers body f) {fuel : ℕ} {a : X} (ends : (f fuel a).isSome) :
    Acc (fun d c => refers c d) a := by
  induction fuel generalizing a with
  | zero =>
    rw [unfolds.zero] at ends
    cases ends
  | succ fuel ih =>
    rw [unfolds.succ, unfolds.ends_iff] at ends
    exact .intro a fun b refer => ih (ends b refer)

/-- A recursion that returns reaches no cycle. -/
theorem acyclic (unfolds : Unfolds refers body f) {fuel : ℕ} {a : X} (ends : (f fuel a).isSome) : Acyclic refers a := by
  have reached : ∀ d, Relation.ReflTransGen refers a d → Acc (fun d c => refers c d) d := by
    intro d path
    induction path with
    | refl => exact unfolds.acc ends
    | tail _ refer ih => exact ih.inv refer
  intro d path cycle
  have acc' : Acc (Relation.TransGen fun d c => refers c d) d := (reached d path).transGen
  exact irrefl_of_acc acc' (Relation.transGen_swap.mpr cycle)

/-- Without a cycle the recursion is at most one deeper than there are nodes that refer to something. -/
theorem enough [DecidableEq X] (unfolds : Unfolds refers body f) :
    ∀ (S : Finset X) {a : X}, Acyclic refers a →
      (∀ b c, Relation.ReflTransGen refers a b → refers b c → b ∈ S) → (f (S.card + 1) a).isSome := by
  intro S
  induction S using Finset.strongInduction with
  | H S ih =>
    intro a free inner
    rw [unfolds.succ, unfolds.ends_iff]
    intro b refer
    have member : a ∈ S := inner a b .refl refer
    have fewer : (S.erase a).card + 1 = S.card := Finset.card_erase_add_one member
    rw [← fewer]
    refine ih (S.erase a) (Finset.erase_ssubset member) ?_ ?_
    · exact fun d path => free d (.head refer path)
    · intro c d path next
      -- a node below `a` is not `a` again
      have other : c ≠ a := by
        rintro rfl
        exact free c .refl (Relation.TransGen.head' refer path)
      exact Finset.mem_erase.mpr ⟨other, inner c d (.head refer path) next⟩

/-- Where the nodes that refer to something are in a finite set, the recursion returns exactly if it reaches no cycle. -/
theorem returns_iff [DecidableEq X] (unfolds : Unfolds refers body f) {S : Finset X} (inner : ∀ b c, refers b c → b ∈ S)
    (a : X) : (∃ fuel, (f fuel a).isSome) ↔ Acyclic refers a := by
  constructor
  · rintro ⟨fuel, ends⟩
    exact unfolds.acyclic ends
  · intro free
    exact ⟨S.card + 1, unfolds.enough S free fun b c _ refer => inner b c refer⟩

end Unfolds

end Unfolds

end KubeKey.Go
