import Mathlib.Data.Set.Finite.Basic
import Mathlib.Order.RelClasses
import Mathlib.Data.Fintype.EquivFin

/-!
# Recursive procedures

Go code that calls itself without a bound on the depth is a body for every call: a program
that ends, panics, or makes a call and goes on with the reply. `Ends` is what a program comes
to, a panic of a call being one of the caller. A program that has no outcome calls deeper and
deeper. `Calls` are the calls that a program comes to make, and a call has an outcome if and
only if it is accessible along them (`ends_iff_acc`); with finitely many calls that means that
no call leads back to itself (`acc_of_acyclic`).

`Tracks` is a rule for programs that return errors: the references that the program has as
it stands cover the calls it makes, and it makes them all if it succeeds.
-/

namespace KubeKey.Go

theorem irrefl_of_acc {X : Type*} {r : X → X → Prop} {a : X} (acc : Acc r a) : ¬ r a a := by
  induction acc with
  | intro a _ ih => exact fun self => ih a self self

/-- What can be reached from `a` in one step or more has no cycle. -/
def Acyclic {X : Type*} (r : X → X → Prop) (a : X) : Prop :=
  ∀ d, Relation.ReflTransGen r a d → ¬ Relation.TransGen r d d

/-- If all that can be reached is in a finite set, or leads nowhere, then no cycles means an end. -/
theorem acc_of_acyclic {X : Type*} {r : X → X → Prop} {a : X} {S : Set X} (finite : S.Finite)
    (stays : ∀ c d, Relation.ReflTransGen r a c → r c d → d ∈ S ∨ ∀ e, ¬ r d e) (acyclic : Acyclic r a) :
    Acc (fun d c => r c d) a := by
  -- The part of `S` that is reached from `a`, with the order of being reached from one another.
  let T : Set X := {d | d ∈ S ∧ Relation.ReflTransGen r a d}
  have : Finite T := (finite.subset fun d inside => inside.1).to_subtype
  let below (d c : T) : Prop := Relation.TransGen r c.1 d.1
  have : IsTrans T below := ⟨fun _ _ _ first second => second.trans first⟩
  have : Std.Irrefl below := ⟨fun d => acyclic d.1 d.2.2⟩
  have wf : WellFounded below := Finite.wellFounded_of_trans_of_irrefl below
  have member : ∀ c : T, Acc (fun d c => r c d) c.1 := by
    intro c
    induction c using wf.induction with
    | _ c ih =>
      refine .intro _ fun d step => ?_
      obtain inside | leaf := stays c.1 d c.2.2 step
      · exact ih ⟨d, inside, c.2.2.tail step⟩ (.single step)
      · exact .intro _ fun e further => absurd further (leaf e)
  refine .intro _ fun d step => ?_
  obtain inside | leaf := stays a d .refl step
  · exact member ⟨d, inside, .single step⟩
  · exact .intro _ fun e further => absurd further (leaf e)

/-- A program that may call and may panic. -/
inductive Proc (Call : Type) (Reply : Call → Type) (α : Type) where
  | done (a : α)
  | panic
  | call (c : Call) (next : Reply c → Proc Call Reply α)

/-- What a program comes to. -/
inductive Outcome (α : Type) where
  | returned (a : α)
  | panicked

namespace Proc

variable {Call : Type} {Reply : Call → Type} {α β : Type}

protected def bind : Proc Call Reply α → (α → Proc Call Reply β) → Proc Call Reply β
  | .done a, f => f a
  | .panic, _ => .panic
  | .call c next, f => .call c fun r => (next r).bind f

instance : Monad (Proc Call Reply) where
  pure := .done
  bind := Proc.bind

/-- The outcome of a program, given the body of every call. -/
inductive Ends (body : ∀ c, Proc Call Reply (Reply c)) : {α : Type} → Proc Call Reply α → Outcome α → Prop where
  | done {α : Type} (a : α) : Ends body (.done a) (.returned a)
  | panic {α : Type} : Ends body (.panic : Proc Call Reply α) .panicked
  | callPanics {α : Type} {c : Call} {next : Reply c → Proc Call Reply α} (callee : Ends body (body c) .panicked) :
      Ends body (.call c next) .panicked
  | callReturns {α : Type} {c : Call} {next : Reply c → Proc Call Reply α} {r : Reply c} {o : Outcome α}
      (callee : Ends body (body c) (.returned r)) (rest : Ends body (next r) o) : Ends body (.call c next) o

/-- The calls that a program comes to make itself. -/
inductive Calls (body : ∀ c, Proc Call Reply (Reply c)) {α : Type} : Proc Call Reply α → Call → Prop where
  | here {c : Call} {next : Reply c → Proc Call Reply α} : Calls body (.call c next) c
  | later {c d : Call} {next : Reply c → Proc Call Reply α} {r : Reply c} (callee : Ends body (body c) (.returned r))
      (rest : Calls body (next r) d) : Calls body (.call c next) d

variable {body : ∀ c, Proc Call Reply (Reply c)} {p : Proc Call Reply α}

theorem Ends.unique {o o' : Outcome α} (ends : Ends body p o) (ends' : Ends body p o') : o = o' := by
  induction ends with
  | done a =>
    cases ends'
    rfl
  | panic =>
    cases ends'
    rfl
  | callPanics callee ih =>
    cases ends' with
    | callPanics _ => rfl
    | callReturns callee' _ => cases ih callee'
  | callReturns callee rest ihCallee ihRest =>
    cases ends' with
    | callPanics callee' => cases ihCallee callee'
    | callReturns callee' rest' =>
      cases ihCallee callee'
      exact ihRest rest'

/-- A program has an outcome if all its calls have. -/
theorem exists_ends (callees : ∀ d, Calls body p d → ∃ o, Ends body (body d) o) : ∃ o, Ends body p o := by
  induction p with
  | done a => exact ⟨_, .done a⟩
  | panic => exact ⟨_, .panic⟩
  | call c next ih =>
    obtain ⟨o, callee⟩ := callees c .here
    cases o with
    | panicked => exact ⟨_, .callPanics callee⟩
    | returned r =>
      obtain ⟨o, rest⟩ := ih r fun d made => callees d (.later callee made)
      exact ⟨o, .callReturns callee rest⟩

/-- One call makes another. -/
def Makes (body : ∀ c, Proc Call Reply (Reply c)) (c d : Call) : Prop := Calls body (body c) d

/-- Everything a program calls is accessible if it has an outcome. -/
theorem Ends.acc {o : Outcome α} (ends : Ends body p o) {d : Call} (made : Calls body p d) :
    Acc (fun d c => Makes body c d) d := by
  induction ends generalizing d with
  | done a => cases made
  | panic => cases made
  | callPanics callee ih =>
    cases made with
    | here => exact .intro _ fun e deeper => ih deeper
    | later callee' _ => cases callee.unique callee'
  | callReturns callee rest ihCallee ihRest =>
    cases made with
    | here => exact .intro _ fun e deeper => ihCallee deeper
    | later callee' made =>
      cases callee.unique callee'
      exact ihRest made

/-- A call has an outcome if and only if it is accessible along the calls made. -/
theorem ends_iff_acc (c : Call) : (∃ o, Ends body (body c) o) ↔ Acc (fun d c => Makes body c d) c := by
  constructor
  · rintro ⟨o, ends⟩
    exact .intro _ fun d made => ends.acc made
  · intro acc
    induction acc with
    | intro c _ ih => exact exists_ends ih

/-- A call that leads back to itself has no outcome. -/
theorem not_ends_of_cycle {c : Call} (cycle : Relation.TransGen (Makes body) c c) : ¬ ∃ o, Ends body (body c) o := by
  rw [ends_iff_acc]
  intro acc
  have acc' : Acc (Relation.TransGen fun d c => Makes body c d) c := acc.transGen
  exact irrefl_of_acc acc' (Relation.transGen_swap.mpr cycle)

/-- The program itself does not panic, whatever is replied to it. -/
def Quiet : Proc Call Reply α → Prop
  | .done _ => True
  | .panic => False
  | .call _ next => ∀ r, (next r).Quiet

/-- A panic of a quiet program is one of its calls. -/
theorem Ends.panicked (quiet : p.Quiet) (ends : Ends body p .panicked) :
    ∃ d, Calls body p d ∧ Ends body (body d) .panicked := by
  induction p with
  | done a => cases ends
  | panic => cases quiet
  | call c next ih =>
    cases ends with
    | callPanics callee => exact ⟨c, .here, callee⟩
    | callReturns callee rest =>
      obtain ⟨d, made, panics⟩ := ih _ (quiet _) rest
      exact ⟨d, .later callee made, panics⟩

/-- Nobody recovers from the panic of a call. -/
theorem Calls.panics {d : Call} (made : Calls body p d) (callee : Ends body (body d) .panicked) :
    Ends body p .panicked := by
  induction made with
  | here => exact .callPanics callee
  | later returns _ ih => exact .callReturns returns (ih callee)

/-- A call panics if it leads to one that does. -/
theorem panics_of_reaches {c d : Call} (reaches : Relation.ReflTransGen (Makes body) c d)
    (callee : Ends body (body d) .panicked) : Ends body (body c) .panicked := by
  induction reaches using Relation.ReflTransGen.head_induction_on with
  | refl => exact callee
  | head made _ ih => exact Calls.panics made ih

/-- A call that panics leads to one whose body does. -/
theorem reaches_of_panics {c : Call} (panics : Ends body (body c) .panicked) :
    ∃ d, Relation.ReflTransGen (Makes body) c d ∧ ¬ (body d).Quiet := by
  have acc := (ends_iff_acc c).mp ⟨_, panics⟩
  induction acc with
  | intro c _ ih =>
    by_cases quiet : (body c).Quiet
    · obtain ⟨d, made, panics'⟩ := panics.panicked quiet
      obtain ⟨e, reaches, loud⟩ := ih d made panics'
      exact ⟨e, .head made reaches, loud⟩
    · exact ⟨c, .refl, quiet⟩

theorem quiet_bind {f : α → Proc Call Reply β} (first : p.Quiet) (rest : ∀ a, (f a).Quiet) : (p.bind f).Quiet := by
  induction p with
  | done a => exact rest a
  | panic => cases first
  | call c next ih => exact fun r => ih r (first r)

theorem ends_bind {f : α → Proc Call Reply β} {o : Outcome β} :
    Ends body (p.bind f) o ↔
      Ends body p .panicked ∧ o = .panicked ∨ ∃ a, Ends body p (.returned a) ∧ Ends body (f a) o := by
  induction p with
  | done a =>
    constructor
    · intro ends
      exact .inr ⟨a, .done a, ends⟩
    · rintro (⟨panics, -⟩ | ⟨_, returns, rest⟩)
      · cases panics
      · cases returns
        exact rest
  | panic =>
    constructor
    · intro ends
      cases ends
      exact .inl ⟨.panic, rfl⟩
    · rintro (⟨-, rfl⟩ | ⟨_, returns, -⟩)
      · exact .panic
      · cases returns
  | call c next ih =>
    constructor
    · intro ends
      cases ends with
      | callPanics callee => exact .inl ⟨.callPanics callee, rfl⟩
      | callReturns callee rest =>
        obtain ⟨panics, same⟩ | ⟨a, returns, rest⟩ := (ih _).mp rest
        · exact .inl ⟨.callReturns callee panics, same⟩
        · exact .inr ⟨a, .callReturns callee returns, rest⟩
    · rintro (⟨panics, rfl⟩ | ⟨a, returns, rest⟩)
      · cases panics with
        | callPanics callee => exact .callPanics callee
        | callReturns callee panics => exact .callReturns callee ((ih _).mpr (.inl ⟨panics, rfl⟩))
      · cases returns with
        | callReturns callee returns => exact .callReturns callee ((ih _).mpr (.inr ⟨a, returns, rest⟩))

theorem calls_bind {f : α → Proc Call Reply β} {d : Call} :
    Calls body (p.bind f) d ↔ Calls body p d ∨ ∃ a, Ends body p (.returned a) ∧ Calls body (f a) d := by
  induction p with
  | done a =>
    constructor
    · intro made
      exact .inr ⟨a, .done a, made⟩
    · rintro (made | ⟨_, returns, made⟩)
      · cases made
      · cases returns
        exact made
  | panic =>
    constructor
    · intro made
      cases made
    · rintro (made | ⟨_, returns, -⟩)
      · cases made
      · cases returns
  | call c next ih =>
    constructor
    · intro made
      cases made with
      | here => exact .inl .here
      | later callee made =>
        obtain made | ⟨a, returns, made⟩ := (ih _).mp made
        · exact .inl (.later callee made)
        · exact .inr ⟨a, .callReturns callee returns, made⟩
    · rintro (made | ⟨a, returns, made⟩)
      · cases made with
        | here => exact .here
        | later callee made => exact .later callee ((ih _).mpr (.inl made))
      · cases returns with
        | callReturns callee returns => exact .later callee ((ih _).mpr (.inr ⟨a, returns, made⟩))

end Proc

/-! ## Programs that return errors -/

section Fallible

variable {ε Call : Type} {Out : Call → Type} {α β : Type}

/-- A program that ends with a value or with an error, as do the procedures that it calls. -/
abbrev Fallible (ε Call : Type) (Out : Call → Type) (α : Type) := ExceptT ε (Proc Call fun c => Except ε (Out c)) α

namespace Fallible

/-- A call; an error of it is one of the caller. -/
def invoke (c : Call) : Fallible ε Call Out (Out c) := ExceptT.mk (.call c .done)

/-- A value that is there already, or an error. -/
def ofResult (x : Except ε α) : Fallible ε Call Out α := ExceptT.mk (.done x)

/-- Another error for the caller. -/
def wrap (f : ε → ε) (x : Fallible ε Call Out α) : Fallible ε Call Out α :=
  ExceptT.mk (Proc.bind x.run fun
    | .ok a => .done (.ok a)
    | .error e => .done (.error (f e)))

/-- The results for the members of a list, in order. -/
def each (f : α → Fallible ε Call Out β) : List α → Fallible ε Call Out (List β)
  | [] => pure []
  | a :: rest => do
    let b ← f a
    let later ← each f rest
    pure (b :: later)

variable {body : ∀ c, Fallible ε Call Out (Out c)}

/-- The program succeeds with a value. -/
def Succeeds (body : ∀ c, Fallible ε Call Out (Out c)) (x : Fallible ε Call Out α) (a : α) : Prop :=
  Proc.Ends (fun c => (body c).run) x.run (.returned (.ok a))

/-- The program comes to make the call. -/
def Makes (body : ∀ c, Fallible ε Call Out (Out c)) (x : Fallible ε Call Out α) (d : Call) : Prop :=
  Proc.Calls (fun c => (body c).run) x.run d

variable {x : Fallible ε Call Out α} {f : α → Fallible ε Call Out β}

theorem run_bind : (x >>= f).run = Proc.bind x.run (ExceptT.bindCont f) := rfl

theorem Succeeds.unique {a a' : α} (succeeds : Succeeds body x a) (succeeds' : Succeeds body x a') : a = a' := by
  cases Proc.Ends.unique succeeds succeeds'
  rfl

theorem succeeds_pure {a a' : α} : Succeeds body (pure a) a' ↔ a = a' := by
  constructor
  · intro succeeds
    cases succeeds
    rfl
  · rintro rfl
    exact .done _

theorem succeeds_ofResult {r : Except ε α} {a : α} : Succeeds body (ofResult r) a ↔ r = .ok a := by
  constructor
  · intro succeeds
    cases succeeds
    rfl
  · rintro rfl
    exact .done _

theorem not_succeeds_throw {e : ε} {a : α} : ¬ Succeeds body (throw e) a := by
  intro succeeds
  cases succeeds

theorem succeeds_invoke {c : Call} {a : Out c} : Succeeds body (invoke c) a ↔ Succeeds body (body c) a := by
  constructor
  · intro succeeds
    cases succeeds with
    | callReturns callee rest =>
      cases rest
      exact callee
  · intro callee
    exact .callReturns callee (.done _)

theorem succeeds_bind {b : β} : Succeeds body (x >>= f) b ↔ ∃ a, Succeeds body x a ∧ Succeeds body (f a) b := by
  unfold Succeeds
  rw [run_bind, Proc.ends_bind]
  constructor
  · rintro (⟨-, ⟨⟩⟩ | ⟨r, returns, rest⟩)
    cases r with
    | ok a => exact ⟨a, returns, rest⟩
    | error e => cases rest
  · rintro ⟨a, returns, rest⟩
    exact .inr ⟨.ok a, returns, rest⟩

theorem makes_bind {d : Call} :
    Makes body (x >>= f) d ↔ Makes body x d ∨ ∃ a, Succeeds body x a ∧ Makes body (f a) d := by
  unfold Makes Succeeds
  rw [run_bind, Proc.calls_bind]
  constructor
  · rintro (made | ⟨r, returns, made⟩)
    · exact .inl made
    · cases r with
      | ok a => exact .inr ⟨a, returns, made⟩
      | error e => cases made
  · rintro (made | ⟨a, returns, made⟩)
    · exact .inl made
    · exact .inr ⟨.ok a, returns, made⟩

theorem succeeds_wrap {g : ε → ε} {a : α} : Succeeds body (wrap g x) a ↔ Succeeds body x a := by
  unfold Succeeds wrap
  rw [ExceptT.run_mk, Proc.ends_bind]
  constructor
  · rintro (⟨-, ⟨⟩⟩ | ⟨r, returns, rest⟩)
    cases r with
    | ok a' =>
      cases rest
      exact returns
    | error e => cases rest
  · intro succeeds
    exact .inr ⟨.ok a, succeeds, .done _⟩

theorem makes_wrap {g : ε → ε} {d : Call} : Makes body (wrap g x) d ↔ Makes body x d := by
  unfold Makes wrap
  rw [ExceptT.run_mk, Proc.calls_bind]
  constructor
  · rintro (made | ⟨r, -, made⟩)
    · exact made
    · cases r <;> cases made
  · exact .inl

/-- Every result of a list is the one of a member. -/
theorem exists_of_succeeds_each {l : List α} {later : List β} (succeeds : Succeeds body (each f l) later) {b : β}
    (inside : b ∈ later) : ∃ a ∈ l, Succeeds body (f a) b := by
  induction l generalizing later with
  | nil =>
    cases succeeds_pure.mp succeeds
    cases inside
  | cons a rest ih =>
    obtain ⟨b', first, succeeds⟩ := succeeds_bind.mp succeeds
    obtain ⟨bs, others, succeeds⟩ := succeeds_bind.mp succeeds
    cases succeeds_pure.mp succeeds
    obtain rfl | inside := List.mem_cons.mp inside
    · exact ⟨a, List.mem_cons_self, first⟩
    · obtain ⟨a', member, found⟩ := ih others inside
      exact ⟨a', List.mem_cons_of_mem _ member, found⟩

/-- The references of a program: it calls nothing else, and if it succeeds it has made these calls, with success. -/
structure Tracks (body : ∀ c, Fallible ε Call Out (Out c)) (x : Fallible ε Call Out α) (refs : Set Call) : Prop where
  calls : ∀ d, Makes body x d → d ∈ refs
  followed : ∀ a, Succeeds body x a → ∀ d ∈ refs, Makes body x d ∧ ∃ r, Succeeds body (body d) r

namespace Tracks

theorem done (r : Except ε α) : Tracks body (ofResult r) ∅ where
  calls d made := by cases made
  followed a _ d inside := inside.elim

theorem pure (a : α) : Tracks body (Pure.pure a) ∅ := done (.ok a)

/-- A program that fails at once may have any references. -/
theorem throw (e : ε) (refs : Set Call) : Tracks body (MonadExcept.throw e : Fallible ε Call Out α) refs where
  calls d made := by cases made
  followed a succeeds := absurd succeeds not_succeeds_throw

theorem invoke (c : Call) : Tracks body (invoke c) {c} where
  calls d made := by
    cases made with
    | here => rfl
    | later _ rest => cases rest
  followed r succeeds d inside := by
    cases inside
    exact ⟨.here, r, succeeds_invoke.mp succeeds⟩

theorem bind {refs refs' : Set Call} (first : Tracks body x refs)
    (rest : ∀ a, Succeeds body x a → Tracks body (f a) refs') : Tracks body (x >>= f) (refs ∪ refs') where
  calls d made := by
    obtain made | ⟨a, succeeds, made⟩ := makes_bind.mp made
    · exact .inl (first.calls d made)
    · exact .inr ((rest a succeeds).calls d made)
  followed b succeeds d inside := by
    obtain ⟨a, succeeds, later⟩ := succeeds_bind.mp succeeds
    obtain inside | inside := inside
    · obtain ⟨made, callee⟩ := first.followed a succeeds d inside
      exact ⟨makes_bind.mpr (.inl made), callee⟩
    · obtain ⟨made, callee⟩ := (rest a succeeds).followed b later d inside
      exact ⟨makes_bind.mpr (.inr ⟨a, succeeds, made⟩), callee⟩

/-- What is computed before the first call has no references. -/
theorem read {r : Except ε α} {refs : Set Call} (rest : ∀ a, r = .ok a → Tracks body (f a) refs) :
    Tracks body (ofResult r >>= f) refs := by
  have all := (done r).bind fun a succeeds => rest a (succeeds_ofResult.mp succeeds)
  rwa [Set.empty_union] at all

/-- Nor has what is computed after the last one. -/
theorem last {refs : Set Call} (tracks : Tracks body x refs) (rest : ∀ a, Succeeds body x a → Tracks body (f a) ∅) :
    Tracks body (x >>= f) refs := by
  have all := tracks.bind rest
  rwa [Set.union_empty] at all

theorem map {refs : Set Call} (tracks : Tracks body x refs) (g : α → β) :
    Tracks body (x >>= fun a => Pure.pure (g a)) refs :=
  tracks.last fun a _ => pure (g a)

theorem wrap {refs : Set Call} (tracks : Tracks body x refs) (g : ε → ε) : Tracks body (wrap g x) refs where
  calls d made := tracks.calls d (makes_wrap.mp made)
  followed a succeeds d inside := by
    rw [makes_wrap]
    exact tracks.followed a (succeeds_wrap.mp succeeds) d inside

theorem each {l : List α} {refs : α → Set Call} (members : ∀ a ∈ l, Tracks body (f a) (refs a)) :
    Tracks body (each f l) {d | ∃ a ∈ l, d ∈ refs a} := by
  induction l with
  | nil =>
    have none : {d | ∃ a ∈ ([] : List α), d ∈ refs a} = ∅ := by simp
    rw [none]
    exact pure []
  | cons a rest ih =>
    have split : {d | ∃ a' ∈ a :: rest, d ∈ refs a'} = refs a ∪ {d | ∃ a ∈ rest, d ∈ refs a} := by
      ext d
      simp
    rw [split]
    refine bind (members a List.mem_cons_self) fun b _ => ?_
    exact map (ih fun a inside => members a (List.mem_cons_of_mem _ inside)) _

end Tracks

/-- The program itself does not panic. -/
def Quiet (x : Fallible ε Call Out α) : Prop := x.run.Quiet

namespace Quiet

theorem done (r : Except ε α) : (ofResult r : Fallible ε Call Out α).Quiet := trivial

theorem pure (a : α) : (Pure.pure a : Fallible ε Call Out α).Quiet := trivial

theorem throw (e : ε) : (MonadExcept.throw e : Fallible ε Call Out α).Quiet := trivial

theorem invoke (c : Call) : (invoke c : Fallible ε Call Out (Out c)).Quiet := fun _ => trivial

theorem bind (first : x.Quiet) (rest : ∀ a, (f a).Quiet) : (x >>= f).Quiet := by
  refine Proc.quiet_bind first fun r => ?_
  cases r with
  | ok a => exact rest a
  | error e => trivial

theorem wrap (quiet : x.Quiet) (g : ε → ε) : (wrap g x).Quiet := by
  refine Proc.quiet_bind quiet fun r => ?_
  cases r <;> trivial

theorem each (members : ∀ a, (f a).Quiet) (l : List α) : (each f l).Quiet := by
  induction l with
  | nil => exact pure []
  | cons a rest ih => exact bind (members a) fun b => bind ih fun bs => pure _

end Quiet

/-- The calls of one call. -/
def CallsOf (body : ∀ c, Fallible ε Call Out (Out c)) (c d : Call) : Prop := Makes body (body c) d

/-- A call that succeeds has followed every reference that is reached from it. -/
theorem succeeds_of_refers {refs : Call → Set Call} (tracked : ∀ c, Tracks body (body c) (refs c)) {c d : Call}
    (reached : Relation.ReflTransGen (fun c d => d ∈ refs c) c d) {r : Out c} (succeeds : Succeeds body (body c) r) :
    ∃ r', Succeeds body (body d) r' := by
  induction reached with
  | refl => exact ⟨r, succeeds⟩
  | tail _ refers ih =>
    obtain ⟨r', succeeds'⟩ := ih
    exact ((tracked _).followed r' succeeds' _ refers).2

/-- The references from a call that succeeds have no cycle. -/
theorem acyclic_of_succeeds {refs : Call → Set Call} (tracked : ∀ c, Tracks body (body c) (refs c)) {c : Call}
    {r : Out c} (succeeds : Succeeds body (body c) r) : Acyclic (fun c d => d ∈ refs c) c := by
  intro d reached cycle
  have follows : ∀ e, Relation.TransGen (fun c d => d ∈ refs c) d e → Relation.TransGen (CallsOf body) d e := by
    intro e path
    induction path with
    | single refers =>
      obtain ⟨r', succeeds'⟩ := succeeds_of_refers tracked reached succeeds
      exact .single ((tracked _).followed r' succeeds' _ refers).1
    | tail path refers ih =>
      obtain ⟨r', succeeds'⟩ := succeeds_of_refers tracked (reached.trans path.to_reflTransGen) succeeds
      exact ih.tail ((tracked _).followed r' succeeds' _ refers).1
  obtain ⟨r', succeeds'⟩ := succeeds_of_refers tracked reached succeeds
  exact Proc.not_ends_of_cycle (follows d cycle) ⟨_, succeeds'⟩

end Fallible

end Fallible

end KubeKey.Go
