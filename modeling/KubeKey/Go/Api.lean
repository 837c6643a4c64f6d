import Mathlib.Data.List.Forall2
import Mathlib.Logic.Function.Basic
import Mathlib.Logic.Relation

/-!
# Programs that call an API

A program is a tree of requests: after each one it goes on with the answer. Any number of
programs share a world, which a request may change, and an interleaving takes one answer
of one program after another. An answer is a relation, so that a request may fail, succeed
or do both in different runs.

`Ensures` says that a program keeps to its postcondition whatever the others do, as long
as the world changes along a relation that every answer keeps to, and `Interleaving.ensures`
carries it through every interleaving.
-/

namespace KubeKey.Go

universe u v
variable {ι Req World : Type u} {Resp : Req → Type u} {α β ε : Type v}

/-- A program that makes requests. -/
inductive Program (Resp : Req → Type u) (α : Type v) where
  | ret (a : α)
  | call (r : Req) (next : Resp r → Program Resp α)

namespace Program

/-- One program after another. The second is not started if the first one ends with an error. -/
def andThen : Program Resp (Except ε α) → (α → Program Resp (Except ε β)) → Program Resp (Except ε β)
  | ret (.error err), _ => ret (.error err)
  | ret (.ok a), f => f a
  | call r next, f => call r fun answer => (next answer).andThen f

/-- The same program for each element of a list, up to the first error. -/
def forEach (f : α → Program Resp (Except ε β)) : List α → Program Resp (Except ε (List β))
  | [] => ret (.ok [])
  | a :: rest => (f a).andThen fun b => (forEach f rest).andThen fun bs => ret (.ok (b :: bs))

variable {answers : World → (r : Req) → Resp r → World → Prop}

/-- The programs and the world they share. -/
structure System (ι World : Type u) (Resp : Req → Type u) (α : Type v) where
  world : World
  program : ι → Program Resp α

/-- A program gets the answer to its request. -/
inductive Step [DecidableEq ι] (answers : World → (r : Req) → Resp r → World → Prop) :
    System ι World Resp α → System ι World Resp α → Prop where
  | answered {s : System ι World Resp α} {i : ι} {r : Req} {next : Resp r → Program Resp α} {answer : Resp r}
      {world : World} (asks : s.program i = .call r next) (answered : answers s.world r answer world) :
      Step answers s ⟨world, Function.update s.program i (next answer)⟩

/-- Any number of steps. -/
abbrev Interleaving [DecidableEq ι] (answers : World → (r : Req) → Resp r → World → Prop) :
    System ι World Resp α → System ι World Resp α → Prop :=
  Relation.ReflTransGen (Step answers)

/-- Every answer, to whichever program, changes the world along `R`. -/
structure Rely (answers : World → (r : Req) → Resp r → World → Prop) (R : World → World → Prop) : Prop where
  refl : ∀ w, R w w
  trans : ∀ a b c, R a b → R b c → R a c
  keeps : ∀ w r answer w', answers w r answer w' → R w w'

/-- From `w` on the program ends in `post` only, if the others change the world along `R`. -/
def Ensures (answers : World → (r : Req) → Resp r → World → Prop) (R : World → World → Prop)
    (post : World → α → Prop) : World → Program Resp α → Prop
  | w, ret a => ∀ w', R w w' → post w' a
  | w, call r next => ∀ w', R w w' → ∀ answer w'', answers w' r answer w'' → Ensures answers R post w'' (next answer)

section Rules
variable {R : World → World → Prop} {post post' : World → α → Prop} {w w' : World} {p : Program Resp α}

/-- The others may do something first. -/
theorem Ensures.changed (rely : Rely answers R) (ensures : Ensures answers R post w p) (changed : R w w') :
    Ensures answers R post w' p := by
  cases p with
  | ret a => exact fun w'' later => ensures w'' (rely.trans _ _ _ changed later)
  | call r next => exact fun w'' later => ensures w'' (rely.trans _ _ _ changed later)

theorem Ensures.mono (ensures : Ensures answers R post w p) (weaker : ∀ w a, post w a → post' w a) :
    Ensures answers R post' w p := by
  induction p generalizing w with
  | ret a => exact fun w' changed => weaker w' a (ensures w' changed)
  | call r next ih =>
    exact fun w' changed answer w'' answered => ih answer (ensures w' changed answer w'' answered)

/-- What the others keep is still so at the end. -/
theorem Ensures.kept (rely : Rely answers R) (K : World → Prop) (ensures : Ensures answers R post w p) (known : K w)
    (keeps : ∀ w w', R w w' → K w → K w') : Ensures answers R (fun w a => post w a ∧ K w) w p := by
  induction p generalizing w with
  | ret a => exact fun w' changed => ⟨ensures w' changed, keeps w w' changed known⟩
  | call r next ih =>
    intro w' changed answer w'' answered
    refine ih answer (ensures w' changed answer w'' answered) ?_
    exact keeps w' w'' (rely.keeps _ _ _ _ answered) (keeps w w' changed known)

/-- The second program starts in a world that the first one's postcondition describes. -/
theorem ensures_andThen (between : World → α → Prop) {p : Program Resp (Except ε α)}
    {f : α → Program Resp (Except ε β)} {post : World → Except ε β → Prop} (rely : Rely answers R)
    (fails : ∀ w err, post w (.error err))
    (first : Ensures answers R (fun w result => ∀ a, result = .ok a → between w a) w p)
    (second : ∀ w a, between w a → Ensures answers R post w (f a)) : Ensures answers R post w (p.andThen f) := by
  induction p generalizing w with
  | ret result =>
    cases result with
    | error err => exact fun w' _ => fails w' err
    | ok a => exact second w a (first w (rely.refl w) a rfl)
  | call r next ih => exact fun w' changed answer w'' answered => ih answer (first w' changed answer w'' answered)

/-- A loop, if what is known of an element before and after its round is kept by the others. -/
theorem ensures_forEach (rely : Rely answers R) {f : α → Program Resp (Except ε β)} {P : World → α → Prop}
    {Q : World → α → β → Prop} (stableP : ∀ w w' a, R w w' → P w a → P w' a)
    (stableQ : ∀ w w' a b, R w w' → Q w a b → Q w' a b)
    (round : ∀ w a, P w a → Ensures answers R (fun w result => ∀ b, result = .ok b → Q w a b) w (f a))
    {l : List α} (known : ∀ a ∈ l, P w a) :
    Ensures answers R (fun w result => ∀ bs, result = .ok bs → List.Forall₂ (Q w) l bs) w (forEach f l) := by
  induction l generalizing w with
  | nil =>
    intro w' _ bs same
    cases same
    exact .nil
  | cons a l ih =>
    -- the elements that are left are still known after the first round, and the first result after the others
    have first := (round w a (known a List.mem_cons_self)).kept rely (fun w => ∀ a ∈ l, P w a)
      (fun a inside => known a (List.mem_cons_of_mem _ inside))
      fun w w' changed all a inside => stableP w w' a changed (all a inside)
    refine ensures_andThen (fun w b => Q w a b ∧ ∀ a ∈ l, P w a) rely (fun w err bs same => by cases same)
      (first.mono fun w result both b same => ⟨both.1 b same, both.2⟩) ?_
    rintro w b ⟨here, rest⟩
    have later := (ih rest).kept rely (Q · a b) here fun w w' changed here => stableQ w w' a b changed here
    refine ensures_andThen (fun w bs => List.Forall₂ (Q w) (a :: l) (b :: bs)) rely
      (fun w err bs same => by cases same)
      (later.mono fun w result both bs same => .cons both.2 (both.1 bs same)) ?_
    intro w bs all w' changed bs' same
    cases same
    exact List.Forall₂.imp (stableQ w w' · · changed) all

end Rules

section Soundness
variable [DecidableEq ι] {R : World → World → Prop} {post : ι → World → α → Prop} {s t : System ι World Resp α}

/-- The world changes along `R` only. -/
theorem Interleaving.world (rely : Rely answers R) (run : Interleaving answers s t) : R s.world t.world := by
  induction run with
  | refl => exact rely.refl _
  | tail _ step ih =>
    cases step with
    | answered asks answered => exact rely.trans _ _ _ ih (rely.keeps _ _ _ _ answered)

/-- What every answer keeps of the world, an interleaving keeps. -/
theorem Interleaving.invariant {Inv : World → Prop} (keeps : ∀ w r answer w', Inv w → answers w r answer w' → Inv w')
    (inv : Inv s.world) (run : Interleaving answers s t) : Inv t.world := by
  induction run with
  | refl => exact inv
  | tail _ step ih =>
    cases step with
    | answered asks answered => exact keeps _ _ _ _ ih answered

/-- Every program keeps to its postcondition in every interleaving. -/
theorem Interleaving.ensures (rely : Rely answers R) (each : ∀ i, Ensures answers R (post i) s.world (s.program i))
    (run : Interleaving answers s t) : ∀ i, Ensures answers R (post i) t.world (t.program i) := by
  induction run with
  | refl => exact each
  | tail _ step ih =>
    cases step with
    | @answered i r next answer world asks answered =>
      intro j
      by_cases same : j = i
      · subst same
        have here := ih j
        rw [asks] at here
        simp only [Function.update_self]
        exact here _ (rely.refl _) answer world answered
      · simp only [Function.update_of_ne same]
        exact (ih j).changed rely (rely.keeps _ _ _ _ answered)

/-- A program that has returned has done so in its postcondition. -/
theorem Interleaving.returned (rely : Rely answers R) (each : ∀ i, Ensures answers R (post i) s.world (s.program i))
    (run : Interleaving answers s t) {i : ι} {a : α} (returned : t.program i = .ret a) : post i t.world a := by
  have ensures := run.ensures rely each i
  rw [returned] at ensures
  exact ensures t.world (rely.refl _)

end Soundness
end Program
end KubeKey.Go
