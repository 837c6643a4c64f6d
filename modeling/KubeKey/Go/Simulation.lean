import Mathlib.Logic.Basic

/-!
# Servers and refinement mappings

A server answers one operation after the other. Its specification is a relation between a
state, an operation, the reply to it and the next state. A refinement mapping takes the
states of the server to those of the specification; what the rule asks of one operation
then holds for every history.
-/

namespace KubeKey.Go

variable {State Abstract Op Reply : Type*}

/-- The operations with the replies to them, and the last state. -/
def serve (exec : State → Op → Reply × State) : State → List Op → List (Op × Reply) × State
  | s, [] => ([], s)
  | s, op :: ops =>
    let served := serve exec (exec s op).2 ops
    ((op, (exec s op).1) :: served.1, served.2)

/-- Every operation meets the condition in the state it is served in. -/
def Meets (exec : State → Op → Reply × State) (allowed : State → Op → Prop) : State → List Op → Prop
  | _, [] => True
  | s, op :: ops => allowed s op ∧ Meets exec allowed (exec s op).2 ops

/-- The specification admits the history between the two states. -/
inductive Admits (spec : Abstract → Op → Reply → Abstract → Prop) : Abstract → List (Op × Reply) → Abstract → Prop where
  | nil (a : Abstract) : Admits spec a [] a
  | cons {a b c : Abstract} {op : Op} {reply : Reply} {history : List (Op × Reply)} (first : spec a op reply b)
      (rest : Admits spec b history c) : Admits spec a ((op, reply) :: history) c

/-- The rule of refinement mappings, with an invariant of the server and a condition on the operations. -/
theorem refinement {exec : State → Op → Reply × State} {spec : Abstract → Op → Reply → Abstract → Prop}
    {allowed : State → Op → Prop} {Inv : State → Prop} {mapping : State → Abstract}
    (step : ∀ s op, Inv s → allowed s op →
      spec (mapping s) op (exec s op).1 (mapping (exec s op).2) ∧ Inv (exec s op).2)
    {s : State} {ops : List Op} (inv : Inv s) (meets : Meets exec allowed s ops) :
    Admits spec (mapping s) (serve exec s ops).1 (mapping (serve exec s ops).2) := by
  induction ops generalizing s with
  | nil => exact .nil _
  | cons op ops ih =>
    obtain ⟨here, later⟩ := meets
    obtain ⟨first, inv'⟩ := step s op inv here
    exact .cons first (ih inv' later)

end KubeKey.Go
