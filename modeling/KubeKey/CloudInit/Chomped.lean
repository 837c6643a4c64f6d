import KubeKey.CloudInit.Actions

/-!
# The last newline of a value

Two values that differ in the newline at the end of their last scalar, as a block scalar does that
loses the line break after it. A command is never the same then; a list of files is the same
unless the last file ends with one of its texts.
-/

namespace KubeKey.CloudInit

open KubeKey.Text

/-- The second value is the first without the newline at the end of its last scalar. -/
inductive Chomped : Value → Value → Prop where
  | str (s : Chars) : Chomped (.str (s ++ ['\n'])) (.str s)
  | item (front : List Value) {v v' : Value} (last : Chomped v v') :
    Chomped (.seq (front ++ [v])) (.seq (front ++ [v']))
  | field (front : List (Chars × Value)) (k : Chars) {v v' : Value} (last : Chomped v v') :
    Chomped (.map (front ++ [(k, v)])) (.map (front ++ [(k, v')]))
  | key (front : List (Chars × Value)) (k : Chars) :
    Chomped (.map (front ++ [(k ++ ['\n'], .null)])) (.map (front ++ [(k, .null)]))

/-! ## Actions of values -/

/-- The key of an action. -/
def Action.key : Action → Chars
  | .writeFiles _ => "write_files".toList
  | .runCmd _ => "runcmd".toList
  | .unknown module _ => module

theorem Chomped.seq_inv {items : List Value} {v' : Value} (chomped : Chomped (.seq items) v') :
    ∃ front x x', items = front ++ [x] ∧ v' = .seq (front ++ [x']) ∧ Chomped x x' := by
  cases chomped with
  | item front last => exact ⟨front, _, _, rfl, rfl, last⟩

end KubeKey.CloudInit
