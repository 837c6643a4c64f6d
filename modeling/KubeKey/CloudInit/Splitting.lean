import KubeKey.CloudInit.Chomped
import KubeKey.CloudInit.Parts

/-!
# Splitting and parsing

`getActions` on a document that is a mapping. If it gives no error, its actions are those of the
keys of the document in two cases only: every key is a word of letters and underscores at the
beginning of a line with its colon right behind it, and no part ends with a block scalar that is
used: `strings.Join` does not put the newline of its last line back.

The decoder of YAML is library code. It is used on the document and on parts of it, so what is
assumed of it says how the two agree: `Composes`.
-/

namespace KubeKey.CloudInit

open KubeKey.Text

/-- The lines have no line breaks in them. -/
def Clean (ls : List Chars) : Prop := ∀ l ∈ ls, '\n' ∉ l ∧ '\r' ∉ l

/-- A line does not fit, or an action does not take its part. -/
def Refused (lib : Libraries) (d : Document) : Prop :=
  (∃ l ∈ d.raw, maxScanTokenSize ≤ bytes l) ∨ ∃ part ∈ parts [] d.content, partAction lib part = none

end KubeKey.CloudInit
