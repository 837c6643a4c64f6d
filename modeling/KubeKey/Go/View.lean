import Mathlib.Data.List.Basic

/-!
# Trees as path views, and the right-biased overlay

A nested value is observed through its view: the shape found at every key path,
`none` where there is nothing. Two views agree at every path exactly when the
values are deeply equal, whatever the order of map entries and the sharing
between containers.

`overlay a b` is the recursive merge in which `b` wins. `opens s k` says that a
merge continues below key `k` of a position of shape `s` (for maps: always). The
value of the merge at a path is `b`'s as soon as `b` decides the path, that is,
holds something there or holds a value on the way that does not open, and `a`'s
otherwise. Layers are folded from the lowest to the highest, so the last layer
that decides a path gives its value (`stack_append`).
-/

namespace KubeKey.Go

universe u v
variable {K : Type u} {S : Type v}

/-- The shape found at every path. -/
abbrev View (K : Type u) (S : Type v) := List K → Option S

namespace View

/-- The view below one key. -/
def sub (a : View K S) (k : K) : View K S := fun p => a (k :: p)

/-- Nothing is found below a missing value. -/
def PrefixClosed (a : View K S) : Prop := ∀ p q, a p = none → a (p ++ q) = none

section Overlay
variable (opens : S → K → Bool)

/-- `a` holds a value at the path, or one that does not open on the way to it. -/
def decides (a : View K S) : List K → Bool
  | [] => (a []).isSome
  | k :: p => match a [] with
    | none => false
    | some s => if opens s k then decides (a.sub k) p else true

/-- Recursive merge of maps, `b` over `a`. -/
def overlay (a b : View K S) : View K S := fun p => if b.decides opens p then b p else a p

/-- Layers folded over `base` from the lowest to the highest. -/
def stack (base : View K S) (layers : List (View K S)) : View K S := layers.foldl (overlay opens) base

/-- Some layer decides the path. -/
def anyDecides (layers : List (View K S)) (p : List K) : Bool := layers.any fun a => a.decides opens p

variable {opens}

theorem decides_cons_open {a : View K S} {s : S} {k : K} (root : a [] = some s) (isOpen : opens s k = true)
    (p : List K) : a.decides opens (k :: p) = (a.sub k).decides opens p := by
  simp [decides, root, isOpen]

theorem decides_cons_shut {a : View K S} {s : S} {k : K} (root : a [] = some s) (shut : opens s k = false)
    (p : List K) : a.decides opens (k :: p) = true := by
  simp [decides, root, shut]

theorem decides_cons_none {a : View K S} (root : a [] = none) (k : K) (p : List K) :
    a.decides opens (k :: p) = false := by
  simp [decides, root]

@[simp] theorem decides_empty (p : List K) : decides opens (fun _ => none : View K S) p = false := by
  cases p <;> rfl

theorem PrefixClosed.sub {a : View K S} (closed : a.PrefixClosed) (k : K) : (a.sub k).PrefixClosed :=
  fun p q absent => closed (k :: p) q absent

/-- A path where a tree holds something is decided by it. -/
theorem decides_of_some {a : View K S} (closed : a.PrefixClosed) {p : List K} (held : (a p).isSome) :
    a.decides opens p = true := by
  induction p generalizing a with
  | nil => exact held
  | cons k p ih =>
    cases root : a [] with
    | none =>
      have absent : a (k :: p) = none := closed [] (k :: p) root
      simp [absent] at held
    | some s =>
      cases isOpen : opens s k with
      | false => exact decides_cons_shut root isOpen p
      | true =>
        rw [decides_cons_open root isOpen]
        exact ih (closed.sub k) held

/-- Below a value that does not open everything is decided. -/
theorem decides_below {a : View K S} (closed : a.PrefixClosed) {p : List K} {s : S} (held : a p = some s) {k : K}
    (shut : opens s k = false) (q : List K) : a.decides opens (p ++ k :: q) = true := by
  induction p generalizing a with
  | nil => exact decides_cons_shut held shut q
  | cons k' p ih =>
    cases root : a [] with
    | none =>
      have absent : a (k' :: p) = none := closed [] (k' :: p) root
      rw [absent] at held
      cases held
    | some s' =>
      cases isOpen : opens s' k' with
      | false => exact decides_cons_shut root isOpen (p ++ k :: q)
      | true =>
        rw [List.cons_append, decides_cons_open root isOpen]
        exact ih (closed.sub k') held

theorem none_of_not_decides {a : View K S} (closed : a.PrefixClosed) {p : List K}
    (undecided : a.decides opens p = false) : a p = none := by
  cases held : a p with
  | none => rfl
  | some s =>
    rw [decides_of_some closed (by simp [held])] at undecided
    cases undecided

theorem overlay_of_decides {a b : View K S} {p : List K} (decided : b.decides opens p = true) :
    overlay opens a b p = b p := by
  simp [overlay, decided]

theorem overlay_of_not_decides {a b : View K S} {p : List K} (undecided : b.decides opens p = false) :
    overlay opens a b p = a p := by
  simp [overlay, undecided]

/-- Below an open position the merge continues with the two values found there. -/
theorem sub_overlay {a b : View K S} {s : S} {k : K} (root : b [] = some s) (isOpen : opens s k = true) :
    (overlay opens a b).sub k = overlay opens (a.sub k) (b.sub k) := by
  funext p
  simp only [sub, overlay, decides_cons_open root isOpen]

/-- Below a path that is decided without a value everything is decided. -/
theorem decides_append {a : View K S} {p : List K} (decided : a.decides opens p = true) (absent : a p = none)
    (q : List K) : a.decides opens (p ++ q) = true := by
  induction p generalizing a with
  | nil =>
    rw [decides, absent] at decided
    cases decided
  | cons k p ih =>
    cases root : a [] with
    | none =>
      rw [decides_cons_none root] at decided
      cases decided
    | some s =>
      cases isOpen : opens s k with
      | false => exact decides_cons_shut root isOpen (p ++ q)
      | true =>
        rw [decides_cons_open root isOpen] at decided
        rw [List.cons_append, decides_cons_open root isOpen]
        exact ih decided absent

/-- Below a path that is not decided nothing is. -/
theorem not_decides_append {a : View K S} {p : List K} (undecided : a.decides opens p = false) (q : List K) :
    a.decides opens (p ++ q) = false := by
  induction p generalizing a with
  | nil =>
    have root : a [] = none := by simpa [decides] using undecided
    cases q with
    | nil => exact undecided
    | cons k q => exact decides_cons_none root k q
  | cons k p ih =>
    cases root : a [] with
    | none => exact decides_cons_none root k (p ++ q)
    | some s =>
      cases isOpen : opens s k with
      | false =>
        rw [decides_cons_shut root isOpen] at undecided
        cases undecided
      | true =>
        rw [decides_cons_open root isOpen] at undecided
        rw [List.cons_append, decides_cons_open root isOpen]
        exact ih undecided

theorem PrefixClosed.overlay {a b : View K S} (lower : a.PrefixClosed) (upper : b.PrefixClosed) :
    (View.overlay opens a b).PrefixClosed := by
  intro p q absent
  cases decided : b.decides opens p with
  | true =>
    rw [overlay_of_decides decided] at absent
    rw [overlay_of_decides (decides_append decided absent q)]
    exact upper p q absent
  | false =>
    rw [overlay_of_not_decides decided] at absent
    rw [overlay_of_not_decides (not_decides_append decided q)]
    exact lower p q absent

section Stack
variable {base base' : View K S}

theorem stack_of_not_anyDecides {layers : List (View K S)} {p : List K}
    (undecided : anyDecides opens layers p = false) : stack opens base layers p = base p := by
  induction layers generalizing base with
  | nil => rfl
  | cons a layers ih =>
    rw [anyDecides, List.any_cons, Bool.or_eq_false_iff] at undecided
    exact (ih undecided.2).trans (overlay_of_not_decides undecided.1)

/-- A path that some layer decides does not depend on what is below the layers. -/
theorem stack_congr {layers : List (View K S)} {p : List K} (decided : anyDecides opens layers p = true) :
    stack opens base layers p = stack opens base' layers p := by
  induction layers generalizing base base' with
  | nil => cases decided
  | cons a layers ih =>
    cases later : anyDecides opens layers p with
    | true => exact ih later
    | false =>
      rw [anyDecides, List.any_cons, Bool.or_eq_true] at decided
      have here : a.decides opens p = true := by
        rcases decided with here | there
        · exact here
        · rw [anyDecides] at later
          rw [later] at there
          cases there
      calc stack opens base (a :: layers) p = overlay opens base a p := stack_of_not_anyDecides later
        _ = a p := overlay_of_decides here
        _ = overlay opens base' a p := (overlay_of_decides here).symm
        _ = stack opens base' (a :: layers) p := (stack_of_not_anyDecides later).symm

/-- The upper layers win where one of them decides. -/
theorem stack_append (lower upper : List (View K S)) (p : List K) :
    stack opens base (lower ++ upper) p =
      if anyDecides opens upper p then stack opens base upper p else stack opens base lower p := by
  have split : stack opens base (lower ++ upper) = stack opens (stack opens base lower) upper := List.foldl_append
  rw [split]
  split
  · next decided => exact stack_congr decided
  · next undecided => exact stack_of_not_anyDecides (by simpa using undecided)

theorem PrefixClosed.stack (closed : base.PrefixClosed) {layers : List (View K S)}
    (all : ∀ a ∈ layers, a.PrefixClosed) : (View.stack opens base layers).PrefixClosed := by
  induction layers generalizing base with
  | nil => exact closed
  | cons a layers ih =>
    exact ih (closed.overlay (all a (by simp))) fun b member => all b (by simp [member])

end Stack

@[simp] theorem overlay_empty (a : View K S) : overlay opens a (fun _ => none) = a := by
  funext p
  exact overlay_of_not_decides (decides_empty p)

end Overlay

end View

end KubeKey.Go
