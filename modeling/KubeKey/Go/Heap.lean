import KubeKey.Go.Map
import KubeKey.Go.View

/-!
# Go maps and slices on a heap

Maps and slices are references: two variables may hold the same container, and
a write through one of them is seen through the other. A container is an object
of the heap and a value holds its location. A slice is modelled by its backing
array; the code below never re-slices, so a slice value always spans its whole
array and growing one allocates a new array.

The element type of a container matters only when something is stored into it
by reflection, which panics unless the value is assignable (`Heap.admits`).
-/

namespace KubeKey.Go

/-- The Go types that are told apart. -/
inductive GoType where
  | any | bool | int | int64 | float64 | string | time
  | slice (elem : GoType)
  | map (elem : GoType)
deriving DecidableEq, Repr

/-- Values without identity. A `float64` is its bit pattern, a timestamp its text. -/
inductive Scalar where
  | null
  | bool (b : Bool)
  | int (i : Int)
  | int64 (i : Int)
  | float64 (bits : UInt64)
  | str (s : String)
  | time (text : String)
deriving DecidableEq, Repr

/-- A Go value as a variable of type `any` holds it. -/
inductive Val where
  | scalar (s : Scalar)
  | nilMap (elem : GoType)
  | nilSlice (elem : GoType)
  | ref (l : Nat)
deriving DecidableEq, Repr

/-- The `nil` interface. -/
abbrev Val.null : Val := .scalar .null

/-- A container: `map[string]elem` or the array behind a `[]elem`. -/
inductive Obj where
  | map (elem : GoType) (m : GoMap Val)
  | slice (elem : GoType) (items : List Val)
deriving DecidableEq

/-- One step of a path: a map key or a slice index. -/
inductive Seg where
  | key (k : String)
  | idx (i : Nat)
deriving DecidableEq, Repr

abbrev Path := List Seg

/-- What is seen of a value at one position. Nil and empty containers look alike. -/
inductive Shape where
  | scalar (s : Scalar)
  | map
  | slice (len : Nat)
deriving DecidableEq, Repr

/-- Merging continues below the keys of a map. -/
def Shape.opens : Shape → Seg → Bool
  | .map, .key _ => true
  | _, _ => false

/-- Deep values, compared path by path. -/
abbrev DeepView := View Seg Shape

namespace Obj

def child : Obj → Seg → Option Val
  | .map _ m, .key k => m.get? k
  | .slice _ items, .idx i => items[i]?
  | _, _ => none

/-- Overwrite or add one child; an index out of range is left alone. -/
def setChild : Obj → Seg → Val → Obj
  | .map t m, .key k, v => .map t (m.put k v)
  | .slice t items, .idx i, v => .slice t (items.set i v)
  | o, _, _ => o

/-- The positions that `setChild` can write. -/
def accepts : Obj → Seg → Bool
  | .map _ _, .key _ => true
  | .slice _ items, .idx i => i < items.length
  | _, _ => false

def elem : Obj → GoType
  | .map t _ => t
  | .slice t _ => t

def shape : Obj → Shape
  | .map _ _ => .map
  | .slice _ items => .slice items.length

theorem child_setChild_self {o : Obj} {s : Seg} (ok : o.accepts s = true) (v : Val) :
    (o.setChild s v).child s = some v := by
  cases o <;> cases s <;> simp_all [accepts, setChild, child]

theorem child_setChild_ne (o : Obj) {s s' : Seg} (other : s' ≠ s) (v : Val) :
    (o.setChild s v).child s' = o.child s' := by
  cases o <;> cases s <;> cases s' <;> simp only [setChild, child]
  · exact GoMap.get?_put_ne _ _ (by simpa using other)
  · exact List.getElem?_set_ne (by simpa using Ne.symm other)

theorem setChild_same {o : Obj} {s : Seg} {v : Val} (stored : o.child s = some v) : o.setChild s v = o := by
  cases o <;> cases s <;> simp only [child, setChild, reduceCtorEq] at stored ⊢
  · rw [GoMap.put_same stored]
  · obtain ⟨bound, same⟩ := List.getElem?_eq_some_iff.1 stored
    rw [← same, List.set_getElem_self]

theorem accepts_of_child {o : Obj} {s : Seg} {c : Val} (stored : o.child s = some c) : o.accepts s = true := by
  cases o <;> cases s <;> simp only [child, accepts, reduceCtorEq, decide_eq_true_eq] at stored ⊢
  exact (List.getElem?_eq_some_iff.1 stored).1

theorem setChild_of_not_accepts {o : Obj} {s : Seg} (no : o.accepts s = false) (v : Val) : o.setChild s v = o := by
  cases o <;> cases s <;> simp only [accepts, setChild, decide_eq_false_iff_not, reduceCtorEq] at no ⊢
  rw [List.set_eq_of_length_le (Nat.le_of_not_lt no)]

theorem shape_setChild (o : Obj) (s : Seg) (v : Val) : (o.setChild s v).shape = o.shape := by
  cases o <;> cases s <;> simp [setChild, shape]

end Obj

/-- The containers allocated so far. -/
structure Heap where
  objs : List Obj
deriving DecidableEq

namespace Heap

def empty : Heap := ⟨[]⟩

def size (h : Heap) : Nat := h.objs.length

def get? (h : Heap) (l : Nat) : Option Obj := h.objs[l]?

def alloc (h : Heap) (o : Obj) : Nat × Heap := (h.objs.length, ⟨h.objs ++ [o]⟩)

def set (h : Heap) (l : Nat) (o : Obj) : Heap := ⟨h.objs.set l o⟩

/-- Store one child into the container at `l`. -/
def setChild (h : Heap) (l : Nat) (s : Seg) (v : Val) : Heap :=
  match h.get? l with
  | some o => h.set l (o.setChild s v)
  | none => h

/-- The object a reference points to. -/
def deref (h : Heap) : Val → Option Obj
  | .ref l => h.get? l
  | _ => none

def child (h : Heap) (v : Val) (s : Seg) : Option Val := (h.deref v).bind (·.child s)

/-- The value at a path. -/
def resolve (h : Heap) (v : Val) : Path → Option Val
  | [] => some v
  | s :: p => (h.child v s).bind fun c => resolve h c p

def shape (h : Heap) : Val → Option Shape
  | .scalar s => some (.scalar s)
  | .nilMap _ => some .map
  | .nilSlice _ => some (.slice 0)
  | .ref l => (h.get? l).map Obj.shape

/-- The deep value of `v`. -/
def view (h : Heap) (v : Val) : DeepView := fun p => (h.resolve v p).bind h.shape

/-- The dynamic type of a value, `none` for the nil interface. -/
def typeOf (h : Heap) : Val → Option GoType
  | .scalar .null => none
  | .scalar (.bool _) => some .bool
  | .scalar (.int _) => some .int
  | .scalar (.int64 _) => some .int64
  | .scalar (.float64 _) => some .float64
  | .scalar (.str _) => some .string
  | .scalar (.time _) => some .time
  | .nilMap t => some (.map t)
  | .nilSlice t => some (.slice t)
  | .ref l => match h.get? l with
    | some (.map t _) => some (.map t)
    | some (.slice t _) => some (.slice t)
    | none => none

/-- Assignability of a value to an element type. -/
def admits (h : Heap) (elem : GoType) (v : Val) : Bool := elem = .any || h.typeOf v = some elem

section Reading
variable {h : Heap} {v : Val}

@[simp] theorem resolve_nil : h.resolve v [] = some v := rfl

theorem resolve_cons (s : Seg) (p : Path) :
    h.resolve v (s :: p) = (h.child v s).bind fun c => h.resolve c p := rfl

theorem resolve_append (p q : Path) :
    h.resolve v (p ++ q) = (h.resolve v p).bind fun c => h.resolve c q := by
  induction p generalizing v with
  | nil => rfl
  | cons s p ih =>
    simp only [List.cons_append, resolve_cons]
    cases h.child v s with
    | none => rfl
    | some c => simpa using ih

theorem resolve_concat (p : Path) (s : Seg) :
    h.resolve v (p ++ [s]) = (h.resolve v p).bind fun c => h.child c s := by
  rw [resolve_append]
  cases h.resolve v p with
  | none => rfl
  | some c => simp [resolve_cons]

theorem view_nil : h.view v [] = h.shape v := rfl

theorem view_cons (s : Seg) (p : Path) : h.view v (s :: p) = (h.child v s).bind fun c => h.view c p := by
  simp only [view, resolve_cons]
  cases h.child v s <;> rfl

theorem sub_view {s : Seg} {c : Val} (step : h.child v s = some c) : (h.view v).sub s = h.view c := by
  funext p
  simp only [View.sub, view_cons, step, Option.bind_some]

theorem sub_view_none {s : Seg} (step : h.child v s = none) : (h.view v).sub s = fun _ => none := by
  funext p
  simp only [View.sub, view_cons, step, Option.bind_none]

theorem view_prefixClosed (h : Heap) (v : Val) : (h.view v).PrefixClosed := by
  intro p q absent
  simp only [view, resolve_append] at absent ⊢
  cases reached : h.resolve v p with
  | none => rfl
  | some c =>
    rw [reached, Option.bind_some] at absent
    cases q with
    | nil => simpa using absent
    | cons s q =>
      have step : h.child c s = none := by
        cases c with
        | ref l => simp_all [shape, child, deref]
        | _ => rfl
      simp [resolve_cons, step]

theorem view_append {p : Path} {c : Val} (reached : h.resolve v p = some c) (q : Path) :
    h.view v (p ++ q) = h.view c q := by
  simp only [view, resolve_append, reached, Option.bind_some]

theorem child_ref {l : Nat} {o : Obj} (found : h.get? l = some o) (s : Seg) :
    h.child (.ref l) s = o.child s := by
  simp [child, deref, found]

theorem child_eq_some {s : Seg} {c : Val} (step : h.child v s = some c) :
    ∃ l o, v = .ref l ∧ h.get? l = some o ∧ o.child s = some c := by
  cases v with
  | ref l =>
    obtain ⟨o, found, stored⟩ := Option.bind_eq_some_iff.1 step
    exact ⟨l, o, rfl, found, stored⟩
  | scalar s => simp [child, deref] at step
  | nilMap t => simp [child, deref] at step
  | nilSlice t => simp [child, deref] at step

end Reading

section Writing
variable {h : Heap}

theorem get?_lt {l : Nat} {o : Obj} (found : h.get? l = some o) : l < h.size :=
  (List.getElem?_eq_some_iff.1 found).1

theorem get?_isSome_of_lt {l : Nat} (bound : l < h.size) : ∃ o, h.get? l = some o :=
  ⟨h.objs[l], List.getElem?_eq_getElem bound⟩

@[simp] theorem size_alloc (o : Obj) : (h.alloc o).2.size = h.size + 1 := by simp [alloc, size]

@[simp] theorem loc_alloc (o : Obj) : (h.alloc o).1 = h.size := rfl

theorem get?_alloc_old (o : Obj) {l : Nat} (old : l < h.size) : (h.alloc o).2.get? l = h.get? l := by
  simp only [alloc, get?]
  exact List.getElem?_append_left old

@[simp] theorem get?_alloc_new (o : Obj) : (h.alloc o).2.get? h.size = some o := by
  simp [alloc, get?, size]

theorem get?_alloc_of_some {o o' : Obj} {l : Nat} (found : h.get? l = some o') :
    (h.alloc o).2.get? l = some o' := by
  rw [get?_alloc_old o (get?_lt found), found]

@[simp] theorem size_set (l : Nat) (o : Obj) : (h.set l o).size = h.size := by simp [set, size]

theorem get?_set_self {l : Nat} (bound : l < h.size) (o : Obj) : (h.set l o).get? l = some o := by
  simp only [set, get?]
  exact List.getElem?_set_self bound

theorem get?_set_ne {l l' : Nat} (other : l' ≠ l) (o : Obj) : (h.set l o).get? l' = h.get? l' := by
  simp only [set, get?]
  exact List.getElem?_set_ne (Ne.symm other)

@[simp] theorem size_setChild (l : Nat) (s : Seg) (v : Val) : (h.setChild l s v).size = h.size := by
  unfold setChild
  split <;> simp

theorem get?_setChild_self {l : Nat} {o : Obj} (found : h.get? l = some o) (s : Seg) (v : Val) :
    (h.setChild l s v).get? l = some (o.setChild s v) := by
  simp only [setChild, found]
  exact get?_set_self (get?_lt found) _

theorem get?_setChild_ne {l l' : Nat} (other : l' ≠ l) (s : Seg) (v : Val) :
    (h.setChild l s v).get? l' = h.get? l' := by
  unfold setChild
  split
  · exact get?_set_ne other _
  · rfl

/-- Storing back the child that is there leaves the heap as it was. -/
theorem setChild_same {l : Nat} {s : Seg} {v : Val} (stored : h.child (.ref l) s = some v) :
    h.setChild l s v = h := by
  obtain ⟨_, o, same, found, inside⟩ := child_eq_some stored
  cases same
  simp only [setChild, found, Obj.setChild_same inside]
  obtain ⟨bound, here⟩ := List.getElem?_eq_some_iff.1 found
  simp only [set, ← here, List.set_getElem_self]

end Writing

end Heap

end KubeKey.Go
