import KubeKey.Go.Heap

/-!
# What a heap operation leaves alone

A heap is closed when its objects refer only to allocated locations. Values of
a closed part of the heap keep their deep value as long as the objects of that
part stay the same (`view_agree`), so an operation that only allocates is
invisible to every value that existed before it. A write to one child of one
object is invisible along every path that does not go through that child
(`resolve_setChild_of_avoids`).
-/

namespace KubeKey.Go

/-- A reference below `b`; every other value qualifies. -/
def Val.Below (b : Nat) : Val → Prop
  | .ref l => l < b
  | _ => True

/-- Every child of the object is below `b`. -/
def Obj.Below (b : Nat) (o : Obj) : Prop := ∀ s c, o.child s = some c → c.Below b

theorem Val.Below.mono {b b' : Nat} {v : Val} (below : v.Below b) (le : b ≤ b') : v.Below b' := by
  cases v with
  | ref l => exact Nat.lt_of_lt_of_le below le
  | _ => trivial

theorem Obj.Below.mono {b b' : Nat} {o : Obj} (below : o.Below b) (le : b ≤ b') : o.Below b' :=
  fun s c step => (below s c step).mono le

theorem Obj.Below.setChild {b : Nat} {o : Obj} (below : o.Below b) {v : Val} (value : v.Below b) (s : Seg) :
    (o.setChild s v).Below b := by
  intro s' c step
  by_cases same : s' = s
  · subst same
    by_cases ok : o.accepts s' = true
    · rw [Obj.child_setChild_self ok] at step
      cases step
      exact value
    · rw [Obj.setChild_of_not_accepts (by simpa using ok)] at step
      exact below s' c step
  · rw [Obj.child_setChild_ne o same] at step
    exact below s' c step

namespace Heap

/-- The objects below `b` refer only below `b`. -/
def ClosedBelow (h : Heap) (b : Nat) : Prop := ∀ l < b, ∀ o, h.get? l = some o → o.Below b

/-- No dangling reference. -/
def Closed (h : Heap) : Prop := ∀ l o, h.get? l = some o → o.Below h.size

/-- The objects below `b` are the same in both heaps. -/
def AgreeBelow (b : Nat) (h h' : Heap) : Prop := ∀ l < b, h'.get? l = h.get? l

/-- `h'` has the objects of `h` and possibly more, each made of what was there before it. -/
structure Grows (h h' : Heap) : Prop where
  size_le : h.size ≤ h'.size
  agree : AgreeBelow h.size h h'
  ordered : ∀ l o, h.size ≤ l → h'.get? l = some o → o.Below l

theorem Closed.below {h : Heap} (closed : h.Closed) : h.ClosedBelow h.size :=
  fun l _ o found => closed l o found

theorem AgreeBelow.refl (b : Nat) (h : Heap) : AgreeBelow b h h := fun _ _ => rfl

theorem AgreeBelow.trans {b : Nat} {h₁ h₂ h₃ : Heap} (first : AgreeBelow b h₁ h₂) (second : AgreeBelow b h₂ h₃) :
    AgreeBelow b h₁ h₃ :=
  fun l bound => (second l bound).trans (first l bound)

theorem AgreeBelow.mono {b b' : Nat} {h h' : Heap} (agree : AgreeBelow b' h h') (le : b ≤ b') : AgreeBelow b h h' :=
  fun l bound => agree l (Nat.lt_of_lt_of_le bound le)

theorem ClosedBelow.agree {b : Nat} {h h' : Heap} (closed : h.ClosedBelow b) (agree : AgreeBelow b h h') :
    h'.ClosedBelow b := by
  intro l bound o found
  rw [agree l bound] at found
  exact closed l bound o found

theorem Grows.refl (h : Heap) : Grows h h :=
  ⟨Nat.le_refl _, AgreeBelow.refl _ h, fun _ _ high found => absurd (get?_lt found) (Nat.not_lt.2 high)⟩

theorem Grows.trans {h₁ h₂ h₃ : Heap} (first : Grows h₁ h₂) (second : Grows h₂ h₃) : Grows h₁ h₃ := by
  refine ⟨Nat.le_trans first.size_le second.size_le, first.agree.trans (second.agree.mono first.size_le), ?_⟩
  intro l o high found
  by_cases old : l < h₂.size
  · rw [second.agree l old] at found
    exact first.ordered l o high found
  · exact second.ordered l o (Nat.not_lt.1 old) found

theorem grows_alloc {h : Heap} {o : Obj} (below : o.Below h.size) : Grows h (h.alloc o).2 := by
  refine ⟨by simp, fun _ bound => get?_alloc_old o bound, ?_⟩
  intro l o' high found
  have bound := get?_lt found
  rw [size_alloc] at bound
  have last : l = h.size := by omega
  subst last
  rw [get?_alloc_new] at found
  cases found
  exact below

theorem Grows.get? {h h' : Heap} (grows : Grows h h') {l : Nat} {o : Obj} (found : h.get? l = some o) :
    h'.get? l = some o := by
  rw [grows.agree l (get?_lt found), found]

theorem closed_empty : empty.Closed := by
  intro l o found
  simp [empty, Heap.get?] at found

theorem Closed.alloc {h : Heap} (closed : h.Closed) {o : Obj} (below : o.Below (h.size + 1)) :
    (h.alloc o).2.Closed := by
  intro l o' found
  rw [size_alloc]
  by_cases old : l < h.size
  · rw [get?_alloc_old o old] at found
    exact (closed l o' found).mono (Nat.le_succ _)
  · have bound := get?_lt found
    rw [size_alloc] at bound
    have last : l = h.size := by omega
    subst last
    rw [get?_alloc_new] at found
    cases found
    exact below

theorem Closed.setChild {h : Heap} (closed : h.Closed) {v : Val} (value : v.Below h.size) (l : Nat) (s : Seg) :
    (h.setChild l s v).Closed := by
  intro l' o' found
  rw [size_setChild]
  by_cases same : l' = l
  · subst same
    cases stored : h.get? l' with
    | none => simp [Heap.setChild, stored] at found
    | some o =>
      rw [get?_setChild_self stored] at found
      cases found
      exact (closed l' o stored).setChild value s
  · rw [get?_setChild_ne same] at found
    exact closed l' o' found

section Frame
variable {b : Nat} {h h' : Heap}

theorem child_below (closed : h.ClosedBelow b) {v c : Val} {s : Seg} (below : v.Below b)
    (step : h.child v s = some c) : c.Below b := by
  obtain ⟨l, o, rfl, found, inside⟩ := child_eq_some step
  exact closed l below o found s c inside

theorem child_agree (agree : AgreeBelow b h h') {v : Val} (below : v.Below b) (s : Seg) :
    h'.child v s = h.child v s := by
  cases v with
  | ref l => simp only [child, deref, agree l below]
  | _ => rfl

theorem shape_agree (agree : AgreeBelow b h h') {v : Val} (below : v.Below b) : h'.shape v = h.shape v := by
  cases v with
  | ref l => simp only [shape, agree l below]
  | _ => rfl

theorem resolve_below (closed : h.ClosedBelow b) {v c : Val} (below : v.Below b) {p : Path}
    (reached : h.resolve v p = some c) : c.Below b := by
  induction p generalizing v with
  | nil =>
    cases reached
    exact below
  | cons s p ih =>
    obtain ⟨d, step, rest⟩ := Option.bind_eq_some_iff.1 reached
    exact ih (child_below closed below step) rest

theorem resolve_agree (closed : h.ClosedBelow b) (agree : AgreeBelow b h h') {v : Val} (below : v.Below b)
    (p : Path) : h'.resolve v p = h.resolve v p := by
  induction p generalizing v with
  | nil => rfl
  | cons s p ih =>
    rw [resolve_cons, resolve_cons, child_agree agree below]
    cases step : h.child v s with
    | none => rfl
    | some c => exact ih (child_below closed below step)

/-- The deep value of a closed part survives as long as its objects do. -/
theorem view_agree (closed : h.ClosedBelow b) (agree : AgreeBelow b h h') {v : Val} (below : v.Below b) :
    h'.view v = h.view v := by
  funext p
  simp only [view, resolve_agree closed agree below]
  cases reached : h.resolve v p with
  | none => rfl
  | some c => exact shape_agree agree (resolve_below closed below reached)

theorem Grows.view (grows : Grows h h') (closed : h.Closed) {v : Val} (below : v.Below h.size) :
    h'.view v = h.view v :=
  view_agree closed.below grows.agree below

theorem Grows.resolve (grows : Grows h h') (closed : h.Closed) {v : Val} (below : v.Below h.size) (p : Path) :
    h'.resolve v p = h.resolve v p :=
  resolve_agree closed.below grows.agree below p

end Frame

section Write
variable {h : Heap} {l : Nat} {s : Seg} {w : Val}

theorem child_setChild_ne {v : Val} {s' : Seg} (avoids : v = .ref l → s' ≠ s) :
    (h.setChild l s w).child v s' = h.child v s' := by
  cases v with
  | ref l' =>
    by_cases same : l' = l
    · subst same
      cases found : h.get? l' with
      | none => simp [child, deref, setChild, found]
      | some o =>
        rw [child_ref (get?_setChild_self found s w), child_ref found]
        exact Obj.child_setChild_ne o (avoids rfl) w
    · simp only [child, deref, get?_setChild_ne same]
  | _ => rfl

theorem shape_setChild (v : Val) : (h.setChild l s w).shape v = h.shape v := by
  cases v with
  | ref l' =>
    by_cases same : l' = l
    · subst same
      cases found : h.get? l' with
      | none => simp [shape, setChild, found]
      | some o => simp [shape, get?_setChild_self found, found, Obj.shape_setChild]
    · simp only [shape, get?_setChild_ne same]
  | _ => rfl

/-- A path that never takes the written child is not affected. -/
theorem resolve_setChild_of_avoids {v : Val} {p : Path}
    (avoids : ∀ r q, p = r ++ s :: q → h.resolve v r ≠ some (.ref l)) :
    (h.setChild l s w).resolve v p = h.resolve v p := by
  induction p generalizing v with
  | nil => rfl
  | cons s' p ih =>
    have step : (h.setChild l s w).child v s' = h.child v s' := by
      apply child_setChild_ne
      intro here same
      exact avoids [] p (by simp [same]) (by simp [here])
    rw [resolve_cons, resolve_cons, step]
    cases next : h.child v s' with
    | none => rfl
    | some c =>
      apply ih
      intro r q split reached
      refine avoids (s' :: r) q (by simp [split]) ?_
      rw [resolve_cons, next]
      exact reached

theorem view_setChild_of_avoids {v : Val} {p : Path}
    (avoids : ∀ r q, p = r ++ s :: q → h.resolve v r ≠ some (.ref l)) :
    (h.setChild l s w).view v p = h.view v p := by
  simp only [view, resolve_setChild_of_avoids avoids]
  cases h.resolve v p with
  | none => rfl
  | some c => exact shape_setChild c

theorem child_setChild_self {o : Obj} (found : h.get? l = some o) (ok : o.accepts s = true) :
    (h.setChild l s w).child (.ref l) s = some w := by
  rw [child_ref (get?_setChild_self found s w)]
  exact Obj.child_setChild_self ok w

end Write

end Heap

end KubeKey.Go
