import Mathlib.Algebra.Order.BigOperators.Group.List
import Mathlib.Algebra.Order.Group.Nat
import Mathlib.Data.Fintype.Card
import KubeKey.Go.Label

/-!
# Heaps without cycles

A ranking puts every container above the containers it holds. Merging and
decoding only build new containers from what is there, so a ranking extends to
the heap they leave (`Acyclic.grows`); a container stored into an older one needs
a rank of its own between the two (`RankedBy.attach`).
-/

namespace KubeKey.Go

namespace Heap

/-- Every container ranks above the containers it holds. -/
def RankedBy (rank : Nat → Nat) (h : Heap) : Prop :=
  ∀ l o s l', h.get? l = some o → o.child s = some (.ref l') → rank l' < rank l

/-- No container is reached from itself. -/
def Acyclic (h : Heap) : Prop := ∃ rank, h.RankedBy rank

theorem acyclic_empty : empty.Acyclic := ⟨fun _ => 0, fun l o s l' found => by simp [empty, Heap.get?] at found⟩

theorem RankedBy.lt_of_resolve {rank : Nat → Nat} {h : Heap} (ranked : h.RankedBy rank) {p : Path} {l l' : Nat}
    (long : p ≠ []) (reached : h.resolve (.ref l) p = some (.ref l')) : rank l' < rank l := by
  induction p generalizing l with
  | nil => exact absurd rfl long
  | cons s p ih =>
    obtain ⟨c, step, rest⟩ := Option.bind_eq_some_iff.1 reached
    obtain ⟨l₀, o, same, found, inside⟩ := child_eq_some step
    cases same
    cases p with
    | nil =>
      cases rest
      exact ranked l o s l' found inside
    | cons s' p' =>
      obtain ⟨d, step', _⟩ := Option.bind_eq_some_iff.1 rest
      obtain ⟨m, _, rfl, _⟩ := child_eq_some step'
      have below := ranked l o s m found inside
      have further := ih (by simp) rest
      omega

theorem RankedBy.succ {rank : Nat → Nat} {h : Heap} (ranked : h.RankedBy rank) :
    h.RankedBy (fun l => rank l + 1) :=
  fun l o s l' found inside => Nat.succ_lt_succ (ranked l o s l' found inside)

theorem RankedBy.setScalar {rank : Nat → Nat} {h : Heap} (ranked : h.RankedBy rank) (l : Nat) (s : Seg) (x : Scalar) :
    (h.setChild l s (.scalar x)).RankedBy rank := by
  intro l₁ o₁ s₁ l' found inside
  by_cases same : l₁ = l
  · subst same
    cases stored : h.get? l₁ with
    | none => simp [Heap.setChild, stored] at found
    | some o =>
      rw [get?_setChild_self stored] at found
      cases found
      by_cases here : s₁ = s
      · subst here
        by_cases ok : o.accepts s₁ = true
        · rw [Obj.child_setChild_self ok] at inside
          cases inside
        · rw [Obj.setChild_of_not_accepts (by simpa using ok)] at inside
          exact ranked l₁ o s₁ l' stored inside
      · rw [Obj.child_setChild_ne o here] at inside
        exact ranked l₁ o s₁ l' stored inside
  · rw [get?_setChild_ne same] at found
    exact ranked l₁ o₁ s₁ l' found inside

/-- A new container `o` is stored into `l`: any rank between its children and `l` will do. -/
theorem RankedBy.attach {rank : Nat → Nat} {h : Heap} (ranked : h.RankedBy rank) (closed : h.Closed) {o : Obj}
    (below : o.Below h.size) {n : Nat} (above : ∀ s l', o.child s = some (.ref l') → rank l' < n) {l : Nat}
    (bound : l < h.size) (under : n < rank l) (s : Seg) :
    ((h.alloc o).2.setChild l s (.ref h.size)).RankedBy (Function.update rank h.size n) := by
  have old : ∀ l₁ o₁ s₁ l', l₁ < h.size → h.get? l₁ = some o₁ → o₁.child s₁ = some (.ref l') →
      Function.update rank h.size n l' < Function.update rank h.size n l₁ := by
    intro l₁ o₁ s₁ l' small found inside
    have child : l' < h.size := closed l₁ o₁ found s₁ _ inside
    rw [Function.update_of_ne (Nat.ne_of_lt small), Function.update_of_ne (Nat.ne_of_lt child)]
    exact ranked l₁ o₁ s₁ l' found inside
  intro l₁ o₁ s₁ l' found inside
  by_cases same : l₁ = l
  · subst same
    obtain ⟨o₀, stored⟩ := get?_isSome_of_lt bound
    have kept : (h.alloc o).2.get? l₁ = some o₀ := by rw [get?_alloc_old o bound, stored]
    rw [get?_setChild_self kept] at found
    cases found
    by_cases here : s₁ = s
    · subst here
      by_cases ok : o₀.accepts s₁ = true
      · rw [Obj.child_setChild_self ok] at inside
        cases inside
        rw [Function.update_self, Function.update_of_ne (Nat.ne_of_lt bound)]
        exact under
      · rw [Obj.setChild_of_not_accepts (by simpa using ok)] at inside
        exact old l₁ o₀ s₁ l' bound stored inside
    · rw [Obj.child_setChild_ne o₀ here] at inside
      exact old l₁ o₀ s₁ l' bound stored inside
  · rw [get?_setChild_ne same] at found
    by_cases small : l₁ < h.size
    · rw [get?_alloc_old o small] at found
      exact old l₁ o₁ s₁ l' small found inside
    · have last : l₁ = h.size := by
        have inHeap := get?_lt found
        rw [size_alloc] at inHeap
        omega
      subst last
      rw [get?_alloc_new] at found
      cases found
      have child : l' < h.size := below s₁ _ inside
      rw [Function.update_self, Function.update_of_ne (Nat.ne_of_lt child)]
      exact above s₁ l' inside

/-- New containers are made of what was there before them. -/
theorem Acyclic.grows {h h' : Heap} (acyclic : h.Acyclic) (closed : h.Closed) (grows : Grows h h') : h'.Acyclic := by
  obtain ⟨rank, ranked⟩ := acyclic
  let top := ((List.range h.size).map rank).sum
  have le_top : ∀ l, l < h.size → rank l ≤ top := fun l bound =>
    List.single_le_sum (fun _ _ => Nat.zero_le _) _ (List.mem_map.2 ⟨l, List.mem_range.2 bound, rfl⟩)
  refine ⟨fun l => if l < h.size then rank l else top + 1 + l, ?_⟩
  intro l o s l' found inside
  dsimp only
  by_cases old : l < h.size
  · rw [grows.agree l old] at found
    have child : l' < h.size := closed l o found s _ inside
    rw [if_pos old, if_pos child]
    exact ranked l o s l' found inside
  · have child : l' < l := grows.ordered l o (Nat.not_lt.1 old) found s _ inside
    rw [if_neg old]
    split
    · next small =>
      have small_le := le_top l' small
      omega
    · omega

/-- A path to a container is shorter than the number of objects. -/
theorem Acyclic.length_lt {h : Heap} (acyclic : h.Acyclic) (closed : h.Closed) {v : Val} (below : v.Below h.size)
    {p : Path} {l : Nat} (reached : h.resolve v p = some (.ref l)) : p.length < h.size := by
  obtain ⟨rank, ranked⟩ := acyclic
  -- the containers on the way have decreasing ranks, hence different locations
  have onWay : ∀ i : Fin (p.length + 1), ∃ m : Fin h.size, h.resolve v (p.take i) = some (.ref m) := by
    intro i
    have split : h.resolve v (p.take i ++ p.drop i) = some (.ref l) := by rw [List.take_append_drop]; exact reached
    rw [resolve_append] at split
    obtain ⟨c, first, second⟩ := Option.bind_eq_some_iff.1 split
    have container : ∃ m, c = .ref m := by
      cases rest : p.drop i with
      | nil =>
        rw [rest] at second
        cases second
        exact ⟨l, rfl⟩
      | cons s q =>
        rw [rest] at second
        obtain ⟨d, step, _⟩ := Option.bind_eq_some_iff.1 second
        obtain ⟨m, _, same, _⟩ := child_eq_some step
        exact ⟨m, same⟩
    obtain ⟨m, rfl⟩ := container
    exact ⟨⟨m, resolve_below closed.below below first⟩, first⟩
  choose place placed using onWay
  have decreasing : ∀ i j : Fin (p.length + 1), i < j → rank (place j) < rank (place i) := by
    intro i j less
    have whole := placed j
    have split : p.take j = p.take i ++ (p.take j).drop i := by
      conv_lhs => rw [← List.take_append_drop i (p.take j), List.take_take, Nat.min_eq_left (Nat.le_of_lt less)]
    rw [split, resolve_append, placed i, Option.bind_some] at whole
    refine ranked.lt_of_resolve ?_ whole
    intro empty
    have length := congrArg List.length empty
    rw [List.length_drop, List.length_take, List.length_nil] at length
    omega
  have injective : Function.Injective place := by
    intro i j same
    rcases Nat.lt_trichotomy i j with less | equal | more
    · have lt := decreasing i j less
      rw [same] at lt
      omega
    · exact Fin.ext equal
    · have lt := decreasing j i more
      rw [same] at lt
      omega
  have card := Fintype.card_le_of_injective place injective
  simp only [Fintype.card_fin] at card
  omega

end Heap

end KubeKey.Go
