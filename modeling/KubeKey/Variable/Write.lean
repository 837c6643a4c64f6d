import Mathlib.Logic.Relation
import KubeKey.Go.Graft
import KubeKey.Go.Rank
import KubeKey.Variable.Yaml

/-!
# What storing into the context writes

`setContextValue` follows a path from the context. It stores a scalar at the end
if nothing is there, makes the containers that are missing on the way, and
replaces a slice that is too short by a longer copy. These are the steps of
`Put`; writing the containers back into their parents changes nothing, since they
are there already (`updateParents_same`). The heap left by a walk over a node is
reached by such steps, whether the walk succeeds or not (`processNode_puts`).
-/

namespace KubeKey.Variable

open KubeKey.Go

/-- The array that takes the place of one that is too short for index `i`. -/
def grown (elem : GoType) (items : List Val) (i : Nat) : Obj :=
  .slice elem (items ++ List.replicate (i + 1 - items.length) (zeroVal elem))

/-- One step of storing the scalar `v` at the path `q` of the context. -/
inductive Put (ctx : Val) (q : Path) (v : Scalar) (h : Heap) : Heap → Prop where
  | fill {r : Path} {s : Seg} {x : Nat} {o : Obj} (split : q = r ++ [s]) (reached : h.resolve ctx r = some (.ref x))
      (object : h.get? x = some o) (accepts : o.accepts s = true) (missing : isMissing o.elem (o.child s) = true) :
      Put ctx q v h (h.setChild x s (.scalar v))
  | create {r t : Path} {s n : Seg} {x : Nat} {o : Obj} (split : q = r ++ s :: n :: t)
      (reached : h.resolve ctx r = some (.ref x)) (object : h.get? x = some o) (accepts : o.accepts s = true)
      (missing : isMissing o.elem (o.child s) = true) :
      Put ctx q v h ((h.alloc (newContainer n)).2.setChild x s (.ref h.size))
  | grow {r t : Path} {s : Seg} {i x : Nat} {o : Obj} {c : Val} {elem : GoType} {items : List Val}
      (split : q = r ++ s :: .idx i :: t) (reached : h.resolve ctx r = some (.ref x)) (object : h.get? x = some o)
      (stored : o.child s = some c) (slice : asSlice h c = some (elem, items)) (short : items.length ≤ i) :
      Put ctx q v h ((h.alloc (grown elem items i)).2.setChild x s (.ref h.size))
  /-- A container that was made and could not be stored. -/
  | discard {o : Obj} (below : o.Below h.size) : Put ctx q v h (h.alloc o).2

/-- Any number of steps. -/
abbrev Puts (ctx : Val) (q : Path) (v : Scalar) : Heap → Heap → Prop := Relation.ReflTransGen (Put ctx q v)

/-- No dangling reference and no cycle. -/
structure Sound (h : Heap) : Prop where
  closed : h.Closed
  acyclic : h.Acyclic

/-- The containers on the way from the context to `current`, innermost first, with the steps taken. -/
inductive Chain (h : Heap) (ctx : Val) : List (Nat × Seg) → Val → Path → Prop where
  | root : Chain h ctx [] ctx []
  | step {parents : List (Nat × Seg)} {l : Nat} {r : Path} {s : Seg} {c : Val} (above : Chain h ctx parents (.ref l) r)
      (child : h.child (.ref l) s = some c) : Chain h ctx ((l, s) :: parents) c (r ++ [s])

theorem storeElem_cases (l : Nat) (s : Seg) (v : Val) (h : Heap) :
    (∃ o, h.get? l = some o ∧ o.accepts s = true ∧ storeElem l s v h = (.ok (), h.setChild l s v)) ∨
      storeElem l s v h = (.error .panic, h) := by
  unfold storeElem
  split
  · next o found =>
    by_cases ok : (o.accepts s && h.admits o.elem v) = true
    · rw [if_pos ok]
      simp only [Bool.and_eq_true] at ok
      exact Or.inl ⟨o, found, ok.1, rfl⟩
    · rw [if_neg ok]
      exact Or.inr rfl
  · exact Or.inr rfl

namespace Chain
variable {h h' : Heap} {ctx current : Val} {parents : List (Nat × Seg)} {r : Path}

theorem resolve (chain : Chain h ctx parents current r) : h.resolve ctx r = some current := by
  induction chain with
  | root => rfl
  | step above child ih =>
    rw [Heap.resolve_concat, ih]
    exact child

/-- A container above is not the one below it. -/
theorem ne (chain : Chain h ctx parents current r) (acyclic : h.Acyclic) {x : Nat} (here : current = .ref x)
    {l : Nat} {s : Seg} (member : (l, s) ∈ parents) : l ≠ x := by
  obtain ⟨rank, ranked⟩ := acyclic
  suffices ∀ l s, (l, s) ∈ parents → rank x < rank l from fun same => Nat.lt_irrefl _ (same ▸ this l s member)
  clear member
  induction chain generalizing x with
  | root => simp
  | @step parents l₀ r s₀ c above child ih =>
    subst here
    obtain ⟨_, o, same, found, inside⟩ := Heap.child_eq_some child
    cases same
    have lower := ranked l₀ o s₀ x found inside
    intro l s member
    rcases List.mem_cons.1 member with head | tail
    · cases head
      exact lower
    · exact Nat.lt_trans lower (ih rfl l s tail)

/-- The chain survives in a heap where its steps lead to the same places. -/
theorem congr (chain : Chain h ctx parents current r)
    (same : ∀ l s, (l, s) ∈ parents → h'.child (.ref l) s = h.child (.ref l) s) :
    Chain h' ctx parents current r := by
  induction chain with
  | root => exact .root
  | step above child ih =>
    refine .step (ih fun l s member => same l s (List.mem_cons_of_mem _ member)) ?_
    rw [same _ _ List.mem_cons_self]
    exact child

theorem setChild (chain : Chain h ctx parents current r) (acyclic : h.Acyclic) {x : Nat} (here : current = .ref x)
    (s : Seg) (w : Val) : Chain (h.setChild x s w) ctx parents current r := by
  refine chain.congr fun l s' member => Heap.child_setChild_ne fun same => ?_
  cases same
  exact absurd rfl (chain.ne acyclic here member)

theorem grows (chain : Chain h ctx parents current r) (grows : Heap.Grows h h') : Chain h' ctx parents current r := by
  induction chain with
  | root => exact .root
  | @step parents l r s c above child ih =>
    refine .step ih ?_
    obtain ⟨_, o, same, found, inside⟩ := Heap.child_eq_some child
    cases same
    rw [Heap.child_ref (grows.get? found), inside]

/-- Writing every container back into its parent changes nothing. -/
theorem updateParents_same (chain : Chain h ctx parents current r) : (updateParents parents current h).2 = h := by
  induction chain with
  | root => rfl
  | @step parents l r s c above child ih =>
    rw [updateParents]
    rcases storeElem_cases l s c h with ⟨o, _, _, run⟩ | run
    · rw [run, Heap.setChild_same child]
      exact ih
    · rw [run]
      rfl

end Chain

theorem zeroVal_ne_ref (elem : GoType) (l : Nat) : zeroVal elem ≠ .ref l := by cases elem <;> simp [zeroVal]

theorem newContainer_child (n s : Seg) : (newContainer n).child s = none := by
  cases n <;> cases s <;> simp [newContainer, Obj.child]

/-- The references in a longer copy are those of the array. -/
theorem grown_child_ref {elem : GoType} {items : List Val} {i l : Nat} {s : Seg}
    (inside : (grown elem items i).child s = some (.ref l)) : ∃ j, s = .idx j ∧ items[j]? = some (.ref l) := by
  cases s with
  | key k => simp [grown, Obj.child] at inside
  | idx j =>
    refine ⟨j, rfl, ?_⟩
    simp only [grown, Obj.child] at inside
    by_cases old : j < items.length
    · rwa [List.getElem?_append_left old] at inside
    · rw [List.getElem?_append_right (Nat.not_lt.1 old), List.getElem?_replicate] at inside
      split at inside
      · exact absurd (Option.some.inj inside) (zeroVal_ne_ref elem l)
      · cases inside

/-- An array value with items is an object of the heap. -/
theorem asSlice_item {h : Heap} {c : Val} {elem : GoType} {items : List Val} (slice : asSlice h c = some (elem, items))
    (j : Nat) : items[j]? = h.child c (.idx j) := by
  unfold asSlice at slice
  split at slice
  · cases slice
    rfl
  · split at slice
    · next found =>
      cases slice
      rw [Heap.child_ref found]
      rfl
    · cases slice
  · cases slice

theorem grown_below {h : Heap} (closed : h.Closed) {c : Val} (below : c.Below h.size) {elem : GoType} {items : List Val}
    (slice : asSlice h c = some (elem, items)) (i : Nat) : (grown elem items i).Below h.size := by
  intro s d inside
  cases d with
  | ref l =>
    obtain ⟨j, rfl, item⟩ := grown_child_ref inside
    rw [asSlice_item slice] at item
    exact Heap.child_below closed.below below item
  | _ => trivial

theorem Put.sound {ctx : Val} {q : Path} {v : Scalar} {h h' : Heap} (put : Put ctx q v h h') (sound : Sound h) :
    Sound h' := by
  obtain ⟨rank, ranked⟩ := sound.acyclic
  have closed := sound.closed
  cases put with
  | @fill r s x o => exact ⟨closed.setChild (show (Val.scalar v).Below h.size from trivial) x s, rank, ranked.setScalar x s v⟩
  | @create r t s n x o split reached object =>
    have nothing : (newContainer n).Below h.size := fun s' c inside => by simp [newContainer_child] at inside
    have childless : ∀ s' l', (newContainer n).child s' = some (.ref l') → rank l' + 1 < 0 :=
      fun s' l' inside => by simp [newContainer_child] at inside
    exact ⟨(closed.alloc (nothing.mono (Nat.le_succ _))).setChild (by simp [Val.Below]) x s, _,
      ranked.succ.attach closed nothing childless (Heap.get?_lt object) (Nat.succ_pos _) s⟩
  | @grow r t s i x o c elem items split reached object stored slice =>
    have bound : c.Below h.size := closed x o object s c stored
    have below := grown_below closed bound slice i
    refine ⟨(closed.alloc (below.mono (Nat.le_succ _))).setChild (by simp [Val.Below]) x s, ?_⟩
    -- the copy ranks where the array does
    obtain ⟨n, under, above⟩ : ∃ n, n < rank x + 1 ∧ ∀ (j l' : Nat), items[j]? = some (Val.ref l') → rank l' + 1 < n := by
      cases c with
      | ref l =>
        refine ⟨rank l + 1, Nat.succ_lt_succ (ranked x o s l object stored), fun j l' item => ?_⟩
        rw [asSlice_item slice] at item
        obtain ⟨_, o', same, found, inside⟩ := Heap.child_eq_some item
        cases same
        exact Nat.succ_lt_succ (ranked l o' (.idx j) l' found inside)
      | _ =>
        refine ⟨0, Nat.succ_pos _, fun j l' item => ?_⟩
        rw [asSlice_item slice] at item
        cases item
    refine ⟨_, ranked.succ.attach closed below (n := n) (fun s' l' inside => ?_) (Heap.get?_lt object) under s⟩
    obtain ⟨j, _, item⟩ := grown_child_ref inside
    exact above j l' item
  | discard below => exact ⟨closed.alloc (below.mono (Nat.le_succ _)), sound.acyclic.grows closed (Heap.grows_alloc below)⟩

section Store
variable {ctx : Val} {q : Path} {v : Scalar} {h : Heap} {parents : List (Nat × Seg)} {r : Path}

/-- A new container is stored at its place and its parents, or dropped. -/
theorem storeElem_attach {l : Nat} {s : Seg} {o n : Obj} (chain : Chain h ctx parents (.ref l) r) (sound : Sound h)
    (object : h.get? l = some o) (below : n.Below h.size)
    (put : o.accepts s = true → Put ctx q v h ((h.alloc n).2.setChild l s (.ref h.size))) :
    ∃ h', Put ctx q v h h' ∧
      (storeElem l s (.ref h.size) (h.alloc n).2 = (.error .panic, h') ∨
        (storeElem l s (.ref h.size) (h.alloc n).2 = (.ok (), h') ∧
          Chain h' ctx parents (.ref l) r ∧ h'.child (.ref l) s = some (.ref h.size) ∧ h'.get? h.size = some n)) := by
  have grows := Heap.grows_alloc below
  have old : (h.alloc n).2.get? l = some o := Heap.get?_alloc_of_some object
  rcases storeElem_cases l s (.ref h.size) (h.alloc n).2 with ⟨o', found, accepts, run⟩ | run
  · rw [old] at found
    cases found
    refine ⟨_, put accepts, Or.inr ⟨run, ?_, Heap.child_setChild_self old accepts, ?_⟩⟩
    · exact (chain.grows grows).setChild (sound.acyclic.grows sound.closed grows) rfl s _
    · have other : h.size ≠ l := Nat.ne_of_gt (Heap.get?_lt object)
      rw [Heap.get?_setChild_ne other, Heap.get?_alloc_new]
  · exact ⟨_, .discard below, Or.inl run⟩

theorem storeLast_puts {l : Nat} {s : Seg} {o : Obj} (chain : Chain h ctx parents (.ref l) r) (sound : Sound h)
    (object : h.get? l = some o) (split : q = r ++ [s]) : Puts ctx q v h (storeLast parents l o.elem s v h).2 := by
  unfold storeLast
  rw [Heap.child_ref object]
  split
  · next missing =>
    rcases storeElem_cases l s (.scalar v) h with ⟨o', found, accepts, run⟩ | run
    · rw [object] at found
      cases found
      rw [run, Outcome.andThen, (chain.setChild sound.acyclic rfl s _).updateParents_same]
      exact .single (.fill split chain.resolve object accepts missing)
    · rw [run]
      exact .refl
  · rw [chain.updateParents_same]

theorem descend_puts {l : Nat} {s n : Seg} {t : Path} {o : Obj} (chain : Chain h ctx parents (.ref l) r)
    (sound : Sound h) (object : h.get? l = some o) (split : q = r ++ s :: n :: t) :
    Puts ctx q v h (descend l o.elem s n h).2 ∧
      ∀ c, (descend l o.elem s n h).1 = .ok c →
        Chain (descend l o.elem s n h).2 ctx ((l, s) :: parents) c (r ++ [s]) := by
  have nothing : (newContainer n).Below h.size := fun s' c inside => by simp [newContainer_child] at inside
  have made : isMissing o.elem (o.child s) = true →
      Puts ctx q v h ((storeElem l s (.ref h.size) (h.alloc (newContainer n)).2).andThen
          fun _ h' => (.ok (Val.ref h.size), h')).2 ∧
        ∀ c, ((storeElem l s (.ref h.size) (h.alloc (newContainer n)).2).andThen
            fun _ h' => (.ok (Val.ref h.size), h')).1 = .ok c →
          Chain ((storeElem l s (.ref h.size) (h.alloc (newContainer n)).2).andThen
            fun _ h' => (.ok (Val.ref h.size), h')).2 ctx ((l, s) :: parents) c (r ++ [s]) := by
    intro missing
    obtain ⟨h', put, run | ⟨run, above, child, _⟩⟩ := storeElem_attach (q := q) (v := v) chain sound object nothing
      fun accepts => .create split chain.resolve object accepts missing
    · rw [run]
      exact ⟨.single put, fun c done => nomatch done⟩
    · rw [run]
      refine ⟨.single put, fun c done => ?_⟩
      cases done
      exact .step above child
  unfold descend
  rw [Heap.child_ref object]
  split
  · next c stored =>
    split
    · next missing => exact made (by rw [stored]; exact missing)
    · refine ⟨.refl, fun c' done => ?_⟩
      cases done
      exact .step chain (by rw [Heap.child_ref object, stored])
  · next absent => exact made (by rw [absent]; rfl)

theorem asSlice_ref {h : Heap} {l : Nat} {elem : GoType} {items : List Val}
    (slice : asSlice h (.ref l) = some (elem, items)) : h.get? l = some (.slice elem items) := by
  simp only [asSlice] at slice
  split at slice
  · next found =>
    cases slice
    exact found
  · cases slice

theorem growSlice_puts {current : Val} {elem : GoType} {items : List Val} {i : Nat} {t : Path}
    (chain : Chain h ctx parents current r) (sound : Sound h) (inMap : asSlice h ctx = none)
    (slice : asSlice h current = some (elem, items)) (split : q = r ++ .idx i :: t) :
    Puts ctx q v h (growSlice parents current elem items i h).2 ∧
      ∀ c, (growSlice parents current elem items i h).1 = .ok c →
        ∃ l items', c = .ref l ∧ (growSlice parents current elem items i h).2.get? l = some (.slice elem items') ∧
          Chain (growSlice parents current elem items i h).2 ctx parents c r := by
  unfold growSlice
  split
  · next short =>
    cases chain with
    | root =>
      rw [inMap] at slice
      cases slice
    | @step parents l r s c above child =>
      obtain ⟨_, o, same, object, stored⟩ := Heap.child_eq_some child
      cases same
      have below := grown_below sound.closed (sound.closed l o object s current stored) slice i
      obtain ⟨h', put, run | ⟨run, above', child', new⟩⟩ := storeElem_attach (q := q) (v := v) above sound object below
        fun _ => .grow (by simpa using split) above.resolve object stored slice short
      · simp only [updateParents, Heap.loc_alloc]
        rw [← grown, run]
        exact ⟨.single put, fun c done => nomatch done⟩
      · have same := above'.updateParents_same
        simp only [updateParents, Heap.loc_alloc]
        rw [← grown, run]
        simp only [Outcome.andThen]
        generalize rest : updateParents parents (.ref l) h' = outcome at same
        obtain ⟨result, h''⟩ := outcome
        simp only at same
        subst same
        cases result with
        | error e => exact ⟨.single put, fun c done => nomatch done⟩
        | ok u =>
          refine ⟨.single put, fun c done => ?_⟩
          cases done
          exact ⟨_, _, rfl, new, .step above' child'⟩
  · next long =>
    refine ⟨.refl, fun c done => ?_⟩
    cases done
    cases current with
    | ref l => exact ⟨l, items, rfl, asSlice_ref slice, chain⟩
    | nilSlice t =>
      simp only [asSlice, Option.some.injEq, Prod.mk.injEq] at slice
      obtain ⟨_, rfl⟩ := slice
      simp at long
    | scalar x => simp [asSlice] at slice
    | nilMap t => simp [asSlice] at slice

end Store

theorem Put.size_le {ctx : Val} {q : Path} {v : Scalar} {h h' : Heap} (put : Put ctx q v h h') : h.size ≤ h'.size := by
  cases put <;> simp

/-- A step changes no container into another kind. -/
theorem Put.shape {ctx : Val} {q : Path} {v : Scalar} {h h' : Heap} (put : Put ctx q v h h') {w : Val}
    (below : w.Below h.size) : h'.shape w = h.shape w := by
  have alloc : ∀ o, (h.alloc o).2.shape w = h.shape w :=
    fun o => Heap.shape_agree (fun l bound => Heap.get?_alloc_old o bound) below
  cases put with
  | fill => exact Heap.shape_setChild w
  | create => exact (Heap.shape_setChild w).trans (alloc _)
  | grow => exact (Heap.shape_setChild w).trans (alloc _)
  | discard => exact alloc _

/-- A map to store into, on a heap without cycles. -/
structure Storable (h : Heap) (ctx : Val) : Prop extends Sound h where
  below : ctx.Below h.size
  map : h.shape ctx = some .map

theorem Put.storable {ctx : Val} {q : Path} {v : Scalar} {h h' : Heap} (put : Put ctx q v h h')
    (storable : Storable h ctx) : Storable h' ctx where
  toSound := put.sound storable.toSound
  below := storable.below.mono put.size_le
  map := (put.shape storable.below).trans storable.map

theorem Puts.storable {ctx : Val} {q : Path} {v : Scalar} {h h' : Heap} (puts : Puts ctx q v h h')
    (storable : Storable h ctx) : Storable h' ctx := by
  induction puts with
  | refl => exact storable
  | tail _ put ih => exact put.storable ih

theorem asSlice_shape {h : Heap} {c : Val} (map : h.shape c = some .map) : asSlice h c = none := by
  cases c with
  | ref l =>
    simp only [Heap.shape, Option.map_eq_some_iff] at map
    obtain ⟨o, found, shape⟩ := map
    cases o with
    | map t m => simp [asSlice, found]
    | slice t xs => cases shape
  | nilSlice t => cases map
  | scalar x => rfl
  | nilMap t => rfl

section Container
variable {v : Scalar} {full : Path} {parents : List (Nat × Seg)} {h : Heap}

/-- What `setPath` does in a container that has the place of the step. -/
def inContainer (v : Scalar) (full : Path) (parents : List (Nat × Seg)) (l : Nat) (elem : GoType) (s : Seg) (rest : Path)
    (h : Heap) : Outcome Unit :=
  match rest with
  | [] => storeLast parents l elem s v h
  | next :: _ => (descend l elem s next h).andThen fun c h => setPath v full ((l, s) :: parents) c rest h

theorem setPath_key {l : Nat} {t : GoType} {m : GoMap Val} (object : h.get? l = some (.map t m)) (k : String)
    (rest : Path) : setPath v full parents (.ref l) (.key k :: rest) h = inContainer v full parents l t (.key k) rest h := by
  have map : asMap h (.ref l) = some m := by simp [asMap, object]
  simp only [setPath, map, object, Option.map_some, Option.getD_some]
  rfl

theorem setPath_idx {current : Val} {t : GoType} {items : List Val} (slice : asSlice h current = some (t, items)) (i : Nat)
    (rest : Path) : setPath v full parents current (.idx i :: rest) h =
      (growSlice parents current t items i h).andThen fun current h => match current with
        | .ref l => inContainer v full parents l t (.idx i) rest h
        | _ => (.error .panic, h) := by
  rw [setPath]
  simp only [slice]
  rfl

/-- The path ends in the container or goes on below it. -/
theorem inContainer_puts {ctx : Val} {q r rest : Path} {s : Seg} {l : Nat} {o : Obj}
    (below : ∀ {h : Heap} {parents : List (Nat × Seg)} {current : Val} {r : Path}, Storable h ctx →
      Chain h ctx parents current r → q = r ++ rest → Puts ctx q v h (setPath v full parents current rest h).2)
    (storable : Storable h ctx) (chain : Chain h ctx parents (.ref l) r) (object : h.get? l = some o)
    (split : q = r ++ s :: rest) : Puts ctx q v h (inContainer v full parents l o.elem s rest h).2 := by
  cases rest with
  | nil => exact storeLast_puts chain storable.toSound object split
  | cons next rest =>
    obtain ⟨puts, further⟩ := descend_puts (v := v) chain storable.toSound object split
    rw [inContainer]
    generalize descend l o.elem s next h = outcome at puts further
    obtain ⟨result, h'⟩ := outcome
    cases result with
    | error e => exact puts
    | ok c => exact puts.trans (below (Puts.storable puts storable) (further c rfl) (by simpa using split))

/-- The heap that `setContextValue` leaves. -/
theorem setPath_puts {ctx : Val} {q : Path} {v : Scalar} (full rest : Path) :
    ∀ {h : Heap} {parents : List (Nat × Seg)} {current : Val} {r : Path}, Storable h ctx →
      Chain h ctx parents current r → q = r ++ rest → Puts ctx q v h (setPath v full parents current rest h).2 := by
  induction rest with
  | nil =>
    intro h parents current r _ _ _
    exact .refl
  | cons s rest ih =>
    intro h parents current r storable chain split
    cases s with
    | key k =>
      cases map : asMap h current with
      | none =>
        simp only [setPath, map]
        exact .refl
      | some m =>
        cases current with
        | ref l =>
          obtain ⟨t, object⟩ : ∃ t, h.get? l = some (.map t m) := by
            cases found : h.get? l with
            | none => simp [asMap, found] at map
            | some o =>
              cases o with
              | map t m' =>
                simp only [asMap, found, Option.some.injEq] at map
                exact ⟨t, by rw [map]⟩
              | slice t items => simp [asMap, found] at map
          rw [setPath_key object]
          exact inContainer_puts ih storable chain object split
        | _ =>
          simp only [setPath, map]
          exact .refl
    | idx i =>
      cases slice : asSlice h current with
      | none =>
        rw [setPath]
        simp only [slice]
        exact .refl
      | some found =>
        obtain ⟨elem, items⟩ := found
        rw [setPath_idx slice]
        obtain ⟨puts, further⟩ := growSlice_puts (v := v) chain storable.toSound (asSlice_shape storable.map) slice split
        generalize growSlice parents current elem items i h = outcome at puts further
        obtain ⟨result, h'⟩ := outcome
        cases result with
        | error e => exact puts
        | ok c =>
          obtain ⟨l, items', rfl, object, chain'⟩ := further c rfl
          exact puts.trans (inContainer_puts ih (Puts.storable puts storable) chain' object split)

end Container

theorem setContextValue_puts {ctx : Val} (v : Scalar) (q : Path) {h : Heap} (storable : Storable h ctx) :
    Puts ctx q v h (setContextValue ctx v q h).2 :=
  setPath_puts q q storable .root rfl

end KubeKey.Variable
