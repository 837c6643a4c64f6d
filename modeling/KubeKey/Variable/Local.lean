import KubeKey.Variable.Setting

/-!
# What a context shows after a value is stored

Looking up a path takes a missing or nil entry for nothing. A call of `setContextValue`
that succeeds is meant to be local: the path then leads to the value if it led to nothing
before, and every path beside it is as it was. It is, exactly if two things hold before
the call (`setContextAny_local_iff`): the container that is written is found in the
context at one place only, and an array that is too short has nil for the room it is
given, or needs no more room than for the value, which is then the zero value that is
put there (`Clear`).
-/

namespace KubeKey.Variable

open KubeKey.Go

/-- The entry at a step, `none` if it is missing or nil. -/
def held (h : Heap) (v : Val) (s : Seg) : Option Val :=
  (h.deref v).bind fun o => if isMissing o.elem (o.child s) then none else o.child s

/-- What is looked up at a path. -/
def look (h : Heap) : Val → Path → Option Val
  | v, [] => some v
  | v, s :: p => (held h v s).bind fun c => look h c p

/-- What a call that stores `w` at `q` leaves, from `h` to `h'`, if it writes along the path only. -/
structure UpdatesLocally (h : Heap) (ctx : Val) (q : Path) (w : Val) (h' : Heap) : Prop where
  /-- Where nothing was, there is the value. -/
  absent : look h ctx q = none → h'.resolve ctx q = some w
  /-- What was there stays, with everything below it. -/
  present : look h ctx q ≠ none → ∀ t, look h' ctx (q ++ t) = look h ctx (q ++ t)
  /-- A path that is no beginning and no continuation of `q` leads to what it led to. -/
  elsewhere : ∀ p, ¬ p <+: q → ¬ q <+: p → look h' ctx p = look h ctx p
  /-- Where a container was missing on the way, there is one for the next step. -/
  made : ∀ r n t, q = r ++ n :: t → look h ctx r = none →
    ∃ l o, look h' ctx r = some (.ref l) ∧ h'.get? l = some o ∧ o.accepts n = true
  /-- The containers on the way stay, but for arrays that were too short. -/
  led : ∀ r n t c, q = r ++ n :: t → look h ctx r = some c → look h' ctx r = some c ∨
    ∃ elem items i l items', n = .idx i ∧ asSlice h c = some (elem, items) ∧ items.length ≤ i ∧
      look h' ctx r = some (.ref l) ∧ h'.get? l = some (.slice elem items') ∧ items'.length = i + 1

/-- The array at an element is too short for the next step. -/
def Short (h : Heap) (c : Option Val) (t : Path) : Prop :=
  ∃ v elem items i t', c = some v ∧ t = .idx i :: t' ∧ asSlice h v = some (elem, items) ∧ items.length ≤ i

/-- The element `s` of the container at `x`, on the path `q`, has to be written. -/
structure Gap (h : Heap) (ctx : Val) (q r : Path) (s : Seg) (t : Path) (x : Nat) (o : Obj) : Prop where
  split : q = r ++ s :: t
  reached : h.resolve ctx r = some (.ref x)
  object : h.get? x = some o
  accepts : o.accepts s = true
  opening : isMissing o.elem (o.child s) = true ∨ Short h (o.child s) t

/-- The container at `x` is found in the context at one place only. -/
def Sole (h : Heap) (ctx : Val) (r : Path) (x : Nat) : Prop := ∀ r', h.resolve ctx r' = some (.ref x) → r' = r

/-- When storing `w` at `q` is local. -/
structure Clear (h : Heap) (ctx : Val) (q : Path) (w : Val) : Prop where
  /-- The container that is written is nowhere else in the context, or a nil is written where nothing was. -/
  sole : ∀ r s t x o, Gap h ctx q r s t x o → Sole h ctx r x ∨ t = [] ∧ isNilElem o.elem w = true
  /-- The room of a longer array is nil, or it is the value itself. -/
  room : ∀ r s i t x o c elem items, Gap h ctx q r s (.idx i :: t) x o → o.child s = some c →
    isNilElem o.elem c = false → asSlice h c = some (elem, items) →
    isNilElem elem (zeroVal elem) = true ∨ items.length = i ∧ w = zeroVal elem

section Look
variable {h h' : Heap} {v c : Val} {s : Seg} {p : Path}

theorem held_ref {x : Nat} {o : Obj} (object : h.get? x = some o) (s : Seg) :
    held h (.ref x) s = if isMissing o.elem (o.child s) then none else o.child s := by
  simp [held, Heap.deref, object]

theorem held_eq_some (found : held h v s = some c) : h.child v s = some c := by
  obtain ⟨o, object, inside⟩ := Option.bind_eq_some_iff.1 found
  split at inside
  · cases inside
  · simp [Heap.child, object, inside]

theorem held_none (absent : h.child v s = none) : held h v s = none := by
  cases found : held h v s with
  | none => rfl
  | some c =>
    rw [held_eq_some found] at absent
    cases absent

/-- A container counts as an entry. -/
theorem held_of_ref {l : Nat} (step : h.child v s = some (.ref l)) : held h v s = some (.ref l) := by
  obtain ⟨x, o, rfl, object, inside⟩ := Heap.child_eq_some step
  rw [held_ref object, inside, if_neg]
  cases o.elem <;> simp [isMissing, isNilElem]

theorem look_append (p q : Path) : look h v (p ++ q) = (look h v p).bind fun c => look h c q := by
  induction p generalizing v with
  | nil => rfl
  | cons s p ih =>
    simp only [List.cons_append, look]
    cases held h v s with
    | none => rfl
    | some c => exact ih

theorem resolve_of_look (found : look h v p = some c) : h.resolve v p = some c := by
  induction p generalizing v with
  | nil => exact found
  | cons s p ih =>
    obtain ⟨d, step, rest⟩ := Option.bind_eq_some_iff.1 found
    rw [Heap.resolve_cons, held_eq_some step]
    exact ih rest

/-- A path that leads to a container meets no nil entry. -/
theorem look_of_resolve {x : Nat} (reached : h.resolve v p = some (.ref x)) : look h v p = some (.ref x) := by
  induction p generalizing v with
  | nil => exact reached
  | cons s p ih =>
    obtain ⟨d, step, rest⟩ := Option.bind_eq_some_iff.1 reached
    obtain ⟨y, rfl⟩ : ∃ y, d = .ref y := by
      cases p with
      | nil =>
        cases rest
        exact ⟨x, rfl⟩
      | cons s' p =>
        obtain ⟨_, step', _⟩ := Option.bind_eq_some_iff.1 rest
        obtain ⟨y, _, rfl, _⟩ := Heap.child_eq_some step'
        exact ⟨y, rfl⟩
    rw [look, held_of_ref step]
    exact ih rest

end Look

/-! ### A write, as it is looked up -/

section Write
variable {h h' : Heap} {ctx v w : Val} {s : Seg} {p r t : Path} {x : Nat} {o : Obj}

namespace Wrote

theorem held_eq (wrote : Wrote h x o s v h') : held h' (.ref x) s = if isNilElem o.elem v then none else some v := by
  rw [held_ref wrote.written, elem_setChild, Obj.child_setChild_self wrote.accepts]
  rfl

/-- A path that never takes the written element leads to what it led to. -/
theorem look_avoids (wrote : Wrote h x o s v h') (closed : h.Closed) {u : Val} (below : u.Below h.size)
    (avoids : ∀ r t, p = r ++ s :: t → h.resolve u r ≠ some (.ref x)) : look h' u p = look h u p := by
  induction p generalizing u with
  | nil => rfl
  | cons s' p ih =>
    have same : held h' u s' = held h u s' := by
      cases u with
      | ref l =>
        by_cases here : l = x
        · subst here
          have other : s' ≠ s := fun eq => avoids [] p (by rw [eq]; rfl) rfl
          rw [held_ref wrote.written, held_ref wrote.object, elem_setChild, Obj.child_setChild_ne o other]
        · simp only [held, Heap.deref, wrote.others l below here]
      | _ => rfl
    rw [look, look, same]
    cases found : held h u s' with
    | none => rfl
    | some c =>
      have step := held_eq_some found
      refine ih (Heap.child_below closed.below below step) fun r t split reached => ?_
      refine avoids (s' :: r) t (by rw [split]; rfl) ?_
      rw [Heap.resolve_cons, step]
      exact reached

end Wrote

/-- No path leads from a container back to it. -/
theorem no_return (acyclic : h.Acyclic) (long : p ≠ []) : h.resolve (.ref x) p ≠ some (.ref x) := by
  obtain ⟨rank, ranked⟩ := acyclic
  exact fun reached => Nat.lt_irrefl _ (ranked.lt_of_resolve long reached)

/-- Paths to one container are not parts of each other. -/
theorem not_inside (acyclic : h.Acyclic) (reached : h.resolve ctx r = some (.ref x)) {r' : Path} (long : t ≠ [])
    (split : r = r' ++ t) : h.resolve ctx r' ≠ some (.ref x) := by
  intro again
  rw [split, Heap.resolve_append, again] at reached
  exact no_return acyclic long reached

/-- A container that is written is where it was. -/
theorem Wrote.look_reached (wrote : Wrote h x o s v h') (storable : Storable h ctx)
    (reached : h.resolve ctx r = some (.ref x)) : look h' ctx r = some (.ref x) := by
  rw [wrote.look_avoids storable.closed storable.below, look_of_resolve reached]
  exact fun r' t split => not_inside storable.acyclic reached (by simp) split

/-- What is looked up through the written element. -/
theorem Wrote.look_through (wrote : Wrote h x o s v h') (storable : Storable h ctx)
    (reached : h.resolve ctx r = some (.ref x)) (p : Path) :
    look h' ctx (r ++ s :: p) = if isNilElem o.elem v then none else look h' v p := by
  rw [look_append, wrote.look_reached storable reached, Option.bind_some, look, wrote.held_eq]
  split <;> rfl

theorem look_through (reached : h.resolve ctx r = some (.ref x)) (object : h.get? x = some o) (p : Path) :
    look h ctx (r ++ s :: p) =
      (if isMissing o.elem (o.child s) then none else o.child s).bind fun c => look h c p := by
  rw [look_append, look_of_resolve reached, Option.bind_some, look, held_ref object]

/-- A path avoids the written element or goes through it. -/
theorem avoids_or_through (h : Heap) (ctx : Val) (s : Seg) (x : Nat) (p : Path) :
    (∀ r t, p = r ++ s :: t → h.resolve ctx r ≠ some (.ref x)) ∨
      ∃ r t, p = r ++ s :: t ∧ h.resolve ctx r = some (.ref x) := by
  by_cases through : ∃ r t, p = r ++ s :: t ∧ h.resolve ctx r = some (.ref x)
  · exact Or.inr through
  · exact Or.inl fun r t split reached => through ⟨r, t, split, reached⟩

section Nested
variable {b : Nat}

theorem Nested.ref (nested : Nested b h w v t) (long : t ≠ []) : ∃ l, v = .ref l := by
  cases t with
  | nil => exact absurd rfl long
  | cons n t =>
    obtain ⟨l, _, rfl, _⟩ := nested
    exact ⟨l, rfl⟩

/-- At the end of the path there is the value. -/
theorem Nested.resolve (nested : Nested b h w v t) : h.resolve v t = some w := by
  induction t generalizing v with
  | nil => exact congrArg some nested
  | cons n t ih =>
    obtain ⟨l, c, rfl, _, object, rest⟩ := nested
    rw [Heap.resolve_cons, Heap.child_ref object, Obj.child_setChild_self (made_accepts n)]
    exact ih rest

theorem held_made {l : Nat} {n : Seg} {c : Val} (object : h.get? l = some ((made n).setChild n c)) (s : Seg) :
    held h (.ref l) s = if s = n ∧ isNilElem .any c = false then some c else none := by
  rw [held_ref object, elem_setChild, made_elem]
  by_cases here : s = n
  · subst here
    rw [Obj.child_setChild_self (made_accepts s)]
    cases null : isNilElem .any c <;> simp [isMissing, null]
  · rw [Obj.child_setChild_ne _ here, if_pos (made_missing n s), if_neg fun both => here both.1]

/-- Beside the path nothing is made. -/
theorem Nested.look_beside (nested : Nested b h w v t) (before : ¬ p <+: t) (after : ¬ t <+: p) :
    look h v p = none := by
  induction t generalizing v p with
  | nil => exact absurd List.nil_prefix after
  | cons n t ih =>
    cases p with
    | nil => exact absurd List.nil_prefix before
    | cons s p =>
      obtain ⟨l, c, rfl, _, object, rest⟩ := nested
      rw [look, held_made object]
      split
      · next here =>
        obtain ⟨rfl, _⟩ := here
        rw [List.prefix_cons_inj] at before after
        exact ih rest before after
      · rfl

/-- On the path there is a container for each step. -/
theorem Nested.look_along {p : Path} {n : Seg} (nested : Nested b h w v (p ++ n :: t)) :
    ∃ l o, look h v p = some (.ref l) ∧ h.get? l = some o ∧ o.accepts n = true := by
  induction p generalizing v with
  | nil =>
    obtain ⟨l, c, rfl, _, object, _⟩ := nested
    exact ⟨l, _, rfl, object, by rw [accepts_setChild]; exact made_accepts n⟩
  | cons s p ih =>
    obtain ⟨l, c, rfl, _, object, rest⟩ := nested
    obtain ⟨l', rfl⟩ := rest.ref (by simp)
    rw [look, held_made object, if_pos ⟨rfl, rfl⟩]
    exact ih rest

end Nested

section Array
variable {b y i : Nat} {elem : GoType} {items : List Val}

/-- What is looked up in the longer array. -/
theorem held_array (array : h.get? y = some ((grown elem items i).setChild (.idx i) v)) :
    held h (.ref y) (.idx i) = if isNilElem elem v then none else some v := by
  rw [held_ref array, elem_setChild, Obj.child_setChild_self (grown_accepts elem items i)]
  rfl

theorem held_array_ne (array : h.get? y = some ((grown elem items i).setChild (.idx i) v)) (short : items.length ≤ i)
    {j : Nat} (other : j ≠ i) : held h (.ref y) (.idx j) =
      if j < items.length then if isMissing elem items[j]? then none else items[j]?
      else if j < i then if isNilElem elem (zeroVal elem) then none else some (zeroVal elem) else none := by
  have le : j ≤ i ↔ j < i := ⟨fun le => Nat.lt_of_le_of_ne le other, Nat.le_of_lt⟩
  rw [held_ref array, elem_setChild, Obj.child_setChild_ne _ (by simpa using other), grown_item short]
  simp only [le]
  by_cases old : j < items.length
  · rw [if_pos old, if_pos old]
    rfl
  · rw [if_neg old, if_neg old]
    split <;> rfl

theorem held_array_key (array : h.get? y = some ((grown elem items i).setChild (.idx i) v)) (k : String) :
    held h (.ref y) (.key k) = none :=
  held_none (by rw [Heap.child_ref array]; rfl)

/-- What is looked up in the array that was too short. -/
theorem held_slice {c : Val} (slice : asSlice h c = some (elem, items)) (j : Nat) :
    held h c (.idx j) = if isMissing elem items[j]? then none else items[j]? := by
  cases c with
  | ref l =>
    rw [held_ref (asSlice_ref slice)]
    rfl
  | nilSlice t =>
    simp only [asSlice, Option.some.injEq, Prod.mk.injEq] at slice
    rw [← slice.2]
    rfl
  | scalar a => simp [asSlice] at slice
  | nilMap t => simp [asSlice] at slice

end Array

/-- A beginning of `r ++ s :: t` is one of `r`, or goes through `s`. -/
theorem beginning_cases {r₁ t₁ : Path} {n : Seg} (split : r ++ s :: t = r₁ ++ n :: t₁) :
    (∃ u, r = r₁ ++ u) ∨ ∃ p, r₁ = r ++ s :: p ∧ t = p ++ n :: t₁ := by
  rcases List.append_eq_append_iff.1 split with ⟨a, rfl, rest⟩ | ⟨a, rfl, _⟩
  · cases a with
    | nil => exact Or.inl ⟨[], by simp⟩
    | cons s' a =>
      rw [List.cons_append, List.cons.injEq] at rest
      exact Or.inr ⟨a, by rw [rest.1], rest.2⟩
  · exact Or.inl ⟨a, rfl⟩

/-- A beginning of the way to the container that is written leads to what it led to. -/
theorem Wrote.look_before (wrote : Wrote h x o s v h') (storable : Storable h ctx)
    (reached : h.resolve ctx r = some (.ref x)) {r₁ u : Path} (split : r = r₁ ++ u) :
    look h' ctx r₁ = look h ctx r₁ := by
  refine wrote.look_avoids storable.closed storable.below fun r₂ t further => ?_
  exact not_inside (t := s :: t ++ u) storable.acyclic reached (by simp) (by rw [split, further]; simp)

end Write

/-! ### When it is local -/

section Local
variable {h h' : Heap} {ctx v w c : Val} {q r t : Path} {s : Seg} {x y i : Nat} {o : Obj} {elem : GoType}
  {items : List Val}

/-- A path that is there is left as it was. -/
theorem kept_local (split : q = r ++ [s]) (reached : h.resolve ctx r = some (.ref x)) (object : h.get? x = some o)
    (present : isMissing o.elem (o.child s) = false) : UpdatesLocally h ctx q w h := by
  obtain ⟨c, stored, _⟩ := child_of_present present
  have here : look h ctx q = some c := by
    rw [split, look_through reached object, present, stored]
    rfl
  refine ⟨fun absent => ?_, fun _ _ => rfl, fun _ _ _ => rfl, fun r₁ n t split' absent => ?_,
    fun _ _ _ _ _ found => Or.inl found⟩
  · rw [here] at absent
    cases absent
  · rw [split', look_append, absent] at here
    cases here

/-- Nothing is missing before a container. -/
theorem look_before_ne_none (reached : h.resolve ctx r = some (.ref x)) {r₁ u : Path} (split : r = r₁ ++ u) :
    look h ctx r₁ ≠ none := by
  intro absent
  have found := look_of_resolve reached
  rw [split, look_append, absent] at found
  cases found

theorem resolve_through (wrote : Wrote h x o s v h') (storable : Storable h ctx)
    (reached : h.resolve ctx r = some (.ref x)) (p : Path) : h'.resolve ctx (r ++ s :: p) = h'.resolve v p := by
  rw [Heap.resolve_append, resolve_of_look (wrote.look_reached storable reached), Option.bind_some, Heap.resolve_cons,
    Heap.child_ref wrote.written, Obj.child_setChild_self wrote.accepts]
  rfl

/-- Storing a missing element is local if its container is found once, or if a nil is stored. -/
theorem placed_local (storable : Storable h ctx) (split : q = r ++ s :: t) (reached : h.resolve ctx r = some (.ref x))
    (missing : isMissing o.elem (o.child s) = true) (wrote : Wrote h x o s v h') (nested : Nested h.size h' w v t)
    (sole : Sole h ctx r x ∨ t = [] ∧ isNilElem o.elem w = true) : UpdatesLocally h ctx q w h' := by
  subst split
  have before : ∀ {r'} p, h.resolve ctx r' = some (.ref x) → look h ctx (r' ++ s :: p) = none := fun p here => by
    rw [look_through here wrote.object, missing]
    rfl
  have after : ∀ {p n t₁}, t = p ++ n :: t₁ → look h' ctx (r ++ s :: p) = look h' v p := by
    intro p n t₁ split
    obtain ⟨l, rfl⟩ := nested.ref (by simp [split])
    rw [wrote.look_through storable reached, if_neg (by cases o.elem <;> simp [isNilElem])]
  refine ⟨fun _ => ?_, fun present => absurd (before t reached) present, fun p beside beside' => ?_,
    fun r₁ n t₁ split absent => ?_, fun r₁ n t₁ c split found => ?_⟩
  · rw [resolve_through wrote storable reached]
    exact nested.resolve
  · rcases avoids_or_through h ctx s x p with avoids | ⟨r', p, rfl, again⟩
    · exact wrote.look_avoids storable.closed storable.below avoids
    · rw [before p again, wrote.look_through storable again]
      split
      · rfl
      · next counts =>
        rcases sole with sole | ⟨rfl, null⟩
        · obtain rfl := sole r' again
          rw [List.prefix_append_right_inj, List.prefix_cons_inj] at beside beside'
          exact nested.look_beside beside beside'
        · rw [show v = w from nested] at counts
          exact absurd null counts
  · rcases beginning_cases split with ⟨u, upper⟩ | ⟨p, rfl, below⟩
    · exact absurd absent (look_before_ne_none reached upper)
    · rw [after below]
      exact Nested.look_along (below ▸ nested)
  · rcases beginning_cases split with ⟨u, upper⟩ | ⟨p, rfl, below⟩
    · exact Or.inl ((wrote.look_before storable reached upper).trans found)
    · rw [before p reached] at found
      cases found

section Array

namespace Replaced

theorem look_old (replaced : Replaced h ctx r s x o c elem items i y v h') {r' : Path}
    (again : h.resolve ctx r' = some (.ref x)) (p : Path) : look h ctx (r' ++ s :: p) = look h c p := by
  have counts : isMissing o.elem (some c) = false := replaced.present
  rw [look_through again replaced.wrote.object, replaced.stored, counts]
  rfl

theorem look_new (replaced : Replaced h ctx r s x o c elem items i y v h') (storable : Storable h ctx) {r' : Path}
    (again : h.resolve ctx r' = some (.ref x)) (p : Path) : look h' ctx (r' ++ s :: p) = look h' (.ref y) p := by
  rw [replaced.wrote.look_through storable again, if_neg (by cases o.elem <;> simp [isNilElem])]

/-- The old array has nothing where the path goes on. -/
theorem look_beyond (replaced : Replaced h ctx r s x o c elem items i y v h') (p : Path) :
    look h c (.idx i :: p) = none := by
  rw [look, held_slice replaced.slice, List.getElem?_eq_none replaced.short]
  rfl

/-- The items of the old array are those of the new one. -/
theorem look_item (replaced : Replaced h ctx r s x o c elem items i y v h') (storable : Storable h ctx) {j : Nat}
    (old : j < items.length) (p : Path) : look h' (.ref y) (.idx j :: p) = look h c (.idx j :: p) := by
  have same : held h' (.ref y) (.idx j) = held h c (.idx j) := by
    have short := replaced.short
    rw [held_array_ne replaced.array short (by omega), if_pos old, held_slice replaced.slice]
  rw [look, look, same]
  cases found : held h c (.idx j) with
  | none => rfl
  | some d =>
    have step := held_eq_some found
    have below := storable.closed x o replaced.wrote.object s c replaced.stored
    refine replaced.wrote.look_avoids storable.closed (Heap.child_below storable.closed.below below step) ?_
    -- the item is below the container that is written
    intro r' t _ back
    refine no_return (p := s :: .idx j :: r') (x := x) storable.acyclic (by simp) ?_
    rw [Heap.resolve_cons, Heap.child_ref replaced.wrote.object, replaced.stored, Option.bind_some, Heap.resolve_cons,
      step]
    exact back

/-- Beside the place where the path goes on, the new array leads to what the old one led to. -/
theorem look_beside (replaced : Replaced h ctx r s x o c elem items i y v h') (storable : Storable h ctx)
    (room : isNilElem elem (zeroVal elem) = true ∨ items.length = i) {s' : Seg} (other : s' ≠ .idx i) (p : Path) :
    look h' (.ref y) (s' :: p) = look h c (s' :: p) := by
  cases s' with
  | key k =>
    rw [look, look, held_array_key replaced.array, held_none (asSlice_key replaced.slice k)]
    rfl
  | idx j =>
    by_cases old : j < items.length
    · exact replaced.look_item storable old p
    · have apart : j ≠ i := fun same => other (by rw [same])
      rw [look, look, held_slice replaced.slice, List.getElem?_eq_none (Nat.not_lt.1 old),
        held_array_ne replaced.array replaced.short apart, if_neg old]
      rcases room with nil | exact_
      · rw [if_pos nil]
        split <;> rfl
      · rw [if_neg (by omega)]
        rfl

end Replaced

/-- Storing beyond the end of an array is local if the array is found once, and its room counts as nothing. -/
theorem grown_local (storable : Storable h ctx) (split : q = r ++ s :: .idx i :: t)
    (replaced : Replaced h ctx r s x o c elem items i y v h')
    (rest : (isNilElem elem (zeroVal elem) = true ∧ Nested h.size h' w v t) ∨
      (isNilElem elem (zeroVal elem) = false ∧ t = [] ∧ v = zeroVal elem))
    (sole : Sole h ctx r x) (room : isNilElem elem (zeroVal elem) = true ∨ items.length = i ∧ w = zeroVal elem) :
    UpdatesLocally h ctx q w h' := by
  subst split
  have reached := replaced.reached
  have before := replaced.look_old reached
  have absent : look h ctx (r ++ s :: .idx i :: t) = none := by rw [before, replaced.look_beyond]
  refine ⟨fun _ => ?_, fun present => absurd absent present, fun p beside beside' => ?_,
    fun r₁ n t₁ split absent => ?_, fun r₁ n t₁ c' split found => ?_⟩
  · rw [resolve_through replaced.wrote storable reached, Heap.resolve_cons, Heap.child_ref replaced.array,
      Obj.child_setChild_self (grown_accepts elem items i), Option.bind_some]
    rcases rest with ⟨_, nested⟩ | ⟨counts, rfl, rfl⟩
    · exact nested.resolve
    · rcases room with nil | ⟨_, rfl⟩
      · rw [counts] at nil
        cases nil
      · rfl
  · rcases avoids_or_through h ctx s x p with avoids | ⟨r', p, rfl, again⟩
    · exact replaced.wrote.look_avoids storable.closed storable.below avoids
    · obtain rfl := sole r' again
      rw [before p, replaced.look_new storable reached]
      rw [List.prefix_append_right_inj, List.prefix_cons_inj] at beside beside'
      cases p with
      | nil => exact absurd List.nil_prefix beside
      | cons s' p =>
        by_cases here : s' = .idx i
        · subst here
          rw [List.prefix_cons_inj] at beside beside'
          rw [replaced.look_beyond, look, held_array replaced.array]
          rcases rest with ⟨_, nested⟩ | ⟨_, rfl, _⟩
          · split
            · rfl
            · exact nested.look_beside beside beside'
          · exact absurd List.nil_prefix beside'
        · exact replaced.look_beside storable (room.imp_right And.left) here p
  · rcases beginning_cases split with ⟨u, upper⟩ | ⟨p, rfl, below⟩
    · exact absurd absent (look_before_ne_none reached upper)
    · cases p with
      | nil =>
        rw [before] at absent
        cases absent
      | cons s' p =>
        obtain ⟨rfl, rfl⟩ := List.cons.inj below
        rcases rest with ⟨_, nested⟩ | ⟨_, empty, _⟩
        · obtain ⟨l, rfl⟩ := nested.ref (by simp)
          rw [replaced.look_new storable reached, look, held_array replaced.array,
            if_neg (by cases elem <;> simp [isNilElem])]
          exact nested.look_along
        · simp at empty
  · rcases beginning_cases split with ⟨u, upper⟩ | ⟨p, rfl, below⟩
    · exact Or.inl ((replaced.wrote.look_before storable reached upper).trans found)
    · rw [before] at found
      cases p with
      | nil =>
        cases found
        obtain ⟨rfl, rfl⟩ := List.cons.inj below
        refine Or.inr ⟨elem, items, i, y, _, rfl, replaced.slice, replaced.short, ?_, replaced.array, ?_⟩
        · rw [replaced.look_new storable reached]
          rfl
        · have short := replaced.short
          simp only [List.length_set, List.length_append, List.length_replicate]
          omega
      | cons s' p =>
        obtain ⟨rfl, rfl⟩ := List.cons.inj below
        rw [replaced.look_beyond] at found
        cases found

end Array

/-! ### Only then -/

namespace Gap
variable {r' t' : Path} {s' : Seg} {x' : Nat} {o' : Obj}

/-- The path is not there beyond the element that has to be written. -/
theorem not_beyond (gap : Gap h ctx q r s t x o) {u : Path} (split : q = r ++ s :: u ++ s' :: t')
    (reached : h.resolve ctx (r ++ s :: u) = some (.ref x')) (object : h.get? x' = some o')
    (accepts : o'.accepts s' = true) : False := by
  have below : t = u ++ s' :: t' := by
    have whole := gap.split.symm.trans split
    rw [List.append_assoc, List.append_cancel_left_eq, List.cons_append, List.cons.injEq] at whole
    exact whole.2
  rcases gap.opening with missing | ⟨c, elem, items, i, t₁, stored, next, slice, short⟩
  · have found := look_of_resolve reached
    rw [look_through gap.reached gap.object, missing] at found
    cases found
  · rw [Heap.resolve_append, gap.reached, Option.bind_some, Heap.resolve_cons, Heap.child_ref gap.object, stored,
      Option.bind_some] at reached
    cases u with
    | nil =>
      cases reached
      rw [asSlice_ref slice] at object
      cases object
      rw [next] at below
      obtain ⟨rfl, _⟩ := List.cons.inj below
      simp only [Obj.accepts, decide_eq_true_eq] at accepts
      omega
    | cons n u =>
      rw [next] at below
      obtain ⟨rfl, _⟩ := List.cons.inj below
      rw [Heap.resolve_cons, ← asSlice_item slice, List.getElem?_eq_none short] at reached
      cases reached

/-- There is one element that has to be written at most. -/
theorem unique (gap : Gap h ctx q r s t x o) (gap' : Gap h ctx q r' s' t' x' o') :
    r = r' ∧ s = s' ∧ t = t' ∧ x = x' ∧ o = o' := by
  have lengths : r = r' ∧ s = s' ∧ t = t' := by
    rcases beginning_cases (gap.split.symm.trans gap'.split) with ⟨u, rfl⟩ | ⟨p, rfl, below⟩
    · cases u with
      | nil =>
        have whole := gap.split.symm.trans gap'.split
        rw [List.append_nil, List.append_cancel_left_eq, List.cons.injEq] at whole
        exact ⟨List.append_nil r', whole⟩
      | cons n u =>
        have whole := gap.split.symm.trans gap'.split
        rw [List.append_assoc, List.append_cancel_left_eq, List.cons_append, List.cons.injEq] at whole
        obtain ⟨rfl, _⟩ := whole
        exact (gap'.not_beyond gap.split gap.reached gap.object gap.accepts).elim
    · exact (gap.not_beyond gap'.split gap'.reached gap'.object gap'.accepts).elim
  obtain ⟨rfl, rfl, rfl⟩ := lengths
  have reached := gap'.reached
  rw [gap.reached] at reached
  cases reached
  have object := gap'.object
  rw [gap.object] at object
  cases object
  exact ⟨rfl, rfl, rfl, rfl, rfl⟩

end Gap

/-- A path that is there needs nothing. -/
theorem no_gap (split : q = r ++ [s]) (reached : h.resolve ctx r = some (.ref x)) (object : h.get? x = some o)
    (present : isMissing o.elem (o.child s) = false) {r' t' : Path} {s' : Seg} {x' : Nat} {o' : Obj} :
    ¬ Gap h ctx q r' s' t' x' o' := by
  intro gap
  obtain ⟨c, stored, _⟩ := child_of_present present
  rcases beginning_cases (split.symm.trans gap.split) with ⟨u, rfl⟩ | ⟨p, _, below⟩
  · have whole := split.symm.trans gap.split
    rw [List.append_assoc, List.append_cancel_left_eq] at whole
    cases u with
    | nil =>
      obtain ⟨rfl, rfl⟩ := List.cons.inj whole
      have again := gap.reached
      rw [List.append_nil] at reached
      rw [reached] at again
      cases again
      have same := gap.object
      rw [object] at same
      cases same
      rcases gap.opening with missing | ⟨_, _, _, _, _, _, next, _⟩
      · rw [present] at missing
        cases missing
      · cases next
    | cons n u =>
      obtain ⟨rfl, _⟩ := List.cons.inj whole
      exact gap.not_beyond split reached object (Obj.accepts_of_child stored)
  · simp at below

/-- Two paths to one container are beside each other, and so is what follows them. -/
theorem beside (acyclic : h.Acyclic) {r' u u' : Path} (reached : h.resolve ctx r = some (.ref x))
    (again : h.resolve ctx r' = some (.ref x)) (other : r' ≠ r) : ¬ r' ++ u <+: r ++ u' := by
  intro start
  have first : r' <+: r ++ u' := (List.prefix_append r' u).trans start
  rcases List.prefix_or_prefix_of_prefix first (List.prefix_append r u') with ⟨a, rfl⟩ | ⟨a, rfl⟩
  · exact not_inside (t := a) acyclic reached (fun empty => other (by simp [empty])) rfl again
  · exact not_inside (t := a) acyclic again (fun empty => other (by simp [empty])) rfl reached

theorem sole_of_not (h : Heap) (ctx : Val) (r : Path) (x : Nat)
    (differs : ∀ r', h.resolve ctx r' = some (.ref x) → r' ≠ r → False) : Sole h ctx r x :=
  fun r' again => by_contra fun other => differs r' again other

/-- A second place of the container shows what is stored. -/
theorem placed_sole (storable : Storable h ctx) (split : q = r ++ s :: t) (reached : h.resolve ctx r = some (.ref x))
    (missing : isMissing o.elem (o.child s) = true) (wrote : Wrote h x o s v h') (nested : Nested h.size h' w v t)
    (updates : UpdatesLocally h ctx q w h') : Sole h ctx r x ∨ t = [] ∧ isNilElem o.elem w = true := by
  have shown : isNilElem o.elem v = false → Sole h ctx r x := by
    intro counts
    refine sole_of_not h ctx r x fun r' again other => ?_
    have same := updates.elsewhere (r' ++ s :: []) (split ▸ beside storable.acyclic reached again other)
      (split ▸ beside storable.acyclic again reached (Ne.symm other))
    rw [wrote.look_through storable again, counts, look_through again wrote.object, missing] at same
    cases same
  cases t with
  | nil =>
    obtain rfl : v = w := nested
    cases counts : isNilElem o.elem v with
    | true => exact Or.inr ⟨rfl, rfl⟩
    | false => exact Or.inl (shown counts)
  | cons n t =>
    obtain ⟨l, rfl⟩ := nested.ref (by simp)
    exact Or.inl (shown (by cases o.elem <;> rfl))

/-- A second place of the container shows the longer array. -/
theorem grown_sole (storable : Storable h ctx) (split : q = r ++ s :: .idx i :: t)
    (replaced : Replaced h ctx r s x o c elem items i y v h') (updates : UpdatesLocally h ctx q w h') :
    Sole h ctx r x := by
  have reached := replaced.reached
  refine sole_of_not h ctx r x fun r' again other => ?_
  have same := updates.elsewhere (r' ++ s :: []) (split ▸ beside storable.acyclic reached again other)
    (split ▸ beside storable.acyclic again reached (Ne.symm other))
  rw [replaced.look_new storable again, replaced.look_old again] at same
  cases same
  have bound : y < h.size := storable.closed x o replaced.wrote.object s _ replaced.stored
  exact absurd bound (Nat.not_lt.2 replaced.new)

/-- An array whose room counts as elements keeps the zero value, and shows the room. -/
theorem grown_room (storable : Storable h ctx) (split : q = r ++ s :: .idx i :: [])
    (replaced : Replaced h ctx r s x o c elem items i y (zeroVal elem) h')
    (counts : isNilElem elem (zeroVal elem) = false) (updates : UpdatesLocally h ctx q w h') :
    items.length = i ∧ w = zeroVal elem := by
  subst split
  have reached := replaced.reached
  have short := replaced.short
  have before := replaced.look_old reached
  have after := replaced.look_new storable reached
  constructor
  · by_contra other
    have room : items.length < i := Nat.lt_of_le_of_ne short other
    have apart : items.length ≠ i := other
    have same := updates.elsewhere (r ++ s :: .idx items.length :: [])
      (fun start => other (by simpa using start)) (fun start => other (by simpa using Eq.symm (by simpa using start)))
    rw [before, after, look, look, held_array_ne replaced.array short apart, if_neg (Nat.lt_irrefl _), if_pos room,
      counts, held_slice replaced.slice, List.getElem?_eq_none (Nat.le_refl _)] at same
    cases same
  · have stored := updates.absent (by rw [before, replaced.look_beyond])
    rw [resolve_through replaced.wrote storable reached, Heap.resolve_cons, Heap.child_ref replaced.array,
      Obj.child_setChild_self (grown_accepts elem items i)] at stored
    exact (Option.some.inj stored).symm

/-- A call of `setContextValue` that succeeds is local exactly when its place is clear. -/
theorem setContextAny_local_iff (storable : Storable h ctx) (long : q ≠ [])
    (done : setContextAny ctx w q h = (.ok (), h')) : UpdatesLocally h ctx q w h' ↔ Clear h ctx q w := by
  cases setContextAny_stored storable long done with
  | @kept r s x o split reached object present =>
    refine ⟨fun _ => ?_, fun _ => kept_local split reached object present⟩
    exact ⟨fun _ _ _ _ _ gap => absurd gap (no_gap split reached object present),
      fun _ _ _ _ _ _ _ _ _ gap => absurd gap (no_gap split reached object present)⟩
  | @placed r t s x o v h' split reached missing wrote nested =>
    have here : Gap h ctx q r s t x o := ⟨split, reached, wrote.object, wrote.accepts, Or.inl missing⟩
    refine ⟨fun updates => ⟨fun r' s' t' x' o' gap => ?_, fun r' s' i t' x' o' c elem items gap stored present _ => ?_⟩,
      fun clear => placed_local storable split reached missing wrote nested (clear.sole _ _ _ _ _ here)⟩
    · obtain ⟨rfl, rfl, rfl, rfl, rfl⟩ := here.unique gap
      exact placed_sole storable split reached missing wrote nested updates
    · obtain ⟨rfl, rfl, rfl, rfl, rfl⟩ := here.unique gap
      rw [stored] at missing
      rw [show isNilElem o.elem c = true from missing] at present
      cases present
  | @grown r t s i x y o c v elem items h' split replaced rest =>
    have here : Gap h ctx q r s (.idx i :: t) x o := ⟨split, replaced.reached, replaced.wrote.object,
      replaced.wrote.accepts, Or.inr ⟨c, elem, items, i, t, replaced.stored, rfl, replaced.slice, replaced.short⟩⟩
    refine ⟨fun updates => ⟨fun r' s' t' x' o' gap => ?_,
      fun r' s' j t' x' o' c' elem' items' gap stored _ slice => ?_⟩, fun clear => ?_⟩
    · obtain ⟨rfl, rfl, rfl, rfl, rfl⟩ := here.unique gap
      exact Or.inl (grown_sole storable split replaced updates)
    · obtain ⟨rfl, rfl, same, rfl, rfl⟩ := here.unique gap
      cases same
      rw [replaced.stored] at stored
      cases stored
      rw [replaced.slice] at slice
      cases slice
      rcases rest with ⟨nil, _⟩ | ⟨counts, rfl, rfl⟩
      · exact Or.inl nil
      · exact Or.inr (grown_room storable split replaced counts updates)
    · have sole := (clear.sole _ _ _ _ _ here).resolve_right fun both => nomatch both.1
      exact grown_local storable split replaced rest sole
        (clear.room _ _ _ _ _ _ _ _ _ here replaced.stored replaced.present replaced.slice)

end Local

/-- A heap that was built from the inside out has no dangling reference and no cycle. -/
theorem sound_of_below {h : Heap} (below : ∀ l o, h.get? l = some o → o.Below l) : Sound h where
  closed l o found s c stored := (below l o found s c stored).mono (Nat.le_of_lt (Heap.get?_lt found))
  acyclic := ⟨id, fun l o s l' found stored => below l o found s (.ref l') stored⟩

/-- The groups of an inventory as a context has them, with the hosts in a slice of strings. -/
def groupsHeap : Heap :=
  ⟨[.slice .string [.scalar (.str "node1")],
    .map (.slice .string) (GoMap.empty.put "kube_node" (.ref 0)),
    .map .any (GoMap.empty.put "groups" (.ref 1))]⟩

theorem groupsHeap_storable : Storable groupsHeap (.ref 2) where
  toSound := by
    refine sound_of_below fun l o found s c stored => ?_
    match l, found with
    | 0, found =>
      cases found
      cases s with
      | key k => cases stored
      | idx i =>
        obtain rfl : c = .scalar (.str "node1") := by simpa using List.mem_of_getElem? stored
        trivial
    | 1, found | 2, found =>
      cases found
      cases s with
      | idx i => cases stored
      | key k =>
        simp only [Obj.child, GoMap.get?_put] at stored
        split at stored
        · cases stored
          exact Nat.lt_succ_self _
        · cases stored
    | l + 3, found => cases found
  below := Nat.lt_succ_self 2
  map := rfl

/-- The name of the second item of a list that is not there. -/
def planPath : Path := [.key "plan", .idx 1, .key "name"]

theorem setContextAny_local_iff_plan : UpdatesLocally groupsHeap (.ref 2) planPath (.scalar (.str "node1"))
    (setContextAny (.ref 2) (.scalar (.str "node1")) planPath groupsHeap).2 := by
  refine (setContextAny_local_iff groupsHeap_storable (by decide) rfl).2 ?_
  have here : Gap groupsHeap (.ref 2) planPath [] (.key "plan") [.idx 1, .key "name"] 2
      (.map .any (GoMap.empty.put "groups" (.ref 1))) := ⟨rfl, rfl, rfl, rfl, Or.inl rfl⟩
  refine ⟨fun r s t x o gap => ?_, fun r s i t x o c elem items gap stored => ?_⟩
  · obtain ⟨rfl, rfl, rfl, rfl, rfl⟩ := here.unique gap
    refine Or.inl fun r' again => by_contra fun long => ?_
    exact no_return groupsHeap_storable.acyclic long again
  · obtain ⟨rfl, rfl, _, rfl, rfl⟩ := here.unique gap
    cases stored

/-- A second host is not stored into a group with one, and the slice has an empty name instead. -/
theorem not_local_groups : ¬ ∀ (h : Heap) (ctx : Val) (q : Path) (w : Val) (h' : Heap), Storable h ctx → q ≠ [] →
    setContextAny ctx w q h = (.ok (), h') → UpdatesLocally h ctx q w h' := by
  intro updates
  have stored := (updates groupsHeap (.ref 2) [.key "groups", .key "kube_node", .idx 1] (.scalar (.str "node2"))
    (setContextAny (.ref 2) (.scalar (.str "node2")) [.key "groups", .key "kube_node", .idx 1] groupsHeap).2
    groupsHeap_storable (by decide) rfl).absent rfl
  have empty : (setContextAny (.ref 2) (.scalar (.str "node2")) [.key "groups", .key "kube_node", .idx 1]
    groupsHeap).2.resolve (.ref 2) [.key "groups", .key "kube_node", .idx 1] = some (.scalar (.str "")) := rfl
  rw [empty] at stored
  simp at stored

end KubeKey.Variable
