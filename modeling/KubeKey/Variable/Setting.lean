import KubeKey.Variable.Written

/-!
# Storing any value into the context

The walk over a node stores scalars only, but `setContextValue` takes any value, a
container too, into a context that may hold typed maps and slices. `setContextAny` is
the function in this generality; for a scalar it is `setContextValue`. A call that
succeeds writes one element of one container that was there before. What is below the
new element is new as well, a container for each further step and the value at the end,
except that an array keeps its items in the longer copy (`setContextAny_stored`).
-/

namespace KubeKey.Variable

open KubeKey.Go

/-- `storeLast` of any value. -/
def storeLastAny (parents : List (Nat × Seg)) (l : Nat) (elem : GoType) (s : Seg) (value : Val) (h : Heap) :
    Outcome Unit :=
  if isMissing elem (h.child (.ref l) s) then
    (storeElem l s value h).andThen fun _ h => updateParents parents (.ref l) h
  else updateParents parents (.ref l) h

/-- The loop of `setContextValue` with `handleMap` and `handleSlice` as its two kinds of step, for any value. -/
def setPathAny (value : Val) (full : Path) : List (Nat × Seg) → Val → Path → Heap → Outcome Unit
  | _, _, [], h => (.ok (), h)
  | parents, current, .key k :: rest, h =>
    match asMap h current, current with
    | none, _ => (.error (.error (.expectedMap full)), h)
    | some _, .ref l =>
      let elem := ((h.get? l).map Obj.elem).getD .any
      match rest with
      | [] => storeLastAny parents l elem (.key k) value h
      | next :: _ =>
        (descend l elem (.key k) next h).andThen fun v h =>
          setPathAny value full ((l, .key k) :: parents) v rest h
    -- assignment to an entry of a nil map
    | some _, _ => (.error .panic, h)
  | parents, current, .idx i :: rest, h =>
    match asSlice h current with
    | none => (.error (.error (.expectedSlice full)), h)
    | some (elem, items) =>
      (growSlice parents current elem items i h).andThen fun current h =>
        match current with
        | .ref l =>
          match rest with
          | [] => storeLastAny parents l elem (.idx i) value h
          | next :: _ =>
            (descend l elem (.idx i) next h).andThen fun v h =>
              setPathAny value full ((l, .idx i) :: parents) v rest h
        | _ => (.error .panic, h)

/-- `setContextValue`. -/
def setContextAny (ctx value : Val) (path : Path) (h : Heap) : Outcome Unit :=
  setPathAny value path [] ctx path h

/-- What `setPathAny` does in a container that has the place of the step. -/
def inContainerAny (w : Val) (full : Path) (parents : List (Nat × Seg)) (l : Nat) (elem : GoType) (s : Seg)
    (rest : Path) (h : Heap) : Outcome Unit :=
  match rest with
  | [] => storeLastAny parents l elem s w h
  | next :: _ => (descend l elem s next h).andThen fun c h => setPathAny w full ((l, s) :: parents) c rest h

section Equations
variable {w : Val} {full : Path} {parents : List (Nat × Seg)} {h : Heap}

theorem setPathAny_key {l : Nat} {t : GoType} {m : GoMap Val} (object : h.get? l = some (.map t m)) (k : String)
    (rest : Path) :
    setPathAny w full parents (.ref l) (.key k :: rest) h = inContainerAny w full parents l t (.key k) rest h := by
  have map : asMap h (.ref l) = some m := by simp [asMap, object]
  simp only [setPathAny, map, object, Option.map_some, Option.getD_some]
  rfl

theorem setPathAny_idx {current : Val} {t : GoType} {items : List Val} (slice : asSlice h current = some (t, items))
    (i : Nat) (rest : Path) : setPathAny w full parents current (.idx i :: rest) h =
      (growSlice parents current t items i h).andThen fun current h => match current with
        | .ref l => inContainerAny w full parents l t (.idx i) rest h
        | _ => (.error .panic, h) := by
  rw [setPathAny]
  simp only [slice]
  rfl

/-- For a scalar it is the function that the walk over a node calls. -/
theorem setPathAny_scalar (v : Scalar) (full rest : Path) : ∀ (parents : List (Nat × Seg)) (current : Val) (h : Heap),
    setPathAny (.scalar v) full parents current rest h = setPath v full parents current rest h := by
  induction rest with
  | nil => exact fun _ _ _ => rfl
  | cons s rest ih =>
    intro parents current h
    have inside : ∀ (l : Nat) (elem : GoType) (s : Seg) (h : Heap),
        inContainerAny (.scalar v) full parents l elem s rest h = inContainer v full parents l elem s rest h := by
      intro l elem s h
      cases rest with
      | nil => rfl
      | cons next rest => simp only [inContainerAny, inContainer, ih]
    cases s with
    | key k =>
      cases map : asMap h current with
      | none => simp only [setPathAny, setPath, map]
      | some m =>
        cases current with
        | ref l =>
          obtain ⟨t, object⟩ := asMap_ref map
          rw [setPathAny_key object, setPath_key object, inside]
        | _ => simp only [setPathAny, setPath, map]
    | idx i =>
      cases slice : asSlice h current with
      | none => rw [setPathAny, setPath, slice]
      | some found =>
        obtain ⟨elem, items⟩ := found
        rw [setPathAny_idx slice, setPath_idx slice]
        congr 1
        funext c h'
        cases c with
        | ref l => exact inside l elem (.idx i) h'
        | _ => rfl

theorem setContextAny_scalar (ctx : Val) (v : Scalar) (path : Path) (h : Heap) :
    setContextAny ctx (.scalar v) path h = setContextValue ctx v path h :=
  setPathAny_scalar v path path [] ctx h

end Equations

/-! ### What a call writes -/

/-- From `h` to `h'` the element `s` of the object `o` at `x` becomes `v`, and the other containers stay. -/
structure Wrote (h : Heap) (x : Nat) (o : Obj) (s : Seg) (v : Val) (h' : Heap) : Prop where
  object : h.get? x = some o
  accepts : o.accepts s = true
  written : h'.get? x = some (o.setChild s v)
  others : ∀ l < h.size, l ≠ x → h'.get? l = h.get? l
  size_le : h.size ≤ h'.size

/-- The container that is made for a step of the path. -/
def made : Seg → Obj
  | .key _ => .map .any .empty
  | .idx i => grown .any [] i

/-- What is made for the rest of a path: from location `b` on a container for each step, and `w` at the end. -/
def Nested (b : Nat) (h : Heap) (w : Val) : Val → Path → Prop
  | v, [] => v = w
  | v, s :: t => ∃ l c, v = .ref l ∧ b ≤ l ∧ h.get? l = some ((made s).setChild s c) ∧ Nested b h w c t

theorem made_elem (s : Seg) : (made s).elem = .any := by cases s <;> rfl

theorem grown_accepts (elem : GoType) (items : List Val) (i : Nat) : (grown elem items i).accepts (.idx i) = true := by
  simp only [grown, Obj.accepts, List.length_append, List.length_replicate, decide_eq_true_eq]
  omega

theorem made_accepts (s : Seg) : (made s).accepts s = true := by
  cases s with
  | key k => rfl
  | idx i => exact grown_accepts .any [] i

theorem made_missing (n s : Seg) : isMissing .any ((made n).child s) = true := by
  cases n with
  | key k => cases s <;> rfl
  | idx i =>
    cases s with
    | key k => rfl
    | idx j =>
      rw [made, grown_item (Nat.zero_le i)]
      simp only [List.length_nil, Nat.not_lt_zero, if_false]
      split <;> rfl

theorem setChild_setChild (o : Obj) (s : Seg) (v w : Val) : (o.setChild s v).setChild s w = o.setChild s w := by
  cases o <;> cases s <;> simp [Obj.setChild, GoMap.put_put]

namespace Wrote
variable {h h₁ h' : Heap} {x y : Nat} {o n : Obj} {s s' : Seg} {v w : Val}

/-- Writing below a container that is new. -/
theorem below (wrote : Wrote h x o s v h₁) (further : Wrote h₁ y n s' w h') (new : h.size ≤ y) :
    Wrote h x o s v h' where
  object := wrote.object
  accepts := wrote.accepts
  written := by
    have old : x < h.size := Heap.get?_lt wrote.object
    rw [further.others x (Nat.lt_of_lt_of_le old wrote.size_le) (by omega)]
    exact wrote.written
  others l old other := by
    rw [further.others l (Nat.lt_of_lt_of_le old wrote.size_le) (by omega)]
    exact wrote.others l old other
  size_le := Nat.le_trans wrote.size_le further.size_le

/-- Writing the element again. -/
theorem again (wrote : Wrote h x o s v h₁) (further : Wrote h₁ x (o.setChild s v) s w h') : Wrote h x o s w h' where
  object := wrote.object
  accepts := wrote.accepts
  written := by
    rw [further.written, setChild_setChild]
  others l old other := by
    rw [further.others l (Nat.lt_of_lt_of_le old wrote.size_le) other]
    exact wrote.others l old other
  size_le := Nat.le_trans wrote.size_le further.size_le

end Wrote

section Stores
variable {ctx w : Val} {full : Path} {h h' : Heap}

theorem storeElem_wrote {l : Nat} {s : Seg} {v : Val} (done : storeElem l s v h = (.ok (), h')) :
    ∃ o, h.get? l = some o ∧ Wrote h l o s v h' ∧ h' = h.setChild l s v := by
  rcases storeElem_cases l s v h with ⟨o, found, accepts, run⟩ | run
  · rw [run] at done
    cases done
    exact ⟨o, found, ⟨found, accepts, Heap.get?_setChild_self found s v,
      fun l' _ other => Heap.get?_setChild_ne other s v, Nat.le_of_eq (Heap.size_setChild l s v).symm⟩, rfl⟩
  · rw [run] at done
    cases done

/-- Continuing after a success means that there was one. -/
theorem andThen_ok {α β : Type} {r : Outcome α} {f : α → Heap → Outcome β} {b : β}
    (done : r.andThen f = (.ok b, h')) : ∃ a h₁, r = (.ok a, h₁) ∧ f a h₁ = (.ok b, h') := by
  obtain ⟨result, h₁⟩ := r
  cases result with
  | error e => cases done
  | ok a => exact ⟨a, h₁, rfl, done⟩

section Hanging
variable {parents : List (Nat × Seg)} {r : Path} {x : Nat} {o n : Obj} {s : Seg}

/-- The chain above the innermost container. -/
theorem Chain.up {c : Val} (chain : Chain h ctx ((x, s) :: parents) c (r ++ [s])) : Chain h ctx parents (.ref x) r := by
  generalize whole : r ++ [s] = r' at chain
  cases chain with
  | step above child =>
    obtain rfl := List.append_cancel_right whole
    exact above

/-- Hanging a new container below an old one. -/
theorem storeElem_new (q : Path) (chain : Chain h ctx parents (.ref x) r) (sound : Sound h) (object : h.get? x = some o)
    (below : n.Below h.size)
    (put : o.accepts s = true → Put ctx q .null h ((h.alloc n).2.setChild x s (.ref h.size)))
    (done : storeElem x s (.ref h.size) (h.alloc n).2 = (.ok (), h')) :
    Wrote h x o s (.ref h.size) h' ∧ h'.get? h.size = some n ∧ Sound h' ∧
      Chain h' ctx ((x, s) :: parents) (.ref h.size) (r ++ [s]) := by
  obtain ⟨o', found, wrote, rfl⟩ := storeElem_wrote done
  have old : x < h.size := Heap.get?_lt object
  rw [Heap.get?_alloc_of_some object] at found
  cases found
  have grows := Heap.grows_alloc below
  have above := (chain.grows grows).setChild (sound.acyclic.grows sound.closed grows) rfl s (.ref h.size)
  refine ⟨⟨object, wrote.accepts, wrote.written, fun l bound other => ?_, ?_⟩, ?_, (put wrote.accepts).sound sound,
    .step above ?_⟩
  · rw [Heap.get?_setChild_ne other, Heap.get?_alloc_old n bound]
  · rw [Heap.size_setChild, Heap.size_alloc]
    exact Nat.le_succ h.size
  · rw [Heap.get?_setChild_ne (Nat.ne_of_gt old), Heap.get?_alloc_new]
  · exact Heap.child_setChild_self wrote.object wrote.accepts

/-- A container is made for a missing element. -/
theorem descend_new {next : Seg} (chain : Chain h ctx parents (.ref x) r) (sound : Sound h)
    (object : h.get? x = some o) (missing : isMissing o.elem (o.child s) = true) {c : Val}
    (done : descend x o.elem s next h = (.ok c, h')) :
    c = .ref h.size ∧ Wrote h x o s (.ref h.size) h' ∧ h'.get? h.size = some (newContainer next) ∧ Sound h' ∧
      Chain h' ctx ((x, s) :: parents) (.ref h.size) (r ++ [s]) := by
  have childless : (newContainer next).Below h.size := fun s' c inside => by simp [newContainer_child] at inside
  have stored : (storeElem x s (.ref h.size) (h.alloc (newContainer next)).2).andThen
      (fun _ h' => (.ok (.ref h.size), h')) = (.ok c, h') := by
    rw [← done, descend, Heap.child_ref object]
    split
    · next v found =>
      rw [found] at missing
      rw [if_pos (show isNilElem o.elem v = true from missing)]
      rfl
    · rfl
  obtain ⟨_, h₁, run, rfl, rfl⟩ := andThen_ok stored
  exact ⟨rfl, storeElem_new (r ++ s :: next :: []) chain sound object childless
    (fun accepts => .create rfl chain.resolve object accepts missing) run⟩

/-- A longer array takes the place of one that is too short. -/
theorem growSlice_short {c c' : Val} {elem : GoType} {items : List Val} {i : Nat}
    (chain : Chain h ctx parents (.ref x) r) (sound : Sound h) (object : h.get? x = some o)
    (stored : o.child s = some c) (slice : asSlice h c = some (elem, items)) (short : items.length ≤ i)
    (done : growSlice ((x, s) :: parents) c elem items i h = (.ok c', h')) :
    c' = .ref h.size ∧ Wrote h x o s (.ref h.size) h' ∧ h'.get? h.size = some (grown elem items i) ∧ Sound h' ∧
      Chain h' ctx ((x, s) :: parents) (.ref h.size) (r ++ [s]) := by
  have below := grown_below sound.closed (sound.closed x o object s c stored) slice i
  rw [growSlice, if_pos short] at done
  simp only [Heap.loc_alloc, updateParents] at done
  rw [← grown] at done
  obtain ⟨_, h₁, written, rfl, rfl⟩ := andThen_ok done
  obtain ⟨_, h₂, run, above⟩ := andThen_ok written
  have hung := storeElem_new (r ++ s :: .idx i :: []) chain sound object below
    (fun _ => .grow rfl chain.resolve object stored slice short) run
  obtain ⟨wrote, fresh, sound', below'⟩ := hung
  have same := below'.up.updateParents_same
  rw [above] at same
  subst same
  exact ⟨rfl, wrote, fresh, sound', below'⟩

end Hanging

/-- A missing element is stored, with a new container for each step that is left of the path. -/
theorem inContainerAny_new {b : Nat} (rest : Path) : ∀ {h : Heap} {parents : List (Nat × Seg)} {r : Path} {x : Nat}
    {o : Obj} {s : Seg}, Chain h ctx parents (.ref x) r → Sound h → h.get? x = some o →
      isMissing o.elem (o.child s) = true → b ≤ h.size →
      inContainerAny w full parents x o.elem s rest h = (.ok (), h') →
      ∃ v, Wrote h x o s v h' ∧ Nested b h' w v rest := by
  induction rest with
  | nil =>
    intro h parents r x o s chain sound object missing _ done
    rw [inContainerAny, storeLastAny, Heap.child_ref object, if_pos missing] at done
    obtain ⟨_, h₁, run, above⟩ := andThen_ok done
    obtain ⟨o', found, wrote, rfl⟩ := storeElem_wrote run
    rw [object] at found
    cases found
    have same := (chain.setChild sound.acyclic rfl s w).updateParents_same
    rw [above] at same
    subst same
    exact ⟨w, wrote, rfl⟩
  | cons n rest ih =>
    intro h parents r x o s chain sound object missing le done
    rw [inContainerAny] at done
    obtain ⟨c, h₁, run, further⟩ := andThen_ok done
    obtain ⟨rfl, wrote, fresh, sound₁, chain₁⟩ := descend_new chain sound object missing run
    have le₁ : b ≤ h₁.size := Nat.le_trans le wrote.size_le
    cases n with
    | key k =>
      rw [setPathAny_key fresh] at further
      obtain ⟨v, inner, nested⟩ := ih chain₁ sound₁ fresh rfl le₁ further
      exact ⟨_, wrote.below inner (Nat.le_refl _), h.size, v, rfl, le, inner.written, nested⟩
    | idx i =>
      have slice : asSlice h₁ (.ref h.size) = some (.any, []) := by simp [asSlice, fresh, newContainer]
      rw [setPathAny_idx slice] at further
      obtain ⟨c, h₂, grow, deeper⟩ := andThen_ok further
      have stored : (o.setChild s (.ref h.size)).child s = some (.ref h.size) := Obj.child_setChild_self wrote.accepts _
      obtain ⟨rfl, wrote₂, array, sound₂, chain₂⟩ :=
        growSlice_short chain₁.up sound₁ wrote.written stored slice (Nat.zero_le i) grow
      have le₂ : b ≤ h₂.size := Nat.le_trans le₁ wrote₂.size_le
      obtain ⟨v, inner, nested⟩ := ih chain₂ sound₂ array (made_missing (.idx i) (.idx i)) le₂ deeper
      exact ⟨_, (wrote.again wrote₂).below inner wrote.size_le, h₁.size, v, rfl, le₁, inner.written, nested⟩

/-- In place of the array `c`, the element `s` of the container that `r` leads to is a longer one that ends in `v`. -/
structure Replaced (h : Heap) (ctx : Val) (r : Path) (s : Seg) (x : Nat) (o : Obj) (c : Val) (elem : GoType)
    (items : List Val) (i y : Nat) (v : Val) (h' : Heap) : Prop where
  reached : h.resolve ctx r = some (.ref x)
  stored : o.child s = some c
  present : isNilElem o.elem c = false
  slice : asSlice h c = some (elem, items)
  short : items.length ≤ i
  wrote : Wrote h x o s (.ref y) h'
  new : h.size ≤ y
  array : h'.get? y = some ((grown elem items i).setChild (.idx i) v)

/-- The heap that a successful call leaves. -/
inductive Stored (h : Heap) (ctx : Val) (q : Path) (w : Val) : Heap → Prop where
  | kept {r : Path} {s : Seg} {x : Nat} {o : Obj} (split : q = r ++ [s]) (reached : h.resolve ctx r = some (.ref x))
      (object : h.get? x = some o) (present : isMissing o.elem (o.child s) = false) : Stored h ctx q w h
  | placed {r t : Path} {s : Seg} {x : Nat} {o : Obj} {v : Val} {h' : Heap} (split : q = r ++ s :: t)
      (reached : h.resolve ctx r = some (.ref x)) (missing : isMissing o.elem (o.child s) = true)
      (wrote : Wrote h x o s v h') (nested : Nested h.size h' w v t) : Stored h ctx q w h'
  | grown {r t : Path} {s : Seg} {i x y : Nat} {o : Obj} {c v : Val} {elem : GoType} {items : List Val} {h' : Heap}
      (split : q = r ++ s :: .idx i :: t) (replaced : Replaced h ctx r s x o c elem items i y v h')
      (rest : (isNilElem elem (zeroVal elem) = true ∧ Nested h.size h' w v t) ∨
        (isNilElem elem (zeroVal elem) = false ∧ t = [] ∧ v = zeroVal elem)) : Stored h ctx q w h'

section Walk
variable {q : Path} {parents : List (Nat × Seg)} {r : Path} {x : Nat} {o : Obj} {s : Seg}

/-- A zero value that counts as an element is no container. -/
theorem zeroVal_scalar {elem : GoType} (present : isNilElem elem (zeroVal elem) = false) :
    ∃ v, zeroVal elem = .scalar v := by
  cases elem with
  | slice t => cases present
  | map t => cases present
  | _ => exact ⟨_, rfl⟩

theorem child_of_present (present : isMissing o.elem (o.child s) = false) :
    ∃ c, o.child s = some c ∧ isNilElem o.elem c = false := by
  cases stored : o.child s with
  | none =>
    rw [stored] at present
    cases present
  | some c =>
    rw [stored] at present
    exact ⟨c, rfl, present⟩

/-- An element that is there is left alone. -/
theorem storeLastAny_present (chain : Chain h ctx parents (.ref x) r) (object : h.get? x = some o)
    (present : isMissing o.elem (o.child s) = false) (done : storeLastAny parents x o.elem s w h = (.ok (), h')) :
    h' = h := by
  rw [storeLastAny, Heap.child_ref object, if_neg (by simp [present])] at done
  have same := chain.updateParents_same
  rw [done] at same
  exact same

theorem descend_stored {next : Seg} {c : Val} (object : h.get? x = some o) (stored : o.child s = some c)
    (present : isNilElem o.elem c = false) : descend x o.elem s next h = (.ok c, h) := by
  simp [descend, Heap.child_ref object, stored, present]

/-- The innermost element of the chain counts as one. -/
def Topped (h : Heap) (parents : List (Nat × Seg)) : Prop :=
  ∀ l s rest o, parents = (l, s) :: rest → h.get? l = some o → isMissing o.elem (o.child s) = false

/-- The path ends in the container or goes on below it. -/
theorem inContainerAny_stored {rest : Path}
    (below : ∀ {parents : List (Nat × Seg)} {current : Val} {r : Path}, Chain h ctx parents current r →
      Topped h parents → q = r ++ rest → rest ≠ [] → setPathAny w full parents current rest h = (.ok (), h') →
      Stored h ctx q w h')
    (sound : Sound h) (chain : Chain h ctx parents (.ref x) r) (object : h.get? x = some o)
    (split : q = r ++ s :: rest) (done : inContainerAny w full parents x o.elem s rest h = (.ok (), h')) :
    Stored h ctx q w h' := by
  cases missing : isMissing o.elem (o.child s) with
  | true =>
    obtain ⟨v, wrote, nested⟩ := inContainerAny_new rest chain sound object missing (Nat.le_refl h.size) done
    exact .placed split chain.resolve missing wrote nested
  | false =>
    cases rest with
    | nil =>
      obtain rfl := storeLastAny_present chain object missing done
      exact .kept split chain.resolve object missing
    | cons next rest =>
      obtain ⟨c, stored, present⟩ := child_of_present missing
      rw [inContainerAny, descend_stored object stored present] at done
      refine below (.step chain (by rw [Heap.child_ref object, stored])) ?_ (by simpa using split) (by simp) done
      intro l s' rest' o' head found
      cases head
      rw [object] at found
      cases found
      exact missing

/-- The array is too short for the path, and a longer one takes its place. -/
theorem growSlice_stored {rest : Path} {c : Val} {elem : GoType} {items : List Val} {i : Nat} (sound : Sound h)
    (chain : Chain h ctx ((x, s) :: parents) c (r ++ [s])) (object : h.get? x = some o) (stored : o.child s = some c)
    (present : isNilElem o.elem c = false) (slice : asSlice h c = some (elem, items)) (short : items.length ≤ i)
    (split : q = r ++ s :: .idx i :: rest)
    (done : setPathAny w full ((x, s) :: parents) c (.idx i :: rest) h = (.ok (), h')) : Stored h ctx q w h' := by
  rw [setPathAny_idx slice] at done
  obtain ⟨c', h₁, grow, further⟩ := andThen_ok done
  obtain ⟨rfl, wrote, array, sound₁, chain₁⟩ := growSlice_short chain.up sound object stored slice short grow
  have room : (grown elem items i).child (.idx i) = some (zeroVal elem) := by
    rw [grown_item short, if_neg (Nat.not_lt.2 short), if_pos (Nat.le_refl i)]
  have reached := chain.up.resolve
  cases nil : isNilElem elem (zeroVal elem) with
  | true =>
    have missing : isMissing (grown elem items i).elem ((grown elem items i).child (.idx i)) = true := by
      rw [room]
      exact nil
    obtain ⟨v, inner, nested⟩ := inContainerAny_new rest chain₁ sound₁ array missing wrote.size_le further
    exact .grown split ⟨reached, stored, present, slice, short, wrote.below inner (Nat.le_refl _), Nat.le_refl _,
      inner.written⟩ (Or.inl ⟨nil, nested⟩)
  | false =>
    have filled : isMissing (grown elem items i).elem ((grown elem items i).child (.idx i)) = false := by
      rw [room]
      exact nil
    cases rest with
    | nil =>
      obtain rfl := storeLastAny_present chain₁ array filled further
      refine .grown split ⟨reached, stored, present, slice, short, wrote, Nat.le_refl _, ?_⟩ (Or.inr ⟨nil, rfl, rfl⟩)
      rw [Obj.setChild_same room]
      exact array
    | cons next rest =>
      -- the room of such an array holds no container
      obtain ⟨v, scalar⟩ := zeroVal_scalar nil
      simp only [inContainerAny] at further
      rw [show elem = (grown elem items i).elem from rfl, descend_stored array room nil, scalar] at further
      cases next <;> cases further

/-- The loop of `setContextValue`, on the part of the path that is there. -/
theorem setPathAny_stored (storable : Storable h ctx) (rest : Path) : ∀ {parents : List (Nat × Seg)} {current : Val}
    {r : Path}, Chain h ctx parents current r → Topped h parents → q = r ++ rest → rest ≠ [] →
      setPathAny w full parents current rest h = (.ok (), h') → Stored h ctx q w h' := by
  induction rest with
  | nil => exact fun _ _ _ long => absurd rfl long
  | cons s rest ih =>
    intro parents current r chain topped split _ done
    cases s with
    | key k =>
      cases map : asMap h current with
      | none => simp [setPathAny, map] at done
      | some m =>
        cases current with
        | ref x =>
          obtain ⟨t, object⟩ := asMap_ref map
          rw [setPathAny_key object] at done
          exact inContainerAny_stored ih storable.toSound chain object split done
        | _ => simp [setPathAny, map] at done
    | idx i =>
      cases slice : asSlice h current with
      | none => simp [setPathAny, slice] at done
      | some found =>
        obtain ⟨elem, items⟩ := found
        by_cases short : items.length ≤ i
        · cases chain with
          | root =>
            rw [asSlice_shape storable.map] at slice
            cases slice
          | @step parents x r s c above child =>
            obtain ⟨_, o, same, object, stored⟩ := Heap.child_eq_some child
            cases same
            have present := topped x s parents o rfl object
            rw [stored] at present
            exact growSlice_stored storable.toSound (.step above child) object stored present slice short
              (by simpa using split) done
        · rw [setPathAny_idx slice, growSlice, if_neg short] at done
          cases current with
          | ref x => exact inContainerAny_stored ih storable.toSound chain (asSlice_ref slice) split done
          | _ => cases done

end Walk

/-- A call that succeeds stores one element, or finds the path there. -/
theorem setContextAny_stored {q : Path} (storable : Storable h ctx) (long : q ≠ [])
    (done : setContextAny ctx w q h = (.ok (), h')) : Stored h ctx q w h' :=
  setPathAny_stored storable q .root (fun _ _ _ _ empty => nomatch empty) rfl long done

end Stores

end KubeKey.Variable
