import KubeKey.Variable.Render

/-!
# When the context takes a value

`setContextValue` succeeds if along its path there are untyped containers of the
right kind up to a place where nothing is (`takes`), and for paths without typed
containers only then. What is stored at one path of a document does not change
whether the context takes another one, so a walk succeeds exactly if the context
takes every path at the start (`storeScalars_ok_iff`).
-/

namespace KubeKey.Variable

open KubeKey.Go

/-- The element of a `map[string]any` or `[]any` at a step, `none` for every other value. -/
def element (h : Heap) (v : Val) : Seg → Option (Option Val)
  | .key k => match h.deref v with
    | some (.map .any m) => some (m.get? k)
    | _ => none
  | .idx i => match asSlice h v with
    | some (.any, items) => some items[i]?
    | _ => none

/-- Along the path there are untyped containers of the right kind, up to a place where nothing is. -/
def takes (h : Heap) : Val → Path → Bool
  | _, [] => true
  | v, s :: rest => match element h v s with
    | none => false
    | some none => true
    | some (some c) => c == .null || takes h c rest

section Element
variable {h : Heap} {v : Val} {s : Seg}

/-- A map has keys, an array has indices. -/
def ofKind : Obj → Seg → Bool
  | .map _ _, .key _ => true
  | .slice _ _, .idx _ => true
  | _, _ => false

theorem element_object {l : Nat} {o : Obj} (object : h.get? l = some o) :
    element h (.ref l) s = if o.elem = .any ∧ ofKind o s = true then some (o.child s) else none := by
  cases o with
  | map t m => cases s <;> cases t <;> simp [element, Heap.deref, asSlice, object, Obj.elem, ofKind, Obj.child]
  | slice t items => cases s <;> cases t <;> simp [element, Heap.deref, asSlice, object, Obj.elem, ofKind, Obj.child]

theorem ofKind_of_accepts {o : Obj} (ok : o.accepts s = true) : ofKind o s = true := by
  cases o <;> cases s <;> first | rfl | cases ok

theorem ofKind_setChild (o : Obj) (s s' : Seg) (v : Val) : ofKind (o.setChild s v) s' = ofKind o s' := by
  cases o <;> cases s <;> cases s' <;> rfl

theorem elem_setChild (o : Obj) (s : Seg) (v : Val) : (o.setChild s v).elem = o.elem := by
  cases o <;> cases s <;> rfl

theorem element_ref {l : Nat} {o : Obj} (object : h.get? l = some o) (any : o.elem = .any) (ok : o.accepts s = true) :
    element h (.ref l) s = some (o.child s) := by
  rw [element_object object, if_pos ⟨any, ofKind_of_accepts ok⟩]

/-- The element of a container is its child. -/
theorem element_child {c : Option Val} (found : element h v s = some c) : h.child v s = c := by
  cases s with
  | key k =>
    simp only [element] at found
    split at found
    · next m object =>
      cases found
      rw [Heap.child, object]
      rfl
    · cases found
  | idx i =>
    simp only [element] at found
    split at found
    · next items slice =>
      cases found
      exact (asSlice_item slice i).symm
    · cases found

theorem takes_cons_missing {rest : Path} {c : Option Val} (found : element h v s = some c)
    (missing : isMissing .any c = true) : takes h v (s :: rest) = true := by
  rw [takes, found]
  cases c with
  | none => rfl
  | some c =>
    have null : c = .null := by
      simp only [isMissing, isNilElem] at missing
      split at missing <;> first | rfl | cases missing
    simp [null]

theorem takes_cons_present {rest : Path} {c : Val} (found : element h v s = some (some c))
    (present : isMissing .any (some c) = false) : takes h v (s :: rest) = takes h c rest := by
  have notNull : (c == Val.null) = false := by
    rw [beq_eq_false_iff_ne]
    rintro rfl
    cases present
  rw [takes, found]
  simp [notNull]

/-- A container that was just made takes every path of its kind. -/
theorem takes_newContainer {l : Nat} {rest : Path} (object : h.get? l = some (newContainer s)) :
    takes h (.ref l) (s :: rest) = true := by
  have empty : element h (.ref l) s = some none := by
    cases s <;> simp [element, Heap.deref, asSlice, object, newContainer]
  rw [takes, empty]

end Element

/-- The parents are untyped and have the places they are entered by. -/
def Parents (h : Heap) (parents : List (Nat × Seg)) : Prop :=
  ∀ e ∈ parents, ∃ o, h.get? e.1 = some o ∧ o.elem = .any ∧ o.accepts e.2 = true

section Parents
variable {h : Heap} {parents : List (Nat × Seg)}

theorem accepts_setChild (o : Obj) (s s' : Seg) (v : Val) : (o.setChild s v).accepts s' = o.accepts s' := by
  cases o <;> cases s <;> cases s' <;> simp [Obj.setChild, Obj.accepts]

theorem Parents.setChild (untyped : Parents h parents) (l : Nat) (s : Seg) (v : Val) :
    Parents (h.setChild l s v) parents := by
  intro e member
  obtain ⟨o, object, any, ok⟩ := untyped e member
  by_cases here : e.1 = l
  · refine ⟨o.setChild s v, ?_, by rw [elem_setChild, any], by rw [accepts_setChild, ok]⟩
    rw [here] at object ⊢
    exact Heap.get?_setChild_self object s v
  · exact ⟨o, by rw [Heap.get?_setChild_ne here, object], any, ok⟩

theorem Parents.alloc (untyped : Parents h parents) (n : Obj) : Parents (h.alloc n).2 parents := by
  intro e member
  obtain ⟨o, object, any, ok⟩ := untyped e member
  exact ⟨o, Heap.get?_alloc_of_some object, any, ok⟩

theorem Parents.cons (untyped : Parents h parents) {l : Nat} {o : Obj} {s : Seg} (object : h.get? l = some o)
    (any : o.elem = .any) (ok : o.accepts s = true) : Parents h ((l, s) :: parents) := by
  intro e member
  rcases List.mem_cons.1 member with rfl | above
  · exact ⟨o, object, any, ok⟩
  · exact untyped e above

theorem storeElem_ok {l : Nat} {o : Obj} {s : Seg} (object : h.get? l = some o) (any : o.elem = .any)
    (ok : o.accepts s = true) (v : Val) : storeElem l s v h = (.ok (), h.setChild l s v) := by
  simp [storeElem, object, ok, any, Heap.admits]

/-- Untyped parents take everything back. -/
theorem updateParents_ok : ∀ {parents : List (Nat × Seg)} {h : Heap}, Parents h parents → ∀ v : Val,
    (updateParents parents v h).1 = .ok () ∧
      (∀ {others}, Parents h others → Parents (updateParents parents v h).2 others) ∧
      ∀ l, (∀ e ∈ parents, e.1 ≠ l) → (updateParents parents v h).2.get? l = h.get? l
  | [], h, _, v => ⟨rfl, fun others => others, fun _ _ => rfl⟩
  | (l, s) :: parents, h, untyped, v => by
    obtain ⟨o, object, any, ok⟩ := untyped (l, s) (by simp)
    have rest : Parents (h.setChild l s v) parents :=
      Parents.setChild (fun e member => untyped e (List.mem_cons_of_mem _ member)) l s v
    obtain ⟨done, keeps, frame⟩ := updateParents_ok rest (.ref l)
    rw [updateParents, storeElem_ok object any ok]
    refine ⟨done, fun others => keeps (others.setChild l s v), fun l' apart => ?_⟩
    have other : l' ≠ l := fun same => apart (l, s) (by simp) same.symm
    exact (frame l' fun e member => apart e (List.mem_cons_of_mem _ member)).trans (Heap.get?_setChild_ne other s v)

end Parents

section SetPath
variable {h : Heap} {parents : List (Nat × Seg)} {v : Scalar} {full : Path}

/-- The step down into a place where nothing is. -/
theorem descend_missing {l : Nat} {o : Obj} {s : Seg} (next : Seg) (untyped : Parents h parents)
    (object : h.get? l = some o) (any : o.elem = .any) (ok : o.accepts s = true)
    (missing : isMissing .any (o.child s) = true) :
    ∃ h', descend l .any s next h = (.ok (.ref h.size), h') ∧ Parents h' ((l, s) :: parents) ∧
      h'.get? h.size = some (newContainer next) := by
  have wider := Heap.get?_alloc_of_some (o := newContainer next) object
  have run : ((storeElem l s (.ref h.size) (h.alloc (newContainer next)).2).andThen
      fun _ h' => (.ok (Val.ref h.size), h')) =
      (.ok (.ref h.size), (h.alloc (newContainer next)).2.setChild l s (.ref h.size)) := by
    rw [storeElem_ok wider any ok]
    rfl
  refine ⟨(h.alloc (newContainer next)).2.setChild l s (.ref h.size), ?_,
    ((untyped.alloc _).cons wider any ok).setChild l s _, ?_⟩
  · unfold descend
    rw [Heap.child_ref object]
    split
    · next c stored =>
      rw [stored] at missing
      rw [if_pos (show isNilElem .any c = true from missing)]
      exact run
    · exact run
  · rw [Heap.get?_setChild_ne (Nat.ne_of_gt (Heap.get?_lt object)), Heap.get?_alloc_new]

theorem storeLast_ok {l : Nat} {o : Obj} {s : Seg} (untyped : Parents h parents) (object : h.get? l = some o)
    (any : o.elem = .any) (ok : o.accepts s = true) : (storeLast parents l .any s v h).1 = .ok () := by
  unfold storeLast
  split
  · rw [storeElem_ok object any ok]
    exact (updateParents_ok (untyped.setChild l s _) _).1
  · exact (updateParents_ok untyped _).1

/-- The step down to an element that is there. -/
theorem descend_present {l : Nat} {o : Obj} {s next : Seg} {c : Val} (object : h.get? l = some o)
    (stored : o.child s = some c) (present : isMissing .any (some c) = false) :
    descend l .any s next h = (.ok c, h) := by
  unfold descend
  rw [Heap.child_ref object, stored]
  have notNil : ¬ isNilElem .any c = true := by
    rw [show isNilElem .any c = false from present]
    simp
  simp only [if_neg notNil]

theorem inContainer_ok {rest : Path} (below : ∀ {h : Heap} {parents : List (Nat × Seg)} {current : Val},
      Parents h parents → takes h current rest = true → (setPath v full parents current rest h).1 = .ok ())
    {l : Nat} {o : Obj} {s : Seg} (untyped : Parents h parents) (object : h.get? l = some o) (any : o.elem = .any)
    (ok : o.accepts s = true) (taken : takes h (.ref l) (s :: rest) = true) :
    (inContainer v full parents l .any s rest h).1 = .ok () := by
  unfold inContainer
  split
  · exact storeLast_ok untyped object any ok
  · next next rest =>
    cases missing : isMissing .any (o.child s) with
    | true =>
      obtain ⟨h', run, parents', fresh⟩ := descend_missing next untyped object any ok missing
      rw [run]
      exact below parents' (takes_newContainer fresh)
    | false =>
      obtain ⟨c, stored⟩ : ∃ c, o.child s = some c := by
        cases stored : o.child s with
        | none =>
          rw [stored] at missing
          cases missing
        | some c => exact ⟨c, rfl⟩
      rw [stored] at missing
      rw [descend_present object stored missing]
      have found := element_ref object any ok
      rw [stored] at found
      rw [takes_cons_present found missing] at taken
      exact below (untyped.cons object any ok) taken

/-- A path that the context takes can be stored at. -/
theorem setPath_ok (rest : Path) : ∀ {h : Heap} {parents : List (Nat × Seg)} {current : Val}, Parents h parents →
    takes h current rest = true → (setPath v full parents current rest h).1 = .ok () := by
  induction rest with
  | nil =>
    intro h parents current _ _
    cases current <;> rfl
  | cons s rest ih =>
    intro h parents current untyped taken
    have fits : (element h current s).isSome := by
      cases found : element h current s with
      | none =>
        rw [takes, found] at taken
        cases taken
      | some c => rfl
    cases s with
    | key k =>
      simp only [element] at fits
      split at fits
      · next m object =>
        obtain ⟨l, rfl⟩ : ∃ l, current = .ref l := by
          cases current with
          | ref l => exact ⟨l, rfl⟩
          | _ => cases object
        rw [setPath_key object]
        exact inContainer_ok ih untyped object rfl rfl taken
      · cases fits
    | idx i =>
      simp only [element] at fits
      split at fits
      · next items slice =>
        rw [setPath_idx slice, growSlice]
        split
        · next short =>
          obtain ⟨done, keeps, frame⟩ := updateParents_ok (untyped.alloc (grown .any items i)) (.ref h.size)
          have fresh : (updateParents parents (.ref h.size) (h.alloc (grown .any items i)).2).2.get? h.size =
              some (grown .any items i) := by
            rw [frame, Heap.get?_alloc_new]
            intro e member same
            obtain ⟨o, object, _⟩ := untyped e member
            exact absurd (Heap.get?_lt object) (by omega)
          have room : (grown .any items i).accepts (.idx i) = true := by
            simp [grown, Obj.accepts]
            omega
          have null : (grown .any items i).child (.idx i) = some .null := by
            simp only [grown, Obj.child]
            rw [List.getElem?_append_right short, List.getElem?_replicate, if_pos (by omega)]
            rfl
          show ((((updateParents parents (.ref h.size) (h.alloc (grown .any items i)).2).andThen
            fun _ h' => (.ok (Val.ref h.size), h'))).andThen _).1 = _
          generalize updateParents parents (.ref h.size) (h.alloc (grown .any items i)).2 = outcome at done keeps fresh
          obtain ⟨result, h'⟩ := outcome
          cases done
          refine inContainer_ok ih (keeps (untyped.alloc _)) fresh rfl room ?_
          exact takes_cons_missing (by rw [element_ref fresh rfl room, null]) rfl
        · next long =>
          cases current with
          | ref l =>
            have object := asSlice_ref slice
            exact inContainer_ok ih untyped object rfl (by simpa [Obj.accepts] using long) taken
          | nilSlice t =>
            simp only [asSlice, Option.some.injEq, Prod.mk.injEq] at slice
            rw [← slice.2] at long
            simp at long
          | scalar x => simp [asSlice] at slice
          | nilMap t => simp [asSlice] at slice
      · cases fits

/-- No typed container. -/
def anyTyped (h : Heap) : Val → Prop
  | .ref l => ∀ o, h.get? l = some o → o.elem = .any
  | .nilSlice t => t = .any
  | _ => True

/-- No typed container on the way of the path. -/
def Untyped (h : Heap) (v : Val) (q : Path) : Prop :=
  ∀ r t c, q = r ++ t → t ≠ [] → h.resolve v r = some c → anyTyped h c

theorem Untyped.root {current : Val} {s : Seg} {q : Path} (untyped : Untyped h current (s :: q)) : anyTyped h current :=
  untyped [] (s :: q) current rfl (by simp) rfl

theorem Untyped.child {current c : Val} {s : Seg} {q : Path} (untyped : Untyped h current (s :: q))
    (step : h.child current s = some c) : Untyped h c q := by
  intro r t d split goesOn reached
  refine untyped (s :: r) t d (by rw [split]; rfl) goesOn ?_
  rw [Heap.resolve_cons, step]
  exact reached

theorem anyTyped_of_element {current : Val} {s : Seg} {c : Option Val} (found : element h current s = some c) :
    anyTyped h current := by
  cases s with
  | key k =>
    simp only [element] at found
    split at found
    · next m object =>
      cases current with
      | ref l =>
        intro o object'
        rw [Heap.deref, object'] at object
        cases object
        rfl
      | _ => cases object
    · cases found
  | idx i =>
    simp only [element] at found
    split at found
    · next items slice =>
      cases current with
      | ref l =>
        intro o object
        rw [asSlice_ref slice] at object
        cases object
        rfl
      | nilSlice t =>
        simp only [asSlice, Option.some.injEq, Prod.mk.injEq] at slice
        exact slice.1
      | scalar x => simp [asSlice] at slice
      | nilMap t => simp [asSlice] at slice
    · cases found

/-- There is no typed container on the way of a path that is taken. -/
theorem untyped_of_takes (q : Path) : ∀ {v : Val}, takes h v q = true → Untyped h v q := by
  induction q with
  | nil =>
    intro v _ r t c split goesOn _
    exact absurd (List.append_eq_nil_iff.1 split.symm).2 goesOn
  | cons s q ih =>
    intro v taken r t c split goesOn reached
    cases found : element h v s with
    | none =>
      rw [takes, found] at taken
      cases taken
    | some e =>
      cases r with
      | nil =>
        cases reached
        exact anyTyped_of_element found
      | cons s' r =>
        rw [List.cons_append, List.cons.injEq] at split
        obtain ⟨rfl, split⟩ := split
        obtain ⟨d, step, further⟩ := Option.bind_eq_some_iff.1 reached
        have child := element_child found
        rw [step] at child
        subst child
        cases missing : isMissing .any (some d) with
        | false =>
          rw [takes_cons_present found missing] at taken
          exact ih taken r t c split goesOn further
        | true =>
          -- nothing is below a nil
          obtain rfl : d = .null := by
            simp only [isMissing, isNilElem] at missing
            split at missing <;> first | rfl | cases missing
          cases r with
          | nil =>
            cases further
            trivial
          | cons s'' r => cases further

theorem inContainer_takes {rest : Path} (below : ∀ {h : Heap} {parents : List (Nat × Seg)} {current : Val},
      Untyped h current rest → (setPath v full parents current rest h).1 = .ok () → takes h current rest = true)
    {l : Nat} {o : Obj} {s : Seg} (untyped : Untyped h (.ref l) (s :: rest)) (object : h.get? l = some o)
    (ok : o.accepts s = true) (done : (inContainer v full parents l .any s rest h).1 = .ok ()) :
    takes h (.ref l) (s :: rest) = true := by
  have found := element_ref object (untyped.root o object) ok
  cases missing : isMissing .any (o.child s) with
  | true => exact takes_cons_missing found missing
  | false =>
    cases stored : o.child s with
    | none =>
      rw [stored] at missing
      cases missing
    | some c =>
      rw [stored] at missing found
      rw [takes_cons_present found missing]
      cases rest with
      | nil => rfl
      | cons next rest =>
        simp only [inContainer, descend_present object stored missing, Outcome.andThen] at done
        exact below (untyped.child (by rw [Heap.child_ref object, stored])) done

/-- A path without typed containers can be stored at only if the context takes it. -/
theorem takes_of_setPath (rest : Path) : ∀ {h : Heap} {parents : List (Nat × Seg)} {current : Val},
    Untyped h current rest → (setPath v full parents current rest h).1 = .ok () → takes h current rest = true := by
  induction rest with
  | nil =>
    intro h parents current _ _
    rfl
  | cons s rest ih =>
    intro h parents current untyped done
    cases s with
    | key k =>
      cases map : asMap h current with
      | none => simp [setPath, map] at done
      | some m =>
        cases current with
        | ref l =>
          obtain ⟨t, object⟩ : ∃ t, h.get? l = some (.map t m) := by
            simp only [asMap] at map
            split at map
            · next t m' object =>
              cases map
              exact ⟨t, object⟩
            · cases map
          have any : t = .any := untyped.root _ object
          subst any
          rw [setPath_key object] at done
          exact inContainer_takes ih untyped object rfl done
        | _ => simp [setPath, map] at done
    | idx i =>
      cases slice : asSlice h current with
      | none => simp [setPath, slice] at done
      | some found =>
        obtain ⟨t, items⟩ := found
        have any : t = .any := by
          cases current with
          | ref l => exact untyped.root _ (asSlice_ref slice)
          | nilSlice t' =>
            have same : t' = .any := untyped.root
            simp only [asSlice, Option.some.injEq, Prod.mk.injEq] at slice
            rw [← slice.1, same]
          | scalar x => simp [asSlice] at slice
          | nilMap t' => simp [asSlice] at slice
        subst any
        by_cases short : items.length ≤ i
        · have absent : element h current (.idx i) = some none := by
            simp only [element, slice, List.getElem?_eq_none short]
          exact takes_cons_missing absent rfl
        · rw [setPath_idx slice, growSlice, if_neg short] at done
          cases current with
          | ref l => exact inContainer_takes ih untyped (asSlice_ref slice) (by simpa [Obj.accepts] using short) done
          | _ => simp [Outcome.andThen] at done

end SetPath

section Frame
variable {h h' : Heap} {x : Nat} {s : Seg} {w : Val}

theorem element_setChild_ne {v : Val} {s' : Seg} (avoids : v = .ref x → s' ≠ s) :
    element (h.setChild x s w) v s' = element h v s' := by
  cases v with
  | ref y =>
    by_cases here : y = x
    · subst here
      have other := avoids rfl
      cases object : h.get? y with
      | none => simp only [Heap.setChild, object]
      | some o =>
        rw [element_object object, element_object (Heap.get?_setChild_self object s w), elem_setChild, ofKind_setChild,
          o.child_setChild_ne other]
    · have same := Heap.get?_setChild_ne (h := h) here s w
      cases s' <;> simp only [element, Heap.deref, asSlice, same]
  | _ => cases s' <;> rfl

theorem element_agree {b : Nat} (agree : Heap.AgreeBelow b h h') {v : Val} (below : v.Below b) (s : Seg) :
    element h' v s = element h v s := by
  cases v with
  | ref y =>
    have same := agree y below
    cases s <;> simp only [element, Heap.deref, asSlice, same]
  | _ => cases s <;> rfl

theorem takes_agree {b : Nat} (closed : h.ClosedBelow b) (agree : Heap.AgreeBelow b h h') (q : Path) :
    ∀ {v : Val}, v.Below b → takes h' v q = takes h v q := by
  induction q with
  | nil => intros; rfl
  | cons s q ih =>
    intro v below
    rw [takes, takes, element_agree agree below]
    split
    · rfl
    · rfl
    · next c found => rw [ih (Heap.child_below closed below (element_child found))]

/-- A write that the path does not pass. -/
theorem takes_setChild_of_avoids (q : Path) : ∀ {v : Val},
    (∀ r s' t, q = r ++ s' :: t → h.resolve v r = some (.ref x) → s' ≠ s) →
      takes (h.setChild x s w) v q = takes h v q := by
  induction q with
  | nil => intros; rfl
  | cons s' q ih =>
    intro v avoids
    rw [takes, takes, element_setChild_ne fun here => avoids [] s' q rfl (by rw [here]; rfl)]
    split
    · rfl
    · rfl
    · next c found =>
      rw [ih]
      intro r s'' t split reached
      refine avoids (s' :: r) s'' t (by rw [split]; rfl) ?_
      rw [Heap.resolve_cons, element_child found]
      exact reached

/-- A path that leads to the container written into, and goes on from there. -/
theorem takes_setChild_through (r : Path) {u : Path}
    (same : takes (h.setChild x s w) (.ref x) u = takes h (.ref x) u) : ∀ {v : Val},
    h.resolve v r = some (.ref x) → (∀ r' s' t, r = r' ++ s' :: t → h.resolve v r' ≠ some (.ref x)) →
      takes (h.setChild x s w) v (r ++ u) = takes h v (r ++ u) := by
  induction r with
  | nil =>
    intro v reached _
    cases reached
    exact same
  | cons s' r ih =>
    intro v reached once
    obtain ⟨d, step, rest⟩ := Option.bind_eq_some_iff.1 reached
    have before : v ≠ .ref x := fun here => once [] s' r rfl (by rw [here]; rfl)
    rw [List.cons_append, takes, takes, element_setChild_ne fun here => absurd here before]
    split
    · rfl
    · rfl
    · next c found =>
      rw [element_child found] at step
      cases step
      rw [ih rest]
      intro r' s'' t split again
      refine once (s' :: r') s'' t (by rw [split]; rfl) ?_
      rw [Heap.resolve_cons, element_child found]
      exact again

end Frame

/-- Steps of one kind. -/
def sameKind : Seg → Seg → Bool
  | .key _, .key _ => true
  | .idx _, .idx _ => true
  | _, _ => false

/-- Two paths to scalars of one document. -/
def Compatible (q q' : Path) : Prop :=
  ∀ r s t t', q = r ++ s :: t → q' = r ++ s :: t' →
    (t = [] ∧ t' = []) ∨ ∃ n u n' u', t = n :: u ∧ t' = n' :: u' ∧ sameKind n n' = true

/-- A path whose containers are at their own place in the context. -/
def Own (q : Path) : Prop := ∀ k t, q = .key k :: t → ¬ Reserved k

theorem Own.start {q r t : Path} (own : Own q) (split : q = r ++ t) : Own r := by
  intro k r' first
  exact own k (r' ++ t) (by rw [split, first]; rfl)

section Put
variable {roots : Val → Prop} {l : Nat} {h h' : Heap} {q q' : Path} {w : Scalar}

/-- The context holds a container at one of its own paths only. -/
theorem Rendering.once (rendering : Rendering roots l h) {r r' : Path} {x : Nat} (own : Own r) (own' : Own r')
    (reached : h.resolve (.ref l) r = some (.ref x)) (again : h.resolve (.ref l) r' = some (.ref x)) : r' = r := by
  obtain ⟨label, labelled⟩ := rendering.labelled
  have first := labelled (.ref l) r x (Or.inr ⟨rfl, own⟩) reached
  have second := labelled (.ref l) r' x (Or.inr ⟨rfl, own'⟩) again
  exact second.symm.trans first

theorem Rendering.no_loop (rendering : Rendering roots l h) {r p : Path} {s : Seg} {x : Nat} (own : Own (r ++ s :: p))
    (reached : h.resolve (.ref l) r = some (.ref x)) : h.resolve (.ref l) (r ++ s :: p) ≠ some (.ref x) := by
  intro again
  have length := congrArg List.length (rendering.once (own.start rfl) own reached again)
  rw [List.length_append, List.length_cons] at length
  omega

/-- A write into a container of the context, as a path sees it. -/
theorem takes_write (rendering : Rendering roots l h) {h₁ : Heap} (grows : Heap.Grows h h₁) (own' : Own q') {r : Path}
    {x : Nat} {s : Seg} {v : Val} (own : Own r) (reached : h.resolve (.ref l) r = some (.ref x))
    (through : ∀ t, q' = r ++ s :: t →
      takes (h₁.setChild x s v) (.ref x) (s :: t) = takes h₁ (.ref x) (s :: t)) :
    takes (h₁.setChild x s v) (.ref l) q' = takes h (.ref l) q' := by
  have below := rendering.below
  have same := takes_agree rendering.closed.below grows.agree q' below
  have start : ∀ r' t, q' = r' ++ t → h₁.resolve (.ref l) r' = some (.ref x) → r' = r := by
    intro r' t split again
    rw [grows.resolve rendering.closed below] at again
    exact rendering.once own (own'.start split) reached again
  rw [← same]
  by_cases passes : ∃ t, q' = r ++ s :: t
  · obtain ⟨t, split⟩ := passes
    rw [split]
    refine takes_setChild_through r (through t split) (by rw [grows.resolve rendering.closed below, reached]) ?_
    intro r' s' t' shorter again
    have length := congrArg List.length shorter
    have whole := start r' (s' :: (t' ++ s :: t)) (by rw [split, shorter]; simp) again
    rw [whole, List.length_append, List.length_cons] at length
    omega
  · refine takes_setChild_of_avoids q' fun r' s' t split again here => passes ⟨t, ?_⟩
    rw [split, start r' (s' :: t) split again, here]

theorem takes_single (h : Heap) (v : Val) (s : Seg) : takes h v [s] = (element h v s).isSome := by
  rw [takes]
  split <;> simp_all [takes]

theorem ofKind_newContainer {n n' : Seg} (kind : sameKind n n' = true) : ofKind (newContainer n) n' = true := by
  cases n <;> cases n' <;> first | rfl | cases kind

/-- Whether a container takes a path is decided at the container, if the path ends there or finds nothing there. -/
theorem takes_object {x : Nat} {s : Seg} {o : Obj} {rest : Path} (object : h.get? x = some o)
    (goesOn : o.elem = .any → ofKind o s = true → takes h (.ref x) (s :: rest) = true) :
    takes h (.ref x) (s :: rest) = decide (o.elem = .any ∧ ofKind o s = true) := by
  by_cases fits : o.elem = .any ∧ ofKind o s = true
  · rw [goesOn fits.1 fits.2, decide_eq_true fits]
  · rw [takes, element_object object, if_neg fits, decide_eq_false fits]

/-- The array that takes the place of a shorter one, as a path sees it. -/
theorem takes_grown {x i j : Nat} {c : Val} {elem : GoType} {items : List Val} {rest : Path}
    (slice : asSlice h c = some (elem, items)) (object : h'.get? x = some (grown elem items i))
    (items' : ∀ d, items[j]? = some d → takes h' d rest = takes h d rest) :
    takes h' (.ref x) (.idx j :: rest) = takes h c (.idx j :: rest) := by
  rw [takes, takes, element_object object]
  by_cases any : elem = .any
  · subst any
    rw [if_pos ⟨rfl, rfl⟩]
    simp only [element, slice]
    by_cases inside : j < items.length
    · have stored : (grown .any items i).child (.idx j) = items[j]? := List.getElem?_append_left inside
      rw [stored, List.getElem?_eq_getElem inside]
      simp only [items' items[j] (List.getElem?_eq_getElem inside)]
    · rw [List.getElem?_eq_none (Nat.not_lt.1 inside)]
      simp only [grown, Obj.child]
      rw [List.getElem?_append_right (Nat.not_lt.1 inside), List.getElem?_replicate]
      split <;> simp_all [zeroVal]
  · rw [if_neg fun both => any both.1]
    have typed : element h c (.idx j) = none := by
      simp only [element, slice]
      cases elem <;> first | rfl | exact absurd rfl any
    simp only [typed]

theorem slice_present {c : Val} {elem : GoType} {items : List Val} (slice : asSlice h c = some (elem, items)) :
    isMissing .any (some c) = false := by
  cases c with
  | scalar x => simp [asSlice] at slice
  | _ => rfl

theorem asSlice_grows (grows : Heap.Grows h h') {c : Val} {elem : GoType} {items : List Val}
    (slice : asSlice h c = some (elem, items)) : asSlice h' c = some (elem, items) := by
  cases c with
  | ref y => simp only [asSlice, grows.get? (asSlice_ref slice)]
  | _ => exact slice

/-- What an item of an array in the context leads to. -/
theorem resolve_item (rendering : Rendering roots l h) {r p : Path} {s : Seg} {x j : Nat} {o : Obj} {c d v : Val}
    {elem : GoType} {items : List Val} (reached : h.resolve (.ref l) r = some (.ref x)) (object : h.get? x = some o)
    (stored : o.child s = some c) (slice : asSlice h c = some (elem, items)) (grows : Heap.Grows h h')
    (item : items[j]? = some d) (further : h'.resolve d p = some v) :
    h.resolve (.ref l) (r ++ s :: .idx j :: p) = some v := by
  have bound : d.Below h.size := by
    rw [asSlice_item slice] at item
    exact Heap.child_below rendering.closed.below (rendering.closed x o object s c stored) item
  rw [Heap.resolve_append, reached]
  simp only [Option.bind_some, Heap.resolve_cons, Heap.child_ref object, stored, ← asSlice_item slice, item]
  rw [← grows.resolve rendering.closed bound]
  exact further

/-- Storing at one path of a document does not change whether the context takes another. -/
theorem Put.takes (put : Put (.ref l) q w h h') (rendering : Rendering roots l h) (own : Own q) (own' : Own q')
    (compatible : Compatible q q') : takes h' (.ref l) q' = takes h (.ref l) q' := by
  cases put with
  | @fill r s x o split reached object accepts missing =>
    refine takes_write rendering (Heap.Grows.refl h) own' (own.start split) reached fun t split' => ?_
    rcases compatible r s [] t split split' with ⟨_, rfl⟩ | ⟨n, u, _, _, empty, _⟩
    · rw [takes_single, takes_single, element_object object, element_object (Heap.get?_setChild_self object s _),
        elem_setChild, ofKind_setChild]
      split <;> rfl
    · cases empty
  | @create r t s n x o split reached object accepts missing =>
    have childless : (newContainer n).Below h.size := fun s' c inside => by simp [newContainer_child] at inside
    refine takes_write rendering (Heap.grows_alloc childless) own' (own.start split) reached fun t' split' => ?_
    rcases compatible r s (n :: t) t' split split' with ⟨empty, _⟩ | ⟨n₀, u, n', u', same, rfl, kind⟩
    · cases empty
    · cases same
      have before := Heap.get?_alloc_of_some (o := newContainer n) object
      have after := Heap.get?_setChild_self before s (.ref h.size)
      have fresh : ((h.alloc (newContainer n)).2.setChild x s (.ref h.size)).get? h.size = some (newContainer n) := by
        rw [Heap.get?_setChild_ne (Nat.ne_of_gt (Heap.get?_lt object)), Heap.get?_alloc_new]
      rw [takes_object before fun any kind => takes_cons_missing (by rw [element_object before, if_pos ⟨any, kind⟩])
        (by rw [← any]; exact missing), takes_object after fun any kind' => ?_, elem_setChild, ofKind_setChild]
      have stored : element ((h.alloc (newContainer n)).2.setChild x s (.ref h.size)) (.ref x) s =
          some (some (.ref h.size)) := by
        rw [element_object after, if_pos ⟨any, kind'⟩, Obj.child_setChild_self accepts]
      rw [takes_cons_present stored rfl, takes_object fresh fun _ _ => takes_cons_missing
        (by rw [element_object fresh, if_pos ⟨by cases n <;> rfl, ofKind_newContainer kind⟩, newContainer_child]) rfl]
      exact decide_eq_true ⟨by cases n <;> rfl, ofKind_newContainer kind⟩
  | @grow r t s i x o c elem items split reached object stored slice short =>
    have content := grown_below rendering.closed (rendering.closed x o object s c stored) slice i
    have grows := Heap.grows_alloc content
    refine takes_write rendering grows own' (own.start split) reached fun t' split' => ?_
    rcases compatible r s (.idx i :: t) t' split split' with ⟨empty, _⟩ | ⟨n, u, n', u', same, rfl, kind⟩
    · cases empty
    · cases same
      obtain ⟨j, rfl⟩ : ∃ j, n' = .idx j := by
        cases n' with
        | idx j => exact ⟨j, rfl⟩
        | key k => cases kind
      have before := grows.get? object
      have after := Heap.get?_setChild_self before s (.ref h.size)
      have fresh : ((h.alloc (grown elem items i)).2.setChild x s (.ref h.size)).get? h.size =
          some (grown elem items i) := by
        rw [Heap.get?_setChild_ne (Nat.ne_of_gt (Heap.get?_lt object)), Heap.get?_alloc_new]
      by_cases fits : o.elem = .any ∧ ofKind o s = true
      · have old : element (h.alloc (grown elem items i)).2 (.ref x) s = some (some c) := by
          rw [element_object before, if_pos fits, stored]
        have new : element ((h.alloc (grown elem items i)).2.setChild x s (.ref h.size)) (.ref x) s =
            some (some (.ref h.size)) := by
          rw [element_object after, elem_setChild, ofKind_setChild, if_pos fits,
            Obj.child_setChild_self (Obj.accepts_of_child stored)]
        have slice' := asSlice_grows grows slice
        rw [takes_cons_present old (slice_present slice'), takes_cons_present new rfl]
        refine takes_grown slice' fresh fun d item => takes_setChild_of_avoids u' fun r₁ s₁ t₁ further again _ => ?_
        -- the container written into is not below its own element
        refine rendering.no_loop (own'.start (t := s₁ :: t₁) (by rw [split', further]; simp)) reached
          (resolve_item rendering reached object stored slice grows item again)
      · rw [KubeKey.Variable.takes, KubeKey.Variable.takes, element_object before, element_object after, elem_setChild,
          ofKind_setChild, if_neg fits, if_neg fits]
  | discard below =>
    exact takes_agree rendering.closed.below (Heap.grows_alloc below).agree q' rendering.below

theorem anyTyped_setChild {c : Val} (any : anyTyped h c) (x : Nat) (s : Seg) (v : Val) :
    anyTyped (h.setChild x s v) c := by
  cases c with
  | ref y =>
    intro o object
    by_cases here : y = x
    · subst here
      cases old : h.get? y with
      | none => simp [Heap.setChild, old] at object
      | some o' =>
        rw [Heap.get?_setChild_self old] at object
        cases object
        rw [elem_setChild]
        exact any o' old
    · rw [Heap.get?_setChild_ne here] at object
      exact any o object
  | _ => exact any

theorem anyTyped_grows {c : Val} (any : anyTyped h c) (grows : Heap.Grows h h') (below : c.Below h.size) :
    anyTyped h' c := by
  cases c with
  | ref y =>
    intro o object
    rw [grows.agree y below] at object
    exact any o object
  | _ => exact any

/-- Storing makes no typed container on a path. -/
theorem Put.untyped (put : Put (.ref l) q w h h') (rendering : Rendering roots l h) (own' : Own q')
    (untyped : Untyped h (.ref l) q') : Untyped h' (.ref l) q' := by
  -- values that were on the path before
  have old : ∀ {h₁ : Heap}, Heap.Grows h h₁ → ∀ {r t c}, q' = r ++ t → t ≠ [] → h₁.resolve (.ref l) r = some c →
      anyTyped h₁ c := by
    intro h₁ grows r t c split goesOn reached
    rw [grows.resolve rendering.closed rendering.below] at reached
    exact anyTyped_grows (untyped r t c split goesOn reached) grows
      (Heap.resolve_below rendering.closed.below rendering.below reached)
  intro r' t' c split' goesOn reached'
  cases put with
  | @fill r s x o split reached object accepts missing =>
    rcases Heap.resolve_setChild_cases reached' with before | ⟨r₁, q₁, _, _, below⟩
    · exact anyTyped_setChild (old (Heap.Grows.refl h) split' goesOn before) _ _ _
    · cases q₁ with
      | nil =>
        cases below
        trivial
      | cons s₁ q₁ => cases below
  | @create r t s n x o split reached object accepts missing =>
    have childless : (newContainer n).Below h.size := fun s' c inside => by simp [newContainer_child] at inside
    rcases Heap.resolve_setChild_cases reached' with before | ⟨r₁, q₁, _, _, below⟩
    · exact anyTyped_setChild (old (Heap.grows_alloc childless) split' goesOn before) _ _ _
    · have fresh : ((h.alloc (newContainer n)).2.setChild x s (.ref h.size)).get? h.size = some (newContainer n) := by
        rw [Heap.get?_setChild_ne (Nat.ne_of_gt (Heap.get?_lt object)), Heap.get?_alloc_new]
      cases q₁ with
      | nil =>
        cases below
        intro o' object'
        rw [fresh] at object'
        cases object'
        cases n <;> rfl
      | cons s₁ q₁ =>
        rw [Heap.resolve_cons, Heap.child_ref fresh, newContainer_child] at below
        cases below
  | @grow r t s i x o c₀ elem items split reached object stored slice short =>
    have content := grown_below rendering.closed (rendering.closed x o object s c₀ stored) slice i
    have grows := Heap.grows_alloc content
    have fresh : ((h.alloc (grown elem items i)).2.setChild x s (.ref h.size)).get? h.size =
        some (grown elem items i) := by
      rw [Heap.get?_setChild_ne (Nat.ne_of_gt (Heap.get?_lt object)), Heap.get?_alloc_new]
    rcases Heap.resolve_setChild_cases reached' with before | ⟨r₁, q₁, rfl, start, below⟩
    · exact anyTyped_setChild (old grows split' goesOn before) _ _ _
    · rw [grows.resolve rendering.closed rendering.below] at start
      -- the array that was replaced was on the path
      have any : elem = .any := by
        have there : h.resolve (.ref l) (r₁ ++ [s]) = some c₀ := by
          rw [Heap.resolve_concat, start]
          show h.child (.ref x) s = some c₀
          rw [Heap.child_ref object, stored]
        have array := untyped (r₁ ++ [s]) (q₁ ++ t') c₀ (by rw [split']; simp) (by simp [goesOn]) there
        cases c₀ with
        | ref y => exact array _ (asSlice_ref slice)
        | nilSlice t =>
          simp only [asSlice, Option.some.injEq, Prod.mk.injEq] at slice
          rw [← slice.1]
          exact array
        | scalar x => simp [asSlice] at slice
        | nilMap t => simp [asSlice] at slice
      subst any
      cases q₁ with
      | nil =>
        cases below
        intro o' object'
        rw [fresh] at object'
        cases object'
        rfl
      | cons s₁ q₁ =>
        obtain ⟨d, step, further⟩ := Option.bind_eq_some_iff.1 below
        rw [Heap.child_ref fresh] at step
        cases s₁ with
        | key k => cases step
        | idx j =>
          simp only [grown, Obj.child] at step
          by_cases inside : j < items.length
          · rw [List.getElem?_append_left inside] at step
            have own₁ : Own (r₁ ++ s :: .idx j :: q₁) := own'.start (by rw [split'])
            rcases Heap.resolve_setChild_cases further with before | ⟨r₂, q₂, rfl, again, _⟩
            · have there := resolve_item rendering start object stored slice grows step before
              have value := untyped _ t' c split' goesOn there
              have bound := Heap.resolve_below rendering.closed.below rendering.below there
              exact anyTyped_setChild (anyTyped_grows value grows bound) _ _ _
            · have there := resolve_item rendering start object stored slice grows step again
              exact absurd there (rendering.no_loop (own₁.start (t := s :: q₂) (by simp)) start)
          · rw [List.getElem?_append_right (Nat.not_lt.1 inside), List.getElem?_replicate] at step
            split at step
            · cases step
              cases q₁ with
              | nil =>
                cases further
                trivial
              | cons s₂ q₁ => cases further
            · cases step
  | discard below => exact old (Heap.grows_alloc below) split' goesOn reached'

end Put

/-- The walk over scalars that are given by path, tag and text. -/
def storeScalars (env : Env) (ctx : Val) : List (Path × String × String) → Heap → Outcome Unit
  | [], h => (.ok (), h)
  | (q, tag, text) :: rest, h =>
    match parseScalarValue env (h.view ctx) tag text with
    | .error e => (.error (.error e), h)
    | .ok (v, _) => (setContextValue ctx v q h).andThen fun _ h => storeScalars env ctx rest h

theorem storeScalars_append (env : Env) (ctx : Val) (first second : List (Path × String × String)) :
    ∀ h, storeScalars env ctx (first ++ second) h =
      (storeScalars env ctx first h).andThen fun _ h => storeScalars env ctx second h := by
  induction first with
  | nil => intro h; rfl
  | cons cell rest ih =>
    obtain ⟨q, tag, text⟩ := cell
    intro h
    rw [List.cons_append, storeScalars, storeScalars]
    split
    · rfl
    · next v t _ =>
      generalize setContextValue ctx v q h = outcome
      obtain ⟨result, h'⟩ := outcome
      cases result with
      | error e => rfl
      | ok u => exact ih h'

section Scalars
variable {env : Env} {roots : Val → Prop} {l : Nat} {h h' : Heap}

theorem setContextValue_ok_iff {v : Scalar} {q : Path} (untyped : Untyped h (.ref l) q) :
    (setContextValue (.ref l) v q h).1 = .ok () ↔ takes h (.ref l) q = true :=
  ⟨takes_of_setPath q untyped, setPath_ok q fun _ member => nomatch member⟩

/-- Storing one scalar leaves the context as ready for the others as it was. -/
theorem Puts.ready {q : Path} {v : Scalar} (puts : Puts (.ref l) q v h h') (rendering : Rendering roots l h)
    (own : Own q) : Rendering roots l h' ∧ ∀ q', Own q' → Compatible q q' → Untyped h (.ref l) q' →
      takes h' (.ref l) q' = takes h (.ref l) q' ∧ Untyped h' (.ref l) q' := by
  induction puts with
  | refl => exact ⟨rendering, fun q' _ _ untyped => ⟨rfl, untyped⟩⟩
  | tail _ put ih =>
    obtain ⟨rendering₁, ready⟩ := ih
    refine ⟨rendering₁.put put, fun q' own' compatible untyped => ?_⟩
    obtain ⟨same, untyped₁⟩ := ready q' own' compatible untyped
    exact ⟨(put.takes rendering₁ own own' compatible).trans same, put.untyped rendering₁ own' untyped₁⟩

/-- The text is read, or refused, whatever the context holds. -/
def Steady (env : Env) (tag text : String) : Prop :=
  ∀ w w', (parseScalarValue env w tag text).isOk = (parseScalarValue env w' tag text).isOk

/-- A walk succeeds if and only if every text is read and the context takes every path. -/
theorem storeScalars_ok_iff (cells : List (Path × String × String)) : ∀ {h : Heap}, Rendering roots l h →
    (∀ e ∈ cells, Own e.1 ∧ Untyped h (.ref l) e.1 ∧ Steady env e.2.1 e.2.2) →
    (∀ e ∈ cells, ∀ e' ∈ cells, Compatible e.1 e'.1) →
      ((storeScalars env (.ref l) cells h).1 = .ok () ↔
        ∀ e ∈ cells, (∀ w, (parseScalarValue env w e.2.1 e.2.2).isOk = true) ∧ takes h (.ref l) e.1 = true) := by
  induction cells with
  | nil =>
    intro h _ _ _
    exact ⟨fun _ e member => (nomatch member), fun _ => rfl⟩
  | cons cell rest ih =>
    obtain ⟨q, tag, text⟩ := cell
    intro h rendering each compatible
    obtain ⟨own, untyped, steady⟩ := each (q, tag, text) (by simp)
    rw [storeScalars, List.forall_mem_cons]
    cases read : parseScalarValue env (h.view (.ref l)) tag text with
    | error e =>
      have refused : (parseScalarValue env (h.view (.ref l)) tag text).isOk = false := by rw [read]; rfl
      refine ⟨fun done => (by cases done), fun all => ?_⟩
      rw [all.1.1 (h.view (.ref l))] at refused
      cases refused
    | ok result =>
      obtain ⟨v, t⟩ := result
      have readable : ∀ w, (parseScalarValue env w tag text).isOk = true := by
        intro w
        rw [steady w (h.view (.ref l)), read]
        rfl
      obtain ⟨rendering', ready⟩ := Puts.ready (setContextValue_puts v q rendering.toStorable) rendering own
      have here := setContextValue_ok_iff (v := v) untyped
      have later : ∀ e ∈ rest, takes (setContextValue (.ref l) v q h).2 (.ref l) e.1 = takes h (.ref l) e.1 ∧
          Untyped (setContextValue (.ref l) v q h).2 (.ref l) e.1 := by
        intro e member
        obtain ⟨own', untyped', _⟩ := each e (List.mem_cons_of_mem _ member)
        exact ready e.1 own' (compatible (q, tag, text) (by simp) e (List.mem_cons_of_mem _ member)) untyped'
      have others := ih rendering'
        (fun e member => ⟨(each e (List.mem_cons_of_mem _ member)).1, (later e member).2,
          (each e (List.mem_cons_of_mem _ member)).2.2⟩)
        (fun e member e' member' => compatible e (List.mem_cons_of_mem _ member) e' (List.mem_cons_of_mem _ member'))
      have rest' : (∀ e ∈ rest, (∀ w, (parseScalarValue env w e.2.1 e.2.2).isOk = true) ∧
          takes (setContextValue (.ref l) v q h).2 (.ref l) e.1 = true) ↔
          ∀ e ∈ rest, (∀ w, (parseScalarValue env w e.2.1 e.2.2).isOk = true) ∧ takes h (.ref l) e.1 = true := by
        constructor <;> intro all e member
        · rw [← (later e member).1]
          exact all e member
        · rw [(later e member).1]
          exact all e member
      rw [rest'] at others
      simp only
      generalize setContextValue (.ref l) v q h = outcome at here others
      obtain ⟨result, h'⟩ := outcome
      cases result with
      | error e =>
        refine ⟨fun done => (by cases done), fun all => ?_⟩
        cases here.2 all.1.2
      | ok u =>
        show (storeScalars env (.ref l) rest h').1 = .ok () ↔ _
        rw [others]
        exact ⟨fun all => ⟨⟨readable, here.1 rfl⟩, all⟩, And.right⟩

end Scalars

end KubeKey.Variable
