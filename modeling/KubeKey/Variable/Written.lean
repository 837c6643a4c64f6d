import KubeKey.Variable.Accept

/-!
# What the context shows of a scalar that is stored

A root of the store sees a step of storing a scalar as `Seen`; the context itself sees it at
its own paths only (`Put.written`): the scalar at its place, a container on the way, a longer
array, or the room that an array was given. If the scalar is stored without an error, then
there is something at its place afterwards, and a null only if the scalar is one
(`setContextValue_present`).
-/

namespace KubeKey.Variable

open KubeKey.Go

/-- Nothing, or a null. -/
def Vacant (a : Option Shape) : Prop := a = none ∨ a = some (.scalar .null)

/-- Where the context shows a step of storing `w` at `q`, with what it has there before and afterwards. -/
inductive Written (q : Path) (w : Scalar) (untyped : Prop) (before after : Option Shape) : Path → Prop where
  | scalar (vacant : untyped → Vacant before) (stored : after = some (.scalar w)) : Written q w untyped before after q
  | container {r t : Path} {n : Seg} (split : q = r ++ n :: t) (vacant : untyped → Vacant before)
      (made : after = some (newContainer n).shape) : Written q w untyped before after r
  | longer {r t : Path} {i m : Nat} (split : q = r ++ .idx i :: t) (shorter : before = some (.slice m)) (short : m ≤ i)
      (made : after = some (.slice (i + 1))) : Written q w untyped before after r
  | room {r t : Path} {i j : Nat} (split : q = r ++ .idx i :: t) (inside : j ≤ i) (nothing : before = none)
      (null : untyped → after = some (.scalar .null)) : Written q w untyped before after (r ++ [.idx j])

/-- The containers on a path that is not nested below a reserved name are at their own place. -/
theorem Plain.own {q r t : Path} {s : Seg} (plain : Plain q) (split : q = r ++ s :: t) : Own r := by
  intro k r' first
  cases r' with
  | nil => exact plain k s t (by rw [split, first]; rfl)
  | cons s' r' => exact plain k s' (r' ++ s :: t) (by rw [split, first]; rfl)

theorem Own.plain {q : Path} (own : Own q) : Plain q := fun k s t split => own k (s :: t) split

section Step
variable {roots : Val → Prop} {l : Nat} {h h' : Heap} {q p : Path} {w : Scalar}

/-- No typed container is where a path without them has led to. -/
theorem Untyped.reached {c : Val} {r rest : Path} {s : Seg} (untyped : Untyped h (.ref l) q)
    (reached : h.resolve (.ref l) r = some c) (split : q = r ++ s :: rest) : anyTyped h c :=
  untyped r (s :: rest) c split (by simp) reached

/-- What is seen of a missing element of an untyped container. -/
theorem vacant_of_missing {c : Option Val} (missing : isMissing .any c = true) :
    Vacant (c.bind fun v => h.view v []) := by
  cases c with
  | none => exact Or.inl rfl
  | some v =>
    right
    simp only [isMissing, isNilElem] at missing
    split at missing
    · rfl
    all_goals cases missing

/-- A path of its own leads to a container at one place only. -/
theorem Rendering.only (rendering : Rendering roots l h) {h₁ : Heap} (grows : Heap.Grows h h₁) {r : Path} {x : Nat}
    (own : Own r) (own' : Own p) (reached : h.resolve (.ref l) r = some (.ref x)) :
    ∀ r' t, p = r' ++ t → h₁.resolve (.ref l) r' = some (.ref x) → r' = r := by
  intro r' t split again
  rw [grows.resolve rendering.closed rendering.below] at again
  exact rendering.once own (own'.start split) reached again

/-- A value of a new place of an array. -/
theorem view_zeroVal (h : Heap) (elem : GoType) (s : Seg) (p : Path) : h.view (zeroVal elem) (s :: p) = none := by
  cases elem <;> rfl

/-- The elements of a longer array: the old ones, and room for others. -/
theorem grown_item {elem : GoType} {items : List Val} {i : Nat} (short : items.length ≤ i) (j : Nat) :
    (grown elem items i).child (.idx j) =
      if j < items.length then items[j]? else if j ≤ i then some (zeroVal elem) else none := by
  simp only [grown, Obj.child]
  split
  · next inside => exact List.getElem?_append_left inside
  · next outside =>
    rw [List.getElem?_append_right (Nat.not_lt.1 outside), List.getElem?_replicate]
    congr 1
    rw [eq_iff_iff]
    omega

/-- An array has no keys. -/
theorem asSlice_key {c : Val} {elem : GoType} {items : List Val} (slice : asSlice h c = some (elem, items))
    (k : String) : h.child c (.key k) = none := by
  cases c with
  | ref x =>
    rw [Heap.child_ref (asSlice_ref slice)]
    rfl
  | _ => rfl

theorem anyTyped_slice {c : Val} {elem : GoType} {items : List Val} (any : anyTyped h c)
    (slice : asSlice h c = some (elem, items)) : elem = .any := by
  cases c with
  | ref x => exact any _ (asSlice_ref slice)
  | nilSlice t =>
    simp only [asSlice, Option.some.injEq, Prod.mk.injEq] at slice
    exact slice.1 ▸ any
  | scalar x => simp [asSlice] at slice
  | nilMap t => simp [asSlice] at slice

theorem asMap_ref {x : Nat} {m : GoMap Val} (map : asMap h (.ref x) = some m) : ∃ t, h.get? x = some (.map t m) := by
  simp only [asMap] at map
  split at map
  · next t m' object =>
    cases map
    exact ⟨t, object⟩
  · cases map

/-- What the context shows of a step at its own paths. -/
theorem Put.written (put : Put (.ref l) q w h h') (rendering : Rendering roots l h) (plain : Plain q) (own : Own p) :
    h'.view (.ref l) p = h.view (.ref l) p ∨
      Written q w (Untyped h (.ref l) q) (h.view (.ref l) p) (h'.view (.ref l) p) p := by
  have below := rendering.below
  cases put with
  | @fill r s x o split reached object accepts missing =>
    have only := rendering.only (Heap.Grows.refl h) (plain.own split) own reached
    rcases Heap.view_setChild_at (w := .scalar w) only object accepts with same | ⟨p', rfl, _, seen⟩
    · exact Or.inl same
    · cases p' with
      | nil =>
        subst split
        refine Or.inr (.scalar (fun untyped => ?_) seen)
        rw [view_element reached object]
        exact vacant_of_missing (untyped.reached reached rfl o object ▸ missing)
      | cons s' p' =>
        rw [seen, view_element reached object]
        exact Or.inl (missing_view_cons missing s' p').symm
  | @create r t s n x o split reached object accepts missing =>
    have childless : (newContainer n).Below h.size := fun s' c inside => by simp [newContainer_child] at inside
    have grows := Heap.grows_alloc childless
    have only := rendering.only grows (plain.own split) own reached
    rcases Heap.view_setChild_at (w := .ref h.size) only (Heap.get?_alloc_of_some object) accepts with
      same | ⟨p', rfl, _, seen⟩
    · exact Or.inl (same.trans (congrFun (grows.view rendering.closed below) p))
    · obtain ⟨top, deeper⟩ := view_newContainer (h := h) (s := s) (Nat.ne_of_gt (Heap.get?_lt object)) n
      cases p' with
      | nil =>
        refine Or.inr (.container (by simpa using split) (fun untyped => ?_) (seen.trans top))
        rw [view_element reached object]
        exact vacant_of_missing (untyped.reached reached split o object ▸ missing)
      | cons s' p' =>
        rw [seen, view_element reached object]
        exact Or.inl ((deeper s' p').trans (missing_view_cons missing s' p').symm)
  | @grow r t s i x o c elem items split reached object stored slice short =>
    have content := grown_below rendering.closed (rendering.closed x o object s c stored) slice i
    have grows := Heap.grows_alloc content
    have only := rendering.only grows (plain.own split) own reached
    rcases Heap.view_setChild_at (w := .ref h.size) only (Heap.get?_alloc_of_some object)
      (Obj.accepts_of_child stored) with same | ⟨p', rfl, _, seen⟩
    · exact Or.inl (same.trans (congrFun (grows.view rendering.closed below) p))
    · have fresh : ((h.alloc (grown elem items i)).2.setChild x s (.ref h.size)).get? h.size =
          some (grown elem items i) := by
        rw [Heap.get?_setChild_ne (Nat.ne_of_gt (Heap.get?_lt object)), Heap.get?_alloc_new]
      have before : h.view (.ref l) (r ++ s :: p') = h.view c p' := by
        rw [view_element reached object, stored]
        rfl
      rw [seen, before]
      cases p' with
      | nil =>
        refine Or.inr (.longer (by simpa using split) (asSlice_length slice ▸ rfl) short ?_)
        have length : (grown elem items i).shape = .slice (i + 1) := by
          simp only [grown, Obj.shape, List.length_append, List.length_replicate]
          congr 1
          omega
        simp only [Heap.view_nil, Heap.shape, fresh, Option.map_some, length]
      | cons s' p' =>
        rw [Heap.view_cons, Heap.child_ref fresh, Heap.view_cons]
        cases s' with
        | key k =>
          left
          rw [show h.child c (.key k) = none from asSlice_key slice k]
          rfl
        | idx j =>
          rw [grown_item short, ← asSlice_item slice]
          by_cases old : j < items.length
          · left
            rw [if_pos old, List.getElem?_eq_getElem old]
            have item : items[j]? = some items[j] := List.getElem?_eq_getElem old
            have bound : items[j].Below h.size := by
              rw [asSlice_item slice] at item
              exact Heap.child_below rendering.closed.below (rendering.closed x o object s c stored) item
            rw [Option.bind_some, Option.bind_some, ← congrFun (grows.view rendering.closed bound) p']
            refine Heap.view_setChild_of_avoids fun r₁ t₁ further again => ?_
            -- the container written into is not below its own element
            have there := resolve_item rendering reached object stored slice grows item again
            exact rendering.no_loop (own.start (t := s :: t₁) (by rw [further]; simp)) reached there
          · rw [if_neg old, List.getElem?_eq_none (Nat.not_lt.1 old), Option.bind_none]
            by_cases room : j ≤ i
            · rw [if_pos room, Option.bind_some]
              cases p' with
              | cons s'' p' => exact Or.inl (view_zeroVal _ elem s'' p')
              | nil =>
                right
                have place : r ++ [s, .idx j] = (r ++ [s]) ++ [.idx j] := by simp
                rw [place]
                refine .room (by simpa using split) room rfl fun untyped => ?_
                -- without types the array holds anything, and its room is null
                have array := untyped (r ++ [s]) (.idx i :: t) c (by simpa using split) (by simp) (by
                  rw [Heap.resolve_concat, reached]
                  show h.child (.ref x) s = some c
                  rw [Heap.child_ref object, stored])
                rw [anyTyped_slice array slice]
                rfl
            · rw [if_neg room]
              exact Or.inl rfl
  | discard below' => exact Or.inl (by rw [(Heap.grows_alloc below').view rendering.closed below])

/-! ### What is there afterwards -/

/-- The context has something at the path, and a null only if the scalar is one. -/
def Present (h : Heap) (ctx : Val) (q : Path) (w : Scalar) : Prop :=
  ∃ c, h.resolve ctx q = some c ∧ (c = .null → w = .null)

theorem storeLast_present {ctx : Val} {parents : List (Nat × Seg)} {r : Path} {s : Seg} {x : Nat} {o : Obj}
    (chain : Chain h ctx parents (.ref x) r) (sound : Sound h) (object : h.get? x = some o) (any : o.elem = .any)
    (done : (storeLast parents x o.elem s w h).1 = .ok ()) :
    Present (storeLast parents x o.elem s w h).2 ctx (r ++ [s]) w := by
  unfold storeLast at done ⊢
  rw [Heap.child_ref object] at done ⊢
  split at done
  · next missing =>
    rw [if_pos missing]
    rcases storeElem_cases x s (.scalar w) h with ⟨o', found, accepts, run⟩ | run
    · have above := chain.setChild sound.acyclic rfl s (.scalar w)
      rw [run, Outcome.andThen, above.updateParents_same]
      refine ⟨.scalar w, ?_, fun null => by cases null; rfl⟩
      rw [Heap.resolve_concat, above.resolve]
      exact Heap.child_setChild_self found accepts
    · rw [run] at done
      cases done
  · next present =>
    rw [if_neg present, chain.updateParents_same]
    cases stored : o.child s with
    | none =>
      rw [stored] at present
      exact absurd rfl present
    | some c =>
      refine ⟨c, ?_, fun null => ?_⟩
      · rw [Heap.resolve_concat, chain.resolve]
        show h.child (.ref x) s = some c
        rw [Heap.child_ref object, stored]
      · rw [stored, null, any] at present
        exact absurd rfl present

/-- Storing keeps the context ready, with no typed container on the path. -/
theorem Puts.untyped (puts : Puts (.ref l) q w h h') (rendering : Rendering roots l h) (own : Own p)
    (untyped : Untyped h (.ref l) p) : Rendering roots l h' ∧ Untyped h' (.ref l) p := by
  induction puts with
  | refl => exact ⟨rendering, untyped⟩
  | tail _ put ih => exact ⟨ih.1.put put, put.untyped ih.1 own ih.2⟩

section Walk
variable {full : Path} {parents : List (Nat × Seg)} {r rest : Path} {s : Seg}

/-- The path ends in the container or goes on below it. -/
theorem inContainer_present (below : ∀ {h : Heap} {parents : List (Nat × Seg)} {current : Val} {r : Path},
      rest ≠ [] → Rendering roots l h → Untyped h (.ref l) q → Chain h (.ref l) parents current r → q = r ++ rest →
      (setPath w full parents current rest h).1 = .ok () →
        Present (setPath w full parents current rest h).2 (.ref l) q w)
    {x : Nat} {o : Obj} (rendering : Rendering roots l h) (own : Own q) (untyped : Untyped h (.ref l) q)
    (chain : Chain h (.ref l) parents (.ref x) r) (object : h.get? x = some o) (split : q = r ++ s :: rest)
    (done : (inContainer w full parents x o.elem s rest h).1 = .ok ()) :
    Present (inContainer w full parents x o.elem s rest h).2 (.ref l) q w := by
  cases rest with
  | nil =>
    have any := untyped.reached chain.resolve split o object
    rw [split]
    exact storeLast_present chain rendering.toSound object any done
  | cons next rest =>
    obtain ⟨puts, further⟩ := descend_puts (v := w) chain rendering.toSound object split
    rw [inContainer] at done ⊢
    generalize descend x o.elem s next h = outcome at puts further done
    obtain ⟨result, h'⟩ := outcome
    cases result with
    | error e => cases done
    | ok c =>
      obtain ⟨rendering', untyped'⟩ := Puts.untyped puts rendering own untyped
      exact below (by simp) rendering' untyped' (further c rfl) (by simpa using split) done

theorem setPath_present (rest : Path) : ∀ {h : Heap} {parents : List (Nat × Seg)} {current : Val} {r : Path},
    rest ≠ [] → Own q → Rendering roots l h → Untyped h (.ref l) q → Chain h (.ref l) parents current r →
      q = r ++ rest → (setPath w full parents current rest h).1 = .ok () →
      Present (setPath w full parents current rest h).2 (.ref l) q w := by
  induction rest with
  | nil => exact fun empty => absurd rfl empty
  | cons s rest ih =>
    intro h parents current r _ own rendering untyped chain split done
    cases s with
    | key k =>
      cases map : asMap h current with
      | none => simp [setPath, map] at done
      | some m =>
        cases current with
        | ref x =>
          obtain ⟨t, object⟩ := asMap_ref map
          rw [setPath_key object] at done ⊢
          exact inContainer_present (fun long => ih long own) rendering own untyped chain object split done
        | _ => simp [setPath, map] at done
    | idx i =>
      cases slice : asSlice h current with
      | none => simp [setPath, slice] at done
      | some found =>
        obtain ⟨elem, items⟩ := found
        rw [setPath_idx slice] at done ⊢
        obtain ⟨puts, further⟩ :=
          growSlice_puts (v := w) chain rendering.toSound (asSlice_shape rendering.map) slice split
        generalize growSlice parents current elem items i h = outcome at puts further done
        obtain ⟨result, h'⟩ := outcome
        cases result with
        | error e => cases done
        | ok c =>
          obtain ⟨x, items', rfl, object, chain'⟩ := further c rfl
          obtain ⟨rendering', untyped'⟩ := Puts.untyped puts rendering own untyped
          exact inContainer_present (fun long => ih long own) rendering' own untyped' chain' object split done

end Walk

/-- A scalar that is stored without an error is there, or something else is. -/
theorem setContextValue_present (long : q ≠ []) (own : Own q) (rendering : Rendering roots l h)
    (untyped : Untyped h (.ref l) q) (done : (setContextValue (.ref l) w q h).1 = .ok ()) :
    Present (setContextValue (.ref l) w q h).2 (.ref l) q w :=
  setPath_present q long own rendering untyped .root rfl done

end Step

end KubeKey.Variable
