import KubeKey.Variable.Alike
import KubeKey.Variable.Cells
import KubeKey.Variable.Written

/-!
# How the context takes on a value

The walk stores the scalars of a value one by one below its key, and what is there only grows
(`AtMost`): a step leaves everything off the value as it was, and keeps the scalars that have
arrived (`Filling.put`). When all of them have, and no container of the value is empty, the
context shows the value over what was there before if and only if nothing was in its way
(`Filling.shown_iff`): off the value it was the same, and at each place of the value it had at
most a beginning of it, that is nothing, a null, an array that is not longer, or the value's own
(`Begun`).
-/

namespace KubeKey.Variable

open KubeKey.Go

/-- What may be at a place of a value that is not complete yet. -/
inductive AtMost (d : Option Shape) : Option Shape → Prop where
  | nothing : AtMost d none
  | null (held : d.isSome) : AtMost d (some (.scalar .null))
  | part {m n : Nat} (array : d = some (.slice n)) (le : m ≤ n) : AtMost d (some (.slice m))
  | same {a : Option Shape} (alike : AlikeShape a d) : AtMost d a

/-- `w` is `old` with a beginning of the data. -/
def Begun (D old w : DeepView) : Prop :=
  ∀ p, (D.decides Shape.opens p = true → AtMost (D p) (w p)) ∧
    (D.decides Shape.opens p = false → AlikeShape (w p) (old p))

/-- The data has the scalar at the path, below containers. -/
structure Leaf (D : DeepView) (q : Path) (v : Scalar) : Prop where
  inner : ∀ r s t, q = r ++ s :: t → Holds D r s
  leaf : ∃ s, D q = some (.scalar s) ∧ Alike v s

/-- A scalar of the data has a value in `w`, and a null only for a null. -/
structure Arrived (D w : DeepView) (q : Path) : Prop where
  inner : ∀ r s t, q = r ++ s :: t → Holds D r s
  leaf : ∃ s, D q = some (.scalar s)
  there : (w q).isSome
  null : w q = some (.scalar .null) → D q = some (.scalar .null)

/-- Arrays have all their items, and nothing is below a missing value. -/
structure Whole (D : DeepView) : Prop where
  closed : D.PrefixClosed
  items : ∀ r n, D r = some (.slice n) → ∀ j, j < n → (D (r ++ [.idx j])).isSome

theorem Lit.view_whole (x : Lit) : Whole x.view where
  closed := Lit.view_prefixClosed x
  items := by
    intro r
    induction r generalizing x with
    | nil =>
      intro n array j inside
      cases x with
      | slice t items =>
        cases array
        have step : (Lit.slice t items).child (.idx j) = some items[j] := List.getElem?_eq_getElem inside
        rw [List.nil_append, Lit.view, step]
        cases items[j] <;> rfl
      | _ => cases array
    | cons s r ih =>
      intro n array j inside
      rw [Lit.view] at array
      rw [List.cons_append, Lit.view]
      cases step : x.child s with
      | none =>
        rw [step] at array
        cases array
      | some c =>
        rw [step] at array
        exact ih c n array j inside

namespace AtMost
variable {a b c : Option Shape}

theorem isSome (upper : AtMost c b) (there : b.isSome) : c.isSome := by
  cases upper with
  | nothing => cases there
  | null held => exact held
  | part array =>
    rw [array]
    rfl
  | same alike =>
    rcases alikeShape_iff.1 alike with rfl | ⟨s, s', _, rfl, _⟩
    · exact there
    · rfl

theorem array {m : Nat} (upper : AtMost c (some (.slice m))) : ∃ n, c = some (.slice n) ∧ m ≤ n := by
  cases upper with
  | part array le => exact ⟨_, array, le⟩
  | same alike =>
    rcases alikeShape_iff.1 alike with rfl | ⟨s, s', other, _, _⟩
    · exact ⟨m, rfl, Nat.le_refl m⟩
    · cases other

theorem trans (upper : AtMost c b) (lower : AtMost b a) : AtMost c a := by
  cases lower with
  | nothing => exact .nothing
  | null held => exact .null (upper.isSome held)
  | part array le =>
    subst array
    obtain ⟨k, array, le'⟩ := upper.array
    exact .part array (Nat.le_trans le le')
  | same alike =>
    rcases alikeShape_iff.1 alike with rfl | ⟨s, s', rfl, rfl, same⟩
    · exact upper
    · cases upper with
      | null held =>
        cases same.of_null
        exact .null held
      | same alike' => exact .same (alike.trans alike')

end AtMost

theorem Holds.isSome {D : DeepView} {r : Path} {s : Seg} (holds : Holds D r s) : (D r).isSome := by
  cases s with
  | key k =>
    rw [show D r = some .map from holds]
    rfl
  | idx i =>
    obtain ⟨n, _, array⟩ := holds
    rw [array]
    rfl

theorem Holds.not_scalar {D : DeepView} {r : Path} {s : Seg} (holds : Holds D r s) (v : Scalar) :
    D r ≠ some (.scalar v) := by
  intro scalar
  cases s with
  | key k =>
    rw [show D r = some .map from holds] at scalar
    cases scalar
  | idx i =>
    obtain ⟨n, _, array⟩ := holds
    rw [array] at scalar
    cases scalar

theorem shape_scalar {h : Heap} {c : Val} {s : Scalar} (scalar : h.shape c = some (.scalar s)) : c = .scalar s := by
  cases c with
  | scalar s' =>
    cases scalar
    rfl
  | ref x =>
    obtain ⟨o, _, shape⟩ := Option.map_eq_some_iff.1 scalar
    cases o <;> cases shape
  | _ => cases scalar

/-- What is on the way to something on the heap. -/
theorem holds_of_view {h : Heap} {v : Val} {r t : Path} {s : Seg} (there : (h.view v (r ++ s :: t)).isSome) :
    Holds (h.view v) r s := by
  cases reached : h.resolve v r with
  | none =>
    rw [Heap.view, Heap.resolve_append, reached] at there
    cases there
  | some c =>
    rw [Heap.view_append reached, Heap.view_cons] at there
    obtain ⟨d, step⟩ : ∃ d, h.child c s = some d := by
      cases step : h.child c s with
      | none =>
        rw [step] at there
        cases there
      | some d => exact ⟨d, rfl⟩
    obtain ⟨x, o, rfl, object, inside⟩ := Heap.child_eq_some step
    have here : h.view v r = some o.shape := by
      rw [Heap.view, reached]
      simp only [Option.bind_some, Heap.shape, object, Option.map_some]
    cases o with
    | map t m =>
      cases s with
      | key k => exact here
      | idx i => cases inside
    | slice t items =>
      cases s with
      | key k => cases inside
      | idx i => exact ⟨items.length, (List.getElem?_eq_some_iff.1 inside).1, here⟩

section Steps
variable {D old w : DeepView} {q p : Path} {v : Scalar} {untyped : Prop} {before after : Option Shape}

/-- What is at a place only grows. -/
theorem Written.grown (written : Written q v untyped before after p) (free : untyped) : AtMost after before := by
  have vacant : Vacant before → after.isSome → AtMost after before := by
    rintro (rfl | rfl) there
    · exact .nothing
    · exact .null there
  cases written with
  | scalar empty stored => exact vacant (empty free) (by rw [stored]; rfl)
  | container split empty made => exact vacant (empty free) (by rw [made]; rfl)
  | longer split shorter short made =>
    rw [shorter]
    exact .part made (by omega)
  | room split inside nothing null =>
    rw [nothing]
    exact .nothing

/-- A step of storing a scalar of the data leaves a beginning of it. -/
theorem Written.atMost (written : Written q v untyped before after p) (whole : Whole D) (leaf : Leaf D q v)
    (free : untyped) : D.decides Shape.opens p = true ∧ AtMost (D p) after := by
  cases written with
  | scalar empty stored =>
    obtain ⟨s, held, alike⟩ := leaf.leaf
    refine ⟨View.decides_of_some whole.closed (by rw [held]; rfl), ?_⟩
    rw [stored, held]
    exact .same alike
  | @container _ t n split empty made =>
    have holds := leaf.inner p n t split
    refine ⟨View.decides_of_some whole.closed holds.isSome, ?_⟩
    rw [made]
    cases n with
    | key k =>
      rw [show D p = some .map from holds]
      exact .same rfl
    | idx i =>
      obtain ⟨m, _, array⟩ := holds
      exact .part array (Nat.zero_le m)
  | @longer _ t i m split shorter short made =>
    have holds := leaf.inner p (.idx i) t split
    refine ⟨View.decides_of_some whole.closed holds.isSome, ?_⟩
    obtain ⟨n, inside, array⟩ := holds
    rw [made]
    exact .part array inside
  | @room r t i j split inside nothing null =>
    obtain ⟨n, bound, array⟩ : Holds D r (.idx i) := leaf.inner r (.idx i) t split
    refine ⟨View.decides_below whole.closed array rfl [], ?_⟩
    rw [null free]
    exact .null (whole.items r n array j (by omega))

/-- A step of storing a scalar of the data takes away nothing that has arrived. -/
theorem Written.arrived (written : Written q v untyped (w p) after p) (leaf : Leaf D q v) (arrived : Arrived D w p) :
    after.isSome ∧ (after = some (.scalar .null) → D p = some (.scalar .null)) := by
  obtain ⟨s, held⟩ := arrived.leaf
  cases written with
  | scalar empty stored =>
    rw [stored]
    refine ⟨rfl, fun null => ?_⟩
    cases null
    obtain ⟨s', held', alike⟩ := leaf.leaf
    rw [held', alike.null]
  | @container _ t n split => exact absurd held ((leaf.inner p n t split).not_scalar s)
  | @longer _ t i m split => exact absurd held ((leaf.inner p (.idx i) t split).not_scalar s)
  | room split inside nothing =>
    have there := arrived.there
    rw [nothing] at there
    cases there

/-- With all its scalars the data is complete. -/
theorem complete_of_arrived (whole : Whole D) (holds : ∀ r s t, (w (r ++ s :: t)).isSome → Holds w r s)
    (all : ∀ p, (D p).isSome → ∃ q, p <+: q ∧ Arrived D w q) (upper : AtMost (D p) (w p)) : AlikeShape (w p) (D p) := by
  cases held : D p with
  | none =>
    have absent : ¬ (w p).isSome := fun there => by
      have below := upper.isSome there
      rw [held] at below
      cases below
    rw [Option.not_isSome_iff_eq_none.1 absent]
    exact .refl _
  | some d =>
    obtain ⟨q, ⟨t, rfl⟩, arrived⟩ := all p (by rw [held]; rfl)
    rw [← held]
    cases t with
    | nil =>
      rw [List.append_nil] at arrived
      obtain ⟨s, scalar⟩ := arrived.leaf
      have there := arrived.there
      generalize here : w p = a at upper there
      cases upper with
      | nothing => cases there
      | null _ =>
        rw [arrived.null here]
        exact .refl _
      | part array =>
        rw [scalar] at array
        cases array
      | same alike => exact alike
    | cons s t =>
      have container := arrived.inner p s t rfl
      have there := holds p s t arrived.there
      cases s with
      | key k =>
        rw [show D p = some .map from container, show w p = some .map from there]
        exact .refl _
      | idx i =>
        obtain ⟨n, inside, array⟩ := container
        obtain ⟨m, bound, here⟩ := there
        rw [array, here] at upper ⊢
        -- the last item has arrived as well
        obtain ⟨q', ⟨t', rfl⟩, last⟩ := all (p ++ [.idx (n - 1)]) (whole.items p n array (n - 1) (by omega))
        obtain ⟨m', above, here'⟩ : Holds w p (.idx (n - 1)) := holds p (.idx (n - 1)) t' (by simpa using last.there)
        rw [here] at here'
        cases here'
        obtain ⟨n', same, le⟩ := upper.array
        cases same
        rw [show m = n by omega]
        exact .refl _

end Steps

/-- What is seen below a key of a value. -/
def entry (h : Heap) (v : Val) (k : String) : DeepView := (h.view v).sub (.key k)

theorem holds_of_entry {h : Heap} {v : Val} {k : String} (r : Path) (s : Seg) (t : Path)
    (there : (entry h v k (r ++ s :: t)).isSome) : Holds (entry h v k) r s := by
  have holds := holds_of_view (r := .key k :: r) there
  cases s <;> exact holds

section Heap
variable {env : Env} {roots : Val → Prop} {l : Nat} {h h' : Heap} {D start : DeepView} {k k' : String} {q : Path}
  {v : Scalar}

/-- A step shows below its own key only. -/
theorem Put.entry (put : Put (.ref l) (.key k' :: q) v h h') (rendering : Rendering roots l h)
    (plain : Plain (.key k' :: q)) (own : ¬ Reserved k) (p : Path) :
    entry h' (.ref l) k p = Variable.entry h (.ref l) k p ∨ k' = k ∧
      Written q v (Untyped h (.ref l) (.key k' :: q)) (Variable.entry h (.ref l) k p)
        (Variable.entry h' (.ref l) k p) p := by
  have ownPath : Own (.key k :: p) := by
    intro k₁ t first
    cases first
    exact own
  rcases put.written rendering plain ownPath with same | written
  · exact Or.inl same
  · right
    show _ ∧ Written q v _ (h.view (.ref l) (.key k :: p)) (h'.view (.ref l) (.key k :: p)) p
    generalize h.view (.ref l) (.key k :: p) = before at written ⊢
    generalize h'.view (.ref l) (.key k :: p) = after at written ⊢
    generalize place : Seg.key k :: p = p' at written
    cases written with
    | scalar vacant stored =>
      cases place
      exact ⟨rfl, .scalar vacant stored⟩
    | container split vacant made =>
      subst place
      rw [List.cons_append, List.cons.injEq] at split
      cases split.1
      exact ⟨rfl, .container split.2 vacant made⟩
    | longer split shorter short made =>
      subst place
      rw [List.cons_append, List.cons.injEq] at split
      cases split.1
      exact ⟨rfl, .longer split.2 shorter short made⟩
    | @room r t i j split inside nothing null =>
      cases r with
      | nil => cases place
      | cons s r =>
        rw [List.cons_append, List.cons.injEq] at place split
        obtain ⟨rfl, rfl⟩ := place
        cases split.1
        exact ⟨rfl, .room split.2 inside nothing null⟩

/-- What the context has below the key `k` after steps of storing scalars, those at the paths among them. -/
structure Filling (roots : Val → Prop) (D start : DeepView) (k : String) (l : Nat) (paths : List Path) (h : Heap) :
    Prop where
  rendering : Rendering roots l h
  off : ∀ p, D.decides Shape.opens p = false → entry h (.ref l) k p = start p
  grown : ∀ p, AtMost (entry h (.ref l) k p) (start p)
  upper : (∀ p, D.decides Shape.opens p = true → AtMost (D p) (start p)) →
    ∀ p, D.decides Shape.opens p = true → AtMost (D p) (entry h (.ref l) k p)
  arrived : ∀ q ∈ paths, Arrived D (entry h (.ref l) k) q

theorem Filling.of_rendering (rendering : Rendering roots l h) : Filling roots D (entry h (.ref l) k) k l [] h where
  rendering := rendering
  off := fun _ _ => rfl
  grown := fun _ => .same (.refl _)
  upper := fun upper => upper
  arrived := fun _ member => by cases member

variable {paths : List Path}

/-- One step of storing a scalar, of the data if it is below the key. -/
theorem Filling.put (filling : Filling roots D start k l paths h) (whole : Whole D) (own : ¬ Reserved k)
    (put : Put (.ref l) (.key k' :: q) v h h') (plain : Plain (.key k' :: q))
    (leaf : k' = k → Untyped h (.ref l) (.key k' :: q) ∧ Leaf D q v) : Filling roots D start k l paths h' where
  rendering := filling.rendering.put put
  off := by
    intro p undecided
    rcases put.entry filling.rendering plain own p with same | ⟨here, written⟩
    · rw [same]
      exact filling.off p undecided
    · obtain ⟨untyped, leaf⟩ := leaf here
      rw [(written.atMost whole leaf untyped).1] at undecided
      cases undecided
  grown := by
    intro p
    rcases put.entry filling.rendering plain own p with same | ⟨here, written⟩
    · rw [same]
      exact filling.grown p
    · exact (written.grown (leaf here).1).trans (filling.grown p)
  upper := by
    intro upper p decided
    rcases put.entry filling.rendering plain own p with same | ⟨here, written⟩
    · rw [same]
      exact filling.upper upper p decided
    · obtain ⟨untyped, leaf⟩ := leaf here
      exact (written.atMost whole leaf untyped).2
  arrived := by
    intro q' member
    have arrived := filling.arrived q' member
    rcases put.entry filling.rendering plain own q' with same | ⟨here, written⟩
    · exact ⟨arrived.inner, arrived.leaf, same ▸ arrived.there, same ▸ arrived.null⟩
    · obtain ⟨there, null⟩ := written.arrived (leaf here).2 arrived
      exact ⟨arrived.inner, arrived.leaf, there, null⟩

theorem Filling.puts (filling : Filling roots D start k l paths h) (whole : Whole D) (own : ¬ Reserved k)
    (puts : Puts (.ref l) (.key k' :: q) v h h') (plain : Plain (.key k' :: q))
    (leaf : k' = k → Untyped h (.ref l) (.key k' :: q) ∧ Leaf D q v) : Filling roots D start k l paths h' := by
  induction puts with
  | refl => exact filling
  | tail earlier put ih =>
    refine ih.put whole own put plain fun here => ?_
    obtain ⟨untyped, leaf⟩ := leaf here
    have ownPath : Own (.key k' :: q) := by
      intro k₁ t first
      cases first
      exact here ▸ own
    exact ⟨(Puts.untyped earlier filling.rendering ownPath untyped).2, leaf⟩

/-- The scalar that is stored arrives. -/
theorem Filling.stored (filling : Filling roots D start k l paths h) (whole : Whole D) (own : ¬ Reserved k)
    (untyped : Untyped h (.ref l) (.key k :: q)) (leaf : Leaf D q v)
    (done : (setContextValue (.ref l) v (.key k :: q) h).1 = .ok ()) :
    Filling roots D start k l (q :: paths) (setContextValue (.ref l) v (.key k :: q) h).2 := by
  have ownPath : Own (.key k :: q) := by
    intro k₁ t first
    cases first
    exact own
  have kept := filling.puts whole own (setContextValue_puts v _ filling.rendering.toStorable) ownPath.plain
    fun _ => ⟨untyped, leaf⟩
  refine ⟨kept.rendering, kept.off, kept.grown, kept.upper, fun q' member => ?_⟩
  rcases List.mem_cons.1 member with rfl | earlier
  · obtain ⟨c, reached, null⟩ := setContextValue_present (by simp) ownPath filling.rendering untyped done
    have seen : entry (setContextValue (.ref l) v (.key k :: q') h).2 (.ref l) k q' =
        (setContextValue (.ref l) v (.key k :: q') h).2.shape c := by
      show Heap.view _ _ _ = _
      rw [Heap.view, reached]
      rfl
    obtain ⟨s, held, alike⟩ := leaf.leaf
    refine ⟨leaf.inner, ⟨s, held⟩, ?_, fun isNull => ?_⟩
    · rw [seen]
      have below := Heap.resolve_below kept.rendering.closed.below kept.rendering.below reached
      exact Option.isSome_iff_exists.2 (shape_isSome below)
    · rw [seen] at isNull
      have scalar : c = .null := shape_scalar isNull
      rw [null scalar] at alike
      rw [held, alike.null]
  · exact kept.arrived q' earlier

/-- With all its scalars the context shows the data over what was there, if nothing was in the way, and only then. -/
theorem Filling.shown_iff (filling : Filling roots D start k l paths h) (whole : Whole D)
    (all : ∀ p, (D p).isSome → ∃ q ∈ paths, p <+: q) (old : DeepView) :
    (∀ p, AlikeShape (entry h (.ref l) k p) (overlay old D p)) ↔ Begun D old start := by
  constructor
  · intro shown p
    refine ⟨fun decided => ?_, fun undecided => ?_⟩
    · have here := shown p
      rw [overlay, View.overlay_of_decides decided] at here
      exact AtMost.trans (.same here) (filling.grown p)
    · have here := shown p
      rwa [overlay, View.overlay_of_not_decides undecided, filling.off p undecided] at here
  · intro begun p
    cases decided : D.decides Shape.opens p with
    | false =>
      rw [overlay, View.overlay_of_not_decides decided, filling.off p decided]
      exact (begun p).2 decided
    | true =>
      rw [overlay, View.overlay_of_decides decided]
      refine complete_of_arrived whole (fun r s t => holds_of_entry r s t) (fun p held => ?_)
        (filling.upper (fun p => (begun p).1) p decided)
      obtain ⟨q, member, starts⟩ := all p held
      exact ⟨q, starts, filling.arrived q member⟩

end Heap

/-- Whatever the walk makes of the text, it stores the value that the rendered text is decoded to. -/
def Reads (env : Env) (tag text : String) : Prop :=
  ∀ w v text' s, parseScalarValue env w tag text = .ok (v, text') →
    decodeAny env (.mk .scalar tag text' []) = .ok (.scalar s) → Alike v s

/-- The data has at the path what the text is decoded to. -/
structure LeafText (env : Env) (D : DeepView) (q : Path) (tag text : String) : Prop where
  inner : ∀ r s t, q = r ++ s :: t → Holds D r s
  leaf : ∃ s, D q = some (.scalar s) ∧ decodeAny env (.mk .scalar tag text []) = .ok (.scalar s)

section Walk
variable {env : Env} {roots : Val → Prop} {l : Nat} {D start : DeepView} {k : String}

/-- A walk over scalars, of which those below the key are the data's. -/
theorem Filling.walk (whole : Whole D) (own : ¬ Reserved k) (cells : List Cell) : ∀ {h h₁ : Heap} {done : List Cell}
    {paths : List Path}, walkCells env (.ref l) cells h = (.ok (), done, h₁) → Filling roots D start k l paths h →
      (∀ c ∈ cells, ∃ k' q, c.1 = .key k' :: q ∧ Plain c.1) →
      (∀ q tag text, (.key k :: q, tag, text) ∈ cells → Untyped h (.ref l) (.key k :: q) ∧ Reads env tag text) →
      (∀ q tag text, (.key k :: q, tag, text) ∈ done → LeafText env D q tag text) →
      ∃ paths', Filling roots D start k l paths' h₁ ∧ (∀ q ∈ paths, q ∈ paths') ∧
        ∀ q tag text, (.key k :: q, tag, text) ∈ cells → q ∈ paths' := by
  induction cells with
  | nil =>
    intro h h₁ done paths run filling _ _ _
    cases run
    exact ⟨paths, filling, fun _ member => member, fun _ _ _ member => by cases member⟩
  | cons cell rest ih =>
    obtain ⟨path, tag, text⟩ := cell
    intro h h₁ done paths run filling keyed each data
    obtain ⟨k', q, here, plain⟩ := keyed (path, tag, text) (by simp)
    obtain rfl : path = .key k' :: q := here
    rw [walkCells] at run
    cases read : parseScalarValue env (h.view (.ref l)) tag text with
    | error e =>
      rw [read] at run
      cases run
    | ok parsed =>
      obtain ⟨v, text'⟩ := parsed
      rw [read] at run
      simp only at run
      cases stored : setContextValue (.ref l) v (.key k' :: q) h with
      | mk result h' =>
        rw [stored] at run
        cases result with
        | error f => cases run
        | ok u =>
          simp only at run
          cases walked : walkCells env (.ref l) rest h' with
          | mk result' more =>
            obtain ⟨done', h₂⟩ := more
            rw [walked] at run
            cases run
            have puts : Puts (.ref l) (.key k' :: q) v h (setContextValue (.ref l) v (.key k' :: q) h).2 :=
              setContextValue_puts v (.key k' :: q) filling.rendering.toStorable
            rw [stored] at puts
            have leaf : k' = k → Untyped h (.ref l) (.key k' :: q) ∧ Leaf D q v := by
              rintro rfl
              obtain ⟨untyped, reads⟩ := each q tag text (by simp)
              obtain ⟨inner, s, held, decoded⟩ := data q tag text' (by simp)
              exact ⟨untyped, inner, s, held, reads _ v text' s read decoded⟩
            have later : ∀ q₁ tag₁ text₁, (.key k :: q₁, tag₁, text₁) ∈ rest →
                Untyped h' (.ref l) (.key k :: q₁) ∧ Reads env tag₁ text₁ := by
              intro q₁ tag₁ text₁ member
              obtain ⟨untyped, reads⟩ := each q₁ tag₁ text₁ (by simp [member])
              refine ⟨(Puts.untyped puts filling.rendering ?_ untyped).2, reads⟩
              intro k₁ t first
              cases first
              exact own
            obtain ⟨paths₁, filling₁, kept₁, fresh⟩ : ∃ paths₁, Filling roots D start k l paths₁ h' ∧
                (∀ q₁ ∈ paths, q₁ ∈ paths₁) ∧ (k' = k → q ∈ paths₁) := by
              by_cases same : k' = k
              · subst same
                obtain ⟨untyped, leaf⟩ := leaf rfl
                have arrives := filling.stored whole own untyped leaf (by rw [stored])
                rw [stored] at arrives
                exact ⟨q :: paths, arrives, fun q₁ member => List.mem_cons_of_mem _ member, fun _ => by simp⟩
              · have kept := filling.puts whole own puts plain leaf
                exact ⟨paths, kept, fun q₁ member => member, fun here => absurd here same⟩
            obtain ⟨paths₂, filling₂, kept₂, all⟩ := ih walked filling₁
              (fun c member => keyed c (List.mem_cons_of_mem _ member)) later
              (fun q₁ tag₁ text₁ member => data q₁ tag₁ text₁ (List.mem_cons_of_mem _ member))
            refine ⟨paths₂, filling₂, fun q₁ member => kept₂ q₁ (kept₁ q₁ member), fun q₁ tag₁ text₁ member => ?_⟩
            rcases List.mem_cons.1 member with first | member'
            · rw [Prod.mk.injEq, List.cons.injEq, Seg.key.injEq] at first
              obtain ⟨⟨rfl, rfl⟩, _⟩ := first
              exact kept₂ _ (fresh rfl)
            · exact all q₁ tag₁ text₁ member'

end Walk

end KubeKey.Variable
