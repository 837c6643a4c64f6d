import KubeKey.Variable.Decode
import KubeKey.Variable.Reachable

/-!
# What rendering does to the variables of the hosts

Rendering a node for a host stores the node's values into the context, and through
it into containers of the store, also of hosts that share them. All of this happens
at paths that the decoded node decides, so merging the node over a host's variables
gives the same as if nothing had been stored (`agree`), and the variables of a host
that has the node's data already do not change (`settled`). This fails below the
names `hostvars` and `hostname`, where a container of the context is not at its own
path.
-/

namespace KubeKey.Variable

open KubeKey.Go

/-- The variables have the data wherever the data decides. -/
def Settled (D w : DeepView) : Prop := ∀ p, D.decides Shape.opens p = true → w p = D p

/-- The same where the data does not decide. -/
def AgreeOff (D w w' : DeepView) : Prop := ∀ p, D.decides Shape.opens p = false → w' p = w p

/-- A path that is not nested below one of the names where containers are not at their own path. -/
def Plain (q : Path) : Prop := ∀ k s t, q = .key k :: s :: t → ¬ Reserved k

/-- The places with labels during a rendering: all below the roots, and those of the context at their own path. -/
def contextPlaces (roots : Val → Prop) (l : Nat) (v : Val) (p : Path) : Prop :=
  roots v ∨ v = .ref l ∧ ∀ k t, p = .key k :: t → ¬ Reserved k

theorem places_context (roots : Val → Prop) (l : Nat) : Places (contextPlaces roots l) where
  start := by
    rintro v p q (root | ⟨rfl, own⟩)
    · exact Or.inl root
    · exact Or.inr ⟨rfl, fun k t split => own k (t ++ q) (by rw [split]; rfl)⟩
  extend := by
    rintro v s p q (root | ⟨rfl, own⟩)
    · exact Or.inl root
    · refine Or.inr ⟨rfl, fun k t split => own k p ?_⟩
      rw [List.cons_append, List.cons.injEq] at split
      rw [split.1]

/-- A rendering in progress: the context at `l` and the roots it must not disturb. -/
structure Rendering (roots : Val → Prop) (l : Nat) (h : Heap) : Prop extends Storable h (.ref l) where
  rootsBelow : ∀ v, roots v → v.Below h.size
  apart : ∀ v, roots v → v ≠ .ref l
  labelled : ∃ label, Labelled (contextPlaces roots l) label h

namespace Rendering
variable {roots : Val → Prop} {l : Nat} {h h' : Heap}

theorem placesBelow (rendering : Rendering roots l h) (v : Val) (p : Path) (place : contextPlaces roots l v p) :
    v.Below h.size := by
  rcases place with root | ⟨rfl, _⟩
  · exact rendering.rootsBelow v root
  · exact rendering.below

theorem put {q : Path} {w : Scalar} (rendering : Rendering roots l h) (put : Put (.ref l) q w h h') :
    Rendering roots l h' where
  toStorable := put.storable rendering.toStorable
  rootsBelow := fun v root => (rendering.rootsBelow v root).mono put.size_le
  apart := rendering.apart
  labelled := by
    obtain ⟨label, labelled⟩ := rendering.labelled
    obtain ⟨label', _, labelled'⟩ := put.labelled rendering.toSound labelled (places_context roots l)
      rendering.placesBelow
    exact ⟨label', labelled'⟩

/-- A root holds a container of the context at the container's own path, and never the context. -/
theorem own_path (rendering : Rendering roots l h) {q r t : Path} {s : Seg} (plain : Plain q) (split : q = r ++ s :: t)
    {x : Nat} (reached : h.resolve (.ref l) r = some (.ref x)) {v : Val} (root : roots v) (p : Path)
    (held : h.resolve v p = some (.ref x)) : p = r := by
  obtain ⟨label, labelled⟩ := rendering.labelled
  have place := labelled v p x (Or.inl root) held
  cases r with
  | nil =>
    cases reached
    have context := labelled (.ref l) [] l (Or.inr ⟨rfl, fun k t split => nomatch split⟩) rfl
    rw [context] at place
    exact place.symm
  | cons s₀ r =>
    have own : ∀ k t', s₀ :: r = .key k :: t' → ¬ Reserved k := by
      intro k t' first
      cases first
      cases r with
      | nil => exact plain k s t split
      | cons s₁ r => exact plain k s₁ (r ++ s :: t) split
    have here := labelled (.ref l) (s₀ :: r) x (Or.inr ⟨rfl, own⟩) reached
    exact place.symm.trans here

end Rendering

section Seen
variable {roots : Val → Prop} {l : Nat} {h h' : Heap} {D : DeepView} {q : Path} {tag : String} {w : Scalar}

/-- The value of a missing element: nothing, or a nil. -/
theorem missing_cases {elem : GoType} {c : Option Val} (missing : isMissing elem c = true) :
    c = none ∨ c = some .null ∨ (∃ t, c = some (.nilMap t)) ∨ ∃ t, c = some (.nilSlice t) := by
  cases c with
  | none => exact Or.inl rfl
  | some v =>
    right
    simp only [isMissing, isNilElem] at missing
    split at missing
    · exact Or.inl rfl
    · cases missing
    · next t _ => exact Or.inr (Or.inl ⟨t, rfl⟩)
    · next t _ => exact Or.inr (Or.inr ⟨t, rfl⟩)
    · cases missing

/-- What is seen of a missing element: nothing below it. -/
theorem missing_view_cons {elem : GoType} {c : Option Val} (missing : isMissing elem c = true) (s : Seg) (p : Path) :
    (c.bind fun v => h.view v (s :: p)) = none := by
  rcases missing_cases missing with rfl | rfl | ⟨t, rfl⟩ | ⟨t, rfl⟩ <;> rfl

/-- What a root sees at an element of a container it holds. -/
theorem view_element {v : Val} {r : Path} {x : Nat} {o : Obj} (held : h.resolve v r = some (.ref x))
    (object : h.get? x = some o) (s : Seg) (p : Path) :
    h.view v (r ++ s :: p) = (o.child s).bind fun c => h.view c p := by
  rw [Heap.view_append held, Heap.view_cons, Heap.child_ref object]

/-- What is seen of a container that was just made. -/
theorem view_newContainer {x : Nat} {s : Seg} (other : h.size ≠ x) (n : Seg) :
    let h' := (h.alloc (newContainer n)).2.setChild x s (.ref h.size)
    h'.view (.ref h.size) [] = some (newContainer n).shape ∧ ∀ s' p, h'.view (.ref h.size) (s' :: p) = none := by
  have object : ((h.alloc (newContainer n)).2.setChild x s (.ref h.size)).get? h.size = some (newContainer n) := by
    rw [Heap.get?_setChild_ne other, Heap.get?_alloc_new]
  refine ⟨?_, fun s' p => ?_⟩
  · simp only [Heap.view_nil, Heap.shape, object, Option.map_some]
  · rw [Heap.view_cons, Heap.child_ref object, newContainer_child]
    rfl

/-- Where a root sees a step at `q`, and what it sees there afterwards. -/
inductive Seen (h : Heap) (v : Val) (q : Path) (w : Scalar) (after : Option Shape) : Path → Prop where
  /-- The scalar, where nothing was. -/
  | fill {r : Path} {s : Seg} {x : Nat} {o : Obj} (split : q = r ++ [s]) (held : h.resolve v r = some (.ref x))
      (object : h.get? x = some o) (missing : isMissing o.elem (o.child s) = true)
      (stored : after = some (.scalar w)) : Seen h v q w after (r ++ [s])
  /-- A container on the way, where nothing was. -/
  | create {r t : Path} {s n : Seg} {x : Nat} {o : Obj} (split : q = r ++ s :: n :: t)
      (held : h.resolve v r = some (.ref x)) (object : h.get? x = some o)
      (missing : isMissing o.elem (o.child s) = true) (stored : after = some (newContainer n).shape) :
      Seen h v q w after (r ++ [s])
  /-- An array that was too short. -/
  | grow {r t p' : Path} {s : Seg} {i m : Nat} (split : q = r ++ s :: .idx i :: t)
      (length : h.view v (r ++ [s]) = some (.slice m)) (short : m ≤ i) : Seen h v q w after (r ++ s :: p')

/-- What a root sees of a step. -/
theorem Put.seen (put : Put (.ref l) q w h h') (rendering : Rendering roots l h) (plain : Plain q) {v : Val}
    (root : roots v) (p : Path) : h'.view v p = h.view v p ∨ Seen h v q w (h'.view v p) p := by
  have below := rendering.rootsBelow v root
  cases put with
  | @fill r s x o split reached object accepts missing =>
    have only := rendering.own_path plain split reached root
    rcases Heap.view_setChild_cases (w := .scalar w) only object accepts p with same | ⟨p', rfl, held, seen⟩
    · exact Or.inl same
    · cases p' with
      | nil => exact Or.inr (.fill split held object missing seen)
      | cons s' p' =>
        rw [seen, view_element held object]
        exact Or.inl (missing_view_cons missing s' p').symm
  | @create r t s n x o split reached object accepts missing =>
    have childless : (newContainer n).Below h.size := fun s' c inside => by simp [newContainer_child] at inside
    have grows := Heap.grows_alloc childless
    have only : ∀ p, (h.alloc (newContainer n)).2.resolve v p = some (.ref x) → p = r := by
      intro p' held
      rw [grows.resolve rendering.closed below] at held
      exact rendering.own_path plain split reached root p' held
    rcases Heap.view_setChild_cases (w := .ref h.size) only (Heap.get?_alloc_of_some object) accepts p with
      same | ⟨p', rfl, held, seen⟩
    · exact Or.inl (same.trans (congrFun (grows.view rendering.closed below) p))
    · rw [grows.resolve rendering.closed below] at held
      obtain ⟨top, deeper⟩ := view_newContainer (h := h) (s := s) (Nat.ne_of_gt (Heap.get?_lt object)) n
      cases p' with
      | nil => exact Or.inr (.create split held object missing (seen.trans top))
      | cons s' p' =>
        rw [seen, view_element held object]
        exact Or.inl ((deeper s' p').trans (missing_view_cons missing s' p').symm)
  | @grow r t s i x o c elem items split reached object stored slice short =>
    have content := grown_below rendering.closed (rendering.closed x o object s c stored) slice i
    have grows := Heap.grows_alloc content
    have only : ∀ p, (h.alloc (grown elem items i)).2.resolve v p = some (.ref x) → p = r := by
      intro p' held
      rw [grows.resolve rendering.closed below] at held
      exact rendering.own_path plain split reached root p' held
    rcases Heap.view_setChild_cases (w := .ref h.size) only (Heap.get?_alloc_of_some object)
      (Obj.accepts_of_child stored) p with same | ⟨p', rfl, held, _⟩
    · exact Or.inl (same.trans (congrFun (grows.view rendering.closed below) p))
    · rw [grows.resolve rendering.closed below] at held
      refine Or.inr (.grow split ?_ short)
      rw [view_element held object, stored, ← asSlice_length slice]
      rfl
  | discard below' => exact Or.inl (by rw [(Heap.grows_alloc below').view rendering.closed below])

section Data
variable {v : Val} {after : Option Shape} {p : Path}

/-- A step at a scalar of the data is seen only where the data decides. -/
theorem Seen.decides (seen : Seen h v q w after p) (closed : D.PrefixClosed) (fits : Fits D q tag) :
    D.decides Shape.opens p = true := by
  cases seen with
  | fill split =>
    obtain ⟨d, leaf, _⟩ := fits.leaf
    exact View.decides_of_some closed (by rw [← split, leaf]; rfl)
  | @create r t s n x o split =>
    have container := fits.inner (r ++ [s]) n t (by simpa using split)
    apply View.decides_of_some closed
    cases n with
    | key k =>
      rw [show D (r ++ [s]) = some .map from container]
      rfl
    | idx i =>
      obtain ⟨m, _, slice⟩ := container
      rw [slice]
      rfl
  | @grow r t p' s i m split =>
    obtain ⟨n, _, slice⟩ : Holds D (r ++ [s]) (.idx i) := fits.inner (r ++ [s]) (.idx i) t (by simpa using split)
    cases p' with
    | nil => exact View.decides_of_some closed (by rw [slice]; rfl)
    | cons s' p' =>
      have decided := View.decides_below closed slice (show Shape.opens (.slice n) s' = false from rfl) p'
      rwa [List.append_assoc] at decided

/-- A root that has the data sees nothing new. -/
theorem Seen.settled (seen : Seen h v q w after p) (closed : D.PrefixClosed) (fits : Fits D q tag)
    (null : tag = nullTag → w = .null) (settled : Settled D (h.view v)) : after = h.view v p := by
  have here := settled p (seen.decides closed fits)
  cases seen with
  | @fill r s x o split held object missing stored =>
    obtain ⟨d, leaf, tagged⟩ := fits.leaf
    rw [← split, leaf, split, view_element held object] at here
    rw [stored, view_element held object]
    rcases missing_cases missing with absent | nil | ⟨t, nil⟩ | ⟨t, nil⟩
    · rw [absent] at here
      cases here
    · rw [nil] at here ⊢
      cases here
      rw [null (tagged rfl)]
      rfl
    · rw [nil] at here
      cases here
    · rw [nil] at here
      cases here
  | @create r t s n x o split held object missing stored =>
    have container := fits.inner (r ++ [s]) n t (by simpa using split)
    rw [view_element held object] at here
    rw [stored, view_element held object]
    -- the data has a container here, so the element was a nil container of that kind
    rcases missing_cases missing with absent | nil | ⟨t, nil⟩ | ⟨t, nil⟩ <;> cases n with
    | key k =>
      rw [show D (r ++ [s]) = some .map from container] at here
      simp_all [newContainer, Obj.shape, Heap.view_nil, Heap.shape]
    | idx i =>
      obtain ⟨m, inside, slice⟩ := container
      rw [slice] at here
      simp_all [newContainer, Obj.shape, Heap.view_nil, Heap.shape]
  | @grow r t p' s i m split length short =>
    obtain ⟨n, inside, slice⟩ : Holds D (r ++ [s]) (.idx i) := fits.inner (r ++ [s]) (.idx i) t (by simpa using split)
    have top := settled (r ++ [s]) (View.decides_of_some closed (by rw [slice]; rfl))
    rw [length, slice] at top
    cases top
    omega

end Data

end Seen

/-- The scalars of a node fit the data and lie at plain paths. -/
structure Fitting (D : DeepView) (leaves : List (Path × String)) : Prop where
  closed : D.PrefixClosed
  fits : ∀ q tag, (q, tag) ∈ leaves → q ≠ [] → Fits D q tag
  plain : ∀ q tag, (q, tag) ∈ leaves → q ≠ [] → Plain q

section Walked
variable {roots : Val → Prop} {l : Nat} {h h' : Heap} {D : DeepView} {leaves : List (Path × String)}

theorem Put.long {ctx : Val} {q : Path} {w : Scalar} (put : Put ctx q w h h') : q ≠ [] ∨ Heap.Grows h h' := by
  cases put with
  | fill split => exact Or.inl (by simp [split])
  | create split => exact Or.inl (by simp [split])
  | grow split => exact Or.inl (by simp [split])
  | discard below => exact Or.inr (Heap.grows_alloc below)

theorem StoreStep.seen (step : StoreStep (.ref l) leaves h h') (rendering : Rendering roots l h)
    (fitting : Fitting D leaves) {v : Val} (root : roots v) :
    AgreeOff D (h.view v) (h'.view v) ∧ (Settled D (h.view v) → h'.view v = h.view v) := by
  obtain ⟨q, tag, w, member, null, put⟩ := step
  rcases put.long with long | grows
  · have fits := fitting.fits q tag member long
    refine ⟨fun p undecided => ?_, fun settled => funext fun p => ?_⟩
    · rcases put.seen rendering (fitting.plain q tag member long) root p with same | seen
      · exact same
      · rw [seen.decides fitting.closed fits] at undecided
        cases undecided
    · rcases put.seen rendering (fitting.plain q tag member long) root p with same | seen
      · exact same
      · exact seen.settled fitting.closed fits null settled
  · have same := grows.view rendering.closed (rendering.rootsBelow v root)
    exact ⟨fun p _ => by rw [same], fun _ => same⟩

/-- A walk over a node is seen by a root only where the data decides, and not if the root has the data. -/
theorem Stores.seen (stores : Stores (.ref l) leaves h h') (rendering : Rendering roots l h)
    (fitting : Fitting D leaves) {v : Val} (root : roots v) :
    AgreeOff D (h.view v) (h'.view v) ∧ (Settled D (h.view v) → h'.view v = h.view v) := by
  suffices Rendering roots l h' ∧ AgreeOff D (h.view v) (h'.view v) ∧
    (Settled D (h.view v) → h'.view v = h.view v) from this.2
  induction stores with
  | refl => exact ⟨rendering, fun _ _ => rfl, fun _ => rfl⟩
  | tail _ step ih =>
    obtain ⟨rendering₁, agree₁, settled₁⟩ := ih
    obtain ⟨agree₂, settled₂⟩ := StoreStep.seen step rendering₁ fitting root
    obtain ⟨_, _, _, _, _, put⟩ := step
    refine ⟨rendering₁.put put, fun p undecided => (agree₂ p undecided).trans (agree₁ p undecided), fun settled => ?_⟩
    have same := settled₁ settled
    exact (settled₂ (by rw [same]; exact settled)).trans same

end Walked

section Context
variable {roots : Val → Prop} {val : Value} {hostname : String} {l : Nat} {h h' : Heap}

/-- The context of a host is ready for a rendering. -/
theorem IsContext.rendering {localIP : String → String} (context : IsContext h localIP val hostname l h')
    (tidy : Tidy roots h) (own : ∀ v, val.roots v → roots v) : Rendering roots l h' where
  toStorable := context.storable tidy.toSound
  rootsBelow := fun v root => (tidy.below v root).mono context.grows.size_le
  apart := by
    intro v root same
    have below := tidy.below v root
    rw [same] at below
    have fresh := context.fresh
    exact absurd below (Nat.not_lt.2 fresh)
  labelled := by
    obtain ⟨label, labelled⟩ := tidy.labelled
    obtain ⟨m, object, below⟩ := context.newest.object
    -- the host's containers keep their labels in the context
    obtain ⟨label', same, children⟩ : ∃ label', SameBelow h.size label label' ∧
        ChildrenLabelled (fun k => ¬ Reserved k) label' h' (.ref l) := by
      cases known : val.hosts.get? hostname with
      | some hv =>
        refine context.children hv known label ⟨?_, ?_⟩
        · exact Tidy.labelledAt labelled (own _ (Or.inr (Or.inr ⟨hostname, hv, known, Or.inl rfl⟩)))
        · exact Tidy.labelledAt labelled (own _ (Or.inr (Or.inr ⟨hostname, hv, known, Or.inr rfl⟩)))
      | none =>
        refine ⟨label, SameBelow.refl _ _, fun k c _ step => ?_⟩
        rw [context.unknown known k] at step
        cases step
    refine ⟨Function.update label' l [], ?_⟩
    rintro v p x (root | ⟨rfl, counted⟩) reached
    · have oldLabels : SameBelow h.size label (Function.update label' l []) := by
        intro x bound
        rw [Function.update_of_ne (by have := context.fresh; omega), same x bound]
      exact labelled.grows tidy.closed context.grows oldLabels (fun v _ root => tidy.below v root) v p x root reached
    · cases p with
      | nil =>
        cases reached
        exact Function.update_self ..
      | cons s t =>
        obtain ⟨c, step, rest⟩ := Option.bind_eq_some_iff.1 reached
        have bound : x < l := Heap.resolve_below context.newest.closed (context.newest.child_below step) rest
        rw [Function.update_of_ne (Nat.ne_of_lt bound)]
        cases s with
        | idx i =>
          rw [Heap.child_ref object] at step
          cases step
        | key k => exact children k c (counted k t rfl) step t x rest

end Context

/-- No variable of the node is nested below a name where containers are not at their own path. -/
def Node.plain (node : Node) : Prop := ∀ e ∈ node.rootLeaves, Plain e.1

theorem dataView_prefixClosed (entries : Option (List (String × Lit))) : (dataView entries).PrefixClosed := by
  cases entries <;> exact Lit.view_prefixClosed _

/-- A successful rendering decodes the node that its walk has left. -/
theorem parseYamlNode_ok {env : Env} {ctx : Val} {node node' : Node} {h h' : Heap}
    {entries : Option (List (String × Lit))} (run : parseYamlNode env ctx node h = (.ok entries, node', h')) :
    decodeMap env (walkNode env ctx node h).2.1 = .ok entries ∧ node' = (walkNode env ctx node h).2.2.1 ∧
      h' = (walkNode env ctx node h).2.2.2 := by
  unfold parseYamlNode at run
  generalize walkNode env ctx node h = outcome at run
  obtain ⟨result, done, left, h₁⟩ := outcome
  cases result with
  | error f => cases run
  | ok u =>
    simp only at run
    split at run
    · cases run
    · next decoded =>
      cases run
      exact ⟨decoded, rfl, rfl⟩

theorem fitting_of_rendered {env : Env} {ctx : Val} {node node' : Node} {h h' : Heap}
    {entries : Option (List (String × Lit))} (parsed : node.parsed = true) (plain : node.plain)
    (run : parseYamlNode env ctx node h = (.ok entries, node', h')) :
    Fitting (dataView entries) (node.rootVisited env ctx h) where
  closed := dataView_prefixClosed entries
  fits := by
    intro q tag member long
    obtain ⟨decoded, _, _⟩ := parseYamlNode_ok run
    have leaf := rootVisited_leaves env ctx node h _ member
    rw [← rootLeaves_walkNode env ctx node h] at leaf
    exact decodeMap_fits env (by rw [parsed_walkNode, parsed]) decoded leaf long
  plain := fun q tag member _ => plain _ (rootVisited_leaves env ctx node h _ member)

/-- Variables that agree with `old` off the data and have the data are the merge. -/
theorem eq_overlay {D old w : DeepView} (agree : AgreeOff D old w) (settled : Settled D w) : w = overlay old D := by
  funext p
  cases decided : D.decides Shape.opens p with
  | true => rw [overlay, View.overlay_of_decides decided, settled p decided]
  | false => rw [overlay, View.overlay_of_not_decides decided, agree p decided]

/-- The runtime variables during a merge of the data: those of the hosts done have it. -/
def Progress (orig : String → Option DeepView) (D : DeepView) (done : List String) (val : Value) (h : Heap) : Prop :=
  ∀ name old, orig name = some old → ∃ hv, val.hosts.get? name = some hv ∧
    AgreeOff D old (h.view hv.runtimeVars) ∧ (name ∈ done → Settled D (h.view hv.runtimeVars))

section Host
variable {env : Env} {roots : Val → Prop} {val : Value} {hostname : String} {node node' : Node} {h h₁ : Heap}
  {entries : Option (List (String × Lit))} {orig : String → Option DeepView} {done : List String}

/-- The walk for one host. -/
theorem Progress.render (progress : Progress orig (dataView entries) done val h)
    (tidy : Tidy (fun v => roots v ∨ val.roots v) h) (expands : (convertGroup val.inventory).isSome)
    (parsed : node.parsed = true) (plain : node.plain)
    (run : renderFor env val hostname node h = (.ok entries, node', h₁)) :
    Progress orig (dataView entries) done val h₁ := by
  obtain ⟨l, h₀, _, context, same, stores⟩ := renderFor_stores env node
    (tidy.valueOk (fun _ => Or.inr) expands) hostname
  rw [run] at same stores
  have fitting := fitting_of_rendered parsed plain same.symm
  have rendering := context.rendering tidy fun _ => Or.inr
  intro name old known
  obtain ⟨hv, stored, agree, settled⟩ := progress name old known
  have root : roots hv.runtimeVars ∨ val.roots hv.runtimeVars := Or.inr (Or.inr (Or.inr ⟨name, hv, stored, Or.inr rfl⟩))
  have before : h₀.view hv.runtimeVars = h.view hv.runtimeVars := context.grows.view tidy.closed (tidy.below _ root)
  obtain ⟨agree', settled'⟩ := stores.seen rendering fitting root
  rw [before] at agree' settled'
  refine ⟨hv, stored, fun p undecided => (agree' p undecided).trans (agree p undecided), fun member => ?_⟩
  rw [settled' (settled member)]
  exact settled member

/-- Merging the data into one host. -/
theorem Progress.combine {D : DeepView} {data : Val} {l : Nat} {h₂ : Heap} (progress : Progress orig D done val h)
    (tidy : Tidy (fun v => roots v ∨ val.roots v) h) (view : h.view data = D)
    (combined : CombinedTop h ((val.hosts.get? hostname).getD .zero).runtimeVars data l h₂) :
    Progress orig D (hostname :: done) (val.setRuntime hostname (.ref l)) h₂ := by
  intro name old known
  obtain ⟨hv, stored, agree, settled⟩ := progress name old known
  by_cases here : name = hostname
  · subst here
    refine ⟨{ hv with runtimeVars := .ref l }, ?_, ?_, ?_⟩
    · simp [Value.setRuntime, stored]
    · intro p undecided
      show h₂.view (.ref l) p = old p
      rw [combined.view, stored, view, overlay, View.overlay_of_not_decides undecided]
      exact agree p undecided
    · intro _ p decided
      show h₂.view (.ref l) p = D p
      rw [combined.view, view, overlay, View.overlay_of_decides decided]
  · have root : roots hv.runtimeVars ∨ val.roots hv.runtimeVars :=
      Or.inr (Or.inr (Or.inr ⟨name, hv, stored, Or.inr rfl⟩))
    have same := combined.grows.view tidy.closed (tidy.below _ root)
    refine ⟨hv, ?_, ?_, fun member => ?_⟩
    · rw [Value.setRuntime, GoMap.get?_put_ne _ _ here, stored]
    · rw [same]
      exact agree
    · rw [same]
      exact settled (by simpa [here] using member)

theorem Progress.grows {D : DeepView} {h₂ : Heap} (progress : Progress orig D done val h)
    (tidy : Tidy (fun v => roots v ∨ val.roots v) h) (grows : Heap.Grows h h₂) : Progress orig D done val h₂ := by
  intro name old known
  obtain ⟨hv, stored, agree, settled⟩ := progress name old known
  have root : roots hv.runtimeVars ∨ val.roots hv.runtimeVars := Or.inr (Or.inr (Or.inr ⟨name, hv, stored, Or.inr rfl⟩))
  have same := grows.view tidy.closed (tidy.below _ root)
  exact ⟨hv, stored, by rw [same]; exact agree, by rw [same]; exact settled⟩

/-- One round of the loop of `MergeRuntimeVariable`. -/
theorem mergeRuntime_cons {rest : List String} {node₂ : Node} {val₂ : Value} {h₂ : Heap}
    (tidy : Tidy (fun v => roots v ∨ val.roots v) h) (expands : (convertGroup val.inventory).isSome)
    (run : mergeRuntime env (hostname :: rest) node val h = (.ok (), node₂, val₂, h₂)) :
    ∃ entries node₁ h₁ l h₃, renderFor env val hostname node h = (.ok entries, node₁, h₁) ∧
      Tidy (fun v => roots v ∨ (val.setRuntime hostname (.ref l)).roots v) h₃ ∧
      (node.parsed = true → node.plain → ∀ orig done, Progress orig (dataView entries) done val h →
        Progress orig (dataView entries) (hostname :: done) (val.setRuntime hostname (.ref l)) h₃) ∧
      mergeRuntime env rest node₁ (val.setRuntime hostname (.ref l)) h₃ = (.ok (), node₂, val₂, h₂) := by
  obtain ⟨tidy₁, _, _⟩ := renderFor_tidy env hostname node tidy (fun _ => Or.inr) expands
  rw [mergeRuntime] at run
  generalize rendered : renderFor env val hostname node h = outcome at tidy₁ run
  obtain ⟨result, node₁, h₁⟩ := outcome
  cases result with
  | error f => cases run
  | ok entries =>
    have placed := allocEntries_placed entries tidy₁.closed
    have tidy₂ := allocEntries_tidy tidy₁ entries
    obtain ⟨l, h₃, combine, combined, leaves⟩ := combineRuntime_leaves tidy₂ (Or.inr rfl) hostname
    simp only [combine] at run
    refine ⟨entries, node₁, h₁, l, h₃, rfl, leaves.tidy.mono (by tauto), ?_, run⟩
    intro parsed plain orig done progress
    have walked := progress.render tidy expands parsed plain rendered
    exact (walked.grows tidy₁ placed.grows).combine tidy₂ placed.view combined

end Host

end KubeKey.Variable
