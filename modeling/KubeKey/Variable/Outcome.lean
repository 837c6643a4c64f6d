import KubeKey.Variable.Order

/-!
# What `GetAllVariable` returns in any order

Whatever orders its loops take, `GetAllVariable` returns, and the whole map that
it returns is given by `contextView`: the layers of every host, with the groups in
the order of that host's round, and the expanded groups. The orders in which hosts
and maps of variables are visited do not show.

The `hostname` of a host is taken from `os` when that is a `map[string]any`. The
result is described for stores in which every `os` that is a map is one
(`OSFacts`), as the decoders and the fact gatherer make it.
-/

namespace KubeKey.Variable

open KubeKey.Go

/-- The deep value of a map, entry by entry. -/
def mapView (entry : String → Option DeepView) : DeepView
  | [] => some .map
  | .key k :: p => (entry k).bind fun w => w p
  | .idx _ :: _ => none

theorem view_mapObject {h : Heap} {l : Nat} {t : GoType} {m : GoMap Val} (object : h.get? l = some (.map t m)) :
    h.view (.ref l) = mapView fun k => (m.get? k).map h.view := by
  funext p
  cases p with
  | nil => simp [Heap.view_nil, Heap.shape, object, Obj.shape, mapView]
  | cons s p =>
    rw [Heap.view_cons, Heap.child_ref object]
    cases s with
    | idx i => rfl
    | key k => simp only [Obj.child, mapView, Option.bind_map, Function.comp_def]

/-- The layers of a host, the groups in the order `gs`. -/
def orderedLayers (val : Value) (gs : List (String × InventoryGroup)) (hostname : String) (remote runtime : DeepView) :
    List DeepView :=
  (gs.filter fun g => hostname ∈ g.2.hosts).map (fun g => g.2.vars.view) ++
    [remote, runtime, val.inventory.vars.view, ((val.inventory.hosts.get? hostname).getD .empty).view, val.config.view]

/-- The defaults as a layer below all others, `hostname` among them. -/
def namesView (localIP : String → String) (hostname : String) : DeepView
  | [.key k] => if k = variableHostName then some (.scalar (.str hostname))
      else (defaultValue localIP hostname k).map .scalar
  | _ => none

/-- What `defaultHostVariable` makes of the variables `w`. -/
def namedView (localIP : String → String) (hostname : String) (w : DeepView) : DeepView
  | [] => w []
  | .idx i :: p => w (.idx i :: p)
  | .key k :: p =>
    if k = variableHostName ∧ w [.key variableOS] = some .map then
      if (w [.key variableOS, .key variableOSHostName]).isSome then w (.key variableOS :: .key variableOSHostName :: p)
      else (Lit.scalar .null).view p
    else overlay (namesView localIP hostname) w (.key k :: p)

/-- The object of a JSON document holds `os` as a map of type `map[string]any`, if as a map. -/
def RawExtension.OSFacts : RawExtension → Prop
  | .object entries => ∀ t es, (variableOS, Lit.map t es) ∈ entries → t = .any
  | _ => True

/-- Every `os` of a layer that is a map is a `map[string]any`. -/
structure OSFacts (h : Heap) (val : Value) : Prop where
  groups : ∀ name g, val.inventory.groups.get? name = some g → g.vars.OSFacts
  inventory : val.inventory.vars.OSFacts
  host : ∀ hostname ext, val.inventory.hosts.get? hostname = some ext → ext.OSFacts
  config : val.config.OSFacts
  remote : ∀ hostname hv, val.hosts.get? hostname = some hv → AnyMapAt variableOS h hv.remoteVars
  runtime : ∀ hostname hv, val.hosts.get? hostname = some hv → AnyMapAt variableOS h hv.runtimeVars

section Extension

theorem lit_anyMap {x : Lit} (any : ∀ t es, x = .map t es → t = .any) (h : Heap) :
    AnyMap (x.alloc h).2 (x.alloc h).1 := by
  cases x with
  | scalar s =>
    rintro ⟨m, map⟩
    simp [Lit.alloc, asMap] at map
  | map t es =>
    intro _
    cases any t es rfl
    simp [Lit.alloc, asAnyMap, Heap.loc_alloc]
  | slice t items =>
    rintro ⟨m, map⟩
    simp [Lit.alloc, asMap, Heap.loc_alloc] at map

theorem allocEntries_anyMap {k : String} : ∀ (entries : List (String × Lit)) (m : GoMap Val) (h : Heap), h.Closed →
    (∀ t es, (k, Lit.map t es) ∈ entries → t = .any) →
    (∀ c, m.get? k = some c → c.Below h.size ∧ AnyMap h c) →
    ∀ c, (Lit.allocEntries entries m h).1.get? k = some c →
      c.Below (Lit.allocEntries entries m h).2.size ∧ AnyMap (Lit.allocEntries entries m h).2 c
  | [], _, _, _, _, filled => filled
  | (k', x) :: rest, m, h, closed, any, filled => by
    have placed := Lit.alloc_placed x h closed
    refine allocEntries_anyMap rest (m.put k' (x.alloc h).1) (x.alloc h).2 placed.closed
      (fun t es member => any t es (List.mem_cons_of_mem _ member)) fun c stored => ?_
    rw [GoMap.get?_put] at stored
    split at stored
    · next same =>
      cases stored
      exact ⟨placed.below, lit_anyMap (fun t es here => any t es (by simp [same, here])) h⟩
    · obtain ⟨below, old⟩ := filled c stored
      exact ⟨below.mono placed.grows.size_le, old.agree placed.grows.agree below⟩

theorem extension2Variables_anyMapAt {ext : RawExtension} (facts : ext.OSFacts) {h : Heap} (closed : h.Closed) :
    AnyMapAt variableOS (extension2Variables ext h).2 (extension2Variables ext h).1 := by
  have object : ∀ entries : List (String × Lit), (∀ t es, (variableOS, Lit.map t es) ∈ entries → t = .any) →
      AnyMapAt variableOS ((Lit.map .any entries).alloc h).2 ((Lit.map .any entries).alloc h).1 := by
    intro entries any c step
    simp only [Lit.alloc, Heap.loc_alloc] at step
    rw [Heap.child_ref (Heap.get?_alloc_new _)] at step
    obtain ⟨below, held⟩ := allocEntries_anyMap entries .empty h closed any (by simp) c step
    exact held.agree (fun l bound => Heap.get?_alloc_old _ bound) below
  cases ext with
  | empty => exact object [] (by simp)
  | object entries => exact object entries facts
  | invalid =>
    intro c step
    cases step

end Extension

/-- Merging a value without cycles returns. -/
theorem combineVariables_returns {h : Heap} {m1 m2 : Val} (closed : h.Closed) (acyclic : h.Acyclic)
    (low : m1.Below h.size) (high : m2.Below h.size) (first : IsMap h m1) (second : IsMap h m2) :
    ∃ out, AnyOrder.CombineVariables m1 m2 h out := by
  have depth : DepthLt h m2 h.size := fun _ _ reached => acyclic.length_lt closed high reached
  obtain ⟨out, run⟩ := Option.isSome_iff_exists.1 (combineVariables_isSome closed low high first second depth)
  exact ⟨out, AnyOrder.combineVariables_run run⟩

/-- `out` holds a new map with the deep value `w`, the newest object of a heap that has grown from `h`. -/
structure NewMap (h : Heap) (w : DeepView) (out : Val × Heap) : Prop where
  grows : Heap.Grows h out.2
  newest : ∃ l, out.1 = .ref l ∧ NewestMap out.2 l ∧ h.size ≤ l
  view : out.2.view out.1 = w
  os : AnyMapAt variableOS out.2 out.1

namespace NewMap
variable {h h₂ : Heap} {w : DeepView} {s : Val × Heap} {v : Val}

theorem closed (new : NewMap h w s) : s.2.Closed := by
  obtain ⟨l, _, newest, _⟩ := new.newest
  exact newest.heapClosed

theorem below (new : NewMap h w s) : s.1.Below s.2.size := by
  obtain ⟨l, same, newest, _⟩ := new.newest
  rw [same, newest.size]
  exact Nat.lt_succ_self l

theorem isMap (new : NewMap h w s) : IsMap s.2 s.1 := by
  obtain ⟨l, same, newest, _⟩ := new.newest
  obtain ⟨m, object, _⟩ := newest.object
  exact ⟨m, by simp [same, asMap, object]⟩

/-- One more layer. -/
theorem combine (new : NewMap h w s) (closed : h.Closed) (acyclic : h.Acyclic) (grows : Heap.Grows s.2 h₂)
    (closed₂ : h₂.Closed) (below : v.Below h₂.size) (map : IsMap h₂ v) (os : AnyMapAt variableOS h₂ v) :
    Yields (AnyOrder.CombineVariables s.1 v h₂) (NewMap h (overlay w (h₂.view v))) := by
  have whole := new.grows.trans grows
  have low := new.below.mono grows.size_le
  have lower := new.isMap.grows grows new.below
  constructor
  · exact combineVariables_returns closed₂ (acyclic.grows closed whole) low below lower map
  · intro out run
    obtain ⟨l, h₃, rfl, combined, any⟩ := AnyOrder.combineVariables_combined closed₂ low below lower map run
    refine ⟨whole.trans combined.grows, ⟨l, rfl, combined.newest, ?_⟩, ?_, ?_⟩
    · exact Nat.le_trans whole.size_le combined.fresh
    · rw [combined.view, grows.view new.closed new.below, new.view]
    · exact any _ (new.os.grows new.closed grows new.below) os

/-- A map of the store as a layer. -/
theorem input (new : NewMap h w s) (closed : h.Closed) (acyclic : h.Acyclic) (below : v.Below h.size) (map : IsMap h v)
    (os : AnyMapAt variableOS h v) :
    Yields (AnyOrder.CombineVariables s.1 v s.2) (NewMap h (overlay w (h.view v))) := by
  rw [← new.grows.view closed below]
  exact new.combine closed acyclic (Heap.Grows.refl s.2) new.closed (below.mono new.grows.size_le)
    (map.grows new.grows below) (os.grows closed new.grows below)

/-- A decoded document as a layer. -/
theorem extension (new : NewMap h w s) (closed : h.Closed) (acyclic : h.Acyclic) {ext : RawExtension}
    (facts : ext.OSFacts) :
    Yields (AnyOrder.CombineExtension ext s.1 s.2) (NewMap h (overlay w ext.view)) := by
  have placed := extension2Variables_placed ext new.closed
  rw [← placed.view]
  refine new.combine closed acyclic placed.grows placed.closed placed.below (isMap_iff_shape.2 ?_)
    (extension2Variables_anyMapAt facts new.closed)
  rw [← rawExtension_root ext, ← placed.view]
  rfl

theorem empty (closed : h.Closed) : NewMap h baseView (.ref h.size, (h.alloc (.map .any .empty)).2) := by
  have built : Built h (fun _ => True) (fun _ => True) baseView h.size (h.alloc (.map .any .empty)).2 :=
    built_empty closed
  refine ⟨built.grows, ⟨h.size, rfl, built.newest, Nat.le_refl _⟩, ?_, ?_⟩
  · rw [view_mapObject (Heap.get?_alloc_new _)]
    funext p
    cases p with
    | nil => rfl
    | cons s p => cases s <;> rfl
  · intro c step
    rw [Heap.child_ref (Heap.get?_alloc_new _)] at step
    cases step

end NewMap

section Host
variable {h : Heap} {val : Value} {gs : List (String × InventoryGroup)} {hostname : String} {hv : HostVars}

/-- The round of the group loop for one host. -/
theorem groups_yields (closed : h.Closed) (acyclic : h.Acyclic) (facts : ∀ g ∈ gs, g.2.vars.OSFacts)
    (hostname : String) :
    Yields (Loop (fun (acc : Val × Heap) (g : String × InventoryGroup) acc' =>
        if hostname ∈ g.2.hosts then AnyOrder.CombineExtension g.2.vars acc.1 acc.2 acc' else acc' = acc) gs
        (.ref h.size, (h.alloc (.map .any .empty)).2))
      (NewMap h (layered ((gs.filter fun g => hostname ∈ g.2.hosts).map fun g => g.2.vars.view))) := by
  refine Yields.loop (I := fun (done : List (String × InventoryGroup)) => NewMap h
    (layered ((done.filter fun g => hostname ∈ g.2.hosts).map fun g => g.2.vars.view))) ?_ (NewMap.empty closed)
  intro done g rest acc split new
  by_cases member : hostname ∈ g.2.hosts
  · simp only [member, if_true, List.filter_append, List.map_append, layered, View.stack, List.foldl_append]
    rw [List.filter_cons_of_pos (by simpa using member)]
    exact new.extension closed acyclic (facts g (by simp [← split]))
  · simp only [member, if_false, List.filter_append, List.map_append]
    rw [List.filter_cons_of_neg (by simpa using member), List.filter_nil, List.map_nil, List.append_nil]
    exact Yields.pure new

theorem combineLayers_yields (closed : h.Closed) (acyclic : h.Acyclic) (facts : OSFacts h val)
    (visits : val.inventory.groups.Visits gs) (known : val.hosts.get? hostname = some hv) (ok : hv.Ok h) :
    Yields (AnyOrder.CombineLayers val gs hostname hv h)
      (NewMap h (layered (orderedLayers val gs hostname (h.view hv.remoteVars) (h.view hv.runtimeVars)))) := by
  have groupFacts : ∀ g ∈ gs, g.2.vars.OSFacts := fun g member =>
    facts.groups g.1 g.2 (GoMap.get?_eq_some_iff.2 (visits.mem_iff.1 member))
  have hostFacts : ((val.inventory.hosts.get? hostname).getD .empty).OSFacts := by
    cases stored : val.inventory.hosts.get? hostname with
    | none => trivial
    | some ext => exact facts.host hostname ext stored
  rw [layered, orderedLayers, View.stack, List.foldl_append]
  refine (groups_yields closed acyclic groupFacts hostname).bind fun s new => ?_
  refine (new.input closed acyclic ok.remoteBelow ok.remoteMap (facts.remote hostname hv known)).bind fun s new => ?_
  refine (new.input closed acyclic ok.runtimeBelow ok.runtimeMap (facts.runtime hostname hv known)).bind fun s new => ?_
  refine (new.extension closed acyclic facts.inventory).bind fun s new => ?_
  refine (new.extension closed acyclic hostFacts).bind fun s new => ?_
  exact new.extension closed acyclic facts.config

end Host

section Named
variable {h : Heap} {l : Nat}

/-- The entry that `defaultHostVariable` leaves under `hostname`. -/
theorem child_hostName (localIP : String → String) (hostname : String) (newest : NewestMap h l) :
    (defaultHostVariable localIP hostname l h).child (.ref l) (.key variableHostName) =
      match (h.child (.ref l) (.key variableOS)).bind (asAnyMap h) with
      | some osd => some ((osd.get? variableOSHostName).getD .null)
      | none => (h.child (.ref l) (.key variableHostName)).or (some (.scalar (.str hostname))) := by
  rw [defaultHostVariable_eq]
  have ips := putLocalIPs_inPlace localIP hostname newest
  have os := putOSHostName_inPlace ips.newest
  have name := putAbsent_inPlace os.newest variableInventoryName (.str hostname)
  have notIP : ∀ k, k = variableOS ∨ k = variableHostName →
      (putLocalIPs localIP hostname l h).child (.ref l) (.key k) = h.child (.ref l) (.key k) := by
    intro k other
    have neither : ¬ (k = variableIPv4 ∨ k = variableIPv6) := by
      rcases other with rfl | rfl <;> decide
    rw [child_putLocalIPs localIP hostname newest, if_neg fun both => neither both.2, Option.or_none]
  have sameOS : (h.child (.ref l) (.key variableOS)).bind (asAnyMap (putLocalIPs localIP hostname l h)) =
      (h.child (.ref l) (.key variableOS)).bind (asAnyMap h) := by
    cases step : h.child (.ref l) (.key variableOS) with
    | none => rfl
    | some c => exact asAnyMap_agree ips.agree (newest.child_below step)
  rw [child_putAbsent name.newest, child_putAbsent os.newest, if_pos rfl, if_neg (by decide), Option.or_none]
  unfold putOSHostName
  rw [notIP _ (Or.inl rfl), sameOS]
  cases (h.child (.ref l) (.key variableOS)).bind (asAnyMap h) with
  | none => simp only [notIP _ (Or.inr rfl)]
  | some osd =>
    simp only
    rw [ips.newest.child_setChild, if_pos rfl, Option.some_or]

/-- Values below the map look the same after it was changed in place. -/
theorem InPlace.view_bind {h' : Heap} (inPlace : InPlace l h h') (newest : NewestMap h l) {entry : Option Val}
    (below : ∀ c, entry = some c → c.Below l) (p : Path) :
    (entry.bind fun c => h'.view c p) = entry.bind fun c => h.view c p := by
  cases entry with
  | none => rfl
  | some c => rw [Option.bind_some, Option.bind_some, inPlace.view newest (below c rfl)]

theorem NewestMap.child_or_below (newest : NewestMap h l) (k : String) (default : Option Scalar) (c : Val)
    (found : (h.child (.ref l) (.key k)).or (default.map .scalar) = some c) : c.Below l := by
  cases step : h.child (.ref l) (.key k) with
  | some c' =>
    rw [step, Option.some_or] at found
    cases found
    exact newest.child_below step
  | none =>
    rw [step, Option.none_or] at found
    obtain ⟨x, _, rfl⟩ := Option.map_eq_some_iff.1 found
    trivial

theorem NewestMap.child_shape (newest : NewestMap h l) (k : String) (v : Val)
    (step : h.child (.ref l) (.key k) = some v) : ∃ s, h.shape v = some s := by
  have size := newest.size
  exact shape_isSome ((newest.child_below step).mono (by omega))

/-- The host name below `os`, as `defaultHostVariable` reads it. -/
theorem view_osHostName {c : Val} {osd : GoMap Val} (step : h.child (.ref l) (.key variableOS) = some c)
    (map : asAnyMap h c = some osd) (p : Path) :
    h.view (.ref l) (.key variableOS :: .key variableOSHostName :: p) =
      (osd.get? variableOSHostName).bind fun v => h.view v p := by
  rw [Heap.view_cons, step, Option.bind_some, Heap.view_cons, asMap_child (asAnyMap_asMap map)]

/-- What `defaultHostVariable` leaves below `hostname`. -/
theorem view_hostName (localIP : String → String) (hostname : String) (newest : NewestMap h l)
    (os : AnyMapAt variableOS h (.ref l)) (p : Path) :
    (defaultHostVariable localIP hostname l h).view (.ref l) (.key variableHostName :: p) =
      namedView localIP hostname (h.view (.ref l)) (.key variableHostName :: p) := by
  have inPlace := defaultHostVariable_inPlace localIP hostname newest
  have size := newest.size
  rw [Heap.view_cons, child_hostName localIP hostname newest, namedView]
  cases held : (h.child (.ref l) (.key variableOS)).bind (asAnyMap h) with
  | some osd =>
    obtain ⟨c, step, map⟩ := Option.bind_eq_some_iff.1 held
    have isMap : h.view (.ref l) [.key variableOS] = some .map := by
      rw [Heap.view_cons, step]
      exact asMap_shape (asAnyMap_asMap map)
    rw [if_pos ⟨rfl, isMap⟩, view_osHostName step map, view_osHostName step map]
    dsimp only
    cases stored : osd.get? variableOSHostName with
    | none => cases p <;> rfl
    | some v =>
      have below : v.Below l := Heap.child_below newest.closed (newest.child_below step)
        ((asMap_child (asAnyMap_asMap map) _).trans stored)
      obtain ⟨shape, seen⟩ := shape_isSome (h := h) (below.mono (by omega))
      simp only [Option.getD_some, Option.bind_some, Heap.view_nil, seen, Option.isSome_some, if_true]
      exact congrFun (inPlace.view newest below) p
  | none =>
    have notMap : h.view (.ref l) [.key variableOS] ≠ some .map := by
      intro isMap
      rw [Heap.view_cons] at isMap
      obtain ⟨c, step, shape⟩ := Option.bind_eq_some_iff.1 isMap
      have any := os c step (isMap_iff_shape.2 shape)
      rw [step, Option.bind_some] at held
      rw [held] at any
      cases any
    obtain ⟨m, object, _⟩ := newest.object
    rw [if_neg fun both => notMap both.2, overlay_leaf (h := h) (view_mapObject object ▸ rfl) (show
      namesView localIP hostname _ = (some (.str hostname)).map .scalar from rfl) (fun _ _ => rfl)
      (newest.child_shape _) fun q => Heap.view_cons _ q]
    exact inPlace.view_bind newest (newest.child_or_below _ (some (.str hostname))) p

/-- The whole map that `defaultHostVariable` leaves. -/
theorem view_defaultHostVariable (localIP : String → String) (hostname : String) (newest : NewestMap h l)
    (os : AnyMapAt variableOS h (.ref l)) :
    (defaultHostVariable localIP hostname l h).view (.ref l) = namedView localIP hostname (h.view (.ref l)) := by
  have inPlace := defaultHostVariable_inPlace localIP hostname newest
  obtain ⟨m, object, _⟩ := newest.object
  obtain ⟨m', object', _⟩ := inPlace.newest.object
  have root : h.view (.ref l) [] = some .map := by rw [view_mapObject object]; rfl
  funext p
  match p with
  | [] =>
    rw [view_mapObject object', namedView, root]
    rfl
  | .idx i :: p =>
    rw [view_mapObject object', namedView, view_mapObject object]
    rfl
  | .key k :: p =>
    by_cases name : k = variableHostName
    · subst name
      exact view_hostName localIP hostname newest os p
    · have leaf : namesView localIP hostname [.key k] = (defaultValue localIP hostname k).map .scalar := if_neg name
      rw [Heap.view_cons, child_defaultHostVariable localIP hostname newest name, namedView,
        if_neg fun both => name both.1,
        overlay_leaf root leaf (fun _ _ => rfl) (newest.child_shape k) fun q => Heap.view_cons _ q]
      exact inPlace.view_bind newest (newest.child_or_below k _) p

end Named

/-- The deep value of a host's variables, the groups in the order `gs`. -/
def orderedView (localIP : String → String) (val : Value) (gs : List (String × InventoryGroup)) (hostname : String)
    (remote runtime : DeepView) : DeepView :=
  namedView localIP hostname (layered (orderedLayers val gs hostname remote runtime))

/-- `out` holds a map with the deep value `w`, in a heap that has grown from `h`. -/
structure HoldsMap (h : Heap) (w : DeepView) (out : Val × Heap) : Prop where
  grows : Heap.Grows h out.2
  closed : out.2.Closed
  below : out.1.Below out.2.size
  map : IsMap out.2 out.1
  view : out.2.view out.1 = w

/-- One map merged over another. -/
theorem combineVariables_holds {h h₁ : Heap} {m1 m2 : Val} (closed : h.Closed) (acyclic : h.Acyclic)
    (grows : Heap.Grows h h₁) (closed₁ : h₁.Closed) (low : m1.Below h₁.size) (high : m2.Below h₁.size)
    (first : IsMap h₁ m1) (second : IsMap h₁ m2) :
    Yields (AnyOrder.CombineVariables m1 m2 h₁) (HoldsMap h (overlay (h₁.view m1) (h₁.view m2))) := by
  refine ⟨combineVariables_returns closed₁ (acyclic.grows closed grows) low high first second, fun out run => ?_⟩
  obtain ⟨l, h₂, rfl, combined, _⟩ := AnyOrder.combineVariables_combined closed₁ low high first second run
  have root : h₁.view m2 [] = some .map := isMap_iff_shape.1 second
  refine ⟨grows.trans combined.grows, combined.closed, combined.below, isMap_iff_shape.2 ?_, combined.view⟩
  rw [← Heap.view_nil, combined.view]
  exact overlay_root root

section Hosts
variable {h : Heap} {val : Value} {orders : Orders}

theorem hostVariable_yields (closed : h.Closed) (acyclic : h.Acyclic) (facts : OSFacts h val)
    (localIP : String → String) {gs : List (String × InventoryGroup)} (visits : val.inventory.groups.Visits gs) {hostname : String} {hv : HostVars}
    (known : val.hosts.get? hostname = some hv) (ok : hv.Ok h) :
    Yields (AnyOrder.HostVariable localIP val gs hostname hv h)
      (HoldsMap h (orderedView localIP val gs hostname (h.view hv.remoteVars) (h.view hv.runtimeVars))) := by
  refine (combineLayers_yields closed acyclic facts visits known ok).bind fun s new => ?_
  obtain ⟨l, same, newest, fresh⟩ := new.newest
  have os := new.os
  rw [same] at os
  have inPlace := defaultHostVariable_inPlace localIP hostname newest
  have holds : HoldsMap h (orderedView localIP val gs hostname (h.view hv.remoteVars) (h.view hv.runtimeVars))
      (.ref l, defaultHostVariable localIP hostname l s.2) := by
    refine ⟨inPlace.grows new.grows fresh, inPlace.newest.heapClosed, ?_, ?_, ?_⟩
    · rw [inPlace.newest.size]
      exact Nat.lt_succ_self l
    · obtain ⟨m, object, _⟩ := inPlace.newest.object
      exact ⟨m, by simp [asMap, object]⟩
    · rw [view_defaultHostVariable localIP hostname newest os, orderedView, ← new.view, same]
  refine ⟨⟨_, l, same, rfl⟩, ?_⟩
  rintro out ⟨l', same', rfl⟩
  rw [same] at same'
  cases same'
  exact holds

/-- The deep values of the hosts, each with its own order of the groups. -/
def hostViews (localIP : String → String) (val : Value) (orders : Orders) (h : Heap) (hostname : String) :
    Option DeepView :=
  (val.hosts.get? hostname).map fun hv =>
    orderedView localIP val (orders.groups hostname) hostname (h.view hv.remoteVars) (h.view hv.runtimeVars)

/-- The accumulator of `getHostsVariable` after the hosts `done`. -/
structure HostsHeld (localIP : String → String) (val : Value) (orders : Orders) (h : Heap)
    (done : List (String × HostVars)) (acc : GoMap Val × Heap) : Prop where
  grows : Heap.Grows h acc.2
  closed : acc.2.Closed
  map : ∀ k c, acc.1.get? k = some c → c.Below acc.2.size ∧ IsMap acc.2 c
  view : ∀ k, (acc.1.get? k).map acc.2.view = if k ∈ done.map Prod.fst then hostViews localIP val orders h k else none

theorem OSFacts.grows {h' : Heap} (facts : OSFacts h val) (ok : val.Ok h) (grows : Heap.Grows h h') :
    OSFacts h' val where
  groups := facts.groups
  inventory := facts.inventory
  host := facts.host
  config := facts.config
  remote := fun hostname hv known =>
    (facts.remote hostname hv known).grows ok.closed grows (ok.hosts hostname hv known).remoteBelow
  runtime := fun hostname hv known =>
    (facts.runtime hostname hv known).grows ok.closed grows (ok.hosts hostname hv known).runtimeBelow

theorem getHostsVariable_yields (ok : val.Ok h) (facts : OSFacts h val) (localIP : String → String)
    (orderly : orders.Of val) :
    Yields (AnyOrder.GetHostsVariable localIP val orders h) (HostsHeld localIP val orders h orders.hosts) := by
  have start : HostsHeld localIP val orders h [] (.empty, h) :=
    ⟨Heap.Grows.refl h, ok.closed, by simp, fun _ => rfl⟩
  refine Yields.loop (I := HostsHeld localIP val orders h) ?_ start
  intro done e rest acc split held
  have known : val.hosts.get? e.1 = some e.2 :=
    GoMap.get?_eq_some_iff.2 (orderly.hosts.mem_iff.1 (by simp [← split]))
  have hostOk := ok.hosts e.1 e.2 known
  have later := hostVariable_yields held.closed (ok.acyclic.grows ok.closed held.grows) (facts.grows ok held.grows)
    localIP (orderly.groups e.1) known (hostOk.grows held.grows)
  refine later.bind fun s holds => Yields.pure ?_
  refine ⟨held.grows.trans holds.grows, holds.closed, ?_, ?_⟩
  · intro k c stored
    rw [GoMap.get?_put] at stored
    split at stored
    · cases stored
      exact ⟨holds.below, holds.map⟩
    · obtain ⟨below, map⟩ := held.map k c stored
      exact ⟨below.mono holds.grows.size_le, map.grows holds.grows below⟩
  · intro k
    rw [GoMap.get?_put]
    by_cases same : k = e.1
    · subst same
      rw [if_pos rfl, if_pos (by simp), hostViews, known, Option.map_some, Option.map_some, holds.view,
        held.grows.view ok.closed hostOk.remoteBelow, held.grows.view ok.closed hostOk.runtimeBelow]
    · have others : k ∈ (done ++ [e]).map Prod.fst ↔ k ∈ done.map Prod.fst := by simp [same]
      rw [if_neg same, if_congr others rfl rfl, ← held.view k]
      cases stored : acc.1.get? k with
      | none => rfl
      | some c => rw [Option.map_some, Option.map_some, holds.grows.view held.closed (held.map k c stored).1]

theorem HostsHeld.entry {localIP : String → String} {acc : GoMap Val × Heap} (orderly : orders.Of val)
    (held : HostsHeld localIP val orders h orders.hosts acc) (k : String) :
    (acc.1.get? k).map acc.2.view = hostViews localIP val orders h k := by
  rw [held.view k]
  split
  · rfl
  · next absent =>
    rw [hostViews]
    cases known : val.hosts.get? k with
    | none => rfl
    | some hv =>
      have member := orderly.hosts.mem_iff.2 (GoMap.get?_eq_some_iff.1 known)
      exact absurd (List.mem_map.2 ⟨_, member, rfl⟩) absent

/-- What `GetAllVariable` returns, from the variables of the hosts and the expanded groups. -/
def contextView (views : String → Option DeepView) (groups : GoMap (List String)) (hostname : String) : DeepView :=
  match views hostname with
  | none => baseView
  | some w => overlay
      (overlay w (mapView fun k => if k = variableGlobalHosts then some (mapView views) else none))
      (Lit.map .any [(variableGroups, groupsLit groups)]).view

theorem finishVariable_yields {localIP : String → String} {acc : GoMap Val × Heap} {groups : GoMap (List String)}
    (ok : val.Ok h) (orderly : orders.Of val) (held : HostsHeld localIP val orders h orders.hosts acc)
    (expanded : convertGroupIn val.inventory (orders.all.map Prod.fst) (orders.names.map Prod.fst) = some groups)
    (hostname : String) :
    Yields (AnyOrder.FinishVariable val orders hostname acc.1 acc.2)
      fun out => out.2.view out.1 = contextView (hostViews localIP val orders h) groups hostname := by
  have below : (Obj.map .any acc.1).Below acc.2.size := by
    intro s c step
    cases s with
    | idx i => simp [Obj.child] at step
    | key k => exact (held.map k c step).1
  have grows := Heap.grows_alloc below
  have closed := held.closed.alloc (below.mono (Nat.le_succ _))
  have entry := held.entry orderly hostname
  have views : (acc.2.alloc (.map .any acc.1)).2.view (.ref acc.2.size) = mapView (hostViews localIP val orders h) := by
    rw [view_mapObject (Heap.get?_alloc_new _)]
    congr 1
    funext k
    rw [← held.entry orderly k]
    cases stored : acc.1.get? k with
    | none => rfl
    | some c => rw [Option.map_some, Option.map_some, grows.view held.closed (held.map k c stored).1]
  unfold AnyOrder.FinishVariable contextView
  cases stored : acc.1.get? hostname with
  | none =>
    rw [stored, Option.map_none] at entry
    rw [← entry]
    exact Yields.pure (NewMap.empty closed).view
  | some v =>
    rw [stored, Option.map_some] at entry
    rw [← entry]
    obtain ⟨vBelow, vMap⟩ := held.map hostname v stored
    have hostsBelow : (Val.ref acc.2.size).Below (acc.2.alloc (.map .any acc.1)).2.size := by simp [Val.Below]
    obtain ⟨grows₂, closed₂, map₂, _⟩ := singleton_map closed variableGlobalHosts hostsBelow
    have whole := (held.grows.trans grows).trans grows₂
    have merged := combineVariables_holds ok.closed ok.acyclic whole closed₂
      (vBelow.mono (grows.trans grows₂).size_le) (by simp [Val.Below]) (vMap.grows (grows.trans grows₂) vBelow) map₂
    refine merged.bind fun s holds => ?_
    have placed := Lit.alloc_placed (.map .any [(variableGroups, groupsLit groups)]) s.2 holds.closed
    have last := combineVariables_holds ok.closed ok.acyclic (holds.grows.trans placed.grows) placed.closed
      (holds.below.mono placed.grows.size_le) placed.below (holds.map.grows placed.grows holds.below)
      (isMap_iff_shape.2 (by rw [← Heap.view_nil, placed.view]; rfl))
    have single : (((acc.2.alloc (.map .any acc.1)).2.alloc
        (.map .any (GoMap.empty.put variableGlobalHosts (.ref acc.2.size)))).2.view
          (.ref (acc.2.alloc (.map .any acc.1)).2.size)) =
        mapView fun k => if k = variableGlobalHosts then some (mapView (hostViews localIP val orders h)) else none := by
      rw [view_mapObject (Heap.get?_alloc_new _)]
      congr 1
      funext k
      rw [GoMap.get?_put]
      split
      · rw [Option.map_some, grows₂.view closed hostsBelow, views]
      · rfl
    refine ⟨⟨last.returns.choose, groups, expanded, last.returns.choose_spec⟩, ?_⟩
    rintro out ⟨groups', expanded', run⟩
    rw [expanded] at expanded'
    cases expanded'
    rw [(last.always out run).view, placed.grows.view holds.closed holds.below, placed.view, holds.view,
      (grows.trans grows₂).view held.closed vBelow]
    rw [single]

/-- In every order `GetAllVariable` returns the map that `contextView` describes. -/
theorem getAllVariable_yields {groups : GoMap (List String)} (ok : val.Ok h) (facts : OSFacts h val)
    (localIP : String → String) (orderly : orders.Of val)
    (expanded : convertGroupIn val.inventory (orders.all.map Prod.fst) (orders.names.map Prod.fst) = some groups)
    (hostname : String) :
    Yields (AnyOrder.GetAllVariable localIP val orders hostname h)
      fun out => out.2.view out.1 = contextView (hostViews localIP val orders h) groups hostname :=
  (getHostsVariable_yields ok facts localIP orderly).bind fun _ held =>
    finishVariable_yields ok orderly held expanded hostname

end Hosts

end KubeKey.Variable
