import KubeKey.Go.Rank
import KubeKey.Variable.Get

/-!
# What `GetAllVariable` returns

The map returned for a host is new, its entries are the overlay of the layers,
and the containers below them are those of the layers, each at its old path.
Three names are the code's own: `hostvars` holds the variables of all hosts,
`groups` the expanded groups, and `hostname` may be taken from `os`. Below
`hostvars` and `hostname` a container is found at a path that is not its own.

`GetAllVariable` returns for every store without cycles whose groups expand
(`getAllVariable_built`).
-/

namespace KubeKey.Variable

open KubeKey.Go

/-- The names below which a container may have a path of its own. -/
def Reserved (k : String) : Prop := k = variableGlobalHosts ∨ k = variableHostName

theorem NewestMap.heapClosed {h : Heap} {l : Nat} (newest : NewestMap h l) : h.Closed := by
  intro l' o found
  have bound := Heap.get?_lt found
  rw [newest.size] at bound ⊢
  by_cases last : l' = l
  · subst last
    obtain ⟨m, object, below⟩ := newest.object
    rw [object] at found
    cases found
    exact below.mono (Nat.le_succ _)
  · exact (newest.closed l' (by omega) o found).mono (Nat.le_succ _)

/-- `h'` is `h` with other entries in its newest map, at `l`. -/
structure InPlace (l : Nat) (h h' : Heap) : Prop where
  newest : NewestMap h' l
  agree : Heap.AgreeBelow l h h'

theorem InPlace.refl {l : Nat} {h : Heap} (newest : NewestMap h l) : InPlace l h h := ⟨newest, Heap.AgreeBelow.refl l h⟩

theorem InPlace.trans {l : Nat} {h₁ h₂ h₃ : Heap} (first : InPlace l h₁ h₂) (second : InPlace l h₂ h₃) :
    InPlace l h₁ h₃ :=
  ⟨second.newest, first.agree.trans second.agree⟩

theorem NewestMap.setChild {h : Heap} {l : Nat} (newest : NewestMap h l) (k : String) {v : Val} (below : v.Below l) :
    InPlace l h (h.setChild l (.key k) v) := by
  obtain ⟨m, object, inside⟩ := newest.object
  have agree : Heap.AgreeBelow l h (h.setChild l (.key k) v) :=
    fun l' bound => Heap.get?_setChild_ne (Nat.ne_of_lt bound) _ _
  refine ⟨⟨?_, newest.closed.agree agree, m.put k v, Heap.get?_setChild_self object _ _, ?_⟩, agree⟩
  · rw [Heap.size_setChild, newest.size]
  · exact inside.setChild below (.key k)

theorem NewestMap.child_setChild {h : Heap} {l : Nat} (newest : NewestMap h l) (k k' : String) (v : Val) :
    (h.setChild l (.key k) v).child (.ref l) (.key k') = if k' = k then some v else h.child (.ref l) (.key k') := by
  obtain ⟨m, object, _⟩ := newest.object
  rw [Heap.child_ref (Heap.get?_setChild_self object _ _), Heap.child_ref object]
  exact GoMap.get?_put m k k' v

theorem NewestMap.child_below {h : Heap} {l : Nat} (newest : NewestMap h l) {s : Seg} {c : Val}
    (step : h.child (.ref l) s = some c) : c.Below l := by
  obtain ⟨m, object, below⟩ := newest.object
  rw [Heap.child_ref object] at step
  exact below s c step

/-- The heap still grows when its newest map is changed in place. -/
theorem InPlace.grows {h h₁ h₂ : Heap} {l : Nat} (inPlace : InPlace l h₁ h₂) (grows : Heap.Grows h h₁)
    (fresh : h.size ≤ l) : Heap.Grows h h₂ := by
  have size := inPlace.newest.size
  refine ⟨by omega, grows.agree.trans (inPlace.agree.mono fresh), ?_⟩
  intro l' o high found
  by_cases last : l' = l
  · subst last
    obtain ⟨m, object, below⟩ := inPlace.newest.object
    rw [object] at found
    cases found
    exact below
  · have bound := Heap.get?_lt found
    rw [inPlace.agree l' (by omega)] at found
    exact grows.ordered l' o high found

/-- The child of the changed map that stays sees the same values. -/
theorem InPlace.view {h h' : Heap} {l : Nat} (inPlace : InPlace l h h') (newest : NewestMap h l) {v : Val}
    (below : v.Below l) : h'.view v = h.view v :=
  Heap.view_agree newest.closed inPlace.agree below

/-- `putAbsent` on the newest map. -/
theorem putAbsent_inPlace {h : Heap} {l : Nat} (newest : NewestMap h l) (k : String) (s : Scalar) :
    InPlace l h (putAbsent h l k (.scalar s)) := by
  unfold putAbsent
  split
  · exact InPlace.refl newest
  · exact newest.setChild k trivial

theorem child_putAbsent {h : Heap} {l : Nat} (newest : NewestMap h l) (k k' : String) (s : Scalar) :
    (putAbsent h l k (.scalar s)).child (.ref l) (.key k') =
      (h.child (.ref l) (.key k')).or (if k' = k then some (.scalar s) else none) := by
  unfold putAbsent
  split
  · next present =>
    by_cases same : k' = k
    · subst same
      obtain ⟨c, stored⟩ := Option.isSome_iff_exists.1 present
      simp [stored]
    · simp [same]
  · next absent =>
    rw [newest.child_setChild]
    by_cases same : k' = k
    · subst same
      have nothing : h.child (.ref l) (.key k') = none := by simpa using absent
      simp [nothing]
    · simp [same]

/-- The default of a variable other than `hostname`. -/
def defaultValue (localIP : String → String) (hostname k : String) : Option Scalar :=
  if hostname = variableLocalHost ∧ (k = variableIPv4 ∨ k = variableIPv6) then some (.str (localIP k))
  else if k = variableInventoryName then some (.str hostname)
  else none

/-- The addresses that `defaultHostVariable` fills in for this machine. -/
def putLocalIPs (localIP : String → String) (hostname : String) (l : Nat) (h : Heap) : Heap :=
  if hostname = variableLocalHost then
    putAbsent (putAbsent h l variableIPv4 (.scalar (.str (localIP variableIPv4)))) l variableIPv6
      (.scalar (.str (localIP variableIPv6)))
  else h

/-- The host name that `defaultHostVariable` takes from `os`. -/
def putOSHostName (l : Nat) (h : Heap) : Heap :=
  match (h.child (.ref l) (.key variableOS)).bind (asAnyMap h) with
  | some osd => h.setChild l (.key variableHostName) ((osd.get? variableOSHostName).getD .null)
  | none => h

theorem defaultHostVariable_eq (localIP : String → String) (hostname : String) (l : Nat) (h : Heap) :
    defaultHostVariable localIP hostname l h =
      putAbsent (putAbsent (putOSHostName l (putLocalIPs localIP hostname l h)) l variableInventoryName
        (.scalar (.str hostname))) l variableHostName (.scalar (.str hostname)) := rfl

theorem putLocalIPs_inPlace (localIP : String → String) (hostname : String) {h : Heap} {l : Nat}
    (newest : NewestMap h l) : InPlace l h (putLocalIPs localIP hostname l h) := by
  unfold putLocalIPs
  split
  · have first := putAbsent_inPlace newest variableIPv4 (.str (localIP variableIPv4))
    exact first.trans (putAbsent_inPlace first.newest variableIPv6 _)
  · exact InPlace.refl newest

theorem asAnyMap_asMap {h : Heap} {v : Val} {m : GoMap Val} (map : asAnyMap h v = some m) : asMap h v = some m := by
  unfold asAnyMap at map
  split at map
  · exact map
  · split at map
    · next found =>
      cases map
      simp [asMap, found]
    · cases map
  · cases map

theorem putOSHostName_inPlace {h : Heap} {l : Nat} (newest : NewestMap h l) : InPlace l h (putOSHostName l h) := by
  unfold putOSHostName
  split
  · next osd map =>
    obtain ⟨os, step, entries⟩ := Option.bind_eq_some_iff.1 map
    have below : ((osd.get? variableOSHostName).getD .null).Below l := by
      cases stored : osd.get? variableOSHostName with
      | none => trivial
      | some c =>
        have inside := (asMap_child (asAnyMap_asMap entries) variableOSHostName).trans stored
        exact Heap.child_below newest.closed (newest.child_below step) inside
    exact newest.setChild variableHostName below
  · exact InPlace.refl newest

theorem child_putOSHostName {h : Heap} {l : Nat} (newest : NewestMap h l) {k : String} (other : k ≠ variableHostName) :
    (putOSHostName l h).child (.ref l) (.key k) = h.child (.ref l) (.key k) := by
  unfold putOSHostName
  split
  · rw [newest.child_setChild, if_neg other]
  · rfl

theorem child_putLocalIPs (localIP : String → String) (hostname : String) {h : Heap} {l : Nat}
    (newest : NewestMap h l) (k : String) :
    (putLocalIPs localIP hostname l h).child (.ref l) (.key k) = (h.child (.ref l) (.key k)).or
      (if hostname = variableLocalHost ∧ (k = variableIPv4 ∨ k = variableIPv6) then some (.scalar (.str (localIP k)))
      else none) := by
  unfold putLocalIPs
  split
  · next localhost =>
    have first := putAbsent_inPlace newest variableIPv4 (.str (localIP variableIPv4))
    rw [child_putAbsent first.newest, child_putAbsent newest, Option.or_assoc]
    congr 1
    by_cases v4 : k = variableIPv4
    · subst v4
      simp [localhost]
    · by_cases v6 : k = variableIPv6
      · subst v6
        simp [localhost, v4]
      · simp [v4, v6]
  · next other => simp [other]

theorem defaultHostVariable_inPlace (localIP : String → String) (hostname : String) {h : Heap} {l : Nat}
    (newest : NewestMap h l) : InPlace l h (defaultHostVariable localIP hostname l h) := by
  rw [defaultHostVariable_eq]
  have ips := putLocalIPs_inPlace localIP hostname newest
  have os := putOSHostName_inPlace ips.newest
  have name := putAbsent_inPlace os.newest variableInventoryName (.str hostname)
  exact ips.trans (os.trans (name.trans (putAbsent_inPlace name.newest variableHostName (.str hostname))))

/-- The entries that `defaultHostVariable` leaves. -/
theorem child_defaultHostVariable (localIP : String → String) (hostname : String) {h : Heap} {l : Nat}
    (newest : NewestMap h l) {k : String} (other : k ≠ variableHostName) :
    (defaultHostVariable localIP hostname l h).child (.ref l) (.key k) =
      (h.child (.ref l) (.key k)).or ((defaultValue localIP hostname k).map .scalar) := by
  rw [defaultHostVariable_eq]
  have ips := putLocalIPs_inPlace localIP hostname newest
  have os := putOSHostName_inPlace ips.newest
  have name := putAbsent_inPlace os.newest variableInventoryName (.str hostname)
  rw [child_putAbsent name.newest, child_putAbsent os.newest, child_putOSHostName ips.newest other,
    child_putLocalIPs localIP hostname newest, if_neg other, Option.or_none, Option.or_assoc]
  congr 1
  unfold defaultValue
  split
  · simp
  · split <;> simp

/-- A map without entries. -/
def baseView : DeepView := (Lit.map .any []).view

/-- Layers merged from the lowest to the highest. -/
def layered (layers : List DeepView) : DeepView := View.stack Shape.opens baseView layers

/-- The layers of a host in the order of the source. -/
def hostLayers (val : Value) (hostname : String) (remote runtime : DeepView) : List DeepView :=
  (val.inventory.groups.entries.filter fun g => hostname ∈ g.2.hosts).map (fun g => g.2.vars.view) ++
    [remote, runtime, val.inventory.vars.view, ((val.inventory.hosts.get? hostname).getD .empty).view, val.config.view]

/-- `l` holds a new map, built after `h`. Under the keys `P` it has the entries of `w`, and their containers keep the
paths they have in the inputs. -/
structure Built (h : Heap) (P : String → Prop) (inputs : (Nat → Path) → Prop) (w : DeepView) (l : Nat) (h' : Heap) :
    Prop where
  grows : Heap.Grows h h'
  newest : NewestMap h' l
  fresh : h.size ≤ l
  root : w [] = some .map
  view : ∀ k p, P k → h'.view (.ref l) (.key k :: p) = w (.key k :: p)
  children : ∀ label, inputs label →
    ∃ label', SameBelow h.size label label' ∧ ChildrenLabelled P label' h' (.ref l)

/-- A map `v` to be merged over one built in `h₁`. -/
structure Layer (h : Heap) (P : String → Prop) (inputs : (Nat → Path) → Prop) (h₁ : Heap) (w : DeepView) (v : Val)
    (h₂ : Heap) : Prop where
  grows : Heap.Grows h₁ h₂
  closed : h₂.Closed
  below : v.Below h₂.size
  map : IsMap h₂ v
  view : ∀ k p, P k → h₂.view v (.key k :: p) = w (.key k :: p)
  labels : ∀ label, inputs label → ∀ label₁, SameBelow h.size label label₁ →
    ∃ label₂, SameBelow h₁.size label₁ label₂ ∧ ChildrenLabelled P label₂ h₂ v

section Built
variable {h h₁ h₂ : Heap} {P : String → Prop} {inputs : (Nat → Path) → Prop} {w w' : DeepView} {l : Nat} {v : Val}

theorem Layer.root (layer : Layer h P inputs h₁ w v h₂) : h₂.view v [] = some .map := isMap_iff_shape.1 layer.map

/-- Merging is key by key. -/
theorem overlay_key {a a' b b' : DeepView} {k : String} {p : Path} (root : b [] = some .map) (root' : b' [] = some .map)
    (lower : a.sub (.key k) = a'.sub (.key k)) (upper : b.sub (.key k) = b'.sub (.key k)) :
    overlay a b (.key k :: p) = overlay a' b' (.key k :: p) := by
  have left := congrFun (sub_overlay_key (a := a) root k) p
  have right := congrFun (sub_overlay_key (a := a') root' k) p
  rw [lower, upper] at left
  exact left.trans right.symm

theorem overlay_root {a b : DeepView} (root : b [] = some .map) : overlay a b [] = some .map := by
  rw [overlay, View.overlay_of_decides (by simp [View.decides, root]), root]

/-- One more layer. -/
theorem Built.combine (built : Built h P inputs w l h₁) (acyclic : h.Acyclic) (closed : h.Closed)
    (layer : Layer h P inputs h₁ w' v h₂) (root : w' [] = some .map) :
    ∃ l' h₃, combineVariables (.ref l) v h₂ = some (.ref l', h₃) ∧ Built h P inputs (overlay w w') l' h₃ := by
  have size := built.newest.size
  have low : (Val.ref l).Below h₁.size := by simp [Val.Below, size]
  have lower : IsMap h₂ (.ref l) := by
    obtain ⟨m, object, _⟩ := built.newest.object
    exact IsMap.grows ⟨m, by simp [asMap, object]⟩ layer.grows low
  have grows := built.grows.trans layer.grows
  have depth : DepthLt h₂ v h₂.size := fun _ _ reached =>
    (acyclic.grows closed grows).length_lt layer.closed layer.below reached
  have returns := combineVariables_isSome layer.closed (low.mono layer.grows.size_le) layer.below lower layer.map depth
  obtain ⟨⟨r, h₃⟩, run⟩ := Option.isSome_iff_exists.1 returns
  obtain ⟨l', rfl, combined⟩ := combineVariables_combined layer.closed (low.mono layer.grows.size_le) layer.below
    lower layer.map run
  refine ⟨l', h₃, run, grows.trans combined.grows, combined.newest, ?_, overlay_root root, ?_, ?_⟩
  · exact Nat.le_trans grows.size_le combined.fresh
  · intro k p wanted
    rw [combined.view]
    refine overlay_key layer.root root ?_ ?_
    · funext q
      show h₂.view (.ref l) (.key k :: q) = w (.key k :: q)
      rw [layer.grows.view built.newest.heapClosed low, built.view k q wanted]
    · funext q
      exact layer.view k q wanted
  · intro label labelled
    obtain ⟨label₁, same₁, children₁⟩ := built.children label labelled
    obtain ⟨label₂, same₂, children₂⟩ := layer.labels label labelled label₁ same₁
    have lowerLabels : ChildrenLabelled P label₂ h₂ (.ref l) := by
      intro k c wanted step
      rw [Heap.child_agree layer.grows.agree low] at step
      have bound : c.Below h₁.size := (built.newest.child_below step).mono (by omega)
      exact (children₁ k c wanted step).grows built.newest.heapClosed layer.grows same₂ bound
    obtain ⟨label₃, same₃, children₃⟩ := combined.children P label₂ lowerLabels children₂
    have upTo : SameBelow h.size label label₂ := same₁.trans same₂ built.grows.size_le
    exact ⟨label₃, upTo.trans same₃ grows.size_le, children₃⟩

/-- An input of the store as a layer. -/
theorem Layer.input (built : Built h P inputs w l h₁) (closed : h.Closed) (below : v.Below h.size) (map : IsMap h v)
    (labels : ∀ label, inputs label → LabelledAt label h v []) : Layer h P inputs h₁ (h.view v) v h₁ where
  grows := Heap.Grows.refl h₁
  closed := built.newest.heapClosed
  below := below.mono built.grows.size_le
  map := map.grows built.grows below
  view := fun k p _ => by rw [built.grows.view closed below]
  labels := fun label labelled label₁ same => by
    refine ⟨label₁, SameBelow.refl _ _, fun k c _ step => ?_⟩
    exact ((labels label labelled).grows closed built.grows same below).child step

/-- A decoded document as a layer. -/
theorem Layer.placed (placed : Placed h₁ w v h₂) (root : w [] = some .map) : Layer h P inputs h₁ w v h₂ where
  grows := placed.grows
  closed := placed.closed
  below := placed.below
  map := isMap_iff_shape.2 (by rw [← root, ← placed.view]; rfl)
  view := fun k p _ => by rw [placed.view]
  labels := fun label _ label₁ _ => by
    obtain ⟨label₂, same, labelled⟩ := placed.labels label₁ []
    exact ⟨label₂, same, fun k c _ step => labelled.child step⟩

theorem built_empty (closed : h.Closed) : Built h P inputs baseView h.size (h.alloc (.map .any .empty)).2 := by
  have nothing : (Obj.map .any .empty).Below h.size := by
    intro s c step
    cases s <;> simp [Obj.child] at step
  have grows := Heap.grows_alloc nothing
  refine ⟨grows, ⟨Heap.size_alloc _, closed.below.agree grows.agree, .empty, Heap.get?_alloc_new _, nothing⟩,
    Nat.le_refl _, rfl, ?_, ?_⟩
  · intro k p _
    rw [Heap.view_cons, Heap.child_ref (Heap.get?_alloc_new _)]
    rfl
  · intro label _
    refine ⟨label, SameBelow.refl _ _, fun k c _ step => ?_⟩
    rw [Heap.child_ref (Heap.get?_alloc_new _)] at step
    simp [Obj.child] at step

theorem rawExtension_root (ext : RawExtension) : ext.view [] = some .map := by cases ext <;> rfl

theorem Built.extension (built : Built h P inputs w l h₁) (acyclic : h.Acyclic) (closed : h.Closed)
    (ext : RawExtension) :
    ∃ l' h₂, combineExtension ext (.ref l) h₁ = some (.ref l', h₂) ∧ Built h P inputs (overlay w ext.view) l' h₂ :=
  built.combine acyclic closed
    (Layer.placed (extension2Variables_placed ext built.newest.heapClosed) (rawExtension_root ext))
    (rawExtension_root ext)

/-- The group layers, in the order of the loop. -/
theorem Built.groups (acyclic : h.Acyclic) (closed : h.Closed) (hostname : String) :
    ∀ (groups : List (String × InventoryGroup)) {w : DeepView} {l : Nat} {h₁ : Heap}, Built h P inputs w l h₁ →
      ∃ l' h₂, groups.foldlM (fun (acc : Val × Heap) g =>
          if hostname ∈ g.2.hosts then combineExtension g.2.vars acc.1 acc.2 else some acc) (.ref l, h₁) =
            some (.ref l', h₂) ∧
        Built h P inputs (((groups.filter fun g => hostname ∈ g.2.hosts).map fun g => g.2.vars.view).foldl overlay w)
          l' h₂ := by
  intro groups
  induction groups with
  | nil => intro w l h₁ built; exact ⟨l, h₁, rfl, built⟩
  | cons g groups ih =>
    intro w l h₁ built
    rw [List.foldlM_cons]
    by_cases member : hostname ∈ g.2.hosts
    · obtain ⟨l₂, h₂, run, built₂⟩ := built.extension acyclic closed g.2.vars
      obtain ⟨l₃, h₃, rest, built₃⟩ := ih built₂
      refine ⟨l₃, h₃, ?_, ?_⟩
      · rw [if_pos member, run]
        exact rest
      · rw [List.filter_cons_of_pos (by simpa using member)]
        exact built₃
    · obtain ⟨l₃, h₃, rest, built₃⟩ := ih built
      refine ⟨l₃, h₃, ?_, ?_⟩
      · rw [if_neg member]
        exact rest
      · rw [List.filter_cons_of_neg (by simpa using member)]
        exact built₃

end Built

/-- The two maps of a host are maps of the heap. -/
structure HostVars.Ok (h : Heap) (hv : HostVars) : Prop where
  remoteBelow : hv.remoteVars.Below h.size
  remoteMap : IsMap h hv.remoteVars
  runtimeBelow : hv.runtimeVars.Below h.size
  runtimeMap : IsMap h hv.runtimeVars

/-- Both maps of a host are labelled by their paths. -/
def HostVars.Labelled (h : Heap) (hv : HostVars) (label : Nat → Path) : Prop :=
  LabelledAt label h hv.remoteVars [] ∧ LabelledAt label h hv.runtimeVars []

theorem HostVars.Ok.grows {h h' : Heap} {hv : HostVars} (ok : hv.Ok h) (grows : Heap.Grows h h') : hv.Ok h' where
  remoteBelow := ok.remoteBelow.mono grows.size_le
  remoteMap := ok.remoteMap.grows grows ok.remoteBelow
  runtimeBelow := ok.runtimeBelow.mono grows.size_le
  runtimeMap := ok.runtimeMap.grows grows ok.runtimeBelow

theorem combineLayers_built {h : Heap} (acyclic : h.Acyclic) (closed : h.Closed) (val : Value) (hostname : String)
    {hv : HostVars} (ok : hv.Ok h) (P : String → Prop) :
    ∃ l h', combineLayers val hostname hv h = some (.ref l, h') ∧ Built h P (hv.Labelled h)
      (layered (hostLayers val hostname (h.view hv.remoteVars) (h.view hv.runtimeVars))) l h' := by
  have start : Built h P (hv.Labelled h) baseView h.size (h.alloc (.map .any .empty)).2 := built_empty closed
  obtain ⟨l₁, h₁, run₁, built₁⟩ := Built.groups acyclic closed hostname val.inventory.groups.entries start
  obtain ⟨l₂, h₂, run₂, built₂⟩ := built₁.combine acyclic closed
    (Layer.input built₁ closed ok.remoteBelow ok.remoteMap fun _ labelled => labelled.1)
    (isMap_iff_shape.1 ok.remoteMap)
  obtain ⟨l₃, h₃, run₃, built₃⟩ := built₂.combine acyclic closed
    (Layer.input built₂ closed ok.runtimeBelow ok.runtimeMap fun _ labelled => labelled.2)
    (isMap_iff_shape.1 ok.runtimeMap)
  obtain ⟨l₄, h₄, run₄, built₄⟩ := built₃.extension acyclic closed val.inventory.vars
  obtain ⟨l₅, h₅, run₅, built₅⟩ := built₄.extension acyclic closed ((val.inventory.hosts.get? hostname).getD .empty)
  obtain ⟨l₆, h₆, run₆, built₆⟩ := built₅.extension acyclic closed val.config
  refine ⟨l₆, h₆, ?_, ?_⟩
  · have first : (Val.ref (h.alloc (.map .any .empty)).1) = .ref h.size := rfl
    simp only [combineLayers, first, run₁, run₂, run₃, run₄, run₅, Option.bind_eq_bind, Option.bind_some]
    exact run₆
  · rw [layered, hostLayers, View.stack, List.foldl_append]
    exact built₆

/-- The defaults as a layer below all others. -/
def defaultsView (localIP : String → String) (hostname : String) : DeepView
  | [.key k] => (defaultValue localIP hostname k).map .scalar
  | _ => none

/-- The variables of a host, apart from its `hostname`. -/
def hostView (localIP : String → String) (val : Value) (hostname : String) (remote runtime : DeepView) : DeepView :=
  overlay (defaultsView localIP hostname) (layered (hostLayers val hostname remote runtime))

/-- An entry of a map, given by the value stored there, or by a scalar in the layer below. -/
theorem overlay_leaf {base w : DeepView} (root : w [] = some .map) {h : Heap} {k : String} {entry : Option Val}
    {default : Option Scalar} (leaf : base [.key k] = default.map .scalar) (shallow : ∀ s p, base (.key k :: s :: p) = none)
    (known : ∀ v, entry = some v → ∃ s, h.shape v = some s)
    (stored : ∀ p, w (.key k :: p) = entry.bind fun v => h.view v p) (p : Path) :
    overlay base w (.key k :: p) = (entry.or (default.map .scalar)).bind fun v => h.view v p := by
  have decides : w.decides Shape.opens (.key k :: p) = (w.sub (.key k)).decides Shape.opens p :=
    View.decides_cons_open root rfl p
  cases entry with
  | none =>
    have nothing : w.sub (.key k) = fun _ => none := funext stored
    rw [overlay, View.overlay_of_not_decides (by rw [decides, nothing, View.decides_empty]), Option.none_or]
    cases p with
    | nil =>
      rw [leaf]
      cases default <;> rfl
    | cons s p =>
      rw [shallow]
      cases default <;> rfl
  | some v =>
    have here : w.sub (.key k) = h.view v := funext stored
    rw [Option.some_or, Option.bind_some, ← congrFun here p]
    by_cases decided : (w.sub (.key k)).decides Shape.opens p = true
    · exact View.overlay_of_decides (by rw [decides, decided])
    · have undecided : (w.sub (.key k)).decides Shape.opens p = false := by simpa using decided
      rw [overlay, View.overlay_of_not_decides (by rw [decides, undecided])]
      have missing : h.view v p = none := View.none_of_not_decides (Heap.view_prefixClosed h v) (here ▸ undecided)
      rw [congrFun here p, missing]
      cases p with
      | nil =>
        obtain ⟨s, shape⟩ := known v rfl
        rw [Heap.view_nil, shape] at missing
        cases missing
      | cons s p => exact shallow s p

theorem hostVariable_built {h : Heap} (acyclic : h.Acyclic) (closed : h.Closed) (localIP : String → String)
    (val : Value) (hostname : String) {hv : HostVars} (ok : hv.Ok h) :
    ∃ l h', hostVariable localIP val hostname hv h = some (.ref l, h') ∧
      Built h (· ≠ variableHostName) (hv.Labelled h)
        (hostView localIP val hostname (h.view hv.remoteVars) (h.view hv.runtimeVars)) l h' := by
  obtain ⟨l, h₁, run, built⟩ := combineLayers_built acyclic closed val hostname ok (· ≠ variableHostName)
  have inPlace := defaultHostVariable_inPlace localIP hostname built.newest
  have size := built.newest.size
  refine ⟨l, defaultHostVariable localIP hostname l h₁, ?_, inPlace.grows built.grows built.fresh, inPlace.newest,
    built.fresh, overlay_root built.root, ?_, ?_⟩
  · simp [hostVariable, run]
  · intro k p wanted
    have known : ∀ v, h₁.child (.ref l) (.key k) = some v → ∃ s, h₁.shape v = some s := fun v step =>
      shape_isSome ((built.newest.child_below step).mono (by omega))
    have stored : ∀ q, layered (hostLayers val hostname (h.view hv.remoteVars) (h.view hv.runtimeVars))
        (.key k :: q) = (h₁.child (.ref l) (.key k)).bind fun v => h₁.view v q := by
      intro q
      rw [← built.view k q wanted, Heap.view_cons]
    rw [hostView, overlay_leaf built.root rfl (fun _ _ => rfl) known stored, Heap.view_cons,
      child_defaultHostVariable localIP hostname built.newest wanted]
    cases step : h₁.child (.ref l) (.key k) with
    | some c =>
      simp only [Option.some_or, Option.bind_some]
      rw [inPlace.view built.newest (built.newest.child_below step)]
    | none =>
      cases defaultValue localIP hostname k with
      | none => rfl
      | some x =>
        simp only [Option.none_or, Option.map_some, Option.bind_some]
        rw [inPlace.view built.newest (show (Val.scalar x).Below l from trivial)]
  · intro label labelled
    obtain ⟨label', same, children⟩ := built.children label labelled
    refine ⟨label', same, fun k c wanted step => ?_⟩
    rw [child_defaultHostVariable localIP hostname built.newest wanted] at step
    cases old : h₁.child (.ref l) (.key k) with
    | some c' =>
      rw [old, Option.some_or] at step
      cases step
      exact (children k c wanted old).agree built.newest.closed inPlace.agree (SameBelow.refl _ _)
        (built.newest.child_below old)
    | none =>
      rw [old, Option.none_or] at step
      obtain ⟨x, _, rfl⟩ := Option.map_eq_some_iff.1 step
      exact LabelledAt.of_leaf (by simp)

/-- `l` holds the variables of a host of the store in `h`. -/
structure HostBuilt (h : Heap) (localIP : String → String) (val : Value) (hostname : String) (hv : HostVars) (l : Nat)
    (h' : Heap) : Prop where
  bound : l < h'.size
  map : IsMap h' (.ref l)
  view : ∀ k p, k ≠ variableHostName → h'.view (.ref l) (.key k :: p) =
    hostView localIP val hostname (h.view hv.remoteVars) (h.view hv.runtimeVars) (.key k :: p)
  children : ∀ label, hv.Labelled h label →
    ∃ label', SameBelow h.size label label' ∧ ChildrenLabelled (· ≠ variableHostName) label' h' (.ref l)

theorem ChildrenLabelled.grows {P : String → Prop} {label : Nat → Path} {h h' : Heap} {v : Val}
    (children : ChildrenLabelled P label h v) (closed : h.Closed) (grows : Heap.Grows h h') (below : v.Below h.size) :
    ChildrenLabelled P label h' v := by
  intro k c wanted step
  rw [Heap.child_agree grows.agree below] at step
  exact (children k c wanted step).grows closed grows (SameBelow.refl _ _)
    (Heap.child_below closed.below below step)

section Hosts
variable {h h₁ h₂ : Heap} {localIP : String → String} {val : Value} {hostname : String} {hv : HostVars} {l : Nat}

theorem HostBuilt.grows (built : HostBuilt h localIP val hostname hv l h₁) (closed : h₁.Closed)
    (grows : Heap.Grows h₁ h₂) : HostBuilt h localIP val hostname hv l h₂ where
  bound := Nat.lt_of_lt_of_le built.bound grows.size_le
  map := built.map.grows grows built.bound
  view := fun k p wanted => by
    rw [grows.view closed (show (Val.ref l).Below h₁.size from built.bound), built.view k p wanted]
  children := fun label labelled => by
    obtain ⟨label', same, children⟩ := built.children label labelled
    exact ⟨label', same, children.grows closed grows built.bound⟩

/-- What `hostVariable` builds in a later heap. -/
theorem Built.hostBuilt (closed : h.Closed) (grows : Heap.Grows h h₁) (ok : hv.Ok h)
    (built : Built h₁ (· ≠ variableHostName) (hv.Labelled h₁)
      (hostView localIP val hostname (h₁.view hv.remoteVars) (h₁.view hv.runtimeVars)) l h₂) :
    HostBuilt h localIP val hostname hv l h₂ where
  bound := by
    rw [built.newest.size]
    exact Nat.lt_succ_self l
  map := by
    obtain ⟨m, object, _⟩ := built.newest.object
    exact ⟨m, by simp [asMap, object]⟩
  view := fun k p wanted => by
    rw [built.view k p wanted, grows.view closed ok.remoteBelow, grows.view closed ok.runtimeBelow]
  children := fun label labelled => by
    have later : hv.Labelled h₁ label :=
      ⟨labelled.1.grows closed grows (SameBelow.refl _ _) ok.remoteBelow,
        labelled.2.grows closed grows (SameBelow.refl _ _) ok.runtimeBelow⟩
    obtain ⟨label', same, children⟩ := built.children label later
    exact ⟨label', fun x bound => same x (Nat.lt_of_lt_of_le bound grows.size_le), children⟩

/-- The accumulator of `getHostsVariable` after the hosts `done`. -/
structure HostsBuilt (h : Heap) (localIP : String → String) (val : Value) (done : List (String × HostVars))
    (m : GoMap Val) (h' : Heap) : Prop where
  grows : Heap.Grows h h'
  closed : h'.Closed
  below : ∀ k c, m.get? k = some c → c.Below h'.size
  host : ∀ e ∈ done, ∃ l, m.get? e.1 = some (.ref l) ∧ HostBuilt h localIP val e.1 e.2 l h'
  others : ∀ k, k ∉ done.map Prod.fst → m.get? k = none

theorem HostsBuilt.step {done : List (String × HostVars)} {m : GoMap Val} (built : HostsBuilt h localIP val done m h₁)
    (acyclic : h.Acyclic) (closed : h.Closed) {e : String × HostVars} (fresh : e.1 ∉ done.map Prod.fst)
    (ok : e.2.Ok h) :
    ∃ l h₂, hostVariable localIP val e.1 e.2 h₁ = some (.ref l, h₂) ∧
      HostsBuilt h localIP val (done ++ [e]) (m.put e.1 (.ref l)) h₂ := by
  obtain ⟨l, h₂, run, host⟩ := hostVariable_built (acyclic.grows closed built.grows) built.closed localIP val e.1
    (ok.grows built.grows)
  have here : HostBuilt h localIP val e.1 e.2 l h₂ := host.hostBuilt closed built.grows ok
  refine ⟨l, h₂, run, built.grows.trans host.grows, host.newest.heapClosed, ?_, ?_, ?_⟩
  · intro k c stored
    rw [GoMap.get?_put] at stored
    split at stored
    · cases stored
      exact here.bound
    · exact (built.below k c stored).mono host.grows.size_le
  · intro e' member
    rcases List.mem_append.1 member with earlier | last
    · obtain ⟨l', stored, old⟩ := built.host e' earlier
      have other : e'.1 ≠ e.1 := fun same => fresh (same ▸ List.mem_map.2 ⟨e', earlier, rfl⟩)
      exact ⟨l', by rw [GoMap.get?_put_ne m _ other, stored], old.grows built.closed host.grows⟩
    · rw [List.mem_singleton.1 last]
      exact ⟨l, GoMap.get?_put_self m e.1 _, here⟩
  · intro k absent
    rw [List.map_append, List.mem_append, not_or] at absent
    rw [GoMap.get?_put_ne m _ (by simpa using absent.2), built.others k absent.1]

theorem HostsBuilt.run (acyclic : h.Acyclic) (closed : h.Closed)
    (ok : ∀ name hv, val.hosts.get? name = some hv → hv.Ok h) :
    ∀ (rest done : List (String × HostVars)) (m : GoMap Val) (h₁ : Heap), done ++ rest = val.hosts.entries →
      HostsBuilt h localIP val done m h₁ →
      ∃ m' h₂, rest.foldlM (fun (acc : GoMap Val × Heap) e => do
          let (hostVars, h) ← hostVariable localIP val e.1 e.2 acc.2
          some (acc.1.put e.1 hostVars, h)) (m, h₁) = some (m', h₂) ∧
        HostsBuilt h localIP val val.hosts.entries m' h₂ := by
  intro rest
  induction rest with
  | nil =>
    intro done m h₁ split built
    rw [List.append_nil] at split
    exact ⟨m, h₁, rfl, split ▸ built⟩
  | cons e rest ih =>
    intro done m h₁ split built
    have distinct := val.hosts.distinct
    rw [← split, List.map_append, List.map_cons, List.nodup_append] at distinct
    have fresh : e.1 ∉ done.map Prod.fst := fun member => distinct.2.2 e.1 member e.1 (by simp) rfl
    have stored : val.hosts.get? e.1 = some e.2 := GoMap.get?_eq_some_iff.2 (by simp [← split])
    obtain ⟨l, h₂, run, next⟩ := built.step acyclic closed fresh (ok e.1 e.2 stored)
    obtain ⟨m', h₃, tail, done'⟩ := ih (done ++ [e]) _ h₂ (by simpa using split) next
    refine ⟨m', h₃, ?_, done'⟩
    simp only [List.foldlM_cons, run, Option.bind_eq_bind, Option.bind_some]
    exact tail

end Hosts

theorem getHostsVariable_built {h : Heap} (acyclic : h.Acyclic) (closed : h.Closed) (localIP : String → String)
    (val : Value) (ok : ∀ name hv, val.hosts.get? name = some hv → hv.Ok h) :
    ∃ m h', getHostsVariable localIP val h = some (m, h') ∧ HostsBuilt h localIP val val.hosts.entries m h' := by
  have start : HostsBuilt h localIP val [] .empty h :=
    ⟨Heap.Grows.refl h, closed, by simp, by simp, fun _ _ => rfl⟩
  exact HostsBuilt.run acyclic closed ok val.hosts.entries [] .empty h rfl start

/-- A store in `h` as the code builds it: no dangling reference, no cycle, groups that expand. -/
structure Value.Ok (h : Heap) (val : Value) : Prop where
  closed : h.Closed
  acyclic : h.Acyclic
  hosts : ∀ name hv, val.hosts.get? name = some hv → hv.Ok h
  resultBelow : val.result.Below h.size
  resultMap : IsMap h val.result
  expands : (convertGroup val.inventory).isSome

/-- `l` holds what `GetAllVariable` returns for a host of the store in `h`, or for a name that is none. -/
structure IsContext (h : Heap) (localIP : String → String) (val : Value) (hostname : String) (l : Nat) (h' : Heap) :
    Prop where
  grows : Heap.Grows h h'
  newest : NewestMap h' l
  fresh : h.size ≤ l
  view : ∀ hv, val.hosts.get? hostname = some hv → ∀ k p, ¬ Reserved k → k ≠ variableGroups →
    h'.view (.ref l) (.key k :: p) =
      hostView localIP val hostname (h.view hv.remoteVars) (h.view hv.runtimeVars) (.key k :: p)
  children : ∀ hv, val.hosts.get? hostname = some hv → ∀ label, hv.Labelled h label →
    ∃ label', SameBelow h.size label label' ∧ ChildrenLabelled (fun k => ¬ Reserved k) label' h' (.ref l)
  unknown : val.hosts.get? hostname = none → ∀ k, h'.child (.ref l) (.key k) = none

/-- A map with one entry, on the heap. -/
theorem singleton_map {h : Heap} (closed : h.Closed) (k : String) {v : Val} (below : v.Below h.size) :
    let h' := (h.alloc (.map .any (GoMap.empty.put k v))).2
    Heap.Grows h h' ∧ h'.Closed ∧ IsMap h' (.ref h.size) ∧ ∀ k', k' ≠ k → h'.child (.ref h.size) (.key k') = none := by
  have object : (Obj.map .any (GoMap.empty.put k v)).Below h.size := by
    intro s c step
    cases s with
    | idx i => simp [Obj.child] at step
    | key k' =>
      simp only [Obj.child, GoMap.get?_put, GoMap.get?_empty] at step
      split at step
      · cases step
        exact below
      · cases step
  refine ⟨Heap.grows_alloc object, closed.alloc (object.mono (Nat.le_succ _)), ⟨GoMap.empty.put k v, ?_⟩, ?_⟩
  · simp only [asMap, Heap.get?_alloc_new]
  · intro k' other
    rw [Heap.child_ref (Heap.get?_alloc_new _)]
    simp [Obj.child, GoMap.get?_put, other]

/-- The built-in `hostvars`, merged over the variables of the host. -/
theorem HostBuilt.hostvars {h h₁ h₂ : Heap} {localIP : String → String} {val : Value} {hostname : String} {hv : HostVars}
    {l : Nat} (built : HostBuilt h localIP val hostname hv l h₁) (acyclic : h₁.Acyclic) (closed : h₁.Closed)
    (before : Heap.Grows h h₁) (grows : Heap.Grows h₁ h₂) (closed₂ : h₂.Closed) {v : Val} (below : v.Below h₂.size)
    (map : IsMap h₂ v) (only : ∀ k, k ≠ variableGlobalHosts → h₂.child v (.key k) = none) :
    ∃ l' h₃, combineVariables (.ref l) v h₂ = some (.ref l', h₃) ∧
      Built h (fun k => ¬ Reserved k) (hv.Labelled h)
        (overlay (hostView localIP val hostname (h.view hv.remoteVars) (h.view hv.runtimeVars)) (h₂.view v)) l' h₃ := by
  have later := built.grows closed grows
  have bound : (Val.ref l).Below h₂.size := later.bound
  have depth : DepthLt h₂ v h₂.size := fun _ _ reached =>
    (acyclic.grows closed grows).length_lt closed₂ below reached
  obtain ⟨⟨r, h₃⟩, run⟩ := Option.isSome_iff_exists.1
    (combineVariables_isSome closed₂ bound below later.map map depth)
  obtain ⟨l', rfl, combined⟩ := combineVariables_combined closed₂ bound below later.map map run
  have root : h₂.view v [] = some .map := isMap_iff_shape.1 map
  refine ⟨l', h₃, run, (before.trans grows).trans combined.grows, combined.newest, ?_, overlay_root root, ?_, ?_⟩
  · exact Nat.le_trans (before.trans grows).size_le combined.fresh
  · intro k p notReserved
    rw [combined.view]
    refine overlay_key root root ?_ rfl
    funext q
    exact later.view k q fun same => notReserved (Or.inr same)
  · intro label labelled
    obtain ⟨label', same, children⟩ := later.children label labelled
    have lower : ChildrenLabelled (fun k => ¬ Reserved k) label' h₂ (.ref l) :=
      fun k c notReserved step => children k c (fun same => notReserved (Or.inr same)) step
    have upper : ChildrenLabelled (fun k => ¬ Reserved k) label' h₂ v := fun k c notReserved step => by
      rw [only k fun same => notReserved (Or.inl same)] at step
      cases step
    obtain ⟨label'', same', children'⟩ := combined.children _ label' lower upper
    exact ⟨label'', same.trans same' (before.trans grows).size_le, children'⟩

/-- A key that the upper map does not have. -/
theorem overlay_key_absent {a b : DeepView} (root : b [] = some .map) {k : String} (absent : ∀ q, b (.key k :: q) = none)
    (p : Path) : overlay a b (.key k :: p) = a (.key k :: p) := by
  have upper : b.sub (.key k) = fun _ => none := funext absent
  have undecided : b.decides Shape.opens (.key k :: p) = false := by
    rw [View.decides_cons_open root rfl, upper, View.decides_empty]
  exact View.overlay_of_not_decides undecided

/-- `GetAllVariable` returns, and returns the context of the host. -/
theorem getAllVariable_built {h : Heap} {val : Value} (ok : val.Ok h) (localIP : String → String) (hostname : String) :
    ∃ l h', getAllVariable localIP val hostname h = some (.ref l, h') ∧
      IsContext h localIP val hostname l h' := by
  have closed := ok.closed
  have acyclic := ok.acyclic
  obtain ⟨groups, expanded⟩ := Option.isSome_iff_exists.1 ok.expands
  obtain ⟨m, h₁, run₁, hosts⟩ := getHostsVariable_built acyclic closed localIP val ok.hosts
  have hostsObject : (Obj.map .any m).Below h₁.size := by
    intro s c step
    cases s with
    | idx i => simp [Obj.child] at step
    | key k => exact hosts.below k c step
  have grows₂ := Heap.grows_alloc hostsObject
  have closed₂ := hosts.closed.alloc (hostsObject.mono (Nat.le_succ _))
  simp only [getAllVariable, run₁, Option.bind_eq_bind, Option.bind_some, expanded]
  cases known : val.hosts.get? hostname with
  | none =>
    have absent : m.get? hostname = none := by
      apply hosts.others
      intro member
      have found := GoMap.get?_isSome_iff.2 member
      simp [known] at found
    have empty : Built (h₁.alloc (.map .any m)).2 (fun _ => True) (fun _ => True) baseView _ _ := built_empty closed₂
    refine ⟨_, _, by rw [absent]; rfl, (hosts.grows.trans grows₂).trans empty.grows, empty.newest, ?_, ?_, ?_, ?_⟩
    · exact (hosts.grows.trans grows₂).size_le
    · intro hv stored
      rw [known] at stored
      cases stored
    · intro hv stored
      rw [known] at stored
      cases stored
    · intro _ k
      rw [Heap.child_ref (Heap.get?_alloc_new _)]
      rfl
  | some hv =>
    obtain ⟨l, stored, host⟩ := hosts.host (hostname, hv) (GoMap.get?_eq_some_iff.1 known)
    have hostsBelow : (Val.ref h₁.size).Below (h₁.alloc (.map .any m)).2.size := by simp [Val.Below]
    obtain ⟨grows₃, closed₃, map₃, only₃⟩ := singleton_map closed₂ variableGlobalHosts hostsBelow
    obtain ⟨l₄, h₄, run₄, built₄⟩ := host.hostvars (acyclic.grows closed hosts.grows) hosts.closed hosts.grows
      (grows₂.trans grows₃) closed₃ (by simp [Val.Below]) map₃ only₃
    have placed := Lit.alloc_placed (.map .any [(variableGroups, groupsLit groups)]) h₄ built₄.newest.heapClosed
    obtain ⟨l₅, h₅, run₅, built₅⟩ := built₄.combine acyclic closed (Layer.placed placed rfl) rfl
    refine ⟨l₅, h₅, ?_, built₅.grows, built₅.newest, built₅.fresh, ?_, ?_, ?_⟩
    · simp only [stored, Heap.loc_alloc, run₄, Option.bind_some]
      exact run₅
    · intro hv' stored' k p notReserved notGroups
      rw [known] at stored'
      cases stored'
      rw [built₅.view k p notReserved, overlay_key_absent rfl, overlay_key_absent (isMap_iff_shape.1 map₃)]
      · intro q
        rw [Heap.view_cons, only₃ k fun same => notReserved (Or.inl same)]
        rfl
      · intro q
        simp [Lit.view, Lit.child, GoMap.ofList, GoMap.get?_put, notGroups]
    · intro hv' stored' label labelled
      rw [known] at stored'
      cases stored'
      exact built₅.children label labelled
    · intro nobody
      rw [known] at nobody
      cases nobody

end KubeKey.Variable
