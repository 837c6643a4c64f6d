import KubeKey.Variable.Reachable

/-!
# The precedence of variables

`docs/zh/201-variable.md` and the comment on `InventorySpec.Vars` put dynamic
variables over static ones, and among the static ones the configuration over the
host's variables over group variables over the inventory's variables. The fold of
`getHostsVariable` takes group, remote and runtime variables below the inventory's,
so it gives the documented value only where these do not meet (`Undisputed`).

The names that the code generates itself are not variables of a layer.
-/

namespace KubeKey.Variable

open KubeKey.Go

/-- The names that `GetAllVariable` sets itself. -/
def SystemName (k : String) : Prop := k = variableGlobalHosts ∨ k = variableHostName ∨ k = variableGroups

/-- The variables of the groups that list the host, in the order of the loop. -/
def groupLayers (val : Value) (hostname : String) : List DeepView :=
  (val.inventory.groups.entries.filter fun g => hostname ∈ g.2.hosts).map fun g => g.2.vars.view

/-- The host's variables in the inventory, below the configuration. -/
def ownLayers (val : Value) (hostname : String) : List DeepView :=
  [((val.inventory.hosts.get? hostname).getD .empty).view, val.config.view]

/-- Some layer defines the path: it holds a value there, or one on the way that hides it. -/
abbrev defines (layers : List DeepView) (p : Path) : Bool := View.anyDecides Shape.opens layers p

theorem defines_append (lower upper : List DeepView) (p : Path) :
    defines (lower ++ upper) p = (defines lower p || defines upper p) := List.any_append

theorem layered_append (lower upper : List DeepView) (p : Path) :
    layered (lower ++ upper) p = if defines upper p then layered upper p else layered lower p :=
  View.stack_append lower upper p

section Defaults
variable {base : DeepView} {layers : List DeepView} {p : Path}

/-- A path that is defined only by values found there has a value. -/
theorem stack_isSome (found : ∀ a ∈ layers, a.decides Shape.opens p = true → (a p).isSome)
    (defined : defines layers p = true) : (View.stack Shape.opens base layers p).isSome := by
  induction layers generalizing base with
  | nil => cases defined
  | cons a layers ih =>
    cases later : defines layers p with
    | true => exact ih (fun b member => found b (by simp [member])) later
    | false =>
      have here : a.decides Shape.opens p = true := by
        rw [show a :: layers = [a] ++ layers from rfl, defines_append, later, Bool.or_false] at defined
        simpa [View.anyDecides] using defined
      show (View.stack Shape.opens (View.overlay Shape.opens base a) layers p).isSome
      rw [View.stack_of_not_anyDecides later, View.overlay_of_decides here]
      exact found a (by simp) here

end Defaults

theorem rawExtension_prefixClosed (ext : RawExtension) : ext.view.PrefixClosed := by
  cases ext <;> exact Lit.view_prefixClosed _

/-- What is known of every layer of a host. -/
theorem hostLayers_wellFormed (val : Value) (hostname : String) {h : Heap} {hv : HostVars} (ok : hv.Ok h) :
    ∀ a ∈ hostLayers val hostname (h.view hv.remoteVars) (h.view hv.runtimeVars),
      a.PrefixClosed ∧ a [] = some .map := by
  intro a member
  rcases List.mem_append.1 member with group | other
  · obtain ⟨g, _, rfl⟩ := List.mem_map.1 group
    exact ⟨rawExtension_prefixClosed _, rawExtension_root _⟩
  · simp only [List.mem_cons, List.not_mem_nil, or_false] at other
    rcases other with rfl | rfl | rfl | rfl | rfl
    · exact ⟨Heap.view_prefixClosed h _, isMap_iff_shape.1 ok.remoteMap⟩
    · exact ⟨Heap.view_prefixClosed h _, isMap_iff_shape.1 ok.runtimeMap⟩
    all_goals exact ⟨rawExtension_prefixClosed _, rawExtension_root _⟩

/-- The defaults do not show where a layer defines a variable. -/
theorem hostView_of_defined (localIP : String → String) (val : Value) (hostname : String) {h : Heap} {hv : HostVars}
    (ok : hv.Ok h) {k : String} {p : Path}
    (defined : defines (hostLayers val hostname (h.view hv.remoteVars) (h.view hv.runtimeVars)) (.key k :: p) = true) :
    hostView localIP val hostname (h.view hv.remoteVars) (h.view hv.runtimeVars) (.key k :: p) =
      layered (hostLayers val hostname (h.view hv.remoteVars) (h.view hv.runtimeVars)) (.key k :: p) := by
  have wellFormed := hostLayers_wellFormed val hostname ok
  rw [hostView]
  generalize hostLayers val hostname (h.view hv.remoteVars) (h.view hv.runtimeVars) = layers at *
  cases decided : (layered layers).decides Shape.opens (.key k :: p) with
  | true => exact View.overlay_of_decides decided
  | false =>
    have closed : (layered layers).PrefixClosed :=
      View.PrefixClosed.stack (Lit.view_prefixClosed _) fun a member => (wellFormed a member).1
    have absent : layered layers (.key k :: p) = none := View.none_of_not_decides closed decided
    rw [overlay, View.overlay_of_not_decides decided, absent]
    cases p with
    | cons s p => rfl
    | nil =>
      -- a layer that defines a name holds a value under it
      have found : ∀ a ∈ layers, a.decides Shape.opens [.key k] = true → (a [.key k]).isSome := by
        intro a member decides
        rwa [View.decides_cons_open (wellFormed a member).2 rfl] at decides
      have held : (layered layers [.key k]).isSome := stack_isSome found defined
      rw [absent] at held
      cases held

/-- A host whose group and whose inventory set the same variable. -/
def disputedInventory : InventorySpec where
  hosts := GoMap.empty.put "node1" .empty
  vars := .object [("x", .scalar (.str "global"))]
  groups := GoMap.empty.put "workers" ⟨[], ["node1"], .object [("x", .scalar (.str "group"))]⟩

/-- What `New` makes of it. -/
def disputedStore : Store where
  heap := ⟨List.replicate 4 (.map .any .empty)⟩
  value := ⟨.empty, disputedInventory, (GoMap.empty.put "node1" ⟨.ref 0, .ref 1⟩).put "localhost" ⟨.ref 2, .ref 3⟩,
    .nilMap .any⟩
  source := .memory .empty

end KubeKey.Variable
