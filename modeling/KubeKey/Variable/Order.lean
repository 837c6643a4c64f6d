import KubeKey.Go.Range
import KubeKey.Variable.Context

/-!
# `GetAllVariable` in any order

The functions of `pkg/variable/variable_get.go` and `pkg/variable/helper.go` once
more, with every `range` over a map free to visit its entries in any order. A run
is a relation between the arguments and what is returned. The orders of the loops
over hosts and groups are given by `Orders`, one for each loop that is run; each
`range` of `CombineVariables` over a map of variables takes an order of its own.

`getAllVariable` is the run that takes every map in the order of its list
(`getAllVariable_run`). A merge gives the same deep value in every order
(`combineVariables_combined`).

A map that the code copies entry by entry is the map itself here, since nothing
but `range` tells two lists of the same entries apart.
-/

namespace KubeKey.Variable

open KubeKey.Go

namespace AnyOrder

/-- `mergedVars[k] = f(mergedVars[k], v)`. -/
def CombineEntry (f : Val → Val → Heap → Val × Heap → Prop) (acc : GoMap Val × Heap) (e : String × Val)
    (out : GoMap Val × Heap) : Prop :=
  ∃ v h, f ((acc.1.get? e.1).getD .null) e.2 acc.2 (v, h) ∧ out = (acc.1.put e.1 v, h)

/-- The runs of the closure `f` of `CombineVariables` that recurse at most `fuel` deep. -/
def CombineVal : Nat → Val → Val → Heap → Val × Heap → Prop
  | 0, _, _, _, _ => False
  | fuel + 1, val1, val2, h, out =>
    match asMap h val1, asMap h val2 with
    | some m1, some m2 => ∃ es mergedVars h', m2.Visits es ∧
        Loop (CombineEntry (CombineVal fuel)) es (m1, h) (mergedVars, h') ∧
        out = (.ref h'.size, (h'.alloc (.map .any mergedVars)).2)
    | _, _ => out = (val2, h)

/-- `CombineVariables(m1, m2)`. -/
def CombineVariables (m1 m2 : Val) (h : Heap) (out : Val × Heap) : Prop :=
  ∃ fuel es mv h', ((asMap h m2).getD .empty).Visits es ∧
    Loop (CombineEntry (CombineVal fuel)) es ((asMap h m1).getD .empty, h) (mv, h') ∧
    out = (.ref h'.size, (h'.alloc (.map .any mv)).2)

/-- Merge the variables of an extension over `hostVars`. -/
def CombineExtension (ext : RawExtension) (hostVars : Val) (h : Heap) (out : Val × Heap) : Prop :=
  CombineVariables hostVars (extension2Variables ext h).1 (extension2Variables ext h).2 out

/-- The layers of one host, the groups in the order `gs`. -/
def CombineLayers (val : Value) (gs : List (String × InventoryGroup)) (hostname : String) (hv : HostVars) (h : Heap)
    (out : Val × Heap) : Prop :=
  ∃ s : Val × Heap,
    Loop (fun (acc : Val × Heap) (g : String × InventoryGroup) acc' =>
      if hostname ∈ g.2.hosts then CombineExtension g.2.vars acc.1 acc.2 acc' else acc' = acc) gs
      (.ref h.size, (h.alloc (.map .any .empty)).2) s ∧
    ∃ s' : Val × Heap, CombineVariables s.1 hv.remoteVars s.2 s' ∧
    ∃ s : Val × Heap, CombineVariables s'.1 hv.runtimeVars s'.2 s ∧
    ∃ s' : Val × Heap, CombineExtension val.inventory.vars s.1 s.2 s' ∧
    ∃ s : Val × Heap, CombineExtension ((val.inventory.hosts.get? hostname).getD .empty) s'.1 s'.2 s ∧
    CombineExtension val.config s.1 s.2 out

/-- The variables of one host, with the defaults filled in. -/
def HostVariable (localIP : String → String) (val : Value) (gs : List (String × InventoryGroup)) (hostname : String)
    (hv : HostVars) (h : Heap) (out : Val × Heap) : Prop :=
  ∃ s, CombineLayers val gs hostname hv h s ∧
    ∃ l, s.1 = .ref l ∧ out = (.ref l, defaultHostVariable localIP hostname l s.2)

end AnyOrder

/-- The orders in which one call of `GetAllVariable` visits hosts and groups. -/
structure Orders where
  /-- `range v.value.Hosts`. -/
  hosts : List (String × HostVars)
  /-- `range v.value.Inventory.Spec.Groups`, in the round of each host. -/
  groups : String → List (String × InventoryGroup)
  /-- `range inv.Spec.Hosts` in `ConvertGroup`. -/
  all : List (String × RawExtension)
  /-- `range inv.Spec.Groups` in `ConvertGroup`. -/
  names : List (String × InventoryGroup)

/-- The orders that a call may take. -/
structure Orders.Of (val : Value) (orders : Orders) : Prop where
  hosts : val.hosts.Visits orders.hosts
  groups : ∀ hostname, val.inventory.groups.Visits (orders.groups hostname)
  all : val.inventory.hosts.Visits orders.all
  names : val.inventory.groups.Visits orders.names

/-- The order of the lists that stand for the maps. -/
def Orders.listed (val : Value) : Orders :=
  ⟨val.hosts.entries, fun _ => val.inventory.groups.entries, val.inventory.hosts.entries, val.inventory.groups.entries⟩

theorem Orders.listed_of (val : Value) : (Orders.listed val).Of val :=
  ⟨GoMap.Visits.entries _, fun _ => GoMap.Visits.entries _, GoMap.Visits.entries _, GoMap.Visits.entries _⟩

/-- `ConvertGroup`, the hosts and the groups in the orders given. -/
def convertGroupIn (inv : InventorySpec) (hosts groupNames : List String) : Option (GoMap (List String)) := do
  let all := if variableLocalHost ∈ hosts then hosts else hosts ++ [variableLocalHost]
  let (groups, ungrouped) ← groupNames.foldlM (convertGroupStep inv) (GoMap.empty.put variableGroupsAll all, hosts)
  some (groups.put variableUnGrouped ungrouped)

namespace AnyOrder

/-- The closure `getHostsVariable`: `globalHosts`. -/
def GetHostsVariable (localIP : String → String) (val : Value) (orders : Orders) (h : Heap) (out : GoMap Val × Heap) :
    Prop :=
  Loop (fun (acc : GoMap Val × Heap) (e : String × HostVars) acc' =>
    ∃ s, HostVariable localIP val (orders.groups e.1) e.1 e.2 acc.2 s ∧ acc' = (acc.1.put e.1 s.1, s.2))
    orders.hosts (.empty, h) out

/-- `GetAllVariable(hostname)`, once `getHostsVariable` has returned `globalHosts`. -/
def FinishVariable (val : Value) (orders : Orders) (hostname : String) (globalHosts : GoMap Val) (h : Heap)
    (out : Val × Heap) : Prop :=
  let hosts := h.alloc (.map .any globalHosts)
  match globalHosts.get? hostname with
  | none => out = (.ref hosts.2.size, (hosts.2.alloc (.map .any .empty)).2)
  | some hostVars => ∃ s,
      CombineVariables hostVars (.ref hosts.2.size)
        (hosts.2.alloc (.map .any (GoMap.empty.put variableGlobalHosts (.ref hosts.1)))).2 s ∧
      ∃ groups, convertGroupIn val.inventory (orders.all.map Prod.fst) (orders.names.map Prod.fst) = some groups ∧
      CombineVariables s.1 ((Lit.map .any [(variableGroups, groupsLit groups)]).alloc s.2).1
        ((Lit.map .any [(variableGroups, groupsLit groups)]).alloc s.2).2 out

/-- `GetAllVariable(hostname)`. -/
def GetAllVariable (localIP : String → String) (val : Value) (orders : Orders) (hostname : String) (h : Heap)
    (out : Val × Heap) : Prop :=
  ∃ s, GetHostsVariable localIP val orders h s ∧ FinishVariable val orders hostname s.1 s.2 out

end AnyOrder

/-- A value that is a map is a `map[string]any`. -/
def AnyMap (h : Heap) (v : Val) : Prop := IsMap h v → (asAnyMap h v).isSome

/-- The entry of `k` is a `map[string]any` if it is a map. -/
def AnyMapAt (k : String) (h : Heap) (v : Val) : Prop := ∀ c, h.child v (.key k) = some c → AnyMap h c

theorem asAnyMap_agree {b : Nat} {h h' : Heap} (agree : Heap.AgreeBelow b h h') {v : Val} (below : v.Below b) :
    asAnyMap h' v = asAnyMap h v := by
  cases v with
  | ref l => simp only [asAnyMap, agree l below]
  | nilMap t => cases t <;> rfl
  | scalar s => rfl
  | nilSlice t => rfl

theorem AnyMap.agree {b : Nat} {h h' : Heap} (agree : Heap.AgreeBelow b h h') {v : Val} (below : v.Below b)
    (any : AnyMap h v) : AnyMap h' v := by
  intro map
  rw [asAnyMap_agree agree below]
  rw [isMap_iff_shape, Heap.shape_agree agree below] at map
  exact any (isMap_iff_shape.2 map)

theorem AnyMapAt.grows {k : String} {h h' : Heap} {v : Val} (any : AnyMapAt k h v) (closed : h.Closed)
    (grows : Heap.Grows h h') (below : v.Below h.size) : AnyMapAt k h' v := by
  intro c step
  rw [Heap.child_agree grows.agree below] at step
  exact (any c step).agree grows.agree (Heap.child_below closed.below below step)

namespace AnyOrder

/-- What is known of the runs of `f` on smaller fuel. -/
def Combines (f : Val → Val → Heap → Val × Heap → Prop) : Prop :=
  ∀ h v1 v2 v h', h.Closed → v1.Below h.size → v2.Below h.size → f v1 v2 h (v, h') →
    Combined h v1 v2 v h' ∧ (AnyMap h v2 → AnyMap h' v)

section Merging
variable {f : Val → Val → Heap → Val × Heap → Prop} {h h' : Heap} {m1 m2 m : GoMap Val} {es : List (String × Val)}

/-- The accumulator of the merging loop after the entries `done`. -/
structure Merged (h : Heap) (m1 m2 : GoMap Val) (done : List (String × Val)) (acc : GoMap Val × Heap) : Prop where
  folded : Folded h m1 m2 done acc.1 acc.2
  anyMap : ∀ k, (∀ c, m1.get? k = some c → AnyMap h c) → (∀ c, m2.get? k = some c → AnyMap h c) →
    ∀ c, acc.1.get? k = some c → AnyMap acc.2 c

theorem Merged.round (combines : Combines f) (closed : h.Closed) (lower : ∀ k c, m1.get? k = some c → c.Below h.size)
    {done : List (String × Val)} {acc acc' : GoMap Val × Heap} (merged : Merged h m1 m2 done acc) {e : String × Val}
    (fresh : done.lookup e.1 = none) (inside : m2.get? e.1 = some e.2) (below : e.2.Below h.size)
    (round : CombineEntry f acc e acc') : Merged h m1 m2 (done ++ [e]) acc' := by
  obtain ⟨v, h₂, call, rfl⟩ := round
  have folded := merged.folded
  obtain ⟨bound, _⟩ := folded.entry closed lower fresh
  obtain ⟨combined, any⟩ := combines acc.2 _ e.2 v h₂ folded.closed bound (below.mono folded.grows.size_le) call
  refine ⟨folded.put closed lower fresh inside below combined, fun k first second c stored => ?_⟩
  rw [GoMap.get?_put] at stored
  split at stored
  · next same =>
    cases stored
    exact any ((second e.2 (same ▸ inside)).agree folded.grows.agree below)
  · have old := merged.anyMap k first second c stored
    exact old.agree combined.grows.agree (folded.stored_below lower stored)

/-- The merging loop, whatever order it takes. -/
theorem Merged.run (combines : Combines f) (closed : h.Closed) (lower : ∀ k c, m1.get? k = some c → c.Below h.size)
    (upper : ∀ k c, m2.get? k = some c → c.Below h.size) (visits : m2.Visits es)
    (loop : Loop (CombineEntry f) es (m1, h) (m, h')) : Merged h m1 m2 m2.entries (m, h') := by
  have start : Merged h m1 m2 [] (m1, h) := ⟨Folded.start closed, fun _ first _ => first⟩
  have finished := loop.invariant (I := Merged h m1 m2) ?_ start
  · obtain ⟨folded, any⟩ := finished
    refine ⟨⟨folded.grows, folded.closed, fun k absent => folded.kept k ?_, fun k v2 found => folded.merged k v2 ?_,
      folded.labels⟩, any⟩
    · exact (visits.lookup k).trans absent
    · exact (visits.lookup k).trans found
  · intro done e rest acc acc' split merged round
    have inside : m2.get? e.1 = some e.2 := GoMap.get?_eq_some_iff.2 (visits.mem_iff.1 (by simp [← split]))
    have fresh : done.lookup e.1 = none := @lookup_done_none visits.reordered done rest e split
    exact merged.round combines closed lower fresh inside (upper _ _ inside) round

end Merging

theorem combineVal_combines (fuel : Nat) : Combines (CombineVal fuel) := by
  induction fuel with
  | zero =>
    intro h v1 v2 v h' _ _ _ run
    exact run.elim
  | succ fuel ih =>
    intro h v1 v2 v h' closed low high run
    simp only [CombineVal] at run
    split at run
    · next m1 m2 first second =>
      obtain ⟨es, m, h₁, visits, loop, out⟩ := run
      cases out
      have merged := Merged.run ih closed (fun _ _ => asMap_below closed low first)
        (fun _ _ => asMap_below closed high second) visits loop
      exact ⟨merged.folded.combined closed low first second, fun _ _ => by simp [asAnyMap]⟩
    · next other =>
      cases run
      refine ⟨⟨Heap.Grows.refl h, closed, high, (overlay_not_both high ?_).symm, fun label _ _ labelled =>
        ⟨label, SameBelow.refl _ _, labelled⟩⟩, id⟩
      cases first : asMap h v1 with
      | none => exact Or.inl rfl
      | some m1 =>
        cases second : asMap h v2 with
        | none => exact Or.inr rfl
        | some m2 => exact absurd second (other m1 m2 first)

/-- `CombineVariables` allocates a new map that holds the overlay. -/
theorem combineVariables_combined {h : Heap} {m1 m2 : Val} {out : Val × Heap} (closed : h.Closed)
    (low : m1.Below h.size) (high : m2.Below h.size) (first : IsMap h m1) (second : IsMap h m2)
    (run : CombineVariables m1 m2 h out) : ∃ l h', out = (.ref l, h') ∧ CombinedTop h m1 m2 l h' ∧
      ∀ k, AnyMapAt k h m1 → AnyMapAt k h m2 → AnyMapAt k h' (.ref l) := by
  obtain ⟨a, first⟩ := first
  obtain ⟨b, second⟩ := second
  obtain ⟨fuel, es, m, h', visits, loop, rfl⟩ := run
  simp only [first, second, Option.getD_some] at visits loop
  have merged := Merged.run (combineVal_combines fuel) closed (fun _ _ => asMap_below closed low first)
    (fun _ _ => asMap_below closed high second) visits loop
  refine ⟨h'.size, _, rfl, merged.folded.combinedTop closed low first second, fun k lower upper c step => ?_⟩
  have below := merged.folded.below closed low first
  rw [Heap.child_ref (Heap.get?_alloc_new _)] at step
  have any := merged.anyMap k (fun c stored => lower c ((asMap_child first k).trans stored))
    (fun c stored => upper c ((asMap_child second k).trans stored)) c step
  exact any.agree (Heap.grows_alloc below).agree (below (.key k) c step)

/-- The order of the lists is one that `CombineVariables` may take. -/
theorem combineVal_run (fuel : Nat) : ∀ {v1 v2 : Val} {h : Heap} {out : Val × Heap},
    combineVal fuel v1 v2 h = some out → CombineVal fuel v1 v2 h out := by
  induction fuel with
  | zero =>
    intro v1 v2 h out run
    simp [combineVal] at run
  | succ fuel ih =>
    intro v1 v2 h out run
    simp only [combineVal] at run
    simp only [CombineVal]
    cases first : asMap h v1 with
    | none =>
      rw [first] at run
      cases run
      rfl
    | some m1 =>
      cases second : asMap h v2 with
      | none =>
        rw [first, second] at run
        cases run
        rfl
      | some m2 =>
        rw [first, second] at run
        obtain ⟨⟨m, h₁⟩, loop, rest⟩ := Option.bind_eq_some_iff.1 run
        cases rest
        refine ⟨_, m, h₁, GoMap.Visits.entries _, Loop.ofFold ?_ loop, rfl⟩
        intro acc e acc' round
        obtain ⟨⟨v, h₂⟩, call, rest⟩ := Option.bind_eq_some_iff.1 round
        cases rest
        exact ⟨v, h₂, ih call, rfl⟩

theorem combineVariables_run {m1 m2 : Val} {h : Heap} {out : Val × Heap} (run : combineVariables m1 m2 h = some out) :
    CombineVariables m1 m2 h out := by
  obtain ⟨⟨m, h₁⟩, loop, rest⟩ := Option.bind_eq_some_iff.1 run
  cases rest
  refine ⟨h.size + 1, _, m, h₁, GoMap.Visits.entries _, Loop.ofFold ?_ loop, rfl⟩
  intro acc e acc' round
  obtain ⟨⟨v, h₂⟩, call, rest⟩ := Option.bind_eq_some_iff.1 round
  cases rest
  exact ⟨v, h₂, combineVal_run _ call, rfl⟩

theorem combineLayers_run {val : Value} {hostname : String} {hv : HostVars} {h : Heap} {out : Val × Heap}
    (run : combineLayers val hostname hv h = some out) :
    CombineLayers val val.inventory.groups.entries hostname hv h out := by
  obtain ⟨s₁, groups, run⟩ := Option.bind_eq_some_iff.1 run
  obtain ⟨s₂, remote, run⟩ := Option.bind_eq_some_iff.1 run
  obtain ⟨s₃, runtime, run⟩ := Option.bind_eq_some_iff.1 run
  obtain ⟨s₄, inventory, run⟩ := Option.bind_eq_some_iff.1 run
  obtain ⟨s₅, host, config⟩ := Option.bind_eq_some_iff.1 run
  refine ⟨s₁, Loop.ofFold ?_ groups, s₂, combineVariables_run remote, s₃, combineVariables_run runtime,
    s₄, combineVariables_run inventory, s₅, combineVariables_run host, combineVariables_run config⟩
  intro acc g acc' round
  split at round
  · next member =>
    rw [if_pos member]
    exact combineVariables_run round
  · next other =>
    rw [if_neg other]
    exact (Option.some.inj round).symm

theorem getHostsVariable_run {localIP : String → String} {val : Value} {h : Heap} {out : GoMap Val × Heap}
    (run : getHostsVariable localIP val h = some out) :
    GetHostsVariable localIP val (Orders.listed val) h out := by
  refine Loop.ofFold ?_ run
  intro acc e acc' round
  obtain ⟨s, host, rest⟩ := Option.bind_eq_some_iff.1 round
  cases rest
  obtain ⟨s', layers, named⟩ := Option.bind_eq_some_iff.1 host
  refine ⟨s, ⟨s', combineLayers_run layers, ?_⟩, rfl⟩
  obtain ⟨v, h'⟩ := s'
  cases v with
  | ref l => exact ⟨l, rfl, (Option.some.inj named).symm⟩
  | scalar x => cases named
  | nilMap t => cases named
  | nilSlice t => cases named

/-- `getAllVariable` is the run that takes every map in the order of its list. -/
theorem getAllVariable_run {localIP : String → String} {val : Value} {hostname : String} {h : Heap} {out : Val × Heap}
    (run : getAllVariable localIP val hostname h = some out) :
    GetAllVariable localIP val (Orders.listed val) hostname h out := by
  obtain ⟨s, hosts, run⟩ := Option.bind_eq_some_iff.1 run
  refine ⟨s, getHostsVariable_run hosts, ?_⟩
  simp only [FinishVariable]
  cases stored : s.1.get? hostname with
  | none =>
    simp only [stored] at run
    exact (Option.some.inj run).symm
  | some hostVars =>
    simp only [stored] at run
    obtain ⟨s', hostvars, run⟩ := Option.bind_eq_some_iff.1 run
    obtain ⟨groups, expanded, run⟩ := Option.bind_eq_some_iff.1 run
    exact ⟨s', combineVariables_run hostvars, groups, expanded, combineVariables_run run⟩

end AnyOrder

end KubeKey.Variable
