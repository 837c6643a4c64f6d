import KubeKey.Go.Selection
import KubeKey.Variable.Expansion
import KubeKey.Variable.PerHost

/-!
# `GetHostnames`

`pkg/variable/variable_get.go`, `pkg/executor/task_executor.go`. A play names its hosts by
patterns: the name of a host, of a group, of the host at an index of a group, or of some host
of a group. Each pattern adds to one list, the whole group without the hosts that are there
already, the others without looking. `ConvertGroup` is called for each pattern, and each call
visits the maps of the inventory in an order of its own.
-/

namespace KubeKey.Variable

open KubeKey.Go

/-- `unicode.IsSpace`. -/
def isSpace (c : Char) : Bool :=
  c ∈ ['\t', '\n', '\x0b', '\x0c', '\r', ' ', '\u0085', '\u00a0', '\u1680', '\u2028', '\u2029', '\u202f', '\u205f',
    '\u3000'] || ('\u2000' ≤ c && c ≤ '\u200a')

/-- `strings.TrimSpace`, in characters. -/
def trimSpace (s : String) : List Char := ((s.toList.dropWhile isSpace).reverse.dropWhile isSpace).reverse

/-- The submatches of `^(.*?)\[(\d+)\]$`. -/
def matchIndex (cs : List Char) : Option (String × String) :=
  match cs.reverse with
  | ']' :: cs =>
    match cs.takeWhile Char.isDigit, cs.dropWhile Char.isDigit with
    | d :: ds, '[' :: name =>
      if '\n' ∈ name then none else some (String.ofList name.reverse, String.ofList (d :: ds).reverse)
    | _, _ => none
  | _ => none

/-- `\s` of a regular expression. -/
def isBlank (c : Char) : Bool := c ∈ ['\t', '\n', '\x0c', '\r', ' ']

/-- `\s*\|\s*random$`. -/
def isRandom (cs : List Char) : Bool :=
  match cs.dropWhile isBlank with
  | '|' :: cs => cs.dropWhile isBlank = "random".toList
  | _ => false

/-- The submatch of `^(.+?)\s*\|\s*random$`: the shortest name that leaves the rest. -/
def matchRandom : List Char → Option (List Char)
  | [] => none
  | c :: cs =>
    if c = '\n' then none
    else if isRandom cs then some [c]
    else (matchRandom cs).map (c :: ·)

/-- How `GetHostnames` may end without a list. -/
inductive NameFault where
  | error (msg : String)
  | panic
  | diverge
deriving DecidableEq, Repr

/-- The error of an index that `strconv.Atoi` does not take. -/
def convertError (digits : String) : NameFault :=
  .error ("failed to convert \"" ++ digits ++ "\" to int: strconv.Atoi: parsing \"" ++ digits ++ "\": value out of range")

/-- The error of an index that the group does not have. -/
def rangeError (index : Nat) (group : List String) : NameFault :=
  .error ("index " ++ toString index ++ " out of range for group [" ++ " ".intercalate group ++ "]")

/-- What one pattern meets: the orders of the maps in the three calls of `ConvertGroup`, and the number drawn. -/
structure PatternCalls where
  named : GroupOrder
  indexed : GroupOrder
  random : GroupOrder
  drawn : Nat

/-- The orders that one pattern may meet. -/
structure PatternCalls.Of (inv : InventorySpec) (calls : PatternCalls) : Prop where
  named : calls.named.Of inv
  indexed : calls.indexed.Of inv
  random : calls.random.Of inv

/-- The template of a name is rendered with the configuration; a name that does not render stays. -/
def resolveName (env : Env) (val : Value) (n : String) : String :=
  if isTmplSyntax n then
    match env.render val.config.view n with
    | .ok pn => pn
    | .error _ => n
  else n

/-- `ConvertGroup`, which may not return. -/
def expandGroups (inv : InventorySpec) (order : GroupOrder) : Except NameFault (GoMap (List String)) :=
  match convertGroupIn inv order.hosts order.names with
  | some groups => .ok groups
  | none => .error .diverge

/-- A name that is a host. -/
def addDirect (val : Value) (n : String) (hs : List String) : List String :=
  if (val.hosts.get? n).isSome then hs ++ [n] else hs

/-- A name that is a group. -/
def addGroup (groups : GoMap (List String)) (n : String) (hs : List String) : List String :=
  match groups.get? n with
  | some gv => combineSlice hs gv
  | none => hs

/-- `group[index]`, if there is such a group. -/
def takeIndex (index : Nat) (hs : List String) : Option (List String) → Except NameFault (List String)
  | none => .ok hs
  | some group =>
    match group[index]? with
    | none => .error (rangeError index group)
    | some h => .ok (hs ++ [h])

/-- `group[rand.Intn(len(group))]`. `rand.Intn` gives any number below its argument, and panics if there is none. -/
def takeRandom (drawn : Nat) (hs : List String) : Option (List String) → Except NameFault (List String)
  | none => .ok hs
  | some group =>
    match group[drawn % group.length]? with
    | none => .error .panic
    | some h => .ok (hs ++ [h])

/-- A name that is the index of a group. -/
def addIndexed (inv : InventorySpec) (order : GroupOrder) (n : String) (hs : List String) :
    Except NameFault (List String) :=
  match matchIndex (trimSpace n) with
  | none => .ok hs
  | some (groupName, digits) =>
    match atoi digits with
    | none => .error (convertError digits)
    | some index => do
      let groups ← expandGroups inv order
      takeIndex index.toNat hs (groups.get? groupName)

/-- A name that is a draw from a group. -/
def addRandom (inv : InventorySpec) (order : GroupOrder) (drawn : Nat) (n : String) (hs : List String) :
    Except NameFault (List String) :=
  match matchRandom (trimSpace n) with
  | none => .ok hs
  | some groupName => do
    let groups ← expandGroups inv order
    takeRandom drawn hs (groups.get? (String.ofList groupName))

/-- One round of the loop of `GetHostnames`, on the name that is resolved. -/
def addName (val : Value) (calls : PatternCalls) (n : String) (hs : List String) : Except NameFault (List String) := do
  let hs := addDirect val n hs
  let groups ← expandGroups val.inventory calls.named
  let hs ← addIndexed val.inventory calls.indexed n (addGroup groups n hs)
  addRandom val.inventory calls.random calls.drawn n hs

/-- The loop of `GetHostnames`, from the hosts so far. -/
def addNames (env : Env) (val : Value) : List (String × PatternCalls) → List String → Except NameFault (List String)
  | [], hs => .ok hs
  | (n, calls) :: rest, hs => do
    let hs ← addName val calls (resolveName env val n) hs
    addNames env val rest hs

/-- `GetHostnames(name)` for a list of names that is not empty. -/
def getHostnames (env : Env) (val : Value) (names : List (String × PatternCalls)) : Except NameFault (List String) :=
  addNames env val names []

/-- `GetHostMaxLength`: the length of the longest host name in bytes. -/
def getHostMaxLength (val : Value) : Nat := val.hosts.keys.foldl (fun m k => max k.utf8ByteSize m) 0

/-- `strings.Repeat(" ", count)`, which panics on a negative count. -/
def repeatSpace (count : Int) : Option String :=
  if count < 0 then none else some (String.ofList (List.replicate count.toNat ' '))

/-- The placeholder of `execTaskHostLogs`, `none` where it panics. -/
def execTaskHostLogs (val : Value) (h : String) : Option String :=
  repeatSpace ((getHostMaxLength val : Int) - h.utf8ByteSize)

/-! ## What a pattern picks -/

/-- The names of groups that `ConvertGroup` gives. -/
def groupNames (inv : InventorySpec) : List String := variableUnGrouped :: variableGroupsAll :: inv.groups.keys

/-- The host itself. -/
def directPick (val : Value) (n : String) : List (Pick String) :=
  if (val.hosts.get? n).isSome then [⟨false, {[n]}⟩] else []

/-- All hosts of a group. -/
def groupPick (inv : InventorySpec) (n : String) : List (Pick String) :=
  if n ∈ groupNames inv then [⟨true, expansions inv n⟩] else []

/-- The host at an index of a group. -/
def indexPick (inv : InventorySpec) (n : String) : List (Pick String) :=
  match matchIndex (trimSpace n) with
  | none => []
  | some (groupName, digits) =>
    match atoi digits with
    | none => []
    | some index =>
      if groupName ∈ groupNames inv then
        [⟨false, {o | ∃ gv ∈ expansions inv groupName, ∃ h, gv[index.toNat]? = some h ∧ o = [h]}⟩]
      else []

/-- Some host of a group. -/
def randomPick (inv : InventorySpec) (n : String) : List (Pick String) :=
  match matchRandom (trimSpace n) with
  | none => []
  | some groupName =>
    if String.ofList groupName ∈ groupNames inv then
      [⟨false, {o | ∃ gv ∈ expansions inv (String.ofList groupName), ∃ h ∈ gv, o = [h]}⟩]
    else []

/-- What the patterns add to the list of hosts, in turn. -/
def namePicks (val : Value) (n : String) : List (Pick String) :=
  directPick val n ++ (groupPick val.inventory n ++ (indexPick val.inventory n ++ randomPick val.inventory n))

/-- The index of the pattern is no index of its group. -/
def IndexFails (inv : InventorySpec) (n : String) : Prop :=
  ∃ groupName digits, matchIndex (trimSpace n) = some (groupName, digits) ∧
    (atoi digits = none ∨ ∃ index group, atoi digits = some index ∧ group ∈ expansions inv groupName ∧
      group.length ≤ index.toNat)

/-- The pattern draws from a group without hosts. -/
def DrawsNone (inv : InventorySpec) (n : String) : Prop :=
  ∃ groupName, matchRandom (trimSpace n) = some groupName ∧ [] ∈ expansions inv (String.ofList groupName)

section Expanded
variable {inv : InventorySpec}

theorem combineSlice_combines : Combines combineSlice :=
  ⟨nodup_combineSlice, fun _ _ _ => mem_combineSlice⟩

theorem groupEntry_isSome_iff {hosts : List String} {k : String} :
    (groupEntry inv hosts k).isSome ↔ k ∈ groupNames inv := by
  unfold groupEntry groupNames
  by_cases ungrouped : k = variableUnGrouped
  · simp [ungrouped]
  · by_cases inside : k ∈ inv.groups.keys
    · simp [ungrouped, inside]
    · rw [if_neg ungrouped, if_neg inside]
      by_cases all : k = variableGroupsAll
      · simp [all]
      · simp [ungrouped, inside, all]

/-- A call of `ConvertGroup`, and what it may give for a name. -/
theorem expandGroups_spec (acyclic : AcyclicGroups inv) {order : GroupOrder} (of : order.Of inv) :
    ∃ groups, expandGroups inv order = .ok groups ∧
      (∀ k, (groups.get? k).isSome ↔ k ∈ groupNames inv) ∧
      (∀ k gv, groups.get? k = some gv → gv ∈ expansions inv k) ∧
      ∀ k gv gv', groups.get? k = some gv → gv' ∈ expansions inv k → gv.Perm gv' := by
  obtain ⟨groups, run, entry⟩ := convertGroupIn_entry acyclic of
  refine ⟨groups, by rw [expandGroups, run], fun k => ?_, fun k gv stored => ⟨order, of, groups, run, stored⟩, ?_⟩
  · rw [entry, groupEntry_isSome_iff]
  · intro k gv gv' stored expansion
    obtain ⟨gv'', same, perm⟩ := expansions_perm acyclic expansion of
    rw [entry, same] at stored
    cases stored
    exact perm.symm

/-- The group that a call gives is one of its expansions, and each of them is given by some call. -/
theorem exists_expandGroups_iff (acyclic : AcyclicGroups inv) {k : String}
    {P : Option (List String) → Prop} :
    (∃ order : GroupOrder, order.Of inv ∧ ∃ groups, expandGroups inv order = .ok groups ∧
      P (groups.get? k)) ↔
    if k ∈ groupNames inv then ∃ gv ∈ expansions inv k, P (some gv) else P none := by
  split
  · next named =>
    constructor
    · rintro ⟨order, of, groups, run, holds⟩
      obtain ⟨groups', run', some_iff, mem, _⟩ := expandGroups_spec acyclic of
      rw [run] at run'
      cases run'
      obtain ⟨gv, stored⟩ := Option.isSome_iff_exists.1 ((some_iff k).2 named)
      exact ⟨gv, mem k gv stored, stored ▸ holds⟩
    · rintro ⟨gv, ⟨order, of, groups, run, stored⟩, holds⟩
      exact ⟨order, of, groups, by rw [expandGroups, run], stored ▸ holds⟩
  · next other =>
    have absent : ∀ {order : GroupOrder}, order.Of inv → ∃ groups,
        expandGroups inv order = .ok groups ∧ groups.get? k = none := by
      intro order of
      obtain ⟨groups, run, some_iff, _⟩ := expandGroups_spec acyclic of
      refine ⟨groups, run, ?_⟩
      rw [← Option.not_isSome_iff_eq_none, some_iff]
      exact other
    constructor
    · rintro ⟨order, of, groups, run, holds⟩
      obtain ⟨groups', run', none⟩ := absent of
      rw [run] at run'
      cases run'
      exact none ▸ holds
    · intro holds
      have of := GroupOrder.listed_of inv
      obtain ⟨groups, run, none⟩ := absent of
      exact ⟨_, of, groups, run, none.symm ▸ holds⟩

theorem expansions_nonempty (acyclic : AcyclicGroups inv) {k : String} (named : k ∈ groupNames inv) :
    (expansions inv k).Nonempty := by
  have of := GroupOrder.listed_of inv
  obtain ⟨groups, _, some_iff, mem, _⟩ := expandGroups_spec acyclic of
  obtain ⟨gv, stored⟩ := Option.isSome_iff_exists.1 ((some_iff k).2 named)
  exact ⟨gv, mem k gv stored⟩

end Expanded

/-! ## One pattern -/

section Names
variable {val : Value} {inv : InventorySpec} {n : String} {hs hs' : List String}

theorem addDirect_chooses : addDirect val n hs = hs' ↔ Chooses combineSlice (directPick val n) hs hs' := by
  unfold addDirect directPick
  split
  · simp [Chooses, Pick.add, eq_comm]
  · simp [Chooses, eq_comm]

theorem addGroup_chooses (acyclic : AcyclicGroups inv) :
    (∃ order : GroupOrder, order.Of inv ∧ ∃ groups, expandGroups inv order = .ok groups ∧
      addGroup groups n hs = hs') ↔ Chooses combineSlice (groupPick inv n) hs hs' := by
  have picked := exists_expandGroups_iff acyclic (k := n) (P := fun found => (match found with
    | some gv => combineSlice hs gv
    | none => hs) = hs')
  refine Iff.trans picked ?_
  unfold groupPick
  split
  · simp [Chooses, Pick.add, eq_comm]
  · simp [Chooses, eq_comm]

theorem addIndexed_chooses (acyclic : AcyclicGroups inv) (fine : ¬ IndexFails inv n) :
    (∃ order : GroupOrder, order.Of inv ∧ addIndexed inv order n hs = .ok hs') ↔
      Chooses combineSlice (indexPick inv n) hs hs' := by
  have unchanged : (∃ order : GroupOrder, order.Of inv ∧ Except.ok (ε := NameFault) hs = .ok hs') ↔ hs' = hs :=
    ⟨fun ⟨_, _, same⟩ => (Except.ok.inj same).symm, fun same => ⟨_, GroupOrder.listed_of inv, by rw [same]⟩⟩
  cases matched : matchIndex (trimSpace n) with
  | none =>
    simp only [addIndexed, indexPick, matched]
    exact unchanged
  | some found =>
    obtain ⟨groupName, digits⟩ := found
    cases number : atoi digits with
    | none => exact absurd ⟨groupName, digits, matched, .inl number⟩ fine
    | some index =>
      have inside : ∀ gv ∈ expansions inv groupName, index.toNat < gv.length := fun gv expansion => by
        by_contra short
        exact fine ⟨groupName, digits, matched, .inr ⟨index, gv, number, expansion, Nat.le_of_not_lt short⟩⟩
      have picked := exists_expandGroups_iff acyclic (k := groupName)
        (P := fun found => takeIndex index.toNat hs found = .ok hs')
      simp only [addIndexed, indexPick, matched, number]
      refine Iff.trans ?_ (picked.trans ?_)
      · refine exists_congr fun order => and_congr_right fun _ => ?_
        cases expandGroups inv order <;> simp [bind, Except.bind]
      · split
        · constructor
          · rintro ⟨gv, expansion, taken⟩
            have bound := inside gv expansion
            rw [takeIndex, List.getElem?_eq_getElem bound] at taken
            exact ⟨[gv[index.toNat]], ⟨gv, expansion, _, List.getElem?_eq_getElem bound, rfl⟩,
              (Except.ok.inj taken).symm⟩
          · rintro ⟨_, ⟨gv, expansion, h, there, rfl⟩, rfl⟩
            exact ⟨gv, expansion, by rw [takeIndex, there]; rfl⟩
        · simp [takeIndex, Chooses, eq_comm]

theorem addRandom_chooses (acyclic : AcyclicGroups inv) (fine : ¬ DrawsNone inv n) :
    (∃ order : GroupOrder, order.Of inv ∧ ∃ drawn, addRandom inv order drawn n hs = .ok hs') ↔
      Chooses combineSlice (randomPick inv n) hs hs' := by
  cases matched : matchRandom (trimSpace n) with
  | none =>
    simp only [addRandom, randomPick, matched]
    exact ⟨fun ⟨_, _, _, same⟩ => (Except.ok.inj same).symm,
      fun same => ⟨_, GroupOrder.listed_of inv, 0, by rw [same]⟩⟩
  | some groupName =>
    have some_host : ∀ gv ∈ expansions inv (String.ofList groupName), 0 < gv.length := fun gv expansion => by
      apply List.length_pos_iff.2
      rintro rfl
      exact fine ⟨groupName, matched, expansion⟩
    have picked := exists_expandGroups_iff acyclic (k := String.ofList groupName)
      (P := fun found => ∃ drawn, takeRandom drawn hs found = .ok hs')
    simp only [addRandom, randomPick, matched]
    refine Iff.trans ?_ (picked.trans ?_)
    · refine exists_congr fun order => and_congr_right fun _ => ?_
      cases expandGroups inv order <;> simp [bind, Except.bind]
    · split
      · constructor
        · rintro ⟨gv, expansion, drawn, taken⟩
          have bound := Nat.mod_lt drawn (some_host gv expansion)
          rw [takeRandom, List.getElem?_eq_getElem bound] at taken
          exact ⟨[gv[drawn % gv.length]], ⟨gv, expansion, _, List.getElem_mem bound, rfl⟩,
            (Except.ok.inj taken).symm⟩
        · rintro ⟨_, ⟨gv, expansion, h, member, rfl⟩, rfl⟩
          obtain ⟨drawn, bound, there⟩ := List.mem_iff_getElem.1 member
          refine ⟨gv, expansion, drawn, ?_⟩
          rw [takeRandom, Nat.mod_eq_of_lt bound, List.getElem?_eq_getElem bound, there]
          rfl
      · simp [takeRandom, Chooses, eq_comm]

theorem addIndexed_ok (acyclic : AcyclicGroups inv) (fine : ¬ IndexFails inv n) {order : GroupOrder}
    (of : order.Of inv) (hs : List String) : ∃ hs', addIndexed inv order n hs = .ok hs' := by
  unfold addIndexed
  cases matched : matchIndex (trimSpace n) with
  | none => exact ⟨hs, rfl⟩
  | some found =>
    obtain ⟨groupName, digits⟩ := found
    cases number : atoi digits with
    | none => exact absurd ⟨groupName, digits, matched, .inl number⟩ fine
    | some index =>
      obtain ⟨groups, run, _, mem, _⟩ := expandGroups_spec acyclic of
      simp only [number, run, bind, Except.bind]
      cases stored : groups.get? groupName with
      | none => exact ⟨hs, rfl⟩
      | some gv =>
        have bound : index.toNat < gv.length := by
          by_contra short
          exact fine ⟨groupName, digits, matched, .inr ⟨index, gv, number, mem _ gv stored, Nat.le_of_not_lt short⟩⟩
        exact ⟨hs ++ [gv[index.toNat]], by rw [takeIndex, List.getElem?_eq_getElem bound]⟩

theorem addIndexed_error (acyclic : AcyclicGroups inv) (fails : IndexFails inv n) {order : GroupOrder}
    (of : order.Of inv) (hs : List String) : ∃ msg, addIndexed inv order n hs = .error (.error msg) := by
  obtain ⟨groupName, digits, matched, number | ⟨index, gv, number, expansion, short⟩⟩ := fails
  · simp only [addIndexed, matched, number, convertError]
    exact ⟨_, rfl⟩
  · obtain ⟨groups, run, entry⟩ := convertGroupIn_entry acyclic of
    obtain ⟨gv', stored, perm⟩ := expansions_perm acyclic expansion of
    rw [← entry] at stored
    have length : gv.length = gv'.length := perm.length_eq
    have absent : gv'[index.toNat]? = none := List.getElem?_eq_none (by omega)
    simp only [addIndexed, matched, number, expandGroups, run, stored, takeIndex, absent, rangeError, bind, Except.bind]
    exact ⟨_, rfl⟩

theorem addRandom_ok (acyclic : AcyclicGroups inv) (fine : ¬ DrawsNone inv n) {order : GroupOrder} (of : order.Of inv)
    (drawn : Nat) (hs : List String) : ∃ hs', addRandom inv order drawn n hs = .ok hs' := by
  unfold addRandom
  cases matched : matchRandom (trimSpace n) with
  | none => exact ⟨hs, rfl⟩
  | some groupName =>
    obtain ⟨groups, run, _, mem, _⟩ := expandGroups_spec acyclic of
    simp only [run, bind, Except.bind]
    cases stored : groups.get? (String.ofList groupName) with
    | none => exact ⟨hs, rfl⟩
    | some gv =>
      have some_host : 0 < gv.length := by
        apply List.length_pos_iff.2
        rintro rfl
        exact fine ⟨groupName, matched, mem _ [] stored⟩
      exact ⟨_, by rw [takeRandom, List.getElem?_eq_getElem (Nat.mod_lt drawn some_host)]⟩

theorem addRandom_panics (acyclic : AcyclicGroups inv) (draws : DrawsNone inv n) {order : GroupOrder} (of : order.Of inv)
    (drawn : Nat) (hs : List String) : addRandom inv order drawn n hs = .error .panic := by
  obtain ⟨groupName, matched, expansion⟩ := draws
  obtain ⟨groups, run, entry⟩ := convertGroupIn_entry acyclic of
  obtain ⟨gv, stored, perm⟩ := expansions_perm acyclic expansion of
  rw [← entry] at stored
  have empty : gv = [] := List.nil_perm.1 perm
  simp [addRandom, matched, expandGroups, run, stored, empty, takeRandom, bind, Except.bind]

/-- A pattern adds to the hosts: its index is one of its group, and it draws from some host. -/
structure Resolves (inv : InventorySpec) (n : String) : Prop where
  index : ¬ IndexFails inv n
  draw : ¬ DrawsNone inv n

theorem addName_of_groups {calls : PatternCalls} {groups : GoMap (List String)}
    (run : expandGroups val.inventory calls.named = .ok groups) : addName val calls n hs =
      (addIndexed val.inventory calls.indexed n (addGroup groups n (addDirect val n hs))).bind
        (addRandom val.inventory calls.random calls.drawn n) := by
  simp only [addName, run, bind, Except.bind]

/-- What one pattern may make of the list. -/
theorem addName_chooses (acyclic : AcyclicGroups val.inventory) (resolves : Resolves val.inventory n) :
    (∃ calls : PatternCalls, calls.Of val.inventory ∧ addName val calls n hs = .ok hs') ↔
      Chooses combineSlice (namePicks val n) hs hs' := by
  rw [namePicks, chooses_append]
  simp only [← addDirect_chooses, exists_eq_left']
  rw [chooses_append]
  simp only [← addGroup_chooses acyclic, chooses_append, ← addIndexed_chooses acyclic resolves.index,
    ← addRandom_chooses acyclic resolves.draw]
  constructor
  · rintro ⟨calls, of, run⟩
    obtain ⟨groups, expanded, _⟩ := expandGroups_spec acyclic of.named
    rw [addName_of_groups expanded] at run
    obtain ⟨m, indexed⟩ := addIndexed_ok acyclic resolves.index of.indexed (addGroup groups n (addDirect val n hs))
    rw [indexed] at run
    exact ⟨_, ⟨calls.named, of.named, groups, expanded, rfl⟩, m, ⟨calls.indexed, of.indexed, indexed⟩, calls.random,
      of.random, calls.drawn, run⟩
  · rintro ⟨_, ⟨named, of₁, groups, expanded, rfl⟩, m, ⟨indexed, of₂, index⟩, random, of₃, drawn, draw⟩
    refine ⟨⟨named, indexed, random, drawn⟩, ⟨of₁, of₂, of₃⟩, ?_⟩
    rw [addName_of_groups expanded, index]
    exact draw

theorem addName_ok (acyclic : AcyclicGroups val.inventory) (resolves : Resolves val.inventory n) {calls : PatternCalls}
    (of : calls.Of val.inventory) (hs : List String) : ∃ hs', addName val calls n hs = .ok hs' := by
  obtain ⟨groups, expanded, _⟩ := expandGroups_spec acyclic of.named
  obtain ⟨m, indexed⟩ := addIndexed_ok acyclic resolves.index of.indexed (addGroup groups n (addDirect val n hs))
  rw [addName_of_groups expanded, indexed]
  exact addRandom_ok acyclic resolves.draw of.random calls.drawn m

theorem addName_error (acyclic : AcyclicGroups val.inventory) (fails : IndexFails val.inventory n) {calls : PatternCalls}
    (of : calls.Of val.inventory) (hs : List String) : ∃ msg, addName val calls n hs = .error (.error msg) := by
  obtain ⟨groups, expanded, _⟩ := expandGroups_spec acyclic of.named
  obtain ⟨msg, indexed⟩ := addIndexed_error acyclic fails of.indexed (addGroup groups n (addDirect val n hs))
  exact ⟨msg, by rw [addName_of_groups expanded, indexed]; rfl⟩

theorem addName_panics (acyclic : AcyclicGroups val.inventory) (index : ¬ IndexFails val.inventory n)
    (draws : DrawsNone val.inventory n) {calls : PatternCalls} (of : calls.Of val.inventory) (hs : List String) :
    addName val calls n hs = .error .panic := by
  obtain ⟨groups, expanded, _⟩ := expandGroups_spec acyclic of.named
  obtain ⟨m, indexed⟩ := addIndexed_ok acyclic index of.indexed (addGroup groups n (addDirect val n hs))
  rw [addName_of_groups expanded, indexed]
  exact addRandom_panics acyclic draws of.random calls.drawn m

/-- An inventory with a cycle keeps every pattern from being resolved. -/
theorem addName_diverges (cyclic : ¬ AcyclicGroups val.inventory) {calls : PatternCalls} (of : calls.Of val.inventory)
    (hs : List String) : addName val calls n hs = .error .diverge := by
  have never : convertGroupIn val.inventory calls.named.hosts calls.named.names = none := by
    rw [← Option.not_isSome_iff_eq_none, convertGroupIn_isSome_iff of.named]
    exact cyclic
  simp [addName, expandGroups, never, bind, Except.bind]

end Names

/-! ## All patterns -/

/-- The calls that the patterns of `names` may meet. -/
structure CallsFor (inv : InventorySpec) (names : List String) (l : List (String × PatternCalls)) : Prop where
  names : l.map Prod.fst = names
  of : ∀ e ∈ l, e.2.Of inv

/-- What all the patterns pick. -/
def allPicks (env : Env) (val : Value) (names : List String) : List (Pick String) :=
  names.flatMap fun n => namePicks val (resolveName env val n)

section Lists
variable {env : Env} {val : Value} {n : String} {names : List String}

theorem callsFor_nil {inv : InventorySpec} {l : List (String × PatternCalls)} : CallsFor inv [] l ↔ l = [] := by
  constructor
  · intro calls
    exact List.map_eq_nil_iff.1 calls.names
  · rintro rfl
    exact ⟨rfl, by simp⟩

theorem callsFor_cons {inv : InventorySpec} {l : List (String × PatternCalls)} :
    CallsFor inv (n :: names) l ↔ ∃ calls rest, l = (n, calls) :: rest ∧ calls.Of inv ∧ CallsFor inv names rest := by
  constructor
  · rintro ⟨same, of⟩
    obtain ⟨⟨m, calls⟩, rest, rfl, rfl, rfl⟩ := List.map_eq_cons_iff.1 same
    rw [List.forall_mem_cons] at of
    exact ⟨calls, rest, rfl, of.1, rfl, of.2⟩
  · rintro ⟨calls, rest, rfl, of, same, others⟩
    exact ⟨by rw [List.map_cons, same], List.forall_mem_cons.2 ⟨of, others⟩⟩

theorem exists_callsFor (inv : InventorySpec) (names : List String) : ∃ l, CallsFor inv names l := by
  let listed := GroupOrder.listed inv
  have of := GroupOrder.listed_of inv
  refine ⟨names.map fun n => (n, ⟨listed, listed, listed, 0⟩), ?_, ?_⟩
  · rw [List.map_map]
    exact List.map_id names
  · rintro _ inside
    obtain ⟨n, _, rfl⟩ := List.mem_map.1 inside
    exact ⟨of, of, of⟩

theorem addNames_cons {calls : PatternCalls} {rest : List (String × PatternCalls)} {hs : List String} :
    addNames env val ((n, calls) :: rest) hs =
      (addName val calls (resolveName env val n) hs).bind (addNames env val rest) := rfl

/-- Where every pattern resolves, these are the lists that may be returned. -/
theorem addNames_chooses (acyclic : AcyclicGroups val.inventory) : ∀ {names : List String},
    (∀ n ∈ names, Resolves val.inventory (resolveName env val n)) → ∀ {hs hs' : List String},
      (∃ l, CallsFor val.inventory names l ∧ addNames env val l hs = .ok hs') ↔
        Chooses combineSlice (allPicks env val names) hs hs' := by
  intro names
  induction names with
  | nil =>
    intro _ hs hs'
    simp [callsFor_nil, addNames, allPicks, Chooses, eq_comm]
  | cons n names ih =>
    intro resolves hs hs'
    rw [List.forall_mem_cons] at resolves
    rw [allPicks, List.flatMap_cons, chooses_append]
    simp only [← addName_chooses acyclic resolves.1]
    have later := @ih resolves.2
    rw [allPicks] at later
    simp only [← later, callsFor_cons]
    constructor
    · rintro ⟨_, ⟨calls, rest, rfl, of, others⟩, run⟩
      rw [addNames_cons] at run
      obtain ⟨m, first⟩ := addName_ok acyclic resolves.1 of hs
      rw [first] at run
      exact ⟨m, ⟨calls, of, first⟩, rest, others, run⟩
    · rintro ⟨m, ⟨calls, of, first⟩, rest, others, run⟩
      refine ⟨_, ⟨calls, rest, rfl, of, others⟩, ?_⟩
      rw [addNames_cons, first]
      exact run

/-- Where every pattern resolves, a list is returned. -/
theorem addNames_ok (acyclic : AcyclicGroups val.inventory) : ∀ {names : List String},
    (∀ n ∈ names, Resolves val.inventory (resolveName env val n)) → ∀ {l : List (String × PatternCalls)},
      CallsFor val.inventory names l → ∀ hs, ∃ hs', addNames env val l hs = .ok hs' := by
  intro names
  induction names with
  | nil =>
    intro _ l calls hs
    rw [callsFor_nil.1 calls]
    exact ⟨hs, rfl⟩
  | cons n names ih =>
    intro resolves l calls hs
    rw [List.forall_mem_cons] at resolves
    obtain ⟨here, rest, rfl, of, others⟩ := callsFor_cons.1 calls
    obtain ⟨m, first⟩ := addName_ok acyclic resolves.1 of hs
    rw [addNames_cons, first]
    exact ih resolves.2 others m

/-- The first pattern that does not resolve decides how the call ends. -/
theorem addNames_stops (acyclic : AcyclicGroups val.inventory) {before after : List String}
    (resolve : ∀ m ∈ before, Resolves val.inventory (resolveName env val m)) {fault : NameFault → Prop}
    (stops : ∀ calls : PatternCalls, calls.Of val.inventory → ∀ hs, ∃ f, fault f ∧
      addName val calls (resolveName env val n) hs = .error f) {l : List (String × PatternCalls)}
    (calls : CallsFor val.inventory (before ++ n :: after) l) (hs : List String) :
    ∃ f, fault f ∧ addNames env val l hs = .error f := by
  induction before generalizing l hs with
  | nil =>
    obtain ⟨here, rest, rfl, of, _⟩ := callsFor_cons.1 calls
    obtain ⟨f, expected, run⟩ := stops here of hs
    exact ⟨f, expected, by rw [addNames_cons, run]; rfl⟩
  | cons m before ih =>
    rw [List.forall_mem_cons] at resolve
    obtain ⟨here, rest, rfl, of, others⟩ := callsFor_cons.1 calls
    obtain ⟨hs', first⟩ := addName_ok acyclic resolve.1 of hs
    rw [addNames_cons, first]
    exact ih resolve.2 others hs'

/-- A pattern that resolves has something to choose from. -/
theorem namePicks_ok (acyclic : AcyclicGroups val.inventory) (resolves : Resolves val.inventory n) :
    ∀ p ∈ namePicks val n, p.Ok := by
  intro p member
  simp only [namePicks, List.mem_append] at member
  obtain direct | group | index | random := member
  · rw [directPick] at direct
    split at direct
    · cases List.mem_singleton.1 direct
      exact ⟨⟨[n], rfl⟩, fun _ o option => by
        rw [Set.mem_singleton_iff.1 option]
        exact List.nodup_singleton n⟩
    · cases direct
  · rw [groupPick] at group
    split at group
    · next named =>
      cases List.mem_singleton.1 group
      exact ⟨expansions_nonempty acyclic named, fun appended => absurd appended (by simp)⟩
    · cases group
  · unfold indexPick at index
    cases matched : matchIndex (trimSpace n) with
    | none => simp [matched] at index
    | some found =>
      obtain ⟨groupName, digits⟩ := found
      cases number : atoi digits with
      | none => simp [matched, number] at index
      | some i =>
        simp only [matched, number] at index
        split at index
        · next named =>
          cases List.mem_singleton.1 index
          refine ⟨?_, ?_⟩
          · obtain ⟨gv, expansion⟩ := expansions_nonempty acyclic named
            have bound : i.toNat < gv.length := by
              by_contra short
              exact resolves.index
                ⟨groupName, digits, matched, .inr ⟨i, gv, number, expansion, Nat.le_of_not_lt short⟩⟩
            exact ⟨[gv[i.toNat]], gv, expansion, _, List.getElem?_eq_getElem bound, rfl⟩
          · rintro _ _ ⟨_, _, h, _, rfl⟩
            exact List.nodup_singleton h
        · cases index
  · unfold randomPick at random
    cases matched : matchRandom (trimSpace n) with
    | none => simp [matched] at random
    | some groupName =>
      simp only [matched] at random
      split at random
      · next named =>
        cases List.mem_singleton.1 random
        refine ⟨?_, ?_⟩
        · obtain ⟨gv, expansion⟩ := expansions_nonempty acyclic named
          cases gv with
          | nil => exact absurd ⟨groupName, matched, expansion⟩ resolves.draw
          | cons h gv => exact ⟨[h], h :: gv, expansion, h, List.mem_cons_self, rfl⟩
        · rintro _ _ ⟨_, _, h, _, rfl⟩
          exact List.nodup_singleton h
      · cases random

theorem allPicks_ok (acyclic : AcyclicGroups val.inventory)
    (resolve : ∀ n ∈ names, Resolves val.inventory (resolveName env val n)) : ∀ p ∈ allPicks env val names, p.Ok := by
  intro p member
  obtain ⟨n, inside, here⟩ := List.mem_flatMap.1 member
  exact namePicks_ok acyclic (resolve n inside) p here

/-- The placeholder of a host of the store is not shorter than nothing. -/
theorem execTaskHostLogs_isSome {h : String} (known : (val.hosts.get? h).isSome) : (execTaskHostLogs val h).isSome := by
  have longest : ∀ (l : List String) (m : Nat), m ≤ l.foldl (fun m k => max k.utf8ByteSize m) m ∧
      ∀ k ∈ l, k.utf8ByteSize ≤ l.foldl (fun m k => max k.utf8ByteSize m) m := by
    intro l
    induction l with
    | nil => exact fun m => ⟨Nat.le_refl m, by simp⟩
    | cons k l ih =>
      intro m
      obtain ⟨start, others⟩ := ih (max k.utf8ByteSize m)
      refine ⟨Nat.le_trans (Nat.le_max_right _ _) start, fun k' inside => ?_⟩
      obtain rfl | later := List.mem_cons.1 inside
      · exact Nat.le_trans (Nat.le_max_left _ _) start
      · exact others k' later
  have bound := (longest val.hosts.keys 0).2 h (GoMap.get?_isSome_iff.1 known)
  have count : ¬ (getHostMaxLength val : Int) - h.utf8ByteSize < 0 := by
    rw [getHostMaxLength]
    omega
  rw [execTaskHostLogs, repeatSpace, if_neg count]
  rfl

end Lists

/-- A result that the tasks of a play can run on: an error, or hosts of the store, each once, and for none of them the
log of the task panics. -/
def HostsSafe (val : Value) : Except NameFault (List String) → Prop
  | .error (.error _) => True
  | .error _ => False
  | .ok hs => hs.Nodup ∧ ∀ h ∈ hs, (val.hosts.get? h).isSome ∧ (execTaskHostLogs val h).isSome

/-- The patterns that are safe: no group contains itself, and either a pattern has an index that its group does not
have, before any pattern draws from a group without hosts, or all of them name hosts of the store, and what is appended
is not offered by an earlier pattern, unless a later one names a group. -/
structure PatternsSafe (env : Env) (val : Value) (names : List String) : Prop where
  acyclic : AcyclicGroups val.inventory
  patterns : (∃ before n after, names = before ++ n :: after ∧
      (∀ m ∈ before, Resolves val.inventory (resolveName env val m)) ∧
        IndexFails val.inventory (resolveName env val n)) ∨
    (∀ n ∈ names, Resolves val.inventory (resolveName env val n)) ∧
      (∀ p ∈ allPicks env val names, ∀ h, p.offers h → (val.hosts.get? h).isSome) ∧ NoRepeat (allPicks env val names)

/-- Some pattern is the first that does not resolve. -/
theorem exists_first_unresolved {env : Env} {val : Value} {names : List String}
    (some_not : ¬ ∀ n ∈ names, Resolves val.inventory (resolveName env val n)) :
    ∃ before n after, names = before ++ n :: after ∧
      (∀ m ∈ before, Resolves val.inventory (resolveName env val m)) ∧
        ¬ Resolves val.inventory (resolveName env val n) := by
  induction names with
  | nil => exact absurd (by simp) some_not
  | cons n names ih =>
    by_cases here : Resolves val.inventory (resolveName env val n)
    · rw [List.forall_mem_cons, not_and] at some_not
      obtain ⟨before, m, after, rfl, resolve, stuck⟩ := ih (some_not here)
      exact ⟨n :: before, m, after, rfl, List.forall_mem_cons.2 ⟨here, resolve⟩, stuck⟩
    · exact ⟨[], n, names, rfl, by simp, here⟩

/-- `GetHostnames` is safe, whatever orders and numbers it meets, exactly if its patterns are. -/
theorem getHostnames_safe_iff (env : Env) (val : Value) {names : List String} (given : names ≠ []) :
    (∀ l, CallsFor val.inventory names l → HostsSafe val (getHostnames env val l)) ↔ PatternsSafe env val names := by
  obtain ⟨l₀, calls₀⟩ := exists_callsFor val.inventory names
  constructor
  · intro safe
    have acyclic : AcyclicGroups val.inventory := by
      by_contra cyclic
      obtain ⟨n, rest, rfl⟩ := List.exists_cons_of_ne_nil given
      obtain ⟨calls, rest, rfl, of, _⟩ := callsFor_cons.1 calls₀
      have run := safe _ calls₀
      rw [getHostnames, addNames_cons, addName_diverges cyclic of] at run
      exact run
    refine ⟨acyclic, ?_⟩
    by_cases resolve : ∀ n ∈ names, Resolves val.inventory (resolveName env val n)
    · right
      have returned : ∀ hs, Chooses combineSlice (allPicks env val names) [] hs → HostsSafe val (.ok hs) := by
        intro hs chooses
        obtain ⟨l, calls, run⟩ := (addNames_chooses acyclic resolve).2 chooses
        have here := safe l calls
        rwa [getHostnames, run] at here
      have ok := allPicks_ok acyclic resolve
      refine ⟨resolve, fun p member h offers => ?_, ?_⟩
      · obtain ⟨hs, chooses, inside⟩ := exists_chooses_mem combineSlice_combines ok member offers []
        exact ((returned hs chooses).2 h inside).1
      · exact (nodup_iff combineSlice_combines ok).1 fun hs chooses => (returned hs chooses).1
    · left
      obtain ⟨before, n, after, rfl, resolve, stuck⟩ := exists_first_unresolved resolve
      refine ⟨before, n, after, rfl, resolve, ?_⟩
      by_contra index
      have draws : DrawsNone val.inventory (resolveName env val n) := by
        by_contra draw
        exact stuck ⟨index, draw⟩
      have panics : ∃ f, NameFault.panic = f ∧ addNames env val l₀ [] = .error f :=
        addNames_stops acyclic resolve (fun calls of hs => ⟨.panic, rfl, addName_panics acyclic index draws of hs⟩)
          calls₀ []
      obtain ⟨f, rfl, run⟩ := panics
      have here := safe l₀ calls₀
      rw [getHostnames, run] at here
      exact here
  · rintro ⟨acyclic, ⟨before, n, after, rfl, resolve, fails⟩ | ⟨resolve, known, noRepeat⟩⟩ l calls
    · have stops : ∀ calls : PatternCalls, calls.Of val.inventory → ∀ hs, ∃ f, (∃ msg, f = NameFault.error msg) ∧
          addName val calls (resolveName env val n) hs = .error f := by
        intro calls of hs
        obtain ⟨msg, run⟩ := addName_error acyclic fails of hs
        exact ⟨_, ⟨msg, rfl⟩, run⟩
      obtain ⟨f, ⟨msg, rfl⟩, run⟩ := addNames_stops acyclic resolve stops calls []
      rw [getHostnames, run]
      trivial
    · obtain ⟨hs, run⟩ := addNames_ok acyclic resolve calls []
      have chooses := (addNames_chooses acyclic resolve).1 ⟨l, calls, run⟩
      rw [getHostnames, run]
      refine ⟨(nodup_iff combineSlice_combines (allPicks_ok acyclic resolve)).2 noRepeat hs chooses, fun h inside => ?_⟩
      obtain nothing | ⟨p, member, offers⟩ := chooses.offered combineSlice_combines inside
      · cases nothing
      · have here := known p member h offers
        exact ⟨here, execTaskHostLogs_isSome here⟩

theorem getHostnames_safe_iff_workers : ["workers"] ≠ [] ∧
    ((∀ l, CallsFor disputedInventory ["workers"] l → HostsSafe disputedStore.value
      (getHostnames nameEnv disputedStore.value l)) ↔ PatternsSafe nameEnv disputedStore.value ["workers"]) :=
  have given : ["workers"] ≠ [] := List.cons_ne_nil _ _
  ⟨given, getHostnames_safe_iff nameEnv disputedStore.value given⟩

/-- The calls that take every map in the order of its list. -/
def listedCalls (inv : InventorySpec) : PatternCalls :=
  ⟨GroupOrder.listed inv, GroupOrder.listed inv, GroupOrder.listed inv, 0⟩

theorem node1_twice :
    let calls := listedCalls disputedInventory
    let l := [("node1", calls), ("workers[0]", calls)]
    CallsFor disputedInventory ["node1", "workers[0]"] l ∧
      getHostnames nameEnv disputedStore.value l = .ok ["node1", "node1"] ∧
        ¬ HostsSafe disputedStore.value (getHostnames nameEnv disputedStore.value l) := by
  have of := GroupOrder.listed_of disputedInventory
  have run : getHostnames nameEnv disputedStore.value
      [("node1", listedCalls disputedInventory), ("workers[0]", listedCalls disputedInventory)] =
        .ok ["node1", "node1"] := by decide +kernel
  refine ⟨⟨rfl, ?_⟩, run, ?_⟩
  · rintro e inside
    simp only [List.mem_cons, List.not_mem_nil, or_false] at inside
    obtain rfl | rfl := inside <;> exact ⟨of, of, of⟩
  · rw [run]
    rintro ⟨distinct, _⟩
    simp at distinct

end KubeKey.Variable
