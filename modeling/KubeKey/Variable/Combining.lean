import KubeKey.Variable.Atomic
import KubeKey.Variable.Decode

/-!
# Combining vars nodes

`CombineMappingNode` of `pkg/variable/helper.go`, which the project loader folds over the
`vars_files` of a play and applies to the defaults of a role. It puts the content of one
mapping behind the content of the other. What that means is settled later, by the decoder:
a decoder takes no mapping that lists a key twice, so the second mapping takes precedence
only where the two list no key in common.

The decoder is library code and a parameter here. Of how it reads a mapping into a
`map[string]any` its documentation fixes the rest: the entries that the mapping lists come
first, and a merge key adds those that are still missing.
-/

namespace KubeKey.Variable

open KubeKey.Go

/-! ## The combination -/

/-- `CombineMappingNode`; `none` is a nil pointer. -/
def combineMappingNode : Option Node → Node → Node
  | none, b => b
  | some a, b =>
    if a.isZero then b
    else
      match a, b with
      | .mk .mapping tag value content, .mk .mapping _ _ content' => .mk .mapping tag value (content ++ content')
      | a, _ => a

/-- How a vars file can fail to give its variables. -/
inductive VarsFileErr where
  | notFound (varsFile : String)
  | read (varsFile : String)
  | unmarshal (varsFile : String)
  | format
deriving DecidableEq

/-- The variables of a document on top of those that are there: the end of the loop body of `dealVarsFiles`, and of the
defaults in `dealRole`. -/
def combineDocument (vars : Node) : Node → Except VarsFileErr Node
  | .mk .document _ _ [node] => .ok (if node.kind = .mapping then combineMappingNode (some vars) node else vars)
  | _ => .error .format

/-- `dealVarsFiles` on the variables of a play, where `load` finds, reads and unmarshals a file. -/
def dealVarsFiles (load : String → Except VarsFileErr Node) : List String → Node → Except VarsFileErr Node
  | [], vars => .ok vars
  | varsFile :: rest, vars =>
    match load varsFile with
    | .error e => .error e
    | .ok doc =>
      match combineDocument vars doc with
      | .error e => .error e
      | .ok vars => dealVarsFiles load rest vars

/-! ## The decoder -/

/-- A key as the decoder compares it with the other keys of its mapping. -/
def Node.keyId (key : Node) : NodeKind × String := (key.kind, key.value)

/-- The keys that the content of a mapping lists. -/
def keyIds : List Node → List (NodeKind × String)
  | key :: _ :: rest => key.keyId :: keyIds rest
  | _ => []

/-- How the decoder reads the parts of a mapping. -/
structure MappingDecoder where
  isMerge : Node → Bool
  isMerge_keyId : ∀ key, isMerge key = true → key.keyId = (.scalar, "<<")
  /-- A key as a string. The entry of a null key is left out. -/
  key : Node → Except Err (Option String)
  value : Node → Except Err Lit
  /-- What the value of a merge key offers. -/
  merged : Node → Except Err (GoMap Lit)

namespace MappingDecoder

variable (D : MappingDecoder)

/-- The entries that are listed. -/
def listed : List Node → Except Err (List (String × Lit))
  | key :: value :: rest =>
    if D.isMerge key then listed rest
    else do
      let k ← D.key key
      match k with
      | none => listed rest
      | some k => do
        let v ← D.value value
        let later ← listed rest
        .ok ((k, v) :: later)
  | _ => .ok []

/-- The entries that are offered. -/
def offered : List Node → Except Err (GoMap Lit)
  | key :: value :: rest => if D.isMerge key then D.merged value else offered rest
  | _ => .ok .empty

/-- The content of a mapping decoded into a `map[string]any`. -/
def decode (content : List Node) : Except Err (GoMap Lit) :=
  if content.length % 2 ≠ 0 then .error .oddMapping
  else if ¬ (keyIds content).Nodup then .error (.decode "mapping key already defined")
  else do
    let own ← D.listed content
    let others ← D.offered content
    .ok ((GoMap.ofList own).fill others)

/-- A mapping node decoded into a `map[string]any`. -/
def decodeNode (node : Node) : Except Err (GoMap Lit) :=
  if node.kind = .mapping then D.decode node.content else .error (.decode "not a map")

end MappingDecoder

/-- Two mappings list no key in common. -/
def KeysApart (a b : Node) : Prop := ∀ id ∈ keyIds a.content, id ∉ keyIds b.content

instance (a b : Node) : Decidable (KeysApart a b) :=
  inferInstanceAs (Decidable (∀ id ∈ keyIds a.content, id ∉ keyIds b.content))

/-- What `b` has only by its merge key is not listed by `a`, unless with the same value. -/
def MergesApart (D : MappingDecoder) (a b : Node) : Prop :=
  ∀ own later offers k v w, D.listed a.content = .ok own → D.listed b.content = .ok later →
    D.offered b.content = .ok offers → (GoMap.ofList own).get? k = some v → (GoMap.ofList later).get? k = none →
    offers.get? k = some w → v = w

/-! ## Contents put behind each other -/

theorem even_tail {key value : Node} {rest : List Node} (even : (key :: value :: rest).length % 2 = 0) :
    rest.length % 2 = 0 := by
  simp only [List.length_cons] at even
  omega

/-- The content of a mapping has a value for every key. -/
theorem keyIds_append : ∀ (a b : List Node), a.length % 2 = 0 → keyIds (a ++ b) = keyIds a ++ keyIds b
  | [], _, _ => rfl
  | [_], _, odd => by simp at odd
  | key :: value :: rest, b, even => by
    have later := keyIds_append rest b (even_tail even)
    simp only [List.cons_append, keyIds, later]

theorem even_append {a b : List Node} (evenA : a.length % 2 = 0) (evenB : b.length % 2 = 0) :
    (a ++ b).length % 2 = 0 := by
  rw [List.length_append]
  omega

theorem get?_ofList_append (x y : List (String × Lit)) (k : String) :
    (GoMap.ofList (x ++ y)).get? k = ((GoMap.ofList y).get? k).or ((GoMap.ofList x).get? k) := by
  have fold : ∀ (l : List (String × Lit)) (m : GoMap Lit),
      (l.foldl (fun m e => m.put e.1 e.2) m).get? k = ((GoMap.ofList l).get? k).or (m.get? k) := by
    intro l
    induction l using List.reverseRecOn with
    | nil => intro m; rfl
    | append_singleton l e ih =>
      intro m
      simp only [GoMap.ofList, List.foldl_append, List.foldl_cons, List.foldl_nil, GoMap.get?_put]
      split
      · rfl
      · exact ih m
  rw [GoMap.ofList, List.foldl_append]
  exact fold y _

namespace MappingDecoder

variable (D : MappingDecoder)

theorem listed_append : ∀ (a b : List Node), a.length % 2 = 0 →
    D.listed (a ++ b) = do
      let x ← D.listed a
      let y ← D.listed b
      .ok (x ++ y)
  | [], b, _ => by
    cases found : D.listed b <;> simp only [List.nil_append, found] <;> rfl
  | [_], _, odd => by simp at odd
  | key :: value :: rest, b, even => by
    have later := listed_append rest b (even_tail even)
    simp only [List.cons_append, listed]
    split
    · exact later
    · cases D.key key with
      | error e => rfl
      | ok k =>
        cases k with
        | none => exact later
        | some k =>
          cases D.value value with
          | error e => rfl
          | ok v =>
            show (D.listed (rest ++ b) >>= fun later => Except.ok ((k, v) :: later)) = _
            rw [later]
            cases D.listed rest with
            | error e => rfl
            | ok x =>
              cases D.listed b with
              | error e => rfl
              | ok y => rfl

/-- Some key of the content is a merge key. -/
def hasMerge : List Node → Bool
  | key :: _ :: rest => D.isMerge key || hasMerge rest
  | _ => false

theorem mem_keyIds_of_hasMerge : ∀ {content : List Node}, D.hasMerge content = true → (.scalar, "<<") ∈ keyIds content
  | key :: value :: rest, found => by
    rw [hasMerge, Bool.or_eq_true] at found
    rcases found with here | later
    · rw [keyIds, D.isMerge_keyId key here]
      exact List.mem_cons_self
    · exact List.mem_cons_of_mem _ (mem_keyIds_of_hasMerge later)

theorem offered_append : ∀ (a b : List Node), a.length % 2 = 0 →
    D.offered (a ++ b) = if D.hasMerge a then D.offered a else D.offered b
  | [], _, _ => rfl
  | [_], _, odd => by simp at odd
  | key :: value :: rest, b, even => by
    have later := offered_append rest b (even_tail even)
    simp only [List.cons_append, offered, hasMerge, Bool.or_eq_true]
    by_cases here : D.isMerge key = true
    · simp only [here, if_true, true_or]
    · rw [Bool.not_eq_true] at here
      simp only [here, Bool.false_eq_true, if_false, false_or, later]

theorem offered_of_no_merge : ∀ {content : List Node}, D.hasMerge content = false → D.offered content = .ok .empty
  | [], _ => rfl
  | [_], _ => rfl
  | key :: value :: rest, plain => by
    rw [hasMerge, Bool.or_eq_false_iff] at plain
    rw [offered, plain.1]
    exact offered_of_no_merge plain.2

/-- What a decoded mapping was read from. -/
structure Reads (content : List Node) (own : List (String × Lit)) (others : GoMap Lit) : Prop where
  even : content.length % 2 = 0
  distinct : (keyIds content).Nodup
  listed : D.listed content = .ok own
  offered : D.offered content = .ok others

theorem decode_eq_ok_iff {content : List Node} {m : GoMap Lit} :
    D.decode content = .ok m ↔ ∃ own others, D.Reads content own others ∧ m = (GoMap.ofList own).fill others := by
  constructor
  · intro run
    unfold decode at run
    split at run
    · cases run
    · next even =>
      split at run
      · cases run
      · next distinct =>
        obtain ⟨own, listed, run⟩ := bind_eq_ok run
        obtain ⟨others, offered, run⟩ := bind_eq_ok run
        cases run
        exact ⟨own, others, ⟨by omega, not_not.1 distinct, listed, offered⟩, rfl⟩
  · rintro ⟨own, others, reads, rfl⟩
    simp only [decode, reads.even, reads.distinct, reads.listed, reads.offered, not_true_eq_false, ne_eq, if_false]
    rfl

/-- Of two mappings without a common key at most one has a merge key. -/
theorem no_merge_of_apart {a b : List Node} (apart : ∀ id ∈ keyIds a, id ∉ keyIds b) :
    D.hasMerge a = true → D.hasMerge b = false := by
  intro merges
  cases again : D.hasMerge b with
  | false => rfl
  | true => exact absurd (D.mem_keyIds_of_hasMerge again) (apart _ (D.mem_keyIds_of_hasMerge merges))

/-- What two contents put behind each other are read from. -/
theorem Reads.append {a b : List Node} {x y : List (String × Lit)} {xs ys : GoMap Lit} (first : D.Reads a x xs)
    (second : D.Reads b y ys) (apart : ∀ id ∈ keyIds a, id ∉ keyIds b) :
    D.Reads (a ++ b) (x ++ y) (if D.hasMerge a then xs else ys) where
  even := even_append first.even second.even
  distinct := by
    rw [keyIds_append a b first.even, List.nodup_append]
    exact ⟨first.distinct, second.distinct, fun id here other there same => apart id here (same ▸ there)⟩
  listed := by
    rw [D.listed_append a b first.even, first.listed, second.listed]
    rfl
  offered := by
    rw [D.offered_append a b first.even, first.offered, second.offered]
    split <;> rfl

/-- Two contents put behind each other decode exactly when each does and they list no key in common. -/
theorem decode_append_iff {a b : List Node} (even : a.length % 2 = 0) :
    (∃ m, D.decode (a ++ b) = .ok m) ↔
      (∃ m, D.decode a = .ok m) ∧ (∃ m, D.decode b = .ok m) ∧ ∀ id ∈ keyIds a, id ∉ keyIds b := by
  constructor
  · rintro ⟨m, run⟩
    obtain ⟨own, others, reads, -⟩ := D.decode_eq_ok_iff.1 run
    have distinct := reads.distinct
    rw [keyIds_append a b even, List.nodup_append] at distinct
    obtain ⟨distinctA, distinctB, separate⟩ := distinct
    have apart : ∀ id ∈ keyIds a, id ∉ keyIds b := fun id here there => separate id here id there rfl
    have evenB : b.length % 2 = 0 := by
      have all := reads.even
      rw [List.length_append] at all
      omega
    have listed := reads.listed
    rw [D.listed_append a b even] at listed
    obtain ⟨x, listedA, listed⟩ := bind_eq_ok listed
    obtain ⟨y, listedB, -⟩ := bind_eq_ok listed
    have offered := reads.offered
    rw [D.offered_append a b even] at offered
    have offers : (∃ xs, D.offered a = .ok xs) ∧ ∃ ys, D.offered b = .ok ys := by
      by_cases merges : D.hasMerge a = true
      · rw [if_pos merges] at offered
        exact ⟨⟨_, offered⟩, _, D.offered_of_no_merge (D.no_merge_of_apart apart merges)⟩
      · rw [if_neg merges] at offered
        exact ⟨⟨_, D.offered_of_no_merge (by simpa using merges)⟩, _, offered⟩
    obtain ⟨⟨xs, offeredA⟩, ys, offeredB⟩ := offers
    exact ⟨⟨_, D.decode_eq_ok_iff.2 ⟨x, xs, ⟨even, distinctA, listedA, offeredA⟩, rfl⟩⟩,
      ⟨_, D.decode_eq_ok_iff.2 ⟨y, ys, ⟨evenB, distinctB, listedB, offeredB⟩, rfl⟩⟩, apart⟩
  · rintro ⟨⟨_, runA⟩, ⟨_, runB⟩, apart⟩
    obtain ⟨x, xs, readsA, -⟩ := D.decode_eq_ok_iff.1 runA
    obtain ⟨y, ys, readsB, -⟩ := D.decode_eq_ok_iff.1 runB
    exact ⟨_, D.decode_eq_ok_iff.2 ⟨_, _, readsA.append D readsB apart, rfl⟩⟩

/-- The value that two contents put behind each other have at a key. -/
theorem get?_append {a b : List Node} {n : GoMap Lit} {x y : List (String × Lit)} {xs ys : GoMap Lit}
    (first : D.Reads a x xs) (second : D.Reads b y ys) (run : D.decode (a ++ b) = .ok n) (k : String) :
    n.get? k = (((GoMap.ofList y).get? k).or ((GoMap.ofList x).get? k)).or
      (if D.hasMerge a then xs.get? k else ys.get? k) := by
  obtain ⟨-, -, apart⟩ := (D.decode_append_iff first.even).1 ⟨n, run⟩
  have built := D.decode_eq_ok_iff.2 ⟨_, _, first.append D second apart, rfl⟩
  rw [run, Except.ok.injEq] at built
  rw [built, GoMap.get?_fill, get?_ofList_append]
  split <;> rfl

/-- The decoder of the variable package reads the keys that are strings and knows no merge keys. -/
def ofEnv (env : Env) : MappingDecoder where
  isMerge _ := false
  isMerge_keyId _ merges := by cases merges
  key key := if key.kind ≠ .scalar ∨ key.tag ≠ strTag then .error (.decode "key") else .ok (some key.value)
  value := decodeAny env
  merged _ := .ok .empty

theorem keyIds_of_listed {env : Env} : ∀ {content : List Node} {es : List (String × Lit)},
    (ofEnv env).listed content = .ok es → keyIds content = es.map fun e => (.scalar, e.1)
  | [], _, run => by
    cases run
    rfl
  | [_], _, run => by
    cases run
    rfl
  | key :: value :: rest, es, run => by
    simp only [listed, ofEnv, Bool.false_eq_true, if_false] at run
    obtain ⟨k, text, run⟩ := bind_eq_ok run
    split at text
    · cases text
    · next plain =>
      cases text
      rw [not_or, not_not, not_not] at plain
      obtain ⟨v, -, run⟩ := bind_eq_ok run
      obtain ⟨later, listed, run⟩ := bind_eq_ok run
      cases run
      rw [keyIds, keyIds_of_listed listed, List.map_cons, Node.keyId, plain.1]

/-- The entries of a mapping are those listed, when no key is listed twice. -/
theorem decodeEntries_eq_ok_iff {env : Env} : ∀ {content : List Node} {es : List (String × Lit)},
    decodeEntries env content = .ok es ↔ (ofEnv env).listed content = .ok es ∧ (keyIds content).Nodup
  | [], es => by simp [decodeEntries, listed, keyIds]
  | [_], es => by simp [decodeEntries, listed, keyIds]
  | key :: value :: rest, es => by
    have fresh : ∀ later : List (String × Lit), (ofEnv env).listed rest = .ok later → key.kind = .scalar →
        (key.keyId ∈ keyIds rest ↔ (later.map Prod.fst).contains key.value = true) := by
      intro later listed plain
      rw [keyIds_of_listed listed, Node.keyId, plain]
      simp
    constructor
    · intro run
      rw [decodeEntries] at run
      split at run
      · cases run
      · next plain =>
        obtain ⟨v, first, run⟩ := bind_eq_ok run
        obtain ⟨later, others, run⟩ := bind_eq_ok run
        obtain ⟨listed, distinct⟩ := decodeEntries_eq_ok_iff.1 others
        split at run
        · cases run
        · next absent =>
          cases run
          refine ⟨?_, ?_⟩
          · simp only [MappingDecoder.listed, ofEnv, Bool.false_eq_true, if_false, plain]
            show (decodeAny env value >>= fun v => (ofEnv env).listed rest >>= fun later =>
              Except.ok ((key.value, v) :: later)) = _
            rw [first, listed]
            rfl
          · rw [not_or, not_not, not_not] at plain
            rw [keyIds, List.nodup_cons, fresh later listed plain.1]
            exact ⟨absent, distinct⟩
    · rintro ⟨run, distinct⟩
      rw [keyIds, List.nodup_cons] at distinct
      simp only [listed, ofEnv, Bool.false_eq_true, if_false] at run
      obtain ⟨k, text, run⟩ := bind_eq_ok run
      split at text
      · cases text
      · next plain =>
        cases text
        obtain ⟨v, first, run⟩ := bind_eq_ok run
        obtain ⟨later, listed, run⟩ := bind_eq_ok run
        cases run
        have others := decodeEntries_eq_ok_iff.2 ⟨listed, distinct.2⟩
        have absent := distinct.1
        rw [fresh later listed (by simpa using (not_or.1 plain).1)] at absent
        rw [decodeEntries, if_neg plain, first, others]
        show (if (later.map Prod.fst).contains key.value = true then _ else _) = _
        rw [if_neg absent]

theorem offered_ofEnv (env : Env) : ∀ content : List Node, (ofEnv env).offered content = .ok .empty
  | [] => rfl
  | [_] => rfl
  | _ :: _ :: rest => offered_ofEnv env rest

/-- The variable package decodes the contents that its decoder decodes. -/
theorem decodes_ofEnv {env : Env} {content : List Node} (even : content.length % 2 = 0) :
    (∃ m, (ofEnv env).decode content = .ok m) ↔ ∃ es, decodeEntries env content = .ok es := by
  constructor
  · rintro ⟨m, run⟩
    obtain ⟨own, _, reads, -⟩ := (ofEnv env).decode_eq_ok_iff.1 run
    exact ⟨own, decodeEntries_eq_ok_iff.2 ⟨reads.listed, reads.distinct⟩⟩
  · rintro ⟨es, run⟩
    obtain ⟨listed, distinct⟩ := decodeEntries_eq_ok_iff.1 run
    exact ⟨_, (ofEnv env).decode_eq_ok_iff.2 ⟨es, .empty, ⟨even, distinct, listed, offered_ofEnv env content⟩, rfl⟩⟩

end MappingDecoder

/-! ## The walk before the decoder -/

section Walk
variable (env : Env) (ctx : Val)

/-- A walk changes no key. -/
theorem keyIds_processEntries : ∀ (content : List Node) (path : Path) (h : Heap),
    keyIds (processEntries env ctx content path h).2.1 = keyIds content ∧
      (processEntries env ctx content path h).2.1.length = content.length
  | [], _, _ => ⟨rfl, rfl⟩
  | [_], _, _ => ⟨rfl, rfl⟩
  | key :: value :: rest, path, h => by
    rw [processEntries]
    split
    · exact ⟨rfl, rfl⟩
    · generalize processNode env ctx value (path ++ [.key key.value]) h = outcome
      obtain ⟨result, value', h'⟩ := outcome
      cases result with
      | error f => exact ⟨rfl, rfl⟩
      | ok u =>
        obtain ⟨keys, length⟩ := keyIds_processEntries rest path h'
        exact ⟨by simp only [keyIds, keys], by simp only [List.length_cons, length]⟩

/-- The keys of a content that is cut after the value of a key. -/
theorem keyIds_cut : ∀ {a b c : List Node}, a.length % 2 = 0 → keyIds c = keyIds (a ++ b) →
    c.length = (a ++ b).length → keyIds (c.take a.length) = keyIds a ∧ keyIds (c.drop a.length) = keyIds b
  | [], _, _, _, keys, _ => ⟨rfl, keys⟩
  | [_], _, _, odd, _, _ => by simp at odd
  | key :: value :: a, b, c, even, keys, length => by
    match c, length with
    | key' :: value' :: c, length =>
      simp only [List.cons_append, keyIds, List.cons.injEq] at keys
      simp only [List.cons_append, List.length_cons, Nat.add_right_cancel_iff] at length
      obtain ⟨before, after⟩ := keyIds_cut (even_tail even) keys.2 length
      simp only [List.length_cons, List.take_succ_cons, List.drop_succ_cons, keyIds, keys.1, before, after, and_self]

/-- A node is parsed exactly when the walk succeeds and the walked content decodes. -/
theorem parseYamlNode_mapping_ok_iff {node : Node} (mapping : node.kind = .mapping) (even : node.content.length % 2 = 0)
    (h : Heap) :
    (∃ es, (parseYamlNode env ctx node h).1 = .ok es) ↔
      (walkNode env ctx node h).1 = .ok () ∧
        ∃ es, decodeEntries env (processEntries env ctx node.content [] h).2.1 = .ok es := by
  obtain ⟨kind, tag, value, content⟩ := node
  simp only [Node.kind] at mapping
  subst mapping
  have walked : walkNode env ctx (.mk .mapping tag value content) h =
      ((processEntries env ctx content [] h).1, .mk .mapping tag value (processEntries env ctx content [] h).2.1,
        .mk .mapping tag value (processEntries env ctx content [] h).2.1, (processEntries env ctx content [] h).2.2) := by
    rw [walkNode_eq env ctx (by simp [Node.kind])]
    simp only [processNode, show ¬ content.length % 2 ≠ 0 from not_not.2 even, if_false]
    rfl
  rw [parseYamlNode, walked]
  simp only [Node.content]
  generalize processEntries env ctx content [] h = outcome
  obtain ⟨result, done, h'⟩ := outcome
  cases result with
  | error f => simp
  | ok u =>
    simp only [decodeMap, decodeRoot]
    cases decodeEntries env done with
    | error e =>
      constructor
      · rintro ⟨es, run⟩
        cases run
      · rintro ⟨-, es, run⟩
        cases run
    | ok es => exact ⟨fun _ => ⟨trivial, es, rfl⟩, fun _ => ⟨some es, rfl⟩⟩

end Walk

/-- A merge that fails to render the node for its first host fails. -/
theorem mergeRuntime_fails {env : Env} {node : Node}
    (refused : ∀ ctx h es, (parseYamlNode env ctx node h).1 ≠ .ok es) {hosts : List String} (targets : hosts ≠ [])
    (val : Value) (h : Heap) : (mergeRuntime env hosts node val h).1 ≠ .ok () := by
  cases hosts with
  | nil => exact absurd rfl targets
  | cons hostname rest =>
    have failed : ∀ es, (renderFor env val hostname node h).1 ≠ .ok es := by
      intro es
      unfold renderFor
      cases getAllVariable env.localIP val hostname h with
      | none => simp
      | some ctx => exact refused ctx.1 ctx.2 es
    rw [mergeRuntime]
    generalize renderFor env val hostname node h = outcome at failed
    obtain ⟨result, node', h'⟩ := outcome
    cases result with
    | error f => simp
    | ok es => exact absurd rfl (failed es)

/-! ## Precedence -/

section Nodes

variable {a b : Node}

theorem combineMappingNode_mapping (mapA : a.kind = .mapping) (mapB : b.kind = .mapping) :
    (combineMappingNode (some a) b).kind = .mapping ∧
      (combineMappingNode (some a) b).content = a.content ++ b.content := by
  obtain ⟨kind, tag, value, content⟩ := a
  obtain ⟨kind', tag', value', content'⟩ := b
  simp only [Node.kind] at mapA mapB
  subst mapA mapB
  exact ⟨rfl, rfl⟩

theorem combineMappingNode_zero (zero : a.isZero = true) : combineMappingNode (some a) b = b := by
  show (if a.isZero = true then b else _) = b
  rw [if_pos zero]

theorem MappingDecoder.decodeNode_eq_ok_iff {D : MappingDecoder} {m : GoMap Lit} :
    D.decodeNode a = .ok m ↔ a.kind = .mapping ∧ D.decode a.content = .ok m := by
  unfold decodeNode
  split
  · next mapping => simp [mapping]
  · next other => simp [other]

end Nodes

section Files

variable (load : String → Except VarsFileErr Node)

/-- The mapping that a vars file gives. -/
def varsRoot (varsFile : String) : Option Node :=
  match load varsFile with
  | .ok (.mk .document _ _ [node]) => if node.kind = .mapping then some node else none
  | _ => none

theorem combineDocument_ok {vars doc vars' : Node} (start : vars.isZero = true ∨ vars.kind = .mapping)
    (run : combineDocument vars doc = .ok vars') : ∃ tag value node, doc = .mk .document tag value [node] ∧
      (node.kind ≠ .mapping ∧ vars' = vars ∨
        node.kind = .mapping ∧ vars'.kind = .mapping ∧ vars'.content = vars.content ++ node.content) := by
  unfold combineDocument at run
  split at run
  · next tag value node =>
    refine ⟨tag, value, node, rfl, ?_⟩
    cases run
    by_cases mapping : node.kind = .mapping
    · rw [if_pos mapping]
      rcases start with zero | map
      · rw [combineMappingNode_zero zero]
        have blank : vars.content = [] := by
          simp only [Node.isZero, Bool.and_eq_true, List.isEmpty_iff] at zero
          exact zero.2
        exact .inr ⟨mapping, mapping, by rw [blank, List.nil_append]⟩
      · exact .inr ⟨mapping, combineMappingNode_mapping map mapping⟩
    · rw [if_neg mapping]
      exact .inl ⟨mapping, rfl⟩
  · cases run

/-- The variables that `dealVarsFiles` leaves: the content of every file behind the content that was there. -/
theorem dealVarsFiles_content : ∀ {files : List String} {vars vars' : Node},
    vars.isZero = true ∨ vars.kind = .mapping → dealVarsFiles load files vars = .ok vars' →
      vars'.content = vars.content ++ (files.filterMap (varsRoot load)).flatMap Node.content
  | [], vars, vars', _, run => by
    cases run
    simp
  | varsFile :: rest, vars, vars', start, run => by
    rw [dealVarsFiles] at run
    cases loaded : load varsFile with
    | error e =>
      rw [loaded] at run
      cases run
    | ok doc =>
      rw [loaded] at run
      cases combined : combineDocument vars doc with
      | error e =>
        simp only [combined] at run
        cases run
      | ok between =>
        simp only [combined] at run
        obtain ⟨tag, value, node, rfl, kept | ⟨mapping, map, content⟩⟩ := combineDocument_ok start combined
        · obtain ⟨other, rfl⟩ := kept
          have skipped : varsRoot load varsFile = none := by
            simp only [varsRoot, loaded, other, if_false]
          rw [List.filterMap_cons_none skipped]
          exact dealVarsFiles_content start run
        · have taken : varsRoot load varsFile = some node := by
            simp only [varsRoot, loaded, mapping, if_true]
          rw [List.filterMap_cons_some taken, List.flatMap_cons, ← List.append_assoc, ← content]
          exact dealVarsFiles_content (.inr map) run

end Files

/-- Any number of contents put behind each other decode exactly when no two of them list a key in common. -/
theorem MappingDecoder.decode_flatMap_iff (D : MappingDecoder) : ∀ {nodes : List Node},
    (∀ node ∈ nodes, ∃ m, D.decode node.content = .ok m) →
      ((∃ m, D.decode (nodes.flatMap Node.content) = .ok m) ↔ nodes.Pairwise KeysApart)
  | [], _ => iff_of_true ⟨.empty, rfl⟩ .nil
  | node :: rest, decodes => by
    have later := D.decode_flatMap_iff fun node there => decodes node (List.mem_cons_of_mem _ there)
    obtain ⟨m, run⟩ := decodes node List.mem_cons_self
    obtain ⟨own, others, reads, -⟩ := D.decode_eq_ok_iff.1 run
    have keys : ∀ nodes : List Node, (∀ node ∈ nodes, ∃ m, D.decode node.content = .ok m) →
        keyIds (nodes.flatMap Node.content) = nodes.flatMap fun node => keyIds node.content := by
      intro nodes decodes
      induction nodes with
      | nil => rfl
      | cons node rest ih =>
        obtain ⟨m, run⟩ := decodes node List.mem_cons_self
        obtain ⟨own, others, reads, -⟩ := D.decode_eq_ok_iff.1 run
        rw [List.flatMap_cons, keyIds_append _ _ reads.even, List.flatMap_cons,
          ih fun node there => decodes node (List.mem_cons_of_mem _ there)]
    rw [List.flatMap_cons, D.decode_append_iff reads.even, later, List.pairwise_cons,
      keys rest fun node there => decodes node (List.mem_cons_of_mem _ there)]
    constructor
    · rintro ⟨-, pairwise, apart⟩
      exact ⟨fun other there id here again => apart id here (List.mem_flatMap.2 ⟨other, there, again⟩), pairwise⟩
    · rintro ⟨apart, pairwise⟩
      refine ⟨⟨m, run⟩, pairwise, fun id here again => ?_⟩
      obtain ⟨other, there, again⟩ := List.mem_flatMap.1 again
      exact apart other there id here again

section Precedence

variable (D : MappingDecoder) (a b : Node)

/-- `b` takes precedence in the combination, and `a` where `b` has nothing. -/
def Overrides (ma mb : GoMap Lit) : Prop :=
  ∃ m, D.decodeNode (combineMappingNode (some a) b) = .ok m ∧ ∀ k, m.get? k = (mb.get? k).or (ma.get? k)

variable {D a b}

/-- The second mapping takes precedence exactly when it lists no key of the first, and merges in none with another
value. -/
theorem overrides_iff {ma mb : GoMap Lit} (decodesA : D.decodeNode a = .ok ma) (decodesB : D.decodeNode b = .ok mb) :
    Overrides D a b ma mb ↔ KeysApart a b ∧ MergesApart D a b := by
  obtain ⟨mapA, runA⟩ := MappingDecoder.decodeNode_eq_ok_iff.1 decodesA
  obtain ⟨mapB, runB⟩ := MappingDecoder.decodeNode_eq_ok_iff.1 decodesB
  obtain ⟨kind, content⟩ := combineMappingNode_mapping mapA mapB
  obtain ⟨x, xs, first, rfl⟩ := D.decode_eq_ok_iff.1 runA
  obtain ⟨y, ys, second, rfl⟩ := D.decode_eq_ok_iff.1 runB
  have combined : ∀ m, D.decodeNode (combineMappingNode (some a) b) = .ok m ↔
      D.decode (a.content ++ b.content) = .ok m := by
    intro m
    rw [MappingDecoder.decodeNode_eq_ok_iff, content, kind]
    exact and_iff_right rfl
  constructor
  · rintro ⟨m, run, precedes⟩
    rw [combined] at run
    refine ⟨((D.decode_append_iff first.even).1 ⟨m, run⟩).2.2, ?_⟩
    intro own later offers k v w listedA listedB offeredB here absent there
    rw [first.listed, Except.ok.injEq] at listedA
    rw [second.listed, Except.ok.injEq] at listedB
    rw [second.offered, Except.ok.injEq] at offeredB
    subst listedA listedB offeredB
    have value := precedes k
    rw [D.get?_append first second run k, GoMap.get?_fill, GoMap.get?_fill, here, absent, there] at value
    exact Option.some.inj value
  · rintro ⟨apart, merges⟩
    obtain ⟨m, run⟩ := (D.decode_append_iff first.even).2 ⟨⟨_, runA⟩, ⟨_, runB⟩, apart⟩
    refine ⟨m, (combined m).2 run, fun k => ?_⟩
    rw [D.get?_append first second run k, GoMap.get?_fill, GoMap.get?_fill]
    by_cases merging : D.hasMerge a.content = true
    · have plain := second.offered
      rw [D.offered_of_no_merge (D.no_merge_of_apart apart merging), Except.ok.injEq] at plain
      simp [merging, ← plain, Option.or_assoc]
    · have plain := first.offered
      rw [D.offered_of_no_merge (by simpa using merging), Except.ok.injEq] at plain
      rw [if_neg merging, ← plain, GoMap.get?_empty, Option.or_none]
      cases later : (GoMap.ofList y).get? k with
      | some w => rfl
      | none =>
        cases own : (GoMap.ofList x).get? k with
        | none => simp
        | some v =>
          cases offers : ys.get? k with
          | none => rfl
          | some w =>
            rw [merges x y ys k v w first.listed second.listed second.offered own later offers]

/-- The combination is rendered exactly when the walk succeeds on it, the two parts decode, and they list no key in
common. -/
theorem parse_combined_iff (env : Env) (mapA : a.kind = .mapping) (mapB : b.kind = .mapping)
    (evenA : a.content.length % 2 = 0) (evenB : b.content.length % 2 = 0) (ctx : Val) (h : Heap) :
    (∃ es, (parseYamlNode env ctx (combineMappingNode (some a) b) h).1 = .ok es) ↔
      KeysApart a b ∧ (walkNode env ctx (combineMappingNode (some a) b) h).1 = .ok () ∧
        ∃ before after, (processEntries env ctx (a.content ++ b.content) [] h).2.1 = before ++ after ∧
          before.length = a.content.length ∧ (∃ es, decodeEntries env before = .ok es) ∧
          ∃ es, decodeEntries env after = .ok es := by
  obtain ⟨kind, content⟩ := combineMappingNode_mapping mapA mapB
  rw [parseYamlNode_mapping_ok_iff env ctx kind (by rw [content]; exact even_append evenA evenB) h, content]
  obtain ⟨keys, length⟩ := keyIds_processEntries env ctx (a.content ++ b.content) [] h
  generalize (processEntries env ctx (a.content ++ b.content) [] h).2.1 = done at keys length
  -- The walked content, cut where the first mapping ends.
  have cut : ∀ before after, done = before ++ after → before.length = a.content.length →
      ((∃ es, decodeEntries env done = .ok es) ↔ (∃ es, decodeEntries env before = .ok es) ∧
        (∃ es, decodeEntries env after = .ok es) ∧ KeysApart a b) := by
    rintro before after rfl same
    obtain ⟨keysA, keysB⟩ := keyIds_cut evenA keys length
    rw [← same, List.take_left] at keysA
    rw [← same, List.drop_left] at keysB
    have evenBefore : before.length % 2 = 0 := by rw [same]; exact evenA
    have evenAfter : after.length % 2 = 0 := by
      rw [List.length_append, List.length_append] at length
      omega
    rw [← MappingDecoder.decodes_ofEnv (even_append evenBefore evenAfter), ← MappingDecoder.decodes_ofEnv evenBefore,
      ← MappingDecoder.decodes_ofEnv evenAfter, MappingDecoder.decode_append_iff _ evenBefore, keysA, keysB]
    exact Iff.rfl
  constructor
  · rintro ⟨walked, decodes⟩
    have whole : done = done.take a.content.length ++ done.drop a.content.length := (List.take_append_drop _ _).symm
    have same : (done.take a.content.length).length = a.content.length := by
      rw [List.length_take, length, List.length_append]
      omega
    obtain ⟨before, after, apart⟩ := (cut _ _ whole same).1 decodes
    exact ⟨apart, walked, _, _, whole, same, before, after⟩
  · rintro ⟨apart, walked, before, after, whole, same, decodesBefore, decodesAfter⟩
    exact ⟨walked, (cut before after whole same).2 ⟨decodesBefore, decodesAfter, apart⟩⟩

/-- Combining mappings does what its comment says, and what depends on it goes on working, exactly when the mappings
list no key in common: the second mapping takes precedence, the combination is rendered whenever the walk passes and
the parts decode, and the variables of any number of files decode. -/
theorem combineMappingNode_precedence_iff {ma mb : GoMap Lit} (decodesA : D.decodeNode a = .ok ma)
    (decodesB : D.decodeNode b = .ok mb) :
    (Overrides D a b ma mb ↔ KeysApart a b ∧ MergesApart D a b) ∧
    (∀ env ctx h, (∃ es, (parseYamlNode env ctx (combineMappingNode (some a) b) h).1 = .ok es) ↔
      KeysApart a b ∧ (walkNode env ctx (combineMappingNode (some a) b) h).1 = .ok () ∧
        ∃ before after, (processEntries env ctx (a.content ++ b.content) [] h).2.1 = before ++ after ∧
          before.length = a.content.length ∧ (∃ es, decodeEntries env before = .ok es) ∧
          ∃ es, decodeEntries env after = .ok es) ∧
    (¬ KeysApart a b → ∀ env hosts val h, hosts ≠ [] →
      (mergeRuntime env hosts (combineMappingNode (some a) b) val h).1 ≠ .ok ()) ∧
    ∀ load files vars, dealVarsFiles load files a = .ok vars →
      (∀ node ∈ files.filterMap (varsRoot load), ∃ m, D.decode node.content = .ok m) →
        ((∃ m, D.decode vars.content = .ok m) ↔ (a :: files.filterMap (varsRoot load)).Pairwise KeysApart) := by
  obtain ⟨mapA, runA⟩ := MappingDecoder.decodeNode_eq_ok_iff.1 decodesA
  obtain ⟨mapB, runB⟩ := MappingDecoder.decodeNode_eq_ok_iff.1 decodesB
  obtain ⟨x, xs, first, -⟩ := D.decode_eq_ok_iff.1 runA
  obtain ⟨y, ys, second, -⟩ := D.decode_eq_ok_iff.1 runB
  have parsed := fun env ctx h => parse_combined_iff env mapA mapB first.even second.even ctx h
  refine ⟨overrides_iff decodesA decodesB, parsed, ?_, ?_⟩
  · intro shared env hosts val h targets
    refine mergeRuntime_fails (fun ctx h' es run => shared ?_) targets val h
    exact ((parsed env ctx h').1 ⟨es, run⟩).1
  · intro load files vars run decodes
    rw [dealVarsFiles_content load (.inr mapA) run, ← List.flatMap_cons]
    refine D.decode_flatMap_iff fun node member => ?_
    rcases List.mem_cons.1 member with rfl | there
    · exact ⟨ma, runA⟩
    · exact decodes node there

theorem combineMappingNode_precedence_apart :
    Overrides (.ofEnv plainEnv) (mapNode [("x", strNode "1")]) (mapNode [("y", strNode "2")])
      (GoMap.empty.put "x" (.scalar (.str "1"))) (GoMap.empty.put "y" (.scalar (.str "2"))) := by
  refine (combineMappingNode_precedence_iff (D := .ofEnv plainEnv) (by rfl) (by rfl)).1.2 ⟨by decide, ?_⟩
  intro own later offers k v w _ _ offered _ _ there
  cases offered
  cases there

/-- A variable with a default cannot be set: the two mappings no longer decode as one. -/
theorem combineMappingNode_shared : ¬ ∀ (D : MappingDecoder) (a b : Node) (ma mb : GoMap Lit),
    D.decodeNode a = .ok ma → D.decodeNode b = .ok mb → Overrides D a b ma mb := by
  intro overrides
  have shared := overrides (.ofEnv plainEnv) (mapNode [("x", strNode "1")]) (mapNode [("x", strNode "2")])
    (GoMap.empty.put "x" (.scalar (.str "1"))) (GoMap.empty.put "x" (.scalar (.str "2"))) (by rfl) (by rfl)
  obtain ⟨m, run, -⟩ := shared
  have refused : (MappingDecoder.ofEnv plainEnv).decodeNode
      (combineMappingNode (some (mapNode [("x", strNode "1")])) (mapNode [("x", strNode "2")])) =
        .error (.decode "mapping key already defined") := by rfl
  rw [refused] at run
  cases run

end Precedence

end KubeKey.Variable
