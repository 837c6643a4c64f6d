import KubeKey.Variable.Write

/-!
# The walk over a vars node

A walk stores one value for each scalar of the node, at the scalar's path, so the
heap it leaves is reached by the steps of `Put` at these paths. It keeps the
structure and the tags of the node and changes only the text of templates; a node
without templates is left as it was.
-/

namespace KubeKey.Variable

open KubeKey.Go

mutual

/-- The scalars of a node below `path`: where each is and its tag. -/
def Node.leaves : Node → Path → List (Path × String)
  | .mk .mapping _ _ content, path => entryLeaves content path
  | .mk .sequence _ _ content, path => itemLeaves content 0 path
  | .mk .scalar tag _ _, path => [(path, tag)]
  | _, _ => []

def entryLeaves : List Node → Path → List (Path × String)
  | key :: value :: rest, path => value.leaves (path ++ [.key key.value]) ++ entryLeaves rest path
  | _, _ => []

def itemLeaves : List Node → Nat → Path → List (Path × String)
  | [], _, _ => []
  | item :: rest, i, path => item.leaves (path ++ [.idx i]) ++ itemLeaves rest (i + 1) path

end

/-- The scalars that the walk over a vars node visits. -/
def Node.rootLeaves : Node → List (Path × String)
  | .mk .document _ _ content => content.flatMap fun dn => dn.leaves []
  | .mk kind tag value content => (Node.mk kind tag value content).leaves []

mutual

/-- No string value of the node is a template. -/
def Node.templateFree : Node → Bool
  | .mk .scalar tag value _ => (tag ≠ strTag && tag ≠ "") || !isTmplSyntax value
  | .mk .mapping _ _ content => entriesTemplateFree content
  | .mk _ _ _ content => templateFreeAll content

def entriesTemplateFree : List Node → Bool
  | _ :: value :: rest => value.templateFree && entriesTemplateFree rest
  | _ => true

def templateFreeAll : List Node → Bool
  | [] => true
  | node :: rest => node.templateFree && templateFreeAll rest

end

section Visited
variable (env : Env) (ctx : Val)

mutual

/-- The scalars that a walk stores a value for: all of them, or those before the one it fails at. -/
def Node.visited : Node → Path → Heap → List (Path × String)
  | .mk .mapping _ _ content, path, h => if content.length % 2 ≠ 0 then [] else entriesVisited content path h
  | .mk .sequence _ _ content, path, h => itemsVisited content 0 path h
  | .mk .scalar tag value _, path, h =>
    match parseScalarValue env (h.view ctx) tag value with
    | .error _ => []
    | .ok _ => [(path, tag)]
  | _, _, _ => []

def entriesVisited : List Node → Path → Heap → List (Path × String)
  | key :: value :: rest, path, h =>
    if key.kind ≠ .scalar then []
    else
      value.visited (path ++ [.key key.value]) h ++
        match processNode env ctx value (path ++ [.key key.value]) h with
        | (.ok _, _, h') => entriesVisited rest path h'
        | (.error _, _, _) => []
  | _, _, _ => []

def itemsVisited : List Node → Nat → Path → Heap → List (Path × String)
  | [], _, _, _ => []
  | item :: rest, i, path, h =>
    item.visited (path ++ [.idx i]) h ++
      match processNode env ctx item (path ++ [.idx i]) h with
      | (.ok _, _, h') => itemsVisited rest (i + 1) path h'
      | (.error _, _, _) => []

end

def documentVisited : List Node → Heap → List (Path × String)
  | [], _ => []
  | dn :: rest, h =>
    dn.visited env ctx [] h ++
      match processNode env ctx dn [] h with
      | (.ok _, _, h') => documentVisited rest h'
      | (.error _, _, _) => []

/-- The scalars that the walk over a vars node stores a value for. -/
def Node.rootVisited : Node → Heap → List (Path × String)
  | .mk .document _ _ content, h => documentVisited env ctx content h
  | .mk kind tag value content, h => (Node.mk kind tag value content).visited env ctx [] h

end Visited

/-- One step of storing a value for one of the scalars. A null scalar stores nil. -/
def StoreStep (ctx : Val) (leaves : List (Path × String)) (h h' : Heap) : Prop :=
  ∃ q tag v, (q, tag) ∈ leaves ∧ (tag = nullTag → v = .null) ∧ Put ctx q v h h'

/-- Any number of steps for any of the scalars. -/
abbrev Stores (ctx : Val) (leaves : List (Path × String)) : Heap → Heap → Prop :=
  Relation.ReflTransGen (StoreStep ctx leaves)

theorem Stores.mono {ctx : Val} {leaves leaves' : List (Path × String)} {h h' : Heap} (stores : Stores ctx leaves h h')
    (more : ∀ e ∈ leaves, e ∈ leaves') : Stores ctx leaves' h h' :=
  Relation.ReflTransGen.mono (fun _ _ ⟨q, tag, v, member, null, put⟩ => ⟨q, tag, v, more _ member, null, put⟩) _ _ stores

theorem Stores.storable {ctx : Val} {leaves : List (Path × String)} {h h' : Heap} (stores : Stores ctx leaves h h')
    (storable : Storable h ctx) : Storable h' ctx := by
  induction stores with
  | refl => exact storable
  | tail _ step ih =>
    obtain ⟨_, _, _, _, _, put⟩ := step
    exact put.storable ih

theorem Stores.size_le {ctx : Val} {leaves : List (Path × String)} {h h' : Heap} (stores : Stores ctx leaves h h') :
    h.size ≤ h'.size := by
  induction stores with
  | refl => exact Nat.le_refl _
  | tail _ step ih =>
    obtain ⟨_, _, _, _, _, put⟩ := step
    exact Nat.le_trans ih put.size_le

theorem parseScalarValue_null {env : Env} {ctx : DeepView} {tag value text : String} {v : Scalar}
    (run : parseScalarValue env ctx tag value = .ok (v, text)) (null : tag = nullTag) : v = .null := by
  rw [parseScalarValue, if_pos null] at run
  cases run
  rfl

mutual

theorem visited_leaves (env : Env) (ctx : Val) : ∀ (node : Node) (path : Path) (h : Heap),
    ∀ e ∈ node.visited env ctx path h, e ∈ node.leaves path
  | .mk .mapping tag value content, path, h => by
    intro e member
    rw [Node.visited] at member
    split at member
    · cases member
    · exact entriesVisited_leaves env ctx content path h e member
  | .mk .sequence tag value content, path, h => itemsVisited_leaves env ctx content 0 path h
  | .mk .scalar tag value content, path, h => by
    intro e member
    rw [Node.visited] at member
    split at member
    · cases member
    · exact member
  | .mk .zero tag value content, path, h => fun _ member => member
  | .mk .document tag value content, path, h => fun _ member => member
  | .mk .alias tag value content, path, h => fun _ member => member

theorem entriesVisited_leaves (env : Env) (ctx : Val) : ∀ (content : List Node) (path : Path) (h : Heap),
    ∀ e ∈ entriesVisited env ctx content path h, e ∈ entryLeaves content path
  | key :: value :: rest, path, h => by
    intro e member
    rw [entriesVisited] at member
    rw [entryLeaves]
    split at member
    · cases member
    · rcases List.mem_append.1 member with here | later
      · exact List.mem_append_left _ (visited_leaves env ctx value _ h e here)
      · split at later
        · exact List.mem_append_right _ (entriesVisited_leaves env ctx rest path _ e later)
        · cases later
  | [], path, h => fun _ member => member
  | [_], path, h => fun _ member => member

theorem itemsVisited_leaves (env : Env) (ctx : Val) : ∀ (items : List Node) (i : Nat) (path : Path) (h : Heap),
    ∀ e ∈ itemsVisited env ctx items i path h, e ∈ itemLeaves items i path
  | [], i, path, h => fun _ member => member
  | item :: rest, i, path, h => by
    intro e member
    rw [itemsVisited] at member
    rw [itemLeaves]
    rcases List.mem_append.1 member with here | later
    · exact List.mem_append_left _ (visited_leaves env ctx item _ h e here)
    · split at later
      · exact List.mem_append_right _ (itemsVisited_leaves env ctx rest (i + 1) path _ e later)
      · cases later

end

theorem rootVisited_leaves (env : Env) (ctx : Val) (node : Node) (h : Heap) :
    ∀ e ∈ node.rootVisited env ctx h, e ∈ node.rootLeaves := by
  obtain ⟨kind, tag, value, content⟩ := node
  cases kind with
  | document =>
    show ∀ e ∈ documentVisited env ctx content h, e ∈ content.flatMap fun dn => dn.leaves []
    induction content generalizing h with
    | nil => exact fun _ member => member
    | cons dn rest ih =>
      intro e member
      rw [documentVisited] at member
      rw [List.flatMap_cons]
      rcases List.mem_append.1 member with here | later
      · exact List.mem_append_left _ (visited_leaves env ctx dn _ h e here)
      · split at later
        · exact List.mem_append_right _ (ih _ e later)
        · cases later
  | _ => exact visited_leaves env ctx _ [] h

mutual

/-- The heap that a walk leaves, whether it succeeds or not. -/
theorem processNode_stores (env : Env) (ctx : Val) : ∀ (node : Node) (path : Path) (h : Heap), Storable h ctx →
    Stores ctx (node.visited env ctx path h) h (processNode env ctx node path h).2.2
  | .mk .mapping tag value content, path, h, storable => by
    rw [processNode, Node.visited]
    split
    · exact .refl
    · exact processEntries_stores env ctx content path h storable
  | .mk .sequence tag value content, path, h, storable => by
    rw [processNode, Node.visited]
    exact processItems_stores env ctx content 0 path h storable
  | .mk .scalar tag value content, path, h, storable => by
    rw [processNode, Node.visited]
    cases run : parseScalarValue env (h.view ctx) tag value with
    | error e => exact .refl
    | ok result =>
      obtain ⟨v, text⟩ := result
      have puts := setContextValue_puts v path storable
      exact Relation.ReflTransGen.mono
        (fun _ _ put => ⟨path, tag, v, by simp, parseScalarValue_null run, put⟩) _ _ puts
  | .mk .zero tag value content, path, h, storable => .refl
  | .mk .document tag value content, path, h, storable => .refl
  | .mk .alias tag value content, path, h, storable => .refl

theorem processEntries_stores (env : Env) (ctx : Val) : ∀ (content : List Node) (path : Path) (h : Heap),
    Storable h ctx →
      Stores ctx (entriesVisited env ctx content path h) h (processEntries env ctx content path h).2.2
  | key :: value :: rest, path, h, storable => by
    rw [processEntries, entriesVisited]
    split
    · exact .refl
    · have first := processNode_stores env ctx value (path ++ [.key key.value]) h storable
      generalize processNode env ctx value (path ++ [.key key.value]) h = outcome at first
      obtain ⟨result, value', h'⟩ := outcome
      cases result with
      | ok u =>
        have later := processEntries_stores env ctx rest path h' (first.storable storable)
        exact (first.mono fun e member => List.mem_append_left _ member).trans
          (later.mono fun e member => List.mem_append_right _ member)
      | error f => exact first.mono fun e member => List.mem_append_left _ member
  | [], path, h, storable => .refl
  | [_], path, h, storable => .refl

theorem processItems_stores (env : Env) (ctx : Val) : ∀ (items : List Node) (i : Nat) (path : Path) (h : Heap),
    Storable h ctx → Stores ctx (itemsVisited env ctx items i path h) h (processItems env ctx items i path h).2.2
  | [], i, path, h, storable => .refl
  | item :: rest, i, path, h, storable => by
    rw [processItems, itemsVisited]
    have first := processNode_stores env ctx item (path ++ [.idx i]) h storable
    generalize processNode env ctx item (path ++ [.idx i]) h = outcome at first
    obtain ⟨result, item', h'⟩ := outcome
    cases result with
    | ok u =>
      have later := processItems_stores env ctx rest (i + 1) path h' (first.storable storable)
      exact (first.mono fun e member => List.mem_append_left _ member).trans
        (later.mono fun e member => List.mem_append_right _ member)
    | error f => exact first.mono fun e member => List.mem_append_left _ member

end

theorem processDocument_stores (env : Env) (ctx : Val) (content : List Node) (h : Heap) (storable : Storable h ctx) :
    Stores ctx (documentVisited env ctx content h) h (walkNode.processDocument env ctx content h).2.2 := by
  induction content generalizing h with
  | nil => exact .refl
  | cons dn rest ih =>
    rw [walkNode.processDocument, documentVisited]
    have first := processNode_stores env ctx dn [] h storable
    generalize processNode env ctx dn [] h = outcome at first
    obtain ⟨result, dn', h'⟩ := outcome
    cases result with
    | ok u =>
      exact (first.mono fun e member => List.mem_append_left _ member).trans
        ((ih h' (first.storable storable)).mono fun e member => List.mem_append_right _ member)
    | error f => exact first.mono fun e member => List.mem_append_left _ member

theorem walkNode_stores (env : Env) (ctx : Val) (node : Node) (h : Heap) (storable : Storable h ctx) :
    Stores ctx (node.rootVisited env ctx h) h (walkNode env ctx node h).2.2.2 := by
  obtain ⟨kind, tag, value, content⟩ := node
  cases kind with
  | document => exact processDocument_stores env ctx content h storable
  | _ => exact processNode_stores env ctx _ [] h storable

theorem parseYamlNode_stores (env : Env) (ctx : Val) (node : Node) (h : Heap) (storable : Storable h ctx) :
    Stores ctx (node.rootVisited env ctx h) h (parseYamlNode env ctx node h).2.2 := by
  have stores := walkNode_stores env ctx node h storable
  unfold parseYamlNode
  split
  · next run =>
    rw [run] at stores
    exact stores
  · next run =>
    rw [run] at stores
    split <;> exact stores

end KubeKey.Variable
