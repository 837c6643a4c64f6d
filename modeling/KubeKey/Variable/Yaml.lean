import Mathlib.Algebra.Ring.Int.Defs
import KubeKey.Variable.Get

/-!
# Rendering a vars node

`pkg/variable/yaml.go`. The walk visits the scalars of a node in document order.
A template string is rendered against the context and the result replaces the
text of the node; every value is then stored into the context at its path,
unless the context holds one there already. The context is a map that shares its
nested containers with the store, so storing into it may write into the store.

A run returns what it leaves behind also when it fails: the node as far as it
was rendered, and the heap.
-/

namespace KubeKey.Variable

open KubeKey.Go

/-- `yaml.Kind`. -/
inductive NodeKind where
  | zero | document | sequence | mapping | scalar | alias
deriving DecidableEq, Repr

/-- `yaml.Node`, as far as it is read here. Nodes come from the parser, which resolves the tag of every scalar. -/
inductive Node where
  | mk (kind : NodeKind) (tag value : String) (content : List Node)

def Node.kind : Node → NodeKind
  | .mk k _ _ _ => k

def Node.tag : Node → String
  | .mk _ t _ _ => t

def Node.value : Node → String
  | .mk _ _ v _ => v

def Node.content : Node → List Node
  | .mk _ _ _ c => c

/-- `Node.IsZero`. -/
def Node.isZero (n : Node) : Bool :=
  n.kind = .zero && n.tag = "" && n.value = "" && n.content.isEmpty

def nullTag : String := "!!null"
def boolTag : String := "!!bool"
def strTag : String := "!!str"
def intTag : String := "!!int"
def floatTag : String := "!!float"

inductive Err where
  | oddMapping
  | keyNotScalar
  | unsupportedKind (kind : NodeKind)
  | parseBool (value : String)
  | parseInt (value : String)
  | parseFloat (value : String)
  | template (msg : String)
  | expectedMap (path : Path)
  | expectedSlice (path : Path)
  | decode (msg : String)
  | hostNotExist (hostname : String)
  | write (hostname : String)
deriving DecidableEq, Repr

/-- How a call can end without a result: it returns an error, panics, or does not return. -/
inductive Fault where
  | error (e : Err)
  | panic
  | diverge
deriving DecidableEq, Repr

/-- The libraries behind the variable package. -/
structure Env where
  /-- Rendering a template string against a context (`text/template` with the function map). -/
  render : DeepView → String → Except String String
  /-- The address of this machine for an address family. -/
  localIP : String → String
  /-- `strconv.ParseFloat` to a bit pattern. -/
  parseFloat : String → Option UInt64
  /-- How `yaml.v3` decodes a scalar with the given tag and text. -/
  decodeScalar : String → String → Except String Scalar
  /-- Only the null tag decodes to nil. -/
  decodeScalar_ne_null : ∀ tag value, tag ≠ nullTag → decodeScalar tag value ≠ .ok .null

/-- `strings.Contains` on characters. -/
def containsSub (pat : List Char) : List Char → Bool
  | [] => pat.isEmpty
  | c :: cs => pat.isPrefixOf (c :: cs) || containsSub pat cs

/-- `IsTmplSyntax`. -/
def isTmplSyntax (s : String) : Bool :=
  containsSub ['\x7b', '\x7b'] s.toList && containsSub ['\x7d', '\x7d'] s.toList

/-- `strconv.ParseBool`. -/
def parseBool (s : String) : Option Bool :=
  if s ∈ ["1", "t", "T", "TRUE", "true", "True"] then some true
  else if s ∈ ["0", "f", "F", "FALSE", "false", "False"] then some false
  else none

def digitsVal (acc : Nat) : List Char → Option Nat
  | [] => some acc
  | c :: cs => if c.isDigit then digitsVal (10 * acc + (c.toNat - '0'.toNat)) cs else none

def decimal : List Char → Option Nat
  | [] => none
  | cs => digitsVal 0 cs

/-- `strconv.Atoi` on a 64-bit platform. -/
def atoi (s : String) : Option Int :=
  let signed : Option Int := match s.toList with
    | '-' :: cs => (decimal cs).map fun n => -(n : Int)
    | '+' :: cs => (decimal cs).map fun n => (n : Int)
    | cs => (decimal cs).map fun n => (n : Int)
  signed.filter fun i => decide (-(2 ^ 63) ≤ i) && decide (i < 2 ^ 63)

/-- `parseScalarValue`: the value stored into the context and the text left in the node. -/
def parseScalarValue (env : Env) (ctx : DeepView) (tag value : String) : Except Err (Scalar × String) :=
  if tag = nullTag then .ok (.null, value)
  else if tag = boolTag then
    match parseBool value with
    | some b => .ok (.bool b, value)
    | none => .error (.parseBool value)
  else if tag = strTag ∨ tag = "" then
    if isTmplSyntax value then
      match env.render ctx value with
      | .ok pv => .ok (.str pv, pv)
      | .error e => .error (.template e)
    else .ok (.str value, value)
  else if tag = intTag then
    match atoi value with
    | some i => .ok (.int64 i, value)
    | none => .error (.parseInt value)
  else if tag = floatTag then
    match env.parseFloat value with
    | some bits => .ok (.float64 bits, value)
    | none => .error (.parseFloat value)
  else .ok (.str value, value)

/-- A run on the heap: the outcome and the heap it leaves, also on failure. -/
abbrev Outcome (α : Type) := Except Fault α × Heap

/-- Continue after a success. -/
def Outcome.andThen {α β : Type} (r : Outcome α) (f : α → Heap → Outcome β) : Outcome β :=
  match r with
  | (.ok a, h) => f a h
  | (.error e, h) => (.error e, h)

/-- Store one element by reflection: panics unless the position exists and admits the value. -/
def storeElem (l : Nat) (s : Seg) (v : Val) (h : Heap) : Outcome Unit :=
  match h.get? l with
  | some o => if o.accepts s && h.admits o.elem v then (.ok (), h.setChild l s v) else (.error .panic, h)
  | none => (.error .panic, h)

/-- `updateParents`, innermost parent first. -/
def updateParents : List (Nat × Seg) → Val → Heap → Outcome Unit
  | [], _, h => (.ok (), h)
  | (parent, key) :: rest, value, h =>
    (storeElem parent key value h).andThen fun _ h => updateParents rest (.ref parent) h

/-- `isNil` of an element: the nil interface, or a nil map or slice in a container of these. -/
def isNilElem (elem : GoType) (v : Val) : Bool :=
  match elem, v with
  | .any, .scalar .null => true
  | .any, _ => false
  | _, .nilMap _ => true
  | _, .nilSlice _ => true
  | _, _ => false

/-- A missing or nil element. -/
def isMissing (elem : GoType) : Option Val → Bool
  | none => true
  | some v => isNilElem elem v

def zeroVal : GoType → Val
  | .any => .null
  | .bool => .scalar (.bool false)
  | .int => .scalar (.int 0)
  | .int64 => .scalar (.int64 0)
  | .float64 => .scalar (.float64 0)
  | .string => .scalar (.str "")
  | .time => .scalar (.time "")
  | .slice t => .nilSlice t
  | .map t => .nilMap t

/-- The container made for the next step of a path. -/
def newContainer : Seg → Obj
  | .key _ => .map .any .empty
  | .idx _ => .slice .any []

/-- The element type and the items of a value of kind slice. -/
def asSlice (h : Heap) : Val → Option (GoType × List Val)
  | .nilSlice t => some (t, [])
  | .ref l => match h.get? l with
    | some (.slice t xs) => some (t, xs)
    | _ => none
  | _ => none

/-- Make the array long enough for index `i`: a longer copy takes its place in the parents. -/
def growSlice (parents : List (Nat × Seg)) (current : Val) (elem : GoType) (items : List Val) (i : Nat) (h : Heap) :
    Outcome Val :=
  if items.length ≤ i then
    let (l, h) := h.alloc (.slice elem (items ++ List.replicate (i + 1 - items.length) (zeroVal elem)))
    (updateParents parents (.ref l) h).andThen fun _ h => (.ok (.ref l), h)
  else (.ok current, h)

/-- Store at the last step unless an element is there, then write the container back into its parents. -/
def storeLast (parents : List (Nat × Seg)) (l : Nat) (elem : GoType) (s : Seg) (value : Scalar) (h : Heap) :
    Outcome Unit :=
  if isMissing elem (h.child (.ref l) s) then
    (storeElem l s (.scalar value) h).andThen fun _ h => updateParents parents (.ref l) h
  else updateParents parents (.ref l) h

/-- The element below which the path continues, made if it is missing. -/
def descend (l : Nat) (elem : GoType) (s next : Seg) (h : Heap) : Outcome Val :=
  match h.child (.ref l) s with
  | some v =>
    if isNilElem elem v then
      let (fresh, h) := h.alloc (newContainer next)
      (storeElem l s (.ref fresh) h).andThen fun _ h => (.ok (.ref fresh), h)
    else (.ok v, h)
  | none =>
    let (fresh, h) := h.alloc (newContainer next)
    (storeElem l s (.ref fresh) h).andThen fun _ h => (.ok (.ref fresh), h)

/-- The loop of `setContextValue` with `handleMap` and `handleSlice` as its two kinds of step. -/
def setPath (value : Scalar) (full : Path) : List (Nat × Seg) → Val → Path → Heap → Outcome Unit
  | _, _, [], h => (.ok (), h)
  | parents, current, .key k :: rest, h =>
    match asMap h current, current with
    | none, _ => (.error (.error (.expectedMap full)), h)
    | some _, .ref l =>
      let elem := ((h.get? l).map Obj.elem).getD .any
      match rest with
      | [] => storeLast parents l elem (.key k) value h
      | next :: _ =>
        (descend l elem (.key k) next h).andThen fun v h =>
          setPath value full ((l, .key k) :: parents) v rest h
    -- assignment to an entry of a nil map
    | some _, _ => (.error .panic, h)
  | parents, current, .idx i :: rest, h =>
    match asSlice h current with
    | none => (.error (.error (.expectedSlice full)), h)
    | some (elem, items) =>
      (growSlice parents current elem items i h).andThen fun current h =>
        match current with
        | .ref l =>
          match rest with
          | [] => storeLast parents l elem (.idx i) value h
          | next :: _ =>
            (descend l elem (.idx i) next h).andThen fun v h =>
              setPath value full ((l, .idx i) :: parents) v rest h
        | _ => (.error .panic, h)

/-- `setContextValue`. -/
def setContextValue (ctx : Val) (value : Scalar) (path : Path) (h : Heap) : Outcome Unit :=
  setPath value path [] ctx path h

mutual

/-- `processNode`: the outcome, the node as it is left, and the heap. -/
def processNode (env : Env) (ctx : Val) : Node → Path → Heap → Except Fault Unit × Node × Heap
  | .mk .mapping tag value content, path, h =>
    if content.length % 2 ≠ 0 then (.error (.error .oddMapping), .mk .mapping tag value content, h)
    else
      let (r, content, h) := processEntries env ctx content path h
      (r, .mk .mapping tag value content, h)
  | .mk .sequence tag value content, path, h =>
    let (r, content, h) := processItems env ctx content 0 path h
    (r, .mk .sequence tag value content, h)
  | .mk .scalar tag value content, path, h =>
    match parseScalarValue env (h.view ctx) tag value with
    | .error e => (.error (.error e), .mk .scalar tag value content, h)
    | .ok (v, text) =>
      let (r, h) := setContextValue ctx v path h
      (r, .mk .scalar tag text content, h)
  | .mk kind tag value content, _, h => (.error (.error (.unsupportedKind kind)), .mk kind tag value content, h)

/-- The loop of `processNode` over the pairs of a mapping. -/
def processEntries (env : Env) (ctx : Val) : List Node → Path → Heap → Except Fault Unit × List Node × Heap
  | key :: value :: rest, path, h =>
    if key.kind ≠ .scalar then (.error (.error .keyNotScalar), key :: value :: rest, h)
    else
      match processNode env ctx value (path ++ [.key key.value]) h with
      | (.ok _, value, h) =>
        let (r, rest, h) := processEntries env ctx rest path h
        (r, key :: value :: rest, h)
      | (.error f, value, h) => (.error f, key :: value :: rest, h)
  | rest, _, h => (.ok (), rest, h)

/-- The loop of `processNode` over the items of a sequence, from index `i`. -/
def processItems (env : Env) (ctx : Val) : List Node → Nat → Path → Heap → Except Fault Unit × List Node × Heap
  | [], _, _, h => (.ok (), [], h)
  | item :: rest, i, path, h =>
    match processNode env ctx item (path ++ [.idx i]) h with
    | (.ok _, item, h) =>
      let (r, rest, h) := processItems env ctx rest (i + 1) path h
      (r, item :: rest, h)
    | (.error f, item, h) => (.error f, item :: rest, h)

end

mutual

/-- `Node.Decode` into an `any`. Keys other than strings, merge keys and aliases are not modelled. -/
def decodeAny (env : Env) : Node → Except Err Lit
  | .mk .scalar tag value _ =>
    if tag = nullTag then .ok (.scalar .null)
    else match env.decodeScalar tag value with
      | .ok s => .ok (.scalar s)
      | .error e => .error (.decode e)
  | .mk .mapping _ _ content => do
    let entries ← decodeEntries env content
    .ok (.map .any entries)
  | .mk .sequence _ _ content => do
    let items ← decodeItems env content
    .ok (.slice .any items)
  | .mk kind _ _ _ => .error (.unsupportedKind kind)

/-- The entries of a mapping. A key may not be given twice. -/
def decodeEntries (env : Env) : List Node → Except Err (List (String × Lit))
  | key :: value :: rest => do
    if key.kind ≠ .scalar ∨ key.tag ≠ strTag then .error (.decode "key") else
    let x ← decodeAny env value
    let entries ← decodeEntries env rest
    if (entries.map Prod.fst).contains key.value then .error (.decode "mapping key already defined") else
    .ok ((key.value, x) :: entries)
  | _ => .ok []

def decodeItems (env : Env) : List Node → Except Err (List Lit)
  | [] => .ok []
  | item :: rest => do
    let x ← decodeAny env item
    let items ← decodeItems env rest
    .ok (x :: items)

end

/-- A node that is not a document, decoded into a `map[string]any`; `none` is the nil map. -/
def decodeRoot (env : Env) : Node → Except Err (Option (List (String × Lit)))
  | .mk .mapping _ _ content => do
    let entries ← decodeEntries env content
    .ok (some entries)
  | .mk .scalar tag _ _ => if tag = nullTag then .ok none else .error (.decode "not a map")
  | _ => .error (.decode "not a map")

/-- `Node.Decode` into a `map[string]any`. -/
def decodeMap (env : Env) : Node → Except Err (Option (List (String × Lit)))
  | .mk .document _ _ [node] => decodeRoot env node
  | .mk .document _ _ _ => .ok none
  | node => decodeRoot env node

/-- The walk of `parseYamlNode`: the node to decode, and the node as the caller finds it. A node is passed by value, so
the caller keeps the text of the node itself and shares its children. -/
def walkNode (env : Env) (ctx : Val) (node : Node) (h : Heap) : Except Fault Unit × Node × Node × Heap :=
  match node with
  | .mk .document tag value content =>
    let (r, content, h) := processDocument env ctx content h
    (r, .mk .document tag value content, .mk .document tag value content, h)
  | .mk kind tag value content =>
    let (r, done, h) := processNode env ctx (.mk kind tag value content) [] h
    (r, done, .mk kind tag value done.content, h)
where
  /-- The loop of `parseYamlNode` over the contents of a document. -/
  processDocument (env : Env) (ctx : Val) : List Node → Heap → Except Fault Unit × List Node × Heap
    | [], h => (.ok (), [], h)
    | dn :: rest, h =>
      match processNode env ctx dn [] h with
      | (.ok _, dn, h) =>
        let (r, rest, h) := processDocument env ctx rest h
        (r, dn :: rest, h)
      | (.error f, dn, h) => (.error f, dn :: rest, h)

/-- `parseYamlNode`: the decoded map, the node as the caller finds it, and the heap. -/
def parseYamlNode (env : Env) (ctx : Val) (node : Node) (h : Heap) :
    Except Fault (Option (List (String × Lit))) × Node × Heap :=
  match walkNode env ctx node h with
  | (.error f, _, left, h) => (.error f, left, h)
  | (.ok _, done, left, h) =>
    match decodeMap env done with
    | .error e => (.error (.error e), left, h)
    | .ok entries => (.ok entries, left, h)

end KubeKey.Variable
