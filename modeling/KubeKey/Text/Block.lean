import Mathlib.Data.List.SplitBy
import KubeKey.Text.Literal
import KubeKey.Text.Quoted

/-!
# Documents in block style

A part of YAML: one key with a sequence of mappings or of double-quoted strings, where the
values of the mappings are scalars on one line or literal scalars. `readDocument` is what the
specification says of such a document; every other document is `outside`. A decoder follows
the specification when it agrees with `readDocument` for a lenient or a strict reading of
comments after literal scalars (`Decoder.Follows`).

The structure of such a document is in its indentation, so it is read by grouping its lines:
a node is the line that begins it and the deeper or blank lines that come next.
-/

namespace KubeKey.Text

/-- `c-printable`. -/
def printable (c : Char) : Bool :=
  c = '\t' || c = '\n' || c = '\r' || (32 ≤ c.toNat && c.toNat ≤ 126) || c.toNat = 133 ||
    (160 ≤ c.toNat && c.toNat ≤ 65533) || 65536 ≤ c.toNat

/-- The characters that versions of YAML do not agree on: line breaks of some, and the byte order mark. -/
def ambiguous (c : Char) : Bool :=
  c = '\r' || c.toNat = 133 || c.toNat = 8232 || c.toNat = 8233 || c.toNat = 65279

def wordChar (c : Char) : Bool := c.isAlpha || c = '_'

/-- The words that some version of YAML reads as something else than a string. -/
def reserved : List Chars := ["true", "false", "yes", "no", "on", "off", "y", "n", "null"].map String.toList

/-- A key: a word that is read as a string. -/
def isKey (k : Chars) : Bool :=
  !k.isEmpty && decide (k.length ≤ 1024) && k.all wordChar && decide (k.map Char.toLower ∉ reserved)

/-- The characters that a plain scalar does not begin with. -/
def indicators : Chars := "-?:,[]{}#&*!|>'\"%@`".toList

/-- A plain scalar on one line. -/
def plain (v : Chars) : Bool :=
  match v with
  | [] => false
  | c :: rest =>
    decide (c ∉ ' ' :: indicators) && decide (v.getLast? ≠ some ' ') && decide (v.getLast? ≠ some ':') &&
      decide ('\t' ∉ v) && (v.zip rest).all fun p => decide (p ≠ (':', ' ')) && decide (p ≠ (' ', '#'))

/-- A scalar that is on the line of its key. The schema resolves the plain ones. -/
def readScalar (resolve : Chars → Value) (v : Chars) : Except Stop Value :=
  match v with
  | '"' :: t => (readQuoted t).elim (.error .outside) fun s => .ok (.str s)
  | '\'' :: t => if t.getLast? = some '\'' ∧ '\'' ∉ t.dropLast then .ok (.str t.dropLast) else .error .outside
  | _ => if plain v then .ok (resolve v) else .error .outside

/-- A line that is neither blank nor indented otherwise. -/
def atLevel (n : Nat) (l : Chars) : Bool := !blank l && decide (indentation l = n)

/-- A line that begins an item of a sequence. -/
def dash (n : Nat) (l : Chars) : Bool := l.take (n + 2) = List.replicate n ' ' ++ ['-', ' ']

/-- The line belongs to the node above it. -/
def deeper (n : Nat) (l : Chars) : Bool := blank l || decide (n < indentation l)

/-- The lines in groups, each of which begins with a `head`. -/
def groups (head : Chars → Bool) (ls : List Chars) : List (List Chars) := ls.splitBy fun _ l => !head l

/-- Read one after the other; the last one may be at the end of the document. -/
def readEach {α β : Type} (read : Bool → α → Except Stop β) (terminated : Bool) :
    List α → Except Stop (List β)
  | [] => .ok []
  | [x] => (read terminated x).map ([·])
  | x :: xs => (read true x).bind fun v => (readEach read terminated xs).map (v :: ·)

section Reader

variable (resolve : Chars → Value) (lenient : Bool)

/-- A field of a mapping that is indented by `n`. -/
def readField (n : Nat) (terminated : Bool) (ls : List Chars) : Except Stop (Chars × Value) :=
  match ls with
  | [] => .error .outside
  | head :: more =>
    let key := (head.drop n).takeWhile (· ≠ ':')
    match (head.drop n).dropWhile (· ≠ ':') with
    | ':' :: ' ' :: v =>
      if isKey key = false then .error .outside
      else if v = ['|'] then
        if terminated then (readLiteral lenient n more).map fun value => (key, value) else .error .outside
      else if more.isEmpty then (readScalar resolve v).map fun value => (key, value)
      else .error .outside
    | _ => .error .outside

def readMap (n : Nat) (terminated : Bool) (ls : List Chars) : Except Stop Value :=
  if ls.head?.any (atLevel n) && ls.all fun l => atLevel n l || deeper n l then
    (readEach (readField resolve lenient n) terminated (groups (atLevel n) ls)).bind fun fields =>
      if (fields.map Prod.fst).Nodup then .ok (.map fields) else .error .outside
  else .error .outside

/-- An item of a sequence that is indented by `n`: a string or a compact mapping. -/
def readItem (n : Nat) (terminated : Bool) (ls : List Chars) : Except Stop Value :=
  match ls with
  | [] => .error .outside
  | head :: more =>
    match (head.drop (n + 1)).dropWhile (· = ' ') with
    | '"' :: t =>
      if more.isEmpty then (readQuoted t).elim (.error .outside) fun s => .ok (.str s) else .error .outside
    | _ =>
      let first := indent (n + 1) (head.drop (n + 1))
      readMap resolve lenient (indentation first) terminated (first :: more)

def readSeq (n : Nat) (ls : List Chars) : Except Stop Value :=
  if ls.head?.any (dash n) && ls.all fun l => dash n l || deeper n l then
    (readEach (readItem resolve lenient n) false (groups (dash n) ls)).map .seq
  else .error .outside

/-- The value of a document with one key and a sequence. -/
def readDocument (t : Chars) : Except Stop Value :=
  if t.all printable = false then .error .refused
  else if t.any ambiguous then .error .outside
  else
    match (lines t).dropWhile fun l => blank l || comment l with
    | head :: first :: more =>
      let key := head.dropLast
      if head.getLast? = some ':' ∧ isKey key = true then
        (readSeq resolve lenient (indentation first) (first :: more)).map fun items => .map [(key, items)]
      else .error .outside
    | _ => .error .outside

end Reader

/-- A decoder of documents, and the schema by which it resolves plain scalars. -/
structure Decoder where
  read : Chars → Option Value
  resolve : Chars → Value

/-- The decoder follows the specification. -/
def Decoder.Follows (d : Decoder) : Prop :=
  ∀ t, ∃ lenient, match readDocument d.resolve lenient t with
    | .ok v => d.read t = some v
    | .error .refused => d.read t = none
    | .error .outside => True

/-! ### Reading groups of lines -/

/-- A line that begins a node, and lines that belong to it. -/
def IsGroup (head : Chars → Bool) (n : Nat) (g : List Chars) : Prop :=
  ∃ l ls, g = l :: ls ∧ head l = true ∧ ∀ l' ∈ ls, head l' = false ∧ deeper n l' = true

theorem groups_flatten {head : Chars → Bool} {n : Nat} {gs : List (List Chars)}
    (all : ∀ g ∈ gs, IsGroup head n g) : groups head gs.flatten = gs := by
  refine List.splitBy_flatten (fun empty => ?_) (fun g member => ?_) ?_
  · obtain ⟨l, ls, nonempty, -⟩ := all [] empty
    cases nonempty
  · obtain ⟨l, ls, rfl, -, later⟩ := all g member
    have chain : ∀ l, List.IsChain (fun _ l' => (!head l') = true) (l :: ls) := by
      clear member
      induction ls with
      | nil => exact fun l => .singleton l
      | cons l' ls ih =>
        intro l
        have first := (later l' List.mem_cons_self).1
        exact .cons_cons (by simp [first]) (ih (fun l'' rest => later l'' (List.mem_cons_of_mem _ rest)) l')
    exact chain l
  · induction gs with
    | nil => exact .nil
    | cons g gs ih =>
      have rest := ih fun g' member => all g' (List.mem_cons_of_mem _ member)
      cases gs with
      | nil => exact .singleton g
      | cons g' gs =>
        obtain ⟨l, ls, rfl, -⟩ := all g List.mem_cons_self
        obtain ⟨l', ls', rfl, begins, -⟩ := all g' (List.mem_cons_of_mem _ List.mem_cons_self)
        exact .cons_cons ⟨List.cons_ne_nil _ _, List.cons_ne_nil _ _, by simp [begins]⟩ rest

theorem all_flatten {head : Chars → Bool} {n : Nat} {gs : List (List Chars)} (all : ∀ g ∈ gs, IsGroup head n g) :
    (gs.flatten.all fun l => head l || deeper n l) = true := by
  rw [List.all_eq_true]
  intro l member
  obtain ⟨g, inside, here⟩ := List.mem_flatten.mp member
  obtain ⟨l', ls, rfl, begins, later⟩ := all g inside
  rcases List.mem_cons.mp here with rfl | here
  · rw [begins, Bool.true_or]
  · rw [(later l here).2, Bool.or_true]

theorem head_flatten {head : Chars → Bool} {n : Nat} {gs : List (List Chars)} (some_ : gs ≠ [])
    (all : ∀ g ∈ gs, IsGroup head n g) : gs.flatten.head?.any head = true := by
  cases gs with
  | nil => exact absurd rfl some_
  | cons g gs =>
    obtain ⟨l, ls, rfl, begins, -⟩ := all g List.mem_cons_self
    exact begins

section Reader

variable (resolve : Chars → Value) (lenient : Bool)

theorem readMap_flatten {n : Nat} (terminated : Bool) {gs : List (List Chars)} (some_ : gs ≠ [])
    (all : ∀ g ∈ gs, IsGroup (atLevel n) n g) :
    readMap resolve lenient n terminated gs.flatten =
      (readEach (readField resolve lenient n) terminated gs).bind fun fields =>
        if (fields.map Prod.fst).Nodup then .ok (.map fields) else .error .outside := by
  rw [readMap, head_flatten some_ all, all_flatten all, groups_flatten all]
  rfl

theorem readSeq_flatten {n : Nat} {gs : List (List Chars)} (some_ : gs ≠ [])
    (all : ∀ g ∈ gs, IsGroup (dash n) n g) :
    readSeq resolve lenient n gs.flatten = (readEach (readItem resolve lenient n) false gs).map .seq := by
  rw [readSeq, head_flatten some_ all, all_flatten all, groups_flatten all]
  rfl

end Reader

/-! ### Fields, items and documents -/

section Reader

variable (resolve : Chars → Value) (lenient : Bool)

theorem readScalar_quoted {s : Chars} (quote : '"' ∉ s) (slash : '\\' ∉ s) :
    readScalar resolve ('"' :: (s ++ ['"'])) = .ok (.str s) := by
  rw [readScalar, readQuoted_plain quote slash]
  rfl

theorem readScalar_single {s : Chars} (quote : '\'' ∉ s) :
    readScalar resolve ('\'' :: (s ++ ['\''])) = .ok (.str s) := by
  rw [readScalar, List.getLast?_concat, List.dropLast_concat, if_pos ⟨rfl, quote⟩]

theorem readScalar_plain {v : Chars} (isPlain : plain v = true) : readScalar resolve v = .ok (resolve v) := by
  cases v with
  | nil => cases isPlain
  | cons c rest =>
    have first : c ∉ ' ' :: indicators := by
      simp only [plain, Bool.and_eq_true, decide_eq_true_eq] at isPlain
      exact isPlain.1.1.1.1
    unfold readScalar
    split
    · next same =>
      cases same
      exact absurd (by decide) first
    · next same =>
      cases same
      exact absurd (by decide) first
    · rw [if_pos isPlain]

theorem isKey_colon {key : Chars} (word : isKey key = true) : ∀ c ∈ key, decide (c ≠ ':') = true := by
  simp only [isKey, Bool.and_eq_true, List.all_eq_true] at word
  intro c member
  refine decide_eq_true fun same => ?_
  have letter := word.1.2 c member
  rw [same] at letter
  exact absurd letter (by decide)

/-- A field with its value on the line. -/
theorem readField_scalar {key v : Chars} (word : isKey key = true) (flat : v ≠ ['|']) (n : Nat) (terminated : Bool) :
    readField resolve lenient n terminated [indent n (key ++ ':' :: ' ' :: v)] =
      (readScalar resolve v).map fun value => (key, value) := by
  have colon := isKey_colon word
  rw [readField, drop_indent, List.takeWhile_append_of_pos colon, List.dropWhile_append_of_pos colon,
    List.takeWhile_cons_of_neg (by decide), List.dropWhile_cons_of_neg (by decide), List.append_nil, word]
  split
  · next same =>
    cases same
    rw [if_neg (by decide), if_neg flat]
    rfl
  · next other => exact absurd rfl (other _)

/-- A field with a literal scalar. -/
theorem readField_literal {key : Chars} (word : isKey key = true) (n : Nat) (more : List Chars) :
    readField resolve lenient n true (indent n (key ++ [':', ' ', '|']) :: more) =
      (readLiteral lenient n more).map fun value => (key, value) := by
  have colon := isKey_colon word
  rw [readField, drop_indent, List.takeWhile_append_of_pos colon, List.dropWhile_append_of_pos colon,
    List.takeWhile_cons_of_neg (by decide), List.dropWhile_cons_of_neg (by decide), List.append_nil, word]
  split
  · next same =>
    cases same
    rw [if_neg (by decide), if_pos rfl, if_pos rfl]
  · next other => exact absurd rfl (other _)

theorem drop_dash (n : Nat) (l : Chars) : (indent n ('-' :: l)).drop (n + 1) = l := by
  rw [← List.drop_drop, drop_indent, List.drop_one, List.tail_cons]

theorem readItem_quoted {t s : Chars} (closed : readQuoted t = some s) (n : Nat) (terminated : Bool) :
    readItem resolve lenient n terminated [indent n ('-' :: ' ' :: '"' :: t)] = .ok (.str s) := by
  rw [readItem, drop_dash, List.dropWhile_cons_of_pos (by decide), List.dropWhile_cons_of_neg (by decide)]
  split
  · next same =>
    cases same
    rw [closed]
    rfl
  · next other => exact absurd rfl (other _)

/-- An item that is a compact mapping is one whose dash has become a space. -/
theorem readItem_map {c : Char} (letter : c ≠ ' ') (quote : c ≠ '"') (n k : Nat) (l : Chars) (terminated : Bool)
    (more : List Chars) :
    readItem resolve lenient n terminated (indent n ('-' :: indent k (c :: l)) :: more) =
      readMap resolve lenient (n + 1 + k) terminated (indent (n + 1 + k) (c :: l) :: more) := by
  have spaces : ∀ d ∈ List.replicate k ' ', decide (d = ' ') = true := fun d member => by
    simp [List.eq_of_mem_replicate member]
  have first : indent (n + 1) (indent k (c :: l)) = indent (n + 1 + k) (c :: l) := by
    simp only [indent, ← List.append_assoc, List.replicate_append_replicate]
  have level : indentation (indent (n + 1 + k) (c :: l)) = n + 1 + k := by
    rw [indentation_indent]
    simp [indentation, letter]
  rw [readItem, drop_dash, first]
  dsimp only
  rw [show indent k (c :: l) = List.replicate k ' ' ++ c :: l from rfl, List.dropWhile_append_of_pos spaces,
    List.dropWhile_cons_of_neg (by simpa using letter)]
  split
  · next same =>
    cases same
    exact absurd rfl quote
  · rw [level]

theorem indentation_dash {n : Nat} {l : Chars} (begins : dash n l = true) : indentation l = n := by
  have split : l = indent n ('-' :: ' ' :: l.drop (n + 2)) := by
    have front : l.take (n + 2) = List.replicate n ' ' ++ ['-', ' '] := of_decide_eq_true begins
    conv_lhs => rw [← List.take_append_drop (n + 2) l, front]
    simp [indent]
  rw [split, indentation_indent]
  simp [indentation]

theorem atLevel_indent (n : Nat) {c : Char} (letter : c ≠ ' ') (l : Chars) :
    atLevel n (indent n (c :: l)) = true := by
  have level : indentation (indent n (c :: l)) = n := by
    rw [indentation_indent]
    simp [indentation, letter]
  rw [atLevel, level, blank_indent]
  simp [blank, letter]

theorem deeper_indent {n m : Nat} (below : n < m) (l : Chars) : deeper n (indent m l) = true := by
  have level : n < indentation (indent m l) := by
    rw [indentation_indent]
    omega
  rw [deeper, decide_eq_true level, Bool.or_true]

/-- Deeper lines begin nothing. -/
theorem atLevel_deeper {n m : Nat} (below : n < m) (l : Chars) : atLevel n (indent m l) = false := by
  have level : indentation (indent m l) ≠ n := by
    rw [indentation_indent]
    omega
  rw [atLevel, decide_eq_false level, Bool.and_false]

theorem dash_deeper {n m : Nat} (below : n < m) (l : Chars) : dash n (indent m l) = false := by
  by_contra begins
  have level := indentation_dash (Bool.not_eq_false _ ▸ begins)
  rw [indentation_indent] at level
  omega

/-- A document with one key. -/
theorem readDocument_flatten {t : Chars} {front : List Chars} {key : Chars} {gs : List (List Chars)} {n : Nat}
    (allowed : ∀ c ∈ t, printable c = true ∧ ambiguous c = false)
    (split : lines t = front ++ (key ++ [':']) :: gs.flatten)
    (skipped : ∀ l ∈ front, (blank l || comment l) = true) (word : isKey key = true) (some_ : gs ≠ [])
    (all : ∀ g ∈ gs, IsGroup (dash n) n g) :
    readDocument resolve lenient t =
      (readEach (readItem resolve lenient n) false gs).map fun items => .map [(key, .seq items)] := by
  have printed : t.all printable = true := List.all_eq_true.mpr fun c member => (allowed c member).1
  have plain : t.any ambiguous = false := by
    rw [List.any_eq_false]
    intro c member
    simp [(allowed c member).2]
  have kept : (blank (key ++ [':']) || comment (key ++ [':'])) = false := by
    cases key with
    | nil => cases word
    | cons c key =>
      have letter : wordChar c = true := by
        simp only [isKey, Bool.and_eq_true, List.all_eq_true] at word
        exact word.1.2 c List.mem_cons_self
      have space : c ≠ ' ' := fun same => by rw [same] at letter; exact absurd letter (by decide)
      have hash : c ≠ '#' := fun same => by rw [same] at letter; exact absurd letter (by decide)
      simp [blank, comment, space, hash]
  rw [readDocument, printed, if_neg (by decide), plain, if_neg (by decide), split,
    List.dropWhile_append_of_pos skipped, List.dropWhile_cons_of_neg (by rw [kept]; decide)]
  have seq := readSeq_flatten resolve lenient some_ all
  have begins := head_flatten some_ all
  cases items : gs.flatten with
  | nil =>
    rw [items] at begins
    cases begins
  | cons first more =>
    rw [items] at begins seq
    dsimp only
    rw [List.getLast?_concat, List.dropLast_concat, if_pos ⟨rfl, word⟩, indentation_dash begins, seq]
    cases readEach (readItem resolve lenient n) false gs <;> rfl

end Reader

section Each

variable {α β : Type} {read : Bool → α → Except Stop β} {terminated : Bool} {xs : List α} {x : α}

/-- What is read before the last one is read as not the last. -/
theorem readEach_concat {vs : List β} (front : List.Forall₂ (fun x v => read true x = .ok v) xs vs) :
    readEach read terminated (xs ++ [x]) = (read terminated x).map fun v => vs ++ [v] := by
  induction front with
  | nil =>
    rw [List.nil_append, readEach]
    rfl
  | @cons y w xs vs first rest ih =>
    cases more : xs ++ [x] with
    | nil => simp at more
    | cons z zs =>
      rw [List.cons_append, more, readEach, ← more, ih, first]
      · cases read terminated x <;> rfl
      · simp

/-- What is read the same at the end of the document. -/
theorem readEach_all {vs : List β} (all : List.Forall₂ (fun x v => ∀ b, read b x = .ok v) xs vs) :
    readEach read terminated xs = .ok vs := by
  induction all with
  | nil => rfl
  | @cons x v xs vs first rest ih =>
    cases rest with
    | nil =>
      rw [readEach, first]
      rfl
    | cons second rest =>
      rw [readEach, ih, first]
      · rfl
      · simp

/-- If nothing before the last one is outside, either something is refused or all of it is read. -/
theorem readEach_refused (front : ∀ y ∈ xs, read true y ≠ .error .outside) :
    readEach read terminated (xs ++ [x]) = .error .refused ∨ ∀ y ∈ xs, ∃ v, read true y = .ok v := by
  induction xs with
  | nil => exact Or.inr fun y member => by cases member
  | cons y xs ih =>
    have rest := ih fun y' member => front y' (List.mem_cons_of_mem _ member)
    have step : readEach read terminated (y :: (xs ++ [x])) =
        (read true y).bind fun v => (readEach read terminated (xs ++ [x])).map (v :: ·) := by
      cases more : xs ++ [x] with
      | nil => simp at more
      | cons z zs => rfl
    rw [List.cons_append, step]
    cases here : read true y with
    | error e =>
      cases e with
      | outside => exact absurd here (front y List.mem_cons_self)
      | refused => exact Or.inl rfl
    | ok w =>
      rcases rest with refused | all
      · rw [refused]
        exact Or.inl rfl
      · refine Or.inr fun y' member => ?_
        rcases List.mem_cons.mp member with rfl | member
        · exact ⟨w, here⟩
        · exact all y' member

end Each

end KubeKey.Text
