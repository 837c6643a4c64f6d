import Mathlib.Data.List.Forall2
import KubeKey.Go.Regexp
import KubeKey.Text.Lines
import KubeKey.Text.Strings

/-!
# Path expressions

`pathExpression` of `pkg/proxy/path_expression.go`. A template is made into a regular expression
token by token, with a last group for what comes after it: `/` and any text. So the expression
does not match the paths that instantiate the template, but those that begin with such a path.

The package `regexp` compiles the expression of a variable that has one of its own.
-/

namespace KubeKey.Proxy

open KubeKey.Go KubeKey.Text KubeKey.Text.Strings

/-- What a token of a template stands for. -/
inductive Token where
  | literal (s : Chars)
  /-- `{name}`. -/
  | segment (name : Chars)
  /-- `{name:*}`. -/
  | rest (name : Chars)
  /-- `{name:expr}`. -/
  | custom (name : Chars) (expr : Regexp)

/-- A class of all characters but one. -/
def allBut (c : Char) : Regexp := .one fun d => d ≠ c

def Token.regexp : Token → Regexp
  | literal s => .text s
  | segment _ => .group (.some_ (allBut '/'))
  | rest _ => .group (.many (allBut '\n'))
  | custom _ expr => .group expr

/-- The name of a variable. -/
def Token.varName? : Token → Option Chars
  | literal _ => none
  | segment name | rest name | custom name _ => some name

def Token.literalCount : Token → Nat
  | literal s => bytes s
  | _ => 0

/-- What `templateToRegularExpression` does with one token. -/
def readToken (compile : Chars → Option Regexp) (each : Chars) : Option Token :=
  if each.head? = some '{' then
    if ':' ∈ each then
      let varName := trimSpace ((before ':' each).drop 1)
      let paramExpr := trimSpace (after ':' each).dropLast
      if paramExpr = ['*'] then some (.rest varName) else (compile paramExpr).map (.custom varName)
    else some (.segment (trimSpace (each.drop 1).dropLast))
  else some (.literal each)

/-- `strings.Trim` of slashes. -/
def trimSlashes (path : Chars) : Chars := trimRight '/' (path.dropWhile (· = '/'))

def tokenizePath (path : Chars) : List Chars :=
  if path = ['/'] then [] else (trimSlashes path).splitOn '/'

/-- `(/.*)?`. -/
def tail : Regexp := .optional (.group (.seq (.text ['/']) (.many (allBut '\n'))))

/-- A slash before each token, and an expression after the last. -/
def matcherOf (ending : Regexp) (tokens : List Token) : Regexp :=
  tokens.foldr (fun t r => .seq (.text ['/']) (.seq t.regexp r)) ending

/-- `pathExpression`. -/
structure PathExpression where
  literalCount : Nat
  varNames : List Chars
  varCount : Nat
  matcher : Regexp
  tokens : List Token

/-- `newPathExpression`. A token is not empty and does not end with a slash, so there is none to trim off. -/
def newPathExpression (compile : Chars → Option Regexp) (path : Chars) : Option PathExpression :=
  (((tokenizePath path).filter (!·.isEmpty)).mapM (readToken compile)).map fun tokens =>
    { literalCount := tokens.foldl (fun n t => n + t.literalCount) 0
      varNames := tokens.filterMap Token.varName?
      varCount := (tokens.filterMap Token.varName?).length
      matcher := matcherOf tail tokens
      tokens }

/-! ## Paths and templates -/

/-- The text stands in the place of the token. -/
def Token.Fills : Token → Chars → Prop
  | literal s, p => p = s
  | segment _, p => p ≠ [] ∧ '/' ∉ p
  | rest _, p => '\n' ∉ p
  | custom _ expr, p => expr.Matches p

/-- The path is the template with a text in the place of each token. -/
def Instantiates (tokens : List Token) (path : Chars) : Prop :=
  ∃ parts, List.Forall₂ Token.Fills tokens parts ∧ path = parts.flatMap ('/' :: ·)

/-- The path instantiates the template, and may go on with a slash. -/
def Begins (tokens : List Token) (path : Chars) : Prop :=
  ∃ front back, path = front ++ back ∧ Instantiates tokens front ∧
    (back = [] ∨ back.head? = some '/' ∧ '\n' ∉ back)

theorem Instantiates.begins {tokens : List Token} {path : Chars} (here : Instantiates tokens path) :
    Begins tokens path := ⟨path, [], (List.append_nil path).symm, here, .inl rfl⟩

theorem instantiates_nil {path : Chars} : Instantiates [] path ↔ path = [] := by
  constructor
  · rintro ⟨parts, filled, rfl⟩
    rw [List.forall₂_nil_left_iff.1 filled]
    rfl
  · rintro rfl
    exact ⟨[], .nil, rfl⟩

theorem instantiates_cons {t : Token} {ts : List Token} {path : Chars} :
    Instantiates (t :: ts) path ↔ ∃ p more, path = '/' :: (p ++ more) ∧ t.Fills p ∧ Instantiates ts more := by
  constructor
  · rintro ⟨parts, filled, rfl⟩
    obtain ⟨p, ps, here, there, rfl⟩ := List.forall₂_cons_left_iff.1 filled
    exact ⟨p, ps.flatMap ('/' :: ·), rfl, here, ps, there, rfl⟩
  · rintro ⟨p, more, rfl, here, ps, there, rfl⟩
    exact ⟨p :: ps, .cons here there, rfl⟩

theorem not_mem_iff {c : Char} {p : Chars} : (∀ d ∈ p, decide (d ≠ c) = true) ↔ c ∉ p := by
  constructor
  · exact fun all inside => of_decide_eq_true (all c inside) rfl
  · intro absent d inside
    rw [decide_eq_true_iff]
    rintro rfl
    exact absent inside

theorem token_iff (t : Token) (p : Chars) : t.regexp.Matches p ↔ t.Fills p := by
  cases t with
  | literal s => exact Regexp.matches_text
  | segment name =>
    rw [Token.regexp, Regexp.matches_group, allBut, Regexp.matches_some_one, not_mem_iff]
    rfl
  | rest name =>
    rw [Token.regexp, Regexp.matches_group, allBut, Regexp.matches_many_one, not_mem_iff]
    rfl
  | custom name expr => exact Regexp.matches_group

theorem matcherOf_iff (ending : Regexp) (tokens : List Token) (path : Chars) :
    (matcherOf ending tokens).Matches path ↔
      ∃ front back, path = front ++ back ∧ Instantiates tokens front ∧ ending.Matches back := by
  induction tokens generalizing path with
  | nil =>
    simp only [instantiates_nil]
    constructor
    · exact fun here => ⟨[], path, rfl, rfl, here⟩
    · rintro ⟨front, back, rfl, rfl, here⟩
      exact here
  | cons t ts ih =>
    have unfolded : matcherOf ending (t :: ts) = .seq (.text ['/']) (.seq t.regexp (matcherOf ending ts)) := rfl
    rw [unfolded, Regexp.matches_seq]
    constructor
    · rintro ⟨slash, others, rfl, first, second⟩
      obtain ⟨p, more, rfl, here, there⟩ := Regexp.matches_seq.1 second
      obtain ⟨front, back, rfl, begun, ended⟩ := (ih more).1 there
      refine ⟨'/' :: (p ++ front), back, ?_, instantiates_cons.2 ⟨p, front, rfl, (token_iff t p).1 here, begun⟩, ended⟩
      rw [Regexp.matches_text.1 first, List.singleton_append, List.cons_append, List.append_assoc]
    · rintro ⟨front, back, rfl, begun, ended⟩
      obtain ⟨p, more, rfl, here, there⟩ := instantiates_cons.1 begun
      refine ⟨['/'], p ++ (more ++ back), ?_, Regexp.matches_text.2 rfl, ?_⟩
      · rw [List.cons_append, List.append_assoc, List.singleton_append]
      · exact .seq ((token_iff t p).2 here) ((ih _).2 ⟨more, back, rfl, there, ended⟩)

theorem tail_iff (back : Chars) : tail.Matches back ↔ back = [] ∨ back.head? = some '/' ∧ '\n' ∉ back := by
  have newline : '\n' ≠ '/' := by decide
  rw [tail, Regexp.matches_optional, Regexp.matches_group, Regexp.matches_seq]
  refine or_congr_right ⟨?_, ?_⟩
  · rintro ⟨a, b, rfl, first, second⟩
    rw [Regexp.matches_text.1 first, List.singleton_append, List.mem_cons, not_or]
    exact ⟨rfl, newline, not_mem_iff.1 (Regexp.matches_many_one.1 second)⟩
  · rintro ⟨slash, absent⟩
    cases back with
    | nil => cases slash
    | cons c back =>
      cases slash
      rw [List.mem_cons, not_or] at absent
      exact ⟨['/'], back, rfl, Regexp.matches_text.2 rfl, Regexp.matches_many_one.2 (not_mem_iff.2 absent.2)⟩

/-- The expression of a template matches the paths that begin with an instance of it. -/
theorem matcher_iff (tokens : List Token) (path : Chars) :
    (matcherOf tail tokens).accepts path = true ↔ Begins tokens path := by
  rw [Regexp.accepts_iff, matcherOf_iff]
  simp only [tail_iff]
  rfl

/-- Without the last group it matches the instances. -/
theorem instantiates_iff (tokens : List Token) (path : Chars) :
    (matcherOf .empty tokens).accepts path = true ↔ Instantiates tokens path := by
  rw [Regexp.accepts_iff, matcherOf_iff]
  simp only [Regexp.matches_empty]
  constructor
  · rintro ⟨front, back, rfl, here, rfl⟩
    rwa [List.append_nil]
  · exact fun here => ⟨path, [], (List.append_nil path).symm, here, rfl⟩

instance (tokens : List Token) (path : Chars) : Decidable (Instantiates tokens path) :=
  decidable_of_iff _ (instantiates_iff tokens path)

instance (tokens : List Token) (path : Chars) : Decidable (Begins tokens path) :=
  decidable_of_iff _ (matcher_iff tokens path)

end KubeKey.Proxy
