import Mathlib.Algebra.Group.Nat.Defs
import Mathlib.Data.List.TakeWhile

/-!
# Strings

Functions of Go's `strings` and `strconv` on lists of characters: what stands before and after
a separator, and what is cut off at the ends. A text that is put together with a separator comes
apart there again.
-/

namespace KubeKey.Text.Strings

/-- `strings.TrimRight` with one character. -/
def trimRight (c : Char) (s : List Char) : List Char := (s.reverse.dropWhile (· = c)).reverse

/-- `unicode.IsSpace`. -/
def spaces : List Char :=
  [9, 10, 11, 12, 13, 32, 0x85, 0xA0, 0x1680, 0x2000, 0x2001, 0x2002, 0x2003, 0x2004, 0x2005, 0x2006, 0x2007, 0x2008,
    0x2009, 0x200A, 0x2028, 0x2029, 0x202F, 0x205F, 0x3000].map Char.ofNat

/-- `strings.TrimSpace`. -/
def trimSpace (s : List Char) : List Char :=
  ((s.dropWhile (· ∈ spaces)).reverse.dropWhile (· ∈ spaces)).reverse

/-- The text before the first separator. -/
def before (c : Char) (s : List Char) : List Char := s.takeWhile (· ≠ c)

/-- The text after the first separator. -/
def after (c : Char) (s : List Char) : List Char := (s.dropWhile (· ≠ c)).drop 1

/-- `strings.HasSuffix`. -/
def hasSuffix (s suffix : List Char) : Bool := suffix.isSuffixOf s

/-- `strings.Contains`. -/
def contains (sub : List Char) : List Char → Bool
  | [] => sub.isEmpty
  | c :: cs => sub.isPrefixOf (c :: cs) || contains sub cs

/-- `strings.Replace` of all occurrences with nothing, where so many characters are still skipped. -/
def removeFrom (old : List Char) : Nat → List Char → List Char
  | _, [] => []
  | skip + 1, _ :: cs => removeFrom old skip cs
  | 0, c :: cs => if old.isPrefixOf (c :: cs) then removeFrom old (old.length - 1) cs else c :: removeFrom old 0 cs

/-- `strings.Replace` of all occurrences with nothing. -/
def removeAll (old s : List Char) : List Char := removeFrom old 0 s

/-- `strings.Replace` of the first occurrence. -/
def replaceFirst (old new : List Char) : List Char → List Char
  | [] => []
  | c :: cs => if old.isPrefixOf (c :: cs) then new ++ (c :: cs).drop old.length else c :: replaceFirst old new cs

/-- The number that digits stand for. -/
def digits (cs : List Char) : Option Nat :=
  if cs ≠ [] ∧ cs.all Char.isDigit then some (cs.foldl (fun n c => n * 10 + (c.toNat - '0'.toNat)) 0) else none

/-- The value that `strconv.Atoi` returns, also next to an error: zero for what is no number, and the nearest integer
for one that does not fit. -/
def atoi (s : List Char) : Int :=
  match s with
  | '-' :: cs => -(((digits cs).elim 0 fun n => min n (2 ^ 63) : Nat) : Int)
  | '+' :: cs => ((digits cs).elim 0 fun n => min n (2 ^ 63 - 1) : Nat)
  | cs => ((digits cs).elim 0 fun n => min n (2 ^ 63 - 1) : Nat)

section Separator
variable {c : Char} {a b : List Char}

theorem takeWhile_separator (absent : c ∉ a) : (a ++ c :: b).takeWhile (· ≠ c) = a := by
  have all : ∀ x ∈ a, decide (x ≠ c) = true := fun x member => by
    rw [decide_eq_true_eq]
    rintro rfl
    exact absent member
  rw [List.takeWhile_append_of_pos all, List.takeWhile_cons_of_neg (by simp), List.append_nil]

theorem dropWhile_separator (absent : c ∉ a) : (a ++ c :: b).dropWhile (· ≠ c) = c :: b := by
  have all : ∀ x ∈ a, decide (x ≠ c) = true := fun x member => by
    rw [decide_eq_true_eq]
    rintro rfl
    exact absent member
  rw [List.dropWhile_append_of_pos all, List.dropWhile_cons_of_neg (by simp)]

theorem before_append (absent : c ∉ a) : before c (a ++ c :: b) = a := takeWhile_separator absent

theorem after_append (absent : c ∉ a) : after c (a ++ c :: b) = b := by
  rw [after, dropWhile_separator absent]
  rfl

theorem before_of_not_mem (absent : c ∉ a) : before c a = a :=
  List.takeWhile_eq_self_iff.2 fun x member => by
    rw [decide_eq_true_eq]
    rintro rfl
    exact absent member

/-- What comes after the last separator is a suffix that begins at it. -/
theorem hasSuffix_iff {suffix : List Char} (absent : c ∉ b) (absent' : c ∉ suffix) :
    hasSuffix (a ++ c :: b) (c :: suffix) = true ↔ b = suffix := by
  rw [hasSuffix, List.isSuffixOf_iff_suffix]
  constructor
  · rintro ⟨front, split⟩
    have last := congrArg (fun s => s.reverse.takeWhile (· ≠ c)) split
    simp only [List.reverse_append, List.reverse_cons, List.append_assoc, List.singleton_append] at last
    rw [takeWhile_separator (by simpa using absent'), takeWhile_separator (by simpa using absent)] at last
    exact (List.reverse_inj.1 last).symm
  · rintro rfl
    exact List.suffix_append a _

theorem contains_of_not_mem {sub : List Char} : ∀ {s : List Char}, c ∉ s → contains (c :: sub) s = false
  | [], _ => rfl
  | d :: s, absent => by
    rw [List.mem_cons, not_or] at absent
    have other : (c == d) = false := by simpa using absent.1
    rw [contains, List.isPrefixOf, other, Bool.false_and, Bool.false_or, contains_of_not_mem absent.2]

/-- What begins with the separator is found only where it stands. -/
theorem contains_iff {sub : List Char} (absent' : c ∉ b) :
    ∀ {a : List Char}, c ∉ a → (contains (c :: sub) (a ++ c :: b) = true ↔ sub.isPrefixOf b = true)
  | [], _ => by
    rw [List.nil_append, contains, contains_of_not_mem absent', Bool.or_false, List.isPrefixOf, beq_self_eq_true,
      Bool.true_and]
  | d :: a, absent => by
    rw [List.mem_cons, not_or] at absent
    have other : (c == d) = false := by simpa using absent.1
    rw [List.cons_append, contains, List.isPrefixOf, other, Bool.false_and, Bool.false_or]
    exact contains_iff absent' absent.2

theorem removeFrom_length (old : List Char) : ∀ s : List Char, removeFrom old s.length s = []
  | [] => rfl
  | _ :: s => by rw [List.length_cons, removeFrom, removeFrom_length old s]

/-- A suffix that begins with the separator is removed. -/
theorem removeAll_append {suffix : List Char} :
    ∀ {a : List Char}, c ∉ a → removeAll (c :: suffix) (a ++ c :: suffix) = a
  | [], _ => by
    have here : (c :: suffix).isPrefixOf (c :: suffix) = true := List.isPrefixOf_iff_prefix.2 (List.prefix_refl _)
    rw [List.nil_append, removeAll, removeFrom, if_pos here]
    exact removeFrom_length _ suffix
  | d :: a, absent => by
    rw [List.mem_cons, not_or] at absent
    have other : (c == d) = false := by simpa using absent.1
    have rest := @removeAll_append suffix a absent.2
    rw [removeAll] at rest
    rw [List.cons_append, removeAll, removeFrom, List.isPrefixOf, other, Bool.false_and, if_neg Bool.false_ne_true, rest]

end Separator

section Replace
variable {old s : List Char}

theorem contains_of_isPrefixOf (begins : old.isPrefixOf s = true) : contains old s = true := by
  cases s with
  | nil =>
    cases old with
    | nil => rfl
    | cons d ds => cases begins
  | cons c cs => rw [contains, begins, Bool.true_or]

theorem replaceFirst_of_not_contains (absent : contains old s = false) (new : List Char) : replaceFirst old new s = s := by
  induction s with
  | nil => rfl
  | cons c cs ih =>
    rw [contains, Bool.or_eq_false_iff] at absent
    rw [replaceFirst, absent.1, if_neg Bool.false_ne_true, ih absent.2]

/-- What is put behind the first occurrence does not take it away. -/
theorem contains_replaceFirst (more : List Char) (there : contains old s = true) :
    contains old (replaceFirst old (old ++ more) s) = true := by
  induction s with
  | nil => exact there
  | cons c cs ih =>
    rw [replaceFirst]
    split
    · rw [List.append_assoc]
      exact contains_of_isPrefixOf (List.isPrefixOf_iff_prefix.2 (List.prefix_append _ _))
    · next other =>
      rw [contains, Bool.not_eq_true] at *
      rw [other, Bool.false_or] at there
      rw [ih there, Bool.or_true]

theorem length_replaceFirst (more : List Char) (some_ : old ≠ []) (there : contains old s = true) :
    (replaceFirst old (old ++ more) s).length = s.length + more.length := by
  induction s with
  | nil =>
    cases old with
    | nil => exact absurd rfl some_
    | cons d ds => cases there
  | cons c cs ih =>
    rw [replaceFirst]
    split
    · next begins =>
      have short := (List.isPrefixOf_iff_prefix.1 begins).length_le
      rw [List.length_append, List.length_append, List.length_drop]
      omega
    · next other =>
      rw [contains] at there
      rw [Bool.not_eq_true] at other
      rw [other, Bool.false_or] at there
      rw [List.length_cons, ih there, List.length_cons]
      omega

end Replace

theorem trimRight_append {c : Char} {a b : List Char} (some_ : b ≠ []) (absent : c ∉ b) :
    trimRight c (a ++ b) = a ++ b := by
  obtain ⟨front, last, rfl⟩ : ∃ front last, b = front ++ [last] :=
    ⟨b.dropLast, b.getLast some_, (List.dropLast_concat_getLast some_).symm⟩
  have other : last ≠ c := by
    rintro rfl
    exact absent (by simp)
  have reversed : (a ++ (front ++ [last])).reverse = last :: (a ++ front).reverse := by simp
  rw [trimRight, reversed, List.dropWhile_cons_of_neg (by simpa using other), ← reversed, List.reverse_reverse]

theorem dropWhile_none {p : Char → Bool} {s : List Char} (none_ : ∀ c ∈ s, p c = false) : s.dropWhile p = s := by
  cases s with
  | nil => rfl
  | cons c cs => exact List.dropWhile_cons_of_neg (by simp [none_ c List.mem_cons_self])

theorem trimSpace_eq {s : List Char} (solid : ∀ c ∈ s, c ∉ spaces) : trimSpace s = s := by
  have off : ∀ c ∈ s, decide (c ∈ spaces) = false := fun c member => decide_eq_false (solid c member)
  rw [trimSpace, dropWhile_none off, dropWhile_none fun c member => off c (List.mem_reverse.1 member),
    List.reverse_reverse]

end KubeKey.Text.Strings
