import Mathlib.Data.List.Basic

/-!
# Regular expressions

Expressions over classes of characters, without anchors and assertions, and the texts that match
one as a whole. Which of several matches is preferred does not matter here: `accepts` says whether
there is one, by derivatives, and `groups` how many groups a match has.
-/

namespace KubeKey.Go

inductive Regexp where
  | empty
  | one (p : Char → Bool)
  | seq (r s : Regexp)
  | alt (r s : Regexp)
  | many (r : Regexp)
  | group (r : Regexp)

namespace Regexp

/-- The text matches as a whole. -/
inductive Matches : Regexp → List Char → Prop where
  | empty : Matches .empty []
  | one {p : Char → Bool} {c : Char} (class_ : p c = true) : Matches (.one p) [c]
  | seq {r s : Regexp} {a b : List Char} (first : Matches r a) (second : Matches s b) : Matches (.seq r s) (a ++ b)
  | left {r s : Regexp} {a : List Char} (here : Matches r a) : Matches (.alt r s) a
  | right {r s : Regexp} {a : List Char} (here : Matches s a) : Matches (.alt r s) a
  | none (r : Regexp) : Matches (.many r) []
  | more {r : Regexp} {a b : List Char} (first : Matches r a) (rest : Matches (.many r) b) : Matches (.many r) (a ++ b)
  | group {r : Regexp} {a : List Char} (here : Matches r a) : Matches (.group r) a

/-- The number of groups. -/
def groups : Regexp → Nat
  | empty | one _ => 0
  | seq r s | alt r s => r.groups + s.groups
  | many r => r.groups
  | group r => r.groups + 1

/-- `QuoteMeta`. -/
def text : List Char → Regexp
  | [] => .empty
  | c :: cs => .seq (.one (· = c)) (text cs)

/-- `r+`. -/
def some_ (r : Regexp) : Regexp := .seq r (.many r)

/-- `r?`. -/
def optional (r : Regexp) : Regexp := .alt .empty r

/-! ## Deciding -/

/-- The empty text matches. -/
def nullable : Regexp → Bool
  | empty | many _ => true
  | one _ => false
  | seq r s => r.nullable && s.nullable
  | alt r s => r.nullable || s.nullable
  | group r => r.nullable

/-- What the rest of a text has to match after its first character. -/
def derive (c : Char) : Regexp → Regexp
  | empty => .one fun _ => false
  | one p => if p c then .empty else .one fun _ => false
  | seq r s => if r.nullable then .alt (.seq (r.derive c) s) (s.derive c) else .seq (r.derive c) s
  | alt r s => .alt (r.derive c) (s.derive c)
  | many r => .seq (r.derive c) (.many r)
  | group r => r.derive c

def accepts : Regexp → List Char → Bool
  | r, [] => r.nullable
  | r, c :: cs => (r.derive c).accepts cs

theorem matches_seq {r s : Regexp} {t : List Char} :
    Matches (.seq r s) t ↔ ∃ a b, t = a ++ b ∧ Matches r a ∧ Matches s b := by
  constructor
  · rintro (_ | _ | ⟨first, second⟩)
    exact ⟨_, _, rfl, first, second⟩
  · rintro ⟨a, b, rfl, first, second⟩
    exact .seq first second

theorem matches_one {p : Char → Bool} {t : List Char} : Matches (.one p) t ↔ ∃ c, t = [c] ∧ p c = true := by
  constructor
  · rintro (_ | ⟨class_⟩)
    exact ⟨_, rfl, class_⟩
  · rintro ⟨c, rfl, class_⟩
    exact .one class_

theorem matches_empty {t : List Char} : Matches .empty t ↔ t = [] := by
  constructor
  · rintro (_ | _)
    rfl
  · rintro rfl
    exact .empty

theorem matches_alt {r s : Regexp} {t : List Char} : Matches (.alt r s) t ↔ Matches r t ∨ Matches s t := by
  constructor
  · rintro (_ | _ | _ | here | here)
    · exact .inl here
    · exact .inr here
  · rintro (here | here)
    · exact .left here
    · exact .right here

theorem matches_group {r : Regexp} {t : List Char} : Matches (.group r) t ↔ Matches r t := by
  constructor
  · rintro (_ | _ | _ | _ | _ | _ | _ | here)
    exact here
  · exact .group

theorem matches_optional {r : Regexp} {t : List Char} : Matches r.optional t ↔ t = [] ∨ Matches r t := by
  rw [optional, matches_alt, matches_empty]

theorem matches_text {cs t : List Char} : Matches (text cs) t ↔ t = cs := by
  induction cs generalizing t with
  | nil => exact matches_empty
  | cons c cs ih =>
    rw [text, matches_seq]
    constructor
    · rintro ⟨a, b, rfl, first, second⟩
      obtain ⟨c', rfl, same⟩ := matches_one.1 first
      rw [ih.1 second, of_decide_eq_true same, List.singleton_append]
    · rintro rfl
      exact ⟨[c], cs, rfl, .one (decide_eq_true rfl), ih.2 rfl⟩

/-- Any number of characters of a class. -/
theorem matches_many_one {p : Char → Bool} {t : List Char} : Matches (.many (.one p)) t ↔ ∀ c ∈ t, p c = true := by
  constructor
  · intro here
    generalize shape : Regexp.many (.one p) = r at here
    induction here with
    | none => exact fun c member => absurd member List.not_mem_nil
    | more first rest _ ih =>
      cases shape
      obtain ⟨c, rfl, class_⟩ := matches_one.1 first
      exact List.forall_mem_cons.2 ⟨class_, ih rfl⟩
    | _ => cases shape
  · intro all
    induction t with
    | nil => exact .none _
    | cons c t ih =>
      obtain ⟨class_, rest⟩ := List.forall_mem_cons.1 all
      exact .more (.one class_) (ih rest)

theorem matches_some_one {p : Char → Bool} {t : List Char} :
    Matches (some_ (.one p)) t ↔ t ≠ [] ∧ ∀ c ∈ t, p c = true := by
  rw [some_, matches_seq]
  constructor
  · rintro ⟨a, b, rfl, first, second⟩
    obtain ⟨c, rfl, class_⟩ := matches_one.1 first
    exact ⟨List.cons_ne_nil _ _, List.forall_mem_cons.2 ⟨class_, matches_many_one.1 second⟩⟩
  · rintro ⟨long, all⟩
    cases t with
    | nil => exact absurd rfl long
    | cons c t =>
      obtain ⟨class_, rest⟩ := List.forall_mem_cons.1 all
      exact ⟨[c], t, rfl, .one class_, matches_many_one.2 rest⟩

theorem nullable_iff (r : Regexp) : r.nullable = true ↔ Matches r [] := by
  induction r with
  | empty => exact ⟨fun _ => .empty, fun _ => rfl⟩
  | one p => simp [nullable, matches_one]
  | seq r s first second =>
    rw [nullable, Bool.and_eq_true, first, second, matches_seq]
    constructor
    · exact fun ⟨here, there⟩ => ⟨[], [], rfl, here, there⟩
    · rintro ⟨a, b, joined, here, there⟩
      obtain ⟨rfl, rfl⟩ := List.append_eq_nil_iff.1 joined.symm
      exact ⟨here, there⟩
  | alt r s first second => rw [nullable, Bool.or_eq_true, first, second, matches_alt]
  | many r _ => exact ⟨fun _ => .none r, fun _ => rfl⟩
  | group r here => rw [nullable, here, matches_group]

theorem matches_never {t : List Char} : ¬ Matches (.one fun _ => false) t := fun here => by
  obtain ⟨c, -, impossible⟩ := matches_one.1 here
  cases impossible

/-- A text that begins with a character matches a repetition if a first part of it does. -/
theorem matches_many_cons {r : Regexp} {c : Char} {t : List Char} :
    Matches (.many r) (c :: t) ↔ ∃ a b, t = a ++ b ∧ Matches r (c :: a) ∧ Matches (.many r) b := by
  constructor
  · intro here
    generalize shape : Regexp.many r = r' at here
    generalize whole : c :: t = t' at here
    induction here with
    | none => cases whole
    | @more r' a b first rest _ ih =>
      cases shape
      cases a with
      | nil => exact ih rfl whole
      | cons c' a =>
        cases whole
        exact ⟨a, b, rfl, first, rest⟩
    | _ => cases shape
  · rintro ⟨a, b, rfl, first, rest⟩
    exact Matches.more first rest

theorem derive_iff (c : Char) (r : Regexp) : ∀ t, Matches (r.derive c) t ↔ Matches r (c :: t) := by
  induction r with
  | empty => exact fun t => ⟨fun here => absurd here matches_never, fun here => by cases matches_empty.1 here⟩
  | one p =>
    intro t
    rw [derive, matches_one]
    split
    · next class_ =>
      rw [matches_empty]
      constructor
      · rintro rfl
        exact ⟨c, rfl, class_⟩
      · rintro ⟨c', same, -⟩
        exact (List.cons.inj same).2
    · next other =>
      refine ⟨fun here => absurd here matches_never, ?_⟩
      rintro ⟨c', same, class_⟩
      rw [(List.cons.inj same).1] at other
      exact absurd class_ other
  | seq r s first second =>
    intro t
    -- the first character belongs to the first part, unless that is empty
    have inFirst : Matches (.seq (r.derive c) s) t ↔ ∃ a b, t = a ++ b ∧ Matches r (c :: a) ∧ Matches s b := by
      rw [matches_seq]
      exact exists_congr fun a => exists_congr fun b => and_congr_right fun _ => and_congr_left fun _ => first a
    have split_ : Matches (.seq r s) (c :: t) ↔
        (∃ a b, t = a ++ b ∧ Matches r (c :: a) ∧ Matches s b) ∨ (Matches r [] ∧ Matches s (c :: t)) := by
      rw [matches_seq]
      constructor
      · rintro ⟨a, b, whole, here, there⟩
        cases a with
        | nil => exact .inr ⟨here, whole ▸ there⟩
        | cons c' a =>
          obtain ⟨rfl, rfl⟩ := List.cons.inj whole
          exact .inl ⟨a, b, rfl, here, there⟩
      · rintro (⟨a, b, rfl, here, there⟩ | ⟨here, there⟩)
        · exact ⟨c :: a, b, rfl, here, there⟩
        · exact ⟨[], c :: t, rfl, here, there⟩
    rw [derive, split_, ← inFirst, ← nullable_iff, ← second]
    split
    · next empty => rw [matches_alt, empty, eq_self_iff_true, true_and]
    · next some_ => rw [Bool.eq_false_iff.2 some_, Bool.false_eq_true, false_and, or_false]
  | alt r s first second => exact fun t => by rw [derive, matches_alt, first, second, matches_alt]
  | many r here =>
    intro t
    rw [derive, matches_seq, matches_many_cons]
    exact exists_congr fun a => exists_congr fun b => and_congr_right fun _ => and_congr_left fun _ => here a
  | group r here => exact fun t => by rw [derive, here, matches_group]

theorem accepts_iff (r : Regexp) (t : List Char) : r.accepts t = true ↔ Matches r t := by
  induction t generalizing r with
  | nil => exact nullable_iff r
  | cons c t ih => rw [accepts, ih, derive_iff]

end Regexp

end KubeKey.Go
