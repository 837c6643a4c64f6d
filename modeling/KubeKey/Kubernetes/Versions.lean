import Mathlib.Data.List.TakeWhile

/-!
# Semantic versions

The package `k8s.io/apimachinery/pkg/util/version` is a parameter: `VersionUtil` has what the
upgrade uses of it, and `VersionUtil.Laws` is what it relies on. `semantic` is such a package,
with texts like `v1.21.5-rc.1`; it takes every text after the patch for a suffix, where the
real one checks the identifiers in it.
-/

namespace KubeKey.Kubernetes

/-- `k8s.io/apimachinery/pkg/util/version`, on semantic versions. -/
structure VersionUtil where
  Version : Type
  parseSemantic : String → Except String Version
  major : Version → UInt64
  minor : Version → UInt64
  patch : Version → UInt64
  withMinor : Version → UInt64 → Version
  withPatch : Version → UInt64 → Version
  string : Version → String
  /-- `Compare`, with the text of the other version. -/
  compare : Version → String → Except String Int
  atLeast : Version → Version → Bool

namespace VersionUtil

/-- `WithMinor` and `WithPatch` change that component only, `String` prints all there is in a version, and versions are
ordered by their components first. -/
structure Laws (util : VersionUtil) : Prop where
  major_withMinor : ∀ v m, util.major (util.withMinor v m) = util.major v
  minor_withMinor : ∀ v m, util.minor (util.withMinor v m) = m
  major_withPatch : ∀ v p, util.major (util.withPatch v p) = util.major v
  minor_withPatch : ∀ v p, util.minor (util.withPatch v p) = util.minor v
  patch_withPatch : ∀ v p, util.patch (util.withPatch v p) = p
  parse_string : ∀ v, util.parseSemantic ("v" ++ util.string v) = .ok v
  parse_empty : ∃ err, util.parseSemantic "" = .error err
  compare_of_minor_lt : ∀ v w text, util.parseSemantic text = .ok w → util.major v = util.major w →
    util.minor v < util.minor w → util.compare v text = .ok (-1)
  compare_of_lt_minor : ∀ v w text, util.parseSemantic text = .ok w → util.major v = util.major w →
    util.minor w < util.minor v → util.compare v text = .ok 1

/-- `Compare` gives -1 exactly where `AtLeast` does not hold. -/
def Ordered (util : VersionUtil) : Prop :=
  ∀ v w text, util.parseSemantic text = .ok w → (util.compare v text = .ok (-1) ↔ util.atLeast v w = false)

/-- The text `b` is a version that is not lower than the one `a` is. -/
def NotLower (util : VersionUtil) (a b : String) : Prop :=
  ∃ v sign, util.parseSemantic a = .ok v ∧ util.compare v b = .ok sign ∧ sign ≠ 1

/-- The text is a semantic version with that major. -/
def OfMajor (util : VersionUtil) (major : UInt64) (text : String) : Prop :=
  ∃ v, util.parseSemantic text = .ok v ∧ util.major v = major

end VersionUtil

/-! ## A version package -/

/-- The text does not go on with a digit. -/
def Separated (text : List Char) : Prop := ∀ c ∈ text.head?, c.isDigit = false

instance decidableSeparated : ∀ text, Decidable (Separated text)
  | [] => isTrue fun c front => by cases front
  | c :: _ => decidable_of_iff (c.isDigit = false)
      ⟨fun letter d front => by
        cases front
        exact letter, fun all => all c rfl⟩

/-- Three numbers and what follows them. -/
structure Semantic where
  major : UInt64
  minor : UInt64
  patch : UInt64
  suffix : List Char
  separated : Separated suffix
deriving DecidableEq

/-- A number and the text after it. -/
def number (text : List Char) : Option (UInt64 × List Char) :=
  let digits := text.takeWhile Char.isDigit
  let n := Nat.ofDigitChars 10 digits 0
  if digits ≠ [] ∧ n < UInt64.size then some (.ofNat n, text.dropWhile Char.isDigit) else none

/-- The text after a dot. -/
def dot : List Char → Option (List Char)
  | '.' :: rest => some rest
  | _ => none

namespace Semantic

/-- Three numbers with dots between them, and the rest. -/
def components (text : List Char) : Option Semantic := do
  let (major, text) ← number text
  let text ← dot text
  let (minor, text) ← number text
  let text ← dot text
  let (patch, suffix) ← number text
  if separated : Separated suffix then pure ⟨major, minor, patch, suffix, separated⟩ else none

def parse (text : String) : Except String Semantic :=
  let version := match text.toList with
    | 'v' :: rest => components rest
    | rest => components rest
  match version with
  | some v => .ok v
  | none => .error ("could not parse \"" ++ text ++ "\" as version")

def digits (n : UInt64) : List Char := Nat.toDigits 10 n.toNat

def print (v : Semantic) : List Char :=
  digits v.major ++ '.' :: (digits v.minor ++ '.' :: (digits v.patch ++ v.suffix))

/-- Numbers first. A version with a suffix is lower than the one without, as it is for pre-releases. -/
def order (v w : Semantic) : Int :=
  if v.major ≠ w.major then (if v.major < w.major then -1 else 1)
  else if v.minor ≠ w.minor then (if v.minor < w.minor then -1 else 1)
  else if v.patch ≠ w.patch then (if v.patch < w.patch then -1 else 1)
  else if v.suffix = w.suffix then 0
  else if v.suffix = [] then 1
  else if w.suffix = [] then -1
  else if v.suffix < w.suffix then -1 else 1

end Semantic

/-- A package for versions with texts like `v1.21.5-rc.1`. -/
def semantic : VersionUtil where
  Version := Semantic
  parseSemantic := Semantic.parse
  major v := v.major
  minor v := v.minor
  patch v := v.patch
  withMinor v minor := { v with minor }
  withPatch v patch := { v with patch }
  string v := String.ofList v.print
  compare v text := (Semantic.parse text).map v.order
  atLeast v w := v.order w ≠ -1

theorem number_digits (n : UInt64) {rest : List Char} (separated : Separated rest) :
    number (Semantic.digits n ++ rest) = some (n, rest) := by
  have all : ∀ c ∈ Semantic.digits n, c.isDigit = true := fun c inside =>
    Nat.isDigit_of_mem_toDigits (by omega) (by omega) inside
  have stop : rest.takeWhile Char.isDigit = [] ∧ rest.dropWhile Char.isDigit = rest := by
    cases rest with
    | nil => exact ⟨rfl, rfl⟩
    | cons c rest =>
      have letter : c.isDigit = false := separated c rfl
      simp [letter]
  have some_digit : Semantic.digits n ≠ [] := Nat.toDigits_ne_nil
  have value : Nat.ofDigitChars 10 (Semantic.digits n) 0 = n.toNat := Nat.ofDigitChars_ten_toDigits
  have small : n.toNat < UInt64.size := n.toNat_lt_size
  rw [number, List.takeWhile_append_of_pos all, List.dropWhile_append_of_pos all, stop.1, stop.2, List.append_nil,
    value, if_pos ⟨some_digit, small⟩, UInt64.ofNat_toNat]

theorem components_print (v : Semantic) : Semantic.components v.print = some v := by
  have dots : ∀ rest, Separated ('.' :: rest) := fun rest c front => by
    cases front
    rfl
  simp [Semantic.components, Semantic.print, number_digits, dots, dot, v.separated]

theorem parse_print (v : Semantic) : Semantic.parse ("v" ++ String.ofList v.print) = .ok v := by
  have text : ("v" ++ String.ofList v.print).toList = 'v' :: v.print := by simp
  simp only [Semantic.parse, text, components_print]

theorem order_of_minor_lt {v w : Semantic} (major : v.major = w.major) (minor : v.minor < w.minor) :
    v.order w = -1 := by
  have other : v.minor ≠ w.minor := UInt64.ne_of_lt minor
  rw [Semantic.order, if_neg (not_not_intro major), if_pos other, if_pos minor]

theorem order_of_lt_minor {v w : Semantic} (major : v.major = w.major) (minor : w.minor < v.minor) :
    v.order w = 1 := by
  have other : v.minor ≠ w.minor := (UInt64.ne_of_lt minor).symm
  have higher : ¬ v.minor < w.minor := UInt64.not_lt.2 (UInt64.le_of_lt minor)
  rw [Semantic.order, if_neg (not_not_intro major), if_pos other, if_neg higher]

theorem semantic_laws : semantic.Laws where
  major_withMinor _ _ := rfl
  minor_withMinor _ _ := rfl
  major_withPatch _ _ := rfl
  minor_withPatch _ _ := rfl
  patch_withPatch _ _ := rfl
  parse_string := parse_print
  parse_empty := ⟨_, rfl⟩
  compare_of_minor_lt v w text parsed major minor := by
    show (Semantic.parse text).map (Semantic.order v) = .ok (-1)
    rw [show Semantic.parse text = .ok w from parsed, ← order_of_minor_lt major minor]
    rfl
  compare_of_lt_minor v w text parsed major minor := by
    show (Semantic.parse text).map (Semantic.order v) = .ok 1
    rw [show Semantic.parse text = .ok w from parsed, ← order_of_lt_minor major minor]
    rfl

theorem semantic_ordered : semantic.Ordered := by
  intro v w text parsed
  show (Semantic.parse text).map (Semantic.order v) = .ok (-1) ↔ decide (Semantic.order v w ≠ -1) = false
  rw [show Semantic.parse text = .ok w from parsed]
  simp [Except.map]

end KubeKey.Kubernetes
