import Mathlib.Algebra.Group.Nat.Defs
import KubeKey.Text.Lines

/-!
# Double-quoted strings

A string as Go quotes it, and a double-quoted scalar as YAML reads it on one line. YAML
knows all the escapes that Go writes, so it reads back every string, whichever runes are
written as they are.
-/

namespace KubeKey.Text

def hexDigit (d : Nat) : Char := if d < 10 then Char.ofNat (48 + d) else Char.ofNat (87 + d)

/-- The number in as many hexadecimal digits. -/
def hex : Nat → Nat → Chars
  | 0, _ => []
  | w + 1, n => hex w (n / 16) ++ [hexDigit (n % 16)]

def hexValue (c : Char) : Option Nat :=
  if 48 ≤ c.toNat ∧ c.toNat ≤ 57 then some (c.toNat - 48)
  else if 97 ≤ c.toNat ∧ c.toNat ≤ 102 then some (c.toNat - 87)
  else if 65 ≤ c.toNat ∧ c.toNat ≤ 70 then some (c.toNat - 55)
  else none

def readHex (t : Chars) : Option Nat := t.foldlM (fun n c => (hexValue c).map (n * 16 + ·)) 0

theorem hexValue_hexDigit : ∀ d < 16, hexValue (hexDigit d) = some d := by decide

theorem readHex_hex (w n : Nat) : readHex (hex w n) = some (n % 16 ^ w) := by
  induction w generalizing n with
  | zero => simp [hex, readHex, Nat.mod_one]
  | succ w ih =>
    have digit := hexValue_hexDigit (n % 16) (Nat.mod_lt _ (by decide))
    have split : n % 16 ^ (w + 1) = n / 16 % 16 ^ w * 16 + n % 16 := by
      rw [Nat.pow_succ, Nat.mul_comm (16 ^ w) 16, Nat.mod_mul]
      omega
    unfold readHex at ih ⊢
    rw [hex, List.foldlM_append, ih, split]
    simp [digit]

/-- The character with the code in hexadecimal digits. -/
def rune (digits : Chars) : Option Char :=
  (readHex digits).bind fun n => if n.isValidChar then some (Char.ofNat n) else none

theorem rune_hex {c : Char} {w : Nat} (fits : c.toNat < 16 ^ w) : rune (hex w c.toNat) = some c := by
  have valid : c.toNat.isValidChar := c.valid
  rw [rune, readHex_hex, Nat.mod_eq_of_lt fits, Option.bind_some, if_pos valid, Char.ofNat_toNat]

/-! ### Go -/

/-- `appendEscapedRune`. -/
def quoteRune (isPrint : Char → Bool) (c : Char) : Chars :=
  if c = '"' ∨ c = '\\' then ['\\', c]
  else if isPrint c then [c]
  else if c = '\x07' then ['\\', 'a']
  else if c = '\x08' then ['\\', 'b']
  else if c = '\x0c' then ['\\', 'f']
  else if c = '\n' then ['\\', 'n']
  else if c = '\r' then ['\\', 'r']
  else if c = '\t' then ['\\', 't']
  else if c = '\x0b' then ['\\', 'v']
  else if c.toNat < 32 ∨ c.toNat = 127 then '\\' :: 'x' :: hex 2 c.toNat
  else if c.toNat < 65536 then '\\' :: 'u' :: hex 4 c.toNat
  else '\\' :: 'U' :: hex 8 c.toNat

/-- `strconv.Quote`. -/
def quote (isPrint : Char → Bool) (s : Chars) : Chars := '"' :: (s.flatMap (quoteRune isPrint) ++ ['"'])

/-! ### YAML -/

/-- The escapes of one character. -/
def escape : Char → Option Char
  | '0' => some '\x00'
  | 'a' => some '\x07'
  | 'b' => some '\x08'
  | 't' => some '\t'
  | 'n' => some '\n'
  | 'v' => some '\x0b'
  | 'f' => some '\x0c'
  | 'r' => some '\r'
  | 'e' => some '\x1b'
  | ' ' => some ' '
  | '"' => some '"'
  | '/' => some '/'
  | '\\' => some '\\'
  | 'N' => some '\u0085'
  | '_' => some '\u00a0'
  | 'L' => some '\u2028'
  | 'P' => some '\u2029'
  | _ => none

/-- The string after an opening quote, if the quote that closes it ends the text. -/
def readQuoted : Chars → Option Chars
  | [] => none
  | c :: rest =>
    if c = '"' then if rest.isEmpty then some [] else none
    else if c = '\\' then
      match rest with
      | [] => none
      | e :: rest =>
        if e = 'x' then
          match rest with
          | a :: b :: rest => (rune [a, b]).bind fun r => (readQuoted rest).map (r :: ·)
          | _ => none
        else if e = 'u' then
          match rest with
          | a :: b :: c :: d :: rest => (rune [a, b, c, d]).bind fun r => (readQuoted rest).map (r :: ·)
          | _ => none
        else if e = 'U' then
          match rest with
          | a :: b :: c :: d :: a' :: b' :: c' :: d' :: rest =>
            (rune [a, b, c, d, a', b', c', d']).bind fun r => (readQuoted rest).map (r :: ·)
          | _ => none
        else (escape e).bind fun r => (readQuoted rest).map (r :: ·)
    else (readQuoted rest).map (c :: ·)

theorem readQuoted_self {c : Char} (quote : c ≠ '"') (slash : c ≠ '\\') (t : Chars) :
    readQuoted (c :: t) = (readQuoted t).map (c :: ·) := by
  rw [readQuoted.eq_def]
  dsimp only
  rw [if_neg quote, if_neg slash]

theorem readQuoted_escape {e r : Char} (known : escape e = some r) (x : e ≠ 'x') (u : e ≠ 'u') (U : e ≠ 'U')
    (t : Chars) : readQuoted ('\\' :: e :: t) = (readQuoted t).map (r :: ·) := by
  rw [readQuoted.eq_def]
  dsimp only
  rw [if_neg (by decide), if_pos rfl, if_neg x, if_neg u, if_neg U, known]
  rfl

/-- Every rune is read back. -/
theorem readQuoted_quoteRune (isPrint : Char → Bool) (c : Char) (t : Chars) :
    readQuoted (quoteRune isPrint c ++ t) = (readQuoted t).map (c :: ·) := by
  have code : c.toNat < 16 ^ 8 := by
    have valid := c.valid
    simp only [UInt32.isValidChar, Nat.isValidChar] at valid
    simp only [Char.toNat]
    omega
  unfold quoteRune
  split
  · next special =>
    rcases special with rfl | rfl
    · exact readQuoted_escape rfl (by decide) (by decide) (by decide) t
    · exact readQuoted_escape rfl (by decide) (by decide) (by decide) t
  next special =>
  split
  · exact readQuoted_self (fun same => special (Or.inl same)) (fun same => special (Or.inr same)) t
  iterate 7
    split
    · next same =>
      rw [same]
      exact readQuoted_escape rfl (by decide) (by decide) (by decide) t
  split
  · have read := rune_hex (c := c) (w := 2) (by omega)
    simp only [hex, List.nil_append, List.cons_append] at read ⊢
    rw [readQuoted.eq_def]
    simp [read]
  split
  · next small =>
    have read := rune_hex (c := c) (w := 4) small
    simp only [hex, List.nil_append, List.cons_append] at read ⊢
    rw [readQuoted.eq_def]
    simp [read]
  · have read := rune_hex (c := c) (w := 8) code
    simp only [hex, List.nil_append, List.cons_append] at read ⊢
    rw [readQuoted.eq_def]
    simp [read]

theorem readQuoted_quoted (isPrint : Char → Bool) (s : Chars) :
    readQuoted (s.flatMap (quoteRune isPrint) ++ ['"']) = some s := by
  induction s with
  | nil => rfl
  | cons c s ih => rw [List.flatMap_cons, List.append_assoc, readQuoted_quoteRune, ih, Option.map_some]

/-- A string without quotes and escapes stands for itself. -/
theorem readQuoted_plain {s : Chars} (quote : '"' ∉ s) (slash : '\\' ∉ s) : readQuoted (s ++ ['"']) = some s := by
  induction s with
  | nil => rfl
  | cons c s ih =>
    rw [List.cons_append, readQuoted_self (fun same => quote (by simp [same])) fun same => slash (by simp [same]),
      ih (fun later => quote (List.mem_cons_of_mem _ later)) fun later => slash (List.mem_cons_of_mem _ later),
      Option.map_some]

theorem hexDigit_ascii : ∀ d < 16, 32 ≤ (hexDigit d).toNat ∧ (hexDigit d).toNat < 127 := by decide

theorem hex_ascii {w n : Nat} {c : Char} (digit : c ∈ hex w n) : 32 ≤ c.toNat ∧ c.toNat < 127 := by
  induction w generalizing n with
  | zero => cases digit
  | succ w ih =>
    rcases List.mem_append.mp digit with high | low
    · exact ih high
    · rw [List.mem_singleton.mp low]
      exact hexDigit_ascii _ (Nat.mod_lt _ (by decide))

theorem escaped_ascii {e d : Char} {w n : Nat} (letter : 32 ≤ e.toNat ∧ e.toNat < 127)
    (member : d ∈ '\\' :: e :: hex w n) : 32 ≤ d.toNat ∧ d.toNat < 127 := by
  rcases List.mem_cons.mp member with rfl | member
  · decide
  rcases List.mem_cons.mp member with rfl | member
  · exact letter
  · exact hex_ascii member

/-- A quoted string consists of printable runes and of ASCII. -/
theorem quoteRune_printable (isPrint : Char → Bool) {c d : Char} (member : d ∈ quoteRune isPrint c) :
    isPrint d = true ∨ 32 ≤ d.toNat ∧ d.toNat < 127 := by
  unfold quoteRune at member
  have ascii : ∀ t : Chars, (t.all fun d => decide (32 ≤ d.toNat ∧ d.toNat < 127)) = true → d ∈ t →
      32 ≤ d.toNat ∧ d.toNat < 127 := fun t all inside => of_decide_eq_true (List.all_eq_true.mp all d inside)
  split at member
  · next special =>
    rcases special with rfl | rfl
    · exact Or.inr (ascii _ (by decide) member)
    · exact Or.inr (ascii _ (by decide) member)
  split at member
  · next printable =>
    rw [List.mem_singleton.mp member]
    exact Or.inl printable
  right
  iterate 7
    split at member
    · exact ascii _ (by decide) member
  split at member
  · exact escaped_ascii (by decide) member
  split at member
  · exact escaped_ascii (by decide) member
  · exact escaped_ascii (by decide) member

end KubeKey.Text
