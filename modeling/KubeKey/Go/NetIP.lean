import Mathlib.Data.List.TakeWhile
import KubeKey.Go.BigEndian
import KubeKey.Text.Strings

/-!
# IP addresses

The parts of `net` and `net/netip` that address ranges are computed with. An address is a byte
string (`net.IP`): four bytes, sixteen bytes, or nothing. Its text is the dotted form of the
four-byte address that it stands for, or the shortest form of the sixteen-byte one; a byte
string of another length still has a text, which no parser accepts.

Texts are lists of characters. What a parser accepts has only the characters of an address
(`parseAddr_plain`), so the separators of ranges and prefixes are found where they were put.
-/

namespace KubeKey.Go.NetIP

open KubeKey.Go.BigEndian

/-- `net.IP`. -/
abbrev IP := List UInt8

/-! ## Forms -/

/-- What a four-byte address is preceded by in its sixteen-byte form. -/
def v4InV6Prefix : List UInt8 := List.replicate 10 0 ++ [0xff, 0xff]

/-- `IP.To4`; `none` is nil. -/
def to4 (ip : IP) : Option IP :=
  if ip.length = 4 then some ip
  else if ip.length = 16 ∧ ip.take 12 = v4InV6Prefix then some (ip.drop 12)
  else none

/-- `IP.To16`. -/
def to16 (ip : IP) : Option IP :=
  if ip.length = 4 then some (v4InV6Prefix ++ ip)
  else if ip.length = 16 then some ip
  else none

/-! ## Text -/

/-- The decimal text of a number. -/
def decimal (n : Nat) : List Char := Nat.toDigits 10 n

/-- The text of a four-byte address. -/
def string4 (ip : IP) : List Char := List.intercalate ['.'] (ip.map fun b => decimal b.toNat)

/-- The eight groups of a sixteen-byte address. -/
def groups : List UInt8 → List Nat
  | a :: b :: rest => (a.toNat * 256 + b.toNat) :: groups rest
  | _ => []

/-- The number of zero groups at the front. -/
def zeros (gs : List Nat) : Nat := (gs.takeWhile (· = 0)).length

/-- The first of the longest runs of zero groups, if it has two groups at least: where it starts and how long it is. -/
def zeroRun (gs : List Nat) : Option (Nat × Nat) :=
  (List.range gs.length).foldl (fun best i =>
    let length := zeros (gs.drop i)
    if 2 ≤ length ∧ (best.map Prod.snd).getD 0 < length then some (i, length) else best) none

/-- The text of a sixteen-byte address. -/
def string6 (ip : IP) : List Char :=
  let gs := groups ip
  let hex := fun gs : List Nat => List.intercalate [':'] (gs.map (Nat.toDigits 16))
  match zeroRun gs with
  | some (start, length) => hex (gs.take start) ++ [':', ':'] ++ hex (gs.drop (start + length))
  | none => hex gs

/-- Two digits for a byte. -/
def hexByte (b : UInt8) : List Char := [Nat.digitChar (b.toNat / 16), Nat.digitChar (b.toNat % 16)]

/-- `IP.String`. -/
def string (ip : IP) : List Char :=
  if ip.length = 0 then "<nil>".toList
  else if ip.length ≠ 4 ∧ ip.length ≠ 16 then '?' :: ip.flatMap hexByte
  else
    match to4 ip with
    | some ip => string4 ip
    | none => string6 ip

/-! ## Parsers -/

/-- `netip.Addr` without a zone. -/
inductive Addr where
  | v4 (bytes : IP)
  | v6 (bytes : IP)
deriving DecidableEq

/-- The fields after those in `fields`, where `val` has been read of the current one from `digits` digits and `before`
is the character before. -/
def parseIPv4Fields (fields : List UInt8) (val digits : Nat) (before : Option Char) : List Char → Option IP
  | [] => if fields.length < 3 then none else some (fields ++ [UInt8.ofNat val])
  | c :: cs =>
    if c.isDigit then
      if digits = 1 ∧ val = 0 then none
      else
        let val := val * 10 + (c.toNat - '0'.toNat)
        if 255 < val then none else parseIPv4Fields fields val (digits + 1) (some c) cs
    else if c = '.' then
      if before = none ∨ cs = [] ∨ before = some '.' then none
      else if fields.length = 3 then none
      else parseIPv4Fields (fields ++ [UInt8.ofNat val]) 0 0 (some c) cs
    else none

def parseIPv4 (s : List Char) : Option IP := parseIPv4Fields [] 0 0 none s

/-- The value of a hexadecimal digit. -/
def hexDigit (c : Char) : Option Nat :=
  if c.isDigit then some (c.toNat - '0'.toNat)
  else if 'a' ≤ c ∧ c ≤ 'f' then some (c.toNat - 'a'.toNat + 10)
  else if 'A' ≤ c ∧ c ≤ 'F' then some (c.toNat - 'A'.toNat + 10)
  else none

/-- A group of one to four digits, and what comes after it. -/
def hexGroup (s : List Char) : Option (Nat × List Char) :=
  let ds := s.takeWhile fun c => (hexDigit c).isSome
  if ds.length = 0 ∨ 4 < ds.length then none
  else some (ds.foldl (fun n c => n * 16 + (hexDigit c).getD 0) 0, s.dropWhile fun c => (hexDigit c).isSome)

/-- The groups of a sixteen-byte address from a point on, with room for as many: the bytes, where the ellipsis stands
in them, and the text that is left. -/
def parseGroups (bytes : List UInt8) (ellipsis : Option Nat) :
    Nat → List Char → Option (List UInt8 × Option Nat × List Char)
  | 0, s => some (bytes, ellipsis, s)
  | room + 1, s =>
    match hexGroup s with
    | none => none
    | some (acc, rest) =>
      if rest.head? = some '.' then
        if ellipsis = none ∧ bytes.length ≠ 12 then none
        else if 16 < bytes.length + 4 then none
        else (parseIPv4 s).map fun fields => (bytes ++ fields, ellipsis, [])
      else
        let bytes := bytes ++ [UInt8.ofNat (acc / 256), UInt8.ofNat (acc % 256)]
        match rest with
        | [] => some (bytes, ellipsis, [])
        | c :: rest =>
          if c ≠ ':' then none
          else
            match rest with
            | [] => none
            | c :: rest =>
              if c = ':' then
                if ellipsis.isSome then none
                else if rest = [] then some (bytes, some bytes.length, [])
                else parseGroups bytes (some bytes.length) room rest
              else parseGroups bytes ellipsis room (c :: rest)

/-- The end of `parseIPv6`: the ellipsis is filled with zeros. -/
def expand (bytes : List UInt8) (ellipsis : Option Nat) (left : List Char) : Option IP :=
  if left ≠ [] then none
  else if bytes.length < 16 then
    match ellipsis with
    | none => none
    | some e => some (bytes.take e ++ List.replicate (16 - bytes.length) 0 ++ bytes.drop e)
  else if ellipsis.isSome then none
  else some bytes

/-- A text that is read as groups to its end. -/
def parseWhole (ellipsis : Option Nat) (s : List Char) : Option IP :=
  (parseGroups [] ellipsis 8 s).bind fun parsed => expand parsed.1 parsed.2.1 parsed.2.2

def parseIPv6 (s : List Char) : Option IP :=
  if s.take 2 = [':', ':'] then
    if s.drop 2 = [] then some (List.replicate 16 0) else parseWhole (some 0) (s.drop 2)
  else parseWhole none s

/-- `netip.ParseAddr`. A zone makes every caller here fail, so it is refused at once. -/
def parseAddr (s : List Char) : Option Addr :=
  if '%' ∈ s then none
  else
    match s.find? fun c => c = '.' || c = ':' with
    | some '.' => (parseIPv4 s).map .v4
    | some ':' => (parseIPv6 s).map .v6
    | _ => none

/-- `Addr.As16`. -/
def Addr.as16 : Addr → IP
  | .v4 bytes => v4InV6Prefix ++ bytes
  | .v6 bytes => bytes

/-- `Addr.BitLen`. -/
def Addr.bitLen : Addr → Nat
  | .v4 _ => 32
  | .v6 _ => 128

/-- `net.ParseIP`; `none` is nil. -/
def parseIP (s : List Char) : Option IP := (parseAddr s).map Addr.as16

/-- `dtoi` from a point on. -/
def dtoiFrom (n : Nat) : List Char → Option Nat
  | [] => some n
  | c :: cs =>
    if c.isDigit then
      let n := n * 10 + (c.toNat - '0'.toNat)
      if 0xFFFFFF ≤ n then none else dtoiFrom n cs
    else none

/-- `dtoi` on a text that has to be a number as a whole. -/
def dtoi : List Char → Option Nat
  | [] => none
  | cs => dtoiFrom 0 cs

/-- `net.IPNet`. -/
structure IPNet where
  ip : IP
  mask : List UInt8
deriving DecidableEq

/-- `IP.Mask` with a mask of four or sixteen bytes. -/
def maskIP (ip : IP) (mask : List UInt8) : Option IP :=
  let mask := if mask.length = 16 ∧ ip.length = 4 ∧ mask.take 12 = List.replicate 12 0xff then mask.drop 12 else mask
  let ip := if mask.length = 4 ∧ ip.length = 16 ∧ ip.take 12 = v4InV6Prefix then ip.drop 12 else ip
  if ip.length = mask.length then some (andMask ip mask) else none

/-- `IPMask.Size`: the number of leading ones, and zero for what is no prefix. -/
def maskSize (mask : List UInt8) : Nat :=
  ((List.range (8 * mask.length + 1)).find? fun ones => leadingOnes ones mask.length = mask).getD 0

/-- `net.ParseCIDR`: the network. -/
def parseCIDR (s : List Char) : Option IPNet :=
  match s.dropWhile (· ≠ '/') with
  | [] => none
  | _ :: mask =>
    match parseAddr (s.takeWhile (· ≠ '/')), dtoi mask with
    | some addr, some n =>
      if n ≤ addr.bitLen then
        let m := leadingOnes n (addr.bitLen / 8)
        some ⟨(maskIP addr.as16 m).getD [], m⟩
      else none
    | _, _ => none

/-! ## What the parsers accept -/

/-- A character of an address. -/
def plain (c : Char) : Bool := (hexDigit c).isSome || c = '.' || c = ':'

theorem plain_of_isDigit {c : Char} (digit : c.isDigit = true) : plain c = true := by
  simp [plain, hexDigit, digit]

theorem parseIPv4Fields_accepts : ∀ {s : List Char} {fields : List UInt8} {val digits : Nat} {before : Option Char}
    {ip : IP}, parseIPv4Fields fields val digits before s = some ip → fields.length ≤ 3 →
      ip.length = 4 ∧ ∀ c ∈ s, c.isDigit = true ∨ c = '.'
  | [], fields, val, digits, before, ip, run, room => by
    rw [parseIPv4Fields] at run
    split at run
    · cases run
    · cases run
      refine ⟨?_, fun c absent => by cases absent⟩
      rw [List.length_append, List.length_singleton]
      omega
  | c :: cs, fields, val, digits, before, ip, run, room => by
    rw [parseIPv4Fields] at run
    split at run
    · next digit =>
      split at run
      · cases run
      · dsimp only at run
        split at run
        · cases run
        · obtain ⟨length, rest⟩ := parseIPv4Fields_accepts run room
          refine ⟨length, fun c' member => ?_⟩
          rcases List.mem_cons.1 member with rfl | later
          · exact .inl digit
          · exact rest c' later
    · split at run
      · next dot =>
        split at run
        · cases run
        · split at run
          · cases run
          · next few =>
            obtain ⟨length, rest⟩ := parseIPv4Fields_accepts run (by
              rw [List.length_append, List.length_singleton]
              omega)
            refine ⟨length, fun c' member => ?_⟩
            rcases List.mem_cons.1 member with rfl | later
            · exact .inr dot
            · exact rest c' later
      · cases run

theorem parseIPv4_accepts {s : List Char} {ip : IP} (run : parseIPv4 s = some ip) :
    ip.length = 4 ∧ ∀ c ∈ s, c.isDigit = true ∨ c = '.' :=
  parseIPv4Fields_accepts run (by simp)

theorem parseIPv4_plain {s : List Char} {ip : IP} (run : parseIPv4 s = some ip) : ∀ c ∈ s, plain c = true := by
  intro c member
  rcases (parseIPv4_accepts run).2 c member with digit | rfl
  · exact plain_of_isDigit digit
  · rfl

theorem hexGroup_accepts {s rest : List Char} {acc : Nat} (run : hexGroup s = some (acc, rest)) :
    ∃ group : List Char, s = group ++ rest ∧ ∀ c ∈ group, plain c = true := by
  unfold hexGroup at run
  dsimp only at run
  split at run
  · cases run
  · cases run
    refine ⟨s.takeWhile fun c => (hexDigit c).isSome, List.takeWhile_append_dropWhile.symm, fun c member => ?_⟩
    have digit := List.mem_takeWhile_imp member
    simp only [plain, digit, Bool.true_or]

/-- Groups fill their room and nothing more, and the text that they are read from is that of an address. -/
theorem parseGroups_accepts : ∀ {room : Nat} {s : List Char} {bytes : List UInt8} {ellipsis : Option Nat}
    {out : List UInt8} {at_ : Option Nat} {left : List Char},
    parseGroups bytes ellipsis room s = some (out, at_, left) → bytes.length + 2 * room = 16 →
      out.length ≤ 16 ∧ ∀ c ∈ s, plain c = true ∨ c ∈ left
  | 0, s, bytes, ellipsis, out, at_, left, run, fits => by
    cases run
    exact ⟨by omega, fun c member => .inr member⟩
  | room + 1, s, bytes, ellipsis, out, at_, left, run, fits => by
    rw [parseGroups] at run
    cases group : hexGroup s with
    | none =>
      rw [group] at run
      cases run
    | some found =>
      obtain ⟨acc, rest⟩ := found
      obtain ⟨first, rfl, plainFirst⟩ := hexGroup_accepts group
      -- what is left to show once the characters after the group are dealt with
      have done : (∀ c ∈ rest, plain c = true ∨ c ∈ left) → ∀ c ∈ first ++ rest, plain c = true ∨ c ∈ left := by
        intro later c member
        rcases List.mem_append.1 member with here | there
        · exact .inl (plainFirst c here)
        · exact later c there
      have next : (bytes ++ [UInt8.ofNat (acc / 256), UInt8.ofNat (acc % 256)]).length = bytes.length + 2 := by
        rw [List.length_append]
        rfl
      simp only [group] at run
      split at run
      · split at run
        · cases run
        · split at run
          · cases run
          · next fewer =>
            obtain ⟨fields, parsed, built⟩ := Option.map_eq_some_iff.1 run
            cases built
            refine ⟨?_, fun c member => .inl (parseIPv4_plain parsed c member)⟩
            rw [List.length_append, (parseIPv4_accepts parsed).1]
            omega
      · split at run
        · cases run
          exact ⟨by omega, done fun c absent => by cases absent⟩
        · next c rest =>
          split at run
          · cases run
          · next colon =>
            rw [not_not] at colon
            subst colon
            split at run
            · cases run
            · next c rest =>
              split at run
              · next double =>
                subst double
                split at run
                · cases run
                · split at run
                  · next last =>
                    cases run
                    subst last
                    refine ⟨by omega, done fun c member => .inl ?_⟩
                    simp only [List.mem_cons, List.not_mem_nil, or_false, or_self] at member
                    subst member
                    rfl
                  · obtain ⟨short, later⟩ := parseGroups_accepts run (by omega)
                    refine ⟨short, done fun c member => ?_⟩
                    rcases List.mem_cons.1 member with rfl | member
                    · exact .inl rfl
                    · rcases List.mem_cons.1 member with rfl | member
                      · exact .inl rfl
                      · exact later c member
              · obtain ⟨short, later⟩ := parseGroups_accepts run (by omega)
                refine ⟨short, done fun c' member => ?_⟩
                rcases List.mem_cons.1 member with rfl | member
                · exact .inl rfl
                · exact later c' member

theorem expand_accepts {bytes : List UInt8} {ellipsis : Option Nat} {left : List Char} {ip : IP}
    (run : expand bytes ellipsis left = some ip) (short : bytes.length ≤ 16) : ip.length = 16 ∧ left = [] := by
  unfold expand at run
  split at run
  · cases run
  · next none_ =>
    rw [not_not] at none_
    refine ⟨?_, none_⟩
    split at run
    · cases ellipsis with
      | none => cases run
      | some e =>
        cases run
        simp only [List.length_append, List.length_take, List.length_replicate, List.length_drop]
        omega
    · split at run
      · cases run
      · cases run
        omega

theorem parseWhole_accepts {ellipsis : Option Nat} {s : List Char} {ip : IP}
    (run : parseWhole ellipsis s = some ip) : ip.length = 16 ∧ ∀ c ∈ s, plain c = true := by
  obtain ⟨⟨bytes, at_, left⟩, parsed, expanded⟩ := Option.bind_eq_some_iff.1 run
  obtain ⟨short, chars⟩ := parseGroups_accepts parsed rfl
  obtain ⟨length, none_⟩ := expand_accepts expanded short
  dsimp only at none_
  subst none_
  exact ⟨length, fun c member => (chars c member).resolve_right fun absent => by cases absent⟩

theorem parseIPv6_accepts {s : List Char} {ip : IP} (run : parseIPv6 s = some ip) :
    ip.length = 16 ∧ ∀ c ∈ s, plain c = true := by
  rw [parseIPv6] at run
  split at run
  · next leading =>
    have colons : ∀ c ∈ s.take 2, plain c = true := by
      intro c member
      rw [leading] at member
      simp only [List.mem_cons, List.not_mem_nil, or_false, or_self] at member
      subst member
      rfl
    have both : (∀ c ∈ s.drop 2, plain c = true) → ∀ c ∈ s, plain c = true := by
      intro later c member
      rw [← List.take_append_drop 2 s, List.mem_append] at member
      exact member.elim (colons c) (later c)
    split at run
    · next only =>
      cases run
      exact ⟨by simp, both fun c absent => by rw [only] at absent; cases absent⟩
    · obtain ⟨length, chars⟩ := parseWhole_accepts run
      exact ⟨length, both chars⟩
  · exact parseWhole_accepts run

/-- The bytes of an address. -/
def Addr.bytes : Addr → IP
  | .v4 bytes => bytes
  | .v6 bytes => bytes

/-- An address that is parsed has all its bytes, and its text only the characters of addresses. -/
theorem parseAddr_accepts {s : List Char} {addr : Addr} (run : parseAddr s = some addr) :
    8 * addr.bytes.length = addr.bitLen ∧ ∀ c ∈ s, plain c = true := by
  rw [parseAddr] at run
  split at run
  · cases run
  · split at run
    · obtain ⟨ip, parsed, rfl⟩ := Option.map_eq_some_iff.1 run
      exact ⟨by simp [Addr.bytes, Addr.bitLen, (parseIPv4_accepts parsed).1], parseIPv4_plain parsed⟩
    · obtain ⟨ip, parsed, rfl⟩ := Option.map_eq_some_iff.1 run
      exact ⟨by simp [Addr.bytes, Addr.bitLen, (parseIPv6_accepts parsed).1], (parseIPv6_accepts parsed).2⟩
    · cases run

theorem dtoiFrom_digits : ∀ {s : List Char} {n m : Nat}, dtoiFrom n s = some m → ∀ c ∈ s, c.isDigit = true
  | [], _, _, _, _, absent => by cases absent
  | c :: cs, n, m, run, c', member => by
    rw [dtoiFrom] at run
    split at run
    · next digit =>
      dsimp only at run
      split at run
      · cases run
      · rcases List.mem_cons.1 member with rfl | later
        · exact digit
        · exact dtoiFrom_digits run c' later
    · cases run

theorem dtoi_digits {s : List Char} {n : Nat} (run : dtoi s = some n) : s ≠ [] ∧ ∀ c ∈ s, c.isDigit = true := by
  cases s with
  | nil => cases run
  | cons c cs => exact ⟨List.cons_ne_nil c cs, dtoiFrom_digits run⟩

/-! ## Texts of addresses -/

theorem mem_intercalate {c : Char} {sep : List Char} : ∀ {ls : List (List Char)}, c ∈ sep.intercalate ls →
    c ∈ sep ∨ ∃ l ∈ ls, c ∈ l
  | [], absent => by cases absent
  | [l], inside => by
    rw [List.intercalate_singleton] at inside
    exact .inr ⟨l, List.mem_cons_self, inside⟩
  | l :: l' :: ls, inside => by
    rw [List.intercalate_cons_cons, List.mem_append, List.mem_append] at inside
    rcases inside with (here | between) | later
    · exact .inr ⟨l, List.mem_cons_self, here⟩
    · exact .inl between
    · rcases mem_intercalate later with between | ⟨l'', member, there⟩
      · exact .inl between
      · exact .inr ⟨l'', List.mem_cons_of_mem _ member, there⟩

theorem string4_chars {ip : IP} : ∀ c ∈ string4 ip, c.isDigit = true ∨ c = '.' := by
  intro c inside
  rcases mem_intercalate inside with dot | ⟨l, member, there⟩
  · exact .inr (List.mem_singleton.1 dot)
  · obtain ⟨b, -, rfl⟩ := List.mem_map.1 member
    exact .inl (Nat.isDigit_of_mem_toDigits (by decide) (by decide) there)

theorem to4_four {ip : IP} (four : ip.length = 4) : to4 ip = some ip := if_pos four

theorem to16_sixteen {ip : IP} (sixteen : ip.length = 16) : to16 ip = some ip := by
  rw [to16, if_neg (by omega), if_pos sixteen]

/-- A four-byte address in its sixteen-byte form. -/
def Mapped (ip : IP) : Prop := ip.take 12 = v4InV6Prefix

theorem to4_isSome_iff {ip : IP} (sixteen : ip.length = 16) : (to4 ip).isSome ↔ Mapped ip := by
  rw [to4, if_neg (by omega)]
  simp only [sixteen, true_and]
  split
  · next mapped => exact iff_of_true rfl mapped
  · next other => exact iff_of_false (by simp) other

theorem to4_as16_v4 {ip : IP} (four : ip.length = 4) : to4 (v4InV6Prefix ++ ip) = some ip := by
  have sixteen : (v4InV6Prefix ++ ip).length = 16 := by
    rw [List.length_append, four]
    rfl
  have front : (v4InV6Prefix ++ ip).take 12 = v4InV6Prefix := List.take_left' rfl
  have back : (v4InV6Prefix ++ ip).drop 12 = ip := List.drop_left' rfl
  rw [to4, if_neg (by omega), if_pos ⟨sixteen, front⟩, back]

/-- The mask of a prefix on an address of its length. -/
theorem maskIP_same {ip : IP} {mask : List UInt8} (length : ip.length = mask.length) :
    maskIP ip mask = some (andMask ip mask) := by
  unfold maskIP
  have mask_ : ¬ (mask.length = 16 ∧ ip.length = 4 ∧ mask.take 12 = List.replicate 12 0xff) := by omega
  have ip_ : ¬ (mask.length = 4 ∧ ip.length = 16 ∧ ip.take 12 = v4InV6Prefix) := by omega
  dsimp only
  rw [if_neg mask_, if_neg ip_, if_pos length]

/-- The mask of a prefix on an address in its sixteen-byte form. -/
theorem maskIP_as16 {addr : Addr} (whole : 8 * addr.bytes.length = addr.bitLen) (ones : Nat) :
    maskIP addr.as16 (leadingOnes ones addr.bytes.length) =
      some (andMask addr.bytes (leadingOnes ones addr.bytes.length)) := by
  cases addr with
  | v6 bytes => exact maskIP_same (by simp [Addr.as16, Addr.bytes])
  | v4 bytes =>
    have four : bytes.length = 4 := by
      simp only [Addr.bytes, Addr.bitLen] at whole
      omega
    have sixteen : (v4InV6Prefix ++ bytes).length = 16 := by
      rw [List.length_append, four]
      rfl
    have front : (v4InV6Prefix ++ bytes).take 12 = v4InV6Prefix := List.take_left' rfl
    have back : (v4InV6Prefix ++ bytes).drop 12 = bytes := List.drop_left' rfl
    show maskIP (v4InV6Prefix ++ bytes) _ = _
    unfold maskIP
    simp only [Addr.bytes, length_leadingOnes, four, sixteen, front, back, if_true, and_self,
      show ¬ (4 = 16) by decide, false_and, if_false]

/-- The network that is parsed from an address and a number of leading ones. -/
theorem parseCIDR_append {a m : List Char} {addr : Addr} {ones : Nat} (address : parseAddr a = some addr)
    (number : dtoi m = some ones) (fits : ones ≤ addr.bitLen) :
    parseCIDR (a ++ '/' :: m) = some ⟨andMask addr.bytes (leadingOnes ones addr.bytes.length),
      leadingOnes ones addr.bytes.length⟩ := by
  obtain ⟨whole, chars⟩ := parseAddr_accepts address
  have noSlash : '/' ∉ a := fun inside => absurd (chars '/' inside) (by decide)
  have length : addr.bitLen / 8 = addr.bytes.length := by omega
  unfold parseCIDR
  rw [Text.Strings.dropWhile_separator noSlash, Text.Strings.takeWhile_separator noSlash]
  simp only [address, number, fits, if_true, length, maskIP_as16 whole, Option.getD_some]

end KubeKey.Go.NetIP
