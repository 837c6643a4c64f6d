import KubeKey.Cluster.GroupHosts

/-!
# The hosts that an entry names

An entry of a role names a declared host, or the hosts of a range of which all are declared
(`named`). What `ParseRolesList` reads from it (`reads`) is something else if a declared name has
the brackets of a range, or if text follows the range. Brackets without a range panic, and a range
that goes up to the largest integer is refused; the rest is refused for a host that is not declared.
-/

namespace KubeKey.Cluster

open KubeKey.Go KubeKey.Text.Strings

/-! ## The hosts that an entry names -/

/-- The number that digits stand for, of any size. -/
def number (ds : List Char) : Nat := (digits ds).getD 0

/-- The text with each number from the first to the last behind it. -/
def rangeNames (m : RangeMatch) : List String :=
  (List.range' (number m.first) (number m.last + 1 - number m.first)).map fun i => String.ofList m.front ++ toString i

/-- The declared hosts that an entry names: one by its name, or all that a range stands for. -/
def named (declared : List String) (entry : String) : Option (List String) :=
  if entry ∈ declared then some [entry]
  else (findRange entry.toList).bind fun m =>
    if m.back = [] ∧ ∀ h ∈ rangeNames m, h ∈ declared then some (rangeNames m) else none

/-- The hosts that `ParseRolesList` reads from an entry. -/
def reads (entry : String) : List String :=
  if bracketed entry then (findRange entry.toList).elim [] rangeNames else [entry]

/-- The brackets hold no range. -/
def Garbled (entry : String) : Prop := bracketed entry = true ∧ findRange entry.toList = none

/-- The range goes up to the largest integer, or on. -/
def Endless (entry : String) : Prop := ∃ m, findRange entry.toList = some m ∧ maxInt ≤ number m.last

/-- `hostVerify` refuses one of the hosts. -/
def Rejected (declared : List String) (entry : String) : Prop :=
  Endless entry ∨ ∃ h ∈ reads entry, h ∉ declared

/-- The entry has nothing of a range, or it is one that the loop ends after, and no name. -/
def Plain (declared : List String) (entry : String) : Prop :=
  bracketed entry = false ∨ entry ∉ declared ∧ ¬ Endless entry

/-! ## Ranges -/

/-- Digits, one at least. -/
def AreDigits (ds : List Char) : Prop := ds ≠ [] ∧ ∀ c ∈ ds, c.isDigit = true

/-- The text of a match, with what follows it. -/
def RangeMatch.text (m : RangeMatch) : List Char := '[' :: (m.first ++ ':' :: (m.last ++ ']' :: m.back))

theorem takeWhile_digits {ds : List Char} {c : Char} (rest : List Char) (all : ∀ d ∈ ds, d.isDigit = true)
    (stop : c.isDigit = false) :
    (ds ++ c :: rest).takeWhile Char.isDigit = ds ∧ (ds ++ c :: rest).dropWhile Char.isDigit = c :: rest := by
  rw [List.takeWhile_append_of_pos all, List.dropWhile_append_of_pos all,
    List.takeWhile_cons_of_neg (by simp [stop]), List.dropWhile_cons_of_neg (by simp [stop]), List.append_nil]
  exact ⟨rfl, rfl⟩

theorem eq_cons_of_head? {s : List Char} {c : Char} (head : s.head? = some c) : s = c :: s.drop 1 := by
  cases s with
  | nil => cases head
  | cons d ds =>
    rw [List.head?_cons, Option.some.injEq] at head
    rw [head, List.drop_one, List.tail_cons]

theorem matchHere_eq {s : List Char} {m : RangeMatch} (found : matchHere s = some m) :
    m.front = [] ∧ AreDigits m.first ∧ AreDigits m.last ∧ s = m.text := by
  unfold matchHere at found
  dsimp only at found
  split at found
  · next parts =>
    obtain ⟨bracket, first, colon, last, close⟩ := parts
    rw [Option.some.injEq] at found
    subst found
    refine ⟨rfl, ⟨first, fun c inside => ?_⟩, ⟨last, fun c inside => ?_⟩, ?_⟩
    · exact List.all_eq_true.mp List.all_takeWhile c inside
    · exact List.all_eq_true.mp List.all_takeWhile c inside
    · unfold RangeMatch.text
      dsimp only
      rw [← eq_cons_of_head? close, List.takeWhile_append_dropWhile, ← eq_cons_of_head? colon,
        List.takeWhile_append_dropWhile, ← eq_cons_of_head? bracket]
  · cases found

theorem matchHere_text {m : RangeMatch} (first : AreDigits m.first) (last : AreDigits m.last) :
    matchHere m.text = some { m with front := [] } := by
  obtain ⟨taken, dropped⟩ := takeWhile_digits (m.last ++ ']' :: m.back) first.2 (by decide : ':'.isDigit = false)
  obtain ⟨taken', dropped'⟩ := takeWhile_digits m.back last.2 (by decide : ']'.isDigit = false)
  unfold matchHere RangeMatch.text
  simp only [List.drop_succ_cons, List.drop_zero, taken, dropped, taken', dropped', List.head?_cons, true_and]
  exact if_pos ⟨first.1, last.1, trivial⟩

/-- The leftmost match stands where it was found. -/
theorem findRange_eq {s : List Char} {m : RangeMatch} (found : findRange s = some m) :
    AreDigits m.first ∧ AreDigits m.last ∧ s = m.front ++ m.text := by
  induction s generalizing m with
  | nil => cases found
  | cons c cs ih =>
    rw [findRange] at found
    split at found
    · next m' here =>
      rw [Option.some.injEq] at found
      subst found
      obtain ⟨front, first, last, text⟩ := matchHere_eq here
      exact ⟨first, last, by rw [front, List.nil_append, text]⟩
    · obtain ⟨m', later, rfl⟩ := Option.map_eq_some_iff.mp found
      obtain ⟨first, last, text⟩ := ih later
      exact ⟨first, last, congrArg (c :: ·) text⟩

theorem bracketed_of_findRange {e : String} {m : RangeMatch} (found : findRange e.toList = some m) :
    bracketed e = true := by
  obtain ⟨-, -, text⟩ := findRange_eq found
  rw [bracketed, decide_eq_true_iff, text, RangeMatch.text]
  simp

/-- Digits do not end a match. -/
theorem matchHere_digits {q ds rest : List Char} (some_ : q ≠ []) (all : ∀ c ∈ ds, c.isDigit = true)
    (none_ : matchHere (q ++ rest) = none) : matchHere (q ++ ds) = none := by
  cases here : matchHere (q ++ ds) with
  | none => rfl
  | some m =>
    obtain ⟨-, first, last, text⟩ := matchHere_eq here
    have core : q ++ ds = ('[' :: (m.first ++ ':' :: (m.last ++ [']']))) ++ m.back := by
      rw [text, RangeMatch.text]
      simp
    -- The closing bracket is no digit, so the match lies in the text before them.
    have inside : ∃ back, q = ('[' :: (m.first ++ ':' :: (m.last ++ [']']))) ++ back := by
      rcases List.append_eq_append_iff.mp core with ⟨split, whole, digits⟩ | ⟨back, split, -⟩
      · cases split using List.reverseRecOn with
        | nil => exact ⟨[], by rw [List.append_nil, whole, List.append_nil]⟩
        | append_singleton split c =>
          have last : ']' = c := by
            have ends := congrArg (fun s => s.reverse.head?) whole
            simpa using ends
          have digit := all c (digits ▸ by simp)
          rw [← last] at digit
          cases digit
      · exact ⟨back, split⟩
    obtain ⟨back, rfl⟩ := inside
    have matched := @matchHere_text { m with back := back ++ rest } first last
    rw [RangeMatch.text] at matched
    simp only [List.append_assoc, List.cons_append, List.nil_append] at none_ matched
    rw [matched] at none_
    cases none_

/-- The text before the leftmost match, with digits behind it, holds no match. -/
theorem findRange_digits {s ds : List Char} {m : RangeMatch} (found : findRange s = some m)
    (all : ∀ c ∈ ds, c.isDigit = true) : findRange (m.front ++ ds) = none := by
  have alone : ∀ ds : List Char, (∀ c ∈ ds, c.isDigit = true) → findRange ds = none := by
    intro ds all
    cases found : findRange ds with
    | none => rfl
    | some m =>
      obtain ⟨-, -, text⟩ := findRange_eq found
      have digit := all '[' (by rw [text, RangeMatch.text]; simp)
      cases digit
  induction s generalizing m with
  | nil => cases found
  | cons c cs ih =>
    rw [findRange] at found
    split at found
    · next m' here =>
      rw [Option.some.injEq] at found
      subst found
      rw [(matchHere_eq here).1]
      exact alone ds all
    · next none_ =>
      obtain ⟨m', later, rfl⟩ := Option.map_eq_some_iff.mp found
      obtain ⟨-, -, text⟩ := findRange_eq later
      have here : matchHere (c :: (m'.front ++ ds)) = none := by
        refine @matchHere_digits (c :: m'.front) ds m'.text (by simp) all ?_
        rw [List.cons_append, ← text]
        exact none_
      rw [List.cons_append, findRange, here, ih later]
      rfl

theorem toList_rangeName (front : List Char) (i : Nat) :
    (String.ofList front ++ toString i).toList = front ++ Nat.toDigits 10 i := by
  rw [String.toList_append, String.toList_ofList]
  congr 1
  simp [toString, Nat.repr]

/-- What is read from an entry is no range. -/
theorem findRange_reads {e h : String} (read : h ∈ reads e) (range : bracketed h = true) :
    findRange h.toList = none := by
  unfold reads at read
  split at read
  · cases found : findRange e.toList with
    | none =>
      rw [found, Option.elim_none] at read
      exact absurd read List.not_mem_nil
    | some m =>
      rw [found, Option.elim_some, rangeNames] at read
      obtain ⟨i, -, rfl⟩ := List.mem_map.mp read
      rw [toList_rangeName]
      exact findRange_digits found fun c inside => Nat.isDigit_of_mem_toDigits (by decide) (by decide) inside
  · next plain =>
    rw [List.mem_singleton] at read
    subst read
    exact absurd range plain

/-! ## Entries -/

theorem atoi_digits {ds : List Char} (areDigits : AreDigits ds) : atoi ds = (min (number ds) maxInt : Nat) := by
  obtain ⟨some_, all⟩ := areDigits
  cases ds with
  | nil => exact absurd rfl some_
  | cons c cs =>
    have digit := all c List.mem_cons_self
    unfold atoi
    split
    · next same =>
      rw [(List.cons.inj same).1] at digit
      cases digit
    · next same =>
      rw [(List.cons.inj same).1] at digit
      cases digit
    · unfold number maxInt
      cases digits (c :: cs) with
      | none => rfl
      | some n => rfl

theorem counter_eq {start round : Nat} (small : start + round < 2 ^ 63) :
    counter start round = (start + round : Nat) := by
  unfold counter
  omega

section Reading
variable {hostMap : GoMap HostCfg} {declared : List String} {group : String}

/-- The map has the declared names as its keys. -/
def Declares (hostMap : GoMap HostCfg) (declared : List String) : Prop :=
  ∀ name, (hostMap.get? name).isSome = true ↔ name ∈ declared

theorem Declares.mapM_hostVerify (declares : Declares hostMap declared) {names : List String}
    (inside : ∀ h ∈ names, h ∈ declared) : names.mapM (hostVerify hostMap group) = .ok names := by
  induction names with
  | nil => rfl
  | cons h names ih =>
    have here : hostVerify hostMap group h = .ok h :=
      if_pos ((declares h).mpr (inside h List.mem_cons_self))
    rw [List.mapM_cons, here, ih fun h' there => inside h' (List.mem_cons_of_mem _ there)]
    rfl

theorem Declares.mapM_hostVerify_refused (declares : Declares hostMap declared) (group : String) {names : List String}
    (outside : ∃ h ∈ names, h ∉ declared) : ∃ text, names.mapM (hostVerify hostMap group) = .error (.fatal text) := by
  induction names with
  | nil =>
    obtain ⟨h, there, -⟩ := outside
    exact absurd there List.not_mem_nil
  | cons h names ih =>
    by_cases here : h ∈ declared
    · have rest : ∃ h ∈ names, h ∉ declared := by
        obtain ⟨h', there, absent⟩ := outside
        rcases List.mem_cons.mp there with rfl | there
        · exact absurd here absent
        · exact ⟨h', there, absent⟩
      obtain ⟨text, refused⟩ := ih rest
      have verified : hostVerify hostMap group h = .ok h := if_pos ((declares h).mpr here)
      exact ⟨text, by rw [List.mapM_cons, verified, refused]; rfl⟩
    · have refused : hostVerify hostMap group h =
          .error (.fatal ("[" ++ h ++ "] is in [" ++ group ++ "] group, but not in hosts list")) :=
        if_neg fun found => here ((declares h).mp found)
      exact ⟨_, by rw [List.mapM_cons, refused]; rfl⟩

/-- The names of the loop's rounds. -/
theorem map_counter {m : RangeMatch} (short : number m.last < maxInt) :
    (List.range (((number m.last : Nat) : Int) + 1 - (min (number m.first) maxInt : Nat)).toNat).map
      (fun round => String.ofList m.front ++ toString (counter (min (number m.first) maxInt : Nat) round)) =
    rangeNames m := by
  rw [rangeNames, List.range'_eq_map_range, List.map_map]
  unfold maxInt at *
  have rounds : (((number m.last : Nat) : Int) + 1 - (min (number m.first) (2 ^ 63 - 1) : Nat)).toNat =
      number m.last + 1 - number m.first := by omega
  rw [rounds]
  refine List.map_congr_left fun round inside => ?_
  rw [List.mem_range] at inside
  rw [counter_eq (by omega), Nat.min_eq_left (by omega)]
  rfl

theorem getHostsRange_short {e : String} {m : RangeMatch} (found : findRange e.toList = some m)
    (short : number m.last < maxInt) :
    getHostsRange hostMap group e = (rangeNames m).mapM (hostVerify hostMap group) := by
  obtain ⟨first, last, -⟩ := findRange_eq found
  unfold getHostsRange
  rw [found]
  dsimp only
  have below : ((min (number m.last) maxInt : Nat) : Int) ≠ maxInt := by omega
  rw [atoi_digits first, atoi_digits last, if_neg below, if_neg below, Nat.min_eq_left short.le, ← map_counter short,
    List.mapM_map]
  rfl

theorem Declares.mapM_halts (declares : Declares hostMap declared) (group : String) (names : List String) :
    ∃ text, ((names.mapM (hostVerify hostMap group)).bind fun _ => (.error (.fatal "") : Except Halt (List String))) =
      .error (.fatal text) := by
  by_cases outside : ∃ h ∈ names, h ∉ declared
  · obtain ⟨text, refused⟩ := declares.mapM_hostVerify_refused group outside
    exact ⟨text, by rw [refused]; rfl⟩
  · have inside : ∀ h ∈ names, h ∈ declared := fun h there => not_not.mp fun absent => outside ⟨h, there, absent⟩
    exact ⟨"", by rw [declares.mapM_hostVerify inside]; rfl⟩

theorem Declares.getHostsRange_endless (declares : Declares hostMap declared) {e : String} (endless : Endless e) :
    ∃ text, getHostsRange hostMap group e = .error (.fatal text) := by
  obtain ⟨m, found, long⟩ := endless
  obtain ⟨-, last, -⟩ := findRange_eq found
  unfold getHostsRange
  rw [found]
  dsimp only
  rw [atoi_digits last, Nat.min_eq_right long, if_pos rfl, if_pos rfl]
  have halts := declares.mapM_halts group ((List.range (hostMap.entries.length + 1)).map fun round =>
    String.ofList m.front ++ toString (counter (atoi m.first) round))
  rw [List.mapM_map] at halts
  exact halts

theorem entryHosts_garbled {e : String} (garbled : Garbled e) : entryHosts hostMap group e = .error .panic := by
  unfold entryHosts getHostsRange
  rw [if_pos garbled.1, garbled.2]

/-- The entries that are read one name after the other. -/
theorem entryHosts_reads {e : String} (ordered : ¬ Garbled e) (ends : ¬ Endless e) :
    entryHosts hostMap group e = (reads e).mapM (hostVerify hostMap group) := by
  unfold entryHosts reads
  split
  · next range =>
    cases found : findRange e.toList with
    | none => exact absurd ⟨range, found⟩ ordered
    | some m => exact getHostsRange_short found (not_le.mp fun long => ends ⟨m, found, long⟩)
  · rw [List.mapM_cons, List.mapM_nil]
    cases hostVerify hostMap group e <;> rfl

theorem Declares.entryHosts_rejected (declares : Declares hostMap declared) (group : String) {e : String}
    (rejected : Rejected declared e) : ∃ text, entryHosts hostMap group e = .error (.fatal text) := by
  by_cases endless : Endless e
  · obtain ⟨m, found, -⟩ := id endless
    rw [entryHosts, if_pos (bracketed_of_findRange found)]
    exact declares.getHostsRange_endless endless
  · have outside := rejected.resolve_left endless
    have ordered : ¬ Garbled e := by
      rintro ⟨range, none_⟩
      obtain ⟨h, there, -⟩ := outside
      rw [reads, if_pos range, none_] at there
      exact absurd there List.not_mem_nil
    rw [entryHosts_reads ordered endless]
    exact declares.mapM_hostVerify_refused group outside

/-- The entry is read to its end. -/
def Fine (declared : List String) (e : String) : Prop := ¬ Garbled e ∧ ¬ Rejected declared e

theorem Fine.reads_declared {e : String} (fine : Fine declared e) : ∀ h ∈ reads e, h ∈ declared :=
  fun h there => not_not.mp fun absent => fine.2 (.inr ⟨h, there, absent⟩)

theorem Declares.entryHosts_fine (declares : Declares hostMap declared) {e : String} (fine : Fine declared e) :
    entryHosts hostMap group e = .ok (reads e) := by
  rw [entryHosts_reads fine.1 fun endless => fine.2 (.inl endless)]
  exact declares.mapM_hostVerify fine.reads_declared

end Reading

end KubeKey.Cluster
