import KubeKey.Proxy.Refinement

/-!
# Lists in pages

A client that sets a limit calls `GetList` again with the continue token of the last page
until there is none. With a token, the rule for the keys of `buildMatchRules` reads no key at
all, so every page but the first is empty: the client gets all matching objects if and only
if they fit on one page (`paginate_complete_iff`).
-/

namespace KubeKey.Proxy

open KubeKey.Go FileStorage

/-- A token is made of a key that starts with the given prefix, and read under a prefix again. -/
def Continue.Inverts (c : Continue) : Prop :=
  ∀ start rest, ∃ token, token ≠ "" ∧ c.encode (start ++ rest) start = some token ∧
    ∀ start', c.decode token start' = some (start' ++ rest)

theorem Continue.spelled_inverts : Continue.spelled.Inverts := by
  intro start rest
  refine ⟨String.ofList ('v' :: rest.toList), ?_, ?_, fun start' => ?_⟩
  · intro empty
    have lists := congrArg String.toList empty
    simp at lists
  · simp [Continue.spelled, String.toList_append]
  · simp [Continue.spelled]

namespace FileStorage

variable {α β : Type} (s : FileStorage α β)

/-- What a page is asked for: a limit and a predicate, and the token of the page before. -/
def pageOptions (limit : Nat) (matches_ : Object α → Bool) (token : String) : ListOptions α where
  recursive := true
  limit := limit
  token := token
  resourceVersion := ""
  versionMatch := .legacy
  matches_ := matches_

/-- The calls of a client that reads page after page, at most `fuel` of them. -/
def paginate (ns : Option String) (limit : Nat) (matches_ : Object α → Bool) :
    Nat → Go.Tree β → String → Option (Except Failure (List (Item α)))
  | 0, _, _ => none
  | fuel + 1, fs, token =>
    match s.getList fs ns (pageOptions limit matches_ token) with
    | (.error e, _) => some (.error e)
    | (.ok (items, next), fs) =>
      if next = "" then some (.ok items)
      else (paginate ns limit matches_ fuel fs next).map fun later => later.map (items ++ ·)

/-- A stored object that matches. -/
def Matching (fs : Go.Tree β) (ns : Option String) (matches_ : Object α → Bool) (item : Item α) : Prop :=
  (∀ n, ns = some n → item.namespace_ = n) ∧ matches_ item.obj = true ∧
    ∃ name, item.file = name ++ yamlSuffix ∧ s.contents fs ⟨item.namespace_, name⟩ = some item.obj

/-- The client comes to an end and has every matching object once. -/
def Complete (fs : Go.Tree β) (ns : Option String) (limit : Nat) (matches_ : Object α → Bool) : Prop :=
  ∃ fuel items, s.paginate ns limit matches_ fuel fs "" = some (.ok items) ∧ items.Nodup ∧
    ∀ item, item ∈ items ↔ s.Matching fs ns matches_ item

/-- The number of matching objects is not above the limit. -/
def AtMost (fs : Go.Tree β) (ns : Option String) (limit : Nat) (matches_ : Object α → Bool) : Prop :=
  ∃ all : List (Item α), all.Nodup ∧ (∀ item, item ∈ all ↔ s.Matching fs ns matches_ item) ∧ all.length ≤ limit

variable {s} {fs : Go.Tree β} {ns : Option String} {limit : Nat} {matches_ : Object α → Bool}

/-- A rule that reads no key. -/
theorem matching_nothing {keyRule : String → Bool} (reads : ∀ key, keyRule key = false) :
    s.matching keyRule matches_ fs ns = [] := by
  have none_ : ∀ ns (e : String × Entry β), s.selected keyRule matches_ ns e = none := by
    rintro ns ⟨file, entry⟩
    cases entry with
    | dir => rfl
    | file data => simp [selected, reads]
  have empty : ∀ ns (entries : GoMap (Entry β)), s.namespaceMatching keyRule matches_ ns entries = [] := by
    intro ns entries
    exact List.filterMap_eq_nil_iff.mpr fun e _ => none_ ns e
  unfold matching
  split
  · refine List.flatMap_eq_nil_iff.mpr ?_
    rintro ⟨ns, node⟩ -
    cases node with
    | file => rfl
    | dir entries => exact empty ns entries
  · split
    · rfl
    · exact empty _ _

/-- With a token the page is empty and the last one, or the token is refused. -/
theorem getList_token (plain : fs.Plain) (positive : 1 ≤ limit) {token : String} (more : token ≠ "") :
    s.getList fs ns (pageOptions limit matches_ token) =
      match s.tokens.decode token (s.listKey ns) with
      | none => (.error .continueToken, fs)
      | some _ => (.ok ([], ""), listed fs ns) := by
  cases decoded : s.tokens.decode token (s.listKey ns) with
  | none => simp [getList, buildMatchRules, pageOptions, more, decoded]
  | some continueKey =>
    have rules : s.buildMatchRules (s.listKey ns) (pageOptions limit matches_ token) =
        .ok (fun _ => true, fun key => decide (key = continueKey ∧ key ≠ continueKey)) := by
      simp [buildMatchRules, pageOptions, more, decoded]
    have reads : ∀ key, decide (key = continueKey ∧ key ≠ continueKey) = false := by simp
    obtain ⟨c, result, items, flag⟩ := getList_eq rules plain
      fun ns entries _ file data _ read => absurd read (by simp)
    rw [matching_nothing reads, cap_of_le (.inr (Nat.zero_le _))] at items
    have noMore : c.hasMore = false := by
      refine flag ?_
      rintro ⟨-, long⟩
      rw [items] at long
      exact absurd long (Nat.not_le.mpr positive)
    rw [result, handleResult, noMore, items]
    rfl

/-- The first page: the matching items up to the limit, and perhaps a token. -/
theorem getList_first (stored : s.WellStored fs) :
    ∃ c, s.getList fs ns (pageOptions limit matches_ "") = (s.handleResult c, listed fs ns) ∧
      c.items = cap limit (s.matching yamlRule matches_ fs ns) := by
  have rules : s.buildMatchRules (s.listKey ns) (pageOptions limit matches_ "") = .ok (fun _ => true, yamlRule) := rfl
  obtain ⟨c, result, items, -⟩ := getList_eq rules stored.plain stored.namespace_
  exact ⟨c, result, items⟩

theorem handleResult_cases (c : Collected α) :
    (∃ e, s.handleResult c = .error e) ∨ ∃ next, s.handleResult c = .ok (c.items, next) := by
  unfold handleResult
  split
  · cases s.tokens.encode (c.lastKey ++ "\x00") "" with
    | none => exact .inl ⟨_, rfl⟩
    | some next => exact .inr ⟨next, rfl⟩
  · exact .inr ⟨"", rfl⟩

/-- The client gets nothing with a token. -/
theorem paginate_token (plain : fs.Plain) (positive : 1 ≤ limit) {token : String} (more : token ≠ "") {fuel : Nat}
    {items : List (Item α)} (ended : s.paginate ns limit matches_ fuel fs token = some (.ok items)) : items = [] := by
  cases fuel with
  | zero => cases ended
  | succ fuel =>
    rw [paginate, getList_token plain positive more] at ended
    cases decoded : s.tokens.decode token (s.listKey ns) with
    | none =>
      rw [decoded] at ended
      cases ended
    | some key =>
      rw [decoded] at ended
      cases ended
      rfl

/-- Whatever the tokens are, the client gets no more than the first page. -/
theorem paginate_items (stored : s.WellStored fs) (positive : 1 ≤ limit) {fuel : Nat} {items : List (Item α)}
    (ended : s.paginate ns limit matches_ fuel fs "" = some (.ok items)) :
    items = cap limit (s.matching yamlRule matches_ fs ns) := by
  obtain ⟨c, first, found⟩ : ∃ c, s.getList fs ns (pageOptions limit matches_ "") = _ ∧ _ := getList_first stored
  cases fuel with
  | zero => cases ended
  | succ fuel =>
    rw [← found]
    rw [paginate, first] at ended
    obtain ⟨e, fails⟩ | ⟨next, page⟩ := handleResult_cases (s := s) c
    · rw [fails] at ended
      cases ended
    · rw [page] at ended
      dsimp only at ended
      split at ended
      · cases ended
        rfl
      · next more =>
        obtain ⟨later, rest, mapped⟩ := Option.map_eq_some_iff.mp ended
        cases later with
        | error e => cases mapped
        | ok later =>
          cases mapped
          rw [paginate_token (stored.listed ns).plain positive more rest]
          exact List.append_nil _

/-- What is complete fits on one page. -/
theorem Complete.atMost (stored : s.WellStored fs) (positive : 1 ≤ limit)
    (complete : s.Complete fs ns limit matches_) : s.AtMost fs ns limit matches_ := by
  obtain ⟨fuel, items, ended, nodup, members⟩ := complete
  refine ⟨items, nodup, members, ?_⟩
  rw [paginate_items stored positive ended, cap, if_neg (by omega), List.length_take]
  exact Nat.min_le_left _ _

/-- What fits on one page the client gets, with at most one more call. -/
theorem AtMost.complete (stored : s.WellStored fs) (positive : 1 ≤ limit) (tokens : s.tokens.Inverts)
    (few : s.AtMost fs ns limit matches_) : s.Complete fs ns limit matches_ := by
  obtain ⟨all, nodup, members, length⟩ := few
  have perm : (s.matching yamlRule matches_ fs ns).Perm all :=
    (List.perm_ext_iff_of_nodup (nodup_matching _ _ _) nodup).mpr fun item =>
      mem_matching_contents.trans (members item).symm
  obtain ⟨c, first, found⟩ : ∃ c, s.getList fs ns (pageOptions limit matches_ "") = _ ∧ _ := getList_first stored
  rw [cap_of_le (.inr (perm.length_eq ▸ length))] at found
  have ended : s.paginate ns limit matches_ 2 fs "" = some (.ok c.items) := by
    rw [paginate, first]
    cases flag : c.hasMore with
    | true =>
      obtain ⟨token, more, encoded, decoded⟩ := tokens "" (c.lastKey ++ "\x00")
      rw [String.empty_append] at encoded
      simp only [handleResult, flag, encoded, if_true, if_neg more]
      rw [paginate, getList_token (stored.listed ns).plain positive more, decoded]
      simp [Except.map]
    | false => simp [handleResult, flag]
  refine ⟨2, c.items, ended, ?_, fun item => ?_⟩
  · rw [found]
    exact nodup_matching _ _ _
  · rw [found]
    exact mem_matching_contents

/-- For every set of stored objects, every predicate and every limit: the pages have every matching object once, and
come to an end, if and only if there are no more than fit on one page. -/
theorem paginate_complete_iff (s : FileStorage α β) (tokens : s.tokens.Inverts) (fs : Go.Tree β) (stored : s.WellStored fs)
    (ns : Option String) (matches_ : Object α → Bool) (limit : Nat) (positive : 1 ≤ limit) :
    s.Complete fs ns limit matches_ ↔ s.AtMost fs ns limit matches_ :=
  ⟨fun complete => complete.atMost stored positive, fun few => few.complete stored positive tokens⟩

/-- Two objects of one namespace. -/
def twoObjects : Go.Tree (Object Nat) :=
  (serve sampleStorage.exec Go.Tree.empty [.create ⟨"default", "node1"⟩ ⟨"", 1⟩, .create ⟨"default", "node2"⟩ ⟨"", 2⟩]).2

theorem twoObjects_wellStored : sampleStorage.WellStored twoObjects := by
  have one := (WellStored.empty (s := sampleStorage)).create (k := ⟨"default", "node1"⟩) ⟨"", 1⟩ rfl
  have two := one.2.create (k := ⟨"default", "node2"⟩) ⟨"", 2⟩ rfl
  exact two.2

theorem paginate_complete_twoObjects :
    sampleStorage.Complete twoObjects (some "default") 2 fun _ => true :=
  (paginate_complete_iff sampleStorage Continue.spelled_inverts twoObjects twoObjects_wellStored (some "default")
    (fun _ => true) 2 (by decide)).mpr
    ⟨sampleStorage.matching yamlRule (fun _ => true) twoObjects (some "default"), nodup_matching _ _ _,
      fun _ => mem_matching_contents, by decide +kernel⟩

/-- The second of two objects is never returned in pages of one. -/
theorem paginate_incomplete : ¬ sampleStorage.Complete twoObjects (some "default") 1 fun _ => true := by
  intro complete
  obtain ⟨all, nodup, members, length⟩ := complete.atMost twoObjects_wellStored (by decide)
  have first : (⟨"default", "node1.yaml", ⟨"1", 1⟩⟩ : Item Nat) ∈ all :=
    (members _).mpr ⟨by simp, rfl, "node1", rfl, rfl⟩
  have second : (⟨"default", "node2.yaml", ⟨"1", 2⟩⟩ : Item Nat) ∈ all :=
    (members _).mpr ⟨by simp, rfl, "node2", rfl, rfl⟩
  match all, length with
  | [], _ => cases first
  | [item], _ =>
    have same := (List.mem_singleton.mp first).trans (List.mem_singleton.mp second).symm
    simp at same

end FileStorage

end KubeKey.Proxy
