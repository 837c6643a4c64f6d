import Mathlib.Data.List.Sort
import KubeKey.Proxy.Routes

/-!
# Dispatch

`detectDispatcher` of `pkg/proxy/transport.go`. Every router whose expression matches the path is a
candidate, and the first after sorting is asked for the method: the one with most groups, then with
most literal characters. What the last group of a match holds is never looked at, so a path that
goes on after an instance of a template is sent to the handler of the template.

`sort.Sort` is not stable, so it is any function that sorts.
-/

namespace KubeKey.Proxy

open KubeKey.Go KubeKey.Text

/-- The counts that a candidate is ranked by. -/
structure Counts where
  matchesCount : Nat
  literalCount : Nat
  nonDefaultCount : Nat

/-- `dispatcherCandidate`. -/
structure DispatcherCandidate extends Counts where
  router : Router

def PathExpression.counts (e : PathExpression) : Counts := ⟨e.matcher.groups + 1, e.literalCount, e.varCount⟩

/-- `Less`. -/
def Counts.less (ci cj : Counts) : Bool :=
  if ci.matchesCount < cj.matchesCount then true
  else if cj.matchesCount < ci.matchesCount then false
  else if ci.literalCount < cj.literalCount then true
  else if cj.literalCount < ci.literalCount then false
  else ci.nonDefaultCount < cj.nonDefaultCount

/-- The function sorts, the greatest first. -/
def SortsReverse (sort : List DispatcherCandidate → List DispatcherCandidate) : Prop :=
  ∀ cs, (sort cs).Perm cs ∧ (sort cs).Pairwise fun c c' => c.less c'.toCounts = false

def candidates (routers : List Router) (path : Chars) : List DispatcherCandidate :=
  (routers.filter fun r => r.pathExpr.matcher.accepts path).map fun r => ⟨r.pathExpr.counts, r⟩

/-- `detectDispatcher`. `none` is the error that nothing was found. -/
def detectDispatcher (sort : List DispatcherCandidate → List DispatcherCandidate) (routers : List Router) (path : Chars)
    (method : String) : Option Handler :=
  match sort (candidates routers path) with
  | [] => none
  | c :: _ => c.router.handlers.get? method

/-! ## What is meant -/

section

variable (compile : Chars → Option Regexp) (regs : List Registration) (path : Chars) (method : String)

/-- What the template has for the method. -/
def Answers (template : Chars) : Option Handler → Prop
  | some h => ∃ reg ∈ regs, reg.isFor template method = true ∧ reg.handler = h
  | none => ∀ reg ∈ regs, reg.isFor template method = false

/-- The path is an instance of the template. -/
def Instance (template : Chars) : Prop := ∃ e, Registered compile regs template e ∧ Instantiates e.tokens path

/-- The path is an instance of a template that has this for the method, or an instance of none. -/
def Meant (answer : Option Handler) : Prop :=
  (∃ template, Instance compile regs path template ∧ Answers regs method template answer) ∨
    answer = none ∧ ∀ template, ¬ Instance compile regs path template

/-- The path begins with an instance of the template, and with no instance of one that goes before it. -/
def Leads (template : Chars) : Prop :=
  ∃ e, Registered compile regs template e ∧ Begins e.tokens path ∧
    ∀ template' e', Registered compile regs template' e' → Begins e'.tokens path → e.counts.less e'.counts = false

/-- Whatever the order of the registrations, and however ties are sorted, what is found is what is meant. -/
def DispatchExact (apis : List APIResources) : Prop :=
  ∃ answer, Meant compile (apis.flatMap registrations) path method answer ∧
    ∀ regs, regs.Perm (apis.flatMap registrations) → ∀ sort, SortsReverse sort →
      detectDispatcher sort (routersOf compile regs) path method = answer

/-- The templates that lead have the same for the method, and a template that the path is an instance of has it too;
if there is none of these, the templates that lead have nothing. -/
structure LedRight : Prop where
  alike : ∀ template template' answer answer', Leads compile regs path template → Leads compile regs path template' →
    Answers regs method template answer → Answers regs method template' answer' → answer = answer'
  meant : ∀ template answer, Leads compile regs path template → Answers regs method template answer →
    Meant compile regs path method answer

end

/-! ## Sorting -/

theorem less_iff (ci cj : Counts) :
    ci.less cj = true ↔ ci.matchesCount < cj.matchesCount ∨ ci.matchesCount = cj.matchesCount ∧
      (ci.literalCount < cj.literalCount ∨
        ci.literalCount = cj.literalCount ∧ ci.nonDefaultCount < cj.nonDefaultCount) := by
  unfold Counts.less
  split_ifs with first second third fourth
  · exact ⟨fun _ => .inl first, fun _ => rfl⟩
  · refine ⟨(fun impossible => by cases impossible), fun here => ?_⟩
    omega
  · refine ⟨fun _ => .inr ⟨?_, .inl third⟩, fun _ => rfl⟩
    omega
  · refine ⟨(fun impossible => by cases impossible), fun here => ?_⟩
    omega
  · rw [decide_eq_true_iff]
    omega

theorem less_self (c : Counts) : c.less c = false := by
  rw [Bool.eq_false_iff, ne_eq, less_iff]
  omega

/-- The candidates in an order, the greatest first; a candidate stays before those that are as great. -/
def descending (cs : List DispatcherCandidate) : List DispatcherCandidate :=
  cs.insertionSort fun c c' => c.less c'.toCounts = false

theorem descending_sorts : SortsReverse descending := by
  intro cs
  refine ⟨List.perm_insertionSort _ _, ?_⟩
  have total : Std.Total fun c c' : DispatcherCandidate => c.less c'.toCounts = false := by
    refine ⟨fun c c' => ?_⟩
    rw [Bool.eq_false_iff, Bool.eq_false_iff, ne_eq, ne_eq, less_iff, less_iff]
    omega
  have trans : IsTrans DispatcherCandidate fun c c' => c.less c'.toCounts = false := by
    refine ⟨fun c c' c'' => ?_⟩
    simp only [Bool.eq_false_iff, ne_eq, less_iff]
    omega
  exact List.pairwise_insertionSort _ _

/-- The first candidate stays the first if none is greater. -/
theorem descending_cons {c : DispatcherCandidate} {cs : List DispatcherCandidate}
    (greatest : ∀ c' ∈ cs, c.less c'.toCounts = false) : descending (c :: cs) = c :: descending cs := by
  have rest : ∀ c' ∈ descending cs, c.less c'.toCounts = false := fun c' inside =>
    greatest c' ((List.perm_insertionSort _ _).mem_iff.1 inside)
  change List.orderedInsert _ c (descending cs) = _
  cases there : descending cs with
  | nil => rfl
  | cons c' cs' =>
    rw [List.orderedInsert, if_pos (rest c' (there ▸ List.mem_cons_self))]

section Dispatch

variable {compile : Chars → Option Regexp} {regs regs' : List Registration} {path : Chars} {method : String}

/-! ## The order of the registrations -/

theorem registered_perm (perm : regs'.Perm regs) (template : Chars) (e : PathExpression) :
    Registered compile regs' template e ↔ Registered compile regs template e := by
  simp only [Registered, perm.mem_iff]

theorem answers_perm (perm : regs'.Perm regs) (template : Chars) (answer : Option Handler) :
    Answers regs' method template answer ↔ Answers regs method template answer := by
  cases answer <;> simp only [Answers, perm.mem_iff]

theorem leads_perm (perm : regs'.Perm regs) (template : Chars) :
    Leads compile regs' path template ↔ Leads compile regs path template := by
  simp only [Leads, registered_perm perm]

/-- What a template has for a method can be said, and is the first that was registered. -/
theorem answers_find (regs : List Registration) (method : String) (template : Chars) :
    Answers regs method template ((regs.find? (·.isFor template method)).map (·.handler)) := by
  cases found : regs.find? (·.isFor template method) with
  | none => exact fun reg inside => Bool.eq_false_iff.2 (List.find?_eq_none.1 found reg inside)
  | some reg => exact ⟨reg, List.mem_of_find?_eq_some found, List.find?_some found, rfl⟩

/-- An expression matches if the path begins with an instance. -/
theorem matcher_registered {template : Chars} {e : PathExpression} (there : Registered compile regs template e) :
    e.matcher.accepts path = true ↔ Begins e.tokens path := by
  obtain ⟨compiled, -⟩ := there
  obtain ⟨tokens, -, rfl⟩ := Option.map_eq_some_iff.1 compiled
  exact matcher_iff tokens path

/-! ## The first candidate -/

/-- What is found is what a template has that leads, or nothing leads. -/
theorem detectDispatcher_leads (compile : Chars → Option Regexp) (regs : List Registration) (path : Chars)
    (method : String) {sort : List DispatcherCandidate → List DispatcherCandidate} (sorts : SortsReverse sort) :
    (∃ template, Leads compile regs path template ∧
        Answers regs method template (detectDispatcher sort (routersOf compile regs) path method)) ∨
      (detectDispatcher sort (routersOf compile regs) path method = none ∧
        ∀ template e, Registered compile regs template e → ¬ Begins e.tokens path) := by
  obtain ⟨-, registered, handlers⟩ := routersOf_table compile regs
  obtain ⟨perm, sorted⟩ := sorts (candidates (routersOf compile regs) path)
  have candidate : ∀ r ∈ routersOf compile regs, Begins r.pathExpr.tokens path →
      ⟨r.pathExpr.counts, r⟩ ∈ candidates (routersOf compile regs) path := by
    intro r inside begun
    have there := (registered r.path r.pathExpr).2 ⟨r, inside, rfl, rfl⟩
    exact List.mem_map.2 ⟨r, List.mem_filter.2 ⟨inside, (matcher_registered there).2 begun⟩, rfl⟩
  unfold detectDispatcher
  cases order : sort (candidates (routersOf compile regs) path) with
  | nil =>
    refine .inr ⟨rfl, fun template e there begun => ?_⟩
    obtain ⟨r, inside, rfl, rfl⟩ := (registered template e).1 there
    rw [order] at perm
    exact absurd (perm.mem_iff.2 (candidate r inside begun)) List.not_mem_nil
  | cons c cs =>
    rw [order] at perm sorted
    obtain ⟨r, kept, rfl⟩ := List.mem_map.1 (perm.mem_iff.1 List.mem_cons_self)
    obtain ⟨inside, accepted⟩ := List.mem_filter.1 kept
    have there := (registered r.path r.pathExpr).2 ⟨r, inside, rfl, rfl⟩
    refine .inl ⟨r.path, ⟨r.pathExpr, there, (matcher_registered there).1 accepted, ?_⟩, ?_⟩
    · intro template' e' there' begun'
      obtain ⟨r', inside', rfl, rfl⟩ := (registered template' e').1 there'
      rcases List.mem_cons.1 (perm.mem_iff.2 (candidate r' inside' begun')) with same | later
      · have counts : r'.pathExpr.counts = r.pathExpr.counts := congrArg DispatcherCandidate.toCounts same
        rw [counts]
        exact less_self _
      · exact List.rel_of_pairwise_cons sorted later
    · have first := answers_find regs method r.path
      rwa [← handlers r inside method] at first

/-- The template of the first registration has the first router. -/
theorem routersOf_cons (regs : List Registration) {reg : Registration} {e : PathExpression}
    (added : reg.shouldAdd = true) (compiled : newPathExpression compile reg.path = some e) :
    ∃ r rs, routersOf compile (reg :: regs) = r :: rs ∧ r.path = reg.path ∧ r.pathExpr = e := by
  have first : routersOf compile [reg] = [⟨reg.path, e, GoMap.empty.put reg.verb reg.handler⟩] := by
    simp only [routersOf, List.foldl_cons, List.foldl_nil, registerRouter, if_pos added, addToRouter, compiled,
      List.nil_append]
  induction regs using List.reverseRecOn with
  | nil => exact ⟨_, _, first, rfl, rfl⟩
  | append_singleton regs reg' ih =>
    obtain ⟨r, rs, routers, its, expression⟩ := ih
    have step : routersOf compile (reg :: (regs ++ [reg'])) = registerRouter compile (r :: rs) reg' := by
      rw [← routers, routersOf, ← List.cons_append, List.foldl_append]
      rfl
    rw [step, registerRouter]
    split
    · rcases addToRouter_cases reg' (r :: rs) with ⟨absent, -⟩ | ⟨before, r', after, whole, -, -, there⟩
      · rw [absent]
        cases newPathExpression compile reg'.path with
        | none => exact ⟨r, rs, rfl, its, expression⟩
        | some e' => exact ⟨r, _, rfl, its, expression⟩
      · rw [there]
        cases before with
        | nil =>
          obtain ⟨rfl, -⟩ := List.cons.inj whole
          have paths := path_add r reg'.verb reg'.handler
          exact ⟨_, _, rfl, paths.1.trans its, paths.2.trans expression⟩
        | cons r₀ before =>
          obtain ⟨rfl, -⟩ := List.cons.inj whole
          exact ⟨_, _, rfl, its, expression⟩
    · exact ⟨r, rs, rfl, its, expression⟩

/-- A template that leads can come first, if a registration of it does. -/
theorem detectDispatcher_first {reg : Registration} (added : reg.shouldAdd = true)
    (leads : Leads compile (reg :: regs) path reg.path) :
    detectDispatcher descending (routersOf compile (reg :: regs)) path method =
      ((reg :: regs).find? (·.isFor reg.path method)).map (·.handler) := by
  obtain ⟨-, registered, handlers⟩ := routersOf_table compile (reg :: regs)
  obtain ⟨e, there, begun, greatest⟩ := leads
  obtain ⟨r, rs, routers, its, rfl⟩ := routersOf_cons regs added there.1
  rw [routers] at registered handlers
  have accepted : r.pathExpr.matcher.accepts path = true := (matcher_registered there).2 begun
  have others : ∀ c ∈ candidates rs path, r.pathExpr.counts.less c.toCounts = false := by
    intro c inside
    obtain ⟨r', kept, rfl⟩ := List.mem_map.1 inside
    obtain ⟨inside', accepted'⟩ := List.mem_filter.1 kept
    have there' := (registered r'.path r'.pathExpr).2 ⟨r', List.mem_cons_of_mem _ inside', rfl, rfl⟩
    exact greatest _ _ there' ((matcher_registered there').1 accepted')
  have list : candidates (r :: rs) path = ⟨r.pathExpr.counts, r⟩ :: candidates rs path := by
    simp only [candidates, List.filter_cons, accepted, if_true, List.map_cons]
  rw [detectDispatcher, routers, list, descending_cons others, ← its]
  exact handlers r List.mem_cons_self method

/-- What a template has that leads is found in some order. -/
theorem found_of_leads {template : Chars} {answer : Option Handler} (leads : Leads compile regs path template)
    (answers : Answers regs method template answer) :
    ∃ regs', regs'.Perm regs ∧ detectDispatcher descending (routersOf compile regs') path method = answer := by
  have toFirst : ∀ reg ∈ regs, reg.shouldAdd = true → reg.path = template →
      ∃ others, (reg :: others).Perm regs ∧
        detectDispatcher descending (routersOf compile (reg :: others)) path method =
          ((reg :: others).find? (·.isFor reg.path method)).map (·.handler) := by
    rintro reg inside added rfl
    obtain ⟨before, after, rfl⟩ := List.append_of_mem inside
    have perm : (reg :: (before ++ after)).Perm (before ++ reg :: after) := List.perm_middle.symm
    exact ⟨before ++ after, perm, detectDispatcher_first added ((leads_perm perm _).2 leads)⟩
  cases answer with
  | some h =>
    obtain ⟨reg, inside, its, rfl⟩ := answers
    have parts := its
    simp only [Registration.isFor, Bool.and_eq_true, decide_eq_true_iff] at parts
    obtain ⟨⟨added, rfl⟩, -⟩ := parts
    obtain ⟨others, perm, found⟩ := toFirst reg inside added rfl
    refine ⟨_, perm, found.trans ?_⟩
    rw [List.find?_cons_of_pos its]
    rfl
  | none =>
    obtain ⟨e, ⟨-, reg, inside, added, rfl⟩, -⟩ := id leads
    obtain ⟨others, perm, found⟩ := toFirst reg inside added rfl
    refine ⟨_, perm, found.trans ?_⟩
    have absent : (reg :: others).find? (·.isFor reg.path method) = none := by
      rw [List.find?_eq_none]
      intro reg' inside' for_
      rw [answers reg' (perm.mem_iff.1 inside')] at for_
      cases for_
    rw [absent]
    rfl

theorem ledRight_of_exact {apis : List APIResources} (exact_ : DispatchExact compile path method apis) :
    LedRight compile (apis.flatMap registrations) path method := by
  obtain ⟨answer, meant, found⟩ := exact_
  have same : ∀ template answer', Leads compile (apis.flatMap registrations) path template →
      Answers (apis.flatMap registrations) method template answer' → answer' = answer := by
    intro template answer' leads answers
    obtain ⟨regs', perm, here⟩ := found_of_leads leads answers
    exact here.symm.trans (found regs' perm descending descending_sorts)
  refine ⟨fun template template' a a' leads leads' answers answers' => ?_, fun template a leads answers => ?_⟩
  · exact (same template a leads answers).trans (same template' a' leads' answers').symm
  · exact same template a leads answers ▸ meant

theorem exact_of_ledRight {apis : List APIResources}
    (right : LedRight compile (apis.flatMap registrations) path method) :
    DispatchExact compile path method apis := by
  obtain ⟨alike, meant⟩ := right
  rcases detectDispatcher_leads compile (apis.flatMap registrations) path method descending_sorts with
    ⟨template, leads, answers⟩ | ⟨nothing, none_⟩
  · refine ⟨_, meant template _ leads answers, fun regs' perm sort sorts => ?_⟩
    rcases detectDispatcher_leads compile regs' path method sorts with ⟨template', leads', answers'⟩ | ⟨-, none_⟩
    · exact alike template' template _ _ ((leads_perm perm _).1 leads') leads ((answers_perm perm _ _).1 answers')
        answers
    · obtain ⟨e, there, begun, -⟩ := leads
      exact absurd begun (none_ template e ((registered_perm perm _ _).2 there))
  · refine ⟨none, .inr ⟨rfl, ?_⟩, fun regs' perm sort sorts => ?_⟩
    · rintro template ⟨e, there, here⟩
      exact none_ template e there here.begins
    · rcases detectDispatcher_leads compile regs' path method sorts with ⟨template, leads, -⟩ | ⟨nothing', -⟩
      · obtain ⟨e, there, begun, -⟩ := leads
        exact absurd begun (none_ template e ((registered_perm perm _ _).1 there))
      · exact nothing'

/-- Dispatch is exact for a path and a method exactly if the templates that lead have what is meant. -/
theorem dispatch_iff (compile : Chars → Option Regexp) (apis : List APIResources) (path : Chars) (method : String) :
    DispatchExact compile path method apis ↔ LedRight compile (apis.flatMap registrations) path method :=
  ⟨ledRight_of_exact, exact_of_ledRight⟩

/-- For a path that is an instance of no template it is exact if no template that leads has the method. -/
theorem exact_astray_iff {apis : List APIResources}
    (astray : ∀ template, ¬ Instance compile (apis.flatMap registrations) path template) :
    DispatchExact compile path method apis ↔
      ∀ template, Leads compile (apis.flatMap registrations) path template →
        Answers (apis.flatMap registrations) method template none := by
  constructor
  · intro exact_ template leads
    have first := answers_find (apis.flatMap registrations) method template
    rcases (ledRight_of_exact exact_).meant template _ leads first with ⟨template', here, -⟩ | ⟨nothing, -⟩
    · exact absurd here (astray template')
    · rwa [nothing] at first
  · intro nothing
    have only : ∀ template answer, Leads compile (apis.flatMap registrations) path template →
        Answers (apis.flatMap registrations) method template answer → answer = none := by
      intro template answer leads answers
      cases answer with
      | none => rfl
      | some h =>
        obtain ⟨reg, inside, for_, -⟩ := answers
        have not_ : reg.isFor template method = false := nothing template leads reg inside
        rw [for_] at not_
        cases not_
    refine exact_of_ledRight ⟨fun template template' a a' leads leads' answers answers' => ?_,
      fun template a leads answers => ?_⟩
    · exact (only template a leads answers).trans (only template' a' leads' answers').symm
    · exact .inr ⟨only template a leads answers, astray⟩

end Dispatch

/-! ## A path that goes on -/

/-- The storage of the tasks. -/
def taskStorage : Storage where
  id := 0
  scoper := some true
  lister := true
  watcher := true
  creater := true
  collectionDeleter := true
  getter := true
  updater := true
  patcher := true
  gracefulDeleter := true

def taskStatusStorage : Storage where
  id := 1
  scoper := some true
  getter := true
  updater := true
  patcher := true

/-- What is always registered. -/
def kkv1alpha1 : APIResources where
  gv := ⟨"kubekey.kubesphere.io".toList, "v1alpha1".toList⟩
  resourceOptions :=
    [ResourceOptions.init "tasks".toList taskStorage,
      ResourceOptions.init "tasks/status".toList taskStatusStorage].reduceOption

/-- The path of a task, and one more segment. -/
def extraSegment : Chars := kkv1alpha1.root ++ "/namespaces/default/tasks/t1/extra".toList

/-- No template has the path as an instance. -/
theorem extraSegment_astray : ∀ reg ∈ [kkv1alpha1].flatMap registrations, reg.shouldAdd = true →
    ∀ e, newPathExpression (fun _ => none) reg.path = some e → ¬ Instantiates e.tokens extraSegment := by
  have checked : (([kkv1alpha1].flatMap registrations).all fun reg =>
      !reg.shouldAdd || (newPathExpression (fun _ => none) reg.path).all fun e =>
        !decide (Instantiates e.tokens extraSegment)) = true := by decide +kernel
  intro reg inside added e compiled
  have here := List.all_eq_true.1 checked reg inside
  rw [added, compiled] at here
  simpa using here

/-- The path of a task with one more segment is sent to the handler of the task. -/
theorem dispatch_not_exact : ¬ ∀ (compile : Chars → Option Regexp) (apis : List APIResources) (path : Chars)
    (method : String), DispatchExact compile path method apis := by
  intro all
  obtain ⟨answer, meant, found⟩ := all (fun _ => none) [kkv1alpha1] extraSegment "GET"
  have sent : (detectDispatcher descending (routersOf (fun _ => none) ([kkv1alpha1].flatMap registrations))
      extraSegment "GET").isSome = true := by decide +kernel
  rw [found _ (.refl _) descending descending_sorts] at sent
  rcases meant with ⟨template, ⟨e, ⟨compiled, reg, inside, added, rfl⟩, here⟩, -⟩ | ⟨rfl, -⟩
  · exact extraSegment_astray reg inside added e compiled here
  · cases sent

end KubeKey.Proxy
