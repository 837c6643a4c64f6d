import KubeKey.Go.Map
import KubeKey.Go.View

/-!
# Ranging over maps

Go visits the entries of a map in an order that no program can rely on, and two
loops over the same map may take different ones. `Visits` says that a list is one
of these orders, and `Loop` runs a body over a list when the body itself may end
in several states. A loop that is given by a function is one of these
(`Loop.ofFold`), and what holds after each round holds at the end (`Loop.invariant`).
`Yields` is total correctness for such programs, with a rule for each way to
compose them.

Layers folded into a view give the same value at a path in every order if those
that decide the path agree there (`View.stack_perm`).
-/

namespace KubeKey.Go

universe u v w
variable {α : Type u}

/-- `range m` may visit the entries `es`, in this order. -/
def GoMap.Visits (m : GoMap α) (es : List (String × α)) : Prop := es.Perm m.entries

namespace GoMap.Visits
variable {m : GoMap α} {es : List (String × α)}

/-- The order of the list that stands for the map. -/
theorem entries (m : GoMap α) : m.Visits m.entries := List.Perm.refl _

theorem distinct (visits : m.Visits es) : (es.map Prod.fst).Nodup := (visits.map Prod.fst).nodup_iff.2 m.distinct

/-- The same map, listed in this order. -/
def reordered (visits : m.Visits es) : GoMap α := ⟨es, visits.distinct⟩

theorem lookup (visits : m.Visits es) (k : String) : es.lookup k = m.get? k := by
  refine Option.ext fun x => ?_
  rw [GoMap.get?_eq_some_iff, ← visits.mem_iff]
  exact ⟨mem_of_lookup, lookup_of_mem visits.distinct⟩

/-- Every entry comes first in some order. -/
theorem exists_first {e : String × α} (member : e ∈ m.entries) : ∃ rest, m.Visits (e :: rest) := by
  obtain ⟨before, after, split⟩ := List.append_of_mem member
  refine ⟨before ++ after, ?_⟩
  rw [GoMap.Visits, split]
  exact List.perm_middle.symm

/-- Every entry comes last in some order. -/
theorem exists_last {e : String × α} (member : e ∈ m.entries) : ∃ before, m.Visits (before ++ [e]) := by
  obtain ⟨rest, visits⟩ := exists_first member
  exact ⟨rest, (List.perm_append_singleton e rest).trans visits⟩

end GoMap.Visits

section Loop
variable {σ : Type u} {ι : Type v} {body : σ → ι → σ → Prop} {s s' : σ} {es : List ι}

/-- A loop over a list. A round that starts in `s` may end in every state that `body s` relates to it. -/
inductive Loop (body : σ → ι → σ → Prop) : List ι → σ → σ → Prop where
  | done (s : σ) : Loop body [] s s
  | round {s s' s'' : σ} {e : ι} {es : List ι} (first : body s e s') (rest : Loop body es s' s'') :
      Loop body (e :: es) s s''

namespace Loop

/-- A loop whose rounds are given by a function. -/
theorem ofFold {f : σ → ι → Option σ} (rounds : ∀ s e s', f s e = some s' → body s e s')
    (run : es.foldlM f s = some s') : Loop body es s s' := by
  induction es generalizing s with
  | nil =>
    cases run
    exact .done _
  | cons e es ih =>
    obtain ⟨s₁, first, rest⟩ := Option.bind_eq_some_iff.1 run
    exact .round (rounds s e s₁ first) (ih rest)

/-- What one round keeps holds at the end. `I` may speak of the entries visited so far. -/
theorem invariant {I : List ι → σ → Prop}
    (round : ∀ done e rest s s', done ++ e :: rest = es → I done s → body s e s' → I (done ++ [e]) s')
    (loop : Loop body es s s') (start : I [] s) : I es s' := by
  suffices ∀ rest done s, done ++ rest = es → I done s → Loop body rest s s' → I es s' from
    this es [] s rfl start loop
  intro rest
  induction rest with
  | nil =>
    intro done s split holds loop
    cases loop
    rwa [← split, List.append_nil]
  | cons e rest ih =>
    intro done s split holds loop
    cases loop with
    | round first later =>
      exact ih (done ++ [e]) _ (by simpa using split) (round done e rest s _ split holds first) later

end Loop

end Loop

section Yields
variable {σ : Type u} {τ : Type v} {ι : Type w} {run post : σ → Prop}

/-- A program that may end in several ways does end, and always in `post`. -/
structure Yields (run post : σ → Prop) : Prop where
  returns : ∃ out, run out
  always : ∀ out, run out → post out

namespace Yields

theorem mono {post' : σ → Prop} (yields : Yields run post) (weaker : ∀ out, post out → post' out) : Yields run post' :=
  ⟨yields.returns, fun out ran => weaker out (yields.always out ran)⟩

theorem pure {out : σ} (holds : post out) : Yields (fun out' => out' = out) post :=
  ⟨⟨out, rfl⟩, fun _ same => same ▸ holds⟩

/-- One program after another. -/
theorem bind {next : σ → τ → Prop} {post' : τ → Prop} (first : Yields run post)
    (second : ∀ s, post s → Yields (next s) post') : Yields (fun out => ∃ s, run s ∧ next s out) post' := by
  obtain ⟨⟨s, ran⟩, always⟩ := first
  obtain ⟨out, later⟩ := (second s (always s ran)).returns
  refine ⟨⟨out, s, ran, later⟩, ?_⟩
  rintro out' ⟨s', ran', later'⟩
  exact (second s' (always s' ran')).always out' later'

/-- A loop ends if its rounds do, and keeps what each of them keeps. -/
theorem loop {body : σ → ι → σ → Prop} {I : List ι → σ → Prop} {es : List ι} {s : σ}
    (round : ∀ done e rest s, done ++ e :: rest = es → I done s → Yields (body s e) (I (done ++ [e])))
    (start : I [] s) : Yields (Loop body es s) (I es) := by
  constructor
  · suffices ∀ rest done s, done ++ rest = es → I done s → ∃ s', Loop body rest s s' from this es [] s rfl start
    intro rest
    induction rest with
    | nil => exact fun _ s _ _ => ⟨s, .done s⟩
    | cons e rest ih =>
      intro done s split holds
      have here := round done e rest s split holds
      obtain ⟨s₁, first⟩ := here.returns
      obtain ⟨s₂, later⟩ := ih (done ++ [e]) s₁ (by simpa using split) (here.always s₁ first)
      exact ⟨s₂, .round first later⟩
  · intro s' ran
    refine ran.invariant ?_ start
    intro done e rest s s' split holds first
    exact (round done e rest s split holds).always s' first

end Yields

end Yields

namespace View

variable {K : Type u} {S : Type v} {opens : S → K → Bool} {base : View K S} {layers layers' : List (View K S)}
  {p : List K}

/-- Layers that agree at a path give the value they agree on. -/
theorem stack_of_agree {x : Option S} (agree : ∀ a ∈ layers, a.decides opens p = true → a p = x)
    (decided : anyDecides opens layers p = true) : stack opens base layers p = x := by
  induction layers generalizing base with
  | nil => cases decided
  | cons a layers ih =>
    have later : ∀ b ∈ layers, b.decides opens p = true → b p = x := fun b member => agree b (by simp [member])
    show stack opens (overlay opens base a) layers p = x
    cases rest : anyDecides opens layers p with
    | true => exact ih later rest
    | false =>
      have here : a.decides opens p = true := by
        rw [anyDecides, List.any_cons] at decided
        rw [anyDecides] at rest
        rwa [rest, Bool.or_false] at decided
      rw [stack_of_not_anyDecides rest, overlay_of_decides here]
      exact agree a (by simp) here

theorem anyDecides_perm (perm : layers.Perm layers') : anyDecides opens layers p = anyDecides opens layers' p := by
  rw [Bool.eq_iff_iff, anyDecides, anyDecides, List.any_eq_true, List.any_eq_true]
  simp only [perm.mem_iff]

/-- Layers in another order. -/
theorem stack_perm (perm : layers.Perm layers')
    (agree : ∀ a ∈ layers, ∀ b ∈ layers, a.decides opens p = true → b.decides opens p = true → a p = b p) :
    stack opens base layers p = stack opens base layers' p := by
  cases decided : anyDecides opens layers p with
  | false => rw [stack_of_not_anyDecides decided, stack_of_not_anyDecides (anyDecides_perm perm ▸ decided)]
  | true =>
    obtain ⟨a, member, decides⟩ := List.any_eq_true.1 decided
    have same : ∀ b ∈ layers, b.decides opens p = true → b p = a p := fun b inside other =>
      agree b inside a member other decides
    rw [stack_of_agree same decided,
      stack_of_agree (fun b inside => same b (perm.mem_iff.2 inside)) (anyDecides_perm perm ▸ decided)]

end View

end KubeKey.Go
