import Mathlib.Data.List.Induction
import KubeKey.Text.Replace

/-!
# The names of images

`pkg/images/images.go` computes the parts of an image name three times: `ImageRegistryAddr` and `ImageNamespace` return
the registry and the namespace, and `ImageRepo` the two and the repository in one. Only the last applies the rewrite of
namespaces, so that the parts differ from the whole wherever the rewrite changes something. The rewrite itself takes
the last listed source that occurs anywhere in the namespace and replaces it wherever it occurs.
-/

namespace KubeKey.Images
open KubeKey.Text.Strings

abbrev Chars := List Char

def cnRegistry : Chars := "registry.cn-beijing.aliyuncs.com".toList

def cnNamespaceOverride : Chars := "kubesphereio".toList

def ChangePrefix : Chars := "changePrefix".toList

/-- `v1alpha2.NamespaceRewrite`. -/
structure NamespaceRewrite where
  Policy : Chars
  Src : List Chars
  Dest : Chars

/-- `Image`, without the group and the switch that say where it is pulled. -/
structure Image where
  RepoAddr : Chars
  Namespace : Chars
  NamespaceOverride : Chars
  Repo : Chars
  Tag : Chars
  NamespaceRewrite : Option NamespaceRewrite

/-- The last source that occurs in the namespace, or nothing. -/
def matchSrc (src : List Chars) (ns : Chars) : Chars :=
  src.foldl (fun found s => if contains s ns then s else found) []

/-- The namespace under the policy `changePrefix`. -/
def modifiedNamespace (src : List Chars) (dest ns : Chars) : Chars :=
  if matchSrc src ns = [] then dest ++ '/' :: ns else replaceAll (matchSrc src ns) dest ns

namespace Image

/-- The registry and the namespace that a zone and a registry come with. -/
def inZone (zone : Chars) (image : Image) : Image :=
  if zone = "cn".toList ∧ (image.RepoAddr = [] ∨ image.RepoAddr = cnRegistry) then
    { image with RepoAddr := cnRegistry, NamespaceOverride := cnNamespaceOverride }
  else image

/-- The namespace under the rewrite of the image. -/
def rewritten (image : Image) : Chars :=
  match image.NamespaceRewrite with
  | none => image.Namespace
  | some rewrite =>
    if rewrite.Policy = ChangePrefix then modifiedNamespace rewrite.Src rewrite.Dest image.Namespace
    else image.Namespace

def ImageNamespace (zone : Chars) (image : Image) : Chars :=
  if (image.inZone zone).NamespaceOverride ≠ [] then (image.inZone zone).NamespaceOverride
  else (image.inZone zone).Namespace

def ImageRegistryAddr (zone : Chars) (image : Image) : Chars :=
  if (image.inZone zone).RepoAddr ≠ [] then (image.inZone zone).RepoAddr else "docker.io".toList

def ImageRepo (zone : Chars) (image : Image) : Chars :=
  let image := image.inZone zone
  let ns := image.rewritten
  (if image.RepoAddr = [] then
    if ns = [] then [] else ns ++ ['/']
  else if image.NamespaceOverride = [] then
    if ns = [] then image.RepoAddr ++ "/library/".toList else image.RepoAddr ++ '/' :: ns ++ ['/']
  else image.RepoAddr ++ '/' :: image.NamespaceOverride ++ ['/']) ++ image.Repo

def ImageName (zone : Chars) (image : Image) : Chars := image.ImageRepo zone ++ ':' :: image.Tag

end Image

/-! ## What is meant -/

/-- An empty namespace stands for the library. -/
def orLibrary (ns : Chars) : Chars := if ns = [] then "library".toList else ns

/-- The whole name is made of the parts. -/
def PartsAgree (zone : Chars) (image : Image) : Prop :=
  image.ImageRepo zone =
    image.ImageRegistryAddr zone ++ '/' :: orLibrary (image.ImageNamespace zone) ++ '/' :: image.Repo

/-- The namespace begins with the path. -/
def LeadingPath (p ns : Chars) : Prop := p ≠ [] ∧ (p = ns ∨ (p ++ ['/']).isPrefixOf ns = true)

/-- The rewrite puts a destination for one listed source that the namespace begins with, or in front where it begins
with none, and the order of the sources does not matter where it begins with no two. -/
structure ChangesPrefix (src : List Chars) (ns : Chars) : Prop where
  once : (∃ p ∈ src, LeadingPath p ns ∧ ∀ dest, modifiedNamespace src dest ns = dest ++ ns.drop p.length) ∨
    (∀ p ∈ src, ¬ LeadingPath p ns) ∧ ∀ dest, modifiedNamespace src dest ns = dest ++ '/' :: ns
  unordered : (∀ p ∈ src, ∀ p' ∈ src, LeadingPath p ns → LeadingPath p' ns → p = p') →
    ∀ src', src'.Perm src → ∀ dest, modifiedNamespace src' dest ns = modifiedNamespace src dest ns

/-- The rewrite of the image, where it has one with the policy. -/
def Image.changePrefix (image : Image) : Option Images.NamespaceRewrite :=
  image.NamespaceRewrite.filter fun rewrite => rewrite.Policy = ChangePrefix

/-! ## When the parts agree -/

/-- A namespace is set for the image whatever its own is. -/
def Overridden (zone : Chars) (image : Image) : Prop :=
  image.NamespaceOverride ≠ [] ∨ (zone = "cn".toList ∧ image.RepoAddr = cnRegistry)

/-- The rewrite leaves the namespace as it is: its last source that occurs is the destination, or it removes the
library, which is what remains. -/
def Unchanged (rewrite : NamespaceRewrite) (ns : Chars) : Prop :=
  matchSrc rewrite.Src ns ≠ [] ∧
    (matchSrc rewrite.Src ns = rewrite.Dest ∨
      (ns = "library".toList ∧ matchSrc rewrite.Src ns = "library".toList ∧ rewrite.Dest = []))

theorem matchSrc_concat (src : List Chars) (s ns : Chars) :
    matchSrc (src ++ [s]) ns = if contains s ns then s else matchSrc src ns := by
  rw [matchSrc, List.foldl_append]
  rfl

/-- What is found is listed and occurs, unless it is nothing. -/
theorem matchSrc_mem (src : List Chars) (ns : Chars) :
    matchSrc src ns = [] ∨ matchSrc src ns ∈ src ∧ contains (matchSrc src ns) ns = true := by
  induction src using List.reverseRecOn with
  | nil => exact .inl rfl
  | append_singleton src s ih =>
    rw [matchSrc_concat]
    split
    · rename_i found
      exact .inr ⟨by simp, found⟩
    · exact ih.imp_right fun inside => ⟨List.mem_append_left _ inside.1, inside.2⟩

/-- Where all that occur are one, that one is found. -/
theorem matchSrc_eq {src : List Chars} {m ns : Chars} (all : ∀ s ∈ src, contains s ns = true → s = m)
    (listed : m = [] ∨ m ∈ src ∧ contains m ns = true) : matchSrc src ns = m := by
  induction src using List.reverseRecOn with
  | nil => exact (listed.resolve_right fun inside => absurd inside.1 List.not_mem_nil).symm
  | append_singleton src s ih =>
    rw [matchSrc_concat]
    split
    · rename_i found
      exact all s (by simp) found
    · rename_i absent
      refine ih (fun s' inside found => all s' (List.mem_append_left _ inside) found)
        (listed.imp_right fun ⟨inside, found⟩ => ⟨?_, found⟩)
      rcases List.mem_append.1 inside with before | last
      · exact before
      · rw [List.mem_singleton.1 last] at found
        exact absurd found absent

theorem LeadingPath.split {p ns : Chars} (leads : LeadingPath p ns) : ns = p ++ ns.drop p.length := by
  rcases leads.2 with rfl | begins
  · rw [List.drop_length, List.append_nil]
  · obtain ⟨rest, rfl⟩ := List.isPrefixOf_iff_prefix.1 begins
    rw [List.append_assoc, List.drop_left]

theorem LeadingPath.contained {p ns : Chars} (leads : LeadingPath p ns) : contains p ns = true :=
  contains_of_isPrefixOf (List.isPrefixOf_iff_prefix.2 ⟨_, leads.split.symm⟩)

/-! ## The parts -/

section Parts

variable {zone : Chars} {image : Image}

/-- Names of one registry and one repository differ in the namespace. -/
theorem name_inj {addr ns ns' repo : Chars} :
    addr ++ '/' :: ns ++ '/' :: repo = addr ++ '/' :: ns' ++ '/' :: repo ↔ ns = ns' := by
  simp

/-- The zone is about the registry and the override. -/
theorem inZone_eq : image.inZone zone =
    { image with
      RepoAddr := (image.inZone zone).RepoAddr, NamespaceOverride := (image.inZone zone).NamespaceOverride } := by
  unfold Image.inZone
  split <;> rfl

theorem inZone_of_addressed (zone : Chars) (addressed : image.RepoAddr ≠ []) :
    (image.inZone zone).RepoAddr = image.RepoAddr ∧
      ((image.inZone zone).NamespaceOverride ≠ [] ↔ Overridden zone image) := by
  unfold Image.inZone Overridden
  split
  · rename_i inside
    have registry := inside.2.resolve_left addressed
    exact ⟨registry.symm, iff_of_true (show cnNamespaceOverride ≠ [] by decide) (.inr ⟨inside.1, registry⟩)⟩
  · rename_i outside
    exact ⟨rfl, .inl, fun overridden => overridden.resolve_right fun inside => outside ⟨inside.1, .inr inside.2⟩⟩

/-- The whole is made of the parts exactly when the namespace is overridden or the rewrite leaves it as it is. -/
theorem partsAgree_iff_orLibrary (addressed : image.RepoAddr ≠ []) :
    PartsAgree zone image ↔ Overridden zone image ∨ orLibrary image.rewritten = orLibrary image.Namespace := by
  obtain ⟨addr, override⟩ := inZone_of_addressed zone addressed
  have rewritten : (image.inZone zone).rewritten = image.rewritten := by rw [inZone_eq]; rfl
  have own : (image.inZone zone).Namespace = image.Namespace := by rw [inZone_eq]
  have repo : (image.inZone zone).Repo = image.Repo := by rw [inZone_eq]
  have solid : (image.inZone zone).RepoAddr ≠ [] := addr.symm ▸ addressed
  rw [PartsAgree, Image.ImageRepo, Image.ImageRegistryAddr, Image.ImageNamespace, ← override]
  by_cases set_ : (image.inZone zone).NamespaceOverride = []
  · simp only [set_, rewritten, own, repo, if_neg solid, if_pos solid, ne_eq, not_true_eq_false, if_false, if_true,
      false_or]
    have whole : ((if image.rewritten = [] then (image.inZone zone).RepoAddr ++ "/library/".toList
        else (image.inZone zone).RepoAddr ++ '/' :: image.rewritten ++ ['/']) ++ image.Repo) =
        (image.inZone zone).RepoAddr ++ '/' :: orLibrary image.rewritten ++ '/' :: image.Repo := by
      unfold orLibrary
      split <;> simp
    rw [whole, name_inj]
  · have named : orLibrary (image.inZone zone).NamespaceOverride = (image.inZone zone).NamespaceOverride := if_neg set_
    simp only [if_neg solid, if_pos solid, if_neg set_, if_pos (Ne.intro set_), repo, named]
    simp [set_]

/-- Replacing a text leaves nothing of the library only where the whole word, in which no letter like the first comes
again, is replaced with nothing. -/
theorem eq_library {m dest : Chars} (solid : m ≠ []) (there : contains m "library".toList = true)
    (gone : replaceAll m dest "library".toList = []) : m = "library".toList ∧ dest = [] := by
  obtain ⟨front, back, split, -, replaced⟩ := replaceAll_split solid there
  have parts := (replaced dest).symm.trans gone
  rw [List.append_eq_nil_iff, List.append_eq_nil_iff] at parts
  obtain ⟨rfl, rfl, behind⟩ := parts
  refine ⟨?_, rfl⟩
  rw [List.nil_append] at split
  cases again : contains m back with
  | false =>
    rw [replaceAll_of_not_contains again] at behind
    rw [split, behind, List.append_nil]
  | true =>
    obtain ⟨front', back', split', -, replaced'⟩ := replaceAll_split solid again
    have parts' := (replaced' []).symm.trans behind
    rw [List.append_eq_nil_iff] at parts'
    rw [parts'.1, List.nil_append] at split'
    obtain ⟨c, cs, rfl⟩ := List.exists_cons_of_ne_nil solid
    rw [split', List.cons_append] at split
    have first : 'l' = c := (List.cons.inj (show 'l' :: "ibrary".toList = _ from split)).1
    have others : "ibrary".toList = cs ++ (c :: cs ++ back') :=
      (List.cons.inj (show 'l' :: "ibrary".toList = _ from split)).2
    have twice : 'l' ∈ "ibrary".toList := by
      rw [others, first]
      simp
    exact absurd twice (by decide)

theorem orLibrary_modified_iff (rewrite : NamespaceRewrite) (ns : Chars) :
    orLibrary (modifiedNamespace rewrite.Src rewrite.Dest ns) = orLibrary ns ↔ Unchanged rewrite ns := by
  unfold modifiedNamespace Unchanged
  split
  · rename_i nothing
    refine iff_of_false (fun same => ?_) fun unchanged => unchanged.1 nothing
    rw [orLibrary, if_neg (by simp), orLibrary] at same
    split at same
    · have slash : '/' ∈ "library".toList := same ▸ (by simp)
      exact absurd slash (by decide)
    · have longer := congrArg List.length same
      rw [List.length_append, List.length_cons] at longer
      omega
  · rename_i solid
    have there := ((matchSrc_mem rewrite.Src ns).resolve_left solid).2
    have some_ : ns ≠ [] := by
      rintro rfl
      obtain ⟨c, cs, found⟩ := List.exists_cons_of_ne_nil solid
      rw [found] at there
      cases there
    rw [orLibrary, orLibrary, if_neg some_]
    simp only [ne_eq, solid, not_false_eq_true, true_and]
    constructor
    · intro same
      split at same
      · rename_i gone
        subst same
        exact .inr ⟨rfl, eq_library solid there gone⟩
      · exact .inl ((replaceAll_eq_self_iff solid there).1 same)
    · rintro (same | ⟨library, whole, nothing⟩)
      · rw [← same, replaceAll_self solid, if_neg some_]
      · rw [whole, library, nothing]
        decide

/-- The parts agree exactly when the namespace is overridden or the rewrite, if there is one, changes nothing. -/
theorem partsAgree_iff (addressed : image.RepoAddr ≠ []) :
    PartsAgree zone image ↔
      Overridden zone image ∨ ∀ rewrite ∈ image.changePrefix, Unchanged rewrite image.Namespace := by
  rw [partsAgree_iff_orLibrary addressed, Image.rewritten, Image.changePrefix]
  cases image.NamespaceRewrite with
  | none => simp
  | some rewrite =>
    by_cases named : rewrite.Policy = ChangePrefix
    · rw [Option.filter_some]
      simp [named, orLibrary_modified_iff]
    · simp [named]

end Parts

/-! ## The rewrite -/

section Rewrite

variable {src : List Chars} {ns : Chars}

/-- The rewrite is one of a prefix: no listed source occurs in the namespace, the empty one apart; or the last that
occurs is one that the namespace begins with, does not occur again, and is the only one that occurs unless the namespace
begins with another one too. -/
def OnlyPrefixes (src : List Chars) (ns : Chars) : Prop :=
  (∀ s ∈ src, contains s ns = true → s = []) ∨
    (LeadingPath (matchSrc src ns) ns ∧ contains (matchSrc src ns) (ns.drop (matchSrc src ns).length) = false ∧
      ((∀ s ∈ src, contains s ns = true → s = matchSrc src ns) ∨
        ∃ p ∈ src, LeadingPath p ns ∧ p ≠ matchSrc src ns))

/-- No replacement puts the destination and a slash in front, whatever the destination. -/
theorem not_added {m : Chars} (solid : m ≠ []) : ¬ ∀ dest, replaceAll m dest ns = dest ++ '/' :: ns := fun added => by
  have shorter : (replaceAll m [] ns).length ≤ ns.length := length_replaceAll_le solid (Nat.zero_le _) ns
  rw [added [], List.nil_append, List.length_cons] at shorter
  omega

/-- What the rewrite does when it is right, by the last source that occurs. -/
theorem once_iff :
    ((∃ p ∈ src, LeadingPath p ns ∧ ∀ dest, modifiedNamespace src dest ns = dest ++ ns.drop p.length) ∨
      (∀ p ∈ src, ¬ LeadingPath p ns) ∧ ∀ dest, modifiedNamespace src dest ns = dest ++ '/' :: ns) ↔
      (matchSrc src ns = [] ∧ ∀ p ∈ src, ¬ LeadingPath p ns) ∨
        (LeadingPath (matchSrc src ns) ns ∧
          contains (matchSrc src ns) (ns.drop (matchSrc src ns).length) = false) := by
  unfold modifiedNamespace
  by_cases nothing : matchSrc src ns = []
  · simp only [nothing, if_true, true_and, implies_true, and_true]
    have apart : ¬ LeadingPath [] ns := fun leads => leads.1 rfl
    simp only [apart, false_and, or_false]
    refine ⟨fun right => right.resolve_left ?_, .inr⟩
    rintro ⟨p, -, -, stripped⟩
    have lengths := congrArg List.length (stripped [])
    rw [List.length_append, List.length_append, List.length_cons, List.length_drop] at lengths
    omega
  · simp only [nothing, if_false, false_and, false_or]
    obtain ⟨listed, there⟩ := (matchSrc_mem src ns).resolve_left nothing
    simp only [not_added nothing, and_false, or_false]
    constructor
    · rintro ⟨p, -, leads, stripped⟩
      obtain ⟨split, once⟩ := (replaceAll_front_iff nothing there _).1 stripped
      have same : matchSrc src ns = p := List.append_cancel_right (split.symm.trans leads.split)
      rw [same] at once ⊢
      exact ⟨leads, once⟩
    · rintro ⟨leads, once⟩
      exact ⟨_, listed, leads, (replaceAll_front_iff nothing there _).2 ⟨leads.split, once⟩⟩

/-- A source that occurs may be the last one that does. -/
theorem exists_last {s : Chars} (listed : s ∈ src) (there : contains s ns = true) :
    ∃ src', src'.Perm src ∧ matchSrc src' ns = s := by
  refine ⟨src.erase s ++ [s], ?_, by rw [matchSrc_concat, if_pos there]⟩
  exact (List.perm_append_singleton s _).trans (List.perm_cons_erase listed).symm

/-- The rewrite is one of a prefix exactly when the last source that occurs is one, occurs once, and no other occurs
where one prefix is listed. -/
theorem changesPrefix_iff : ChangesPrefix src ns ↔ OnlyPrefixes src ns := by
  constructor
  · rintro ⟨once, unordered⟩
    rcases once_iff.1 once with ⟨nothing, apart⟩ | ⟨leads, alone⟩
    · refine .inl fun s listed there => ?_
      by_contra solid
      obtain ⟨src', same, last⟩ := exists_last listed there
      have added : ∀ dest, replaceAll s dest ns = dest ++ '/' :: ns := fun dest => by
        have result := unordered (fun p inside _ _ leads => absurd leads (apart p inside)) src' same dest
        rwa [modifiedNamespace, modifiedNamespace, last, nothing, if_neg solid, if_pos rfl] at result
      exact not_added solid added
    · refine .inr ⟨leads, alone, ?_⟩
      by_cases another : ∃ p ∈ src, LeadingPath p ns ∧ p ≠ matchSrc src ns
      · exact .inr another
      · refine .inl fun s listed there => ?_
        have single : ∀ p ∈ src, LeadingPath p ns → p = matchSrc src ns := fun p inside leads => by
          by_contra other
          exact another ⟨p, inside, leads, other⟩
        obtain ⟨src', same, last⟩ := exists_last listed there
        have stripped := (replaceAll_front_iff leads.1 leads.contained _).2 ⟨leads.split, alone⟩
        have result : ∀ dest,
            modifiedNamespace src' dest ns = dest ++ ns.drop (matchSrc src ns).length := fun dest => by
          rw [unordered (fun p inside p' inside' leads leads' =>
            (single p inside leads).trans (single p' inside' leads').symm) src' same dest, modifiedNamespace,
            if_neg leads.1, stripped]
        rw [← last] at there ⊢
        by_cases nothing : matchSrc src' ns = []
        · have lengths := congrArg List.length (result [])
          rw [modifiedNamespace, if_pos nothing] at lengths
          rw [List.length_append, List.length_append, List.length_cons, List.length_drop] at lengths
          omega
        · simp only [modifiedNamespace, if_neg nothing] at result
          obtain ⟨split, -⟩ := (replaceAll_front_iff nothing there _).1 result
          exact List.append_cancel_right (split.symm.trans leads.split)
  · rintro (none_ | ⟨leads, alone, unique⟩)
    · have nothing : ∀ src', src'.Perm src → matchSrc src' ns = [] := fun src' same =>
        matchSrc_eq (fun s inside => none_ s (same.subset inside)) (.inl rfl)
      refine ⟨once_iff.2 (.inl ⟨nothing src (.refl _), fun p inside leads => ?_⟩), fun _ src' same dest => ?_⟩
      · exact leads.1 (none_ p inside leads.contained)
      · rw [modifiedNamespace, modifiedNamespace, nothing src' same, nothing src (.refl _)]
    · have listed := ((matchSrc_mem src ns).resolve_left leads.1).1
      refine ⟨once_iff.2 (.inr ⟨leads, alone⟩), fun single src' same dest => ?_⟩
      have all : ∀ s ∈ src, contains s ns = true → s = matchSrc src ns := by
        refine unique.resolve_right ?_
        rintro ⟨p, inside, leads', other⟩
        exact other (single p inside _ listed leads' leads)
      have found : matchSrc src' ns = matchSrc src ns :=
        matchSrc_eq (fun s inside => all s (same.subset inside))
          (.inr ⟨same.symm.subset listed, leads.contained⟩)
      rw [modifiedNamespace, modifiedNamespace, found]

end Rewrite

/-- The whole of a name is made of its parts and the rewrite is one of a prefix exactly when the namespace is
overridden or the rewrite leaves it as it is, and only prefixes are listed among the sources that occur. -/
theorem names_iff (zone : Chars) (image : Image) (addressed : image.RepoAddr ≠ []) :
    (PartsAgree zone image ∧ ∀ rewrite ∈ image.changePrefix, ChangesPrefix rewrite.Src image.Namespace) ↔
      (Overridden zone image ∨ ∀ rewrite ∈ image.changePrefix, Unchanged rewrite image.Namespace) ∧
        ∀ rewrite ∈ image.changePrefix, OnlyPrefixes rewrite.Src image.Namespace :=
  and_congr (partsAgree_iff addressed) (forall₂_congr fun _ _ => changesPrefix_iff)

/-- An image of the namespace `kubesphere` in a mirror, with the rewrite of the documented configuration. -/
def mirrored : Image where
  RepoAddr := "dockerhub.kubekey.local".toList
  Namespace := "kubesphere".toList
  NamespaceOverride := []
  Repo := "ks-core".toList
  Tag := "v3.4.1".toList
  NamespaceRewrite := some ⟨ChangePrefix, ["namespace1".toList], "library".toList⟩

theorem names_iff_mirrored :
    (PartsAgree [] mirrored ∧ ∀ rewrite ∈ mirrored.changePrefix, ChangesPrefix rewrite.Src mirrored.Namespace) ↔
      (Overridden [] mirrored ∨ ∀ rewrite ∈ mirrored.changePrefix, Unchanged rewrite mirrored.Namespace) ∧
        ∀ rewrite ∈ mirrored.changePrefix, OnlyPrefixes rewrite.Src mirrored.Namespace :=
  names_iff [] mirrored (by decide)

/-- The whole has the namespace `library/kubesphere` and the part the namespace `kubesphere`; and a source is replaced
inside a word. -/
theorem not_partsAgree_mirrored :
    ¬ PartsAgree [] mirrored ∧ ¬ ChangesPrefix ["core".toList] "kubesphere-core".toList := by
  refine ⟨show ¬ _ = _ by decide, fun changes => ?_⟩
  rcases changes.once with ⟨p, listed, leads, -⟩ | ⟨-, added⟩
  · rw [List.mem_singleton.1 listed] at leads
    revert leads
    unfold LeadingPath
    decide
  · have result := added []
    revert result
    decide

end KubeKey.Images
