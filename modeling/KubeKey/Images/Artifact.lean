import KubeKey.Text.Strings

/-!
# References to the images of an artifact

`SaveImages` copies each image of a manifest for each of its platforms into an artifact, under a reference that ends
with the architecture and the variant, and `CopyImagesToRegistry` parses such references again. Parsing gives back
what was written for every supported platform (`parseImage_saved`), but the variant that is asked of the source
registry is the text put into the reference, with its dash.
-/

namespace KubeKey.Images
open KubeKey.Text.Strings

/-- `ocispec.Platform`. -/
structure Platform where
  OS : List Char
  Architecture : List Char
  Variant : List Char
deriving DecidableEq, Repr

/-- The options of one side of a copy. -/
structure ImageOptions where
  imageName : List Char
  arch : List Char
  variant : List Char
  os : List Char

structure CopyImageOptions where
  srcImage : ImageOptions
  destImage : ImageOptions

/-- `ParseArchVariant`. -/
def ParseArchVariant (platform : List Char) : List Char × List Char :=
  match platform.splitOn '/' with
  | arch :: variant :: _ => (arch, variant)
  | [arch] => (arch, [])
  | [] => ([], [])

/-- `strings.LastIndex` of a character, as what stands in front of it and what stands behind. -/
def cutLast (c : Char) (s : List Char) : Option (List Char × List Char) :=
  if c ∈ s then
    some ((s.reverse.dropWhile (· ≠ c)).tail.reverse, (s.reverse.takeWhile (· ≠ c)).reverse)
  else none

def knownArchs : List (List Char) :=
  ["386", "amd64", "amd64p32", "arm", "armbe", "arm64", "arm64be", "ppc64", "ppc64le", "loong64", "mips", "mipsle",
    "mips64", "mips64le", "mips64p32", "mips64p32le", "ppc", "riscv", "riscv64", "s390", "s390x", "sparc", "sparc64",
    "wasm"].map String.toList

def isKnownArch (arch : List Char) : Bool := knownArchs.any fun known => arch = known

section

variable (parse : List Char → Option Platform)

/-- `ParseImageWithArchTag`, or nothing where it exits. -/
def ParseImageWithArchTag (ref : List Char) : Option (List Char × Platform) :=
  match cutLast '-' ref with
  | none => none
  | some (archStr, archOrVariant) =>
    match (parse ("linux/".toList ++ archOrVariant)).filter fun p => isKnownArch p.Architecture with
    | some p => some (archStr, p)
    | none =>
      match cutLast '-' archStr with
      | none => none
      | some (image, arch) =>
        (parse ("linux/".toList ++ arch ++ '/' :: archOrVariant)).map fun p => (image, p)

end

/-- `formatImageName`. -/
def formatImageName (transport imageFullName : List Char) : List Char :=
  if transport = "docker-daemon".toList then "docker-daemon:".toList ++ imageFullName
  else "docker://".toList ++ imageFullName

/-- `validateImageName`: the error, if there is one. -/
def validateImageName (imageFullName : List Char) : Option (List Char) :=
  let image := imageFullName.splitOn '/'
  if image.length < 3 then
    some ("image ".toList ++ imageFullName ++
      " is invalid, image PATH need contain at least two slash-separated".toList)
  else if ((image.getLast?.getD []).splitOn ':').length ≠ 2 then
    some ("image ".toList ++ imageFullName ++ " is invalid, image PATH need contain \":\"".toList)
  else none

/-- The reference that an image gets for a platform. -/
def archTag (image arch variant : List Char) : List Char := image ++ '-' :: arch ++ variant

/-- What `SaveImages` copies for one image and one platform. -/
def saveImage (transport dirName image platform : List Char) : Except (List Char) CopyImageOptions :=
  match validateImageName image with
  | some err => .error err
  | none =>
    let (arch, variant) := ParseArchVariant platform
    let variant := if variant ≠ [] then '-' :: variant else variant
    .ok {
      srcImage := ⟨formatImageName transport image, arch, variant, "linux".toList⟩
      destImage := ⟨"oci:".toList ++ dirName ++ ':' :: archTag image arch variant, arch, variant, "linux".toList⟩ }

/-! ## What is meant -/

/-- A platform as a manifest gives it. -/
def platformOf (arch variant : List Char) : List Char := if variant = [] then arch else arch ++ '/' :: variant

/-- A supported platform: the architecture is known, `platforms.Parse` returns the platform as it is, and the variant is
a word that it takes for no known architecture. -/
structure Supported (parse : List Char → Option Platform) (arch variant : List Char) : Prop where
  known : isKnownArch arch = true
  word : '-' ∉ variant ∧ '/' ∉ variant
  alone : variant = [] → parse ("linux/".toList ++ arch) = some ⟨"linux".toList, arch, []⟩
  both : variant ≠ [] → parse ("linux/".toList ++ arch ++ '/' :: variant) = some ⟨"linux".toList, arch, variant⟩
  unknown : variant ≠ [] → ∀ p, parse ("linux/".toList ++ variant) = some p → isKnownArch p.Architecture = false

/-- The reference that is written is parsed as the image and its platform, and the source registry is asked for the
variant of the manifest. -/
def RoundTrips (parse : List Char → Option Platform) (transport dirName image arch variant : List Char) : Prop :=
  ∃ o ref, saveImage transport dirName image (platformOf arch variant) = .ok o ∧
    o.destImage.imageName = "oci:".toList ++ dirName ++ ':' :: ref ∧
    ParseImageWithArchTag parse ref = some (image, ⟨"linux".toList, arch, variant⟩) ∧
    o.srcImage.variant = variant

section

variable {parse : List Char → Option Platform} {image arch variant : List Char}

theorem cutLast_append {c : Char} {a b : List Char} (absent : c ∉ b) : cutLast c (a ++ c :: b) = some (a, b) := by
  have reversed : (a ++ c :: b).reverse = b.reverse ++ c :: a.reverse := by simp
  have absent' : c ∉ b.reverse := by simpa using absent
  rw [cutLast, if_pos (by simp), reversed, takeWhile_separator absent', dropWhile_separator absent', List.tail_cons,
    List.reverse_reverse, List.reverse_reverse]

/-- The names of the known architectures are plain words. -/
theorem plain_of_known (known : isKnownArch arch = true) : '-' ∉ arch ∧ '/' ∉ arch ∧ arch ≠ [] := by
  have inside : arch ∈ knownArchs := by simpa [isKnownArch] using known
  have all : knownArchs.all (fun a => '-' ∉ a ∧ '/' ∉ a ∧ a ≠ []) = true := by decide
  simpa using List.all_eq_true.1 all arch inside

theorem ParseArchVariant_platformOf (known : isKnownArch arch = true) (word : '/' ∉ variant) :
    ParseArchVariant (platformOf arch variant) = (arch, variant) := by
  obtain ⟨-, solid, -⟩ := plain_of_known known
  unfold ParseArchVariant platformOf
  by_cases alone : variant = []
  · rw [if_pos alone, List.splitOn_eq_singleton solid, alone]
  · rw [if_neg alone, List.splitOn_append_cons_self, List.splitOn_eq_singleton solid, List.splitOn_eq_singleton word]
    rfl

/-- What is written is parsed as what it was made of, whatever the tag ends with. -/
theorem parseImage_saved (supported : Supported parse arch variant) (image : List Char) :
    ParseImageWithArchTag parse (archTag image arch (if variant ≠ [] then '-' :: variant else variant)) =
      some (image, ⟨"linux".toList, arch, variant⟩) := by
  obtain ⟨apart, -, -⟩ := plain_of_known supported.known
  by_cases alone : variant = []
  · subst alone
    rw [archTag, if_neg (by simp), List.append_nil, ParseImageWithArchTag, cutLast_append apart]
    simp only [supported.alone rfl, Option.filter_some, supported.known, if_true]
  · rw [archTag, if_pos alone, ParseImageWithArchTag, cutLast_append supported.word.1]
    have refused : (parse ("linux/".toList ++ variant)).filter (fun p => isKnownArch p.Architecture) = none := by
      rw [Option.filter_eq_none_iff]
      exact fun p parsed => by simpa using supported.unknown alone p parsed
    simp only [refused, cutLast_append apart, supported.both alone, Option.map_some]

/-- A reference round-trips with the right request exactly when the platform has no variant. -/
theorem roundTrips_iff (parse : List Char → Option Platform) (transport dirName image arch variant : List Char)
    (valid : validateImageName image = none) (supported : Supported parse arch variant) :
    RoundTrips parse transport dirName image arch variant ↔ variant = [] := by
  have parts := ParseArchVariant_platformOf supported.known supported.word.2
  unfold RoundTrips saveImage
  rw [valid, parts]
  dsimp only
  constructor
  · rintro ⟨o, ref, written, -, -, requested⟩
    cases written
    by_contra some_
    rw [if_pos some_] at requested
    exact absurd (congrArg List.length requested) (by simp)
  · intro alone
    refine ⟨_, _, rfl, rfl, parseImage_saved supported image, ?_⟩
    rw [alone]
    rfl

end

/-! ### A platform of ARM -/

/-- The platforms that are parsed below. -/
def parseARM (specifier : List Char) : Option Platform :=
  if specifier = "linux/arm/v7".toList then some ⟨"linux".toList, "arm".toList, "v7".toList⟩
  else some ⟨"linux".toList, specifier.drop 6, []⟩

def apiserver : List Char := "docker.io/kubesphere/kube-apiserver:v1.21.5".toList

theorem supported_arm : Supported parseARM "arm".toList "v7".toList where
  known := by decide
  word := by decide
  alone := by decide
  both _ := by decide
  unknown _ p parsed := by
    obtain rfl := Option.some.inj parsed
    decide

theorem roundTrips_iff_arm :
    RoundTrips parseARM "docker".toList "images".toList apiserver "arm".toList "v7".toList ↔ "v7".toList = [] :=
  roundTrips_iff parseARM _ _ _ _ _ (by decide) supported_arm

/-- The variant `-v7` is asked of the source registry for the platform `arm/v7`. -/
theorem not_roundTrips_arm :
    ¬ RoundTrips parseARM "docker".toList "images".toList apiserver "arm".toList "v7".toList := by
  rintro ⟨o, ref, written, -, -, requested⟩
  obtain rfl := Except.ok.inj written
  revert requested
  decide

end KubeKey.Images
