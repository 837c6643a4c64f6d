import KubeKey.Go.Api
import KubeKey.Go.Map

/-!
# The certificates of a cluster

`util/secret/certificates.go`: `LookupOrGenerate` and the three loops it consists of, as
programs that call the API server. Every call may fail, also after it took effect, and the
calls of any number of programs for one cluster come in any order.

The server creates a secret only where there is none and nothing is ever updated, so what
is stored stays. A program that ends without an error has either read a pair or created
the secret with it (`written_once`).
-/

namespace KubeKey.Certificates

open KubeKey.Go KubeKey.Go.Program

structure ObjectKey where
  ns : String
  name : String
deriving DecidableEq

structure KeyPair where
  cert : List UInt8
  key : List UInt8
deriving DecidableEq

structure Certificate where
  generated : Bool
  external : Bool
  purpose : String
  keyPair : Option KeyPair

structure Secret where
  key : ObjectKey
  labels : GoMap String
  data : GoMap (List UInt8)
  type : String
  ownerReferences : List String

inductive Failure where
  | error (text : String)
  | panicked

/-- `apierrors.APIStatus`. -/
inductive ApiError where
  | notFound (text : String)
  | alreadyExists (text : String)
  | other (text : String)

def ApiError.text : ApiError → String
  | notFound text | alreadyExists text | other text => text

/-- `Name`. -/
def name (cluster purpose : String) : String := cluster ++ "-" ++ purpose

/-- The secret of a purpose. -/
def secretKey (clusterName : ObjectKey) (purpose : String) : ObjectKey :=
  ⟨clusterName.ns, name clusterName.name purpose⟩

def clusterCA : String := "ca"

def serviceAccount : String := "sa"

def apiServerEtcdClient : String := "apiserver-etcd-client"

/-- `secretToKeyPair`. -/
def secretToKeyPair (s : Secret) : Except Failure KeyPair :=
  match s.data.get? "tls.crt" with
  | none => .error (.error "missing data for key tls.crt")
  | some c => .ok ⟨c, (s.data.get? "tls.key").getD []⟩

/-- The names of the cluster API. -/
structure ClusterApi where
  clusterLabelName : String
  clusterSecretType : String

/-- `AsSecret`. It follows the pointer to the pair. -/
def Certificate.asSecret (api : ClusterApi) (c : Certificate) (clusterName : ObjectKey) (owner : String) :
    Option Secret :=
  c.keyPair.map fun pair =>
    { key := secretKey clusterName c.purpose
      labels := GoMap.empty.put api.clusterLabelName clusterName.name
      data := (GoMap.empty.put "tls.key" pair.key).put "tls.crt" pair.cert
      type := api.clusterSecretType
      ownerReferences := if c.generated then [owner] else [] }

/-! ## The API server -/

/-- The requests of the programs; the generator of key pairs answers like one. -/
inductive Request where
  | get (key : ObjectKey)
  | create (s : Secret)
  | newKeyPair (serviceAccount : Bool)

def Response : Request → Type
  | .get _ => Except ApiError Secret
  | .create _ => Option ApiError
  | .newKeyPair _ => Except String KeyPair

/-- The stored secrets, and the keys of those that were created so far. -/
structure World where
  secrets : ObjectKey → Option Secret
  created : List ObjectKey

def World.store (w : World) (s : Secret) : World :=
  ⟨Function.update w.secrets s.key (some s), s.key :: w.created⟩

/-- The answers to a request. A creation whose answer was lost fails for the program and took effect. -/
inductive Answers : World → (r : Request) → Response r → World → Prop where
  | found {w : World} {key : ObjectKey} {s : Secret} (stored : w.secrets key = some s) :
      Answers w (.get key) (Except.ok s) w
  | notFound {w : World} {key : ObjectKey} (absent : w.secrets key = none) (text : String) :
      Answers w (.get key) (Except.error (.notFound text)) w
  | getFails {w : World} {key : ObjectKey} (text : String) : Answers w (.get key) (Except.error (.other text)) w
  | created {w : World} {s : Secret} (absent : w.secrets s.key = none) :
      Answers w (.create s) (none : Option ApiError) (w.store s)
  | alreadyExists {w : World} {s : Secret} (stored : w.secrets s.key ≠ none) (text : String) :
      Answers w (.create s) (some (.alreadyExists text)) w
  | createFails {w : World} {s : Secret} (text : String) : Answers w (.create s) (some (.other text)) w
  | createLost {w : World} {s : Secret} (absent : w.secrets s.key = none) (text : String) :
      Answers w (.create s) (some (.other text)) (w.store s)
  | generated {w : World} {b : Bool} (pair : KeyPair) : Answers w (.newKeyPair b) (Except.ok pair) w
  | generateFails {w : World} {b : Bool} (text : String) : Answers w (.newKeyPair b) (Except.error text) w

/-! ## The programs -/

section Programs
variable (api : ClusterApi) (clusterName : ObjectKey) (owner : String)

/-- A round of `Lookup`. -/
def lookupRound (certificate : Certificate) : Program Response (Except Failure Certificate) :=
  .call (.get (secretKey clusterName certificate.purpose)) fun
    | .error (.notFound text) =>
      .ret (if certificate.external then .error (.error ("external certificate not found: " ++ text))
        else .ok certificate)
    | .error err => .ret (.error (.error err.text))
    | .ok s => .ret ((secretToKeyPair s).map fun pair => { certificate with keyPair := some pair })

/-- A round of `Generate`, with the `Generate` of the certificate. -/
def generateRound (certificate : Certificate) : Program Response (Except Failure Certificate) :=
  if certificate.keyPair.isSome ∨ certificate.purpose = apiServerEtcdClient then .ret (.ok certificate)
  else .call (.newKeyPair (certificate.purpose = serviceAccount)) fun
    | .error err => .ret (.error (.error err))
    | .ok pair => .ret (.ok { certificate with keyPair := some pair, generated := true })

/-- A round of `SaveGenerated`. -/
def saveRound (certificate : Certificate) : Program Response (Except Failure Certificate) :=
  if certificate.generated then
    match certificate.asSecret api clusterName owner with
    | none => .ret (.error .panicked)
    | some s => .call (.create s) fun
      | some err => .ret (.error (.error err.text))
      | none => .ret (.ok certificate)
  else .ret (.ok certificate)

/-- `LookupOrGenerate`, with the certificates it leaves if it returns `nil`. -/
def lookupOrGenerate (certificates : List Certificate) : Program Response (Except Failure (List Certificate)) :=
  (forEach (lookupRound clusterName) certificates).andThen fun certificates =>
    (forEach generateRound certificates).andThen fun certificates =>
      forEach (saveRound api clusterName owner) certificates

/-- Certificates that are not external and have only their purposes. -/
def fresh (purposes : List String) : List Certificate :=
  purposes.map fun purpose => ⟨false, false, purpose, none⟩

end Programs

/-! ## What is stored stays -/

/-- Every secret that is stored in `w` is so in `w'`. -/
def Keeps (w w' : World) : Prop := ∀ key s, w.secrets key = some s → w'.secrets key = some s

@[simp] theorem store_self (w : World) (s : Secret) : (w.store s).secrets s.key = some s := Function.update_self ..

theorem store_ne (w : World) {s : Secret} {key : ObjectKey} (other : key ≠ s.key) :
    (w.store s).secrets key = w.secrets key := Function.update_of_ne other _ _

theorem keeps_store {w : World} {s : Secret} (absent : w.secrets s.key = none) : Keeps w (w.store s) := by
  intro key s' stored
  have other : key ≠ s.key := fun same => by
    rw [same, absent] at stored
    cases stored
  rw [store_ne w other, stored]

theorem answers_rely : Rely Answers Keeps where
  refl _ _ _ stored := stored
  trans _ _ _ first second key s stored := second key s (first key s stored)
  keeps w r answer w' answered := by
    cases answered with
    | created absent => exact keeps_store absent
    | createLost absent => exact keeps_store absent
    | found | notFound | getFails | alreadyExists | createFails | generated | generateFails =>
      exact fun _ _ stored => stored

/-- Each key was created once, and its secret is there. -/
structure Recorded (w : World) : Prop where
  once : w.created.Nodup
  there : ∀ key ∈ w.created, w.secrets key ≠ none

theorem Recorded.store {w : World} {s : Secret} (recorded : Recorded w) (absent : w.secrets s.key = none) :
    Recorded (w.store s) := by
  refine ⟨List.nodup_cons.2 ⟨fun inside => recorded.there _ inside absent, recorded.once⟩, fun key inside => ?_⟩
  by_cases same : key = s.key
  · rw [same, store_self]
    exact Option.some_ne_none s
  · rw [store_ne w same]
    exact recorded.there key ((List.mem_cons.1 inside).resolve_left same)

theorem Recorded.answered {w w' : World} {r : Request} {answer : Response r} (recorded : Recorded w)
    (answered : Answers w r answer w') : Recorded w' := by
  cases answered with
  | created absent => exact recorded.store absent
  | createLost absent => exact recorded.store absent
  | found | notFound | getFails | alreadyExists | createFails | generated | generateFails => exact recorded

/-! ## What the programs end with -/

section Ensures
variable {api : ClusterApi} {clusterName : ObjectKey} {owner : String}

/-- The pair of the certificate is the one in its secret. -/
def Stored (clusterName : ObjectKey) (w : World) (c : Certificate) : Prop :=
  ∃ pair s, c.keyPair = some pair ∧ w.secrets (secretKey clusterName c.purpose) = some s ∧ secretToKeyPair s = .ok pair

theorem Stored.keeps {w w' : World} {c : Certificate} (stored : Stored clusterName w c) (keeps : Keeps w w') :
    Stored clusterName w' c := by
  obtain ⟨pair, s, here, there, same⟩ := stored
  exact ⟨pair, s, here, keeps _ _ there, same⟩

/-- A certificate after `Lookup`: it has no pair or the stored one. -/
structure LookedUp (clusterName : ObjectKey) (w : World) (c : Certificate) : Prop where
  generated : c.generated = false
  pair : c.keyPair = none ∨ Stored clusterName w c

/-- A certificate after `Generate`: it has a pair, which is new or the stored one. -/
def Paired (clusterName : ObjectKey) (w : World) (c : Certificate) : Prop :=
  c.generated = true ∧ c.keyPair ≠ none ∨ c.generated = false ∧ Stored clusterName w c

theorem LookedUp.keeps {w w' : World} {c : Certificate} (lookedUp : LookedUp clusterName w c) (keeps : Keeps w w') :
    LookedUp clusterName w' c :=
  ⟨lookedUp.generated, lookedUp.pair.imp_right fun stored => stored.keeps keeps⟩

theorem Paired.keeps {w w' : World} {c : Certificate} (paired : Paired clusterName w c) (keeps : Keeps w w') :
    Paired clusterName w' c :=
  paired.imp_right fun stored => ⟨stored.1, stored.2.keeps keeps⟩

/-- What `secretToKeyPair` reads is what `AsSecret` wrote. -/
theorem secretToKeyPair_asSecret {c : Certificate} {s : Secret} {pair : KeyPair} (here : c.keyPair = some pair)
    (made : c.asSecret api clusterName owner = some s) :
    s.key = secretKey clusterName c.purpose ∧ secretToKeyPair s = .ok pair := by
  rw [Certificate.asSecret, here] at made
  cases made
  refine ⟨rfl, ?_⟩
  have other : "tls.key" ≠ "tls.crt" := by decide
  simp only [secretToKeyPair, GoMap.get?_put_self, GoMap.get?_put_ne _ _ other, Option.getD_some]

/-- A round that ends without an error leaves the purpose as it was. -/
abbrev Round (K : World → Certificate → Prop) (c : Certificate) (w : World) (result : Except Failure Certificate) :
    Prop :=
  ∀ c', result = .ok c' → c'.purpose = c.purpose ∧ K w c'

theorem ensures_lookupRound {w : World} {c : Certificate} (empty : c.keyPair = none) (old : c.generated = false) :
    Ensures Answers Keeps (Round (LookedUp clusterName) c) w (lookupRound clusterName c) := by
  intro w' _ answer w'' answered
  cases answered with
  | @found _ s stored =>
    intro w₃ keeps c' result
    cases read : secretToKeyPair s with
    | error err => simp [read, Except.map] at result
    | ok pair =>
      simp only [read, Except.map, Except.ok.injEq] at result
      subst result
      exact ⟨rfl, old, .inr ⟨pair, s, rfl, keeps _ _ stored, read⟩⟩
  | notFound absent text =>
    intro w₃ _ c' result
    split at result
    · cases result
    · cases result
      exact ⟨rfl, old, .inl empty⟩
  | getFails text =>
    intro w₃ _ c' result
    cases result

theorem ensures_generateRound {w : World} {c : Certificate} (user : c.purpose ≠ apiServerEtcdClient)
    (lookedUp : LookedUp clusterName w c) :
    Ensures Answers Keeps (Round (Paired clusterName) c) w (generateRound c) := by
  by_cases has : c.keyPair.isSome
  · rw [generateRound, if_pos (.inl has)]
    intro w' keeps c' result
    cases result
    rcases lookedUp.pair with empty | stored
    · rw [empty] at has
      cases has
    · exact ⟨rfl, .inr ⟨lookedUp.generated, stored.keeps keeps⟩⟩
  · rw [generateRound, if_neg (not_or.2 ⟨has, user⟩)]
    intro w' _ answer w'' answered
    cases answered with
    | generated pair =>
      intro w₃ _ c' result
      cases result
      exact ⟨rfl, .inl ⟨rfl, Option.some_ne_none pair⟩⟩
    | generateFails text =>
      intro w₃ _ c' result
      cases result

theorem ensures_saveRound {w : World} {c : Certificate} (paired : Paired clusterName w c) :
    Ensures Answers Keeps (Round (Stored clusterName) c) w (saveRound api clusterName owner c) := by
  rcases paired with ⟨new, some_pair⟩ | ⟨old, stored⟩
  · obtain ⟨pair, here⟩ := Option.ne_none_iff_exists'.1 some_pair
    obtain ⟨s, made⟩ : ∃ s, c.asSecret api clusterName owner = some s := by
      rw [Certificate.asSecret, here]
      exact ⟨_, rfl⟩
    obtain ⟨key, read⟩ := secretToKeyPair_asSecret here made
    rw [saveRound, if_pos new]
    simp only [made]
    intro w' _ answer w'' answered
    cases answered with
    | created absent =>
      intro w₃ keeps c' result
      cases result
      exact ⟨rfl, pair, s, here, key ▸ keeps _ _ (store_self w' s), read⟩
    | alreadyExists | createFails | createLost =>
      intro w₃ _ c' result
      cases result
  · rw [saveRound, if_neg (by rw [old]; decide)]
    intro w' keeps c' result
    cases result
    exact ⟨rfl, stored.keeps keeps⟩

/-- A loop over the certificates leaves the purposes as they were. -/
theorem ensures_rounds {f : Certificate → Program Response (Except Failure Certificate)}
    {P K : World → Certificate → Prop} (stableP : ∀ w w' c, Keeps w w' → P w c → P w' c)
    (stableK : ∀ w w' c, Keeps w w' → K w c → K w' c)
    (round : ∀ w c, P w c → Ensures Answers Keeps (Round K c) w (f c)) {w : World} {certificates : List Certificate}
    (known : ∀ c ∈ certificates, P w c) :
    Ensures Answers Keeps (fun w result => ∀ certificates', result = .ok certificates' →
      certificates'.map Certificate.purpose = certificates.map Certificate.purpose ∧ ∀ c ∈ certificates', K w c) w
      (forEach f certificates) := by
  have stable : ∀ w w' (c c' : Certificate), Keeps w w' → c'.purpose = c.purpose ∧ K w c' →
      c'.purpose = c.purpose ∧ K w' c' := fun w w' _ c' keeps both => ⟨both.1, stableK w w' c' keeps both.2⟩
  refine (ensures_forEach answers_rely stableP stable round known).mono ?_
  intro w result each certificates' same
  have all := each certificates' same
  clear each same known
  induction all with
  | nil => exact ⟨rfl, fun c inside => by cases inside⟩
  | cons here _ ih =>
    refine ⟨by rw [List.map_cons, List.map_cons, here.1, ih.1], fun c inside => ?_⟩
    rcases List.mem_cons.1 inside with rfl | later
    · exact here.2
    · exact ih.2 c later

/-- A program that ends without an error has the pairs that are stored. -/
theorem ensures_lookupOrGenerate {purposes : List String} (user : apiServerEtcdClient ∉ purposes) (w : World) :
    Ensures Answers Keeps (fun w result => ∀ certificates, result = .ok certificates →
      certificates.map Certificate.purpose = purposes ∧ ∀ c ∈ certificates, Stored clusterName w c) w
      (lookupOrGenerate api clusterName owner (fresh purposes)) := by
  have start : (fresh purposes).map Certificate.purpose = purposes := by
    rw [fresh, List.map_map]
    exact List.map_id purposes
  have lookup := @ensures_rounds (lookupRound clusterName) (fun _ c => c.keyPair = none ∧ c.generated = false)
    (LookedUp clusterName) (fun _ _ _ _ empty => empty) (fun _ _ _ keeps lookedUp => lookedUp.keeps keeps)
    (fun w c empty => ensures_lookupRound empty.1 empty.2) w (fresh purposes) (by
      intro c inside
      obtain ⟨purpose, -, rfl⟩ := List.mem_map.1 inside
      exact ⟨rfl, rfl⟩)
  refine ensures_andThen _ answers_rely (fun w err c same => by cases same) lookup fun w found known => ?_
  have generate := @ensures_rounds generateRound
    (fun w c => c.purpose ≠ apiServerEtcdClient ∧ LookedUp clusterName w c) (Paired clusterName)
    (fun _ _ _ keeps both => ⟨both.1, both.2.keeps keeps⟩) (fun _ _ _ keeps paired => paired.keeps keeps)
    (fun w c both => ensures_generateRound both.1 both.2) w found (by
      intro c inside
      refine ⟨fun same => user ?_, known.2 c inside⟩
      rw [← start, ← known.1, ← same]
      exact List.mem_map_of_mem inside)
  refine ensures_andThen _ answers_rely (fun w err c same => by cases same) generate fun w paired known' => ?_
  refine (@ensures_rounds (saveRound api clusterName owner) (Paired clusterName) (Stored clusterName)
    (fun _ _ _ keeps paired => paired.keeps keeps) (fun _ _ _ keeps stored => stored.keeps keeps)
    (fun w c paired => ensures_saveRound paired) w paired known'.2).mono ?_
  intro w result each certificates same
  obtain ⟨purposes', stored⟩ := each certificates same
  exact ⟨by rw [purposes', known'.1, known.1, start], stored⟩

/-- Any number of programs for one cluster, in any interleaving of their calls: each secret is created at most once,
what is stored stays, and a program that ends without an error has the pairs that are stored. -/
theorem written_once {ι : Type} [DecidableEq ι] (api : ClusterApi) (clusterName : ObjectKey) (owner : ι → String)
    (purposes : ι → List String) (user : ∀ i, apiServerEtcdClient ∉ purposes i) (secrets : ObjectKey → Option Secret)
    {t u : System ι World Response (Except Failure (List Certificate))}
    (run : Interleaving Answers
      ⟨⟨secrets, []⟩, fun i => lookupOrGenerate api clusterName (owner i) (fresh (purposes i))⟩ t)
    (later : Interleaving Answers t u) :
    (∀ key, t.world.created.count key ≤ 1) ∧
      (∀ key s, t.world.secrets key = some s → u.world.secrets key = some s) ∧
      ∀ i certificates, t.program i = .ret (.ok certificates) →
        certificates.map Certificate.purpose = purposes i ∧ ∀ c ∈ certificates, Stored clusterName t.world c := by
  refine ⟨fun key => ?_, later.world answers_rely, fun i certificates returned => ?_⟩
  · have start : Recorded ⟨secrets, []⟩ := ⟨List.nodup_nil, fun key inside => by cases inside⟩
    have recorded := run.invariant (fun w r answer w' recorded answered => recorded.answered answered) start
    exact List.nodup_iff_count_le_one.1 recorded.once key
  · have each : ∀ i, Ensures Answers Keeps (fun w result => ∀ certificates, result = .ok certificates →
        certificates.map Certificate.purpose = purposes i ∧ ∀ c ∈ certificates, Stored clusterName w c) ⟨secrets, []⟩
        (lookupOrGenerate api clusterName (owner i) (fresh (purposes i))) :=
      fun i => ensures_lookupOrGenerate (user i) _
    have at_end := run.ensures answers_rely each i
    rw [returned] at at_end
    exact at_end t.world (answers_rely.refl _) certificates rfl

/-- Of two programs one creates the secret and the other one reads it. -/
theorem written_once_two :
    ∃ t : System Bool World Response (Except Failure (List Certificate)),
      t.program false = .ret (.ok [⟨false, false, "ca", some ⟨[1], [2]⟩⟩]) ∧
      (∀ key, t.world.created.count key ≤ 1) ∧
      (∀ key s, t.world.secrets key = some s → t.world.secrets key = some s) ∧
      ∀ i certificates, t.program i = .ret (.ok certificates) →
        certificates.map Certificate.purpose = ["ca"] ∧ ∀ c ∈ certificates, Stored ⟨"default", "c"⟩ t.world c := by
  let start : System Bool World Response (Except Failure (List Certificate)) :=
    ⟨⟨fun _ => none, []⟩, fun _ => lookupOrGenerate ⟨"cluster-name", "cluster"⟩ ⟨"default", "c"⟩ "kcp" (fresh ["ca"])⟩
  have looked : Interleaving Answers start _ := .single (Step.answered (i := true) rfl (.notFound rfl "not found"))
  have generated := looked.tail (Step.answered (i := true) rfl (.generated ⟨[1], [2]⟩))
  have created := generated.tail (Step.answered (i := true) rfl (.created rfl))
  have found := created.tail (Step.answered (i := false) rfl (.found rfl))
  exact ⟨_, rfl, written_once ⟨"cluster-name", "cluster"⟩ ⟨"default", "c"⟩ (fun _ => "kcp") (fun _ => ["ca"])
    (fun _ => by decide) _ found .refl⟩

end Ensures
end KubeKey.Certificates
