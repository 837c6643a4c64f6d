import Mathlib.Data.List.Induction
import Mathlib.Logic.Function.Basic
import KubeKey.Modules.GenCert

/-!
# The key and the certificate of `gen_cert`

`ModuleGenCert` of `pkg/modules/gen_cert.go` once more, now with the public key and the
signature of each certificate. A key stands for both of its halves. Without them it is the
module as before (`moduleGenCert_erase`).

The key and the certificate are written one after the other, and under the policy `IfNotPresent`
each is left out if its file is there. So a half of a pair that is there already is kept next to
a new other half, and a file that cannot be loaded is kept as well (`keepsPairs_iff`).
-/

namespace KubeKey.Modules.KeyPair

open GenCert (Names AltNames Certificate Config GenCertArgs Failure Stdout policyAlways policyIfNotPresent
  newSelfSignedCACert newSignedCert newGenCertArgs)

/-- A certificate with the public key in it and the key that it is signed with. -/
structure Signed (IP Key : Type) where
  content : Certificate IP
  publicKey : Key
  signer : Key

/-- What is in a file. -/
inductive File (IP Key : Type) where
  | key (key : Key)
  | certs (cert : Signed IP Key) (intermediates : List (Signed IP Key))
  | other

abbrev Files (IP Key : Type) := String → Option (File IP Key)

/-- A certificate below a root: there are signatures from the root down to it. -/
inductive Chain {IP Key : Type} (intermediates : List (Signed IP Key)) (root : Signed IP Key) : Signed IP Key → Prop where
  | itself : Chain intermediates root root
  | root {cert : Signed IP Key} (signed : cert.signer = root.publicKey) : Chain intermediates root cert
  | intermediate {cert parent : Signed IP Key} (member : parent ∈ intermediates) (below : Chain intermediates root parent)
      (signed : cert.signer = parent.publicKey) : Chain intermediates root cert

/-- An execution, where `cert.Verify` sees the signatures. It accepts no certificate without a chain of them. -/
structure Execution (IP Key : Type) extends GenCert.Execution IP Key where
  verifySigned : Signed IP Key → List (Signed IP Key) → Signed IP Key → Bool
  chain : ∀ cert intermediates root, verifySigned cert intermediates root = true → Chain intermediates root cert

/-- The package-level names and the files. -/
structure State (IP Key : Type) where
  defaultAltName : AltNames IP
  files : Files IP Key

variable {IP Key : Type}

def tryLoadKeyFromDisk (files : Files IP Key) (path : String) : Option Key :=
  match files path with
  | some (.key key) => some key
  | _ => none

def tryLoadCertChainFromDisk (files : Files IP Key) (path : String) : Option (Signed IP Key × List (Signed IP Key)) :=
  match files path with
  | some (.certs cert intermediates) => some (cert, intermediates)
  | _ => none

/-- `WriteKey` and `WriteCert`: an existing file is kept under the policy `IfNotPresent`. -/
def write (e : Execution IP Key) (policy path : String) (file : File IP Key) (files : Files IP Key) :
    Option (Files IP Key) :=
  if (files path).isSome ∧ policy = policyIfNotPresent then some files
  else if e.writes path then some (Function.update files path (some file))
  else none

/-- A certificate is generated for a new key, and both are written. -/
def generateAndWrite (gca : GenCertArgs) (newCert : Key → Option (Signed IP Key)) (fails : Failure)
    (e : Execution IP Key) (files : Files IP Key) : Except Failure Stdout × Files IP Key :=
  match e.newKey with
  | none => (.error .generateKey, files)
  | some newKey =>
    match newCert newKey with
    | none => (.error fails, files)
    | some newCert =>
      match write e gca.policy gca.outKey (.key newKey) files with
      | none => (.error .writeKey, files)
      | some files =>
        match write e gca.policy gca.outCert (.certs newCert []) files with
        | none => (.error .writeCert, files)
        | some files => (.ok .success, files)

def selfSignedCertificate (gca : GenCertArgs) (cfg : Config IP) (e : Execution IP Key) (files : Files IP Key) :
    Except Failure Stdout × Files IP Key :=
  generateAndWrite gca (fun newKey => (newSelfSignedCACert cfg gca.date e.toExecution).map fun cert =>
    ⟨cert, newKey, newKey⟩) .generateSelfSigned e files

/-- The checks of a certificate that is there. -/
def validate (lib : Names IP) (cfg : Config IP) (caCert cert : Signed IP Key) (intermediates : List (Signed IP Key))
    (e : Execution IP Key) : Except Failure Stdout :=
  GenCert.validate lib cfg caCert.content cert.content (intermediates.map Signed.content)
    { e.toExecution with verify := fun _ _ _ => e.verifySigned cert intermediates caCert }

def signedCertificate (lib : Names IP) (gca : GenCertArgs) (cfg : Config IP) (e : Execution IP Key)
    (files : Files IP Key) : Except Failure Stdout × Files IP Key :=
  match tryLoadKeyFromDisk files gca.rootKey with
  | none => (.error .loadRootKey, files)
  | some caKey =>
    match tryLoadCertChainFromDisk files gca.rootCert with
    | none => (.error .loadRootCert, files)
    | some (caCert, _) =>
      let new := generateAndWrite gca (fun newKey =>
        (newSignedCert lib cfg gca.date caCert.content (gca.isCA.getD false) e.toExecution).map fun cert =>
          ⟨cert, newKey, caKey⟩) .generateCertificate e files
      if gca.policy = policyIfNotPresent then
        match tryLoadKeyFromDisk files gca.outKey, tryLoadCertChainFromDisk files gca.outCert with
        | some _, some (existCert, existIntermediates) =>
          (validate lib cfg caCert existCert existIntermediates e, files)
        | _, _ => new
      else new

/-- `ModuleGenCert` with arguments that passed the checks. -/
def issue (lib : Names IP) (gca : GenCertArgs) (e : Execution IP Key) (s : State IP Key) :
    Except Failure Stdout × State IP Key :=
  let altNames := lib.appendSANsToAltNames s.defaultAltName gca.sans
  let cfg : Config IP := ⟨gca.cn, ["kubekey"], altNames⟩
  let outcome :=
    if gca.rootKey = "" ∨ gca.rootCert = "" then selfSignedCertificate gca cfg e s.files
    else signedCertificate lib gca cfg e s.files
  (outcome.1, ⟨altNames, outcome.2⟩)

/-- `ModuleGenCert`, with the names and files that it leaves. -/
def moduleGenCert (lib : Names IP) (e : Execution IP Key) (s : State IP Key) : Except Failure Stdout × State IP Key :=
  match e.args with
  | none => (.error .variables, s)
  | some args =>
    match newGenCertArgs args with
    | .error err => (.error err, s)
    | .ok gca => issue lib gca e s

/-- The state that a sequence of executions leaves. -/
def after (lib : Names IP) (s : State IP Key) (es : List (Execution IP Key)) : State IP Key :=
  es.foldl (fun s e => (moduleGenCert lib e s).2) s

/-! ## Without the signatures -/

def File.erase : File IP Key → GenCert.File IP Key
  | .key k => .key k
  | .certs cert intermediates => .certs cert.content (intermediates.map Signed.content)
  | .other => .other

def erase (files : Files IP Key) : GenCert.Files IP Key := fun path => (files path).map File.erase

def State.erase (s : State IP Key) : GenCert.State IP Key := ⟨s.defaultAltName, KeyPair.erase s.files⟩

section Erase
variable (e : Execution IP Key) (files : Files IP Key)

theorem tryLoadKeyFromDisk_erase (path : String) :
    GenCert.tryLoadKeyFromDisk (erase files) path = tryLoadKeyFromDisk files path := by
  unfold GenCert.tryLoadKeyFromDisk tryLoadKeyFromDisk erase
  cases files path with
  | none => rfl
  | some file => cases file <;> rfl

theorem tryLoadCertChainFromDisk_erase (path : String) :
    GenCert.tryLoadCertChainFromDisk (erase files) path =
      (tryLoadCertChainFromDisk files path).map fun chain => (chain.1.content, chain.2.map Signed.content) := by
  unfold GenCert.tryLoadCertChainFromDisk tryLoadCertChainFromDisk erase
  cases files path with
  | none => rfl
  | some file => cases file <;> rfl

theorem erase_update (path : String) (file : File IP Key) :
    erase (Function.update files path (some file)) = Function.update (erase files) path (some file.erase) := by
  funext path'
  by_cases same : path' = path
  · subst same
    simp only [erase, Function.update_self, Option.map_some]
  · simp only [erase, Function.update_of_ne same]

theorem write_erase (policy path : String) (file : File IP Key) :
    GenCert.write e.toExecution policy path file.erase (erase files) = (write e policy path file files).map erase := by
  have there : (erase files path).isSome = (files path).isSome := Option.isSome_map
  unfold GenCert.write write
  rw [there, ← erase_update]
  split
  · rfl
  · split <;> rfl

theorem generateAndWrite_erase (gca : GenCertArgs) (newCert : Key → Option (Signed IP Key))
    (content : Option (Certificate IP)) (same : ∀ key, (newCert key).map Signed.content = content) (fails : Failure) :
    (GenCert.generateAndWrite gca content fails e.toExecution (erase files)).reply =
        (generateAndWrite gca newCert fails e files).1 ∧
      (GenCert.generateAndWrite gca content fails e.toExecution (erase files)).files =
        erase (generateAndWrite gca newCert fails e files).2 := by
  unfold GenCert.generateAndWrite generateAndWrite
  cases e.newKey with
  | none => exact ⟨rfl, rfl⟩
  | some newKey =>
    dsimp only
    rw [← same newKey]
    cases newCert newKey with
    | none => exact ⟨rfl, rfl⟩
    | some cert =>
      have first := write_erase e files gca.policy gca.outKey (.key newKey)
      simp only [File.erase] at first
      simp only [Option.map_some, first]
      cases write e gca.policy gca.outKey (.key newKey) files with
      | none => exact ⟨rfl, rfl⟩
      | some files =>
        have second := write_erase e files gca.policy gca.outCert (.certs cert [])
        simp only [File.erase, List.map_nil] at second
        simp only [Option.map_some, second]
        cases write e gca.policy gca.outCert (.certs cert []) files <;> exact ⟨rfl, rfl⟩

theorem validate_erase (lib : Names IP) (cfg : Config IP) (caCert cert : Signed IP Key)
    (intermediates : List (Signed IP Key))
    (agrees : ∀ cert intermediates root, e.verify cert.content (intermediates.map Signed.content) root.content =
      e.verifySigned cert intermediates root) :
    GenCert.validate lib cfg caCert.content cert.content (intermediates.map Signed.content) e.toExecution =
      validate lib cfg caCert cert intermediates e := by
  unfold validate GenCert.validate
  dsimp only
  rw [agrees]

theorem signedCertificate_erase (lib : Names IP) (gca : GenCertArgs) (cfg : Config IP)
    (agrees : ∀ cert intermediates root, e.verify cert.content (intermediates.map Signed.content) root.content =
      e.verifySigned cert intermediates root) :
    (GenCert.signedCertificate lib gca cfg e.toExecution (erase files)).reply =
        (signedCertificate lib gca cfg e files).1 ∧
      (GenCert.signedCertificate lib gca cfg e.toExecution (erase files)).files =
        erase (signedCertificate lib gca cfg e files).2 := by
  unfold GenCert.signedCertificate signedCertificate
  rw [tryLoadKeyFromDisk_erase, tryLoadCertChainFromDisk_erase, tryLoadKeyFromDisk_erase, tryLoadCertChainFromDisk_erase]
  cases tryLoadKeyFromDisk files gca.rootKey with
  | none => exact ⟨rfl, rfl⟩
  | some caKey =>
    cases tryLoadCertChainFromDisk files gca.rootCert with
    | none => exact ⟨rfl, rfl⟩
    | some root =>
      obtain ⟨caCert, rest⟩ := root
      have new := generateAndWrite_erase e files gca (fun newKey =>
        (newSignedCert lib cfg gca.date caCert.content (gca.isCA.getD false) e.toExecution).map fun cert =>
          ⟨cert, newKey, caKey⟩) _ (fun key => by rw [Option.map_map]; exact congrFun Option.map_id _) .generateCertificate
      dsimp only [Option.map_some]
      split
      · cases tryLoadKeyFromDisk files gca.outKey with
        | none => exact new
        | some key =>
          cases tryLoadCertChainFromDisk files gca.outCert with
          | none => exact new
          | some chain => exact ⟨validate_erase e lib cfg caCert chain.1 chain.2 agrees, rfl⟩
      · exact new

/-- With verdicts that do not depend on it, the module does the same without the keys and signatures of the
certificates. -/
theorem moduleGenCert_erase (lib : Names IP) (s : State IP Key)
    (agrees : ∀ cert intermediates root, e.verify cert.content (intermediates.map Signed.content) root.content =
      e.verifySigned cert intermediates root) :
    (GenCert.moduleGenCert lib e.toExecution s.erase).1.reply = (moduleGenCert lib e s).1 ∧
      (GenCert.moduleGenCert lib e.toExecution s.erase).2 = (moduleGenCert lib e s).2.erase := by
  unfold GenCert.moduleGenCert moduleGenCert
  cases e.args with
  | none => exact ⟨rfl, rfl⟩
  | some args =>
    dsimp only
    cases newGenCertArgs args with
    | error err => exact ⟨rfl, rfl⟩
    | ok gca =>
      dsimp only
      unfold GenCert.issue issue
      dsimp only [State.erase]
      split
      · have both := generateAndWrite_erase e s.files gca
          (fun newKey => (newSelfSignedCACert ⟨gca.cn, ["kubekey"], lib.appendSANsToAltNames s.defaultAltName gca.sans⟩
            gca.date e.toExecution).map fun cert => ⟨cert, newKey, newKey⟩)
          _ (fun key => by rw [Option.map_map]; exact congrFun Option.map_id _) .generateSelfSigned
        exact ⟨both.1, congrArg _ both.2⟩
      · have both := signedCertificate_erase e s.files lib gca
          ⟨gca.cn, ["kubekey"], lib.appendSANsToAltNames s.defaultAltName gca.sans⟩ agrees
        exact ⟨both.1, congrArg _ both.2⟩

end Erase

/-! ## Pairs -/

/-- The key and the certificate are loadable, and the certificate is for the key. -/
def Matching (gca : GenCertArgs) (files : Files IP Key) : Prop :=
  ∃ key cert intermediates, tryLoadKeyFromDisk files gca.outKey = some key ∧
    tryLoadCertChainFromDisk files gca.outCert = some (cert, intermediates) ∧ cert.publicKey = key

/-- The certificate is below the root, if the key and the certificate of the root are a pair. -/
def Rooted (gca : GenCertArgs) (before files : Files IP Key) : Prop :=
  ∀ caKey caCert caChain cert intermediates, tryLoadKeyFromDisk before gca.rootKey = some caKey →
    tryLoadCertChainFromDisk before gca.rootCert = some (caCert, caChain) → caCert.publicKey = caKey →
      tryLoadCertChainFromDisk files gca.outCert = some (cert, intermediates) → Chain intermediates caCert cert

/-- What an execution with these files before it has to leave. -/
def Pair (gca : GenCertArgs) (before files : Files IP Key) : Prop :=
  Matching gca files ∧ (¬ gca.SelfSigned → Rooted gca before files)

/-- The two files are written both or none, or they are a pair already. -/
def Ready (gca : GenCertArgs) (files : Files IP Key) : Prop :=
  gca.outKey ≠ gca.outCert ∧ (gca.policy = policyAlways ∨ files gca.outKey = none ∧ files gca.outCert = none) ∨
    gca.policy = policyIfNotPresent ∧ Matching gca files

/-- The generated key is in no file, and no certificate is for it. -/
def Fresh (e : Execution IP Key) (files : Files IP Key) : Prop :=
  ∀ key, e.newKey = some key → ∀ path, tryLoadKeyFromDisk files path ≠ some key ∧
    ∀ cert intermediates, tryLoadCertChainFromDisk files path = some (cert, intermediates) → cert.publicKey ≠ key

section Step
variable {e : Execution IP Key} {gca : GenCertArgs} {files files' : Files IP Key}

theorem write_some {policy path : String} {file : File IP Key} (run : write e policy path file files = some files') :
    files' = if (files path).isSome ∧ policy = policyIfNotPresent then files
      else Function.update files path (some file) := by
  unfold write at run
  split at run
  · next kept => rw [if_pos kept, Option.some.inj run]
  · next new =>
    rw [if_neg new]
    split at run
    · exact (Option.some.inj run).symm
    · cases run

theorem tryLoadKeyFromDisk_update (path : String) (key : Key) :
    tryLoadKeyFromDisk (Function.update files path (some (.key key))) path = some key := by
  rw [tryLoadKeyFromDisk, Function.update_self]

theorem tryLoadCertChainFromDisk_update (path : String) (cert : Signed IP Key) :
    tryLoadCertChainFromDisk (Function.update files path (some (.certs cert []))) path = some (cert, []) := by
  rw [tryLoadCertChainFromDisk, Function.update_self]

theorem tryLoadKeyFromDisk_congr {path : String} (same : files' path = files path) :
    tryLoadKeyFromDisk files' path = tryLoadKeyFromDisk files path := by
  rw [tryLoadKeyFromDisk, tryLoadKeyFromDisk, same]

theorem tryLoadCertChainFromDisk_congr {path : String} (same : files' path = files path) :
    tryLoadCertChainFromDisk files' path = tryLoadCertChainFromDisk files path := by
  rw [tryLoadCertChainFromDisk, tryLoadCertChainFromDisk, same]

/-- No file is both a key and a certificate. -/
theorem Matching.distinct (matching : Matching gca files) : gca.outKey ≠ gca.outCert := by
  obtain ⟨key, cert, intermediates, loadedKey, loadedCert, -⟩ := matching
  intro same
  unfold tryLoadKeyFromDisk at loadedKey
  unfold tryLoadCertChainFromDisk at loadedCert
  rw [same] at loadedKey
  split at loadedKey
  · next found =>
    rw [found] at loadedCert
    cases loadedCert
  · cases loadedKey

theorem Matching.present (matching : Matching gca files) :
    (files gca.outKey).isSome ∧ (files gca.outCert).isSome := by
  obtain ⟨key, cert, intermediates, loadedKey, loadedCert, -⟩ := matching
  unfold tryLoadKeyFromDisk at loadedKey
  unfold tryLoadCertChainFromDisk at loadedCert
  constructor
  · cases found : files gca.outKey with
    | none => rw [found] at loadedKey; cases loadedKey
    | some file => rfl
  · cases found : files gca.outCert with
    | none => rw [found] at loadedCert; cases loadedCert
    | some file => rfl

/-- Generating gets through when there is a key and a certificate and both are written or kept. -/
theorem generateAndWrite_ok {newCert : Key → Option (Signed IP Key)} {fails : Failure} {out : Stdout}
    (run : generateAndWrite gca newCert fails e files = (.ok out, files')) :
    ∃ key cert files₁, e.newKey = some key ∧ newCert key = some cert ∧
      write e gca.policy gca.outKey (.key key) files = some files₁ ∧
      write e gca.policy gca.outCert (.certs cert []) files₁ = some files' := by
  unfold generateAndWrite at run
  split at run
  · cases run
  · next key made =>
    split at run
    · cases run
    · next cert created =>
      split at run
      · cases run
      · next files₁ first =>
        split at run
        · cases run
        · next files₂ second =>
          cases run
          exact ⟨key, cert, files₁, made, created, first, second⟩

variable {key : Key} {cert : Signed IP Key} {files₁ : Files IP Key}

/-- Both files are new. -/
theorem matching_of_written (distinct : gca.outKey ≠ gca.outCert) (for_ : cert.publicKey = key) :
    Matching gca (Function.update (Function.update files gca.outKey (some (.key key))) gca.outCert
      (some (.certs cert []))) := by
  refine ⟨key, cert, [], ?_, tryLoadCertChainFromDisk_update _ _, for_⟩
  rw [tryLoadKeyFromDisk_congr (Function.update_of_ne distinct _ _)]
  exact tryLoadKeyFromDisk_update _ _

/-- What is written is a pair exactly if the files were ready for it. -/
theorem matching_write_iff (accepted : gca.policy = policyAlways ∨ gca.policy = policyIfNotPresent)
    (fresh : Fresh e files) (made : e.newKey = some key) (for_ : cert.publicKey = key)
    (first : write e gca.policy gca.outKey (.key key) files = some files₁)
    (second : write e gca.policy gca.outCert (.certs cert []) files₁ = some files') :
    Matching gca files' ↔ Ready gca files := by
  have writes := write_some first
  have writes' := write_some second
  have policies : policyAlways ≠ policyIfNotPresent := by decide
  rcases accepted with always | ifNotPresent
  · rw [if_neg fun both => policies (always.symm.trans both.2)] at writes writes'
    subst writes writes'
    constructor
    · exact fun matching => .inl ⟨matching.distinct, .inl always⟩
    · rintro (⟨distinct, -⟩ | ⟨other, -⟩)
      · exact matching_of_written distinct for_
      · exact absurd (always.symm.trans other) policies
  · have notAlways : gca.policy ≠ policyAlways := fun always => policies (always.symm.trans ifNotPresent)
    simp only [ifNotPresent, and_true] at writes writes'
    unfold Ready
    simp only [ifNotPresent, policies.symm, false_or, true_and]
    cases foundKey : files gca.outKey with
    | some file =>
      rw [if_pos (by rw [foundKey]; rfl)] at writes
      subst writes
      cases foundCert : files₁ gca.outCert with
      | some file' =>
        -- nothing is written
        rw [if_pos (by rw [foundCert]; rfl)] at writes'
        subst writes'
        simp
      | none =>
        -- the old key is kept next to the new certificate
        rw [if_neg (by rw [foundCert]; simp)] at writes'
        subst writes'
        refine iff_of_false ?_ ?_
        · rintro ⟨key', cert', intermediates, loadedKey, loadedCert, same⟩
          have distinct : gca.outKey ≠ gca.outCert := by
            intro same
            rw [same, foundCert] at foundKey
            cases foundKey
          rw [tryLoadCertChainFromDisk_update, Option.some.injEq, Prod.mk.injEq] at loadedCert
          obtain ⟨rfl, -⟩ := loadedCert
          rw [tryLoadKeyFromDisk_congr (Function.update_of_ne distinct _ _), ← same, for_] at loadedKey
          exact (fresh key made gca.outKey).1 loadedKey
        · rintro (⟨-, absurd_, -⟩ | matching)
          · cases absurd_
          · have present := matching.present.2
            rw [foundCert] at present
            cases present
    | none =>
      rw [if_neg (by rw [foundKey]; simp)] at writes
      subst writes
      have unready : ¬ Matching gca files := by
        intro matching
        have present := matching.present.1
        rw [foundKey] at present
        cases present
      simp only [true_and, unready, or_false]
      by_cases distinct : gca.outKey = gca.outCert
      · -- the certificate would be written over the key
        rw [if_pos (by rw [← distinct, Function.update_self]; rfl)] at writes'
        subst writes'
        exact iff_of_false (fun matching => matching.distinct distinct) fun both => both.1 distinct
      · have there : Function.update files gca.outKey (some (.key key)) gca.outCert = files gca.outCert :=
          Function.update_of_ne (Ne.symm distinct) _ _
        cases foundCert : files gca.outCert with
        | some file' =>
          -- the new key is written next to the old certificate
          rw [if_pos (by rw [there, foundCert]; rfl)] at writes'
          subst writes'
          refine iff_of_false ?_ fun both => by cases both.2
          rintro ⟨key', cert', intermediates, loadedKey, loadedCert, same⟩
          rw [tryLoadKeyFromDisk_update, Option.some.injEq] at loadedKey
          rw [tryLoadCertChainFromDisk_congr there] at loadedCert
          exact (fresh key made gca.outCert).2 cert' intermediates loadedCert (same.trans loadedKey.symm)
        | none =>
          rw [if_neg (by rw [there, foundCert]; simp)] at writes'
          subst writes'
          exact iff_of_true (matching_of_written distinct for_) ⟨distinct, rfl⟩

/-- The certificate that is generated is written, unless there was a pair. -/
theorem cert_written (ready : Ready gca files) (unmatched : gca.policy = policyIfNotPresent → ¬ Matching gca files)
    (first : write e gca.policy gca.outKey (.key key) files = some files₁)
    (second : write e gca.policy gca.outCert (.certs cert []) files₁ = some files') :
    tryLoadCertChainFromDisk files' gca.outCert = some (cert, []) := by
  have new : ¬ ((files₁ gca.outCert).isSome ∧ gca.policy = policyIfNotPresent) := by
    rintro ⟨present, ifNotPresent⟩
    rcases ready with ⟨distinct, always | ⟨-, absent⟩⟩ | ⟨-, matching⟩
    · rw [always] at ifNotPresent
      exact absurd ifNotPresent (by decide)
    · rw [write_some first] at present
      split at present
      · rw [absent] at present
        cases present
      · rw [Function.update_of_ne (Ne.symm distinct), absent] at present
        cases present
    · exact unmatched ifNotPresent matching
  rw [write_some second, if_neg new]
  exact tryLoadCertChainFromDisk_update _ _

end Step

section Module
variable {lib : Names IP} {e : Execution IP Key} {gca : GenCertArgs} {s : State IP Key} {out : Stdout}

theorem module_of_accepted (accepted : e.accepted = some gca) : moduleGenCert lib e s = issue lib gca e s := by
  obtain ⟨args, given, passes⟩ := Option.bind_eq_some_iff.mp accepted
  cases checked : newGenCertArgs args with
  | error err => simp [checked, Except.toOption] at passes
  | ok checkedArgs =>
    simp only [checked, Except.toOption, Option.some.injEq] at passes
    subst passes
    simp only [moduleGenCert, given, checked]

theorem policy_of_accepted (accepted : e.accepted = some gca) :
    gca.policy = policyAlways ∨ gca.policy = policyIfNotPresent := by
  obtain ⟨args, -, passes⟩ := Option.bind_eq_some_iff.mp accepted
  unfold newGenCertArgs at passes
  split at passes
  · cases passes
  · next known =>
    rw [not_and_or, not_not, not_not] at known
    split at passes
    · cases passes
    · split at passes
      · cases passes
      · cases passes
        exact known

/-- A certificate that passes the checks is below the root. -/
theorem chain_of_validate {cfg : Config IP} {caCert cert : Signed IP Key} {intermediates : List (Signed IP Key)}
    (passes : validate lib cfg caCert cert intermediates e = .ok out) : Chain intermediates caCert cert := by
  unfold validate GenCert.validate at passes
  split at passes
  · cases passes
  · dsimp only at passes
    split at passes
    · cases passes
    · next verified =>
      rw [Bool.not_eq_false] at verified
      exact e.chain cert intermediates caCert verified

variable {cfg : Config IP} {files files' : Files IP Key}

theorem selfSigned_pair_iff (selfSigned : gca.SelfSigned)
    (policies : gca.policy = policyAlways ∨ gca.policy = policyIfNotPresent) (fresh : Fresh e files)
    (run : selfSignedCertificate gca cfg e files = (.ok out, files')) : Pair gca files files' ↔ Ready gca files := by
  obtain ⟨key, cert, files₁, made, created, first, second⟩ := generateAndWrite_ok run
  obtain ⟨content, -, rfl⟩ := Option.map_eq_some_iff.1 created
  rw [← matching_write_iff policies fresh made rfl first second]
  exact and_iff_left fun signed => absurd selfSigned signed

theorem signed_pair_iff (policies : gca.policy = policyAlways ∨ gca.policy = policyIfNotPresent)
    (fresh : Fresh e files) (run : signedCertificate lib gca cfg e files = (.ok out, files')) :
    Pair gca files files' ↔ Ready gca files := by
  unfold signedCertificate at run
  split at run
  · cases run
  · next caKey loadedKey =>
    split at run
    · cases run
    · next caCert rest loadedCert =>
      -- a new pair, where there was none to check
      have generated : generateAndWrite gca (fun newKey =>
          (newSignedCert lib cfg gca.date caCert.content (gca.isCA.getD false) e.toExecution).map fun cert =>
            ⟨cert, newKey, caKey⟩) .generateCertificate e files = (.ok out, files') →
          (gca.policy = policyIfNotPresent → ¬ Matching gca files) → (Pair gca files files' ↔ Ready gca files) := by
        intro run unmatched
        obtain ⟨key, cert, files₁, made, created, first, second⟩ := generateAndWrite_ok run
        obtain ⟨content, -, rfl⟩ := Option.map_eq_some_iff.1 created
        rw [← matching_write_iff policies fresh made rfl first second]
        refine and_iff_left_of_imp fun matching _ => ?_
        have ready := (matching_write_iff policies fresh made rfl first second).1 matching
        have written := cert_written ready unmatched first second
        intro caKey' caCert' caChain cert' intermediates loadedKey' loadedCert' pair loaded
        rw [loadedKey, Option.some.injEq] at loadedKey'
        rw [loadedCert, Option.some.injEq, Prod.mk.injEq] at loadedCert'
        rw [written, Option.some.injEq, Prod.mk.injEq] at loaded
        obtain ⟨rfl, -⟩ := loadedCert'
        obtain ⟨rfl, -⟩ := loaded
        exact .root (loadedKey'.trans pair.symm)
      dsimp only at run
      split at run
      · next ifNotPresent =>
        split at run
        · next key cert intermediates foundKey foundCert =>
          -- the files are as before
          obtain ⟨passes, rfl⟩ := Prod.mk.inj run
          have chain := chain_of_validate passes
          have rooted : Rooted gca files files := by
            intro caKey' caCert' caChain cert' intermediates' _ loadedCert' _ loaded
            rw [loadedCert, Option.some.injEq, Prod.mk.injEq] at loadedCert'
            rw [foundCert, Option.some.injEq, Prod.mk.injEq] at loaded
            obtain ⟨rfl, -⟩ := loadedCert'
            obtain ⟨rfl, rfl⟩ := loaded
            exact chain
          constructor
          · exact fun pair => .inr ⟨ifNotPresent, pair.1⟩
          · rintro (⟨-, always | ⟨absent, -⟩⟩ | ⟨-, matching⟩)
            · rw [always] at ifNotPresent
              exact absurd ifNotPresent (by decide)
            · unfold tryLoadKeyFromDisk at foundKey
              rw [absent] at foundKey
              cases foundKey
            · exact ⟨matching, fun _ => rooted⟩
        · next unloaded =>
          refine generated run fun _ matching => ?_
          obtain ⟨key, cert, intermediates, foundKey, foundCert, -⟩ := matching
          exact unloaded key cert intermediates foundKey foundCert
      · next other => exact generated run fun same => absurd same other

/-- An execution that succeeds leaves a pair exactly if the files were ready for it. -/
theorem pair_iff (accepted : e.accepted = some gca) (fresh : Fresh e s.files)
    (run : (moduleGenCert lib e s).1 = .ok out) :
    Pair gca s.files (moduleGenCert lib e s).2.files ↔ Ready gca s.files := by
  have policies := policy_of_accepted accepted
  rw [module_of_accepted accepted] at run ⊢
  unfold issue at run ⊢
  dsimp only at run ⊢
  split at run
  · next selfSigned =>
    rw [if_pos selfSigned]
    exact selfSigned_pair_iff selfSigned policies fresh (Prod.ext run rfl)
  · next signed =>
    rw [if_neg signed]
    exact signed_pair_iff policies fresh (Prod.ext run rfl)

end Module

/-! ## Runs -/

/-- After each execution that succeeds or skips, the files are a pair. -/
def KeepsPairs (lib : Names IP) (s : State IP Key) (es : List (Execution IP Key)) : Prop :=
  ∀ before e later gca out, es = before ++ e :: later → e.accepted = some gca →
    (moduleGenCert lib e (after lib s before)).1 = .ok out →
    Pair gca (after lib s before).files (after lib s (before ++ [e])).files

/-- Before each of them, the files are ready. -/
def StaysReady (lib : Names IP) (s : State IP Key) (es : List (Execution IP Key)) : Prop :=
  ∀ before e later gca out, es = before ++ e :: later → e.accepted = some gca →
    (moduleGenCert lib e (after lib s before)).1 = .ok out → Ready gca (after lib s before).files

/-- No execution generates a key that is there already. -/
def GeneratesFresh (lib : Names IP) (s : State IP Key) (es : List (Execution IP Key)) : Prop :=
  ∀ before e later, es = before ++ e :: later → Fresh e (after lib s before).files

theorem after_concat (lib : Names IP) (s : State IP Key) (es : List (Execution IP Key)) (e : Execution IP Key) :
    after lib s (es ++ [e]) = (moduleGenCert lib e (after lib s es)).2 := by
  rw [after, List.foldl_append]
  rfl

/-- Executions leave pairs exactly if those that succeed find files that are ready: other files for the key than for
the certificate, and the policy `Always`, or no file at either place; or the policy `IfNotPresent` and a pair. -/
theorem keepsPairs_iff (lib : Names IP) (s : State IP Key) (es : List (Execution IP Key))
    (fresh : GeneratesFresh lib s es) : KeepsPairs lib s es ↔ StaysReady lib s es := by
  constructor
  · intro keeps before e later gca out split accepted run
    have pair := keeps before e later gca out split accepted run
    rw [after_concat] at pair
    exact (pair_iff accepted (fresh before e later split) run).1 pair
  · intro ready before e later gca out split accepted run
    rw [after_concat]
    exact (pair_iff accepted (fresh before e later split) run).2 (ready before e later gca out split accepted run)

/-! ## One execution after the other -/

section Repeated
variable {lib : Names IP} {e : Execution IP Key} {gca : GenCertArgs} {s : State IP Key}

/-- An execution leaves the files, or generates a certificate for its new key. -/
theorem module_files (accepted : e.accepted = some gca) :
    (moduleGenCert lib e s).2.files = s.files ∨
      ∃ newCert fails, (∀ key cert, newCert key = some cert → cert.publicKey = key) ∧
        (moduleGenCert lib e s).2.files = (generateAndWrite gca newCert fails e s.files).2 := by
  have for_ : ∀ (content : Option (Certificate IP)) (signer : Key → Key) key cert,
      (content.map fun c => (⟨c, key, signer key⟩ : Signed IP Key)) = some cert → cert.publicKey = key := by
    intro content signer key cert created
    obtain ⟨c, -, rfl⟩ := Option.map_eq_some_iff.1 created
    rfl
  rw [module_of_accepted accepted]
  unfold issue
  dsimp only
  split
  · exact .inr ⟨_, _, fun key cert => for_ _ id key cert, rfl⟩
  · unfold signedCertificate
    split
    · exact .inl rfl
    · next caKey _ =>
      split
      · exact .inl rfl
      · dsimp only
        split
        · split
          · exact .inl rfl
          · exact .inr ⟨_, _, fun key cert => for_ _ (fun _ => caKey) key cert, rfl⟩
        · exact .inr ⟨_, _, fun key cert => for_ _ (fun _ => caKey) key cert, rfl⟩

/-- Files that are ready stay so, if the certificate is written whenever the key is. -/
theorem ready_step (accepted : e.accepted = some gca) (whole : e.writes gca.outKey = true → e.writes gca.outCert = true)
    (ready : Ready gca s.files) : Ready gca (moduleGenCert lib e s).2.files := by
  rcases module_files accepted with same | ⟨newCert, fails, for_, generated⟩
  · rw [same]
    exact ready
  · rcases ready with ⟨distinct, always | ⟨noKey, noCert⟩⟩ | ⟨ifNotPresent, matching⟩
    · exact .inl ⟨distinct, .inl always⟩
    · rw [generated]
      unfold generateAndWrite
      split
      · exact .inl ⟨distinct, .inr ⟨noKey, noCert⟩⟩
      · next key _ =>
        split
        · exact .inl ⟨distinct, .inr ⟨noKey, noCert⟩⟩
        · next cert created =>
          split
          · exact .inl ⟨distinct, .inr ⟨noKey, noCert⟩⟩
          · next files₁ first =>
            have written := write_some first
            rw [noKey] at written
            simp only [Option.isSome_none, Bool.false_eq_true, false_and, if_false] at written
            subst written
            have there : Function.update s.files gca.outKey (some (.key key)) gca.outCert = none := by
              rw [Function.update_of_ne (Ne.symm distinct), noCert]
            have allowed : e.writes gca.outKey = true := by
              unfold write at first
              rw [noKey] at first
              simp only [Option.isSome_none, Bool.false_eq_true, false_and, if_false] at first
              split at first
              · assumption
              · cases first
            have second : write e gca.policy gca.outCert (.certs cert [])
                (Function.update s.files gca.outKey (some (.key key))) =
                some (Function.update (Function.update s.files gca.outKey (some (.key key))) gca.outCert
                  (some (.certs cert []))) := by
              unfold write
              rw [there]
              simp only [Option.isSome_none, Bool.false_eq_true, false_and, if_false, whole allowed, if_true]
            rw [second]
            rcases policy_of_accepted accepted with always | ifNotPresent
            · exact .inl ⟨distinct, .inl always⟩
            · exact .inr ⟨ifNotPresent, matching_of_written distinct (for_ key cert created)⟩
    · obtain ⟨keyThere, certThere⟩ := matching.present
      rw [generated]
      unfold generateAndWrite
      split
      · exact .inr ⟨ifNotPresent, matching⟩
      · split
        · exact .inr ⟨ifNotPresent, matching⟩
        · next cert _ =>
          have kept : ∀ path file, (s.files path).isSome → write e gca.policy path file s.files = some s.files :=
            fun path file present => if_pos ⟨present, ifNotPresent⟩
          simp only [kept _ _ keyThere, kept _ _ certThere]
          exact .inr ⟨ifNotPresent, matching⟩

/-- Executions with the same arguments, from files that are ready on, leave pairs: as long as none of them stops after
it has written the key. -/
theorem repeated_keepsPairs {es : List (Execution IP Key)} (same : ∀ e ∈ es, e.accepted = some gca)
    (whole : ∀ e ∈ es, e.writes gca.outKey = true → e.writes gca.outCert = true) (fresh : GeneratesFresh lib s es)
    (ready : Ready gca s.files) : KeepsPairs lib s es := by
  rw [keepsPairs_iff lib s es fresh]
  have steps : ∀ before later, es = before ++ later → Ready gca (after lib s before).files := by
    intro before
    induction before using List.reverseRecOn with
    | nil => exact fun later _ => ready
    | append_singleton before e ih =>
      intro later split
      have member : e ∈ es := by
        rw [split]
        simp
      rw [after_concat]
      exact ready_step (same e member) (whole e member) (ih (e :: later) (by rw [split]; simp))
  intro before e later gca' out split accepted run
  have member : e ∈ es := by
    rw [split]
    simp
  rw [same e member, Option.some.injEq] at accepted
  subst accepted
  exact steps before (e :: later) split

end Repeated

section HalfPair

open GenCert (plainNames)

/-- A self-signed certificate under the policy `IfNotPresent`, for the key 1 and accepted with its own signature. -/
def keep : Execution String Nat where
  args := some ⟨"", "", 0, policyIfNotPresent, [], "kubekey", "out.key", "out.crt", none⟩
  now := 10
  newKey := some 1
  creates := true
  writes _ := true
  verify _ _ _ := true
  verifyHostname _ _ := true
  verifySigned cert _ root := cert.signer == root.publicKey
  chain cert _ root verified := .root (by simpa using verified)

/-- A new directory. -/
def noFiles : State String Nat := ⟨plainNames.defaults, fun _ => none⟩

/-- A key without a certificate. -/
def keyFile : State String Nat :=
  ⟨plainNames.defaults, fun path => if path = "out.key" then some (.key 0) else none⟩

theorem keepsPairs_noFiles : KeepsPairs plainNames noFiles [keep] := by
  have fresh : GeneratesFresh plainNames noFiles [keep] := by
    intro before e later split
    cases before with
    | nil =>
      cases split
      intro key made path
      exact ⟨fun loaded => (by cases loaded), fun cert intermediates loaded => (by cases loaded)⟩
    | cons e' before => simp at split
  refine (keepsPairs_iff plainNames noFiles [keep] fresh).2 ?_
  intro before e later gca out split accepted run
  cases before with
  | nil =>
    cases split
    cases accepted
    exact .inl ⟨by decide, .inr ⟨rfl, rfl⟩⟩
  | cons e' before => simp at split

/-- The key that is there is kept next to a certificate for another one. -/
theorem keepsPairs_keyFile : ¬ KeepsPairs plainNames keyFile [keep] := by
  intro keeps
  have pair := keeps [] keep [] _ .success rfl rfl rfl
  obtain ⟨⟨key, cert, intermediates, loadedKey, loadedCert, same⟩, -⟩ := pair
  have kept : tryLoadKeyFromDisk (after plainNames keyFile ([] ++ [keep])).files "out.key" = some 0 := rfl
  have written : (tryLoadCertChainFromDisk (after plainNames keyFile ([] ++ [keep])).files "out.crt").map
      (fun chain => chain.1.publicKey) = some 1 := rfl
  rw [loadedCert, Option.map_some, Option.some.injEq] at written
  rw [loadedKey, Option.some.injEq] at kept
  exact absurd (written.symm.trans (same.trans kept)) (by decide)

end HalfPair

end KubeKey.Modules.KeyPair
