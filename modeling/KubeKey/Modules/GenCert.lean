import Mathlib.Data.List.Sort
import Mathlib.Data.List.Dedup

/-!
# The `gen_cert` module

`ModuleGenCert` of `pkg/modules/gen_cert.go`. The default alternative names are behind a
package-level pointer, and `appendSANsToAltNames` appends the names of an execution to
them, so they are part of the state that one execution leaves to the next. A signed
certificate then has the names of all executions so far, without duplicates; a self-signed
one has its common name only (`isolated_iff`).

What an execution finds outside, such as the files, the generated keys and the verdicts of
package `x509`, is chosen afresh for each execution.
-/

namespace KubeKey.Modules.GenCert

/-- The libraries that read names. Different addresses have different texts. -/
structure Names (IP : Type) where
  parseIPSloppy : String → Option IP
  isDNS1123Subdomain : String → Bool
  isWildcardDNS1123Subdomain : String → Bool
  text : IP → String
  text_injective : Function.Injective text
  /-- 127.0.0.1. -/
  ipv4Loopback : IP
  /-- ::1. -/
  ipv6Loopback : IP

structure AltNames (IP : Type) where
  dnsNames : List String
  ips : List IP

/-- What `x509.ParseCertificate` finds in the certificate that was created. -/
structure Certificate (IP : Type) where
  commonName : String
  organization : List String
  dnsNames : List String
  ipAddresses : List IP
  notBefore : Int
  notAfter : Int
  isCA : Bool

/-- What is in a file. -/
inductive File (IP Key : Type) where
  | key (key : Key)
  | certs (cert : Certificate IP) (intermediates : List (Certificate IP))
  | other

abbrev Files (IP Key : Type) := String → Option (File IP Key)

def policyAlways : String := "Always"

def policyIfNotPresent : String := "IfNotPresent"

/-- Ten years, in seconds. -/
def defaultSignCertAfter : Int := 60 * 60 * 24 * 365 * 10

structure GenCertArgs where
  rootKey : String
  rootCert : String
  date : Int
  policy : String
  sans : List String
  cn : String
  outKey : String
  outCert : String
  isCA : Option Bool

structure Config (IP : Type) where
  commonName : String
  organization : List String
  altNames : AltNames IP

inductive Stdout where
  | success
  | skip
deriving DecidableEq, Repr

/-- Where an execution fails. -/
inductive Failure where
  | variables
  | policy
  | outFiles
  | cn
  | loadRootKey
  | loadRootCert
  | generateKey
  | generateSelfSigned
  | generateCertificate
  | writeKey
  | writeCert
  | certPeriod
  | certChain
  | certConfig
deriving DecidableEq, Repr

/-- What an execution is called with and what it meets. -/
structure Execution (IP Key : Type) where
  /-- The arguments, rendered with the variables of the host; `none` if these cannot be read. -/
  args : Option GenCertArgs
  now : Int
  /-- `rsa.GenerateKey`. -/
  newKey : Option Key
  /-- `x509.CreateCertificate` succeeds. -/
  creates : Bool
  writes : String → Bool
  /-- `cert.Verify`, with the intermediates and the root. -/
  verify : Certificate IP → List (Certificate IP) → Certificate IP → Bool
  verifyHostname : Certificate IP → String → Bool

/-- The package-level names and the files. -/
structure State (IP Key : Type) where
  defaultAltName : AltNames IP
  files : Files IP Key

/-- What an execution returns, the certificate it generated on the way, and the files it leaves. -/
structure Outcome (IP Key : Type) where
  reply : Except Failure Stdout
  generated : Option (Certificate IP)
  files : Files IP Key

variable {IP Key : Type}

/-- The initial value of `defaultAltName`. -/
def Names.defaults (lib : Names IP) : AltNames IP := ⟨["localhost"], [lib.ipv4Loopback, lib.ipv6Loopback]⟩

/-- One round of `appendSANsToAltNames`. A name that is neither an address nor a DNS name is left out. -/
def Names.appendSAN (lib : Names IP) (altNames : AltNames IP) (altname : String) : AltNames IP :=
  match lib.parseIPSloppy altname with
  | some ip => { altNames with ips := altNames.ips ++ [ip] }
  | none =>
    if lib.isDNS1123Subdomain altname then { altNames with dnsNames := altNames.dnsNames ++ [altname] }
    else if lib.isWildcardDNS1123Subdomain altname then { altNames with dnsNames := altNames.dnsNames ++ [altname] }
    else altNames

def Names.appendSANsToAltNames (lib : Names IP) (altNames : AltNames IP) (sans : List String) : AltNames IP :=
  sans.foldl lib.appendSAN altNames

/-- The loop of `RemoveDuplicateAltNames` over the addresses. -/
def Names.removeDuplicateIPs (lib : Names IP) : List String → List IP → List IP
  | _, [] => []
  | ipsKeys, one :: ips =>
    if lib.text one ∈ ipsKeys then lib.removeDuplicateIPs ipsKeys ips
    else one :: lib.removeDuplicateIPs (lib.text one :: ipsKeys) ips

/-- `RemoveDuplicateAltNames`. The DNS names are sorted as well. -/
def Names.removeDuplicateAltNames (lib : Names IP) (altNames : AltNames IP) : AltNames IP :=
  ⟨altNames.dnsNames.dedup.insertionSort (· ≤ ·), lib.removeDuplicateIPs [] altNames.ips⟩

/-- The checks of `newGenCertArgs`. -/
def newGenCertArgs (gca : GenCertArgs) : Except Failure GenCertArgs :=
  if gca.policy ≠ policyAlways ∧ gca.policy ≠ policyIfNotPresent then .error .policy
  else if gca.outKey = "" ∨ gca.outCert = "" then .error .outFiles
  else if gca.cn = "" then .error .cn
  else .ok gca

def tryLoadKeyFromDisk (files : Files IP Key) (path : String) : Option Key :=
  match files path with
  | some (.key key) => some key
  | _ => none

def tryLoadCertChainFromDisk (files : Files IP Key) (path : String) :
    Option (Certificate IP × List (Certificate IP)) :=
  match files path with
  | some (.certs cert intermediates) => some (cert, intermediates)
  | _ => none

/-- `WriteKey` and `WriteCert`: an existing file is kept under the policy `IfNotPresent`. -/
def write (e : Execution IP Key) (policy path : String) (file : File IP Key) (files : Files IP Key) :
    Option (Files IP Key) :=
  if (files path).isSome ∧ policy = policyIfNotPresent then some files
  else if e.writes path then some (Function.update files path (some file))
  else none

/-- `NewSelfSignedCACert`. -/
def newSelfSignedCACert (cfg : Config IP) (after : Int) (e : Execution IP Key) : Option (Certificate IP) :=
  let after := if after = 0 then defaultSignCertAfter else after
  if e.creates then
    some ⟨cfg.commonName, cfg.organization, [cfg.commonName], [], e.now, e.now + after, true⟩
  else none

/-- `NewSignedCert`. -/
def newSignedCert (lib : Names IP) (cfg : Config IP) (after : Int) (caCert : Certificate IP) (isCA : Bool)
    (e : Execution IP Key) : Option (Certificate IP) :=
  if cfg.commonName = "" then none
  else
    let altNames := lib.removeDuplicateAltNames cfg.altNames
    let after := if after = 0 then defaultSignCertAfter else after
    if e.creates then
      some ⟨cfg.commonName, cfg.organization, altNames.dnsNames, altNames.ips, caCert.notBefore, e.now + after, isCA⟩
    else none

/-- A certificate is generated for a new key, and both are written. -/
def generateAndWrite (gca : GenCertArgs) (newCert : Option (Certificate IP)) (fails : Failure) (e : Execution IP Key)
    (files : Files IP Key) : Outcome IP Key :=
  match e.newKey with
  | none => ⟨.error .generateKey, none, files⟩
  | some newKey =>
    match newCert with
    | none => ⟨.error fails, none, files⟩
    | some newCert =>
      match write e gca.policy gca.outKey (.key newKey) files with
      | none => ⟨.error .writeKey, some newCert, files⟩
      | some files =>
        match write e gca.policy gca.outCert (.certs newCert []) files with
        | none => ⟨.error .writeCert, some newCert, files⟩
        | some files => ⟨.ok .success, some newCert, files⟩

def selfSignedCertificate (gca : GenCertArgs) (cfg : Config IP) (e : Execution IP Key) (files : Files IP Key) :
    Outcome IP Key :=
  generateAndWrite gca (newSelfSignedCACert cfg gca.date e) .generateSelfSigned e files

/-- `ValidateCertPeriod`, `VerifyCertChain` and `validateCertificateWithConfig` of a certificate that is there. -/
def validate (lib : Names IP) (cfg : Config IP) (caCert cert : Certificate IP) (intermediates : List (Certificate IP))
    (e : Execution IP Key) : Except Failure Stdout :=
  if e.now < cert.notBefore ∨ cert.notAfter < e.now then .error .certPeriod
  else if e.verify cert intermediates caCert = false then .error .certChain
  else if (cfg.altNames.dnsNames ++ cfg.altNames.ips.map lib.text).all (e.verifyHostname cert) = false then
    .error .certConfig
  else .ok .skip

def signedCertificate (lib : Names IP) (gca : GenCertArgs) (cfg : Config IP) (e : Execution IP Key)
    (files : Files IP Key) : Outcome IP Key :=
  match tryLoadKeyFromDisk files gca.rootKey with
  | none => ⟨.error .loadRootKey, none, files⟩
  | some _ =>
    match tryLoadCertChainFromDisk files gca.rootCert with
    | none => ⟨.error .loadRootCert, none, files⟩
    | some (caCert, _) =>
      let new := generateAndWrite gca (newSignedCert lib cfg gca.date caCert (gca.isCA.getD false) e)
        .generateCertificate e files
      if gca.policy = policyIfNotPresent then
        match tryLoadKeyFromDisk files gca.outKey, tryLoadCertChainFromDisk files gca.outCert with
        | some _, some (existCert, existIntermediates) =>
          ⟨validate lib cfg caCert existCert existIntermediates e, none, files⟩
        | _, _ => new
      else new

/-- `ModuleGenCert` with arguments that passed the checks. -/
def issue (lib : Names IP) (gca : GenCertArgs) (e : Execution IP Key) (s : State IP Key) :
    Outcome IP Key × State IP Key :=
  let altNames := lib.appendSANsToAltNames s.defaultAltName gca.sans
  let cfg : Config IP := ⟨gca.cn, ["kubekey"], altNames⟩
  let outcome :=
    if gca.rootKey = "" ∨ gca.rootCert = "" then selfSignedCertificate gca cfg e s.files
    else signedCertificate lib gca cfg e s.files
  (outcome, ⟨altNames, outcome.files⟩)

/-- `ModuleGenCert`, with the names and files that it leaves. -/
def moduleGenCert (lib : Names IP) (e : Execution IP Key) (s : State IP Key) : Outcome IP Key × State IP Key :=
  match e.args with
  | none => (⟨.error .variables, none, s.files⟩, s)
  | some args =>
    match newGenCertArgs args with
    | .error err => (⟨.error err, none, s.files⟩, s)
    | .ok gca => issue lib gca e s

/-- The state that a sequence of executions leaves. -/
def after (lib : Names IP) (s : State IP Key) (es : List (Execution IP Key)) : State IP Key :=
  es.foldl (fun s e => (moduleGenCert lib e s).2) s

/-- A new process. -/
def Names.start (lib : Names IP) (files : Files IP Key) : State IP Key := ⟨lib.defaults, files⟩

/-- The names that a list of alternative names adds. -/
def Names.dnsNamesOf (lib : Names IP) (sans : List String) : List String :=
  sans.filter fun s =>
    (lib.parseIPSloppy s).isNone && (lib.isDNS1123Subdomain s || lib.isWildcardDNS1123Subdomain s)

/-- The addresses that a list of alternative names adds. -/
def Names.ipsOf (lib : Names IP) (sans : List String) : List IP := sans.filterMap lib.parseIPSloppy

/-- The arguments of an execution that passes the checks. -/
def Execution.accepted (e : Execution IP Key) : Option GenCertArgs :=
  e.args.bind fun args => (newGenCertArgs args).toOption

def GenCertArgs.SelfSigned (gca : GenCertArgs) : Prop := gca.rootKey = "" ∨ gca.rootCert = ""

/-- An execution that comes to generate a certificate. -/
def Generates (files : Files IP Key) (e : Execution IP Key) (gca : GenCertArgs) : Prop :=
  e.newKey.isSome ∧ e.creates = true ∧
    (gca.SelfSigned ∨
      (tryLoadKeyFromDisk files gca.rootKey).isSome ∧ (tryLoadCertChainFromDisk files gca.rootCert).isSome ∧
        ¬ (gca.policy = policyIfNotPresent ∧ (tryLoadKeyFromDisk files gca.outKey).isSome ∧
          (tryLoadCertChainFromDisk files gca.outCert).isSome))

theorem Names.appendSANs_eq (lib : Names IP) (altNames : AltNames IP) (sans : List String) :
    lib.appendSANsToAltNames altNames sans =
      ⟨altNames.dnsNames ++ lib.dnsNamesOf sans, altNames.ips ++ lib.ipsOf sans⟩ := by
  induction sans generalizing altNames with
  | nil => simp [appendSANsToAltNames, dnsNamesOf, ipsOf]
  | cons altname sans ih =>
    have next := ih (lib.appendSAN altNames altname)
    rw [appendSANsToAltNames] at next ⊢
    rw [List.foldl_cons, next]
    cases parsed : lib.parseIPSloppy altname with
    | some ip => simp [appendSAN, dnsNamesOf, ipsOf, parsed]
    | none =>
      cases dns : lib.isDNS1123Subdomain altname <;> cases wildcard : lib.isWildcardDNS1123Subdomain altname <;>
        simp [appendSAN, dnsNamesOf, ipsOf, parsed, dns, wildcard]

theorem Names.mem_removeDuplicateIPs (lib : Names IP) {ip : IP} {ipsKeys : List String} {ips : List IP} :
    ip ∈ lib.removeDuplicateIPs ipsKeys ips ↔ ip ∈ ips ∧ lib.text ip ∉ ipsKeys := by
  induction ips generalizing ipsKeys with
  | nil => simp [removeDuplicateIPs]
  | cons one ips ih =>
    rw [removeDuplicateIPs]
    split
    · next seen =>
      rw [ih, List.mem_cons]
      constructor
      · rintro ⟨later, new⟩
        exact ⟨.inr later, new⟩
      · rintro ⟨rfl | later, new⟩
        · exact absurd seen new
        · exact ⟨later, new⟩
    · next new =>
      rw [List.mem_cons, ih, List.mem_cons, List.mem_cons, not_or]
      constructor
      · rintro (rfl | ⟨later, -, unseen⟩)
        · exact ⟨.inl rfl, new⟩
        · exact ⟨.inr later, unseen⟩
      · rintro ⟨rfl | later, unseen⟩
        · exact .inl rfl
        · by_cases same : lib.text ip = lib.text one
          · exact .inl (lib.text_injective same)
          · exact .inr ⟨later, same, unseen⟩

theorem generateAndWrite_generated (gca : GenCertArgs) (newCert : Option (Certificate IP)) (fails : Failure)
    (e : Execution IP Key) (files : Files IP Key) :
    (generateAndWrite gca newCert fails e files).generated = e.newKey.bind fun _ => newCert := by
  unfold generateAndWrite
  cases e.newKey with
  | none => rfl
  | some key =>
    cases newCert with
    | none => rfl
    | some cert =>
      simp only [Option.bind_some]
      split
      · rfl
      · split <;> rfl

section Accepted
variable {lib : Names IP} {e : Execution IP Key} {gca : GenCertArgs} {s : State IP Key} {cert : Certificate IP}

theorem module_of_accepted (accepted : e.accepted = some gca) : moduleGenCert lib e s = issue lib gca e s := by
  obtain ⟨args, given, passes⟩ := Option.bind_eq_some_iff.mp accepted
  cases checked : newGenCertArgs args with
  | error err => simp [checked, Except.toOption] at passes
  | ok checkedArgs =>
    simp only [checked, Except.toOption, Option.some.injEq] at passes
    subst passes
    simp only [moduleGenCert, given, checked]

theorem names_of_rejected (rejected : e.accepted = none) : (moduleGenCert lib e s).2 = s := by
  unfold moduleGenCert
  split
  · rfl
  · next args given =>
    split
    · rfl
    · next checked => simp [Execution.accepted, given, checked, Except.toOption] at rejected

/-- The common name passed the checks. -/
theorem cn_of_accepted (accepted : e.accepted = some gca) : gca.cn ≠ "" := by
  obtain ⟨args, -, passes⟩ := Option.bind_eq_some_iff.mp accepted
  unfold newGenCertArgs at passes
  split at passes
  · cases passes
  · split at passes
    · cases passes
    · split at passes
      · cases passes
      · next named =>
        cases passes
        exact named

/-- What an execution generates, if it comes to that. -/
def certificate (lib : Names IP) (e : Execution IP Key) (gca : GenCertArgs) (s : State IP Key) :
    Option (Certificate IP) :=
  let cfg : Config IP := ⟨gca.cn, ["kubekey"], lib.appendSANsToAltNames s.defaultAltName gca.sans⟩
  if gca.rootKey = "" ∨ gca.rootCert = "" then newSelfSignedCACert cfg gca.date e
  else
    (tryLoadCertChainFromDisk s.files gca.rootCert).bind fun ca =>
      newSignedCert lib cfg gca.date ca.1 (gca.isCA.getD false) e

theorem generated_eq (accepted : e.accepted = some gca) (generates : Generates s.files e gca) :
    (moduleGenCert lib e s).1.generated = certificate lib e gca s := by
  obtain ⟨key, -, kind⟩ := generates
  obtain ⟨newKey, made⟩ := Option.isSome_iff_exists.mp key
  rw [module_of_accepted accepted, issue]
  by_cases selfSigned : gca.rootKey = "" ∨ gca.rootCert = ""
  · simp only [if_pos selfSigned, certificate, selfSignedCertificate, generateAndWrite_generated, made,
      Option.bind_some]
  · obtain ⟨rootKey, rootCert, absent⟩ := kind.resolve_left selfSigned
    obtain ⟨caKey, loadedKey⟩ := Option.isSome_iff_exists.mp rootKey
    obtain ⟨⟨caCert, chain⟩, loaded⟩ := Option.isSome_iff_exists.mp rootCert
    simp only [if_neg selfSigned, certificate, signedCertificate, loadedKey, loaded, Option.bind_some]
    split
    · next policy =>
      split
      · next foundKey foundCert => exact absurd ⟨policy, by simp [foundKey], by simp [foundCert]⟩ absent
      · rw [generateAndWrite_generated, made, Option.bind_some]
    · rw [generateAndWrite_generated, made, Option.bind_some]

theorem generates_of_generated (accepted : e.accepted = some gca)
    (generated : (moduleGenCert lib e s).1.generated = some cert) : Generates s.files e gca := by
  rw [module_of_accepted accepted, issue] at generated
  by_cases selfSigned : gca.rootKey = "" ∨ gca.rootCert = ""
  · simp only [if_pos selfSigned, selfSignedCertificate, generateAndWrite_generated, Option.bind_eq_some_iff,
      newSelfSignedCACert] at generated
    obtain ⟨key, made, created⟩ := generated
    split at created
    · next creates => exact ⟨by simp [made], creates, .inl selfSigned⟩
    · cases created
  · simp only [if_neg selfSigned, signedCertificate] at generated
    split at generated
    · cases generated
    · next caKey loadedKey =>
      split at generated
      · cases generated
      · next caCert chain loaded =>
        have both : ∀ {outcome : Option (Certificate IP)}, (e.newKey.bind fun _ => outcome) = some cert →
            outcome = newSignedCert lib ⟨gca.cn, ["kubekey"], lib.appendSANsToAltNames s.defaultAltName gca.sans⟩
              gca.date caCert (gca.isCA.getD false) e → e.newKey.isSome ∧ e.creates = true := by
          intro outcome some eq
          obtain ⟨key, made, created⟩ := Option.bind_eq_some_iff.mp some
          rw [eq, newSignedCert] at created
          split at created
          · cases created
          · simp only at created
            split at created
            · next creates => exact ⟨by simp [made], creates⟩
            · cases created
        split at generated
        · next policy =>
          split at generated
          · cases generated
          · next absent =>
            rw [generateAndWrite_generated] at generated
            obtain ⟨made, creates⟩ := both generated rfl
            refine ⟨made, creates, .inr ⟨by simp [loadedKey], by simp [loaded], ?_⟩⟩
            rintro ⟨-, key, cert⟩
            obtain ⟨k, foundKey⟩ := Option.isSome_iff_exists.mp key
            obtain ⟨⟨c, cs⟩, foundCert⟩ := Option.isSome_iff_exists.mp cert
            exact absent k c cs foundKey foundCert
        · next policy =>
          rw [generateAndWrite_generated] at generated
          obtain ⟨made, creates⟩ := both generated rfl
          exact ⟨made, creates, .inr ⟨by simp [loadedKey], by simp [loaded], fun h => policy h.1⟩⟩

end Accepted

/-- The certificate has these names and no others. -/
structure Certificate.HasNames (cert : Certificate IP) (altNames : AltNames IP) : Prop where
  dnsNames : ∀ d, d ∈ cert.dnsNames ↔ d ∈ altNames.dnsNames
  ipAddresses : ∀ ip, ip ∈ cert.ipAddresses ↔ ip ∈ altNames.ips

/-- Every certificate has the default names and those of the execution that generated it, whatever ran before. -/
def Isolated (lib : Names IP) (files : Files IP Key) (es : List (Execution IP Key)) : Prop :=
  ∀ before e later gca cert, es = before ++ e :: later → e.accepted = some gca →
    (moduleGenCert lib e (after lib (lib.start files) before)).1.generated = some cert →
    cert.HasNames (lib.appendSANsToAltNames lib.defaults gca.sans)

/-- The names that an execution adds are default names, or names that the other one has as well. -/
def Names.Covers (lib : Names IP) (gca earlier : GenCertArgs) : Prop :=
  (∀ d ∈ lib.dnsNamesOf earlier.sans, d ∈ lib.defaults.dnsNames ∨ d ∈ lib.dnsNamesOf gca.sans) ∧
    ∀ ip ∈ lib.ipsOf earlier.sans, ip ∈ lib.defaults.ips ∨ ip ∈ lib.ipsOf gca.sans

/-- The executions that generate a certificate sign it with a root, and cover all the executions before them. -/
def Confined (lib : Names IP) (files : Files IP Key) (es : List (Execution IP Key)) : Prop :=
  ∀ before e later gca, es = before ++ e :: later → e.accepted = some gca →
    Generates (after lib (lib.start files) before).files e gca →
    ¬ gca.SelfSigned ∧ ∀ e' ∈ before, ∀ earlier, e'.accepted = some earlier → lib.Covers gca earlier

section Runs
variable {lib : Names IP} {e : Execution IP Key} {gca : GenCertArgs} {s : State IP Key} {cert : Certificate IP}

/-- What the executions so far have appended to the default names. -/
theorem after_names (lib : Names IP) (s : State IP Key) (es : List (Execution IP Key)) :
    (after lib s es).defaultAltName =
      lib.appendSANsToAltNames s.defaultAltName ((es.filterMap Execution.accepted).flatMap GenCertArgs.sans) := by
  induction es generalizing s with
  | nil => rfl
  | cons e es ih =>
    rw [after, List.foldl_cons, ← after, ih]
    cases accepted : e.accepted with
    | none => rw [names_of_rejected accepted, List.filterMap_cons_none accepted]
    | some gca =>
      rw [module_of_accepted accepted, List.filterMap_cons_some accepted, List.flatMap_cons]
      exact (List.foldl_append ..).symm

theorem mem_dnsNamesOf_flatMap {d : String} {earlier : List GenCertArgs} :
    d ∈ lib.dnsNamesOf (earlier.flatMap GenCertArgs.sans) ↔ ∃ gca ∈ earlier, d ∈ lib.dnsNamesOf gca.sans := by
  simp only [Names.dnsNamesOf, List.mem_filter, List.mem_flatMap]
  constructor
  · rintro ⟨⟨gca, member, inside⟩, valid⟩
    exact ⟨gca, member, inside, valid⟩
  · rintro ⟨gca, member, inside, valid⟩
    exact ⟨⟨gca, member, inside⟩, valid⟩

theorem mem_ipsOf_flatMap {ip : IP} {earlier : List GenCertArgs} :
    ip ∈ lib.ipsOf (earlier.flatMap GenCertArgs.sans) ↔ ∃ gca ∈ earlier, ip ∈ lib.ipsOf gca.sans := by
  simp only [Names.ipsOf, List.mem_filterMap, List.mem_flatMap]
  constructor
  · rintro ⟨san, ⟨gca, member, inside⟩, parsed⟩
    exact ⟨gca, member, san, inside, parsed⟩
  · rintro ⟨gca, member, san, inside, parsed⟩
    exact ⟨san, ⟨gca, member, inside⟩, parsed⟩

/-- A signed certificate has all the names of the state and of the execution. -/
theorem signed_names (accepted : e.accepted = some gca) (signed : ¬ gca.SelfSigned)
    (generated : (moduleGenCert lib e s).1.generated = some cert) :
    cert.HasNames (lib.appendSANsToAltNames s.defaultAltName gca.sans) := by
  rw [generated_eq accepted (generates_of_generated accepted generated)] at generated
  unfold GenCertArgs.SelfSigned at signed
  rw [certificate, if_neg signed] at generated
  obtain ⟨ca, -, new⟩ := Option.bind_eq_some_iff.mp generated
  rw [newSignedCert, if_neg (cn_of_accepted accepted)] at new
  simp only at new
  split at new
  · cases new
    constructor
    · intro d
      simp [Names.removeDuplicateAltNames]
    · intro ip
      simp [Names.removeDuplicateAltNames, Names.mem_removeDuplicateIPs]
  · cases new

/-- A self-signed certificate has no address. -/
theorem selfSigned_ips (accepted : e.accepted = some gca) (selfSigned : gca.SelfSigned)
    (generated : (moduleGenCert lib e s).1.generated = some cert) : cert.ipAddresses = [] := by
  rw [generated_eq accepted (generates_of_generated accepted generated)] at generated
  unfold GenCertArgs.SelfSigned at selfSigned
  rw [certificate, if_pos selfSigned, newSelfSignedCACert] at generated
  simp only at generated
  split at generated
  · cases generated
    rfl
  · cases generated

theorem exists_generated (accepted : e.accepted = some gca) (generates : Generates s.files e gca) :
    ∃ cert, (moduleGenCert lib e s).1.generated = some cert := by
  rw [generated_eq accepted generates, certificate]
  obtain ⟨-, creates, kind⟩ := generates
  by_cases selfSigned : gca.rootKey = "" ∨ gca.rootCert = ""
  · rw [if_pos selfSigned, newSelfSignedCACert, if_pos creates]
    exact ⟨_, rfl⟩
  · obtain ⟨-, rootCert, -⟩ := kind.resolve_left selfSigned
    obtain ⟨ca, loaded⟩ := Option.isSome_iff_exists.mp rootCert
    rw [if_neg selfSigned, loaded, Option.bind_some, newSignedCert, if_neg (cn_of_accepted accepted), if_pos creates]
    exact ⟨_, rfl⟩

/-- A certificate with the names of the state has the default ones and its own if all earlier ones are covered. -/
theorem covers_iff {earlier : List GenCertArgs}
    (has : cert.HasNames (lib.appendSANsToAltNames
      (lib.appendSANsToAltNames lib.defaults (earlier.flatMap GenCertArgs.sans)) gca.sans)) :
    cert.HasNames (lib.appendSANsToAltNames lib.defaults gca.sans) ↔ ∀ gca' ∈ earlier, lib.Covers gca gca' := by
  obtain ⟨dns, ips⟩ := has
  simp only [Names.appendSANs_eq, List.mem_append, mem_dnsNamesOf_flatMap, mem_ipsOf_flatMap] at dns ips
  constructor
  · rintro ⟨exactDns, exactIPs⟩ gca' member
    simp only [Names.appendSANs_eq, List.mem_append] at exactDns exactIPs
    constructor
    · intro d inside
      exact (exactDns d).mp ((dns d).mpr (.inl (.inr ⟨gca', member, inside⟩)))
    · intro ip inside
      exact (exactIPs ip).mp ((ips ip).mpr (.inl (.inr ⟨gca', member, inside⟩)))
  · intro covers
    simp only [Names.appendSANs_eq]
    constructor
    · intro d
      rw [dns d, List.mem_append]
      constructor
      · rintro ((default | ⟨gca', member, inside⟩) | own)
        · exact .inl default
        · exact (covers gca' member).1 d inside
        · exact .inr own
      · rintro (default | own)
        · exact .inl (.inl default)
        · exact .inr own
    · intro ip
      rw [ips ip, List.mem_append]
      constructor
      · rintro ((default | ⟨gca', member, inside⟩) | own)
        · exact .inl default
        · exact (covers gca' member).2 ip inside
        · exact .inr own
      · rintro (default | own)
        · exact .inl (.inl default)
        · exact .inr own

end Runs

/-- The names of the certificates are isolated from each other just if the executions that generate one sign it with a
root and have all the names that earlier executions added to the default ones. -/
theorem isolated_iff (lib : Names IP) (files : Files IP Key) (es : List (Execution IP Key)) :
    Isolated lib files es ↔ Confined lib files es := by
  have signed : ∀ {before : List (Execution IP Key)} {e : Execution IP Key} {gca : GenCertArgs} {cert : Certificate IP},
      e.accepted = some gca → ¬ gca.SelfSigned →
      (moduleGenCert lib e (after lib (lib.start files) before)).1.generated = some cert →
      (cert.HasNames (lib.appendSANsToAltNames lib.defaults gca.sans) ↔
        ∀ e' ∈ before, ∀ earlier, e'.accepted = some earlier → lib.Covers gca earlier) := by
    intro before e gca cert accepted signed generated
    have has := signed_names accepted signed generated
    rw [after_names] at has
    rw [covers_iff has]
    constructor
    · intro covers e' member earlier accepted'
      exact covers earlier (List.mem_filterMap.mpr ⟨e', member, accepted'⟩)
    · intro covers gca' member
      obtain ⟨e', inside, accepted'⟩ := List.mem_filterMap.mp member
      exact covers e' inside gca' accepted'
  constructor
  · intro isolated before e later gca split accepted generates
    obtain ⟨cert, generated⟩ :
        ∃ cert, (moduleGenCert lib e (after lib (lib.start files) before)).1.generated = some cert :=
      exists_generated accepted generates
    have has := isolated before e later gca cert split accepted generated
    have rooted : ¬ gca.SelfSigned := by
      intro selfSigned
      have loopback := (has.ipAddresses lib.ipv4Loopback).mpr (by simp [Names.appendSANs_eq, Names.defaults])
      rw [selfSigned_ips accepted selfSigned generated] at loopback
      cases loopback
    exact ⟨rooted, (signed accepted rooted generated).mp has⟩
  · intro confined before e later gca cert split accepted generated
    obtain ⟨rooted, covers⟩ := confined before e later gca split accepted (generates_of_generated accepted generated)
    exact (signed accepted rooted generated).mpr covers

section TwoServices

/-- Addresses by their text. -/
def plainNames : Names String where
  parseIPSloppy s := if s = "10.0.0.1" then some s else none
  isDNS1123Subdomain s := s.toList.all fun c => c.isLower || c.isDigit || c == '.' || c == '-'
  isWildcardDNS1123Subdomain _ := false
  text := id
  text_injective := Function.injective_id
  ipv4Loopback := "127.0.0.1"
  ipv6Loopback := "::1"

def rootCA : Certificate String := ⟨"root", ["kubekey"], ["root"], [], 0, 1000, true⟩

def rootFiles : Files String Nat := fun path =>
  if path = "root.key" then some (.key 0) else if path = "root.crt" then some (.certs rootCA []) else none

/-- A certificate for a service, signed with the root. -/
def serviceArgs (name : String) : GenCertArgs :=
  ⟨"root.key", "root.crt", 0, policyAlways, [name ++ ".example"], name, name ++ ".key", name ++ ".crt", none⟩

def service (name : String) : Execution String Nat :=
  ⟨some (serviceArgs name), 10, some 1, true, fun _ => true, fun _ _ _ => true, fun _ _ => true⟩

/-- The certificate of the second service has the name of the first. -/
theorem second_service_has_first_name : ¬ Isolated plainNames rootFiles [service "a", service "b"] := by
  intro isolated
  have generated :
      (moduleGenCert plainNames (service "b")
          (after plainNames (plainNames.start rootFiles) [service "a"])).1.generated =
        some ⟨"b", ["kubekey"], ["a.example", "b.example", "localhost"], ["127.0.0.1", "::1"], 0,
          10 + defaultSignCertAfter, false⟩ := rfl
  have has := isolated [service "a"] (service "b") [] _ _ rfl rfl generated
  have leaked := (has.dnsNames "a.example").mp (by decide)
  revert leaked
  decide

end TwoServices

end KubeKey.Modules.GenCert
