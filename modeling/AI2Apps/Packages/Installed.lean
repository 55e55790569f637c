import AI2Apps.Packages.Archive

/-!
# Installed packages

What the package manager keeps of an archive it has accepted, and the check of it before a
package is used.

* `verifySignature`: the publisher's signature over the digest.
* `Installed`, `installed`: the directory of an installed package.
* `validateInstalled`: `_validate_installed`.
-/

namespace AI2Apps.Packages

inductive TrustStatus where
  | trusted
  | untrusted
  | revoked
  deriving DecidableEq

structure PublisherRecord where
  publisherKey : Str
  keyId : Str
  publicKey : Str
  trustStatus : TrustStatus

/-- The publishers, and the Ed25519 check of a signature over a digest by a public key. -/
structure TrustStore where
  getPublisher : Str → Option PublisherRecord
  verify : Str → Str → Str → Bool

structure VerifiedSignature where
  publisher : Str
  keyId : Str
  trust : TrustStatus

/-- `verify_signature`. -/
def verifySignature (store : TrustStore) (package : InspectedServicePackage) (allowUntrusted : Bool) :
    Except Refusal VerifiedSignature :=
  match store.getPublisher package.manifest.publisherKey with
  | none => .error (.package "publisher_unknown")
  | some publisher =>
    if publisher.trustStatus = .revoked then .error (.package "publisher_revoked")
    else if publisher.trustStatus ≠ .trusted ∧ allowUntrusted = false then
      .error (.package "publisher_untrusted")
    else
      let attestationKey := Json.lookup (str "key_id") package.publisherAttestation
      let signatureKey := (Json.lookup (str "key_id") package.signature).orElse fun _ => attestationKey
      if ¬ isText attestationKey publisher.keyId ∨ ¬ isText signatureKey publisher.keyId then
        .error (.package "publisher_key_mismatch")
      else
        match Json.lookup (str "signature") package.signature with
        | some (.str signature) =>
          if store.verify publisher.publicKey signature package.digest then
            .ok ⟨publisher.publisherKey, publisher.keyId, publisher.trustStatus⟩
          else .error (.package "signature_invalid")
        | _ => .error .other

/-- The record of an installed package: `trust` is the verdict on its signature, and `files` the
rows of the file index. -/
structure InstalledPackageRecord where
  inProcess : Bool
  packageDigest : Str
  trust : Option Str
  files : List PackageFile

def packageArchive : Str := str "package.ai2service"

/-- The directory of an installed package: its files, and the copy of the archive. -/
structure Installed where
  files : Store
  archive : Archive

/-- The directory that `_store` makes of an archive.  The copy of the archive takes the place of a
member with its name. -/
def installed (archive : Archive) (store : Store) : Installed :=
  ⟨store.filter fun p => p.1 ≠ packageArchive, archive⟩

def cloudTrust : Str := str "ai2apps-cloud-registry-v1"

/-- The inspector of the Cloud contract, which names an archive by the hash of its bytes. -/
abbrev ContractInspector := Archive → Except Refusal Str

/-- The check of the archive, by the inspector that the record names. -/
def validateArchive (tools : Tools) (trust : TrustStore) (contract : ContractInspector)
    (record : InstalledPackageRecord) (archive : Archive) : Except Refusal Unit :=
  if record.trust = some cloudTrust then do
    let hash ← contract archive
    refuseIf (sha256Prefix ++ hash ≠ record.packageDigest) (.package "installed_package_tampered")
  else do
    let inspected ← inspect tools archive
    refuseIf (inspected.digest ≠ record.packageDigest) (.package "installed_package_tampered")
    let _ ← verifySignature trust inspected (record.trust = some (str "untrusted"))

/-- `actual_paths`. -/
def actualPaths (record : InstalledPackageRecord) (files : Store) : List Str :=
  (files.map Prod.fst).filter fun name =>
    (record.trust ≠ some cloudTrust || name ≠ str "ai2apps.json") && !unindexed name

/-- Whether a file is still the one in the record. -/
def unchanged (tools : Tools) (record : InstalledPackageRecord) (files : Store) (path : Str) : Bool :=
  match record.files.reverse.find? (fun file => file.path = path), files.lookup path with
  | some file, some content =>
    content.length = file.sizeBytes && sha256Prefix ++ tools.sha256 content = file.contentHash
  | _, _ => false

/-- The files against the record. -/
def validateFiles (tools : Tools) (record : InstalledPackageRecord) (files : Store) : Except Refusal Unit := do
  let expected := record.files.map PackageFile.path
  let actual := actualPaths record files
  refuseIf (¬ ((∀ path ∈ actual, path ∈ expected) ∧ ∀ path ∈ expected, path ∈ actual))
    (.package "installed_package_tampered")
  refuseIf (¬ expected.all (unchanged tools record files)) (.package "installed_package_tampered")

/-- `_validate_installed`. -/
def validateInstalled (tools : Tools) (trust : TrustStore) (contract : ContractInspector)
    (record : InstalledPackageRecord) (root : Installed) : Except Refusal Unit := do
  refuseIf record.inProcess (.package "third_party_in_process_denied")
  validateArchive tools trust contract record root.archive
  validateFiles tools record root.files

end AI2Apps.Packages
