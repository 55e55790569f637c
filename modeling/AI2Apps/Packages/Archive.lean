import AI2Apps.Lib.JsonText
import AI2Apps.Lib.Utf8
import Mathlib.Data.List.Sort

/-!
# Service package archives

`inspect` decides whether an `.ai2service` archive is accepted and names it by a digest over
its manifest and its file index; `extract` writes every file of it into a directory.

* `ZipInfo`, `Archive`: the directory of a ZIP archive, and what reading its members gives.
* `entries`: the files of an archive, in order.
* `verifyIndex`: the signed file index against the members.
* `validateNativeArtifacts`: the policy on native code.
* `inspect`, `extract`.

Hashing, YAML together with the manifest checks, base64 and lower case are parameters.
-/

namespace AI2Apps.Packages

abbrev Bytes := List ℕ

/-- Why an archive is refused: a `PackageError`, or something else that is raised. -/
inductive Refusal where
  | package (code : String)
  | other
  deriving DecidableEq

/-- A member of a ZIP archive: its header, and the bytes that reading it gives, which are none
where reading raises and never more than the header says. -/
structure ZipInfo where
  filename : Str
  externalAttr : ℕ
  fileSize : ℕ
  content : Option Bytes
  bounded : ∀ bytes, content = some bytes → bytes.length ≤ fileSize

/-- `archive.infolist()`. -/
abbrev Archive := List ZipInfo

/-- A check that raises. -/
def refuseIf (p : Prop) [Decidable p] (e : Refusal) : Except Refusal Unit := if p then .error e else .ok ()

structure PackageFile where
  path : Str
  contentHash : Str
  sizeBytes : ℕ
  deriving DecidableEq

/-- What is used of the manifest.  `canonical` is `canonical_json(manifest.raw)`, none where it
raises, and `nativeArtifacts` is `manifest.raw.get("native_artifacts", [])`. -/
structure Manifest where
  publisherKey : Str
  protocol : Str
  nativeArtifacts : Json
  canonical : Option Bytes

structure InspectedServicePackage where
  digest : Str
  manifest : Manifest
  files : List PackageFile
  sbom : Json.Object
  publisherAttestation : Json.Object
  signature : Json.Object
  bundledAttestations : List Json.Object
  totalSizeBytes : ℕ

/-- What is outside the model. -/
structure Tools where
  floats : FloatText
  /-- `hashlib.sha256(value).hexdigest()`. -/
  sha256 : Bytes → Str
  /-- `yaml.safe_load` and `_manifest`. -/
  readManifest : Str → Except Refusal Manifest
  /-- Whether `base64.b64decode(value, validate=True)` does not raise. -/
  isBase64 : Str → Bool
  lower : Str → Str
  /-- Whether a directory can hold files of these names. -/
  holds : List Str → Bool

def maxPackageFiles : ℕ := 10000
def maxPackageBytes : ℕ := 512 * 1024 * 1024
def maxInferenceRuntimePackageBytes : ℕ := 4 * 1024 * 1024 * 1024
def maxMetadataBytes : ℕ := 4 * 1024 * 1024

/-! ## Paths -/

/-- `PurePosixPath(name).parts`, of a relative name. -/
def pathParts (name : Str) : List Str := (name.splitOn 47).filter fun part => part ≠ [] ∧ part ≠ [46]

/-- `PurePosixPath(name).as_posix()`, of a relative name. -/
def asPosix (name : Str) : Str :=
  if pathParts name = [] then [46] else [47].intercalate (pathParts name)

/-- `PurePosixPath(name).suffix`. -/
def pathSuffix (name : Str) : Str :=
  let last := (pathParts name).getLast?.getD []
  let tail := last.reverse.takeWhile (· ≠ 46)
  if tail = [] ∨ last.length ≤ tail.length + 1 then [] else 46 :: tail.reverse

/-- A name that is not a safe path inside the package. -/
def unsafePath (name : Str) : Bool :=
  name.head? = some 47 || decide (str ".." ∈ pathParts name) || decide (92 ∈ name) ||
    decide (0 ∈ name) || name ≠ asPosix name

/-! ## The members -/

def ZipInfo.isDir (item : ZipInfo) : Bool := item.filename.getLast? = some 47

/-- `(item.external_attr >> 16) & 0o170000 == 0o120000`. -/
def ZipInfo.isSymlink (item : ZipInfo) : Bool := (item.externalAttr >>> 16) &&& 0o170000 = 0o120000

/-- `entries.get(name)`. -/
def member (entries : List ZipInfo) (name : Str) : Option ZipInfo :=
  entries.find? fun item => item.filename = name

/-- The members that are files, after those of `acc`. -/
def entriesFrom : List ZipInfo → Archive → Except Refusal (List ZipInfo)
  | acc, [] => .ok acc
  | acc, item :: rest =>
    if item.isDir then entriesFrom acc rest
    else if unsafePath item.filename then .error (.package "unsafe_archive_path")
    else if item.filename ∈ acc.map ZipInfo.filename then .error (.package "duplicate_archive_path")
    else if item.isSymlink then .error (.package "archive_symlink_denied")
    else if maxInferenceRuntimePackageBytes < item.fileSize then .error (.package "package_size_limit")
    else entriesFrom (acc ++ [item]) rest

def totalSize (entries : List ZipInfo) : ℕ := (entries.map ZipInfo.fileSize).sum

/-- `_entries`. -/
def entries (archive : Archive) : Except Refusal (List ZipInfo) := do
  let entries ← entriesFrom [] archive
  refuseIf (maxPackageFiles < entries.length ∨ maxInferenceRuntimePackageBytes < totalSize entries)
    (.package "package_size_limit")
  return entries

/-- `_enforce_size_limit`. -/
def enforceSizeLimit (entries : List ZipInfo) (manifest : Manifest) : Except Refusal Unit :=
  let limit :=
    if manifest.protocol = str "ai2apps-inference-runtime/v1" then maxInferenceRuntimePackageBytes
    else maxPackageBytes
  if (entries.any fun item => limit < item.fileSize) ∨ limit < totalSize entries then
    .error (.package "package_size_limit")
  else .ok ()

/-- The text of a required member. -/
def metadataText (entries : List ZipInfo) (name : Str) : Except Refusal Str :=
  match member entries name with
  | none => .error (.package "missing_package_file")
  | some item =>
    if maxMetadataBytes < item.fileSize then .error (.package "metadata_size_limit")
    else
      match item.content.bind Utf8.decode with
      | none => .error (.package "invalid_package_metadata")
      | some text => .ok text

/-- `_metadata` with `json.loads`. -/
def metadata (tools : Tools) (entries : List ZipInfo) (name : Str) : Except Refusal Json.Object := do
  let text ← metadataText entries name
  match JsonText.loads tools.floats text with
  | some (.obj value) => return value
  | _ => throw (.package "invalid_package_metadata")

/-! ## The file index -/

def filesJson : Str := str "META/files.json"

def signaturesPrefix : Str := str "signatures/"

def attestationsPrefix : Str := str "attestations/"

/-- `name in _INDEX_EXCLUSIONS or name.startswith(_UNINDEXED_PREFIXES)`. -/
def unindexed (name : Str) : Bool :=
  name = filesJson || signaturesPrefix.isPrefixOf name || attestationsPrefix.isPrefixOf name

def sha256Prefix : Str := str "sha256:"

/-- `digest.removeprefix("sha256:")`. -/
def removeSha256 (digest : Str) : Str :=
  if sha256Prefix.isPrefixOf digest then digest.drop sha256Prefix.length else digest

/-- `re.fullmatch(r"(?:sha256:)?[0-9a-f]{64}", digest)`. -/
def isDigest (digest : Str) : Bool :=
  let hex := removeSha256 digest
  hex.length = 64 && hex.all fun c => (48 ≤ c && c ≤ 57) || (97 ≤ c && c ≤ 102)

/-- One row of the index, after those of `indexed`. -/
def indexRow (tools : Tools) (entries : List ZipInfo) (indexed : List PackageFile) (value : Json) :
    Except Refusal PackageFile :=
  match value with
  | .obj row =>
    match Json.lookup (str "path") row, Json.lookup (str "sha256") row, Json.lookup (str "size") row with
    | some (.str path), some (.str digest), some (.int size) =>
      if path ∈ indexed.map PackageFile.path ∨ isDigest digest = false ∨ size < 0 then
        .error (.package "invalid_file_index")
      else
        match member entries path with
        | none => .error (.package "file_index_mismatch")
        | some item =>
          if (item.fileSize : ℤ) ≠ size then .error (.package "file_index_mismatch")
          else
            match item.content with
            | none => .error .other
            | some content =>
              if tools.sha256 content ≠ removeSha256 digest then .error (.package "file_hash_mismatch")
              else .ok ⟨path, sha256Prefix ++ tools.sha256 content, size.toNat⟩
    | _, _, _ => .error (.package "invalid_file_index")
  | _ => .error (.package "invalid_file_index")

/-- The rows of the index, after those of `indexed`. -/
def indexRows (tools : Tools) (entries : List ZipInfo) :
    List PackageFile → List Json → Except Refusal (List PackageFile)
  | indexed, [] => .ok indexed
  | indexed, value :: values => do
    let file ← indexRow tools entries indexed value
    indexRows tools entries (indexed ++ [file]) values

/-- `sorted(files, key=lambda item: item.path)`. -/
def sortedByPath (files : List PackageFile) : List PackageFile :=
  files.insertionSort fun a b => a.path ≤ b.path

/-- `expected_paths`. -/
def expectedPaths (entries : List ZipInfo) : List Str :=
  (entries.map ZipInfo.filename).filter fun name => !unindexed name

/-- `_verify_index`. -/
def verifyIndex (tools : Tools) (entries : List ZipInfo) (raw : Json.Object) :
    Except Refusal (List PackageFile) :=
  match Json.lookup (str "files") raw with
  | some (.arr values) => do
    let indexed ← indexRows tools entries [] values
    refuseIf (¬ ((∀ file ∈ indexed, file.path ∈ expectedPaths entries) ∧
        ∀ path ∈ expectedPaths entries, path ∈ indexed.map PackageFile.path))
      (.package "incomplete_file_index")
    return sortedByPath indexed
  | _ => .error (.package "invalid_file_index")

/-! ## The digest -/

/-- `canonical_json(index)`. -/
def indexText (tools : Tools) (files : List PackageFile) : Option Bytes :=
  Utf8.encode (JsonText.dumps tools.floats (.arr ((sortedByPath files).map fun file =>
    .obj [(str "path", .str file.path), (str "sha256", .str file.contentHash),
      (str "size", .int file.sizeBytes)])))

/-- The bytes that are hashed into the digest of a package. -/
def packageValue (tools : Tools) (manifest : Manifest) (files : List PackageFile) : Option Bytes := do
  let canonical ← manifest.canonical
  let index ← indexText tools files
  return str "ai2apps.service/v1\n" ++ canonical ++ [10] ++ index

/-- `package_digest`. -/
def packageDigest (tools : Tools) (manifest : Manifest) (files : List PackageFile) : Except Refusal Str :=
  match packageValue tools manifest files with
  | none => .error .other
  | some value => .ok (sha256Prefix ++ tools.sha256 value)

/-! ## The software bill of materials and native code -/

/-- `_validate_sbom`. -/
def validateSbom (sbom : Json.Object) : Except Refusal Unit :=
  match Json.lookup (str "spdxVersion") sbom, Json.lookup (str "SPDXID") sbom, Json.lookup (str "name") sbom with
  | some (.str version), some (.str _), some (.str name) =>
    if version ∉ [str "SPDX-2.2", str "SPDX-2.3"] ∨ name = [] then .error (.package "invalid_sbom")
    else .ok ()
  | some (.arr _), _, _ => .error .other
  | some (.obj _), _, _ => .error .other
  | _, _, _ => .error (.package "invalid_sbom")

def modelWorkerProtocol : Str := str "ai2apps-model-worker/v1"

def nativeSuffixes : List Str :=
  [".a", ".bundle", ".c", ".cc", ".cpp", ".cu", ".cxx", ".dll", ".dylib", ".exe", ".h", ".hpp", ".m",
    ".metal", ".metallib", ".mm", ".node", ".o", ".rs", ".so", ".swift", ".wasm"].map str

/-- `_NATIVE_MAGICS`. -/
def nativeMagics : List Bytes :=
  [[0x7F, 0x45, 0x4C, 0x46], [0xFE, 0xED, 0xFA, 0xCE], [0xFE, 0xED, 0xFA, 0xCF],
    [0xCE, 0xFA, 0xED, 0xFE], [0xCF, 0xFA, 0xED, 0xFE], [0xCA, 0xFE, 0xBA, 0xBE],
    [0xCA, 0xFE, 0xBA, 0xBF], [0xBE, 0xBA, 0xFE, 0xCA], [0xBF, 0xBA, 0xFE, 0xCA]]

/-- Bytes that start like a native executable. -/
def nativeMagic (content : Bytes) : Bool :=
  decide (content.take 4 ∈ nativeMagics) || content.take 2 = [0x4D, 0x5A]

/-- Whether `native_payload_paths` returns this path. -/
def nativePayload (tools : Tools) (path : Str) (content : Bytes) : Bool :=
  decide (tools.lower (pathSuffix path) ∈ nativeSuffixes) ||
    (pathParts path).any (fun part => (str ".framework").isSuffixOf (tools.lower part)) ||
    nativeMagic content

/-- The headers for which a declaration is asked. -/
def executableHeader (content : Bytes) : Bool :=
  content.take 4 = [0x7F, 0x45, 0x4C, 0x46] || content.take 2 = [0x4D, 0x5A] ||
    decide (content.take 4 ∈ ([[0xFE, 0xED, 0xFA, 0xCE], [0xFE, 0xED, 0xFA, 0xCF], [0xCE, 0xFA, 0xED, 0xFE],
      [0xCF, 0xFA, 0xED, 0xFE], [0xCA, 0xFE, 0xBA, 0xBE]] : List Bytes))

/-- `not value`. -/
def falsy : Option Json → Bool
  | none | some .null | some (.bool false) | some (.int 0) | some (.str []) | some (.arr [])
  | some (.obj []) => true
  | some (.float (.finite q)) => q = 0
  | _ => false

/-- The declarations, with their paths. -/
def declarations : Json → Option (List (Str × Json.Object))
  | .arr items => items.mapM fun
    | .obj item =>
      match Json.lookup (str "path") item with
      | some (.str path) => some (path, item)
      | _ => none
    | _ => none
  | _ => none

/-- The `fileName`s in the bill of materials; none where building the dictionary raises. -/
def sbomFiles (sbom : Json.Object) : Option (List Json) :=
  match Json.lookup (str "files") sbom with
  | none => some []
  | some (.arr items) => (items.filterMap Json.obj?).mapM fun item =>
    match (Json.lookup (str "fileName") item).getD .null with
    | .arr _ => none
    | .obj _ => none
    | name => some name
  | some (.str _) => some []
  | some (.obj _) => some []
  | some _ => none

/-- The declaration that a native file needs. -/
def checkDeclaration (declared : List (Str × Json.Object)) (sbomNames : List Json) (file : PackageFile) :
    Except Refusal Unit :=
  -- A later declaration of a path replaces an earlier one.
  match (declared.reverse.find? fun d => d.1 = file.path) with
  | none => .error (.package "undeclared_native_artifact")
  | some (_, declaration) =>
    match (Json.lookup (str "sha256") declaration).getD (.str []) with
    | .str digest =>
      if removeSha256 digest ≠ removeSha256 file.contentHash then
        .error (.package "native_artifact_hash_mismatch")
      else if falsy (Json.lookup (str "architectures") declaration) then
        .error (.package "native_artifact_platform_missing")
      else if ¬ sbomNames.any (fun name => Json.pyEq name (.str file.path)) then
        .error (.package "native_artifact_missing_from_sbom")
      else .ok ()
    | _ => .error .other

/-- What `archive.read(path)` gives of an indexed file. -/
def readMember (entries : List ZipInfo) (path : Str) : Except Refusal Bytes :=
  match (member entries path).bind ZipInfo.content with
  | none => .error .other
  | some content => .ok content

/-- `_validate_native_artifacts`. -/
def validateNativeArtifacts (tools : Tools) (entries : List ZipInfo) (manifest : Manifest)
    (files : List PackageFile) (sbom : Json.Object) : Except Refusal Unit := do
  match declarations manifest.nativeArtifacts with
  | none => throw (.package "invalid_native_artifacts")
  | some declared =>
    match sbomFiles sbom with
    | none => throw .other
    | some sbomNames =>
      let contents ← files.mapM fun file => do
        let content ← readMember entries file.path
        return (file, content)
      refuseIf (manifest.protocol = modelWorkerProtocol ∧
          ((contents.any fun p => nativePayload tools p.1.path p.2) = true ∨ declared.isEmpty = false))
        (.package "model_worker_native_payload_forbidden")
      let native := contents.filter fun p => executableHeader p.2
      let _ ← native.mapM fun p => checkDeclaration declared sbomNames p.1
      refuseIf (declared.any fun d => decide (d.1 ∉ native.map fun p => p.1.path))
        (.package "native_artifact_declaration_invalid")

/-! ## The signature -/

/-- `_signature`. -/
def publisherSignature (tools : Tools) (entries : List ZipInfo) : Except Refusal Json.Object :=
  match member entries (str "signatures/publisher.sig") with
  | none => .error (.package "missing_signature")
  | some item =>
    if 64 * 1024 < item.fileSize then .error (.package "missing_signature")
    else
      match item.content.bind Utf8.decode with
      | none => .error .other
      | some raw =>
        let text := TextOrder.strip raw
        let value := (JsonText.loads tools.floats text).getD
          (.obj [(str "algorithm", .str (str "ed25519")), (str "signature", .str text)])
        match value with
        | .obj value =>
          match Json.lookup (str "algorithm") value, Json.lookup (str "signature") value with
          | some (.str algorithm), some (.str signature) =>
            if algorithm ≠ str "ed25519" ∨ tools.isBase64 signature = false then
              .error (.package "invalid_signature")
            else .ok value
          | _, _ => .error (.package "invalid_signature")
        | _ => .error (.package "invalid_signature")

/-! ## Inspection -/

def publisherJson : Str := str "attestations/publisher.json"

/-- The names of the bundled attestations, in order. -/
def bundledNames (entries : List ZipInfo) : List Str :=
  ((entries.map ZipInfo.filename).filter fun name => attestationsPrefix.isPrefixOf name &&
    (str ".json").isSuffixOf name && name ≠ publisherJson).insertionSort (· ≤ ·)

/-- `value == text`. -/
def isText (value : Option Json) (text : Str) : Bool :=
  match value with
  | some (.str s) => s = text
  | _ => false

/-- `ServicePackageArchive.inspect`. -/
def inspect (tools : Tools) (archive : Archive) : Except Refusal InspectedServicePackage := do
  let entries ← entries archive
  let text ← metadataText entries (str "service.yaml")
  let manifest ← tools.readManifest text
  enforceSizeLimit entries manifest
  let index ← metadata tools entries filesJson
  let files ← verifyIndex tools entries index
  let sbom ← metadata tools entries (str "META/sbom.spdx.json")
  validateSbom sbom
  validateNativeArtifacts tools entries manifest files sbom
  let digest ← packageDigest tools manifest files
  let publisher ← metadata tools entries publisherJson
  let signature ← publisherSignature tools entries
  let bundled ← (bundledNames entries).mapM fun name => metadata tools entries name
  refuseIf (¬ isText (Json.lookup (str "package_digest") publisher) digest)
    (.package "publisher_digest_mismatch")
  refuseIf (¬ isText (Json.lookup (str "publisher_id") publisher) manifest.publisherKey)
    (.package "publisher_mismatch")
  return ⟨digest, manifest, files, sbom, publisher, signature, bundled, totalSize entries⟩

/-! ## Extraction -/

/-- The files of a directory. -/
abbrev Store := List (Str × Bytes)

/-- `extract`: every member that is a file, or nothing where writing one of them raises. -/
def extract (tools : Tools) (archive : Archive) : Option Store :=
  match entries archive with
  | .error _ => none
  | .ok entries =>
    if tools.holds (entries.map ZipInfo.filename) then
      entries.mapM fun item => item.content.map fun content => (item.filename, content)
    else none

end AI2Apps.Packages
