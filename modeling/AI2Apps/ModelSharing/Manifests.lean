import AI2Apps.Lib.Base64Url
import AI2Apps.Lib.JsonSchema
import AI2Apps.Peer.Grants

/-!
# Result manifests and actual usage

The three result manifests of Model Share: what their schemas admit, the digest
each one is committed by, and how a provider creates one.  A manifest carries the
proof that it is valid and its canonical bytes, so its digest is a function.

* `ResultManifest.parse`: the only way to a manifest.
* `ComputeResultManifest.create`, `AudioTtsResultManifest.create`,
  `MultimodalResultManifest.create`: what a provider commits to.
* `validateActualUsage`: the usage of the multimodal calculators.
-/

namespace AI2Apps.ModelSharing

open Peer (isHexDigit)

/-- What manifests need from outside the repository: RFC 8785 canonical bytes,
which not every value has, the SHA-256 hex digest, and the UUID format check. -/
structure ManifestCodec where
  canonical : Json → Option (List ℕ)
  sha256 : List ℕ → Str
  isUuid : Str → Bool

/-! ## Patterns -/

/-- A pattern that ends in `$`, which also stands before a final line feed. -/
def atEnd (p : Str → Bool) (s : Str) : Bool :=
  p s || (s.getLast? == some 10 && p s.dropLast)

/-- `^[0-9a-f]{64}$`. -/
def digestPattern : Str → Bool := atEnd fun s => s.length == 64 && s.all isHexDigit

def isNonceChar (c : ℕ) : Bool :=
  (48 ≤ c && c ≤ 57) || (65 ≤ c && c ≤ 90) || (97 ≤ c && c ≤ 122) || c == 95 || c == 45

/-- `^[A-Za-z0-9_-]{22,128}$`. -/
def noncePattern : Str → Bool :=
  atEnd fun s => 22 ≤ s.length && s.length ≤ 128 && s.all isNonceChar

/-- `^[1-9][0-9]*$`. -/
def byteSizePattern : Str → Bool :=
  atEnd fun s =>
    match s with
    | c :: rest => 49 ≤ c && c ≤ 57 && rest.all fun d => 48 ≤ d && d ≤ 57
    | [] => false

/-- 64 lower-case hex digits. -/
def isSha256Hex (s : Str) : Bool := s.length == 64 && s.all isHexDigit

/-! ## Schemas -/

def resultSchemaVersion : Str := str "ai2apps.compute.result.v1"

def audioTtsResultSchemaVersion : Str := str "ai2apps.compute.result.audio-tts.v2"

def multimodalResultSchemaVersion : Str := str "ai2apps.compute.result.multimodal-pricing.v1"

def resultDigestDomain : Str := str "ai2apps.compute.result.v1"

def multimodalCalculators : List Str := ["tts_v1", "image_v1", "video_v1"].map str

def textPartSchema : Schema :=
  .record [(str "type", .const (str "text")), (str "text", .string 0 (some 4000000) none)]

def resultSchema : Schema :=
  .record
    [(str "schemaVersion", .const resultSchemaVersion),
      (str "contractId", .uuid),
      (str "requestDigest", .string 0 none (some digestPattern)),
      (str "parts", .array 1 256 textPartSchema),
      (str "finishReason", .string 1 (some 80) none),
      (str "nonce", .string 0 none (some noncePattern))]

def audioPartSchema : Schema :=
  .record
    [(str "type", .const (str "artifact")),
      (str "artifactId", .const (str "audio-0")),
      (str "mediaType", .const (str "audio/wav")),
      (str "sizeBytes", .integer 44 67108864),
      (str "contentDigest", .string 0 none (some digestPattern)),
      (str "chunkManifestDigest", .null)]

def audioUsageSchema : Schema :=
  .record
    [(str "inputUnit", .const (str "unicode_scalar")),
      (str "inputUnits", .integer 1 100000),
      (str "outputUnit", .const (str "audio_millisecond")),
      (str "outputUnits", .integer 1 86400000)]

def audioTtsResultSchema : Schema :=
  .record
    [(str "schemaVersion", .const audioTtsResultSchemaVersion),
      (str "contractId", .uuid),
      (str "requestDigest", .string 0 none (some digestPattern)),
      (str "parts", .array 1 1 audioPartSchema),
      (str "usage", audioUsageSchema),
      (str "finishReason", .const (str "stop")),
      (str "nonce", .string 0 none (some noncePattern))]

def artifactSchema : Schema :=
  .record
    [(str "sha256", .string 0 none (some digestPattern)),
      (str "contentType", .string 1 (some 200) none),
      (str "byteSize", .string 0 none (some byteSizePattern))]

def multimodalResultSchema : Schema :=
  .record
    [(str "schemaVersion", .const multimodalResultSchemaVersion),
      (str "contractId", .uuid),
      (str "calculatorType", .enum multimodalCalculators),
      (str "actualUsage", .object),
      (str "artifacts", .array 1 256 artifactSchema)]

/-! ## Manifests -/

/-- A kind of result manifest: its schema, and the domain of its digest. -/
structure ResultKind where
  schema : Schema
  domain : Str

def computeResult : ResultKind := ⟨resultSchema, resultSchemaVersion⟩

def audioTtsResult : ResultKind := ⟨audioTtsResultSchema, audioTtsResultSchemaVersion⟩

def multimodalResult : ResultKind := ⟨multimodalResultSchema, resultDigestDomain⟩

/-- A valid manifest with its canonical bytes. -/
structure ResultManifest (codec : ManifestCodec) (kind : ResultKind) where
  value : Json.Object
  valid : kind.schema.validates codec.isUuid (.obj value) = true
  bytes : List ℕ
  canonical : codec.canonical (.obj value) = some bytes

variable {codec : ManifestCodec} {kind : ResultKind}

def ResultManifest.parse (codec : ManifestCodec) (kind : ResultKind) :
    Json → Option (ResultManifest codec kind)
  | .obj value =>
    if valid : kind.schema.validates codec.isUuid (.obj value) = true then
      match h : codec.canonical (.obj value) with
      | some bytes => some ⟨value, valid, bytes, h⟩
      | none => none
    else none
  | _ => none

/-- `sha256(domain + b"\x00" + canonical_json(value))`. -/
def ResultManifest.digest (m : ResultManifest codec kind) : Str :=
  codec.sha256 (kind.domain ++ 0 :: m.bytes)

/-- A manifest is parsed from its own value. -/
theorem ResultManifest.parse_eq_some_iff {v : Json} {m : ResultManifest codec kind} :
    ResultManifest.parse codec kind v = some m ↔ v = .obj m.value := by
  constructor
  · intro h
    unfold parse at h
    split at h
    · split at h
      · split at h
        · cases h
          rfl
        · cases h
      · cases h
    · cases h
  · rintro rfl
    obtain ⟨value, valid, bytes, canonical⟩ := m
    unfold parse
    dsimp only
    rw [dif_pos valid]
    split
    · rename_i bytes' h
      rw [canonical] at h
      cases h
      rfl
    · rename_i h
      rw [canonical] at h
      cases h

/-- `manifest["key"]`. -/
def ResultManifest.member (m : ResultManifest codec kind) (key : String) : Json :=
  (Json.lookup (str key) m.value).getD .null

namespace ComputeResultManifest

def fields (contractId requestDigest text finishReason : Str) (nonce : List ℕ) : Json.Object :=
  [(str "schemaVersion", .str resultSchemaVersion),
    (str "contractId", .str contractId),
    (str "requestDigest", .str requestDigest),
    (str "parts", .arr [.obj [(str "type", .str (str "text")), (str "text", .str text)]]),
    (str "finishReason", .str finishReason),
    (str "nonce", .str (Base64Url.encode nonce))]

/-- `nonce` is what `secrets.token_bytes(16)` returned. -/
def create (codec : ManifestCodec) (contractId requestDigest text finishReason : Str)
    (nonce : List ℕ) : Option (ResultManifest codec computeResult) :=
  ResultManifest.parse codec computeResult (.obj (fields contractId requestDigest text finishReason nonce))

end ComputeResultManifest

namespace AudioTtsResultManifest

def fields (contractId requestDigest : Str) (sizeBytes : ℕ) (contentDigest : Str)
    (inputUnits outputUnits : ℤ) (nonce : List ℕ) : Json.Object :=
  [(str "schemaVersion", .str audioTtsResultSchemaVersion),
    (str "contractId", .str contractId),
    (str "requestDigest", .str requestDigest),
    (str "parts", .arr [.obj
      [(str "type", .str (str "artifact")),
        (str "artifactId", .str (str "audio-0")),
        (str "mediaType", .str (str "audio/wav")),
        (str "sizeBytes", .int sizeBytes),
        (str "contentDigest", .str contentDigest),
        (str "chunkManifestDigest", .null)]]),
    (str "usage", .obj
      [(str "inputUnit", .str (str "unicode_scalar")),
        (str "inputUnits", .int inputUnits),
        (str "outputUnit", .str (str "audio_millisecond")),
        (str "outputUnits", .int outputUnits)]),
    (str "finishReason", .str (str "stop")),
    (str "nonce", .str (Base64Url.encode nonce))]

def create (codec : ManifestCodec) (contractId requestDigest : Str) (sizeBytes : ℕ)
    (contentDigest : Str) (inputUnits outputUnits : ℤ) (nonce : List ℕ) :
    Option (ResultManifest codec audioTtsResult) :=
  ResultManifest.parse codec audioTtsResult
    (.obj (fields contractId requestDigest sizeBytes contentDigest inputUnits outputUnits nonce))

end AudioTtsResultManifest

/-! ## Actual usage -/

/-- The modality and the units of a calculator. -/
def calculatorContracts : List (Str × Str × Str × Str) :=
  [(str "tts_v1", str "audio_tts", str "unicode_scalar", str "audio_millisecond"),
    (str "image_v1", str "image_generation", str "pixel", str "pixel"),
    (str "video_v1", str "video_generation", str "pixel_millisecond", str "pixel_millisecond")]

/-- `_integer`: an integer, not a boolean, of at least `minimum`. -/
def isInteger (minimum : ℤ) (v : Json) : Bool := v.int?.any fun i => minimum ≤ i

/-- `_decimal`: canonical base-10 text. -/
def isDecimal (positive : Bool) (v : Json) : Bool :=
  v.str?.any fun s =>
    s ≠ [] && s.all (fun c => 48 ≤ c && c ≤ 57) && !(1 < s.length && s.head? == some 48) &&
      !(positive && s == [48])

/-- `item[name]` passes a check. -/
def checked (item : Json.Object) (name : String) (check : Json → Bool) : Bool :=
  (Json.lookup (str name) item).any check

def validateActualUsage (calculatorType : Str) (value : Json) : Option Json.Object :=
  match value with
  | .obj item =>
    if calculatorType = str "tts_v1" then
      if Json.keysEq item (["outputDurationMs"].map str) &&
          checked item "outputDurationMs" (isInteger 1) then some item
      else none
    else if calculatorType = str "image_v1" then
      if Json.keysEq item (["outputPixels", "imageCount"].map str) &&
          checked item "outputPixels" (isDecimal true) &&
          checked item "imageCount" (isInteger 1) then some item
      else none
    else if calculatorType = str "video_v1" then
      if Json.keysEq item (["outputPixelMilliseconds", "videoCount", "audioDurationMs"].map str) &&
          checked item "outputPixelMilliseconds" (isDecimal true) &&
          checked item "audioDurationMs" (isDecimal false) &&
          checked item "videoCount" (isInteger 1) then some item
      else none
    else none
  | _ => none

namespace MultimodalResultManifest

def fields (contractId calculatorType : Str) (actualUsage : Json.Object)
    (artifacts : List Json.Object) : Json.Object :=
  [(str "schemaVersion", .str multimodalResultSchemaVersion),
    (str "contractId", .str contractId),
    (str "calculatorType", .str calculatorType),
    (str "actualUsage", .obj actualUsage),
    (str "artifacts", .arr (artifacts.map .obj))]

def create (codec : ManifestCodec) (contractId calculatorType : Str) (actualUsage : Json.Object)
    (artifacts : List Json.Object) : Option (ResultManifest codec multimodalResult) :=
  ResultManifest.parse codec multimodalResult
    (.obj (fields contractId calculatorType actualUsage artifacts))

end MultimodalResultManifest

end AI2Apps.ModelSharing
