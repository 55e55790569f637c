import AI2Apps.Core.Clock
import AI2Apps.Lib.Json

/-!
# Peer Session Grants

`verifyPeerGrant` is the strict validation of a compact Cloud grant: JOSE
header, signing key, signature, the exact claims set, every binding to the Peer
Session, and last the lifetime and the validity window.  Decoding a JWT segment
and the Ed25519 check are parameters (`JwtCodec`).

`verifyPeerGrant_ok` is the specification the replay defence uses: what an
accepted grant carries and between which clock values it is accepted.
-/

namespace AI2Apps.Peer

/-- The protocols a Peer Session can authorize. -/
inductive PeerProtocol where
  | messagerV2
  | modelShareV1
  | checkpointV1
  deriving DecidableEq

def PeerProtocol.value : PeerProtocol → Str
  | .messagerV2 => str "messager-v2"
  | .modelShareV1 => str "model-share-v1"
  | .checkpointV1 => str "checkpoint-v1"

def PeerProtocol.audience : PeerProtocol → Str
  | .messagerV2 => str "ai2apps-messager-peer-v2"
  | .modelShareV1 => str "ai2apps-model-share-peer-v1"
  | .checkpointV1 => str "ai2apps-checkpoint-peer-v1"

structure PeerEndpoint where
  userId : Str
  deviceId : Str
  installationId : Str
  accessEpoch : ℤ
  keyId : Str
  keyEpoch : ℤ

structure PeerTransportPolicy where
  allowedTransports : List Str
  maxBytes : ℕ
  maxStreams : ℤ
  policyVersion : ℤ

structure PeerSession where
  sessionId : Str
  protocol : PeerProtocol
  purposeType : Str
  purposeId : Str
  transportPolicy : PeerTransportPolicy
  selfEndpoint : PeerEndpoint
  peerEndpoint : PeerEndpoint

structure VerifiedPeerGrant where
  header : Json.Object
  claims : Json.Object
  compact : Str

/-- The parts of JWT validation outside the repository: decoding a base64url
JSON segment, and the Ed25519 check of a signature by the key member `x`. -/
structure JwtCodec where
  decodeSegment : Str → Option Json
  verifySignature : Option Json → Str → Str → Bool

def uuidClaims : List String :=
  ["sub", "jti", "session_id", "holder_user_id", "holder_device_id",
    "initiator_user_id", "initiator_device_id", "initiator_installation_id",
    "initiator_key_id", "recipient_user_id", "recipient_device_id",
    "recipient_installation_id", "recipient_key_id"]

def windowClaims : List String := ["iat", "nbf", "exp"]

def integerClaims : List String :=
  windowClaims ++ ["initiator_access_epoch", "initiator_key_epoch",
    "recipient_access_epoch", "recipient_key_epoch", "max_streams", "policy_version"]

def requiredClaims : List String :=
  uuidClaims ++ integerClaims ++ ["iss", "aud", "protocol", "protocol_version", "purpose_id",
    "purpose_type", "allowed_transports", "max_bytes"]

def decodeObject (codec : JwtCodec) (segment : Str) (name : String) :
    Except String Json.Object :=
  match codec.decodeSegment segment with
  | none => .error s!"JWT {name} is invalid"
  | some value =>
    match value.obj? with
    | none => .error s!"JWT {name} must be an object"
    | some o => .ok o

def isHexDigit (c : ℕ) : Bool := (48 ≤ c && c ≤ 57) || (97 ≤ c && c ≤ 102)

/-- The canonical text of a UUID: 32 lower-case hex digits in groups of 8, 4, 4, 4 and 12. -/
def isCanonicalUuid (value : Str) : Bool :=
  match List.splitOn 45 value with
  | [a, b, c, d, e] =>
    a.length == 8 && b.length == 4 && c.length == 4 && d.length == 4 && e.length == 12 &&
      (a ++ b ++ c ++ d ++ e).all isHexDigit
  | _ => false

def uuid (claims : Json.Object) (name : String) : Except String Unit :=
  match Json.lookup (str name) claims with
  | some (.str s) =>
    if isCanonicalUuid s then .ok () else .error s!"{name} must be a canonical UUID"
  | _ => .error s!"{name} must be a UUID"

def integerClaim (claims : Json.Object) (name : String) : Except String Unit :=
  match (Json.lookup (str name) claims).bind Json.int? with
  | none => .error s!"{name} must be an integer"
  | some value =>
    if name ∉ windowClaims ∧ value < 1 then .error s!"{name} must be positive" else .ok ()

/-- The endpoint claims of one side of the Session. -/
def endpointBound (claims : Json.Object) (side : String) (endpoint : PeerEndpoint) : Bool :=
  [("_user_id", Json.str endpoint.userId), ("_device_id", .str endpoint.deviceId),
    ("_installation_id", .str endpoint.installationId), ("_access_epoch", .int endpoint.accessEpoch),
    ("_key_id", .str endpoint.keyId), ("_key_epoch", .int endpoint.keyEpoch)].all
      fun expected => Json.memberEq claims (str side ++ str expected.1) expected.2

/-- The value of an integer claim whose type has been checked. -/
def intClaim (claims : Json.Object) (name : String) : ℤ :=
  ((Json.lookup (str name) claims).bind Json.int?).getD 0

/-- The value of a text claim whose type has been checked. -/
def strClaim (claims : Json.Object) (name : String) : Str :=
  ((Json.lookup (str name) claims).bind Json.str?).getD []

/-- `error` unless the check passes. -/
def require (check : Bool) (message : String) : Except String Unit :=
  if check then .ok () else .error message

/-- The one key of `jwks` whose id is the header's. -/
def signingKey (jwks header : Json.Object) : Except String Json.Object :=
  let kid := (Json.lookup (str "kid") header).getD .null
  let items := match Json.lookup (str "keys") jwks with
    | some (.arr items) => items
    | _ => []
  match (items.filterMap Json.obj?).filter fun item => Json.memberEq item (str "kid") kid with
  | [jwk] => .ok jwk
  | _ => .error "JWT signing key is unknown"

def jwkValid (jwk : Json.Object) : Bool :=
  (Json.keys jwk).all (fun k => k ∈ ["kty", "crv", "x", "alg", "kid", "use"].map str) &&
    [("kty", "OKP"), ("crv", "Ed25519"), ("alg", "EdDSA"), ("use", "sig")].all
      fun expected => Json.memberEq jwk (str expected.1) (.str (str expected.2))

def transportsValid (claims : Json.Object) : Bool :=
  match Json.lookup (str "allowed_transports") claims with
  | some (.arr items) => items.all fun item =>
      Json.pyEq item (.str (str "direct_quic")) || Json.pyEq item (.str (str "relay_https"))
  | _ => false

def maxBytesValid (claims : Json.Object) : Bool :=
  match Json.lookup (str "max_bytes") claims with
  | some (.str (c :: rest)) => c != 48 && (c :: rest).all fun d => 48 ≤ d && d ≤ 57
  | _ => false

/-- The bindings of the claims to the Session and the holder. -/
def sessionBound (claims : Json.Object) (session : PeerSession)
    (holderUserId holderDeviceId : Str) : Bool :=
  let policy := session.transportPolicy
  [("session_id", Json.str session.sessionId), ("purpose_type", .str session.purposeType),
    ("purpose_id", .str session.purposeId), ("holder_user_id", .str holderUserId),
    ("holder_device_id", .str holderDeviceId),
    ("allowed_transports", .arr (policy.allowedTransports.map .str)),
    ("max_bytes", .str (str (toString policy.maxBytes))), ("max_streams", .int policy.maxStreams),
    ("policy_version", .int policy.policyVersion)].all
      fun expected => Json.memberEq claims (str expected.1) expected.2

/-- The endpoints in the roles the claims give them. -/
def endpoints (claims : Json.Object) (session : PeerSession) :
    Except String (PeerEndpoint × PeerEndpoint) :=
  if Json.memberEq claims (str "initiator_device_id") (.str session.selfEndpoint.deviceId) then
    .ok (session.selfEndpoint, session.peerEndpoint)
  else if Json.memberEq claims (str "recipient_device_id") (.str session.selfEndpoint.deviceId) then
    .ok (session.peerEndpoint, session.selfEndpoint)
  else .error "JWT holder endpoint is not part of the Session"

/-- The lifetime of a grant is fixed, and the clocks may differ by 30 seconds. -/
def checkWindow (claims : Json.Object) (current : ℤ) : Except String Unit := do
  let iat := intClaim claims "iat"
  let nbf := intClaim claims "nbf"
  let exp := intClaim claims "exp"
  require (exp - iat == 90 && nbf == iat - 5) "JWT lifetime is invalid"
  require (iat ≤ current + 30 && nbf - 30 ≤ current && current ≤ exp + 30)
    "JWT is outside its validity window"

def verifyPeerGrant (codec : JwtCodec) (compact : Str) (jwks : Json.Object) (session : PeerSession)
    (holderUserId holderDeviceId : Str) (current : ℤ) : Except String VerifiedPeerGrant :=
  match List.splitOn 46 compact with
  | [first, second, third] => do
    require (!first.isEmpty && !second.isEmpty && !third.isEmpty)
      "JWT compact serialization is invalid"
    let header ← decodeObject codec first "header"
    let claims ← decodeObject codec second "claims"
    require (Json.keysEq header (["alg", "kid", "typ"].map str) &&
        Json.memberEq header (str "alg") (.str (str "EdDSA")) &&
        Json.memberEq header (str "typ") (.str (str "JWT")))
      "JWT protected header is invalid"
    let jwk ← signingKey jwks header
    require (jwkValid jwk) "JWT signing JWK is invalid"
    require (codec.verifySignature (Json.lookup (str "x") jwk) third (first ++ 46 :: second))
      "JWT signature is invalid"
    require (Json.keysEq claims (requiredClaims.map str)) "JWT claims set is invalid"
    uuidClaims.forM (uuid claims)
    integerClaims.forM (integerClaim claims)
    require (Json.memberEq claims (str "iss") (.str (str "ai2apps-cloud")) &&
        Json.memberEq claims (str "aud") (.str session.protocol.audience))
      "JWT issuer or audience is invalid"
    require (Json.memberEq claims (str "protocol") (.str session.protocol.value) &&
        Json.memberEq claims (str "protocol_version") (.int 1))
      "JWT protocol binding is invalid"
    require (Json.memberEq claims (str "sub")
        ((Json.lookup (str "holder_user_id") claims).getD .null))
      "JWT subject binding is invalid"
    require (sessionBound claims session holderUserId holderDeviceId)
      "JWT Session or holder binding is invalid"
    let (initiator, recipient) ← endpoints claims session
    require (endpointBound claims "initiator" initiator) "JWT initiator endpoint binding is invalid"
    require (endpointBound claims "recipient" recipient) "JWT recipient endpoint binding is invalid"
    require (transportsValid claims) "JWT allowed_transports is invalid"
    require (maxBytesValid claims) "JWT max_bytes is invalid"
    checkWindow claims current
    pure { header, claims, compact }
  | _ => .error "JWT compact serialization is invalid"

/-! ## What an accepted grant satisfies -/

theorem require_bind_ok {α : Type} {check : Bool} {message : String} {f : Unit → Except String α}
    {r : α} (h : (require check message >>= f) = .ok r) : check = true ∧ f () = .ok r := by
  unfold require at h
  cases check with
  | true => exact ⟨rfl, h⟩
  | false => exact absurd h (by simp [bind, Except.bind])

theorem bind_ok {α β : Type} {x : Except String α} {f : α → Except String β} {r : β}
    (h : (x >>= f) = .ok r) : ∃ a, x = .ok a ∧ f a = .ok r := by
  cases x with
  | error e => exact absurd h (by simp [bind, Except.bind])
  | ok a => exact ⟨a, rfl, h⟩

theorem checkWindow_ok {claims : Json.Object} {current : ℤ} {u : Unit}
    (h : checkWindow claims current = .ok u) :
    intClaim claims "exp" - intClaim claims "iat" = 90 ∧
      intClaim claims "iat" ≤ current + 30 ∧ current ≤ intClaim claims "exp" + 30 := by
  unfold checkWindow at h
  obtain ⟨hlife, h⟩ := require_bind_ok h
  unfold require at h
  split_ifs at h with hwindow
  simp only [Bool.and_eq_true, beq_iff_eq, decide_eq_true_eq] at hlife hwindow
  exact ⟨hlife.1, hwindow.1.1, hwindow.2⟩

/-- **Between which clock values a grant is accepted**: at most 30 seconds after
the second it expires. -/
theorem verifyPeerGrant_ok {codec : JwtCodec} {compact : Str} {jwks : Json.Object}
    {session : PeerSession} {holderUserId holderDeviceId : Str} {current : ℤ}
    {grant : VerifiedPeerGrant}
    (h : verifyPeerGrant codec compact jwks session holderUserId holderDeviceId current =
      .ok grant) :
    intClaim grant.claims "exp" - intClaim grant.claims "iat" = 90 ∧
      intClaim grant.claims "iat" ≤ current + 30 ∧ current ≤ intClaim grant.claims "exp" + 30 := by
  unfold verifyPeerGrant at h
  split at h
  · obtain ⟨-, h⟩ := require_bind_ok h
    obtain ⟨header, -, h⟩ := bind_ok h
    obtain ⟨claims, -, h⟩ := bind_ok h
    obtain ⟨-, h⟩ := require_bind_ok h
    obtain ⟨jwk, -, h⟩ := bind_ok h
    iterate 3 obtain ⟨-, h⟩ := require_bind_ok h
    iterate 2 obtain ⟨-, -, h⟩ := bind_ok h
    iterate 4 obtain ⟨-, h⟩ := require_bind_ok h
    obtain ⟨⟨initiator, recipient⟩, -, h⟩ := bind_ok h
    iterate 4 obtain ⟨-, h⟩ := require_bind_ok h
    obtain ⟨u, hwindow, h⟩ := bind_ok h
    obtain rfl := Except.ok.inj h
    exact checkWindow_ok hwindow
  · exact absurd h (by simp)

end AI2Apps.Peer
