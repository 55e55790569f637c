import AI2Apps.Peer.Grants
import AI2Apps.Peer.Repository

/-!
# Single use of Peer Grants

An inbound request is authorized by `verifyPeerGrant` and then `consumeGrantJti`,
with the grant's own expiry as the stored expiry.  A grant is accepted for 30
seconds after it expires, but its row is deleted from the very second of expiry
on, so within that skew every presentation is admitted again.

`grantedCount_le_one_iff` is the exact law over all runs of attempts: a `jti` is
granted at most once exactly when no accepted attempt after the first comes at
or after the second at which the first one's grant expires.
-/

namespace AI2Apps.Peer

open Clock

/-- An inbound request: when it arrives, the bearer, and what it is checked against. -/
structure Attempt where
  now : DateTime
  compact : Str
  jwks : Json.Object
  session : PeerSession
  holderUserId : Str
  holderDeviceId : Str

/-- The `jti` and the expiry of the grant, when it is accepted at the attempt's
time.  The expiry of a grant accepted near the end of year 9999 has no datetime,
and such a request raises before it reaches the table. -/
def Attempt.verified (codec : JwtCodec) (a : Attempt) : Option (Str × DateTime) :=
  match verifyPeerGrant codec a.compact a.jwks a.session a.holderUserId a.holderDeviceId
      a.now.epochSeconds with
  | .error _ => none
  | .ok grant =>
    (fromtimestamp (intClaim grant.claims "exp")).map fun e => (strClaim grant.claims "jti", e)

/-- Verify the grant, then consume its `jti`; `none` when the request fails before that. -/
def attempt (codec : JwtCodec) (digest : JtiDigest) (table : ReplayTable) (a : Attempt) :
    Option Bool × ReplayTable :=
  match a.verified codec with
  | none => (none, table)
  | some (jti, expiresAt) =>
    let result := consumeGrantJti digest table a.now jti a.session.sessionId expiresAt
    (some result.1, result.2)

/-- The attempt presents a grant with this `jti` and the grant is accepted. -/
def Attempt.carries (codec : JwtCodec) (jti : Str) (a : Attempt) : Bool :=
  match a.verified codec with
  | none => false
  | some (j, _) => j = jti

/-- How often `consumeGrantJti` returns true among the accepted attempts with this `jti`. -/
def grantedCount (codec : JwtCodec) (digest : JtiDigest) (jti : Str) :
    ReplayTable → List Attempt → ℕ
  | _, [] => 0
  | table, a :: rest =>
    (if a.carries codec jti = true ∧ (attempt codec digest table a).1 = some true then 1 else 0) +
      grantedCount codec digest jti (attempt codec digest table a).2 rest

/-- The accepted attempts with this `jti`: when each came, and when its grant expires. -/
def accepted (codec : JwtCodec) (jti : Str) (attempts : List Attempt) :
    List (DateTime × DateTime) :=
  attempts.filterMap fun a =>
    (a.verified codec).bind fun p => if p.1 = jti then some (a.now, p.2) else none

/-- No accepted attempt after the first comes at or after the second at which
the first attempt's grant expires. -/
def AcceptedInTime (codec : JwtCodec) (jti : Str) (attempts : List Attempt) : Prop :=
  match accepted codec jti attempts with
  | [] => True
  | (_, expires) :: rest => ∀ p ∈ rest, p.1.epochSeconds < expires.epochSeconds

/-! ## The run as presentations to a replay cache -/

/-- What an attempt presents to the cache. -/
def Attempt.call (codec : JwtCodec) (digest : JtiDigest) (a : Attempt) :
    Option (ReplayCache.Call Str ℤ) :=
  (a.verified codec).map fun p => ⟨a.now.epochSeconds, digest.hexdigest p.1, p.2.epochSeconds⟩

section Runs

variable {codec : JwtCodec} {digest : JtiDigest} {jti : Str}

theorem Attempt.verified_whole {a : Attempt} {p : Str × DateTime}
    (h : a.verified codec = some p) : p.2.microsecond = 0 := by
  unfold Attempt.verified at h
  split at h
  · exact absurd h (by simp)
  · obtain ⟨e, he, rfl⟩ := Option.map_eq_some_iff.mp h
    exact (fromtimestamp_spec he).2

/-- An attempt accepted after its grant's expiry comes within the 30 seconds of skew. -/
theorem Attempt.verified_window {a : Attempt} {p : Str × DateTime}
    (h : a.verified codec = some p) : a.now.epochSeconds ≤ p.2.epochSeconds + 30 := by
  unfold Attempt.verified at h
  split at h
  · exact absurd h (by simp)
  · rename_i grant hgrant
    obtain ⟨e, he, rfl⟩ := Option.map_eq_some_iff.mp h
    rw [(fromtimestamp_spec he).1]
    exact (verifyPeerGrant_ok hgrant).2.2

theorem grantedCount_eq_admitted {attempts : List Attempt} {table : ReplayTable}
    {cache : List (Str × ℤ)} (h : Represents table cache) :
    grantedCount codec digest jti table attempts =
      ReplayCache.admitted (digest.hexdigest jti) cache
        (attempts.filterMap (Attempt.call codec digest)) := by
  induction attempts generalizing table cache with
  | nil => rfl
  | cons a rest ih =>
    cases hv : a.verified codec with
    | none => simp [grantedCount, attempt, Attempt.carries, Attempt.call, hv, ih h]
    | some p =>
      obtain ⟨hres, hrep⟩ := consumeGrantJti_refines digest a.now p.1 a.session.sessionId
        (Attempt.verified_whole hv) h
      have hcall : a.call codec digest =
          some ⟨a.now.epochSeconds, digest.hexdigest p.1, p.2.epochSeconds⟩ := by
        simp [Attempt.call, hv]
      rw [List.filterMap_cons_some hcall]
      simp only [grantedCount, ReplayCache.admitted, attempt, Attempt.carries, hv, ih hrep, hres,
        Option.some.injEq, decide_eq_true_eq, digest.injective.eq_iff]

theorem presentations_filterMap_call (attempts : List Attempt) :
    (ReplayCache.presentations (digest.hexdigest jti)
        (attempts.filterMap (Attempt.call codec digest))) =
      (accepted codec jti attempts).map fun p =>
        ⟨p.1.epochSeconds, digest.hexdigest jti, p.2.epochSeconds⟩ := by
  induction attempts with
  | nil => rfl
  | cons a rest ih =>
    cases hv : a.verified codec with
    | none =>
      have hcall : a.call codec digest = none := by simp [Attempt.call, hv]
      rw [List.filterMap_cons_none hcall, ih]
      simp [accepted, hv]
    | some p =>
      have hcall : a.call codec digest =
          some ⟨a.now.epochSeconds, digest.hexdigest p.1, p.2.epochSeconds⟩ := by
        simp [Attempt.call, hv]
      rw [List.filterMap_cons_some hcall]
      by_cases hj : p.1 = jti
      · rw [ReplayCache.presentations_cons_of_eq _ (by rw [hj]), ih]
        simp [accepted, hv, hj]
      · rw [ReplayCache.presentations_cons_of_ne _ (fun he => hj (digest.injective he)), ih]
        simp [accepted, hv, hj]

theorem inTime_iff (attempts : List Attempt) :
    ReplayCache.InTime (digest.hexdigest jti) (attempts.filterMap (Attempt.call codec digest)) ↔
      AcceptedInTime codec jti attempts := by
  rw [ReplayCache.InTime, AcceptedInTime, presentations_filterMap_call]
  cases accepted codec jti attempts with
  | nil => rfl
  | cons p rest =>
    simp only [List.map_cons, List.forall_mem_map]

theorem pairwise_call {attempts : List Attempt}
    (h : attempts.Pairwise fun a b => a.now.micros ≤ b.now.micros) :
    (attempts.filterMap (Attempt.call codec digest)).Pairwise fun c d => c.now ≤ d.now := by
  refine List.Pairwise.filterMap _ (fun a b hab c hc d hd => ?_) h
  obtain ⟨p, -, rfl⟩ := Option.map_eq_some_iff.mp hc
  obtain ⟨q, -, rfl⟩ := Option.map_eq_some_iff.mp hd
  simp only [DateTime.epochSeconds, DateTime.seconds]
  omega

end Runs

/-- **Single use, exactly.**  Over any run of attempts in time order that starts
with an empty table, a `jti` is granted at most once if and only if no accepted
attempt after the first comes at or after the expiry second of the first. -/
theorem grantedCount_le_one_iff (codec : JwtCodec) (digest : JtiDigest) (jti : Str)
    (attempts : List Attempt)
    (hsorted : attempts.Pairwise fun a b => a.now.micros ≤ b.now.micros) :
    grantedCount codec digest jti [] attempts ≤ 1 ↔ AcceptedInTime codec jti attempts := by
  have hempty : Represents [] [] := List.Forall₂.nil
  rw [grantedCount_eq_admitted hempty,
    ReplayCache.admitted_le_one_iff (pairwise_call hsorted) (by simp), inTime_iff]

/-! ## A replay inside the skew -/

namespace ReplayExample

/-- The canonical UUID `00000000-0000-4000-8000-0000000000dd`. -/
def id (dd : ℕ) : Str :=
  List.replicate 8 48 ++ 45 :: (List.replicate 4 48 ++ 45 :: 52 :: (List.replicate 3 48 ++
    45 :: 56 :: (List.replicate 3 48 ++ 45 :: TextOrder.decimal 12 dd)))

def buyer : PeerEndpoint := ⟨id 1, id 2, id 3, 1, id 4, 1⟩

def provider : PeerEndpoint := ⟨id 5, id 6, id 7, 1, id 8, 1⟩

def session : PeerSession where
  sessionId := id 9
  protocol := .modelShareV1
  purposeType := str "compute_contract"
  purposeId := id 10
  transportPolicy := ⟨[str "direct_quic"], 1000000, 1, 1⟩
  selfEndpoint := provider
  peerEndpoint := buyer

def header : Json.Object :=
  [(str "alg", .str (str "EdDSA")), (str "kid", .str (str "k1")), (str "typ", .str (str "JWT"))]

def jti : Str := id 11

/-- A grant issued at 1767225510, so that it expires at 2026-01-01T00:00:00Z. -/
def claims : Json.Object :=
  [(str "sub", .str buyer.userId), (str "jti", .str jti), (str "session_id", .str session.sessionId),
    (str "holder_user_id", .str buyer.userId), (str "holder_device_id", .str buyer.deviceId),
    (str "initiator_user_id", .str buyer.userId), (str "initiator_device_id", .str buyer.deviceId),
    (str "initiator_installation_id", .str buyer.installationId),
    (str "initiator_key_id", .str buyer.keyId), (str "recipient_user_id", .str provider.userId),
    (str "recipient_device_id", .str provider.deviceId),
    (str "recipient_installation_id", .str provider.installationId),
    (str "recipient_key_id", .str provider.keyId), (str "iat", .int 1767225510),
    (str "nbf", .int 1767225505), (str "exp", .int 1767225600),
    (str "initiator_access_epoch", .int 1), (str "initiator_key_epoch", .int 1),
    (str "recipient_access_epoch", .int 1), (str "recipient_key_epoch", .int 1),
    (str "max_streams", .int 1), (str "policy_version", .int 1),
    (str "iss", .str (str "ai2apps-cloud")), (str "aud", .str (str "ai2apps-model-share-peer-v1")),
    (str "protocol", .str (str "model-share-v1")), (str "protocol_version", .int 1),
    (str "purpose_id", .str session.purposeId), (str "purpose_type", .str (str "compute_contract")),
    (str "allowed_transports", .arr [.str (str "direct_quic")]),
    (str "max_bytes", .str (str "1000000"))]

def jwks : Json.Object :=
  [(str "keys", .arr [.obj [(str "kty", .str (str "OKP")), (str "crv", .str (str "Ed25519")),
    (str "x", .str (str "x")), (str "alg", .str (str "EdDSA")), (str "kid", .str (str "k1")),
    (str "use", .str (str "sig"))]])]

def codec : JwtCodec where
  decodeSegment segment :=
    if segment = str "h" then some (.obj header)
    else if segment = str "c" then some (.obj claims) else none
  verifySignature _ signature message := signature = str "s" && message = str "h.c"

def digest : JtiDigest := ⟨fun s => s, fun _ _ h => h⟩

/-- The grant presented the given number of seconds after its expiry. -/
def presentedAfter (seconds : ℕ) (h : (63902822400 + seconds) * 1000000 < 3652059 * 86400 * 1000000) :
    Attempt where
  now := ⟨(63902822400 + seconds) * 1000000, h⟩
  compact := str "h.c.s"
  jwks := jwks
  session := session
  holderUserId := buyer.userId
  holderDeviceId := buyer.deviceId

def replay : List Attempt := [presentedAfter 1 (by decide), presentedAfter 2 (by decide)]

/-- The grant is accepted one and two seconds after it expired, and both times granted. -/
theorem grantedCount_replay : grantedCount codec digest jti [] replay = 2 := by
  decide +kernel

end ReplayExample

/-- A run at which the grant is used twice: single use fails as stated. -/
theorem single_use_fails : ¬ ∀ (codec : JwtCodec) (digest : JtiDigest) (jti : Str)
    (attempts : List Attempt), (attempts.Pairwise fun a b => a.now.micros ≤ b.now.micros) →
      grantedCount codec digest jti [] attempts ≤ 1 := by
  intro h
  have h2 := h ReplayExample.codec ReplayExample.digest ReplayExample.jti ReplayExample.replay
    (by decide)
  rw [ReplayExample.grantedCount_replay] at h2
  exact absurd h2 (by decide)

/-- The law at that run: the second attempt is not in time. -/
theorem grantedCount_le_one_iff_replay :
    ¬ AcceptedInTime ReplayExample.codec ReplayExample.jti ReplayExample.replay := by
  rw [← grantedCount_le_one_iff ReplayExample.codec ReplayExample.digest ReplayExample.jti
    ReplayExample.replay (by decide), ReplayExample.grantedCount_replay]
  decide

end AI2Apps.Peer
