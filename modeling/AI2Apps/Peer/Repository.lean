import AI2Apps.Core.Clock
import AI2Apps.Lib.ReplayCache
import Mathlib.Data.List.Forall2

/-!
# The replay table of Peer Grants

`consumeGrantJti` works on rows of text: it deletes the rows whose stored expiry
text is smaller than the canonical text of now, then inserts the digest of the
grant's `jti`, and reports the uniqueness violation as `false`.

The rows are an implementation of a replay cache keyed by digest whose times are
POSIX seconds.  `Represents` is the relation between the two, and
`consumeGrantJti_refines` says the operation keeps it and returns the same answer.
-/

namespace AI2Apps.Peer

open Clock

/-- The digest of a grant's `jti`.  SHA-256 is taken to be collision-free. -/
structure JtiDigest where
  hexdigest : Str → Str
  injective : Function.Injective hexdigest

structure ReplayRow where
  jtiDigest : Str
  sessionId : Str
  expiresAt : Str
  consumedAt : Str
  deriving DecidableEq

/-- The table `peer_replay_tokens`, whose primary key is the digest. -/
abbrev ReplayTable := List ReplayRow

def consumeGrantJti (digest : JtiDigest) (table : ReplayTable) (now : DateTime)
    (jti sessionId : Str) (expiresAt : DateTime) : Bool × ReplayTable :=
  let nowText := formatUtc now
  let kept := table.filter fun row => !decide (row.expiresAt < nowText)
  if kept.any fun row => row.jtiDigest = digest.hexdigest jti then
    -- the insert violates the primary key; the deletion is committed all the same
    (false, kept)
  else
    (true, kept ++ [⟨digest.hexdigest jti, sessionId, expiresAt.isoformat, nowText⟩])

/-! ## Refinement of a replay cache -/

/-- A row stands for a cache entry: the digest, and a whole second as text. -/
def RowRepresents (row : ReplayRow) (entry : Str × ℤ) : Prop :=
  row.jtiDigest = entry.1 ∧
    ∃ d : DateTime, d.microsecond = 0 ∧ row.expiresAt = d.isoformat ∧ entry.2 = d.epochSeconds

/-- The rows stand for the cache entries, in order. -/
def Represents (table : ReplayTable) (cache : List (Str × ℤ)) : Prop :=
  List.Forall₂ RowRepresents table cache

/-- The text comparison deletes exactly the entries the cache purges. -/
theorem Represents.purge {table : ReplayTable} {cache : List (Str × ℤ)} (now : DateTime)
    (h : Represents table cache) :
    Represents (table.filter fun row => !decide (row.expiresAt < formatUtc now))
      (ReplayCache.purge now.epochSeconds cache) := by
  induction h with
  | nil => exact List.Forall₂.nil
  | @cons row entry table cache hrow _ ih =>
    obtain ⟨hkey, d, hd, htext, hsec⟩ := hrow
    have hiff : (!decide (row.expiresAt < formatUtc now)) = decide (now.epochSeconds < entry.2) := by
      rw [htext, hsec, ← decide_not, decide_eq_decide, isoformat_lt_formatUtc_iff hd, not_le]
    simp only [ReplayCache.purge, List.filter_cons, hiff]
    split_ifs
    · exact List.Forall₂.cons ⟨hkey, d, hd, htext, hsec⟩ ih
    · exact ih

theorem Represents.knows {table : ReplayTable} {cache : List (Str × ℤ)} (key : Str)
    (h : Represents table cache) :
    (table.any fun row => row.jtiDigest = key) = ReplayCache.knows cache key := by
  induction h with
  | nil => rfl
  | cons hrow _ ih =>
    simp only [ReplayCache.knows, List.any_cons] at ih ⊢
    rw [ih, hrow.1]

/-- **The replay table refines the replay cache.** -/
theorem consumeGrantJti_refines (digest : JtiDigest) {table : ReplayTable}
    {cache : List (Str × ℤ)} (now : DateTime) (jti sessionId : Str) {expiresAt : DateTime}
    (hwhole : expiresAt.microsecond = 0) (h : Represents table cache) :
    let call : ReplayCache.Call Str ℤ :=
      ⟨now.epochSeconds, digest.hexdigest jti, expiresAt.epochSeconds⟩
    (consumeGrantJti digest table now jti sessionId expiresAt).1 =
        (ReplayCache.consume cache call).1 ∧
      Represents (consumeGrantJti digest table now jti sessionId expiresAt).2
        (ReplayCache.consume cache call).2 := by
  intro call
  have hpurge := h.purge now
  have hknows := hpurge.knows (digest.hexdigest jti)
  unfold consumeGrantJti ReplayCache.consume
  dsimp only
  rw [hknows]
  split_ifs
  · exact ⟨rfl, hpurge⟩
  · refine ⟨rfl, List.rel_append hpurge (List.Forall₂.cons ?_ List.Forall₂.nil)⟩
    exact ⟨rfl, expiresAt, hwhole, rfl, rfl⟩

end AI2Apps.Peer
