import AI2Apps.Knowledge.Store
import AI2Apps.Lib.Json
import Mathlib.Data.List.Sort
import Mathlib.Data.Nat.Cast.Defs

/-!
# Lexical search and the recheck of semantic candidates

The queries of `knowledge/store.py`: `search`, over the lexical index joined with the
items, and `hydrate_semantic_hit`, which turns an item a vector backend proposes into
a hit.  Scores are numbers of a linear order `R`; what the lexical index matches,
ranks and quotes is `Fts5`, and the Unicode tables are `Unicode`.

* `Library`: the tables that are read.
* `Library.satisfies`: the conditions that the two queries share.
* `Library.search`, `Library.hydrateSemanticHit`.
-/

namespace AI2Apps.Knowledge

open TextOrder (isWhitespace strip)

/-! ## What is read -/

/-- An item, joined with its representation of ordinal 0. Times are ISO 8601 texts. -/
structure ItemRow where
  id : Str
  spaceId : Str
  installationId : Str
  ownerUserId : Str
  createdByUserId : Str
  visibility : KnowledgeScope
  kind : ItemKind
  title : Str
  text : Str
  sourceTime : Option Str
  sourceAppId : Option Str
  sourceSessionId : Option Str
  sourceUrl : Option Str
  status : ItemStatus
  revision : ℤ
  createdAt : Str
  updatedAt : Str
  deletedAt : Option Str

/-- A row of `knowledge_fts`: the title is the one the item had when the chunk was written. -/
structure Document where
  title : Str
  text : Str

/-- A chunk, joined with its row of the lexical index. -/
structure IndexedChunk where
  itemId : Str
  document : Document
  metadata : Json.Object

structure KnowledgeTag where
  id : Str
  normalizedKey : Str
  displayName : Str
  ownerUserId : Str
  visibility : KnowledgeScope
  isActive : Bool

structure ItemTag where
  itemId : Str
  tagId : Str
  isActive : Bool

structure SourceFacet where
  itemId : Str
  facetKey : Str
  value : Str

structure Library where
  items : Table ItemRow ItemRow.id
  chunks : List IndexedChunk
  tags : Table KnowledgeTag KnowledgeTag.id
  itemTags : List ItemTag
  facets : List SourceFacet
  buckets : Table Bucket Bucket.id
  bucketItems : List BucketItem

/-- Full-text search over one table: `MATCH` and `snippet` look at one row, `bm25` weighs
it against all of them. -/
structure Fts5 (R : Type) where
  isMatch : Str → Document → Bool
  bm25 : Str → List Document → Document → R
  snippet : Str → Document → Str

structure Unicode where
  nfkc : Str → Str
  casefold : Str → Str
  isWord : ℕ → Bool
  digit? : ℕ → Option ℕ

structure KnowledgeSearchHit (R : Type) where
  item : ItemRow
  excerpt : Str
  rank : R
  tags : List KnowledgeTag
  sourceFacets : List (Str × Str)
  location : Option Json.Object

/-- The filters of a search; the times are `isoformat` texts. -/
structure Filters where
  scope : Option KnowledgeScope
  kind : Option Str
  tags : List Str
  bucketIds : List Str
  sourceAppId : Option Str
  sourceSessionId : Option Str
  sourceAfter : Option Str
  sourceBefore : Option Str

/-! ## Texts -/

/-- The maximal runs of characters that satisfy `p`. -/
def runsOf (p : ℕ → Bool) (value : Str) : List Str :=
  (value.splitOnP fun c => !p c).filter (· ≠ [])

/-- `_TAG_SPACE.sub(" ", value)`. -/
def collapseSpace : Str → Str
  | [] => []
  | c :: rest =>
    if isWhitespace c then
      if rest.head?.any isWhitespace then collapseSpace rest else 32 :: collapseSpace rest
    else c :: collapseSpace rest

/-- `_normalize_tag`. -/
def normalizeTag (unicode : Unicode) (value : Str) : Str :=
  collapseSpace (unicode.casefold (strip (unicode.nfkc value)))

/-- `f'"{token.replace(chr(34), chr(34) * 2)}"'`. -/
def quoteToken (token : Str) : Str :=
  34 :: (token.flatMap fun c => if c = 34 then [34, 34] else [c]) ++ [34]

/-- `_fts_query`: literal token matching, not raw query syntax. -/
def ftsQuery (value : Str) (operator : String) : Str :=
  (str (" " ++ operator ++ " ")).intercalate
    ((runsOf (fun c => !isWhitespace c) value).map quoteToken)

/-- `_lexical_terms`. -/
def lexicalTerms (unicode : Unicode) (value : Str) : List Str :=
  (runsOf unicode.isWord (unicode.casefold (unicode.nfkc value))).dedup

def ItemKind.value : ItemKind → Str
  | .webpage => str "webpage"
  | .document => str "document"
  | .image => str "image"
  | .audio => str "audio"
  | .video => str "video"
  | .chat => str "chat"
  | .artifact => str "artifact"
  | .note => str "note"

/-- `ALLOWED_KINDS`. -/
def allowedKinds : List Str :=
  [ItemKind.webpage, .document, .image, .audio, .video, .chat, .artifact, .note].map ItemKind.value

/-! ## Conditions -/

/-- The item is ready, not deleted and of the principal's installation, and it is the
principal's own or shared. -/
def accessible (principal : RequestPrincipal) (item : ItemRow) : Bool :=
  item.installationId = principal.installationId && item.status = .ready &&
    item.deletedAt.isNone &&
    (item.ownerUserId = principal.actorUserId || item.visibility = .installation)

/-- A tag that the principal sees: `t.visibility = 'installation' OR t.owner_user_id = ?`. -/
def visibleTag (principal : RequestPrincipal) (tag : KnowledgeTag) : Bool :=
  tag.visibility = .installation || tag.ownerUserId = principal.actorUserId

/-- The tags that are assigned to an item. -/
def Library.assigned (library : Library) (principal : RequestPrincipal) (itemId : Str) :
    List KnowledgeTag :=
  (library.itemTags.filter fun it => it.itemId = itemId && it.isActive).filterMap fun it =>
    (library.tags.get? it.tagId).filter (visibleTag principal)

def Library.inBucket (library : Library) (bucketIds : List Str) (itemId : Str) : Bool :=
  library.bucketItems.any fun row => row.itemId = itemId && row.bucketId ∈ bucketIds

/-- The filters on columns of the item. -/
def Filters.onItem (filters : Filters) (item : ItemRow) : Bool :=
  filters.scope.all (fun scope => item.visibility = scope) &&
  filters.kind.all (fun kind => item.kind.value = kind) &&
  filters.sourceAppId.all (fun app => item.sourceAppId = some app) &&
  filters.sourceSessionId.all (fun session => item.sourceSessionId = some session) &&
  filters.sourceAfter.all (fun time => time ≤ item.sourceTime.getD item.updatedAt) &&
  filters.sourceBefore.all (fun time => item.sourceTime.getD item.updatedAt ≤ time)

/-- The filters that other tables decide. -/
def Library.onTables (library : Library) (unicode : Unicode) (principal : RequestPrincipal)
    (filters : Filters) (itemId : Str) : Bool :=
  ((filters.tags.filter fun tag => strip tag ≠ []).all fun tag =>
    (library.assigned principal itemId).any fun t => t.normalizedKey = normalizeTag unicode tag) &&
  (filters.bucketIds = [] || library.inBucket filters.bucketIds itemId)

/-- The clauses of both queries. -/
def Library.satisfies (library : Library) (unicode : Unicode) (principal : RequestPrincipal)
    (filters : Filters) (item : ItemRow) : Bool :=
  accessible principal item && filters.onItem item &&
    library.onTables unicode principal filters item.id

/-- `_visible_bucket_row` finds each of the buckets. -/
def Library.bucketsVisible (library : Library) (principal : RequestPrincipal)
    (bucketIds : List Str) : Bool :=
  bucketIds.all fun id => (library.buckets.get? id).any (visibleBucket principal)

/-- `_tags_for_item`. -/
def Library.tagsForItem (library : Library) (principal : RequestPrincipal) (itemId : Str) :
    List KnowledgeTag :=
  ((library.assigned principal itemId).filter KnowledgeTag.isActive).insertionSort fun a b =>
    a.displayName < b.displayName ∨ a.displayName = b.displayName ∧ a.id ≤ b.id

/-- `_facets_for_item`. -/
def Library.facetsForItem (library : Library) (itemId : Str) : List (Str × Str) :=
  ((library.facets.filter fun f => f.itemId = itemId).map fun f =>
    (f.facetKey, f.value)).insertionSort fun a b => a.1 < b.1 ∨ a.1 = b.1 ∧ a.2 ≤ b.2

/-! ## Lexical search -/

section Lexical

variable {R : Type} [LinearOrder R]

/-- A row of the query of `search`. -/
structure MatchedRow (R : Type) where
  item : ItemRow
  chunk : IndexedChunk
  ftsRank : R

/-- The row of a chunk, when it matches and its item satisfies the conditions. -/
def Library.matched (library : Library) (unicode : Unicode) (fts : Fts5 R)
    (principal : RequestPrincipal) (filters : Filters) (query : Str) (chunk : IndexedChunk) :
    Option (MatchedRow R) :=
  if fts.isMatch query chunk.document then
    ((library.items.get? chunk.itemId).filter
      (library.satisfies unicode principal filters)).map fun item =>
        ⟨item, chunk, fts.bm25 query (library.chunks.map IndexedChunk.document) chunk.document⟩
  else none

/-- `ORDER BY fts_rank, i.updated_at DESC, i.id`. -/
def MatchedRow.before (a b : MatchedRow R) : Prop :=
  a.ftsRank < b.ftsRank ∨ a.ftsRank = b.ftsRank ∧
    (b.item.updatedAt < a.item.updatedAt ∨
      a.item.updatedAt = b.item.updatedAt ∧ a.item.id ≤ b.item.id)

instance (a b : MatchedRow R) : Decidable (a.before b) := inferInstanceAs (Decidable (_ ∨ _))

/-- The query of `search`. -/
def Library.select (library : Library) (unicode : Unicode) (fts : Fts5 R)
    (principal : RequestPrincipal) (filters : Filters) (query : Str) (limit : ℕ) :
    List (MatchedRow R) :=
  ((library.chunks.filterMap (library.matched unicode fts principal filters query)).insertionSort
    MatchedRow.before).take limit

/-- A recalled row shares two terms with the query, or its only one. -/
def sharesTerms (unicode : Unicode) (query : Str) (row : MatchedRow R) : Bool :=
  let queryTerms := lexicalTerms unicode query
  let rowTerms := lexicalTerms unicode (row.item.title ++ 32 :: row.item.text)
  min 2 queryTerms.length ≤ (queryTerms.filter fun term => term ∈ rowTerms).length

/-- The rows of `search` and the query that found them: `AND`, and only if that finds
nothing `OR`. -/
def Library.rowsFor (library : Library) (unicode : Unicode) (fts : Fts5 R)
    (principal : RequestPrincipal) (filters : Filters) (query : Str) (limit : ℕ) :
    Str × List (MatchedRow R) :=
  let exact := ftsQuery query "AND"
  let recalled := ftsQuery query "OR"
  match library.select unicode fts principal filters exact limit with
  | [] =>
    if recalled ≠ exact then
      (recalled, (library.select unicode fts principal filters recalled limit).filter
        (sharesTerms unicode query))
    else (exact, [])
  | row :: rows => (exact, row :: rows)

/-- The first row of each item. -/
def firstRows (seen : List Str) : List (MatchedRow R) → List (MatchedRow R)
  | [] => []
  | row :: rows =>
    if row.item.id ∈ seen then firstRows seen rows
    else row :: firstRows (row.item.id :: seen) rows

def Library.lexicalHit (library : Library) (fts : Fts5 R) (principal : RequestPrincipal)
    (query : Str) (row : MatchedRow R) : KnowledgeSearchHit R where
  item := row.item
  excerpt := fts.snippet query row.chunk.document
  rank := row.ftsRank
  tags := library.tagsForItem principal row.item.id
  sourceFacets := library.facetsForItem row.item.id
  location := some row.chunk.metadata

def bucketNotFound : Error := .notFound (str "knowledge bucket not found")

/-- `search`. -/
def Library.search (library : Library) (unicode : Unicode) (fts : Fts5 R)
    (principal : RequestPrincipal) (query : Str) (filters : Filters) (limit : ℤ) :
    Except Error (List (KnowledgeSearchHit R)) :=
  if ftsQuery query "AND" = [] then .ok []
  else if ¬(1 ≤ limit ∧ limit ≤ 100) then
    .error (.value (str "limit must be between 1 and 100"))
  else if !library.bucketsVisible principal filters.bucketIds then .error bucketNotFound
  else
    let found := library.rowsFor unicode fts principal filters query (min 400 (limit * 4)).toNat
    .ok (((firstRows [] found.2).take limit.toNat).map
      (library.lexicalHit fts principal found.1))

end Lexical

/-! ## Semantic candidates -/

structure VectorSearchCandidate (R : Type) where
  chunkId : Str
  itemId : Str
  text : Str
  distance : R

/-- The run after the first of the starts that one follows: `re.search` of
`(?:start|...)(group+)`. -/
def searchAfter (starts : List Str) (inGroup : ℕ → Bool) : Str → Option Str
  | [] => none
  | c :: rest =>
    match starts.findSome? fun start =>
        if start.isPrefixOf (c :: rest) then
          some (((c :: rest).drop start.length).takeWhile inGroup)
        else none with
    | some (d :: run) => some (d :: run)
    | _ => searchAfter starts inGroup rest

/-- `int(...)` of decimal digits. -/
def Unicode.int (unicode : Unicode) (digits : Str) : ℤ :=
  digits.foldl (fun n c => n * 10 + ((unicode.digit? c).getD 0 : ℕ)) 0

/-- A character of `[^·\]\n]`. -/
def inLabel (c : ℕ) : Bool := c ≠ 183 && c ≠ 93 && c ≠ 10

/-- `_location_from_excerpt`. -/
def locationFromExcerpt (unicode : Unicode) (excerpt : Str) : Option Json.Object :=
  let number (key start : String) : Json.Object :=
    ((searchAfter [str start] (fun c => (unicode.digit? c).isSome) excerpt).map fun digits =>
      (str key, Json.int (unicode.int digits))).toList
  let label (key : String) (word : String) : Json.Object :=
    ((searchAfter [91 :: str word, 183 :: 32 :: str word] inLabel excerpt).map fun text =>
      (str key, Json.str (strip text))).toList
  let location := number "page" "[Page " ++ number "slide" "[Slide " ++
    label "sheet" "Sheet " ++ label "cell_range" "Cells "
  if location = [] then none else some location

/-- `hydrate_semantic_hit`: a backend can propose an item, but only this query can turn
it into a visible hit. -/
def Library.hydrateSemanticHit {R : Type} (library : Library) (unicode : Unicode)
    (principal : RequestPrincipal) (candidate : VectorSearchCandidate R) (filters : Filters) :
    Except Error (Option (KnowledgeSearchHit R)) :=
  if filters.kind.any fun kind => kind ∉ allowedKinds then
    .error (.value (str "unsupported knowledge kind: " ++ filters.kind.getD []))
  else if !library.bucketsVisible principal filters.bucketIds then .error bucketNotFound
  else
    .ok (((library.items.get? candidate.itemId).filter
      (library.satisfies unicode principal filters)).map fun item => {
        item := item
        -- The complete candidate is kept, so that a relevant sentence near the end of
        -- the chunk is not discarded.
        excerpt := candidate.text.take 2400
        rank := candidate.distance
        tags := library.tagsForItem principal item.id
        sourceFacets := library.facetsForItem item.id
        location := locationFromExcerpt unicode candidate.text })

end AI2Apps.Knowledge
