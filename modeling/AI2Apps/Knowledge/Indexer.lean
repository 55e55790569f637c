import AI2Apps.Knowledge.Store
import AI2Apps.Lib.JsonText

/-!
# The vector indexer

`knowledge/indexer.py` over `knowledge/backends/lancedb.py`: the change log is
replayed in batches into a table of vector records.  A sync reads its batch in one
transaction, with the present state of the items in it; it then deletes the items
that are gone, embeds and upserts the chunks of the others, and records how far it
came.  What lies outside, the embedding provider and the vector database, is given
by its answers, any of which may be a failure.

* `chunks`: the pieces of a text that are embedded.
* `upsert`, `deleteItems`: the backend adapter.
* `syncStart`, `syncWork`, `reset`: the operations of the indexer.
-/

namespace AI2Apps.Knowledge

open Clock Faults
open TextOrder (strip)
open JsonText (natText)

/-! ## Chunks -/

/-- `content.rfind(sub, start, end)`. -/
def rfind (content sub : Str) (start stop : ℕ) : ℤ :=
  match (List.range' start (stop + 1 - sub.length - start)).reverse.find? fun i =>
      (content.drop i).take sub.length = sub with
  | some i => i
  | none => -1

/-- Where a chunk ends: after the last line or sentence of its second half, if one ends there. -/
def chunkEnd (content : Str) (start : ℕ) : ℕ :=
  let limit := min content.length (start + 1800)
  if limit < content.length then
    let boundary := max (max (rfind content [10] (start + 900) limit)
      (rfind content [0x3002] (start + 900) limit)) (rfind content (str ". ") (start + 900) limit)
    if start < boundary then boundary.toNat + 1 else limit
  else limit

/-- The chunks from a start on, at most so many of them. -/
def chunksFrom (content : Str) : ℕ → ℕ → List Str
  | 0, _ => []
  | budget + 1, start =>
    if start < content.length then
      let stop := chunkEnd content start
      (content.drop start).take (stop - start) ::
        if content.length ≤ stop then []
        else chunksFrom content budget (max (start + 1) (stop - 200))
    else []

def maxChunksPerItem : ℕ := 512

/-- `_chunks`. -/
def chunks (title text : Str) : List Str :=
  chunksFrom (strip (strip title ++ [10, 10] ++ strip text)) maxChunksPerItem 0

/-! ## Vector records -/

structure VectorRecord where
  chunkId : Str
  itemId : Str
  installationId : Str
  ownerUserId : Str
  visibility : Str
  bucketIds : List Str
  text : Str
  vector : List FloatVal
  deriving DecidableEq

/-- The record without its vector. -/
def VectorRecord.bare (record : VectorRecord) : VectorRecord := { record with vector := [] }

/-- `i.status='ready' AND i.deleted_at IS NULL`. -/
def Item.active (item : Item) : Bool := item.status = .ready && item.deletedAt.isNone

/-- The buckets of an item, by position. -/
def bucketsOf (rows : List BucketItem) (itemId : Str) : List Str :=
  ((rows.filter fun row => row.itemId = itemId).insertionSort fun a b =>
    a.position ≤ b.position).map BucketItem.bucketId

/-- The chunks of an item by ordinal; without any, its text is the one chunk. -/
def sourceChunks (rows : List Chunk) (item : Item) : List (ℕ × Str) :=
  let own := (rows.filter fun row => row.itemId = item.id).insertionSort fun a b =>
    a.ordinal ≤ b.ordinal
  if own = [] then [(0, item.text)] else own.map fun row => (row.ordinal, row.text)

/-- What is pending for an item: the item, the ordinal and the text of a piece. -/
def pendingOf (rows : List Chunk) (item : Item) : List (Item × ℕ × Str) :=
  (sourceChunks rows item).flatMap fun source =>
    (chunks item.title source.2).zipIdx.map fun piece =>
      (item, source.1 * maxChunksPerItem + piece.2, piece.1)

def vectorRecord (rows : List BucketItem) (piece : Item × ℕ × Str) (vector : List FloatVal) :
    VectorRecord where
  chunkId := piece.1.id ++ 58 :: natText piece.2.1
  itemId := piece.1.id
  installationId := piece.1.installationId
  ownerUserId := piece.1.ownerUserId
  visibility := piece.1.visibility.value
  bucketIds := bucketsOf rows piece.1.id
  text := piece.2.2
  vector := vector

/-! ## The backend -/

/-- The table of a generation, once there is one. -/
abbrev VectorTable := Option (List VectorRecord)

def VectorTable.records (table : VectorTable) : List VectorRecord := table.getD []

/-- `merge_insert("chunk_id")`: matched rows are replaced, the others inserted. -/
def mergeInsert (rows records : List VectorRecord) : List VectorRecord :=
  (rows.filter fun row => row.chunkId ∉ records.map VectorRecord.chunkId) ++ records

/-- `table.delete("item_id IN ...")`. -/
def deleteWhere (rows : List VectorRecord) (itemIds : List Str) : List VectorRecord :=
  rows.filter fun row => row.itemId ∉ itemIds

/-- What a call of the vector database does: it succeeds, or raises after it has worked
on a part of its rows. -/
inductive Outcome where
  | done
  | raises (message : Str) (part : VectorRecord → Bool)

/-- What a sync meets outside: the answers of the embedding provider and of the
vector database to its calls, in their order. -/
structure Outside where
  embed : ℕ → List Str → Except Str (List (List FloatVal))
  upsert : ℕ → Outcome
  delete : Outcome

/-- The state of a sync at work, with the number of the calls it has made. -/
structure Work where
  table : VectorTable
  /-- The records that wait for the next upsert. -/
  records : List VectorRecord
  indexed : ℕ
  embeds : ℕ
  upserts : ℕ

/-- A program of a sync; an exception is its text. -/
abbrev Job (α : Type) := EStateM Str Work α

/-- `upsert`: create the table or merge into it. -/
def writeRecords (table : VectorTable) (records : List VectorRecord) : VectorTable :=
  match table with
  | none => some records
  | some rows => some (mergeInsert rows records)

/-- The database merges the records. -/
def callUpsert (outcome : Outcome) (records : List VectorRecord) : Job Unit := do
  let work ← get
  match outcome with
  | .done => set { work with table := writeRecords work.table records, upserts := work.upserts + 1 }
  | .raises message part =>
    set { work with table := writeRecords work.table (records.filter part) }
    throw (str "LanceDB upsert failed: " ++ message)

/-- `LanceDBVectorBackend.upsert`. -/
def upsert (dimension : ℕ) (outside : Outside) (records : List VectorRecord) : Job Unit := do
  let work ← get
  match records.find? fun record => record.vector.length ≠ dimension with
  | some record =>
    throw (str "vector dimension " ++ natText record.vector.length ++ str " does not match " ++
      natText dimension)
  | none =>
    only (records ≠ []) (callUpsert (outside.upsert work.upserts) records)

/-- The database deletes the rows of the items. -/
def callDelete (outcome : Outcome) (itemIds : List Str) : Job Unit := do
  let work ← get
  match outcome with
  | .done => set { work with table := work.table.map fun rows => deleteWhere rows itemIds }
  | .raises message part =>
    let kept : VectorRecord → Bool := fun row => !(row.itemId ∈ itemIds && part row)
    set { work with table := work.table.map (List.filter kept) }
    throw (str "LanceDB delete failed: " ++ message)

/-- `LanceDBVectorBackend.delete_items`: without a table there is nothing to delete. -/
def deleteItems (outside : Outside) (itemIds : List Str) : Job Unit := do
  let work ← get
  only (itemIds ≠ [] ∧ work.table.isSome = true) (callDelete outside.delete itemIds)

/-! ## The indexer -/

inductive IndexPhase where
  | indexing
  | ready
  | idle
  | error
  deriving DecidableEq

/-- The row of `knowledge_index_states` of the indexer's profile. -/
structure IndexState where
  generation : Str
  sequence : ℕ
  targetSequence : ℕ
  status : IndexPhase
  processedChanges : ℕ
  indexedChunks : ℕ
  lastError : Option Str

/-- How the indexer is set up: its generation, the dimension of its vectors, and
whether the database has the table of index states. -/
structure Profile where
  generation : Str
  dimension : ℕ
  isDurable : Bool

structure IndexSyncResult where
  sequence : ℕ
  changedItems : ℕ
  indexedChunks : ℕ
  deletedItems : ℕ

/-- What the transaction of a sync read. -/
structure Snapshot where
  sequence : ℕ
  target : ℕ
  itemIds : List Str
  activeRows : List Item
  chunkRows : List Chunk
  bucketRows : List BucketItem

/-- The authority, the vector table, and the indexer between the two. -/
structure System where
  store : Store
  table : VectorTable
  /-- `_sequence`. -/
  memory : ℕ
  state : Option IndexState
  /-- The sync that holds the lock. -/
  flight : Option Snapshot

/-- The sequence a sync starts from: another generation starts over. -/
def System.watermark (profile : Profile) (system : System) : ℕ :=
  if profile.isDurable then
    ((system.state.filter fun state => state.generation = profile.generation).map
      IndexState.sequence).getD 0
  else system.memory

/-- `_prepare_state`: the row of a sync that has begun. -/
def prepareState (profile : Profile) (target : ℕ) : Option IndexState → IndexState
  | some state =>
    if state.generation = profile.generation then
      { state with targetSequence := target, status := .indexing, lastError := none }
    else ⟨profile.generation, 0, target, .indexing, 0, 0, none⟩
  | none => ⟨profile.generation, 0, target, .indexing, 0, 0, none⟩

def takeSnapshot (store : Store) (before maxChanges : ℕ) : Snapshot :=
  let rows := (store.changeLog.drop before).take maxChanges
  let itemIds := (rows.map Change.itemId).eraseDups
  { sequence := before + rows.length
    target := store.changeLog.length
    itemIds := itemIds
    activeRows := store.items.rows.filter fun item => item.id ∈ itemIds && item.active
    chunkRows := store.chunks.rows.filter fun chunk => chunk.itemId ∈ itemIds
    bucketRows := store.bucketItems.rows.filter fun row => row.itemId ∈ itemIds }

/-- The transaction of a sync. It returns at once when the log has no more. -/
def syncStart (profile : Profile) (maxChanges : ℕ) (system : System) :
    System × Option IndexSyncResult :=
  let before := system.watermark profile
  let target := system.store.changeLog.length
  let state := if profile.isDurable then some (prepareState profile target system.state)
    else system.state
  if system.store.changeLog.drop before = [] then
    ({ system with
      memory := before
      state := if profile.isDurable then
          state.map fun state => { state with sequence := before, status := .ready }
        else state },
      some ⟨before, 0, 0, 0⟩)
  else
    ({ system with state := state, flight := some (takeSnapshot system.store before maxChanges) },
      none)

/-- The items of a batch that are gone. -/
def Snapshot.deleted (snapshot : Snapshot) : List Str :=
  snapshot.itemIds.filter fun id => id ∉ snapshot.activeRows.map Item.id

/-- The pieces of a batch. -/
def Snapshot.pending (snapshot : Snapshot) : List (Item × ℕ × Str) :=
  snapshot.activeRows.flatMap (pendingOf snapshot.chunkRows)

/-- Batches of so many, the last one shorter; at most as many as the bound. -/
def batchesFrom {α : Type} (size : ℕ) : ℕ → List α → List (List α)
  | 0, _ => []
  | bound + 1, items =>
    if items.isEmpty then [] else items.take size :: batchesFrom size bound (items.drop size)

def batches {α : Type} (size : ℕ) (items : List α) : List (List α) :=
  batchesFrom size items.length items

/-- One record more; a full batch of them is written. -/
def addRecord (dimension : ℕ) (outside : Outside) (record : VectorRecord) : Job Unit := do
  modify fun work => { work with records := work.records ++ [record] }
  let work ← get
  if 256 ≤ work.records.length then
    upsert dimension outside work.records
    modify fun work => { work with indexed := work.indexed + work.records.length, records := [] }
  else pure ()

/-- One batch of pieces is embedded. -/
def embedBatch (dimension : ℕ) (outside : Outside) (bucketRows : List BucketItem)
    (batch : List (Item × ℕ × Str)) : Job Unit := do
  let work ← get
  set { work with embeds := work.embeds + 1 }
  match outside.embed work.embeds (batch.map fun piece => piece.2.2) with
  | .error message => throw message
  | .ok vectors =>
    if vectors.length ≠ batch.length then
      throw (str "Embedding Provider returned an incomplete index batch")
    else
      forM (batch.zip vectors) fun entry =>
        addRecord dimension outside (vectorRecord bucketRows entry.1 entry.2)

/-- `_sync` after its transaction. -/
def writeBatch (dimension : ℕ) (outside : Outside) (snapshot : Snapshot) : Job Unit := do
  deleteItems outside snapshot.deleted
  forM (batches 32 snapshot.pending) (embedBatch dimension outside snapshot.bucketRows)
  let work ← get
  if work.records = [] then pure ()
  else
    upsert dimension outside work.records
    modify fun work => { work with indexed := work.indexed + work.records.length }

/-- `_finish_state`. -/
def finishState (snapshot : Snapshot) (indexed : ℕ) (state : IndexState) : IndexState :=
  { state with
    sequence := snapshot.sequence
    targetSequence := snapshot.target
    status := if snapshot.target ≤ snapshot.sequence then .ready else .idle
    processedChanges := state.processedChanges + snapshot.itemIds.length
    indexedChunks := state.indexedChunks + indexed
    lastError := none }

/-- `_finish_state` of an error. -/
def failState (error : Str) (state : IndexState) : IndexState :=
  { state with status := .error, lastError := some (error.take 1000) }

/-- The work of a sync, to its end or to its failure. -/
def syncWork (profile : Profile) (outside : Outside) (snapshot : Snapshot) (system : System) :
    System × Option IndexSyncResult :=
  match (writeBatch profile.dimension outside snapshot).run ⟨system.table, [], 0, 0, 0⟩ with
  | .ok _ work =>
    ({ system with
      table := work.table
      memory := snapshot.sequence
      state := if profile.isDurable then system.state.map (finishState snapshot work.indexed)
        else system.state
      flight := none },
      some ⟨snapshot.sequence, snapshot.itemIds.length, work.indexed, snapshot.deleted.length⟩)
  | .error error work =>
    ({ system with
      table := work.table
      state := if profile.isDurable then system.state.map (failState error) else system.state
      flight := none },
      none)

/-- `reset`. -/
def reset (profile : Profile) (system : System) : System :=
  { system with
    table := none
    memory := 0
    state := if profile.isDurable then
        some ⟨profile.generation, 0, system.store.changeLog.length, .idle, 0, 0, none⟩
      else system.state }

end AI2Apps.Knowledge
